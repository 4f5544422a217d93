import Cockpit.Common.WebResponse
import Cockpit.Lib.Run

namespace Cockpit

open Lib List Nat

/-!
# What is queued on a response and what is written

The bytes that were written and the bytes that wait are together what the calls queued, whatever
the stream takes at a time.  A block goes through the filters one after the other, and is framed
behind the last one.
-/

namespace WebResponse

/-! ### The output queue -/

/-- The bytes that wait to be written. -/
def pending (self : WebResponse) : Bytes := self.queue.flatten.drop self.partialOffset

/-- All bytes that were queued. -/
def text (self : WebResponse) : Bytes := self.written ++ self.pending

/-- The output queue of a response that did not fail to write. -/
structure OutInv (s : WebResponse) : Prop where
  offset : s.partialOffset ≤ (s.queue.headD []).length
  waits : s.queue ≠ [] → s.source
  source : s.source → s.flushing = false ∧ s.done = false
  ended : s.flushing ∨ s.done → s.complete
  complete : s.complete → s.source ∨ s.flushing ∨ s.done

/-- What a call can tell of a response stays the same. -/
structure Same (s t : WebResponse) : Prop where
  text : t.text = s.text
  complete : t.complete = s.complete
  chunked : t.chunked = s.chunked
  pushed : t.pushed = s.pushed
  count : t.count = s.count
  fullPath : t.fullPath = s.fullPath
  method : t.method = s.method
  cacheType : t.cacheType = s.cacheType
  keepAlive : t.keepAlive = s.keepAlive
  filters : t.filters = s.filters
  failed : s.complete = false → t.failed = s.failed

variable {s : WebResponse}

theorem Same.refl (s : WebResponse) : Same s s :=
  ⟨rfl, rfl, rfl, rfl, rfl, rfl, rfl, rfl, rfl, rfl, fun _ => rfl⟩

variable {t u : WebResponse}

theorem Same.trans (h : Same s t) (h' : Same t u) : Same s u where
  text := h'.text.trans h.text
  complete := h'.complete.trans h.complete
  chunked := h'.chunked.trans h.chunked
  pushed := h'.pushed.trans h.pushed
  count := h'.count.trans h.count
  fullPath := h'.fullPath.trans h.fullPath
  method := h'.method.trans h.method
  cacheType := h'.cacheType.trans h.cacheType
  keepAlive := h'.keepAlive.trans h.keepAlive
  filters := h'.filters.trans h.filters
  failed := fun hopen => (h'.failed (h.complete.trans hopen)).trans (h.failed hopen)

variable {blocks : List Bytes} {block : Bytes}

theorem pending_of_queue_eq
    (hqueue : s.queue = block :: blocks) (hle : s.partialOffset ≤ block.length) :
    s.pending = block.drop s.partialOffset ++ blocks.flatten := by
  rw [pending, hqueue, flatten_cons, drop_append_of_le_length hle]

/-- What `on_response_output` can do, short of an error. -/
theorem onResponseOutput_cases {result : WriteResult} (hres : result ≠ .error) :
    (s.queue = [] ∧ s.onResponseOutput result =
      { s with source := false, flushing := s.flushing || s.complete }) ∨
    (s.queue ≠ [] ∧ result = .wouldBlock ∧ s.onResponseOutput result = s) ∨
    ∃ block blocks count, s.queue = block :: blocks ∧ count ≤ (block.drop s.partialOffset).length ∧
      (∀ room, result = .wrote room → 0 < room → count = 0 →
        (block.drop s.partialOffset).length = 0) ∧
      s.onResponseOutput result = s.tookBytes block blocks count := by
  unfold onResponseOutput
  split
  · rename_i hqueue
    exact Or.inl ⟨hqueue, rfl⟩
  rename_i block blocks hqueue
  simp only
  split
  · rename_i hempty
    exact Or.inr (Or.inr ⟨block, blocks, 0, hqueue, zero_le _, fun _ _ _ _ => hempty, rfl⟩)
  cases result with
  | wouldBlock => exact Or.inr (Or.inl ⟨by simp [hqueue], rfl, rfl⟩)
  | error => exact absurd rfl hres
  | wrote room =>
    refine Or.inr (Or.inr ⟨block, blocks, min room (block.drop s.partialOffset).length,
      hqueue, min_le_right _ _, ?_, rfl⟩)
    rintro _ ⟨rfl⟩ hroom hcount
    omega

/-- A source that finds the queue empty goes away, and the stream is flushed at the end. -/
theorem OutInv.emptied (h : OutInv s) (hsrc : s.source) (hqueue : s.queue = []) :
    OutInv { s with source := false, flushing := s.flushing || s.complete } := by
  have hquiet := h.source hsrc
  refine ⟨h.offset, fun hne => absurd hqueue hne, fun hfalse => Bool.noConfusion hfalse, ?_, ?_⟩
  · simp [hquiet]
  intro hcompl
  right; left
  simp only at hcompl
  simp [hcompl]

variable {count : Nat}

theorem OutInv.tookBytes (h : OutInv s) (hsrc : s.source) (hqueue : s.queue = block :: blocks)
    (hcount : count ≤ (block.drop s.partialOffset).length) :
    OutInv (s.tookBytes block blocks count) ∧ Same s (s.tookBytes block blocks count) := by
  have hoff : s.partialOffset ≤ block.length := by
    have := h.offset
    rwa [hqueue] at this
  have hpend := pending_of_queue_eq hqueue hoff
  unfold WebResponse.tookBytes
  simp only
  split
  · refine ⟨{ h with offset := zero_le _, waits := fun _ => hsrc },
      ?_, rfl, rfl, rfl, rfl, rfl, rfl, rfl, rfl, rfl, fun _ => rfl⟩
    rw [text, text, hpend, ← append_assoc]
    rfl
  have hle : s.partialOffset + count ≤ block.length := by
    rw [length_drop] at hcount
    omega
  refine ⟨{ h with offset := ?_ },
    ?_, rfl, rfl, rfl, rfl, rfl, rfl, rfl, rfl, rfl, fun _ => rfl⟩
  · rw [hqueue]
    exact hle
  rw [text, text, hpend]
  have hrest : (s.queue.flatten).drop (s.partialOffset + count) =
      (block.drop s.partialOffset).drop count ++ blocks.flatten := by
    rw [hqueue, flatten_cons, drop_append_of_le_length hle, drop_drop]
  change (s.written ++ (block.drop s.partialOffset).take count) ++
    (s.queue.flatten).drop (s.partialOffset + count) = _
  rw [hrest, append_assoc, ← append_assoc (List.take _ _), take_append_drop]

/-- **Writing keeps the text**, however much the stream takes. -/
theorem OutInv.onResponseOutput (h : OutInv s) (hsrc : s.source)
    {result : WriteResult} (hres : result ≠ .error) :
    OutInv (s.onResponseOutput result) ∧ Same s (s.onResponseOutput result) := by
  obtain ⟨hqueue, heq⟩ | ⟨-, -, heq⟩ | ⟨block, blocks, count, hqueue, hcount, -, heq⟩ :=
    @onResponseOutput_cases s result hres
  · rw [heq]
    exact ⟨h.emptied hsrc hqueue, rfl, rfl, rfl, rfl, rfl, rfl, rfl, rfl, rfl, rfl, fun _ => rfl⟩
  · rw [heq]
    exact ⟨h, Same.refl s⟩
  · rw [heq]
    exact h.tookBytes hsrc hqueue hcount

/-- The flush of the stream being done changes nothing that a call can tell. -/
theorem OutInv.onOutputFlushed (h : OutInv s) (hflsh : s.flushing) (success : Bool) :
    OutInv (s.onOutputFlushed success) ∧ Same s (s.onOutputFlushed success) := by
  have hcompl := h.ended (Or.inl hflsh)
  have hqueue : s.queue = [] := by
    by_contra hne
    rw [(h.source (h.waits hne)).1] at hflsh
    exact Bool.noConfusion hflsh
  refine ⟨⟨h.offset, fun hne => absurd hqueue hne, fun hfalse => Bool.noConfusion hfalse,
    fun _ => hcompl, fun _ => Or.inr (Or.inr rfl)⟩,
    rfl, rfl, rfl, rfl, rfl, rfl, rfl, rfl, rfl, rfl, fun hopen => ?_⟩
  rw [hopen] at hcompl
  exact Bool.noConfusion hcompl

/-! ### Calls -/

theorem pending_append (h : OutInv s) :
    (s.queue ++ blocks).flatten.drop s.partialOffset = s.pending ++ blocks.flatten := by
  have hle : s.partialOffset ≤ s.queue.flatten.length := by
    refine le_trans h.offset ?_
    cases s.queue with
    | nil => exact zero_le _
    | cons block blocks => simp
  rw [pending, flatten_append, drop_append_of_le_length hle]

/-- What queueing changes: the text grows. -/
structure Queued (s t : WebResponse) (bytes : Bytes) : Prop where
  text : t.text = s.text ++ bytes
  complete : t.complete = s.complete
  chunked : t.chunked = s.chunked
  pushed : t.pushed = s.pushed
  flushing : t.flushing = s.flushing
  done : t.done = s.done
  failed : t.failed = s.failed
  method : t.method = s.method
  filters : t.filters = s.filters

theorem Queued.trans {a b : Bytes} (h : Queued s t a) (h' : Queued t u b) :
    Queued s u (a ++ b) where
  text := by rw [h'.text, h.text, append_assoc]
  complete := h'.complete.trans h.complete
  chunked := h'.chunked.trans h.chunked
  pushed := h'.pushed.trans h.pushed
  flushing := h'.flushing.trans h.flushing
  done := h'.done.trans h.done
  failed := h'.failed.trans h.failed
  method := h'.method.trans h.method
  filters := h'.filters.trans h.filters

theorem OutInv.queueBytes (h : OutInv s) (hquiet : s.flushing = false ∧ s.done = false)
    (block : Bytes) : OutInv (s.queueBytes block) ∧ Queued s (s.queueBytes block) block := by
  have hsrc : (s.queueBytes block).source := by
    simp [WebResponse.queueBytes, hquiet.2]
  refine ⟨⟨?_, fun _ => hsrc, fun _ => hquiet, h.ended, fun _ => Or.inl hsrc⟩,
    ?_, rfl, rfl, rfl, rfl, rfl, rfl, rfl, rfl⟩
  · have hoff := h.offset
    change s.partialOffset ≤ ((s.queue ++ [block]).headD []).length
    cases hqueue : s.queue with
    | nil =>
      rw [hqueue] at hoff
      exact le_trans hoff (zero_le _)
    | cons head blocks =>
      rw [hqueue] at hoff
      exact hoff
  · change s.written ++ (s.queue ++ [block]).flatten.drop s.partialOffset = _
    rw [pending_append h, text, append_assoc]
    simp

/-- The bytes of a block on the wire. -/
def framed (chunked : Bool) (block : Bytes) : Bytes :=
  if block.length = 0 then []
  else if !chunked then block
  else hexadecimal (block.length % 2 ^ 32) ++ crlf ++ block ++ crlf

theorem OutInv.queueBlock (h : OutInv s) (hquiet : s.flushing = false ∧ s.done = false)
    (block : Bytes) :
    OutInv (s.queueBlock block) ∧ Queued s (s.queueBlock block) (framed s.chunked block) := by
  unfold WebResponse.queueBlock framed
  split
  · exact ⟨h, (append_nil _).symm, rfl, rfl, rfl, rfl, rfl, rfl, rfl, rfl⟩
  split
  · exact h.queueBytes hquiet block
  have h1 := h.queueBytes hquiet (hexadecimal (block.length % 2 ^ 32) ++ crlf)
  have h2 := h1.1.queueBytes hquiet block
  have h3 := h2.1.queueBytes hquiet crlf
  exact ⟨h3.1, (h1.2.trans h2.2).trans h3.2⟩

theorem OutInv.queueBlocks (h : OutInv s) (hquiet : s.flushing = false ∧ s.done = false)
    (blocks : List Bytes) :
    OutInv (blocks.foldl WebResponse.queueBlock s) ∧
      Queued s (blocks.foldl WebResponse.queueBlock s) (blocks.flatMap (framed s.chunked)) := by
  induction blocks generalizing s with
  | nil => exact ⟨h, (append_nil _).symm, rfl, rfl, rfl, rfl, rfl, rfl, rfl, rfl⟩
  | cons block blocks ih =>
    have h1 := h.queueBlock hquiet block
    have hquiet' : (s.queueBlock block).flushing = false ∧ (s.queueBlock block).done = false := by
      rw [h1.2.flushing, h1.2.done]
      exact hquiet
    have h2 := ih h1.1 hquiet'
    rw [h1.2.chunked] at h2
    exact ⟨h2.1, h1.2.trans h2.2⟩

/-! ### Filters -/

/-- The blocks behind the filters: all of them through the first filter, and what comes out of it
    through the others. -/
def filtered : List WebFilter → List Bytes → List Bytes
  | [], blocks => blocks
  | filter :: filters, blocks => filtered filters (feed (filterPush filter) [] blocks).2

/-- One block at a time through all filters is all blocks through one filter at a time. -/
theorem feed_queueFilter (filters : List WebFilter) (blocks : List Bytes) :
    (feed (queueFilter filters) [] blocks).2 = filtered filters blocks := by
  induction filters generalizing blocks with
  | nil =>
    have hpass (pushed : List (List Bytes)) : (feed (queueFilter []) pushed blocks).2 = blocks := by
      induction blocks generalizing pushed with
      | nil => rfl
      | cons block blocks ih =>
        change [block] ++ (feed (queueFilter []) pushed blocks).2 = block :: blocks
        rw [ih]
        rfl
    exact hpass []
  | cons filter filters ih =>
    have hpipe (pushed : List (List Bytes)) :
        (feed (queueFilter (filter :: filters)) pushed blocks).2 =
          (feed (pipe (filterPush filter) (queueFilter filters))
            (pushed.headD [], pushed.tail) blocks).2 := by
      clear ih
      induction blocks generalizing pushed with
      | nil => rfl
      | cons block blocks ih =>
        simp only [feed]
        rw [ih]
        rfl
    rw [hpipe, feed_pipe]
    exact ih _

/-! ### Runs -/

/-- The call of an event. -/
def Event.call? : Event → Option Call
  | .call c => some c
  | .output _ => none
  | .flushed _ => none

/-- The calls of a run. -/
def callsOf (es : List Event) : List Call := es.filterMap Event.call?

/-- No write ends in an error. -/
def Event.Writes : Event → Prop
  | .output .error => False
  | _ => True

instance (e : Event) : Decidable e.Writes := by
  unfold Event.Writes
  split <;> infer_instance

/-- **Between the calls the text stays as it is.** -/
theorem OutInv.step (h : OutInv s) {e : Event} (hcall : e.call? = none) (he : e.Writes) :
    OutInv (step s e) ∧ Same s (step s e) := by
  cases e with
  | call call => exact absurd hcall (by simp [Event.call?])
  | output result =>
    have hres : result ≠ .error := by
      rintro rfl
      exact he
    by_cases hsrc : s.source
    · simpa [WebResponse.step, hsrc] using h.onResponseOutput hsrc hres
    · simpa [WebResponse.step, hsrc] using And.intro h (Same.refl s)
  | flushed success =>
    by_cases hflsh : s.flushing
    · simpa [WebResponse.step, hflsh] using h.onOutputFlushed hflsh success
    · simpa [WebResponse.step, hflsh] using And.intro h (Same.refl s)

variable {es : List Event}

/-- Events without calls. -/
theorem OutInv.run (h : OutInv s) (hcalls : callsOf es = []) (hes : ∀ e ∈ es, e.Writes) :
    OutInv (Lib.run WebResponse.step s es) ∧ Same s (Lib.run WebResponse.step s es) := by
  induction es generalizing s with
  | nil => exact ⟨h, Same.refl s⟩
  | cons e es ih =>
    rw [callsOf, filterMap_eq_nil_iff] at hcalls
    have h1 := h.step (hcalls e mem_cons_self) (hes e mem_cons_self)
    have h2 := ih h1.1 (filterMap_eq_nil_iff.mpr fun f hf =>
      hcalls f (mem_cons_of_mem e hf)) fun f hf => hes f (mem_cons_of_mem e hf)
    exact ⟨h2.1, h1.2.trans h2.2⟩

/-- A run with a first call: events without calls, the call, and the others. -/
theorem exists_call {call : Call} {calls : List Call}
    (h : callsOf es = call :: calls) : ∃ quiet others, es = quiet ++ .call call :: others ∧
      callsOf quiet = [] ∧ callsOf others = calls := by
  obtain ⟨quiet, e, others, rfl, hquiet, he, hothers⟩ := filterMap_eq_cons_iff.mp h
  have hcall : e = .call call := by
    cases e with
    | call other => simpa [Event.call?] using he
    | output result | flushed success => exact absurd he (by simp [Event.call?])
  exact ⟨quiet, others, by rw [hcall], filterMap_eq_nil_iff.mpr hquiet, hothers⟩

/-- A response that takes blocks. -/
structure Queueing (s : WebResponse) (filters : List WebFilter) (chunked : Bool) : Prop where
  out : OutInv s
  complete : s.complete = false
  failed : s.failed = false
  method : s.method.map CStr.bytes ≠ some (ascii "HEAD")
  filters : s.filters = filters
  chunked : s.chunked = chunked

variable {filters : List WebFilter} {chunked : Bool}

section

variable (h : Queueing s filters chunked)

include h

theorem Queueing.quiet :
    s.flushing = false ∧ s.done = false := by
  have hended := h.out.ended
  rw [h.complete] at hended
  simpa using hended

theorem Queueing.same (hout : OutInv t) (hsame : Same s t) : Queueing t filters chunked where
  out := hout
  complete := hsame.complete.trans h.complete
  failed := (hsame.failed h.complete).trans h.failed
  method := by rw [hsame.method]; exact h.method
  filters := hsame.filters.trans h.filters
  chunked := hsame.chunked.trans h.chunked

/-- A block that is queued. -/
theorem Queueing.queueData (block : Bytes) :
    Queueing (s.queueData block).1 filters chunked ∧
      (s.queueData block).1.pushed = (queueFilter filters s.pushed block).1 ∧
      (s.queueData block).1.text =
        s.text ++ (queueFilter filters s.pushed block).2.flatMap (framed chunked) := by
  have hout : OutInv { s with pushed := (queueFilter filters s.pushed block).1 } :=
    ⟨h.out.offset, h.out.waits, h.out.source, h.out.ended, h.out.complete⟩
  have hblocks := hout.queueBlocks h.quiet (queueFilter filters s.pushed block).2
  have heq : (s.queueData block).1 = (queueFilter filters s.pushed block).2.foldl queueBlock
      { s with pushed := (queueFilter filters s.pushed block).1 } := by
    simp [WebResponse.queueData, h.complete, h.failed, h.method, h.filters]
  rw [heq]
  obtain ⟨hout', hqueue⟩ := hblocks
  refine ⟨⟨hout', hqueue.complete.trans h.complete, hqueue.failed.trans h.failed, ?_,
    hqueue.filters.trans h.filters, hqueue.chunked.trans h.chunked⟩, hqueue.pushed, ?_⟩
  · rw [hqueue.method]
    exact h.method
  · rw [hqueue.text]
    simp only [h.chunked]
    rfl

/-- **Queueing blocks**, whatever is written between the calls. -/
theorem Queueing.run (hcalls : callsOf es = blocks.map .queue)
    (hes : ∀ e ∈ es, e.Writes) :
    Queueing (Lib.run step s es) filters chunked ∧
      (Lib.run step s es).text =
        s.text ++ (feed (queueFilter filters) s.pushed blocks).2.flatMap (framed chunked) := by
  induction blocks generalizing s es with
  | nil =>
    have hrun := h.out.run hcalls hes
    exact ⟨h.same hrun.1 hrun.2, by rw [hrun.2.text]; exact (append_nil _).symm⟩
  | cons block blocks ih =>
    obtain ⟨quiet, others, rfl, hquiet, hothers⟩ := exists_call hcalls
    have hbef := h.out.run hquiet fun e he => hes e (mem_append_left _ he)
    have hqueue := (h.same hbef.1 hbef.2).queueData block
    have hafter := ih hqueue.1 hothers fun e he =>
      hes e (mem_append_right _ (mem_cons_of_mem _ he))
    rw [run_append, run_cons]
    refine ⟨hafter.1, ?_⟩
    refine hafter.2.trans ?_
    change (WebResponse.queueData _ block).1.text ++ _ = _
    rw [hqueue.2.2, hbef.2.text, feed, flatMap_append, append_assoc]
    change _ ++ (_ ++ (feed _ (WebResponse.queueData _ block).1.pushed blocks).2.flatMap _) = _
    rw [hqueue.2.1, hbef.2.pushed]

end

theorem outInv_new (fullPath method : Option CStr) (cacheType : CacheType) (keepAlive : Bool)
    (filters : List WebFilter) : OutInv (new fullPath method cacheType keepAlive filters) where
  offset := le_refl 0
  waits := fun hne => absurd rfl hne
  source := fun hfalse => Bool.noConfusion hfalse
  ended := by rintro (hfalse | hfalse) <;> exact Bool.noConfusion hfalse
  complete := fun hfalse => Bool.noConfusion hfalse

/-- What the first call queues. -/
theorem OutInv.headersSeen (h : OutInv s) (hcount : s.count = 0) (hcompl : s.complete = false)
    (status : UInt32) (reason : CStr) (length : Int) (appended : Bytes × List SeenHeader) :
    let block := s.finishHeaders (beginHeaders status reason ++ appended.1) length
      (toGint status) appended.2
    OutInv (s.headersSeen status reason length appended) ∧
      Queued { s with chunked := block.2 } (s.headersSeen status reason length appended)
        block.1 := by
  intro block
  have hquiet : s.flushing = false ∧ s.done = false := by
    have hended := h.ended
    rw [hcompl] at hended
    simpa using hended
  have hout : OutInv { s with chunked := block.2 } :=
    { h with }
  have heq : s.headersSeen status reason length appended =
      { s with chunked := block.2 }.queueBytes block.1 := by
    rw [WebResponse.headersSeen, if_neg (by rw [hcount]; decide)]
  rw [heq]
  exact hout.queueBytes hquiet block.1

/-- The last call queues the end of a chunked body. -/
theorem OutInv.completeData (h : OutInv s) (hcompl : s.complete = false)
    (hfail : s.failed = false) :
    OutInv s.completeData ∧ s.completeData.complete ∧
      s.completeData.text = s.text ++ (if s.chunked then lastChunk else []) := by
  have hquiet : s.flushing = false ∧ s.done = false := by
    have hended := h.ended
    rw [hcompl] at hended
    simpa using hended
  have hclos := h.queueBytes hquiet lastChunk
  have hended : OutInv { (s.queueBytes lastChunk) with complete := true } :=
    ⟨hclos.1.offset, hclos.1.waits, hclos.1.source, fun _ => rfl,
      fun _ => Or.inl (by simp [WebResponse.queueBytes, hquiet.2])⟩
  cases hchunk : s.chunked with
  | true =>
    have heq : s.completeData = { (s.queueBytes lastChunk) with complete := true } := by
      simp [WebResponse.completeData, hcompl, hfail, hchunk, WebResponse.queueBytes, hquiet.2]
    rw [heq]
    exact ⟨hended, rfl, hclos.2.text⟩
  | false =>
    by_cases hsrc : s.source
    · have heq : s.completeData = { s with complete := true } := by
        simp [WebResponse.completeData, hcompl, hfail, hchunk, hsrc]
      rw [heq]
      exact ⟨⟨h.offset, h.waits, h.source, fun _ => rfl, fun _ => Or.inl hsrc⟩,
        rfl, (append_nil _).symm⟩
    have heq : s.completeData = { s with complete := true, flushing := true } := by
      simp [WebResponse.completeData, hcompl, hfail, hchunk, hsrc]
    rw [heq]
    exact ⟨⟨h.offset, h.waits, fun hfalse => absurd hfalse hsrc, fun _ => rfl,
      fun _ => Or.inr (Or.inl rfl)⟩, rfl, (append_nil _).symm⟩

theorem Queueing.completeData (h : Queueing s filters chunked) :
    OutInv s.completeData ∧ s.completeData.complete ∧
      s.completeData.text = s.text ++ (if chunked then lastChunk else []) := by
  rw [← h.chunked]
  exact h.out.completeData h.complete h.failed

/-! ### Everything is written -/

/-- What waits gets less by each write. -/
theorem OutInv.length_tookBytes (h : OutInv s) (hsrc : s.source) (hqueue : s.queue = block :: blocks)
    (hcount : count ≤ (block.drop s.partialOffset).length)
    (hzero : count = 0 → (block.drop s.partialOffset).length = 0) :
    (s.tookBytes block blocks count).pending.length +
        (s.tookBytes block blocks count).queue.length < s.pending.length + s.queue.length := by
  have htext := congrArg List.length (h.tookBytes hsrc hqueue hcount).2.text
  simp only [text, List.length_append] at htext
  revert htext
  unfold WebResponse.tookBytes
  simp only
  split
  · -- the whole block is written, and leaves the queue
    rename_i hall
    intro htext
    have hwrit : (s.written ++ block.drop s.partialOffset).length =
      s.written.length + (block.drop s.partialOffset).length := List.length_append
    simp only [hqueue, length_cons] at htext ⊢
    omega
  rename_i hshort
  intro htext
  have hwrit : (s.written ++ (block.drop s.partialOffset).take count).length =
      s.written.length + count := by
    rw [List.length_append, length_take, min_eq_left hcount]
  have hpos : count ≠ 0 := fun h0 => hshort (by rw [h0, hzero h0])
  simp only at htext ⊢
  omega

variable {rooms : List Nat}

/-- A stream that takes something at each write empties the queue. -/
theorem OutInv.queue_run (h : OutInv s) (hrooms : ∀ room ∈ rooms, 0 < room)
    (hlong : s.pending.length + s.queue.length ≤ rooms.length) :
    (Lib.run WebResponse.step s (rooms.map fun room => .output (.wrote room))).queue = [] := by
  induction rooms generalizing s with
  | nil =>
    change s.queue = []
    rw [length_nil] at hlong
    exact length_eq_zero_iff.mp (by omega)
  | cons room rooms ih =>
    have hstep := h.step (rfl : (Event.output (.wrote room)).call? = none) trivial
    have hroom : 0 < room := hrooms room mem_cons_self
    apply ih hstep.1 fun r hr => hrooms r (mem_cons_of_mem room hr)
    by_cases hsrc : s.source
    · have hnext : WebResponse.step s (.output (.wrote room)) =
          s.onResponseOutput (.wrote room) := by
        simp [WebResponse.step, hsrc]
      rw [hnext]
      obtain ⟨hqueue, heq⟩ | ⟨-, hfalse, -⟩ | ⟨block, blocks, count, hqueue, hcount, hzero, heq⟩ :=
        @onResponseOutput_cases s (.wrote room) (by simp)
      · rw [heq]
        have hpend : s.pending = [] := by simp [pending, hqueue]
        change s.pending.length + s.queue.length ≤ _
        rw [hpend, hqueue]
        exact zero_le _
      · exact nomatch hfalse
      have hless := h.length_tookBytes hsrc hqueue hcount (hzero room rfl hroom)
      rw [heq]
      rw [length_cons] at hlong
      omega
    have hqueue : s.queue = [] := by
      by_contra hne
      exact hsrc (h.waits hne)
    have hpend : s.pending = [] := by simp [pending, hqueue]
    have hnext : WebResponse.step s (.output (.wrote room)) = s := by
      simp [WebResponse.step, hsrc]
    rw [hnext, hpend, hqueue]
    exact zero_le _

theorem written_of_queue_nil (h : s.queue = []) : s.written = s.text := by
  rw [text, pending, h, flatten_nil, drop_nil, append_nil]

/-- When the output is flushed, all of it was written. -/
theorem OutInv.written_of_ended (h : OutInv s) (hended : s.flushing ∨ s.done) :
    s.written = s.text := by
  apply written_of_queue_nil
  -- a source would still be there for a block that waits
  by_contra hne
  have hquiet := h.source (h.waits hne)
  rw [hquiet.1, hquiet.2] at hended
  exact hended.elim Bool.noConfusion Bool.noConfusion

/-- A stream that takes something at each write gets the whole text. -/
theorem OutInv.written_run (h : OutInv s) (hrooms : ∀ room ∈ rooms, 0 < room)
    (hlong : s.pending.length + s.queue.length ≤ rooms.length) :
    (Lib.run WebResponse.step s (rooms.map fun room => .output (.wrote room))).written =
      s.text := by
  have hempty := h.queue_run hrooms hlong
  have hsame := h.run (by simp [callsOf, Event.call?]) (by
    intro e he
    obtain ⟨room, -, rfl⟩ := mem_map.mp he
    trivial : ∀ e ∈ rooms.map fun room => Event.output (.wrote room), e.Writes)
  rw [written_of_queue_nil hempty]
  exact hsame.2.text

end WebResponse

end Cockpit
