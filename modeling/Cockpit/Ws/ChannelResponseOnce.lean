import Cockpit.Lib.Run
import Cockpit.Ws.ChannelResponse

namespace Cockpit.Ws.ChannelResponse

open Lib List Bool Option ChannelResponse

/-!
# Channel responses are finished exactly once

* `Fresh`, `Streaming`, `Over` — the phases of a response, kept message by message;
* `run_finished_once` — the statement for all runs that meet the condition.
-/

/-! ## Histories -/

/-- How a response ends: it is completed, aborted, or its stream fails before that. -/
inductive Ending where
  | completed
  | aborted
  | failed
  deriving DecidableEq

variable (entry : Entry)

/-- Whether the call fails a check of `cockpit_web_response_queue`, `complete`, `abort` or
    `headers_full`. -/
def Entry.fires : Bool :=
  match entry.event with
  | .call (.headersFull ..) => decide (0 < entry.before.count)
  | .call (.queue _) | .call .complete | .call .abort => entry.before.complete
  | _ => false

/-- The status of the header block that was queued. -/
def Entry.head : Option UInt32 :=
  match entry.event with
  | .call (.headersFull status ..) | .call (.headers status ..) =>
    if 0 < entry.before.count then none else some status
  | _ => none

/-- The end that a response came to. -/
def Entry.ending : Option Ending :=
  if entry.before.complete || entry.before.failed then none
  else
    match entry.event with
    | .call .complete => some .completed
    | .call .abort => some .aborted
    | .output result =>
      if (entry.before.step (.output result)).failed then some .failed else none
    | _ => none

/-- The header blocks of a history. -/
def headsOf (log : List Entry) : List UInt32 := log.filterMap Entry.head

/-- The ends of a history. -/
def endingsOf (log : List Entry) : List Ending := log.filterMap Entry.ending

/-- The codes of error pages. -/
def errorCodes : List UInt32 := [404, 502, 500]

/-- At most one header block and one end, exactly one each once the channel is closed, and no
    success for a channel that failed. -/
structure FinishedOnce (s : ChannelResponse) : Prop where
  guards : ∀ entry ∈ s.log, entry.fires = false
  heads : (headsOf s.log).length ≤ 1
  endings : (endingsOf s.log).length ≤ 1
  closed : s.closed.isSome → (headsOf s.log).length = 1 ∧ (endingsOf s.log).length = 1
  failed : ∀ problem, s.closed = some (some problem) → .completed ∈ endingsOf s.log →
    ∀ status ∈ headsOf s.log, status ∈ errorCodes

/-! ## The condition -/

/-- What a message asks for. -/
inductive Action where
  | ignore
  | queue
  | respond (valid : Bool)
  | done
  | close (problem : Bool)
  deriving DecidableEq

/-- What a message asks for, while the handlers are connected. -/
def action (S : Setup) (s : ChannelResponse) : Event → Action
  | .recv channel payload =>
    if channel ≠ some s.channel then .ignore
    else if !s.httpstreamRecv then .queue
    else if getState s.response ≠ .ready then .ignore
    else .respond (match S.parse payload with
      | none => false
      | some object => (s.parseHttpstreamResponse object).2.isSome)
  | .control command channel options =>
    if channel ≠ some s.channel then .ignore
    else if s.httpstreamControl && command == "response" then
      .respond (s.parseHttpstreamResponse options).2.isSome
    else if command = "done" then .done
    else if command = "close" then
      .close (decide (Json.getString options "problem" none ≠ some none))
    else .ignore
  | .transportClosed _ => .close true
  | _ => .ignore

/-- The actions that a response must not be complete for. -/
def Action.writes : Action → Bool
  | .queue | .respond false | .done | .close true => true
  | .ignore | .respond true | .close false => false

/-- While the channel is open: after "done" or an error reply nothing comes but a "close" without
    a problem or headers that are valid, and the counter of blocks has not come around to zero when
    headers are due. -/
structure Meets (S : Setup) (s : ChannelResponse) (e : Event) : Prop where
  incomplete : s.closed = none → (action S s e).writes → s.response.complete = false
  counted : s.closed = none → action S s e ≠ .ignore → getState s.response = .ready ∨
    (action S s e = .respond false ∧ s.response.count = 0) → headsOf s.log = []

/-! ## What the calls leave alone -/

/-- The flags of a response stay as they are. -/
structure Flags (r r' : WebResponse) : Prop where
  complete : r'.complete = r.complete
  failed : r'.failed = r.failed
  done : r'.done = r.done
  flushing : r'.flushing = r.flushing

theorem Flags.refl (r : WebResponse) : Flags r r := ⟨rfl, rfl, rfl, rfl⟩

variable {r : WebResponse}

theorem Flags.trans {r' r₂ : WebResponse} (h : Flags r r') (h' : Flags r' r₂) : Flags r r₂ :=
  ⟨h'.complete.trans h.complete, h'.failed.trans h.failed, h'.done.trans h.done,
    h'.flushing.trans h.flushing⟩

section

variable (r : WebResponse)

theorem flags_queueBytes (block : Bytes) : Flags r (r.queueBytes block) :=
  ⟨rfl, rfl, rfl, rfl⟩

theorem flags_queueBlock (block : Bytes) : Flags r (r.queueBlock block) := by
  unfold WebResponse.queueBlock
  split
  · exact .refl r
  · split
    · exact flags_queueBytes r block
    · exact ⟨rfl, rfl, rfl, rfl⟩

theorem flags_queueData (block : Bytes) : Flags r (r.queueData block).1 := by
  have hblocks : ∀ (blocks : List Bytes) (r : WebResponse),
      Flags r (blocks.foldl WebResponse.queueBlock r) := by
    intro blocks
    induction blocks with
    | nil => exact .refl
    | cons block blocks ih => exact fun r => (flags_queueBlock r block).trans (ih _)
  unfold WebResponse.queueData
  split
  · exact .refl r
  split
  · exact .refl r
  split
  · exact .refl r
  · have hpushed : ∀ pushed, Flags r { r with pushed := pushed } := fun _ =>
      ⟨rfl, rfl, rfl, rfl⟩
    exact (hpushed _).trans (hblocks _ _)

theorem flags_headersSeen (status : UInt32) (reason : CStr) (length : Int)
    (appended : Bytes × List SeenHeader) :
    Flags r (r.headersSeen status reason length appended) := by
  unfold WebResponse.headersSeen
  split
  · exact .refl r
  · exact ⟨rfl, rfl, rfl, rfl⟩

/-- The main loop writes: the response is not complete for that, and fails with its stream. -/
theorem step_output (result : WriteResult) :
    (r.step (.output result)).complete = r.complete ∧
      ((r.step (.output result)).flushing → r.flushing ∨ r.complete) ∧
      (((r.step (.output result)).failed = r.failed ∧ (r.step (.output result)).done = r.done) ∨
        ((r.step (.output result)).failed ∧ (r.step (.output result)).done)) := by
  unfold WebResponse.step
  dsimp only
  split
  · unfold WebResponse.onResponseOutput
    split
    · refine ⟨rfl, fun h => ?_, .inl ⟨rfl, rfl⟩⟩
      simpa using h
    rename_i block blocks _
    have htook : ∀ count, (r.tookBytes block blocks count).complete = r.complete ∧
        ((r.tookBytes block blocks count).flushing → r.flushing ∨ r.complete) ∧
        (((r.tookBytes block blocks count).failed = r.failed ∧
          (r.tookBytes block blocks count).done = r.done) ∨
            ((r.tookBytes block blocks count).failed ∧
              (r.tookBytes block blocks count).done)) := by
      intro count
      unfold WebResponse.tookBytes
      dsimp only
      split <;> exact ⟨rfl, .inl, .inl ⟨rfl, rfl⟩⟩
    dsimp only
    split
    · exact htook 0
    split
    · exact ⟨rfl, .inl, .inl ⟨rfl, rfl⟩⟩
    · exact ⟨rfl, .inl, .inr ⟨rfl, rfl⟩⟩
    · exact htook _
  · exact ⟨rfl, .inl, .inl ⟨rfl, rfl⟩⟩

end

/-! ## Phases -/

/-- A history without failed checks, with its header blocks and ends. -/
structure Phase (s : ChannelResponse) (heads : List UInt32) (endings : List Ending) : Prop where
  guards : ∀ entry ∈ s.log, entry.fires = false
  heads : headsOf s.log = heads
  endings : endingsOf s.log = endings
  flushing : s.response.flushing → s.response.complete

/-- Nothing was done to the response. -/
structure Fresh (s : ChannelResponse) : Prop extends Phase s [] [] where
  count : s.response.count = 0
  complete : s.response.complete = false
  failed : s.response.failed = false
  done : s.response.done = false
  source : s.response.source = false

/-- The headers are sent, and the response has not come to an end. -/
structure Streaming (s : ChannelResponse) (status : UInt32) : Prop extends
    Phase s [status] [] where
  complete : s.response.complete = false
  failed : s.response.failed = false
  done : s.response.done = false

/-- The response has come to its end. -/
structure Over (s : ChannelResponse) (status : UInt32) (ending : Ending) : Prop extends
    Phase s [status] [ending] where
  idle : s.response.complete = false → s.response.failed ∧ s.response.done
  lost : s.response.complete = false → ending = .failed

variable {S : Setup} {s s' : ChannelResponse} {status : UInt32} {ending : Ending}
  {heads : List UInt32} {endings : List Ending}

/-- One more event that fails no check. -/
theorem Phase.onResponse (h : Phase s heads endings) (event : WebResponse.Event)
    (hfires : (Entry.mk event s.response).fires = false)
    (hflsh : (s.response.step event).flushing → (s.response.step event).complete) :
    Phase (s.onResponse event) (heads ++ (Entry.mk event s.response).head.toList)
      (endings ++ (Entry.mk event s.response).ending.toList) where
  guards entry hmem := by
    rcases mem_append.mp hmem with hold | hnew
    · exact h.guards entry hold
    · rw [mem_singleton.mp hnew]
      exact hfires
  heads := by
    show headsOf (s.log ++ [⟨event, s.response⟩]) = _
    unfold headsOf
    rw [filterMap_append, ← h.heads]
    cases hhead : (Entry.mk event s.response).head <;> simp [headsOf, hhead]
  endings := by
    show endingsOf (s.log ++ [⟨event, s.response⟩]) = _
    unfold endingsOf
    rw [filterMap_append, ← h.endings]
    cases hend : (Entry.mk event s.response).ending <;> simp [endingsOf, hend]
  flushing := hflsh

variable {c : WebResponse.Call}

/-- A call that fails no check, queues no headers and does not end the response. -/
theorem Phase.keep (h : Phase s heads endings)
    (hfires : (Entry.mk (.call c) s.response).fires = false)
    (hhead : (Entry.mk (.call c) s.response).head = none)
    (hend : (Entry.mk (.call c) s.response).ending = none)
    (hflags : Flags s.response (s.response.perform c)) : Phase (s.call c) heads endings := by
  have hphase := h.onResponse (.call c) hfires fun hflush => by
    have hbef : s.response.flushing := hflags.flushing.symm.trans hflush
    exact hflags.complete.trans (h.flushing hbef)
  rw [hhead, hend, toList_none, append_nil, toList_none, append_nil] at hphase
  exact hphase

/-! ### Calls -/

/-- The first headers. -/
theorem Fresh.head (h : Fresh s) (c : WebResponse.Call) (reason : CStr) (length : Int)
    (appended : Bytes × List SeenHeader)
    (hperform : s.response.perform c = s.response.headersSeen status reason length appended)
    (hfires : (Entry.mk (.call c) s.response).fires = false)
    (hhead : (Entry.mk (.call c) s.response).head = some status)
    (hend : (Entry.mk (.call c) s.response).ending = none) :
    Streaming (s.call c) status := by
  have hflags : Flags s.response (s.response.perform c) := by
    rw [hperform]
    exact flags_headersSeen s.response status reason length appended
  have hphase := h.toPhase.onResponse (.call c) hfires fun hflush => by
    have hbef : s.response.flushing := hflags.flushing.symm.trans hflush
    exact hflags.complete.trans (h.flushing hbef)
  rw [hhead, hend] at hphase
  exact ⟨hphase, hflags.complete.trans h.complete, hflags.failed.trans h.failed,
    hflags.done.trans h.done⟩

theorem Fresh.ready (h : Fresh s) : getState s.response = .ready := by
  unfold getState
  rw [h.done, h.complete, h.count]
  rfl

/-- A block for a response that is not complete. -/
theorem Phase.queueBlock (h : Phase s heads endings) (hcomplete : s.response.complete = false)
    (block : Bytes) : Phase (s.call (.queue block)) heads endings := by
  apply h.keep
  · exact hcomplete
  · rfl
  · show (if _ then none else none) = (none : Option Ending)
    exact ite_self _
  · exact flags_queueData s.response block

theorem Streaming.queue (h : Streaming s status) (block : Bytes) :
    Streaming (s.call (.queue block)) status := by
  have hflags := flags_queueData s.response block
  exact ⟨h.toPhase.queueBlock h.complete block, hflags.complete.trans h.complete,
    hflags.failed.trans h.failed, hflags.done.trans h.done⟩

theorem Over.queue (h : Over s status ending) (hcomplete : s.response.complete = false)
    (block : Bytes) : Over (s.call (.queue block)) status ending := by
  have hflags := flags_queueData s.response block
  refine ⟨h.toPhase.queueBlock hcomplete block, fun _ => ?_, fun _ => h.lost hcomplete⟩
  obtain ⟨hfail, hdone⟩ := h.idle hcomplete
  exact ⟨hflags.failed.trans hfail, hflags.done.trans hdone⟩

theorem complete_completeData (hcomplete : r.complete = false)
    (hfail : r.failed = false) : r.completeData.complete := by
  unfold WebResponse.completeData
  rw [hcomplete, hfail]
  simp only [false_eq_true, if_false]
  split <;> (split <;> rfl)

/-- The end of a response, by a call. -/
theorem Streaming.finish (h : Streaming s status)
    (hfires : (Entry.mk (.call c) s.response).fires = s.response.complete)
    (hhead : (Entry.mk (.call c) s.response).head = none)
    (hend : (Entry.mk (.call c) s.response).ending =
      if s.response.complete || s.response.failed then none else some ending)
    (hcomplete : (s.response.perform c).complete) : Over (s.call c) status ending := by
  have hphase := h.toPhase.onResponse (.call c) (hfires.trans h.complete)
    fun _ => hcomplete
  rw [hhead, hend, h.complete, h.failed] at hphase
  exact ⟨hphase, fun hnot => absurd (hnot.symm.trans hcomplete) Bool.false_ne_true,
    fun hnot => absurd (hnot.symm.trans hcomplete) Bool.false_ne_true⟩

theorem Streaming.done_ (h : Streaming s status) : Over (s.call .complete) status .completed :=
  h.finish rfl rfl rfl (complete_completeData h.complete h.failed)

theorem Streaming.abort (h : Streaming s status) : Over (s.call .abort) status .aborted := by
  refine h.finish rfl rfl rfl ?_
  show (s.response.abort).complete
  unfold WebResponse.abort
  rw [h.complete, h.failed]
  rfl

/-- Nothing ends a response whose stream failed. -/
theorem Over.failed (h : Over s status ending) (hcomplete : s.response.complete = false) (hc : c = .complete ∨ c = .abort) :
    Over (s.call c) status ending := by
  obtain ⟨hfail, hdone⟩ := h.idle hcomplete
  have hsame : s.response.perform c = s.response := by
    rcases hc with rfl | rfl
    · show s.response.completeData = s.response
      unfold WebResponse.completeData
      rw [hcomplete, hfail]
      rfl
    show s.response.abort = s.response
    unfold WebResponse.abort
    rw [hcomplete, hfail]
    rfl
  have hend : (Entry.mk (.call c) s.response).ending = none := by
    unfold Entry.ending
    rw [hfail, Bool.or_true]
    rfl
  refine ⟨h.toPhase.keep ?_ ?_ hend ?_, fun _ => ?_, fun _ => h.lost hcomplete⟩
  · rcases hc with rfl | rfl <;> exact hcomplete
  · rcases hc with rfl | rfl <;> rfl
  · rw [hsame]
    exact .refl _
  · show (s.response.perform c).failed ∧ (s.response.perform c).done
    rw [hsame]
    exact ⟨hfail, hdone⟩

/-! ### Error replies -/

theorem queueData_continues (hcomplete : r.complete = false)
    (hfail : r.failed = false) (block : Bytes) : (r.queueData block).2 := by
  unfold WebResponse.queueData
  rw [hcomplete, hfail]
  simp only [false_eq_true, if_false]
  split <;> rfl

theorem Streaming.queueBlocks (h : Streaming s status) (blocks : List Bytes) :
    Over (s.queueBlocks blocks) status .completed := by
  induction blocks generalizing s with
  | nil => exact h.done_
  | cons block blocks ih =>
    unfold queueBlocks
    rw [if_pos (queueData_continues h.complete h.failed block)]
    exact ih (h.queue block)

theorem Over.queueBlocks (h : Over s status ending) (hcomplete : s.response.complete = false)
    (blocks : List Bytes) : Over (s.queueBlocks blocks) status ending := by
  cases blocks with
  | nil => exact h.failed hcomplete (.inl rfl)
  | cons block blocks =>
    have hstops : (s.response.queueData block).2 = false := by
      unfold WebResponse.queueData
      rw [hcomplete, (h.idle hcomplete).1]
      rfl
    unfold ChannelResponse.queueBlocks
    rw [if_neg (by rw [hstops]; exact Bool.false_ne_true)]
    exact h.queue hcomplete block

/-- The headers of an error page come too late. -/
theorem Phase.headersLate (h : Phase s heads endings) (hcount : s.response.count ≠ 0)
    (code : UInt32) (message : CStr) (length : Int) (va : List (CStr × Option CStr)) :
    Phase (s.call (.headers code message length va)) heads endings ∧
      (s.call (.headers code message length va)).response = s.response := by
  have hpos : 0 < s.response.count := UInt32.pos_iff_ne_zero.mpr hcount
  have hsame : s.response.perform (.headers code message length va) = s.response := by
    show s.response.headersSeen code message length _ = s.response
    unfold WebResponse.headersSeen
    rw [if_pos hpos]
  refine ⟨h.keep rfl ?_ ?_ ?_, hsame⟩
  · exact if_pos hpos
  · show (if _ then none else none) = (none : Option Ending)
    exact ite_self _
  · rw [hsame]
    exact .refl _

theorem Fresh.responseError (h : Fresh s) (code : UInt32) :
    Over (s.responseError S code) code .completed := by
  unfold ChannelResponse.responseError
  apply Streaming.queueBlocks
  refine h.head _ (errorMessage code) (-1) _ rfl rfl ?_ ?_
  · show (if 0 < s.response.count then none else some code) = some code
    rw [h.count]
    rfl
  · show (if _ then none else none) = (none : Option Ending)
    exact ite_self _

theorem Streaming.responseError (h : Streaming s status) (hcount : s.response.count ≠ 0)
    (code : UInt32) : Over (s.responseError S code) status .completed := by
  unfold ChannelResponse.responseError
  obtain ⟨hphase, hsame⟩ := h.toPhase.headersLate hcount code (errorMessage code) (-1)
    [(literal "Content-Type", some (literal "text/html; charset=utf8"))]
  apply Streaming.queueBlocks
  exact ⟨hphase, hsame ▸ h.complete, hsame ▸ h.failed, hsame ▸ h.done⟩

theorem Over.responseError (h : Over s status ending) (hcomplete : s.response.complete = false)
    (hcount : s.response.count ≠ 0) (code : UInt32) :
    Over (s.responseError S code) status ending := by
  unfold ChannelResponse.responseError
  obtain ⟨hphase, hsame⟩ := h.toPhase.headersLate hcount code (errorMessage code) (-1)
    [(literal "Content-Type", some (literal "text/html; charset=utf8"))]
  have hlate : Over (s.call (.headers code (errorMessage code) (-1)
      [(literal "Content-Type", some (literal "text/html; charset=utf8"))])) status ending :=
    ⟨hphase, hsame ▸ h.idle, hsame ▸ h.lost⟩
  apply hlate.queueBlocks
  rw [hsame]
  exact hcomplete

/-! ### Headers -/

theorem Fresh.ensureHeaders (h : Fresh s) (status : UInt32) (reason : CStr) :
    Streaming (s.ensureHeaders status reason).1 status := by
  unfold ChannelResponse.ensureHeaders
  rw [if_pos h.ready]
  dsimp only
  -- the injection changes the filters and the table of headers
  have hinjected : Fresh s.injected := by
    unfold injected
    split
    · split
      · exact ⟨{ h with }, h.count, h.complete, h.failed, h.done,
          h.source⟩
      · exact h
    · exact h
  generalize s.injected = t at hinjected ⊢
  have hcount : ¬ 0 < t.response.count := by
    rw [hinjected.count]
    decide
  generalize hc : WebResponse.Call.headersFull status reason (-1)
    (some (t.headers.map fun header => (header.1, some header.2))) = c
  have hperform : t.response.perform c = t.response.headersSeen status reason (-1)
      (WebResponse.appendTable (some (t.headers.map fun header => (header.1, some header.2)))) := by
    rw [← hc]
    rfl
  apply hinjected.head c reason (-1) _ hperform
  · rw [← hc]
    exact decide_eq_false hcount
  · rw [← hc]
    exact if_neg hcount
  · rw [← hc]
    show (if _ then none else none) = (none : Option Ending)
    exact ite_self _

/-- Nothing is sent when the headers went out before. -/
theorem ensureHeaders_late (h : getState s.response ≠ .ready) (status : UInt32) (reason : CStr) :
    (s.ensureHeaders status reason).1 = s := by
  unfold ensureHeaders
  rw [if_neg h]

/-! ## The invariant -/

/-- The phases of a channel response; a channel that failed was no success. -/
inductive Inv (s : ChannelResponse) : Prop where
  | fresh (h : Fresh s) (hopen : s.closed = none)
  | streaming (status : UInt32) (h : Streaming s status) (hopen : s.closed = none)
  | past (status : UInt32) (ending : Ending) (h : Over s status ending)
      (hfailed : ∀ problem, s.closed = some (some problem) → ending = .completed →
        status ∈ errorCodes)

theorem Inv.finishedOnce (h : Inv s) : FinishedOnce s := by
  cases h with
  | fresh h hopen =>
    refine ⟨h.guards, ?_, ?_, ?_, ?_⟩
    · rw [h.heads]
      exact Nat.zero_le 1
    · rw [h.endings]
      exact Nat.zero_le 1
    · rw [hopen]
      exact nofun
    · rw [hopen]
      exact nofun
  | streaming status h hopen =>
    refine ⟨h.guards, ?_, ?_, ?_, ?_⟩
    · rw [h.heads]
      exact Nat.le_refl 1
    · rw [h.endings]
      exact Nat.zero_le 1
    · rw [hopen]
      exact nofun
    · rw [hopen]
      exact nofun
  | past status ending h hfail =>
    refine ⟨h.guards, ?_, ?_, fun _ => ?_, fun problem hprob hcompl => ?_⟩
    · rw [h.heads]
      exact Nat.le_refl 1
    · rw [h.endings]
      exact Nat.le_refl 1
    · rw [h.heads, h.endings]
      exact ⟨rfl, rfl⟩
    rw [h.heads]
    rw [h.endings] at hcompl
    intro code hcode
    rw [mem_singleton.mp hcode]
    exact hfail problem hprob (mem_singleton.mp hcompl).symm

/-! ### What the phases do not look at -/

theorem Phase.congr (h : Phase s heads endings) (hresp : s'.response = s.response)
    (hlog : s'.log = s.log) : Phase s' heads endings :=
  ⟨hlog ▸ h.guards, hlog ▸ h.heads, hlog ▸ h.endings, hresp ▸ h.flushing⟩

theorem Fresh.congr (h : Fresh s) (hresp : s'.response = s.response)
    (hlog : s'.log = s.log) : Fresh s' :=
  ⟨h.toPhase.congr hresp hlog, hresp ▸ h.count, hresp ▸ h.complete,
    hresp ▸ h.failed, hresp ▸ h.done, hresp ▸ h.source⟩

theorem Streaming.congr (h : Streaming s status) (hresp : s'.response = s.response)
    (hlog : s'.log = s.log) : Streaming s' status :=
  ⟨h.toPhase.congr hresp hlog, hresp ▸ h.complete, hresp ▸ h.failed, hresp ▸ h.done⟩

theorem Over.congr (h : Over s status ending) (hresp : s'.response = s.response)
    (hlog : s'.log = s.log) : Over s' status ending :=
  ⟨h.toPhase.congr hresp hlog, hresp ▸ h.idle, hresp ▸ h.lost⟩

theorem Inv.congr (h : Inv s) (hresp : s'.response = s.response) (hlog : s'.log = s.log)
    (hclos : s'.closed = s.closed) : Inv s' := by
  cases h with
  | fresh h hopen => exact .fresh (h.congr hresp hlog) (hclos.trans hopen)
  | streaming status h hopen =>
    exact .streaming status (h.congr hresp hlog) (hclos.trans hopen)
  | past status ending h hfail =>
    exact .past status ending (h.congr hresp hlog) (hclos ▸ hfail)

theorem closed_ensureHeaders (s : ChannelResponse) (status : UInt32) (reason : CStr) :
    (s.ensureHeaders status reason).1.closed = s.closed := by
  unfold ensureHeaders
  split
  · show s.injected.closed = s.closed
    unfold injected
    split
    · split <;> rfl
    · rfl
  · rfl

theorem closed_queueBlocks (blocks : List Bytes) (s : ChannelResponse) :
    (s.queueBlocks blocks).closed = s.closed := by
  induction blocks generalizing s with
  | nil => rfl
  | cons block blocks ih =>
    unfold queueBlocks
    split
    · exact ih _
    · rfl

theorem closed_responseError (s : ChannelResponse) (code : UInt32) :
    (s.responseError S code).closed = s.closed := closed_queueBlocks _ _

/-- A response that is over while the channel is open. -/
theorem Inv.over_of_open (h : Over s status ending) (hopen : s.closed = none) : Inv s :=
  .past status ending h fun _ hclos => nomatch hopen.symm.trans hclos

/-! ### Messages -/

theorem not_ready_of_complete (h : s.response.complete) :
    getState s.response ≠ .ready := by
  unfold getState
  rw [h]
  split <;> exact nofun

/-- Headers that were sent are not due again, unless the counter came around to zero. -/
theorem not_ready_of_heads (hcount : getState s.response = .ready → headsOf s.log = [])
    (hheads : headsOf s.log = [status]) : getState s.response ≠ .ready := by
  intro hready
  exact nomatch (hcount hready).symm.trans hheads

section

variable (h : Inv s) (hopen : s.closed = none) (hcomplete : s.response.complete = false)

include h hopen hcomplete

/-- A payload. -/
theorem Inv.onTransportRecv
    (hcount : getState s.response = .ready → headsOf s.log = []) (payload : Bytes) :
    Inv (s.onTransportRecv payload) := by
  unfold ChannelResponse.onTransportRecv
  cases h with
  | fresh h _ =>
    exact .streaming 200 ((h.ensureHeaders 200 _).queue payload)
      ((closed_ensureHeaders s 200 _).trans hopen)
  | streaming status h _ =>
    rw [ensureHeaders_late (not_ready_of_heads hcount h.heads)]
    exact .streaming status (h.queue payload) hopen
  | past status ending h _ =>
    rw [ensureHeaders_late (not_ready_of_heads hcount h.heads)]
    exact .over_of_open (h.queue hcomplete payload) hopen

/-- A "done". -/
theorem Inv.done (hcount : getState s.response = .ready → headsOf s.log = []) :
    Inv ((s.ensureHeaders 200 (literal "OK")).1.call .complete) := by
  cases h with
  | fresh h _ =>
    exact .over_of_open (h.ensureHeaders 200 _).done_ ((closed_ensureHeaders s 200 _).trans hopen)
  | streaming status h _ =>
    rw [ensureHeaders_late (not_ready_of_heads hcount h.heads)]
    exact .over_of_open h.done_ hopen
  | past status ending h _ =>
    rw [ensureHeaders_late (not_ready_of_heads hcount h.heads)]
    exact .over_of_open (h.failed hcomplete (.inl rfl)) hopen

/-- An error page. -/
theorem Inv.responseError (hcnt : s.response.count = 0 → headsOf s.log = []) (code : UInt32) :
    Inv (s.responseError S code) := by
  have hopen' : (s.responseError S code).closed = none := (closed_responseError s code).trans hopen
  have hcount : ∀ {status}, headsOf s.log = [status] → s.response.count ≠ 0 :=
    fun hheads hzero => nomatch (hcnt hzero).symm.trans hheads
  cases h with
  | fresh h _ => exact .over_of_open (h.responseError code) hopen'
  | streaming status h _ => exact .over_of_open (h.responseError (hcount h.heads) code) hopen'
  | past status ending h _ =>
    exact .over_of_open (h.responseError hcomplete (hcount h.heads) code) hopen'

end

/-- Headers that are valid. -/
theorem Inv.ensureHeaders (h : Inv s) (hopen : s.closed = none)
    (hcount : getState s.response = .ready → headsOf s.log = []) (status : UInt32)
    (reason : CStr) : Inv (s.ensureHeaders status reason).1 := by
  cases h with
  | fresh h _ =>
    exact .streaming status (h.ensureHeaders status reason)
      ((closed_ensureHeaders s status reason).trans hopen)
  | streaming status' h _ =>
    rw [ensureHeaders_late (not_ready_of_heads hcount h.heads)]
    exact .streaming status' h hopen
  | past status' ending h hfail =>
    rw [ensureHeaders_late (not_ready_of_heads hcount h.heads)]
    exact .past status' ending h hfail

theorem parseHttpstreamResponse_same (s : ChannelResponse) (object : JsonObject) :
    (s.parseHttpstreamResponse object).1.response = s.response ∧
      (s.parseHttpstreamResponse object).1.log = s.log ∧
      (s.parseHttpstreamResponse object).1.closed = s.closed := by
  unfold parseHttpstreamResponse
  split
  · split <;> exact ⟨rfl, rfl, rfl⟩
  · exact ⟨rfl, rfl, rfl⟩

/-- The headers of an http-stream. -/
theorem Inv.httpstreamResponse (h : Inv s) (hopen : s.closed = none) {object : JsonObject}
    (hcomplete : (s.parseHttpstreamResponse object).2 = none → s.response.complete = false)
    (hcnt : getState s.response = .ready ∨
      ((s.parseHttpstreamResponse object).2 = none ∧ s.response.count = 0) →
        headsOf s.log = []) : Inv (s.httpstreamResponse S object) := by
  unfold ChannelResponse.httpstreamResponse
  obtain ⟨hresp, hlog, hclos⟩ := parseHttpstreamResponse_same s object
  generalize s.parseHttpstreamResponse object = parsed at *
  obtain ⟨t, valid⟩ := parsed
  have ht : Inv t := h.congr hresp hlog hclos
  have hopen' : t.closed = none := hclos.trans hopen
  cases valid with
  | none =>
    refine ht.responseError hopen' ?_ (fun hcount => ?_) 500
    · rw [hresp]
      exact hcomplete rfl
    · rw [hresp] at hcount
      rw [hlog]
      exact hcnt (.inr ⟨rfl, hcount⟩)
  | some headers =>
    refine ht.ensureHeaders hopen' (fun hready => ?_) _ _
    rw [hresp] at hready
    rw [hlog]
    exact hcnt (.inl hready)

/-- The channel closes. -/
theorem Inv.close (h : Inv s) {problem : Option String}
    (hcomplete : problem.isSome → s.response.complete = false)
    (hcnt : getState s.response = .ready → headsOf s.log = []) : Inv (s.close S problem) := by
  have herror : ∀ problem, problemCode problem ∈ errorCodes := by
    intro problem
    unfold problemCode errorCodes
    split
    · decide
    · split <;> decide
  unfold ChannelResponse.close
  cases h with
  | fresh h _ =>
    have hset : Fresh { s with closed := some problem } := h.congr rfl rfl
    dsimp only
    rw [h.ready]
    cases problem with
    | none =>
      refine .past 204 .completed (hset.ensureHeaders 204 _).done_ fun problem hprob => ?_
      exact nomatch (closed_ensureHeaders _ 204 _).symm.trans hprob
    | some problem =>
      exact .past _ .completed (hset.responseError _) fun _ _ _ => herror problem
  | streaming status h _ =>
    have hset : Streaming { s with closed := some problem } status := h.congr rfl rfl
    have hnot := not_ready_of_heads hcnt h.heads
    dsimp only
    have haborted : Inv (({ s with closed := some problem } : ChannelResponse).call .abort) :=
      .past status .aborted hset.abort nofun
    cases problem with
    | none =>
      dsimp only
      have hqueuing : getState s.response = .queuing := by
        unfold getState at hnot ⊢
        rw [h.done, h.complete] at hnot ⊢
        simp only [false_eq_true, if_false] at hnot ⊢
        exact if_neg fun hcount => hnot (if_pos hcount)
      rw [if_neg hnot, if_pos hqueuing]
      exact haborted
    | some problem =>
      dsimp only
      rw [if_neg hnot]
      exact haborted
  | past status ending h _ =>
    have hset : Over { s with closed := some problem } status ending := h.congr rfl rfl
    have hnot := not_ready_of_heads hcnt h.heads
    dsimp only
    cases problem with
    | none =>
      dsimp only
      have hended : getState s.response ≠ .queuing := by
        unfold getState
        split
        · exact nofun
        rename_i hdone
        split
        · exact nofun
        · rename_i hcompl'
          exact absurd (h.idle (by simpa using hcompl')).2 hdone
      rw [if_neg hnot, if_neg hended]
      exact .past status ending hset nofun
    | some problem =>
      dsimp only
      rw [if_neg hnot]
      have hinc := hcomplete rfl
      refine .past status ending (hset.failed hinc (.inr rfl)) fun _ _ hcompl => ?_
      exact nomatch (h.lost hinc).symm.trans hcompl

/-- The control messages that all channels know. -/
theorem Inv.onTransportControl (h : Inv s) (hopen : s.closed = none) {command : String}
    {options : JsonObject} (hdone : command = "done" → s.response.complete = false)
    (hclose : command = "close" → Json.getString options "problem" none ≠ some none →
      s.response.complete = false)
    (hcount : command = "done" ∨ command = "close" → getState s.response = .ready →
      headsOf s.log = []) : Inv (s.onTransportControl S command options) := by
  unfold ChannelResponse.onTransportControl
  split
  · rename_i heq
    exact h.done hopen (hdone heq) (hcount (.inl heq))
  split
  · rename_i heq
    split
    · rename_i hinval
      refine h.close (fun _ => hclose heq ?_) (hcount (.inr heq))
      rw [hinval]
      exact nofun
    rename_i problem hvalid
    refine h.close (fun hsome => hclose heq ?_) (hcount (.inr heq))
    rw [hvalid]
    rintro ⟨rfl⟩
    exact nomatch hsome
  · exact h

/-! ### The main loop -/

/-- The stream of the response takes bytes, or fails. -/
theorem Inv.output (h : Inv s) (result : WriteResult) : Inv (s.onResponse (.output result)) := by
  obtain ⟨hcomplete, hflsh, hfails⟩ := step_output s.response result
  have hphase : ∀ {heads endings}, Phase s heads endings →
      Phase (s.onResponse (.output result)) heads
        (endings ++ (Entry.mk (.output result) s.response).ending.toList) := by
    intro heads endings hphase
    have hnext := hphase.onResponse (.output result) rfl fun hflush => by
      rw [hcomplete]
      exact (hflsh hflush).elim hphase.flushing id
    rw [show (Entry.mk (.output result) s.response).head = none from rfl, toList_none,
      append_nil] at hnext
    exact hnext
  cases h with
  | fresh h hopen =>
    have hsame : s.response.step (.output result) = s.response := by
      unfold WebResponse.step
      dsimp only
      rw [h.source]
      rfl
    have hend : (Entry.mk (.output result) s.response).ending = none := by
      unfold Entry.ending
      dsimp only
      rw [hsame, h.failed, h.complete]
      rfl
    have hnext := hphase h.toPhase
    rw [hend] at hnext
    have hresp : (s.onResponse (.output result)).response = s.response := hsame
    exact .fresh ⟨hnext, hresp ▸ h.count, hresp ▸ h.complete, hresp ▸ h.failed,
      hresp ▸ h.done, hresp ▸ h.source⟩ hopen
  | streaming status h hopen =>
    have hnext := hphase h.toPhase
    have hend : (Entry.mk (.output result) s.response).ending =
        if (s.response.step (.output result)).failed then some .failed else none := by
      unfold Entry.ending
      rw [h.complete, h.failed]
      rfl
    rw [hend] at hnext
    rcases hfails with ⟨hfail, hdone⟩ | ⟨hfail, hdone⟩
    · rw [hfail, h.failed] at hnext
      exact .streaming status ⟨hnext, hcomplete.trans h.complete, hfail.trans h.failed,
        hdone.trans h.done⟩ hopen
    · rw [hfail] at hnext
      exact .over_of_open ⟨hnext, fun _ => ⟨hfail, hdone⟩, fun _ => rfl⟩ hopen
  | past status ending h hfail =>
    have hend : (Entry.mk (.output result) s.response).ending = none := by
      unfold Entry.ending
      cases hcase : s.response.complete with
      | true => rfl
      | false =>
        rw [(h.idle hcase).1]
        rfl
    have hnext := hphase h.toPhase
    rw [hend, toList_none, append_nil] at hnext
    refine .past status ending ⟨hnext, fun hnot => ?_, fun hnot => ?_⟩ hfail
    · obtain ⟨hfail, hdone⟩ := h.idle (hcomplete.symm.trans hnot)
      rcases hfails with ⟨hsame, hsame'⟩ | hnow
      · exact ⟨hsame.trans hfail, hsame'.trans hdone⟩
      · exact hnow
    · exact h.lost (hcomplete.symm.trans hnot)

/-- The stream of the response is flushed. -/
theorem Inv.flushed (h : Inv s) (success : Bool) : Inv (s.onResponse (.flushed success)) := by
  have hcomplete : (s.response.step (.flushed success)).complete = s.response.complete := by
    unfold WebResponse.step
    dsimp only
    split <;> rfl
  have hstays : s.response.complete = false → (s.response.flushing →
      s.response.complete) → s.response.step (.flushed success) = s.response := by
    intro hnot hflsh
    unfold WebResponse.step
    dsimp only
    rw [if_neg fun hflush => Bool.false_ne_true (hnot.symm.trans (hflsh hflush))]
  have hphase : ∀ {heads endings}, Phase s heads endings →
      Phase (s.onResponse (.flushed success)) heads endings := by
    intro heads endings hphase
    have hend : (Entry.mk (.flushed success) s.response).ending = none := by
      show (if _ then none else none) = (none : Option Ending)
      exact ite_self _
    have hnext := hphase.onResponse (.flushed success) rfl fun hflush => by
      rw [hcomplete]
      apply hphase.flushing
      unfold WebResponse.step at hflush
      dsimp only at hflush
      split at hflush
      · assumption
      · exact hflush
    rw [show (Entry.mk (.flushed success) s.response).head = none from rfl, hend,
      toList_none, append_nil, toList_none, append_nil] at hnext
    exact hnext
  cases h with
  | fresh h hopen =>
    have hresp : (s.onResponse (.flushed success)).response = s.response :=
      hstays h.complete h.flushing
    exact .fresh ⟨hphase h.toPhase, hresp ▸ h.count, hresp ▸ h.complete,
      hresp ▸ h.failed, hresp ▸ h.done, hresp ▸ h.source⟩ hopen
  | streaming status h hopen =>
    have hresp : (s.onResponse (.flushed success)).response = s.response :=
      hstays h.complete h.flushing
    exact .streaming status ⟨hphase h.toPhase, hresp ▸ h.complete, hresp ▸ h.failed,
      hresp ▸ h.done⟩ hopen
  | past status ending h hfail =>
    refine .past status ending ⟨hphase h.toPhase, fun hnot => ?_, fun hnot => ?_⟩ hfail
    · have hbef := hcomplete.symm.trans hnot
      have hresp : (s.onResponse (.flushed success)).response = s.response :=
        hstays hbef h.flushing
      rw [hresp]
      exact h.idle hbef
    · exact h.lost (hcomplete.symm.trans hnot)

/-! ## Runs -/

/-- **Step.**  A message that meets the condition keeps the response in its phases. -/
theorem Inv.step (h : Inv s) {e : Event} (hok : Meets S s e) : Inv (s.step S e) := by
  obtain ⟨hincomplete, hcounted⟩ := hok
  unfold ChannelResponse.step
  cases e with
  | output result => exact h.output result
  | flushed success => exact h.flushed success
  | serviceGone => exact h.congr rfl rfl rfl
  | recv channel payload =>
    dsimp only
    split
    · exact h
    rename_i hopen
    have hopen' : s.closed = none := by simpa using hopen
    replace hincomplete := hincomplete hopen'
    replace hcounted := hcounted hopen'
    unfold ChannelResponse.handle
    unfold action at hincomplete hcounted
    dsimp only at hincomplete hcounted ⊢
    split
    · exact h
    rename_i hchan
    rw [if_neg hchan] at hincomplete hcounted
    cases hrecv : s.httpstreamRecv with
    | false =>
      rw [hrecv] at hincomplete hcounted
      exact h.onTransportRecv hopen' (hincomplete rfl)
        (fun hready => hcounted (by simp) (.inl hready)) payload
    | true =>
      rw [hrecv] at hincomplete hcounted
      simp only [Bool.not_true, false_eq_true, if_false, if_true] at hincomplete hcounted ⊢
      unfold onHttpstreamRecv
      split
      · exact h
      rename_i hready
      rw [if_neg hready] at hincomplete hcounted
      have hset : Inv { s with httpstreamRecv := false } := h.congr rfl rfl rfl
      have hheads : headsOf s.log = [] :=
        hcounted (by simp) (.inl (by simpa using hready))
      have hfirst : s.response.complete = false := by
        by_contra hnot
        exact hready (not_ready_of_complete (by simpa using hnot))
      dsimp only
      split
      · exact hset.responseError hopen' hfirst (fun _ => hheads) 500
      · exact hset.httpstreamResponse hopen' (fun _ => hfirst) fun _ => hheads
  | control command channel options =>
    dsimp only
    split
    · exact h
    rename_i hopen
    have hopen' : s.closed = none := by simpa using hopen
    replace hincomplete := hincomplete hopen'
    replace hcounted := hcounted hopen'
    unfold ChannelResponse.handle
    unfold action at hincomplete hcounted
    dsimp only at hincomplete hcounted ⊢
    split
    · exact h
    rename_i hchan
    rw [if_neg hchan] at hincomplete hcounted
    -- the messages that both handlers know
    have hcommon : (s.httpstreamControl && command == "response") = false →
        Inv (s.onTransportControl S command options) := by
      intro hother
      rw [hother, if_neg Bool.false_ne_true] at hincomplete hcounted
      refine h.onTransportControl hopen' ?_ ?_ ?_
      · rintro rfl
        exact hincomplete rfl
      · rintro rfl hprob
        apply hincomplete
        rw [if_neg (by decide), if_pos rfl, decide_eq_true hprob]
        rfl
      rintro (rfl | rfl) hready
      · exact hcounted (by simp) (.inl hready)
      · refine hcounted ?_ (.inl hready)
        rw [if_neg (by decide), if_pos rfl]
        simp
    cases hctl : s.httpstreamControl with
    | false =>
      rw [hctl] at hcommon
      exact hcommon rfl
    | true =>
      rw [hctl] at hcommon hincomplete hcounted
      rw [if_pos rfl]
      unfold onHttpstreamControl
      split
      · rename_i heq
        rw [heq] at hincomplete hcounted
        rw [if_pos (by decide)] at hincomplete hcounted
        refine h.httpstreamResponse hopen' (fun hinval => ?_) fun hlate => ?_
        · apply hincomplete
          rw [hinval]
          rfl
        refine hcounted (by simp) ?_
        rcases hlate with hready | ⟨hinval, hcount⟩
        · exact .inl hready
        · refine .inr ⟨?_, hcount⟩
          rw [hinval]
          rfl
      · rename_i hne
        apply hcommon
        simp [hne]
  | transportClosed problem =>
    dsimp only
    split
    · exact h
    rename_i hopen
    have hopen' : s.closed = none := by simpa using hopen
    show Inv (s.close S (some (problem.getD "disconnected")))
    exact h.close (fun _ => hincomplete hopen' rfl) fun hready =>
      hcounted hopen' (by simp [action]) (.inl hready)

/-- A response to which nothing was done. -/
theorem inv_create (channel payload : String) (fullPath method : Option CStr)
    (cacheType : CacheType) (keepAlive : Bool) (filters : List WebFilter) (headers : Headers)
    (inject : Option Inject) :
    Inv (create channel payload (.new fullPath method cacheType keepAlive filters) headers
      inject) :=
  .fresh ⟨⟨fun _ hmem => (nomatch hmem), rfl, rfl, nofun⟩, rfl, rfl, rfl, rfl, rfl⟩ rfl

/-- **Finished once.**  In a run that meets the condition no check of the response fails, it gets
    at most one header block and comes to at most one end, it has both once the channel is closed,
    and a channel that closed with a problem was no success. -/
theorem run_finished_once (S : Setup) (channel payload : String) (fullPath method : Option CStr)
    (cacheType : CacheType) (keepAlive : Bool) (filters : List WebFilter) (headers : Headers)
    (inject : Option Inject) {es : List Event}
    (hok : RunOk (step S) (Meets S) (create channel payload
      (.new fullPath method cacheType keepAlive filters) headers inject) es) :
    FinishedOnce (run (step S) (create channel payload
      (.new fullPath method cacheType keepAlive filters) headers inject) es) :=
  (run_invariant Inv (fun _ _ h he => h.step he)
    (inv_create channel payload fullPath method cacheType keepAlive filters headers inject)
    hok).finishedOnce

/-! ### A download that ends well, and one that does not -/

/-- A check of `Meets`. -/
def checkMeets (S : Setup) (s : ChannelResponse) (e : Event) : Bool :=
  (!(action S s e).writes || !s.response.complete) &&
    (decide (getState s.response ≠ .ready ∧ action S s e ≠ .respond false) ||
      (headsOf s.log).isEmpty)

theorem meets_of_check {e : Event} (h : checkMeets S s e) : Meets S s e := by
  obtain ⟨hwrites, hheads⟩ := and_eq_true_iff.mp h
  refine ⟨fun _ hwrite => ?_, fun _ _ hdue => ?_⟩
  · rw [hwrite] at hwrites
    simpa using hwrites
  rcases or_eq_true_iff.mp hheads with hnot | hempty
  · obtain ⟨hready, hrespond⟩ := of_decide_eq_true hnot
    rcases hdue with hdue | ⟨hdue, -⟩
    · exact absurd hdue hready
    · exact absurd hdue hrespond
  · exact List.isEmpty_iff.mp hempty

def plainSetup : Setup where
  parse _ := none
  template _ := []

/-- A channel of a page. -/
def download : ChannelResponse :=
  create "a" "fsread1" (.new none none .noCache true []) [] none

/-- A payload, and "done". -/
def servedEvents : List Event :=
  [.recv (some "a") [104, 105], .output (.wrote 1000), .control "done" (some "a") []]

theorem run_finished_once_served :
    FinishedOnce (run (step plainSetup) download (servedEvents ++
      [.control "close" (some "a") []])) ∧
      endingsOf (run (step plainSetup) download (servedEvents ++
        [.control "close" (some "a") []])).log = [.completed] := by
  have hok : RunOk (step plainSetup) (fun s e => checkMeets plainSetup s e = true) download
      (servedEvents ++ [.control "close" (some "a") []]) := by
    decide +kernel
  refine ⟨run_finished_once plainSetup "a" "fsread1" none none .noCache true [] [] none
    (hok.mono fun _ _ => meets_of_check), ?_⟩
  decide +kernel

/-- A problem after "done": the response was completed as a success, and is aborted then. -/
theorem not_finished_once_problem :
    ¬ FinishedOnce (run (step plainSetup) download (servedEvents ++
      [.control "close" (some "a") [("problem", .string "internal-error")]])) := by
  intro h
  have hcompleted : Ending.completed ∈ endingsOf (run (step plainSetup) download (servedEvents ++
      [.control "close" (some "a") [("problem", .string "internal-error")]])).log := by
    decide +kernel
  have hok := h.failed "internal-error" (by decide +kernel) hcompleted 200 (by decide +kernel)
  exact nomatch hok

end Cockpit.Ws.ChannelResponse
