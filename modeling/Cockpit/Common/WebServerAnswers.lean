import Cockpit.Common.WebServer
import Cockpit.Lib.Run

namespace Cockpit

open Lib List Option

/-!
# Which requests on a connection are answered

A request is parsed from its own bytes, however they are cut into reads.  It is answered once and
in its turn exactly when every request before it and itself is well formed and of no more than
twice the maximum size, keeps the connection alive, and ends where a read ends.
-/

namespace WebServer

/-! ### A request is told by its own bytes -/

variable {buffer item : Bytes}

/-- A request that is parsed is told by its own bytes. -/
theorem parseRequest_item {n : Nat} {parsed : ParsedRequest}
    (h : parseRequest buffer = .item n parsed) :
    ∃ head rest, buffer = head ++ rest ∧ head.length = n ∧ 0 < n ∧
      ∀ rest', parseRequest (head ++ rest') = .item n parsed := by
  unfold parseRequest at h
  split at h
  · exact nomatch h
  · exact nomatch h
  rename_i off1 method path hline
  obtain ⟨line, others, rfl, rfl, hpos, hstable⟩ := parseReqLine_item hline
  rw [drop_left] at h
  split at h
  · exact nomatch h
  · exact nomatch h
  rename_i off2 headers hheads
  obtain ⟨block, rest, rfl, rfl, -, hstable'⟩ := parseHeadersFrom_item hheads
  split at h
  · exact nomatch h
  rename_i length hlen
  obtain ⟨rfl, rfl⟩ := Scan.item.inj h
  refine ⟨line ++ block, rest, by simp, by simp, by omega, fun rest' => ?_⟩
  have hblock : parseHeaders (block ++ rest') = .item block.length headers :=
    hstable' rest'
  rw [parseRequest, append_assoc, hstable]
  simp only [drop_left, hblock, hlen]

/-- A request that is refused stays refused when more bytes arrive. -/
theorem parseRequest_fail (h : parseRequest buffer = .fail) (rest : Bytes) :
    parseRequest (buffer ++ rest) = .fail := by
  unfold parseRequest at h
  split at h
  · cases h
  · rename_i hline
    rw [parseRequest, parseReqLine_fail hline]
  rename_i off1 method path hline
  obtain ⟨line, others, rfl, rfl, -, hstable⟩ := parseReqLine_item hline
  rw [parseRequest, append_assoc, hstable]
  rw [drop_left] at h
  simp only [drop_left]
  split at h
  · cases h
  · rename_i hheads
    have hfail : parseHeaders (others ++ rest) = .fail := parseHeadersFrom_fail hheads rest
    rw [hfail]
  rename_i off2 headers hheads
  obtain ⟨block, tail, rfl, rfl, -, hstable'⟩ := parseHeadersFrom_item hheads
  have hblock : parseHeaders (block ++ tail ++ rest) = .item block.length headers := by
    rw [append_assoc]
    exact hstable' (tail ++ rest)
  simp only [hblock]
  split at h
  · rfl
  · cases h

/-- Requests on a stream. -/
def requests : Framing UInt8 ParsedRequest where
  scan := parseRequest
  item_pos := fun h => by
    obtain ⟨-, -, -, -, hpos, -⟩ := parseRequest_item h
    exact hpos
  item_le := fun h => by
    obtain ⟨head, rest, rfl, rfl, -⟩ := parseRequest_item h
    simp
  item_append := fun ys h => by
    obtain ⟨head, rest, rfl, -, -, hstable⟩ := parseRequest_item h
    rw [append_assoc]
    exact hstable _
  fail_append := fun ys h => parseRequest_fail h ys

/-! ### The answers that requests should get -/

/-- The bytes of one request without a body. -/
def Whole (item : Bytes) : Prop :=
  ∃ parsed, parseRequest item = .item item.length parsed ∧ parsed.length = 0

/-- Bytes that cannot begin a request. -/
def Malformed (item : Bytes) : Prop := parseRequest item = .fail

/-- What should be sent for a request: what comes of its own line and headers, or a 400. -/
def replyTo (self : WebServer) (delayedReply : Nat) (item : Bytes) : Answer :=
  match parseRequest item with
  | .item _ parsed => self.answer delayedReply parsed
  | _ => .error 400

/-- One answer a request, in order; only the first one can have a reply that is delayed. -/
def replies (self : WebServer) : Nat → List Bytes → List Answered
  | _, [] => []
  | delayedReply, item :: items =>
    ⟨item, self.replyTo delayedReply item⟩ :: replies self 0 items

/-- A request whose response can be followed by another one. -/
def KeepsAlive (item : Bytes) : Prop :=
  ∀ n parsed, parseRequest item = .item n parsed → keepAlive parsed.headers

instance (item : Bytes) : Decidable (Whole item) :=
  decidable_of_iff
    ((match parseRequest item with
      | .item n parsed => n = item.length && parsed.length = 0
      | _ => false) = true) <| by
    unfold Whole
    cases parseRequest item with
    | more => simp
    | fail => simp
    | item n parsed => simp [Scan.item.injEq, and_assoc]

instance (item : Bytes) : Decidable (Malformed item) :=
  decidable_of_iff
    ((match parseRequest item with
      | .fail => true
      | _ => false) = true) <| by
    unfold Malformed
    cases parseRequest item <;> simp

instance (item : Bytes) : Decidable (KeepsAlive item) :=
  decidable_of_iff
    ((match parseRequest item with
      | .item _ parsed => keepAlive parsed.headers
      | _ => true) = true) <| by
    unfold KeepsAlive
    cases parseRequest item with
    | more => simp
    | fail => simp
    | item n parsed => simp [Scan.item.injEq]

/-- The bytes of a read. -/
def WebEvent.chunk? : WebEvent → Option Bytes
  | .read chunk => some chunk
  | _ => none

/-- The reads of a run. -/
def readsOf (es : List WebEvent) : List Bytes := es.filterMap WebEvent.chunk?

/-- A read of some bytes while a request waits for them, or a response that was completed. -/
def Legal (conn : WebConnection) : WebEvent → Prop
  | .read chunk => conn.request.isSome ∧ chunk ≠ [] ∧ chunk.length ≤ 4096
  | .done complete => conn.response.isSome ∧ complete
  | _ => False

instance (conn : WebConnection) (e : WebEvent) : Decidable (Legal conn e) := by
  unfold Legal
  split <;> infer_instance

/-- The requests that are answered: all are well formed, fit, and keep the connection alive up to
    the last one, and each ends where a read ends. -/
structure Served (items reads : List Bytes) : Prop where
  whole : ∀ item ∈ items, Whole item
  small : ∀ item ∈ items, item.length ≤ requestMaximum * 2
  alive : ∀ item ∈ items.dropLast, KeepsAlive item
  cut : ∃ groups : List (List Bytes), groups.flatten = reads ∧ groups.map flatten = items

theorem Whole.ne_nil (h : Whole item) : item ≠ [] := by
  obtain ⟨parsed, hparse, -⟩ := h
  rintro rfl
  have hparse' : requests.scan [] = .item ([] : Bytes).length parsed := hparse
  exact absurd (requests.item_pos hparse') (Nat.lt_irrefl 0)

/-! ### One step -/

variable {server : WebServer} {s : WebConnection} {r : WebRequest}

/-- A read that does not complete a request. -/
theorem step_read_more (hreq : s.request = some r) {chunk : Bytes}
    (hsmall : (r.buffer ++ chunk).length ≤ requestMaximum * 2)
    (hparse : parseRequest (r.buffer ++ chunk) = .more) :
    server.step s (.read chunk) =
      { s with request := some { r with buffer := r.buffer ++ chunk, eofOkay := false } } := by
  simp only [step, hreq, onRequestInput, parseAndProcessRequest, hparse]
  rw [if_neg (by omega)]

/-- A read that completes a request without a body. -/
theorem step_read_whole (hreq : s.request = some r) {chunk : Bytes} {parsed : ParsedRequest}
    (hsmall : (r.buffer ++ chunk).length ≤ requestMaximum * 2)
    (hparse : parseRequest (r.buffer ++ chunk) = .item (r.buffer ++ chunk).length parsed)
    (hlen : parsed.length = 0) :
    server.step s (.read chunk) =
      { s with
        request := none
        response := some (keepAlive parsed.headers)
        answered := s.answered ++
          [⟨r.buffer ++ chunk, server.replyTo r.delayedReply (r.buffer ++ chunk)⟩] } := by
  have hreply : server.replyTo r.delayedReply (r.buffer ++ chunk) =
      server.answer r.delayedReply parsed := by
    simp only [replyTo, hparse]
  simp only [step, hreq, onRequestInput, parseAndProcessRequest, hparse]
  rw [if_neg (by omega), if_neg (by rw [hlen, Nat.add_zero]; exact not_lt.mpr (Nat.mod_le _ _)),
    take_length, hreply]

/-- The response that is waited for is done. -/
theorem step_done {keepAlive : Bool} (hresp : s.response = some keepAlive) (complete : Bool) :
    server.step s (.done complete) = onWebResponseDone s (complete && keepAlive) := by
  unfold step
  rw [hresp]
  cases s.request <;> rfl

/-- What a read can do. -/
theorem step_read_cases (hreq : s.request = some r) (chunk : Bytes) :
    server.step s (.read chunk) = { s with request := none } ∨
    (∃ r' : WebRequest, r'.buffer = r.buffer ++ chunk ∧
      server.step s (.read chunk) = { s with request := some r' }) ∨
    ∃ off parsed answer, (r.buffer ++ chunk).length ≤ requestMaximum * 2 ∧
      parseRequest (r.buffer ++ chunk) = .item off parsed ∧
      server.step s (.read chunk) =
        { s with
          request := none
          response := some (keepAlive parsed.headers)
          answered := s.answered ++ [⟨(r.buffer ++ chunk).take off, answer⟩] } := by
  simp only [step, hreq, onRequestInput, parseAndProcessRequest]
  split
  · exact Or.inl rfl
  rename_i hsmall
  split
  · exact Or.inr (Or.inl ⟨_, rfl, rfl⟩)
  · exact Or.inl rfl
  rename_i off parsed hparse
  split
  · exact Or.inr (Or.inl ⟨_, rfl, rfl⟩)
  · exact Or.inr (Or.inr ⟨off, parsed, _, by simpa using hsmall, hparse, rfl⟩)

/-! ### Requests that end where a read ends -/

/-- Where a connection is among the reads and the requests that are left. -/
inductive Stage (s : WebConnection) : Nat → List Bytes → List Bytes → Prop
  | reading {request : WebRequest} {rest : List Bytes} {groups : List (List Bytes)}
      (hrequest : s.request = some request) (hresponse : s.response = none) (hrest : rest ≠ []) :
      Stage s request.delayedReply (rest ++ groups.flatten)
        ((request.buffer ++ rest.flatten) :: groups.map flatten)
  | answering {keepAlive : Bool} {groups : List (List Bytes)} (hrequest : s.request = none)
      (hresponse : s.response = some keepAlive) (hkeep : groups ≠ [] → keepAlive) :
      Stage s 0 groups.flatten (groups.map flatten)
  | past {delayedReply : Nat} : Stage s delayedReply [] []

variable {request : WebRequest}

/-- A connection that is ready for the requests. -/
theorem Stage.of_request (hreq : s.request = some request)
    (hresp : s.response = none) (hbuf : request.buffer = []) {groups : List (List Bytes)}
    (hwhole : ∀ item ∈ groups.map flatten, Whole item) :
    Stage s request.delayedReply groups.flatten (groups.map flatten) := by
  cases groups with
  | nil => exact .past
  | cons group groups =>
    have hne : group ≠ [] := by
      rintro rfl
      exact (hwhole [] mem_cons_self).ne_nil rfl
    have hstage := @Stage.reading s request group groups hreq hresp hne
    rw [hbuf, nil_append] at hstage
    exact hstage

/-- The requests that are left can be answered. -/
structure Answerable (items : List Bytes) : Prop where
  whole : ∀ item ∈ items, Whole item
  small : ∀ item ∈ items, item.length ≤ requestMaximum * 2
  alive : ∀ item ∈ items.dropLast, KeepsAlive item

theorem Answerable.tail {items : List Bytes} (h : Answerable (item :: items)) :
    Answerable items where
  whole := fun i hi => h.whole i (mem_cons_of_mem item hi)
  small := fun i hi => h.small i (mem_cons_of_mem item hi)
  alive := fun i hi => by
    apply h.alive i
    cases items with
    | nil => exact nomatch hi
    | cons next items => exact mem_cons_of_mem item hi

/-- A read within a request, or at its end. -/
theorem Stage.read (hreq : s.request = some request)
    (hresp : s.response = none) {chunk : Bytes} {rest : List Bytes}
    {groups : List (List Bytes)} (hchunks : ∀ c ∈ rest, c ≠ [])
    (h : Answerable ((request.buffer ++ (chunk :: rest).flatten) :: groups.map flatten)) :
    ∃ delayedReply items, Stage (server.step s (.read chunk)) delayedReply
        (rest ++ groups.flatten) items ∧ Answerable items ∧
      (server.step s (.read chunk)).answered ++ server.replies delayedReply items =
        s.answered ++ server.replies request.delayedReply
          ((request.buffer ++ (chunk :: rest).flatten) :: groups.map flatten) := by
  have hbytes : request.buffer ++ (chunk :: rest).flatten =
      (request.buffer ++ chunk) ++ rest.flatten := by simp
  rw [hbytes] at h ⊢
  have hsmall := h.small _ mem_cons_self
  obtain ⟨parsed, hparse, hlen⟩ := h.whole _ mem_cons_self
  cases rest with
  | nil =>
    -- the request is complete
    rw [flatten_nil, append_nil] at hparse hsmall h ⊢
    have hstep := @step_read_whole server s request hreq chunk parsed hsmall hparse hlen
    refine ⟨0, groups.map flatten, ?_, h.tail, ?_⟩
    · rw [hstep]
      refine .answering rfl rfl fun hgroups => ?_
      apply h.alive (request.buffer ++ chunk) _ _ _ hparse
      cases groups with
      | nil => exact absurd rfl hgroups
      | cons group groups => exact mem_cons_self
    · rw [hstep, append_assoc]
      rfl
  | cons next rest =>
    have hcut : (next :: rest).flatten ≠ [] := by
      intro hnil
      rw [flatten_cons, append_eq_nil_iff] at hnil
      exact hchunks next mem_cons_self hnil.1
    have hmore : parseRequest (request.buffer ++ chunk) = .more :=
      requests.scan_of_cut hcut hparse
    rw [length_append] at hsmall
    have hstep := @step_read_more server s request hreq chunk (by omega) hmore
    refine ⟨request.delayedReply, _, ?_, h, ?_⟩
    · rw [hstep]
      exact @Stage.reading _ { request with buffer := request.buffer ++ chunk, eofOkay := false }
        (next :: rest) groups rfl hresp (cons_ne_nil next rest)
    · rw [hstep]

section

variable {delayedReply : Nat} {reads items : List Bytes} (h : Stage s delayedReply reads items)
    (hitems : Answerable items)

include h hitems

/-- One step of a connection that is among the requests. -/
theorem Stage.step {e : WebEvent}
    (hlegal : Legal s e) {others : List Bytes} (hreads : reads = e.chunk?.toList ++ others)
    (hchunks : ∀ chunk ∈ reads, chunk ≠ []) :
    ∃ delayedReply' items', Stage (server.step s e) delayedReply' others items' ∧
      Answerable items' ∧
      (server.step s e).answered ++ server.replies delayedReply' items' =
        s.answered ++ server.replies delayedReply items := by
  cases e with
  | read chunk =>
    cases h with
    | @reading request rest groups hreq hresp hrest =>
      obtain ⟨first, rest, rfl⟩ := exists_cons_of_ne_nil hrest
      obtain ⟨rfl, rfl⟩ := cons.inj hreads
      exact Stage.read hreq hresp (fun c hc => hchunks c (by simp [hc])) hitems
    | answering hreq hresp hkeep =>
      rw [Legal, hreq] at hlegal
      exact absurd hlegal.1 (by simp)
    | past => exact absurd hreads (by simp [WebEvent.chunk?])
  | done complete =>
    obtain ⟨hsome, rfl⟩ := hlegal
    cases h with
    | reading hreq hresp hrest =>
      rw [hresp] at hsome
      exact nomatch hsome
    | @answering keepAlive groups hreq hresp hkeep =>
      rw [step_done hresp, Bool.true_and]
      obtain rfl : groups.flatten = others := hreads
      refine ⟨0, groups.map flatten, ?_, hitems, ?_⟩
      · cases groups with
        | nil => exact .past
        | cons group groups =>
          rw [hkeep (by simp)]
          exact @Stage.of_request _ requestStart rfl rfl rfl (group :: groups) hitems.whole
      · cases keepAlive <;> rfl
    | past =>
      obtain rfl : [] = others := hreads
      refine ⟨delayedReply, [], .past, hitems, ?_⟩
      obtain ⟨keepAlive, hkeep⟩ := isSome_iff_exists.mp hsome
      rw [step_done hkeep]
      cases keepAlive <;> rfl
  | readError | eof | timeout => exact hlegal.elim

/-- **What is sent from a stage on.** -/
theorem Stage.run {es : List WebEvent}
    (hlegal : RunOk server.step Legal s es) (hreads : readsOf es = reads)
    (hchunks : ∀ chunk ∈ reads, chunk ≠ []) :
    (Lib.run server.step s es).answered = s.answered ++ server.replies delayedReply items := by
  induction es generalizing s delayedReply reads items with
  | nil =>
    cases h with
    | reading hreq hresp hrest =>
      exact absurd (append_eq_nil_iff.mp hreads.symm).1 hrest
    | @answering keepAlive groups hreq hresp hkeep =>
      -- no reads are left, so no requests are left
      obtain rfl : groups = [] := by
        cases groups with
        | nil => rfl
        | cons group groups =>
          have hgroup : group = [] := (append_eq_nil_iff.mp hreads.symm).1
          have hne := (hitems.whole group.flatten mem_cons_self).ne_nil
          rw [hgroup] at hne
          exact absurd rfl hne
      exact (append_nil _).symm
    | past => exact (append_nil _).symm
  | cons e es ih =>
    have hsplit : reads = e.chunk?.toList ++ readsOf es := by
      rw [← hreads, readsOf, readsOf]
      cases he : e.chunk? <;> simp [he]
    obtain ⟨delayedReply', items', hstage, hitems', hsent⟩ :=
      @Stage.step server s delayedReply reads items h hitems e hlegal.1 _ hsplit hchunks
    rw [← hsent]
    refine ih hstage hitems' hlegal.2 rfl fun chunk hchunk => hchunks chunk ?_
    rw [hsplit]
    exact mem_append_right _ hchunk

/-! ### Where the bytes of a run went -/

end

/-- The reads of a request are its bytes and what was dropped behind them. -/
abbrev Share (a : Answered) (g : List Bytes × Bytes) : Prop := g.1.flatten = a.bytes ++ g.2

/-- The reads of a run are those of the requests that were answered, each with what was dropped
    behind it, and those since then. -/
structure Track (groups : List (List Bytes × Bytes)) (current reads : List Bytes)
    (s : WebConnection) : Prop where
  split : reads = (groups.map Prod.fst).flatten ++ current
  nonempty : ∀ chunk ∈ reads, chunk ≠ []
  shares : List.Forall₂ Share s.answered groups
  parsed : ∀ a ∈ s.answered, a.bytes.length ≤ requestMaximum * 2 ∧
    ∃ parsed, parseRequest a.bytes = .item a.bytes.length parsed
  alive : ∀ a ∈ s.answered.dropLast, KeepsAlive a.bytes
  last : s.request.isSome ∨ s.response = some true → ∀ a ∈ s.answered, KeepsAlive a.bytes
  request : ∀ r, s.request = some r → current.flatten = r.buffer ∧ s.response = none
  response : s.response.isSome → current = []

variable {groups : List (List Bytes × Bytes)} {current reads : List Bytes}

section

variable (h : Track groups current reads s)

include h

variable {chunk : Bytes}

/-- A read joins the others since the last answer. -/
theorem Track.wait (hreq : s.request = some r) (hchunk : chunk ≠ []) {next : Option WebRequest}
    (hnext : ∀ r', next = some r' → r'.buffer = r.buffer ++ chunk) :
    Track groups (current ++ [chunk]) (reads ++ [chunk]) { s with request := next } := { h with
  split := by rw [h.split, append_assoc]
  nonempty := by
    intro c hc
    rcases mem_append.mp hc with hc | hc
    · exact h.nonempty c hc
    · rw [mem_singleton.mp hc]
      exact hchunk
  last := fun _ => h.last (Or.inl (by rw [hreq]; rfl))
  request := fun r' hr' => by
    refine ⟨?_, (h.request r hreq).2⟩
    rw [flatten_append, (h.request r hreq).1, flatten_singleton]
    exact (hnext r' hr').symm
  response := fun hresp => by
    rw [(h.request r hreq).2] at hresp
    exact absurd hresp (by simp) }

/-- A read that completes a request, and what is dropped behind it. -/
theorem Track.answer (hreq : s.request = some r) (hchunk : chunk ≠ []) {off : Nat} {parsed : ParsedRequest} {answer : Answer}
    (hsmall : (r.buffer ++ chunk).length ≤ requestMaximum * 2)
    (hparse : parseRequest (r.buffer ++ chunk) = .item off parsed) :
    Track (groups ++ [(current ++ [chunk], (r.buffer ++ chunk).drop off)]) [] (reads ++ [chunk])
      { s with
        request := none
        response := some (keepAlive parsed.headers)
        answered := s.answered ++ [⟨(r.buffer ++ chunk).take off, answer⟩] } := by
  have hwait := h.wait hreq hchunk (fun r' hr' => absurd hr' (by simp) :
    ∀ r', (none : Option WebRequest) = some r' → r'.buffer = r.buffer ++ chunk)
  have hlast := h.last (Or.inl (by rw [hreq]; rfl))
  obtain ⟨head, rest, hbytes, rfl, -, hstable⟩ := parseRequest_item hparse
  have hhead : (r.buffer ++ chunk).take head.length = head := by rw [hbytes, take_left]
  have hown : parseRequest head = .item head.length parsed := by
    have := hstable []
    rwa [append_nil] at this
  rw [hhead]
  refine ⟨?_, hwait.nonempty, ?_, ?_, ?_, ?_, fun r' hr' => absurd hr' (by simp), fun _ => rfl⟩
  · rw [hwait.split]
    simp
  · refine rel_append h.shares (.cons ?_ .nil)
    change (current ++ [chunk]).flatten = head ++ (r.buffer ++ chunk).drop head.length
    rw [flatten_append, (h.request r hreq).1, flatten_singleton]
    conv_lhs => rw [← take_append_drop head.length (r.buffer ++ chunk), hhead]
  · intro a ha
    rcases mem_append.mp ha with ha | ha
    · exact h.parsed a ha
    · rw [mem_singleton.mp ha]
      rw [hbytes, length_append] at hsmall
      exact ⟨by change head.length ≤ _; omega, parsed, hown⟩
  · intro a ha
    rw [dropLast_concat] at ha
    exact hlast a ha
  intro hkeep a ha
  rcases mem_append.mp ha with ha | ha
  · exact hlast a ha
  rw [mem_singleton.mp ha]
  intro n other hother
  change parseRequest head = _ at hother
  rw [hown] at hother
  obtain ⟨-, rfl⟩ := Scan.item.inj hother
  simpa using hkeep

/-- The response is done. -/
theorem Track.done {keepAlive : Bool}
    (hresp : s.response = some keepAlive) :
    Track groups current reads (onWebResponseDone s keepAlive) := by
  have hcurrent := h.response (by rw [hresp]; rfl)
  have hreq : s.request = none := by
    cases hr : s.request with
    | none => rfl
    | some r =>
      rw [(h.request r hr).2] at hresp
      exact nomatch hresp
  cases keepAlive with
  | true =>
    refine { h with
        last := fun _ => h.last (Or.inr hresp), request := ?_,
        response := fun hfalse => absurd hfalse (by simp [onWebResponseDone]) }
    intro r hr
    obtain rfl := some.inj hr
    exact ⟨by rw [hcurrent]; rfl, rfl⟩
  | false =>
    refine { h with
        last := ?_, request := ?_,
        response := fun hfalse => absurd hfalse (by simp [onWebResponseDone]) }
    · rintro (hsome | hsome)
      · rw [onWebResponseDone, if_neg Bool.false_ne_true, hreq] at hsome
        exact nomatch hsome
      · exact absurd hsome (by simp [onWebResponseDone])
    · intro r hr
      rw [onWebResponseDone, if_neg Bool.false_ne_true, hreq] at hr
      exact nomatch hr

/-- **One step keeps track of the bytes.** -/
theorem Track.step {e : WebEvent} (hlegal : Legal s e) :
    ∃ groups current, Track groups current (reads ++ e.chunk?.toList) (server.step s e) := by
  cases e with
  | read chunk =>
    obtain ⟨hsome, hchunk, -⟩ := hlegal
    obtain ⟨r, hreq⟩ := isSome_iff_exists.mp hsome
    obtain heq | ⟨r', hr', heq⟩ | ⟨off, parsed, answer, hsmall, hparse, heq⟩ :=
      @step_read_cases server s r hreq chunk
    · exact ⟨_, _, heq ▸ h.wait hreq hchunk fun r' hr' => absurd hr' (by simp)⟩
    · refine ⟨_, _, heq ▸ h.wait hreq hchunk fun r'' hr'' => ?_⟩
      obtain rfl := some.inj hr''
      exact hr'
    · exact ⟨_, _, heq ▸ h.answer hreq hchunk hsmall hparse⟩
  | done complete =>
    obtain ⟨hsome, rfl⟩ := hlegal
    obtain ⟨keepAlive, hresp⟩ := isSome_iff_exists.mp hsome
    rw [step_done hresp, Bool.true_and]
    refine ⟨groups, current, ?_⟩
    change Track _ _ (reads ++ []) _
    rw [append_nil]
    exact h.done hresp
  | readError | eof | timeout => exact hlegal.elim

end

theorem Track.run {delayedReply : Nat} {es : List WebEvent}
    (hlegal : RunOk server.step Legal (connect delayedReply) es) :
    ∃ groups current, Track groups current (readsOf es)
      (Lib.run server.step (connect delayedReply) es) := by
  refine run_history (fun es s => ∃ groups current, Track groups current (readsOf es) s) ?_ ?_
    hlegal
  · refine ⟨[], [], rfl, fun _ hc => absurd hc not_mem_nil, .nil,
      fun _ ha => absurd ha not_mem_nil, fun _ ha => absurd ha not_mem_nil,
      fun _ _ ha => absurd ha not_mem_nil, ?_, fun _ => rfl⟩
    intro r hr
    obtain rfl := some.inj hr
    exact ⟨rfl, rfl⟩
  rintro es s e ⟨groups, current, h⟩ hlegal
  have hreads : readsOf (es ++ [e]) = readsOf es ++ e.chunk?.toList := by
    rw [readsOf, readsOf, filterMap_append]
    cases he : e.chunk? <;> simp [he]
  rw [hreads]
  exact h.step hlegal

variable {answered : List Answered}

theorem length_shares (h : List.Forall₂ Share answered groups) :
    ((groups.map Prod.fst).flatten).flatten.length =
      (answered.map Answered.bytes).flatten.length + (groups.map Prod.snd).flatten.length := by
  induction h with
  | nil => rfl
  | @cons a g as gs hshare _ ih =>
    have hlen := congrArg length hshare
    simp only [length_append] at hlen
    simp only [map_cons, flatten_cons, flatten_append, length_append, ih]
    omega

theorem map_flatten_shares (h : List.Forall₂ Share answered groups)
    (hdropped : (groups.map Prod.snd).flatten.length = 0) :
    (groups.map Prod.fst).map flatten = answered.map Answered.bytes := by
  induction h with
  | nil => rfl
  | @cons a g as gs hshare _ ih =>
    simp only [map_cons, flatten_cons, length_append, Nat.add_eq_zero_iff] at hdropped
    rw [map_cons, map_cons, map_cons, ih hdropped.2, hshare,
      length_eq_zero_iff.mp hdropped.1, append_nil]

/-- Where nothing is dropped, each request ends where a read ends. -/
theorem Track.cut (h : Track groups current reads s)
    (hle : reads.flatten.length ≤ (s.answered.map Answered.bytes).flatten.length) :
    (groups.map Prod.fst).flatten = reads ∧
      (groups.map Prod.fst).map flatten = s.answered.map Answered.bytes := by
  have hlen := length_shares h.shares
  have hreads := congrArg (fun reads => reads.flatten.length) h.split
  simp only [flatten_append, length_append] at hreads
  have hcurrent : current = [] := by
    cases hc : current with
    | nil => rfl
    | cons chunk rest =>
      have hne : chunk ≠ [] := by
        apply h.nonempty
        rw [h.split, hc]
        exact mem_append_right _ mem_cons_self
      have hpos := length_pos_iff.mpr hne
      rw [hc, flatten_cons, length_append] at hreads
      omega
  exact ⟨by rw [h.split, hcurrent, append_nil], map_flatten_shares h.shares (by omega)⟩

theorem map_bytes_replies (server : WebServer) (delayedReply : Nat) (items : List Bytes) :
    (server.replies delayedReply items).map Answered.bytes = items := by
  induction items generalizing delayedReply with
  | nil => rfl
  | cons item items ih => rw [replies, map_cons, ih]

/-- **Exactly one answer.** Well-formed and malformed requests are sent on a connection, cut into
    reads in some way, and the responses are completed.  Each request gets exactly one answer, of
    its own line and headers and in order, and each malformed one a 400, exactly when the requests
    can be served: there is no malformed one, each is of no more than twice the maximum size and
    ends where a read ends, and all but the last keep the connection alive. -/
theorem run_requests {delayedReply : Nat} {items : List Bytes}
    (hitems : ∀ item ∈ items, Whole item ∨ Malformed item) {es : List WebEvent}
    (hlegal : RunOk server.step Legal (connect delayedReply) es)
    (hstream : (readsOf es).flatten <+: items.flatten) :
    (run server.step (connect delayedReply) es).answered = server.replies delayedReply items ↔
      Served items (readsOf es) := by
  obtain ⟨groups, current, htrack⟩ := Track.run hlegal
  constructor
  · intro hanswered
    have hbytes : (run server.step (connect delayedReply) es).answered.map Answered.bytes =
        items := by
      rw [hanswered, map_bytes_replies]
    have hmem : ∀ item ∈ items, ∃ a ∈ (run server.step (connect delayedReply) es).answered,
        a.bytes = item := by
      intro item hitem
      rw [← hbytes] at hitem
      exact mem_map.mp hitem
    refine ⟨?_, ?_, ?_, ?_⟩
    · intro item hitem
      obtain ⟨a, ha, rfl⟩ := hmem item hitem
      obtain ⟨-, parsed, hparse⟩ := htrack.parsed a ha
      refine (hitems a.bytes hitem).resolve_right fun hmalformed => ?_
      rw [Malformed, hparse] at hmalformed
      exact nomatch hmalformed
    · intro item hitem
      obtain ⟨a, ha, rfl⟩ := hmem item hitem
      exact (htrack.parsed a ha).1
    · intro item hitem
      rw [← hbytes, ← map_dropLast] at hitem
      obtain ⟨a, ha, rfl⟩ := mem_map.mp hitem
      exact htrack.alive a ha
    · obtain ⟨hflatten, hmap⟩ := htrack.cut (by rw [hbytes]; exact hstream.length_le)
      exact ⟨groups.map Prod.fst, hflatten, hmap.trans hbytes⟩
  rintro ⟨hwhole, hsmall, halive, groups', hflatten, rfl⟩
  have hstage : Stage (connect delayedReply) delayedReply groups'.flatten
      (groups'.map flatten) :=
    @Stage.of_request _ { requestStart with delayedReply := delayedReply } rfl rfl rfl groups'
      hwhole
  exact hstage.run ⟨hwhole, hsmall, halive⟩ hlegal hflatten.symm
    fun chunk hchunk => htrack.nonempty chunk (by rwa [← hflatten])

/-- A server without a prefix for its paths. -/
def plainServer : WebServer where
  urlRoot := CStr.empty
  sslExceptionPrefix := CStr.empty

/-- A request for a path. -/
def getRequest (path : String) : Bytes :=
  ascii "GET " ++ ascii path ++ ascii " HTTP/1.1\r\nHost: a\r\n\r\n"

theorem run_requests_cut_in_a_header :
    (run plainServer.step (connect 0)
      [.read ((getRequest "/a").take 20), .read ((getRequest "/a").drop 20), .done true,
        .read (getRequest "/b"), .done true]).answered =
      plainServer.replies 0 [getRequest "/a", getRequest "/b"] := by
  refine (@run_requests plainServer 0 [getRequest "/a", getRequest "/b"] ?_ _ ?_ ?_).mpr ?_
  · decide +kernel
  · decide +kernel
  · decide
  refine ⟨by decide +kernel, by decide +kernel, by decide +kernel,
    [[(getRequest "/a").take 20, (getRequest "/a").drop 20], [getRequest "/b"]], ?_, ?_⟩
  · decide
  · decide

/-- Of two requests in one read the second one gets no answer, and a malformed request line or
    header block gets no 400. -/
theorem not_answered_pipelined :
    (Whole (getRequest "/a") ∧ Whole (getRequest "/b") ∧ (run plainServer.step (connect 0)
        [.read (getRequest "/a" ++ getRequest "/b"), .done true]).answered ≠
        plainServer.replies 0 [getRequest "/a", getRequest "/b"]) ∧
    (Malformed (ascii "GET\r\n") ∧
      (run plainServer.step (connect 0) [.read (ascii "GET\r\n")]).answered ≠
        plainServer.replies 0 [ascii "GET\r\n"]) ∧
    (Malformed (ascii "GET / HTTP/1.1\r\nHost\r\n\r\n") ∧ (run plainServer.step (connect 0)
        [.read (ascii "GET / HTTP/1.1\r\nHost\r\n\r\n")]).answered ≠
        plainServer.replies 0 [ascii "GET / HTTP/1.1\r\nHost\r\n\r\n"]) := by
  decide +kernel

end WebServer

end Cockpit
