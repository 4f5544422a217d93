import Cockpit.Bridge.ChannelWire
import Cockpit.Bridge.HttpStream

namespace Cockpit

open Lib List Bool Channel

/-!
# A finished HTTP stream stays finished

`on_stream_read` sets the state to `RELAY_DATA` whenever `relay_headers` returns `TRUE`, also
when it has failed the channel, and a close without a problem while a response is relayed
checks the stream in as if the response had ended.  `HttpStream.StepOk` names the events
that do neither.

* `HttpStream.FinishedInv.step`, `HttpStream.step_finished` — an event keeps it, and does
  nothing to a finished stream;
* `HttpStream.run_finished` — so it is in every run of such events.
-/

namespace Channel

/-- What a close changes for good. -/
def flags (c : Channel) : Bool × Bool × Bool × Bool × Bool :=
  (c.emittedClose, c.sentClose, c.recvSig, c.controlSig, c.closeSig)

/-- The flags of a channel that was closed. -/
def closedFlags : Bool × Bool × Bool × Bool × Bool := (true, true, false, false, false)

/-- Nothing follows "close" on the wire, and the channel knows that it was sent. -/
structure CloseLast (c : Channel) : Prop where
  last : c.sent.Pairwise fun m _ => m.isClose = false
  flag : c.sent.any Wire.isClose → c.sentClose

/-- Messages other than "close" went out. -/
structure Passed (c c' : Channel) : Prop where
  flags : c'.flags = c.flags
  sent : ∃ ms, c'.sent = c.sent ++ ms ∧ ms.any Wire.isClose = false

/-- The channel was closed. -/
structure Closed (c c' : Channel) : Prop where
  flags : c'.flags = closedFlags
  last : c.CloseLast → c'.CloseLast

variable {c c' : Channel}

/-- A "close" may follow in an open channel, and other messages may. -/
theorem CloseLast.append (h : c.CloseLast) (hopen : c.sentClose = false)
    {ms : List Wire} (hsent : c'.sent = c.sent ++ ms)
    (hms : ms.Pairwise fun m _ => m.isClose = false)
    (hflag : ms.any Wire.isClose → c'.sentClose) : c'.CloseLast := by
  have hnone : c.sent.any Wire.isClose = false :=
    eq_false_iff.mpr fun hclose => by simp [h.flag hclose] at hopen
  refine ⟨?_, ?_⟩
  · rw [hsent]
    refine pairwise_append.mpr ⟨h.last, hms, fun m hm _ _ => ?_⟩
    exact eq_false_iff.mpr (any_eq_false.mp hnone m hm)
  · rw [hsent, any_append, hnone, Bool.false_or]
    exact hflag

theorem CloseLast.of_eq (h : c.CloseLast) (hsent : c'.sent = c.sent)
    (hflag : c.sentClose → c'.sentClose) : c'.CloseLast :=
  ⟨by rw [hsent]; exact h.last, by rw [hsent]; exact fun hclose => hflag (h.flag hclose)⟩

/-- An open channel. -/
theorem CloseLast.passed (h : c.CloseLast) (hopen : c.sentClose = false)
    (hpass : Passed c c') : c'.CloseLast := by
  obtain ⟨ms, hsent, hms⟩ := hpass.sent
  refine h.append hopen hsent ?_ fun hclose => by simp [hms] at hclose
  exact pairwise_of_forall_mem_list fun m hm _ _ =>
    eq_false_iff.mpr (any_eq_false.mp hms m hm)

namespace Passed

theorem of_eq (hflags : c'.flags = c.flags) (hsent : c'.sent = c.sent) :
    Passed c c' := ⟨hflags, [], by simpa using hsent, rfl⟩

theorem trans {c'' : Channel} (h : Passed c c') (h' : Passed c' c'') : Passed c c'' := by
  obtain ⟨ms, hms, hnone⟩ := h.sent
  obtain ⟨ms', hms', hnone'⟩ := h'.sent
  exact ⟨h'.flags.trans h.flags, ms ++ ms', by rw [hms', hms, append_assoc], by
    rw [any_append, hnone, hnone', Bool.or_false]⟩

theorem sentClose (h : Passed c c') : c'.sentClose = c.sentClose :=
  congrArg (fun flags => flags.2.1) h.flags

theorem actualSend (c : Channel) (payload : Bytes) (trust : Bool) :
    Passed c (c.actualSend payload trust) := by
  unfold Channel.actualSend
  split
  · exact of_eq rfl rfl
  · exact ⟨rfl, _, rfl, rfl⟩

theorem flushBuffer (c : Channel) : Passed c c.flushBuffer := by
  unfold Channel.flushBuffer
  split
  · exact of_eq rfl rfl
  · rename_i payload _
    refine trans ?_ (actualSend _ payload false)
    exact of_eq rfl rfl

theorem send (c : Channel) (payload : Bytes) (trust : Bool) : Passed c (c.send payload trust) := by
  cases hh : c.holdsBack payload trust with
  | true =>
    rw [send_of_holdsBack hh]
    exact of_eq rfl rfl
  | false =>
    rw [send_of_not_holdsBack hh]
    exact ⟨rfl, _, rfl, rfl⟩

theorem control (c : Channel) {command : String} (hne : command ≠ "close")
    (options : Option JsonObject) (chain : Bool) :
    Passed c (c.control command options chain) := by
  unfold Channel.control
  rw [if_neg hne]
  split
  · exact of_eq rfl rfl
  · exact ⟨rfl, _, rfl, by simp [Wire.isClose, hne]⟩

end Passed

/-- `cockpit_channel_real_close` marks the channel as closed on the wire. -/
theorem flags_realClose (c : Channel) (problem : Option String) :
    (c.realClose problem).flags =
      (c.emittedClose, true, c.recvSig, c.controlSig, c.closeSig) := by
  cases hsent : c.sentClose with
  | true => simp [realClose, hsent, flags]
  | false =>
    cases htrans : c.transportClosed with
    | true => simp [realClose, hsent, htrans, flags]
    | false =>
      have hflush (c : Channel) := (Passed.flushBuffer c).flags
      simp only [flags, Prod.mk.injEq] at hflush
      simp only [realClose, hsent, htrans, flags, hflush, false_eq_true, if_false]

theorem CloseLast.realClose (h : c.CloseLast) (problem : Option String) :
    (c.realClose problem).CloseLast := by
  rcases c.realClose_cases problem with ⟨-, heq⟩ | ⟨-, -, hsent, hclose, -⟩ |
    ⟨hopen, -, hclose, -, message, hsent⟩
  · rw [heq]
    exact h
  · exact h.of_eq hsent fun _ => hclose
  rw [append_assoc] at hsent
  refine h.append hopen hsent ?_ fun _ => hclose
  refine pairwise_append.mpr ⟨?_, pairwise_singleton _ _, ?_⟩
  · exact pairwise_of_forall_mem_list fun m hm _ _ =>
      eq_false_iff.mpr (any_eq_false.mp (flushed_any_isClose c) m hm)
  · exact fun m hm _ _ =>
      eq_false_iff.mpr (any_eq_false.mp (flushed_any_isClose c) m hm)

/-- A class that has disconnected, and chains up. -/
theorem Closed.realClose (problem : Option String)
    (hflags : (c'.emittedClose, c'.recvSig, c'.controlSig, c'.closeSig) =
      (true, false, false, false))
    (hlast : c.CloseLast → c'.CloseLast) : Closed c (c'.realClose problem) := by
  refine ⟨?_, fun h => (hlast h).realClose problem⟩
  simp only [Prod.mk.injEq] at hflags
  rw [flags_realClose, hflags.1, hflags.2.1, hflags.2.2.1, hflags.2.2.2]
  rfl

/-- Fields changed that do not matter before the channel was closed. -/
theorem Closed.of_same {c₀ : Channel} (h : Closed c₀ c') (hsent : c₀.sent = c.sent)
    (hflag : c₀.sentClose = c.sentClose) : Closed c c' :=
  ⟨h.flags, fun hlast => h.last (hlast.of_eq hsent fun hclose => hflag.trans hclose)⟩

section

variable (c : Channel)

theorem Closed.close (problem : Option String) : Closed c (c.close problem true) :=
  Closed.realClose problem rfl fun h => h.of_eq rfl fun hflag => hflag

/-- A class that chains up later. -/
theorem Closed.close_late (problem : Option String) :
    Closed c ((c.close none false).realClose problem) :=
  Closed.realClose problem rfl fun h => h.of_eq rfl fun hflag => hflag

theorem Closed.fail (problem message : String) :
    Closed c (c.fail problem message true) :=
  Closed.realClose (some problem) rfl fun h => h.of_eq rfl fun hflag => hflag

theorem ensureCapable_cases :
    ((c.ensureCapable true).1 = c ∧ (c.ensureCapable true).2) ∨
      (Closed c (c.ensureCapable true).1 ∧ (c.ensureCapable true).2 = false) := by
  unfold ensureCapable
  split
  · exact .inr ⟨Closed.fail _ _ _, rfl⟩
  · exact .inl ⟨rfl, rfl⟩
  dsimp only
  split
  · exact .inl ⟨rfl, rfl⟩
  · refine .inr ⟨?_, rfl⟩
    exact (Closed.close _ (some "not-supported")).of_same rfl rfl

/-- Preparing leaves the channel open or closes it. -/
theorem realPrepare_cases :
    Passed c (c.realPrepare true) ∨ Closed c (c.realPrepare true) := by
  unfold realPrepare
  rcases ensureCapable_cases c with ⟨heq, hcap⟩ | ⟨hclos, hcap⟩
  · simp only [heq, hcap, Bool.not_true, false_eq_true, if_false]
    split
    · exact .inr (Closed.close _ _)
    split
    · exact .inr (Closed.fail _ _ _)
    · exact .inl (Passed.of_eq rfl rfl)
    · split
      · exact .inl (Passed.of_eq rfl rfl)
      · exact .inr ((Closed.fail _ _ _).of_same rfl rfl)
  · simp only [hcap, Bool.not_false, if_true]
    exact .inr hclos

/-- A channel that was closed, or is now. -/
theorem Closed.dispose (h : c.emittedClose → c.flags = closedFlags) :
    Closed c (c.dispose true) := by
  unfold Channel.dispose
  dsimp only
  split
  · rename_i hemit
    have hclos := h hemit
    simp only [Channel.flags, closedFlags, Prod.mk.injEq] at hclos
    refine ⟨?_, fun hlast => hlast.of_eq rfl fun hflag => hflag⟩
    simp [Channel.flags, closedFlags, removeTimeout, hclos]
  have hclos := Closed.close
    { c with prepareTag := false, recvSig := false, controlSig := false, closeSig := false }
    (some "terminated")
  refine ⟨hclos.flags, fun hlast => ?_⟩
  exact (hclos.last (hlast.of_eq rfl fun hflag => hflag)).of_eq rfl fun hflag => hflag

/-- Closing again sends nothing. -/
theorem sent_close_again (h : c.sentClose) (problem : Option String)
    (chain : Bool) : (c.close problem chain).sent = c.sent := by
  cases chain with
  | true => simp [close, realClose, h]
  | false => rfl

end

end Channel

namespace HttpStream

variable {writeBytes : JsonObject → Bytes} {s : HttpStream}

/-! ### The condition -/

/-- Whether `relay_headers` fails the channel. -/
def badHead (buffer beyond : Bytes) : Bool :=
  match parseStatusLine buffer beyond with
  | some (.item offset line) =>
    match parseHeaders (buffer.drop offset) with
    | .item _ headers =>
      (match lookupHeader headers "Transfer-Encoding" with
        | none => false
        | some coding => coding.bytes != ascii "chunked") ||
      (line.status != 204 &&
        match lookupHeader headers "Content-Length" with
        | none => false
        | some length =>
          (WebServer.strtoull length).2 != [] || maxSsize < (WebServer.strtoull length).1)
    | .more => false
    | .fail => true
  | some .fail => true
  | some .more | none => false

/-- Whether a message closes the channel without a problem. -/
def closesClean : Incoming → Bool
  | .recv _ => false
  | .control command options =>
    command == "close" && ((Json.getString options "problem" none).getD none).isNone

/-- Whether an event is a close without a problem that does not come from the stream. -/
def Event.closesClean (s : HttpStream) : Event → Bool
  | .close problem => problem.isNone
  | .incoming m => HttpStream.closesClean m
  | .thawed =>
    match s.channel.readying with
    | (_, m :: _) :: _ => HttpStream.closesClean m
    | _ => false
  | _ => false

/-- Whether an event other than a close leaves a finished stream finished: a read finds no head
    that is bad.  Two events that are no reads must not send anything for a stream that is
    finished: the end of `cockpit_channel_ready`, and the flush of bytes that were left when the
    transport closed. -/
def Event.Quiet (s : HttpStream) : Event → Prop
  | .streamRead data beyond _ =>
    s.stream → s.state = .relayRequest → badHead (s.buffer ++ data) (beyond 0) = false
  | .readyDone => s.state = .finished → s.channel.readying.head?.map (·.2.isEmpty) ≠ some true
  | .timeout source =>
    s.state = .finished → source ∈ s.channel.sources → s.channel.outBuffer = none
  | _ => True

/-- The events for which a finished stream stays finished: no head of a response is bad, and no
    close without a problem comes while a response is relayed that keeps the connection alive. -/
def StepOk (s : HttpStream) (e : Event) : Prop :=
  e.Quiet s ∧ (e.closesClean s → s.state = .relayData → s.keepAlive = false)

instance (s : HttpStream) : ∀ e : Event, Decidable (e.Quiet s)
  | .streamRead _ _ _ => inferInstanceAs (Decidable (_ → _ → _))
  | .readyDone => inferInstanceAs (Decidable (_ → _))
  | .timeout _ => inferInstanceAs (Decidable (_ → _ → _))
  | .prepare _ _ _ | .streamOpen | .thawed | .incoming _ | .streamClose _ | .rejectedCert _
  | .close _ | .transportClosed _ | .dispose => inferInstanceAs (Decidable True)

instance (s : HttpStream) (e : Event) : Decidable (StepOk s e) :=
  inferInstanceAs (Decidable (_ ∧ _))

/-! ### A close without a problem, by the state -/

theorem close_finished (h : s.state = .finished) :
    s.close none = { s with channel := s.channel.close none false } := by
  simp only [close, h]

theorem close_early (h : s.state = .bufferRequest ∨ s.state = .relayRequest) :
    s.close none =
      ({ s with
        failed := true
        channel := (s.channel.close none false).realClose "internal-error" } :
        HttpStream).setState .finished := by
  rcases h with h | h <;> simp only [close, h]

theorem close_relayed (h : s.state = .relayData) :
    s.close none =
      { s with
        channel := ((s.channel.close none false).control "done" none true).realClose none
        state := .finished
        states := s.states ++ [.finished]
        stream := s.stream && !s.keepAlive
        checkins := s.checkins + s.keepAlive.toNat } := by
  cases hkeep : s.keepAlive <;> simp [close, h, hkeep, setState, checkin]

/-! ### The invariant -/

/-- Nothing but `FINISHED` was assigned to the state after `FINISHED`, which goes with a channel
    that is closed; the stream is checked in by then or never, and only behind the end of a
    body. -/
structure FinishedInv (s : HttpStream) : Prop where
  last : s.states.getLast? = some s.state
  final : s.states.Pairwise fun a b => a = .finished → b = .finished
  opened : s.state ≠ .finished →
    s.channel.emittedClose = false ∧ s.channel.sentClose = false ∧ s.checkins = 0
  closed : s.state = .finished → s.channel.flags = closedFlags
  wire : s.channel.CloseLast
  once : s.checkins ≤ 1
  framed : s.checkins ≠ 0 → s.framed

namespace FinishedInv

theorem new (id : String) (options : JsonObject) : FinishedInv (new id options) := by
  refine ⟨rfl, ?_, fun _ => ⟨rfl, rfl, rfl⟩, ?_, ⟨?_, ?_⟩, ?_, ?_⟩ <;>
    simp [HttpStream.new, Channel.new]

section

variable (h : FinishedInv s)

include h

variable {s' : HttpStream}

/-- Messages other than "close" went out for a stream that is not finished. -/
theorem of_passed (hstate : s'.state = s.state)
    (hstates : s'.states = s.states) (hpass : s.channel.Passed s'.channel)
    (hopen : s'.channel.sent = s.channel.sent ∨ s.state ≠ .finished)
    (hcheckins : s'.checkins = s.checkins) (hfram : s.framed → s'.framed) :
    FinishedInv s' where
  last := by rw [hstates, hstate]; exact h.last
  final := by rw [hstates]; exact h.final
  opened := by
    rw [hstate, hcheckins, hpass.sentClose]
    have hemit : s'.channel.emittedClose = s.channel.emittedClose :=
      congrArg Prod.fst hpass.flags
    rw [hemit]
    exact h.opened
  closed := by rw [hstate, hpass.flags]; exact h.closed
  wire := by
    rcases hopen with hsent | hopen
    · exact h.wire.of_eq hsent fun hclose => hpass.sentClose.trans hclose
    · exact h.wire.passed (h.opened hopen).2.1 hpass
  once := by rw [hcheckins]; exact h.once
  framed := by rw [hcheckins]; exact fun hne => hfram (h.framed hne)

/-- Only fields that do not matter change. -/
theorem of_eq (hsame : (s'.state, s'.states, s'.channel.flags, s'.channel.sent, s'.checkins) =
      (s.state, s.states, s.channel.flags, s.channel.sent, s.checkins))
    (hfram : s.framed → s'.framed) : FinishedInv s' := by
  simp only [Prod.mk.injEq] at hsame
  obtain ⟨hstate, hstates, hflags, hsent, hcheckins⟩ := hsame
  exact h.of_passed hstate hstates (.of_eq hflags hsent) (.inl hsent) hcheckins hfram

/-- The states after one more assignment. -/
theorem snoc {state : HttpState}
    (hstate : s.state = .finished → state = .finished) :
    (s.states ++ [state]).Pairwise fun a b => a = .finished → b = .finished := by
  refine pairwise_append.mpr ⟨h.final, pairwise_singleton _ _, ?_⟩
  intro a ha b hb
  obtain rfl : b = state := by simpa using hb
  rintro rfl
  refine hstate ?_
  -- the last state comes after the one that is `FINISHED`
  obtain ⟨init, hinit⟩ : ∃ init, s.states = init ++ [s.state] :=
    ⟨_, (dropLast_append_getLast? _ h.last).symm⟩
  have hfinal := h.final
  rw [hinit] at ha hfinal
  rcases mem_append.mp ha with ha | ha
  · exact (pairwise_append.mp hfinal).2.2 _ ha _ mem_cons_self rfl
  · exact (mem_singleton.mp ha).symm

/-- A state other than `FINISHED`. -/
theorem setState (hopen : s.state ≠ .finished) {state : HttpState}
    (hne : state ≠ .finished) : FinishedInv (s.setState state) := { h with
  last := by simp [HttpStream.setState]
  final := h.snoc fun hfin => absurd hfin hopen
  opened _ := h.opened hopen
  closed hfin := absurd hfin hne }

/-- `FINISHED`, for a channel that is closed. -/
theorem finish (hstate : s'.state = .finished)
    (hstates : s'.states = s.states ++ [.finished]) (hclos : s.channel.Closed s'.channel)
    (honce : s'.checkins ≤ 1) (hfram : s'.checkins ≠ 0 → s'.framed) :
    FinishedInv s' where
  last := by rw [hstates, hstate]; simp
  final := by rw [hstates]; exact h.snoc fun _ => rfl
  opened hne := absurd hstate hne
  closed _ := hclos.flags
  wire := hclos.last h.wire
  once := honce
  framed := hfram

theorem fail (problem message : String) :
    FinishedInv (s.fail problem message) ∧ (s.fail problem message).state = .finished :=
  ⟨h.finish rfl rfl (.fail _ _ _) h.once h.framed, rfl⟩

theorem protocolError (message : String) :
    FinishedInv (s.protocolError message) ∧ (s.protocolError message).state = .finished :=
  h.fail _ _

/-- A close; without a problem, and with a stream to keep, it comes at the end of a body. -/
theorem close (problem : Option String)
    (hfram : problem = none → s.state = .relayData → s.keepAlive → s.framed) :
    FinishedInv (s.close problem) ∧ (s.close problem).state = .finished := by
  cases problem with
  | some problem => exact ⟨h.finish rfl rfl (.close s.channel problem) h.once h.framed, rfl⟩
  | none =>
    cases hstate : s.state with
    | finished =>
      rw [close_finished hstate]
      refine ⟨h.of_passed rfl rfl (.of_eq ?_ rfl) (.inl rfl) rfl id, hstate⟩
      have hclos := h.closed hstate
      simp only [Channel.flags, closedFlags, Prod.mk.injEq] at hclos
      simp [Channel.flags, Channel.close, hclos]
    | bufferRequest =>
      rw [close_early (.inl hstate)]
      exact ⟨h.finish rfl rfl (.close_late s.channel (some "internal-error")) h.once h.framed, rfl⟩
    | relayRequest =>
      rw [close_early (.inr hstate)]
      exact ⟨h.finish rfl rfl (.close_late s.channel (some "internal-error")) h.once h.framed, rfl⟩
    | relayData =>
      obtain ⟨-, hopen, hzero⟩ := h.opened (by simp [hstate])
      have hdone := Channel.Passed.control (s.channel.close none false)
        (show "done" ≠ "close" by decide) none true
      have hclos : s.channel.Closed
          (((s.channel.close none false).control "done" none true).realClose none) := by
        have hlast (hlast : s.channel.CloseLast) : (s.channel.close none false).CloseLast :=
          hlast.of_eq rfl fun hflag => hflag
        refine Channel.Closed.realClose none ?_ fun h => (hlast h).passed hopen hdone
        have hflags := hdone.flags
        simp only [Channel.flags, Prod.mk.injEq] at hflags
        rw [hflags.1, hflags.2.2.1, hflags.2.2.2.1, hflags.2.2.2.2]
        rfl
      rw [close_relayed hstate]
      refine ⟨h.finish rfl rfl hclos ?_ ?_, rfl⟩
      · cases s.keepAlive <;> simp [hzero]
      · intro hne
        exact hfram rfl hstate (by simpa [hzero] using hne)

end

end FinishedInv

/-! ### Reading a response -/

variable {headers : Headers}

/-- An accepted coding sets one field. -/
theorem parseTransferEncoding_eq
    (h : ∀ coding, lookupHeader headers "Transfer-Encoding" = some coding →
      coding.bytes = ascii "chunked") :
    s.parseTransferEncoding headers =
      ({ s with responseChunked := (lookupHeader headers "Transfer-Encoding").isSome }, true) := by
  unfold parseTransferEncoding
  cases hcode : lookupHeader headers "Transfer-Encoding" with
  | none => rfl
  | some coding => simp [h coding hcode]

/-- What `parse_content_length` makes of a status and the header. -/
def contentLength (status : Nat) (headers : Headers) : Int :=
  if status = 204 then 0
  else ((lookupHeader headers "Content-Length").map fun length =>
    ((WebServer.strtoull length).1 : Int)).getD (-1)

/-- An accepted length sets one field. -/
theorem parseContentLength_eq {status : Nat}
    (h : status ≠ 204 → ∀ length, lookupHeader headers "Content-Length" = some length →
      (WebServer.strtoull length).2 = [] ∧ (WebServer.strtoull length).1 ≤ maxSsize) :
    s.parseContentLength status headers =
      ({ s with responseLength := contentLength status headers }, true) := by
  unfold parseContentLength contentLength
  by_cases hstat : status = 204
  · simp [hstat]
  cases hlen : lookupHeader headers "Content-Length" with
  | none => simp [hstat]
  | some length =>
    obtain ⟨hrest, hmax⟩ := h hstat length hlen
    simp [hstat, hrest, Nat.not_lt.mpr hmax]

/-- What a head that is not bad says of its fields. -/
theorem badHead_item {buffer beyond : Bytes} (hok : badHead buffer beyond = false)
    {offset : Nat} {line : StatusLine} (hline : parseStatusLine buffer beyond =
      some (.item offset line)) {offset2 : Nat}
    (hheads : parseHeaders (buffer.drop offset) = .item offset2 headers) :
    (∀ coding, lookupHeader headers "Transfer-Encoding" = some coding →
      coding.bytes = ascii "chunked") ∧
    (line.status ≠ 204 → ∀ length, lookupHeader headers "Content-Length" = some length →
      (WebServer.strtoull length).2 = [] ∧ (WebServer.strtoull length).1 ≤ maxSsize) := by
  simp only [badHead, hline, hheads, or_eq_false_iff] at hok
  refine ⟨?_, ?_⟩
  · intro coding hcode
    simpa [hcode] using hok.1
  · intro hstat length hlen
    simpa [hlen, hstat] using hok.2

@[simp] theorem state_relayResponse (line : StatusLine) (headers : Headers) :
    (relayResponse writeBytes s line headers).state = s.state := by
  unfold relayResponse
  dsimp only
  split <;> rfl

namespace FinishedInv

/-- The fields of the channel that a message on it does not change. -/
theorem relayResponse (h : FinishedInv s) (hopen : s.state ≠ .finished) (line : StatusLine) (headers : Headers) :
    FinishedInv (relayResponse writeBytes s line headers) := by
  unfold HttpStream.relayResponse
  dsimp only
  split
  · exact h.of_passed rfl rfl (.send _ _ _) (.inr hopen) rfl id
  · exact h.of_passed rfl rfl (.control _ (show "response" ≠ "close" by decide) _ true) (.inr hopen) rfl id

/-- A head that is not bad leaves the state as it is. -/
theorem relayHeaders (writeBytes : JsonObject → Bytes) (h : FinishedInv s) (hopen : s.state ≠ .finished) {beyond : Bytes}
    (hok : badHead s.buffer beyond = false) :
    FinishedInv (relayHeaders writeBytes s beyond).1 ∧
      (relayHeaders writeBytes s beyond).1.state = s.state := by
  unfold HttpStream.relayHeaders
  split
  · exact ⟨h.of_eq rfl id, rfl⟩
  · exact ⟨h, rfl⟩
  · rename_i hline
    simp [badHead, hline] at hok
  rename_i offset line hline
  split
  · exact ⟨h, rfl⟩
  · rename_i hheads
    simp [badHead, hline, hheads] at hok
  rename_i offset2 headers hheads
  obtain ⟨hcode, hlen⟩ := badHead_item hok hline hheads
  rw [parseTransferEncoding_eq hcode]
  dsimp only
  rw [parseContentLength_eq hlen]
  refine ⟨relayResponse ?_ ?_ _ _, state_relayResponse _ _⟩
  · exact h.of_eq rfl id
  · exact hopen

section

variable (h : FinishedInv s)

include h

/-- Payload leaves the state as it is. -/
theorem relayData (hopen : s.state ≠ .finished) (data : Bytes) :
    FinishedInv (s.relayData data) := by
  have hblocks : ∀ (blocks : List Bytes) (c : Channel),
      c.Passed (blocks.foldl (fun c block => c.send block false) c) := by
    intro blocks
    induction blocks with
    | nil => exact fun _ => .of_eq rfl rfl
    | cons block blocks ih => exact fun c => (Channel.Passed.send c block false).trans (ih _)
  unfold HttpStream.relayData
  split
  · exact h.of_passed rfl rfl (.send _ _ _) (.inr hopen) rfl id
  · exact h.of_passed rfl rfl (hblocks _ _) (.inr hopen) rfl id

/-- The end that the framing gives a body. -/
theorem framedClose (buffer : Bytes) :
    FinishedInv (({ s with buffer := buffer, framed := true } : HttpStream).close none) := by
  refine (close ?_ none fun _ _ _ => rfl).1
  exact h.of_eq rfl fun _ => rfl

section

variable (hopen : s.state ≠ .finished)

include hopen

theorem relayChunked (beyond : Bytes) :
    FinishedInv (s.relayChunked beyond).1 := by
  unfold HttpStream.relayChunked
  dsimp only
  split
  · exact h
  split
  · exact h
  split
  · exact (h.protocolError _).1
  split
  · exact (h.protocolError _).1
  split
  · exact h
  split
  · exact (h.protocolError _).1
  split
  · exact h.framedClose _
  · refine relayData ?_ ?_ _
    · exact h.of_eq rfl id
    · exact hopen

theorem relayLength : FinishedInv s.relayLength.1 := by
  unfold HttpStream.relayLength
  dsimp only
  split
  · exact h.framedClose _
  split
  · exact h
  · refine relayData ?_ ?_ _
    · exact h.of_eq rfl id
    · exact hopen

theorem relayAll : FinishedInv s.relayAll.1 := by
  unfold HttpStream.relayAll
  split
  · exact h
  · refine relayData ?_ ?_ _
    · exact h.of_eq rfl id
    · exact hopen

/-- One turn of the loop. -/
theorem relay (beyond : Bytes) :
    FinishedInv (s.relay beyond).1 := by
  unfold HttpStream.relay
  split
  · exact h.relayChunked hopen beyond
  split
  · exact h.relayLength hopen
  · exact h.relayAll hopen

end

end

/-- All turns of the loop. -/
theorem relayLoop (beyond : Nat → Bytes) (n : Nat) (h : FinishedInv s) :
    FinishedInv (relayLoop beyond n s) := by
  induction n generalizing s with
  | zero => exact h
  | succ n ih =>
    unfold HttpStream.relayLoop
    split
    · rename_i hstate
      have hturn := h.relay (by simp [hstate]) (beyond n)
      split
      · rename_i s' hs
        rw [hs] at hturn
        exact ih hturn
      · rename_i s' hs
        rw [hs] at hturn
        exact hturn
    · exact h

/-! ### Events -/

section

variable (h : FinishedInv s)

include h

theorem onStreamRead {data : Bytes} {beyond : Nat → Bytes}
    (endOfData : Bool)
    (hok : s.stream → s.state = .relayRequest → badHead (s.buffer ++ data) (beyond 0) = false) :
    FinishedInv (onStreamRead writeBytes s data beyond endOfData) := by
  unfold HttpStream.onStreamRead
  split
  · rename_i hstream
    have hread : FinishedInv { s with buffer := s.buffer ++ data } := h.of_eq rfl id
    dsimp only
    split
    · split
      · exact hread
      · exact (hread.protocolError _).1
    · rename_i hstate
      have hopen : s.state ≠ .finished := ne_of_eq_of_ne hstate (by decide)
      have hhead := hread.relayHeaders writeBytes hopen (hok hstream hstate)
      split
      · rename_i s' hs
        rw [hs] at hhead
        split
        · exact hhead.1
        · refine relayLoop beyond _ (hhead.1.setState ?_ (by decide))
          rw [hhead.2]
          exact hopen
      rename_i s' hs
      rw [hs] at hhead
      split
      · exact (hhead.1.protocolError _).1
      · exact hhead.1
    · exact relayLoop beyond _ hread
    · exact hread
  · exact h

theorem onStreamClose (problem : Option String) :
    FinishedInv (s.onStreamClose problem) := by
  unfold HttpStream.onStreamClose
  split
  · have hquiet : FinishedInv { s with keepAlive := false } := h.of_eq rfl id
    dsimp only
    split
    · exact hquiet
    split
    · exact (hquiet.close problem nofun).1
    split
    · exact (hquiet.close none nofun).1
    · exact (hquiet.protocolError _).1
  · exact h

/-- The request goes out, or the channel fails. -/
theorem done : FinishedInv s.done := by
  unfold HttpStream.done
  split
  · rename_i hstate
    have hrelay := h.setState (by simp [hstate]) (show HttpState.relayRequest ≠ .finished by decide)
    unfold sendHttpRequest
    split
    · exact (hrelay.protocolError _).1
    · exact hrelay.of_eq rfl id
  · exact h

/-- A message that is no close without a problem in the middle of a response. -/
theorem deliver (m : Incoming)
    (hok : closesClean m → s.state = .relayData → s.keepAlive = false) :
    FinishedInv (s.deliver m) := by
  cases m with
  | recv payload =>
    unfold HttpStream.deliver processRecv
    dsimp only
    split
    · split
      · exact (h.fail _ _).1
      · exact h.of_eq rfl id
    · exact h
  | control command options =>
    unfold HttpStream.deliver processControl
    dsimp only
    split
    · split
      · rename_i hclose
        refine (h.close _ ?_).1
        intro hprob hstate hkeep
        refine absurd (hok ?_ hstate) (by simp [hkeep])
        simp [closesClean, hclose, hprob]
      split
      · split
        · exact (h.fail _ _).1.done
        · exact done (h.of_eq rfl id)
      · exact h
    · exact h

variable (client : Option Connectable) (parsed : Except (String × String) Connectable)

/-- The parent has prepared the channel. -/
theorem realPrepare
 (checkout : Option Bytes) :
    FinishedInv (s.realPrepare client parsed checkout) := by
  unfold HttpStream.realPrepare
  dsimp only
  split
  · exact (h.fail _ _).1
  split
  · exact (h.fail _ _).1
  have hinline : FinishedInv { s with
      headersInline :=
        (Json.getString s.channel.openOptions "payload" none).join == some "http-stream1" } :=
          h.of_eq rfl id
  split
  · exact (hinline.fail _ _).1
  · split <;> exact h.of_eq rfl id

/-- Preparing leaves the channel open, or fails. -/
theorem prepare
 (checkout : Option Bytes) :
    FinishedInv (s.prepare client parsed checkout) := by
  unfold HttpStream.prepare
  split
  · exact h
  dsimp only
  split
  · exact h.of_eq rfl id
  rename_i hopen
  have hcases := realPrepare_cases
    { s.channel with prepareTag := false, prepared := true }
  split
  · rename_i hclos
    refine h.finish rfl rfl ?_ h.once h.framed
    refine (hcases.resolve_left fun hpass => ?_).of_same rfl rfl
    exact hopen ((congrArg Prod.fst hpass.flags).symm.trans hclos)
  rename_i hstill
  have hpass := hcases.resolve_right fun hclos => hstill (congrArg Prod.fst hclos.flags)
  refine realPrepare ?_ client parsed checkout
  refine h.of_passed rfl rfl ⟨hpass.flags, hpass.sent⟩ (.inr fun hfin => hopen ?_) rfl id
  exact congrArg Prod.fst (h.closed hfin)

theorem dispose : FinishedInv s.dispose := by
  have hclos := Channel.Closed.dispose s.channel fun hemit => h.closed <|
    of_not_not fun hne => by simp [(h.opened hne).1] at hemit
  unfold HttpStream.dispose
  dsimp only
  split
  · rename_i hemit
    have hfin : s.state = .finished :=
      of_not_not fun hne => by simp [(h.opened hne).1] at hemit
    have hsent : (s.channel.dispose true).sent = s.channel.sent := by
      simp [Channel.dispose, Channel.removeTimeout, hemit]
    exact h.of_passed rfl rfl (.of_eq (hclos.flags.trans (h.closed hfin).symm) hsent) (.inl hsent)
      rfl id
  · exact h.finish rfl rfl hclos h.once h.framed

/-- An event keeps the invariant. -/
theorem step {e : Event} (hok : StepOk s e) :
    FinishedInv (HttpStream.step writeBytes s e) := by
  obtain ⟨hevent, hclean⟩ := hok
  unfold HttpStream.step
  split
  · exact h
  cases e with
  | prepare client parsed checkout => exact h.prepare client parsed checkout
  | streamOpen =>
    dsimp only [onStreamOpen]
    split
    · exact h.of_eq rfl id
    · exact h
  | thawed =>
    dsimp only
    split
    · rename_i message m rest outer hreadying
      have hpopped : FinishedInv { s with
          channel := { s.channel with readying := (message, rest) :: outer } } := h.of_eq rfl id
      exact hpopped.deliver m fun hm => hclean (by simpa [Event.closesClean, hreadying] using hm)
    · exact h
  | readyDone =>
    dsimp only [Channel.step]
    split
    · rename_i message outer hreadying
      refine h.of_passed rfl rfl ?_ (.inr fun hfin => hevent hfin (by simp [hreadying])) rfl id
      have hpass := Channel.Passed.control { s.channel with readying := outer }
        (show "ready" ≠ "close" by decide) message true
      exact ⟨hpass.flags, hpass.sent⟩
    · exact h
  | incoming m =>
    dsimp only
    split
    · exact h.of_eq rfl id
    · exact h.deliver m hclean
  | streamRead data beyond endOfData => exact h.onStreamRead endOfData hevent
  | streamClose problem => exact h.onStreamClose problem
  | rejectedCert pemData =>
    dsimp only [onRejectedCert]
    split
    · exact h.of_eq rfl id
    · exact h
  | close problem =>
    refine (h.close problem fun hprob hstate hkeep => ?_).1
    exact absurd (hclean (by simp [Event.closesClean, hprob]) hstate) (by simp [hkeep])
  | timeout source =>
    dsimp only [Channel.step]
    split
    · rename_i hsrc
      have hpass := Channel.Passed.flushBuffer
        { s.channel with sources := s.channel.sources.erase source }
      refine h.of_passed rfl rfl ⟨hpass.flags, hpass.sent⟩ ?_ rfl id
      by_cases hfin : s.state = .finished
      · have hbuf := hevent hfin (by simpa using hsrc)
        exact .inl (by simp [Channel.flushBuffer, hbuf])
      · exact .inr hfin
    · exact h
  | transportClosed problem =>
    dsimp only [onTransportClosed]
    split
    · have hmark : FinishedInv { s with channel := { s.channel with transportClosed := true } } :=
      h.of_eq rfl id
      split
      · exact hmark
      · exact (hmark.close (some (problem.getD "disconnected")) nofun).1
    · exact h
  | dispose => exact h.dispose

end

end FinishedInv

/-- An event sends nothing for a finished stream, and the stream stays finished. -/
theorem step_finished (h : FinishedInv s) (hfin : s.state = .finished) {e : Event}
    (hok : StepOk s e) :
    (step writeBytes s e).state = .finished ∧
      (step writeBytes s e).channel.sent = s.channel.sent := by
  have hclos := h.closed hfin
  simp only [Channel.flags, closedFlags, Prod.mk.injEq] at hclos
  obtain ⟨hemit, hsent, hrecv, hctl, hclose⟩ := hclos
  -- the signals of the transport are disconnected
  have hdeliver : ∀ (s : HttpStream) (m : Incoming), s.channel.recvSig = false →
      s.channel.controlSig = false → s.deliver m = s := by
    intro s m hrecv hctl
    cases m <;> simp [deliver, hrecv, hctl]
  unfold step
  split
  · exact ⟨hfin, rfl⟩
  cases e with
  | prepare client parsed checkout =>
    simp only [prepare, hemit]
    split <;> exact ⟨hfin, rfl⟩
  | streamOpen =>
    dsimp only [onStreamOpen]
    split <;> exact ⟨hfin, rfl⟩
  | thawed =>
    dsimp only
    split
    · rw [hdeliver]
      · exact ⟨hfin, rfl⟩
      · exact hrecv
      · exact hctl
    · exact ⟨hfin, rfl⟩
  | readyDone =>
    refine ⟨hfin, ?_⟩
    dsimp only [Channel.step]
    split
    · rename_i message outer hreadying
      exact absurd (by simp [hreadying]) (hok.1 hfin)
    · rfl
  | incoming m =>
    dsimp only
    split
    · exact ⟨hfin, rfl⟩
    · rw [hdeliver _ _ hrecv hctl]
      exact ⟨hfin, rfl⟩
  | streamRead data beyond endOfData =>
    simp only [onStreamRead, hfin]
    split <;> exact ⟨by simp [hfin], rfl⟩
  | streamClose problem =>
    simp only [onStreamClose, hfin, if_true]
    split <;> exact ⟨by simp [hfin], rfl⟩
  | rejectedCert pemData =>
    dsimp only [onRejectedCert]
    split <;> exact ⟨hfin, rfl⟩
  | close problem =>
    cases problem with
    | none =>
      show (s.close none).state = .finished ∧ (s.close none).channel.sent = s.channel.sent
      rw [close_finished hfin]
      exact ⟨hfin, rfl⟩
    | some problem => exact ⟨rfl, sent_close_again _ hsent _ _⟩
  | timeout source =>
    refine ⟨hfin, ?_⟩
    dsimp only [Channel.step]
    split
    · rename_i hsrc
      have hbuf := hok.1 hfin (by simpa using hsrc)
      simp [Channel.flushBuffer, hbuf]
    · rfl
  | transportClosed problem =>
    simp only [onTransportClosed, hclose, false_eq_true, if_false]
    exact ⟨hfin, trivial⟩
  | dispose =>
    simp only [dispose, hemit, if_true, Channel.dispose]
    exact ⟨hfin, rfl⟩

/-- What holds of a state and of a later one: of the values that the state was given none but
    `FINISHED` follows `FINISHED`; a stream that was finished still is, and nothing has been sent
    for it since, nor is there anything behind a "close"; and the stream was checked in at most
    once, with a body that ended where its framing says. -/
structure StaysFinished (s s' : HttpStream) : Prop where
  final : s'.states.Pairwise fun a b => a = .finished → b = .finished
  state : s.state = .finished → s'.state = .finished
  sent : s.state = .finished → s'.channel.sent = s.channel.sent
  wire : s'.channel.sent.Pairwise fun m _ => m.isClose = false
  once : s'.checkins ≤ 1
  framed : s'.checkins ≠ 0 → s'.framed

/-- **A finished stream stays finished**, in every run of such events and for every place in
    it. -/
theorem run_finished (writeBytes : JsonObject → Bytes) (id : String) (options : JsonObject)
    (es later : List Event)
    (hok : RunOk (step writeBytes) StepOk (new id options) (es ++ later)) :
    StaysFinished (run (step writeBytes) (new id options) es)
      (run (step writeBytes) (new id options) (es ++ later)) := by
  obtain ⟨hes, hlater⟩ := (runOk_append _ _ _).mp hok
  rw [run_append]
  have hfirst := run_invariant FinishedInv (fun _ _ h hok => h.step hok)
    (FinishedInv.new id options) hes
  have hsecond := run_invariant FinishedInv (fun _ _ h hok => h.step hok) hfirst hlater
  -- from a finished stream on, what was sent is part of the invariant
  have hquiet (hfin : (run (step writeBytes) (new id options) es).state = .finished) :=
    run_invariant
      (fun s' => FinishedInv s' ∧ s'.state = .finished ∧
        s'.channel.sent = (run (step writeBytes) (new id options) es).channel.sent)
      (fun s' e h hok => by
        obtain ⟨hinv, hstate, hsent⟩ := h
        obtain ⟨hstate', hsent'⟩ := step_finished hinv hstate hok
        exact ⟨hinv.step hok, hstate', hsent'.trans hsent⟩)
      ⟨hfirst, hfin, rfl⟩ hlater
  exact { hsecond with
      state := fun hfin => (hquiet hfin).2.1, sent := fun hfin => (hquiet hfin).2.2,
      wire := hsecond.wire.last }

/-- The options of a request. -/
def getOptions : JsonObject :=
  [("payload", .string "http-stream2"), ("binary", .string "raw"), ("path", .string "/"),
    ("method", .string "GET")]

/-- The events up to the time when a request is sent. -/
def getEvents : List Event :=
  [.prepare none (.ok ⟨false, "host"⟩) none, .streamOpen, .readyDone,
    .incoming (.control "done" [])]

/-- A response with a body of two bytes, and a close of the stream behind it. -/
theorem run_finished_short_body :
    RunOk (step fun _ => []) StepOk (new "4" getOptions)
        ((getEvents ++ [.streamRead (ascii "HTTP/1.1 200 OK\r\nContent-Length: 2\r\n\r\nhi")
          (fun _ => []) false]) ++ [.streamClose none]) ∧
      StaysFinished
        (run (step fun _ => []) (new "4" getOptions)
          (getEvents ++ [.streamRead (ascii "HTTP/1.1 200 OK\r\nContent-Length: 2\r\n\r\nhi")
            (fun _ => []) false]))
        (run (step fun _ => []) (new "4" getOptions)
          ((getEvents ++ [.streamRead (ascii "HTTP/1.1 200 OK\r\nContent-Length: 2\r\n\r\nhi")
            (fun _ => []) false]) ++ [.streamClose none])) := by
  have hok : RunOk (step fun _ => []) StepOk (new "4" getOptions)
      ((getEvents ++ [.streamRead (ascii "HTTP/1.1 200 OK\r\nContent-Length: 2\r\n\r\nhi")
        (fun _ => []) false]) ++ [.streamClose none]) := by
    decide +kernel
  exact ⟨hok, run_finished _ _ _ _ _ hok⟩

/-- A bad status line: the channel is closed, and the state goes on to `RELAY_DATA`. -/
theorem not_staysFinished_bad_status :
    ¬ StaysFinished (run (step fun _ => []) (new "4" getOptions) getEvents)
      (run (step fun _ => []) (new "4" getOptions)
        (getEvents ++ [.streamRead (ascii "HTTP/1.1 abc OK\r\n") (fun _ => []) false])) := by
  intro h
  have hstates : (run (step fun _ => []) (new "4" getOptions)
      (getEvents ++ [.streamRead (ascii "HTTP/1.1 abc OK\r\n") (fun _ => []) false])).states =
      [.bufferRequest, .relayRequest, .finished, .relayData] := by decide
  have hfinal := h.final
  rw [hstates] at hfinal
  exact nomatch hfinal

end HttpStream

end Cockpit
