import Cockpit.Lib.Run
import Cockpit.WebSocket.Connection

namespace Cockpit.WebSocket

open Lib List GLib

/-!
# Frames survive any scheduling

A connection that sends data messages and answers pings, under any schedule of partial and
blocked writes, and a connection that reads what was written, under any cut into reads.

* `Connection.processIncoming_drain` — the frame loop delivers what `Framing.drain` finds.
* `Connection.frames_survive` — the messages arrive, in order.
-/

namespace Connection

/-! ### The writing side -/

/-- What happens to the writing side. -/
inductive OutputEvent where
  | send (type : DataType) (pref message : Bytes)
  /-- A ping arrives, and its payload is sent back. -/
  | ping (data : Bytes)
  /-- The output stream takes at most so many bytes, zero when it would block. -/
  | write (count : Nat)

/-- One event of the writing side. -/
def outputStep (c : Connection) : OutputEvent → Connection
  | .send type pref message => c.send type pref message
  | .ping data => c.receivePing data
  | .write count => if c.outputSource then c.onOutput (some count) else c

/-- A connection just after its handshake. -/
def opened (serverSide : Bool) (random : Nat → UInt32) : Connection :=
  { new serverSide true random with handshakeDone := true, startIdle := false, inputSource := true }

/-- The messages that may be sent: below the limit of the reader, and valid if text. -/
def Sendable : OutputEvent → Prop
  | .send .text pref message =>
    pref.length + message.length < maxPayload ∧ utf8Validate pref = pref.length ∧
      utf8Validate message = message.length
  | .send .binary pref message => pref.length + message.length < maxPayload
  | .ping _ => True
  | .write _ => True

instance Sendable.decidable : ∀ e, Decidable (Sendable e)
  | .send .text _ _ => inferInstanceAs (Decidable (_ ∧ _ ∧ _))
  | .send .binary _ _ => inferInstanceAs (Decidable (_ < _))
  | .ping _ => inferInstanceAs (Decidable True)
  | .write _ => inferInstanceAs (Decidable True)

/-- The opcode of a data message. -/
def dataOpcode : DataType → UInt8
  | .text => 0x01
  | .binary => 0x02

/-- The message that an event sends. -/
def sentMessage : OutputEvent → Option (UInt8 × Bytes)
  | .send type pref message => some (dataOpcode type, pref ++ message)
  | .ping _ => none
  | .write _ => none

/-- The data message that a frame carries. -/
def frameMessage (r : RawFrame) : Option (UInt8 × Bytes) :=
  if r.opcode = 0x0A then none else some (r.opcode, r.payload)

/-- The frames that are sent: pongs and data messages, none too big, text valid. -/
structure Carried (r : RawFrame) : Prop where
  opcode : r.opcode = 0x01 ∨ r.opcode = 0x02 ∨ r.opcode = 0x0A
  size : r.payload.length < maxPayload
  text : r.opcode = 0x01 → utf8Validate r.payload = r.payload.length

/-- The part of the first queued frame that is written. -/
def sentPart : List OutFrame → Bytes
  | [] => []
  | f :: _ => f.data.take f.sent

/-- Only the first queued frame may be partially written, and it is not written whole. -/
def Waiting : List OutFrame → Prop
  | [] => True
  | f :: rest => f.sent < f.data.length ∧ ∀ o ∈ rest, o.sent = 0

/-- The invariant of the writing side after the messages `sent`: the frames `done` are written,
    the frames `waiting` are queued, and together they carry the messages. -/
structure OutInv (sent : List (UInt8 × Bytes)) (c : Connection) (done waiting : List RawFrame) :
    Prop where
  isOpen : c.readyState = .opened
  closeSent : c.closeSent = false
  data : c.outgoing.map OutFrame.data = waiting.map RawFrame.encode
  last : ∀ o ∈ c.outgoing, o.last = false
  order : Waiting c.outgoing
  running : c.outgoing ≠ [] → c.outputSource
  written : c.written = (done.map RawFrame.encode).flatten ++ sentPart c.outgoing
  carried : ∀ r ∈ done ++ waiting, Carried r
  messages : (done ++ waiting).filterMap frameMessage = sent

/-- A frame is not empty. -/
theorem encode_length_pos (r : RawFrame) : 0 < r.encode.length := by
  unfold RawFrame.encode
  dsimp only
  split <;> simp

variable {fs : List OutFrame} {o : OutFrame}

/-- A frame at the end of the queue leaves the first one alone. -/
theorem waiting_append (h : Waiting fs) (hsent : o.sent = 0)
    (hpos : 0 < o.data.length) : Waiting (fs ++ [o]) ∧ sentPart (fs ++ [o]) = sentPart fs := by
  cases fs with
  | nil => exact ⟨⟨by omega, by simp⟩, by simp [sentPart, hsent]⟩
  | cons f rest =>
    refine ⟨⟨h.1, ?_⟩, rfl⟩
    intro x hx
    rcases mem_append.mp hx with hx | hx
    · exact h.2 x hx
    · rw [mem_singleton.mp hx, hsent]

/-- An urgent frame leaves a frame alone that is partially sent. -/
theorem waiting_pushUrgent (h : Waiting fs) (hsent : o.sent = 0) (hpos : 0 < o.data.length) :
    Waiting (pushUrgent o fs) ∧ sentPart (pushUrgent o fs) = sentPart fs := by
  cases fs with
  | nil => exact ⟨⟨by omega, by simp⟩, by simp [pushUrgent, sentPart, hsent]⟩
  | cons f rest =>
    simp only [pushUrgent]
    split
    · refine ⟨⟨h.1, ?_⟩, rfl⟩
      intro x hx
      rcases mem_cons.mp hx with rfl | hx
      · exact hsent
      · exact h.2 x hx
    rename_i hzero
    have hf : f.sent = 0 := by omega
    refine ⟨⟨by omega, ?_⟩, by simp [sentPart, hsent, hf]⟩
    intro x hx
    rcases mem_cons.mp hx with rfl | hx
    · exact hf
    · exact h.2 x hx

variable {rs : List RawFrame} {r : RawFrame}

/-- What an urgent frame does to the queue, for the frames it stands for. -/
theorem pushUrgent_data (h : fs.map OutFrame.data = rs.map RawFrame.encode)
    (ho : o.data = r.encode) :
    ∃ rs1 rs2, rs = rs1 ++ rs2 ∧
      (pushUrgent o fs).map OutFrame.data = (rs1 ++ r :: rs2).map RawFrame.encode := by
  cases fs with
  | nil => exact ⟨[], rs, rfl, by simp [pushUrgent, ho, ← h]⟩
  | cons f rest =>
    obtain ⟨r0, rs', rfl⟩ : ∃ r0 rs', rs = r0 :: rs' := by
      cases rs with
      | nil => exact nomatch h
      | cons r0 rs' => exact ⟨r0, rs', rfl⟩
    rw [map_cons, map_cons] at h
    obtain ⟨hd, htl⟩ := List.cons.inj h
    simp only [pushUrgent]
    split
    · exact ⟨[r0], rs', rfl, by simp [hd, htl, ho]⟩
    · exact ⟨[], r0 :: rs', rfl, by simp [hd, htl, ho]⟩

theorem mem_pushUrgent {x : OutFrame} (h : x ∈ pushUrgent o fs) :
    x = o ∨ x ∈ fs := by
  cases fs with
  | nil => exact .inl (mem_singleton.mp h)
  | cons f rest =>
    simp only [pushUrgent] at h
    split at h
    all_goals
      simp only [mem_cons] at h ⊢
      tauto

variable {done waiting : List RawFrame} {c : Connection} {sent : List (UInt8 × Bytes)}

section

variable (h : OutInv sent c done waiting)

include h

/-- A data message joins the queue at its end. -/
theorem OutInv.send_data {opcode : UInt8} (hop : opcode = 0x01 ∨ opcode = 0x02)
    {pref message : Bytes} (hsize : pref.length + message.length < maxPayload)
    (htext : opcode = 0x01 → utf8Validate (pref ++ message) = (pref ++ message).length) :
    ∃ r, OutInv (sent ++ [(opcode, pref ++ message)])
      (c.sendPrefixedMessage false false opcode pref message) done (waiting ++ [r]) := by
  have hcont : frameContent opcode pref message = pref ++ message := by
    rcases hop with rfl | rfl <;> rfl
  refine ⟨⟨opcode, c.nextMask, pref ++ message⟩, ?_⟩
  rw [sendPrefixedMessage_eq h.closeSent]
  have hdata : (c.queuedFrame false opcode pref message).data =
      (RawFrame.mk opcode c.nextMask (pref ++ message)).encode := by
    rw [queuedFrame, hcont]
  obtain ⟨horder, hpart⟩ := waiting_append h.order (o := c.queuedFrame false opcode pref message)
    rfl (by rw [hdata]; exact encode_length_pos _)
  refine ⟨h.isOpen, h.closeSent, ?_, ?_, horder, fun _ => rfl, ?_, ?_, ?_⟩
  · simp [h.data, hdata]
  · intro o ho
    rcases mem_append.mp ho with ho | ho
    · exact h.last o ho
    · rw [mem_singleton.mp ho]
      rfl
  · rw [h.written]
    exact congrArg _ hpart.symm
  · intro r hr
    rw [← append_assoc] at hr
    rcases mem_append.mp hr with hr | hr
    · exact h.carried r hr
    · rw [mem_singleton.mp hr]
      refine ⟨by rcases hop with h | h <;> simp [h], by simpa using hsize, htext⟩
  · rw [← append_assoc, filterMap_append, h.messages]
    rcases hop with rfl | rfl <;> simp [frameMessage]

/-- A pong joins the queue in front. -/
theorem OutInv.receivePing (data : Bytes) :
    ∃ waiting', OutInv sent (c.receivePing data) done waiting' := by
  have hlen : (frameContent 0x0A [] data).length ≤ 125 := by
    have hctl : ((0x0A : UInt8) &&& 0x08 != 0) := by decide
    unfold frameContent
    rw [hctl, Bool.true_and, nil_append]
    split
    · exact length_take_le 125 data
    · rename_i hshort
      simpa using hshort
  obtain ⟨ws1, ws2, rfl, hdata⟩ := pushUrgent_data h.data
    (o := c.queuedFrame false 0x0A [] data) (r := ⟨0x0A, c.nextMask, frameContent 0x0A [] data⟩) rfl
  obtain ⟨horder, hpart⟩ := waiting_pushUrgent h.order (o := c.queuedFrame false 0x0A [] data)
    rfl (encode_length_pos _)
  refine ⟨ws1 ++ ⟨0x0A, c.nextMask, frameContent 0x0A [] data⟩ :: ws2, ?_⟩
  rw [Connection.receivePing, sendPrefixedMessage_eq h.closeSent]
  refine ⟨h.isOpen, h.closeSent, hdata, ?_, horder, fun _ => rfl, ?_, ?_, ?_⟩
  · intro o ho
    rcases mem_pushUrgent ho with rfl | ho
    · rfl
    · exact h.last o ho
  · rw [h.written]
    exact congrArg _ hpart.symm
  · intro r hr
    simp only [mem_append, mem_cons] at hr
    have hcarried := h.carried r
    simp only [mem_append] at hcarried
    rcases hr with hr | hr | rfl | hr
    · exact hcarried (.inl hr)
    · exact hcarried (.inr (.inl hr))
    · exact ⟨by simp, by unfold maxPayload; exact Nat.lt_of_le_of_lt hlen (by omega), by simp⟩
    · exact hcarried (.inr (.inr hr))
  · have hmsgs := h.messages
    simp only [filterMap_append, filterMap_cons] at hmsgs ⊢
    simpa [frameMessage] using hmsgs

/-- A write moves on inside the first frame or completes it. -/
theorem OutInv.write (count : Nat) :
    ∃ done' waiting', OutInv sent (c.onOutput (some count)) done' waiting' := by
  cases hout : c.outgoing with
  | nil =>
    have hstep : c.onOutput (some count) = { c with outputSource := false } := by
      simp only [onOutput, hout]
    refine ⟨done, waiting, ?_⟩
    rw [hstep]
    exact { h with running := fun hne => absurd hout hne }
  | cons f rest =>
    obtain ⟨r, rs, rfl⟩ : ∃ r rs, waiting = r :: rs := by
      cases waiting with
      | nil => exact absurd h.data (by simp [hout])
      | cons r rs => exact ⟨r, rs, rfl⟩
    have hdata := h.data
    rw [hout, map_cons, map_cons] at hdata
    obtain ⟨hf, hrest⟩ := List.cons.inj hdata
    have horder := h.order
    rw [hout] at horder
    obtain ⟨hpart, hzero⟩ := horder
    have hlast : f.last = false := h.last f (by rw [hout]; exact mem_cons_self)
    have hwrit := h.written
    rw [hout, sentPart] at hwrit
    by_cases hdone : f.sent + min count (f.data.length - f.sent) ≥ f.data.length
    · -- the frame is complete
      have hstep : c.onOutput (some count) =
          { c with written := c.written ++ f.data.drop f.sent, outgoing := rest } := by
        have htake : (f.data.drop f.sent).take (min count (f.data.length - f.sent)) =
            f.data.drop f.sent := take_of_length_le (by rw [length_drop]; omega)
        simp only [onOutput, hout, hdone, if_true, htake, hlast, Bool.not_false]
      refine ⟨done ++ [r], rs, ?_⟩
      rw [hstep]
      have hnext : Waiting rest ∧ sentPart rest = [] := by
        cases rest with
        | nil => exact ⟨trivial, rfl⟩
        | cons g rest =>
          have hg := hzero g mem_cons_self
          obtain ⟨q, qs, rfl⟩ : ∃ q qs, rs = q :: qs := by
            cases rs with
            | nil => exact nomatch hrest
            | cons q qs => exact ⟨q, qs, rfl⟩
          have hgdata : g.data = q.encode := (List.cons.inj hrest).1
          refine ⟨⟨?_, fun o ho => hzero o (mem_cons_of_mem _ ho)⟩, by simp [sentPart, hg]⟩
          rw [hg, hgdata]
          exact encode_length_pos q
      refine ⟨h.isOpen, h.closeSent, hrest, ?_, hnext.1, ?_, ?_, ?_, ?_⟩
      · intro o ho
        exact h.last o (by rw [hout]; exact mem_cons_of_mem _ ho)
      · intro _
        exact h.running (by rw [hout]; exact cons_ne_nil _ _)
      · rw [hwrit, hnext.2, append_nil, append_assoc, take_append_drop, hf]
        simp
      · intro x hx
        exact h.carried x (by simpa using hx)
      · rw [append_assoc]
        exact h.messages
    have hstep : c.onOutput (some count) =
        { c with
          written := c.written ++ (f.data.drop f.sent).take (min count (f.data.length - f.sent))
          outgoing := { f with sent := f.sent + min count (f.data.length - f.sent) } :: rest } := by
      simp only [onOutput, hout, hdone, if_false]
    refine ⟨done, r :: rs, ?_⟩
    rw [hstep]
    refine ⟨h.isOpen, h.closeSent, ?_, ?_, ⟨?_, hzero⟩, ?_, ?_, h.carried, h.messages⟩
    · simp [hf, hrest]
    · intro o ho
      rcases mem_cons.mp ho with rfl | ho
      · exact hlast
      · exact h.last o (by rw [hout]; exact mem_cons_of_mem _ ho)
    · show f.sent + min count (f.data.length - f.sent) < f.data.length
      omega
    · intro _
      exact h.running (by rw [hout]; exact cons_ne_nil _ _)
    · rw [hwrit, append_assoc]
      simp [sentPart, take_add]

/-- One event of the writing side. -/
theorem OutInv.step {e : OutputEvent} (he : Sendable e) :
    ∃ done' waiting', OutInv (sent ++ (sentMessage e).toList) (c.outputStep e) done' waiting' := by
  cases e with
  | send type pref message =>
    cases type with
    | text =>
      obtain ⟨hsize, hpref, hmsg⟩ := he
      have hvalid : utf8Validate (pref ++ message) = (pref ++ message).length := by
        rw [utf8Validate_eq_length_iff] at *
        exact SelfSync.WellFormed.append utf8 hpref hmsg
      obtain ⟨r, hr⟩ := h.send_data (.inl rfl) hsize fun _ => hvalid
      refine ⟨done, waiting ++ [r], ?_⟩
      simpa [outputStep, send, h.isOpen, hpref, hmsg, sentMessage, dataOpcode] using hr
    | binary =>
      obtain ⟨r, hr⟩ := h.send_data (.inr rfl) he (by simp)
      refine ⟨done, waiting ++ [r], ?_⟩
      simpa [outputStep, send, h.isOpen, sentMessage, dataOpcode] using hr
  | ping data =>
    obtain ⟨waiting', hw⟩ := h.receivePing data
    exact ⟨done, waiting', by simpa [outputStep, sentMessage] using hw⟩
  | write count =>
    simp only [outputStep, sentMessage, Option.toList_none, append_nil]
    split
    · exact h.write count
    · exact ⟨done, waiting, h⟩

/-- Any number of events of the writing side. -/
theorem OutInv.run {events : List OutputEvent} (he : ∀ e ∈ events, Sendable e) :
    ∃ done' waiting', OutInv (sent ++ events.filterMap sentMessage)
      (Lib.run outputStep c events) done' waiting' := by
  induction events generalizing sent c done waiting with
  | nil => exact ⟨done, waiting, by simpa using h⟩
  | cons e events ih =>
    obtain ⟨done', waiting', hstep⟩ := h.step (he e mem_cons_self)
    obtain ⟨done'', waiting'', hrun⟩ := ih hstep fun x hx => he x (mem_cons_of_mem _ hx)
    refine ⟨done'', waiting'', ?_⟩
    rw [run_cons]
    cases hm : sentMessage e <;> simpa [filterMap_cons, hm] using hrun

end

/-- A connection just after its handshake has nothing to write. -/
theorem outInv_opened (serverSide : Bool) (random : Nat → UInt32) :
    OutInv [] (opened serverSide random) [] [] :=
  ⟨rfl, rfl, rfl, by simp [opened, new], trivial, by simp [opened, new], rfl, by simp, rfl⟩

/-! ### The reading side -/

/-- A connection that is reading, with no message half assembled. -/
structure Reading (c : Connection) : Prop where
  unclosed : c.closeReceived = false
  message : c.messageData = none
  idle : c.pending = []

/-- A read, and the frames that it completes. -/
def receive (c : Connection) (chunk : Bytes) : Connection :=
  ({ c with incoming := c.incoming ++ chunk } : Connection).processIncoming

/-- What the reader finds in a frame. -/
def contentsOf (r : RawFrame) : Contents := ⟨r.opcode &&& 0x08 != 0, true, r.opcode, r.payload⟩

/-- A whole data message. -/
theorem processMessage_whole (h : c.messageData = none) {opcode : UInt8}
    (hop : opcode = 0x01 ∨ opcode = 0x02) {payload : Bytes}
    (htext : opcode = 0x01 → utf8Validate payload = payload.length) :
    c.processMessage true opcode payload =
      { c with
        messageOpcode := 0
        messageData := none
        delivered := c.delivered ++ [(opcode, payload)] } := by
  have hne : (opcode != 0) := by rcases hop with rfl | rfl <;> decide
  have hvalid : ¬ (opcode = 1 && utf8Validate payload != payload.length) := by
    simpa using htext
  have hknown : (opcode = 1 || opcode = 2) := by simpa using hop
  unfold processMessage
  rw [hne, h, if_neg (by decide)]
  simp only [if_true, if_neg hvalid, hknown, Option.getD_some, nil_append]

/-- A frame that is carried is delivered if it is a data message, and ignored else. -/
theorem processContents_carried (h : c.Reading) (hr : Carried r) :
    (c.processContents (contentsOf r)).Reading ∧ (c.processContents (contentsOf r)).delivered =
        c.delivered ++ (frameMessage r).toList := by
  by_cases hpong : r.opcode = 0x0A
  · have hcontents : c.processContents (contentsOf r) = c := by
      simp only [processContents, contentsOf, hpong]
      rfl
    rw [hcontents, frameMessage, if_pos hpong]
    exact ⟨h, by simp⟩
  have hop : r.opcode = 0x01 ∨ r.opcode = 0x02 := by
    have := hr.opcode
    tauto
  have hctl : (r.opcode &&& 0x08 != 0) = false := by rcases hop with hop | hop <;> rw [hop] <;> decide
  have hcontents : c.processContents (contentsOf r) = c.processMessage true r.opcode r.payload := by
    simp only [processContents, contentsOf, hctl, h.unclosed, Bool.false_eq_true, if_false]
  rw [hcontents, processMessage_whole h.message hop hr.text, frameMessage, if_neg hpong]
  exact ⟨⟨h.unclosed, rfl, h.idle⟩, rfl⟩

/-- **The frame loop delivers the messages of the frames it finds.** -/
theorem processIncoming_drain (h : c.Reading)
    (hr : ∀ r ∈ rs, Carried r) (hitems : (framing.drain c.incoming).items = rs.map contentsOf)
    (hok : (framing.drain c.incoming).failed = false) :
    c.processIncoming.Reading ∧ c.processIncoming.incoming = (framing.drain c.incoming).rest ∧
      c.processIncoming.delivered = c.delivered ++ rs.filterMap frameMessage := by
  induction rs generalizing c with
  | nil =>
    cases hscan : framing.scan c.incoming with
    | more =>
      have hframe : c.processFrame = (c, false) := by
        have : scanFrame c.incoming = .more := hscan
        simp only [processFrame, this]
      rw [processIncoming, hframe, framing.drain_of_more hscan]
      exact ⟨h, rfl, by simp⟩
    | fail =>
      rw [framing.drain_of_fail hscan] at hok
      exact nomatch hok
    | item n x =>
      rw [framing.drain_of_item hscan] at hitems
      exact nomatch hitems
  | cons r rs ih =>
    cases hscan : framing.scan c.incoming with
    | more =>
      rw [framing.drain_of_more hscan] at hitems
      exact nomatch hitems
    | fail =>
      rw [framing.drain_of_fail hscan] at hok
      exact nomatch hok
    | item n x =>
      rw [framing.drain_of_item hscan] at hitems hok ⊢
      obtain ⟨rfl, htail⟩ := List.cons.inj hitems
      have hread : Reading { c with incoming := c.incoming.drop n } :=
        ⟨h.unclosed, h.message, h.idle⟩
      obtain ⟨hreading', hdeliv⟩ := processContents_carried hread (hr r mem_cons_self)
      have hframe : c.processFrame =
          (({ c with incoming := c.incoming.drop n } : Connection).processContents (contentsOf r),
            true) := by
        have : scanFrame c.incoming = .item n (contentsOf r) := hscan
        simp only [processFrame, this]
      rw [processIncoming, hframe, dif_pos rfl, if_pos (by simp [hreading'.idle])]
      obtain ⟨hfinal, hrest, hmsgs⟩ := ih hreading'
        (fun q hq => hr q (mem_cons_of_mem _ hq))
        (by rw [processContents_incoming]; exact htail)
        (by rw [processContents_incoming]; exact hok)
      rw [processContents_incoming] at hrest
      refine ⟨hfinal, hrest, ?_⟩
      rw [hmsgs, hdeliv, append_assoc]
      cases hm : frameMessage r <;> simp [hm]

/-- Any number of reads. -/
theorem foldl_receive (h : c.Reading) (hmore : framing.scan c.incoming = .more)
    (chunks : List Bytes) (hr : ∀ r ∈ rs, Carried r)
    (hitems : (framing.drain (c.incoming ++ chunks.flatten)).items = rs.map contentsOf)
    (hok : (framing.drain (c.incoming ++ chunks.flatten)).failed = false) :
    (chunks.foldl receive c).delivered = c.delivered ++ rs.filterMap frameMessage := by
  induction chunks generalizing c rs with
  | nil =>
    rw [flatten_nil, append_nil, framing.drain_of_more hmore] at hitems
    obtain rfl : rs = [] := map_eq_nil_iff.mp hitems.symm
    simp
  | cons chunk chunks ih =>
    rw [flatten_cons, ← append_assoc, framing.drain_append] at hitems hok
    -- what is found by the first read is the first part of what is found by all
    have hok1 : (framing.drain (c.incoming ++ chunk)).failed = false := by
      by_contra hfail
      rw [Bool.not_eq_false] at hfail
      rw [if_pos hfail] at hok
      exact nomatch hok
    rw [if_neg (by simp [hok1])] at hitems hok
    obtain ⟨rs1, rs2, rfl, hitems1, hitems2⟩ := map_eq_append_iff.mp hitems.symm
    have hread : Reading { c with incoming := c.incoming ++ chunk } :=
      ⟨h.unclosed, h.message, h.idle⟩
    obtain ⟨hreading', hrest, hdeliv⟩ := processIncoming_drain hread
      (fun r hr1 => hr r (mem_append_left _ hr1)) hitems1.symm hok1
    have hmore' := framing.scan_rest (c.incoming ++ chunk)
    rw [if_neg (by simp [hok1]), ← hrest] at hmore'
    rw [foldl_cons]
    have hrest' : (c.receive chunk).incoming = (framing.drain (c.incoming ++ chunk)).rest := hrest
    rw [← hrest'] at hitems2 hok
    rw [ih (c := c.receive chunk) hreading' hmore'
        (fun r hr2 => hr r (mem_append_right _ hr2)) hitems2.symm hok,
      filterMap_append, ← append_assoc]
    exact congrArg (· ++ rs2.filterMap frameMessage) hdeliv

/-! ### Both sides -/

/-- Whole frames and a part of one more. -/
theorem drain_whole_frames (h : ∀ r ∈ done, Carried r) {part : Bytes}
    (hpart : framing.scan part = .more) :
    framing.drain ((done.map RawFrame.encode).flatten ++ part) =
      ⟨done.map contentsOf, part, false⟩ := by
  have hfound : ∀ r ∈ done, ∀ zs, framing.scan (r.encode ++ zs) =
      .item r.encode.length (contentsOf r) := by
    intro r hr zs
    refine scanFrame_encode r ?_ (h r hr).size zs
    rcases (h r hr).opcode with hop | hop | hop <;> rw [hop] <;> decide
  rw [framing.drain_encoded_append done part hfound, framing.drain_of_more hpart, append_nil]

section

variable (h : OutInv sent c done waiting)

include h

/-- The sent part of a queued frame asks the reader for more. -/
theorem OutInv.scan_sentPart :
    framing.scan (sentPart c.outgoing) = .more := by
  cases hout : c.outgoing with
  | nil => rfl
  | cons f rest =>
    obtain ⟨r, rs, rfl⟩ : ∃ r rs, waiting = r :: rs := by
      cases waiting with
      | nil => exact absurd h.data (by simp [hout])
      | cons r rs => exact ⟨r, rs, rfl⟩
    have hdata := h.data
    rw [hout, map_cons, map_cons] at hdata
    have hf : f.data = r.encode := (List.cons.inj hdata).1
    have horder := h.order
    rw [hout] at horder
    have hr := h.carried r (by simp)
    have hscan : framing.scan (r.encode ++ []) = .item r.encode.length (contentsOf r) := by
      refine scanFrame_encode r ?_ hr.size []
      rcases hr.opcode with hop | hop | hop <;> rw [hop] <;> decide
    rw [append_nil, ← hf] at hscan
    have hcut : f.data.drop f.sent ≠ [] := by
      rw [Ne, drop_eq_nil_iff]
      have := horder.1
      omega
    rw [← take_append_drop f.sent f.data] at hscan
    exact framing.scan_of_cut hcut hscan

/-- A reader of what is written delivers the messages of the whole frames. -/
theorem OutInv.delivers (peerSide : Bool)
    (peerRandom : Nat → UInt32) {chunks : List Bytes} (hchunks : chunks.flatten = c.written) :
    (chunks.foldl receive (opened peerSide peerRandom)).delivered =
      done.filterMap frameMessage := by
  have hdone : ∀ r ∈ done, Carried r := fun r hr => h.carried r (mem_append_left _ hr)
  have hdrain := drain_whole_frames hdone h.scan_sentPart
  rw [← h.written, ← hchunks] at hdrain
  have hreading : Reading (opened peerSide peerRandom) := ⟨rfl, rfl, rfl⟩
  exact foldl_receive hreading rfl chunks hdone
    (by simpa [opened, new] using congrArg Drained.items hdrain)
    (by simpa [opened, new] using congrArg Drained.failed hdrain)

/-- With an empty queue, the whole frames are all that was sent. -/
theorem OutInv.messages_of_empty (hempty : c.outgoing = []) :
    done.filterMap frameMessage = sent := by
  have hdata := h.data
  rw [hempty] at hdata
  rw [← h.messages, map_eq_nil_iff.mp hdata.symm, append_nil]

end

/-! ### Progress -/

/-- The bytes that wait in the queue. -/
def unsent (fs : List OutFrame) : Nat := (fs.map fun f => f.data.length - f.sent).sum

/-- A write that takes something leaves less in the queue. -/
theorem OutInv.unsent_write (h : OutInv sent c done waiting) (count : Nat) :
    unsent (c.outputStep (.write count)).outgoing ≤
      unsent c.outgoing - if 0 < count then 1 else 0 := by
  dsimp only [outputStep]
  cases hout : c.outgoing with
  | nil =>
    rw [show (if c.outputSource then c.onOutput (some count) else c).outgoing = [] by
      split <;> simp [onOutput, hout]]
    exact Nat.zero_le _
  | cons f rest =>
    rw [if_pos (h.running (by rw [hout]; exact cons_ne_nil _ _))]
    have hlast : f.last = false := h.last f (by rw [hout]; exact mem_cons_self)
    have hpart := h.order
    rw [hout] at hpart
    have hlt := hpart.1
    simp only [onOutput, hout, hlast, Bool.not_false, if_true]
    split
    · simp only [unsent, map_cons, sum_cons]
      split <;> omega
    · simp only [unsent, map_cons, sum_cons]
      split <;> omega

/-- As many writes that take something as there are bytes empty the queue. -/
theorem OutInv.run_writes (h : OutInv sent c done waiting) {counts : List Nat}
    (hcounts : unsent c.outgoing ≤ counts.countP (0 < ·)) :
    (Lib.run outputStep c (counts.map .write)).outgoing = [] ∧
      ∃ done' waiting',
        OutInv sent (Lib.run outputStep c (counts.map .write)) done' waiting' := by
  induction counts generalizing c done waiting with
  | nil =>
    refine ⟨?_, done, waiting, h⟩
    cases hout : c.outgoing with
    | nil => exact hout
    | cons f rest =>
      have horder := h.order
      rw [hout] at horder hcounts
      have hlt := horder.1
      simp only [unsent, map_cons, sum_cons, countP_nil] at hcounts
      omega
  | cons count counts ih =>
    obtain ⟨done', waiting', hstep⟩ := h.step (e := .write count) trivial
    simp only [sentMessage, Option.toList_none, append_nil] at hstep
    have hless := h.unsent_write count
    rw [countP_cons] at hcounts
    refine ih hstep (hless.trans ?_)
    simp only [decide_eq_true_eq] at hcounts
    omega

/-- **Frames survive.** Whatever is sent between whatever pings and writes: the bytes written
    are whole frames and the sent part of the first frame in the queue; and a reader of these
    bytes, whatever its reads, delivers the messages of the whole frames, which are the first
    messages that were sent.  Once enough writes have taken something the queue is empty, and all
    messages that were sent are delivered. -/
theorem frames_survive (serverSide peerSide : Bool) (random peerRandom : Nat → UInt32)
    (events : List OutputEvent) (he : ∀ e ∈ events, Sendable e) :
    let c := Lib.run outputStep (opened serverSide random) events
    ∃ done waiting : List RawFrame,
      c.written = (done.map RawFrame.encode).flatten ++ sentPart c.outgoing ∧
      c.outgoing.map OutFrame.data = waiting.map RawFrame.encode ∧ Waiting c.outgoing ∧
      (∀ chunks : List Bytes, chunks.flatten = c.written →
        (chunks.foldl receive (opened peerSide peerRandom)).delivered =
          done.filterMap frameMessage) ∧
      done.filterMap frameMessage <+: events.filterMap sentMessage ∧
      (c.outgoing = [] → done.filterMap frameMessage = events.filterMap sentMessage) ∧
      ∀ counts : List Nat, unsent c.outgoing ≤ counts.countP (0 < ·) →
        (Lib.run outputStep c (counts.map .write)).outgoing = [] ∧
          ∀ chunks : List Bytes,
            chunks.flatten = (Lib.run outputStep c (counts.map .write)).written →
              (chunks.foldl receive (opened peerSide peerRandom)).delivered =
                events.filterMap sentMessage := by
  intro c
  obtain ⟨done, waiting, h⟩ := (outInv_opened serverSide random).run he
  rw [nil_append] at h
  refine ⟨done, waiting, h.written, h.data, h.order,
    fun chunks => h.delivers peerSide peerRandom, ?_, h.messages_of_empty, ?_⟩
  · rw [← h.messages, filterMap_append]
    exact prefix_append _ _
  intro counts hcounts
  obtain ⟨hempty, done', waiting', hrun⟩ := h.run_writes hcounts
  refine ⟨hempty, fun chunks hchunks => ?_⟩
  rw [hrun.delivers peerSide peerRandom hchunks, hrun.messages_of_empty hempty]

/-- A client sends "hi", answers a ping while a part of it is written, and sends two bytes; what it
    writes arrives in one read. -/
theorem frames_survive_ping :
    (∀ e ∈ [OutputEvent.send .text [] [104, 105], .write 3, .ping [1],
        .send .binary [0] [255]], Sendable e) ∧
    ∃ c, c = Lib.run outputStep (Lib.run outputStep (opened false (fun _ => 77))
        [.send .text [] [104, 105], .write 3, .ping [1], .send .binary [0] [255]])
        ((replicate 20 2).map .write) ∧ c.outgoing = [] ∧
      ([c.written].foldl receive (opened true (fun _ => 0))).delivered =
        [(0x01, [104, 105]), (0x02, [0, 255])] := by
  have he : ∀ e ∈ [OutputEvent.send .text [] [104, 105], .write 3, .ping [1],
      .send .binary [0] [255]], Sendable e := by decide +kernel
  obtain ⟨_, _, -, -, -, -, -, -, hall⟩ :=
    frames_survive false true (fun _ => 77) (fun _ => 0) _ he
  obtain ⟨hempty, hdelivers⟩ := hall (replicate 20 2) (by decide +kernel)
  exact ⟨he, _, rfl, hempty, hdelivers _ (append_nil _)⟩

end Connection

end Cockpit.WebSocket
