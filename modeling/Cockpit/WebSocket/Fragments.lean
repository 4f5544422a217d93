import Cockpit.WebSocket.Delivery

namespace Cockpit.WebSocket

open List GLib

/-!
# Messages in fragments

A message may be cut into fragments, and pings and pongs may come between them.

* `Connection.feed` — frames, one after the other;
* `Connection.feed_transparent` — which cuts do not show.
-/

/-- A message in fragments: the first one has the opcode, and the last one is marked. -/
def fragments (opcode : UInt8) : List Bytes → List Contents
  | [] => []
  | [part] => [⟨false, true, opcode, part⟩]
  | part :: next :: parts => ⟨false, false, opcode, part⟩ :: fragments 0 (next :: parts)

/-- A ping or a pong. -/
structure Contents.Passing (f : Contents) : Prop where
  control : f.control
  fin : f.fin
  opcode : f.opcode = 0x09 ∨ f.opcode = 0x0A

/-- What a text message has to be, and each of its fragments has to be. -/
def Readable (opcode : UInt8) (part : Bytes) : Prop :=
  opcode = 0x01 → utf8Validate part = part.length

instance (opcode : UInt8) (part : Bytes) : Decidable (Readable opcode part) :=
  inferInstanceAs (Decidable (_ → _))

namespace Connection

/-- The frames are processed.  As in `process_incoming`, a signal handler has to return first. -/
def feed (c : Connection) : List Contents → Connection
  | [] => c
  | f :: frames =>
    if (c.processContents f).pending.isEmpty then (c.processContents f).feed frames
    else c.processContents f

/-- One message was emitted, without an error and with nothing left behind. -/
structure Transparent (c d : Connection) (opcode : UInt8) (payload : Bytes) : Prop where
  delivered : d.delivered = c.delivered ++ [(opcode, payload)]
  messageData : d.messageData = none
  pending : d.pending = c.pending
  dirtyClose : d.dirtyClose = c.dirtyClose

/-- What pings and pongs leave alone. -/
structure Unmoved (c d : Connection) : Prop where
  delivered : d.delivered = c.delivered
  messageData : d.messageData = c.messageData
  messageOpcode : d.messageOpcode = c.messageOpcode
  pending : d.pending = c.pending
  dirtyClose : d.dirtyClose = c.dirtyClose
  closeReceived : d.closeReceived = c.closeReceived
  readyState : d.readyState = c.readyState

theorem unmoved_receivePing (c : Connection) (data : Bytes) : Unmoved c (c.receivePing data) := by
  unfold receivePing sendPrefixedMessage queue
  dsimp only
  split <;> exact ⟨rfl, rfl, rfl, rfl, rfl, rfl, rfl⟩

variable {f : Contents}

theorem unmoved_passing (c : Connection) (h : f.Passing) :
    Unmoved c (c.processContents f) := by
  unfold processContents
  rw [h.control, h.fin]
  rcases h.opcode with hping | hpong
  · rw [hping]
    exact unmoved_receivePing c f.payload
  · rw [hpong]
    exact ⟨rfl, rfl, rfl, rfl, rfl, rfl, rfl⟩

/-- A message of which the first fragments were read, if any: the opcode of the next one, the opcode
    of the message, and what was read. -/
structure Assembling (c : Connection) (next opcode : UInt8) (data : Bytes) : Prop where
  unclosed : c.closeReceived = false
  idle : c.pending = []
  live : c.readyState ≠ .closed
  known : opcode = 0x01 ∨ opcode = 0x02
  message : next = opcode ∧ c.messageData = none ∧ data = [] ∨
    next = 0 ∧ c.messageData = some data ∧ c.messageOpcode = opcode

variable {c : Connection} {next opcode : UInt8} {data : Bytes} {d : Connection}

theorem Assembling.unmoved (h : c.Assembling next opcode data) (hd : Unmoved c d) :
    d.Assembling next opcode data where
  unclosed := hd.closeReceived.trans h.unclosed
  idle := hd.pending.trans h.idle
  live := by rw [hd.readyState]; exact h.live
  known := h.known
  message := by rw [hd.messageData, hd.messageOpcode]; exact h.message

variable {part : Bytes}

/-- A fragment that is read. -/
theorem Assembling.processMessage (h : c.Assembling next opcode data)
    (hpart : Readable opcode part) (fin : Bool) :
    c.processMessage fin next part =
      if fin then { c with
        messageOpcode := 0
        messageData := none
        delivered := c.delivered ++ [(opcode, data ++ part)] }
      else { c with messageOpcode := opcode, messageData := some (data ++ part) } := by
  have hknown : (opcode = 1 || opcode = 2) := by simpa using h.known
  have hvalid : ¬ (opcode = 1 && utf8Validate part != part.length) := by
    simpa [Readable] using hpart
  unfold Connection.processMessage
  rcases h.message with ⟨rfl, hnone, rfl⟩ | ⟨rfl, hsome, rfl⟩
  · have hne : (next != 0) := by rcases h.known with rfl | rfl <;> decide
    rw [hne, hnone, if_neg (by decide)]
    simp only [if_true, if_neg hvalid, hknown, Option.getD_some]
  · rw [hsome, Option.isSome_some, if_neg (by decide)]
    simp only [bne_self_eq_false, Bool.false_eq_true, if_false, if_neg hvalid, hknown, if_true,
      Option.getD_some, hsome]

/-- A fragment that is not. -/
theorem Assembling.processMessage_bad (h : c.Assembling next opcode data)
    (hpart : ¬ Readable opcode part) (fin : Bool) :
    (c.processMessage fin next part).pending ≠ [] := by
  obtain ⟨htext, hinval⟩ := Classical.not_imp.mp hpart
  have hbad : (opcode = 1 && utf8Validate part != part.length) := by
    simpa [htext] using hinval
  have hclos : ∀ d : Connection, d.readyState = c.readyState →
      d.badDataErrorAndClose.pending ≠ [] := by
    intro d hd
    unfold badDataErrorAndClose errorAndClose
    dsimp only
    rw [if_neg (by rw [hd]; exact h.live)]
    exact cons_ne_nil _ _
  unfold Connection.processMessage
  rcases h.message with ⟨rfl, hnone, rfl⟩ | ⟨rfl, hsome, hopcode⟩
  · have hne : (next != 0) := by
      rw [htext]
      decide
    rw [hne, hnone, if_neg (by decide)]
    simp only [if_true, hbad]
    exact hclos _ rfl
  · rw [hsome, Option.isSome_some, if_neg (by decide)]
    simp only [bne_self_eq_false, Bool.false_eq_true, if_false, hopcode, hbad, if_true]
    exact hclos _ rfl

theorem Unmoved.trans {e : Connection} (h : Unmoved c d) (h' : Unmoved d e) : Unmoved c e where
  delivered := h'.delivered.trans h.delivered
  messageData := h'.messageData.trans h.messageData
  messageOpcode := h'.messageOpcode.trans h.messageOpcode
  pending := h'.pending.trans h.pending
  dirtyClose := h'.dirtyClose.trans h.dirtyClose
  closeReceived := h'.closeReceived.trans h.closeReceived
  readyState := h'.readyState.trans h.readyState

variable {frames : List Contents}

/-- Nothing but pings and pongs. -/
theorem unmoved_feed (hidle : c.pending = [])
    (h : ∀ f ∈ frames, f.Passing) : Unmoved c (c.feed frames) := by
  induction frames generalizing c with
  | nil => exact ⟨rfl, rfl, rfl, rfl, rfl, rfl, rfl⟩
  | cons f frames ih =>
    have hstep := unmoved_passing c (h f mem_cons_self)
    have hidle' : (c.processContents f).pending = [] := hstep.pending.trans hidle
    unfold feed
    rw [hidle', if_pos isEmpty_nil]
    exact hstep.trans (ih hidle' fun g hg => h g (mem_cons_of_mem f hg))

/-- A run of frames that starts with a ping or a pong. -/
theorem feed_passing (hidle : c.pending = []) (hf : f.Passing)
    (frames : List Contents) : c.feed (f :: frames) = (c.processContents f).feed frames := by
  have hidle' : (c.processContents f).pending = [] := (unmoved_passing c hf).pending.trans hidle
  rw [feed, hidle', if_pos isEmpty_nil]

/-- The rest of a message. -/
theorem Assembling.feed (h : c.Assembling next opcode data) {parts : List Bytes} (hne : parts ≠ [])
    (hframes : frames.filter (fun f => !f.control) = fragments next parts)
    (hctl : ∀ f ∈ frames, f.control → f.Passing) : ((∀ part ∈ parts, Readable opcode part) →
      Transparent c (c.feed frames) opcode (data ++ parts.flatten)) ∧
    ((∃ part ∈ parts, ¬ Readable opcode part) → (c.feed frames).pending ≠ []) := by
  induction frames generalizing c next data parts with
  | nil =>
    cases parts with
    | nil => exact absurd rfl hne
    | cons part parts =>
      cases parts <;> exact nomatch hframes
  | cons f frames ih =>
    have hrest : ∀ g ∈ frames, g.control → g.Passing :=
      fun g hg => hctl g (mem_cons_of_mem f hg)
    by_cases hf : f.control
    · -- a ping or a pong
      have hpassing := hctl f mem_cons_self hf
      have hmoved := unmoved_passing c hpassing
      rw [filter_cons_of_neg (by simp [hf])] at hframes
      obtain ⟨hgood, hbad⟩ := ih (h.unmoved hmoved) hne hframes hrest
      rw [feed_passing h.idle hpassing]
      refine ⟨fun hall => ?_, hbad⟩
      obtain ⟨hdeliv, hdata, hpend, hdirty⟩ := hgood hall
      exact ⟨by rw [hdeliv, hmoved.delivered], hdata, hpend.trans hmoved.pending,
        hdirty.trans hmoved.dirtyClose⟩
    -- a fragment
    have hmsg : c.processContents f = c.processMessage f.fin f.opcode f.payload := by
      unfold processContents
      rw [if_neg hf, h.unclosed, if_neg Bool.false_ne_true]
    rw [filter_cons_of_pos (by simp [hf])] at hframes
    cases parts with
    | nil => exact absurd rfl hne
    | cons part parts =>
      by_cases hpart : Readable opcode part
      · cases parts with
        | nil =>
          -- the last one
          obtain ⟨rfl, hnone⟩ := List.cons.inj hframes
          rw [h.processMessage hpart true, if_pos rfl] at hmsg
          have hpassing : ∀ g ∈ frames, g.Passing := by
            intro g hg
            have hall := filter_eq_nil_iff.mp hnone g hg
            exact hrest g hg (by simpa using hall)
          have hidle : (c.processContents ⟨false, true, next, part⟩).pending = [] := by
            rw [hmsg]
            exact h.idle
          have hmoved := unmoved_feed hidle hpassing
          unfold feed
          rw [hidle, if_pos isEmpty_nil]
          refine ⟨fun _ => ?_, ?_⟩
          · rw [hmsg] at hmoved ⊢
            exact { hmoved with delivered := by rw [hmoved.delivered]; simp }
          · rintro ⟨q, hq, hbad⟩
            obtain rfl := mem_singleton.mp hq
            exact absurd hpart hbad
        | cons q parts =>
          -- others follow
          obtain ⟨rfl, hnext⟩ := List.cons.inj hframes
          rw [h.processMessage hpart false, if_neg Bool.false_ne_true] at hmsg
          have hasm : (c.processContents ⟨false, false, next, part⟩).Assembling 0 opcode
              (data ++ part) := by
            rw [hmsg]
            exact { h with message := .inr ⟨rfl, rfl, rfl⟩ }
          obtain ⟨hgood, hbad⟩ := ih hasm (cons_ne_nil q parts) hnext hrest
          unfold feed
          rw [hasm.idle, if_pos isEmpty_nil]
          refine ⟨fun hall => ?_, ?_⟩
          · obtain ⟨hdeliv, hdata, hpend, hdirty⟩ :=
              hgood fun r hr => hall r (mem_cons_of_mem part hr)
            rw [append_assoc] at hdeliv
            refine ⟨hdeliv.trans ?_, hdata, ?_, hdirty.trans ?_⟩
            · rw [hmsg]
              rfl
            · rw [hpend, hasm.idle, h.idle]
            · rw [hmsg]
          rintro ⟨r, hr, hunread⟩
          rcases mem_cons.mp hr with rfl | hr
          · exact absurd hpart hunread
          · exact hbad ⟨r, hr, hunread⟩
      -- one that cannot be read
      have hop : f.opcode = next ∧ f.payload = part := by
        cases parts with
        | nil | cons q parts =>
          obtain ⟨rfl, -⟩ := List.cons.inj hframes
          exact ⟨rfl, rfl⟩
      have hpend : (c.processContents f).pending ≠ [] := by
        rw [hmsg, hop.1, hop.2]
        exact h.processMessage_bad hpart f.fin
      unfold feed
      rw [if_neg (by simpa using hpend)]
      exact ⟨fun hall => absurd (hall part mem_cons_self) hpart, fun _ => hpend⟩

/-- **Fragments do not show** when each of them can be read as the message can. -/
theorem feed_transparent {c : Connection} (h : c.Reading) (hlive : c.readyState ≠ .closed)
    (type : DataType) {payload : Bytes} (hpayload : Readable (dataOpcode type) payload)
    {parts : List Bytes} (hne : parts ≠ []) (hcut : parts.flatten = payload)
    {frames : List Contents}
    (hframes : frames.filter (fun f => !f.control) = fragments (dataOpcode type) parts)
    (hcontrol : ∀ f ∈ frames, f.control = true → f.Passing) :
    Transparent c (c.feed frames) (dataOpcode type) payload ↔
      (type = .text → ∀ part ∈ parts, utf8Validate part = part.length) := by
  have hassembling : c.Assembling (dataOpcode type) (dataOpcode type) [] := by
    refine ⟨h.unclosed, h.idle, hlive, ?_, .inl ⟨rfl, h.message, rfl⟩⟩
    cases type with
    | text => exact .inl rfl
    | binary => exact .inr rfl
  have hreadable : (∀ part ∈ parts, Readable (dataOpcode type) part) ↔
      (type = .text → ∀ part ∈ parts, utf8Validate part = part.length) := by
    cases type with
    | text => exact ⟨fun hall _ part hpart => hall part hpart rfl, fun hall part hpart _ =>
        hall rfl part hpart⟩
    | binary => exact ⟨fun _ hfalse => (nomatch hfalse), fun _ _ _ hfalse =>
        nomatch hfalse⟩
  obtain ⟨hgood, hbad⟩ := hassembling.feed hne hframes hcontrol
  rw [hcut] at hgood
  rw [← hreadable]
  constructor
  · intro htransparent part hpart
    by_contra hunreadable
    exact hbad ⟨part, hpart, hunreadable⟩ (htransparent.pending.trans h.idle)
  · exact hgood

/-- A ping between two fragments. -/
theorem feed_transparent_ping : Transparent (opened true fun _ => 0)
    ((opened true fun _ => 0).feed
      [⟨false, false, 0x01, [0x61]⟩, ⟨true, true, 0x09, []⟩, ⟨false, true, 0, [0xC3, 0xA9]⟩])
    0x01 [0x61, 0xC3, 0xA9] := by
  apply (@feed_transparent (opened true fun _ => 0) ⟨rfl, rfl, rfl⟩ (by decide) .text
    [0x61, 0xC3, 0xA9] (by decide +kernel) [[0x61], [0xC3, 0xA9]] (by decide) rfl _ rfl ?_).mpr
  · intro _ part hpart
    simp only [mem_cons, not_mem_nil, or_false] at hpart
    rcases hpart with rfl | rfl <;> decide +kernel
  intro f hf hcontrol
  simp only [mem_cons, not_mem_nil, or_false] at hf
  rcases hf with rfl | rfl | rfl
  · exact nomatch hcontrol
  · exact ⟨rfl, rfl, .inl rfl⟩
  · exact nomatch hcontrol

/-- **A cut inside a character shows**: the text is valid, but neither of its halves is. -/
theorem not_transparent_cut : utf8Validate [0xC3, 0xA9] = [0xC3, 0xA9].length ∧
    ¬ Transparent (opened true fun _ => 0)
      ((opened true fun _ => 0).feed [⟨false, false, 0x01, [0xC3]⟩, ⟨false, true, 0, [0xA9]⟩])
      0x01 [0xC3, 0xA9] := by
  refine ⟨by decide +kernel, fun h => ?_⟩
  have hdelivered := h.delivered
  revert hdelivered
  decide +kernel

end Connection

end Cockpit.WebSocket
