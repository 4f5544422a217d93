import Cockpit.WebSocket.CloseHandshake

namespace Cockpit.WebSocket

/-!
# The signals of a connection

Whoever uses a connection learns about it through its signals.  For a connection on a stream:

* `Connection.mainStep_emits` — apart from `on_iostream_closed`, whatever the main loop does is
  onward, and leaves at most one function waiting for its handlers;
* `Connection.onward_closingHandled`, `Connection.onward_errorHandled` — so do the second halves
  of these functions, and nothing waits after them.
-/

/-- What is done stays done. -/
structure Later (c c' : Connection) : Prop where
  closeSent : c.closeSent → c'.closeSent
  handshakeDone : c.handshakeDone → c'.handshakeDone
  ioStream : c.ioStream → c'.ioStream

theorem Later.trans {c c' c₂ : Connection} (h : Later c c') (h' : Later c' c₂) : Later c c₂ :=
  ⟨h'.closeSent ∘ h.closeSent, h'.handshakeDone ∘ h.handshakeDone, h'.ioStream ∘ h.ioStream⟩

/-- What is done stays done, and "close" is not emitted. -/
structure Onward (c c' : Connection) : Prop extends Later c c' where
  signals : c.ioStream → c'.closeSignals = c.closeSignals

/-- Neither "open" nor "message" was emitted. -/
structure Unheard (c c' : Connection) : Prop where
  handshakeDone : c'.handshakeDone = c.handshakeDone
  delivered : c'.delivered = c.delivered

theorem Unheard.trans {c c' c₂ : Connection} (h : Unheard c c') (h' : Unheard c' c₂) :
    Unheard c c₂ :=
  ⟨h'.handshakeDone.trans h.handshakeDone, h'.delivered.trans h.delivered⟩

/-- No function is left waiting for handlers, or one, and then no other signal was emitted.  The
    one that emitted "closing" has not sent the close frame. -/
inductive Emitted (c c' : Connection) : Prop where
  | nothing (h : c'.pending = [])
  | closing (code : UInt16) (data : Option Bytes) (h : c'.pending = [.closing code data])
      (hunsent : c'.closeSent = false) (hunheard : Unheard c c')
  | error (err : Error) (prejudice stop : Bool) (h : c'.pending = [.error err prejudice stop])
      (hunheard : Unheard c c')

namespace Onward

variable {c c' c₂ : Connection}

theorem refl (c : Connection) : Onward c c := ⟨⟨id, id, id⟩, fun _ => rfl⟩

theorem trans (h : Onward c c') (h' : Onward c' c₂) : Onward c c₂ where
  toLater := h.toLater.trans h'.toLater
  signals hstream := (h'.signals (h.ioStream hstream)).trans (h.signals hstream)

end Onward

namespace Connection

variable {c : Connection}

/-! ### Functions that emit nothing -/

section

variable (c : Connection)

theorem onward_queue (kind : QueueKind) (urgent last : Bool) (data : Bytes)
    (amount : Nat) : Onward c (c.queue kind urgent last data amount) ∧
      (c.queue kind urgent last data amount).pending = c.pending := by
  unfold queue
  split <;> exact ⟨⟨⟨id, id, id⟩, fun _ => rfl⟩, rfl⟩

theorem onward_sendPrefixedMessage (urgent last : Bool) (opcode : UInt8)
    (pref payload : Bytes) :
    Onward c (c.sendPrefixedMessage urgent last opcode pref payload) ∧
      (c.sendPrefixedMessage urgent last opcode pref payload).pending = c.pending := by
  obtain ⟨h, hpend⟩ := onward_queue
    { c with randomUsed := if c.serverSide then c.randomUsed else c.randomUsed + 1 }
    (.frame opcode) urgent last (RawFrame.mk opcode c.nextMask
      (frameContent opcode pref payload)).encode
    (if opcode &&& 0x08 != 0 then 0 else payload.length + pref.length)
  exact ⟨⟨⟨h.closeSent, h.handshakeDone, h.ioStream⟩, h.signals⟩, hpend⟩

theorem onward_sendClose (urgent last : Bool) (code : UInt16)
    (reason : Option Bytes) : Onward c (c.sendClose urgent last code reason) ∧
      (c.sendClose urgent last code reason).pending = c.pending := by
  obtain ⟨h, hpend⟩ := c.onward_sendPrefixedMessage urgent last 0x08 []
    (if code = 0 then [] else (code >>> 8).toUInt8 :: code.toUInt8 :: reason.getD [])
  exact ⟨⟨⟨fun _ => rfl, h.handshakeDone, h.ioStream⟩, h.signals⟩, hpend⟩

/-- A stream is closed without "close", which comes from `on_iostream_closed`. -/
theorem onward_closeIoStream :
    Onward c c.closeIoStream ∧ c.closeIoStream.pending = c.pending := by
  unfold closeIoStream
  dsimp only
  split
  · rename_i hnew
    simp only [Bool.and_eq_true, Bool.not_eq_true'] at hnew
    exact ⟨⟨⟨id, id, id⟩, fun hstream => nomatch (hnew.1.symm.trans hstream)⟩, rfl⟩
  · split <;> exact ⟨⟨⟨id, id, id⟩, fun _ => rfl⟩, rfl⟩

theorem onward_send (type : DataType) (pref message : Bytes) :
    Onward c (c.send type pref message) ∧ (c.send type pref message).pending = c.pending := by
  unfold send
  split
  · exact ⟨.refl c, rfl⟩
  cases type with
  | text =>
    dsimp only
    split
    · exact ⟨.refl c, rfl⟩
    · exact c.onward_sendPrefixedMessage false false 0x01 pref message
  | binary => exact c.onward_sendPrefixedMessage false false 0x02 pref message

/-! ### The second halves -/

/-- A "closing" that was handled leads to the close frame once the handshake is done. -/
theorem onward_closingHandled (code : UInt16) (data : Option Bytes)
    (handled : Bool) : Onward c (c.closingHandled code data handled) ∧
      (c.closingHandled code data handled).pending = c.pending ∧ (handled → c.handshakeDone →
          (c.closingHandled code data handled).closeSent) := by
  unfold closingHandled
  split
  · rename_i hnot
    refine ⟨.refl c, rfl, fun h => absurd (h.symm.trans ?_) Bool.true_eq_false.mp⟩
    simpa using hnot
  split
  · obtain ⟨h, hpend⟩ := c.onward_sendClose false (c.serverSide && c.closeReceived) code data
    exact ⟨⟨⟨h.closeSent, h.handshakeDone, h.ioStream⟩, h.signals⟩, hpend, fun _ _ => rfl⟩
  · rename_i hnot
    obtain ⟨h, hpend⟩ := c.onward_closeIoStream
    exact ⟨h, hpend, fun _ hdone => absurd hdone hnot⟩

theorem onward_errorHandled (err : Error) (prejudice stopInput : Bool) :
    Onward c (c.errorHandled err prejudice stopInput) ∧
      (c.errorHandled err prejudice stopInput).pending = c.pending := by
  have hsame : ∀ {d}, Onward c d ∧ d.pending = c.pending →
      Onward c { d with inputSource := d.inputSource && !stopInput } ∧ d.pending = c.pending :=
    fun h => ⟨⟨⟨h.1.closeSent, h.1.handshakeDone, h.1.ioStream⟩, h.1.signals⟩, h.2⟩
  unfold errorHandled
  apply hsame
  split_ifs
  · exact ⟨.refl c, rfl⟩
  · exact c.onward_closeIoStream
  · exact c.onward_sendClose true true _ none

end

/-! ### Functions that emit -/

/-- Something onward that leaves at most one function waiting. -/
def Emits (c c' : Connection) : Prop := Onward c c' ∧ Emitted c c'

theorem Emits.of_pending {c' : Connection} (h : Onward c c' ∧ c'.pending = c.pending)
    (hidle : c.pending = []) : Emits c c' := ⟨h.1, .nothing (h.2.trans hidle)⟩

theorem Emits.after {c' c₂ : Connection} (h : Onward c c') (hunh : Unheard c c')
    (h' : Emits c' c₂) : Emits c c₂ := by
  refine ⟨h.trans h'.1, ?_⟩
  cases h'.2 with
  | nothing hidle => exact .nothing hidle
  | closing code data hpend hunsnt hrest =>
    exact .closing code data hpend hunsnt (hunh.trans hrest)
  | error err prejudice stop hpend hrest =>
    exact .error err prejudice stop hpend (hunh.trans hrest)

theorem emits_closeIoStream (hidle : c.pending = []) (d : Connection) (hd : Onward c d)
    (hpend : d.pending = c.pending) : Emits c d.closeIoStream :=
  ⟨hd.trans d.onward_closeIoStream.1, .nothing (d.onward_closeIoStream.2.trans
    (hpend.trans hidle))⟩

section

variable (c : Connection)

section

variable (hidle : c.pending = [])

include hidle

theorem emits_errorAndClose (err : Error)
    (prejudice stopInput : Bool) : Emits c (c.errorAndClose err prejudice stopInput) := by
  have hsame : ∀ d : Connection, Onward c d → d.pending = c.pending → Unheard c d →
      Emits c (if d.readyState = .closed then
        { d with inputSource := d.inputSource && !stopInput }
        else { d with dirtyClose := true, pending := .error err prejudice stopInput :: d.pending }) := by
    intro d hd hpend hunh
    split
    · exact ⟨⟨⟨hd.closeSent, hd.handshakeDone, hd.ioStream⟩, hd.signals⟩,
        .nothing (hpend.trans hidle)⟩
    refine ⟨⟨⟨hd.closeSent, hd.handshakeDone, hd.ioStream⟩, hd.signals⟩,
      .error err prejudice stopInput ?_ ⟨hunh.handshakeDone, hunh.delivered⟩⟩
    show Pending.error err prejudice stopInput :: d.pending = _
    rw [hpend, hidle]
  unfold errorAndClose
  apply hsame
  · cases err with
    | tls data =>
      dsimp only
      split
      · exact .refl c
      · exact ⟨⟨id, id, id⟩, fun _ => rfl⟩
    | webSocket code | other => exact .refl c
  · cases err with
    | tls data =>
      dsimp only
      split <;> rfl
    | webSocket code | other => rfl
  cases err with
  | tls data =>
    dsimp only
    split <;> exact ⟨rfl, rfl⟩
  | webSocket code | other => exact ⟨rfl, rfl⟩

theorem emits_close (code : UInt16)
    (data : Option Bytes) : Emits c (c.close code data) := by
  unfold close
  split
  · exact ⟨⟨⟨id, id, id⟩, fun _ => rfl⟩, .nothing hidle⟩
  rename_i hunsnt
  refine ⟨⟨⟨id, id, id⟩, fun _ => rfl⟩, .closing code data ?_ (Bool.eq_false_iff.mpr hunsnt)
    ⟨rfl, rfl⟩⟩
  show Pending.closing code data :: c.pending = _
  rw [hidle]

theorem emits_receiveClose (data : Bytes) :
    Emits c (c.receiveClose data) := by
  have hshut : ∀ d : Connection, Onward c d → d.pending = c.pending →
      Emits c d.shutdownWrIoStream.closeIoStream := fun d hd hpend =>
    emits_closeIoStream hidle d.shutdownWrIoStream
      ⟨⟨hd.closeSent, hd.handshakeDone, hd.ioStream⟩, hd.signals⟩ hpend
  unfold receiveClose
  dsimp only
  split
  · split
    · exact hshut _ ⟨⟨id, id, id⟩, fun _ => rfl⟩ rfl
    · exact ⟨⟨⟨id, id, id⟩, fun _ => rfl⟩, .nothing hidle⟩
  refine .after ?_ ?_ (emits_close _ ?_ _ none)
  · exact ⟨⟨id, id, id⟩, fun _ => rfl⟩
  · exact ⟨rfl, rfl⟩
  · exact hidle

theorem emits_processMessage (fin : Bool)
    (opcode : UInt8) (payload : Bytes) : Emits c (c.processMessage fin opcode payload) := by
  rcases c.processMessage_cases fin opcode payload with heq | ⟨o, m, heq | ⟨l, heq⟩⟩
  all_goals rw [heq]
  · exact c.emits_errorAndClose hidle _ _ _
  · refine .after ?_ ?_ (emits_errorAndClose _ ?_ _ _ _)
    · exact ⟨⟨id, id, id⟩, fun _ => rfl⟩
    · exact ⟨rfl, rfl⟩
    · exact hidle
  · exact ⟨⟨⟨id, id, id⟩, fun _ => rfl⟩, .nothing hidle⟩

theorem emits_processContents (contents : Contents) :
    Emits c (c.processContents contents) := by
  unfold processContents
  split
  · split
    · exact c.emits_errorAndClose hidle _ _ _
    split
    · exact c.emits_receiveClose hidle _
    · split
      · exact .of_pending (c.onward_sendPrefixedMessage true false 0x0A [] _) hidle
      · exact ⟨.refl c, .nothing hidle⟩
  · split
    · exact ⟨.refl c, .nothing hidle⟩
    · exact c.emits_processMessage hidle _ _ _

theorem emits_processFrame :
    Emits c c.processFrame.1 := by
  unfold processFrame
  split
  · exact ⟨.refl c, .nothing hidle⟩
  · show Emits c c.tooBigErrorAndClose
    exact c.emits_errorAndClose hidle _ true true
  rename_i n contents _
  have hread : Onward c { c with incoming := c.incoming.drop n } :=
    ⟨⟨id, id, id⟩, fun _ => rfl⟩
  have hrest := emits_processContents { c with incoming := c.incoming.drop n } hidle contents
  exact .after hread ⟨rfl, rfl⟩ hrest

theorem emits_onOutput (count : Option Nat) :
    Emits c (c.onOutput count) := by
  unfold onOutput
  split
  · exact ⟨⟨⟨id, id, id⟩, fun _ => rfl⟩, .nothing hidle⟩
  split
  · exact c.emits_errorAndClose hidle _ _ _
  dsimp only
  split
  · split
    · exact ⟨⟨⟨id, id, id⟩, fun _ => rfl⟩, .nothing hidle⟩
    · split
      · exact emits_closeIoStream hidle _ ⟨⟨id, id, id⟩, fun _ => rfl⟩ rfl
      · exact ⟨⟨⟨id, id, id⟩, fun _ => rfl⟩, .nothing hidle⟩
  · exact ⟨⟨⟨id, id, id⟩, fun _ => rfl⟩, .nothing hidle⟩

/-- Whatever the main loop does, apart from the end of closing the stream. -/
theorem mainStep_emits {e : Event}
    (he : ∀ failed, e ≠ .iostreamClosed failed) : Emits c (c.mainStep e) := by
  have hidled : ∀ {d}, Onward c d → d.pending = c.pending → Emits c d :=
    fun h hpend => .of_pending ⟨h, hpend⟩ hidle
  cases e with
  | connected =>
    simp only [mainStep]
    split
    · exact hidled (.refl c) rfl
    · exact hidled ⟨⟨id, id, fun _ => rfl⟩, fun _ => rfl⟩ rfl
  | connectError err =>
    simp only [mainStep]
    split
    · exact hidled (.refl c) rfl
    · exact c.emits_errorAndClose hidle _ _ _
  | startInput =>
    simp only [mainStep]
    split
    · exact hidled ⟨⟨id, id, id⟩, fun _ => rfl⟩ rfl
    · exact hidled (.refl c) rfl
  | handshakeRequest data =>
    simp only [mainStep]
    split
    · exact hidled (.refl c) rfl
    · exact .of_pending (c.onward_queue _ _ _ _ _) hidle
  | handshakeDone reply consumed =>
    simp only [mainStep]
    split
    · exact hidled (.refl c) rfl
    cases reply with
    | none => exact hidled ⟨⟨id, fun _ => rfl, id⟩, fun _ => rfl⟩ rfl
    | some data =>
      obtain ⟨h, hpend⟩ := c.onward_queue .handshake true false data 0
      exact hidled ⟨⟨h.closeSent, fun _ => rfl, h.ioStream⟩, h.signals⟩ hpend
  | handshakeBad reply =>
    simp only [mainStep]
    split
    · exact hidled (.refl c) rfl
    · obtain ⟨h, hpend⟩ := c.onward_queue .handshake true true reply 0
      exact hidled ⟨⟨h.closeSent, h.handshakeDone, h.ioStream⟩, h.signals⟩ hpend
  | handshakeFail err prejudice =>
    simp only [mainStep]
    split
    · exact hidled (.refl c) rfl
    · exact c.emits_errorAndClose hidle _ _ _
  | input data => exact hidled ⟨⟨id, id, id⟩, fun _ => rfl⟩ rfl
  | inputError err => exact c.emits_errorAndClose hidle err true false
  | inputEnd => exact emits_closeIoStream hidle _ ⟨⟨id, id, id⟩, fun _ => rfl⟩ rfl
  | frame =>
    simp only [mainStep]
    split
    · exact c.emits_processFrame hidle
    · exact hidled (.refl c) rfl
  | output count =>
    simp only [mainStep]
    split
    · exact c.emits_onOutput hidle count
    · exact hidled (.refl c) rfl
  | timeout =>
    simp only [mainStep]
    split
    · exact emits_closeIoStream hidle _ ⟨⟨id, id, id⟩, fun _ => rfl⟩ rfl
    · exact hidled (.refl c) rfl
  | iostreamClosed failed => exact absurd rfl (he failed)
  | dispose => exact emits_closeIoStream hidle _ ⟨⟨id, id, id⟩, fun _ => rfl⟩ rfl
  | send type pref message | close code data | closingHandled handled | errorHandled =>
    exact hidled (.refl c) rfl

end

end

end Connection

end Cockpit.WebSocket
