import Cockpit.Lib.Run
import Cockpit.WebSocket.Connection

namespace Cockpit.WebSocket

open Lib List

/-!
# The close handshake

Runs of a whole connection: connecting, the HTTP handshake, frames, writes, errors, the end of
the input, timeouts, and calls of `web_socket_connection_send` and `_close` by the user of the
connection, also from within signal handlers.

`_web_socket_connection_queue` and `web_socket_connection_close` are guarded by `close_sent`.
The library does not keep to this: `receive_ping_rfc6455` answers a ping also when the close
frame is queued already, and a "closing" handler that closes the connection makes the outer
`web_socket_connection_close` queue a second close frame.  `Connection.CloseOk` leaves these
two out.

* `Connection.Good.step` — one admitted event keeps it and does not lower the ready state;
* `Connection.run_close_handshake` — what follows for whole runs.
-/

namespace Connection

/-! ### Events -/

/-- What can happen to a connection. -/
inductive Event where
  | connected
  | connectError (err : Error)
  | startInput
  | handshakeRequest (data : Bytes)
  /-- The handshake is accepted, by the server with a reply. -/
  | handshakeDone (reply : Option Bytes) (consumed : Nat)
  /-- The server refuses the handshake. -/
  | handshakeBad (reply : Bytes)
  /-- The client refuses the handshake. -/
  | handshakeFail (err : Error) (prejudice : Bool)
  | input (data : Bytes)
  | inputError (err : Error)
  | inputEnd
  /-- One turn of the frame loop. -/
  | frame
  | output (count : Option Nat)
  | timeout
  | iostreamClosed (failed : Bool)
  | dispose
  | send (type : DataType) (pref message : Bytes)
  | close (code : UInt16) (data : Option Bytes)
  /-- The "closing" handlers return. -/
  | closingHandled (handled : Bool)
  /-- The "error" handlers return. -/
  | errorHandled

variable (c : Connection)

/-- What the main loop does; it does not run while signal handlers do. -/
def mainStep : Event → Connection
  | .connected =>
    if c.ioStream || c.cancelled then c
    else { c with ioStream := true, ioOpen := true, startIdle := true }
  | .connectError err => if c.ioStream || c.cancelled then c else c.errorAndClose err true false
  | .startInput => if c.startIdle then { c with startIdle := false, inputSource := true } else c
  | .handshakeRequest data => if c.handshakeDone then c else c.queue .handshake true false data 0
  | .handshakeDone reply consumed =>
    if c.handshakeDone then c
    else
      let c := match reply with
        | none => c
        | some data => c.queue .handshake true false data 0
      { c with handshakeDone := true, incoming := c.incoming.drop consumed }
  | .handshakeBad reply =>
    if c.handshakeDone then c
    else
      { c.queue .handshake true true reply 0 with
        dirtyClose := c.dirtyClose || c.readyState ≠ .closed }
  | .handshakeFail err prejudice =>
    if c.handshakeDone then c else c.errorAndClose err prejudice false
  | .input data => { c with incoming := c.incoming ++ data }
  | .inputError err => c.errorAndClose err true false
  | .inputEnd =>
    ({ c with dirtyClose := c.dirtyClose || !c.closeSent || !c.closeReceived } :
      Connection).closeIoStream
  | .frame => if c.handshakeDone then c.processFrame.1 else c
  | .output count => if c.outputSource then c.onOutput count else c
  | .timeout =>
    if c.closeTimeout then ({ c with closeTimeout := false } : Connection).closeIoStream else c
  | .iostreamClosed failed => if c.closeAsync then c.onIostreamClosed failed else c
  | .dispose => ({ c with dirtyClose := true } : Connection).closeIoStream
  | _ => c

/-- One event.  The user calls `web_socket_connection_close` by the ready state only. -/
def step : Event → Connection
  | .send type pref message => c.send type pref message
  | .close code data =>
    if c.readyState = .connecting ∨ c.readyState = .opened then c.close code data else c
  | .closingHandled handled =>
    match c.pending with
    | .closing code data :: rest =>
      ({ c with pending := rest } : Connection).closingHandled code data handled
    | _ => c
  | .errorHandled =>
    match c.pending with
    | .error err prejudice stop :: rest =>
      ({ c with pending := rest } : Connection).errorHandled err prejudice stop
    | _ => c
  | e => if c.pending.isEmpty then c.mainStep e else c

/-- Whether the next frame to be processed is a ping. -/
def pingNext : Bool :=
  match scanFrame c.incoming with
  | .item _ contents => contents.control && contents.fin && contents.opcode == 0x09
  | _ => false

/-- Whether "closing" handlers are running. -/
def isClosing : Pending → Bool
  | .closing _ _ => true
  | .error _ _ _ => false

/-- The events that keep to the close handshake: no ping is processed once the close frame is
    queued, and no "closing" handler closes the connection. -/
def CloseOk : Event → Prop
  | .frame => c.closeSent → c.pingNext = false
  | .close _ _ => c.pending.any isClosing = false
  | _ => True

instance CloseOk.decidable (c : Connection) : ∀ e, Decidable (c.CloseOk e)
  | .frame => inferInstanceAs (Decidable (_ → _))
  | .close _ _ => inferInstanceAs (Decidable (_ = _))
  | .connected | .connectError _ | .startInput | .handshakeRequest _ | .handshakeDone _ _
  | .handshakeBad _ | .handshakeFail _ _ | .input _ | .inputError _ | .inputEnd | .output _
  | .timeout | .iostreamClosed _ | .dispose | .send _ _ _ | .closingHandled _ | .errorHandled =>
    inferInstanceAs (Decidable True)

end Connection

/-! ### The invariant -/

/-- The fields that the close handshake is about. -/
structure Core where
  handshakeDone : Bool
  closeSent : Bool
  ioStream : Bool
  ioOpen : Bool
  ioClosed : Bool
  closeAsync : Bool
  cancelled : Bool
  pending : List Pending
  queued : List QueueKind
  guards : List Guard
  closeSignals : Nat

/-- The close frame. -/
def closeFrame : QueueKind := .frame 0x08

/-- What may wait for signal handlers: at most one error below at most one closing. -/
inductive PendingOk : List Pending → Prop where
  | nil : PendingOk []
  | error (err : Error) (prejudice stop : Bool) : PendingOk [.error err prejudice stop]
  | closing (code : UInt16) (data : Option Bytes) : PendingOk [.closing code data]
  | both (code : UInt16) (data : Option Bytes) (err : Error) (prejudice stop : Bool) :
      PendingOk [.closing code data, .error err prejudice stop]

/-- The invariant of the close handshake. -/
structure CoreInv (k : Core) : Prop where
  guards : k.guards = []
  handshake : k.closeSent → k.handshakeDone
  pendingOk : PendingOk k.pending
  unsent : k.pending.any Connection.isClosing → k.closeSent = false
  queuedOpen : k.closeSent = false → closeFrame ∉ k.queued
  queuedClosed : k.closeSent → ∃ before, k.queued = before ++ [closeFrame] ∧ closeFrame ∉ before
  openStream : k.ioOpen → k.ioStream ∧ k.ioClosed = false
  async : k.closeAsync → k.ioStream ∧ k.ioOpen = false ∧ k.ioClosed = false
  signals : k.closeSignals = if k.ioClosed then 1 else 0
  cancel : k.ioClosed → k.ioStream = false → k.cancelled

/-- The flags that the ready state is made of only go one way. -/
structure Forward (k k' : Core) : Prop where
  ioClosed : k.ioClosed → k'.ioClosed
  ioStream : k.ioStream → k'.ioStream
  ioOpen : k.ioStream → k.ioOpen = false → k'.ioOpen = false
  closeSent : k.closeSent → k'.closeSent
  handshakeDone : k.handshakeDone → k'.handshakeDone

theorem Forward.refl (k : Core) : Forward k k := ⟨id, id, fun _ => id, id, id⟩

namespace Connection

/-- The fields of a connection that the close handshake is about. -/
def core (c : Connection) : Core :=
  ⟨c.handshakeDone, c.closeSent, c.ioStream, c.ioOpen, c.ioClosed, c.closeAsync, c.cancelled,
    c.pending, c.queued, c.guards, c.closeSignals⟩

/-- `c` keeps the invariant and has not gone back behind `start`. -/
def Good (start : Core) (c : Connection) : Prop := CoreInv c.core ∧ Forward start c.core

variable {start : Core} {c : Connection}

/-! ### What the functions do to it -/

theorem core_queue (h : c.closeSent = false) (kind : QueueKind) (urgent last : Bool)
    (data : Bytes) (amount : Nat) : (c.queue kind urgent last data amount).core =
      { c.core with queued := c.queued ++ [kind] } := by
  rw [queue_of_unsent h]
  rfl

theorem core_sendPrefixedMessage (h : c.closeSent = false) (urgent last : Bool) (opcode : UInt8)
    (pref payload : Bytes) : (c.sendPrefixedMessage urgent last opcode pref payload).core =
      { c.core with queued := c.queued ++ [.frame opcode] } := by
  rw [sendPrefixedMessage_eq h]
  rfl

theorem core_sendClose (h : c.closeSent = false) (urgent last : Bool) (code : UInt16)
    (reason : Option Bytes) : (c.sendClose urgent last code reason).core =
      { c.core with queued := c.queued ++ [closeFrame], closeSent := true } := by
  simp only [sendClose]
  rw [sendPrefixedMessage_eq h]
  rfl

section

variable (h : Good start c)

include h

variable {c' : Connection}

section

variable (hunsent : c.closeSent = false)

include hunsent

/-- Another frame before the close frame. -/
theorem Good.queued {kind : QueueKind} (hkind : kind ≠ closeFrame)
    (hcore : c'.core = { c.core with queued := c.queued ++ [kind] }) : Good start c' := by
  obtain ⟨hi, hf⟩ := h
  unfold Good
  rw [hcore]
  refine ⟨{ hi with queuedOpen := ?_, queuedClosed := ?_ },
    { hf with }⟩
  · intro _
    have := hi.queuedOpen hunsent
    simp only [core, mem_append, mem_singleton] at this ⊢
    exact not_or.mpr ⟨this, hkind.symm⟩
  · intro hsent
    cases (hunsent.symm.trans hsent)

theorem Good.queue (urgent last : Bool)
    (data : Bytes) (amount : Nat) : Good start (c.queue .handshake urgent last data amount) :=
  h.queued hunsent (by decide) (core_queue hunsent _ urgent last data amount)

theorem Good.sendPrefixedMessage
    {opcode : UInt8} (hop : opcode ≠ 0x08) (urgent last : Bool) (pref payload : Bytes) :
    Good start (c.sendPrefixedMessage urgent last opcode pref payload) :=
  h.queued hunsent (fun heq => hop (QueueKind.frame.inj heq))
    (core_sendPrefixedMessage hunsent urgent last opcode pref payload)

/-- The close frame is queued once; nothing may wait to close after it. -/
theorem Good.sendClose
    (hdone : c.handshakeDone) (hidle : c.pending.any isClosing = false) (urgent last : Bool)
    (code : UInt16) (reason : Option Bytes) : Good start (c.sendClose urgent last code reason) := by
  obtain ⟨hi, hf⟩ := h
  unfold Good
  rw [core_sendClose hunsent]
  refine ⟨{ hi with
      handshake := fun _ => hdone, unsent := ?_, queuedOpen := ?_, queuedClosed := ?_ },
    { hf with closeSent := fun _ => rfl }⟩
  · intro hany
    exact nomatch (hidle.symm.trans hany)
  · intro hsent
    exact absurd hsent.symm Bool.false_ne_true
  · intro _
    exact ⟨c.queued, rfl, hi.queuedOpen hunsent⟩

end

theorem Good.closeIoStream : Good start c.closeIoStream := by
  obtain ⟨hi, hf⟩ := h
  simp only [Connection.closeIoStream]
  split
  · rename_i hnew
    simp only [Bool.and_eq_true, Bool.not_eq_true'] at hnew
    obtain ⟨hstream, hclos⟩ := hnew
    have hsig : c.closeSignals = 0 := by
      have := hi.signals
      rw [show c.core.ioClosed = false from hclos] at this
      exact this
    refine ⟨{ hi with openStream := ?_, async := ?_, signals := ?_, cancel := fun _ _ => rfl },
      { hf with ioClosed := fun _ => rfl }⟩
    · intro hopen
      exact absurd ((hi.openStream hopen).1.symm.trans hstream) (by simp)
    · intro hasync
      exact absurd ((hi.async hasync).1.symm.trans hstream) (by simp)
    · simp [core, hsig]
  split
  · rename_i hopen
    obtain ⟨hstream, hclos⟩ := hi.openStream hopen
    refine ⟨{ hi with
        openStream := fun h => absurd h Bool.false_ne_true,
        async := fun _ => ⟨hstream, rfl, hclos⟩ },
      { hf with ioOpen := fun _ _ => rfl }⟩
  · exact ⟨hi, hf⟩

/-- A function that leaves the fields of the close handshake alone. -/
theorem Good.of_core (hcore : c'.core = c.core) :
    Good start c' := by
  unfold Good
  rw [hcore]
  exact h

theorem Good.onIostreamClosed (hasync : c.closeAsync) (failed : Bool) :
    Good start (c.onIostreamClosed failed) := by
  obtain ⟨hi, hf⟩ := h
  obtain ⟨hstream, hopen, hclos⟩ := hi.async hasync
  have hsig : c.closeSignals = 0 := by
    have := hi.signals
    rw [hclos] at this
    exact this
  refine ⟨{ hi with
      openStream := ?_, async := fun h => absurd h Bool.false_ne_true, signals := ?_,
      cancel := fun _ _ => rfl },
    { hf with ioClosed := fun _ => rfl }⟩
  · intro hopen'
    exact nomatch (hopen.symm.trans hopen')
  · simp [core, Connection.onIostreamClosed, hsig]

variable {p : Pending}

/-- Something new waits for signal handlers. -/
theorem Good.push (hok : PendingOk (p :: c.pending)) (hunsent : isClosing p → c.closeSent = false)
    (hcore : c'.core = { c.core with pending := p :: c.pending }) : Good start c' := by
  obtain ⟨hi, hf⟩ := h
  unfold Good
  rw [hcore]
  refine ⟨{ hi with pendingOk := hok, unsent := ?_ },
    { hf with }⟩
  intro hany
  rw [any_cons, Bool.or_eq_true] at hany
  exact hany.elim hunsent hi.unsent

/-- Signal handlers have returned. -/
theorem Good.pop {rest : List Pending}
    (hpend : c.pending = p :: rest) : Good start { c with pending := rest } := by
  obtain ⟨hi, hf⟩ := h
  have hok := hi.pendingOk
  have hun := hi.unsent
  simp only [core, hpend] at hok hun
  refine ⟨{ hi with pendingOk := ?_, unsent := ?_ },
    { hf with }⟩
  · show PendingOk rest
    cases hok with
    | error | closing => exact .nil
    | both _ _ err prejudice stop => exact .error err prejudice stop
  · intro hany
    exact hun (by rw [any_cons, Bool.or_eq_true]; exact .inr hany)

theorem Good.errorAndClose (hidle : c.pending = []) (err : Error)
    (prejudice stop : Bool) : Good start (c.errorAndClose err prejudice stop) := by
  have key : ∀ d : Connection, d.core = c.core → Good start
      (if d.readyState = .closed then { d with inputSource := d.inputSource && !stop }
       else { d with dirtyClose := true, pending := .error err prejudice stop :: d.pending }) := by
    intro d hd
    have hd' : Good start d := h.of_core hd
    have hpend : d.pending = [] := (congrArg Core.pending hd).trans hidle
    split
    · exact hd'
    · refine hd'.push (p := .error err prejudice stop) ?_ (fun h => absurd h (by simp [isClosing])) rfl
      rw [hpend]
      exact .error err prejudice stop
  unfold Connection.errorAndClose
  refine key _ ?_
  cases err with
  | tls data =>
    dsimp only
    split <;> rfl
  | webSocket code | other => rfl

end

/-- The state in which an error asks for the close frame. -/
theorem closeSent_of_readyState (h : c.readyState ≠ .closed) (h' : c.readyState ≠ .closing) :
    c.closeSent = false := by
  unfold readyState at h h'
  by_contra hsent
  rw [Bool.not_eq_false] at hsent
  rw [hsent, Bool.or_true] at h h'
  cases hclos : c.ioClosed <;> simp [hclos] at h h'

section

variable (h : Good start c)

include h

theorem Good.errorHandled (hidle : c.pending = []) (err : Error)
    (prejudice stop : Bool) : Good start (c.errorHandled err prejudice stop) := by
  have key : ∀ d : Connection, Good start d →
      Good start { d with inputSource := d.inputSource && !stop } := fun d hd => hd
  simp only [Connection.errorHandled]
  refine key _ ?_
  split
  · exact h
  · split
    · exact h
    rename_i hprej
    rw [Bool.not_eq_true', Bool.not_eq_false] at hprej
    rw [if_pos hprej]
    exact h.closeIoStream
  rename_i hclos hclsg
  rw [if_neg Bool.false_ne_true]
  split
  · exact h.closeIoStream
  rename_i hprej
  simp only [Bool.or_eq_true, Bool.not_eq_true', not_or, Bool.not_eq_false] at hprej
  exact h.sendClose (closeSent_of_readyState hclos hclsg) hprej.2
    (by rw [hidle]; rfl) true true _ none

section

variable (hunsent : c.closeSent = false) (hidle : c.pending.any isClosing = false) (code : UInt16)
    (data : Option Bytes)

include hunsent hidle code data

theorem Good.close :
    Good start (c.close code data) := by
  unfold Connection.close
  rw [if_neg (by rw [hunsent]; exact Bool.false_ne_true)]
  refine h.push (p := .closing code data) ?_ (fun _ => hunsent) rfl
  have hok : PendingOk c.pending := h.1.pendingOk
  revert hok hidle
  generalize c.pending = pending
  intro hidle hok
  cases hok with
  | nil => exact .closing code data
  | error err prejudice stop => exact .both code data err prejudice stop
  | closing | both => exact absurd hidle (by simp [isClosing])

theorem Good.closingHandled (handled : Bool) : Good start (c.closingHandled code data handled) := by
  unfold Connection.closingHandled
  split
  · exact h
  split
  · rename_i hdone
    exact Good.of_core (h.sendClose hunsent hdone hidle false (c.serverSide && c.closeReceived)
      code data) rfl
  · exact h.closeIoStream

/-! ### Frames and writes -/

end

section

variable (hidle : c.pending = [])

include hidle

theorem Good.receiveClose (data : Bytes) :
    Good start (c.receiveClose data) := by
  simp only [Connection.receiveClose]
  split
  · split
    · refine Good.closeIoStream ?_
      exact h
    · exact h
  rename_i hsent
  refine Good.close ?_ ?_ ?_ _ none
  · exact h
  · exact Bool.eq_false_iff.mpr hsent
  · show c.pending.any isClosing = false
    rw [hidle]
    rfl

theorem Good.processMessage (fin : Bool)
    (opcode : UInt8) (payload : Bytes) : Good start (c.processMessage fin opcode payload) := by
  rcases c.processMessage_cases fin opcode payload with heq | ⟨o, m, heq | ⟨l, heq⟩⟩
  all_goals rw [heq]
  · exact h.errorAndClose hidle _ _ _
  · refine Good.errorAndClose ?_ ?_ _ _ _
    · exact h.of_core rfl
    · exact hidle
  · exact h.of_core rfl

/-- A frame that is no ping, or comes before the close frame. -/
theorem Good.processContents (contents : Contents)
    (hping : c.closeSent → (contents.control && contents.fin && contents.opcode == 0x09) = false) :
    Good start (c.processContents contents) := by
  unfold Connection.processContents
  split
  · rename_i hctl
    split
    · exact h.errorAndClose hidle _ _ _
    rename_i hfin
    split
    · exact h.receiveClose hidle _
    split
    · rename_i hop
      refine Good.sendPrefixedMessage h ?_ (by decide) true false [] contents.payload
      by_contra hsent
      rw [Bool.not_eq_false] at hsent
      have := hping hsent
      simp only [Bool.not_eq_true', Bool.not_eq_false] at hfin
      simp [hctl, hfin, hop] at this
    · exact h
  · split
    · exact h
    · exact h.processMessage hidle _ _ _

theorem Good.processFrame
    (hping : c.closeSent → c.pingNext = false) : Good start c.processFrame.1 := by
  unfold Connection.processFrame
  unfold pingNext at hping
  split
  · exact h
  · exact h.errorAndClose hidle _ _ _
  rename_i n contents hscan
  rw [hscan] at hping
  refine Good.processContents ?_ ?_ contents ?_
  · exact h
  · exact hidle
  · exact hping

theorem Good.onOutput (count : Option Nat) :
    Good start (c.onOutput count) := by
  unfold Connection.onOutput
  split
  · exact h
  split
  · exact h.errorAndClose hidle _ _ _
  dsimp only
  split
  · split
    · exact h
    split
    · refine Good.closeIoStream ?_
      exact h
    · exact h
  · exact h

end

theorem Good.send (type : DataType) (pref message : Bytes) :
    Good start (c.send type pref message) := by
  unfold Connection.send
  split
  · exact h
  rename_i hopen
  have hunsent : c.closeSent = false := by
    rw [Decidable.not_not] at hopen
    exact closeSent_of_readyState (by rw [hopen]; decide) (by rw [hopen]; decide)
  cases type with
  | text =>
    dsimp only
    split
    · exact h
    · exact h.sendPrefixedMessage hunsent (by decide) false false pref message
  | binary => exact h.sendPrefixedMessage hunsent (by decide) false false pref message

/-! ### Runs -/

/-- What the main loop does keeps the invariant. -/
theorem Good.mainStep (hidle : c.pending = []) (e : Event)
    (hok : c.CloseOk e) : Good start (c.mainStep e) := by
  have hunsent : c.handshakeDone = false → c.closeSent = false := by
    intro hnew
    by_contra hsent
    rw [Bool.not_eq_false] at hsent
    exact absurd (hnew.symm.trans (h.1.handshake hsent)) Bool.false_ne_true
  cases e with
  | connected =>
    simp only [Connection.mainStep]
    split
    · exact h
    rename_i hnew
    rw [Bool.or_eq_true, not_or, Bool.not_eq_true, Bool.not_eq_true] at hnew
    obtain ⟨hi, hf⟩ := h
    -- a closed connection without a stream has cancelled its connect
    have hclos : c.ioClosed = false := by
      by_contra hclos
      rw [Bool.not_eq_false] at hclos
      exact absurd (hnew.2.symm.trans (hi.cancel hclos hnew.1)) Bool.false_ne_true
    refine ⟨{ hi with openStream := fun _ => ⟨rfl, hclos⟩, async := ?_, cancel := ?_ },
      { hf with ioStream := fun _ => rfl, ioOpen := ?_ }⟩
    · intro hasync
      exact absurd (hnew.1.symm.trans (hi.async hasync).1) Bool.false_ne_true
    · intro hcl'
      exact nomatch (hclos.symm.trans hcl')
    · intro hstream
      exact absurd (hnew.1.symm.trans (hf.ioStream hstream)) Bool.false_ne_true
  | connectError err =>
    simp only [Connection.mainStep]
    split
    · exact h
    · exact h.errorAndClose hidle err true false
  | startInput =>
    simp only [Connection.mainStep]
    split <;> exact h
  | handshakeRequest data =>
    simp only [Connection.mainStep]
    split
    · exact h
    · rename_i hnew
      exact h.queue (hunsent (Bool.eq_false_iff.mpr hnew)) true false data 0
  | handshakeDone reply consumed =>
    have key : ∀ d : Connection, Good start d →
        Good start { d with handshakeDone := true, incoming := d.incoming.drop consumed } := by
      intro d hd
      obtain ⟨hi, hf⟩ := hd
      exact ⟨{ hi with handshake := fun _ => rfl },
        { hf with handshakeDone := fun _ => rfl }⟩
    simp only [Connection.mainStep]
    split
    · exact h
    rename_i hnew
    refine key _ ?_
    cases reply with
    | none => exact h
    | some data => exact h.queue (hunsent (Bool.eq_false_iff.mpr hnew)) true false data 0
  | handshakeBad reply =>
    simp only [Connection.mainStep]
    split
    · exact h
    · rename_i hnew
      exact Good.of_core (h.queue (hunsent (Bool.eq_false_iff.mpr hnew)) true true reply 0) rfl
  | handshakeFail err prejudice =>
    simp only [Connection.mainStep]
    split
    · exact h
    · exact h.errorAndClose hidle err prejudice false
  | input data => exact h
  | inputError err => exact h.errorAndClose hidle err true false
  | inputEnd =>
    refine Good.closeIoStream ?_
    exact h
  | frame =>
    simp only [Connection.mainStep]
    split
    · exact h.processFrame hidle hok
    · exact h
  | output count =>
    simp only [Connection.mainStep]
    split
    · exact h.onOutput hidle count
    · exact h
  | timeout =>
    simp only [Connection.mainStep]
    split
    · refine Good.closeIoStream ?_
      exact h
    · exact h
  | iostreamClosed failed =>
    simp only [Connection.mainStep]
    split
    · rename_i hasync
      exact h.onIostreamClosed hasync failed
    · exact h
  | dispose =>
    refine Good.closeIoStream ?_
    exact h
  | send _ _ _ | close _ _ | closingHandled _ | errorHandled => exact h

/-- **One admitted event** keeps the invariant, and the flags only go forward. -/
theorem Good.step (e : Event) (hok : c.CloseOk e) : Good start (c.step e) := by
  have hmain : Good start (if c.pending.isEmpty then c.mainStep e else c) := by
    split
    · rename_i hidle
      exact h.mainStep (List.isEmpty_iff.mp hidle) e hok
    · exact h
  cases e with
  | send type pref message => exact h.send type pref message
  | close code data =>
    simp only [Connection.step]
    split
    · rename_i hstate
      refine h.close ?_ hok code data
      refine closeSent_of_readyState ?_ ?_ <;> rcases hstate with hstate | hstate <;>
        rw [hstate] <;> decide
    · exact h
  | closingHandled handled =>
    simp only [Connection.step]
    split
    · rename_i code data rest hpend
      have hunsent : c.closeSent = false := h.1.unsent (by simp [core, hpend, isClosing])
      have hrest : rest.any isClosing = false := by
        have hok := h.1.pendingOk
        simp only [core, hpend] at hok
        cases hok <;> rfl
      refine Good.closingHandled (h.pop hpend) ?_ ?_ code data handled
      · exact hunsent
      · exact hrest
    · exact h
  | errorHandled =>
    simp only [Connection.step]
    split
    · rename_i err prejudice stop rest hpend
      have hrest : rest = [] := by
        have hok := h.1.pendingOk
        simp only [core, hpend] at hok
        cases hok
        rfl
      refine Good.errorHandled (h.pop hpend) ?_ err prejudice stop
      exact hrest
    · exact h
  | connected | connectError _ | startInput | handshakeRequest _ | handshakeDone _ _
  | handshakeBad _ | handshakeFail _ _ | input _ | inputError _ | inputEnd | frame | output _
  | timeout | iostreamClosed _ | dispose => exact hmain

end

/-- A new connection. -/
theorem coreInv_new (serverSide ioStream : Bool) (random : Nat → UInt32) :
    CoreInv (new serverSide ioStream random).core := by
  refine ⟨rfl, fun h => absurd h Bool.false_ne_true, .nil, fun _ => rfl, fun _ => by simp [core, new],
    fun h => absurd h Bool.false_ne_true, fun h => ⟨h, rfl⟩, fun h => absurd h Bool.false_ne_true,
    rfl, fun h => absurd h Bool.false_ne_true⟩

/-- The order of the ready states. -/
def rank : ReadyState → Nat
  | .connecting => 0
  | .opened => 1
  | .closing => 2
  | .closed => 3

/-- Flags that go forward take the ready state forward. -/
theorem readyState_le_of_forward {c' : Connection} (h : Forward c.core c'.core) :
    rank c.readyState ≤ rank c'.readyState := by
  obtain ⟨hclos, hstream, hopen, hsent, hdone⟩ := h
  simp only [core] at hclos hstream hopen hsent hdone
  -- the three tests of `readyState`, in its order: each of them stays true
  have hclsg : ((c.ioStream && !c.ioOpen) || c.closeSent) →
      ((c'.ioStream && !c'.ioOpen) || c'.closeSent) := by
    intro hc
    simp only [Bool.or_eq_true, Bool.and_eq_true, Bool.not_eq_true'] at hc ⊢
    rcases hc with ⟨hs, ho⟩ | hx
    · exact .inl ⟨hstream hs, hopen hs ho⟩
    · exact .inr (hsent hx)
  unfold readyState
  split_ifs <;> simp_all [rank]

/-- The promises of the close handshake: no guard fires, there is at most one close frame and
    nothing is queued after it, and "close" is emitted at most once. -/
structure CloseKept (c : Connection) : Prop where
  noGuard : c.guards = []
  closeLast : ∀ before after, c.queued = before ++ closeFrame :: after → after = []
  closeOnce : c.queued.count closeFrame ≤ 1
  signalOnce : c.closeSignals ≤ 1

theorem closeKept_of_coreInv (h : CoreInv c.core) : c.CloseKept := by
  have hqueue : closeFrame ∉ c.queued ∨
      ∃ before, c.queued = before ++ [closeFrame] ∧ closeFrame ∉ before := by
    cases hsent : c.closeSent with
    | false => exact .inl (h.queuedOpen hsent)
    | true => exact .inr (h.queuedClosed hsent)
  refine ⟨h.guards, ?_, ?_, ?_⟩
  · intro before after heq
    rcases hqueue with hnone | ⟨first, hq, hnone⟩
    · exact absurd (by rw [heq]; simp) hnone
    by_contra hafter
    -- a close frame before the last one would be among the first ones
    obtain ⟨init, last, rfl⟩ := (eq_nil_or_concat after).resolve_left hafter
    rw [heq, concat_eq_append, ← cons_append, ← append_assoc] at hq
    have hinit := (append_inj' hq rfl).1
    exact hnone (by rw [← hinit]; simp)
  · rcases hqueue with hnone | ⟨first, hq, hnone⟩
    · rw [count_eq_zero.mpr hnone]
      exact Nat.zero_le 1
    · rw [hq, count_append, count_eq_zero.mpr hnone, count_singleton_self]
  · have hsignals : c.closeSignals = if c.ioClosed then 1 else 0 := h.signals
    rw [hsignals]
    split <;> omega

/-- **Close handshake.** In every run whose events are admitted by `CloseOk`, in every state
    reached: the promises are kept, and the next event takes the ready state forward. -/
theorem run_close_handshake (serverSide ioStream : Bool) (random : Nat → UInt32)
    (events : List Event) (hok : RunOk step CloseOk (new serverSide ioStream random) events) :
    (Lib.run step (new serverSide ioStream random) events).CloseKept ∧
      ∀ before e after, events = before ++ e :: after →
        rank (Lib.run step (new serverSide ioStream random) before).readyState ≤
          rank (Lib.run step (new serverSide ioStream random) (before ++ [e])).readyState := by
  have hinv : ∀ es, RunOk step CloseOk (new serverSide ioStream random) es →
      CoreInv (Lib.run step (new serverSide ioStream random) es).core := fun es hes =>
    run_invariant (fun c => CoreInv c.core)
      (fun c e h he => (Good.step ⟨h, Forward.refl _⟩ e he).1)
      (coreInv_new serverSide ioStream random) hes
  refine ⟨closeKept_of_coreInv (hinv events hok), ?_⟩
  intro before e after heq
  rw [heq, runOk_append] at hok
  obtain ⟨hbefore, he, -⟩ := hok
  rw [run_append]
  exact readyState_le_of_forward (Good.step ⟨hinv before hbefore, Forward.refl _⟩ e he).2

/-- A server whose peer sends a ping and then closes. -/
theorem run_close_handshake_ping_before_close :
    RunOk step CloseOk (new true true (fun _ => 0))
        [.startInput, .handshakeDone none 0, .input [0x89, 0, 0x88, 0], .frame, .frame,
          .closingHandled true, .output (some 2), .output (some 2), .iostreamClosed false] ∧
      (Lib.run step (new true true (fun _ => 0))
        [.startInput, .handshakeDone none 0, .input [0x89, 0, 0x88, 0], .frame, .frame,
          .closingHandled true, .output (some 2), .output (some 2),
          .iostreamClosed false]).CloseKept := by
  have hok : RunOk step CloseOk (new true true (fun _ => 0))
      [.startInput, .handshakeDone none 0, .input [0x89, 0, 0x88, 0], .frame, .frame,
        .closingHandled true, .output (some 2), .output (some 2), .iostreamClosed false] := by
    decide
  exact ⟨hok, (run_close_handshake true true (fun _ => 0) _ hok).1⟩

/-- A server whose peer closes and has a ping behind it in the same read: the ping is answered
    after the close frame was queued. -/
theorem not_closeKept_ping_behind_close :
    ¬ (Lib.run step (new true true (fun _ => 0))
      [.startInput, .handshakeDone none 0, .input [0x88, 0, 0x89, 0], .frame,
        .closingHandled true, .frame]).CloseKept := by
  intro h
  have hguard : (Lib.run step (new true true (fun _ => 0))
      [.startInput, .handshakeDone none 0, .input [0x88, 0, 0x89, 0], .frame,
        .closingHandled true, .frame]).guards = [.queue] := by decide
  exact nomatch (h.noGuard.symm.trans hguard)

end Connection

end Cockpit.WebSocket
