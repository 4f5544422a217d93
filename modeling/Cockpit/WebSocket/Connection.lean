import Cockpit.Common.Unicode
import Cockpit.WebSocket.Frame

namespace Cockpit.WebSocket

open Lib GLib

/-!
# `src/websocket/websocketconnection.c`

`Connection` is `WebSocketConnectionPrivate` with the observable effects of the functions
beside it: what was handed to the output stream, which signals were emitted, and which of the
`close_sent` guards fired.

Two functions emit a signal in their middle and act on what its handlers did:
`web_socket_connection_close` ("closing") and `_web_socket_connection_error_and_close`
("error").  Handlers may call back into the connection, so each of them is cut in two at the
signal: the first half puts what is left to do onto `pending`, and the second half takes it
from there once the handlers have returned.
-/

/-- `WebSocketState` -/
inductive ReadyState where
  | connecting
  | opened
  | closing
  | closed
  deriving DecidableEq, Repr

/-- `WebSocketDataType` -/
inductive DataType where
  | text
  | binary
  deriving DecidableEq, Repr

/-- A `GError`, as far as closing looks at it; a TLS error with the close data it leads to. -/
inductive Error where
  | webSocket (code : UInt16)
  | tls (data : Option Bytes)
  | other

/-- The second half of a function that waits for signal handlers to return. -/
inductive Pending where
  | closing (code : UInt16) (data : Option Bytes)
  | error (err : Error) (prejudice : Bool) (stopInput : Bool)

/-- A `Frame` of the outgoing queue. -/
structure OutFrame where
  data : Bytes
  last : Bool
  sent : Nat
  amount : Nat

/-- What a call of `_web_socket_connection_queue` was about. -/
inductive QueueKind where
  | handshake
  | frame (opcode : UInt8)
  deriving DecidableEq, Repr

/-- A guard `g_return_if_fail (close_sent == FALSE)`, by the function it stands in. -/
inductive Guard where
  | queue
  | close
  deriving DecidableEq, Repr

/-- `WebSocketConnectionPrivate`, with the client's `cancellable` and what can be observed. -/
structure Connection where
  serverSide : Bool
  handshakeDone : Bool
  peerCloseCode : UInt16
  peerCloseData : Option Bytes
  closeSent : Bool
  closeReceived : Bool
  dirtyClose : Bool
  closeTimeout : Bool
  startIdle : Bool
  ioStream : Bool
  ioOpen : Bool
  ioClosed : Bool
  inputSource : Bool
  incoming : Bytes
  outputSource : Bool
  outgoing : List OutFrame
  messageOpcode : UInt8
  messageData : Option Bytes
  /-- Whether `g_io_stream_close_async` is under way. -/
  closeAsync : Bool
  /-- Whether the client's connect was cancelled. -/
  cancelled : Bool
  /-- What `g_random_int` returns, call by call, and how often it was called. -/
  random : Nat → UInt32
  randomUsed : Nat
  pending : List Pending
  /-- The bytes handed to the output stream. -/
  written : Bytes
  /-- The frames that were queued, in the order of the calls. -/
  queued : List QueueKind
  guards : List Guard
  /-- The `message` signals. -/
  delivered : List (UInt8 × Bytes)
  /-- The number of `close` signals. -/
  closeSignals : Nat

namespace Connection

/-- A new connection: a client that has yet to connect, or one for an existing stream. -/
def new (serverSide ioStream : Bool) (random : Nat → UInt32) : Connection where
  serverSide := serverSide
  handshakeDone := false
  peerCloseCode := 0
  peerCloseData := none
  closeSent := false
  closeReceived := false
  dirtyClose := false
  closeTimeout := false
  startIdle := ioStream
  ioStream := ioStream
  ioOpen := ioStream
  ioClosed := false
  inputSource := false
  incoming := []
  outputSource := false
  outgoing := []
  messageOpcode := 0
  messageData := none
  closeAsync := false
  cancelled := false
  random := random
  randomUsed := 0
  pending := []
  written := []
  queued := []
  guards := []
  delivered := []
  closeSignals := 0

/-- `web_socket_connection_get_ready_state` -/
def readyState (c : Connection) : ReadyState :=
  if c.ioClosed then .closed
  else if (c.ioStream && !c.ioOpen) || c.closeSent then .closing
  else if c.handshakeDone then .opened
  else .connecting

/-! ### Output -/

/-- An urgent frame goes to the front, but not before a frame that is partially sent. -/
def pushUrgent (frame : OutFrame) : List OutFrame → List OutFrame
  | [] => [frame]
  | prev :: rest => if prev.sent > 0 then prev :: frame :: rest else frame :: prev :: rest

/-- `_web_socket_connection_queue` -/
def queue (c : Connection) (kind : QueueKind) (urgent last : Bool) (data : Bytes)
    (amount : Nat) : Connection :=
  if c.closeSent then { c with guards := c.guards ++ [.queue] }
  else
    let frame : OutFrame := ⟨data, last, 0, amount⟩
    { c with
      outgoing := if urgent then pushUrgent frame c.outgoing else c.outgoing ++ [frame]
      queued := c.queued ++ [kind]
      outputSource := true }

variable {c : Connection}

/-- Before the close frame, the guard does not fire. -/
theorem queue_of_unsent (h : c.closeSent = false) (kind : QueueKind)
    (urgent last : Bool) (data : Bytes) (amount : Nat) :
    c.queue kind urgent last data amount = { c with
        outgoing := if urgent then pushUrgent ⟨data, last, 0, amount⟩ c.outgoing
          else c.outgoing ++ [⟨data, last, 0, amount⟩]
        queued := c.queued ++ [kind]
        outputSource := true } :=
  if_neg (by rw [h]; exact Bool.false_ne_true)

/-- The mask of the next frame: none on the server side. -/
def nextMask (c : Connection) : Option UInt32 :=
  if c.serverSide then none else some (c.random c.randomUsed)

/-- What a frame carries: a control message is truncated. -/
def frameContent (opcode : UInt8) (pref payload : Bytes) : Bytes :=
  if opcode &&& 0x08 != 0 && 125 < payload.length + pref.length then (pref ++ payload).take 125
  else pref ++ payload

/-- `send_prefixed_message_rfc6455` -/
def sendPrefixedMessage (c : Connection) (urgent last : Bool) (opcode : UInt8)
    (pref payload : Bytes) : Connection :=
  let amount := if opcode &&& 0x08 != 0 then 0 else payload.length + pref.length
  let data := (RawFrame.mk opcode c.nextMask (frameContent opcode pref payload)).encode
  ({ c with randomUsed := if c.serverSide then c.randomUsed else c.randomUsed + 1 } :
    Connection).queue (.frame opcode) urgent last data amount

/-- The frame that `send_prefixed_message_rfc6455` queues. -/
def queuedFrame (c : Connection) (last : Bool) (opcode : UInt8) (pref payload : Bytes) : OutFrame :=
  ⟨(RawFrame.mk opcode c.nextMask (frameContent opcode pref payload)).encode, last, 0,
    if opcode &&& 0x08 != 0 then 0 else payload.length + pref.length⟩

/-- Before the close frame, `send_prefixed_message_rfc6455` queues one frame. -/
theorem sendPrefixedMessage_eq (h : c.closeSent = false) (urgent last : Bool)
    (opcode : UInt8) (pref payload : Bytes) :
    c.sendPrefixedMessage urgent last opcode pref payload = { c with
        randomUsed := if c.serverSide then c.randomUsed else c.randomUsed + 1
        outgoing := if urgent then pushUrgent (c.queuedFrame last opcode pref payload) c.outgoing
          else c.outgoing ++ [c.queuedFrame last opcode pref payload]
        queued := c.queued ++ [.frame opcode]
        outputSource := true } := by
  refine Eq.trans (queue_of_unsent ?_ _ urgent last _ _) rfl
  exact h

/-- `send_close_rfc6455`; what its buffer cannot hold is truncated with the frame. -/
def sendClose (c : Connection) (urgent last : Bool) (code : UInt16) (reason : Option Bytes) :
    Connection :=
  let buffer := if code = 0 then [] else (code >>> 8).toUInt8 :: code.toUInt8 :: reason.getD []
  { c.sendPrefixedMessage urgent last 0x08 [] buffer with closeSent := true }

/-- `stop_output` and the shutdown of `shutdown_wr_io_stream` -/
def shutdownWrIoStream (c : Connection) : Connection := { c with outputSource := false }

/-- `close_io_stream`; the signal's class handler cancels a client's connect. -/
def closeIoStream (c : Connection) : Connection :=
  let c := { c with closeTimeout := false, startIdle := false }
  if !c.ioStream && !c.ioClosed then
    { c with ioClosed := true, closeSignals := c.closeSignals + 1, cancelled := true }
  else if c.ioOpen then
    { c with inputSource := false, outputSource := false, ioOpen := false, closeAsync := true }
  else c

/-- `on_iostream_closed` -/
def onIostreamClosed (c : Connection) (failed : Bool) : Connection :=
  { c with
    closeAsync := false
    ioClosed := true
    dirtyClose := c.dirtyClose || failed
    closeSignals := c.closeSignals + 1
    cancelled := true }

/-! ### Errors and closing -/

/-- `_web_socket_connection_error_and_close` up to the signal; `stopInput` tells whether the
    caller stops the input afterwards. -/
def errorAndClose (c : Connection) (err : Error) (prejudice stopInput : Bool) : Connection :=
  let c := match err with
    | .tls data =>
      if c.serverSide then c else { c with peerCloseCode := 1015, peerCloseData := data }
    | _ => c
  if c.readyState = .closed then { c with inputSource := c.inputSource && !stopInput }
  else { c with dirtyClose := true, pending := .error err prejudice stopInput :: c.pending }

/-- `_web_socket_connection_error_and_close` from the signal on. -/
def errorHandled (c : Connection) (err : Error) (prejudice stopInput : Bool) : Connection :=
  let code := match err with
    | .webSocket code => code
    | _ => 1001
  let prejudice := prejudice || !c.handshakeDone
  let ignore := match c.readyState with
    | .closed => true
    | .closing => !prejudice
    | _ => false
  let c :=
    if ignore then c
    else if prejudice then c.closeIoStream
    else c.sendClose true true code none
  { c with inputSource := c.inputSource && !stopInput }

/-- `protocol_error_and_close` -/
def protocolErrorAndClose (c : Connection) : Connection :=
  c.errorAndClose (.webSocket 1002) false false

/-- `bad_data_error_and_close` -/
def badDataErrorAndClose (c : Connection) : Connection :=
  c.errorAndClose (.webSocket 1007) false false

/-- `too_big_error_and_close` -/
def tooBigErrorAndClose (c : Connection) : Connection :=
  c.errorAndClose (.webSocket 1009) true true

/-- `web_socket_connection_close` up to the signal. -/
def close (c : Connection) (code : UInt16) (data : Option Bytes) : Connection :=
  if c.closeSent then { c with guards := c.guards ++ [.close] }
  else { c with pending := .closing code data :: c.pending }

/-- `web_socket_connection_close` from the signal on. -/
def closingHandled (c : Connection) (code : UInt16) (data : Option Bytes) (handled : Bool) :
    Connection :=
  if !handled then c
  else if c.handshakeDone then
    { c.sendClose false (c.serverSide && c.closeReceived) code data with closeTimeout := true }
  else c.closeIoStream

/-- `on_web_socket_output`, by what the write returns: an error, or a number of bytes, zero when
    it would block. -/
def onOutput (c : Connection) (count : Option Nat) : Connection :=
  match c.outgoing with
  | [] => { c with outputSource := false }
  | frame :: rest =>
    match count with
    | none => c.errorAndClose .other true false
    | some count =>
      let count := min count (frame.data.length - frame.sent)
      let c := { c with written := c.written ++ (frame.data.drop frame.sent).take count }
      if frame.sent + count ≥ frame.data.length then
        let c := { c with outgoing := rest }
        if !frame.last then c
        else if c.serverSide then c.closeIoStream
        else { c.shutdownWrIoStream with closeTimeout := true }
      else { c with outgoing := { frame with sent := frame.sent + count } :: rest }

/-! ### Input -/

/-- `receive_close_rfc6455` -/
def receiveClose (c : Connection) (data : Bytes) : Connection :=
  let code : UInt16 := match data with
    | b0 :: b1 :: _ => (b0.toUInt16 <<< 8) ||| b1.toUInt16
    | _ => 0
  let rest := data.drop 2
  let c := { c with
    closeReceived := true
    peerCloseCode := code
    peerCloseData :=
      if data.length > 2 && utf8Validate rest == rest.length then some rest else none }
  if c.closeSent then
    if c.serverSide then c.shutdownWrIoStream.closeIoStream else c.shutdownWrIoStream
  else c.close c.peerCloseCode none

/-- `receive_ping_rfc6455` -/
def receivePing (c : Connection) (data : Bytes) : Connection :=
  c.sendPrefixedMessage true false 0x0A [] data

/-- The part of `process_contents_rfc6455` about message frames. -/
def processMessage (c : Connection) (fin : Bool) (opcode : UInt8) (payload : Bytes) :
    Connection :=
  -- an initial or only fragment while a message is assembled, or another one while none is
  if (opcode != 0) == c.messageData.isSome then c.protocolErrorAndClose
  else
    let c := if opcode != 0 then { c with messageOpcode := opcode, messageData := some [] } else c
    if c.messageOpcode = 1 && utf8Validate payload != payload.length then
      ({ c with messageOpcode := 0, messageData := none } : Connection).badDataErrorAndClose
    else
      let known := c.messageOpcode = 1 || c.messageOpcode = 2
      let message := c.messageData.getD [] ++ if known then payload else []
      if fin then
        { c with
          messageOpcode := 0
          messageData := none
          delivered := c.delivered ++ [(c.messageOpcode, message)] }
      else { c with messageData := some message }

/-- A message frame is refused, or the rest of the connection is left alone. -/
theorem processMessage_cases (c : Connection) (fin : Bool) (opcode : UInt8) (payload : Bytes) :
    c.processMessage fin opcode payload = c.protocolErrorAndClose ∨ ∃ o m,
      c.processMessage fin opcode payload =
        ({ c with messageOpcode := o, messageData := m } : Connection).badDataErrorAndClose ∨
      ∃ l, c.processMessage fin opcode payload =
        { c with messageOpcode := o, messageData := m, delivered := l } := by
  unfold processMessage
  split
  · exact .inl rfl
  right
  by_cases hinitial : opcode != 0
  all_goals
    simp only [hinitial, if_true, if_false, Bool.false_eq_true]
    split
    · exact ⟨0, none, .inl rfl⟩
    split <;> exact ⟨_, _, .inr ⟨_, rfl⟩⟩

/-- `process_contents_rfc6455` -/
def processContents (c : Connection) (contents : Contents) : Connection :=
  if contents.control then
    if !contents.fin then c.protocolErrorAndClose
    else if contents.opcode = 0x08 then c.receiveClose contents.payload
    else if contents.opcode = 0x09 then c.receivePing contents.payload
    else c
  else if c.closeReceived then c
  else c.processMessage contents.fin contents.opcode contents.payload

/-- `process_frame_rfc6455`, with what it returns. -/
def processFrame (c : Connection) : Connection × Bool :=
  match scanFrame c.incoming with
  | .more => (c, false)
  | .fail => (c.tooBigErrorAndClose, false)
  | .item n contents =>
    (({ c with incoming := c.incoming.drop n } : Connection).processContents contents, true)

/-! ### The frame loop -/

@[simp] theorem queue_incoming (c : Connection) (kind : QueueKind) (urgent last : Bool)
    (data : Bytes) (amount : Nat) : (c.queue kind urgent last data amount).incoming = c.incoming := by
  unfold queue
  split <;> rfl

@[simp] theorem closeIoStream_incoming (c : Connection) : c.closeIoStream.incoming = c.incoming := by
  simp only [closeIoStream]
  split
  · rfl
  · split <;> rfl

@[simp] theorem errorAndClose_incoming (c : Connection) (err : Error) (prejudice stop : Bool) :
    (c.errorAndClose err prejudice stop).incoming = c.incoming := by
  simp only [errorAndClose]
  cases err with
  | tls data => cases hs : c.serverSide <;> simp only [if_true, Bool.false_eq_true, if_false] <;> split <;> rfl
  | webSocket code | other => dsimp only; split <;> rfl

@[simp] theorem processContents_incoming (c : Connection) (contents : Contents) :
    (c.processContents contents).incoming = c.incoming := by
  simp only [processContents, protocolErrorAndClose, receiveClose, receivePing, processMessage,
    badDataErrorAndClose, sendPrefixedMessage, close, shutdownWrIoStream]
  split_ifs <;> simp

/-- A processed frame is gone from the buffer. -/
theorem processFrame_incoming_lt (h : c.processFrame.2) :
    c.processFrame.1.incoming.length < c.incoming.length := by
  unfold processFrame at h ⊢
  split at h
  · exact nomatch h
  · exact nomatch h
  rename_i n contents hscan
  have := scanFrame_item hscan
  rw [processContents_incoming, List.length_drop]
  omega

/-- `process_incoming` once the handshake is done.  The loop is left where a signal handler has
    to return first. -/
def processIncoming (c : Connection) : Connection :=
  if _h : c.processFrame.2 = true then
    if c.processFrame.1.pending.isEmpty then processIncoming c.processFrame.1
    else c.processFrame.1
  else c.processFrame.1
  termination_by c.incoming.length
  decreasing_by exact processFrame_incoming_lt _h

/-! ### Calls from outside -/

/-- `web_socket_connection_send`, when the connection is open. -/
def send (c : Connection) (type : DataType) (pref message : Bytes) : Connection :=
  if c.readyState ≠ .opened then c
  else
    match type with
    | .text =>
      if utf8Validate pref != pref.length || utf8Validate message != message.length then c
      else c.sendPrefixedMessage false false 0x01 pref message
    | .binary => c.sendPrefixedMessage false false 0x02 pref message

end Connection

end Cockpit.WebSocket
