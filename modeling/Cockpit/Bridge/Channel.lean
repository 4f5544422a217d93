import Cockpit.Common.Json
import Cockpit.Common.Unicode

namespace Cockpit

open Unicode Json

/-!
# `src/bridge/cockpitchannel.c` — the server side of a channel

`Channel` is `CockpitChannelPrivate` together with the parts of its surroundings that the
functions act on: the timeout sources of the main loop (`sources`), the messages the
transport still holds for the channel (`held`), and the messages handed to
`cockpit_transport_send` so far (`sent`).

Derived classes override `prepare`, `recv`, `control` and `close`.  What they do is not
fixed here: an override is any sequence of the calls of `Channel.Event`.  A class whose
`close` does not chain up to `cockpit_channel_real_close` at once is modelled by
`chain = false` and a later `Event.chainUp`.

`cockpit_channel_ready` thaws the channel and only then sends "ready", and every frozen
message that the thaw delivers runs handlers in between.  So one call is three kinds of
events: `ready` opens it, `thawed` delivers the next frozen message, `readyDone` returns
from the thaw and sends the control message.
-/

/-- A message handed to `cockpit_transport_send`: payload on the channel, or a control message
    about it. -/
inductive Wire where
  | payload (data : Bytes)
  | control (command : String) (message : JsonObject)
  deriving Repr

/-- A message that the transport delivers to the channel. -/
inductive Incoming where
  | recv (payload : Bytes)
  | control (command : String) (options : JsonObject)
  deriving Repr

/-- `CockpitChannelPrivate` and its surroundings. -/
structure Channel where
  id : String
  openOptions : JsonObject
  capabilities : Option (List String)
  /-- `G_OBJECT_TYPE (channel) == COCKPIT_TYPE_CHANNEL`: the class of unsupported payloads. -/
  isBaseType : Bool
  recvSig : Bool
  controlSig : Bool
  closeSig : Bool
  prepared : Bool
  prepareTag : Bool
  sentClose : Bool
  emittedClose : Bool
  transportClosed : Bool
  sentDone : Bool
  receivedDone : Bool
  binaryOk : Bool
  closeOptions : Option JsonObject
  outBuffer : Option Bytes
  /-- The id of the flush timeout, `0` when none is set. -/
  bufferTimeout : Nat
  /-- The ids of the timeout sources that the main loop holds. -/
  sources : List Nat
  lastSource : Nat
  /-- Whether the transport freezes the channel, and what it holds for it. -/
  frozen : Bool
  held : List Incoming
  /-- The `cockpit_channel_ready` calls in progress, innermost first: the control message each
      of them will send, and the frozen messages its thaw has yet to deliver. -/
  readying : List (Option JsonObject × List Incoming)
  sent : List Wire
  /-- The problems of the `closed` signals emitted. -/
  closedSignals : List (Option String)
  deriving Repr

namespace Channel

/-- `cockpit_channel_constructed`: signals connected, channel frozen, `prepare` scheduled. -/
def new (id : String) (options : JsonObject) (capabilities : Option (List String))
    (isBaseType : Bool) : Channel where
  id := id
  openOptions := options
  capabilities := capabilities
  isBaseType := isBaseType
  recvSig := true
  controlSig := true
  closeSig := true
  prepared := false
  prepareTag := true
  sentClose := false
  emittedClose := false
  transportClosed := false
  sentDone := false
  receivedDone := false
  binaryOk := false
  closeOptions := none
  outBuffer := none
  bufferTimeout := 0
  sources := []
  lastSource := 0
  frozen := true
  held := []
  readying := []
  sent := []
  closedSignals := []

/-! ### Sending -/

variable (c : Channel)

/-- `cockpit_channel_actual_send` -/
def actualSend (payload : Bytes) (trustIsUtf8 : Bool) : Channel :=
  -- the two `g_return_if_fail`
  if c.outBuffer.isSome || c.bufferTimeout != 0 then c
  else
    let validated := if !trustIsUtf8 && !c.binaryOk then forceUtf8 payload else payload
    { c with sent := c.sent ++ [.payload validated] }

/-- `flush_buffer`, the callback of the timeout, which `cockpit_channel_real_close` also calls
    directly; it clears `buffer_timeout` without removing the source. -/
def flushBuffer : Channel :=
  match c.outBuffer with
  | none => c
  | some payload =>
    ({ c with outBuffer := none, bufferTimeout := 0 } : Channel).actualSend payload false

/-- `g_source_remove (self->priv->buffer_timeout)` where a timeout is set. -/
def removeTimeout : Channel :=
  { c with
    sources := if c.bufferTimeout = 0 then c.sources else c.sources.erase c.bufferTimeout
    bufferTimeout := 0 }

/-- `cockpit_channel_send` -/
def send (payload : Bytes) (trustIsUtf8 : Bool) : Channel :=
  let c := c.removeTimeout
  let sendData := c.outBuffer.getD [] ++ payload
  let trustIsUtf8 := trustIsUtf8 && c.outBuffer.isNone
  let c := { c with outBuffer := none }
  let c : Channel :=
    if !trustIsUtf8 && !c.binaryOk && hasIncompleteEnding sendData then
      { c with
        outBuffer := some sendData
        bufferTimeout := c.lastSource + 1
        lastSource := c.lastSource + 1
        sources := c.sources ++ [c.lastSource + 1] }
    else c
  if c.bufferTimeout = 0 then c.actualSend sendData trustIsUtf8 else c

/-! ### Closing -/

variable (problem : Option String)

/-- `cockpit_channel_real_close` -/
def realClose : Channel :=
  if c.sentClose then c
  else
    let c := { c with sentClose := true }
    let c : Channel :=
      if c.transportClosed then c
      else
        let c := c.flushBuffer
        let object := (c.closeOptions.getD []).setStringMember "command" "close"
        let object := object.setStringMember "channel" c.id
        let object := match problem with
          | none => object
          | some problem => object.setStringMember "problem" problem
        { c with closeOptions := none, sent := c.sent ++ [.control "close" object] }
    { c with closedSignals := c.closedSignals ++ [problem] }

/-- `cockpit_channel_close`; `chain` tells whether the class's handler chains up at once. -/
def close (chain : Bool) : Channel :=
  let c := { c with recvSig := false, controlSig := false, closeSig := false, emittedClose := true }
  if chain then c.realClose problem else c

/-- `cockpit_channel_fail` -/
def fail (problem message : String) (chain : Bool) : Channel :=
  let options := c.closeOptions.getD []
  let options :=
    if options.hasMember "message" then options else options.setStringMember "message" message
  ({ c with closeOptions := some options } : Channel).close problem chain

/-- `cockpit_channel_control` -/
def control (command : String) (options : Option JsonObject) (chain : Bool) :
    Channel :=
  if command = "close" then
    let c := { c with closeOptions := c.closeOptions.or options }
    c.close ((getString (options.getD []) "problem" none).getD none) chain
  else if command = "done" && c.sentDone then c
  else
    let object := (options.getD []).setStringMember "command" command
    let object := object.setStringMember "channel" c.id
    { c with
      sentDone := c.sentDone || command = "done"
      sent := c.sent ++ [.control command object] }

/-! ### Incoming messages -/

/-- `process_recv`; what the class's `recv` does follows as further events. -/
def processRecv (_payload : Bytes) (chain : Bool) : Channel :=
  if c.receivedDone then c.fail "protocol-error" "channel received message after done" chain
  else c

/-- `process_control`; what the class's `control` does follows as further events. -/
def processControl (command : String) (options : JsonObject) (chain : Bool) :
    Channel :=
  if command = "close" then
    c.close ((getString options "problem" none).getD none) chain
  else if command = "done" then
    if c.receivedDone then c.fail "protocol-error" "channel received second done" chain
    else { c with receivedDone := true }
  else c

/-- `on_transport_recv` and `on_transport_control`, while they are connected. -/
def deliver (m : Incoming) (chain : Bool) : Channel :=
  match m with
  | .recv payload => if c.recvSig then c.processRecv payload chain else c
  | .control command options =>
    if c.controlSig then c.processControl command options chain else c

/-- `on_transport_closed`, while it is connected. -/
def onTransportClosed (chain : Bool) : Channel :=
  if !c.closeSig then c
  else
    let c := { c with transportClosed := true }
    if c.emittedClose then c else c.close (problem.getD "disconnected") chain

/-! ### Preparing and disposing -/

variable (chain : Bool)

/-- `cockpit_channel_ensure_capable` -/
def ensureCapable : Channel × Bool :=
  match getStrv c.openOptions "capabilities" with
  | none =>
    (c.fail "protocol-error" "got invalid capabilities field in open message" chain, false)
  | some none => (c, true)
  | some (some wanted) =>
    if wanted.all (fun w => (c.capabilities.getD []).contains w) then (c, true)
    else
      let arr := Json.array ((c.capabilities.getD []).map .string)
      let options := (c.closeOptions.getD []).setMember "capabilities" arr
      (({ c with closeOptions := some options } : Channel).close "not-supported" chain, false)

/-- `cockpit_channel_real_prepare` -/
def realPrepare : Channel :=
  let (c, capable) := c.ensureCapable chain
  if !capable then c
  else if c.isBaseType then c.close "not-supported" chain
  else
    match getString c.openOptions "binary" none with
    | none => c.fail "protocol-error" "channel has invalid \"binary\" option" chain
    | some none => c
    | some (some binary) =>
      let c := { c with binaryOk := true }
      if binary = "raw" then c
      else c.fail "protocol-error" ("channel has invalid \"binary\" option: " ++ binary) chain

/-- `cockpit_channel_prepare` -/
def prepare : Channel :=
  if c.prepared then c
  else
    let c := { c with prepareTag := false, prepared := true }
    if c.emittedClose then c else c.realPrepare chain

/-- `cockpit_channel_dispose` -/
def dispose : Channel :=
  let c := { c with prepareTag := false, recvSig := false, controlSig := false, closeSig := false }
  let c := if c.emittedClose then c else c.close "terminated" chain
  { c.removeTimeout with outBuffer := none }

/-! ### Events -/

/-- What can happen to a channel. -/
inductive Event where
  | prepare (chain : Bool)
  /-- A message for the channel reaches the transport. -/
  | incoming (m : Incoming) (chain : Bool)
  | ready (message : Option JsonObject)
  | thawed (chain : Bool)
  | readyDone
  | send (payload : Bytes) (trustIsUtf8 : Bool)
  | control (command : String) (options : Option JsonObject) (chain : Bool)
  | close (problem : Option String) (chain : Bool)
  | chainUp (problem : Option String)
  | fail (problem message : String) (chain : Bool)
  /-- The main loop dispatches a timeout source; `flush_buffer` returns `FALSE`. -/
  | timeout (source : Nat)
  | transportClosed (problem : Option String) (chain : Bool)
  | dispose (chain : Bool)
  deriving Repr

/-- One event; an event that is not possible in the state changes nothing. -/
def step : Event → Channel
  | .prepare chain => c.prepare chain
  | .incoming m chain => if c.frozen then { c with held := c.held ++ [m] } else c.deliver m chain
  | .ready message =>
    { c with
      frozen := false
      held := []
      readying := (message, c.held) :: c.readying }
  | .thawed chain =>
    match c.readying with
    | (message, m :: rest) :: outer =>
      ({ c with readying := (message, rest) :: outer } : Channel).deliver m chain
    | _ => c
  | .readyDone =>
    match c.readying with
    | (message, []) :: outer =>
      ({ c with readying := outer } : Channel).control "ready" message true
    | _ => c
  | .send payload trust => c.send payload trust
  | .control command options chain => c.control command options chain
  | .close problem chain => c.close problem chain
  | .chainUp problem => c.realClose problem
  | .fail problem message chain => c.fail problem message chain
  | .timeout source =>
    if c.sources.contains source then
      ({ c with sources := c.sources.erase source } : Channel).flushBuffer
    else c
  | .transportClosed problem chain => c.onTransportClosed problem chain
  | .dispose chain => c.dispose chain

end Channel

end Cockpit
