import Cockpit.Common.Json
import Cockpit.Lib.Run

namespace Cockpit.Page

/-!
# `src/base1/cockpit.js`: channels and their transports

All channels and transports of a page are numbered in the order in which they are made.  A
function of a channel works on the channel and on the one transport that `ensure_transport`
picked for it.

Application code runs from the event loop or inside of a handler that this code calls, and
whatever it calls runs at once, on top of what is still to be done.  What is still to be done
is a stack of `Task`s, and `Event.resume` takes the next step of the topmost one.  Application
code may run between any two of these steps, which includes all the places where `dispatchEvent`
and `init_callback` call it.
-/

/-! ## Values -/

/-- A JavaScript value as a condition. -/
def truthy : Option Json → Bool
  | none => false
  | some .null => false
  | some (.bool b) => b
  | some (.int n) => n != 0
  | some (.string s) => s != ""
  | some (.array _) => true
  | some (.object _) => true

/-- Whether a member is the string `s`. -/
def isString (member : Option Json) (s : String) : Bool :=
  match member with
  | some (.string t) => t == s
  | _ => false

/-- `data.command == command` -/
def hasCommand (data : JsonObject) (command : String) : Bool :=
  isString (data.getMember "command") command

/-- The key under which `control_cbs[data.channel]` looks; a list or an object names no channel. -/
def channelKey (data : JsonObject) : Option String :=
  match data.getMember "channel" with
  | none => none
  | some (.string s) => some s
  | some (.int n) => some (toString n)
  | some .null => some "null"
  | some (.bool true) => some "true"
  | some (.bool false) => some "false"
  | some (.array _) => none
  | some (.object _) => none

/-- The `id` of a channel in an object; it is `null` before the channel is registered. -/
def idValue : Option String → Json
  | none => .null
  | some id => .string id

/-- What is passed to `channel.send`: a string, or something else along with the text that
    `String(payload)` makes of it. -/
inductive Payload where
  | string (s : String)
  | other (data : List UInt8) (text : String)
  deriving DecidableEq

/-- `String(payload)` unless it is one already. -/
def Payload.toText : Payload → Payload
  | .string s => .string s
  | .other _ text => .string text

/-- What a channel queues: `[true, options]` or `[false, payload]`. -/
inductive Item where
  | control (options : JsonObject)
  | payload (payload : Payload)

/-- What a channel hands to its transport: `send_control(data)` or `send_message(payload, id)`. -/
inductive Message where
  | control (data : JsonObject)
  | payload (channel : Option String) (payload : Payload)

/-! ## State -/

structure Channel where
  options : JsonObject
  binary : Bool
  /-- The transport in the closure that `ensure_transport` calls back. -/
  home : Nat
  /-- Whether that call was made, and `transport` is set. -/
  transport : Bool := false
  closed : Option JsonObject := none
  receivedDone : Bool := false
  sentDone : Bool := false
  id : Option String := none
  valid : Bool := true
  queue : List Item := []
  /-- History: the messages of the calls of `send`, `control` and `close` that were not refused. -/
  calls : List Item := []
  /-- History: what was handed to the transport. -/
  handed : List Message := []
  /-- History: for each `close` event, how many messages were handed to the transport before. -/
  closeEvents : List Nat := []

/-- A function registered for `ready`: the callback of a channel, of `cockpit.transport.control`
    or another one. -/
inductive Listener where
  | channel (c : Nat)
  | control (data : JsonObject)
  | callback
  deriving Repr

/-- How `new Transport()` reaches the server: through the parent window, with a socket of its
    own, or not at all. -/
inductive Socket where
  | parent
  | own
  | missing
  deriving DecidableEq

structure Transport where
  socket : Socket
  /-- Whether `ws` is not `null`. -/
  ws : Bool := true
  /-- Whether `check_health_timer` has not been cleared. -/
  timer : Bool
  ignoreHealthCheck : Bool := false
  gotMessage : Bool := false
  waitingForInit : Bool := true
  ready : Bool := false
  lastChannel : Nat := 0
  channelSeed : String := ""
  /-- `control_cbs` and `message_cbs`, which have the same keys. -/
  callbacks : AList (fun _ : String => Nat) := ∅
  /-- The handlers of `ready`. -/
  listeners : List Listener := []
  /-- What went to `ws.send`. -/
  sent : List Message := []
  /-- History: whether a broadcast of a close has begun. -/
  broadcast : Bool := false
  /-- History: whether `close` has returned from a broadcast. -/
  returned : Bool := false

/-- What a function that called application code, or is about to, still has to do. -/
inductive Task where
  /-- `invoke_functions` of the handlers of `ready`. -/
  | listeners (t : Nat) (rest : List Listener)
  /-- `Transport.close` after `ows.close()`. -/
  | close (t : Nat) (options : JsonObject)
  /-- `Transport.close` after `ready_for_channels()`. -/
  | startBroadcast (t : Nat) (options : JsonObject)
  /-- The loop of `Transport.close` over the keys that it has not seen yet. -/
  | broadcast (t : Nat) (options : JsonObject) (keys : List String)
  /-- `process_init` after `init_callback`. -/
  | initialized (t : Nat)
  /-- `cockpit.transport.close` after `default_transport.close`. -/
  | forget

structure State where
  /-- How this page reaches the server. -/
  socket : Socket
  channels : List Channel := []
  transports : List Transport := []
  defaultTransport : Option Nat := none
  reloadAfterDisconnect : Bool := false
  expectDisconnect : Bool := false
  defaultHost : Option Json := none
  stack : List Task := []

/-! ## Transports -/

namespace Transport

/-- `Transport`, up to the callbacks of the socket. -/
def make (socket : Socket) : Transport :=
  { socket, timer := match socket with | .parent => false | .own => true | .missing => true }

variable (t : Transport)

/-- Whether `check_health_timer` was ever set. -/
def hasTimer : Bool :=
  match t.socket with
  | .parent => false
  | .own => true
  | .missing => true

/-- `send_data` -/
def sendData (message : Message) : Transport :=
  if !t.ws then t else { t with sent := t.sent ++ [message] }

/-- `send_message` -/
def sendMessage (payload : Payload) (channel : Option String) : Transport :=
  t.sendData (.payload channel payload)

/-- `send_control` -/
def sendControl (data : JsonObject) : Transport :=
  if !t.ws && (hasCommand data "close" || hasCommand data "kill") then t
  else if t.hasTimer && hasCommand data "hint" &&
      isString (data.getMember "hint") "ignore_transport_health_check" then
    { t with ignoreHealthCheck := truthy (data.getMember "data") }
  else t.sendData (.control data)

/-- What `next_channel` returns. -/
def nextId : String := t.channelSeed ++ toString (t.lastChannel + 1)

/-- `next_channel` -/
def nextChannel : Transport := { t with lastChannel := t.lastChannel + 1 }

/-- `register` -/
def register (id : String) (c : Nat) : Transport :=
  { t with callbacks := t.callbacks.insert id c }

/-- `unregister` -/
def unregister (id : String) : Transport :=
  { t with callbacks := t.callbacks.erase id }

end Transport

/-! ## Channels -/

namespace Channel

/-- `Channel`, up to `ensure_transport`. -/
def make (options : JsonObject) (home : Nat) : Channel :=
  { options, home,
    binary := match options.getMember "binary" with | some (.bool true) => true | _ => false }

variable (x : Channel × Transport) (data : JsonObject)

/-- `transport.send_control` from a channel. -/
def sendControl : Channel × Transport :=
  ({ x.1 with handed := x.1.handed ++ [.control data] }, x.2.sendControl data)

/-- `send_payload` -/
def sendPayload (payload : Payload) : Channel × Transport :=
  let payload := if !x.1.binary then payload.toText else payload
  ({ x.1 with handed := x.1.handed ++ [.payload x.1.id payload] }, x.2.sendMessage payload x.1.id)

/-- `on_close` -/
def onClose : Channel × Transport :=
  ({ x.1 with
      closed := some data
      valid := false
      closeEvents := x.1.closeEvents ++ [x.1.handed.length] },
    match x.1.transport, x.1.id with
    | true, some id => x.2.unregister id
    | _, _ => x.2)

/-- The `options` of `close` as an object: nothing, a problem or an object. -/
inductive CloseOptions where
  | none
  | problem (text : String)
  | object (options : JsonObject)

def CloseOptions.toObject : CloseOptions → JsonObject
  | .none => []
  | .problem text => if text == "" then [] else [("problem", .string text)]
  | .object options => options

/-- Hand a control message over, or queue it. -/
def queueControl (options : JsonObject) : Channel × Transport :=
  let channel := { x.1 with calls := x.1.calls ++ [.control options] }
  if !channel.transport then
    ({ channel with queue := channel.queue ++ [.control options] }, x.2)
  else sendControl (channel, x.2) options

/-- `close` -/
def close (x : Channel × Transport) (options : CloseOptions) : Channel × Transport :=
  if x.1.closed.isSome then x
  else
    let options := (options.toObject.setMember "command" (.string "close")).setMember "channel"
      (idValue x.1.id)
    onClose (queueControl x options) options

/-- `send` -/
def send (message : Payload) : Channel × Transport :=
  if x.1.closed.isSome then x
  else if x.1.sentDone then x
  else
    let channel := { x.1 with calls := x.1.calls ++ [.payload message] }
    if !channel.transport then
      ({ channel with queue := channel.queue ++ [.payload message] }, x.2)
    else sendPayload (channel, x.2) message

variable (options : Option JsonObject)

/-- The `command` that `control` gives to options without one. -/
def controlOptions : JsonObject :=
  let options := options.getD []
  if truthy (options.getMember "command") then options
  else options.setMember "command" (.string "options")

/-- `control` -/
def control : Channel × Transport :=
  let options := controlOptions options
  let channel := if hasCommand options "done" then { x.1 with sentDone := true } else x.1
  queueControl (channel, x.2) (options.setMember "channel" (idValue x.1.id))

/-- `on_message` -/
def onMessage : Channel × Transport :=
  if x.1.receivedDone then close x (.problem "protocol-error") else x

/-- `on_control` -/
def onControl : Channel × Transport :=
  if hasCommand data "close" then onClose x data
  else if hasCommand data "done" && x.1.receivedDone then close x (.problem "protocol-error")
  else if hasCommand data "done" then ({ x.1 with receivedDone := true }, x.2)
  else x

/-- The `open` command of a channel. -/
def openCommand (channel : Channel) (defaultHost : Option Json) (id : String) : JsonObject :=
  let command := (channel.options.setMember "command" (.string "open")).setMember "channel"
    (.string id)
  let command :=
    if truthy (command.getMember "host") then command
    else match defaultHost with
      | some host => command.setMember "host" host
      | none => command
  if channel.binary then command.setMember "binary" (.string "raw")
  else command.removeMember "binary"

/-- One turn of the loop that drains the queue. -/
def drainItem : Item → Channel × Transport
  | .control options => sendControl x (options.setMember "channel" (idValue x.1.id))
  | .payload payload => sendPayload x payload

/-- The function that a channel gives to `ensure_transport`. -/
def onTransport (c : Nat) (defaultHost : Option Json) (x : Channel × Transport) :
    Channel × Transport :=
  let channel := { x.1 with transport := true }
  if channel.closed.isSome then (channel, x.2)
  else
    let id := x.2.nextId
    let opened := sendControl ({ channel with id := some id, queue := [] },
      x.2.nextChannel.register id c) (channel.openCommand defaultHost id)
    channel.queue.foldl drainItem opened

end Channel

/-! ## The page -/

namespace State

variable (s : State)

/-- Run a function of the channel `c`. -/
def onChannel (c : Nat) (f : Channel × Transport → Channel × Transport) : State :=
  match s.channels[c]? with
  | none => s
  | some channel =>
    match s.transports[channel.home]? with
    | none => s
    | some transport =>
      { s with
        channels := s.channels.set c (f (channel, transport)).1
        transports := s.transports.set channel.home (f (channel, transport)).2 }

variable (t : Nat)

/-- Change the variables of the transport `t`. -/
def onTransport (f : Transport → Transport) : State :=
  { s with transports := s.transports.modify t f }

/-- Call a function that waits for the transport `t`. -/
def callListener : Listener → State
  | .channel c => s.onChannel c (Channel.onTransport c s.defaultHost)
  | .control data => s.onTransport t (·.sendControl data)
  | .callback => s

/-- `ensure_transport`, when there is a default transport. -/
def whenReady (listener : Listener) : State :=
  match s.transports[t]? with
  | none => s
  | some transport =>
    if transport.ready then s.callListener t listener
    else s.onTransport t fun tr => { tr with listeners := tr.listeners ++ [listener] }

/-- Make the default transport, unless there is one. -/
def ensureDefault : State :=
  match s.defaultTransport with
  | some _ => s
  | none =>
    { s with
      transports := s.transports ++ [.make s.socket]
      defaultTransport := some s.transports.length }

/-- `ensure_transport` -/
def ensureTransport (listener : Listener) : State :=
  match s.ensureDefault.defaultTransport with
  | none => s.ensureDefault
  | some t => s.ensureDefault.whenReady t listener

/-- `ready_for_channels` -/
def readyForChannels : State :=
  match s.transports[t]? with
  | none => s
  | some transport =>
    if transport.ready then s
    else
      { s.onTransport t fun tr => { tr with ready := true, listeners := [] } with
        stack := .listeners t transport.listeners :: s.stack }

/-- The part of `ws.onclose` before it calls `close`. -/
def checkReload : State :=
  if s.reloadAfterDisconnect then { s with expectDisconnect := true } else s

/-- The `options` of `Transport.close` without any. -/
def disconnected : JsonObject := [("problem", .string "disconnected")]

/-- `Transport.close`; a socket in the parent window calls `ws.onclose` at once, which calls
    `close` again, and that call goes through before this one goes on. -/
def closeTransport (options : Option JsonObject) : State :=
  match s.transports[t]? with
  | none => s
  | some transport =>
    let options := (options.getD disconnected).setMember "command" (.string "close")
    let s' := s.onTransport t fun tr => { tr with timer := false, ws := false }
    if transport.ws && transport.socket == .parent then
      let s' := s'.checkReload
      { s' with
        stack := .close t (disconnected.setMember "command" (.string "close")) ::
          .close t options :: s'.stack }
    else { s' with stack := .close t options :: s'.stack }

/-- `process_init` -/
def processInit (options : JsonObject) : State :=
  if truthy (options.getMember "problem") then
    s.closeTransport t (some [("problem", (options.getMember "problem").getD .null)])
  else match options.getMember "version" with
    | some (.int 1) =>
      let s :=
        match channelSeed options with
        | none => s
        | some seed => s.onTransport t fun tr => { tr with channelSeed := seed }
      let s :=
        if truthy (options.getMember "host") then
          { s with defaultHost := options.getMember "host" }
        else s
      { s with stack := .initialized t :: s.stack }
    | _ => s.closeTransport t (some [("problem", .string "not-supported")])
where
  /-- `String(options["channel-seed"])`, if it is set. -/
  channelSeed (options : JsonObject) : Option String :=
    match options.getMember "channel-seed" with
    | some (.string s) => if s == "" then none else some s
    | some (.int n) => if n == 0 then none else some (toString n)
    | some (.bool true) => some "true"
    | _ => none

/-- `process_control` -/
def processControl (data : JsonObject) : State :=
  match s.transports[t]? with
  | none => s
  | some transport =>
    if hasCommand data "init" then s.processInit t data
    else if transport.waitingForInit then
      let s := s.onTransport t fun tr => { tr with waitingForInit := false }
      if !hasCommand data "close" || truthy (data.getMember "channel") then
        s.closeTransport t (some [("problem", .string "protocol-error")])
      else s.closeTransport t (some data)
    else if hasCommand data "ping" then s
    else if hasCommand data "hint" then s
    else match channelKey data with
      | none => s
      | some key =>
        match transport.callbacks.lookup key with
        | none => s
        | some c => s.onChannel c (Channel.onControl · data)

/-- `process_message` -/
def processMessage (channel : String) : State :=
  match s.transports[t]? with
  | none => s
  | some transport =>
    match transport.callbacks.lookup channel with
    | none => s
    | some c => s.onChannel c Channel.onMessage

/-- The next step of the topmost task. -/
def resume : State :=
  match s.stack with
  | [] => s
  | .listeners t (listener :: rest) :: stack =>
    { s with stack := .listeners t rest :: stack }.callListener t listener
  | .listeners _ [] :: stack => { s with stack }
  | .close t options :: stack =>
    if s.expectDisconnect then { s with stack }
    else { s with stack := .startBroadcast t options :: stack }.readyForChannels t
  | .startBroadcast t options :: stack =>
    match s.transports[t]? with
    | none => { s with stack }
    | some transport =>
      { s with stack := .broadcast t options transport.callbacks.keys :: stack }.onTransport t
        fun tr => { tr with broadcast := true }
  | .broadcast t options (key :: keys) :: stack =>
    let s := { s with stack := .broadcast t options keys :: stack }
    match s.transports[t]? with
    | none => s
    | some transport =>
      -- the loop passes over a key that was deleted since it began
      match transport.callbacks.lookup key with
      | none => s
      | some c => s.onChannel c (Channel.onControl · options)
  | .broadcast t _ [] :: stack =>
    { s with stack }.onTransport t fun tr => { tr with returned := true }
  | .initialized t :: stack =>
    match s.transports[t]? with
    | none => { s with stack }
    | some transport =>
      if transport.waitingForInit then
        ({ s with stack }.onTransport t fun tr =>
          { tr with waitingForInit := false }).readyForChannels t
      else { s with stack }
  | .forget :: stack => { s with stack, defaultTransport := none }

/-- `cockpit.channel(options)` -/
def createChannel (options : JsonObject) : State :=
  let s := s.ensureDefault
  match s.defaultTransport with
  | none => s
  | some t =>
    { s with channels := s.channels ++ [Channel.make options t] }.whenReady t (.channel s.channels.length)

/-- `cockpit.transport.close` -/
def transportClose (problem : Option String) : State :=
  let s' := { s with stack := .forget :: s.stack }
  match s.defaultTransport with
  | none => s'
  | some t =>
    s'.closeTransport t
      ((problem.filter (· != "")).map fun problem => [("problem", .string problem)])

/-- `cockpit.logout` -/
def logout (s : State) (reload : Bool) : State :=
  { s with reloadAfterDisconnect := s.reloadAfterDisconnect || reload }.ensureTransport
    (.control [("command", .string "logout"), ("disconnect", .bool true)])

/-- `ws.onclose` -/
def socketClosed : State :=
  ((s.onTransport t fun tr => { tr with ws := false }).checkReload).closeTransport t none

/-- The health check timer. -/
def healthCheck : State :=
  match s.transports[t]? with
  | none => s
  | some transport =>
    let s' := s.onTransport t fun tr => { tr with gotMessage := false }
    if transport.timer && !transport.gotMessage && !transport.ignoreHealthCheck then
      s'.closeTransport t (some [("problem", .string "timeout")])
    else if transport.timer then s'
    else s

end State

/-- What happens on a page. -/
inductive Event where
  | create (options : JsonObject)
  | send (c : Nat) (message : Payload)
  | control (c : Nat) (options : Option JsonObject)
  | close (c : Nat) (options : Channel.CloseOptions)
  /-- `cockpit.transport.wait` -/
  | wait
  /-- `cockpit.transport.control`, with the command in the options. -/
  | transportControl (data : JsonObject)
  /-- `cockpit.transport.close` -/
  | transportClose (problem : Option String)
  | beforeUnload
  | unload
  /-- `cockpit.logout` -/
  | logout (reload : Bool)
  | socketClosed (t : Nat)
  | receivedControl (t : Nat) (data : JsonObject)
  | receivedMessage (t : Nat) (channel : String)
  | healthCheck (t : Nat)
  /-- The timeout of a transport that has no socket. -/
  | noCockpit (t : Nat)
  | resume

def step (s : State) : Event → State
  | .create options => s.createChannel options
  | .send c message => s.onChannel c (Channel.send · message)
  | .control c options => s.onChannel c (Channel.control · options)
  | .close c options => s.onChannel c (Channel.close · options)
  | .wait => s.ensureTransport .callback
  | .transportControl data => s.ensureTransport (.control data)
  | .transportClose problem => s.transportClose problem
  | .beforeUnload => { s with expectDisconnect := true }
  | .unload =>
    match s.defaultTransport with
    | none => s
    | some t => s.closeTransport t none
  | .logout reload => s.logout reload
  | .socketClosed t => s.socketClosed t
  | .receivedControl t data =>
    (s.onTransport t fun tr => { tr with gotMessage := true }).processControl t data
  | .receivedMessage t channel =>
    (s.onTransport t fun tr => { tr with gotMessage := true }).processMessage t channel
  | .healthCheck t => s.healthCheck t
  | .noCockpit t =>
    match s.transports[t]? with
    | none => s
    | some transport =>
      if transport.socket == .missing then
        s.closeTransport t (some [("problem", .string "no-cockpit")])
      else s
  | .resume => s.resume

end Cockpit.Page
