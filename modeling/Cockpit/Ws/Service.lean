import Cockpit.Common.Frame
import Cockpit.Common.Json
import Cockpit.WebSocket.CloseHandshake

namespace Cockpit.Ws

open WebSocket (Connection DataType)
open Json

/-!
# `src/ws/cockpitwebservice.c`

A web service passes messages between any number of WebSockets and one bridge.  The sockets are
`WebSocket.Connection`s: what their main loop does makes them emit signals, and the handlers of
these signals are the functions here.

Sockets are numbered in the order in which they are made.  `log` is the history that the
statements speak of: what went to the bridge, which channels were opened and closed, and which
sockets were destroyed.  What depends on the credentials is left out: hints about them, and
replies to `authorize` messages.
-/

namespace WebService

/-- What the service is built with, and the two functions of the JSON library. -/
structure Setup where
  /-- `cockpit_json_parse_bytes` -/
  parse : Bytes → Option JsonObject
  /-- `cockpit_json_write_bytes` -/
  write : JsonObject → Bytes
  csrfToken : String
  version : String
  build : String

/-- `CockpitSocket` -/
structure Socket where
  connection : Connection
  channels : AList (fun _ : String => DataType) := ∅
  initReceived : Bool := false
  /-- Whether it is in `by_connection`; the handlers are connected as long as it is. -/
  tracked : Bool := true
  /-- History: whether "closing" was emitted. -/
  closingEmitted : Bool := false

/-- On whose behalf a control message goes to the bridge. -/
inductive Sender where
  | service
  | relay (i : Nat)

inductive Entry where
  /-- `cockpit_socket_add_channel` -/
  | opened (i : Nat) (channel : String)
  /-- A control message to the bridge. -/
  | control (sender : Sender) (options : JsonObject) (payload : Bytes)
  /-- A payload message to the bridge. -/
  | data (channel : CStr) (payload : Bytes)
  /-- A "close" from the bridge. -/
  | closed (channel : String)
  /-- `cockpit_socket_destroy`, and whether the transport was open. -/
  | destroyed (i : Nat) (transportOpen : Bool)

end WebService

structure WebService where
  sockets : List WebService.Socket := []
  byChannel : AList (fun _ : String => Nat) := ∅
  closing : Bool := false
  sentDone : Bool := false
  initReceived : Bool := false
  transportOpen : Bool := true
  /-- A hash table was asked for the key `NULL`. -/
  crashed : Bool := false
  log : List WebService.Entry := []

namespace WebService

variable (S : Setup) (s : WebService) (i : Nat)

def onSocket (f : Socket → Socket) : WebService :=
  { s with sockets := s.sockets.modify i f }

def onConnection (f : Connection → Connection) : WebService :=
  s.onSocket i fun socket => { socket with connection := f socket.connection }

def record (entry : Entry) : WebService := { s with log := s.log ++ [entry] }

/-- `web_socket_connection_send` -/
def sendTo (type : DataType) (pref message : Bytes) : WebService :=
  s.onConnection i (·.send type pref message)

/-- `control_prefix` -/
def controlPrefix : Bytes := [newline]

/-! ## Sockets and channels -/

variable (channel : String)

/-- `cockpit_socket_remove_channel` -/
def removeChannel : WebService :=
  { s.onSocket i fun socket => { socket with channels := socket.channels.erase channel } with
    byChannel := s.byChannel.erase channel }

/-- `cockpit_socket_add_channel` -/
def addChannel (type : DataType) : WebService :=
  ({ s.onSocket i fun socket => { socket with channels := socket.channels.insert channel type } with
    byChannel := s.byChannel.insert channel i } : WebService).record (.opened i channel)

/-- `cockpit_socket_destroy` -/
def destroySocket (socket : Socket) : WebService :=
  ({ s.onSocket i fun socket => { socket with channels := ∅, tracked := false } with
    byChannel := socket.channels.keys.foldl (fun table channel => table.erase channel)
      s.byChannel } : WebService).record (.destroyed i s.transportOpen)

/-! ## Signals of a socket -/

/-- The "close" that is sent for a channel of a socket that closes. -/
def disconnected (channel : String) : Entry :=
  let object : JsonObject := [("command", .string "close"), ("channel", .string channel),
    ("problem", .string "disconnected")]
  .control .service object (S.write object)

/-- `on_web_socket_closing` -/
def onWebSocketClosing (socket : Socket) : WebService :=
  let s := s.onSocket i fun socket => { socket with closingEmitted := true }
  if s.sentDone then s
  else { s with log := s.log ++ socket.channels.keys.map (disconnected S) }

/-- `on_web_socket_close`; "idling" is left out. -/
def onWebSocketClose : WebService :=
  match s.sockets[i]? with
  | none => s
  | some socket => if !socket.tracked then s else s.destroySocket i socket

/-- The second half of the function that emitted "closing" or "error".  No handler is connected
    to "error", nor to "closing" once the socket is destroyed. -/
def settle : WebService :=
  match s.sockets[i]? with
  | none => s
  | some socket =>
    match socket.connection.pending with
    | [] => s
    | .closing code data :: rest =>
      let s := if socket.tracked then s.onWebSocketClosing S i socket else s
      s.onConnection i fun c =>
        ({ c with pending := rest } : Connection).closingHandled code data socket.tracked
    | .error err prejudice stop :: rest =>
      s.onConnection i fun c =>
        ({ c with pending := rest } : Connection).errorHandled err prejudice stop

/-- `web_socket_connection_close` -/
def closeConnection (code : UInt16) (data : String) : WebService :=
  (s.onConnection i (·.close code (some data.toUTF8.data.toList))).settle S i

/-- `cockpit_sockets_close`, for one socket. -/
def closeSocket (problem : String) (s : WebService) (i : Nat) : WebService :=
  match s.sockets[i]? with
  | none => s
  | some socket =>
    if socket.tracked && (socket.connection.readyState == .connecting ||
        socket.connection.readyState == .opened) then
      s.closeConnection S i 1001 problem
    else s

/-- `cockpit_sockets_close` -/
def closeSockets (problem : Option String) : WebService :=
  (List.range s.sockets.length).foldl (closeSocket S (problem.getD "terminated")) s

/-- `cockpit_web_service_dispose`; the handlers of the transport are connected until `closing`. -/
def dispose : WebService :=
  let s := if s.sentDone then s else { s with sentDone := true, transportOpen := false }
  ({ s with closing := true } : WebService).closeSockets S none

/-! ## Messages from a socket -/

/-- `inbound_protocol_error` -/
def inboundProtocolError (problem : String) : WebService :=
  match s.sockets[i]? with
  | none => s
  | some socket =>
    if socket.connection.readyState == .opened then
      let payload := S.write [("command", .string "close"), ("problem", .string problem)]
      (s.sendTo i .text controlPrefix payload).closeConnection S i 1011 problem
    else s

/-- `cockpit_transport_parse_command`: command, channel and options. -/
def parseCommand (payload : Bytes) : Option (String × Option String × JsonObject) :=
  match S.parse payload with
  | none => none
  | some options =>
    match getString options "command" none with
    | some (some command) =>
      if command == "" then none
      else match getString options "channel" none with
        | none => none
        | some none => some (command, none, options)
        | some (some channel) =>
          if channel == "" || channel.toList.contains '\n' then none
          else some (command, some channel, options)
    | _ => none

variable (options : JsonObject)

/-- The problem of an "init" message, for `process_socket_init` and `process_transport_init`. -/
def initProblem : Option String :=
  match getInt options "version" (-1) with
  | none => some "protocol-error"
  | some version => if version = 1 then none else some "not-supported"

/-- `cockpit_web_service_parse_binary` -/
def parseBinary : Option DataType :=
  match getString options "binary" none with
  | none => none
  | some binary => some (if binary == some "raw" then .binary else .text)

/-- Pass a message of a socket on to the bridge. -/
def relay (options : JsonObject) (payload : Bytes) : WebService :=
  if s.sentDone then s else s.record (.control (.relay i) options payload)

/-- `process_and_relay_open` -/
def processAndRelayOpen (channel : Option String)
    (options : JsonObject) : WebService × Bool :=
  if s.closing then (s, true)
  else match channel with
    -- `cockpit_socket_lookup_by_channel` hashes the channel
    | none => ({ s with crashed := true }, true)
    | some channel =>
      if (s.byChannel.lookup channel).isSome then (s, false)
      else match parseBinary options with
        | none => (s, false)
        | some type => ((s.addChannel i channel type).relay i options (S.write options), true)

/-- `process_logout`, and the broadcast after it. -/
def processLogout (options : JsonObject) (payload : Bytes) :
    WebService × Bool :=
  match getBool options "disconnect" false with
  | none => (s, false)
  | some disconnect =>
    ((if disconnect then s.dispose S else s).relay i options payload, true)

/-- The commands of `dispatch_inbound_command` after "init", and whether they are valid. -/
def dispatchCommand (command : String) (channel : Option String)
    (options : JsonObject) (payload : Bytes) : WebService × Bool :=
  if command == "open" then s.processAndRelayOpen S i channel options
  else if command == "authorize" then (s, (getString options "response" none).isSome)
  else if command == "logout" then s.processLogout S i options payload
  else if command == "close" then
    match channel with
    | none => (s, false)
    | some channel => ((s.removeChannel i channel).relay i options payload, true)
  else if command == "kill" then (s.relay i options payload, true)
  else (if channel.isSome then s.relay i options payload else s, true)

/-- `dispatch_inbound_command` -/
def dispatchInboundCommand (i : Nat) (socket : Socket) (payload : Bytes) :
    WebService :=
  match parseCommand S payload with
  | none => s.inboundProtocolError S i "protocol-error"
  | some (command, channel, options) =>
    if command == "init" then
      match initProblem options with
      | none => s.onSocket i fun socket => { socket with initReceived := true }
      | some problem => s.inboundProtocolError S i problem
    else if !socket.initReceived then s.inboundProtocolError S i "protocol-error"
    else match s.dispatchCommand S i command channel options payload with
      | (s, true) => s
      | (s, false) => s.inboundProtocolError S i "protocol-error"

/-- `on_web_socket_message` -/
def onWebSocketMessage (message : Bytes) : WebService :=
  match s.sockets[i]? with
  | none => s
  | some socket =>
    if !socket.tracked then s
    else match Frame.parseFrame message with
      | none => s
      | some (none, payload) => s.dispatchInboundCommand S i socket payload
      | some (some channel, payload) =>
        if s.closing || s.sentDone then s else s.record (.data channel payload)

/-- `on_web_socket_open` -/
def onWebSocketOpen : WebService :=
  s.sendTo i .text controlPrefix (S.write [("command", .string "init"), ("version", .int 1),
    ("channel-seed", .string (toString ((i + 1) % 2 ^ 32) ++ ":")),
    ("host", .string "localhost"), ("csrf-token", .string S.csrfToken),
    ("capabilities", .array [.string "multi", .string "credentials", .string "binary"]),
    ("system", .object [("version", .string S.version), ("build", .string S.build)])])

/-- The handlers of the signals that the connection of a socket emitted between two states of
    it.  At most one signal is emitted. -/
def onSignals (before after : Connection) (tracked : Bool) :
    WebService :=
  if after.handshakeDone && !before.handshakeDone then
    if tracked then s.onWebSocketOpen S i else s
  else match after.delivered.drop before.delivered.length with
    | (_, message) :: _ =>
      -- the handler is connected by `on_web_socket_open`
      if before.handshakeDone then s.onWebSocketMessage S i message else s
    | [] =>
      if before.closeSignals < after.closeSignals then s.onWebSocketClose i
      else s.settle S i

/-- The main loop does something with the connection of a socket. -/
def onEvent (e : Connection.Event) : WebService :=
  match s.sockets[i]? with
  | none => s
  | some socket =>
    (s.onConnection i fun _ => socket.connection.mainStep e).onSignals S i socket.connection
      (socket.connection.mainStep e) socket.tracked

/-! ## Messages from the bridge -/

/-- `outbound_protocol_error` -/
def outboundProtocolError : WebService := { s with transportOpen := false }

/-- Whether `process_transport_authorize` takes a message. -/
def authorizeValid : Bool :=
  match getString options "challenge" none, getString options "cookie" none,
    getString options "host" none with
  | some (some _), some (some _), some _ => true
  | _, _, _ => false

/-- `process_close`, for a "close" from the bridge. -/
def processClose : WebService :=
  (match s.byChannel.lookup channel with
  | none => s
  | some i => s.removeChannel i channel).record (.closed channel)

/-- `on_transport_control` -/
def onTransportControl (command : String) (channel : Option String)
    (options : JsonObject) (payload : Bytes) : WebService :=
  match channel with
  | none =>
    if command == "init" then
      match initProblem options with
      | some _ => s.outboundProtocolError
      | none =>
        let object : JsonObject :=
          [("command", .string "init"), ("version", .int 1), ("host", .string "localhost")]
        ({ s with initReceived := true } : WebService).record
          (.control .service object (S.write object))
    else if !s.initReceived then s.outboundProtocolError
    else if command == "authorize" then
      if authorizeValid options then s else s.outboundProtocolError
    else s
  | some channel =>
    let socket := s.byChannel.lookup channel
    let s := if command == "close" then s.processClose channel else s
    match socket with
    | none => s
    | some i => s.sendTo i .text controlPrefix payload

/-- `on_transport_recv` -/
def onTransportRecv (channel : Option String) (payload : Bytes) : WebService :=
  match channel with
  | none => s
  | some channel =>
    match s.byChannel.lookup channel with
    | none => s
    | some i =>
      let type := ((s.sockets[i]?.bind (·.channels.lookup channel)).getD .text)
      s.sendTo i type (channel ++ "\n").toUTF8.data.toList payload

/-- `on_transport_closed` -/
def onTransportClosed (problem : Option String) : WebService :=
  (({ s with transportOpen := false } : WebService).closeSockets S problem).dispose S

/-! ## Runs -/

/-- `on_ping_time` -/
def onPingTime : WebService :=
  (List.range s.sockets.length).foldl
    (fun s i => s.sendTo i .text controlPrefix (S.write [("command", .string "ping")])) s

/-- `cockpit_web_service_socket`, for a stream with the random numbers of its connection. -/
def newSocket (random : Nat → UInt32) : WebService :=
  { s with sockets := s.sockets ++ [{ connection := .new true true random }] }

/-- What happens to a service. -/
inductive Event where
  | newSocket (random : Nat → UInt32)
  | socket (i : Nat) (e : Connection.Event)
  | control (command : String) (channel : Option String) (options : JsonObject) (payload : Bytes)
  | recv (channel : Option String) (payload : Bytes)
  | transportClosed (problem : Option String)
  | pingTime
  | disconnect

def step (e : Event) : WebService :=
  if s.crashed then s
  else match e with
    | .newSocket random => s.newSocket random
    | .socket i e => s.onEvent S i e
    | .control command channel options payload =>
      if s.closing then s else s.onTransportControl S command channel options payload
    | .recv channel payload => if s.closing then s else s.onTransportRecv channel payload
    | .transportClosed problem => if s.closing then s else s.onTransportClosed S problem
    | .pingTime => s.onPingTime S
    | .disconnect => s.dispose S

end WebService

end Cockpit.Ws
