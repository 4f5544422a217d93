import Cockpit.Bridge.Router

namespace Cockpit

open Lib Json

/-!
# Runs of a bridge

What the bridge does with the messages of the client, with the end of a local channel and with
the messages and the end of a peer's process (`Bridge.Event`).  Messages that the transport held
back are delivered by loops that thaw one channel after the other (`Task`), and the handlers of
such a message run inside of these loops: local channels may close then, and the end of the last
fence starts another loop.  `Bridge.next` lets the innermost loop go on.

`process_kill` asks the channels `killed` to close; each of them does so by an event of its own,
at once or later.
-/

/-- The control message "open". -/
def TransportMessage.isOpen : TransportMessage → Bool
  | .recv _ => false
  | .control command _ _ => command == some "open"

/-- The message that the next step of the innermost loop hands to the handlers, and its channel. -/
def Transport.delivering (t : Transport) : Option (String × TransportMessage) :=
  match t.thaws with
  | [] => none
  | thaw :: _ =>
    match thaw.flush, thaw.l.bind t.frozen.find with
    | none, some frozen =>
      if thaw.stolen = some frozen.channel ∧ t.freeze.lookup thaw.channel = none then
        some (thaw.channel, frozen.message)
      else none
    | _, _ => none

namespace Bridge

/-! ### Messages of the client -/

variable (b : Bridge)

/-- `process_init` -/
def processInit (options : JsonObject) : Bridge :=
  if b.initHost.isSome then b.closeTransport "protocol-error"
  else
    match getInt options "version" (-1) with
    | none => b.closeTransport "protocol-error"
    | some version =>
      if version = -1 then b.closeTransport "protocol-error"
      else
        match getString options "host" none with
        | some (some host) =>
          if version ≠ 1 then b.closeTransport "not-supported" else { b with initHost := some host }
        | _ => b.closeTransport "protocol-error"

/-- `on_transport_control` of the peers: the first one that has the channel forwards the message,
    and forgets the channel with its "close". -/
def peersControl (channel : Option String) (command : Option String) : Bridge :=
  match channel with
  | none => b
  | some channel =>
    match b.connected.find? (fun id => channel ∈ (b.peers id).channels) with
    | none => b
    | some id =>
      if command = some "close" then
        b.setPeer id ((b.peers id).forget channel)
      else b

variable (S : Setup) (channel : Option String)

/-- `on_transport_control` of the router.  The peers only see what it does not handle. -/
def onTransportControl
    (command : Option String) (options : JsonObject) (data : Bytes) : Bridge :=
  if command = some "init" then b.processInit options
  else
    match b.initHost with
    | none => b.closeTransport "protocol-error"
    | some host =>
      if command = some "open" then b.processOpen S host channel options data
      else if command = some "close" ∧ channel = none then b.closeTransport "protocol-error"
      else b.peersControl channel command

/-- The handlers of a message.  What local channels do with it are events of their own. -/
def handle : TransportMessage → Bridge
  | .recv _ => b
  | .control command options data => b.onTransportControl S channel command options data

/-- A message of the client is emitted. -/
def arrive (message : TransportMessage) :
    Bridge :=
  match b.transport.maybeFreezeMessage channel message with
  | some transport => { b with transport := transport }
  | none => { b with transport := b.transport.deliver channel message }.handle S channel message

/-! ### The end of a local channel -/

/-- `on_channel_closed`: the end of the last fence releases what was held up. -/
def onChannelClosed (channel : String) : Bridge :=
  let b :=
    { b with channels := b.channels.erase channel, groups := b.groups.erase channel }
  if channel ∉ b.fences then b
  else
    let b := { b with fences := b.fences.erase channel }
    if b.fences ≠ [] ∨ b.fenced = [] then b
    else
      { b with
        fenced := []
        tasks := ⟨.release ⟨b.fenced, b.transport, b.log.length⟩, b.fenced,
          b.transport.thaws.length⟩ :: b.tasks }

/-! ### Peers -/

variable (id : Nat)

/-- A peer without a process that is as good as new. -/
def resetPeer : Bridge :=
  { b.setPeer id Peer.new with given := b.given.filter (fun g => g.1 ≠ id) }

/-- "init" from a process.  One that is refused closes its transport, which ends it. -/
def onOtherInit (options : JsonObject) : Bridge :=
  match getString options "problem" none with
  | none => b
  | some (some _) =>
    b.setPeer id { b.peers id with failure := some (options.removeMember "version") }
  | some none =>
    if getInt options "version" (-1) = some 1 then
      { b.setPeer id { b.peers id with inited := true } with
        tasks := ⟨.init id, (b.peers id).frozen, b.transport.thaws.length⟩ :: b.tasks }
    else b

/-- "close" from a process that has sent "init". -/
def onOtherClose (id : Nat) (channel : String) : Bridge :=
  let peer := (b.peers id).forget channel
  let peer :=
    if peer.channels = [] then { peer with timeout := Peer.cycles (S.config id) } else peer
  { b.setPeer id peer with given := b.given.erase (id, channel) }.record
    (.closed channel (.process id))

/-- The problem with which `on_other_closed` closes channels. -/
def endProblem (id : Nat) (problem : Option String)
    (status : ExitStatus) : Option String :=
  let peer := b.peers id
  if !peer.inited then peer.failStartProblem (S.config id)
  else if !peer.closed then some (problem.getD (Peer.exitProblem status))
  else problem

/-- `on_other_closed` up to its loop over the channels. -/
def onOtherClosed (id : Nat) (problem : Option String)
    (status : ExitStatus) : Bridge :=
  let peer := b.peers id
  let peer' : Peer :=
    { peer with
      problem := if !peer.inited then peer.failStartProblem (S.config id) else peer.problem
      other := false
      closed := true
      channels := []
      nodup := List.nodup_nil }
  { b.setPeer id peer' with
    given := b.given.filter (fun g => g.1 ≠ id)
    tasks := ⟨.ended id (b.endProblem S id problem status), peer.channels,
      b.transport.thaws.length⟩ :: b.tasks }

/-- `on_timeout_reset` -/
def onTimeoutReset : Bridge :=
  if (b.peers id).channels = [] then b.resetPeer id
  else b.setPeer id { b.peers id with timeout := false }

/-! ### The loops go on -/

/-- A loop over channels has come to its end. -/
def finish : TaskKind → Bridge
  | .release _ => b
  | .init id => b.setPeer id { b.peers id with frozen := [] }
  | .ended id _ => if Peer.cycles (S.config id) then b.resetPeer id else b

/-- A round of a loop over channels: a peer that has ended answers with its problem, and the channel
    is thawed. -/
def taskStep (task : Task) (rest : List Task) : Bridge :=
  match task.todo with
  | [] => { b with tasks := rest }.finish S task.kind
  | channel :: todo =>
    let b :=
      match task.kind with
      | .ended id (some _) => b.record (.closed channel (.peer id))
      | _ => b
    { b with
      transport := b.transport.beginThaw channel
      tasks := { task with todo := todo } :: rest }

/-- The innermost `cockpit_transport_thaw` goes on.  "open" is handled by the router alone, so the
    loop goes on at once. -/
def loopStep : Bridge :=
  let b' := { b with transport := b.transport.next }
  match b.transport.delivering with
  | none => b'
  | some (channel, message) =>
    let b'' := b'.handle S (some channel) message
    if message.isOpen then { b'' with transport := b''.transport.next } else b''

/-- The loop over channels that runs, and not a thaw inside of it. -/
def running : Option (Task × List Task) :=
  match b.tasks with
  | [] => none
  | task :: rest => if task.base = b.transport.thaws.length then some (task, rest) else none

/-- The innermost loop goes on. -/
def next : Bridge :=
  match b.running with
  | some (task, rest) => b.taskStep S task rest
  | none => b.loopStep S

/-- Whether handlers or the main loop run. -/
def outside : Bool := b.running.isNone && b.transport.outside

/-- Whether the main loop runs. -/
def idle : Bool := b.tasks.isEmpty && b.transport.thaws.isEmpty

/-! ### Events -/

/-- What can happen to a bridge. -/
inductive Event where
  /-- A message of the client. -/
  | arrive (channel : Option String) (message : TransportMessage)
  /-- A local channel sends "close" and is gone. -/
  | closed (channel : String)
  /-- A local channel thaws itself with `cockpit_channel_ready`, which it calls from the main loop:
      until then it gets no messages that could make it ready. -/
  | ready (channel : String)
  | peerInit (id : Nat) (options : JsonObject)
  | peerClose (id : Nat) (channel : String)
  | peerEnded (id : Nat) (problem : Option String) (status : ExitStatus)
  | peerTimeout (id : Nat)
  | next

/-- The "init" message of a client. -/
def Event.clientInit : Event :=
  .arrive none (.control (some "init")
    [("command", .string "init"), ("version", .int 1), ("host", .string "localhost")] [])

/-- The "open" message of a client for `channel`. -/
def Event.clientOpen (channel : String) (options : JsonObject) : Event :=
  .arrive (some channel) (.control (some "open")
    ([("command", .string "open"), ("channel", .string channel)] ++ options) [])

/-- The "init" message of the process of a peer. -/
def Event.processInit : Event :=
  .peerInit id [("command", .string "init"), ("version", .int 1)]

/-- An "open" message of the client, for the log. -/
def opens : Option String → TransportMessage → List Entry
  | some channel, message => if message.isOpen then [.opened channel] else []
  | none, _ => []

/-- One event; an event that cannot happen in a state leaves it alone. -/
def step (b : Bridge) : Event → Bridge
  | .arrive channel message =>
    if b.idle then { b with log := b.log ++ opens channel message }.arrive S channel message else b
  | .closed channel =>
    if b.outside ∧ channel ∈ b.channels then
      (b.record (.closed channel .channel)).onChannelClosed channel
    else b
  | .ready channel =>
    if b.idle ∧ channel ∈ b.channels then
      { b with transport := b.transport.beginThaw channel }
    else b
  | .peerInit id options =>
    if b.idle ∧ (b.peers id).other then b.onOtherInit id options else b
  | .peerClose id channel =>
    if b.idle ∧ (b.peers id).other ∧ (b.peers id).inited then b.onOtherClose S id channel else b
  | .peerEnded id problem status =>
    if b.idle ∧ (b.peers id).other then b.onOtherClosed S id problem status else b
  | .peerTimeout id =>
    if b.idle ∧ (b.peers id).timeout then b.onTimeoutReset id else b
  | .next => b.next S

/-! ### What the bridge relies on -/

/-- The "group" of an "open" message is a string, or there is none. -/
def GroupOk : TransportMessage → Prop
  | .recv _ => True
  | .control command options _ =>
    command = some "open" → (getString options "group" (some "default")).join.isSome

/-- The channel that the innermost loop is about to thaw. -/
def thawing : Option String :=
  b.running.bind (fun r => r.1.todo.head?)

/-- **What keeps a run defined**: control messages name their command and "open" messages a group
    that can be read, and no thaw deletes the link that a thaw in progress goes on with. -/
def Sound : Event → Prop
  | .arrive _ message => message.Named ∧ GroupOk message
  | .next =>
    (∀ channel, b.thawing = some channel → b.transport.ThawOk channel) ∧ (b.running = none →
        ∀ delivery, b.transport.delivering = some delivery → GroupOk delivery.2)
  | _ => True

instance : ∀ message, Decidable (GroupOk message)
  | .recv _ => inferInstanceAs (Decidable True)
  | .control _ _ _ => inferInstanceAs (Decidable (_ = _ → _))

instance (b : Bridge) : ∀ e, Decidable (b.Sound e)
  | .arrive _ _ => inferInstanceAs (Decidable (_ ∧ _))
  | .next =>
    inferInstanceAs (Decidable ((∀ channel ∈ b.thawing, b.transport.ThawOk channel) ∧
      (b.running = none → ∀ delivery ∈ b.transport.delivering, GroupOk delivery.2)))
  | .closed _ => inferInstanceAs (Decidable True)
  | .ready _ => inferInstanceAs (Decidable True)
  | .peerInit _ _ => inferInstanceAs (Decidable True)
  | .peerClose _ _ => inferInstanceAs (Decidable True)
  | .peerEnded _ _ _ => inferInstanceAs (Decidable True)
  | .peerTimeout _ => inferInstanceAs (Decidable True)

end Bridge

end Cockpit
