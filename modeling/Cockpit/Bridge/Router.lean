import Cockpit.Common.PipeTransport
import Cockpit.Common.Transport

namespace Cockpit

open Lib Json

/-!
# `src/bridge/cockpitrouter.c` and `src/bridge/cockpitpeer.c`

The router decides who handles an "open" message: a local channel, or a peer, which is another
bridge in a process of its own.  Both put "open" messages back into the transport to see them
again later: the router while a channel of the group "fence" is open, a peer while its process
has not sent "init".

`Bridge` is the state of the router, its peers and the transport they share.  The `log` records
what the statements about a bridge speak of, and `given` the "open" messages that are with the
processes of the peers.

Local channels are not modelled here beyond their ids: they may close whenever their code can run,
and thaw themselves once they are ready.
-/

/-! ### Rules -/

/-- One `RouterMatch`: the member must match a glob, be equal to a value, or be there. -/
inductive RouterMatch where
  | glob (name pattern : String)
  | node (name : String) (value : Json)
  | present (name : String)

/-- `router_rule_compile`, for one member of the match object. -/
def RouterMatch.compile (name : String) : Json → RouterMatch
  | .string pattern => .glob name pattern
  | .null => .present name
  | value => .node name value

/-- What a rule calls: `process_open_channel`, `process_open_peer` and
    `process_open_dynamic_peer`, or `process_open_not_supported`.  Peers are numbered; a rule for
    dynamic peers picks one by the options, a rule for a single peer always picks that one. -/
inductive RouterCallback where
  | channel
  | peer (select : JsonObject → Nat)
  | notSupported

/-- `RouterRule` -/
structure RouterRule where
  conditions : List RouterMatch
  callback : RouterCallback

/-- What a bridge is set up with, and the parts of its surroundings that decide for it. -/
structure Setup where
  alloc : Allocator
  rules : List RouterRule
  /-- The configuration of each peer. -/
  config : Nat → JsonObject
  /-- Whether the `n`-th attempt to spawn a process succeeds. -/
  spawn : Nat → Bool
  /-- `g_get_user_name` -/
  userName : String
  /-- `g_pattern_match` -/
  patternMatch : String → String → Bool
  /-- `cockpit_json_equal` -/
  jsonEqual : Json → Json → Bool
  /-- `cockpit_json_write_bytes` -/
  jsonWrite : JsonObject → Bytes

/-- One round of the loop of `router_rule_match`. -/
def RouterMatch.holds (S : Setup) (object : JsonObject) : RouterMatch → Bool
  | .glob name pattern =>
    match getString object name none with
    | some (some value) => S.patternMatch pattern value
    | _ => false
  | .node name value =>
    match object.getMember name with
    | some member => S.jsonEqual value member
    | none => false
  | .present name => object.hasMember name

/-- `router_rule_match` -/
def RouterRule.applies (S : Setup) (rule : RouterRule) (object : JsonObject) : Bool :=
  rule.conditions.all (RouterMatch.holds S object)

/-! ### Normalizing "open" messages -/

/-- `g_strsplit (host, "+", 3)` -/
def splitHost (host : String) : List String :=
  match host.toList.splitOn '+' with
  | a :: b :: c :: rest =>
    [String.ofList a, String.ofList b, String.ofList (List.intercalate ['+'] (c :: rest))]
  | parts => parts.map String.ofList

/-- `cockpit_router_normalize_host`; `none` where it returns `FALSE`. -/
def normalizeHost (initHost : String) (options : JsonObject) : Option JsonObject :=
  match getString options "host" (some initHost) with
  | some (some host) =>
    let parsed : JsonObject × String :=
      match splitHost host with
      | [name, key, value] =>
        if name ≠ "" ∧ key ≠ "" ∧ value ≠ "" ∧ ¬ options.hasMember ("host-" ++ key) then
          (options.setStringMember ("host-" ++ key) value, name)
        else (options, host)
      | _ => (options, host)
    if parsed.2 = initHost then some (parsed.1.removeMember "host")
    else if parsed.2 ≠ host then some (parsed.1.setStringMember "host" parsed.2)
    else some parsed.1
  | _ => none

/-- `cockpit_router_normalize_host_params` -/
def normalizeHostParams (userName : String) (options : JsonObject) : JsonObject :=
  let sharable := (getString options "session" none).join
  let user := (getString options "user" none).join
  let fallback := user.isSome || options.hasMember "host-key"
  let needsPrivate :=
    if sharable.isSome then false
    else if fallback && options.hasMember "temp-session" then
      (getBool options "temp-session" true).getD true
    else fallback
  let options := if sharable.isNone then options.removeMember "temp-session" else options
  let options := if user = some userName then options.removeMember "user" else options
  if needsPrivate then options.setStringMember "session" "private" else options

/-! ### Peers -/

/-- `CockpitPeer`, less what it keeps for authorization.  `other` says whether there is a process,
    `timeout` whether the timeout source is set. -/
structure Peer where
  channels : List String
  nodup : channels.Nodup
  frozen : List String
  other : Bool
  inited : Bool
  closed : Bool
  problem : Option String
  failure : Option JsonObject
  timeout : Bool

namespace Peer

/-- `cockpit_peer_new` -/
def new : Peer := ⟨[], List.nodup_nil, [], false, false, false, none, none, false⟩

variable (config : JsonObject)

/-- `fail_start_problem`: the problem of the failed "init", or the configured one. -/
def failStartProblem (peer : Peer) : Option String :=
  match peer.failure.bind (fun failure => (getString failure "problem" none).join) with
  | some problem => some problem
  | none => (getString config "problem" none).join

/-- Whether a bridge is expected to cycle back up: a "timeout" that is not negative. -/
def cycles : Bool :=
  match getInt config "timeout" (-1) with
  | some timeout => decide (0 ≤ timeout)
  | none => false

/-- `cockpit_peer_ensure`, where `spawned` says whether the process could be spawned. -/
def ensure (spawned : Bool) (peer : Peer) : Peer :=
  if peer.other then peer
  else if spawned then { peer with other := true }
  else { peer with problem := peer.failStartProblem config, closed := true }

/-- A channel is kept track of, and the timeout source is removed. -/
def track (peer : Peer) (channel : String) : Peer :=
  { peer with
    channels := peer.channels.insert channel, nodup := peer.nodup.insert, timeout := false }

/-- A channel is not kept track of any more. -/
def forget (peer : Peer) (channel : String) : Peer :=
  { peer with channels := peer.channels.erase channel, nodup := peer.nodup.erase channel }

/-- The problem that `on_other_closed` finds in how the process ended. -/
def exitProblem : ExitStatus → String
  | .signaled signal => if signal = 15 ∨ signal = 1 then "terminated" else "internal-error"
  | .exited code => if code ≠ 0 then "internal-error" else "disconnected"

end Peer

/-! ### The state -/

/-- Who sent a "close" to the client: a local channel, a peer of its own accord, or the process of a
    peer, whose messages are forwarded. -/
inductive Closer where
  | channel
  | peer (id : Nat)
  | process (id : Nat)
  deriving DecidableEq, Repr

/-- What is recorded: an "open" of the client, an "open" that goes to the rules, one that a fence
    holds up, and a "close" sent to the client. -/
inductive Entry where
  | opened (channel : String)
  | offered (channel : String)
  | blocked (channel : String)
  | closed (channel : String) (closer : Closer)
  deriving DecidableEq, Repr

/-- The release of the channels that a fence has held up: which they were, what the transport held
    when it began, and how long the log was. -/
structure Release where
  all : List String
  start : Transport
  logged : Nat

/-- Why a loop thaws one channel after the other: the end of `on_channel_closed`, a peer's "init", or
    the end of a peer. -/
inductive TaskKind where
  | release (r : Release)
  | init (peer : Nat)
  | ended (peer : Nat) (problem : Option String)

/-- A loop that thaws channels: those still to come, and how many thaws were in progress when it
    began. -/
structure Task where
  kind : TaskKind
  todo : List String
  base : Nat

/-- `CockpitRouter` with its peers and its transport. -/
structure Bridge where
  transport : Transport
  initHost : Option String
  /-- The ids of the local channels. -/
  channels : List String
  groups : AList (fun _ : String => String)
  fences : List String
  fenced : List String
  peers : Nat → Peer
  /-- The peers in the order in which they were connected to the transport. -/
  connected : List Nat
  /-- The "open" messages that the process of a peer was sent and has not closed. -/
  given : List (Nat × String)
  /-- The loops in progress, innermost first. -/
  tasks : List Task
  spawns : Nat
  log : List Entry
  /-- The problem that the transport was closed with. -/
  transportProblem : Option String
  /-- Whether an uninitialized variable was read. -/
  undefined : Bool

namespace Bridge

/-- `cockpit_router_new`, with the peers of its rules. -/
def new (connected : List Nat) : Bridge where
  transport := Transport.new
  initHost := none
  channels := []
  groups := ∅
  fences := []
  fenced := []
  peers := fun _ => Peer.new
  connected := connected
  given := []
  tasks := []
  spawns := 0
  log := []
  transportProblem := none
  undefined := false

variable (b : Bridge)

/-- `cockpit_transport_close` -/
def closeTransport (problem : String) : Bridge :=
  { b with transportProblem := some problem }

/-- An entry of the log. -/
def record (entry : Entry) : Bridge := { b with log := b.log ++ [entry] }

variable (S : Setup) (channel : String)

/-- Freezing a channel and emitting its "open" message, which is held back then. -/
def requeue (options : JsonObject) (data : Bytes) :
    Bridge :=
  { b with
    transport := (b.transport.freezeChannel S.alloc channel).emit (some channel)
      (.control (some "open") options data) }

/-- A changed peer. -/
def setPeer (id : Nat) (peer : Peer) : Bridge :=
  { b with peers := Function.update b.peers id peer }

/-! ### Opening channels -/

/-- `create_channel`; the new channel freezes itself. -/
def createChannel : Bridge :=
  { b with
    channels := b.channels ++ [channel]
    transport := b.transport.freezeChannel S.alloc channel }

/-- `process_open_channel`.  A "group" that is not a string leaves the variable of that name without
    a value. -/
def processOpenChannel (options : JsonObject) :
    Bridge :=
  match (getString options "group" (some "default")).join with
  | none => { b with undefined := true }
  | some group =>
    createChannel
      { b with
        fences := if group = "fence" then b.fences.insert channel else b.fences
        groups := b.groups.insert channel group } S channel

/-- `cockpit_peer_handle`; what it returns, and the state. -/
def peerHandle (id : Nat) (channel : String) (options : JsonObject) :
    Bridge × Bool :=
  let spawning := !(b.peers id).closed && !(b.peers id).other
  let peer :=
    if (b.peers id).closed then b.peers id
    else (b.peers id).ensure (S.config id) (S.spawn b.spawns)
  let b :=
    { b with
      spawns := if spawning then b.spawns + 1 else b.spawns
      connected := b.connected.insert id }
  if peer.closed then
    match peer.problem with
    | some _ => ((b.setPeer id peer).record (.closed channel (.peer id)), true)
    | none => (b.setPeer id peer, false)
  else
    let peer := peer.track channel
    if peer.inited then
      ({ b.setPeer id peer with given := b.given ++ [(id, channel)] }, true)
    else
      let peer := { peer with frozen := peer.frozen ++ [channel] }
      ((b.setPeer id peer).requeue S channel options (S.jsonWrite options), true)

/-- `router_rule_invoke` -/
def invoke (options : JsonObject) :
    RouterCallback → Bridge × Bool
  | .channel => (b.processOpenChannel S channel options, true)
  | .peer select => b.peerHandle S (select options) channel options
  | .notSupported => (b.createChannel S channel, true)

/-- The loop over the rules in `process_open`. -/
def offer (b : Bridge) (S : Setup) (channel : String) (options : JsonObject) :
    List RouterRule → Bridge
  | [] => b
  | rule :: rules =>
    if rule.applies S options then
      match b.invoke S channel options rule.callback with
      | (b', true) => b'
      | (b', false) => offer b' S channel options rules
    else offer b S channel options rules

/-- `process_open`, after "init".  An "open" with an invalid "host" goes to the callback of the
    default rule. -/
def processOpen (initHost : String) (channel : Option String)
    (options : JsonObject) (data : Bytes) : Bridge :=
  match channel with
  | none => b.closeTransport "protocol-error"
  | some channel =>
    if channel ∈ b.channels then b.closeTransport "protocol-error"
    else if b.fences ≠ [] ∧ channel ∉ b.fences then
      ({ b with fenced := b.fenced ++ [channel] }.requeue S channel options data).record
        (.blocked channel)
    else
      match normalizeHost initHost options with
      | none => (b.record (.offered channel)).createChannel S channel
      | some options =>
        let options := normalizeHostParams S.userName options
        offer (b.record (.offered channel)) S channel options S.rules

end Bridge

end Cockpit
