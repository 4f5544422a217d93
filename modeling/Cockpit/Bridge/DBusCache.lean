import Cockpit.Lib.CountedQueue
import Cockpit.Lib.HttpMessage
import Cockpit.Bridge.DBusRules
import Cockpit.Bridge.DBusContents

namespace Cockpit

open Lib Contents Paths Variant

/-!
# `src/bridge/cockpitdbuscache.c`

The cache of D-Bus properties, as `src/bridge/cockpitdbusjson.c` drives it: batches of calls
in progress, the barriers that wait behind them, and the queue of introspections.

Dropping the last reference of the head batch starts `batch_progress`, which calls barrier
callbacks, which make and complete other batches.  So the functions that can get there are
not functions here but a stack of `DBusTask`s: what the active C functions still have to do, the
innermost first.  An `Event` from outside comes when the stack is empty, and `Event.run` lets
the innermost function go on.  Everything between two calls of `batch_unref` is one step.

A batch is known by an identity of its own, which stands for its address.  `refs` and
`barrier_progressing_rounds` count things that are in memory at the same time and are natural
numbers; `number` counts all batches ever made and wraps around.  A cache that is disposed is
not modelled: there are no cancelled calls and no orphaned batches.

The tables of the source are walked front to back.
-/

/-! ### Data -/

/-- A `PropertiesChangedData`; `seq` is when the signal arrived. -/
structure PropertiesChanged (V : Type) where
  path : CStr
  interface : CStr
  changed : Dict V
  invalidated : List CStr
  seq : Nat

/-- The `CockpitDBusIntrospectFunc`s, each with its `user_data`. -/
inductive IntrospectFunc (V : Type)
  | processPropertiesChanged (batch : Nat) (pcd : PropertiesChanged V)
  | processInterface (batch : Nat) (path : CStr) (dict : Dict V)
  | processPoke (batch : Nat) (path : CStr)
  | introspectReady (seq : Nat)

/-- An `IntrospectData` -/
structure IntrospectData (V : Type) where
  interface : Option CStr
  path : CStr
  callback : Option (IntrospectFunc V)
  batch : Nat
  introspecting : Bool

/-- The `CockpitDBusBarrierFunc`s, each with its `user_data`. -/
inductive BarrierFunc (V : Type)
  | waitComplete (seq : Nat)
  | processPropertiesBarrier (pcd : PropertiesChanged V)
  | processInterfacesAdded (managerAdded : Option CStr) (path : CStr)
      (interfaces : List (CStr × Dict V))
  | processInterfacesRemoved (managerAdded : Option CStr) (path : CStr) (interfaces : List CStr)

/-- A `BarrierData` -/
structure Barrier (V : Type) where
  number : UInt32
  callback : BarrierFunc V

/-- A call in flight, with its `GetData`, `GetAllData` or `GetManagedObjectsData`.  `seq` is
    the signal that invalidated the property. -/
inductive BusCall
  | get (batch : Nat) (path iface property : CStr) (seq : Nat)
  | getAll (batch : Nat) (path iface : CStr)
  | getManagedObjects (batch : Nat) (path : CStr)

mutual

/-- A `GDBusNodeInfo`: the names of its interfaces, and its child nodes. -/
inductive Node
  | mk (interfaces : List (Option CStr)) (nodes : Nodes)

/-- Child nodes, with the `path` of each. -/
inductive Nodes
  | nil
  | cons (path : Option CStr) (child : Node) (rest : Nodes)

end

/-- `node->interfaces` -/
def Node.interfaces : Node → List (Option CStr)
  | .mk interfaces _ => interfaces

/-- What an active function still has to do. -/
inductive DBusTask (V : Type)
  /-- a call of `batch_unref` -/
  | batchUnref (batch : Nat)
  /-- the loop of `batch_progress` -/
  | batchProgress
  /-- a call of `barrier_progress`, its outer loop, and its inner loop with the `batch` in it -/
  | barrierProgress
  | barrierRounds
  | barrierLoop (batch : Option Nat)
  | introspectComplete (id : IntrospectData V)
  | introspectNext
  | introspectQueue (batch : Nat) (path : CStr)
  | scrapeVariant (batch : Option Nat) (paths : List CStr)
  /-- the loop of `process_interfaces`; `leftover` has the batch of the `process_paths` that
      called it, and the snapshot -/
  | processInterfaces (batch : Option Nat) (leftover : Option (Nat × List CStr)) (path : CStr)
      (dict : List (CStr × Dict V))
  /-- the rest of the body of `process_paths` -/
  | processLeftover (batch : Nat) (path : CStr) (snap : List CStr)
  /-- the loop of `process_paths`, and the one behind it -/
  | processPaths (batch : Nat) (snapshot : List CStr) (dict : List (CStr × List (CStr × Dict V)))
  /-- the two calls at the end of `on_get_all_reply` -/
  | ensureChange (batch : Nat) (path iface : CStr)
  /-- `cockpit_dbus_cache_poke` -/
  | poke (path : CStr) (interface : Option CStr)
  /-- `cockpit_dbus_cache_barrier` -/
  | barrier (callback : BarrierFunc V)

/-- `struct _CockpitDBusCache`, and the active functions.  Of the interfaces in `introspected`
    only the names matter here.  `arrived` counts the events, `watches` has the requests that
    made a batch, and `fault` is set when the assertion of `batch_unref` fails. -/
structure DBusCache (V : Type) where
  introspected : List CStr
  introspects : List (IntrospectData V)
  rules : DBusRules
  managed : List CStr
  contents : Contents V
  batches : CountedQueue UInt32
  barriers : List (Barrier V)
  number : UInt32
  progressing : Bool
  rounds : Nat
  calls : List BusCall
  tasks : List (DBusTask V)
  arrived : Nat
  watches : List (Nat × Nat)
  fault : Bool

variable {V : Type}

namespace DBusCache

/-- `cockpit_dbus_cache_new`, with the interfaces that its channel knows already. -/
def new (introspected : List CStr) : DBusCache V where
  introspected := introspected
  introspects := []
  rules := .new
  managed := []
  contents := .empty
  batches := .empty
  barriers := []
  number := 1
  progressing := false
  rounds := 0
  calls := []
  tasks := []
  arrived := 0
  watches := []
  fault := false

variable (s : DBusCache V)

/-- Change the contents. -/
def edit (f : Contents V → Contents V) : DBusCache V :=
  { s with contents := f s.contents }

/-- Call functions: the first task is the innermost. -/
def push (ts : List (DBusTask V)) : DBusCache V := { s with tasks := ts ++ s.tasks }

/-! ### Batches and barriers -/

/-- `batch_create`; the new batch is `s.batches.next`. -/
def batchCreate : DBusCache V :=
  { s with batches := s.batches.create (s.number + 1), number := s.number + 1 }

variable (batch : Nat)

/-- `batch_ref` -/
def batchRef : DBusCache V :=
  { s with batches := s.batches.ref batch }

/-- `batch_unref` -/
def batchUnref : DBusCache V :=
  match s.batches.find batch with
  | some data =>
    if 0 < data.refs then ({ s with batches := s.batches.unref batch } : DBusCache V).push [.batchProgress]
    else { s with fault := true }
  | none => { s with fault := true }

/-- One turn of the loop of `batch_progress`. -/
def batchProgress : DBusCache V :=
  match s.batches.items with
  | [] => s
  | batch :: _ =>
    if 0 < batch.refs then s
    else
      (({ s with batches := s.batches.pop } : DBusCache V).edit Contents.emitUpdate).push
        [.barrierProgress, .batchProgress]

/-- `barrier_progress`, up to its outer loop. -/
def barrierProgress : DBusCache V :=
  if s.progressing then { s with rounds := s.rounds + 1 }
  else ({ s with progressing := true, rounds := 1 } : DBusCache V).push [.barrierRounds]

/-- One turn of the outer loop, up to its inner loop. -/
def barrierRounds : DBusCache V :=
  if 0 < s.rounds then
    ({ s with rounds := s.rounds - 1 } : DBusCache V).push
      [.barrierLoop (s.batches.items.head?.map Counted.ident), .barrierRounds]
  else { s with progressing := false }

/-- The test that ends the inner loop.  `stale` is what memory holds where a freed batch had
    its number. -/
def blocks (batch : Option Nat) (stale number : UInt32) : Bool :=
  match batch with
  | none => false
  | some b => ((s.batches.find b).map Counted.val).getD stale ≤ number

/-! ### Introspection -/

/-- `introspect_next` -/
def introspectNext : DBusCache V :=
  match s.introspects with
  | [] => s
  | id :: rest =>
    if id.introspecting then s
    else { s with introspects := { id with introspecting := true } :: rest }

/-- `introspect_queue` -/
def introspectQueue (path : CStr) (interface : Option CStr)
    (callback : Option (IntrospectFunc V)) : DBusCache V :=
  let s := s.batchRef batch
  ({ s with introspects := s.introspects ++ [⟨interface, path, callback, batch, false⟩] } :
    DBusCache V).introspectNext

/-- Make a D-Bus call for a batch. -/
def busCall (call : BusCall) : DBusCache V :=
  let s := s.batchRef batch
  { s with calls := s.calls ++ [call] }

/-- `retrieve_properties` -/
def retrieveProperties (path iface : CStr) : DBusCache V :=
  if iface.bytes = ascii "org.freedesktop.DBus.Properties" then s
  else s.busCall batch (.getAll batch path iface)

/-- `retrieve_managed_objects` -/
def retrieveManagedObjects (namespacePath : CStr) (batch : Nat) : DBusCache V :=
  s.busCall batch (.getManagedObjects batch namespacePath)

/-- `cockpit_dbus_interface_info_push`, for a name that is not there. -/
def interfaceInfoPush (name : CStr) : DBusCache V :=
  if name ∈ s.introspected then s else { s with introspected := name :: s.introspected }

section

variable [Variant V]

/-- `process_properties_changed`, `process_interface`, `process_poke` and `on_introspect_ready`. -/
def introspectFunc (iface : CStr) : IntrospectFunc V → DBusCache V
  | .processPropertiesChanged batch pcd =>
    let s := s.edit (·.processProperties (some pcd.seq) pcd.path iface pcd.changed)
    let s := pcd.invalidated.foldl
      (fun s property => s.busCall batch (.get batch pcd.path iface property pcd.seq)) s
    s.push [.batchUnref batch]
  | .processInterface batch path dict =>
    (s.edit (·.processProperties none path iface dict)).push [.batchUnref batch]
  | .processPoke batch path => (s.retrieveProperties batch path iface).push [.batchUnref batch]
  | .introspectReady seq => s.edit (·.say (.ready seq))

/-- `introspect_maybe` -/
def introspectMaybe (batch : Option Nat) (path interface : CStr)
    (callback : IntrospectFunc V) : DBusCache V :=
  if interface ∈ s.introspected then s.introspectFunc interface callback
  else
    match batch with
    | none =>
      ((s.batchCreate).introspectQueue s.batches.next path (some interface) (some callback)).push
        [.batchUnref s.batches.next]
    | some batch =>
      ((s.batchRef batch).introspectQueue batch path (some interface) (some callback)).push
        [.batchUnref batch]

/-- `introspect_complete`; the callback gets the interface, or a pretend one. -/
def introspectComplete (id : IntrospectData V) : DBusCache V :=
  let s := s.push [.batchUnref id.batch]
  match id.interface with
  | none => s
  | some iface =>
    let s := s.interfaceInfoPush iface
    match id.callback with
    | none => s
    | some callback => s.introspectFunc iface callback

end

/-! ### Introspection data -/

/-- The loop over the interfaces in `process_introspect_node`, with the snapshot. -/
def introspectInterface (path : CStr) (recursive : Bool)
    (st : DBusCache V × List CStr) (iface : Option CStr) : DBusCache V × List CStr :=
  match iface with
  | none => st
  | some name =>
    let s := st.1.interfaceInfoPush name
    if (ascii "org.freedesktop.DBus.").isPrefixOf name.bytes then
      (s.edit (·.ensureInterfaces path), st.2)
    else
      (if recursive && s.rules.rulesMatch path (some name) none none then
          s.retrieveProperties batch path name
        else s,
        st.2.erase name)

/-- The object path of a child node. -/
def childPath (parent name : CStr) : CStr :=
  if [slash].isPrefixOf name.bytes then name
  else if parent = rootPath then
    ⟨slash :: name.bytes, by simpa [slash] using name.noNul⟩
  else
    ⟨parent.bytes ++ slash :: name.bytes, by
      simpa [slash] using ⟨parent.noNul, name.noNul⟩⟩

mutual

/-- `process_introspect_node`, and the two loops over the snapshot of
    `process_introspect_children`. -/
def processIntrospectNode (batch : Nat) (path : CStr) (recursive : Bool) :
    Node → DBusCache V → DBusCache V
  | .mk interfaces nodes, s =>
    let recursive := recursive && !containOrAncestor s.managed path
    let st := interfaces.foldl (introspectInterface batch path recursive)
      (s, (s.contents.interfaces path).keys)
    let s := st.1.edit (st.2.foldl (processRemoved path))
    if recursive then
      let snapshot := s.contents.cache.keys.filter (hasParent · path)
      let st := processIntrospectChildren batch path nodes (s, snapshot)
      st.1.edit (st.2.foldl processRemovedPath)
    else s

/-- The loop of `process_introspect_children`, with the snapshot. -/
def processIntrospectChildren (batch : Nat) (parentPath : CStr) :
    Nodes → DBusCache V × List CStr → DBusCache V × List CStr
  | .nil, st => st
  | .cons none _ rest, st => processIntrospectChildren batch parentPath rest st
  | .cons (some name) child rest, st =>
    let path := childPath parentPath name
    let s := st.1
    let s :=
      if s.rules.rulesMatch path none none none && !containOrAncestor s.managed path then
        if child.interfaces.isEmpty then s.introspectQueue batch path none none
        else processIntrospectNode batch path true child s
      else s
    processIntrospectChildren batch parentPath rest (s, st.2.erase path)

end

/-! ### Objects and barriers -/

section

variable [Variant V]

/-- The object paths in a value. -/
def variantPaths (value : V) : List CStr := (objectPaths value).dedup

/-- The object paths in a dictionary of values. -/
def dictPaths (dict : Dict V) : List CStr :=
  (dict.flatMap fun entry => objectPaths entry.2).dedup

end

variable (path : CStr)

/-- The tests of a path in `scrape_variant`. -/
def scrapes : Bool :=
  path != rootPath && (s.contents.cache.lookup path).isNone &&
    !containOrAncestor s.managed path && s.rules.rulesMatch path none none none

/-- The loop of `scrape_variant`, with its batch. -/
def scrapePath (st : DBusCache V × Option Nat) (path : CStr) : DBusCache V × Option Nat :=
  if st.1.scrapes path then
    match st.2 with
    | none => (st.1.batchCreate.introspectQueue st.1.batches.next path none none, st.1.batches.next)
    | some batch => (st.1.introspectQueue batch path none none, batch)
  else st

/-- `scrape_variant` -/
def scrapeVariant (batch : Option Nat) (paths : List CStr) : DBusCache V :=
  let s :=
    match batch with
    | none => s
    | some batch => s.batchRef batch
  match paths.foldl scrapePath (s, batch) with
  | (s, none) => s
  | (s, some batch) => s.push [.batchUnref batch]

/-- The test of an interface in `process_interfaces`. -/
def watchesInterface (iface : CStr) : Bool :=
  s.rules.rulesMatch path (some iface) none none

section

variable [Variant V]

/-- The loop of `process_interfaces`, up to the calls in its body. -/
def processInterfaces (batch : Option Nat) (leftover : Option (Nat × List CStr))
    (path : CStr) (dict : List (CStr × Dict V)) : DBusCache V :=
  match dict.dropWhile (fun entry => !s.watchesInterface path entry.1) with
  | [] =>
    let s :=
      match leftover with
      | none => s
      | some (batch, snap) => s.push [.processLeftover batch path snap]
    match batch with
    | none => s
    | some batch => s.push [.batchUnref batch]
  | (iface, inner) :: rest =>
    match batch with
    | none =>
      s.batchCreate.push
        [.processInterfaces (some s.batches.next) leftover path ((iface, inner) :: rest)]
    | some batch =>
      let leftover := leftover.map fun (batch, snap) => (batch, snap.erase iface)
      ((s.batchRef batch).push
        [.scrapeVariant (some batch) (dictPaths inner),
          .processInterfaces (some batch) leftover path rest]).introspectMaybe none path iface
        (.processInterface batch path inner)

/-- The loop of `process_paths`, up to the call of `process_interfaces`, and the end of
    `process_get_managed_objects`. -/
def processPaths (snapshot : List CStr)
    (dict : List (CStr × List (CStr × Dict V))) : DBusCache V :=
  match dict with
  | [] => s.edit (snapshot.foldl processRemovedPath)
  | (path, inner) :: rest =>
    let snap := (s.contents.interfaces path).keys
    (s.batchRef batch).push
      [.processInterfaces (some batch) (some (batch, snap)) path inner,
        .processPaths batch (snapshot.erase path) rest]

/-- `on_wait_complete`, `process_properties_barrier`, `process_interfaces_added` and
    `process_interfaces_removed`. -/
def barrierFunc : BarrierFunc V → DBusCache V
  | .waitComplete seq => s.edit (·.say (.sent seq))
  | .processPropertiesBarrier pcd =>
    let batch := s.batches.next
    ((s.batchCreate.batchRef batch).push
      [.scrapeVariant (some batch) (dictPaths pcd.changed), .batchUnref batch]).introspectMaybe
      (some batch) pcd.path pcd.interface (.processPropertiesChanged batch pcd)
  | .processInterfacesAdded none path interfaces =>
    s.push [.processInterfaces none none path interfaces]
  | .processInterfacesAdded (some manager) path interfaces =>
    let batch := s.batches.next
    ((s.batchCreate.retrieveManagedObjects manager batch).batchRef batch).push
      [.processInterfaces (some batch) none path interfaces, .batchUnref batch]
  | .processInterfacesRemoved managerAdded path interfaces =>
    let batch := s.batches.next
    let s := s.batchCreate
    let s :=
      match managerAdded with
      | none => s
      | some manager => s.retrieveManagedObjects manager batch
    (s.edit (interfaces.foldl (processRemoved path))).push [.batchUnref batch]

/-- The inner loop of `barrier_progress`, up to the call of a callback. -/
def barrierLoop (batch : Option Nat) (stale : UInt32) : DBusCache V :=
  match s.barriers with
  | [] => s
  | barrier :: rest =>
    if s.blocks batch stale barrier.number then s
    else
      (({ s with barriers := rest } : DBusCache V).push [.barrierLoop batch]).barrierFunc
        barrier.callback

/-- `cockpit_dbus_cache_barrier` -/
def barrier (callback : BarrierFunc V) : DBusCache V :=
  match s.batches.items with
  | batch :: _ => { s with barriers := s.barriers ++ [⟨batch.val, callback⟩] }
  | [] => s.barrierFunc callback

/-- The tests of `cockpit_dbus_cache_poke`. -/
def pokes (interface : Option CStr) : Bool :=
  !(match s.contents.cache.lookup path with
    | none => false
    | some interfaces =>
      match interface with
      | none => true
      | some interface => (interfaces.lookup interface).isSome) &&
    !containOrAncestor s.managed path && s.rules.rulesMatch path interface none none

/-- `cockpit_dbus_cache_poke` -/
def poke (interface : Option CStr) : DBusCache V :=
  if s.pokes path interface then
    let batch := s.batches.next
    match interface with
    | some interface =>
      ((s.batchCreate.batchRef batch).push [.batchUnref batch]).introspectMaybe (some batch) path
        interface (.processPoke batch path)
    | none => (s.batchCreate.introspectQueue batch path none none).push [.batchUnref batch]
  else s

/-- Let the innermost function go on. -/
def exec (stale : UInt32) : DBusTask V → DBusCache V
  | .batchUnref batch => s.batchUnref batch
  | .batchProgress => s.batchProgress
  | .barrierProgress => s.barrierProgress
  | .barrierRounds => s.barrierRounds
  | .barrierLoop batch => s.barrierLoop batch stale
  | .introspectComplete id => s.introspectComplete id
  | .introspectNext => s.introspectNext
  | .introspectQueue batch path => s.introspectQueue batch path none none
  | .scrapeVariant batch paths => s.scrapeVariant batch paths
  | .processInterfaces batch leftover path dict => s.processInterfaces batch leftover path dict
  | .processLeftover _ path snap => s.edit (·.processLeftover path snap)
  | .processPaths batch snapshot dict => s.processPaths batch snapshot dict
  | .ensureChange _ path iface => s.edit fun c => (c.ensureProperties path iface).emitChange path iface none
  | .poke path interface => s.poke path interface
  | .barrier callback => s.barrier callback

end

/-- `cockpit_dbus_cache_watch` -/
def watch (path : Option CStr) (isNamespace : Bool) (interface : Option CStr) :
    DBusCache V :=
  match s.rules.add path isNamespace interface none none with
  | (rules, false) => { s with rules := rules }
  | (rules, true) =>
    let isNamespace := isNamespace || path.isNone
    let path := path.getD rootPath
    let batch := s.batches.next
    let s := ({ s with rules := rules } : DBusCache V).batchCreate
    let namespacePath := if isNamespace then some path else foundOrAncestor s.managed path
    (match namespacePath with
      | some namespacePath => s.retrieveManagedObjects namespacePath batch
      | none => s.introspectQueue batch path none none).push [.batchUnref batch]

end DBusCache

/-! ### Events -/

/-- The body of a signal of an `ObjectManager`. -/
inductive ManagerBody (V : Type)
  | interfacesAdded (path : CStr) (interfaces : List (CStr × Dict V))
  | interfacesRemoved (path : CStr) (interfaces : List CStr)

/-- What comes from outside, and `run`.  Replies name their call by its place among those in
    flight; an error is a `none`. -/
inductive DBusEvent (V : Type)
  /-- let the innermost function go on; `stale` is read where a batch was freed -/
  | run (stale : UInt32)
  /-- `handle_dbus_watch`; a request whose `id` is no string gets no reply -/
  | watch (path : Option CStr) (isNamespace : Bool) (interface : Option CStr) (reply : Bool)
  /-- `handle_dbus_unwatch` -/
  | unwatch (path : Option CStr) (isNamespace : Bool) (interface : Option CStr)
  /-- `handle_dbus_call`, for arguments whose type must be found out -/
  | call (path interface : CStr)
  /-- `send_dbus_reply` -/
  | methodReply (path interface : CStr) (body : Option V)
  /-- `on_signal_message`, for a signal that the rules of the channel match -/
  | signal (path interface : CStr)
  /-- `on_properties_signal` -/
  | propertiesSignal (path interface : CStr) (changed : Dict V) (invalidated : List CStr)
  /-- `on_manager_signal`; there is no body when it has a bad type -/
  | managerSignal (path : CStr) (body : Option (ManagerBody V))
  /-- another cache of the channel learns about an interface -/
  | interfaceInfo (name : CStr)
  /-- `on_introspect_reply` -/
  | introspectReply (node : Option Node)
  /-- `on_get_reply` -/
  | getReply (call : Nat) (value : Option V)
  /-- `on_get_all_reply` -/
  | getAllReply (call : Nat) (dict : Option (Dict V))
  /-- `on_get_managed_objects_reply` -/
  | managedReply (call : Nat) (objects : Option (List (CStr × List (CStr × Dict V))))

namespace DBusCache

variable (s : DBusCache V)

/-- Whether `cockpit_dbus_rules_add` adds the rule of a watch. -/
def addsRule (path : Option CStr) (isNamespace : Bool)
    (interface : Option CStr) : Bool :=
  (s.rules.add path isNamespace interface none none).2

variable (k : Nat)

/-- The call at a place has its reply. -/
def takeCall : DBusCache V := { s with calls := s.calls.eraseIdx k }

section

variable [Variant V]

/-- `handle_dbus_watch` -/
def handleWatch (path : Option CStr) (isNamespace : Bool)
    (interface : Option CStr) (reply : Bool) : DBusCache V :=
  let s :=
    if s.addsRule path isNamespace interface then
      { s with watches := (s.arrived, s.batches.next) :: s.watches }
    else s
  let s :=
    if reply then s.push [.poke (path.getD rootPath) none, .barrier (.waitComplete s.arrived)] else s
  s.watch path isNamespace interface

/-- `on_manager_signal` -/
def onManagerSignal (path : CStr) (body : Option (ManagerBody V)) : DBusCache V :=
  let managerAdded := if path ∈ s.managed then none else some path
  let s := { s with managed := Paths.add s.managed path }
  match body with
  | none => s
  | some (.interfacesAdded path interfaces) =>
    s.push [.barrier (.processInterfacesAdded managerAdded path interfaces)]
  | some (.interfacesRemoved path interfaces) =>
    s.push [.barrier (.processInterfacesRemoved managerAdded path interfaces)]

/-- `on_introspect_reply` -/
def onIntrospectReply (node : Option Node) : DBusCache V :=
  match s.introspects with
  | [] => s
  | id :: rest =>
    if id.introspecting then
      let s := ({ s with introspects := rest } : DBusCache V).push
        [.introspectComplete id, .introspectNext]
      match node with
      | none => s
      | some node => processIntrospectNode id.batch id.path id.interface.isNone node s
    else s

/-- `on_get_reply` -/
def onGetReply (value : Option V) : DBusCache V :=
  match s.calls[k]? with
  | some (.get batch path iface property seq) =>
    let s := (s.takeCall k).push [.batchUnref batch]
    match value with
    | none => s
    | some value =>
      (s.edit fun c => processValue (some seq) path iface (c.ensureProperties path iface)
        (property, value)).push [.scrapeVariant none (variantPaths value)]
  | _ => s

/-- `on_get_all_reply` -/
def onGetAllReply (dict : Option (Dict V)) : DBusCache V :=
  match s.calls[k]? with
  | some (.getAll batch path iface) =>
    let s := (s.takeCall k).push [.ensureChange batch path iface, .batchUnref batch]
    match dict with
    | none => s
    | some dict =>
      (s.edit (·.processProperties none path iface dict)).push
        [.scrapeVariant (some batch) (dictPaths dict)]
  | _ => s

/-- `on_get_managed_objects_reply` -/
def onManagedReply
    (objects : Option (List (CStr × List (CStr × Dict V)))) : DBusCache V :=
  match s.calls[k]? with
  | some (.getManagedObjects batch path) =>
    let s := (s.takeCall k).push [.introspectQueue batch path, .batchUnref batch]
    match objects with
    | none => s
    | some objects =>
      let snapshot := s.contents.cache.keys.filter (hasAncestor · path)
      ({ s with managed := Paths.add s.managed path } : DBusCache V).push
        [.processPaths batch snapshot objects]
  | _ => s

/-- An event from outside. -/
def handle : DBusEvent V → DBusCache V
  | .run _ => s
  | .watch path isNamespace interface reply => s.handleWatch path isNamespace interface reply
  | .unwatch path isNamespace interface =>
    { s with rules := (s.rules.remove path isNamespace interface none none).1 }
  | .call path interface => s.introspectMaybe none path interface (.introspectReady s.arrived)
  | .methodReply path interface body =>
    let scrape : List (DBusTask V) :=
      match body with
      | none => []
      | some body => [.scrapeVariant none (variantPaths body)]
    s.push (.poke path (some interface) :: scrape ++ [.barrier (.waitComplete s.arrived)])
  | .signal path interface =>
    s.push [.poke path (some interface), .barrier (.waitComplete s.arrived)]
  | .propertiesSignal path interface changed invalidated =>
    if s.watchesInterface path interface then
      s.push [.barrier
        (.processPropertiesBarrier ⟨path, interface, changed, invalidated, s.arrived⟩)]
    else s
  | .managerSignal path body => s.onManagerSignal path body
  | .interfaceInfo name => s.interfaceInfoPush name
  | .introspectReply node => s.onIntrospectReply node
  | .getReply k value => s.onGetReply k value
  | .getAllReply k dict => s.onGetAllReply k dict
  | .managedReply k objects => s.onManagedReply k objects

/-- One step: the innermost function goes on, or an event comes while none is active. -/
def step (s : DBusCache V) (e : DBusEvent V) : DBusCache V :=
  match s.tasks, e with
  | [], e => { s.handle e with arrived := s.arrived + 1 }
  | t :: ts, .run stale => ({ s with tasks := ts } : DBusCache V).exec stale t
  | _ :: _, _ => s

end

end DBusCache

end Cockpit
