import Cockpit.Kubernetes.Watch
import Cockpit.Lib.Modify
import Cockpit.Lib.Run

namespace Cockpit.Kube

/-!
# `pkg/kubernetes/scripts/kube-client.js`: `kubeLoader`

A loader has one table of objects, and two ways for something to get there: the frames of its
watches, which wait in a batch, and results that are handled at once.  Whoever listens is told what
is present and what was removed.

Watches and listeners are numbered in the order in which they are made.  A call that raises an
error ends with `Except.error`, and what it did until then stays.

* `Loader.adjustNamespace`, `Loader.resetLoader` — what drops objects and watches;
* `Loader.step` — a loader with its watches, for all that may happen to them.
-/

variable {K : KubeWatch}

/-- What a listener is called with. -/
inductive Notification where
  /-- At first, all that there is. -/
  | full (objects : Objects)
  | change (present removed : Objects)
  | reset

/-- A call of a listener, with the objects that there are when it is called. -/
structure Delivery where
  listener : Nat
  notification : Notification
  objects : Objects

/-- A watch in `watching`, or one that was there. -/
structure Watch (K : KubeWatch) where
  path : String
  what : String
  global : Bool
  nameSpace : Option String
  /-- `none` is `NaN`, and that is what comes of adding to a property that is not there. -/
  references : Option Int
  state : K.State

/-- `limits.namespace` -/
inductive Limit where
  | all
  | one (nameSpace : String)
  | many (nameSpaces : List String)
deriving DecidableEq, Repr

/-- The keys of `only`; `none` is `null`. -/
def Limit.only : Limit → Option (List String)
  | .all => none
  | .one nameSpace => some [nameSpace]
  | .many nameSpaces => some nameSpaces

/-- What `watch` returns: the watch, or a promise for several ones, which all are cancelled by its
    `cancel`. -/
structure Handle where
  what : String
  parts : List Nat
  /-- Whether it was cancelled since it was made. -/
  cancelled : Bool := false
deriving DecidableEq, Repr

structure Loader (K : KubeWatch) where
  callbacks : List (Option Nat) := []
  /-- Listeners that are yet to be called for the first time. -/
  timeouts : List Nat := []
  listened : Nat := 0
  nameSpace : Limit := .all
  watching : AList (fun _ : String => Nat) := ∅
  watches : List (Watch K) := []
  objects : Objects := ∅
  batch : Option (List Frame) := none
  batchTimeout : Bool := false
  /-- What `watch` returned, and how many of these were there at the last reset. -/
  handles : List Handle := []
  handlesReset : Nat := 0
  log : List Delivery := []

/-! ## Objects -/

/-- The variables of `handleFlush`. -/
structure Drain where
  objects : Objects
  present : Objects := ∅
  removed : Objects := ∅

def Drain.store (d : Drain) (link : String) (resource : Resource) : Drain :=
  { d with objects := d.objects.insert link resource, present := d.present.insert link resource }

/-- `!version`: it is not a number, or zero. -/
def noVersion (version : Option Int) : Bool := version = none || version = some 0

/-- The newer one is there already. -/
def isStale (current : Option Resource) (resource : Resource) : Bool :=
  let cVersion := resource.version
  let lVersion := current.bind Resource.version
  !(noVersion cVersion || noVersion lVersion || lVersion.getD 0 ≤ cVersion.getD 0)

/-- What `handleFlush` does with a frame whose resource has a link. -/
def Drain.apply (d : Drain) (frame : Frame) (link : String) (resource : Resource) : Drain :=
  if frame.type = "DELETED" then
    { objects := d.objects.erase link
      present := d.present.erase link
      removed := d.removed.insert link resource }
  else if frame.checkResourceVersion then
    if isStale (d.objects.lookup link) resource then d else d.store link resource
  else d.store link resource

/-- The loop of `handleFlush`, and whether it came to its end: a link that cannot be decoded raises
    an error. -/
def Drain.loop : List Frame → Drain → Drain × Bool
  | [], d => (d, true)
  | frame :: frames, d =>
    match frame.object with
    | none => loop frames d
    | some resource =>
      match resource.link with
      | none => (d, false)
      | some link => loop frames (d.apply frame link resource)

namespace Loader

variable (l : Loader K)

/-- `handleFlush` up to `invoke`, and what this is called with. -/
def flush : Except (Loader K) (Loader K × Option (Objects × Objects)) :=
  match l.batch with
  | none => .ok (l, none)
  | some drain =>
    let (d, ended) := Drain.loop drain { objects := l.objects }
    let l := { l with batch := none, objects := d.objects }
    if ended then .ok (l, some (d.present, d.removed)) else .error l

def invokeCallbacks (notification : Notification) : Loader K :=
  { l with log := l.log ++ l.callbacks.filterMap fun func =>
      func.map fun listener => ⟨listener, notification, l.objects⟩ }

/-- `handleFlush(invokeCallbacks)` -/
def handleFlush : Except (Loader K) (Loader K) := do
  let (l, changes) ← l.flush
  match changes with
  | none => return l
  | some (present, removed) => return l.invokeCallbacks (.change present removed)

def handleFrames (frames : List Frame) : Except (Loader K) (Loader K) :=
  let l := { l with batch := some (l.batch.getD [] ++ frames) }
  if frames ≠ [] ∧ l.batchTimeout then .ok l
  else { l with batchTimeout := l.batchTimeout || frames != [] }.handleFlush

def handleTimeout : Except (Loader K) (Loader K) :=
  { l with batchTimeout := false }.handleFlush

/-- The frames that are made of objects. -/
def objectFrames (objects : List Resource) (removed : Bool) (kind : Option String) : List Frame :=
  objects.map fun resource =>
    { type := if removed then "DELETED" else "ADDED"
      object := some (if truthy kind then { resource with kind := kind } else resource)
      checkResourceVersion := true }

def handleObjects (objects : List Resource) (removed : Bool) (kind : Option String) :
    Except (Loader K) (Loader K) := do
  let l ← l.handleFrames (objectFrames objects removed kind)
  l.handleFlush

/-- `response.data` of a request of `loadObjects` -/
structure Response where
  resource : Resource
  items : Option (List Resource) := none

/-- `kind.indexOf("List") === kind.length - 4`, where `indexOf` may be `-1` -/
def isList (kind : String) : Bool :=
  let index : Int := match Lib.search "List".toList kind.toList with
    | none => -1
    | some i => i
  index = (kind.length : Int) - 4

/-- A request of `loadObjects` is answered. -/
def loaded (response : Response) : Except (Loader K) (Loader K) :=
  match response.resource.kind with
  | none => .ok l
  | some kind =>
    if kind = "" then .ok l
    else if isList kind then
      match response.items with
      | none => .error l
      | some items =>
        l.handleObjects items false (some (String.ofList (kind.toList.take (kind.length - 4))))
    else l.handleObjects [response.resource] false none

/-! ## Watches -/

/-- The lists that a watch passes to its callback. -/
def passFrames : List (List Frame) → Loader K → Except (Loader K) (Loader K)
  | [], l => .ok l
  | frames :: passed, l => do
    let l ← l.handleFrames frames
    passFrames passed l

variable (i : Nat)

def watchEvent (event : K.Event) : Except (Loader K) (Loader K) :=
  match l.watches[i]? with
  | none => .ok l
  | some w =>
    let (state, passed) := K.step w.state event
    passFrames passed { l with watches := l.watches.modify i fun w => { w with state := state } }

/-- `cancelWatch` -/
def cancelWatch : Except (Loader K) (Loader K) :=
  match l.watches[i]? with
  | none => .ok l
  | some w =>
    let (state, passed) := K.cancel w.state
    passFrames passed { l with watches := l.watches.modify i fun w => { w with state := state } }

variable (what : String)

/-- The path of a type in a namespace. -/
def watchPath (nameSpace : Option String) : String :=
  let schema := schemaOf what
  schema.api ++
    (if !schema.global && truthy nameSpace then "/namespaces/" ++ nameSpace.getD "" else "") ++
    "/" ++ schema.type

def ensureWatch (nameSpace : Option String)
    (increment : Option Int) : Loader K × Nat :=
  let path := watchPath what nameSpace
  let l := if path ∈ l.watching then l
    else { l with
      watching := l.watching.insert path l.watches.length
      watches := l.watches ++ [{
        path := path
        what := what
        global := (schemaOf what).global
        nameSpace := nameSpace
        references := none
        state := K.create path }] }
  let i := (l.watching.lookup path).getD 0
  ({ l with watches := l.watches.modify i fun w =>
      { w with references := w.references.bind fun n => increment.map (n + ·) } }, i)

/-- The promises of a list of namespaces. -/
def ensureParts (what : String) (increment : Option Int) :
    List String → Loader K → List Nat → Loader K × List Nat
  | [], l, parts => (l, parts)
  | val :: vals, l, parts =>
    let (l, i) := l.ensureWatch what (some val) increment
    ensureParts what increment vals l (parts ++ [i])

def ensureWatches (increment : Option Int) : Loader K × List Nat :=
  match l.nameSpace with
  | .all =>
    let (l, i) := l.ensureWatch what none increment
    (l, [i])
  | .one nameSpace =>
    let (l, i) := l.ensureWatch what (some nameSpace) increment
    (l, [i])
  | .many nameSpaces => ensureParts what increment nameSpaces l []

/-- `loader.watch(what)` -/
def watch : Loader K :=
  let (l, parts) := l.ensureWatches what (some 1)
  { l with handles := l.handles ++ [⟨what, parts, false⟩] }

/-- The `cancel` that a watch is given: it counts references, at the path where the watch was. -/
def cancelPart : Except (Loader K) (Loader K) :=
  match l.watches[i]? with
  | none => .ok l
  | some part =>
    match l.watching.lookup part.path with
    | none => .ok l
    | some j =>
      let l := { l with watches := l.watches.modify j fun w =>
        { w with references := w.references.map (· - 1) } }
      if ((l.watches[j]?).bind Watch.references).any (· ≤ 0) then do
        let l ← l.cancelWatch j
        return { l with watching := l.watching.erase part.path }
      else .ok l

def cancelParts : List Nat → Loader K → Except (Loader K) (Loader K)
  | [], l => .ok l
  | i :: parts, l => do
    let l ← l.cancelPart i
    cancelParts parts l

/-- The `cancel` of what `watch` returned. -/
def cancel (h : Nat) : Except (Loader K) (Loader K) :=
  match l.handles[h]? with
  | none => .ok l
  | some handle =>
    cancelParts handle.parts
      { l with handles := l.handles.modify h fun handle => { handle with cancelled := true } }

/-! ## The namespace limit -/

/-- `name in only`, where `null` is the name `null`. -/
def isIn (name : Option String) (only : List String) : Bool :=
  name.getD "null" ∈ only || name.getD "null" ∈ inherited

/-- The variables of the loop that removes objects. -/
def removeObjects (only : List String) : List String → Drain → Drain × Bool
  | [], d => (d, true)
  | link :: links, d =>
    match d.objects.lookup link with
    | none => removeObjects only links d
    | some resource =>
      match resource.metadata with
      | none => (d, false)
      | some metadata =>
        if truthy metadata.nameSpace && !isIn metadata.nameSpace only then
          removeObjects only links
            { objects := d.objects.erase link
              present := d.present.erase link
              removed := d.removed.insert link resource }
        else removeObjects only links d

/-- The objects that are not in these namespaces are removed. -/
def removeOutside (only : Option (List String)) (d : Drain) : Drain × Bool :=
  match only with
  | none => (d, true)
  | some only => removeObjects only d.objects.keys d

/-- Whether a watch is not applicable to these namespaces. -/
def inapplicable (w : Watch K) : Option (List String) → Bool
  | none => truthy w.nameSpace
  | some only => !w.global && !isIn w.nameSpace only

/-- The loop that cancels watches, with those to `reconnect`. -/
def cancelInapplicable (only : Option (List String)) :
    List String → Loader K → List (Watch K) → Except (Loader K) (Loader K × List (Watch K))
  | [], l, reconnect => .ok (l, reconnect)
  | path :: paths, l, reconnect =>
    match (l.watching.lookup path).bind fun i => l.watches[i]?.map fun w => (i, w) with
    | none => cancelInapplicable only paths l reconnect
    | some (i, w) =>
      if inapplicable w only then do
        let l ← l.cancelWatch i
        cancelInapplicable only paths { l with watching := l.watching.erase path } (reconnect ++ [w])
      else cancelInapplicable only paths l reconnect

def reconnectAll : List (Watch K) → Loader K → Loader K
  | [], l => l
  | w :: ws, l => reconnectAll ws (l.ensureWatches w.what w.references).1

def adjustNamespace (value : Limit) : Except (Loader K) (Loader K) := do
  let (l, changes) ← { l with batchTimeout := false, nameSpace := value }.flush
  let (present, removed) := changes.getD (∅, ∅)
  let (d, ended) := removeOutside value.only ⟨l.objects, present, removed⟩
  let l := { l with objects := d.objects }
  if ended then
    let (l, reconnect) ← cancelInapplicable value.only l.watching.keys l []
    return reconnectAll reconnect (l.invokeCallbacks (.change d.present d.removed))
  else .error l

/-! ## Reset -/

def cancelAll : List Nat → Loader K → Except (Loader K) (Loader K)
  | [], l => .ok l
  | i :: old, l => do
    let l ← l.cancelWatch i
    cancelAll old l

def resetLoader : Except (Loader K) (Loader K) := do
  let old := l.watching.entries.map (·.2)
  let l ← cancelAll old { l with
    batchTimeout := false
    batch := none
    watching := ∅
    handlesReset := l.handles.length }
  return { l with objects := ∅, nameSpace := .all }.invokeCallbacks .reset

/-! ## Listeners -/

def listen (early : Bool) : Loader K :=
  { l with
    listened := l.listened + 1
    callbacks := if early then some l.listened :: l.callbacks else l.callbacks ++ [some l.listened]
    timeouts := l.timeouts ++ [l.listened] }

/-- A listener is called for the first time. -/
def listening : Loader K :=
  if i ∈ l.timeouts then
    { l with
      timeouts := l.timeouts.erase i
      log := l.log ++ [⟨i, .full l.objects, l.objects⟩] }
  else l

/-- The `cancel` of what `listen` returned. -/
def unlisten : Loader K :=
  { l with
    timeouts := l.timeouts.erase i
    callbacks := l.callbacks.map fun callback => if callback = some i then none else callback }

/-! ## Runs -/

inductive Event (K : KubeWatch) where
  | watch (what : String)
  | cancel (handle : Nat)
  | limit (value : Limit)
  | reset
  | handle (objects : List Resource) (removed : Bool) (kind : Option String)
  | loaded (response : Response)
  | timeout
  | listen (early : Bool)
  | listening (listener : Nat)
  | unlisten (listener : Nat)
  /-- Something happens to a watch. -/
  | watchEvent (watch : Nat) (event : K.Event)

def call : Event K → Except (Loader K) (Loader K)
  | .watch what => .ok (l.watch what)
  | .cancel handle => l.cancel handle
  | .limit value => l.adjustNamespace value
  | .reset => l.resetLoader
  | .handle objects removed kind => l.handleObjects objects removed kind
  | .loaded response => l.loaded response
  | .timeout => if l.batchTimeout then l.handleTimeout else .ok l
  | .listen early => .ok (l.listen early)
  | .listening listener => .ok (l.listening listener)
  | .unlisten listener => .ok (l.unlisten listener)
  | .watchEvent watch event => l.watchEvent watch event

/-- An error ends what raised it, and the loader goes on. -/
def settle : Except (Loader K) (Loader K) → Loader K
  | .ok l => l
  | .error l => l

def step (event : Event K) : Loader K := settle (l.call event)

end Loader

end Cockpit.Kube
