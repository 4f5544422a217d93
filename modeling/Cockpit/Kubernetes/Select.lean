import Cockpit.Kubernetes.HashIndex
import Cockpit.Lib.Run

namespace Cockpit.Kube

/-!
# `pkg/kubernetes/scripts/kube-client.js`: `kubeSelect`

Filters look for objects by keys in an index, and results are kept for as long as nothing changes.
`V` has all values of JavaScript, and `stringify` is `JSON.stringify`.

Dicts are numbered: `loader.objects` is the first one, `empty` the second one, and the others follow
in the order in which they are made.  What is kept about a dict is beside it.

* `Select.digestFilter`, `Select.digestsFilter` — what it returns;
* `Select.step` — selections, filters and the objects of the loader, for all that may happen.
-/

variable {V : Type}

/-- Links and objects. -/
abbrev Dict (V : Type) := AList fun _ : JsString => V

/-- What a filter has: `digest`, `digests`, or a function of its own. -/
inductive Criterion (V : Type) where
  /-- `none` is `null` or `undefined`. -/
  | digest (f : List V → Option JsString)
  | digests (f : List V → List JsString)
  | filter

structure Filter (V : Type) where
  name : JsString
  criterion : Criterion V

variable (filter : Filter V)

/-- The keys with which an object is put in the index. -/
def Filter.indexKeys (object : V) : List JsString :=
  match filter.criterion with
  | .digest f =>
    match f [object] with
    | none => []
    | some key => if key = [] then [] else [key]
  | .digests f => f [object]
  | .filter => []

/-- What is kept about a dict. -/
structure Data where
  version : Nat
  length : Option Nat := none
  selection : Bool := false
  indexed : Bool := false
  /-- Results that were calculated, by what was asked for. -/
  results : List (JsString × Nat) := []
deriving DecidableEq, Repr

/-- A dict, with its methods, and what is kept about it. -/
structure Box (V : Type) where
  objects : Dict V
  methods : List (Filter V) := []
  data : Option Data := none

/-- A filter that was applied: to which selection, with which objects, and what it returned. -/
structure Call (V : Type) where
  selection : Nat
  version : Nat
  filter : Filter V
  args : List V
  objects : Dict V
  result : Nat

structure Select (V : Type) where
  filters : List (Filter V) := []
  index : Option HashIndex := none
  version : Nat := 1
  boxes : List (Box V) := [{ objects := ∅ }, { objects := ∅ }]
  calls : List (Call V) := []

namespace Select

/-! ## The index -/

def indexObject (filters : List (Filter V)) (ix : HashIndex) (link : JsString) (object : V) :
    HashIndex :=
  filters.foldl (fun ix filter => ix.add (filter.indexKeys object) link) ix

def indexObjects (filters : List (Filter V)) (objects : Dict V) (ix : HashIndex) : HashIndex :=
  objects.entries.foldl (fun ix e => indexObject filters ix e.1 e.2) ix

variable (s : Select V) (i : Nat)

/-- The objects of a dict. -/
def objectsOf : Dict V := (s.boxes[i]?.map Box.objects).getD ∅

def indexCreate : Select V :=
  { s with index := some (indexObjects s.filters (s.objectsOf 0) (HashIndex.new 262139)) }

/-- What the loader tells. -/
def listener (present : Option (Dict V)) : Select V :=
  { s with
    version := s.version + 1
    index := match present with
      | none => none
      | some present => s.index.map (indexObjects s.filters present) }

/-! ## Selections -/

def cached : Data :=
  match s.boxes[i]?.bind Box.data with
  | none => { version := s.version }
  | some data =>
    if data.version = s.version then data else { version := s.version, length := data.length }

def setData (data : Data) : Select V :=
  { s with boxes := s.boxes.modify i fun box => { box with data := some data } }

def mixinSelection (length : Option Nat) (indexed : Bool) : Select V :=
  let data := s.cached i
  { s with boxes := s.boxes.modify i fun box => { box with
      methods := s.filters
      data := some { data with
        length := some (length.getD box.objects.entries.length)
        selection := true
        indexed := indexed } } }

/-- The loop over links that may match. -/
def pick (what : Dict V) (test : V → Bool) : List JsString → Dict V → Nat → Dict V × Nat
  | [], results, count => (results, count)
  | link :: possible, results, count =>
    match what.lookup link with
    | none => pick what test possible results count
    | some object =>
      if test object then pick what test possible (results.insert link object) (count + 1)
      else pick what test possible results count

def digestFilter (f : List V → Option JsString) (ix : HashIndex) (what : Dict V)
    (criteria : List V) : Dict V × Nat :=
  match f criteria with
  | none => pick what (fun _ => false) [] ∅ 0
  | some key => pick what (fun object => f [object] = some key) (ix.get key) ∅ 0

/-- `sort` -/
def sort (keys : List JsString) : List JsString := keys.insertionSort (· ≤ ·)

/-- The keys are there from a place on, one after the other. -/
def matchesAt (keys keyo : List JsString) (j : Nat) : Bool :=
  (List.range keys.length).all fun k => keyo[j + k]? = keys[k]?

def isMatch (keys keyo : List JsString) : Bool :=
  (List.range keyo.length).any fun j => keyo[j]? = keys[0]? && matchesAt keys keyo j

def digestsFilter (f : List V → List JsString) (ix : HashIndex) (what : Dict V)
    (criteria : List V) : Dict V × Nat :=
  let keys := f criteria
  pick what (fun object => isMatch (sort keys) (sort (f [object])))
    (if 0 < keys.length then ix.all keys else []) ∅ 0

section

variable (stringify : List V → JsString)

/-- What is asked for, as it is written. -/
def description (filter : Filter V) (args : List V) : JsString :=
  filter.name ++ codeUnits ": " ++ stringify args

/-- The index, with the objects of a dict. -/
def ensureIndexed (indexed : Bool) : Select V :=
  let s := if s.index.isNone then s.indexCreate else s
  if indexed then s else { s with index := s.index.map (indexObjects s.filters (s.objectsOf i)) }

/-- The function of `makePrototypeCall`. -/
def apply (i : Nat) (filter : Filter V) (args : List V) : Select V :=
  let cache := s.cached i
  let s := s.setData i cache
  let desc := description stringify filter args
  let call (result : Nat) : Call V := ⟨i, s.version, filter, args, s.objectsOf i, result⟩
  match cache.results.lookup desc with
  | some result => { s with calls := s.calls ++ [call result] }
  | none =>
    match filter.criterion with
    | .filter => s
    | _ =>
      let s := s.ensureIndexed i cache.indexed
      let ix := s.index.getD (HashIndex.new 262139)
      let (results, count) := match filter.criterion with
        | .digest f => digestFilter f ix (s.objectsOf i) args
        | .digests f => digestsFilter f ix (s.objectsOf i) args
        | .filter => (∅, 0)
      let result := s.boxes.length
      let s : Select V := { s with boxes := s.boxes ++ [{ objects := results }] }
      let s := s.mixinSelection result (some count) true
      { s.setData i { cache with
          indexed := true
          results := cache.results ++ [(desc, result)] } with
        calls := s.calls ++ [call result] }

/-- `registerFilter` -/
def registerFilter (filter : Filter V) : Select V :=
  { s with
    filters := s.filters.filter (fun other => other.name ≠ filter.name) ++ [filter]
    index := none
    version := s.version + 1 }

/-- `select`, for a dict. -/
def select (indexed : Bool) : Select V :=
  let cache := s.cached i
  let s := s.setData i cache
  if cache.selection then s else s.mixinSelection i none indexed

/-- `loader.objects` after a notification. -/
def replaceObjects (objects : Dict V) : Select V :=
  { s with boxes := s.boxes.modify 0 fun box => { box with objects := objects } }

/-- Objects are dropped, and others stored. -/
def changed (present removed objects : Dict V) : Dict V :=
  present ∪ removed.keys.foldl (fun objects link => objects.erase link) objects

inductive Event (V : Type) where
  | change (present removed : Dict V)
  /-- The first notification. -/
  | full
  | reset
  | register (filter : Filter V)
  | selectAll
  /-- A dict that is there; `empty` when nothing is to be selected from. -/
  | select (i : Nat)
  /-- A dict of one's own. -/
  | selectDict (objects : Dict V)
  | apply (i : Nat) (name : JsString) (args : List V)

def step (s : Select V) : Event V → Select V
  | .change present removed =>
    (s.replaceObjects (changed present removed (s.objectsOf 0))).listener (some present)
  | .full => s.listener (some (s.objectsOf 0))
  | .reset => (s.replaceObjects ∅).listener none
  | .register filter => s.registerFilter filter
  | .selectAll => s.select 0 true
  | .select i => s.select i false
  | .selectDict objects =>
    ({ s with boxes := s.boxes ++ [{ objects := objects }] } : Select V).select s.boxes.length false
  | .apply i name args =>
    match s.boxes[i]?.bind fun box => box.methods.find? fun filter => filter.name = name with
    | none => s
    | some filter => s.apply stringify i filter args

end

end Select

/-! ## What filters are for -/

/-- The key of the object is that of the criteria, or its keys have all of these. -/
def Filter.Matches (args : List V) (object : V) : Prop :=
  match filter.criterion with
  | .digest f => ∃ key, f args = some key ∧ f [object] = some key
  | .digests f => f args ≠ [] ∧ ∀ key ∈ f args, key ∈ f [object]
  | .filter => False

namespace Select

/-- **A filter that was applied is plain filtering**, and the result has its length. -/
def Right (s : Select V) (c : Call V) : Prop :=
  ∃ box, s.boxes[c.result]? = some box ∧ (∀ link object, box.objects.lookup link = some object ↔
      c.objects.lookup link = some object ∧ c.filter.Matches c.args object) ∧
    box.data.bind Data.length = some box.objects.entries.length

/-- What tells objects that match from others in the index: no object has an empty key like that of
    the criteria; and those that have all keys of the criteria have them one after the other. -/
def Selective (args : List V) (objects : Dict V) : Prop :=
  match filter.criterion with
  | .digest f => f args = some [] →
    ∀ link object, objects.lookup link = some object → f [object] ≠ some []
  | .digests f => ∀ link object, objects.lookup link = some object →
    filter.Matches args object → sort (f args) <:+: sort (f [object])
  | .filter => True

/-- **What the steps of a run keep to**: a filter that is applied was not replaced by another one,
    can tell objects that match, and is not taken for another one that is written in the same
    way. -/
def StepOk (stringify : List V → JsString) (s : Select V) : Event V → Prop
  | .apply i name args => ∀ box ∈ s.boxes[i]?,
    ∀ filter ∈ box.methods.find? (fun filter => filter.name = name),
      filter ∈ s.filters ∧ Selective filter args box.objects ∧
        ∀ c ∈ s.calls, c.selection = i → c.version = s.version →
          description stringify c.filter c.args = description stringify filter args →
          ∀ object, c.filter.Matches c.args object ↔ filter.Matches args object
  | _ => True

end Select

end Cockpit.Kube
