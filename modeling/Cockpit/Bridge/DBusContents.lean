import Cockpit.Common.GLib

namespace Cockpit

open Option AList

/-!
# `src/bridge/cockpitdbuscache.c`: what the cache holds

The nested tables of properties, the table of changes that waits for the next `update` signal,
and what the cache and its channel have sent.  The functions that put properties into the
cache and take interfaces out of it work on these alone.

A value is a `GVariant`; nothing here looks into it but `g_variant_equal`, and
`scrape_variant_paths` for the object paths in it.

* `Contents.Edit` — the edits that those functions are made of.
-/

/-- The values of D-Bus and the object paths in one of them (`scrape_variant_paths`). -/
class Variant (V : Type) where
  equal : DecidableEq V
  objectPaths : V → List CStr

instance {V : Type} [Variant V] : DecidableEq V := Variant.equal

/-- A `GHashTable` with strings as keys. -/
abbrev Table (α : Type) := AList fun _ : CStr => α

/-- An `a{sv}`. -/
abbrev Dict (V : Type) := List (CStr × V)

/-- The argument of the `update` signal; a `NULL` is an interface that went away. -/
abbrev Update (V : Type) := Table (Table (Option (Table V)))

/-- What is sent: the `meta` and `notify` messages of the cache, the messages that were held
    back behind a barrier, and the calls that waited for introspection data.  A `notify` also
    has the signals whose values are in it. -/
inductive Out (V : Type)
  | metaInfo (iface : CStr)
  | notify (update : Update V) (carried : List Nat)
  | sent (seq : Nat)
  | ready (seq : Nat)

/-- The fields of `struct _CockpitDBusCache` that the properties are in.  `log` is what was
    sent, and `carried` the `PropertiesChanged` signals with values in `update`.  `dangling`
    says that a path was made a key of `update` which its owner freed afterwards. -/
structure Contents (V : Type) where
  cache : Table (Table (Table V))
  introsent : List CStr
  update : Option (Update V)
  dangling : Bool
  carried : List Nat
  log : List (Out V)

namespace Contents

variable {V : Type}

/-- The contents of a new cache. -/
def empty : Contents V := ⟨∅, [], none, false, [], []⟩

/-- Send something. -/
def say (c : Contents V) (out : Out V) : Contents V := { c with log := c.log ++ [out] }

/-- The interfaces at a path. -/
def interfaces (c : Contents V) (path : CStr) : Table (Table V) := (c.cache.lookup path).getD ∅

/-- The properties of an interface at a path, if it is there. -/
def properties (c : Contents V) (path iface : CStr) : Option (Table V) :=
  (c.interfaces path).lookup iface

/-- `emit_interfaces`, and what the caller does with the table. -/
def emitInterfaces (c : Contents V) (path : CStr)
    (f : Table (Option (Table V)) → Table (Option (Table V))) : Contents V :=
  let update := c.update.getD ∅
  { c with update := some (update.insert path (f ((update.lookup path).getD ∅))) }

/-- `emit_remove` -/
def emitRemove (c : Contents V) (path iface : CStr) : Contents V :=
  c.emitInterfaces path (·.insert iface none)

/-- `emit_change`; the property comes with its value or not at all. -/
def emitChange (c : Contents V) (path iface : CStr) (property : Option (CStr × V)) : Contents V :=
  c.emitInterfaces path fun interfaces =>
    let properties := (interfaces.lookup iface).join.getD ∅
    interfaces.insert iface
      (some (match property with
        | none => properties
        | some (property, value) => properties.insert property value))

/-- `ensure_interfaces` -/
def ensureInterfaces (c : Contents V) (path : CStr) : Contents V :=
  match c.cache.lookup path with
  | some _ => c
  | none => { c with cache := c.cache.insert path ∅ }

/-- Put the properties of an interface into the cache. -/
def setProperties (c : Contents V) (path iface : CStr) (properties : Table V) : Contents V :=
  { c with cache := c.cache.insert path ((c.interfaces path).insert iface properties) }

/-- The part of `ensure_properties` that tells about the interface itself. -/
def sendMeta (c : Contents V) (iface : CStr) : Contents V :=
  if iface ∈ c.introsent then c
  else ({ c with introsent := iface :: c.introsent } : Contents V).say (.metaInfo iface)

/-- `ensure_properties` -/
def ensureProperties (c : Contents V) (path iface : CStr) : Contents V :=
  let c := c.ensureInterfaces path
  match c.properties path iface with
  | some _ => c.sendMeta iface
  | none => ((c.setProperties path iface ∅).emitChange path iface none).sendMeta iface

/-- Note down that `update` has values of these signals. -/
def carry (c : Contents V) (origin : Option Nat) : Contents V :=
  { c with carried := origin.toList ++ c.carried }

section

variable [DecidableEq V]

/-- `process_value`; the properties are those that `ensure_properties` found or made. -/
def processValue (origin : Option Nat) (path iface : CStr) (c : Contents V)
    (property : CStr × V) : Contents V :=
  let properties := (c.properties path iface).getD ∅
  if properties.lookup property.1 = some property.2 then c
  else ((c.setProperties path iface (properties.insert property.1 property.2)).emitChange path iface
    (some property)).carry origin

/-- `process_properties` -/
def processProperties (c : Contents V) (origin : Option Nat) (path iface : CStr) (dict : Dict V) :
    Contents V :=
  dict.foldl (processValue origin path iface) (c.ensureProperties path iface)

end

/-- `process_removed` -/
def processRemoved (path : CStr) (c : Contents V) (iface : CStr) : Contents V :=
  match c.cache.lookup path with
  | none => c
  | some interfaces =>
    match interfaces.lookup iface with
    | none => c
    | some _ =>
      ({ c with cache := c.cache.insert path (interfaces.erase iface) } : Contents V).emitRemove
        path iface

/-- `process_removed_path` -/
def processRemovedPath (c : Contents V) (path : CStr) : Contents V :=
  (c.interfaces path).keys.foldl (processRemoved path) c

/-- Whether `process_removed` for one of the interfaces makes the path a key of `update`. -/
def keysPath (c : Contents V) (path : CStr) (ifaces : List CStr) : Bool :=
  ifaces.any (fun iface => (c.properties path iface).isSome) &&
    ((c.update.getD ∅).lookup path).isNone

/-- The last loop in the body of `process_paths`.  Its path is not interned: the iterator
    frees it, and an `update` that has it as a key is left with a dangling pointer. -/
def processLeftover (c : Contents V) (path : CStr) (ifaces : List CStr) : Contents V :=
  ifaces.foldl (processRemoved path)
    { c with dangling := c.dangling || c.keysPath path ifaces }

/-- What `batch_progress` does with `self->update`. -/
def emitUpdate (c : Contents V) : Contents V :=
  match c.update with
  | none => { c with carried := [] }
  | some update => ({ c with update := none, carried := [] } : Contents V).say
      (.notify update c.carried)

/-! ### Edits -/

/-- What those functions do to the contents, on behalf of the signals `origins`. -/
inductive Edit (origins : List Nat) (c : Contents V) : Contents V → Prop
  | ensureInterfaces (path : CStr) : Edit origins c (c.ensureInterfaces path)
  | ensureProperties (path iface : CStr) : Edit origins c (c.ensureProperties path iface)
  | value {path iface : CStr} {properties : Table V}
      (h : c.properties path iface = some properties) (property : CStr × V) {origin : Option Nat}
      (horigin : origin.toList ⊆ origins) :
      Edit origins c (((c.setProperties path iface
        (properties.insert property.1 property.2)).emitChange path iface (some property)).carry origin)
  | change {path iface : CStr} (h : (c.properties path iface).isSome) :
      Edit origins c (c.emitChange path iface none)
  | removed (path iface : CStr) : Edit origins c (processRemoved path c iface)
  | dangle (dangling : Bool) : Edit origins c { c with dangling := dangling }

/-- Any number of edits. -/
abbrev Edits (origins : List Nat) : Contents V → Contents V → Prop :=
  Relation.ReflTransGen (Edit origins)

variable {origins : List Nat}

/-- A loop edits when its body does. -/
theorem Edits.foldl {α : Type} {f : Contents V → α → Contents V}
    (hf : ∀ c a, Edits origins c (f c a)) (as : List α) (c : Contents V) :
    Edits origins c (as.foldl f c) := by
  induction as generalizing c with
  | nil => exact .refl
  | cons a as ih => exact (hf c a).trans (ih _)

theorem edits_ensureInterfaces (c : Contents V) (path : CStr) :
    Edits origins c (c.ensureInterfaces path) := .single (.ensureInterfaces path)

theorem edits_ensureProperties (c : Contents V) (path iface : CStr) :
    Edits origins c (c.ensureProperties path iface) := .single (.ensureProperties path iface)

theorem edits_processRemoved (path : CStr) (c : Contents V) (iface : CStr) :
    Edits origins c (processRemoved path c iface) := .single (.removed path iface)

section

variable (c : Contents V)

include c

variable (path : CStr)

theorem edits_processRemovedPath :
    Edits origins c (c.processRemovedPath path) :=
  .foldl (edits_processRemoved path) _ c

theorem edits_processLeftover (ifaces : List CStr) :
    Edits origins c (c.processLeftover path ifaces) :=
  .head (.dangle _) (Edits.foldl (edits_processRemoved path) ifaces _)

variable (iface : CStr)

/-- The properties of an interface after another was given some. -/
theorem properties_setProperties (properties : Table V)
    (path' iface' : CStr) :
    (c.setProperties path iface properties).properties path' iface' =
      if path' = path ∧ iface' = iface then some properties else c.properties path' iface' := by
  unfold Contents.properties interfaces setProperties
  dsimp only
  by_cases hpath : path' = path
  · subst hpath
    rw [lookup_insert, getD_some]
    by_cases hiface : iface' = iface
    · subst hiface
      rw [lookup_insert, if_pos ⟨rfl, rfl⟩]
    · rw [lookup_insert_ne hiface, if_neg fun h => hiface h.2]
      rfl
  · rw [lookup_insert_ne hpath, if_neg fun h => hpath h.1]

@[simp] theorem properties_emitChange
    (property : Option (CStr × V)) :
    (c.emitChange path iface property).properties = c.properties := rfl

@[simp] theorem properties_emitRemove :
    (c.emitRemove path iface).properties = c.properties := rfl

@[simp] theorem properties_carry (origin : Option Nat) :
    (c.carry origin).properties = c.properties := rfl

@[simp] theorem properties_sendMeta :
    (c.sendMeta iface).properties = c.properties := by
  unfold sendMeta
  split <;> rfl

@[simp] theorem properties_ensureInterfaces :
    (c.ensureInterfaces path).properties = c.properties := by
  unfold ensureInterfaces
  split
  · rfl
  rename_i hnone
  funext path' iface'
  unfold properties interfaces
  dsimp only
  by_cases hpath : path' = path
  · subst hpath
    rw [lookup_insert, hnone]
    rfl
  · rw [lookup_insert_ne hpath]

/-- `ensure_properties` keeps what is there, and makes one interface without properties. -/
theorem properties_ensureProperties (path' iface' : CStr) :
    (c.ensureProperties path iface).properties path' iface' =
      if path' = path ∧ iface' = iface then some ((c.properties path iface).getD ∅)
      else c.properties path' iface' := by
  unfold ensureProperties
  dsimp only
  split
  · rename_i properties heq
    rw [properties_ensureInterfaces] at heq
    rw [properties_sendMeta, properties_ensureInterfaces, heq]
    split
    · rename_i h
      rw [h.1, h.2, heq]
      rfl
    · rfl
  rename_i heq
  rw [properties_ensureInterfaces] at heq
  rw [properties_sendMeta, properties_emitChange, properties_setProperties,
    properties_ensureInterfaces, heq]
  rfl

theorem properties_ensureProperties_self :
    ((c.ensureProperties path iface).properties path iface).isSome := by
  rw [properties_ensureProperties, if_pos ⟨rfl, rfl⟩]
  rfl

end

/-- `process_removed` takes one interface away. -/
theorem properties_processRemoved (path : CStr) (c : Contents V) (iface path' iface' : CStr) :
    (processRemoved path c iface).properties path' iface' =
      if path' = path ∧ iface' = iface then none else c.properties path' iface' := by
  unfold processRemoved
  split
  · rename_i hnone
    split
    · rename_i h
      rw [h.1, properties, interfaces, hnone]
      rfl
    · rfl
  rename_i ifaces hsome
  split
  · rename_i hnone
    split
    · rename_i h
      rw [h.1, h.2, properties, interfaces, hsome]
      exact hnone
    · rfl
  rw [properties_emitRemove]
  unfold properties interfaces
  dsimp only
  by_cases hpath : path' = path
  · subst hpath
    rw [lookup_insert, getD_some, hsome, getD_some]
    by_cases hiface : iface' = iface
    · subst hiface
      rw [lookup_erase, if_pos ⟨rfl, rfl⟩]
    · rw [lookup_erase_ne hiface, if_neg fun h => hiface h.2]
  · rw [lookup_insert_ne hpath, if_neg fun h => hpath h.1]

section

variable [DecidableEq V] {origin : Option Nat}

/-- `process_value` for an interface that is there. -/
theorem edits_processValue (horigin : origin.toList ⊆ origins)
    {path iface : CStr} {c : Contents V} (h : (c.properties path iface).isSome)
    (property : CStr × V) :
    Edits origins c (processValue origin path iface c property) ∧
      ((processValue origin path iface c property).properties path iface).isSome := by
  obtain ⟨properties, hsome⟩ := isSome_iff_exists.mp h
  unfold processValue
  dsimp only
  rw [hsome, getD_some]
  split
  · exact ⟨.refl, h⟩
  refine ⟨.single (.value hsome property horigin), ?_⟩
  show ((c.setProperties path iface _).properties path iface).isSome
  rw [properties_setProperties, if_pos ⟨rfl, rfl⟩]
  rfl

theorem edits_processProperties (horigin : origin.toList ⊆ origins)
    (c : Contents V) (path iface : CStr) (dict : Dict V) :
    Edits origins c (c.processProperties origin path iface dict) := by
  refine (edits_ensureProperties c path iface).trans ?_
  unfold processProperties
  have hthere := properties_ensureProperties_self c path iface
  generalize c.ensureProperties path iface = c at hthere ⊢
  induction dict generalizing c with
  | nil => exact .refl
  | cons property dict ih =>
    obtain ⟨hedits, hthere⟩ := edits_processValue horigin hthere property
    exact hedits.trans (ih _ hthere)

end

end Contents

end Cockpit
