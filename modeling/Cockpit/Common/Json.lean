import Mathlib

namespace Cockpit

open List

/-!
# JSON objects as `src/common/cockpitjson.c` reads them

A `JsonObject` keeps its members in insertion order, as json-glib does.  The getters return
`none` where the C function returns `FALSE`, and `some` of the stored or default value where
it returns `TRUE`.
-/

/-- A JSON value; numbers are the 64-bit integers of `G_TYPE_INT64`. -/
inductive Json where
  | null
  | bool (b : Bool)
  | int (n : Int)
  | string (s : String)
  | array (elements : List Json)
  | object (members : List (String × Json))
  deriving Repr

/-- The members of a `JsonObject`, in insertion order. -/
abbrev JsonObject := List (String × Json)

namespace JsonObject

variable (object : JsonObject) (name : String)

/-- `json_object_get_member` -/
def getMember : Option Json :=
  (object.find? (fun p => p.1 == name)).map Prod.snd

/-- `json_object_has_member` -/
def hasMember : Bool := object.any (fun p => p.1 == name)

/-- `json_object_set_member`: a present member keeps its place. -/
def setMember (value : Json) : JsonObject :=
  if object.hasMember name then
    object.map (fun p => if p.1 == name then (name, value) else p)
  else
    object ++ [(name, value)]

/-- `json_object_set_string_member` -/
def setStringMember (value : String) : JsonObject :=
  object.setMember name (.string value)

/-- `json_object_remove_member` -/
def removeMember : JsonObject :=
  object.filter (fun p => p.1 != name)

theorem getMember_setMember_self (value : Json) :
    (object.setMember name value).getMember name = some value := by
  unfold setMember getMember
  split
  · rename_i h
    induction object with
    | nil => simp [hasMember] at h
    | cons member object ih =>
      by_cases hname : member.1 = name
      · simp [hname]
      · have hrest : hasMember object name := by simpa [hasMember, hname] using h
        simpa [hname] using ih hrest
  rename_i h
  have hnone : object.find? (fun p => p.1 == name) = none := by
    rw [find?_eq_none]
    intro p hp hname
    exact h (any_eq_true.mpr ⟨p, hp, hname⟩)
  simp [find?_append, hnone]

/-- Setting a member again takes the place of the first value. -/
theorem setMember_setMember (value value' : Json) :
    (object.setMember name value).setMember name value' = object.setMember name value' := by
  have hset : (object.setMember name value).hasMember name := by
    unfold setMember hasMember
    split
    · rename_i h
      obtain ⟨p, hp, hname⟩ := any_eq_true.mp h
      refine any_eq_true.mpr ⟨(name, value), ?_, beq_self_eq_true name⟩
      exact mem_map.mpr ⟨p, hp, if_pos hname⟩
    · simp
  have hagain : (object.setMember name value).setMember name value' =
      (object.setMember name value).map
        fun p => if p.1 == name then (name, value') else p := if_pos hset
  rw [hagain]
  unfold setMember
  split
  · rw [map_map]
    apply map_congr_left
    intro p _
    by_cases hp : p.1 = name <;> simp [hp]
  rename_i h
  rw [map_append]
  congr 1
  · conv_rhs => rw [← map_id object]
    apply map_congr_left
    intro p hp
    have hne : (p.1 == name) = false := by
      cases hname : p.1 == name with
      | false => rfl
      | true => exact absurd (any_eq_true.mpr ⟨p, hp, hname⟩) h
    simp [hne]
  · simp

variable {object : JsonObject} {name other : String}

/-- Setting a member leaves the others alone. -/
theorem getMember_setMember_ne (h : name ≠ other)
    (value : Json) : (object.setMember name value).getMember other = object.getMember other := by
  unfold setMember getMember
  split
  · have hsame : ((fun p : String × Json => p.1 == other) ∘
        fun p => if p.1 == name then (name, value) else p) = fun p => p.1 == other := by
      funext p
      by_cases hp : p.1 = name <;> simp [hp]
    rw [find?_map, hsame, Option.map_map]
    cases hfind : object.find? (fun p => p.1 == other) with
    | none => rfl
    | some p =>
      have hother : p.1 = other := by simpa using find?_some hfind
      simp [hother, Ne.symm h]
  · rw [find?_append]
    simp [h]

/-- Removing a member leaves the others alone. -/
theorem getMember_removeMember_ne (h : name ≠ other) :
    (object.removeMember name).getMember other = object.getMember other := by
  unfold removeMember getMember
  rw [find?_filter]
  congr 2
  funext p
  by_cases hp : p.1 = other
  · simp [hp, Ne.symm h]
  · simp [hp]

/-- A removed member is gone. -/
@[simp] theorem getMember_removeMember_self (object : JsonObject) (name : String) :
    (object.removeMember name).getMember name = none := by
  unfold removeMember getMember
  rw [Option.map_eq_none_iff, find?_eq_none]
  intro p hp hname
  simp only [mem_filter, bne_iff_ne] at hp
  exact hp.2 (beq_iff_eq.mp hname)

theorem hasMember_eq (object : JsonObject) (name : String) :
    object.hasMember name = (object.getMember name).isSome := by
  rw [hasMember, getMember, Option.isSome_map, Bool.eq_iff_iff, find?_isSome, any_eq_true]

/-- There is nothing to remove. -/
theorem removeMember_of_none
    (h : object.getMember name = none) : object.removeMember name = object := by
  unfold getMember at h
  rw [Option.map_eq_none_iff, find?_eq_none] at h
  unfold removeMember
  rw [filter_eq_self]
  intro p hp
  rw [bne_iff_ne]
  exact fun hname => h p hp (beq_iff_eq.mpr hname)

end JsonObject

namespace Json

variable (options : JsonObject) (name : String)

/-- `cockpit_json_get_string` -/
def getString (defawlt : Option String) :
    Option (Option String) :=
  match options.getMember name with
  | none => some defawlt
  | some (.string s) => some (some s)
  | some _ => none

/-- A string getter only looks at its member. -/
theorem getString_congr {options options' : JsonObject} {name : String}
    (h : options'.getMember name = options.getMember name) (defawlt : Option String) :
    getString options' name defawlt = getString options name defawlt := by
  rw [getString, getString, h]

/-- `cockpit_json_get_int` -/
def getInt (defawlt : Int) : Option Int :=
  match options.getMember name with
  | none => some defawlt
  | some (.int n) => some n
  | some _ => none

/-- `cockpit_json_get_bool` -/
def getBool (defawlt : Bool) : Option Bool :=
  match options.getMember name with
  | none => some defawlt
  | some (.bool b) => some b
  | some _ => none

/-- `cockpit_json_get_array` with a `NULL` default. -/
def getArray : Option (Option (List Json)) :=
  match options.getMember name with
  | none => some none
  | some (.array elements) => some (some elements)
  | some _ => none

/-- `cockpit_json_get_object` with a `NULL` default. -/
def getObject (member : String) : Option (Option JsonObject) :=
  match options.getMember member with
  | none => some none
  | some (.object members) => some (some members)
  | some _ => none

/-- The string held by a value, if it holds one. -/
def asString : Json → Option String
  | .string s => some s
  | _ => none

/-- `cockpit_json_get_strv` with a `NULL` default: `none` when the member is not an array of
    strings, `some none` when there is no such member. -/
def getStrv (member : String) : Option (Option (List String)) :=
  match options.getMember member with
  | none => some none
  | some (.array elements) => (elements.mapM asString).map some
  | some _ => none

end Json

end Cockpit
