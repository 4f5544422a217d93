import Cockpit.Common.Json

namespace Cockpit

open List JsonObject

/-!
# `cockpit_json_equal`

JSON values are compared by their contents, objects member by member in any order.

* `Json.equalObject_iff` — objects are equal when they have equal members under every name;
* `Json.equal_refl`, `Json.equal_symm`, `Json.equal_trans` — the comparison is an equivalence.
-/

namespace Json

variable {name : String}

/-- A member is smaller than its object. -/
theorem sizeOf_getMember {object : JsonObject} {value : Json}
    (h : object.getMember name = some value) : sizeOf value < sizeOf object := by
  unfold getMember at h
  rw [Option.map_eq_some_iff] at h
  obtain ⟨member, hfind, rfl⟩ := h
  have hmem := sizeOf_lt_of_mem (mem_of_find?_eq_some hfind)
  have hsnd : sizeOf member.2 < sizeOf member := by
    cases member
    simp only [Prod.mk.sizeOf_spec]
    omega
  omega

mutual

/-- `cockpit_json_equal` -/
def equal : Json → Json → Bool
  | .null, .null => true
  | .bool a, .bool b => a == b
  | .int a, .int b => a == b
  | .string a, .string b => a == b
  | .array previous, .array current => equalArray previous current
  | .object previous, .object current => equalObject previous current
  | _, _ => false
  termination_by a => (sizeOf a, 0)

/-- `cockpit_json_equal_array` -/
def equalArray : List Json → List Json → Bool
  | [], [] => true
  | a :: previous, b :: current => equal a b && equalArray previous current
  | _, _ => false
  termination_by a => (sizeOf a, 0)

/-- `cockpit_json_equal_object` -/
def equalObject (previous current : JsonObject) : Bool :=
  ((previous ++ current).map Prod.fst).all fun name =>
    match h : previous.getMember name, current.getMember name with
    | some a, some b =>
      have := sizeOf_getMember h
      equal a b
    | none, none => true
    | _, _ => false
  termination_by (sizeOf previous, 0)

end

/-- Both are there and equal, or none is. -/
def EqualMembers : Option Json → Option Json → Prop
  | some a, some b => equal a b
  | none, none => True
  | _, _ => False

/-- Arrays are equal when their elements are. -/
theorem equalArray_iff (previous current : List Json) :
    equalArray previous current ↔
      List.Forall₂ (fun a b => equal a b) previous current := by
  induction previous generalizing current with
  | nil => cases current <;> simp [equalArray]
  | cons a previous ih =>
    cases current with
    | nil => simp [equalArray]
    | cons b current => simp [equalArray, ih]

/-- **Objects are equal when they have equal members under every name.** -/
theorem equalObject_iff (previous current : JsonObject) :
    equalObject previous current ↔
      ∀ name, EqualMembers (previous.getMember name) (current.getMember name) := by
  have hnone : ∀ (object : JsonObject) (name : String), object.getMember name ≠ none →
      name ∈ object.map Prod.fst := by
    intro object name hne
    rw [getMember, Ne, Option.map_eq_none_iff, find?_eq_none] at hne
    push Not at hne
    obtain ⟨member, hmem, hname⟩ := hne
    exact mem_map.mpr ⟨member, hmem, beq_iff_eq.mp hname⟩
  unfold equalObject
  rw [all_eq_true]
  constructor
  · intro h name
    by_cases hmem : name ∈ (previous ++ current).map Prod.fst
    · have hname := h name hmem
      unfold EqualMembers
      split at hname <;> simp_all
    -- a name of neither of them
    rw [map_append, mem_append, not_or] at hmem
    have hp : previous.getMember name = none := by
      by_contra hne
      exact hmem.1 (hnone previous name hne)
    have hc : current.getMember name = none := by
      by_contra hne
      exact hmem.2 (hnone current name hne)
    rw [hp, hc]
    trivial
  intro h name _
  have hname := h name
  unfold EqualMembers at hname
  split <;> simp_all

/-! ### An equivalence -/

variable {a b : Json}

/-- An element is smaller than its array. -/
theorem sizeOf_element {elements : List Json} (h : a ∈ elements) :
    sizeOf a < sizeOf (array elements) := by
  have := sizeOf_lt_of_mem h
  simp only [array.sizeOf_spec]
  omega

/-- A member is smaller than the value that holds its object. -/
theorem sizeOf_member {members : JsonObject}
    (h : members.getMember name = some a) : sizeOf a < sizeOf (object members) := by
  have := sizeOf_getMember h
  simp only [object.sizeOf_spec]
  omega

theorem equal_refl (a : Json) : equal a a := by
  induction hsize : sizeOf a using Nat.strongRecOn generalizing a with
  | ind n ih =>
    subst hsize
    cases a with
    | array elements =>
      rw [equal, equalArray_iff]
      apply forall₂_same.mpr
      exact fun b hb => ih _ (sizeOf_element hb) b rfl
    | object members =>
      rw [equal, equalObject_iff]
      intro name
      cases h : getMember members name with
      | none => trivial
      | some b => exact ih _ (sizeOf_member h) b rfl
    | _ => simp [equal]

/-- A value without others in it is equal to itself alone. -/
theorem equal_scalar_iff (harray : ∀ elements, a ≠ array elements)
    (hobj : ∀ members, a ≠ object members) : equal a b ↔ a = b := by
  cases a with
  | array elements => exact absurd rfl (harray elements)
  | object members => exact absurd rfl (hobj members)
  | null | bool | int | string => cases b <;> simp [equal]

variable {α : Type}

/-- Lists whose elements are related stay so the other way around. -/
theorem forall₂_flip {r : α → α → Prop} {xs ys : List α} (h : List.Forall₂ r xs ys)
    (hflip : ∀ a ∈ xs, ∀ b, r a b → r b a) : List.Forall₂ r ys xs := by
  induction h with
  | nil => exact .nil
  | cons hab _ ih =>
    exact .cons (hflip _ mem_cons_self _ hab)
      (ih fun a ha => hflip a (mem_cons_of_mem _ ha))

theorem equal_symm (h : equal a b) : equal b a := by
  induction hsize : sizeOf a using Nat.strongRecOn generalizing a b with
  | ind n ih =>
    subst hsize
    cases a with
    | array previous =>
      cases b with
      | array current =>
        rw [equal, equalArray_iff] at h ⊢
        exact forall₂_flip h fun c hc d hcd => ih _ (sizeOf_element hc) hcd rfl
      | _ => simp [equal] at h
    | object previous =>
      cases b with
      | object current =>
        rw [equal, equalObject_iff] at h ⊢
        intro name
        have hname := h name
        cases hp : getMember previous name with
        | none =>
          cases hc : getMember current name with
          | none => trivial
          | some d => simp [hp, hc, EqualMembers] at hname
        | some c =>
          cases hc : getMember current name with
          | none => simp [hp, hc, EqualMembers] at hname
          | some d =>
            rw [hp, hc] at hname
            exact ih _ (sizeOf_member hp) hname rfl
      | _ => simp [equal] at h
    | _ =>
      obtain rfl := (equal_scalar_iff (by simp) (by simp)).mp h
      exact equal_refl _

/-- Lists whose elements are related in two steps are related. -/
theorem forall₂_trans {r : α → α → Prop} {xs ys zs : List α}
    (h : List.Forall₂ r xs ys) (h' : List.Forall₂ r ys zs)
    (htrans : ∀ a ∈ xs, ∀ b c, r a b → r b c → r a c) : List.Forall₂ r xs zs := by
  induction h generalizing zs with
  | nil =>
    cases h' with
    | nil => exact .nil
  | cons hab _ ih =>
    cases h' with
    | cons hbc hrest =>
      exact .cons (htrans _ mem_cons_self _ _ hab hbc)
        (ih hrest fun a ha => htrans a (mem_cons_of_mem _ ha))

theorem equal_trans {c : Json} (h : equal a b) (h' : equal b c) :
    equal a c := by
  induction hsize : sizeOf a using Nat.strongRecOn generalizing a b c with
  | ind n ih =>
    subst hsize
    cases a with
    | array first =>
      cases b with
      | array second =>
        cases c with
        | array third =>
          rw [equal, equalArray_iff] at h h' ⊢
          exact forall₂_trans h h' fun d hd e f hde hef => ih _ (sizeOf_element hd) hde hef rfl
        | _ => simp [equal] at h'
      | _ => simp [equal] at h
    | object first =>
      cases b with
      | object second =>
        cases c with
        | object third =>
          rw [equal, equalObject_iff] at h h' ⊢
          intro name
          have hname := h name
          have hname' := h' name
          cases hf : getMember first name with
          | none =>
            cases hs : getMember second name with
            | none =>
              rw [hs] at hname'
              exact hname'
            | some e => simp [hf, hs, EqualMembers] at hname
          | some d =>
            cases hs : getMember second name with
            | none => simp [hf, hs, EqualMembers] at hname
            | some e =>
              cases ht : getMember third name with
              | none => simp [hs, ht, EqualMembers] at hname'
              | some f =>
                rw [hf, hs] at hname
                rw [hs, ht] at hname'
                exact ih _ (sizeOf_member hf) hname hname' rfl
        | _ => simp [equal] at h'
      | _ => simp [equal] at h
    | _ =>
      obtain rfl := (equal_scalar_iff (by simp) (by simp)).mp h
      exact h'

theorem equalObject_refl (a : JsonObject) : equalObject a a := by
  have h := equal_refl (.object a)
  rwa [equal] at h

theorem equalObject_symm {a b : JsonObject} (h : equalObject a b) :
    equalObject b a := by
  have h' := @equal_symm (.object a) (.object b) (by rwa [equal])
  rwa [equal] at h'

theorem equalObject_trans {a b c : JsonObject} (h : equalObject a b)
    (h' : equalObject b c) : equalObject a c := by
  have h'' := @equal_trans (.object a) (.object b) (.object c) (by rwa [equal]) (by rwa [equal])
  rwa [equal] at h''

end Json

end Cockpit
