import Mathlib

namespace Cockpit.Lib

open List

/-!
# Changing one element of a list

A table of numbered objects is a list, and an operation on one object is `List.modify`.  What
holds of the elements afterwards follows from what the operation does to one of them:

* `flatMap_modify_perm` — what the elements hold together changes by what one of them holds;
* `countP_modify_of_neg` — an element that no longer counts is one less.
-/

variable {α β : Type} {l : List α} {i : Nat} {f : α → α}

/-- Tables that look the same have elements that look the same. -/
theorem getElem?_of_map_eq {l' : List α} {view : α → β} {a : α} (h : l'.map view = l.map view)
    (hget : l[i]? = some a) : ∃ a', l'[i]? = some a' ∧ view a' = view a := by
  have hmap := congrArg (·[i]?) h
  simp only [getElem?_map, hget, Option.map_some] at hmap
  exact Option.map_eq_some_iff.mp hmap

/-- An element after a change is an old one, changed or not. -/
theorem modify_cases {j : Nat} {b : α} (h : (l.modify i f)[j]? = some b) :
    ∃ a, l[j]? = some a ∧ ((i = j ∧ b = f a) ∨ (i ≠ j ∧ b = a)) := by
  rw [getElem?_modify] at h
  obtain ⟨a, ha, hb⟩ := Option.map_eq_some_iff.mp h
  refine ⟨a, ha, ?_⟩
  split at hb
  · rename_i heq
    exact .inl ⟨heq, hb.symm⟩
  · rename_i hne
    exact .inr ⟨hne, hb.symm⟩

variable {a : α}

/-- An element after another was added is an old one, or that one. -/
theorem append_singleton_cases {b : α} (h : (l ++ [a])[i]? = some b) :
    l[i]? = some b ∨ (i = l.length ∧ b = a) := by
  rw [getElem?_append] at h
  split at h
  · exact .inl h
  rename_i hge
  rw [getElem?_singleton] at h
  split at h
  · refine .inr ⟨?_, (Option.some.inj h).symm⟩
    omega
  · exact nomatch h

/-- What an operation leaves alone in one element, it leaves alone in all of them. -/
theorem map_modify_of_eq {g : α → β} (h : ∀ a, g (f a) = g a) (l : List α) (i : Nat) :
    (l.modify i f).map g = l.map g := by
  apply ext_getElem?
  intro j
  rw [getElem?_map, getElem?_map, getElem?_modify]
  cases l[j]? with
  | none => rfl
  | some a =>
    show some (g (if i = j then f a else a)) = some (g a)
    split
    · exact congrArg some (h a)
    · rfl

/-- What the elements hold together changes by what one of them holds. -/
theorem flatMap_modify_perm (h : l[i]? = some a) (f : α → α)
    (w : α → List β) : (w a ++ (l.modify i f).flatMap w).Perm (w (f a) ++ l.flatMap w) := by
  induction l generalizing i with
  | nil => exact nomatch h
  | cons b l ih =>
    cases i with
    | zero =>
      obtain rfl : b = a := Option.some.inj h
      exact perm_append_comm_assoc _ _ _
    | succ i =>
      have htail : l[i]? = some a := h
      show (w a ++ (w b ++ (l.modify i f).flatMap w)).Perm (w (f a) ++ (w b ++ l.flatMap w))
      have hfront := perm_append_comm_assoc (w a) (w b) ((l.modify i f).flatMap w)
      have hback := perm_append_comm_assoc (w b) (w (f a)) (l.flatMap w)
      exact (hfront.trans ((ih htail).append_left (w b))).trans hback

/-- An element that no longer counts is one less. -/
theorem countP_modify_of_neg (h : l[i]? = some a) {p : α → Bool} (ha : p a) (hf : p (f a) = false) :
    (l.modify i f).countP p + 1 = l.countP p := by
  induction l generalizing i with
  | nil => exact nomatch h
  | cons b l ih =>
    cases i with
    | zero =>
      obtain rfl : b = a := Option.some.inj h
      rw [modify_zero_cons, countP_cons_of_neg (by simp [hf]), countP_cons_of_pos ha]
    | succ i =>
      have htail : l[i]? = some a := h
      rw [modify_succ_cons, countP_cons, countP_cons, ← ih htail]
      exact Nat.add_right_comm _ _ _

end Cockpit.Lib
