import Mathlib

namespace Cockpit.Lib

open List

/-!
# Directed search in a binary search tree

A search that looks at one key a level, and is told by a function of that key alone whether it has
found what it looks for, or on which side to go on.  The function need not be the comparison that
orders the tree.

* `SearchTree.find?_isSome_iff` — if the function's answers are in the order of the tree, the search
  finds a key exactly when there is one to be found.
-/

/-- A binary tree of any shape. -/
inductive SearchTree (α : Type) where
  | nil
  | node (left : SearchTree α) (key : α) (right : SearchTree α)

namespace SearchTree

variable {α : Type} {r : α → α → Prop} {f : α → Int}

/-- The keys, in order. -/
def keys : SearchTree α → List α
  | nil => []
  | node left key right => left.keys ++ key :: right.keys

/-- The keys are in the order of `r`, and none is there twice. -/
def Ordered (r : α → α → Prop) (t : SearchTree α) : Prop := t.keys.Pairwise r

/-- A negative answer sends the search to the left, a positive one to the right, and zero ends it. -/
def find? (f : α → Int) : SearchTree α → Option α
  | nil => none
  | node left key right =>
    if f key = 0 then some key
    else if f key < 0 then left.find? f
    else right.find? f

/-- The answers are in the order of the keys: first the positive ones, then zeros, then the negative
    ones. -/
def Descends (r : α → α → Prop) (f : α → Int) (xs : List α) : Prop :=
  ∀ x ∈ xs, ∀ y ∈ xs, r x y → (f x < 0 → f y < 0) ∧ (0 < f y → 0 < f x)

theorem Descends.mono {xs ys : List α} (h : Descends r f ys) (hsub : xs ⊆ ys) : Descends r f xs :=
  fun x hx y hy => h x (hsub hx) y (hsub hy)

/-- **The search finds what there is to be found.** -/
theorem find?_isSome_iff {t : SearchTree α} (hord : t.Ordered r) (hf : Descends r f t.keys) :
    (t.find? f).isSome ↔ ∃ x ∈ t.keys, f x = 0 := by
  induction t with
  | nil => simp [find?, keys]
  | node left key right ihl ihr =>
    unfold Ordered at hord ihl ihr
    rw [keys, pairwise_append, pairwise_cons] at hord
    obtain ⟨hl, ⟨hkey, hr⟩, hcross⟩ := hord
    have hleft : left.keys ⊆ (node left key right).keys := subset_append_left _ _
    have hmem : key ∈ (node left key right).keys :=
      mem_append_right _ mem_cons_self
    have hright : right.keys ⊆ (node left key right).keys := fun x hx =>
      mem_append_right _ (mem_cons_of_mem _ hx)
    have hsplit : (∃ x ∈ (node left key right).keys, f x = 0) ↔
        (∃ x ∈ left.keys, f x = 0) ∨ f key = 0 ∨ ∃ x ∈ right.keys, f x = 0 := by
      simp only [keys, mem_append, mem_cons, or_and_right, exists_or, exists_eq_left]
    rw [hsplit, find?]
    split
    · rename_i hzero
      exact ⟨fun _ => .inr (.inl hzero), fun _ => rfl⟩
    rename_i hne
    split
    · -- nothing to the right of a negative answer
      rename_i hneg
      rw [ihl hl (hf.mono hleft)]
      refine ⟨.inl, fun h => h.resolve_right ?_⟩
      rintro (hzero | ⟨x, hx, hzero⟩)
      · exact hne hzero
      · have := (hf key hmem x (hright hx) (hkey x hx)).1 hneg
        omega
    -- nothing to the left of a positive answer
    rename_i hnneg
    have hpos : 0 < f key := by omega
    rw [ihr hr (hf.mono hright)]
    refine ⟨fun h => .inr (.inr h), fun h => ?_⟩
    rcases h with ⟨x, hx, hzero⟩ | hzero | h
    · have := (hf x (hleft hx) key hmem (hcross x hx key mem_cons_self)).2 hpos
      omega
    · exact absurd hzero hne
    · exact h

end SearchTree

end Cockpit.Lib
