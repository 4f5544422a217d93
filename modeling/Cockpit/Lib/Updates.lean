import Cockpit.Lib.Replica

namespace Cockpit.Lib

open Option

/-!
# Tables that catch up

An update stores something for a key, or drops it.  Whoever gets updates that were made elsewhere
may get some of them again, and is right in the end all the same.

* `CatchesUp` — what a table lacks is in the updates that are to come, but for some keys;
* `CatchesUp.update`, `CatchesUp.append`, `CatchesUp.resume` — an update comes; another one is made;
  updates are sent again from an earlier one on.
-/

variable {κ α : Type} [DecidableEq κ]

/-- A key, and what is stored for it. -/
abbrev Update (κ α : Type) := κ × Option α

variable (t : Table κ α) (u : Update κ α)

def Table.update : Table κ α := Function.update t u.1 u.2

variable (us : List (Update κ α))

def Table.updates : Table κ α := us.foldl Table.update t

/-- What updates store for a key in the end, if they do. -/
def lastOf : List (Update κ α) → κ → Option (Option α)
  | [], _ => none
  | u :: us, k => (lastOf us k).or (if u.1 = k then some u.2 else none)

@[simp] theorem lastOf_nil (k : κ) : lastOf ([] : List (Update κ α)) k = none := rfl

@[simp] theorem lastOf_cons (us : List (Update κ α)) (k : κ) :
    lastOf (u :: us) k = (lastOf us k).or (if u.1 = k then some u.2 else none) := rfl

variable {k : κ}

theorem mem_of_lastOf {us : List (Update κ α)} {a : Option α} (h : lastOf us k = some a) :
    (k, a) ∈ us := by
  induction us with
  | nil => exact nomatch h
  | cons u us ih =>
    rw [lastOf_cons] at h
    rcases or_eq_some_iff.mp h with hrest | ⟨-, hu⟩
    · exact List.mem_cons_of_mem u (ih hrest)
    split at hu
    · rename_i heq
      obtain rfl := some.inj hu
      subst heq
      exact List.mem_cons_self
    · exact nomatch hu

theorem lastOf_eq_none_iff {us : List (Update κ α)} :
    lastOf us k = none ↔ ∀ u ∈ us, u.1 ≠ k := by
  induction us with
  | nil => simp
  | cons u us ih => simp [ih, and_comm]

theorem update_apply (k : κ) :
    t.update u k = if u.1 = k then u.2 else t k := by
  unfold Table.update
  rw [Function.update_apply]
  by_cases h : u.1 = k
  · rw [if_pos h, if_pos h.symm]
  · rw [if_neg h, if_neg (Ne.symm h)]

theorem updates_append (vs : List (Update κ α)) :
    t.updates (us ++ vs) = (t.updates us).updates vs := List.foldl_append

theorem updates_apply (k : κ) :
    t.updates us k = (lastOf us k).getD (t k) := by
  induction us generalizing t with
  | nil => rfl
  | cons u us ih =>
    show (t.update u).updates us k = _
    rw [ih, update_apply, lastOf_cons]
    cases lastOf us k with
    | some a => rfl
    | none =>
      rw [none_or]
      split <;> rfl

theorem lastOf_append (vs : List (Update κ α)) (k : κ) :
    lastOf (us ++ vs) k = (lastOf vs k).or (lastOf us k) := by
  induction us with
  | nil => simp [lastOf]
  | cons u us ih =>
    rw [List.cons_append, lastOf_cons, ih, lastOf_cons, Option.or_assoc]

/-- Updates make a table what another one is, but for some keys that they do not have. -/
structure CatchesUp (v : Table κ α) (us : List (Update κ α)) (t : Table κ α)
    (apart : κ → Prop) : Prop where
  stored : ∀ k a, lastOf us k = some a → t k = a
  same : ∀ k, lastOf us k = none → v k = t k ∨ apart k

namespace CatchesUp

variable {v t : Table κ α} {us : List (Update κ α)} {apart apart' : κ → Prop}

/-- The next update comes. -/
theorem update {u : Update κ α} (h : CatchesUp v (u :: us) t apart)
    (hapart : ∀ k, k ≠ u.1 → apart k → apart' k) : CatchesUp (v.update u) us t apart' where
  stored k a hk := by
    apply h.stored k a
    rw [lastOf_cons, hk]
    rfl
  same k hk := by
    rw [update_apply]
    by_cases heq : u.1 = k
    · left
      rw [if_pos heq]
      refine (h.stored k u.2 ?_).symm
      rw [lastOf_cons, hk, if_pos heq]
      rfl
    rw [if_neg heq]
    have hnone : lastOf (u :: us) k = none := by
      rw [lastOf_cons, hk, if_neg heq]
      rfl
    rcases h.same k hnone with hsame | hk'
    · exact .inl hsame
    · exact .inr (hapart k (Ne.symm heq) hk')

/-- Another update is made. -/
theorem append (h : CatchesUp v us t apart) (u : Update κ α) :
    CatchesUp v (us ++ [u]) (t.update u) apart where
  stored k a hk := by
    rw [lastOf_append, lastOf_cons, lastOf_nil, none_or] at hk
    rw [update_apply]
    by_cases heq : u.1 = k
    · rw [if_pos heq] at hk ⊢
      exact some.inj hk
    · rw [if_neg heq] at hk ⊢
      exact h.stored k a hk
  same k hk := by
    rw [lastOf_append, lastOf_cons, lastOf_nil, none_or] at hk
    rw [update_apply]
    by_cases heq : u.1 = k
    · rw [if_pos heq] at hk
      exact nomatch hk
    · rw [if_neg heq] at hk ⊢
      exact h.same k hk

/-- Updates come again from an earlier one on. -/
theorem resume (h : CatchesUp v us t apart) {base : Table κ α} {vs : List (Update κ α)}
    (ht : t = base.updates (vs ++ us)) : CatchesUp v (vs ++ us) t apart where
  stored k a hk := by
    rw [ht, updates_apply, hk]
    rfl
  same k hk := by
    apply h.same k
    rw [lastOf_append] at hk
    exact (or_eq_none_iff.mp hk).1

/-- Keys that updates do not have are stored or dropped as they are to be. -/
theorem mono (h : CatchesUp v us t apart) {v' : Table κ α}
    (hkeys : ∀ k, lastOf us k = none → v k = t k ∨ apart k → v' k = t k ∨ apart' k) :
    CatchesUp v' us t apart' where
  stored := h.stored
  same k hk := hkeys k hk (h.same k hk)

theorem eq (h : CatchesUp v [] t fun _ => False) : v = t := by
  funext k
  rcases h.same k rfl with hsame | hfalse
  · exact hsame
  · exact hfalse.elim

end CatchesUp

end Cockpit.Lib
