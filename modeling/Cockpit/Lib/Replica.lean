import Mathlib

namespace Cockpit.Lib

open List

/-!
# Replicas of a table that changes

Whoever keeps a replica of a table is sent messages, each of which says how the replica changes.  At
first a replica may be a part of the table only; a message that is full makes it all of the table.

* `tells_overlay`, `tells_full`, `tells_clear` — messages that do;
* `Faithful.append` — a replica goes on being what the table is when it is told of each change.
-/

variable {κ α : Type}

/-- What is stored for each key. -/
abbrev Table (κ α : Type) := κ → Option α

/-- A part of a table. -/
def PartOf (v t : Table κ α) : Prop := ∀ k a, v k = some a → t k = some a

theorem partOf_refl (t : Table κ α) : PartOf t t := fun _ _ h => h

theorem partOf_empty (t : Table κ α) : PartOf (fun _ => none) t := nofun

/-- Parts of a table are made parts of another one, and all of it is made all of it. -/
structure Tells (message : Table κ α → Table κ α) (t t' : Table κ α) : Prop where
  part : ∀ v, PartOf v t → PartOf (message v) t'
  all : message t = t'

/-- Keys are dropped, and others stored. -/
def overlay (present : Table κ α) (removed : κ → Bool) (v : Table κ α) : Table κ α :=
  fun k => (present k).or (if removed k then none else v k)

variable {t t' : Table κ α}

theorem tells_overlay {present : Table κ α} {removed : κ → Bool}
    (h : ∀ k, t' k = overlay present removed t k) : Tells (overlay present removed) t t' where
  part v hv k a ha := by
    rw [h]
    unfold overlay at ha ⊢
    cases hp : present k with
    | some b =>
      rw [hp] at ha
      exact ha
    | none =>
      rw [hp] at ha
      rw [Option.none_or] at ha ⊢
      split at ha
      · exact nomatch ha
      · rename_i hr
        rw [if_neg hr]
        exact hv k a ha
  all := funext fun k => (h k).symm

/-- Everything is stored. -/
theorem overlay_all_of_partOf {v : Table κ α} (h : PartOf v t) :
    overlay t (fun _ => false) v = t := by
  funext k
  unfold overlay
  cases ht : t k with
  | some a => rfl
  | none =>
    rw [Option.none_or, if_neg Bool.false_ne_true]
    cases hv : v k with
    | none => rfl
    | some a => exact nomatch ht.symm.trans (h k a hv)

/-- Everything is dropped. -/
theorem tells_clear (t : Table κ α) : Tells (fun _ => fun _ => none) t fun _ => none where
  part _ _ := partOf_empty _
  all := rfl

/-! ### What a replica was sent -/

/-- A message, whether it is full, and the table when it was sent. -/
structure Sent (κ α : Type) where
  message : Table κ α → Table κ α
  full : Bool
  now : Table κ α

variable (sent : List (Sent κ α))

/-- The replica after some messages. -/
def replica : Table κ α := sent.foldl (fun v s => s.message v) fun _ => none

/-- One of them was full. -/
def hasFull : Bool := sent.any Sent.full

theorem replica_append (s : Sent κ α) :
    replica (sent ++ [s]) = s.message (replica sent) := by
  simp [replica]

theorem hasFull_append (s : Sent κ α) :
    hasFull (sent ++ [s]) = (hasFull sent || s.full) := by
  simp [hasFull]

/-- **From the first full message on**, the replica is what the table is, after each message. -/
def Faithful : Prop :=
  ∀ before s after, sent = before ++ s :: after → hasFull (before ++ [s]) →
    replica (before ++ [s]) = s.now

/-- The table is what the replica is, or has it as a part as long as no message was full. -/
structure UpToDate (sent : List (Sent κ α)) (t : Table κ α) : Prop where
  part : PartOf (replica sent) t
  all : hasFull sent → replica sent = t

theorem faithful_nil : Faithful ([] : List (Sent κ α)) := by
  intro before s after h
  exact absurd h (by simp)

theorem upToDate_nil (t : Table κ α) : UpToDate [] t where
  part := partOf_empty t
  all h := nomatch h

variable {sent : List (Sent κ α)}

theorem Faithful.append (h : Faithful sent) {s : Sent κ α}
    (hup : UpToDate (sent ++ [s]) s.now) : Faithful (sent ++ [s]) := by
  intro before s' after heq hfull
  rcases eq_nil_or_concat after with rfl | ⟨after, last, rfl⟩
  · obtain ⟨rfl, hs⟩ := append_inj' heq rfl
    obtain rfl := singleton_inj.mp hs
    exact hup.all hfull
  · rw [concat_eq_append, ← cons_append, ← append_assoc] at heq
    obtain ⟨rfl, -⟩ := append_inj' heq rfl
    exact h before s' after rfl hfull

/-- A message tells of a change. -/
theorem UpToDate.append (h : UpToDate sent t)
    {message : Table κ α → Table κ α} (htells : Tells message t t') :
    UpToDate (sent ++ [⟨message, false, t'⟩]) t' where
  part := by
    rw [replica_append]
    exact htells.part _ h.part
  all hfull := by
    rw [hasFull_append, Bool.or_false] at hfull
    rw [replica_append, h.all hfull]
    exact htells.all

/-- A full message. -/
theorem UpToDate.append_full (h : UpToDate sent t) :
    UpToDate (sent ++ [⟨overlay t (fun _ => false), true, t⟩]) t where
  part := by
    rw [replica_append]
    show PartOf (overlay t (fun _ => false) (replica sent)) t
    rw [overlay_all_of_partOf h.part]
    exact partOf_refl t
  all _ := by
    rw [replica_append]
    exact overlay_all_of_partOf h.part

end Cockpit.Lib
