import Mathlib

namespace Cockpit.Lib

open List

/-!
# A queue of counted objects

Objects are made at the tail of a queue, with one reference, and taken from its head.  Who
holds the references is a list of identities, with one entry for each reference.

* `CountedQueue` — the queue, whose objects stand in the order in which they were made.
-/

variable {ν : Type}

/-- An object with a count; `ident` says which one it is. -/
structure Counted (ν : Type) where
  ident : Nat
  refs : Nat
  val : ν

/-- The objects in the queue, and the identity of the next one. -/
structure CountedQueue (ν : Type) where
  items : List (Counted ν)
  next : Nat
  sorted : (items.map Counted.ident).Pairwise (· < ·)
  fresh : ∀ i ∈ items.map Counted.ident, i < next

namespace CountedQueue

/-- The queue without objects. -/
def empty : CountedQueue ν := ⟨[], 0, by simp, by simp⟩

variable (q : CountedQueue ν)

/-- Which objects are in the queue. -/
def idents : List Nat := q.items.map Counted.ident

/-- Make an object. -/
def create (v : ν) : CountedQueue ν where
  items := q.items ++ [⟨q.next, 1, v⟩]
  next := q.next + 1
  sorted := by
    rw [map_append, pairwise_append]
    refine ⟨q.sorted, by simp, ?_⟩
    intro i hi j hj
    obtain rfl : j = q.next := by simpa using hj
    exact q.fresh i hi
  fresh := by
    intro i hi
    rw [map_append, mem_append] at hi
    rcases hi with hi | hi
    · exact Nat.lt_succ_of_lt (q.fresh i hi)
    · obtain rfl : i = q.next := by simpa using hi
      exact Nat.lt_succ_self q.next

/-- Change the count of the object `i`. -/
def count (o : Counted ν) (i : Nat) (f : Nat → Nat) : Counted ν :=
  if o.ident = i then { o with refs := f o.refs } else o

@[simp] theorem count_ident (o : Counted ν) (i : Nat) (f : Nat → Nat) :
    (count o i f).ident = o.ident := by unfold count; split <;> rfl

theorem map_ident_count (items : List (Counted ν)) (i : Nat) (f : Nat → Nat) :
    (items.map fun o => count o i f).map Counted.ident = items.map Counted.ident := by
  rw [map_map]
  exact map_congr_left fun o _ => count_ident o i f

variable (i : Nat)

/-- Change the count of the object `i` in the queue. -/
def recount (f : Nat → Nat) : CountedQueue ν where
  items := q.items.map fun o => count o i f
  next := q.next
  sorted := by rw [map_ident_count]; exact q.sorted
  fresh := by rw [map_ident_count]; exact q.fresh

/-- Take a reference. -/
def ref : CountedQueue ν := q.recount i (· + 1)

/-- Drop a reference. -/
def unref : CountedQueue ν := q.recount i (· - 1)

/-- Take the object at the head away. -/
def pop : CountedQueue ν where
  items := q.items.tail
  next := q.next
  sorted := by rw [map_tail]; exact q.sorted.sublist (tail_sublist _)
  fresh := by rw [map_tail]; exact fun i hi => q.fresh i (mem_of_mem_tail hi)

/-- The object with an identity. -/
def find : Option (Counted ν) := q.items.find? (·.ident == i)

@[simp] theorem idents_recount (f : Nat → Nat) :
    (q.recount i f).idents = q.idents := map_ident_count q.items i f

@[simp] theorem idents_ref : (q.ref i).idents = q.idents :=
  idents_recount q i _

end CountedQueue

end Cockpit.Lib
