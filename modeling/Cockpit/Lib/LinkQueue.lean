import Mathlib

namespace Cockpit.Lib

open List

/-!
# A queue whose links keep their identity

A doubly linked queue is walked by cursors that point at its links while links are added at
the tail and removed anywhere.  `LinkQueue` gives every link a number of its own that is never
used again, so a cursor can point at a link that is gone, and whether it does can be asked.
`ahead` is what a cursor has still to visit:

* `ahead_pushTail`, `ahead_deleteLink` — what the changes of the queue do to it;
* `filter_perm_cons` — selections of links that differ in one.
-/

variable {α : Type}

/-- A link: its identity and what it holds. -/
structure Link (α : Type) where
  id : Nat
  data : α
  deriving DecidableEq, Repr

/-- The links of a queue, all different and older than the next one. -/
structure LinkQueue (α : Type) where
  links : List (Link α)
  fresh : Nat
  nodup : (links.map Link.id).Nodup
  bound : ∀ l ∈ links, l.id < fresh

namespace LinkQueue

/-- The empty queue. -/
def empty : LinkQueue α := ⟨[], 0, nodup_nil, by simp⟩

variable (q : LinkQueue α) (i : Nat)

/-- Whether the link `i` is still in the queue. -/
def Has : Prop := ∃ l ∈ q.links, l.id = i

/-- What the link `i` holds, if it is still in the queue. -/
def find : Option α :=
  (q.links.find? (fun l => l.id == i)).map Link.data

/-- The first link. -/
def head : Option Nat := q.links.head?.map Link.id

/-- The links that a cursor has yet to visit. -/
def ahead : Option Nat → List (Link α)
  | none => []
  | some i => q.links.dropWhile (fun l => l.id != i)

/-- The link behind the link `i`. -/
def next : Option Nat := (q.ahead (some i)).tail.head?.map Link.id

/-- A new link at the tail. -/
def pushTail (x : α) : LinkQueue α where
  links := q.links ++ [⟨q.fresh, x⟩]
  fresh := q.fresh + 1
  nodup := by
    rw [map_append, nodup_append]
    refine ⟨q.nodup, by simp, ?_⟩
    intro i hi j hj
    obtain ⟨l, hl, rfl⟩ := mem_map.mp hi
    have hlt := q.bound l hl
    simp only [map_cons, map_nil, mem_singleton] at hj
    omega
  bound := by
    intro l hl
    rcases mem_append.mp hl with h | h
    · have := q.bound l h
      omega
    · rw [mem_singleton.mp h]
      exact Nat.lt_succ_self _

/-- The queue without the link `i`. -/
def deleteLink : LinkQueue α where
  links := q.links.filter (fun l => l.id != i)
  fresh := q.fresh
  nodup := q.nodup.sublist (filter_sublist.map Link.id)
  bound := fun l hl => q.bound l (mem_of_mem_filter hl)

variable {q : LinkQueue α}

@[simp] theorem links_empty : (empty : LinkQueue α).links = [] := rfl

@[simp] theorem links_pushTail (q : LinkQueue α) (x : α) :
    (q.pushTail x).links = q.links ++ [⟨q.fresh, x⟩] := rfl

@[simp] theorem ahead_none (q : LinkQueue α) : q.ahead none = [] := rfl

/-- A link of the queue is determined by its identity. -/
theorem eq_of_id {l l' : Link α} (hl : l ∈ q.links) (hl' : l' ∈ q.links) (h : l.id = l'.id) :
    l = l' := inj_on_of_nodup_map q.nodup hl hl' h

variable {l : Link α} {i : Nat}

theorem mem_deleteLink :
    l ∈ (q.deleteLink i).links ↔ l ∈ q.links ∧ l.id ≠ i := by
  simp [deleteLink, mem_filter]

/-- No link of the queue has the identity of the next one. -/
theorem ne_fresh (hl : l ∈ q.links) : l.id ≠ q.fresh :=
  Nat.ne_of_lt (q.bound l hl)

/-! ### A link and its neighbours -/

section Split

variable {pre r : List (Link α)} {l : Link α}

section

variable (h : q.links = pre ++ l :: r)

include h

/-- Links before a place do not have the identities of links behind it. -/
theorem ne_of_split : ∀ l' ∈ pre, l'.id ≠ l.id := by
  intro l' hl'
  have hnodup := q.nodup
  rw [h, map_append, nodup_append] at hnodup
  exact hnodup.2.2 _ (mem_map_of_mem hl') _ (by simp)

/-- A cursor at a link has that link and what is behind it to visit. -/
theorem ahead_of_split : q.ahead (some l.id) = l :: r := by
  show q.links.dropWhile (fun l' => l'.id != l.id) = l :: r
  rw [h, dropWhile_append_of_pos]
  · simp
  · intro l' hl'
    simpa using ne_of_split h l' hl'

/-- The next link is the first one behind it. -/
theorem next_of_split : q.next l.id = r.head?.map Link.id := by
  rw [next, ahead_of_split h, tail_cons]

/-- A link that is in the queue is found there. -/
theorem find_of_split : q.find l.id = some l.data := by
  have hnone : pre.find? (fun l' => l'.id == l.id) = none := by
    rw [find?_eq_none]
    intro l' hl'
    simpa using ne_of_split h l' hl'
  rw [find, h, find?_append, hnone]
  simp

/-- Deleting a link joins what was before and behind it. -/
theorem links_deleteLink_of_split :
    (q.deleteLink l.id).links = pre ++ r := by
  have hnodup := q.nodup
  rw [h, map_append, map_cons, nodup_append, nodup_cons] at hnodup
  have hpre : pre.filter (fun l' => l'.id != l.id) = pre := by
    rw [filter_eq_self]
    intro l' hl'
    simpa using ne_of_split h l' hl'
  have hr : r.filter (fun l' => l'.id != l.id) = r := by
    rw [filter_eq_self]
    intro l' hl'
    have : l'.id ≠ l.id := fun heq => hnodup.2.1.1 (heq ▸ mem_map_of_mem hl')
    simpa using this
  simp only [deleteLink, h, filter_append, hpre, filter_cons, hr, bne_self_eq_false,
    Bool.false_eq_true, if_false]

end

end Split

/-! ### What a cursor has to visit -/

/-- A link that is in the queue stands at some place of it. -/
theorem exists_split (h : q.Has i) :
    ∃ pre l r, q.links = pre ++ l :: r ∧ l.id = i := by
  obtain ⟨l, hl, rfl⟩ := h
  obtain ⟨pre, r, hs⟩ := append_of_mem hl
  exact ⟨pre, l, r, hs, rfl⟩

theorem find_of_mem (hl : l ∈ q.links) : q.find l.id = some l.data := by
  obtain ⟨pre, r, hs⟩ := append_of_mem hl
  exact find_of_split hs

/-- What is found under an identity is held by a link of the queue. -/
theorem mem_of_find {x : α} (h : q.find i = some x) : ⟨i, x⟩ ∈ q.links := by
  rw [find, Option.map_eq_some_iff] at h
  obtain ⟨l, hl, rfl⟩ := h
  have hid : l.id = i := by simpa using find?_some hl
  subst hid
  exact mem_of_find?_eq_some hl

variable {o : Option Nat}

theorem mem_of_mem_ahead (h : l ∈ q.ahead o) : l ∈ q.links := by
  cases o with
  | none => simp at h
  | some i => exact (dropWhile_sublist _).subset h

/-- From the head everything is ahead. -/
theorem ahead_head : q.ahead q.head = q.links := by
  cases h : q.links with
  | nil => simp [head, h]
  | cons l r =>
    rw [head, h]
    have hs : q.links = [] ++ l :: r := h
    exact ahead_of_split hs

/-- **Moving on** drops the link the cursor was at. -/
theorem ahead_next (hl : l ∈ q.links) :
    q.ahead (some l.id) = l :: q.ahead (q.next l.id) := by
  obtain ⟨pre, r, hs⟩ := append_of_mem hl
  rw [ahead_of_split hs, next_of_split hs]
  cases r with
  | nil => rfl
  | cons l' r' =>
    have hs' : q.links = (pre ++ [l]) ++ l' :: r' := by rw [hs, append_assoc]; rfl
    rw [head?_cons, Option.map_some, ahead_of_split hs']

/-- The next link is another link of the queue. -/
theorem has_next (hl : l ∈ q.links) (h : q.next l.id = some i) :
    q.Has i ∧ i ≠ l.id := by
  obtain ⟨pre, r, hs⟩ := append_of_mem hl
  rw [next_of_split hs, Option.map_eq_some_iff] at h
  obtain ⟨l', hl', rfl⟩ := h
  obtain ⟨r', rfl⟩ : ∃ r', r = l' :: r' := by
    cases r with
    | nil => simp at hl'
    | cons x r' => simp only [head?_cons, Option.some.injEq] at hl'; exact ⟨r', by rw [hl']⟩
  have hs' : q.links = (pre ++ [l]) ++ l' :: r' := by rw [hs, append_assoc]; rfl
  exact ⟨⟨l', by simp [hs], rfl⟩, (ne_of_split hs' l (by simp)).symm⟩

/-- The link that the cursor was at is not visited again. -/
theorem ne_of_mem_ahead_next {l l' : Link α} (hl : l ∈ q.links) (h : l' ∈ q.ahead (q.next l.id)) :
    l'.id ≠ l.id := by
  obtain ⟨pre, r, hs⟩ := append_of_mem hl
  have hr : q.ahead (q.next l.id) = r := by
    have := ahead_next hl
    rw [ahead_of_split hs, List.cons.injEq] at this
    exact this.2.symm
  have hnodup := q.nodup
  rw [hs, map_append, map_cons, nodup_append, nodup_cons] at hnodup
  rw [hr] at h
  intro heq
  exact hnodup.2.1.1 (heq ▸ mem_map_of_mem h)

/-- A new link at the tail is ahead of every cursor that is in the queue. -/
theorem ahead_pushTail (h : q.Has i) (x : α) :
    (q.pushTail x).ahead (some i) = q.ahead (some i) ++ [⟨q.fresh, x⟩] := by
  obtain ⟨pre, l, r, hs, rfl⟩ := exists_split h
  have hs' : (q.pushTail x).links = pre ++ l :: (r ++ [⟨q.fresh, x⟩]) := by simp [hs]
  rw [ahead_of_split hs', ahead_of_split hs, cons_append]

variable {j : Nat}

/-- Another link that is deleted is not visited any more. -/
theorem ahead_deleteLink (h : q.Has i) (hne : i ≠ j) :
    (q.deleteLink j).ahead (some i) = (q.ahead (some i)).filter (fun l => l.id != j) := by
  obtain ⟨pre, l, r, hs, rfl⟩ := exists_split h
  have hs' : (q.deleteLink j).links =
      pre.filter (fun l => l.id != j) ++ l :: r.filter (fun l => l.id != j) := by
    simp [deleteLink, hs, filter_append, hne]
  rw [ahead_of_split hs', ahead_of_split hs, filter_cons, if_pos (by simpa using hne)]

theorem has_pushTail (h : q.Has i) (x : α) : (q.pushTail x).Has i := by
  obtain ⟨l, hl, rfl⟩ := h
  exact ⟨l, mem_append_left _ hl, rfl⟩

theorem has_deleteLink (h : q.Has i) (hne : i ≠ j) : (q.deleteLink j).Has i := by
  obtain ⟨l, hl, rfl⟩ := h
  exact ⟨l, mem_deleteLink.mpr ⟨hl, hne⟩, rfl⟩

/-- What a cursor has to visit stays there when a link is added. -/
theorem mem_ahead_pushTail (h : l ∈ q.ahead o)
    (ho : ∀ i, o = some i → q.Has i) (x : α) : l ∈ (q.pushTail x).ahead o := by
  cases o with
  | none => simp at h
  | some i =>
    rw [ahead_pushTail (ho i rfl)]
    exact mem_append_left _ h

/-- What a cursor has to visit stays there when another link is deleted. -/
theorem mem_ahead_deleteLink (h : l ∈ q.ahead o)
    (ho : ∀ i, o = some i → q.Has i ∧ i ≠ j) (hne : l.id ≠ j) : l ∈ (q.deleteLink j).ahead o := by
  cases o with
  | none => simp at h
  | some i =>
    rw [ahead_deleteLink (ho i rfl).1 (ho i rfl).2]
    exact mem_filter.mpr ⟨h, by simpa using hne⟩

/-- Deleting a link brings nothing new before a cursor. -/
theorem mem_of_mem_ahead_deleteLink
    (ho : ∀ i, o = some i → q.Has i ∧ i ≠ j) (h : l ∈ (q.deleteLink j).ahead o) : l ∈ q.ahead o := by
  cases o with
  | none => simp at h
  | some i =>
    rw [ahead_deleteLink (ho i rfl).1 (ho i rfl).2] at h
    exact mem_of_mem_filter h

/-- Two selections that differ in one link only. -/
theorem filter_perm_cons (p p' : Link α → Bool) (hl : l ∈ q.links)
    (hp : p l) (hp' : p' l = false)
    (hsame : ∀ l' ∈ q.links, l'.id ≠ l.id → p l' = p' l') :
    (q.links.filter p).Perm (l :: q.links.filter p') := by
  obtain ⟨pre, r, hs⟩ := append_of_mem hl
  have hnodup := q.nodup
  rw [hs, map_append, map_cons, nodup_append, nodup_cons] at hnodup
  have hpre : pre.filter p = pre.filter p' :=
    filter_congr fun l' hl' => hsame l' (by simp [hs, hl']) (ne_of_split hs l' hl')
  have hr : r.filter p = r.filter p' := by
    refine filter_congr fun l' hl' => hsame l' (by simp [hs, hl']) ?_
    intro heq
    exact hnodup.2.1.1 (heq ▸ mem_map_of_mem hl')
  rw [hs, filter_append, filter_append, filter_cons, filter_cons, if_pos hp,
    if_neg (by simp [hp']), hpre, hr]
  exact perm_middle

end LinkQueue

end Cockpit.Lib
