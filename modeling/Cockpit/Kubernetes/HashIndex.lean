import Cockpit.Lib.SortedList

namespace Cockpit.Kube

open Lib (Increasing insertSorted intersect)
open Option

/-!
# `pkg/kubernetes/scripts/kube-client.js`: `HashIndex`

Values are added with keys, and found by keys again.  Others may be found as well, whose keys have
the same hash.

* `hash`, `HashIndex` — as they are;
* `mem_get_add`, `mem_all` — what is found.
-/

/-- A JavaScript string, as its code units. -/
abbrev JsString := List Nat

/-- The code units of a string. -/
def codeUnits (s : String) : JsString :=
  s.toList.flatMap fun c =>
    if c.toNat < 0x10000 then [c.toNat]
    else [0xD800 + (c.toNat - 0x10000) / 0x400, 0xDC00 + (c.toNat - 0x10000) % 0x400]

/-- `x | 0` -/
def toInt32 (x : Int) : Int := x.bmod (2 ^ 32)

def hash (str : JsString) : Nat :=
  (str.foldl (fun h chr => toInt32 (toInt32 (h * 32) - h + chr)) 0).natAbs

/-- The lists of an index are sorted. -/
structure HashIndex where
  size : Nat
  array : Nat → Option (List JsString)
  increasing : ∀ i p, array i = some p → Increasing p

namespace HashIndex

def new (size : Nat) : HashIndex where
  size := size
  array _ := none
  increasing _ _ h := nomatch h

/-- Where the values for a key are. -/
def place (ix : HashIndex) (key : JsString) : Nat := hash key % ix.size

def get (ix : HashIndex) (key : JsString) : List JsString := (ix.array (ix.place key)).getD []

variable {ix : HashIndex} {key key' value value' : JsString}

theorem get_of_array {p : Option (List JsString)}
    (h : ix.array (ix.place key) = p) : ix.get key = p.getD [] := by
  rw [get, h]

theorem increasing_get (ix : HashIndex) (key : JsString) : Increasing (ix.get key) := by
  cases hp : ix.array (ix.place key) with
  | none =>
    rw [get_of_array hp]
    exact List.Pairwise.nil
  | some p =>
    rw [get_of_array hp]
    exact ix.increasing _ p hp

def addKey (ix : HashIndex) (value key : JsString) : HashIndex where
  size := ix.size
  array := Function.update ix.array (ix.place key) (some (insertSorted (ix.get key) value))
  increasing i p h := by
    rw [Function.update_apply] at h
    split at h
    · obtain rfl := some.inj h
      exact Lib.increasing_insertSorted (ix.increasing_get key) value
    · exact ix.increasing i p h

def add (ix : HashIndex) (keys : List JsString) (value : JsString) : HashIndex :=
  keys.foldl (fun ix key => ix.addKey value key) ix

/-- The loop of `all`, with its `result`. -/
def allLoop (ix : HashIndex) : List JsString → Option (List JsString) → List JsString
  | [], result => result.getD []
  | key :: keys, result =>
    match ix.array (ix.place key) with
    | none => []
    | some p =>
      match result with
      | none => allLoop ix keys (some p)
      | some result => allLoop ix keys (some (intersect result p))

def all (ix : HashIndex) (keys : List JsString) : List JsString := ix.allLoop keys none

/-! ### What is found -/

theorem mem_get_addKey (h : value' ∈ ix.get key' ∨ value' = value ∧ key' = key) :
    value' ∈ (ix.addKey value key).get key' := by
  show value' ∈ (Function.update ix.array (ix.place key) _ (ix.place key')).getD []
  rw [Function.update_apply]
  split
  · rename_i hplace
    rw [getD_some, Lib.mem_insertSorted]
    rcases h with h | ⟨rfl, rfl⟩
    · right
      unfold get at h ⊢
      rw [← hplace]
      exact h
    · exact .inl rfl
  rename_i hplace
  rcases h with h | ⟨rfl, rfl⟩
  · exact h
  · exact absurd rfl hplace

variable {keys : List JsString}

/-- **What was added is found**, and what was there. -/
theorem mem_get_add (h : value' ∈ ix.get key' ∨ value' = value ∧ key' ∈ keys) :
    value' ∈ (ix.add keys value).get key' := by
  induction keys generalizing ix with
  | nil =>
    rcases h with h | ⟨-, h⟩
    · exact h
    · exact absurd h List.not_mem_nil
  | cons key keys ih =>
    apply ih
    rcases h with h | ⟨hvalue, h⟩
    · exact .inl (mem_get_addKey (.inl h))
    · rcases List.mem_cons.mp h with rfl | h
      · exact .inl (mem_get_addKey (.inr ⟨hvalue, rfl⟩))
      · exact .inr ⟨hvalue, h⟩

theorem increasing_allLoop {result : Option (List JsString)}
    (h : ∀ p ∈ result, Increasing p) : Increasing (ix.allLoop keys result) := by
  induction keys generalizing result with
  | nil =>
    unfold allLoop
    cases result with
    | none => exact List.Pairwise.nil
    | some p => exact h p rfl
  | cons key keys ih =>
    unfold allLoop
    cases hp : ix.array (ix.place key) with
    | none => exact List.Pairwise.nil
    | some p =>
      have hincr := ix.increasing _ p hp
      dsimp only
      cases result with
      | none => exact ih fun p' hp' => some.inj hp' ▸ hincr
      | some result =>
        refine ih fun p' hp' => ?_
        obtain rfl := some.inj hp'
        exact Lib.increasing_intersect (h result rfl) hincr

theorem increasing_all (ix : HashIndex) (keys : List JsString) : Increasing (ix.all keys) :=
  increasing_allLoop nofun

theorem mem_allLoop {result : List JsString}
    (h : Increasing result) (value : JsString) :
    value ∈ ix.allLoop keys (some result) ↔ value ∈ result ∧ ∀ key ∈ keys, value ∈ ix.get key := by
  induction keys generalizing result with
  | nil => simp [allLoop]
  | cons key keys ih =>
    unfold allLoop
    rw [List.forall_mem_cons]
    cases hp : ix.array (ix.place key) with
    | none =>
      rw [get_of_array hp]
      simp
    | some p =>
      have hincr := ix.increasing _ p hp
      dsimp only
      rw [get_of_array hp, getD_some, ih (Lib.increasing_intersect h hincr), Lib.mem_intersect h hincr,
        and_assoc]

/-- **What is found by all of some keys** is what is found by each of them. -/
theorem mem_all (hkeys : keys ≠ []) (value : JsString) :
    value ∈ ix.all keys ↔ ∀ key ∈ keys, value ∈ ix.get key := by
  cases keys with
  | nil => exact absurd rfl hkeys
  | cons key keys =>
    unfold all allLoop
    rw [List.forall_mem_cons]
    cases hp : ix.array (ix.place key) with
    | none =>
      rw [get_of_array hp]
      simp
    | some p =>
      dsimp only
      rw [get_of_array hp, getD_some, mem_allLoop (ix.increasing _ p hp)]

end HashIndex

end Cockpit.Kube
