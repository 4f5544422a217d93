import Cockpit.Common.GLib
import Cockpit.Base1.StreamBuffer

namespace Cockpit.JoinData

open List

/-!
# `join_data` of `src/base1/cockpit.js`

The binary half.  A typed array has `set`, and a plain array, which starts with holes, is filled
element by element.

* `joinData_iff` — the element loop stores each array at one index, so the two ways only agree
  when there is nothing to be joined.
-/

variable (buffers : List Bytes)

/-- The length of all arrays. -/
def total : Nat := buffers.foldl (fun n buffer => n + buffer.length) 0

/-- `data.set(buffer, j)` of a typed array, which throws when the buffer doesn't fit. -/
def set (data : Bytes) (buffer : Bytes) (j : Nat) : Option Bytes :=
  if j + buffer.length ≤ data.length then
    some (data.take j ++ buffer ++ data.drop (j + buffer.length))
  else none

/-- The loop over `set`. -/
def setLoop (j : Nat) (data : Bytes) : List Bytes → Option Bytes
  | [] => some data
  | buffer :: buffers => do setLoop (j + buffer.length) (← set data buffer j) buffers

/-- `data[index] = b` of a plain array, which grows with holes. -/
def store (data : List (Option UInt8)) (index : Nat) (b : UInt8) : List (Option UInt8) :=
  if index < data.length then data.set index (some b)
  else data ++ replicate (index - data.length) none ++ [some b]

/-- The loop over the elements.  The index is `i + j` for each of `buffers[i][k]`. -/
def elementLoop (i j : Nat) (data : List (Option UInt8)) : List Bytes → List (Option UInt8)
  | [] => data
  | buffer :: buffers =>
    elementLoop (i + 1) (j + buffer.length)
      (buffer.foldl (fun data b => store data (i + j) b) data) buffers

/-- `join_data(buffers, true)`, where `none` is an exception and a hole is `none` in the list. -/
def joinData (uint8Array : Bool) (buffers : List Bytes) : Option (List (Option UInt8)) :=
  if uint8Array then (setLoop 0 (replicate (total buffers) 0) buffers).map (·.map some)
  else some (elementLoop 0 0 (replicate (total buffers) none) buffers)

theorem total_eq : total buffers = buffers.flatten.length := by
  have hfold : ∀ n, buffers.foldl (fun n buffer => n + buffer.length) n =
      n + buffers.flatten.length := by
    induction buffers with
    | nil => exact fun n => rfl
    | cons buffer buffers ih =>
      intro n
      rw [foldl_cons, ih, flatten_cons, length_append, Nat.add_assoc]
  rw [total, hfold, Nat.zero_add]

/-- What is behind the part that was copied is overwritten. -/
theorem setLoop_append (done rest : Bytes)
    (h : rest.length = buffers.flatten.length) :
    setLoop done.length (done ++ rest) buffers = some (done ++ buffers.flatten) := by
  induction buffers generalizing done rest with
  | nil =>
    rw [length_eq_zero_iff.mp h]
    rfl
  | cons buffer buffers ih =>
    rw [flatten_cons, length_append] at h
    have hset : set (done ++ rest) buffer done.length =
        some (done ++ buffer ++ rest.drop buffer.length) := by
      rw [set, if_pos (by rw [length_append]; omega), take_left, drop_append]
      simp
    rw [setLoop, hset, flatten_cons, ← append_assoc]
    have hnext := ih (done ++ buffer) (rest.drop buffer.length) (by rw [length_drop]; omega)
    rw [length_append] at hnext
    exact hnext

variable {data : List (Option UInt8)} {index p : Nat} {x : UInt8}

/-- A store fills one index only. -/
theorem store_of_ne {b : UInt8} (hne : p ≠ index)
    (h : (store data index b)[p]? = some (some x)) : data[p]? = some (some x) := by
  unfold store at h
  split at h
  · rwa [getElem?_set_ne hne.symm] at h
  by_cases hp : p < data.length
  · rwa [append_assoc, getElem?_append_left hp] at h
  -- there are holes up to the index, and nothing behind it
  rw [append_assoc, getElem?_append_right (by omega)] at h
  by_cases hhole : p < index
  · rw [getElem?_append_left (by rw [length_replicate]; omega), getElem?_replicate] at h
    split at h <;> cases h
  · rw [getElem?_eq_none (by rw [length_append, length_replicate, length_singleton]; omega)] at h
    cases h

/-- All elements of an array are stored at one index. -/
theorem elements_of_ne {buffer : Bytes} (hne : p ≠ index)
    (h : (buffer.foldl (fun data b => store data index b) data)[p]? = some (some x)) :
    data[p]? = some (some x) := by
  induction buffer generalizing data with
  | nil => exact h
  | cons b buffer ih => exact store_of_ne hne (ih h)

variable {buffers : List Bytes}

/-- The loop only fills what is at its index or behind it. -/
theorem elementLoop_of_lt {i j : Nat} (hlt : p < i + j) (h : (elementLoop i j data buffers)[p]? = some (some x)) :
    data[p]? = some (some x) := by
  induction buffers generalizing i j data with
  | nil => exact h
  | cons buffer buffers ih => exact elements_of_ne (Nat.ne_of_lt hlt) (ih (by omega) h)

/-- No more than one byte, which is in the first array. -/
def Trivial (buffers : List Bytes) : Prop :=
  buffers.flatten = [] ∨ ∃ b rest, buffers = [b] :: rest ∧ rest.flatten = []

/-- A loop over empty arrays does nothing. -/
theorem elementLoop_of_flatten (h : buffers.flatten = []) (i j : Nat)
    (data : List (Option UInt8)) : elementLoop i j data buffers = data := by
  induction buffers generalizing i j with
  | nil => rfl
  | cons buffer buffers ih =>
    obtain ⟨rfl, hrest⟩ := append_eq_nil_iff.mp h
    exact ih hrest (i + 1) j

/-- With typed arrays it never throws, and is the `join_data` that buffers and the transport use. -/
theorem joinData_typed (buffers : List Bytes) :
    joinData true buffers = some ((Page.joinData buffers true).map some) := by
  have hloop := setLoop_append buffers [] (replicate (total buffers) 0)
    (by rw [length_replicate, total_eq])
  rw [Page.joinData_eq_flatten, joinData, if_pos rfl]
  exact congrArg (Option.map _) hloop

/-- **`join_data` concatenates** both ways exactly when there is no more than one byte, and it is
    in the first array. -/
theorem joinData_iff (buffers : List Bytes) :
    (∀ uint8Array, joinData uint8Array buffers = some (buffers.flatten.map some)) ↔
      Trivial buffers := by
  have hset : joinData true buffers = some (buffers.flatten.map some) := by
    rw [joinData_typed, Page.joinData_eq_flatten]
  constructor
  · intro h
    have helements := Option.some.inj (h false)
    -- a byte of the result was stored, as there are holes at first
    have hhole : ∀ (p : Nat) (x : UInt8),
        (replicate (total buffers) (none : Option UInt8))[p]? ≠ some (some x) := by
      intro p x hp
      rw [getElem?_replicate] at hp
      split at hp <;> cases hp
    have hbyte : ∀ p : Nat, p < buffers.flatten.length →
        ∃ x : UInt8, (elementLoop 0 0 (replicate (total buffers) none) buffers)[p]? =
          some (some x) := by
      intro p hp
      rw [helements, getElem?_map, getElem?_eq_getElem hp]
      exact ⟨_, rfl⟩
    cases buffers with
    | nil => exact .inl rfl
    | cons buffer buffers =>
      cases buffer with
      | nil =>
        by_contra hno
        obtain ⟨x, hx⟩ := hbyte 0 (length_pos_iff.mpr fun hnil => hno (.inl hnil))
        exact hhole 0 x (elementLoop_of_lt (i := 1) (j := 0) (by omega) hx)
      | cons b bs =>
        by_cases hlong : 1 < ((b :: bs) :: buffers).flatten.length
        · obtain ⟨x, hx⟩ := hbyte 1 hlong
          have hfirst := elementLoop_of_lt (i := 1) (j := 0 + (b :: bs).length)
            (by rw [length_cons]; omega) hx
          exact absurd (elements_of_ne (by decide : 1 ≠ 0) hfirst) (hhole 1 x)
        · rw [flatten_cons, length_append, length_cons] at hlong
          have hbs : bs = [] := length_eq_zero_iff.mp (by omega)
          exact .inr ⟨b, buffers, by rw [hbs], length_eq_zero_iff.mp (by omega)⟩
  intro htrivial uint8Array
  cases uint8Array with
  | true => exact hset
  | false =>
    rcases htrivial with hnil | ⟨b, rest, rfl, hnil⟩
    · rw [joinData, elementLoop_of_flatten hnil, total_eq, hnil]
      rfl
    · have htotal : total ([b] :: rest) = 1 := by rw [total_eq, flatten_cons, hnil]; rfl
      rw [joinData, htotal, flatten_cons, hnil]
      exact congrArg some (elementLoop_of_flatten hnil 1 1 _)

/-- Two bytes are stored at one index. -/
theorem not_joinData : ¬ ∀ uint8Array,
    joinData uint8Array [[1, 2]] = some ([[1, 2]].flatten.map some) := by decide

end Cockpit.JoinData
