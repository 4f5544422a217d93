import Cockpit.Lib.Run

namespace Cockpit.Page

open Lib List

/-!
# `src/base1/cockpit.js`: `Channel.buffer`

A buffer in front of a callback that takes as much of the data as it likes.  The messages of a
channel are strings, or arrays of bytes on a binary channel, and both are lists of units here.

* `joinData_eq_flatten` — `join_data` puts its buffers one behind the other;
* `StreamBuffer.consumed_append_squash` — nothing is lost.
-/

/-! ### `join_data` -/

/-- `data.set (xs, j)` -/
def setAt {α : Type} (data xs : List α) (j : Nat) : List α :=
  data.take j ++ xs ++ data.drop (j + xs.length)

/-- The loop of `join_data`; binary messages are typed arrays, which have a `set`. -/
def joinLoop {α : Type} (data : List α) (j : Nat) : List (List α) → List α
  | [] => data
  | buffer :: buffers => joinLoop (setAt data buffer j) (j + buffer.length) buffers

/-- `join_data`; a new array is all zeros. -/
def joinData {α : Type} [Zero α] (buffers : List (List α)) (binary : Bool) : List α :=
  -- `buffers.join("")`
  if !binary then buffers.flatten
  else
    let total := (buffers.map List.length).sum
    joinLoop (List.replicate total 0) 0 buffers

/-- The loop fills in the array from `j` on. -/
theorem joinLoop_append {α : Type} {buffers : List (List α)} {front back : List α}
    (h : back.length = buffers.flatten.length) :
    joinLoop (front ++ back) front.length buffers = front ++ buffers.flatten := by
  induction buffers generalizing front back with
  | nil =>
    have hback : back = [] := eq_nil_of_length_eq_zero (by simpa using h)
    rw [joinLoop, hback]
    rfl
  | cons buffer buffers ih =>
    rw [flatten_cons, List.length_append] at h
    have hset : setAt (front ++ back) buffer front.length =
        (front ++ buffer) ++ back.drop buffer.length := by
      rw [setAt, take_left, drop_append]
      simp
    have hrest : (back.drop buffer.length).length = buffers.flatten.length := by
      rw [length_drop]
      omega
    have ih := @ih (front ++ buffer) _ hrest
    rw [List.length_append] at ih
    rw [joinLoop, hset, ih, flatten_cons, append_assoc]

theorem joinData_eq_flatten {α : Type} [Zero α] (buffers : List (List α)) (binary : Bool) :
    joinData buffers binary = buffers.flatten := by
  unfold joinData
  split
  · rfl
  have hlen : (List.replicate (buffers.map List.length).sum (0 : α)).length =
      buffers.flatten.length := by
    rw [length_replicate, length_flatten]
  simpa using @joinLoop_append α buffers [] _ hlen

/-! ### The buffer -/

/-- What `Channel.buffer` returns, with all that the callback has taken. -/
structure StreamBuffer (α : Type) where
  binary : Bool
  buffers : List (List α) := []
  /-- Whether there is a callback. -/
  callback : Bool := false
  consumed : List α := []

/-- What happens to a buffer. -/
inductive StreamEvent (α : Type) where
  /-- A message comes; the number is what the callback returns if it is called. -/
  | message (data : List α) (returned : Option Nat)
  /-- The callback is set or removed. -/
  | setCallback (there : Bool)

namespace StreamBuffer

variable {α : Type} [Zero α] (s : StreamBuffer α)

/-- `squash` -/
def squash : List α := joinData s.buffers s.binary

/-- The end of `on_message`, with what the callback returned for the block. -/
def keep (block : List α) : Option Nat → StreamBuffer α
  | none => { s with buffers := [], consumed := s.consumed ++ block }
  | some consumed =>
    if consumed = block.length then { s with buffers := [], consumed := s.consumed ++ block }
    else if consumed = 0 then { s with buffers := [block] }
    -- `block.subarray (consumed)` or `block.substring (consumed)`
    else { s with buffers := [block.drop consumed], consumed := s.consumed ++ block.take consumed }

/-- `on_message` -/
def onMessage (data : List α) (returned : Option Nat) : StreamBuffer α :=
  let s := { s with buffers := s.buffers ++ [data] }
  if s.callback then
    let block := joinData s.buffers s.binary
    if block.length > 0 then s.keep block returned else s
  else s

def step : StreamEvent α → StreamBuffer α
  | .message data returned => s.onMessage data returned
  | .setCallback there => { s with callback := there }

/-- The messages that came. -/
def received : List (StreamEvent α) → List (List α)
  | [] => []
  | .message data _ :: es => data :: received es
  | _ :: es => received es

omit [Zero α] in
/-- What the callback does not take is kept. -/
theorem keep_append (s : StreamBuffer α) (block : List α) (returned : Option Nat) :
    (s.keep block returned).consumed ++ (s.keep block returned).buffers.flatten =
      s.consumed ++ block := by
  cases returned with
  | none => simp [keep]
  | some consumed =>
    by_cases hall : consumed = block.length
    · simp [keep, hall]
    by_cases hnone : consumed = 0
    · simp only [keep, if_neg hall, if_pos hnone]
      simp
    · -- some of the block, but not all
      simp [keep, hall, hnone]

omit [Zero α] in
theorem received_append (es fs : List (StreamEvent α)) :
    received (es ++ fs) = received es ++ received fs := by
  induction es with
  | nil => rfl
  | cons e es ih => cases e <;> simp [received, ih]

/-- One more event. -/
theorem step_append {s : StreamBuffer α} {es : List (StreamEvent α)}
    (hinv : s.consumed ++ s.buffers.flatten = (received es).flatten) (e : StreamEvent α) :
    (s.step e).consumed ++ (s.step e).buffers.flatten = (received (es ++ [e])).flatten := by
  rw [received_append, flatten_append, ← hinv]
  cases e with
  | setCallback there => simp [step, received]
  | message data returned =>
    have hblock : (s.buffers ++ [data]).flatten = s.buffers.flatten ++ data := by simp
    simp only [step, onMessage, received, flatten_cons, flatten_nil, append_nil]
    split
    · split
      · -- the callback is called with everything that was kept
        rw [keep_append, joinData_eq_flatten, hblock, append_assoc]
      · rw [hblock, append_assoc]
    · rw [hblock, append_assoc]

/-- **Nothing is lost**: what the callback has taken and what `squash` returns are all the messages,
    on a channel of either kind. -/
theorem consumed_append_squash (binary : Bool) (es : List (StreamEvent α)) :
    (run step { binary := binary } es).consumed ++ (run step { binary := binary } es).squash =
      (received es).flatten := by
  rw [squash, joinData_eq_flatten]
  induction es using List.reverseRecOn with
  | nil => rfl
  | append_singleton es e ih =>
    rw [run_append]
    exact step_append ih e

end StreamBuffer

end Cockpit.Page
