import Cockpit.Lib.Utf8
import Cockpit.Common.GLib

namespace Cockpit

open Lib List GLib

/-!
# `src/common/cockpitunicode.c`

`cockpit_unicode_force_utf8` replaces every byte that `g_utf8_validate` rejects, and
`cockpit_unicode_has_incomplete_ending` says whether the last byte was rejected.  Both are
loops around the same call: validate, skip the rejected byte, validate the rest.

The two loops are tied to the maximal-munch reading of `Lib.SelfSync`:

* `Unicode.forceUtf8_eq` — `forceUtf8` is `repair` with U+FFFD;
* `Unicode.hasIncompleteEnding_eq` — `hasIncompleteEnding` is `endsDamaged`.
-/

namespace GLib

/-- `g_utf8_validate (data, length, &end)`, as the offset `end - data`: validation stops at the
    first byte that does not start a complete valid sequence inside the given length.  The
    function returns `TRUE` exactly when the offset is the length. -/
def utf8Validate : Bytes → Nat
  | [] => 0
  | b :: bs =>
    if utf8.len (b :: bs) = 0 then 0
    else utf8.len (b :: bs) + utf8Validate ((b :: bs).drop (utf8.len (b :: bs)))
  termination_by bs => bs.length
  decreasing_by simp only [length_drop, length_cons]; omega

variable (data : Bytes)

/-- Validation never runs past the end. -/
theorem utf8Validate_le : utf8Validate data ≤ data.length := by
  fun_induction utf8Validate data with
  | case1 | case2 => simp
  | case3 b bs h ih =>
    have hle := utf8.len_le (b :: bs)
    rw [length_drop] at ih
    omega

/-- Where validation stops before the end, no sequence starts. -/
theorem len_drop_utf8Validate (h : utf8Validate data < data.length) :
    utf8.len (data.drop (utf8Validate data)) = 0 := by
  fun_induction utf8Validate data with
  | case1 => exact absurd h (Nat.lt_irrefl 0)
  | case2 b bs h0 => rw [drop_zero]; exact h0
  | case3 b bs h0 ih =>
    have hle := utf8.len_le (b :: bs)
    rw [length_drop] at ih
    rw [← drop_drop]
    exact ih (by omega)

/-- Up to the offset where validation stops, only words are read. -/
theorem exists_tokens_utf8Validate :
    ∃ ws : List Bytes, ws.flatten = data.take (utf8Validate data) ∧
      utf8.tokens data = ws.map .word ++ utf8.tokens (data.drop (utf8Validate data)) := by
  fun_induction utf8Validate data with
  | case1 | case2 b bs h0 => exact ⟨[], rfl, by simp⟩
  | case3 b bs h0 ih =>
    obtain ⟨ws, hflat, htok⟩ := ih
    refine ⟨(b :: bs).take (utf8.len (b :: bs)) :: ws, ?_, ?_⟩
    · rw [flatten_cons, hflat, take_add]
    · rw [utf8.tokens_word (Nat.pos_of_ne_zero h0), htok, map_cons, cons_append, drop_drop]

/-- The reading up to and including the first rejected byte. -/
theorem exists_tokens_of_invalid (h : utf8Validate data < data.length) :
    ∃ (ws : List Bytes) (x : UInt8), ws.flatten = data.take (utf8Validate data) ∧ utf8.tokens data
        = ws.map .word ++ .damaged x :: utf8.tokens (data.drop (utf8Validate data + 1)) := by
  obtain ⟨ws, hflat, htok⟩ := exists_tokens_utf8Validate data
  have hlen := len_drop_utf8Validate data h
  have hcons := drop_eq_getElem_cons h
  rw [hcons] at hlen htok
  exact ⟨ws, data[utf8Validate data], hflat, by rw [htok, utf8.tokens_damaged hlen]⟩

/-- `g_utf8_validate` accepts exactly the well-formed byte lists. -/
theorem utf8Validate_eq_length_iff :
    utf8Validate data = data.length ↔ utf8.WellFormed data := by
  constructor
  · intro h t ht
    obtain ⟨ws, -, htok⟩ := exists_tokens_utf8Validate data
    rw [htok, h, drop_length, utf8.tokens_nil, append_nil] at ht
    obtain ⟨w, -, rfl⟩ := mem_map.mp ht
    rfl
  intro h
  by_contra hne
  have hlt := Nat.lt_of_le_of_ne (utf8Validate_le data) hne
  obtain ⟨ws, x, -, htok⟩ := exists_tokens_of_invalid data hlt
  have := h (.damaged x) (by rw [htok]; simp)
  exact Bool.noConfusion this

end GLib

namespace Unicode

/-- The bytes of U+FFFD, the replacement character. -/
def replacement : Bytes := [0xEF, 0xBF, 0xBD]

/-- The `do … while` of `cockpit_unicode_has_incomplete_ending`, from its loop condition. -/
def hasIncompleteEndingLoop (data : Bytes) : Bool :=
  if utf8Validate data < data.length then
    hasIncompleteEndingLoop (data.drop (utf8Validate data + 1))
  else
    data.length == 0
  termination_by data.length
  decreasing_by rw [length_drop]; omega

variable (input : Bytes)

/-- `cockpit_unicode_has_incomplete_ending` -/
def hasIncompleteEnding : Bool :=
  if utf8Validate input = input.length then false
  else hasIncompleteEndingLoop (input.drop (utf8Validate input + 1))

/-- The `do … while` of `cockpit_unicode_force_utf8`: `string` is the output so far. -/
def forceUtf8Loop (string data : Bytes) : Bytes :=
  if utf8Validate data < data.length then
    forceUtf8Loop (string ++ data.take (utf8Validate data) ++ replacement)
      (data.drop (utf8Validate data + 1))
  else
    string ++ data
  termination_by data.length
  decreasing_by rw [length_drop]; omega

/-- `cockpit_unicode_force_utf8` -/
def forceUtf8 : Bytes :=
  if utf8Validate input = input.length then input
  else forceUtf8Loop [] input

/-! ### The loops compute the repair and the damaged ending -/

variable (data : Bytes)

/-- The repair of a list with a rejected byte. -/
theorem repair_of_invalid (h : utf8Validate data < data.length) :
    utf8.repair replacement data = data.take (utf8Validate data) ++ replacement ++
      utf8.repair replacement (data.drop (utf8Validate data + 1)) := by
  obtain ⟨ws, x, hflat, htok⟩ := exists_tokens_of_invalid data h
  have hws : (ws.map Token.word).flatMap (Token.repaired replacement) = ws.flatten := by
    simp [flatMap_def, Function.comp_def, Token.repaired]
  unfold SelfSync.repair
  rw [htok, flatMap_append, hws, hflat, flatMap_cons, append_assoc]
  rfl

/-- `forceUtf8Loop` appends the repaired rest. -/
theorem forceUtf8Loop_eq (string data : Bytes) :
    forceUtf8Loop string data = string ++ utf8.repair replacement data := by
  fun_induction forceUtf8Loop string data with
  | case1 string data h ih =>
    rw [ih, repair_of_invalid data h]
    simp only [append_assoc]
  | case2 string data h =>
    have hle := utf8Validate_le data
    have hwf := (utf8Validate_eq_length_iff data).mp (by omega)
    rw [utf8.repair_of_wellFormed replacement hwf]

/-- **`force_utf8` is the repair with U+FFFD.** -/
theorem forceUtf8_eq : forceUtf8 input = utf8.repair replacement input := by
  unfold forceUtf8
  split
  · rename_i h
    have hwf := (utf8Validate_eq_length_iff input).mp h
    rw [utf8.repair_of_wellFormed replacement hwf]
  · rw [forceUtf8Loop_eq, nil_append]

@[simp] theorem forceUtf8_nil : forceUtf8 [] = [] := if_pos (Nat.le_zero.mp (utf8Validate_le []))

theorem hasIncompleteEnding_nil : hasIncompleteEnding [] = false :=
  if_pos (Nat.le_zero.mp (utf8Validate_le []))

/-- How a list with a rejected byte ends: as what follows that byte, and damaged when nothing
    follows it. -/
theorem endsDamaged_of_invalid (h : utf8Validate data < data.length) :
    utf8.endsDamaged data = (utf8.endsDamaged (data.drop (utf8Validate data + 1)) ||
      (data.drop (utf8Validate data + 1)).length == 0) := by
  obtain ⟨ws, x, -, htok⟩ := exists_tokens_of_invalid data h
  unfold SelfSync.endsDamaged
  rw [htok, getLast?_append]
  cases hrest : data.drop (utf8Validate data + 1) with
  | nil => simp [Token.isDamaged]
  | cons y ys =>
    rw [getLast?_cons]
    cases hl : (utf8.tokens (y :: ys)).getLast? with
    | none =>
      have := getLast?_eq_none_iff.mp hl
      unfold SelfSync.tokens at this
      split at this <;> exact absurd this (cons_ne_nil _ _)
    | some t => simp

/-- The loop of `has_incomplete_ending` finds a damaged ending, or an empty rest. -/
theorem hasIncompleteEndingLoop_eq :
    hasIncompleteEndingLoop data = (utf8.endsDamaged data || data.length == 0) := by
  fun_induction hasIncompleteEndingLoop data with
  | case1 data h ih =>
    rw [ih, endsDamaged_of_invalid data h]
    have hne : (data.length == 0) = false := by rw [beq_eq_false_iff_ne]; omega
    rw [hne, Bool.or_false]
  | case2 data h =>
    have hle := utf8Validate_le data
    have hwf := (utf8Validate_eq_length_iff data).mp (by omega)
    rw [utf8.endsDamaged_of_wellFormed hwf, Bool.false_or]

/-- **`has_incomplete_ending` tells whether the last token is damaged.** -/
theorem hasIncompleteEnding_eq :
    hasIncompleteEnding input = utf8.endsDamaged input := by
  unfold hasIncompleteEnding
  split
  · rename_i h
    have hwf := (utf8Validate_eq_length_iff input).mp h
    rw [utf8.endsDamaged_of_wellFormed hwf]
  · rename_i h
    have hlt := Nat.lt_of_le_of_ne (utf8Validate_le input) h
    rw [hasIncompleteEndingLoop_eq, endsDamaged_of_invalid input hlt]

/-- U+FFFD is itself well-formed. -/
theorem wellFormed_replacement : utf8.WellFormed replacement := by
  have h : 0 < utf8.len replacement := by decide
  exact utf8.wellFormed_take h

/-- The result of `force_utf8` passes `g_utf8_validate`. -/
theorem utf8Validate_forceUtf8 :
    utf8Validate (forceUtf8 input) = (forceUtf8 input).length := by
  rw [utf8Validate_eq_length_iff, forceUtf8_eq]
  exact utf8.wellFormed_repair wellFormed_replacement input

/-- Where nothing is incomplete, `force_utf8` distributes over concatenation. -/
theorem forceUtf8_append (xs ys : Bytes) (h : hasIncompleteEnding xs = false) :
    forceUtf8 (xs ++ ys) = forceUtf8 xs ++ forceUtf8 ys := by
  rw [hasIncompleteEnding_eq] at h
  simp only [forceUtf8_eq]
  exact utf8.repair_append replacement xs ys h

-- "this is \303 invalid" and "invalid \303" of `test-unicode.c`, shortened
example : forceUtf8 [0x20, 0xC3, 0x20] = [0x20, 0xEF, 0xBF, 0xBD, 0x20] := by decide +kernel
example : hasIncompleteEnding [0x20, 0xC3] := by decide +kernel

end Unicode

end Cockpit
