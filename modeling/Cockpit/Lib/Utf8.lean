import Cockpit.Lib.SelfSync

namespace Cockpit.Lib

/-!
# UTF-8 as a self-synchronising code

The byte sequences of RFC 3629, less the NUL byte: validators of C strings stop at a NUL,
so no complete sequence starts there.  `Utf8.seqLen` reads the sequence at the front of a
byte list and `utf8` packages it as a `SelfSync` code.
-/

namespace Utf8

/-- A continuation byte `10xxxxxx`. -/
def isCont (b : UInt8) : Bool := 0x80 ≤ b && b < 0xC0

/-- The length that a first byte announces: `1` for ASCII other than NUL, `2` to `4` for the
    first byte of a longer sequence, `0` for every byte that starts none. -/
def leadLen (b : UInt8) : Nat :=
  if b = 0 then 0
  else if b < 0x80 then 1
  else if b < 0xC2 then 0
  else if b < 0xE0 then 2
  else if b < 0xF0 then 3
  else if b < 0xF5 then 4
  else 0

/-- The second bytes that may follow `lead`: overlong forms, surrogates and code points
    above `U+10FFFF` are excluded here. -/
def secondOk (lead b : UInt8) : Bool :=
  if lead = 0xE0 then 0xA0 ≤ b && b < 0xC0
  else if lead = 0xED then 0x80 ≤ b && b < 0xA0
  else if lead = 0xF0 then 0x90 ≤ b && b < 0xC0
  else if lead = 0xF4 then 0x80 ≤ b && b < 0x90
  else isCont b

/-- The length of the complete sequence at the front, `0` if there is none. -/
def seqLen : List UInt8 → Nat
  | [] => 0
  | b :: rest =>
    match leadLen b, rest with
    | 1, _ => 1
    | 2, c :: _ => if secondOk b c then 2 else 0
    | 3, c :: d :: _ => if secondOk b c && isCont d then 3 else 0
    | 4, c :: d :: e :: _ => if secondOk b c && isCont d && isCont e then 4 else 0
    | _, _ => 0

/-- Every byte that may stand second in a sequence is a continuation byte. -/
theorem isCont_of_secondOk {lead b : UInt8} (h : secondOk lead b) : isCont b := by
  unfold secondOk isCont at h
  unfold isCont
  split_ifs at h <;>
    simp only [Bool.and_eq_true, decide_eq_true_eq, UInt8.le_iff_toNat_le,
      UInt8.lt_iff_toNat_lt, UInt8.reduceToNat] at h ⊢ <;> omega

/-- No sequence starts at a continuation byte. -/
theorem seqLen_of_isCont {b : UInt8} (h : isCont b) (rest : List UInt8) :
    seqLen (b :: rest) = 0 := by
  have hlead : leadLen b = 0 := by
    unfold isCont at h
    unfold leadLen
    simp only [Bool.and_eq_true, decide_eq_true_eq, UInt8.le_iff_toNat_le,
      UInt8.lt_iff_toNat_lt, UInt8.reduceToNat] at h ⊢
    rw [if_neg (by rintro rfl; simp at h), if_neg (by omega), if_pos (by omega)]
  simp [seqLen, hlead]

variable (xs : List UInt8)

/-- The shapes of a complete sequence: its length is announced by the first byte, and the
    bytes after the first one are continuation bytes. -/
theorem seqLen_cases (h : 0 < seqLen xs) :
    (∃ a r, xs = a :: r ∧ leadLen a = 1 ∧ seqLen xs = 1) ∨
    (∃ a b r, xs = a :: b :: r ∧ leadLen a = 2 ∧ secondOk a b ∧ seqLen xs = 2) ∨
    (∃ a b c r, xs = a :: b :: c :: r ∧ leadLen a = 3 ∧ secondOk a b ∧ isCont c ∧ seqLen xs = 3) ∨
    (∃ a b c d r, xs = a :: b :: c :: d :: r ∧ leadLen a = 4 ∧ secondOk a b ∧
      isCont c ∧ isCont d ∧ seqLen xs = 4) := by
  cases xs with
  | nil => exact absurd h (Nat.lt_irrefl 0)
  | cons a rest =>
    simp only [seqLen] at h ⊢
    split at h
    · rename_i hl
      exact .inl ⟨a, _, rfl, hl, rfl⟩
    · rename_i b r hl
      split at h
      · rename_i hs
        exact .inr (.inl ⟨a, b, r, rfl, hl, hs, by simp [hs]⟩)
      · exact absurd h (Nat.lt_irrefl 0)
    · rename_i b c r hl
      split at h
      · rename_i hs
        have hs' := (Bool.and_eq_true _ _).mp hs
        exact .inr (.inr (.inl ⟨a, b, c, r, rfl, hl, hs'.1, hs'.2, by simp [hs]⟩))
      · exact absurd h (Nat.lt_irrefl 0)
    · rename_i b c d r hl
      split at h
      · rename_i hs
        have hs' := (Bool.and_eq_true _ _).mp hs
        have hs'' := (Bool.and_eq_true _ _).mp hs'.1
        exact .inr (.inr (.inr ⟨a, b, c, d, r, rfl, hl, hs''.1, hs''.2, hs'.2, by simp [hs]⟩))
      · exact absurd h (Nat.lt_irrefl 0)
    · exact absurd h (Nat.lt_irrefl 0)

/-- A complete sequence is not longer than the list. -/
theorem seqLen_le : seqLen xs ≤ xs.length := by
  rcases Nat.eq_zero_or_pos (seqLen xs) with h | h
  · omega
  · rcases seqLen_cases xs h with ⟨a, r, rfl, -, hn⟩ | ⟨a, b, r, rfl, -, -, hn⟩ |
      ⟨a, b, c, r, rfl, -, -, -, hn⟩ | ⟨a, b, c, d, r, rfl, -, -, -, -, hn⟩ <;>
      simp only [hn, List.length_cons] <;> omega

variable (ys : List UInt8)

theorem seqLen_take_append (h : 0 < seqLen xs) :
    seqLen (xs.take (seqLen xs) ++ ys) = seqLen xs := by
  rcases seqLen_cases xs h with ⟨a, r, rfl, hl, hn⟩ | ⟨a, b, r, rfl, hl, hb, hn⟩ |
    ⟨a, b, c, r, rfl, hl, hb, hc, hn⟩ | ⟨a, b, c, d, r, rfl, hl, hb, hc, hd, hn⟩
  · rw [hn]; simp [seqLen, hl]
  · rw [hn]; simp [seqLen, hl, hb]
  · rw [hn]; simp [seqLen, hl, hb, hc]
  · rw [hn]; simp [seqLen, hl, hb, hc, hd]

/-- What follows a complete sequence does not matter. -/
theorem seqLen_append (h : 0 < seqLen xs) :
    seqLen (xs ++ ys) = seqLen xs := by
  simpa [← List.append_assoc] using seqLen_take_append xs (xs.drop (seqLen xs) ++ ys) h

/-- A complete sequence is complete on its own. -/
theorem seqLen_take (h : 0 < seqLen xs) :
    seqLen (xs.take (seqLen xs)) = seqLen xs := by
  simpa using seqLen_take_append xs [] h

/-- A byte behind the first one of a sequence is a continuation byte. -/
theorem isCont_of_seqLen {xs : List UInt8} {k : Nat} (hk : 0 < k) (hlt : k < seqLen xs) :
    ∃ b r, xs.drop k = b :: r ∧ isCont b := by
  rcases seqLen_cases xs (by omega) with ⟨a, r, rfl, -, hn⟩ | ⟨a, b, r, rfl, -, hb, hn⟩ |
    ⟨a, b, c, r, rfl, -, hb, hc, hn⟩ | ⟨a, b, c, d, r, rfl, -, hb, hc, hd, hn⟩ <;> rw [hn] at hlt
  · omega
  · obtain rfl : k = 1 := by omega
    exact ⟨b, r, rfl, isCont_of_secondOk hb⟩
  · obtain rfl | rfl : k = 1 ∨ k = 2 := by omega
    · exact ⟨b, c :: r, rfl, isCont_of_secondOk hb⟩
    · exact ⟨c, r, rfl, hc⟩
  obtain rfl | rfl | rfl : k = 1 ∨ k = 2 ∨ k = 3 := by omega
  · exact ⟨b, c :: d :: r, rfl, isCont_of_secondOk hb⟩
  · exact ⟨c, d :: r, rfl, hc⟩
  · exact ⟨d, r, rfl, hd⟩

/-- A list that is cut off inside its first sequence contains no start of another one. -/
theorem seqLen_inside (h0 : seqLen xs = 0) (h : 0 < seqLen (xs ++ ys))
    (k : Nat) (hk : 0 < k) : seqLen (xs.drop k) = 0 := by
  rcases Nat.lt_or_ge k xs.length with hlt | hge
  · have hcut : xs.length < seqLen (xs ++ ys) := by
      by_contra hle
      have htake := seqLen_take (xs ++ ys) h
      rw [List.take_append_of_le_length (by omega)] at htake
      have happ := seqLen_append (xs.take (seqLen (xs ++ ys))) (xs.drop (seqLen (xs ++ ys)))
        (by omega)
      rw [List.take_append_drop] at happ
      omega
    have hin : k < seqLen (xs ++ ys) := by omega
    obtain ⟨b, r, hdrop, hb⟩ := isCont_of_seqLen hk hin
    rw [List.drop_append_of_le_length (by omega)] at hdrop
    cases hd : xs.drop k with
    | nil => rfl
    | cons c cs =>
      rw [hd, List.cons_append, List.cons.injEq] at hdrop
      rw [hdrop.1]
      exact seqLen_of_isCont hb cs
  · rw [List.drop_eq_nil_of_le hge]; rfl

end Utf8

/-- UTF-8 without NUL, as a self-synchronising code. -/
def utf8 : SelfSync UInt8 where
  len := Utf8.seqLen
  len_le := Utf8.seqLen_le
  len_append := Utf8.seqLen_append
  len_take := Utf8.seqLen_take
  len_inside := Utf8.seqLen_inside

end Cockpit.Lib
