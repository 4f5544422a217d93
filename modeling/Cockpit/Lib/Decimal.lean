import Mathlib

namespace Cockpit.Lib

open List Nat

/-!
# Decimal numerals as bytes

`decimal` writes a number in ASCII digits, as `printf` does for unsigned integers, and
`digitsValue` reads digits from the left.

* `digitsValue_lt`, `length_decimal_le_iff` — the number of digits;
* `toString_injective`, `isDigit_of_mem_toString` — the same of `toString`.
-/

/-- An ASCII digit. -/
def isDigit (b : UInt8) : Bool := 48 ≤ b && b ≤ 57

/-- The number an ASCII digit stands for. -/
def digitValue (b : UInt8) : Nat := b.toNat - 48

/-- The ASCII digit of a number below ten. -/
def digit (d : Nat) : UInt8 := UInt8.ofNat (48 + d)

/-- The digits of `n`, most significant first. -/
def decimal (n : Nat) : List UInt8 :=
  if n < 10 then [digit n]
  else decimal (n / 10) ++ [digit (n % 10)]
  termination_by n

/-- Induction on numerals: one digit, or a digit behind a numeral. -/
theorem digits_induction (base : Nat) (hbase : 1 < base) {motive : Nat → Prop}
    (one : ∀ n, n < base → motive n) (more : ∀ n, ¬ n < base → motive (n / base) → motive n)
    (n : Nat) : motive n := by
  induction n using Nat.strong_induction_on with
  | _ n ih =>
    by_cases h : n < base
    · exact one n h
    · exact more n h (ih (n / base) (div_lt_self (by omega) hbase))

/-- Read digits from the left, starting from `acc`. -/
def digitsValue (acc : Nat) (ds : List UInt8) : Nat :=
  ds.foldl (fun acc b => acc * 10 + digitValue b) acc

/-- Digits stand for a number below a power of ten. -/
theorem digitsValue_lt {ds : List UInt8} (h : ∀ b ∈ ds, isDigit b) :
    digitsValue 0 ds < 10 ^ ds.length := by
  have hfold : ∀ ds acc bound, (∀ b ∈ ds, isDigit b) → acc < bound →
      digitsValue acc ds < bound * 10 ^ ds.length := by
    intro ds
    induction ds with
    | nil => intro acc bound _ hacc; simpa [digitsValue] using hacc
    | cons b ds ih =>
      intro acc bound hds hacc
      have hb := hds b mem_cons_self
      have hdigit : digitValue b ≤ 9 := by
        simp only [isDigit, Bool.and_eq_true, decide_eq_true_eq, UInt8.le_iff_toNat_le,
          UInt8.reduceToNat] at hb
        unfold digitValue
        omega
      have hstep := ih (acc * 10 + digitValue b) (bound * 10)
        (fun c hc => hds c (mem_cons_of_mem b hc)) (by omega)
      rw [length_cons, pow_succ, mul_comm (10 ^ ds.length), ← mul_assoc]
      exact hstep
  simpa using hfold ds 0 1 h one_pos

variable {d n : Nat}

theorem toNat_digit (h : d < 10) : (digit d).toNat = 48 + d := by
  rw [digit, UInt8.toNat_ofNat', mod_eq_of_lt (by omega)]

theorem isDigit_digit (h : d < 10) : isDigit (digit d) := by
  simp only [isDigit, Bool.and_eq_true, decide_eq_true_eq, UInt8.le_iff_toNat_le, toNat_digit h,
    UInt8.reduceToNat]
  omega

theorem digitValue_digit (h : d < 10) : digitValue (digit d) = d := by
  rw [digitValue, toNat_digit h]
  omega

/-- A numeral consists of digits. -/
theorem isDigit_of_mem_decimal : ∀ b ∈ decimal n, isDigit b := by
  induction n using digits_induction 10 (by decide) with
  | one n h =>
    intro b hb
    rw [decimal, if_pos h, mem_singleton] at hb
    rw [hb]
    exact isDigit_digit h
  | more n h ih =>
    intro b hb
    rw [decimal, if_neg h, mem_append, mem_singleton] at hb
    rcases hb with hb | rfl
    · exact ih b hb
    · exact isDigit_digit (mod_lt n (by omega))

/-- **Reading a numeral gives the number back.** -/
theorem digitsValue_decimal (n : Nat) : digitsValue 0 (decimal n) = n := by
  induction n using digits_induction 10 (by decide) with
  | one n h =>
    rw [decimal, if_pos h]
    simp [digitsValue, digitValue_digit h]
  | more n h ih =>
    rw [decimal, if_neg h]
    unfold digitsValue at ih ⊢
    rw [foldl_append, ih]
    simp only [foldl_cons, foldl_nil, digitValue_digit (mod_lt n (by omega : 0 < 10))]
    omega

/-- The number of digits. -/
theorem length_decimal_le_iff (n k : Nat) : (decimal n).length ≤ k + 1 ↔ n < 10 ^ (k + 1) := by
  induction n using digits_induction 10 (by decide) generalizing k with
  | one n h =>
    rw [decimal, if_pos h]
    have hpow : 10 ^ 1 ≤ 10 ^ (k + 1) := Nat.pow_le_pow_right (by omega) (by omega)
    simp only [length_singleton]
    omega
  | more n h ih =>
    rw [decimal, if_neg h, List.length_append, length_singleton]
    cases k with
    | zero =>
      have hne := (ih 0)
      have hpos : 0 < (decimal (n / 10)).length := by
        rw [decimal]
        split <;> simp
      omega
    | succ k =>
      have hk := ih k
      have hpow : 10 ^ (k + 1 + 1) = 10 ^ (k + 1) * 10 := pow_succ 10 (k + 1)
      omega

/-- A numeral is not empty. -/
theorem length_decimal_pos (n : Nat) : 0 < (decimal n).length := by
  rw [decimal]
  split <;> simp

/-! ### Numerals as strings -/

/-- A number is written in one way only. -/
theorem toString_injective {m : Nat} (h : toString m = toString n) : m = n := by
  have hlists : toDigits 10 m = toDigits 10 n := by
    rw [← toList_repr, ← toList_repr]
    exact congrArg String.toList h
  rw [← ofDigitChars_ten_toDigits (n := m), hlists, ofDigitChars_ten_toDigits]

theorem isDigit_of_mem_toString {c : Char} (h : c ∈ (toString n).toList) :
    c.isDigit := by
  have hdigs : c ∈ toDigits 10 n := by
    rw [← toList_repr]
    exact h
  exact isDigit_of_mem_toDigits (by omega) (by omega) hdigs

end Cockpit.Lib
