import Mathlib

namespace Cockpit.Lib

open Nat

/-!
# Big-endian numbers
-/

/-- The lowest `w` bytes of `n`, most significant first. -/
def bigEndian : Nat → Nat → List UInt8
  | 0, _ => []
  | w + 1, n => UInt8.ofNat (n >>> (8 * w)) :: bigEndian w n

/-- The number that bytes stand for, most significant first. -/
def bigEndianValue (bs : List UInt8) : Nat := bs.foldl (fun acc b => acc * 256 + b.toNat) 0

@[simp] theorem length_bigEndian (w n : Nat) : (bigEndian w n).length = w := by
  induction w with
  | zero => rfl
  | succ w ih => rw [bigEndian, List.length_cons, ih]

/-- Reading continues from what was read before. -/
theorem foldl_bigEndian (w n acc : Nat) :
    (bigEndian w n).foldl (fun acc b => acc * 256 + b.toNat) acc = acc * 256 ^ w + n % 256 ^ w := by
  induction w generalizing acc with
  | zero => simp [bigEndian, mod_one]
  | succ w ih =>
    have hbyte : (UInt8.ofNat (n >>> (8 * w))).toNat = n / 256 ^ w % 256 := by
      rw [UInt8.toNat_ofNat', Nat.shiftRight_eq_div_pow, Nat.pow_mul]
    have hpow : 256 ^ (w + 1) = 256 ^ w * 256 := Nat.pow_succ 256 w
    rw [bigEndian, List.foldl_cons, ih, hbyte, hpow, mod_mul, add_mul, mul_assoc,
      mul_comm 256 (256 ^ w), mul_comm (n / 256 ^ w % 256)]
    omega

/-- **A number that fits is read back.** -/
theorem bigEndianValue_bigEndian {w n : Nat} (h : n < 256 ^ w) : bigEndianValue (bigEndian w n) = n := by
  rw [bigEndianValue, foldl_bigEndian, zero_mul, zero_add, mod_eq_of_lt h]

end Cockpit.Lib
