import Cockpit.Lib.UriText

namespace Cockpit.Lib

open List UInt8

/-!
# Strings of code units, and their UTF-8

Strings of ECMAScript are lists of 16-bit code units.  A high surrogate and a low one behind it
stand for one code point; a surrogate without the other stands for U+FFFD where a string is turned
into bytes.

* `Utf16.encode_append` — strings that are not cut inside a pair are encoded one by one;
* `Utf16.length_encode_cut` — a pair that is cut takes two more bytes.
-/

namespace Utf16

def isHigh (c : Nat) : Bool := 0xD800 ≤ c && c < 0xDC00

def isLow (c : Nat) : Bool := 0xDC00 ≤ c && c < 0xE000

/-- The code point of two surrogates. -/
def pair (high low : Nat) : Nat := 0x10000 + (high - 0xD800) * 0x400 + (low - 0xDC00)

/-- The code points of a string, with the surrogates that are alone. -/
def points : List Nat → List Nat
  | [] => []
  | [c] => [c]
  | c :: d :: s => if isHigh c && isLow d then pair c d :: points s else c :: points (d :: s)

/-- The UTF-8 of a code point. -/
def octets (p : Nat) : List UInt8 :=
  if p < 0x80 then [ofNat p]
  else if p < 0x800 then [ofNat (0xC0 + p / 64), ofNat (0x80 + p % 64)]
  else if p < 0x10000 then
    [ofNat (0xE0 + p / 4096), ofNat (0x80 + p / 64 % 64), ofNat (0x80 + p % 64)]
  else
    [ofNat (0xF0 + p / 262144), ofNat (0x80 + p / 4096 % 64),
      ofNat (0x80 + p / 64 % 64), ofNat (0x80 + p % 64)]

/-- What a code point is encoded as. -/
def scalar (p : Nat) : Nat := if isHigh p || isLow p then 0xFFFD else p

/-- The UTF-8 of a string. -/
def encode (s : List Nat) : List UInt8 := (points s).flatMap fun p => octets (scalar p)

/-- Between the two strings a pair is cut. -/
def Cut (a b : List Nat) : Prop :=
  ∃ high ∈ a.getLast?, ∃ low ∈ b.head?, isHigh high ∧ isLow low

/-! ### Code points -/

variable {c d : Nat}

theorem not_isLow_of_isHigh (h : isHigh c) : isLow c = false := by
  simp only [isHigh, Bool.and_eq_true, decide_eq_true_eq] at h
  simp only [isLow, Bool.and_eq_false_iff, decide_eq_false_iff_not]
  omega

theorem points_cons (h : ¬ (isHigh c ∧ isLow d)) (s : List Nat) :
    points (c :: d :: s) = c :: points (d :: s) := by
  rw [points, if_neg (by simpa using h)]

/-- A low surrogate starts no pair. -/
theorem points_low (h : isLow d) (s : List Nat) :
    points (d :: s) = d :: points s := by
  cases s with
  | nil => rfl
  | cons e s =>
    refine points_cons ?_ s
    rintro ⟨hhigh, -⟩
    exact Bool.false_ne_true ((not_isLow_of_isHigh hhigh).symm.trans h)

theorem points_append : ∀ {a b}, ¬ Cut a b → points (a ++ b) = points a ++ points b
  | [], b, _ | [c], [], _ => rfl
  | [c], d :: s, h => by
    refine points_cons ?_ s
    rintro ⟨hc, hd⟩
    exact h ⟨c, rfl, d, rfl, hc, hd⟩
  | c :: d :: s, b, h => by
    rw [cons_append, cons_append]
    by_cases hpair : isHigh c ∧ isLow d
    · -- what is behind the pair is not cut either
      have hs : ¬ Cut s b := by
        rintro ⟨high, hhigh, hlow⟩
        refine h ⟨high, ?_, hlow⟩
        rw [Option.mem_def] at hhigh ⊢
        rw [getLast?_cons_cons, getLast?_cons, hhigh]
        rfl
      simp only [points, hpair.1, hpair.2, Bool.and_self, if_true, points_append hs, cons_append]
    have hs : ¬ Cut (d :: s) b := by
      rintro ⟨high, hhigh, hlow⟩
      exact h ⟨high, by rwa [getLast?_cons_cons], hlow⟩
    rw [points_cons hpair, points_cons hpair, ← cons_append, points_append hs]
    rfl

variable {a b : List Nat}

/-- The two surrogates of a pair that is cut. -/
theorem points_cut (h : Cut a b) :
    ∃ p q high low, isHigh high ∧ isLow low ∧ points a = p ++ [high] ∧
      points b = low :: q ∧ points (a ++ b) = p ++ pair high low :: q := by
  obtain ⟨high, hhigh, low, hlow, hh, hl⟩ := h
  obtain ⟨a, rfl⟩ := getLast?_eq_some_iff.mp hhigh
  obtain ⟨b, rfl⟩ : ∃ t, b = low :: t := by
    cases b with
    | nil => cases hlow
    | cons e t => exact ⟨t, by rw [Option.some.inj hlow]⟩
  -- a high surrogate ends no pair
  have hcut : ∀ t, ¬ Cut a (high :: t) := by
    rintro t ⟨-, -, e, he, -, he'⟩
    rw [← Option.some.inj he, not_isLow_of_isHigh hh] at he'
    exact Bool.false_ne_true he'
  refine ⟨points a, points b, high, low, hh, hl, points_append (hcut []), points_low hl b, ?_⟩
  rw [append_assoc, singleton_append, points_append (hcut (low :: b)), points, hh, hl]
  rfl

/-! ### Bytes -/

/-- **Strings that are not cut inside a pair are encoded one by one.** -/
theorem encode_append (h : ¬ Cut a b) : encode (a ++ b) = encode a ++ encode b := by
  rw [encode, points_append h, flatMap_append]
  rfl

theorem length_octets_pos (p : Nat) : 0 < (octets p).length := by
  unfold octets
  split_ifs <;> simp

/-- A surrogate that is alone takes three bytes. -/
theorem length_octets_scalar {p : Nat} (h : isHigh p ∨ isLow p) :
    (octets (scalar p)).length = 3 := by
  rw [scalar, if_pos (by simpa using h)]
  decide

theorem scalar_pair (high low : Nat) :
    0x10000 ≤ scalar (pair high low) ∧ scalar (pair high low) = pair high low := by
  have hge : 0x10000 ≤ pair high low := by
    unfold pair
    omega
  have hno : ¬ (isHigh (pair high low) || isLow (pair high low)) := by
    simp only [isHigh, isLow, Bool.or_eq_true, Bool.and_eq_true, decide_eq_true_eq]
    omega
  have heq : scalar (pair high low) = pair high low := by rw [scalar, if_neg hno]
  refine ⟨?_, heq⟩
  rw [heq]
  exact hge

theorem length_octets_pair (high low : Nat) :
    (octets (scalar (pair high low))).length = 4 := by
  have hge := (scalar_pair high low).1
  rw [octets, if_neg (by omega), if_neg (by omega), if_neg (by omega)]
  rfl

/-- **A pair that is cut takes two more bytes.** -/
theorem length_encode_cut (h : Cut a b) :
    (encode a).length + (encode b).length = (encode (a ++ b)).length + 2 := by
  obtain ⟨p, q, high, low, hh, hl, ha, hb, hab⟩ := points_cut h
  simp only [encode, ha, hb, hab, flatMap_append, flatMap_cons, flatMap_nil,
    List.length_append, length_octets_pair, length_octets_scalar (.inl hh),
    length_octets_scalar (.inr hl), length_nil]
  omega

/-- No code unit is lost. -/
theorem length_le_encode : ∀ s : List Nat, s.length ≤ (encode s).length
  | [] => Nat.le_refl _
  | [c] => by
    have := length_octets_pos (scalar c)
    simpa [encode, points, Nat.succ_le_iff] using this
  | c :: d :: s => by
    by_cases hpair : isHigh c ∧ isLow d
    · have ih := length_le_encode s
      have hpoints : points (c :: d :: s) = pair c d :: points s := by
        rw [points, if_pos (by simpa using hpair)]
      rw [encode] at ih ⊢
      rw [hpoints, flatMap_cons, List.length_append, length_octets_pair]
      simp only [length_cons]
      omega
    have ih := length_le_encode (d :: s)
    have hpos := length_octets_pos (scalar c)
    rw [encode] at ih ⊢
    rw [points_cons hpair, flatMap_cons, List.length_append]
    simp only [length_cons] at ih ⊢
    omega

end Utf16

end Cockpit.Lib
