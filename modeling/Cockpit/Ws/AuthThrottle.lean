import Cockpit.Ws.Auth

namespace Cockpit.Ws.Auth

open Nat UInt32

/-!
# `src/ws/cockpitauth.c`: throttling of startups

* `refusalPercentage_eq` — the percentage of `can_start_auth`, with its one product that can wrap;
* `gradual_iff` — the percentage rises from the rate to 100 just when that product does not.
-/

variable (scanned : Option (List UInt32))

/-- `cockpit_auth_new`, with the numbers that `sscanf` stores when there is a configuration. -/
def ofConf : Auth :=
  match scanned with
  | none => .new 10 10 100
  | some numbers =>
    let field := fun (i default : Nat) => (numbers[i]?.map toNat).getD default
    let count := numbers.length
    let maxStartupsBegin := field 0 10
    -- one or two numbers: the first one is a hard limit
    let maxStartupsRate := if count = 1 ∨ count = 2 then 100 else field 1 100
    let maxStartups := if count = 1 ∨ count = 2 then maxStartupsBegin else field 2 10
    if count < 1 ∨ count > 3 ∨ maxStartupsBegin > maxStartups ∨ maxStartupsRate > 100 ∨
        maxStartupsRate < 1 then
      .new 10 10 100
    else .new maxStartups maxStartupsBegin maxStartupsRate

/-- The settings that `cockpit_auth_new` accepts. -/
structure Sane (s : Auth) : Prop where
  begin_le : s.maxStartupsBegin ≤ s.maxStartups
  full_lt : s.maxStartups < 2 ^ 32
  rate_pos : 1 ≤ s.maxStartupsRate
  rate_le : s.maxStartupsRate ≤ 100

theorem sane_default : Sane (.new 10 10 100) where
  begin_le := by decide
  full_lt := by decide
  rate_pos := by decide
  rate_le := by decide

/-- The check at the end of `cockpit_auth_new`. -/
theorem sane_checked (count maxStartups maxStartupsBegin maxStartupsRate : Nat)
    (h : maxStartups < 2 ^ 32) :
    Sane (if count < 1 ∨ count > 3 ∨ maxStartupsBegin > maxStartups ∨ maxStartupsRate > 100 ∨
        maxStartupsRate < 1 then .new 10 10 100
      else .new maxStartups maxStartupsBegin maxStartupsRate) := by
  split
  · exact sane_default
  rename_i hok
  simp only [not_or, not_lt] at hok
  obtain ⟨-, -, hbegin, hle, hpos⟩ := hok
  exact ⟨hbegin, h, hpos, hle⟩

theorem ofConf_sane : (ofConf scanned).Sane := by
  cases scanned with
  | none => exact sane_default
  | some numbers =>
    have hfield : ∀ i default : Nat, default < 2 ^ 32 →
        (numbers[i]?.map toNat).getD default < 2 ^ 32 := by
      intro i default hdef
      cases numbers[i]? with
      | none => exact hdef
      | some n => exact n.toNat_lt
    refine sane_checked _ _ _ _ ?_
    split
    · exact hfield 0 10 (by decide)
    · exact hfield 2 10 (by decide)

/-! ### The percentage -/

/-- The same settings, with a number of startups. -/
def withStartups (s : Auth) (startups : UInt32) : Auth := { s with startups := startups.toNat }

/-- Whether `can_start_auth` gets to the percentage. -/
def Computes (s : Auth) : Prop :=
  s.maxStartups ≠ 0 ∧ s.maxStartupsBegin < s.startups ∧ s.startups ≤ s.maxStartups ∧
    s.maxStartupsRate ≠ 100

variable {s : Auth}

theorem Sane.withStartups (h : s.Sane) (n : UInt32) : (s.withStartups n).Sane :=
  { h with }

/-- A difference that does not wrap. -/
theorem toNat_ofNat_sub {a b : Nat} (hab : b ≤ a) (ha : a < 2 ^ 32) :
    (.ofNat a - .ofNat b : UInt32).toNat = a - b := by
  rw [UInt32.toNat_sub_of_le _ _ ?_]
  · simp only [UInt32.toNat_ofNat']
    omega
  · rw [le_iff_toNat_le]
    simp only [toNat_ofNat']
    omega

/-- Only the product can wrap. -/
theorem refusalPercentage_eq (hs : s.Sane) (h : s.Computes) :
    s.refusalPercentage = ((100 - s.maxStartupsRate) * (s.startups - s.maxStartupsBegin) % 2 ^ 32 /
        (s.maxStartups - s.maxStartupsBegin) + s.maxStartupsRate : Nat) := by
  obtain ⟨-, hbegin, hfull, -⟩ := h
  obtain ⟨-, hlt, hpos, hle⟩ := hs
  have hquot : (100 - s.maxStartupsRate) * (s.startups - s.maxStartupsBegin) % 2 ^ 32 /
      (s.maxStartups - s.maxStartupsBegin) ≤ 100 - s.maxStartupsRate := by
    apply Nat.div_le_of_le_mul
    calc _ ≤ (100 - s.maxStartupsRate) * (s.startups - s.maxStartupsBegin) := Nat.mod_le _ _
      _ ≤ (100 - s.maxStartupsRate) * (s.maxStartups - s.maxStartupsBegin) :=
        mul_le_mul_left _ (by omega)
      _ = _ := mul_comm _ _
  have hrest : (100 - .ofNat s.maxStartupsRate : UInt32).toNat = 100 - s.maxStartupsRate :=
    toNat_ofNat_sub hle (by decide)
  have hp : ((100 - .ofNat s.maxStartupsRate) * (.ofNat s.startups - .ofNat s.maxStartupsBegin) /
      (.ofNat s.maxStartups - .ofNat s.maxStartupsBegin) + .ofNat s.maxStartupsRate : UInt32).toNat =
      (100 - s.maxStartupsRate) * (s.startups - s.maxStartupsBegin) % 2 ^ 32 /
        (s.maxStartups - s.maxStartupsBegin) + s.maxStartupsRate := by
    rw [UInt32.toNat_add, UInt32.toNat_div, UInt32.toNat_mul, hrest,
      toNat_ofNat_sub (by omega : s.maxStartupsBegin ≤ s.startups) (by omega),
      toNat_ofNat_sub (by omega : s.maxStartupsBegin ≤ s.maxStartups) hlt,
      toNat_ofNat', mod_eq_of_lt (by omega : s.maxStartupsRate < 2 ^ 32),
      mod_eq_of_lt (by omega)]
  -- not more than 100, so the sum is no negative `int`
  have hsmall := lt_of_le_of_lt (mul_le_mul_left 2 (le_of_eq hp))
    (by omega : _ < 2 ^ 32)
  rw [← hp]
  exact BitVec.toInt_eq_toNat_of_lt hsmall

/-! ### Gradual refusal -/

/-- What a soft and a hard limit are for. -/
structure Gradual (s : Auth) : Prop where
  divisor : ∀ n, (s.withStartups n).Computes →
    (.ofNat s.maxStartups - .ofNat s.maxStartupsBegin : UInt32) ≠ 0
  bounds : ∀ n, (s.withStartups n).Computes →
    s.maxStartupsRate ≤ (s.withStartups n).refusalPercentage ∧
      (s.withStartups n).refusalPercentage ≤ 100
  monotone : ∀ m n, m ≤ n → (s.withStartups m).Computes → (s.withStartups n).Computes →
    (s.withStartups m).refusalPercentage ≤ (s.withStartups n).refusalPercentage
  full : ∀ n, (s.withStartups n).Computes → n.toNat = s.maxStartups →
    (s.withStartups n).refusalPercentage = 100

/-- The divisor is never zero. -/
theorem divisor_ne_zero (hs : s.Sane) {n : UInt32} (h : (s.withStartups n).Computes) :
    (.ofNat s.maxStartups - .ofNat s.maxStartupsBegin : UInt32) ≠ 0 := by
  obtain ⟨-, hbegin, hfull, -⟩ := h
  simp only [withStartups] at hbegin hfull
  have hlt := hs.full_lt
  intro hzero
  have heq := congrArg toNat hzero
  rw [toNat_ofNat_sub hs.begin_le hlt, UInt32.toNat_zero] at heq
  omega

/-- **The percentage** rises from the rate to 100, as long as its product does not wrap. -/
theorem gradual_of_fits (hs : s.Sane)
    (h : (100 - s.maxStartupsRate) * (s.maxStartups - s.maxStartupsBegin) < 2 ^ 32) :
    s.Gradual := by
  have hp : ∀ n, (s.withStartups n).Computes → (s.withStartups n).refusalPercentage =
      ((100 - s.maxStartupsRate) * (n.toNat - s.maxStartupsBegin) /
        (s.maxStartups - s.maxStartupsBegin) + s.maxStartupsRate : Nat) := by
    intro n hn
    have hle : n.toNat ≤ s.maxStartups := hn.2.2.1
    have hmul := Nat.mul_le_mul_left (100 - s.maxStartupsRate)
      (Nat.sub_le_sub_right hle s.maxStartupsBegin)
    rw [refusalPercentage_eq (hs.withStartups n) hn]
    simp only [withStartups]
    rw [Nat.mod_eq_of_lt (Nat.lt_of_le_of_lt hmul h)]
  have hrate := hs.rate_le
  refine ⟨fun n => divisor_ne_zero hs, fun n hn => ?_, fun m n hmn hm hn => ?_,
    fun n hn hfull => ?_⟩
  · have hle : n.toNat ≤ s.maxStartups := hn.2.2.1
    have hquot : (100 - s.maxStartupsRate) * (n.toNat - s.maxStartupsBegin) /
        (s.maxStartups - s.maxStartupsBegin) ≤ 100 - s.maxStartupsRate := by
      apply Nat.div_le_of_le_mul
      rw [Nat.mul_comm]
      exact Nat.mul_le_mul_right _ (Nat.sub_le_sub_right hle _)
    rw [hp n hn]
    exact ⟨Int.ofNat_le.mpr (le_add_left _ _),
      Int.ofNat_le.mpr (Nat.le_trans (Nat.add_le_add_right hquot _)
        (Nat.le_of_eq (Nat.sub_add_cancel hrate)))⟩
  · rw [hp m hm, hp n hn]
    have hmn' : m.toNat ≤ n.toNat := le_iff_toNat_le.mp hmn
    exact Int.ofNat_le.mpr (Nat.add_le_add_right (Nat.div_le_div_right
      (Nat.mul_le_mul_left _ (Nat.sub_le_sub_right hmn' _))) _)
  · have hbegin : s.maxStartupsBegin < n.toNat := hn.2.1
    rw [hp n hn, hfull, Nat.mul_div_cancel _ (by omega)]
    omega

/-- **When refusal is gradual**: just when the largest product fits into 32 bits. -/
theorem gradual_iff (scanned : Option (List UInt32)) :
    (ofConf scanned).Gradual ↔ (100 - (ofConf scanned).maxStartupsRate) *
        ((ofConf scanned).maxStartups - (ofConf scanned).maxStartupsBegin) < 2 ^ 32 := by
  have hs := ofConf_sane scanned
  generalize ofConf scanned = s at hs
  refine ⟨fun h => ?_, gradual_of_fits hs⟩
  by_contra hwraps
  have hlt := hs.full_lt
  -- at the hard limit the quotient falls short of 100 less the rate
  have hnat : (ofNat s.maxStartups).toNat = s.maxStartups := by
    rw [toNat_ofNat', mod_eq_of_lt hlt]
  have hpos : 0 < s.maxStartups - s.maxStartupsBegin := by
    by_contra hzero
    rw [Nat.eq_zero_of_not_pos hzero, Nat.mul_zero] at hwraps
    exact hwraps (by decide)
  have hrate : s.maxStartupsRate ≠ 100 := by
    intro hrate
    rw [hrate, Nat.sub_self, Nat.zero_mul] at hwraps
    exact hwraps (by decide)
  have hcomputes : (s.withStartups (.ofNat s.maxStartups)).Computes := by
    unfold Computes withStartups
    dsimp only
    rw [hnat]
    exact ⟨by omega, by omega, le_refl _, hrate⟩
  have hfull := h.full _ hcomputes hnat
  rw [refusalPercentage_eq (hs.withStartups _) hcomputes] at hfull
  simp only [withStartups, hnat] at hfull
  have hquot : (100 - s.maxStartupsRate) * (s.maxStartups - s.maxStartupsBegin) % 2 ^ 32 /
      (s.maxStartups - s.maxStartupsBegin) < 100 - s.maxStartupsRate := by
    rw [div_lt_iff_lt_mul hpos]
    calc _ < 2 ^ 32 := mod_lt _ (by decide)
      _ ≤ _ := not_lt.mp hwraps
  have := hs.rate_le
  omega

/-- At the hard limit of `0:1:50000000` fourteen of a hundred are refused. -/
theorem not_gradual_wrapped :
    (ofConf (some [0, 1, 50000000])).maxStartups = 50000000 ∧
      ¬ (ofConf (some [0, 1, 50000000])).Gradual := by
  refine ⟨by decide, fun h => ?_⟩
  have hfull := h.full 50000000 (by unfold Computes; decide) (by decide)
  exact nomatch hfull

end Cockpit.Ws.Auth
