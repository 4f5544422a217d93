import Cockpit.Common.GLib
import Cockpit.Lib.Decimal

namespace Cockpit

open Lib

/-!
# `src/common/cockpitversion.c`

Versions are compared component by component: as numbers where both are numbers, as texts
elsewhere.  Only the sign of a result matters, which is an `Ordering` here.

* `Version.versionCompare_swap` — the order of the arguments only changes the sign;
* `Version.compareLoop_isLE_iff` — when the order of three versions is transitive.
-/

namespace Version

/-- White space of `strtoul`. -/
def isStrtoulSpace (b : UInt8) : Bool := b = 32 || 9 ≤ b && b ≤ 13

/-- `strtoul` in base ten, for an `unsigned long` of 64 bits: the number, and what is behind it.
    Without a digit that is the whole text. -/
def strtoul (text : Bytes) : Nat × Bytes :=
  let start := text.dropWhile isStrtoulSpace
  let negative := start.head? = some 45
  let number := if negative ∨ start.head? = some 43 then start.tail else start
  let digits := number.takeWhile isDigit
  if digits = [] then (0, text)
  else
    let value := digitsValue 0 digits
    (if 2 ^ 64 ≤ value then 2 ^ 64 - 1 else if negative then (2 ^ 64 - value) % 2 ^ 64 else value,
      number.dropWhile isDigit)

/-- `strcmp` -/
def strcmp (one two : Bytes) : Ordering := compare one two

instance : Std.TransCmp strcmp :=
  inferInstanceAs (Std.TransCmp (compare : Bytes → Bytes → Ordering))

/-- Whether `strtoul` reads a component to its end. -/
def isNumber (part : Bytes) : Bool := (strtoul part).2 == []

/-- The comparison of two components. -/
def comparePart (one two : Bytes) : Ordering :=
  if isNumber one && isNumber two then compare (strtoul one).1 (strtoul two).1
  else strcmp one two

/-- `g_strsplit (version, ".", -1)` -/
def strsplit (version : CStr) : List Bytes :=
  if version.bytes = [] then [] else version.bytes.splitOn 46

/-- The loop of `cockpit_version_compare`, and what is behind it. -/
def compareLoop : List Bytes → List Bytes → Ordering
  | [], [] => .eq
  | _ :: _, [] => .gt
  | [], _ :: _ => .lt
  | one :: p1, two :: p2 =>
    match comparePart one two with
    | .eq => compareLoop p1 p2
    | ret => ret

/-- `cockpit_version_compare` -/
def versionCompare (one two : CStr) : Ordering := compareLoop (strsplit one) (strsplit two)

/-! ### The sign -/

theorem comparePart_swap (one two : Bytes) : comparePart one two = (comparePart two one).swap := by
  unfold comparePart strcmp
  rw [Bool.and_comm]
  split <;> exact Std.OrientedCmp.eq_swap

theorem compareLoop_swap (p1 p2 : List Bytes) : compareLoop p1 p2 = (compareLoop p2 p1).swap := by
  induction p1 generalizing p2 with
  | nil =>
    cases p2 <;> rfl
  | cons one p1 ih =>
    cases p2 with
    | nil => rfl
    | cons two p2 =>
      rw [compareLoop, compareLoop, comparePart_swap one two]
      cases comparePart two one with
      | lt | gt => rfl
      | eq => exact ih p2

/-- **The order of the arguments only changes the sign.** -/
theorem versionCompare_swap (one two : CStr) :
    versionCompare one two = (versionCompare two one).swap :=
  compareLoop_swap (strsplit one) (strsplit two)

/-! ### Transitivity -/

/-- A text sorts between two numbers that aren't in this order as numbers. -/
def Between (m text n : Bytes) : Prop :=
  isNumber m ∧ isNumber text = false ∧ isNumber n ∧
    strcmp m text = .lt ∧ strcmp text n = .lt ∧ (strtoul n).1 ≤ (strtoul m).1

/-- The first components that aren't all equal are two numbers, and a text between them.  With
    equal numbers around the text of the second version, the components behind them decide. -/
def Crossed : List Bytes → List Bytes → List Bytes → Prop
  | a :: as, b :: bs, c :: cs =>
    if comparePart a b = .eq ∧ comparePart b c = .eq then Crossed as bs cs
    else Between c a b ∨ Between b c a ∨
      Between a b c ∧ ((strtoul a).1 = (strtoul c).1 → compareLoop as cs = .gt)
  | _, _, _ => False

variable {a b c : Bytes}

instance : Std.LawfulEqCmp strcmp :=
  inferInstanceAs (Std.LawfulEqCmp (compare : Bytes → Bytes → Ordering))

theorem strcmp_eq_iff : strcmp a b = .eq ↔ a = b := Std.LawfulEqCmp.compare_eq_iff_eq

/-- Numbers are compared by their values. -/
theorem comparePart_numbers (ha : isNumber a) (hb : isNumber b) :
    comparePart a b = compare (strtoul a).1 (strtoul b).1 := by
  rw [comparePart, ha, hb]
  rfl

/-- With a text it is `strcmp`. -/
theorem comparePart_text (h : isNumber a = false ∨ isNumber b = false) :
    comparePart a b = strcmp a b := by
  unfold comparePart
  rcases h with h | h <;> simp [h]

/-- In an order, the ends of a chain are only equal when its links are. -/
theorem lt_of_chain {α : Type} {cmp : α → α → Ordering} [Std.TransCmp cmp] {a b c : α}
    (hab : (cmp a b).isLE) (hbc : (cmp b c).isLE) (hne : ¬ (cmp a b = .eq ∧ cmp b c = .eq)) :
    cmp a c = .lt := by
  cases heq : cmp a b with
  | lt => exact Std.TransCmp.lt_of_lt_of_isLE heq hbc
  | gt =>
    rw [heq] at hab
    cases hab
  | eq =>
    cases heq' : cmp b c with
    | lt => exact Std.TransCmp.lt_of_isLE_of_lt hab heq'
    | eq => exact absurd ⟨heq, heq'⟩ hne
    | gt =>
      rw [heq'] at hbc
      cases hbc

/-- Equal components may be put for each other. -/
theorem comparePart_eq_trans (hab : comparePart a b = .eq) (hbc : comparePart b c = .eq) :
    comparePart a c = .eq := by
  have heq : ∀ {x y}, comparePart x y = .eq →
      x = y ∨ isNumber x ∧ isNumber y ∧ (strtoul x).1 = (strtoul y).1 := by
    intro x y h
    unfold comparePart at h
    split at h
    · rename_i hnum
      obtain ⟨hx, hy⟩ := Bool.and_eq_true_iff.mp hnum
      exact .inr ⟨hx, hy, Nat.compare_eq_eq.mp h⟩
    · exact .inl (strcmp_eq_iff.mp h)
  rcases heq hab with rfl | ⟨ha, hb, hval⟩
  · exact hbc
  rcases heq hbc with rfl | ⟨-, hc, hval'⟩
  · exact hab
  rw [comparePart_numbers ha hc, hval, hval']
  exact Nat.compare_eq_eq.mpr rfl

/-- A text is never equal to a number. -/
theorem strcmp_ne (h : isNumber a ≠ isNumber b) : strcmp a b ≠ .eq := fun heq =>
  h (congrArg isNumber (strcmp_eq_iff.mp heq))

/-- What is not before is behind. -/
theorem lt_of_strcmp_ne_lt (h : isNumber a ≠ isNumber b) (hlt : strcmp a b ≠ .lt) :
    strcmp b a = .lt := by
  have hswap : strcmp b a = (strcmp a b).swap := Std.OrientedCmp.eq_swap
  rw [hswap]
  cases heq : strcmp a b with
  | lt => exact absurd heq hlt
  | eq => exact absurd heq (strcmp_ne h)
  | gt => rfl

theorem lt_of_isLE (hle : (strcmp a b).isLE) (h : isNumber a ≠ isNumber b) : strcmp a b = .lt := by
  cases heq : strcmp a b with
  | lt => rfl
  | eq => exact absurd heq (strcmp_ne h)
  | gt =>
    rw [heq] at hle
    cases hle

/-- A chain of components is one, unless a text is between two numbers. -/
theorem comparePart_chain (hab : (comparePart a b).isLE) (hbc : (comparePart b c).isLE)
    (hne : ¬ (comparePart a b = .eq ∧ comparePart b c = .eq))
    (h₁ : ¬ Between c a b) (h₂ : ¬ Between b c a) (h₃ : ¬ Between a b c) :
    comparePart a c = .lt := by
  cases ha : isNumber a <;> cases hb : isNumber b <;> cases hc : isNumber c
  case true.true.true =>
    rw [comparePart_numbers ha hb] at hab hne
    rw [comparePart_numbers hb hc] at hbc hne
    rw [comparePart_numbers ha hc]
    exact lt_of_chain hab hbc hne
  case false.true.true =>
    -- the text in front
    rw [comparePart_text (.inl ha)] at hab ⊢
    rw [comparePart_numbers hb hc, Nat.isLE_compare] at hbc
    by_contra hlt
    exact h₁ ⟨hc, ha, hb, lt_of_strcmp_ne_lt (by simp [ha, hc]) hlt,
      lt_of_isLE hab (by simp [ha, hb]), hbc⟩
  case true.true.false =>
    -- the text behind
    rw [comparePart_text (.inr hc)] at hbc ⊢
    rw [comparePart_numbers ha hb, Nat.isLE_compare] at hab
    by_contra hlt
    exact h₂ ⟨hb, hc, ha, lt_of_isLE hbc (by simp [hb, hc]),
      lt_of_strcmp_ne_lt (by simp [ha, hc]) hlt, hab⟩
  case true.false.true =>
    -- the text between
    rw [comparePart_text (.inr hb)] at hab
    rw [comparePart_text (.inl hb)] at hbc
    rw [comparePart_numbers ha hc, Nat.compare_eq_lt]
    by_contra hle
    exact h₃ ⟨ha, hb, hc, lt_of_isLE hab (by simp [ha, hb]), lt_of_isLE hbc (by simp [hb, hc]),
      Nat.not_lt.mp hle⟩
  all_goals
    rw [comparePart_text (by simp [*])] at hab hbc hne ⊢
    exact lt_of_chain hab hbc (by simpa [comparePart_text, *] using hne)

theorem isLE_compareLoop_cons {as bs : List Bytes} :
    (compareLoop (a :: as) (b :: bs)).isLE ↔ (comparePart a b).isLE ∧
        (comparePart a b = .eq → (compareLoop as bs).isLE) := by
  rw [compareLoop]
  cases comparePart a b with
  | lt | eq | gt => simp

/-- A text in front of its chain, or behind it, turns the comparison of the ends round. -/
theorem gt_of_between (h : Between c a b ∨ Between b c a) : comparePart a c = .gt := by
  rw [comparePart_swap]
  rcases h with ⟨hc, ha, -, hca, -⟩ | ⟨-, hc, -, -, hca, -⟩
  · rw [comparePart_text (.inr ha), hca]
    rfl
  · rw [comparePart_text (.inl hc), hca]
    rfl

/-- The ends of a chain are one, unless the chain is crossed. -/
theorem compareLoop_isLE_iff {as bs cs : List Bytes} (hab : (compareLoop as bs).isLE)
    (hbc : (compareLoop bs cs).isLE) : (compareLoop as cs).isLE ↔ ¬ Crossed as bs cs := by
  induction as generalizing bs cs with
  | nil => cases cs <;> exact iff_of_true rfl fun h => by simp [Crossed] at h
  | cons a as ih =>
    rcases bs with - | ⟨b, bs⟩
    · cases hab
    rcases cs with - | ⟨c, cs⟩
    · cases hbc
    rw [isLE_compareLoop_cons] at hab hbc ⊢
    rw [Crossed]
    by_cases heq : comparePart a b = .eq ∧ comparePart b c = .eq
    · -- equal components leave it to the others
      rw [if_pos heq, comparePart_eq_trans heq.1 heq.2, ← ih (hab.2 heq.1) (hbc.2 heq.2)]
      simp
    rw [if_neg heq]
    by_cases hends : Between c a b ∨ Between b c a
    · rw [gt_of_between hends]
      exact iff_of_false (fun h => by cases h.1) fun h => h (or_assoc.mp (.inl hends))
    rw [← or_assoc, or_iff_right hends]
    obtain ⟨h₁, h₂⟩ := not_or.mp hends
    by_cases hmid : Between a b c
    · -- the outer numbers aren't in order, and when they are equal the others decide
      obtain ⟨ha, -, hc, -, -, hle⟩ := id hmid
      rw [and_iff_right hmid, comparePart_numbers ha hc, Nat.isLE_compare, Nat.compare_eq_eq]
      constructor
      · rintro ⟨hge, hrest⟩ hgt
        have hac := Nat.le_antisymm hge hle
        have h := hrest hac
        rw [hgt hac] at h
        cases h
      · intro hnot
        have hac : (strtoul a).1 = (strtoul c).1 := by
          by_contra hne
          exact hnot fun h => absurd h hne
        refine ⟨hac.le, fun _ => ?_⟩
        cases hrest : compareLoop as cs with
        | lt | eq => rfl
        | gt => exact absurd (fun _ => hrest) hnot
    · rw [comparePart_chain hab.1 hbc.1 heq h₁ h₂ hmid]
      exact iff_of_true ⟨rfl, fun h => by cases h⟩ fun h => hmid h.1

/-- **Versions are ordered**: the sign turns with the arguments, and the order is transitive unless
    a text sorts between two numbers against their order. -/
theorem versionCompare_preorder (a b c : CStr) :
    versionCompare a b = (versionCompare b a).swap ∧
      ((versionCompare a b).isLE = true → (versionCompare b c).isLE = true →
        ((versionCompare a c).isLE = true ↔ ¬ Crossed (strsplit a) (strsplit b) (strsplit c))) :=
  ⟨versionCompare_swap a b, compareLoop_isLE_iff⟩

/-- The text of a version. -/
def version (bytes : Bytes) (h : (0 : UInt8) ∉ bytes := by decide) : CStr := ⟨bytes, h⟩

/-- 1.9, 1.10 and 1.rc1 -/
theorem versionCompare_preorder_text :
    versionCompare (version [49, 46, 57]) (version [49, 46, 49, 48]) = .lt ∧
      (versionCompare (version [49, 46, 57]) (version [49, 46, 114, 99, 49])).isLE = true := by
  refine ⟨by decide, ?_⟩
  have hnot : ¬ Crossed (strsplit (version [49, 46, 57])) (strsplit (version [49, 46, 49, 48]))
      (strsplit (version [49, 46, 114, 99, 49])) := by
    rintro (⟨-, h, -⟩ | ⟨-, -, -, -, h, -⟩ | ⟨⟨-, h, -⟩, -⟩) <;> revert h <;> decide
  exact ((versionCompare_preorder (version [49, 46, 57]) (version [49, 46, 49, 48])
    (version [49, 46, 114, 99, 49])).2 (by decide) (by decide)).mpr hnot

/-- 10 is before 1a, and 1a before 9, but 10 is behind 9. -/
theorem not_versionCompare_trans :
    versionCompare (version [49, 48]) (version [49, 97]) = .lt ∧
      versionCompare (version [49, 97]) (version [57]) = .lt ∧
        versionCompare (version [49, 48]) (version [57]) = .gt := by
  decide

end Version

end Cockpit
