import Mathlib

namespace Cockpit.Lib

open List UInt8

/-!
# Base64

The encoding of RFC 4648 with its padding: groups of four characters for groups of three bytes.

* `Base64.encodes_encode` — every byte list has a text;
* `Base64.Encodes.unique` — a text stands for one byte list.
-/

namespace Base64

/-- The six bits that a letter of the alphabet stands for. -/
def sextet (c : UInt8) : Option Nat :=
  if 65 ≤ c && c ≤ 90 then some (c.toNat - 65)
  else if 97 ≤ c && c ≤ 122 then some (c.toNat - 71)
  else if 48 ≤ c && c ≤ 57 then some (c.toNat + 4)
  else if c = 43 then some 62
  else if c = 47 then some 63
  else none

/-- The letter for six bits. -/
def letter (v : Nat) : UInt8 :=
  if v < 26 then ofNat (v + 65)
  else if v < 52 then ofNat (v + 71)
  else if v < 62 then ofNat (v - 4)
  else if v = 62 then 43
  else 47

/-- The padding character. -/
def pad : UInt8 := 61

theorem sextet_letter {v : Nat} (h : v < 64) : sextet (letter v) = some v := by
  have hall : ∀ v < 64, sextet (letter v) = some v := by decide
  exact hall v h

/-- Two letters never stand for the same bits. -/
theorem letter_sextet {c : UInt8} {v : Nat} (h : sextet c = some v) : v < 64 ∧ letter v = c := by
  have hback : UInt8.ofNat c.toNat = c := UInt8.ofNat_toNat
  unfold sextet at h
  -- one case for each range of the alphabet
  split_ifs at h <;>
    simp only [Bool.and_eq_true, decide_eq_true_eq, le_iff_toNat_le, reduceToNat,
      Option.some.injEq] at *
  all_goals
    subst h
    refine ⟨by omega, ?_⟩
  · rw [letter, if_pos (by omega), Nat.sub_add_cancel (by omega), hback]
  · rw [letter, if_neg (by omega), if_pos (by omega), Nat.sub_add_cancel (by omega), hback]
  · rw [letter, if_neg (by omega), if_neg (by omega), if_pos (by omega), Nat.add_sub_cancel, hback]
  · simp_all [letter]
  · simp_all [letter]

theorem sextet_pad : sextet pad = none := by decide

/-! ### Bits -/

/-- The first byte of a group. -/
def first (a b : Nat) : UInt8 := ofNat (a * 4 + b / 16)

/-- The second byte of a group. -/
def second (b c : Nat) : UInt8 := ofNat (b % 16 * 16 + c / 4)

/-- The third byte of a group. -/
def third (c d : Nat) : UInt8 := ofNat (c % 4 * 64 + d)

/-- The whole bytes in a list of sextets. -/
def bytes : List Nat → List UInt8
  | a :: b :: c :: d :: rest => first a b :: second b c :: third c d :: bytes rest
  | [a, b, c] => [first a b, second b c]
  | [a, b] => [first a b]
  | _ => []

/-- The bits behind the last whole byte. -/
def slop : List Nat → Nat
  | _ :: _ :: _ :: _ :: rest => slop rest
  | [_, _, c] => c % 4
  | [_, b] => b % 16
  | [a] => a
  | [] => 0

/-- Induction on a list of sextets, group by group. -/
theorem fours {motive : List Nat → Prop}
    (group : ∀ a b c d vs, motive vs → motive (a :: b :: c :: d :: vs))
    (three : ∀ a b c, motive [a, b, c]) (two : ∀ a b, motive [a, b]) (one : ∀ a, motive [a])
    (nil : motive []) : ∀ vs, motive vs
  | a :: b :: c :: d :: vs => group a b c d vs (fours group three two one nil vs)
  | [a, b, c] => three a b c
  | [a, b] => two a b
  | [a] => one a
  | [] => nil

theorem length_bytes (vs : List Nat) : (bytes vs).length = 3 * vs.length / 4 := by
  induction vs using fours with
  | group a b c d vs ih =>
    rw [bytes]
    simp only [length_cons, ih]
    omega
  | three a b c | two a b | one a | nil => simp [bytes]

variable {vs : List Nat}

theorem slop_eq_zero (h : vs.length % 4 = 0) : slop vs = 0 := by
  induction vs using fours with
  | group a b c d vs ih =>
    rw [slop]
    apply ih
    simp only [length_cons] at h
    omega
  | three a b c | two a b | one a => simp at h
  | nil => rfl

/-! ### Text -/

/-- **Base64 text and the bytes it stands for**: groups of four letters, the last of which may end
    in padding where the bits behind its bytes are zero. -/
inductive Encodes : List UInt8 → List UInt8 → Prop
  | nil : Encodes [] []
  | group {w x y z : UInt8} {a b c d : Nat} {text out : List UInt8} (hw : sextet w = some a)
      (hx : sextet x = some b) (hy : sextet y = some c) (hz : sextet z = some d)
      (h : Encodes text out) :
      Encodes (w :: x :: y :: z :: text) (first a b :: second b c :: third c d :: out)
  | two {w x y : UInt8} {a b c : Nat} (hw : sextet w = some a) (hx : sextet x = some b)
      (hy : sextet y = some c) (hslop : c % 4 = 0) :
      Encodes [w, x, y, pad] [first a b, second b c]
  | one {w x : UInt8} {a b : Nat} (hw : sextet w = some a) (hx : sextet x = some b)
      (hslop : b % 16 = 0) : Encodes [w, x, pad, pad] [first a b]

theorem Encodes.length {text out : List UInt8} (h : Encodes text out) : text.length % 4 = 0 := by
  induction h with
  | nil => rfl
  | group _ _ _ _ _ ih =>
    simp only [length_cons]
    omega
  | two | one => simp

/-- Letters with the sextets they stand for. -/
abbrev Letters (text : List UInt8) (vs : List Nat) : Prop :=
  List.Forall₂ (fun c v => sextet c = some v) text vs

variable {text : List UInt8}

theorem letters_isSome (h : Letters text vs) :
    ∀ c ∈ text, (sextet c).isSome := by
  induction h with
  | nil => exact nofun
  | cons hch _ ih =>
    intro c hc
    rcases mem_cons.mp hc with rfl | hc
    · rw [hch]
      rfl
    · exact ih c hc

theorem letters_lt (h : Letters text vs) : ∀ v ∈ vs, v < 64 := by
  induction h with
  | nil => exact nofun
  | cons hch _ ih =>
    intro v hv
    rcases mem_cons.mp hv with rfl | hv
    · exact (letter_sextet hch).1
    · exact ih v hv

/-- Padding is no letter. -/
theorem pad_not_mem (h : Letters text vs) : pad ∉ text := by
  intro hmem
  have hsome := letters_isSome h pad hmem
  rw [sextet_pad] at hsome
  cases hsome

/-- What may follow the letters of a text. -/
def Closes (vs : List Nat) (rest : List UInt8) : Prop :=
  slop vs = 0 ∧ (rest = [] ∧ vs.length % 4 = 0 ∨ rest = [pad] ∧ vs.length % 4 = 3 ∨
      rest = [pad, pad] ∧ vs.length % 4 = 2)

/-- A text that goes on with a character that is no letter. -/
def NoLetter (rest : List UInt8) : Prop := ∀ c rest', rest = c :: rest' → sextet c = none

/-- **A text from its letters.** -/
theorem encodes_append_iff (h : Letters text vs)
    {rest : List UInt8} (hrest : NoLetter rest) (out : List UInt8) :
    Encodes (text ++ rest) out ↔ out = bytes vs ∧ Closes vs rest := by
  induction vs using fours generalizing text out with
  | group a b c d vs ih =>
    match text, h with
    | w :: x :: y :: z :: text, .cons hw (.cons hx (.cons hy (.cons hz h))) =>
      have hcloses : Closes (a :: b :: c :: d :: vs) rest ↔ Closes vs rest := by
        unfold Closes
        have hlen : (a :: b :: c :: d :: vs).length % 4 = vs.length % 4 := by
          simp only [length_cons]
          omega
        rw [hlen, slop]
      rw [bytes, hcloses]
      simp only [cons_append]
      constructor
      · intro henc
        generalize htail : text ++ rest = tail at henc
        cases henc with
        | group hw' hx' hy' hz' henc =>
          subst htail
          obtain ⟨rfl, hc⟩ := (ih h _).mp henc
          rw [hw] at hw'
          rw [hx] at hx'
          rw [hy] at hy'
          rw [hz] at hz'
          cases hw'
          cases hx'
          cases hy'
          cases hz'
          exact ⟨rfl, hc⟩
        | two | one => simp [sextet_pad] at hz
      · rintro ⟨rfl, hc⟩
        exact .group hw hx hy hz ((ih h _).mpr ⟨rfl, hc⟩)
  | three a b c =>
    match text, h with
    | [w, x, y], .cons hw (.cons hx (.cons hy .nil)) =>
      simp only [cons_append, nil_append]
      constructor
      · intro henc
        cases henc with
        | group _ _ _ hz' => exact absurd (hrest _ _ rfl) (by simp [hz'])
        | two hw' hx' hy' hslop =>
          rw [hw] at hw'
          rw [hx] at hx'
          rw [hy] at hy'
          cases hw'
          cases hx'
          cases hy'
          exact ⟨rfl, hslop, .inr (.inl ⟨rfl, rfl⟩)⟩
        | one => simp [sextet_pad] at hy
      rintro ⟨rfl, hslop, ⟨-, hlen⟩ | ⟨rfl, -⟩ | ⟨-, hlen⟩⟩
      · simp at hlen
      · exact .two hw hx hy hslop
      · simp at hlen
  | two a b =>
    match text, h with
    | [w, x], .cons hw (.cons hx .nil) =>
      simp only [cons_append, nil_append]
      constructor
      · intro henc
        cases henc with
        | group _ _ hy' | two _ _ hy' => exact absurd (hrest _ _ rfl) (by simp [hy'])
        | one hw' hx' hslop =>
          rw [hw] at hw'
          rw [hx] at hx'
          cases hw'
          cases hx'
          exact ⟨rfl, hslop, .inr (.inr ⟨rfl, rfl⟩)⟩
      rintro ⟨rfl, hslop, ⟨-, hlen⟩ | ⟨-, hlen⟩ | ⟨rfl, -⟩⟩
      · simp at hlen
      · simp at hlen
      · exact .one hw hx hslop
  | nil =>
    match text, h with
    | [], .nil =>
      rw [nil_append]
      constructor
      · intro henc
        cases henc with
        | nil => exact ⟨rfl, rfl, .inl ⟨rfl, rfl⟩⟩
        | group hw' | two hw' | one hw' => exact absurd (hrest _ _ rfl) (by simp [hw'])
      rintro ⟨rfl, -, ⟨rfl, -⟩ | ⟨-, hlen⟩ | ⟨-, hlen⟩⟩
      · exact .nil
      · simp at hlen
      · simp at hlen
  | one a =>
    match text, h with
    | [w], .cons hw .nil =>
      simp only [cons_append, nil_append]
      constructor
      · intro henc
        cases henc with
        | group _ hx' | two _ hx' | one _ hx' => exact absurd (hrest _ _ rfl) (by simp [hx'])
      · rintro ⟨-, -, ⟨-, hlen⟩ | ⟨-, hlen⟩ | ⟨-, hlen⟩⟩ <;> simp at hlen

/-- A text stands for one byte list. -/
theorem Encodes.unique {text out out' : List UInt8} (h : Encodes text out)
    (h' : Encodes text out') : out = out' := by
  induction h generalizing out' with
  | nil =>
    cases h'
    rfl
  | group hw hx hy hz _ ih =>
    cases h' with
    | group hw' hx' hy' hz' h' =>
      rw [hw] at hw'
      rw [hx] at hx'
      rw [hy] at hy'
      rw [hz] at hz'
      cases hw'
      cases hx'
      cases hy'
      cases hz'
      rw [ih h']
    | two | one => simp [sextet_pad] at hz
  | two hw hx hy _ =>
    cases h' with
    | group _ _ _ hz' => simp [sextet_pad] at hz'
    | two hw' hx' hy' _ =>
      rw [hw] at hw'
      rw [hx] at hx'
      rw [hy] at hy'
      cases hw'
      cases hx'
      cases hy'
      rfl
    | one => simp [sextet_pad] at hy
  | one hw hx _ =>
    cases h' with
    | group _ _ _ hz' => simp [sextet_pad] at hz'
    | two _ _ hy' => simp [sextet_pad] at hy'
    | one hw' hx' _ =>
      rw [hw] at hw'
      rw [hx] at hx'
      cases hw'
      cases hx'
      rfl

/-! ### Encoding -/

/-- The text of a byte list. -/
def encode : List UInt8 → List UInt8
  | x :: y :: z :: rest =>
    letter (x.toNat / 4) :: letter (x.toNat % 4 * 16 + y.toNat / 16) ::
      letter (y.toNat % 16 * 4 + z.toNat / 64) :: letter (z.toNat % 64) :: encode rest
  | [x, y] =>
    [letter (x.toNat / 4), letter (x.toNat % 4 * 16 + y.toNat / 16), letter (y.toNat % 16 * 4), pad]
  | [x] => [letter (x.toNat / 4), letter (x.toNat % 4 * 16), pad, pad]
  | [] => []

/-- Induction on a byte list, group by group. -/
theorem threes {motive : List UInt8 → Prop}
    (group : ∀ x y z rest, motive rest → motive (x :: y :: z :: rest))
    (two : ∀ x y, motive [x, y]) (one : ∀ x, motive [x]) (nil : motive []) : ∀ out, motive out
  | x :: y :: z :: rest => group x y z rest (threes group two one nil rest)
  | [x, y] => two x y
  | [x] => one x
  | [] => nil

theorem length_encode (out : List UInt8) : (encode out).length = 4 * ((out.length + 2) / 3) := by
  induction out using threes with
  | group x y z rest ih =>
    rw [encode]
    simp only [length_cons, ih]
    omega
  | two x y | one x | nil => simp [encode]

/-- A byte from its number. -/
theorem ofNat_eq {n : Nat} {x : UInt8} (h : n = x.toNat) : UInt8.ofNat n = x := by
  rw [h, UInt8.ofNat_toNat]

/-- **Every byte list has a text.** -/
theorem encodes_encode (out : List UInt8) : Encodes (encode out) out := by
  induction out using threes with
  | group x y z rest ih =>
    have hx := x.toNat_lt
    have hy := y.toNat_lt
    have hz := z.toNat_lt
    have hgroup := Encodes.group (sextet_letter (by omega : x.toNat / 4 < 64))
      (sextet_letter (by omega : x.toNat % 4 * 16 + y.toNat / 16 < 64))
      (sextet_letter (by omega : y.toNat % 16 * 4 + z.toNat / 64 < 64))
      (sextet_letter (by omega : z.toNat % 64 < 64)) ih
    have hfirst : first (x.toNat / 4) (x.toNat % 4 * 16 + y.toNat / 16) = x :=
      ofNat_eq (by omega)
    have hsnd : second (x.toNat % 4 * 16 + y.toNat / 16) (y.toNat % 16 * 4 + z.toNat / 64) = y :=
      ofNat_eq (by omega)
    have hthird : third (y.toNat % 16 * 4 + z.toNat / 64) (z.toNat % 64) = z :=
      ofNat_eq (by omega)
    rw [hfirst, hsnd, hthird] at hgroup
    exact hgroup
  | two x y =>
    have hx := x.toNat_lt
    have hy := y.toNat_lt
    have hlast := Encodes.two (sextet_letter (by omega : x.toNat / 4 < 64))
      (sextet_letter (by omega : x.toNat % 4 * 16 + y.toNat / 16 < 64))
      (sextet_letter (by omega : y.toNat % 16 * 4 < 64)) (by omega)
    have hfirst : first (x.toNat / 4) (x.toNat % 4 * 16 + y.toNat / 16) = x :=
      ofNat_eq (by omega)
    have hsnd : second (x.toNat % 4 * 16 + y.toNat / 16) (y.toNat % 16 * 4) = y :=
      ofNat_eq (by omega)
    rw [hfirst, hsnd] at hlast
    exact hlast
  | one x =>
    have hx := x.toNat_lt
    have hlast := Encodes.one (sextet_letter (by omega : x.toNat / 4 < 64))
      (sextet_letter (by omega : x.toNat % 4 * 16 < 64)) (by omega)
    have hfirst : first (x.toNat / 4) (x.toNat % 4 * 16) = x := ofNat_eq (by omega)
    rw [hfirst] at hlast
    exact hlast
  | nil => exact .nil

/-- Letters and padding are all there is in a text. -/
theorem Encodes.letter_or_pad {text out : List UInt8} (h : Encodes text out) :
    ∀ c ∈ text, sextet c ≠ none ∨ c = pad := by
  induction h with
  | nil => simp
  | group hw hx hy hz _ ih | two hw hx hy | one hw hx => simp_all

end Base64

end Cockpit.Lib
