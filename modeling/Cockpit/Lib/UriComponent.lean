import Cockpit.Lib.Utf16

namespace Cockpit.Lib

open List Option Utf16 Utf8 UInt8

/-!
# `encodeURIComponent`

It throws where a surrogate is alone; else each code point becomes itself or its UTF-8, with every
byte escaped.

* `Uri.mem_encodePoint` — no character that separates parts of a URL is left;
* `Uri.Spells` — the parts of a path, where some escapes have been undone.
-/

namespace Utf16

/-- Code points that are no surrogates. -/
def IsScalar (p : Nat) : Prop := p < 0x110000 ∧ isHigh p = false ∧ isLow p = false

instance (p : Nat) : Decidable (IsScalar p) :=
  inferInstanceAs (Decidable (p < 0x110000 ∧ isHigh p = false ∧ isLow p = false))

/-- A string without a surrogate that is alone. -/
def WellFormed (s : List Nat) : Prop := ∀ p ∈ points s, IsScalar p

instance (s : List Nat) : Decidable (WellFormed s) :=
  inferInstanceAs (Decidable (∀ p ∈ points s, IsScalar p))

variable {p : Nat}

theorem lt_of_isScalar (h : IsScalar p) : p < 0xD800 ∨ (0xE000 ≤ p ∧ p < 0x110000) := by
  have hlt := h.1
  have hhigh := h.2.1
  have hlow := h.2.2
  simp only [isHigh, isLow, Bool.and_eq_false_iff, decide_eq_false_iff_not] at hhigh hlow
  omega

/-- The code points of a string give its code units. -/
theorem flatMap_points : ∀ {s}, (∀ c ∈ s, c < 0x10000) → (points s).flatMap Uri.utf16 = s
  | [], _ => rfl
  | [c], h => by
    rw [points, flatMap_singleton, Uri.utf16, if_pos (h c mem_cons_self)]
  | c :: d :: s, h => by
    have hc := h c mem_cons_self
    by_cases hpair : isHigh c ∧ isLow d
    · have ih := flatMap_points fun e he => h e (mem_cons_of_mem _ (mem_cons_of_mem _ he))
      have hpoints : points (c :: d :: s) = pair c d :: points s := by
        rw [points, if_pos (by simpa using hpair)]
      have hutf16 : Uri.utf16 (pair c d) = [c, d] := by
        obtain ⟨hh, hl⟩ := hpair
        simp only [isHigh, isLow, Bool.and_eq_true, decide_eq_true_eq] at hh hl
        unfold Uri.utf16 pair
        have hhigh : 0xD800 +
            (0x10000 + (c - 0xD800) * 0x400 + (d - 0xDC00) - 0x10000) / 0x400 = c := by omega
        have hlow : 0xDC00 +
            (0x10000 + (c - 0xD800) * 0x400 + (d - 0xDC00) - 0x10000) % 0x400 = d := by omega
        rw [if_neg (by omega), hhigh, hlow]
      rw [hpoints, flatMap_cons, hutf16, ih]
      rfl
    · have ih := flatMap_points fun e he => h e (mem_cons_of_mem c he)
      rw [points_cons hpair, flatMap_cons, ih, Uri.utf16, if_pos hc]
      rfl

/-! ### The UTF-8 of a code point -/

theorem octets_two (h : 0x80 ≤ p) (h' : p < 0x800) :
    octets p = [ofNat (0xC0 + p / 64), ofNat (0x80 + p % 64)] := by
  rw [octets, if_neg (by omega), if_pos h']

theorem octets_three (h : 0x800 ≤ p) (h' : p < 0x10000) :
    octets p = [ofNat (0xE0 + p / 4096), ofNat (0x80 + p / 64 % 64),
      ofNat (0x80 + p % 64)] := by
  rw [octets, if_neg (by omega), if_neg (by omega), if_pos h']

theorem octets_four (h : 0x10000 ≤ p) :
    octets p = [ofNat (0xF0 + p / 262144), ofNat (0x80 + p / 4096 % 64),
      ofNat (0x80 + p / 64 % 64), ofNat (0x80 + p % 64)] := by
  rw [octets, if_neg (by omega), if_neg (by omega), if_neg (by omega)]

theorem isCont_ofNat (n : Nat) : isCont (ofNat (0x80 + n % 64)) := by
  simp only [isCont, Bool.and_eq_true, decide_eq_true_eq, le_iff_toNat_le,
    lt_iff_toNat_lt, toNat_ofNat', reduceToNat]
  omega

variable {b a : UInt8}

theorem leadLen_of_toNat {n : Nat}
    (h : (0xC2 ≤ b.toNat ∧ b.toNat < 0xE0 ∧ n = 2) ∨ (0xE0 ≤ b.toNat ∧ b.toNat < 0xF0 ∧ n = 3) ∨
      (0xF0 ≤ b.toNat ∧ b.toNat < 0xF5 ∧ n = 4)) : leadLen b = n := by
  have hne : b ≠ 0 := by
    rintro rfl
    simp at h
  rw [leadLen, if_neg hne]
  simp only [lt_iff_toNat_lt, reduceToNat]
  split_ifs <;> omega

/-- The second byte of a sequence that is no overlong form, no surrogate and not too large. -/
theorem secondOk_of_toNat (h80 : 0x80 ≤ b.toNat) (hc0 : b.toNat < 0xC0)
    (he0 : a.toNat = 0xE0 → 0xA0 ≤ b.toNat) (hed : a.toNat = 0xED → b.toNat < 0xA0)
    (hf0 : a.toNat = 0xF0 → 0x90 ≤ b.toNat) (hf4 : a.toNat = 0xF4 → b.toNat < 0x90) :
    secondOk a b := by
  have h : (0x80 : UInt8).toNat = 128 ∧ (0x90 : UInt8).toNat = 144 ∧ (0xA0 : UInt8).toNat = 160 ∧
    (0xC0 : UInt8).toNat = 192 := ⟨rfl, rfl, rfl, rfl⟩
  unfold secondOk isCont
  split_ifs with h1 h2 h3 h4 <;>
    simp only [Bool.and_eq_true, decide_eq_true_eq, le_iff_toNat_le, lt_iff_toNat_lt]
  · have := he0 (by rw [h1]; rfl)
    omega
  · have := hed (by rw [h2]; rfl)
    omega
  · have := hf0 (by rw [h3]; rfl)
    omega
  · have := hf4 (by rw [h4]; rfl)
    omega
  · omega

theorem seqLen_two (ha : leadLen a = 2) (hb : secondOk a b) :
    seqLen [a, b] = 2 := by
  simp [seqLen, ha, hb]

variable {c : UInt8}

theorem seqLen_three (ha : leadLen a = 3) (hb : secondOk a b)
    (hc : isCont c) : seqLen [a, b, c] = 3 := by
  simp [seqLen, ha, hb, hc]

theorem seqLen_four {d : UInt8} (ha : leadLen a = 4) (hb : secondOk a b)
    (hc : isCont c) (hd : isCont d) : seqLen [a, b, c, d] = 4 := by
  simp [seqLen, ha, hb, hc, hd]

/-- The UTF-8 of a code point is a well-formed sequence of as many bytes as its first one says. -/
theorem octets_wellFormed (hp : IsScalar p) (h80 : 0x80 ≤ p) :
    ∃ b bs, octets p = b :: bs ∧ leadLen b = bs.length + 1 ∧ 1 ≤ bs.length ∧
      Uri.textLen (b :: bs) = bs.length + 1 ∧ Uri.codePoint (b :: bs) = p := by
  have hrange := lt_of_isScalar hp
  have hnat : ∀ n, n < 256 → (ofNat n).toNat = n := by
    intro n hn
    rw [toNat_ofNat', Nat.mod_eq_of_lt hn]
  by_cases h2 : p < 0x800
  · have ha := hnat (0xC0 + p / 64) (by omega)
    have hb := hnat (0x80 + p % 64) (by omega)
    have hlead : leadLen (ofNat (0xC0 + p / 64)) = 2 := leadLen_of_toNat (by omega)
    have hsnd : secondOk (ofNat (0xC0 + p / 64)) (ofNat (0x80 + p % 64)) =
      true := secondOk_of_toNat (by omega) (by omega) (by omega) (by omega) (by omega) (by omega)
    refine ⟨_, _, octets_two h80 h2, hlead, Nat.le_refl _, ?_, ?_⟩
    · rw [Uri.textLen_of_le (by omega), seqLen_two hlead hsnd]
      rfl
    · simp only [Uri.codePoint, ha, hb]
      omega
  by_cases h3 : p < 0x10000
  · have ha := hnat (0xE0 + p / 4096) (by omega)
    have hb := hnat (0x80 + p / 64 % 64) (by omega)
    have hc := hnat (0x80 + p % 64) (by omega)
    have hlead : leadLen (ofNat (0xE0 + p / 4096)) = 3 := leadLen_of_toNat (by omega)
    have hsnd : secondOk (ofNat (0xE0 + p / 4096))
        (ofNat (0x80 + p / 64 % 64)) :=
      secondOk_of_toNat (by omega) (by omega) (by omega) (by omega) (by omega) (by omega)
    refine ⟨_, _, octets_three (by omega) h3, hlead, by simp, ?_, ?_⟩
    · rw [Uri.textLen_of_le (by omega), seqLen_three hlead hsnd (isCont_ofNat _)]
      rfl
    · simp only [Uri.codePoint, ha, hb, hc]
      omega
  have ha := hnat (0xF0 + p / 262144) (by omega)
  have hb := hnat (0x80 + p / 4096 % 64) (by omega)
  have hc := hnat (0x80 + p / 64 % 64) (by omega)
  have hd := hnat (0x80 + p % 64) (by omega)
  have hlead : leadLen (ofNat (0xF0 + p / 262144)) = 4 :=
    leadLen_of_toNat (by omega)
  have hsnd : secondOk (ofNat (0xF0 + p / 262144))
      (ofNat (0x80 + p / 4096 % 64)) :=
    secondOk_of_toNat (by omega) (by omega) (by omega) (by omega) (by omega) (by omega)
  refine ⟨_, _, octets_four (by omega), hlead, by simp, ?_, ?_⟩
  · rw [Uri.textLen_of_le (by omega), seqLen_four hlead hsnd (isCont_ofNat _) (isCont_ofNat _)]
    rfl
  · simp only [Uri.codePoint, ha, hb, hc, hd]
    omega

theorem le_of_mem_octets (h : 0x80 ≤ p) (hp : p < 0x110000) :
    ∀ b ∈ octets p, 0x80 ≤ b.toNat := by
  have hnat : ∀ n, 0x80 ≤ n → n < 256 → 0x80 ≤ (ofNat n).toNat := by
    intro n hn hlt
    rw [toNat_ofNat', Nat.mod_eq_of_lt hlt]
    exact hn
  intro b hb
  unfold octets at hb
  split_ifs at hb with h1 h2 h3
  · omega
  · simp only [mem_cons, not_mem_nil, or_false] at hb
    rcases hb with rfl | rfl <;> exact hnat _ (by omega) (by omega)
  · simp only [mem_cons, not_mem_nil, or_false] at hb
    rcases hb with rfl | rfl | rfl <;> exact hnat _ (by omega) (by omega)
  · simp only [mem_cons, not_mem_nil, or_false] at hb
    rcases hb with rfl | rfl | rfl | rfl <;> exact hnat _ (by omega) (by omega)

end Utf16

namespace Uri

/-- What `encodeURIComponent` leaves as it is: letters, digits and `-_.!~*'()` -/
def unreserved (c : Nat) : Bool :=
  0x41 ≤ c && c ≤ 0x5A || 0x61 ≤ c && c ≤ 0x7A || 0x30 ≤ c && c ≤ 0x39 || c == 0x2D || c == 0x2E ||
    c == 0x5F || c == 0x21 || c == 0x7E || 0x27 ≤ c && c ≤ 0x2A

/-- `%` and two digits. -/
def percent (b : UInt8) : List Nat := [0x25, hexDigit (b.toNat / 16), hexDigit (b.toNat % 16)]

/-- A code point in `encodeURIComponent`. -/
def encodePoint (p : Nat) : List Nat :=
  if unreserved p then [p] else (Utf16.octets p).flatMap percent

/-- `encodeURIComponent`, `none` where it throws. -/
def encodeURIComponent (s : List Nat) : Option (List Nat) :=
  if Utf16.WellFormed s then some ((Utf16.points s).flatMap encodePoint) else none

theorem octet_percent (b : UInt8) (s : List Nat) : octet (percent b ++ s) = some (b, s) :=
  octet_hexDigits b s

theorem octets_percent (bs : List UInt8) (s : List Nat) :
    octets bs.length (bs.flatMap percent ++ s) = some (bs, s) := by
  induction bs with
  | nil => rfl
  | cons b bs ih =>
    simp [octets, append_assoc, octet_percent, ih]

variable {c a : Nat}

theorem unreserved_bounds (h : unreserved c) : 0x21 ≤ c ∧ c < 0x7F ∧ c ≠ 0x25 := by
  simp only [unreserved, Bool.or_eq_true, Bool.and_eq_true, decide_eq_true_eq, beq_iff_eq] at h
  omega

variable {p x y z : Nat}

/-- **A code point is read again.** -/
theorem decode_point (h : IsScalar p) (s : List Nat) :
    decodeURIComponent (encodePoint p ++ s) = (decodeURIComponent s).map (utf16 p ++ ·) := by
  unfold encodePoint
  split
  · rename_i hplain
    have hbounds := unreserved_bounds hplain
    rw [singleton_append, decode_plain hbounds.2.2, utf16, if_pos (by omega)]
    rfl
  by_cases hascii : p < 0x80
  · -- a single byte
    have hb : (ofNat p).toNat = p := by
      rw [toNat_ofNat', Nat.mod_eq_of_lt (by omega)]
    have hones : leadingOnes (ofNat p) = 0 := by
      rw [leadingOnes, if_pos (lt_iff_toNat_lt.mpr (by rw [hb]; exact hascii))]
    have hoctet := octet_percent (ofNat p) s
    rw [Utf16.octets, if_pos hascii, flatMap_singleton]
    rw [percent, cons_append] at hoctet ⊢
    rw [decode_octet hoctet, if_pos hones, hb, utf16, if_pos (by omega)]
    rfl
  obtain ⟨b, bs, hocts, hlead, hpos, htext, hpoint⟩ :=
    octets_wellFormed h (Nat.not_lt.mp hascii)
  obtain ⟨hones, -, hle⟩ := leadingOnes_of_leadLen hlead (by omega)
  have hoctet := octet_percent b (bs.flatMap percent ++ s)
  rw [hocts, flatMap_cons, append_assoc]
  rw [percent, cons_append] at hoctet ⊢
  rw [decode_octet hoctet, hones, if_neg (by omega), if_neg (by omega), Nat.add_sub_cancel,
    octets_percent]
  simp only [htext, if_true, hpoint]

variable {ps : List Nat}

theorem decode_points (h : ∀ p ∈ ps, IsScalar p) :
    decodeURIComponent (ps.flatMap encodePoint) = some (ps.flatMap utf16) := by
  induction ps with
  | nil => exact decode_nil
  | cons p ps ih =>
    rw [flatMap_cons, flatMap_cons, decode_point (h p mem_cons_self),
      ih fun q hq => h q (mem_cons_of_mem _ hq)]
    rfl

variable {s t : List Nat}

/-- **What was encoded is read again.** -/
theorem decode_encode (hs : ∀ c ∈ s, c < 0x10000)
    (h : encodeURIComponent s = some t) : decodeURIComponent t = some s := by
  unfold encodeURIComponent at h
  split at h
  · rename_i hwell
    cases h
    rw [decode_points hwell, flatMap_points hs]
  · cases h

/-- Only unreserved characters, `%` and digits are left. -/
theorem mem_encodePoint (h : c ∈ encodePoint p) : unreserved c ∨ c = 0x25 := by
  unfold encodePoint at h
  split at h
  · rename_i hplain
    rw [mem_singleton.mp h]
    exact .inl hplain
  obtain ⟨b, -, hc⟩ := mem_flatMap.mp h
  have hlt : b.toNat < 256 := b.toNat_lt
  have hdigit : ∀ n < 16, unreserved (hexDigit n) := by decide
  simp only [percent, mem_cons, not_mem_nil, or_false] at hc
  rcases hc with rfl | rfl | rfl
  · exact .inr rfl
  · exact .inl (hdigit _ (by omega))
  · exact .inl (hdigit _ (by omega))

/-! ### Loops that throw -/

variable {α β : Type} {f : α → Option β} {l : List α}

theorem mapM_eq_some_iff {l' : List β} :
    l.mapM f = some l' ↔ List.Forall₂ (fun x y => f x = some y) l l' := by
  induction l generalizing l' with
  | nil => simp [eq_comm]
  | cons x l ih =>
    simp only [mapM_cons, bind_eq_bind, Option.pure_def, bind_eq_some_iff,
      some.injEq, forall₂_cons_left_iff, ih]
    constructor
    · rintro ⟨y, hy, ys, hys, rfl⟩
      exact ⟨y, ys, hy, hys, rfl⟩
    · rintro ⟨y, ys, hy, hys, rfl⟩
      exact ⟨y, hy, ys, hys, rfl⟩

theorem mapM_isSome_iff :
    (l.mapM f).isSome ↔ ∀ x ∈ l, (f x).isSome := by
  induction l with
  | nil => simp
  | cons x l ih =>
    rw [forall_mem_cons, ← ih, mapM_cons]
    cases f x with
    | none => simp
    | some y => cases l.mapM f <;> simp

/-- **The parts of a string can be read when the string can.** -/
theorem decode_splitOn (hc : hexValue c = none) (hne : c ≠ 0x25) (s : List Nat) :
    ((s.splitOn c).mapM decodeURIComponent).isSome ↔ (decodeURIComponent s).isSome := by
  have hparts : ∀ parts : List (List Nat), parts ≠ [] →
      ((decodeURIComponent ([c].intercalate parts)).isSome ↔
        ∀ part ∈ parts, (decodeURIComponent part).isSome) := by
    intro parts
    induction parts with
    | nil => exact fun h => absurd rfl h
    | cons part parts ih =>
      intro _
      cases parts with
      | nil => simp
      | cons part' parts =>
        rw [intercalate_cons_cons, append_assoc, singleton_append,
          decode_append hc hne, forall_mem_cons, ← ih (cons_ne_nil _ _)]
        cases decodeURIComponent part with
        | none => simp
        | some x => cases decodeURIComponent ([c].intercalate (part' :: parts)) <;> simp
  rw [mapM_isSome_iff, ← hparts _ (splitOn_ne_nil c s), intercalate_splitOn]

/-! ### Paths -/

/-- `replace` of a text of three characters by another one, for the first of them or for all. -/
def replace (all : Bool) (x y z c : Nat) : List Nat → List Nat
  | [] => []
  | [a] => [a]
  | [a, b] => [a, b]
  | a :: b :: d :: s =>
    if a = x ∧ b = y ∧ d = z then c :: (if all then replace all x y z c s else s)
    else a :: replace all x y z c (b :: d :: s)

/-- A path with `/` between its parts, of which some characters are escaped. -/
inductive Spells : List Nat → List (List Nat) → Prop where
  | nil : Spells [] [[]]
  | raw {c : Nat} {t s : List Nat} {ss : List (List Nat)} (hpercent : c ≠ 0x25) (hslash : c ≠ 0x2F)
      (h : Spells t (s :: ss)) : Spells (c :: t) ((c :: s) :: ss)
  | point {p : Nat} {t s : List Nat} {ss : List (List Nat)} (hp : IsScalar p)
      (h : Spells t (s :: ss)) : Spells (encodePoint p ++ t) ((utf16 p ++ s) :: ss)
  | slash {t : List Nat} {ss : List (List Nat)} (h : Spells t ss) : Spells (0x2F :: t) ([] :: ss)

theorem slash_not_mem (p : Nat) : 0x2F ∉ encodePoint p := by
  intro h
  rcases mem_encodePoint h with h | h <;> exact nomatch h

theorem splitOn_append_of_notMem {xs : List Nat} (h : a ∉ xs) (t : List Nat) :
    (xs ++ t).splitOn a = (t.splitOn a).modifyHead (xs ++ ·) := by
  induction xs with
  | nil =>
    rw [nil_append]
    cases t.splitOn a <;> rfl
  | cons x xs ih =>
    have hx : (x == a) = false := beq_eq_false_iff_ne.mpr fun heq => h (heq ▸ mem_cons_self)
    rw [cons_append, splitOn_cons_eq_if_modifyHead, hx, ih fun hmem => h (mem_cons_of_mem _ hmem)]
    cases t.splitOn a <;> rfl

variable {ss parts : List (List Nat)}

/-- One more character in front of the first part. -/
theorem mapM_modifyHead {f g : List Nat → List Nat} (hparts : parts ≠ [])
    (hf : ∀ t, decodeURIComponent (f t) = (decodeURIComponent t).map g)
    (h : parts.mapM decodeURIComponent = some (s :: ss)) :
    (parts.modifyHead f).mapM decodeURIComponent = some (g s :: ss) := by
  cases parts with
  | nil => exact absurd rfl hparts
  | cons part parts =>
    simp only [mapM_cons, bind_eq_bind, Option.pure_def, bind_eq_some_iff,
      some.injEq, List.cons.injEq] at h
    obtain ⟨s', hs', ss', hss', rfl, rfl⟩ := h
    simp [hf, hs', hss']

/-- **The parts of a path are read again.** -/
theorem Spells.decode (h : Spells t ss) : (t.splitOn 0x2F).mapM decodeURIComponent = some ss := by
  induction h with
  | nil => simp
  | raw hpercent hslash h ih =>
    rename_i c t s ss
    have hsplit : (c :: t).splitOn 0x2F = (t.splitOn 0x2F).modifyHead (c :: ·) := by
      rw [splitOn_cons_eq_if_modifyHead, if_neg (by simpa using hslash)]
    rw [hsplit]
    exact mapM_modifyHead (splitOn_ne_nil _ _) (fun t => decode_plain hpercent t) ih
  | point hp h ih =>
    rename_i p t s ss
    rw [splitOn_append_of_notMem (slash_not_mem p)]
    exact mapM_modifyHead (splitOn_ne_nil _ _) (fun t => decode_point hp t) ih
  | slash h ih =>
    rename_i t ss
    have hsplit : (0x2F :: t).splitOn 0x2F = [] :: t.splitOn 0x2F := by
      rw [splitOn_cons_eq_if_modifyHead, if_pos (by simp)]
    rw [hsplit, mapM_cons, decode_nil, ih]
    rfl

variable {all : Bool}

theorem replace_cons_ne (h : a ≠ x) (s : List Nat) :
    replace all x y z c (a :: s) = a :: replace all x y z c s := by
  match s with
  | [] | [b] => rfl
  | b :: d :: s => rw [replace, if_neg fun heq => h heq.1]

theorem hexDigit_injective {m n : Nat} (hm : m < 16) (hn : n < 16) (h : hexDigit m = hexDigit n) :
    m = n := by
  have := (hexValue_hexDigit hm).symm.trans (h ▸ hexValue_hexDigit hn)
  exact some.inj this

/-- Where one byte is replaced. -/
theorem replace_percent (byte b : UInt8) (c : Nat) (s : List Nat) :
    replace all 0x25 (hexDigit (byte.toNat / 16)) (hexDigit (byte.toNat % 16)) c (percent b ++ s) =
      if b = byte then
        c :: (if all then
          replace all 0x25 (hexDigit (byte.toNat / 16)) (hexDigit (byte.toNat % 16)) c s else s)
      else percent b ++
        replace all 0x25 (hexDigit (byte.toNat / 16)) (hexDigit (byte.toNat % 16)) c s := by
  have hb : b.toNat < 256 := b.toNat_lt
  have hbyte : byte.toNat < 256 := byte.toNat_lt
  have hdigit : ∀ n < 16, hexDigit n ≠ 0x25 := by decide
  by_cases heq : b = byte
  · subst heq
    simp [percent, replace]
  rw [if_neg heq]
  simp only [percent, cons_append, nil_append]
  rw [replace, if_neg, replace_cons_ne (hdigit _ (by omega)), replace_cons_ne (hdigit _ (by omega))]
  rintro ⟨-, hhigh, hlow⟩
  have h1 := hexDigit_injective (by omega) (by omega) hhigh
  have h2 := hexDigit_injective (by omega) (by omega) hlow
  exact heq (UInt8.toNat_inj.mp (by omega))

/-- **Undoing the escape of an ASCII character leaves the parts as they are.** -/
theorem Spells.replace (hc : c < 0x80) (hpercent : c ≠ 0x25) (hslash : c ≠ 0x2F)
    (all : Bool) (h : Spells t ss) :
    Spells (Uri.replace all 0x25 (hexDigit (c / 16)) (hexDigit (c % 16)) c t) ss := by
  have hbyte : (ofNat c).toNat = c := by
    rw [toNat_ofNat', Nat.mod_eq_of_lt (by omega)]
  have hrepl := fun b s => @replace_percent all (ofNat c) b c s
  simp only [hbyte] at hrepl
  induction h with
  | nil => exact .nil
  | raw hpercent' hslash' h ih =>
    rw [replace_cons_ne hpercent']
    exact .raw hpercent' hslash' ih
  | slash h ih =>
    rw [replace_cons_ne (by decide)]
    exact .slash ih
  | point hp h ih =>
    rename_i p t s ss
    by_cases hplain : unreserved p
    · have hpoint : encodePoint p = [p] := by rw [encodePoint, if_pos hplain]
      rw [hpoint, singleton_append, replace_cons_ne (unreserved_bounds hplain).2.2]
      have := Spells.point hp ih
      rwa [hpoint] at this
    have hpoint : encodePoint p = (Utf16.octets p).flatMap percent := by
      rw [encodePoint, if_neg hplain]
    by_cases hascii : p < 0x80
    · have hone : encodePoint p = percent (ofNat p) := by
        rw [hpoint, Utf16.octets, if_pos hascii, flatMap_singleton]
      rw [hone, hrepl]
      split
      · -- it is the character
        rename_i heq
        have hpc : p = c := by
          have := congrArg toNat heq
          rw [hbyte, toNat_ofNat', Nat.mod_eq_of_lt (by omega)] at this
          exact this
        have hunit : utf16 p = [c] := by rw [utf16, if_pos (by omega), hpc]
        rw [hunit]
        cases all with
        | true => exact .raw hpercent hslash ih
        | false => exact .raw hpercent hslash h
      · have := Spells.point hp ih
        rwa [hone] at this
    -- no byte of a longer sequence is the character
    have hskip : ∀ (bs : List UInt8), (∀ b ∈ bs, 0x80 ≤ b.toNat) →
        Uri.replace all 0x25 (hexDigit (c / 16)) (hexDigit (c % 16)) c (bs.flatMap percent ++ t) =
          bs.flatMap percent ++
            Uri.replace all 0x25 (hexDigit (c / 16)) (hexDigit (c % 16)) c t := by
      intro bs hbs
      induction bs with
      | nil => rfl
      | cons b bs ih =>
        have hne : b ≠ ofNat c := by
          intro heq
          have := hbs b mem_cons_self
          rw [heq, hbyte] at this
          omega
        rw [flatMap_cons, append_assoc, hrepl, if_neg hne,
          ih fun b hb => hbs b (mem_cons_of_mem _ hb), append_assoc]
    have := Spells.point hp ih
    rw [hpoint, hskip _ (le_of_mem_octets (Nat.not_lt.mp hascii) hp.1)]
    rwa [hpoint] at this

theorem Spells.points (h : ∀ p ∈ ps, IsScalar p) (hspells : Spells t (s :: ss)) :
    Spells (ps.flatMap encodePoint ++ t) ((ps.flatMap utf16 ++ s) :: ss) := by
  induction ps with
  | nil => exact hspells
  | cons p ps ih =>
    rw [flatMap_cons, flatMap_cons, append_assoc, append_assoc]
    exact .point (h p mem_cons_self) (ih fun q hq => h q (mem_cons_of_mem _ hq))

/-- The encoded parts of a path. -/
theorem spells_intercalate {path : List (List Nat)} (hne : path ≠ [])
    (hunits : ∀ s ∈ path, ∀ c ∈ s, c < 0x10000)
    (h : path.mapM encodeURIComponent = some parts) : Spells ([0x2F].intercalate parts) path := by
  rw [mapM_eq_some_iff] at h
  induction h with
  | nil => exact absurd rfl hne
  | cons hpart hrest ih =>
    rename_i s t path parts
    have hs : ∀ c ∈ s, c < 0x10000 := hunits s mem_cons_self
    obtain ⟨hwell, rfl⟩ : Utf16.WellFormed s ∧ (Utf16.points s).flatMap encodePoint = t := by
      unfold encodeURIComponent at hpart
      split at hpart
      · rename_i hwell
        exact ⟨hwell, some.inj hpart⟩
      · cases hpart
    have hread := flatMap_points hs
    cases hrest with
    | nil =>
      have := Spells.points hwell .nil
      rw [append_nil, append_nil, hread] at this
      rwa [intercalate_singleton]
    | cons hpart' hrest =>
      have hrest' := ih (cons_ne_nil _ _) fun s hs => hunits s (mem_cons_of_mem _ hs)
      have := Spells.points hwell (.slash hrest')
      rw [hread, append_nil] at this
      rwa [intercalate_cons_cons, append_assoc, singleton_append]

theorem mem_replace : ∀ {s}, a ∈ replace all x y z c s → a = c ∨ a ∈ s
  | [], h => by cases h
  | [b], h | [b, d], h => .inr h
  | b :: d :: e :: s, h => by
    rw [replace] at h
    split at h
    · rcases mem_cons.mp h with h | h
      · exact .inl h
      split at h
      · rcases mem_replace h with h | h
        · exact .inl h
        · exact .inr (by simp [h])
      · exact .inr (by simp [h])
    rcases mem_cons.mp h with h | h
    · exact .inr (by simp [h])
    · rcases mem_replace h with h | h
      · exact .inl h
      · exact .inr (mem_cons_of_mem _ h)

end Uri

end Cockpit.Lib
