import Cockpit.Lib.Utf8

namespace Cockpit.Lib

open List Option Utf8 Nat UInt8

/-!
# Percent-encoded UTF-8 text

The functions `escape` and `decodeURIComponent` of ECMAScript, on strings of code units.  One after
the other they read a string of bytes as UTF-8:

* `Uri.textLen`, `Uri.front` — the well-formed sequence at the front of a byte list;
* `Uri.decode_escape_front`, `Uri.decode_escape_none` — how a string of bytes is read.
-/

namespace Uri

/-! ### Well-formed sequences -/

/-- The length of the well-formed sequence at the front, `0` if there is none. -/
def textLen : List UInt8 → Nat
  | [] => 0
  | b :: rest => if b = 0 then 1 else seqLen (b :: rest)

/-- The code point of a sequence. -/
def codePoint : List UInt8 → Nat
  | [a] => a.toNat
  | [a, b] => a.toNat % 32 * 64 + b.toNat % 64
  | [a, b, c] => a.toNat % 16 * 4096 + b.toNat % 64 * 64 + c.toNat % 64
  | [a, b, c, d] =>
    a.toNat % 8 * 262144 + b.toNat % 64 * 4096 + c.toNat % 64 * 64 + d.toNat % 64
  | _ => 0

/-- The code units of a code point. -/
def utf16 (point : Nat) : List Nat :=
  if point < 0x10000 then [point]
  else [0xD800 + (point - 0x10000) / 0x400, 0xDC00 + (point - 0x10000) % 0x400]

variable (xs : List UInt8)

/-- The code units for the sequence at the front. -/
def front : List Nat := utf16 (codePoint (xs.take (textLen xs)))

/-! ### The functions of ECMAScript -/

/-- A string with a code unit for every byte. -/
def raw : List Nat := xs.map (·.toNat)

/-- The digit for `n < 16`. -/
def hexDigit (n : Nat) : Nat := if n < 10 then 0x30 + n else 0x37 + n

def hexValue (c : Nat) : Option Nat :=
  if 0x30 ≤ c ∧ c ≤ 0x39 then some (c - 0x30)
  else if 0x41 ≤ c ∧ c ≤ 0x46 then some (c - 0x37)
  else if 0x61 ≤ c ∧ c ≤ 0x66 then some (c - 0x57)
  else none

/-- What `escape` leaves as it is: letters, digits and `@*_+-./` -/
def plain (c : Nat) : Bool :=
  0x41 ≤ c && c ≤ 0x5A || 0x61 ≤ c && c ≤ 0x7A || 0x30 ≤ c && c ≤ 0x39 || c == 0x40 ||
    0x2A ≤ c && c ≤ 0x2B || 0x2D ≤ c && c ≤ 0x2F || c == 0x5F

/-- One code unit in `escape`. -/
def escapeUnit (c : Nat) : List Nat :=
  if plain c then [c]
  else if c < 256 then [0x25, hexDigit (c / 16), hexDigit (c % 16)]
  else [0x25, 0x75, hexDigit (c / 4096), hexDigit (c / 256 % 16), hexDigit (c / 16 % 16),
    hexDigit (c % 16)]

/-- `escape` -/
def escape (s : List Nat) : List Nat := s.flatMap escapeUnit

/-- `%` and two digits. -/
def octet : List Nat → Option (UInt8 × List Nat)
  | percent :: high :: low :: rest =>
    if percent = 0x25 then do
      let h ← hexValue high
      let l ← hexValue low
      return (ofNat (16 * h + l), rest)
    else none
  | _ => none

/-- `n` octets. -/
def octets : Nat → List Nat → Option (List UInt8 × List Nat)
  | 0, s => some ([], s)
  | n + 1, s => do
    let (b, s) ← octet s
    let (bs, s) ← octets n s
    return (b :: bs, s)

/-- How many bits at the top of a byte are ones, up to five. -/
def leadingOnes (b : UInt8) : Nat :=
  if b < 0x80 then 0
  else if b < 0xC0 then 1
  else if b < 0xE0 then 2
  else if b < 0xF0 then 3
  else if b < 0xF8 then 4
  else 5

variable {b : UInt8} {s rest : List Nat}

theorem octet_length (h : octet s = some (b, rest)) :
    rest.length < s.length := by
  unfold octet at h
  split at h
  · split at h
    · simp only [bind_eq_bind, bind_eq_some_iff] at h
      obtain ⟨_, _, _, _, h⟩ := h
      cases h
      simp only [length_cons]
      omega
    · cases h
  · cases h

variable {n c : Nat}

theorem octets_length {bs : List UInt8}
    (h : octets n s = some (bs, rest)) : rest.length ≤ s.length := by
  induction n generalizing s bs with
  | zero => cases h; exact le_refl _
  | succ n ih =>
    simp only [octets, bind_eq_bind, bind_eq_some_iff, Prod.exists] at h
    obtain ⟨b, s', hb, bs', s'', hbs, h⟩ := h
    cases h
    exact le_trans (ih hbs) (le_of_lt (octet_length hb))

/-- `decodeURIComponent`, `none` where it throws. -/
def decodeURIComponent (s : List Nat) : Option (List Nat) :=
  match s with
  | [] => some []
  | c :: rest =>
    if c = 0x25 then
      match _h : octet (c :: rest) with
      | none => none
      | some (b, behind) =>
        if leadingOnes b = 0 then (decodeURIComponent behind).map (b.toNat :: ·)
        else if leadingOnes b = 1 ∨ 4 < leadingOnes b then none
        else
          match _h' : octets (leadingOnes b - 1) behind with
          | none => none
          | some (bs, behind') =>
            -- the octets are a well-formed sequence
            if textLen (b :: bs) = bs.length + 1 then
              (decodeURIComponent behind').map (utf16 (codePoint (b :: bs)) ++ ·)
            else none
    else (decodeURIComponent rest).map (c :: ·)
  termination_by s.length
  decreasing_by
    · exact octet_length ‹_›
    · exact lt_of_le_of_lt (octets_length ‹_›) (octet_length ‹_›)
    · simp

/-! ### Well-formed sequences, byte by byte -/

theorem textLen_cons (b : UInt8) (bs : List UInt8) :
    textLen (b :: bs) = if b = 0 then 1 else seqLen (b :: bs) := rfl

theorem textLen_of_lt (h : b.toNat < 0x80) (bs : List UInt8) :
    textLen (b :: bs) = 1 := by
  rw [textLen_cons]
  split
  · rfl
  rename_i hne
  have hlead : leadLen b = 1 := by
    rw [leadLen, if_neg hne, if_pos (lt_iff_toNat_lt.mpr h)]
  simp [seqLen, hlead]

theorem textLen_of_le (h : 0x80 ≤ b.toNat) (bs : List UInt8) :
    textLen (b :: bs) = seqLen (b :: bs) := by
  rw [textLen_cons, if_neg]
  rintro rfl
  exact nomatch h

/-- Only so many bytes announce so many. -/
theorem leadingOnes_of_leadLen (h : leadLen b = n) (hn : 2 ≤ n) :
    leadingOnes b = n ∧ 0x80 ≤ b.toNat ∧ n ≤ 4 := by
  subst h
  unfold leadLen at hn ⊢
  unfold leadingOnes
  simp only [lt_iff_toNat_lt, reduceToNat] at hn ⊢
  split_ifs at hn ⊢ <;> omega

theorem textLen_le : textLen xs ≤ xs.length := by
  cases xs with
  | nil => exact le_refl 0
  | cons b bs =>
    rw [textLen_cons]
    split
    · simp
    · exact seqLen_le _

variable (ys : List UInt8)

/-- What follows a sequence does not matter. -/
theorem textLen_append (h : 0 < textLen xs) :
    textLen (xs ++ ys) = textLen xs := by
  cases xs with
  | nil => exact absurd h (lt_irrefl 0)
  | cons b bs =>
    rw [cons_append, textLen_cons, textLen_cons]
    rw [textLen_cons] at h
    split
    · rfl
    · rename_i hne
      rw [if_neg hne] at h
      exact seqLen_append (b :: bs) ys h

theorem textLen_take (h : 0 < textLen xs) :
    textLen (xs.take (textLen xs)) = textLen xs := by
  cases xs with
  | nil => exact absurd h (lt_irrefl 0)
  | cons b bs =>
    rw [textLen_cons] at h ⊢
    split
    · rename_i hb
      simp [textLen_cons, hb]
    rename_i hne
    rw [if_neg hne] at h
    obtain ⟨n, hn⟩ : ∃ n, seqLen (b :: bs) = n + 1 := ⟨_, (succ_pred_eq_of_pos h).symm⟩
    have htake := seqLen_take (b :: bs) h
    rw [hn, take_succ_cons] at htake ⊢
    simpa [textLen_cons, hne] using htake

theorem front_append (h : 0 < textLen xs) : front (xs ++ ys) = front xs := by
  rw [front, front, textLen_append xs ys h, take_append_of_le_length (textLen_le xs)]

/-! ### Escaped bytes -/

@[simp] theorem raw_nil : raw [] = [] := rfl

@[simp] theorem raw_cons (b : UInt8) (bs : List UInt8) : raw (b :: bs) = b.toNat :: raw bs := rfl

@[simp] theorem raw_append : raw (xs ++ ys) = raw xs ++ raw ys :=
  map_append

@[simp] theorem length_raw : (raw xs).length = xs.length := length_map _

@[simp] theorem escape_nil : escape [] = [] := rfl

@[simp] theorem escape_cons (c : Nat) (s : List Nat) : escape (c :: s) = escapeUnit c ++ escape s :=
  flatMap_cons

theorem hexValue_hexDigit (h : n < 16) : hexValue (hexDigit n) = some n := by
  unfold hexDigit
  split
  · rw [hexValue, if_pos (by omega)]
    congr 1
    omega
  · rw [hexValue, if_neg (by omega), if_pos (by omega)]
    congr 1
    omega

/-- A percent sign is escaped, and so is what is not ASCII. -/
theorem plain_bounds (h : plain c) : c ≠ 0x25 ∧ c < 0x80 := by
  unfold plain at h
  simp only [Bool.or_eq_true, Bool.and_eq_true, decide_eq_true_eq, beq_iff_eq] at h
  omega

theorem escapeUnit_plain (h : plain c) : escapeUnit c = [c] := by
  rw [escapeUnit, if_pos h]

theorem octet_hexDigits (b : UInt8) (s : List Nat) :
    octet (37 :: hexDigit (b.toNat / 16) :: hexDigit (b.toNat % 16) :: s) = some (b, s) := by
  have hlt : b.toNat < 256 := b.toNat_lt
  have hback : ofNat (16 * (b.toNat / 16) + b.toNat % 16) = b := by
    rw [div_add_mod, UInt8.ofNat_toNat]
  simp only [octet, if_true, bind_eq_bind, hexValue_hexDigit (by omega : b.toNat / 16 < 16),
    hexValue_hexDigit (by omega : b.toNat % 16 < 16), bind_some, hback, Option.pure_def]

theorem octet_escapeUnit (h : plain b.toNat = false) (s : List Nat) :
    octet (escapeUnit b.toNat ++ s) = some (b, s) := by
  rw [escapeUnit, if_neg (by simp [h]), if_pos b.toNat_lt]
  exact octet_hexDigits b s

variable {xs : List UInt8}

/-- Octets are read from escaped bytes. -/
theorem octets_escape (hlen : n ≤ xs.length) (h : ∀ b ∈ xs.take n, plain b.toNat = false) :
    octets n (escape (raw xs)) = some (xs.take n, escape (raw (xs.drop n))) := by
  induction n generalizing xs with
  | zero => rfl
  | succ n ih =>
    cases xs with
    | nil => exact nomatch hlen
    | cons b bs =>
      have hb := h b (by simp)
      have hrest := ih (le_of_succ_le_succ hlen) fun c hc => h c (by simp [hc])
      simp [octets, octet_escapeUnit hb, hrest]

/-- Nothing else is read as octets. -/
theorem octets_escape_eq {ys : List UInt8} (h : octets n (escape (raw xs)) = some (ys, s)) :
    n ≤ xs.length ∧ ys = xs.take n ∧ s = escape (raw (xs.drop n)) := by
  induction n generalizing xs ys with
  | zero =>
    cases h
    exact ⟨zero_le _, rfl, rfl⟩
  | succ n ih =>
    simp only [octets, bind_eq_bind, bind_eq_some_iff, Prod.exists] at h
    obtain ⟨b, s', hb, bs, s'', hbs, h⟩ := h
    cases h
    cases xs with
    | nil => simp [octet] at hb
    | cons c cs =>
      rw [raw_cons, escape_cons] at hb
      cases hplain : plain c.toNat with
      | true =>
        -- a plain character is no percent sign
        rw [escapeUnit_plain hplain, singleton_append] at hb
        unfold octet at hb
        split at hb
        · rename_i heq
          rw [if_neg (by rw [← (List.cons.inj heq).1]; exact (plain_bounds hplain).1)] at hb
          cases hb
        · cases hb
      | false =>
        rw [octet_escapeUnit hplain] at hb
        cases hb
        obtain ⟨hle, rfl, rfl⟩ := ih hbs
        exact ⟨succ_le_succ hle, rfl, rfl⟩

/-! ### Reading a string of bytes -/

@[simp] theorem decode_nil : decodeURIComponent [] = some [] := by
  rw [decodeURIComponent]

theorem decode_plain (h : c ≠ 0x25) (s : List Nat) :
    decodeURIComponent (c :: s) = (decodeURIComponent s).map (c :: ·) := by
  rw [decodeURIComponent, if_neg h]

/-- An octet and what is behind it. -/
theorem decode_octet {t behind : List Nat} (h : octet (0x25 :: t) = some (b, behind)) :
    decodeURIComponent (0x25 :: t) =
      if leadingOnes b = 0 then (decodeURIComponent behind).map (b.toNat :: ·)
      else if leadingOnes b = 1 ∨ 4 < leadingOnes b then none
      else
        match octets (leadingOnes b - 1) behind with
        | none => none
        | some (bs, behind) =>
          if textLen (b :: bs) = bs.length + 1 then
            (decodeURIComponent behind).map (utf16 (codePoint (b :: bs)) ++ ·)
          else none := by
  rw [decodeURIComponent, if_pos rfl]
  split
  · rename_i hnone
    rw [h] at hnone
    cases hnone
  rename_i hsome
  rw [h] at hsome
  cases hsome
  split
  · rfl
  · split
    · rfl
    · split <;> simp_all

/-- An escaped byte. -/
theorem decode_escaped (h : plain b.toNat = false) (s : List Nat) :
    decodeURIComponent (escapeUnit b.toNat ++ s) =
      if leadingOnes b = 0 then (decodeURIComponent s).map (b.toNat :: ·)
      else if leadingOnes b = 1 ∨ 4 < leadingOnes b then none
      else
        match octets (leadingOnes b - 1) s with
        | none => none
        | some (bs, behind) =>
          if textLen (b :: bs) = bs.length + 1 then
            (decodeURIComponent behind).map (utf16 (codePoint (b :: bs)) ++ ·)
          else none := by
  have hoctet := octet_escapeUnit h s
  have hunit : ∃ t, escapeUnit b.toNat ++ s = 0x25 :: t := by
    rw [escapeUnit, if_neg (by simp [h]), if_pos b.toNat_lt]
    exact ⟨_, rfl⟩
  obtain ⟨t, ht⟩ := hunit
  rw [ht] at hoctet ⊢
  exact decode_octet hoctet

theorem decode_ascii (h : b.toNat < 0x80) (bs : List UInt8) :
    decodeURIComponent (escape (raw (b :: bs))) =
      (decodeURIComponent (escape (raw bs))).map (b.toNat :: ·) := by
  rw [raw_cons, escape_cons]
  cases hplain : plain b.toNat with
  | true => rw [escapeUnit_plain hplain]; exact decode_plain (plain_bounds hplain).1 _
  | false =>
    have hones : leadingOnes b = 0 := by
      rw [leadingOnes, if_pos (lt_iff_toNat_lt.mpr h)]
    rw [decode_escaped hplain, if_pos hones]

/-- **A well-formed sequence is read at once.** -/
theorem decode_escape_front (h : 0 < textLen xs) :
    decodeURIComponent (escape (raw xs)) =
      (decodeURIComponent (escape (raw (xs.drop (textLen xs))))).map (front xs ++ ·) := by
  cases xs with
  | nil => exact absurd h (Nat.lt_irrefl 0)
  | cons b bs =>
    by_cases hlt : b.toNat < 0x80
    · have hfront : front (b :: bs) = [b.toNat] := by
        have hpoint : codePoint ((b :: bs).take 1) = b.toNat := rfl
        rw [front, textLen_of_lt hlt, hpoint, utf16, if_pos (by omega)]
      rw [decode_ascii hlt, textLen_of_lt hlt, hfront]
      rfl
    have hge : 0x80 ≤ b.toNat := by omega
    have hplain : plain b.toNat = false := by
      by_contra hp
      exact hlt (plain_bounds (by simpa using hp)).2
    have hseq := textLen_of_le hge bs
    have hpos : 0 < seqLen (b :: bs) := hseq ▸ h
    have hlead : leadLen b = textLen (b :: bs) ∧ 2 ≤ textLen (b :: bs) := by
      rw [hseq]
      have h1 : leadLen b ≠ 1 := by
        intro h1
        rw [leadLen] at h1
        have h80 : ¬ b < 0x80 := fun h => hlt (lt_iff_toNat_lt.mp h)
        split_ifs at h1 <;> omega
      rcases seqLen_cases _ hpos with ⟨a, r, heq, hl, hn⟩ | ⟨a, c, r, heq, hl, -, hn⟩ |
        ⟨a, c, d, r, heq, hl, -, -, hn⟩ | ⟨a, c, d, e, r, heq, hl, -, -, -, hn⟩ <;>
        cases heq <;> omega
    obtain ⟨hones, -, hle⟩ := leadingOnes_of_leadLen hlead.1 hlead.2
    -- the bytes behind the first one are no ASCII characters
    have hcont : ∀ c ∈ bs.take (textLen (b :: bs) - 1), plain c.toNat = false := by
      intro c hc
      obtain ⟨k, hk⟩ := mem_iff_getElem?.mp hc
      rw [getElem?_take] at hk
      split at hk
      swap
      · cases hk
      obtain ⟨d, r, hdrop, hd⟩ := isCont_of_seqLen (succ_pos k)
        (show k + 1 < seqLen (b :: bs) by omega)
      have hget : bs[k]? = some d := by
        have hzero := congrArg (·[0]?) hdrop
        simpa [getElem?_drop] using hzero
      rw [hk] at hget
      cases hget
      by_contra hp
      have hlow := (plain_bounds (by simpa using hp)).2
      unfold isCont at hd
      simp only [Bool.and_eq_true, decide_eq_true_eq, le_iff_toNat_le, reduceToNat] at hd
      omega
    have hlen := textLen_le (b :: bs)
    rw [length_cons] at hlen
    rw [raw_cons, escape_cons, decode_escaped hplain, if_neg (by omega), if_neg (by omega), hones,
      octets_escape (by omega) hcont]
    obtain ⟨n, hn⟩ : ∃ n, textLen (b :: bs) = n + 1 := ⟨_, (succ_pred_eq_of_pos h).symm⟩
    have htake := textLen_take (b :: bs) h
    rw [front]
    rw [hn] at htake ⊢
    rw [take_succ_cons] at htake ⊢
    simp only [Nat.add_sub_cancel, drop_succ_cons]
    rw [if_pos (by rw [htake, length_take]; omega)]

/-- **Nothing else is read.** -/
theorem decode_escape_none (hne : xs ≠ []) (h : textLen xs = 0) :
    decodeURIComponent (escape (raw xs)) = none := by
  cases xs with
  | nil => exact absurd rfl hne
  | cons b bs =>
    have hge : 0x80 ≤ b.toNat := by
      by_contra hlt
      rw [textLen_of_lt (by omega)] at h
      omega
    have hplain : plain b.toNat = false := by
      by_contra hp
      have := (plain_bounds (by simpa using hp)).2
      omega
    rw [raw_cons, escape_cons, decode_escaped hplain, if_neg]
    · split
      · rfl
      split
      · rfl
      rename_i ys s hoctets
      obtain ⟨hle, rfl, rfl⟩ := octets_escape_eq hoctets
      -- octets that are a sequence would be one in front of the rest, too
      rw [if_neg]
      intro htext
      have happ := textLen_append (b :: bs.take (leadingOnes b - 1))
        (bs.drop (leadingOnes b - 1)) (by omega)
      rw [cons_append, take_append_drop, h] at happ
      omega
    · rw [leadingOnes, if_neg]
      · split_ifs <;> decide
      · exact fun hlt => absurd (lt_iff_toNat_lt.mp hlt) (not_lt.mpr hge)

/-! ### Parts of a string -/

section

variable (hc : hexValue c = none) (hne : c ≠ 0x25)

include hc hne

/-- No octet goes across a character that is no digit. -/
theorem octet_append (s t : List Nat) :
    octet (s ++ c :: t) = (octet s).map fun r => (r.1, r.2 ++ c :: t) := by
  match s with
  | [] =>
    have hnone : octet (c :: t) = none := by
      unfold octet
      split
      · rename_i heq
        rw [if_neg (by rw [← head_eq_of_cons_eq heq]; exact hne)]
      · rfl
    simpa [octet] using hnone
  | [x] =>
    have hnone : octet (x :: c :: t) = none := by
      cases t with
      | nil => rfl
      | cons z t =>
        rw [octet]
        split
        · simp [hc]
        · rfl
    simpa [octet] using hnone
  | [x, y] =>
    have hnone : octet (x :: y :: c :: t) = none := by
      rw [octet]
      split
      · cases hexValue y <;> simp [hc]
      · rfl
    simpa [octet] using hnone
  | x :: y :: z :: s =>
    simp only [cons_append, octet]
    split
    · cases hexValue y with
      | none => rfl
      | some h => cases hexValue z <;> rfl
    · rfl

theorem octets_append (n : Nat) (s t : List Nat) :
    octets n (s ++ c :: t) = (octets n s).map fun r => (r.1, r.2 ++ c :: t) := by
  induction n generalizing s with
  | zero => rfl
  | succ n ih =>
    simp only [octets, octet_append hc hne, bind_eq_bind]
    cases octet s with
    | none => rfl
    | some r =>
      simp only [map_some, bind_some, ih]
      cases octets n r.2 <;> rfl

/-- **What is on the two sides of a character that is no digit is read on its own.** -/
theorem decode_append (s t : List Nat) :
    decodeURIComponent (s ++ c :: t) =
      (decodeURIComponent s).bind fun x => (decodeURIComponent t).map fun y => x ++ c :: y := by
  induction h : s.length using Nat.strongRecOn generalizing s with
  | ind n ih =>
    cases s with
    | nil =>
      rw [nil_append, decode_plain hne, decode_nil]
      rfl
    | cons x s =>
      by_cases hx : x = 0x25
      · subst hx
        have happ := octet_append hc hne (0x25 :: s) t
        cases hoctet : octet (0x25 :: s) with
        | none =>
          rw [hoctet] at happ
          have hleft : decodeURIComponent (0x25 :: s ++ c :: t) = none := by
            rw [cons_append] at happ ⊢
            rw [decodeURIComponent, if_pos rfl]
            split <;> simp_all
          have hright : decodeURIComponent (0x25 :: s) = none := by
            rw [decodeURIComponent, if_pos rfl]
            split <;> simp_all
          rw [hleft, hright]
          rfl
        | some r =>
          obtain ⟨b, behind⟩ := r
          rw [hoctet] at happ
          have hlt := octet_length hoctet
          rw [decode_octet hoctet]
          rw [cons_append] at happ ⊢
          rw [decode_octet happ]
          split
          · -- an octet of its own
            rw [ih _ (h ▸ hlt) behind rfl]
            cases decodeURIComponent behind with
            | none => rfl
            | some x => cases decodeURIComponent t <;> rfl
          split
          · rfl
          rw [octets_append hc hne]
          cases hoctets : octets (leadingOnes b - 1) behind with
          | none => rfl
          | some r =>
            obtain ⟨bs, behind'⟩ := r
            have hle := octets_length hoctets
            simp only [map_some]
            split
            · rw [ih _ (h ▸ lt_of_le_of_lt hle hlt) behind' rfl]
              cases decodeURIComponent behind' with
              | none => rfl
              | some x => cases decodeURIComponent t <;> simp
            · rfl
      rw [cons_append, decode_plain hx, decode_plain hx, ih _ (h ▸ lt_succ_self _) s rfl]
      cases decodeURIComponent s with
      | none => rfl
      | some x => cases decodeURIComponent t <;> rfl

end

end Uri

end Cockpit.Lib
