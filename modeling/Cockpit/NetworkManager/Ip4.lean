import Mathlib

namespace Cockpit.NetworkManager

open List Nat

/-!
# The IPv4 addresses of `src/pkg/networkmanager/utils.js`

A text is a list of UTF-16 code units.

* `ip4_exact` — addresses go through text and back, and netmasks are read exactly where no part is
  taken from `Object.prototype` and none is a padded number.
-/

/-- The white space of `trim` and `parseInt`. -/
def isSpace (u : Nat) : Bool :=
  9 ≤ u && u ≤ 13 || 0x2000 ≤ u && u ≤ 0x200A ||
    [32, 0xA0, 0x1680, 0x2028, 0x2029, 0x202F, 0x205F, 0x3000, 0xFEFF].contains u

variable (s : List Nat)

def trim : List Nat := ((s.dropWhile isSpace).reverse.dropWhile isSpace).reverse

def isDigit (u : Nat) : Bool := 48 ≤ u && u ≤ 57

/-- The number that digits stand for. -/
def value (ds : List Nat) : Nat := ds.foldl (fun n u => n * 10 + (u - 48)) 0

/-- `/^[0-9]+$/.test(s)` -/
def isNumber : Bool := !s.isEmpty && s.all isDigit

/-- `parseInt(s, 10)`, where digits come first behind the white space. -/
def parseInt : Nat := value ((s.dropWhile isSpace).takeWhile isDigit)

/-- `n.toString(10)` -/
def toDec (n : Nat) : List Nat := (toDigits 10 n).map Char.toNat

/-- The full stop. -/
def dot : Nat := 46

/-- `n` rounds of the loop of `bytes_from_nm32`. -/
def lowBytes : Nat → Nat → List Nat
  | 0, _ => []
  | n + 1, num => (num &&& 0xFF) :: lowBytes n ((num % 2 ^ 32) >>> 8)

variable (be : Bool)

/-- `bytes_from_nm32`, where `be` is `byteorder == "be"`. -/
def bytesFromNm32 (num : Nat) : List Nat :=
  if be then (lowBytes 4 num).reverse else lowBytes 4 num

/-- `ip4_to_text` -/
def ip4ToText (num : Nat) (zeroIsEmpty : Bool) : List Nat :=
  if num = 0 && zeroIsEmpty then []
  else [dot].intercalate ((bytesFromNm32 be num).map toDec)

/-- The function that is mapped over the parts in `ip4_from_text`. -/
def parseByte : Option Nat := if isNumber (trim s) then some (parseInt s) else none

/-- `shift` -/
def shift (num b : Nat) : Option Nat := if b > 0xFF then none else some (0x100 * num + b)

/-- `ip4_from_text`, where `none` is an exception. -/
def ip4FromText (text : List Nat) (emptyIsZero : Bool) : Option Nat :=
  if text = [] && emptyIsZero then some 0
  else if (text.splitOn dot).length ≠ 4 then none
  else do
    let bytes ← (text.splitOn dot).mapM parseByte
    (if be then bytes else bytes.reverse).foldlM shift 0

/-- `text_to_prefix_bits` -/
def textToPrefixBits : List (List Nat × Nat) :=
  [(toDec 255, 8), (toDec 254, 7), (toDec 252, 6), (toDec 248, 5), (toDec 240, 4), (toDec 224, 3),
    (toDec 192, 2), (toDec 128, 1), (toDec 0, 0)]

/-- The names that every object inherits. -/
def objectPrototype : List (List Nat) :=
  ["constructor", "hasOwnProperty", "isPrototypeOf", "propertyIsEnumerable", "toLocaleString",
    "toString", "valueOf", "__proto__", "__defineGetter__", "__defineSetter__",
    "__lookupGetter__", "__lookupSetter__"].map fun s => s.toList.map Char.toNat

/-- The sum of `ip4_prefix_from_text`: adding an inherited value makes it a string. -/
inductive Prefix where
  | number (p : Nat)
  | string
  deriving DecidableEq, Repr

def Prefix.add : Prefix → Nat → Prefix
  | .number sum, p => .number (sum + p)
  | .string, _ => .string

/-- The first loop of `ip4_prefix_from_text`, over the trimmed parts, with those that it leaves.
    An inherited value isn't below eight. -/
def prefixLoop (sum : Prefix) : List (List Nat) → Option (Prefix × List (List Nat))
  | [] => some (sum, [])
  | s :: parts =>
    match textToPrefixBits.lookup s with
    | some p => if p < 8 then some (sum.add p, parts) else prefixLoop (sum.add p) parts
    | none => if s ∈ objectPrototype then prefixLoop .string parts else none

/-- `/^0+$/.test(s)` -/
def isZero : Bool := !s.isEmpty && s.all (· == 48)

/-- `ip4_prefix_from_text`, where `none` is an exception. -/
def ip4PrefixFromText (text : List Nat) : Option Prefix :=
  if isNumber (trim text) then some (.number (parseInt text))
  else if (text.splitOn dot).length ≠ 4 then none
  else
    match prefixLoop (.number 0) ((text.splitOn dot).map trim) with
    | none => none
    | some (sum, rest) => if rest.all isZero then some sum else none

/-! ### Numbers -/

/-- A decimal number with white space around it. -/
def IsNumber (v : Nat) : Prop :=
  ∃ before ds after, s = before ++ ds ++ after ∧ (∀ u ∈ before, isSpace u) ∧
    (∀ u ∈ after, isSpace u) ∧ isNumber ds ∧ value ds = v

theorem not_isSpace_of_isDigit {u : Nat} (h : isDigit u) : ¬ isSpace u := by
  simp only [isDigit, isSpace, contains_eq_mem, Bool.and_eq_true, Bool.or_eq_true,
    decide_eq_true_eq, mem_cons, not_mem_nil, or_false] at h ⊢
  omega

/-- What `trim` leaves of a number are its digits. -/
theorem trim_number {before ds after : List Nat} (hbef : ∀ u ∈ before, isSpace u)
    (hafter : ∀ u ∈ after, isSpace u) (hds : isNumber ds) :
    trim (before ++ ds ++ after) = ds ∧ parseInt (before ++ ds ++ after) = value ds := by
  simp only [isNumber, Bool.and_eq_true, Bool.not_eq_true', isEmpty_eq_false_iff, all_eq_true] at hds
  have hstop : ∀ {ds r : List Nat}, ds ≠ [] → (∀ u ∈ ds, isDigit u) →
      (ds ++ r).dropWhile isSpace = ds ++ r := by
    intro ds r hne hdigs
    obtain ⟨d, ds, rfl⟩ := exists_cons_of_ne_nil hne
    exact dropWhile_cons_of_neg (not_isSpace_of_isDigit (hdigs d mem_cons_self))
  have hfront : (before ++ ds ++ after).dropWhile isSpace = ds ++ after := by
    rw [append_assoc, dropWhile_append_of_pos hbef, hstop hds.1 hds.2]
  have htake : (ds ++ after).takeWhile isDigit = ds := by
    rw [takeWhile_append_of_pos hds.2]
    cases after with
    | nil => exact append_nil ds
    | cons u after =>
      rw [takeWhile_cons_of_neg, append_nil]
      exact fun hu => not_isSpace_of_isDigit hu (hafter u mem_cons_self)
  have hback := hstop (r := []) (mt reverse_eq_nil_iff.mp hds.1)
    (fun u hu => hds.2 u (mem_reverse.mp hu))
  rw [append_nil] at hback
  refine ⟨?_, by rw [parseInt, hfront, htake]⟩
  rw [trim, hfront, reverse_append, dropWhile_append_of_pos (fun u hu => hafter u (mem_reverse.mp hu)),
    hback, reverse_reverse]

/-- `trim` takes white space off. -/
theorem exists_trim : ∃ before after, s = before ++ trim s ++ after ∧
    (∀ u ∈ before, isSpace u) ∧ ∀ u ∈ after, isSpace u := by
  refine ⟨s.takeWhile isSpace, ((s.dropWhile isSpace).reverse.takeWhile isSpace).reverse, ?_,
    fun u => mem_takeWhile_imp, fun u hu => mem_takeWhile_imp (mem_reverse.mp hu)⟩
  rw [trim, append_assoc, ← reverse_append, takeWhile_append_dropWhile, reverse_reverse,
    takeWhile_append_dropWhile]

variable {s vs text : List Nat} {v p : Nat}

theorem isNumber_iff :
    IsNumber s v ↔ isNumber (trim s) ∧ value (trim s) = v := by
  obtain ⟨before, after, hs, hbef, hafter⟩ := exists_trim s
  constructor
  · rintro ⟨before, ds, after, rfl, hbef, hafter, hds, rfl⟩
    rw [(trim_number hbef hafter hds).1]
    exact ⟨hds, rfl⟩
  · exact fun h => ⟨before, trim s, after, hs, hbef, hafter, h.1, h.2⟩

theorem parseByte_iff : parseByte s = some v ↔ IsNumber s v := by
  rw [isNumber_iff, parseByte]
  split
  · rename_i hnumber
    obtain ⟨before, after, hs, hbef, hafter⟩ := exists_trim s
    have hparse := (trim_number hbef hafter hnumber).2
    rw [← hs] at hparse
    simp [hnumber, hparse]
  · rename_i hnumber
    exact iff_of_false (by simp) fun h => hnumber h.1

/-- A number has no dot. -/
theorem IsNumber.dot_notMem (h : IsNumber s v) : dot ∉ s := by
  obtain ⟨before, ds, after, rfl, hbef, hafter, hds, -⟩ := h
  simp only [isNumber, Bool.and_eq_true, all_eq_true] at hds
  simp only [mem_append, not_or]
  refine ⟨⟨fun h => ?_, fun h => ?_⟩, fun h => ?_⟩
  · exact absurd (hbef dot h) (by decide)
  · exact absurd (hds.2 dot h) (by decide)
  · exact absurd (hafter dot h) (by decide)

variable {ss ts : List (List Nat)}

/-- Four numbers up to 255 with dots in between. -/
def IsAddress (text : List Nat) (vs : List Nat) : Prop :=
  ∃ ss, text = [dot].intercalate ss ∧ ss.length = 4 ∧ Forall₂ IsNumber ss vs ∧ ∀ v ∈ vs, v ≤ 255

/-- The parts of an address are what `split` gives. -/
theorem isAddress_iff : IsAddress text vs ↔
    (text.splitOn dot).length = 4 ∧ Forall₂ IsNumber (text.splitOn dot) vs ∧
      ∀ v ∈ vs, v ≤ 255 := by
  constructor
  · rintro ⟨ss, rfl, hlen, hnums, hle⟩
    have hsplit : ([dot].intercalate ss).splitOn dot = ss := by
      have hdots := (forall₂_and_left ss vs).mp (hnums.imp fun s v h => ⟨h.dot_notMem, h⟩)
      exact splitOn_intercalate dot hdots.1 (by rintro rfl; cases hlen)
    rw [hsplit]
    exact ⟨hlen, hnums, hle⟩
  · rintro ⟨hlen, hnums, hle⟩
    exact ⟨_, (intercalate_splitOn dot).symm, hlen, hnums, hle⟩

/-! ### Addresses -/

theorem mapM_parseByte :
    ss.mapM parseByte = some vs ↔ Forall₂ IsNumber ss vs := by
  induction ss generalizing vs with
  | nil => simp [eq_comm]
  | cons s ss ih =>
    rw [mapM_cons]
    constructor
    · intro h
      obtain ⟨v, hv, h⟩ := Option.bind_eq_some_iff.mp h
      obtain ⟨vs', hvs', h⟩ := Option.bind_eq_some_iff.mp h
      cases h
      exact .cons (parseByte_iff.mp hv) (ih.mp hvs')
    · rintro (_ | ⟨hv, hvs⟩)
      rw [parseByte_iff.mpr hv, ih.mpr hvs]
      rfl

/-- `shift` refuses what is no byte. -/
theorem isSome_shift (bs : List Nat) (num : Nat) :
    (bs.foldlM shift num).isSome ↔ ∀ b ∈ bs, b ≤ 255 := by
  induction bs generalizing num with
  | nil => simp
  | cons b bs ih =>
    rw [foldlM_cons, shift, forall_mem_cons]
    split
    · exact ⟨nofun, fun h => absurd h.1 (by omega)⟩
    · rw [Option.bind_eq_bind, Option.bind_some, ih]
      exact ⟨fun h => ⟨by omega, h⟩, fun h => h.2⟩

/-- **`ip4_from_text` accepts the addresses.** -/
theorem isSome_ip4FromText (text : List Nat) :
    (ip4FromText be text false).isSome ↔ ∃ vs, IsAddress text vs := by
  rw [ip4FromText, if_neg (by simp)]
  simp only [isAddress_iff]
  split
  · exact ⟨nofun, fun ⟨vs, hlen, _⟩ => absurd hlen ‹_›⟩
  · rename_i hlen
    cases hbytes : (text.splitOn dot).mapM parseByte with
    | none =>
      refine ⟨nofun, fun ⟨vs, _, hvs, _⟩ => ?_⟩
      cases hbytes.symm.trans (mapM_parseByte.mpr hvs)
    | some bytes =>
      have hall : (∀ b ∈ if be then bytes else bytes.reverse, b ≤ 255) ↔ ∀ b ∈ bytes, b ≤ 255 := by
        split <;> simp
      rw [Option.bind_eq_bind, Option.bind_some, isSome_shift, hall]
      constructor
      · exact fun h => ⟨bytes, not_not.mp hlen, mapM_parseByte.mp hbytes, h⟩
      · rintro ⟨vs, -, hvs, hle⟩
        cases hbytes.symm.trans (mapM_parseByte.mpr hvs)
        exact hle

/-- Numerals are read back. -/
theorem isNumber_toDec (n : Nat) : isNumber (toDec n) ∧ value (toDec n) = n := by
  constructor
  · simp only [isNumber, toDec, Bool.and_eq_true, Bool.not_eq_true', isEmpty_eq_false_iff, ne_eq,
      map_eq_nil_iff, all_eq_true, forall_mem_map]
    refine ⟨toDigits_ne_nil, fun c hc => ?_⟩
    have hdigit := isDigit_of_mem_toDigits (by omega) (by omega) hc
    simpa [Char.isDigit, isDigit, Char.le_def, UInt32.le_iff_toNat_le] using hdigit
  · rw [value, toDec, foldl_map]
    refine Eq.trans ?_ ofDigitChars_ten_toDigits
    simp only [ofDigitChars_eq_foldl, mul_comm]
    rfl

theorem lowBytes_four (num : Nat) (h : num < 2 ^ 32) : lowBytes 4 num =
    [num % 256, num / 256 % 256, num / 65536 % 256, num / 16777216 % 256] := by
  have hand : ∀ n : Nat, n &&& 0xFF = n % 256 := fun n => and_two_pow_sub_one_eq_mod n 8
  simp only [lowBytes, hand, shiftRight_eq_div_pow]
  rw [mod_eq_of_lt h]
  simp only [cons.injEq, and_true, true_and]
  omega

/-- **Addresses go through text and back.** -/
theorem ip4_round_trip {num : Nat} (h : num < 2 ^ 32) :
    ip4FromText be (ip4ToText be num false) false = some num := by
  have hlow := lowBytes_four num h
  have hlt : ∀ b ∈ bytesFromNm32 be num, b < 256 := by
    intro b hb
    have hmem : b ∈ lowBytes 4 num := by
      unfold bytesFromNm32 at hb
      split at hb
      · exact mem_reverse.mp hb
      · exact hb
    rw [hlow] at hmem
    simp only [mem_cons, not_mem_nil, or_false] at hmem
    omega
  have hlen : (bytesFromNm32 be num).length = 4 := by
    rw [bytesFromNm32, hlow]
    split <;> rfl
  have haddress : IsAddress (ip4ToText be num false) (bytesFromNm32 be num) := by
    refine ⟨(bytesFromNm32 be num).map toDec, by simp [ip4ToText], by rw [length_map, hlen], ?_,
      fun b hb => le_of_lt_succ (hlt b hb)⟩
    rw [forall₂_map_left_iff, forall₂_same]
    exact fun b _ => ⟨[], toDec b, [], by simp, nofun, nofun, isNumber_toDec b⟩
  obtain ⟨hsplit, hnums, -⟩ := isAddress_iff.mp haddress
  -- the bytes are put together from the highest one down
  have horder : (if be then bytesFromNm32 be num else (bytesFromNm32 be num).reverse) =
      (lowBytes 4 num).reverse := by
    cases be <;> rfl
  rw [ip4FromText, if_neg (by simp), if_neg (not_not.mpr hsplit), mapM_parseByte.mpr hnums,
    Option.bind_eq_bind, Option.bind_some, horder, hlow]
  simp only [reverse_cons, reverse_nil, nil_append, cons_append, foldlM_cons, foldlM_nil, shift]
  have hmod : ∀ n : Nat, ¬ n % 256 > 0xFF := by omega
  simp only [hmod, if_false, Option.bind_eq_bind, Option.bind_some, Option.pure_def,
    Option.some.injEq]
  omega

/-! ### Netmasks -/

/-- A dotted netmask: its bits are `p` ones followed by zeros. -/
def IsNetmask (text : List Nat) (p : Nat) : Prop :=
  ∃ a b c d, IsAddress text [a, b, c, d] ∧ p ≤ 32 ∧
    ((a * 256 + b) * 256 + c) * 256 + d = 2 ^ 32 - 2 ^ (32 - p)

/-- Parts that the first loop goes on behind: `255` and inherited names. -/
def isFull (s : List Nat) : Bool := s = toDec 255 || objectPrototype.contains s

/-- The parts take a value from `Object.prototype`, and are fine otherwise. -/
def Inherits (parts : List (List Nat)) : Prop :=
  parts.length = 4 ∧ (∃ s ∈ parts.takeWhile isFull, s ∈ objectPrototype) ∧
    ∀ s rest, parts.dropWhile isFull = s :: rest →
      (textToPrefixBits.lookup s).isSome ∧ rest.all isZero

/-- The first part that isn't `255` isn't in the table. -/
def Padded (parts : List (List Nat)) : Prop :=
  ∃ s rest, parts.dropWhile (· = toDec 255) = s :: rest ∧ textToPrefixBits.lookup s = none

/-- What `ip4_prefix_from_text` makes of the first loop. -/
def finish : Option (Prefix × List (List Nat)) → Option Prefix
  | none => none
  | some (sum, rest) => if rest.all isZero then some sum else none

/-- The bits of a byte of a netmask. -/
def bitsOf (v : Nat) : Option Nat :=
  [(255, 8), (254, 7), (252, 6), (248, 5), (240, 4), (224, 3), (192, 2), (128, 1), (0, 0)].lookup v

/-- The bits of a netmask, by the numbers of its parts. -/
def maskBits : List Nat → Option Nat
  | [] => some 0
  | v :: vs =>
    match bitsOf v with
    | none => none
    | some p =>
      if p < 8 then if ∀ w ∈ vs, w = 0 then some p else none else (maskBits vs).map (p + ·)

theorem mem_of_lookup {α β : Type} [BEq α] [LawfulBEq α] {l : List (α × β)} {a : α} {b : β}
    (h : l.lookup a = some b) : (a, b) ∈ l := by
  obtain ⟨before, after, rfl, -⟩ := lookup_eq_some_iff.mp h
  exact mem_append_right before mem_cons_self

theorem bitsOf_eq_some (h : bitsOf v = some p) : p ≤ 8 ∧ v = 256 - 2 ^ (8 - p) := by
  have hall : ∀ entry ∈ [(255, 8), (254, 7), (252, 6), (248, 5), (240, 4), (224, 3), (192, 2),
      (128, 1), (0, 0)], entry.2 ≤ 8 ∧ entry.1 = 256 - 2 ^ (8 - entry.2) := by decide
  exact hall (v, p) (mem_of_lookup h)

/-- A netmask ends in its first part below 255. -/
theorem maskBits_cons : maskBits (v :: vs) = some p ↔
    (p < 8 ∧ v = 256 - 2 ^ (8 - p) ∧ ∀ w ∈ vs, w = 0) ∨
      v = 255 ∧ ∃ q, maskBits vs = some q ∧ p = 8 + q := by
  have hback : ∀ p < 8, bitsOf (256 - 2 ^ (8 - p)) = some p := by decide
  rw [maskBits]
  constructor
  · intro h
    split at h
    · cases h
    · rename_i q hq
      obtain ⟨hle, hv⟩ := bitsOf_eq_some hq
      split at h
      · split at h
        · cases h
          exact .inl ⟨‹_›, hv, ‹_›⟩
        · cases h
      · obtain ⟨q', hq', rfl⟩ := Option.map_eq_some_iff.mp h
        obtain rfl : q = 8 := by omega
        exact .inr ⟨hv, q', hq', rfl⟩
  · rintro (⟨hp, rfl, hzero⟩ | ⟨rfl, q, hq, rfl⟩)
    · rw [hback p hp]
      dsimp only
      rw [if_pos hp, if_pos hzero]
    · show (maskBits vs).map (8 + ·) = _
      rw [hq]
      rfl

/-- **The bits are ones followed by zeros.** -/
theorem maskBits_iff {a b c d : Nat} (ha : a ≤ 255) (hb : b ≤ 255) (hc : c ≤ 255) (hd : d ≤ 255) :
    maskBits [a, b, c, d] = some p ↔
      p ≤ 32 ∧ ((a * 256 + b) * 256 + c) * 256 + d = 2 ^ 32 - 2 ^ (32 - p) := by
  constructor
  · simp only [maskBits_cons, forall_mem_cons]
    rintro (⟨hp, rfl, rfl, rfl, rfl, -⟩ | ⟨rfl, q, ⟨hq, rfl, rfl, rfl, -⟩ | ⟨rfl, q,
      ⟨hq, rfl, rfl, -⟩ | ⟨rfl, q, ⟨hq, rfl, -⟩ | ⟨rfl, q, hq, rfl⟩, rfl⟩, rfl⟩, rfl⟩)
    · interval_cases p <;> decide
    · interval_cases q <;> decide
    · interval_cases q <;> decide
    · interval_cases q <;> decide
    · cases hq
      decide
  · rintro ⟨hp, hsum⟩
    have hall : ∀ p ≤ 32, maskBits [(2 ^ 32 - 2 ^ (32 - p)) / 16777216,
        (2 ^ 32 - 2 ^ (32 - p)) / 65536 % 256, (2 ^ 32 - 2 ^ (32 - p)) / 256 % 256,
        (2 ^ 32 - 2 ^ (32 - p)) % 256] = some p := by decide
    have hmask := hall p hp
    generalize 2 ^ 32 - 2 ^ (32 - p) = n at hsum hmask
    rwa [show n / 16777216 = a by omega, show n / 65536 % 256 = b by omega,
      show n / 256 % 256 = c by omega, show n % 256 = d by omega] at hmask

/-! ### The loops -/

/-- Zeros are what stands for zero. -/
theorem isZero_iff : isZero s ↔ isNumber s ∧ value s = 0 := by
  have hfold : ∀ n, (s.all isDigit ∧ s.foldl (fun n u => n * 10 + (u - 48)) n = 0) ↔
      n = 0 ∧ s.all (· == 48) := by
    induction s with
    | nil => simp
    | cons u s ih =>
      intro n
      have hu := ih (n * 10 + (u - 48))
      simp only [all_cons, Bool.and_eq_true, foldl_cons, and_assoc, hu, isDigit, decide_eq_true_eq,
        beq_iff_eq]
      constructor
      · rintro ⟨hle, hle', hnum, hall⟩
        exact ⟨by omega, by omega, hall⟩
      · rintro ⟨rfl, rfl, hall⟩
        exact ⟨by omega, by omega, by omega, hall⟩
  have hzero := hfold 0
  simp only [true_and] at hzero
  rw [isZero, isNumber, Bool.and_eq_true, Bool.and_eq_true, and_assoc, ← hzero]
  rfl

theorem not_isNumber_of_inherited : ∀ s ∈ objectPrototype, isNumber s = false := by decide +kernel

/-- The entries of the table are numbers below or at 255. -/
theorem lookup_table (h : textToPrefixBits.lookup s = some p) :
    isNumber s ∧ bitsOf (value s) = some p ∧ s ∉ objectPrototype ∧ (p < 8 ↔ s ≠ toDec 255) := by
  have hnumeral : ∃ v, s = toDec v ∧ bitsOf v = some p ∧ (p < 8 ↔ v ≠ 255) := by
    have hmem := mem_of_lookup h
    simp only [textToPrefixBits, mem_cons, not_mem_nil, or_false, Prod.mk.injEq] at hmem
    rcases hmem with ⟨rfl, rfl⟩ | ⟨rfl, rfl⟩ | ⟨rfl, rfl⟩ | ⟨rfl, rfl⟩ | ⟨rfl, rfl⟩ | ⟨rfl, rfl⟩ |
      ⟨rfl, rfl⟩ | ⟨rfl, rfl⟩ | ⟨rfl, rfl⟩ <;> exact ⟨_, rfl, rfl, by decide⟩
  obtain ⟨v, rfl, hbits, hlt⟩ := hnumeral
  obtain ⟨hnumber, hvalue⟩ := isNumber_toDec v
  refine ⟨hnumber, by rw [hvalue, hbits], fun hs => ?_,
    hlt.trans (not_congr ⟨fun h => h ▸ rfl, fun h => ?_⟩)⟩
  · rw [not_isNumber_of_inherited _ hs] at hnumber
    cases hnumber
  · rw [← hvalue, h, (isNumber_toDec 255).2]

theorem ne_of_lookup_none (h : textToPrefixBits.lookup s = none) : s ≠ toDec 255 := by
  rintro rfl
  cases h.symm.trans lookup_cons_self

/-- **What is returned as a string.** -/
theorem finish_string {sum : Prefix} :
    finish (prefixLoop sum ts) = some .string ↔
      (sum = .string ∨ ∃ s ∈ ts.takeWhile isFull, s ∈ objectPrototype) ∧
        ∀ s rest, ts.dropWhile isFull = s :: rest →
          (textToPrefixBits.lookup s).isSome ∧ rest.all isZero := by
  induction ts generalizing sum with
  | nil => simp [prefixLoop, finish]
  | cons s ts ih =>
    have hadd : ∀ p, sum.add p = .string ↔ sum = .string := by
      cases sum <;> simp [Prefix.add]
    rw [prefixLoop]
    cases hlook : textToPrefixBits.lookup s with
    | none =>
      dsimp only
      by_cases hs : s ∈ objectPrototype
      · have hfull : isFull s := by simp [isFull, hs]
        rw [if_pos hs, ih, takeWhile_cons_of_pos hfull, dropWhile_cons_of_pos hfull]
        simp [hs]
      · have hfull : ¬ isFull s := by simp [isFull, hs, ne_of_lookup_none hlook]
        rw [if_neg hs, dropWhile_cons_of_neg hfull]
        exact ⟨nofun, fun h => nomatch hlook ▸ (h.2 s ts rfl).1⟩
    | some p =>
      obtain ⟨-, -, hs, hlt⟩ := lookup_table hlook
      dsimp only
      by_cases hp : p < 8
      · have hfull : ¬ isFull s := by simp [isFull, hs, hlt.mp hp]
        rw [if_pos hp, dropWhile_cons_of_neg hfull, takeWhile_cons_of_neg hfull, finish]
        constructor
        · intro h
          split at h
          · refine ⟨.inl ((hadd p).mp (Option.some.inj h)), ?_⟩
            rintro _ _ ⟨⟩
            exact ⟨by rw [hlook]; rfl, ‹_›⟩
          · cases h
        · rintro ⟨hsum | ⟨_, hmem, -⟩, hrest⟩
          · rw [if_pos (hrest s ts rfl).2, (hadd p).mpr hsum]
          · cases hmem
      · have hfull : isFull s := by simp [isFull, not_not.mp (mt hlt.mpr hp)]
        rw [if_neg hp, ih, hadd, takeWhile_cons_of_pos hfull, dropWhile_cons_of_pos hfull]
        simp [hs]

/-- A string stays one. -/
theorem finish_string_ne (ts : List (List Nat)) (m : Nat) :
    finish (prefixLoop .string ts) ≠ some (.number m) := by
  induction ts with
  | nil => exact nofun
  | cons s ts ih =>
    rw [prefixLoop]
    split
    · split
      · rw [finish]
        split <;> exact nofun
      · exact ih
    · split
      · exact ih
      · exact nofun

/-- **What is returned as a number.** -/
theorem finish_number {n m : Nat} :
    finish (prefixLoop (.number n) ts) = some (.number m) ↔
      (∀ s ∈ ts, isNumber s) ∧ (∃ p, maskBits (ts.map value) = some p ∧ m = n + p) ∧
        ¬ Padded ts := by
  have hnil : ∀ {s : List Nat} {ts}, s ≠ toDec 255 →
      (Padded (s :: ts) ↔ textToPrefixBits.lookup s = none) := by
    intro s ts hne
    rw [Padded, dropWhile_cons_of_neg (by simp [hne])]
    exact ⟨fun ⟨_, _, heq, h⟩ => by cases heq; exact h, fun h => ⟨s, ts, rfl, h⟩⟩
  induction ts generalizing n m with
  | nil =>
    constructor
    · rintro ⟨⟩
      exact ⟨by simp, ⟨0, rfl, rfl⟩, fun ⟨_, _, h, _⟩ => nomatch h⟩
    · rintro ⟨-, ⟨p, ⟨⟩, rfl⟩, -⟩
      rfl
  | cons s ts ih =>
    rw [prefixLoop, forall_mem_cons, map_cons]
    cases hlook : textToPrefixBits.lookup s with
    | none =>
      refine iff_of_false ?_ fun h => h.2.2 ((hnil (ne_of_lookup_none hlook)).mpr hlook)
      dsimp only
      split
      · exact finish_string_ne ts m
      · exact nofun
    | some p =>
      obtain ⟨hnumber, hbits, -, hlt⟩ := lookup_table hlook
      rw [maskBits, hbits]
      dsimp only
      split
      · rename_i hp
        have hpadded : ¬ Padded (s :: ts) := by
          rw [hnil (hlt.mp hp), hlook]
          exact nofun
        have hzero : ts.all isZero ↔ (∀ s ∈ ts, isNumber s) ∧ ∀ w ∈ ts.map value, w = 0 := by
          simp only [all_eq_true, isZero_iff, forall_mem_map]
          exact forall₂_and
        rw [finish]
        constructor
        · intro h
          split at h
          · rename_i hz
            obtain ⟨hnums, hzeros⟩ := hzero.mp hz
            cases h
            exact ⟨⟨hnumber, hnums⟩, ⟨p, if_pos hzeros, rfl⟩, hpadded⟩
          · cases h
        · rintro ⟨⟨-, hnums⟩, ⟨q, hq, rfl⟩, -⟩
          split at hq
          · rename_i hzeros
            cases hq
            rw [if_pos (hzero.mpr ⟨hnums, hzeros⟩)]
            rfl
          · cases hq
      · rename_i hp
        have hs : s = toDec 255 := not_not.mp (mt hlt.mpr hp)
        have hp8 : p = 8 := by
          have := (bitsOf_eq_some hbits).1
          omega
        have hpadded : Padded (s :: ts) ↔ Padded ts := by
          rw [Padded, dropWhile_cons_of_pos (by simp [hs])]
          rfl
        refine ih.trans ?_
        rw [hpadded, hp8]
        constructor
        · rintro ⟨hnums, ⟨q, hq, rfl⟩, hno⟩
          exact ⟨⟨hnumber, hnums⟩, ⟨8 + q, by rw [hq]; rfl, add_assoc n 8 q⟩, hno⟩
        · rintro ⟨⟨-, hnums⟩, ⟨q, hq, rfl⟩, hno⟩
          obtain ⟨q', hq', rfl⟩ := Option.map_eq_some_iff.mp hq
          exact ⟨hnums, ⟨q', hq', (add_assoc n 8 q').symm⟩, hno⟩

/-- The trimmed parts of a text. -/
def trimmedParts (text : List Nat) : List (List Nat) := (text.splitOn dot).map trim

theorem forall₂_isNumber : Forall₂ IsNumber ss vs ↔
    (∀ s ∈ ss.map trim, isNumber s) ∧ (ss.map trim).map value = vs := by
  induction ss generalizing vs with
  | nil => exact ⟨fun h => by cases h; simp, fun h => h.2 ▸ .nil⟩
  | cons s ss ih =>
    rw [forall₂_cons_left_iff, map_cons, map_cons, forall_mem_cons]
    constructor
    · rintro ⟨v, vs, hv, hvs, rfl⟩
      obtain ⟨hnumber, rfl⟩ := isNumber_iff.mp hv
      obtain ⟨hnums, rfl⟩ := ih.mp hvs
      exact ⟨⟨hnumber, hnums⟩, rfl⟩
    · rintro ⟨⟨hnumber, hnums⟩, rfl⟩
      exact ⟨_, _, isNumber_iff.mpr ⟨hnumber, rfl⟩, ih.mpr ⟨hnums, rfl⟩, rfl⟩

theorem le_of_maskBits (h : maskBits vs = some p) :
    ∀ v ∈ vs, v ≤ 255 := by
  induction vs generalizing p with
  | nil => exact nofun
  | cons v vs ih =>
    rw [forall_mem_cons]
    rcases maskBits_cons.mp h with ⟨-, rfl, hzero⟩ | ⟨rfl, q, hq, -⟩
    · have := Nat.two_pow_pos (8 - p)
      exact ⟨by omega, fun w hw => by rw [hzero w hw]; omega⟩
    · exact ⟨le_refl _, ih hq⟩

theorem isNetmask_iff : IsNetmask text p ↔
    (text.splitOn dot).length = 4 ∧ (∀ s ∈ trimmedParts text, isNumber s) ∧
      maskBits ((trimmedParts text).map value) = some p := by
  constructor
  · rintro ⟨a, b, c, d, haddress, hmask⟩
    obtain ⟨hlen, hnums, hle⟩ := isAddress_iff.mp haddress
    obtain ⟨hnums, hvalues⟩ := forall₂_isNumber.mp hnums
    refine ⟨hlen, hnums, ?_⟩
    simp only [forall_mem_cons] at hle
    rw [trimmedParts, hvalues]
    exact (maskBits_iff hle.1 hle.2.1 hle.2.2.1 hle.2.2.2.1).mpr hmask
  · rintro ⟨hlen, hnums, hbits⟩
    have hle := le_of_maskBits hbits
    generalize hvs : (trimmedParts text).map value = vs at hbits hle
    have hlen4 : vs.length = 4 := by rw [← hvs, length_map, trimmedParts, length_map, hlen]
    match vs, hlen4 with
    | [a, b, c, d], _ =>
      refine ⟨a, b, c, d, isAddress_iff.mpr ⟨hlen, forall₂_isNumber.mpr ⟨hnums, hvs⟩, hle⟩, ?_⟩
      simp only [forall_mem_cons] at hle
      exact (maskBits_iff hle.1 hle.2.1 hle.2.2.1 hle.2.2.2.1).mp hbits

/-- `ip4_prefix_from_text` returns for the netmasks only, and their prefix. -/
def ReadsNetmask (text : List Nat) : Prop :=
  ∀ r, ip4PrefixFromText text = some r ↔ ∃ p, r = .number p ∧ IsNetmask text p

/-- **Addresses and netmasks are parsed exactly**, but for netmasks where a part is a name that
    objects inherit, or where a number of the mask is padded with zeros. -/
theorem ip4_exact (be : Bool) (text : List Nat) :
    (∀ num < 2 ^ 32, ip4FromText be (ip4ToText be num false) false = some num) ∧
    ((ip4FromText be text false).isSome ↔ ∃ vs, IsAddress text vs) ∧
    (dot ∈ text → (ReadsNetmask text ↔ ¬ Inherits (trimmedParts text) ∧
      ¬ (Padded (trimmedParts text) ∧ ∃ p, IsNetmask text p))) := by
  refine ⟨fun num h => ip4_round_trip be h, isSome_ip4FromText be text, fun hdot => ?_⟩
  have htext : ip4PrefixFromText text = if (text.splitOn dot).length ≠ 4 then none
      else finish (prefixLoop (.number 0) (trimmedParts text)) := by
    have hno : ¬ isNumber (trim text) := by
      intro h
      exact (isNumber_iff.mpr ⟨h, rfl⟩).dot_notMem hdot
    rw [ip4PrefixFromText, if_neg hno]
    split
    · rfl
    · unfold finish trimmedParts
      rfl
  rw [ReadsNetmask, htext]
  simp only [isNetmask_iff]
  by_cases hlen : (text.splitOn dot).length = 4
  · rw [if_neg (not_not.mpr hlen)]
    have hinherits : finish (prefixLoop (.number 0) (trimmedParts text)) = some .string ↔
        Inherits (trimmedParts text) := by
      rw [finish_string, Inherits, trimmedParts, length_map]
      exact ⟨fun h => ⟨hlen, h.1.resolve_left nofun, h.2⟩, fun h => ⟨.inr h.2.1, h.2.2⟩⟩
    constructor
    · intro h
      refine ⟨fun hbad => ?_, fun ⟨hpadded, p, _, hnumbers, hbits⟩ => ?_⟩
      · obtain ⟨p, hp, -⟩ := (h .string).mp (hinherits.mpr hbad)
        cases hp
      · exact (finish_number.mp ((h (.number p)).mpr ⟨p, rfl, hlen, hnumbers, hbits⟩)).2.2 hpadded
    · rintro ⟨hno, hpadded⟩ r
      cases r with
      | string =>
        rw [hinherits]
        exact iff_of_false hno fun ⟨p, hp, _⟩ => nomatch hp
      | number m =>
        rw [finish_number]
        simp only [zero_add]
        constructor
        · rintro ⟨hnumbers, ⟨p, hp, rfl⟩, -⟩
          exact ⟨m, rfl, hlen, hnumbers, hp⟩
        · rintro ⟨p, ⟨⟩, -, hnumbers, hbits⟩
          exact ⟨hnumbers, ⟨m, hbits, rfl⟩, fun h => hpadded ⟨h, m, hlen, hnumbers, hbits⟩⟩
  · rw [if_pos hlen]
    refine iff_of_true (fun r => iff_of_false nofun fun h => ?_) ⟨fun h => ?_, fun h => ?_⟩
    · obtain ⟨p, -, hlen', -⟩ := h
      exact hlen hlen'
    · rw [Inherits, trimmedParts, length_map] at h
      exact hlen h.1
    · obtain ⟨-, p, hlen', -⟩ := h
      exact hlen hlen'

/-- Objects inherit a constructor. -/
theorem not_ip4_exact : ¬ ∀ text, dot ∈ text → ReadsNetmask text := by
  intro h
  obtain ⟨p, hp, -⟩ := (h ("constructor.0.0.0".toList.map Char.toNat) (by decide) .string).mp
    (by decide +kernel)
  cases hp

end Cockpit.NetworkManager
