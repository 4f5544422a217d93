import Cockpit.Common.GLib
import Cockpit.Common.JsonEqual
import Cockpit.Lib.Decimal
import Cockpit.Lib.JsonText

namespace Cockpit

open List Char Prod

/-!
# `cockpit_json_write`

A tree is written as a JSON text: the dump functions place commas, names and nulls, and strings are
escaped byte by byte.

* `Json.dump_reads` — what is written for a tree is a text that stands for it;
* `Json.write_iff` — for which trees that is so.
-/

open Lib (decimal)
open Lib.JsonText

namespace Json

/-- A string as it is in memory. -/
def bytes (s : String) : Bytes := encode s.toList

/-- A `gchar` is signed. -/
def gchar (b : UInt8) : Int := if b.toNat < 128 then b.toNat else b.toNat - 256

/-- A digit of `%x` -/
def hexDigit (n : Nat) : UInt8 := if n < 10 then UInt8.ofNat (48 + n) else UInt8.ofNat (87 + n)

/-- What `json_strescape` makes of a byte. -/
def escape (p : UInt8) : Bytes :=
  if p = 92 ∨ p = 34 then [92, p]
  else if (0 < gchar p ∧ gchar p < 0x1f) ∨ gchar p = 0x7f then
    match p with
    | 8 => bytes "\\b"
    | 12 => bytes "\\f"
    | 10 => bytes "\\n"
    | 13 => bytes "\\r"
    | 9 => bytes "\\t"
    | _ => bytes "\\u00" ++ [hexDigit (p.toNat / 16), hexDigit (p.toNat % 16)]
  else [p]

/-- `json_strescape` -/
def strescape (str : Bytes) : Bytes := (str.takeWhile (· ≠ 0)).flatMap escape

/-- A name that is there is put out first. -/
def label : Option Bytes → Bytes
  | none => []
  | some name => bytes "\"" ++ name ++ bytes "\":"

/-- `%ld` -/
def printInt (n : Int) : Bytes := if n < 0 then 45 :: decimal n.natAbs else decimal n.natAbs

/-- `dump_value` -/
def dumpValue (name : Option Bytes) (node : Json) : Bytes :=
  label name ++
    match node with
    | .int n => printInt n
    | .bool b => if b then bytes "true" else bytes "false"
    | .string s => bytes "\"" ++ strescape (bytes s) ++ bytes "\""
    -- not reached
    | _ => []

mutual

/-- `dump_array` -/
def dumpArray (name : Option Bytes) (elements : List Json) : Bytes :=
  label name ++ bytes "[" ++ dumpElements elements ++ bytes "]"
  termination_by (sizeOf elements, 1)

/-- The loop of `dump_array`. -/
def dumpElements : List Json → Bytes
  | [] => []
  | cur :: rest => dump none cur ++ (if rest.isEmpty then [] else bytes ",") ++ dumpElements rest
  termination_by elements => (sizeOf elements, 0)

/-- What the loops put out for a node, by its type. -/
def dump (name : Option Bytes) (cur : Json) : Bytes :=
  match cur with
  | .null => label name ++ bytes "null"
  | .array elements => dumpArray name elements
  | .object members => dumpObject name members
  | value => dumpValue name value
  termination_by (sizeOf cur, 0)

/-- `dump_object` -/
def dumpObject (name : Option Bytes) (members : JsonObject) : Bytes :=
  label name ++ bytes "\x7b" ++ dumpMembers members (members.map fst) ++ bytes "\x7d"
  termination_by (sizeOf members, members.length + 1)

/-- The loop of `dump_object`. -/
def dumpMembers (members : JsonObject) : List String → Bytes
  | [] => []
  | name :: rest =>
    (match h : members.getMember name with
      | some cur =>
        have := sizeOf_getMember h
        dump (some (strescape (bytes name))) cur
      | none => []) ++ (if rest.isEmpty then [] else bytes ",") ++ dumpMembers members rest
  termination_by names => (sizeOf members, names.length)

end

/-- `cockpit_json_write`: the text, and what is stored as its length. -/
def write : Option Json → Option Bytes × Nat
  | none => (none, 0)
  | some (.array elements) => (some (dumpArray none elements), (dumpArray none elements).length)
  | some (.object members) => (some (dumpObject none members), (dumpObject none members).length)
  | some .null => (some (bytes "null"), 4)
  | some node => (some (dumpValue none node), (dumpValue none node).length)

mutual

/-- The tree that a text for a node is to stand for. -/
def toTree : Json → Tree
  | .null => .null
  | .bool b => .bool b
  | .int n => .number n
  | .string s => .string (s.toList.flatMap units)
  | .array elements => .array (toTrees elements)
  | .object members => .object (toMembers members)

def toTrees : List Json → List Tree
  | [] => []
  | node :: rest => toTree node :: toTrees rest

def toMembers : List (String × Json) → List (List Nat × Tree)
  | [] => []
  | (name, node) :: rest => (name.toList.flatMap units, toTree node) :: toMembers rest

end

/-- A node is in a tree. -/
inductive Within : Json → Json → Prop where
  | refl (a : Json) : Within a a
  | element {a b : Json} {elements : List Json} (hb : b ∈ elements) (h : Within a b) :
      Within a (.array elements)
  | member {a : Json} {member : String × Json} {members : JsonObject}
      (hmember : member ∈ members) (h : Within a member.2) : Within a (.object members)

/-- A character of a string, or of the name of a member. -/
def Holds (c : Char) : Json → Prop
  | .string s => c ∈ s.toList
  | .object members => ∃ member ∈ members, c ∈ member.1.toList
  | _ => False

/-- A character of a string or of a name that is in a tree. -/
def Has (c : Char) (node : Json) : Prop := ∃ a, Within a node ∧ Holds c a

end Json

/-- A tree as json-glib holds it: an object has no two members of one name, and strings end at a
    NUL. -/
structure JsonNode where
  json : Json
  distinct : ∀ members, Json.Within (.object members) json → (members.map fst).Nodup
  noNul : ¬ json.Has '\x00'

namespace Json

/-! ### Strings -/

variable {b : UInt8}

theorem gchar_of_le (h : 128 ≤ b.toNat) : gchar b < 0 := by
  have := b.toNat_lt
  unfold gchar
  rw [if_neg (by omega)]
  omega

/-- Bytes that are no ASCII are left alone. -/
theorem escape_of_le (h : 128 ≤ b.toNat) : escape b = [b] := by
  have hneg := gchar_of_le h
  have hquote : ¬(b = 92 ∨ b = 34) := by
    rintro (rfl | rfl) <;> exact nomatch h
  unfold escape
  rw [if_neg hquote, if_neg (by omega)]

/-- The characters of an ASCII text. -/
def chars (b : Bytes) : List Char := b.map fun b => ofNat b.toNat

/-- What one character of a string stands for, where it does. -/
def lexeme : List Char → Option (List Nat)
  | [c] => if ' ' ≤ c ∧ c ≠ '"' ∧ c ≠ '\\' then some (units c) else none
  | ['\\', c] => (escaped c).map ([·])
  | ['\\', 'u', a, b, c, d] => (hex4 a b c d).map ([·])
  | _ => none

variable {s : List Char}

theorem chars_of_lexeme {e : List Char} {n u : List Nat} {r : List Char}
    (he : lexeme e = some n) (h : Chars s u r) : Chars (e ++ s) (n ++ u) r := by
  unfold lexeme at he
  split at he
  · split at he
    · next hc =>
      cases he
      exact .unescaped hc.1 hc.2.1 hc.2.2 h
    · cases he
  · obtain ⟨m, hm, rfl⟩ := Option.map_eq_some_iff.mp he
    exact .escape hm h
  · obtain ⟨m, hm, rfl⟩ := Option.map_eq_some_iff.mp he
    exact .hex hm h
  · cases he

/-- The escapes of ASCII characters: U+001F has none. -/
theorem escape_table : ∀ n < 128, n ≠ 0 → n ≠ 31 →
    encode (chars (escape (UInt8.ofNat n))) = escape (UInt8.ofNat n) ∧
      lexeme (chars (escape (UInt8.ofNat n))) = some [n] := by
  decide

variable {c : Char}

/-- **What a character is written as** stands for the character. -/
theorem escape_char (hnul : c ≠ '\x00') (hunit : c ≠ '\x1f') :
    ∃ e, (String.utf8EncodeChar c).flatMap escape = encode e ∧ lexeme e = some (units c) := by
  by_cases hc : c.toNat < 128
  · have hne : c.toNat ≠ 0 ∧ c.toNat ≠ 31 := by
      constructor
      · exact fun h => hnul (toNat_inj.mp h)
      · exact fun h => hunit (toNat_inj.mp h)
    obtain ⟨hascii, hlexeme⟩ := escape_table c.toNat hc hne.1 hne.2
    refine ⟨chars (escape (UInt8.ofNat c.toNat)), ?_, ?_⟩
    · rw [encode_ascii hc, hascii]
      simp
    · rw [hlexeme, units, if_pos (by omega)]
  refine ⟨[c], ?_, ?_⟩
  · rw [encode, flatMap_singleton]
    have hall : ∀ b ∈ String.utf8EncodeChar c, escape b = [b] :=
      fun b hb => escape_of_le (encode_rest (by omega) b hb)
    rw [flatMap_congr hall]
    exact flatMap_singleton' _
  have hle : ' ' ≤ c := by
    rw [le_def, UInt32.le_iff_toNat_le]
    show 32 ≤ c.toNat
    omega
  have hquote : c ≠ '"' ∧ c ≠ '\\' := by
    constructor
    all_goals
      rintro rfl
      exact hc (by decide)
  simp only [lexeme]
  rw [if_pos ⟨hle, hquote⟩]

/-- A string without NUL is read to its end. -/
theorem takeWhile_encode (h : '\x00' ∉ s) : (encode s).takeWhile (· ≠ 0) = encode s := by
  rw [takeWhile_eq_self_iff]
  intro b hb
  rw [decide_eq_true_eq]
  rintro rfl
  exact h ((@mem_encode '\x00' (by decide) s).mp hb)

/-- **What a string is written as** stands for the string. -/
theorem strescape_chars (hnul : '\x00' ∉ s) (hunit : '\x1f' ∉ s) :
    ∃ e, strescape (encode s) = encode e ∧ ∀ r, Chars (e ++ '"' :: r) (s.flatMap units) r := by
  unfold strescape
  rw [takeWhile_encode hnul]
  induction s with
  | nil => exact ⟨[], rfl, fun r => .close r⟩
  | cons c s ih =>
    rw [mem_cons, not_or] at hnul hunit
    obtain ⟨e, he, hc⟩ := escape_char (Ne.symm hnul.1) (Ne.symm hunit.1)
    obtain ⟨es, hes, hs⟩ := ih hnul.2 hunit.2
    refine ⟨e ++ es, ?_, fun r => ?_⟩
    · rw [encode_append, ← he, ← hes, ← flatMap_append]
      rfl
    · rw [append_assoc, flatMap_cons]
      exact chars_of_lexeme hc (hs r)

/-! ### Numbers -/

theorem encode_chars {b : Bytes} (h : ∀ x ∈ b, x.toNat < 128) : encode (chars b) = b := by
  induction b with
  | nil => rfl
  | cons x b ih =>
    rw [forall_mem_cons] at h
    have hx : (ofNat x.toNat).toNat = x.toNat := by
      rw [ofNat, dif_pos (.inl (by omega))]
      rfl
    show String.utf8EncodeChar (ofNat x.toNat) ++ encode (chars b) = x :: b
    rw [ih h.2, encode_ascii (by omega), hx, UInt8.ofNat_toNat]
    rfl

/-- The digits as characters. -/
theorem digit_table : ∀ d < 10, (Lib.digit d).toNat < 128 ∧
    (ofNat (Lib.digit d).toNat).isDigit ∧
    (ofNat (Lib.digit d).toNat).toNat - '0'.toNat = d ∧
    (ofNat (Lib.digit d).toNat = '0' → d = 0) := by
  decide

theorem decimal_ascii (n : Nat) : ∀ b ∈ decimal n, b.toNat < 128 := by
  intro b hb
  have hdigit := Lib.isDigit_of_mem_decimal b hb
  simp only [Lib.isDigit, Bool.and_eq_true, decide_eq_true_eq, UInt8.le_iff_toNat_le,
    UInt8.reduceToNat] at hdigit
  omega

theorem decimal_digits (n : Nat) :
    (∀ c ∈ chars (decimal n), c.isDigit) ∧ digitsValue (chars (decimal n)) = n ∧
      ∃ d ds, chars (decimal n) = d :: ds ∧ (d = '0' → n = 0) := by
  induction n using Lib.decimal.induct with
  | case1 n h =>
    obtain ⟨-, hdigit, hvalue, hzero⟩ := digit_table n h
    rw [decimal, if_pos h]
    refine ⟨?_, ?_, _, _, rfl, hzero⟩
    · simpa [chars] using hdigit
    · simpa [chars, digitsValue] using hvalue
  | case2 n h ih =>
    obtain ⟨hall, hvalue, d, ds, heq, hzero⟩ := ih
    obtain ⟨-, hdigit, hlast, -⟩ := digit_table (n % 10) (Nat.mod_lt n (by omega))
    have happend : chars (decimal n) =
        chars (decimal (n / 10)) ++ [ofNat (Lib.digit (n % 10)).toNat] := by
      rw [decimal, if_neg h, chars, map_append]
      rfl
    rw [happend]
    refine ⟨?_, ?_, d, ds ++ [ofNat (Lib.digit (n % 10)).toNat], ?_, fun h => ?_⟩
    · intro c hc
      rcases mem_append.mp hc with hc | hc
      · exact hall c hc
      · rw [mem_singleton.mp hc]
        exact hdigit
    · unfold digitsValue at hvalue ⊢
      rw [foldl_append, hvalue, foldl_cons, foldl_nil, hlast]
      omega
    · rw [heq]
      rfl
    · -- a number with more than one digit
      have := hzero h
      omega

theorem magnitude_digits {w : List Char} (h : ∀ c ∈ w, c.isDigit) :
    magnitude w = digitsValue w := by
  have htake : w.takeWhile isDigit = w := takeWhile_eq_self_iff.mpr h
  have hdrop : w.dropWhile isDigit = [] := dropWhile_eq_nil_iff.mpr h
  have hnone : digitsValue [] = 0 := rfl
  have hexp : signed [] = 0 := rfl
  unfold magnitude
  simp only [htake, hdrop, drop_nil, hnone, hexp]
  simp

/-- **What an integer is written as** is a number that stands for it. -/
theorem printInt_number (n : Int) :
    ∃ w, Number w ∧ printInt n = encode w ∧ numberValue w = n := by
  obtain ⟨hall, hvalue, d, ds, heq, hzero⟩ := decimal_digits n.natAbs
  have hencode := encode_chars (decimal_ascii n.natAbs)
  have hint : chars (decimal n.natAbs) = ['0'] ∨ ∃ d ds, chars (decimal n.natAbs) = d :: ds ∧
      d.isDigit ∧ d ≠ '0' ∧ ∀ c ∈ ds, c.isDigit := by
    by_cases h : n.natAbs = 0
    · left
      rw [h, decimal, if_pos (by omega)]
      decide
    right
    rw [heq] at hall ⊢
    rw [forall_mem_cons] at hall
    exact ⟨d, ds, rfl, hall.1, fun h0 => h (hzero h0), hall.2⟩
  by_cases hneg : n < 0
  · refine ⟨'-' :: chars (decimal n.natAbs), ?_, ?_, ?_⟩
    · exact ⟨['-'], _, [], [], by simp, .inr rfl, hint, .inl rfl, .inl rfl⟩
    · rw [printInt, if_pos hneg]
      show 45 :: decimal n.natAbs = 45 :: encode (chars (decimal n.natAbs))
      rw [hencode]
    show -magnitude (chars (decimal n.natAbs)) = n
    rw [magnitude_digits hall, hvalue]
    have hcast : ((n.natAbs : Int) : ℚ) = -n := by
      rw [← Int.cast_neg]
      congr 1
      omega
    rw [Int.cast_natCast] at hcast
    rw [hcast, neg_neg]
  refine ⟨chars (decimal n.natAbs), ?_, ?_, ?_⟩
  · exact ⟨[], _, [], [], by simp, .inl rfl, hint, .inl rfl, .inl rfl⟩
  · rw [printInt, if_neg hneg, hencode]
  have hdigit : d.isDigit := by
    rw [heq] at hall
    exact hall d mem_cons_self
  have hvalue' : numberValue (chars (decimal n.natAbs)) = magnitude (chars (decimal n.natAbs)) := by
    rw [heq]
    unfold numberValue
    split
    · next h =>
      obtain ⟨rfl, -⟩ := List.cons.inj h
      cases hdigit
    · rfl
  have hcast : ((n.natAbs : Int) : ℚ) = n := by
    congr 1
    omega
  rw [hvalue', magnitude_digits hall, hvalue, ← hcast, Int.cast_natCast]

/-! ### Trees -/

theorem toTrees_eq (elements : List Json) : toTrees elements = elements.map toTree := by
  induction elements with
  | nil => rfl
  | cons node rest ih => rw [toTrees, ih, map_cons]

theorem toMembers_eq (members : JsonObject) :
    toMembers members = members.map fun m => (m.1.toList.flatMap units, toTree m.2) := by
  induction members with
  | nil => rfl
  | cons member rest ih => rw [toMembers, ih, map_cons]

variable {members : JsonObject}

theorem sizeOf_snd_lt {member : String × Json} (h : member ∈ members) :
    sizeOf member.2 < sizeOf (object members) := by
  have hmem := sizeOf_lt_of_mem h
  have hsnd : sizeOf member.2 < sizeOf member := by
    cases member
    simp only [Prod.mk.sizeOf_spec]
    omega
  simp only [object.sizeOf_spec]
  omega

/-- Lists with the same images are the same, where that is so of what is in them. -/
theorem map_inj_on {α β : Type} {f : α → β} {xs ys : List α} (h : xs.map f = ys.map f)
    (hf : ∀ a ∈ xs, ∀ b, f a = f b → a = b) : xs = ys := by
  induction xs generalizing ys with
  | nil => exact (map_eq_nil_iff.mp h.symm).symm
  | cons a xs ih =>
    cases ys with
    | nil => cases h
    | cons b ys =>
      obtain ⟨hab, hrest⟩ := List.cons.inj h
      rw [hf a mem_cons_self b hab, ih hrest fun c hc => hf c (mem_cons_of_mem _ hc)]

variable {a : Json}

/-- **Different nodes have different trees.** -/
theorem toTree_inj {b : Json} (h : a.toTree = b.toTree) : a = b := by
  induction hsize : sizeOf a using Nat.strongRecOn generalizing a b with
  | ind n ih =>
    subst hsize
    cases a with
    | null | bool | int => cases b <;> simp_all [toTree]
    | string s =>
      cases b with
      | string s' =>
        simp only [toTree, Tree.string.injEq] at h
        rw [String.toList_inj.mp (flatMap_units_inj h)]
      | _ => simp [toTree] at h
    | array elements =>
      cases b with
      | array elements' =>
        simp only [toTree, toTrees_eq, Tree.array.injEq] at h
        rw [map_inj_on h fun c hc d hcd => ih _ (sizeOf_element hc) hcd rfl]
      | _ => simp [toTree] at h
    | object members =>
      cases b with
      | object members' =>
        simp only [toTree, toMembers_eq, Tree.object.injEq] at h
        rw [map_inj_on h fun m hm m' heq => ?_]
        obtain ⟨hname, hnode⟩ := Prod.mk.inj heq
        exact Prod.ext (String.toList_inj.mp (flatMap_units_inj hname))
          (ih _ (sizeOf_snd_lt hm) hnode rfl)
      | _ => simp [toTree] at h

/-! ### What is put out -/

theorem dump_label (name : Option Bytes) (node : Json) :
    dump name node = label name ++ dump none node := by
  cases node with
  | array => simp only [dump, dumpArray, label, append_assoc, nil_append]
  | object => simp only [dump, dumpObject, label, append_assoc, nil_append]
  | _ => simp only [dump, dumpValue, label, append_assoc, nil_append]

theorem dump_bool (b : Bool) :
    dump none (bool b) = if b then bytes "true" else bytes "false" := by
  simp only [dump, dumpValue, label, nil_append]

theorem dump_int (n : Int) : dump none (int n) = printInt n := by
  simp only [dump, dumpValue, label, nil_append]

theorem dump_string (s : String) :
    dump none (string s) = bytes "\"" ++ strescape (bytes s) ++ bytes "\"" := by
  simp only [dump, dumpValue, label, nil_append]

theorem write_eq (node : Json) : write (some node) = (some (dump none node), (dump none node).length) := by
  cases node with
  | null =>
    have h : dump none null = bytes "null" := by
      rw [dump]
      rfl
    rw [h]
    rfl
  | _ => simp only [write, dump]

theorem dumpMembers_cons {name : String} {cur : Json}
    (h : members.getMember name = some cur) (rest : List String) :
    dumpMembers members (name :: rest) = label (some (strescape (bytes name))) ++ dump none cur ++
      (if rest.isEmpty then [] else bytes ",") ++ dumpMembers members rest := by
  rw [dumpMembers, ← dump_label]
  split
  · next cur' h' =>
    rw [h] at h'
    cases h'
    rfl
  · next h' =>
    rw [h] at h'
    cases h'

/-- What is put out for a node is a text of it, whatever is behind. -/
def Written (node : Json) : Prop :=
  ∃ s, dump none node = encode s ∧ ∀ r, Reads .value (s ++ r) node.toTree r

variable {elements : List Json}

theorem elements_written (hne : elements ≠ [])
    (h : ∀ a ∈ elements, Written a) :
    ∃ s, dumpElements elements = encode s ∧
      ∀ r, Reads .elements (s ++ ']' :: r) (.array (toTrees elements)) r := by
  induction elements with
  | nil => exact absurd rfl hne
  | cons a rest ih =>
    obtain ⟨s, hs, hreads⟩ := h a mem_cons_self
    rw [dumpElements]
    cases rest with
    | nil =>
      refine ⟨s, ?_, fun r => .lastElement (hreads _) (Ws.refl _)⟩
      rw [hs, dumpElements]
      simp
    | cons b rest =>
      obtain ⟨s', hs', hreads'⟩ := ih (cons_ne_nil b rest)
        fun c hc => h c (mem_cons_of_mem _ hc)
      refine ⟨s ++ ',' :: s', ?_, fun r => ?_⟩
      · rw [hs, hs', encode_append]
        show encode s ++ encode [','] ++ encode s' = encode s ++ encode ([','] ++ s')
        rw [encode_append, append_assoc]
      · rw [append_assoc, toTrees]
        exact .element (hreads _) (Ws.refl _) (Ws.refl _) (hreads' r)

/-- A name and what is behind it. -/
theorem label_written {name : String} (hnul : '\x00' ∉ name.toList) (hunit : '\x1f' ∉ name.toList) :
    ∃ e, label (some (strescape (bytes name))) = encode ('"' :: e ++ ['"', ':']) ∧
      ∀ r, Chars (e ++ '"' :: r) (name.toList.flatMap units) r := by
  obtain ⟨e, he, hchars⟩ := strescape_chars hnul hunit
  refine ⟨e, ?_, hchars⟩
  show encode ['"'] ++ strescape (encode name.toList) ++ encode ['"', ':'] = _
  rw [he, ← encode_append, ← encode_append]
  rfl

theorem members_written {object : JsonObject} (hne : members ≠ [])
    (hget : ∀ m ∈ members, object.getMember m.1 = some m.2)
    (hnul : ∀ m ∈ members, '\x00' ∉ m.1.toList) (hunit : ∀ m ∈ members, '\x1f' ∉ m.1.toList)
    (h : ∀ m ∈ members, Written m.2) :
    ∃ s, dumpMembers object (members.map fst) = encode s ∧
      ∀ r, Reads .members (s ++ '}' :: r) (.object (toMembers members)) r := by
  induction members with
  | nil => exact absurd rfl hne
  | cons m rest ih =>
    obtain ⟨e, he, hname⟩ := label_written (hnul m mem_cons_self) (hunit m mem_cons_self)
    obtain ⟨s, hs, hreads⟩ := h m mem_cons_self
    rw [map_cons, dumpMembers_cons (hget m mem_cons_self), he, hs]
    cases rest with
    | nil =>
      refine ⟨'"' :: (e ++ ('"' :: ':' :: s)), ?_, fun r => ?_⟩
      · simp [dumpMembers, encode]
      · show Reads .members ('"' :: ((e ++ ('"' :: ':' :: s)) ++ _)) _ r
        rw [append_assoc]
        exact .lastMember (hname _) (Ws.refl _) (Ws.refl _) (hreads _) (Ws.refl _)
    | cons m' rest =>
      obtain ⟨s', hs', hreads'⟩ := ih (cons_ne_nil m' rest)
        (fun c hc => hget c (mem_cons_of_mem _ hc))
        (fun c hc => hnul c (mem_cons_of_mem _ hc))
        (fun c hc => hunit c (mem_cons_of_mem _ hc))
        (fun c hc => h c (mem_cons_of_mem _ hc))
      rw [hs']
      refine ⟨'"' :: (e ++ ('"' :: ':' :: (s ++ ',' :: s'))), ?_, fun r => ?_⟩
      · simp [encode, bytes]
      show Reads .members ('"' :: ((e ++ ('"' :: ':' :: (s ++ ',' :: s'))) ++ _)) _ r
      have hassoc : (e ++ ('"' :: ':' :: (s ++ ',' :: s'))) ++ '}' :: r =
          e ++ '"' :: (':' :: (s ++ ',' :: (s' ++ '}' :: r))) := by simp
      rw [hassoc, toMembers]
      exact .member (hname _) (Ws.refl _) (Ws.refl _) (hreads _) (Ws.refl _) (Ws.refl _) (hreads' r)

/-! ### Nodes in a tree -/

theorem Has.element (ha : a ∈ elements) (h : Has c a) : Has c (array elements) := by
  obtain ⟨b, hb, hc⟩ := h
  exact ⟨b, .element ha hb, hc⟩

variable {m : String × Json}

theorem Has.member (hm : m ∈ members) (h : Has c m.2) : Has c (object members) := by
  obtain ⟨b, hb, hc⟩ := h
  exact ⟨b, .member hm hb, hc⟩

theorem Has.name (hm : m ∈ members)
    (h : c ∈ m.1.toList) : Has c (object members) := ⟨_, .refl _, m, hm, h⟩

/-- The member that a name gives is the one that is listed with it. -/
theorem getMember_of_mem (h : (members.map fst).Nodup) (hm : m ∈ members) : members.getMember m.1 = some m.2 := by
  induction members with
  | nil => cases hm
  | cons first rest ih =>
    rw [map_cons, nodup_cons] at h
    unfold JsonObject.getMember at ih ⊢
    rcases mem_cons.mp hm with rfl | hm
    · simp
    have hne : first.1 ≠ m.1 := by
      intro heq
      rw [heq] at h
      exact h.1 (mem_map_of_mem hm)
    rw [find?_cons_of_neg (by simpa using hne)]
    exact ih h.2 hm

/-- **What is written for a tree** is a text that stands for it, when it has no U+001F. -/
theorem dump_reads {node : Json}
    (hdist : ∀ members, Within (.object members) node → (members.map fst).Nodup)
    (hnul : ¬ node.Has '\x00') (hunit : ¬ node.Has '\x1f') : Written node := by
  induction hsize : sizeOf node using Nat.strongRecOn generalizing node with
  | ind n ih =>
    subst hsize
    cases node with
    | null =>
      refine ⟨['n', 'u', 'l', 'l'], ?_, fun r => .literal .null r⟩
      rw [dump]
      rfl
    | bool b =>
      cases b with
      | true =>
        refine ⟨['t', 'r', 'u', 'e'], ?_, fun r => .literal .true r⟩
        rw [dump_bool]
        rfl
      | false =>
        refine ⟨['f', 'a', 'l', 's', 'e'], ?_, fun r => .literal .false r⟩
        rw [dump_bool]
        rfl
    | int n =>
      obtain ⟨w, hw, hprint, hvalue⟩ := printInt_number n
      refine ⟨w, ?_, fun r => ?_⟩
      · rw [dump_int, hprint]
      · rw [toTree, ← hvalue]
        exact .number hw r
    | string s =>
      have hs : ∀ {c}, ¬ Has c (string s) → c ∉ s.toList := fun hc hmem => hc ⟨_, .refl _, hmem⟩
      obtain ⟨e, he, hchars⟩ := strescape_chars (hs hnul) (hs hunit)
      refine ⟨'"' :: (e ++ ['"']), ?_, fun r => ?_⟩
      · rw [dump_string]
        show encode ['"'] ++ strescape (encode s.toList) ++ encode ['"'] = _
        rw [he, ← encode_append, ← encode_append]
        rfl
      · show Reads .value ('"' :: ((e ++ ['"']) ++ r)) _ r
        rw [append_assoc]
        exact .string (hchars r)
    | array elements =>
      have hall : ∀ a ∈ elements, Written a := by
        intro a ha
        refine ih _ (sizeOf_element ha) (fun members hmems => ?_) (fun h => ?_) (fun h => ?_) rfl
        · exact hdist members (.element ha hmems)
        · exact hnul (h.element ha)
        · exact hunit (h.element ha)
      cases helements : elements with
      | nil =>
        refine ⟨['[', ']'], ?_, fun r => .emptyArray (Ws.refl _)⟩
        rw [dump, dumpArray, dumpElements]
        rfl
      | cons a rest =>
        rw [← helements]
        obtain ⟨s, hs, hreads⟩ := elements_written (by rw [helements]; exact cons_ne_nil a rest) hall
        refine ⟨'[' :: (s ++ [']']), ?_, fun r => ?_⟩
        · rw [dump, dumpArray, hs]
          show encode ['['] ++ encode s ++ encode [']'] = _
          rw [← encode_append, ← encode_append]
          rfl
        · show Reads .value ('[' :: ((s ++ [']']) ++ r)) _ r
          rw [append_assoc]
          exact .array (Ws.refl _) (hreads r)
    | object members =>
      have hall : ∀ m ∈ members, Written m.2 := by
        intro m hm
        refine ih _ (sizeOf_snd_lt hm) (fun members hmems => ?_) (fun h => ?_) (fun h => ?_) rfl
        · exact hdist members (.member hm hmems)
        · exact hnul (h.member hm)
        · exact hunit (h.member hm)
      cases hmems : members with
      | nil =>
        refine ⟨['{', '}'], ?_, fun r => .emptyObject (Ws.refl _)⟩
        rw [dump, dumpObject]
        simp [dumpMembers, label, bytes, encode]
      | cons m rest =>
        rw [← hmems]
        obtain ⟨s, hs, hreads⟩ := members_written (by rw [hmems]; exact cons_ne_nil m rest)
          (fun m hm => getMember_of_mem (hdist members (.refl _)) hm)
          (fun m hm h => hnul (.name hm h)) (fun m hm h => hunit (.name hm h)) hall
        refine ⟨'{' :: (s ++ ['}']), ?_, fun r => ?_⟩
        · rw [dump, dumpObject, hs]
          show encode ['{'] ++ encode s ++ encode ['}'] = _
          rw [← encode_append, ← encode_append]
          rfl
        · show Reads .value ('{' :: ((s ++ ['}']) ++ r)) _ r
          rw [append_assoc]
          exact .object (Ws.refl _) (hreads r)

/-! ### U+001F is put out as it is -/

theorem mem_strescape (hnul : '\x00' ∉ s) (h : '\x1f' ∈ s) :
    31 ∈ strescape (encode s) := by
  have hmem : (31 : UInt8) ∈ encode s := (@mem_encode '\x1f' (by decide) s).mpr h
  unfold strescape
  rw [takeWhile_encode hnul]
  exact mem_flatMap.mpr ⟨31, hmem, by decide⟩

theorem mem_dump_element (ha : a ∈ elements)
    (hb : b ∈ dump none a) : b ∈ dumpElements elements := by
  induction elements with
  | nil => cases ha
  | cons first rest ih =>
    rw [dumpElements]
    rcases mem_cons.mp ha with rfl | ha
    · exact mem_append_left _ (mem_append_left _ hb)
    · exact mem_append_right _ (ih ha)

/-- What is put out for a member has its name and its value. -/
theorem mem_dump_member {object : JsonObject}
    (hget : ∀ m ∈ members, object.getMember m.1 = some m.2) (hm : m ∈ members) (hb : b ∈ strescape (bytes m.1) ∨ b ∈ dump none m.2) :
    b ∈ dumpMembers object (members.map fst) := by
  induction members with
  | nil => cases hm
  | cons first rest ih =>
    rw [map_cons, dumpMembers_cons (hget first mem_cons_self)]
    rcases mem_cons.mp hm with rfl | hm
    · simp only [label, mem_append]
      rcases hb with hb | hb
      · exact .inl (.inl (.inl (.inl (.inr hb))))
      · exact .inl (.inl (.inr hb))
    · exact mem_append_right _ (ih (fun c hc => hget c (mem_cons_of_mem _ hc)) hm)

theorem mem_dump_of_has {node : Json}
    (hdist : ∀ members, Within (.object members) node → (members.map fst).Nodup)
    (hnul : ¬ node.Has '\x00') (h : node.Has '\x1f') : 31 ∈ dump none node := by
  obtain ⟨a, hwithin, hholds⟩ := h
  induction hwithin with
  | refl =>
    cases a with
    | string s =>
      have hs : '\x00' ∉ s.toList := fun hc => hnul ⟨_, .refl _, hc⟩
      rw [dump_string]
      exact mem_append_left _ (mem_append_right _ (mem_strescape hs hholds))
    | object members =>
      obtain ⟨m, hm, hc⟩ := hholds
      have hs : '\x00' ∉ m.1.toList := fun h => hnul (.name hm h)
      have hmem := mem_dump_member (fun m hm => getMember_of_mem (hdist members (.refl _)) hm) hm
        (.inl (mem_strescape hs hc))
      rw [dump, dumpObject]
      exact mem_append_left _ (mem_append_right _ hmem)
    | _ => exact hholds.elim
  | element hb _ ih =>
    have hmem := ih (fun members h => hdist members (.element hb h))
      (fun h => hnul (h.element hb))
    rw [dump, dumpArray]
    exact mem_append_left _ (mem_append_right _ (mem_dump_element hb hmem))
  | member hm _ ih =>
    have hmem := ih (fun members h => hdist members (.member hm h))
      (fun h => hnul (h.member hm))
    have hmemb := mem_dump_member (fun m hm => getMember_of_mem (hdist _ (.refl _)) hm) hm
      (.inr hmem)
    rw [dump, dumpObject]
    exact mem_append_left _ (mem_append_right _ hmemb)

/-! ### Round trips -/

/-- Bytes that a conforming parser reads as a node. -/
def Means (out : Bytes) (node : Json) : Prop := ∃ s, out = encode s ∧ Text s node.toTree

/-- A text of the grammar, and a length, that come back as the node. -/
structure RoundTrips (node : Json) (out : Bytes) (length : Nat) : Prop where
  valid : ∃ s t, out = encode s ∧ Text s t
  means : ∃ node', Means out node'
  equal : ∀ node', Means out node' → Json.equal node' node
  length_eq : length = out.length

/-- U+001F is put out as it is, and so what is written is no text of the grammar. -/
theorem not_roundTrips {node : JsonNode} (hunit : node.json.Has '\x1f') {out : Bytes} {length : Nat}
    (heq : (write (some node.json)).1 = some out) : ¬ RoundTrips node.json out length := by
  intro hround
  rw [write_eq] at heq
  cases heq
  obtain ⟨s, t, hs, htext⟩ := hround.valid
  have hmem := mem_dump_of_has node.distinct node.noNul hunit
  rw [hs] at hmem
  exact htext.noControl (by decide) (by decide) ((@mem_encode '\x1f' (by decide) s).mp hmem)

/-- **A tree is written so that it comes back** just when it has no U+001F. -/
theorem write_iff (node : JsonNode) :
    (∃ out, (write (some node.json)).1 = some out ∧
      RoundTrips node.json out (write (some node.json)).2) ↔ ¬ node.json.Has '\x1f' := by
  constructor
  · rintro ⟨out, heq, hround⟩ hunit
    exact not_roundTrips hunit heq hround
  intro hunit
  rw [write_eq]
  obtain ⟨s, hs, hreads⟩ := dump_reads node.distinct node.noNul hunit
  have htext : Text s node.json.toTree := by
    have h := hreads []
    rw [append_nil] at h
    exact ⟨s, [], Ws.refl s, h, Ws.refl []⟩
  refine ⟨_, rfl, ⟨s, _, hs, htext⟩, ⟨node.json, s, hs, htext⟩, ?_, rfl⟩
  rintro node' ⟨s', hs', htext'⟩
  rw [hs] at hs'
  obtain rfl := encode_inj hs'
  rw [toTree_inj (htext'.unique htext)]
  exact equal_refl node.json

/-- A string of one character, U+001F. -/
def unitSeparator : JsonNode where
  json := .string "\x1f"
  distinct := by
    intro members h
    cases h
  noNul := by
    rintro ⟨a, h, hc⟩
    cases h
    change '\x00' ∈ "\x1f".toList at hc
    exact absurd hc (by decide)

/-- It is written as it is. -/
theorem not_write_unitSeparator :
    ¬ ∃ out, (write (some unitSeparator.json)).1 = some out ∧
      RoundTrips unitSeparator.json out (write (some unitSeparator.json)).2 := by
  rintro ⟨out, heq, hround⟩
  have hmem : '\x1f' ∈ "\x1f".toList := by decide
  have hunit : unitSeparator.json.Has '\x1f' := ⟨_, .refl _, hmem⟩
  exact not_roundTrips hunit heq hround

end Json

end Cockpit
