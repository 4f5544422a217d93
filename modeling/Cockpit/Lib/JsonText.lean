import Mathlib

namespace Cockpit.Lib.JsonText

open List String Char UInt8

/-!
# JSON texts

The grammar of RFC 8259 over Unicode characters, and what its texts stand for.  A string stands for
UTF-16 code units, since the grammar has escapes for lone surrogates.

* `Text.noControl` — control characters other than white space are nowhere in a text;
* `flatMap_units_inj`, `encode_inj` — different strings are different in UTF-16 and in UTF-8.
-/

/-- What a text stands for. -/
inductive Tree where
  | null
  | bool (b : Bool)
  | number (q : ℚ)
  | string (units : List Nat)
  | array (elements : List Tree)
  | object (members : List (List Nat × Tree))

/-! ### Characters -/

variable (c : Char)

/-- `ws` is made of these. -/
def isWs : Bool := c == ' ' || c == '\t' || c == '\n' || c == '\r'

variable (s : List Char)

/-- White space, and what is behind it. -/
def Ws (r : List Char) : Prop := ∃ w, (∀ c ∈ w, isWs c) ∧ s = w ++ r

/-- The characters of numbers. -/
def isNumber : Bool :=
  c.isDigit || c == '-' || c == '+' || c == '.' || c == 'e' || c == 'E'

/-- The code units of a character in UTF-16. -/
def units : List Nat :=
  if c.toNat < 0x10000 then [c.toNat]
  else [0xD800 + (c.toNat - 0x10000) / 0x400, 0xDC00 + (c.toNat - 0x10000) % 0x400]

/-- What a backslash and a character stand for. -/
def escaped : Char → Option Nat
  | '"' => some 0x22
  | '\\' => some 0x5C
  | '/' => some 0x2F
  | 'b' => some 0x08
  | 'f' => some 0x0C
  | 'n' => some 0x0A
  | 'r' => some 0x0D
  | 't' => some 0x09
  | _ => none

/-- `HEXDIG` -/
def hexValue : Option Nat :=
  if '0' ≤ c ∧ c ≤ '9' then some (c.toNat - '0'.toNat)
  else if 'a' ≤ c ∧ c ≤ 'f' then some (c.toNat - 'a'.toNat + 10)
  else if 'A' ≤ c ∧ c ≤ 'F' then some (c.toNat - 'A'.toNat + 10)
  else none

/-- `4HEXDIG` -/
def hex4 (a b c d : Char) : Option Nat := do
  return (((← hexValue a) * 16 + (← hexValue b)) * 16 + (← hexValue c)) * 16 + (← hexValue d)

/-! ### Numbers -/

def digitsValue (ds : List Char) : Nat := ds.foldl (fun n d => n * 10 + (d.toNat - '0'.toNat)) 0

variable (w : List Char)

/-- `[ minus ] int [ frac ] [ exp ]` -/
def Number : Prop :=
  ∃ minus int frac exp, w = minus ++ int ++ frac ++ exp ∧ (minus = [] ∨ minus = ['-']) ∧
    (int = ['0'] ∨ ∃ d ds, int = d :: ds ∧ d.isDigit ∧ d ≠ '0' ∧
      ∀ c ∈ ds, c.isDigit) ∧
    (frac = [] ∨ ∃ ds, frac = '.' :: ds ∧ ds ≠ [] ∧ ∀ c ∈ ds, c.isDigit) ∧
    (exp = [] ∨ ∃ e sign ds, exp = e :: sign ++ ds ∧ (e = 'e' ∨ e = 'E') ∧
      (sign = [] ∨ sign = ['-'] ∨ sign = ['+']) ∧ ds ≠ [] ∧ ∀ c ∈ ds, c.isDigit)

/-- The number behind the sign, if there is one. -/
def signed : Int :=
  match w with
  | '-' :: ds => -(digitsValue ds : Int)
  | '+' :: ds => digitsValue ds
  | ds => digitsValue ds

/-- What digits with a fraction and an exponent stand for. -/
def magnitude : ℚ :=
  let int := w.takeWhile Char.isDigit
  let rest := w.dropWhile Char.isDigit
  let (frac, rest) : List Char × List Char :=
    match rest with
    | '.' :: ds => (ds.takeWhile Char.isDigit, ds.dropWhile Char.isDigit)
    | _ => ([], rest)
  (digitsValue int + digitsValue frac / 10 ^ frac.length) * 10 ^ signed (rest.drop 1)

/-- What a number stands for. -/
def numberValue : ℚ :=
  match w with
  | '-' :: w => -magnitude w
  | w => magnitude w

/-! ### The grammar -/

/-- The characters of a string, up to the quotation mark behind them. -/
inductive Chars : List Char → List Nat → List Char → Prop where
  | close (r : List Char) : Chars ('"' :: r) [] r
  | unescaped {c : Char} {s : List Char} {u : List Nat} {r : List Char} (hc : ' ' ≤ c)
      (hquote : c ≠ '"') (hbackslash : c ≠ '\\') (h : Chars s u r) : Chars (c :: s) (units c ++ u) r
  | escape {c : Char} {n : Nat} {s : List Char} {u : List Nat} {r : List Char}
      (hc : escaped c = some n) (h : Chars s u r) : Chars ('\\' :: c :: s) (n :: u) r
  | hex {a b c d : Char} {n : Nat} {s : List Char} {u : List Nat} {r : List Char}
      (hn : hex4 a b c d = some n) (h : Chars s u r) :
      Chars ('\\' :: 'u' :: a :: b :: c :: d :: s) (n :: u) r

/-- The parts of a text that have others in them. -/
inductive Part where
  | value
  /-- What is in an array behind the bracket, with the bracket that closes it. -/
  | elements
  /-- What is in an object behind the brace, with the brace that closes it. -/
  | members
  deriving DecidableEq

/-- `false`, `null` and `true` -/
inductive Literal : List Char → Tree → Prop where
  | null : Literal ['n', 'u', 'l', 'l'] .null
  | true : Literal ['t', 'r', 'u', 'e'] (.bool true)
  | false : Literal ['f', 'a', 'l', 's', 'e'] (.bool false)

/-- `s` begins with a part that stands for `t`, and `r` is behind it. -/
inductive Reads : Part → List Char → Tree → List Char → Prop where
  | literal {w : List Char} {t : Tree} (hw : Literal w t) (r : List Char) :
      Reads .value (w ++ r) t r
  | number {w : List Char} (hw : Number w) (r : List Char) :
      Reads .value (w ++ r) (.number (numberValue w)) r
  | string {s : List Char} {u : List Nat} {r : List Char} (h : Chars s u r) :
      Reads .value ('"' :: s) (.string u) r
  | emptyArray {s r : List Char} (h : Ws s (']' :: r)) : Reads .value ('[' :: s) (.array []) r
  | array {s s' r : List Char} {t : Tree} (hs : Ws s s') (h : Reads .elements s' t r) :
      Reads .value ('[' :: s) t r
  | emptyObject {s r : List Char} (h : Ws s ('}' :: r)) : Reads .value ('{' :: s) (.object []) r
  | object {s s' r : List Char} {t : Tree} (hs : Ws s s') (h : Reads .members s' t r) :
      Reads .value ('{' :: s) t r
  | lastElement {s s' r : List Char} {t : Tree} (h : Reads .value s t s') (hs : Ws s' (']' :: r)) :
      Reads .elements s (.array [t]) r
  | element {s s' s'' s''' r : List Char} {t : Tree} {ts : List Tree} (h : Reads .value s t s')
      (hs : Ws s' (',' :: s'')) (hs' : Ws s'' s''') (hts : Reads .elements s''' (.array ts) r) :
      Reads .elements s (.array (t :: ts)) r
  | lastMember {s s' s'' s''' s'''' r : List Char} {u : List Nat} {t : Tree} (hu : Chars s u s')
      (hs : Ws s' (':' :: s'')) (hs' : Ws s'' s''') (h : Reads .value s''' t s'''')
      (hs'' : Ws s'''' ('}' :: r)) : Reads .members ('"' :: s) (.object [(u, t)]) r
  | member {s s' s'' s''' s'''' q q' r : List Char} {u : List Nat} {t : Tree}
      {ts : List (List Nat × Tree)} (hu : Chars s u s') (hs : Ws s' (':' :: s''))
      (hs' : Ws s'' s''') (h : Reads .value s''' t s'''') (hq : Ws s'''' (',' :: q)) (hq' : Ws q q')
      (hts : Reads .members q' (.object ts) r) :
      Reads .members ('"' :: s) (.object ((u, t) :: ts)) r

/-- `ws value ws` -/
def Text (t : Tree) : Prop :=
  ∃ s' r, Ws s s' ∧ Reads .value s' t r ∧ Ws r []

/-! ### What is behind white space -/

/-- No white space comes first. -/
def Plain : Prop := ∀ c ∈ s.head?, isWs c = false

/-- No character comes first that could go on a number. -/
def Ends : Prop := ∀ c ∈ s.head?, isNumber c = false

theorem Ws.refl : Ws s s := ⟨[], nofun, rfl⟩

variable {c : Char}

theorem plain_cons {s : List Char} : Plain (c :: s) ↔ isWs c = false := by
  simp [Plain]

theorem isNumber_of_isWs (h : isWs c) : isNumber c = false := by
  simp only [isWs, Bool.or_eq_true, beq_iff_eq] at h
  rcases h with ((rfl | rfl) | rfl) | rfl <;> decide

variable {r' s' : List Char}

/-- White space ends where it ends. -/
theorem Ws.unique {s r : List Char} (h : Ws s r) (h' : Ws s r') (hr : Plain r)
    (hr' : Plain r') : r = r' := by
  have hrest : ∀ {s r}, Ws s r → Plain r → r = s.dropWhile isWs := by
    rintro s r ⟨w, hw, rfl⟩ hplain
    rw [dropWhile_append_of_pos hw]
    cases r with
    | nil => rfl
    | cons c r => rw [dropWhile_cons_of_neg (by rw [plain_cons.mp hplain]; exact nofun)]
  rw [hrest h hr, hrest h' hr']

variable {s r : List Char}

theorem Ws.ends (h : Ws s r) (hr : Ends r) : Ends s := by
  obtain ⟨w, hw, rfl⟩ := h
  cases w with
  | nil => exact hr
  | cons c w =>
    intro d hd
    obtain rfl : c = d := by simpa using hd
    exact isNumber_of_isWs (hw c mem_cons_self)

theorem ends_cons {s : List Char} : Ends (c :: s) ↔ isNumber c = false := by
  simp [Ends]

/-! ### Strings and numbers -/

variable {u : List Nat}

/-- **A string stands for one list of code units**, and ends at one place. -/
theorem Chars.unique {s r : List Char} {u' : List Nat} (h : Chars s u r)
    (h' : Chars s u' r') : u = u' ∧ r = r' := by
  induction h generalizing u' r' with
  | close r =>
    cases h' with
    | close => exact ⟨rfl, rfl⟩
    | unescaped _ hquote => exact absurd rfl hquote
  | unescaped _ hquote hback _ ih =>
    cases h' with
    | close => exact absurd rfl hquote
    | unescaped _ _ _ h' =>
      obtain ⟨rfl, rfl⟩ := ih h'
      exact ⟨rfl, rfl⟩
    | escape | hex => exact absurd rfl hback
  | escape hc _ ih =>
    cases h' with
    | unescaped _ _ hback => exact absurd rfl hback
    | escape hc' h' =>
      obtain ⟨rfl, rfl⟩ := ih h'
      rw [hc] at hc'
      exact ⟨by rw [Option.some.inj hc'], rfl⟩
    | hex => exact nomatch hc
  | hex hn _ ih =>
    cases h' with
    | unescaped _ _ hback => exact absurd rfl hback
    | escape hc' => exact nomatch hc'
    | hex hn' h' =>
      obtain ⟨rfl, rfl⟩ := ih h'
      rw [hn] at hn'
      exact ⟨by rw [Option.some.inj hn'], rfl⟩

theorem isNumber_of_isDigit (h : c.isDigit) : isNumber c := by
  simp [isNumber, h]

variable {w : List Char}

/-- A number is made of its characters, and has one. -/
theorem Number.chars (h : Number w) :
    w ≠ [] ∧ ∀ c ∈ w, isNumber c := by
  obtain ⟨minus, int, frac, exp, rfl, hminus, hint, hfrac, hexp⟩ := h
  have hm : ∀ c ∈ minus, isNumber c := by
    rcases hminus with rfl | rfl
    · exact nofun
    · simp [isNumber]
  have hi : int ≠ [] ∧ ∀ c ∈ int, isNumber c := by
    rcases hint with rfl | ⟨d, ds, rfl, hd, -, hds⟩
    · simp [isNumber]
    · refine ⟨cons_ne_nil d ds, forall_mem_cons.mpr ⟨isNumber_of_isDigit hd, ?_⟩⟩
      exact fun c hc => isNumber_of_isDigit (hds c hc)
  have hf : ∀ c ∈ frac, isNumber c := by
    rcases hfrac with rfl | ⟨ds, rfl, -, hds⟩
    · exact nofun
    · refine forall_mem_cons.mpr ⟨rfl, ?_⟩
      exact fun c hc => isNumber_of_isDigit (hds c hc)
  have he : ∀ c ∈ exp, isNumber c := by
    rcases hexp with rfl | ⟨e, sign, ds, rfl, he, hsign, -, hds⟩
    · exact nofun
    intro c hc
    rcases mem_append.mp hc with hc | hc
    · rcases mem_cons.mp hc with rfl | hc
      · rcases he with rfl | rfl <;> rfl
      rcases hsign with rfl | rfl | rfl
      · cases hc
      · rw [mem_singleton.mp hc]
        rfl
      · rw [mem_singleton.mp hc]
        rfl
    · exact isNumber_of_isDigit (hds c hc)
  refine ⟨by simp [hi.1], fun c hc => ?_⟩
  simp only [mem_append] at hc
  rcases hc with ((hc | hc) | hc) | hc
  · exact hm c hc
  · exact hi.2 c hc
  · exact hf c hc
  · exact he c hc

/-- A number ends where its characters end. -/
theorem Number.unique {w' r : List Char} (hw : Number w) (hw' : Number w')
    (h : w ++ r = w' ++ r') (hr : Ends r) (hr' : Ends r') : w = w' ∧ r = r' := by
  have hword : ∀ {w r}, Number w → Ends r → w = (w ++ r).takeWhile isNumber := by
    intro w r hw hr
    rw [takeWhile_append_of_pos hw.chars.2]
    cases r with
    | nil => simp
    | cons c r =>
      rw [takeWhile_cons_of_neg (by rw [ends_cons.mp hr]; exact nofun), append_nil]
  have heq : w = w' := by rw [hword hw hr, h, ← hword hw' hr']
  subst heq
  exact ⟨rfl, append_cancel_left h⟩

/-! ### One tree for a text -/

variable {t : Tree}

/-- What a value can begin with. -/
theorem Reads.value_cases (h : Reads .value s t r) :
    (∃ w, Literal w t ∧ s = w ++ r) ∨
    (∃ w, Number w ∧ s = w ++ r ∧ t = .number (numberValue w)) ∨
    (∃ s' u, s = '"' :: s' ∧ Chars s' u r ∧ t = .string u) ∨
    (∃ s', s = '[' :: s' ∧
      ((Ws s' (']' :: r) ∧ t = .array []) ∨ ∃ s'', Ws s' s'' ∧ Reads .elements s'' t r)) ∨
    ∃ s', s = '{' :: s' ∧
      ((Ws s' ('}' :: r) ∧ t = .object []) ∨ ∃ s'', Ws s' s'' ∧ Reads .members s'' t r) := by
  cases h with
  | literal hw => exact .inl ⟨_, hw, rfl⟩
  | number hw => exact .inr (.inl ⟨_, hw, rfl, rfl⟩)
  | string h => exact .inr (.inr (.inl ⟨_, _, rfl, h, rfl⟩))
  | emptyArray h => exact .inr (.inr (.inr (.inl ⟨_, rfl, .inl ⟨h, rfl⟩⟩)))
  | array hs h => exact .inr (.inr (.inr (.inl ⟨_, rfl, .inr ⟨_, hs, h⟩⟩)))
  | emptyObject h => exact .inr (.inr (.inr (.inr ⟨_, rfl, .inl ⟨h, rfl⟩⟩)))
  | object hs h => exact .inr (.inr (.inr (.inr ⟨_, rfl, .inr ⟨_, hs, h⟩⟩)))

theorem Literal.head (h : Literal w t) :
    ∃ c w', w = c :: w' ∧ c ∈ ['n', 't', 'f'] := by
  cases h <;> exact ⟨_, _, rfl, by decide⟩

theorem Number.head (h : Number w) : ∃ c w', w = c :: w' ∧ isNumber c := by
  obtain ⟨hne, hchars⟩ := h.chars
  cases w with
  | nil => exact absurd rfl hne
  | cons c w => exact ⟨c, w, rfl, hchars c mem_cons_self⟩

/-- What begins with a character that no literal and no number begins with. -/
theorem not_begins {s r : List Char} (h : c :: s = w ++ r) (hc : c ∈ ['"', '[', '{']) :
    (∀ t, ¬ Literal w t) ∧ ¬ Number w := by
  constructor
  · intro t hw
    obtain ⟨d, w', rfl, hd⟩ := hw.head
    obtain ⟨rfl, -⟩ := cons.inj h
    revert hc hd
    simp only [mem_cons, not_mem_nil, or_false]
    rintro (rfl | rfl | rfl) <;> decide
  intro hw
  obtain ⟨d, w', rfl, hd⟩ := hw.head
  obtain ⟨rfl, -⟩ := cons.inj h
  simp only [mem_cons, not_mem_nil, or_false] at hc
  rcases hc with rfl | rfl | rfl <;> exact nomatch hd

theorem Reads.of_quote (h : Reads .value ('"' :: s) t r) :
    ∃ u, Chars s u r ∧ t = .string u := by
  rcases h.value_cases with ⟨w, hw, heq⟩ | ⟨w, hw, heq, -⟩ | ⟨s', u, heq, hs, ht⟩ | ⟨s', heq, -⟩ |
    ⟨s', heq, -⟩
  · exact absurd hw ((not_begins heq (by decide)).1 t)
  · exact absurd hw (not_begins heq (by decide)).2
  · cases heq
    exact ⟨u, hs, ht⟩
  · exact nomatch heq
  · exact nomatch heq

theorem Reads.of_bracket (h : Reads .value ('[' :: s) t r) :
    (Ws s (']' :: r) ∧ t = .array []) ∨ ∃ s', Ws s s' ∧ Reads .elements s' t r := by
  rcases h.value_cases with ⟨w, hw, heq⟩ | ⟨w, hw, heq, -⟩ | ⟨s', u, heq, -⟩ | ⟨s', heq, h⟩ |
    ⟨s', heq, -⟩
  · exact absurd hw ((not_begins heq (by decide)).1 t)
  · exact absurd hw (not_begins heq (by decide)).2
  · exact nomatch heq
  · cases heq
    exact h
  · exact nomatch heq

theorem Reads.of_brace (h : Reads .value ('{' :: s) t r) :
    (Ws s ('}' :: r) ∧ t = .object []) ∨ ∃ s', Ws s s' ∧ Reads .members s' t r := by
  rcases h.value_cases with ⟨w, hw, heq⟩ | ⟨w, hw, heq, -⟩ | ⟨s', u, heq, -⟩ | ⟨s', heq, -⟩ |
    ⟨s', heq, h⟩
  · exact absurd hw ((not_begins heq (by decide)).1 t)
  · exact absurd hw (not_begins heq (by decide)).2
  · exact nomatch heq
  · exact nomatch heq
  · cases heq
    exact h

variable {t' : Tree}

theorem Reads.of_literal {q r : List Char} (hw : Literal w t)
    (h : Reads .value (w ++ q) t' r) : t = t' ∧ q = r := by
  rcases h.value_cases with ⟨w', hw', heq⟩ | ⟨w', hw', heq, -⟩ | ⟨s', u, heq, -⟩ | ⟨s', heq, -⟩ |
    ⟨s', heq, -⟩
  · cases hw <;> cases hw' <;> simp_all
  · obtain ⟨c, v, rfl, hc⟩ := hw'.head
    cases hw with
    | null | true | false =>
      obtain ⟨rfl, -⟩ := cons.inj heq
      exact nomatch hc
  · exact absurd hw ((not_begins heq.symm (by decide)).1 t)
  · exact absurd hw ((not_begins heq.symm (by decide)).1 t)
  · exact absurd hw ((not_begins heq.symm (by decide)).1 t)

theorem Reads.of_number {q r : List Char} (hw : Number w) (h : Reads .value (w ++ q) t r) :
    ∃ w', Number w' ∧ w ++ q = w' ++ r ∧ t = .number (numberValue w') := by
  rcases h.value_cases with ⟨w', hw', heq⟩ | h | ⟨s', u, heq, -⟩ | ⟨s', heq, -⟩ | ⟨s', heq, -⟩
  · obtain ⟨c, v, rfl, hc⟩ := hw.head
    cases hw' with
    | null | true | false =>
      obtain ⟨rfl, -⟩ := cons.inj heq
      exact nomatch hc
  · exact h
  · exact absurd hw (not_begins heq.symm (by decide)).2
  · exact absurd hw (not_begins heq.symm (by decide)).2
  · exact absurd hw (not_begins heq.symm (by decide)).2

variable {p : Part}

/-- What is read does not begin with white space, nor with a bracket that closes. -/
theorem Reads.head (h : Reads p s t r) :
    ∃ c s', s = c :: s' ∧ isWs c = false ∧ c ≠ ']' ∧ c ≠ '}' := by
  induction h with
  | literal hw => cases hw <;> exact ⟨_, _, rfl, by decide, by decide, by decide⟩
  | number hw =>
    obtain ⟨c, w', rfl, hc⟩ := hw.head
    refine ⟨c, _, rfl, ?_, ?_, ?_⟩
    · cases hws : isWs c with
      | false => rfl
      | true => rw [isNumber_of_isWs hws] at hc; cases hc
    · rintro rfl
      exact nomatch hc
    · rintro rfl
      exact nomatch hc
  | string | emptyArray | array | emptyObject | object | lastMember | member =>
    exact ⟨_, _, rfl, by decide, by decide, by decide⟩
  | lastElement _ _ ih | element _ _ _ _ ih => exact ih

theorem Reads.plain (h : Reads p s t r) : Plain s := by
  obtain ⟨c, s', rfl, hc, -⟩ := h.head
  exact plain_cons.mpr hc

variable {d : Char}

/-- The mark behind white space. -/
theorem Ws.mark {s r : List Char} (h : Ws s (c :: r)) (h' : Ws s (d :: r'))
    (hc : isWs c = false) (hd : isWs d = false) : c = d ∧ r = r' :=
  cons.inj (h.unique h' (plain_cons.mpr hc) (plain_cons.mpr hd))

/-- A bracket that closes at once. -/
theorem Reads.not_closed {s r : List Char}
    (h : Reads p s' t r) (hs : Ws s s') (hs' : Ws s (c :: r')) (hc : c = ']' ∨ c = '}') : False := by
  have hws : isWs c = false := by rcases hc with rfl | rfl <;> decide
  obtain rfl := hs.unique hs' h.plain (plain_cons.mpr hws)
  obtain ⟨d, q, heq, -, hne, hne'⟩ := h.head
  obtain ⟨rfl, -⟩ := cons.inj heq
  rcases hc with rfl | rfl
  · exact hne rfl
  · exact hne' rfl

/-- **A part stands for one tree**, and ends at one place. -/
theorem Reads.unique {s r : List Char} (h : Reads p s t r)
    (h' : Reads p s t' r') (hr : Ends r) (hr' : Ends r') : t = t' ∧ r = r' := by
  induction h generalizing t' r' with
  | literal hw => exact h'.of_literal hw
  | number hw =>
    obtain ⟨w', hw', heq, rfl⟩ := h'.of_number hw
    obtain ⟨rfl, rfl⟩ := hw.unique hw' heq hr hr'
    exact ⟨rfl, rfl⟩
  | string hu =>
    obtain ⟨u', hu', rfl⟩ := h'.of_quote
    obtain ⟨rfl, rfl⟩ := hu.unique hu'
    exact ⟨rfl, rfl⟩
  | emptyArray hs =>
    rcases h'.of_bracket with ⟨hs', rfl⟩ | ⟨s'', hs', h'⟩
    · obtain ⟨-, rfl⟩ := hs.mark hs' (by decide) (by decide)
      exact ⟨rfl, rfl⟩
    · exact (h'.not_closed hs' hs (.inl rfl)).elim
  | array hs h ih =>
    rcases h'.of_bracket with ⟨hs', rfl⟩ | ⟨s'', hs', h'⟩
    · exact (h.not_closed hs hs' (.inl rfl)).elim
    · obtain rfl := hs.unique hs' h.plain h'.plain
      exact ih h' hr hr'
  | emptyObject hs =>
    rcases h'.of_brace with ⟨hs', rfl⟩ | ⟨s'', hs', h'⟩
    · obtain ⟨-, rfl⟩ := hs.mark hs' (by decide) (by decide)
      exact ⟨rfl, rfl⟩
    · exact (h'.not_closed hs' hs (.inr rfl)).elim
  | object hs h ih =>
    rcases h'.of_brace with ⟨hs', rfl⟩ | ⟨s'', hs', h'⟩
    · exact (h.not_closed hs hs' (.inr rfl)).elim
    · obtain rfl := hs.unique hs' h.plain h'.plain
      exact ih h' hr hr'
  | lastElement h hs ih =>
    cases h' with
    | lastElement g gs =>
      obtain ⟨rfl, rfl⟩ := ih g (hs.ends (ends_cons.mpr rfl)) (gs.ends (ends_cons.mpr rfl))
      obtain ⟨-, rfl⟩ := hs.mark gs (by decide) (by decide)
      exact ⟨rfl, rfl⟩
    | element g gs =>
      obtain ⟨rfl, rfl⟩ := ih g (hs.ends (ends_cons.mpr rfl)) (gs.ends (ends_cons.mpr rfl))
      exact nomatch (hs.mark gs (by decide) (by decide)).1
  | element h hs hs' hts ih ihs =>
    cases h' with
    | lastElement g gs =>
      obtain ⟨rfl, rfl⟩ := ih g (hs.ends (ends_cons.mpr rfl)) (gs.ends (ends_cons.mpr rfl))
      exact nomatch (hs.mark gs (by decide) (by decide)).1
    | element g gs gs' gts =>
      obtain ⟨rfl, rfl⟩ := ih g (hs.ends (ends_cons.mpr rfl)) (gs.ends (ends_cons.mpr rfl))
      obtain ⟨-, rfl⟩ := hs.mark gs (by decide) (by decide)
      obtain rfl := hs'.unique gs' hts.plain gts.plain
      obtain ⟨heq, rfl⟩ := ihs gts hr hr'
      cases heq
      exact ⟨rfl, rfl⟩
  | lastMember hu hs hs' h hs'' ih =>
    cases h' with
    | lastMember gu gs gs' g gs'' =>
      obtain ⟨rfl, rfl⟩ := hu.unique gu
      obtain ⟨-, rfl⟩ := hs.mark gs (by decide) (by decide)
      obtain rfl := hs'.unique gs' h.plain g.plain
      obtain ⟨rfl, rfl⟩ := ih g (hs''.ends (ends_cons.mpr rfl)) (gs''.ends (ends_cons.mpr rfl))
      obtain ⟨-, rfl⟩ := hs''.mark gs'' (by decide) (by decide)
      exact ⟨rfl, rfl⟩
    | member gu gs gs' g gq =>
      obtain ⟨rfl, rfl⟩ := hu.unique gu
      obtain ⟨-, rfl⟩ := hs.mark gs (by decide) (by decide)
      obtain rfl := hs'.unique gs' h.plain g.plain
      obtain ⟨rfl, rfl⟩ := ih g (hs''.ends (ends_cons.mpr rfl)) (gq.ends (ends_cons.mpr rfl))
      exact nomatch (hs''.mark gq (by decide) (by decide)).1
  | member hu hs hs' h hq hq' hts ih ihs =>
    cases h' with
    | lastMember gu gs gs' g gs'' =>
      obtain ⟨rfl, rfl⟩ := hu.unique gu
      obtain ⟨-, rfl⟩ := hs.mark gs (by decide) (by decide)
      obtain rfl := hs'.unique gs' h.plain g.plain
      obtain ⟨rfl, rfl⟩ := ih g (hq.ends (ends_cons.mpr rfl)) (gs''.ends (ends_cons.mpr rfl))
      exact nomatch (hq.mark gs'' (by decide) (by decide)).1
    | member gu gs gs' g gq gq' gts =>
      obtain ⟨rfl, rfl⟩ := hu.unique gu
      obtain ⟨-, rfl⟩ := hs.mark gs (by decide) (by decide)
      obtain rfl := hs'.unique gs' h.plain g.plain
      obtain ⟨rfl, rfl⟩ := ih g (hq.ends (ends_cons.mpr rfl)) (gq.ends (ends_cons.mpr rfl))
      obtain ⟨-, rfl⟩ := hq.mark gq (by decide) (by decide)
      obtain rfl := hq'.unique gq' hts.plain gts.plain
      obtain ⟨heq, rfl⟩ := ihs gts hr hr'
      cases heq
      exact ⟨rfl, rfl⟩

/-- **A text stands for one tree.** -/
theorem Text.unique {s : List Char} (h : Text s t) (h' : Text s t') : t = t' := by
  obtain ⟨v, r, hs, hv, hr⟩ := h
  obtain ⟨v', r', hs', hv', hr'⟩ := h'
  obtain rfl := hs.unique hs' hv.plain hv'.plain
  exact (hv.unique hv' (hr.ends nofun) (hr'.ends nofun)).1

/-! ### Control characters -/

/-- A character that may stand in a text. -/
def Allowed (c : Char) : Prop := ' ' ≤ c ∨ isWs c

theorem allowed_of_le (hd : ' ' ≤ d) (h : d ≤ c) : Allowed c := .inl (le_trans hd h)

theorem allowed_of_isNumber (h : isNumber c) : Allowed c := by
  simp only [isNumber, Bool.or_eq_true, beq_iff_eq] at h
  rcases h with ((((h | rfl) | rfl) | rfl) | rfl) | rfl
  · simp only [Char.isDigit, ge_iff_le, Bool.and_eq_true, decide_eq_true_eq] at h
    exact @allowed_of_le c '0' (by decide) h.1
  all_goals exact .inl (by decide)

variable {n : Nat}

theorem allowed_of_hexValue (h : hexValue c = some n) : Allowed c := by
  unfold hexValue at h
  split at h
  · next hc => exact allowed_of_le (by decide) hc.1
  split at h
  · next hc => exact allowed_of_le (by decide) hc.1
  · split at h
    · next hc => exact allowed_of_le (by decide) hc.1
    · cases h

theorem allowed_of_hex4 {a b : Char} (h : hex4 a b c d = some n) :
    ∀ e ∈ [a, b, c, d], Allowed e := by
  unfold hex4 at h
  simp only [Option.bind_eq_bind, Option.bind_eq_some_iff] at h
  obtain ⟨_, ha, _, hb, _, hc, _, hd, -⟩ := h
  simp only [forall_mem_cons]
  exact ⟨allowed_of_hexValue ha, allowed_of_hexValue hb, allowed_of_hexValue hc,
    allowed_of_hexValue hd, nofun⟩

theorem allowed_of_escaped (h : escaped c = some n) : Allowed c := by
  unfold escaped at h
  split at h
  all_goals first | exact .inl (by decide) | cases h

theorem Ws.allowed (h : Ws s r) (hr : ∀ c ∈ r, Allowed c) :
    ∀ c ∈ s, Allowed c := by
  obtain ⟨w, hw, rfl⟩ := h
  intro c hc
  rcases mem_append.mp hc with hc | hc
  · exact .inr (hw c hc)
  · exact hr c hc

theorem allowed_cons {s : List Char} (hc : ' ' ≤ c) (hs : ∀ d ∈ s, Allowed d) :
    ∀ d ∈ c :: s, Allowed d :=
  forall_mem_cons.mpr ⟨.inl hc, hs⟩

theorem Chars.allowed (h : Chars s u r) (hr : ∀ c ∈ r, Allowed c) : ∀ c ∈ s, Allowed c := by
  induction h with
  | close => exact allowed_cons (by decide) hr
  | unescaped hc _ _ _ ih => exact allowed_cons hc (ih hr)
  | escape hc _ ih =>
    exact allowed_cons (by decide) (forall_mem_cons.mpr ⟨allowed_of_escaped hc, ih hr⟩)
  | hex hn _ ih =>
    have hdigs := allowed_of_hex4 hn
    simp only [forall_mem_cons] at hdigs
    obtain ⟨ha, hb, hc, hd, -⟩ := hdigs
    refine allowed_cons (by decide) (allowed_cons (by decide) ?_)
    simp only [forall_mem_cons]
    exact ⟨ha, hb, hc, hd, ih hr⟩

theorem Literal.allowed (h : Literal w t) : ∀ c ∈ w, Allowed c := by
  intro c hc
  cases h with
  | null | true =>
    simp only [mem_cons, not_mem_nil, or_false] at hc
    rcases hc with rfl | rfl | rfl | rfl
    all_goals exact .inl (by decide)
  | false =>
    simp only [mem_cons, not_mem_nil, or_false] at hc
    rcases hc with rfl | rfl | rfl | rfl | rfl
    all_goals exact .inl (by decide)

theorem Reads.allowed (h : Reads p s t r)
    (hr : ∀ c ∈ r, Allowed c) : ∀ c ∈ s, Allowed c := by
  induction h with
  | literal hw =>
    intro c hc
    rcases mem_append.mp hc with hc | hc
    · exact hw.allowed c hc
    · exact hr c hc
  | number hw =>
    intro c hc
    rcases mem_append.mp hc with hc | hc
    · exact allowed_of_isNumber (hw.chars.2 c hc)
    · exact hr c hc
  | string h => exact allowed_cons (by decide) (h.allowed hr)
  | emptyArray hs => exact allowed_cons (by decide) (hs.allowed (allowed_cons (by decide) hr))
  | array hs _ ih => exact allowed_cons (by decide) (hs.allowed (ih hr))
  | emptyObject hs => exact allowed_cons (by decide) (hs.allowed (allowed_cons (by decide) hr))
  | object hs _ ih => exact allowed_cons (by decide) (hs.allowed (ih hr))
  | lastElement _ hs ih => exact ih (hs.allowed (allowed_cons (by decide) hr))
  | element _ hs hs' _ ih ihs =>
    exact ih (hs.allowed (allowed_cons (by decide) (hs'.allowed (ihs hr))))
  | lastMember hu hs hs' _ hs'' ih =>
    have hv := ih (hs''.allowed (allowed_cons (by decide) hr))
    exact allowed_cons (by decide) (hu.allowed (hs.allowed (allowed_cons (by decide)
      (hs'.allowed hv))))
  | member hu hs hs' _ hq hq' _ ih ihs =>
    have hv := ih (hq.allowed (allowed_cons (by decide) (hq'.allowed (ihs hr))))
    exact allowed_cons (by decide) (hu.allowed (hs.allowed (allowed_cons (by decide)
      (hs'.allowed hv))))

/-- **No control characters** but white space are in a text. -/
theorem Text.noControl {s : List Char} (h : Text s t) (hc : c < ' ')
    (hws : isWs c = false) : c ∉ s := by
  obtain ⟨v, r, hs, hv, hr⟩ := h
  intro hmem
  rcases hs.allowed (hv.allowed (hr.allowed nofun)) c hmem with hle | hws'
  · exact absurd hle (not_le.mpr hc)
  · rw [hws] at hws'
    cases hws'

/-! ### Code units -/

/-- Surrogates are no characters. -/
theorem toNat_cases (c : Char) : c.toNat < 0xD800 ∨ 0xDFFF < c.toNat ∧ c.toNat < 0x110000 := c.valid

/-- The first character can be told from the code units. -/
theorem units_append_inj {v : List Nat} (h : units c ++ u = units d ++ v) :
    c = d ∧ u = v := by
  have hc := toNat_cases c
  have hd := toNat_cases d
  unfold units at h
  by_cases hlow : c.toNat < 0x10000
  · rw [if_pos hlow] at h
    by_cases hlow' : d.toNat < 0x10000
    · rw [if_pos hlow'] at h
      obtain ⟨heq, hrest⟩ := cons.inj h
      exact ⟨toNat_inj.mp heq, hrest⟩
    -- a surrogate is not the code unit of a character
    rw [if_neg hlow'] at h
    have heq := (cons.inj h).1
    omega
  rw [if_neg hlow] at h
  by_cases hlow' : d.toNat < 0x10000
  · rw [if_pos hlow'] at h
    have heq := (cons.inj h).1
    omega
  rw [if_neg hlow'] at h
  obtain ⟨hlead, hrest⟩ := cons.inj h
  obtain ⟨htrail, hrest⟩ := cons.inj hrest
  exact ⟨toNat_inj.mp (by omega), hrest⟩

theorem units_ne_nil (c : Char) : units c ≠ [] := by
  unfold units
  split <;> exact cons_ne_nil _ _

/-- **Different strings have different code units.** -/
theorem flatMap_units_inj {s : List Char} (h : s.flatMap units = s'.flatMap units) : s = s' := by
  induction s generalizing s' with
  | nil =>
    cases s' with
    | nil => rfl
    | cons d s' =>
      rw [flatMap_nil, flatMap_cons] at h
      exact absurd (append_eq_nil_iff.mp h.symm).1 (units_ne_nil d)
  | cons c s ih =>
    cases s' with
    | nil =>
      rw [flatMap_nil, flatMap_cons] at h
      exact absurd (append_eq_nil_iff.mp h).1 (units_ne_nil c)
    | cons d s' =>
      rw [flatMap_cons, flatMap_cons] at h
      obtain ⟨rfl, hrest⟩ := units_append_inj h
      rw [ih hrest]

/-! ### Bytes -/

/-- A text in UTF-8. -/
def encode (s : List Char) : List UInt8 := s.flatMap utf8EncodeChar

theorem encode_append (s r : List Char) : encode (s ++ r) = encode s ++ encode r :=
  flatMap_append

/-- **Different texts are different in UTF-8.** -/
theorem encode_inj {s : List Char} (h : encode s = encode s') : s = s' := by
  have hstring : ofList s = ofList s' := by
    rw [← String.toByteArray_inj]
    exact congrArg List.toByteArray h
  exact ofList_injective hstring

/-- An ASCII character is one byte. -/
theorem encode_ascii (h : c.toNat < 128) :
    utf8EncodeChar c = [UInt8.ofNat c.toNat] := by
  have hc : c.val.toNat ≤ 0x7f := Nat.le_of_lt_succ h
  unfold utf8EncodeChar
  exact if_pos hc

/-- The bytes of any other character are no ASCII. -/
theorem encode_rest (h : 128 ≤ c.toNat) :
    ∀ b ∈ utf8EncodeChar c, 128 ≤ b.toNat := by
  have hbyte : ∀ n, n % 256 ≥ 128 → 128 ≤ (UInt8.ofNat n).toNat := by
    intro n hn
    rwa [toNat_ofNat']
  have hc : ¬ c.val.toNat ≤ 0x7f := Nat.not_le_of_lt h
  unfold utf8EncodeChar
  dsimp only
  rw [if_neg hc]
  split
  · simp only [forall_mem_cons]
    exact ⟨hbyte _ (by omega), hbyte _ (by omega), nofun⟩
  split
  · simp only [forall_mem_cons]
    exact ⟨hbyte _ (by omega), hbyte _ (by omega), hbyte _ (by omega), nofun⟩
  · simp only [forall_mem_cons]
    exact ⟨hbyte _ (by omega), hbyte _ (by omega), hbyte _ (by omega), hbyte _ (by omega), nofun⟩

/-- An ASCII byte comes from an ASCII character. -/
theorem mem_encode (hc : c.toNat < 128) {s : List Char} :
    UInt8.ofNat c.toNat ∈ encode s ↔ c ∈ s := by
  unfold encode
  rw [mem_flatMap]
  constructor
  · rintro ⟨d, hd, hmem⟩
    have hbyte : (UInt8.ofNat c.toNat).toNat = c.toNat := by
      rw [toNat_ofNat']
      omega
    by_cases hascii : d.toNat < 128
    · rw [encode_ascii hascii, mem_singleton] at hmem
      have hnat := congrArg UInt8.toNat hmem
      rw [hbyte, toNat_ofNat', Nat.mod_eq_of_lt (by omega)] at hnat
      rwa [toNat_inj.mp hnat]
    · have := encode_rest (by omega) _ hmem
      omega
  intro hmem
  refine ⟨c, hmem, ?_⟩
  rw [encode_ascii hc]
  exact mem_singleton_self _

end Cockpit.Lib.JsonText
