import Cockpit.WebSocket.RequestHead

namespace Cockpit

open Lib List

/-!
# `src/websocket/websocket.c`: the status line and the headers of an HTTP response

The buffer has no NUL behind it, so `g_ascii_strtoull` can read on into whatever memory holds
there.  That is an argument of the parser, `beyond`.

* `parseHeaders_fields`, `parseHeaders_more` — its header fields are read, and a part of them
  is not enough;
* `lookupHeader_parsed` — the value that the table has for a name.
-/

/-- The bases of the numerals that are read here. -/
inductive NumeralBase where
  | ten
  | sixteen
  deriving DecidableEq

/-- The value of a digit. -/
def NumeralBase.digit? : NumeralBase → UInt8 → Option Nat
  | .ten, b => if isDigit b then some (digitValue b) else none
  | .sixteen, b => hexValue? b

/-- The base as a number. -/
def NumeralBase.toNat : NumeralBase → Nat
  | .ten => 10
  | .sixteen => 16

variable (base : NumeralBase)

/-- The number that digits stand for. -/
def NumeralBase.value (digits : Bytes) : Nat :=
  digits.foldl (fun acc b => acc * base.toNat + (base.digit? b).getD 0) 0

/-- Whether `0x` comes first, which a numeral in base sixteen may begin with. -/
def isPrefixed (number : Bytes) : Bool :=
  base = .sixteen && number.head? = some 48 &&
    (number.tail.head? = some 120 || number.tail.head? = some 88)

/-- `g_ascii_strtoull`: the number, and what is behind it.  The text ends with a NUL. -/
def strtoull (text : Bytes) : Nat × Bytes :=
  let start := text.dropWhile fun b => isSpace b || b = 11
  let negative := start.head? = some 45
  let number := if negative ∨ start.head? = some 43 then start.tail else start
  let digits := if isPrefixed base number then number.drop 2 else number
  let numeral := digits.takeWhile fun b => (base.digit? b).isSome
  if numeral = [] then (0, if isPrefixed base number then number.drop 1 else text)
  else
    let value := min (base.value numeral) (2 ^ 64 - 1)
    (if negative then (2 ^ 64 - value) % 2 ^ 64 else value,
      digits.dropWhile fun b => (base.digit? b).isSome)

/-- What `web_socket_util_parse_status_line` finds. -/
structure StatusLine where
  version : CStr
  status : Nat
  reason : CStr
  deriving DecidableEq

/-- `G_MAXUINT` -/
def maxUint : Nat := 2 ^ 32 - 1

/-- `web_socket_util_parse_status_line`; it is `none` when `g_strndup` is asked for a negative
    length, which ends the process. -/
def parseStatusLine (data beyond : Bytes) : Option (Scan StatusLine) :=
  match splitLine data with
  | none => some .more
  | some (line, rest) =>
    let version := line.take 8
    if (version ≠ ascii "HTTP/1.0" ∧ version ≠ ascii "HTTP/1.1") ∨
        (line.drop 8).head? ≠ some 32 then
      some .fail
    else
      let at_ := (line.drop 8).dropWhile (· = 32)
      if 32 ∉ at_ then some .fail
      else
        let num := strtoull .ten (at_ ++ 10 :: (rest ++ beyond))
        if num.1 = 0 ∨ maxUint < num.1 ∨ num.2.head? ≠ some 32 then some .fail
        else if num.2.length < (10 :: (rest ++ beyond)).length then none
        else
          let reason := num.2.take (num.2.length - (10 :: (rest ++ beyond)).length)
          some (.item (line.length + 1)
            ⟨strndup version, num.1, strstrip (strndup (reason.dropWhile (· = 32)))⟩)

/-! ### Numerals -/

/-- A digit is no blank, no sign and not the `x` of a prefix. -/
theorem NumeralBase.digit?_not_space {base : NumeralBase} {b : UInt8}
    (h : (base.digit? b).isSome) :
    (isSpace b || b = 11) = false ∧ b ≠ 43 ∧ b ≠ 45 ∧ b ≠ 120 ∧ b ≠ 88 ∧ b ≠ 32 ∧ b ≠ 13 ∧
      b ≠ 10 := by
  have hne : ∀ c : UInt8, (base.digit? c).isSome = false → b ≠ c := by
    rintro c hc rfl
    rw [hc] at h
    exact Bool.noConfusion h
  have h9 : b ≠ 9 := hne 9 (by cases base <;> decide)
  have h10 : b ≠ 10 := hne 10 (by cases base <;> decide)
  have h11 : b ≠ 11 := hne 11 (by cases base <;> decide)
  have h12 : b ≠ 12 := hne 12 (by cases base <;> decide)
  have h13 : b ≠ 13 := hne 13 (by cases base <;> decide)
  have h32 : b ≠ 32 := hne 32 (by cases base <;> decide)
  refine ⟨by simp [isSpace, h9, h10, h11, h12, h13, h32], hne 43 (by cases base <;> decide),
    hne 45 (by cases base <;> decide), hne 120 ?_, hne 88 ?_, h32, h13, h10⟩
  · cases base <;> decide
  · cases base <;> decide

variable {digits data code reason v : Bytes}

/-- **A plain numeral is read as far as it goes.** -/
theorem strtoull_digits (hne : digits ≠ [])
    (hdigs : ∀ b ∈ digits, (base.digit? b).isSome) {c : UInt8} {rest : Bytes}
    (hc : (base.digit? c).isSome = false) (hx : c ≠ 120 ∧ c ≠ 88) :
    strtoull base (digits ++ c :: rest) = (min (base.value digits) (2 ^ 64 - 1), c :: rest) := by
  obtain ⟨d, ds, rfl⟩ := exists_cons_of_ne_nil hne
  have hd := NumeralBase.digit?_not_space (hdigs d mem_cons_self)
  have hstart : ((d :: ds) ++ c :: rest).dropWhile (fun b => isSpace b || b = 11) =
      (d :: ds) ++ c :: rest := by
    rw [cons_append, dropWhile_cons_of_neg]
    simp only [hd.1, Bool.false_eq_true, not_false_eq_true]
  have hprefix : isPrefixed base ((d :: ds) ++ c :: rest) = false := by
    have htail : ∀ x ∈ (ds ++ c :: rest).head?, x ≠ 120 ∧ x ≠ 88 := by
      intro x hx'
      cases ds with
      | nil =>
        obtain rfl : c = x := by simpa using hx'
        exact hx
      | cons e es =>
        obtain rfl : e = x := by simpa using hx'
        have he := NumeralBase.digit?_not_space
          (hdigs e (mem_cons_of_mem _ mem_cons_self))
        exact ⟨he.2.2.2.1, he.2.2.2.2.1⟩
    unfold isPrefixed
    rw [cons_append, tail_cons]
    cases hhead : (ds ++ c :: rest).head? with
    | none => simp
    | some x =>
      have := htail x (by rw [hhead]; rfl)
      simp [this.1, this.2]
  have htake : ((d :: ds) ++ c :: rest).takeWhile (fun b => (base.digit? b).isSome) = d :: ds := by
    rw [takeWhile_append_of_pos hdigs, takeWhile_cons_of_neg (by simp [hc])]
    simp
  have hdrop : ((d :: ds) ++ c :: rest).dropWhile (fun b => (base.digit? b).isSome) = c :: rest := by
    rw [dropWhile_append_of_pos hdigs, dropWhile_cons_of_neg (by simp [hc])]
  unfold strtoull
  rw [hstart]
  have h45 : ¬ ((d :: ds) ++ c :: rest).head? = some 45 := by simp [hd.2.2.1]
  have h43 : ¬ ((d :: ds) ++ c :: rest).head? = some 43 := by simp [hd.2.1]
  simp only [h45, h43, or_self, if_false, hprefix, Bool.false_eq_true, htake, hdrop, cons_ne_nil]

theorem value_ten (h : ∀ b ∈ digits, isDigit b) :
    NumeralBase.ten.value digits = digitsValue 0 digits := by
  unfold NumeralBase.value digitsValue
  refine foldl_ext _ _ 0 fun acc b hb => ?_
  simp [NumeralBase.toNat, NumeralBase.digit?, h b hb]

/-! ### Status lines -/

/-- A status line of RFC 7230, with its end. -/
def statusText (code reason : Bytes) : Bytes := ascii "HTTP/1.1 " ++ (code ++ 32 :: (reason ++ crlf))

theorem splitLine_none (h : 10 ∉ data) : splitLine data = none := by
  cases hsplit : splitLine data with
  | none => rfl
  | some p =>
    obtain ⟨line, rest⟩ := p
    rw [(splitLine_eq_some.mp hsplit).1] at h
    exact absurd (mem_append_right _ mem_cons_self) h

/-- A status line ends with its only line feed. -/
theorem statusText_line (hcode : ∀ b ∈ code, isDigit b) (hreason : OneLine reason) :
    ∃ line, statusText code reason = line ++ [10] ∧ 10 ∉ line := by
  refine ⟨ascii "HTTP/1.1 " ++ (code ++ 32 :: (reason ++ [13])), by simp [statusText, crlf], ?_⟩
  have hascii : (10 : UInt8) ∉ ascii "HTTP/1.1 " := by decide
  have hline : (10 : UInt8) ∉ code := fun hmem => by cases hcode 10 hmem
  simp only [mem_append, mem_cons, not_mem_nil, or_false, not_or]
  exact ⟨hascii, hline, by decide, hreason.2, by decide⟩

/-- **A status line is read**, whatever comes behind it. -/
theorem parseStatusLine_item (hcode : ∀ b ∈ code, isDigit b)
    (hlen : code.length = 3) (hpos : 0 < digitsValue 0 code) (hreason : OneLine reason)
    (rest beyond : Bytes) :
    ∃ text, parseStatusLine (statusText code reason ++ rest) beyond =
      some (.item (statusText code reason).length
        ⟨strndup (ascii "HTTP/1.1"), digitsValue 0 code, text⟩) := by
  have hne : code ≠ [] := by
    rintro rfl
    exact nomatch hlen
  have hspace : ∀ b ∈ code, b ≠ 32 := fun b hb =>
    (@NumeralBase.digit?_not_space .ten b (by simp [NumeralBase.digit?, hcode b hb])).2.2.2.2.2.1
  have hline : ∀ b ∈ code, b ≠ 10 := fun b hb =>
    (@NumeralBase.digit?_not_space .ten b (by simp [NumeralBase.digit?, hcode b hb])).2.2.2.2.2.2.2
  have hsplit : splitLine (statusText code reason ++ rest) =
      some (ascii "HTTP/1.1 " ++ (code ++ 32 :: (reason ++ [13])), rest) := by
    refine splitLine_eq_some.mpr ⟨by simp [statusText, crlf], ?_⟩
    have hascii : (10 : UInt8) ∉ ascii "HTTP/1.1 " := by decide
    simp only [mem_append, mem_cons, not_mem_nil, or_false, not_or]
    exact ⟨hascii, fun h => hline 10 h rfl, by decide, hreason.2, by decide⟩
  have hvers : ∀ tail, (ascii "HTTP/1.1 " ++ tail).take 8 = ascii "HTTP/1.1" := fun tail => by
    rw [take_append_of_le_length (by decide)]
    decide
  have hdrop : ∀ tail, (ascii "HTTP/1.1 " ++ tail).drop 8 = 32 :: tail := fun tail => by
    rw [drop_append_of_le_length (by decide)]
    have : (ascii "HTTP/1.1 ").drop 8 = [32] := by decide
    rw [this]
    rfl
  have hskip : (32 :: (code ++ 32 :: (reason ++ [13]))).dropWhile (· = 32) =
      code ++ 32 :: (reason ++ [13]) := by
    obtain ⟨d, ds, rfl⟩ := exists_cons_of_ne_nil hne
    have hd : d ≠ 32 := hspace d mem_cons_self
    rw [dropWhile_cons_of_pos (by simp), cons_append, dropWhile_cons_of_neg (by simp [hd])]
  have hnum : strtoull .ten ((code ++ 32 :: (reason ++ [13])) ++ 10 :: (rest ++ beyond)) =
      (digitsValue 0 code, 32 :: ((reason ++ [13]) ++ 10 :: (rest ++ beyond))) := by
    rw [append_assoc, cons_append, strtoull_digits .ten hne
      (fun b hb => by simp [NumeralBase.digit?, hcode b hb]) (by decide) (by decide), value_ten hcode]
    have hsmall : digitsValue 0 code ≤ 2 ^ 64 - 1 := by
      have := digitsValue_lt hcode
      rw [hlen] at this
      omega
    rw [Nat.min_eq_left hsmall]
  have hmax : digitsValue 0 code ≤ maxUint := by
    have := digitsValue_lt hcode
    rw [hlen] at this
    unfold maxUint
    omega
  unfold parseStatusLine
  rw [hsplit]
  dsimp only
  rw [hvers, hdrop, hskip, hnum]
  have hmem : (32 : UInt8) ∈ code ++ 32 :: (reason ++ [13]) := by simp
  have hbad : ¬ ((ascii "HTTP/1.1" ≠ ascii "HTTP/1.0" ∧ ascii "HTTP/1.1" ≠ ascii "HTTP/1.1") ∨
      (32 :: (code ++ 32 :: (reason ++ [13]))).head? ≠ some 32) := by simp
  rw [if_neg hbad, if_neg (not_not_intro hmem)]
  have hok : ¬ (digitsValue 0 code = 0 ∨ maxUint < digitsValue 0 code ∨
      (32 :: (reason ++ [13] ++ 10 :: (rest ++ beyond))).head? ≠ some 32) := by
    simp
    omega
  have hbeh : ¬ (32 :: (reason ++ [13] ++ 10 :: (rest ++ beyond))).length <
      (10 :: (rest ++ beyond)).length := by
    simp
    omega
  dsimp only
  rw [if_neg hok, if_neg hbeh]
  refine ⟨_, congrArg some (congrArg₂ Scan.item ?_ rfl)⟩
  simp [statusText, crlf]
  omega

/-! ### Header fields -/

/-- A header field as it may be written, with blanks around the value. -/
def rawLine (f : Field) : Bytes := f.name ++ 58 :: (f.value ++ crlf)

/-- What the parser makes of it. -/
def headerOf (f : Field) : CStr × CStr :=
  (strstrip (strndup f.name), strstrip (strndup (f.value ++ crlf)))

/-- The table after some header fields. -/
def insertFields (headers : Headers) (fs : List Field) : Headers :=
  fs.foldl (fun headers f => insertHeader headers (headerOf f).1 (headerOf f).2) headers

/-- The line of a field without its end. -/
theorem rawLine_eq (f : Field) (rest : Bytes) :
    rawLine f ++ rest = (f.name ++ 58 :: (f.value ++ [13])) ++ 10 :: rest := by
  simp [rawLine, crlf]

variable {f : Field}

theorem rawLine_oneLine (h : f.Ok) : 10 ∉ f.name ++ 58 :: (f.value ++ [13]) := by
  have hname := h.name_oneLine.2
  have hvalue := h.value.2
  simp only [mem_append, mem_cons, not_mem_nil, or_false, not_or]
  exact ⟨hname, by decide, hvalue, by decide⟩

theorem parseHeader_rawLine (h : f.Ok) :
    parseHeader (f.name ++ 58 :: (f.value ++ [13])) = some (headerOf f) := by
  have hall := h.token
  rw [isToken, Bool.and_eq_true, all_eq_true] at hall
  have hname : ∀ b ∈ f.name, decide (b ≠ 58) := fun b hb =>
    decide_eq_true (isTokenByte_ne (hall.2 b hb)).2.2
  unfold parseHeader
  rw [dropWhile_append_of_pos hname, takeWhile_append_of_pos hname,
    dropWhile_cons_of_neg (by simp), takeWhile_cons_of_neg (by simp)]
  simp [headerOf, crlf]

theorem rawLine_not_end : ¬ (f.name ++ 58 :: (f.value ++ [13]) = [] ∨
    f.name ++ 58 :: (f.value ++ [13]) = [13]) := by
  rintro (h | h)
  · simp at h
  · cases hname : f.name with
    | nil | cons b name => simp [hname] at h

variable {fs : List Field}

/-- **Header fields are read**, whatever comes behind them. -/
theorem parseHeaders_fields (h : ∀ f ∈ fs, f.Ok) (headers : Headers)
    (rest : Bytes) :
    parseHeadersFrom headers (fs.flatMap rawLine ++ (crlf ++ rest)) =
      .item (fs.flatMap rawLine ++ crlf).length (insertFields headers fs) := by
  induction fs generalizing headers with
  | nil =>
    show parseHeadersFrom headers ([13] ++ 10 :: rest) = _
    rw [parseHeadersFrom_line (by decide), if_pos (.inr rfl)]
    rfl
  | cons f fs ih =>
    have hf := h f mem_cons_self
    have hrest := ih (fun g hg => h g (mem_cons_of_mem f hg))
      (insertHeader headers (headerOf f).1 (headerOf f).2)
    rw [flatMap_cons, append_assoc, rawLine_eq, parseHeadersFrom_line (rawLine_oneLine hf),
      if_neg rawLine_not_end, parseHeader_rawLine hf]
    dsimp only
    rw [hrest]
    refine congrArg₂ Scan.item ?_ rfl
    simp [rawLine, crlf]
    omega

/-- **A part of the header fields is not enough.** -/
theorem parseHeaders_more (h : ∀ f ∈ fs, f.Ok) (headers : Headers)
    {missing : Bytes} (hdata : data ++ missing = fs.flatMap rawLine ++ crlf)
    (hmiss : missing ≠ []) : parseHeadersFrom headers data = .more := by
  have hlen := congrArg List.length hdata
  have hpos : 0 < missing.length := length_pos_iff.mpr hmiss
  induction fs generalizing headers data with
  | nil =>
    refine parseHeadersFrom_none (splitLine_none ?_) headers
    rw [flatMap_nil, nil_append, crlf] at hdata
    cases data with
    | nil => exact not_mem_nil
    | cons b data =>
      obtain ⟨rfl, htail⟩ := List.cons.inj hdata
      cases data with
      | nil => decide
      | cons c data =>
        obtain ⟨-, htail⟩ := List.cons.inj htail
        exact absurd (append_eq_nil_iff.mp htail).2 hmiss
  | cons f fs ih =>
    have hf := h f mem_cons_self
    rw [flatMap_cons, append_assoc, rawLine_eq] at hdata
    rcases append_eq_append_iff.mp hdata with ⟨more, hline, -⟩ | ⟨behind, hbeh, hrest⟩
    · -- the line has no end yet
      refine parseHeadersFrom_none (splitLine_none fun hmem => rawLine_oneLine hf ?_) headers
      rw [hline]
      exact mem_append_left _ hmem
    cases behind with
    | nil =>
      refine parseHeadersFrom_none (splitLine_none ?_) headers
      rw [hbeh, append_nil]
      exact rawLine_oneLine hf
    | cons b behind =>
      obtain ⟨rfl, htail⟩ := List.cons.inj hrest
      rw [hbeh, parseHeadersFrom_line (rawLine_oneLine hf), if_neg rawLine_not_end,
        parseHeader_rawLine hf]
      dsimp only
      rw [ih (fun g hg => h g (mem_cons_of_mem f hg)) _ htail.symm
        (congrArg List.length htail.symm)]

/-! ### Looking a header up -/

theorem sameName_iff {a b : Bytes} : sameName a b ↔ a.map toLower = b.map toLower := by
  simp [sameName]

theorem lookupHeader_insertHeader (headers : Headers) (key value : CStr) (name : String) :
    lookupHeader (insertHeader headers key value) name =
      if sameName (ascii name) key.bytes then some value else lookupHeader headers name := by
  induction headers with
  | nil =>
    unfold insertHeader lookupHeader
    by_cases h : sameName (ascii name) key.bytes <;> simp [h]
  | cons header headers ih =>
    obtain ⟨other, old⟩ := header
    unfold insertHeader
    by_cases hkey : sameName key.bytes other.bytes
    · have hsame : sameName (ascii name) key.bytes = sameName (ascii name) other.bytes := by
        rw [Bool.eq_iff_iff, sameName_iff, sameName_iff, sameName_iff.mp hkey]
      rw [if_pos hkey, hsame]
      unfold lookupHeader
      by_cases h : sameName (ascii name) other.bytes <;> simp [h]
    rw [if_neg hkey]
    unfold lookupHeader at ih ⊢
    by_cases hother : sameName (ascii name) other.bytes
    · have hno : ¬ sameName (ascii name) key.bytes := by
        intro h
        rw [sameName_iff] at h hother hkey
        exact hkey (h.symm.trans hother)
      simp [hother, hno]
    · simpa [hother] using ih

/-- A token is read as it is. -/
theorem headerOf_name (h : f.Ok) : (headerOf f).1.bytes = f.name := by
  have hall := h.token
  rw [isToken, Bool.and_eq_true, all_eq_true] at hall
  have hplain : ∀ b ∈ f.name, isSpace b = false ∧ b ≠ 0 := by
    intro b hb
    have hbyte := hall.2 b hb
    have hne : ∀ c : UInt8, isTokenByte c = false → b ≠ c := by
      rintro c hc rfl
      rw [hc] at hbyte
      exact Bool.noConfusion hbyte
    have h9 := hne 9 (by decide)
    have h10 := hne 10 (by decide)
    have h12 := hne 12 (by decide)
    have h13 := hne 13 (by decide)
    have h32 := hne 32 (by decide)
    exact ⟨by simp [isSpace, h9, h10, h12, h13, h32], hne 0 (by decide)⟩
  have hkeep : ∀ bytes : Bytes, (∀ b ∈ bytes, isSpace b = false) → bytes.dropWhile isSpace = bytes := by
    intro bytes hbytes
    cases bytes with
    | nil => rfl
    | cons b bytes => rw [dropWhile_cons_of_neg (by simp [hbytes b mem_cons_self])]
  show (((f.name.takeWhile (· ≠ 0)).dropWhile isSpace).reverse.dropWhile isSpace).reverse = f.name
  rw [takeWhile_eq_self_iff.mpr fun b hb => by simpa using (hplain b hb).2,
    hkeep _ fun b hb => (hplain b hb).1,
    hkeep _ fun b hb => (hplain b (mem_reverse.mp hb)).1, reverse_reverse]

/-- A value without its blanks stands between them. -/
theorem exists_blanks (value : Bytes) : ∃ before after : Bytes,
    value = before ++ (trim value ++ after) ∧ (∀ b ∈ before, isBlank b) ∧
      ∀ b ∈ after, isBlank b := by
  have hstart := takeWhile_append_dropWhile (p := isBlank) (l := value)
  generalize hrest : value.dropWhile isBlank = rest at hstart
  have hend := takeWhile_append_dropWhile (p := isBlank) (l := rest.reverse)
  refine ⟨value.takeWhile isBlank, (rest.reverse.takeWhile isBlank).reverse, ?_, ?_, ?_⟩
  · have htrim : trim value = (rest.reverse.dropWhile isBlank).reverse := by rw [trim, hrest]
    rw [htrim, ← reverse_append, hend, reverse_reverse, hstart]
  · exact fun b hb => mem_takeWhile_imp hb
  · exact fun b hb => mem_takeWhile_imp (mem_reverse.mp hb)

/-- A value without blanks in it is read as it is. -/
theorem headerOf_value (hv : trim f.value = v) (hne : v ≠ [])
    (hplain : ∀ b ∈ v, isSpace b = false ∧ b ≠ 0) : (headerOf f).2.bytes = v := by
  obtain ⟨before, after, hvalue, hbef, hafter⟩ := exists_blanks f.value
  rw [hv] at hvalue
  have hblank : ∀ b, isBlank b → isSpace b ∧ b ≠ 0 := by
    intro b hb
    simp only [isBlank, Bool.or_eq_true, decide_eq_true_eq] at hb
    rcases hb with rfl | rfl <;> decide
  have hskip : ∀ blanks bytes : Bytes, (∀ b ∈ blanks, isSpace b) →
      (∀ b ∈ bytes.head?, isSpace b = false) → (blanks ++ bytes).dropWhile isSpace = bytes := by
    intro blanks bytes hblanks hbytes
    rw [dropWhile_append_of_pos hblanks]
    cases bytes with
    | nil => rfl
    | cons b bytes => rw [dropWhile_cons_of_neg (by simp [hbytes b rfl])]
  have hwhole : ∀ b ∈ f.value ++ crlf, decide (b ≠ 0) := by
    intro b hb
    rw [hvalue] at hb
    simp only [mem_append, crlf, mem_cons, not_mem_nil, or_false] at hb
    rcases hb with (hb | hb | hb) | rfl | rfl
    · exact decide_eq_true (hblank b (hbef b hb)).2
    · exact decide_eq_true (hplain b hb).2
    · exact decide_eq_true (hblank b (hafter b hb)).2
    · decide
    · decide
  show ((((f.value ++ crlf).takeWhile (· ≠ 0)).dropWhile isSpace).reverse.dropWhile isSpace).reverse = v
  rw [takeWhile_eq_self_iff.mpr hwhole, hvalue, append_assoc, append_assoc,
    hskip before _ (fun b hb => (hblank b (hbef b hb)).1), reverse_append,
    hskip (after ++ crlf).reverse v.reverse, reverse_reverse]
  · intro b hb
    rw [mem_reverse, mem_append] at hb
    rcases hb with hb | hb
    · exact (hblank b (hafter b hb)).1
    · simp only [crlf, mem_cons, not_mem_nil, or_false] at hb
      rcases hb with rfl | rfl <;> decide
  · intro b hb
    exact (hplain b (mem_reverse.mp (mem_of_mem_head? hb))).1
  intro b hb
  obtain ⟨c, cs, rfl⟩ := exists_cons_of_ne_nil hne
  obtain rfl : c = b := by simpa using hb
  exact (hplain c mem_cons_self).1

variable {name : String}

/-- A name that no field has is not in the table. -/
theorem lookupHeader_absent (h : ∀ f ∈ fs, f.Ok)
    (hnone : valuesOf (ascii name) (fs.map Field.trimmed) = []) (headers : Headers) :
    lookupHeader (insertFields headers fs) name = lookupHeader headers name := by
  induction fs generalizing headers with
  | nil => rfl
  | cons f fs ih =>
    rw [map_cons, valuesOf, filter_cons] at hnone
    have hf : ¬ sameName (ascii name) f.trimmed.name := by
      intro hsame
      rw [if_pos hsame] at hnone
      simp at hnone
    rw [if_neg hf] at hnone
    show lookupHeader (insertFields (insertHeader headers (headerOf f).1 (headerOf f).2) fs) name = _
    rw [ih (fun g hg => h g (mem_cons_of_mem f hg)) hnone, lookupHeader_insertHeader,
      headerOf_name (h f mem_cons_self)]
    exact if_neg hf

/-- **The value that the table has for a name** whose fields all say the same. -/
theorem lookupHeader_parsed (h : ∀ f ∈ fs, f.Ok)
    (hne : v ≠ []) (hplain : ∀ b ∈ v, isSpace b = false ∧ b ≠ 0)
    (hsome : valuesOf (ascii name) (fs.map Field.trimmed) ≠ [])
    (hall : ∀ w ∈ valuesOf (ascii name) (fs.map Field.trimmed), w = v) (headers : Headers) :
    ∃ value : CStr, lookupHeader (insertFields headers fs) name = some value ∧ value.bytes = v := by
  induction fs using List.reverseRecOn with
  | nil => exact absurd rfl hsome
  | append_singleton fs f ih =>
    have hf := h f (by simp)
    have hvalues : valuesOf (ascii name) ((fs ++ [f]).map Field.trimmed) =
        valuesOf (ascii name) (fs.map Field.trimmed) ++
          if sameName (ascii name) f.name then [trim f.value] else [] := by
      unfold valuesOf
      rw [map_append, filter_append, map_append]
      congr 1
      by_cases hsame : sameName (ascii name) f.name <;> simp [Field.trimmed, hsame]
    rw [hvalues] at hsome hall
    have hlook : lookupHeader (insertFields headers (fs ++ [f])) name =
        if sameName (ascii name) f.name then some (headerOf f).2
        else lookupHeader (insertFields headers fs) name := by
      unfold insertFields
      rw [foldl_append, foldl_cons, foldl_nil, lookupHeader_insertHeader, headerOf_name hf]
    rw [hlook]
    by_cases hsame : sameName (ascii name) f.name
    · rw [if_pos hsame] at hall ⊢
      exact ⟨_, rfl, headerOf_value (hall _ (by simp)) hne hplain⟩
    · rw [if_neg hsame, append_nil] at hsome hall
      rw [if_neg hsame]
      exact ih (fun g hg => h g (mem_append_left _ hg)) hsome hall

end Cockpit
