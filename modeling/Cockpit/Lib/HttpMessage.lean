import Cockpit.Lib.Decimal

namespace Cockpit.Lib

open List

/-!
# Reading one HTTP/1.1 response off a byte stream

The reader follows RFC 7230: a status line, header fields up to an empty line, and a body
whose end is told by the status, by `Transfer-Encoding: chunked` or by `Content-Length`.
What follows the message is handed back.

* `readChunks_chunks` — a body written in chunks reads back;
* `readResponse_head` — a response is read as far as its body.
-/

/-- ASCII text as bytes. -/
def ascii (s : String) : List UInt8 := s.toList.map fun c => UInt8.ofNat c.toNat

variable (b : UInt8)

/-- The lower case of an ASCII letter; other bytes are left alone. -/
def toLower : UInt8 := if 65 ≤ b && b ≤ 90 then b + 32 else b

/-- Equality of names up to the case of ASCII letters. -/
def sameName (a b : List UInt8) : Bool := a.map toLower == b.map toLower

theorem sameName_refl (a : List UInt8) : sameName a a := by simp [sameName]

/-! ### Hexadecimal numerals -/

/-- The lower-case hexadecimal digit of a number below sixteen. -/
def hexDigit (d : Nat) : UInt8 := if d < 10 then UInt8.ofNat (48 + d) else UInt8.ofNat (87 + d)

/-- The number a hexadecimal digit stands for, in either case. -/
def hexValue? : Option Nat :=
  if 48 ≤ b && b ≤ 57 then some (b.toNat - 48)
  else if 97 ≤ b && b ≤ 102 then some (b.toNat - 87)
  else if 65 ≤ b && b ≤ 70 then some (b.toNat - 55)
  else none

/-- The hexadecimal digits of `n`, most significant first. -/
def hexadecimal (n : Nat) : List UInt8 :=
  if n < 16 then [hexDigit n]
  else hexadecimal (n / 16) ++ [hexDigit (n % 16)]
  termination_by n

/-- Read hexadecimal digits from the left, starting from `acc`. -/
def hexDigitsValue (acc : Nat) (ds : List UInt8) : Nat :=
  ds.foldl (fun acc b => acc * 16 + (hexValue? b).getD 0) acc

theorem hexValue?_hexDigit : ∀ d : Fin 16, hexValue? (hexDigit d) = some d.val := by decide

variable {n fuel status : Nat}

/-- A hexadecimal numeral consists of hexadecimal digits. -/
theorem isSome_hexValue?_of_mem : ∀ b ∈ hexadecimal n, (hexValue? b).isSome := by
  induction n using digits_induction 16 (by decide) with
  | one n h =>
    intro b hb
    rw [hexadecimal, if_pos h, mem_singleton] at hb
    rw [hb, hexValue?_hexDigit ⟨n, h⟩]
    rfl
  | more n h ih =>
    intro b hb
    rw [hexadecimal, if_neg h, mem_append, mem_singleton] at hb
    rcases hb with hb | rfl
    · exact ih b hb
    · rw [hexValue?_hexDigit ⟨n % 16, Nat.mod_lt n (by omega)⟩]
      rfl

/-- **Reading a hexadecimal numeral gives the number back.** -/
theorem hexDigitsValue_hexadecimal (n : Nat) : hexDigitsValue 0 (hexadecimal n) = n := by
  induction n using digits_induction 16 (by decide) with
  | one n h =>
    rw [hexadecimal, if_pos h]
    simp [hexDigitsValue, hexValue?_hexDigit ⟨n, h⟩]
  | more n h ih =>
    rw [hexadecimal, if_neg h]
    unfold hexDigitsValue at ih ⊢
    rw [foldl_append, ih]
    simp only [foldl_cons, foldl_nil,
      hexValue?_hexDigit ⟨n % 16, Nat.mod_lt n (by omega)⟩, Option.getD_some]
    omega

theorem hexadecimal_ne_nil (n : Nat) : hexadecimal n ≠ [] := by
  rw [hexadecimal]
  split <;> simp

/-! ### Lines -/

/-- The end of a line. -/
def crlf : List UInt8 := [13, 10]

/-- A text that stays on one line. -/
def OneLine (line : List UInt8) : Prop := 13 ∉ line ∧ 10 ∉ line

instance (line : List UInt8) : Decidable (OneLine line) :=
  inferInstanceAs (Decidable (13 ∉ line ∧ 10 ∉ line))

/-- Take a line ended by CR LF.  A CR or LF that stands alone is an error. -/
def takeLine : List UInt8 → Option (List UInt8 × List UInt8)
  | [] => none
  | b :: rest =>
    if b = 13 then if rest.head? = some 10 then some ([], rest.tail) else none
    else if b = 10 then none
    else (takeLine rest).map fun p => (b :: p.1, p.2)

variable {line : List UInt8}

/-- A line that was written is taken. -/
theorem takeLine_line (h : OneLine line) (rest : List UInt8) :
    takeLine (line ++ (crlf ++ rest)) = some (line, rest) := by
  induction line with
  | nil => rfl
  | cons b line ih =>
    obtain ⟨hcr, hlf⟩ := h
    rw [mem_cons, not_or] at hcr hlf
    have hline := ih ⟨hcr.2, hlf.2⟩
    rw [cons_append, takeLine, if_neg (Ne.symm hcr.1), if_neg (Ne.symm hlf.1), hline]
    rfl

theorem OneLine.append {a b : List UInt8} (ha : OneLine a) (hb : OneLine b) :
    OneLine (a ++ b) := by
  constructor <;> rw [mem_append, not_or]
  · exact ⟨ha.1, hb.1⟩
  · exact ⟨ha.2, hb.2⟩

/-- A decimal numeral stays on one line. -/
theorem oneLine_decimal (n : Nat) : OneLine (decimal n) := by
  constructor <;> exact fun h => nomatch (isDigit_of_mem_decimal _ h)

/-! ### Header fields -/

/-- The characters of a token: letters, digits and some marks. -/
def isTokenByte : Bool :=
  (48 ≤ b && b ≤ 57) || (65 ≤ b && b ≤ 90) || (97 ≤ b && b ≤ 122) ||
    (ascii "!#$%&'*+-.^_`|~").contains b

variable (name : List UInt8)

/-- A token, as field names are. -/
def isToken : Bool := !name.isEmpty && name.all isTokenByte

/-- Blanks around a field value. -/
def isBlank : Bool := b = 32 || b = 9

/-- A value without the blanks around it. -/
def trim (value : List UInt8) : List UInt8 :=
  (value.dropWhile isBlank).reverse.dropWhile isBlank |>.reverse

/-- A header field. -/
structure Field where
  name : List UInt8
  value : List UInt8
  deriving DecidableEq

/-- A field name, a colon and a value, with blanks around the value left out. -/
def readField (line : List UInt8) : Option Field :=
  let name := line.takeWhile (· ≠ 58)
  match line.dropWhile (· ≠ 58) with
  | [] => none
  | _ :: value => if isToken name then some ⟨name, trim value⟩ else none

/-- Read header fields up to the empty line; there are fewer than `fuel` of them. -/
def readFields : Nat → List UInt8 → Option (List Field × List UInt8)
  | 0, _ => none
  | fuel + 1, bs =>
    match takeLine bs with
    | none => none
    | some ([], rest) => some ([], rest)
    | some (b :: line, rest) =>
      match readField (b :: line) with
      | none => none
      | some field => (readFields fuel rest).map fun p => (field :: p.1, p.2)

/-- A header field as it is written. -/
def fieldLine (f : Field) : List UInt8 := f.name ++ (ascii ": " ++ (f.value ++ crlf))

/-- A field that can be written on one line. -/
structure Field.Ok (f : Field) : Prop where
  token : isToken f.name
  value : OneLine f.value

instance (f : Field) : Decidable f.Ok :=
  decidable_of_iff (isToken f.name ∧ OneLine f.value)
    ⟨fun h => ⟨h.1, h.2⟩, fun h => ⟨h.token, h.value⟩⟩

/-- The field as it is read. -/
def Field.trimmed (f : Field) : Field := ⟨f.name, trim f.value⟩

/-- No byte of a token ends a line or a name. -/
theorem isTokenByte_ne {b : UInt8} (h : isTokenByte b) : b ≠ 13 ∧ b ≠ 10 ∧ b ≠ 58 := by
  refine ⟨?_, ?_, ?_⟩ <;>
  · rintro rfl
    revert h
    decide

variable {f : Field}

theorem Field.Ok.name_oneLine (h : f.Ok) : OneLine f.name := by
  have hall := h.token
  rw [isToken, Bool.and_eq_true, all_eq_true] at hall
  constructor
  · exact fun hmem => (isTokenByte_ne (hall.2 _ hmem)).1 rfl
  · exact fun hmem => (isTokenByte_ne (hall.2 _ hmem)).2.1 rfl

theorem trim_cons_blank (value : List UInt8) : trim (32 :: value) = trim value := by
  simp [trim, isBlank]

/-- A text without blanks is left alone. -/
theorem trim_eq_self {value : List UInt8} (h : ∀ b ∈ value, isBlank b = false) :
    trim value = value := by
  have hdrop : ∀ bs : List UInt8, (∀ b ∈ bs, isBlank b = false) → bs.dropWhile isBlank = bs := by
    intro bs hbs
    cases bs with
    | nil => rfl
    | cons b bs => exact dropWhile_cons_of_neg (by rw [hbs b mem_cons_self]; decide)
  rw [trim, hdrop value h, hdrop _ fun b hb => h b (mem_reverse.mp hb), reverse_reverse]

theorem isBlank_of_mem_decimal : ∀ b ∈ decimal n, isBlank b = false := by
  intro b hb
  rw [Bool.eq_false_iff]
  intro hblank
  rw [isBlank, Bool.or_eq_true, decide_eq_true_eq, decide_eq_true_eq] at hblank
  rcases hblank with rfl | rfl <;> exact nomatch (isDigit_of_mem_decimal _ hb)

theorem trim_decimal (n : Nat) : trim (decimal n) = decimal n := trim_eq_self isBlank_of_mem_decimal

/-- A field that was written is read, without the blanks around its value. -/
theorem readField_line (h : f.Ok) :
    readField (f.name ++ (58 :: 32 :: f.value)) = some f.trimmed := by
  have hall := h.token
  rw [isToken, Bool.and_eq_true, all_eq_true] at hall
  have hname : ∀ b ∈ f.name, decide (b ≠ 58) := by
    intro b hb
    exact decide_eq_true (isTokenByte_ne (hall.2 b hb)).2.2
  unfold readField
  simp only [takeWhile_append_of_pos hname, dropWhile_append_of_pos hname]
  simp [h.token, trim_cons_blank, Field.trimmed]

variable {fs : List Field}

/-- **Header fields that were written are read**, up to the empty line behind them. -/
theorem readFields_fieldLines (h : ∀ f ∈ fs, f.Ok) (rest : List UInt8) (hfuel : fs.length < fuel) :
    readFields fuel (fs.flatMap fieldLine ++ (crlf ++ rest)) =
      some (fs.map Field.trimmed, rest) := by
  induction fs generalizing fuel with
  | nil =>
    obtain ⟨fuel, rfl⟩ : ∃ n, fuel = n + 1 := ⟨fuel - 1, by omega⟩
    rfl
  | cons f fs ih =>
    obtain ⟨fuel, rfl⟩ : ∃ n, fuel = n + 1 :=
      ⟨fuel - 1, by simp only [length_cons] at hfuel; omega⟩
    have hf : f.Ok := h f mem_cons_self
    have hline : OneLine (f.name ++ (58 :: 32 :: f.value)) := by
      apply hf.name_oneLine.append
      have hvalue := hf.value
      constructor <;> simp only [mem_cons, not_or]
      · exact ⟨by decide, by decide, hvalue.1⟩
      · exact ⟨by decide, by decide, hvalue.2⟩
    have htext : (f :: fs).flatMap fieldLine ++ (crlf ++ rest) =
        (f.name ++ (58 :: 32 :: f.value)) ++ (crlf ++ (fs.flatMap fieldLine ++ (crlf ++ rest))) := by
      have hcolon : ascii ": " = [58, 32] := by decide
      simp [fieldLine, hcolon]
    have hrest := ih (fun g hg => h g (mem_cons_of_mem f hg))
      (by simp only [length_cons] at hfuel; omega : fs.length < fuel)
    rw [htext, readFields, takeLine_line hline]
    have hread := readField_line hf
    -- the line is not empty, so it is a field and not the end of the header
    cases hshape : f.name ++ (58 :: 32 :: f.value) with
    | nil => simp at hshape
    | cons b line =>
      rw [hshape] at hread
      simp only [hread, hrest]
      rfl

/-! ### Chunked bodies -/

/-- A chunk size in hexadecimal, with an extension behind a semicolon left out. -/
def readChunkSize (line : List UInt8) : Option Nat :=
  let digits := line.takeWhile fun b => (hexValue? b).isSome
  let rest := line.dropWhile fun b => (hexValue? b).isSome
  if digits = [] then none
  else if rest = [] ∨ rest.head? = some 59 then some (hexDigitsValue 0 digits)
  else none

/-- Read chunks up to the empty one and the trailer behind it. -/
def readChunks : Nat → List UInt8 → Option (List UInt8 × List UInt8)
  | 0, _ => none
  | fuel + 1, bs =>
    match takeLine bs with
    | none => none
    | some (line, rest) =>
      match readChunkSize line with
      | none => none
      | some 0 => (readFields (fuel + 1) rest).map fun p => ([], p.2)
      | some (n + 1) =>
        if (rest.drop (n + 1)).take 2 = crlf then
          (readChunks fuel (rest.drop (n + 3))).map fun p => (rest.take (n + 1) ++ p.1, p.2)
        else none

/-- A chunk as it is written. -/
def chunk (block : List UInt8) : List UInt8 :=
  hexadecimal block.length ++ (crlf ++ (block ++ crlf))

/-- The end of a chunked body. -/
def lastChunk : List UInt8 := ascii "0\r\n\r\n"

theorem oneLine_hexadecimal (n : Nat) : OneLine (hexadecimal n) := by
  constructor <;> exact fun h => nomatch (isSome_hexValue?_of_mem _ h)

theorem readChunkSize_hexadecimal (n : Nat) : readChunkSize (hexadecimal n) = some n := by
  have hdigs : ∀ b ∈ hexadecimal n, (hexValue? b).isSome := isSome_hexValue?_of_mem
  have htake : (hexadecimal n).takeWhile (fun b => (hexValue? b).isSome) = hexadecimal n :=
    takeWhile_eq_self_iff.mpr hdigs
  have hdrop : (hexadecimal n).dropWhile (fun b => (hexValue? b).isSome) = [] :=
    dropWhile_eq_nil_iff.mpr hdigs
  simp [readChunkSize, htake, hdrop, hexadecimal_ne_nil, hexDigitsValue_hexadecimal]

/-- **A body written in chunks reads back**, and what is behind it is left. -/
theorem readChunks_chunks {blocks : List (List UInt8)} (h : ∀ b ∈ blocks, b ≠ [])
    (rest : List UInt8) (hfuel : blocks.length < fuel) :
    readChunks fuel (blocks.flatMap chunk ++ (lastChunk ++ rest)) = some (blocks.flatten, rest) := by
  induction blocks generalizing fuel with
  | nil =>
    obtain ⟨fuel, rfl⟩ : ∃ n, fuel = n + 1 := ⟨fuel - 1, by omega⟩
    have hlast : lastChunk ++ rest = ascii "0" ++ (crlf ++ (crlf ++ rest)) := by
      have hbytes : lastChunk = [48, 13, 10, 13, 10] := by decide
      have hzero : ascii "0" = [48] := by decide
      simp [hbytes, hzero, crlf]
    have hsize : readChunkSize (ascii "0") = some 0 := by decide
    rw [flatMap_nil, nil_append, hlast, readChunks, takeLine_line (by decide : OneLine (ascii "0"))]
    simp only [hsize]
    rfl
  | cons block blocks ih =>
    obtain ⟨fuel, rfl⟩ : ∃ n, fuel = n + 1 :=
      ⟨fuel - 1, by simp only [length_cons] at hfuel; omega⟩
    have hrest := ih (fun b hb => h b (mem_cons_of_mem block hb))
      (by simp only [length_cons] at hfuel; omega : blocks.length < fuel)
    have hpos : block.length ≠ 0 := fun hzero =>
      h block mem_cons_self (length_eq_zero_iff.mp hzero)
    obtain ⟨n, hn⟩ : ∃ n, block.length = n + 1 := ⟨block.length - 1, by omega⟩
    have htext : (block :: blocks).flatMap chunk ++ (lastChunk ++ rest) =
        hexadecimal block.length ++
          (crlf ++ (block ++ (crlf ++ (blocks.flatMap chunk ++ (lastChunk ++ rest))))) := by
      simp [chunk]
    rw [htext, readChunks, takeLine_line (oneLine_hexadecimal _)]
    simp only [readChunkSize_hexadecimal, hn]
    have hdrop : ∀ tail : List UInt8, (block ++ tail).drop (n + 1) = tail := by
      intro tail
      rw [← hn, drop_left]
    have hskip : ∀ tail : List UInt8, (block ++ (crlf ++ tail)).drop (n + 3) = tail := by
      intro tail
      have hsplit : n + 3 = block.length + 2 := by omega
      rw [hsplit, ← drop_drop, drop_left]
      rfl
    have htake : ∀ tail : List UInt8, (block ++ tail).take (n + 1) = block := by
      intro tail
      rw [← hn, take_left]
    rw [hdrop, if_pos (by simp [crlf]), hskip, hrest, htake]
    simp

/-! ### Responses -/

/-- A response. -/
structure Response where
  status : Nat
  fields : List Field
  body : List UInt8
  deriving DecidableEq

/-- The status in a line such as `HTTP/1.1 200 OK`: three digits. -/
def readStatusLine (line : List UInt8) : Option Nat :=
  let digits := (line.drop 9).take 3
  if line.take 9 = ascii "HTTP/1.1 " ∧ digits.length = 3 ∧ digits.all isDigit ∧
      (line.drop 12).head? = some 32 then
    some (digitsValue 0 digits)
  else none

/-- The values of the fields of a name. -/
def valuesOf (fields : List Field) : List (List UInt8) :=
  (fields.filter fun f => sameName name f.name).map Field.value

theorem valuesOf_eq_nil {name : List UInt8}
    (h : ∀ f ∈ fs, sameName name f.name = false) : valuesOf name fs = [] := by
  rw [valuesOf, map_eq_nil_iff, filter_eq_nil_iff]
  intro f hf
  rw [h f hf]
  exact Bool.false_ne_true

theorem valuesOf_map_trimmed (fs : List Field) :
    valuesOf name (fs.map Field.trimmed) = (valuesOf name fs).map trim := by
  simp only [valuesOf, filter_map, map_map]
  rfl

/-- The statuses whose responses have no body. -/
def Bodiless (status : Nat) : Prop := status / 100 = 1 ∨ status = 204 ∨ status = 304

instance (status : Nat) : Decidable (Bodiless status) :=
  inferInstanceAs (Decidable (_ ∨ _ ∨ _))

/-- How the end of a body is told. -/
inductive BodyEnd where
  | absent
  | chunked
  | sized (n : Nat)
  | untilClose
  deriving DecidableEq

/-- What tells the end of the body.  `Transfer-Encoding` goes before `Content-Length`, and the
    only coding that is understood is `chunked`. -/
def bodyEnd (status : Nat) (fields : List Field) : Option BodyEnd :=
  if Bodiless status then some .absent
  else
    match valuesOf (ascii "Transfer-Encoding") fields with
    | [coding] => if sameName coding (ascii "chunked") then some .chunked else none
    | _ :: _ :: _ => none
    | [] =>
      match valuesOf (ascii "Content-Length") fields with
      | [] => some .untilClose
      | size :: sizes =>
        if size ≠ [] ∧ size.all isDigit ∧ sizes.all (· == size) then
          some (.sized (digitsValue 0 size))
        else none

/-- Read a body, and hand back what is behind it. -/
def readBody : BodyEnd → List UInt8 → Option (List UInt8 × List UInt8)
  | .absent, bs => some ([], bs)
  | .chunked, bs => readChunks (bs.length + 1) bs
  | .sized n, bs => if n ≤ bs.length then some (bs.take n, bs.drop n) else none
  | .untilClose, bs => some (bs, [])

/-- Read a response to a request other than `HEAD`, and hand back what is behind it. -/
def readResponse (bs : List UInt8) : Option (Response × List UInt8) :=
  match takeLine bs with
  | none => none
  | some (line, rest) =>
    match readStatusLine line, readFields (rest.length + 1) rest with
    | some status, some (fields, rest) =>
      match bodyEnd status fields with
      | none => none
      | some ends => (readBody ends rest).map fun p => (⟨status, fields, p.1⟩, p.2)
    | _, _ => none

theorem length_le_flatMap_fieldLine (fs : List Field) :
    fs.length ≤ (fs.flatMap fieldLine).length := by
  induction fs with
  | nil => exact Nat.le_refl 0
  | cons f fs ih =>
    simp only [flatMap_cons, List.length_append, length_cons, fieldLine, crlf]
    omega

/-- **A response that was written is read as far as its body.** -/
theorem readResponse_head
    (hline : OneLine line) (hstat : readStatusLine line = some status) (hfs : ∀ f ∈ fs, f.Ok)
    (rest : List UInt8) :
    readResponse (line ++ (crlf ++ (fs.flatMap fieldLine ++ (crlf ++ rest)))) =
      (bodyEnd status (fs.map Field.trimmed)).bind fun ends =>
        (readBody ends rest).map fun p => (⟨status, fs.map Field.trimmed, p.1⟩, p.2) := by
  have hfuel : fs.length < (fs.flatMap fieldLine ++ (crlf ++ rest)).length + 1 := by
    have := length_le_flatMap_fieldLine fs
    rw [List.length_append]
    omega
  rw [readResponse, takeLine_line hline]
  simp only [hstat, readFields_fieldLines hfs rest hfuel]
  cases bodyEnd status (fs.map Field.trimmed) <;> rfl

/-- A body written in chunks is read. -/
theorem readBody_chunked {blocks : List (List UInt8)} (h : ∀ b ∈ blocks, b ≠ [])
    (rest : List UInt8) :
    readBody .chunked (blocks.flatMap chunk ++ (lastChunk ++ rest)) =
      some (blocks.flatten, rest) := by
  apply readChunks_chunks h
  have hle : blocks.length ≤ (blocks.flatMap chunk).length := by
    clear h
    induction blocks with
    | nil => exact Nat.le_refl 0
    | cons block blocks ih =>
      simp only [flatMap_cons, List.length_append, length_cons, chunk, crlf]
      omega
  rw [List.length_append]
  omega

/-- A body of a known size is read. -/
theorem readBody_sized (body rest : List UInt8) :
    readBody (.sized body.length) (body ++ rest) = some (body, rest) := by
  simp [readBody]

/-- A status line of three digits is read. -/
theorem readStatusLine_decimal (hlow : 100 ≤ status) (hhigh : status < 1000) (reason : List UInt8) :
    readStatusLine (ascii "HTTP/1.1 " ++ (decimal status ++ (32 :: reason))) = some status := by
  have hlen : (decimal status).length = 3 := by
    have hle := (length_decimal_le_iff status 2).mpr (by omega)
    have hgt := mt (length_decimal_le_iff status 1).mp (by omega)
    omega
  have hnine : (ascii "HTTP/1.1 ").length = 9 := by decide
  have hdrop : ∀ tail : List UInt8,
      (ascii "HTTP/1.1 " ++ (decimal status ++ tail)).drop 9 = decimal status ++ tail := by
    intro tail
    rw [← hnine, drop_left]
  have hreason : (ascii "HTTP/1.1 " ++ (decimal status ++ (32 :: reason))).drop 12 =
      32 :: reason := by
    have hsplit : 12 = 9 + 3 := rfl
    rw [hsplit, ← drop_drop, hdrop, ← hlen, drop_left]
  have hdigs : (decimal status ++ (32 :: reason)).take 3 = decimal status := by
    rw [← hlen, take_left]
  have hhead : (ascii "HTTP/1.1 " ++ (decimal status ++ (32 :: reason))).take 9 =
      ascii "HTTP/1.1 " := by
    rw [← hnine, take_left]
  have hall : (decimal status).all isDigit :=
    all_eq_true.mpr isDigit_of_mem_decimal
  unfold readStatusLine
  simp only [hdrop, hdigs, hhead, hreason, hlen, hall, head?_cons, and_self, if_true,
    digitsValue_decimal]

end Cockpit.Lib
