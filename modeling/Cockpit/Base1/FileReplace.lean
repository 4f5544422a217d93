import Cockpit.Lib.Decimal
import Cockpit.Lib.Utf16

namespace Cockpit.Page.Replace

open Lib List Utf16

/-!
# `src/base1/cockpit.js`: what `cockpit.file().replace` sends

The content of the file goes out in batches, as messages of a channel, and each message is turned
into bytes on its own.

* `Replace.sent_bytes_iff` — a byte array does on a binary channel, if what it is a view of starts
  with it;
* `Replace.sent_eq_octets_iff` — the two together.
-/

/-- A `Uint8Array`: a view of a buffer. -/
structure Uint8Array where
  buffer : List UInt8
  byteOffset : Nat
  byteLength : Nat
  inBounds : byteOffset + byteLength ≤ buffer.length

/-- The elements of the array. -/
def Uint8Array.bytes (view : Uint8Array) : List UInt8 :=
  (view.buffer.drop view.byteOffset).take view.byteLength

/-- What `stringify` has made of the content: `null`, a string or an array of bytes. -/
inductive Content where
  | null
  | text (units : List Nat)
  | bytes (view : Uint8Array)

/-- The bytes that the file should have. -/
def Content.octets : Content → List UInt8
  | .null => []
  | .text units => encode units
  | .bytes view => view.bytes

/-- What is given to `Channel.send`. -/
inductive Payload where
  | text (units : List Nat)
  | bytes (data : List UInt8)

/-- `batch` -/
def batch : Nat := 16 * 1024

/-- The loop of `replace`; `cut i n` makes a payload from `n` units at `i`. -/
def sendFrom (len : Nat) (cut : Nat → Nat → Payload) (i : Nat) : List Payload :=
  if i < len then cut i (min (len - i) batch) :: sendFrom len cut (i + batch) else []
  termination_by len - i
  decreasing_by
    have hbatch : 0 < batch := by decide
    omega

/-- The payloads of `replace`, before its "done". -/
def payloads : Content → List Payload
  | .null => []
  | .text units => sendFrom units.length (fun i n => .text ((units.drop i).take n)) 0
  -- `new Uint8Array(buffer, i, n)`, which is inside the buffer as the view is
  | .bytes view =>
    sendFrom view.byteLength (fun i n => .bytes ((view.buffer.drop i).take n)) 0

/-- `String` of an array of bytes: numbers with commas between them. -/
def stringOf : List UInt8 → List Nat
  | [] => []
  | [b] => (decimal b.toNat).map (·.toNat)
  | b :: data => (decimal b.toNat).map (·.toNat) ++ 44 :: stringOf data

variable (binary : Bool)

/-- `send_payload`; `binary` is the channel's. -/
def sendPayload : Payload → Payload
  | .text units => .text units
  | .bytes data => if binary then .bytes data else .text (stringOf data)

/-- The payload of the message that `send_message` hands to the WebSocket.  An empty array is
    taken for a string, and a string is sent as UTF-8. -/
def sendMessage : Payload → List UInt8
  | .text units => encode units
  | .bytes data => if data.length = 0 then encode (stringOf data) else data

/-- All that arrives. -/
def sent (content : Content) : List UInt8 :=
  (payloads content).flatMap fun payload => sendMessage (sendPayload binary payload)

/-! ### Batches -/

theorem batch_pos : 0 < batch := by decide

variable {i len : Nat}

theorem sendFrom_of_lt (h : i < len) (cut : Nat → Nat → Payload) :
    sendFrom len cut i = cut i (min (len - i) batch) :: sendFrom len cut (i + batch) := by
  rw [sendFrom, if_pos h]

theorem sendFrom_of_ge (h : len ≤ i) (cut : Nat → Nat → Payload) :
    sendFrom len cut i = [] := by
  rw [sendFrom, if_neg (Nat.not_lt.mpr h)]

/-- A batch of a list and what is behind it. -/
theorem take_batch_append {α : Type} (xs : List α) (i : Nat) :
    (xs.drop i).take (min (xs.length - i) batch) ++ xs.drop (i + batch) = xs.drop i := by
  have htake : (xs.drop i).take (min (xs.length - i) batch) = (xs.drop i).take batch := by
    rw [take_eq_take_iff, length_drop]
    omega
  rw [htake, ← drop_drop, take_append_drop]

/-- What arrives from one turn of the loop on. -/
def sentFrom (len : Nat) (cut : Nat → Nat → Payload) (i : Nat) : List UInt8 :=
  (sendFrom len cut i).flatMap fun payload => sendMessage (sendPayload binary payload)

variable {binary : Bool}

theorem sentFrom_of_lt (h : i < len) (cut : Nat → Nat → Payload) :
    sentFrom binary len cut i = sendMessage (sendPayload binary (cut i (min (len - i) batch))) ++
        sentFrom binary len cut (i + batch) := by
  rw [sentFrom, sendFrom_of_lt h, flatMap_cons]
  rfl

theorem sentFrom_of_ge (h : len ≤ i) (cut : Nat → Nat → Payload) :
    sentFrom binary len cut i = [] := by
  rw [sentFrom, sendFrom_of_ge h]
  rfl

/-- Induction over the turns of the loop, from the last one. -/
theorem turns (len : Nat) {motive : Nat → Prop} (done : ∀ i, len ≤ i → motive i)
    (turn : ∀ i, i < len → motive (i + batch) → motive i) (i : Nat) : motive i := by
  induction h : len - i using Nat.strong_induction_on generalizing i with
  | _ n ih =>
    by_cases hlt : i < len
    · have hbatch := batch_pos
      exact turn i hlt (ih (len - (i + batch)) (by omega) (i + batch) rfl)
    · exact done i (Nat.not_lt.mp hlt)

/-! ### Texts -/

/-- A surrogate pair of the text is at both sides of a position. -/
def Straddled (units : List Nat) (pos : Nat) : Prop :=
  Utf16.Cut (units.take pos) (units.drop pos)

/-- A batch ends inside a pair when the pair is at both sides of its end. -/
theorem cut_batch_iff {units : List Nat} (h : i < units.length) :
    Utf16.Cut ((units.drop i).take (min (units.length - i) batch)) (units.drop (i + batch)) ↔
      Straddled units (i + batch) := by
  have hbatch := batch_pos
  have hne : (units.drop i).take batch ≠ [] := by
    rw [← length_pos_iff_ne_nil, length_take, length_drop]
    omega
  have htake : (units.drop i).take (min (units.length - i) batch) = (units.drop i).take batch := by
    rw [take_eq_take_iff, length_drop]
    omega
  rw [htake, Straddled, take_add, Utf16.Cut, Utf16.Cut, getLast?_append_of_ne_nil _ hne]

/-- The batches from one turn on: none of the pairs behind it may be straddled. -/
theorem sentFrom_text (binary : Bool) (units : List Nat) (i : Nat) :
    (encode (units.drop i)).length ≤
        (sentFrom binary units.length (fun i n => .text ((units.drop i).take n)) i).length ∧
      (sentFrom binary units.length (fun i n => .text ((units.drop i).take n)) i =
          encode (units.drop i) ↔
        ∀ k, ¬ Straddled units (i + (k + 1) * batch)) := by
  induction i using turns units.length with
  | done i hi =>
    have hnil : units.drop i = [] := drop_eq_nil_of_le hi
    rw [sentFrom_of_ge hi, hnil]
    refine ⟨Nat.le_refl _, iff_of_true rfl ?_⟩
    rintro k ⟨-, -, low, hlow, -⟩
    rw [drop_eq_nil_of_le (by omega)] at hlow
    cases hlow
  | turn i hi ih =>
    obtain ⟨hle, hiff⟩ := ih
    have hsplit := take_batch_append units i
    have hcut := cut_batch_iff hi
    rw [sentFrom_of_lt hi]
    generalize (units.drop i).take (min (units.length - i) batch) = chunk at hsplit hcut ⊢
    have hchunk : sendMessage (sendPayload binary (.text chunk)) = encode chunk := rfl
    have hnext : ∀ k, i + (k + 1 + 1) * batch = i + batch + (k + 1) * batch := by
      intro k
      rw [Nat.succ_mul (k + 1) batch]
      omega
    have hshift : (∀ k, ¬ Straddled units (i + (k + 1) * batch)) ↔
        ¬ Straddled units (i + batch) ∧ ∀ k, ¬ Straddled units (i + batch + (k + 1) * batch) := by
      constructor
      · intro h
        refine ⟨by simpa using h 0, fun k => ?_⟩
        rw [← hnext]
        exact h (k + 1)
      rintro ⟨h0, h⟩ k
      cases k with
      | zero => simpa using h0
      | succ k =>
        rw [hnext]
        exact h k
    rw [hchunk, hshift, length_append]
    by_cases h : Straddled units (i + batch)
    · -- too many bytes from here on
      have hlen := length_encode_cut (hcut.mpr h)
      rw [hsplit] at hlen
      refine ⟨by omega, iff_of_false (fun heq => ?_) (fun hno => hno.1 h)⟩
      have := congrArg length heq
      rw [length_append] at this
      omega
    have happ := encode_append (mt hcut.mp h)
    rw [hsplit] at happ
    rw [happ, length_append, append_cancel_left_eq, hiff]
    exact ⟨by omega, (and_iff_right h).symm⟩

/-- **A text comes out whole unless a batch ends inside a surrogate pair.** -/
theorem sent_text_iff (binary : Bool) (units : List Nat) :
    sent binary (.text units) = encode units ↔
      ∀ k, ¬ Straddled units ((k + 1) * batch) := by
  have h := (sentFrom_text binary units 0).2
  simp only [drop_zero, Nat.zero_add] at h
  exact h

/-! ### Arrays of bytes -/

/-- On a binary channel the beginning of the buffer arrives. -/
theorem sentFrom_bytes (buffer : List UInt8) (h : len ≤ buffer.length) (i : Nat) :
    sentFrom true len (fun i n => .bytes ((buffer.drop i).take n)) i = (buffer.take len).drop i := by
  have hlen : (buffer.take len).length = len := length_take_of_le h
  induction i using turns len with
  | done i hi => rw [sentFrom_of_ge hi, drop_eq_nil_of_le (by omega)]
  | turn i hi ih =>
    have hsplit := take_batch_append (buffer.take len) i
    have hbatch := batch_pos
    have hchunk : ((buffer.take len).drop i).take (min (len - i) batch) =
        (buffer.drop i).take (min (len - i) batch) := by
      rw [drop_take, take_take]
      congr 1
      omega
    rw [hlen, hchunk] at hsplit
    have hlong := congrArg length hchunk
    rw [sentFrom_of_lt hi, ih, ← hsplit, sendPayload, if_pos rfl, sendMessage, if_neg]
    rw [length_take, length_drop]
    omega

/-- Numbers with commas are longer than the numbers they are of. -/
theorem length_stringOf : ∀ {data}, data ≠ [] → 2 * data.length ≤ (stringOf data).length + 1
  | [], h => absurd rfl h
  | [b], _ => by
    have := length_decimal_pos b.toNat
    simp only [stringOf, length_map, length_singleton]
    omega
  | b :: c :: data, _ => by
    have ih := length_stringOf (cons_ne_nil c data)
    have := length_decimal_pos b.toNat
    simp only [stringOf, length_append, length_map, length_cons] at ih ⊢
    omega

/-- On another channel too much arrives. -/
theorem sentFrom_string (buffer : List UInt8) (h : len ≤ buffer.length) (i : Nat) :
    len - i ≤ (sentFrom false len (fun i n => .bytes ((buffer.drop i).take n)) i).length ∧
      (i + 2 ≤ len → len - i <
        (sentFrom false len (fun i n => .bytes ((buffer.drop i).take n)) i).length) := by
  induction i using turns len with
  | done i hi => omega
  | turn i hi ih =>
    have hbatch : batch = 16384 := rfl
    have hlen : ((buffer.drop i).take (min (len - i) batch)).length = min (len - i) batch := by
      rw [length_take, length_drop]
      omega
    rw [sentFrom_of_lt hi]
    generalize (buffer.drop i).take (min (len - i) batch) = chunk at hlen ⊢
    have hne : chunk ≠ [] := by
      rw [← length_pos_iff_ne_nil, hlen]
      omega
    have hstring := length_stringOf hne
    have hencode := length_le_encode (stringOf chunk)
    have hchunk : sendMessage (sendPayload false (.bytes chunk)) = encode (stringOf chunk) := rfl
    rw [hchunk, length_append]
    omega

/-- A number that is sent as a string is a byte if it is a digit. -/
theorem encode_stringOf_iff (b c : UInt8) :
    encode (stringOf [b]) = [c] ↔ b.toNat < 10 ∧ c.toNat = 48 + b.toNat := by
  have hdigit : b.toNat < 10 → encode (stringOf [b]) = [UInt8.ofNat (48 + b.toNat)] := by
    intro hlt
    have hscalar : scalar (48 + b.toNat) = 48 + b.toNat := by
      rw [scalar, if_neg]
      simp only [isHigh, isLow, Bool.or_eq_true, Bool.and_eq_true, decide_eq_true_eq]
      omega
    rw [stringOf, decimal, if_pos hlt, map_singleton, toNat_digit hlt, encode,
      points, flatMap_singleton, hscalar, octets, if_pos (by omega)]
  have hbyte : b.toNat < 10 → (UInt8.ofNat (48 + b.toNat)).toNat = 48 + b.toNat := by
    intro hlt
    rw [UInt8.toNat_ofNat']
    omega
  constructor
  · intro heq
    have hlen := length_le_encode (stringOf [b])
    rw [heq, stringOf, length_map] at hlen
    have hlt : b.toNat < 10 := by
      simpa using (length_decimal_le_iff b.toNat 0).mp (by simpa using hlen)
    rw [hdigit hlt] at heq
    exact ⟨hlt, by rw [← head_eq_of_cons_eq heq, hbyte hlt]⟩
  · rintro ⟨hlt, hc⟩
    rw [hdigit hlt, ← hc, UInt8.ofNat_toNat]

/-- A view of one byte that is the digit for the first byte of its buffer. -/
def IsDigit (view : Uint8Array) : Prop :=
  ∃ b c, view.buffer.take view.byteLength = [b] ∧ view.bytes = [c] ∧ b.toNat < 10 ∧
    c.toNat = 48 + b.toNat

/-- **An array of bytes comes out whole** on a binary channel if the buffer that it is a view of
    starts with it, and when it is empty.  A single byte can come out of another channel. -/
theorem sent_bytes_iff (binary : Bool) (view : Uint8Array) :
    sent binary (.bytes view) = view.bytes ↔
      view.byteLength = 0 ∨ (binary ∧ view.buffer.take view.byteLength = view.bytes) ∨
        (binary = false ∧ IsDigit view) := by
  have hbounds := view.inBounds
  have hle : view.byteLength ≤ view.buffer.length := by omega
  have hlen : view.bytes.length = view.byteLength := by
    rw [Uint8Array.bytes, length_take, length_drop]
    omega
  have hsent : sent binary (.bytes view) = sentFrom binary view.byteLength
    (fun i n => .bytes ((view.buffer.drop i).take n)) 0 := rfl
  rw [hsent]
  by_cases hzero : view.byteLength = 0
  · have hnil : view.bytes = [] := eq_nil_of_length_eq_zero (hlen.trans hzero)
    rw [sentFrom_of_ge (by omega), hnil]
    exact iff_of_true rfl (.inl hzero)
  cases binary with
  | true =>
    rw [sentFrom_bytes _ hle, drop_zero]
    simp [hzero]
  | false =>
    have htake : (view.buffer.take view.byteLength).length = view.byteLength :=
      length_take_of_le hle
    by_cases htwo : 2 ≤ view.byteLength
    · have hlong := (sentFrom_string view.buffer hle 0).2 (by omega)
      refine iff_of_false (fun heq => ?_) ?_
      · rw [heq] at hlong
        omega
      rintro (h | ⟨h, -⟩ | ⟨-, b, c, hb, -⟩)
      · exact hzero h
      · cases h
      · rw [hb, length_singleton] at htake
        omega
    -- a single byte
    have hone : view.byteLength = 1 := by omega
    obtain ⟨b, hb⟩ := length_eq_one_iff.mp (htake.trans hone)
    obtain ⟨c, hc⟩ := length_eq_one_iff.mp (hlen.trans hone)
    have hbatch := batch_pos
    have hmin : min (view.byteLength - 0) batch = view.byteLength := by omega
    rw [sentFrom_of_lt (by omega), sentFrom_of_ge (by omega), append_nil, drop_zero, hmin, hb, hc]
    have hmsg : sendMessage (sendPayload false (.bytes [b])) = encode (stringOf [b]) := rfl
    rw [hmsg, encode_stringOf_iff]
    constructor
    · rintro ⟨hlt, heq⟩
      exact .inr (.inr ⟨rfl, b, c, hb, hc, hlt, heq⟩)
    rintro (h | ⟨h, -⟩ | ⟨-, b', c', hb', hc', hlt, heq⟩)
    · exact absurd h hzero
    · cases h
    · cases hb.symm.trans hb'
      cases hc.symm.trans hc'
      exact ⟨hlt, heq⟩

/-! ### Every content -/

/-- What does not come to harm. -/
def Whole (binary : Bool) : Content → Prop
  | .null => True
  | .text units => ∀ k, ¬ Straddled units ((k + 1) * batch)
  | .bytes view =>
    view.byteLength = 0 ∨ (binary ∧ view.buffer.take view.byteLength = view.bytes) ∨
      (binary = false ∧ IsDigit view)

/-- **When `replace` sends the whole content.** -/
theorem sent_eq_octets_iff (binary : Bool) (content : Content) :
    sent binary content = content.octets ↔ Whole binary content := by
  cases content with
  | null => exact iff_of_true rfl trivial
  | text units => exact sent_text_iff binary units
  | bytes view => exact sent_bytes_iff binary view

/-- A text whose first batch ends inside a pair. -/
def emoji : List Nat := replicate 16383 97 ++ [0xD83D, 0xDE00]

theorem straddled_emoji : Straddled emoji ((0 + 1) * batch) := by
  have hlen : (replicate 16383 97 ++ [0xD83D]).length = (0 + 1) * batch := by
    rw [length_append, length_replicate]
    rfl
  have hsplit : emoji = (replicate 16383 97 ++ [0xD83D]) ++ [0xDE00] := by
    rw [emoji, append_assoc]
    rfl
  rw [Straddled, hsplit, take_left' hlen, drop_left' hlen]
  exact ⟨0xD83D, getLast?_concat, 0xDE00, rfl, rfl, rfl⟩

/-- The pair is sent as two unpaired surrogates; and of the second half of a buffer, the first half
    is sent. -/
theorem sent_not_whole :
    sent false (.text emoji) ≠ Content.octets (.text emoji) ∧
      sent true (.bytes ⟨[1, 2], 1, 1, by decide⟩) ≠
        Content.octets (.bytes ⟨[1, 2], 1, 1, by decide⟩) := by
  constructor
  · intro h
    exact (sent_text_iff false emoji).mp h 0 straddled_emoji
  intro h
  rcases (sent_bytes_iff true _).mp h with h | ⟨-, h⟩ | ⟨h, -⟩
  · cases h
  · exact nomatch h
  · cases h

end Cockpit.Page.Replace
