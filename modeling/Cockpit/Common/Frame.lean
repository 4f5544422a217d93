import Cockpit.Lib.Decimal
import Cockpit.Common.GLib

namespace Cockpit

open Lib List

/-!
# `src/common/cockpitframe.c` and the frames of `src/common/cockpittransport.c`

A message on a stream is `length "\n" channel "\n" payload`, where `length` counts the bytes
after the first newline.  `Frame.parse` reads the length prefix and gives up after eight
digits; `Frame.parseFrame` splits what follows it.

* `Frame.parse_too_long` — a longer one is refused as soon as nine bytes of it are there;
* `Frame.parse_append` — more bytes never change a decision.
-/

/-- The newline. -/
def newline : UInt8 := 10

namespace Frame

/-- `MAX_FRAME_SIZE_BYTES` -/
def maxFrameSizeBytes : Nat := 7

/-- What `cockpit_frame_parse` returns: zero, minus one, or a size with `*consumed` set. -/
inductive Parsed where
  | wantMore
  | failure
  | size (size consumed : Nat)
  deriving DecidableEq, Repr

/-- The loop of `cockpit_frame_parse` from offset `i` on, with the offset and the size at which
    it stops.  A byte above 127 is a negative `char`, so it is no digit either. -/
def parseLoop (i size : Nat) : Bytes → Nat × Nat
  | [] => (i, size)
  | b :: input =>
    if i > maxFrameSizeBytes || !isDigit b then (i, size)
    else parseLoop (i + 1) (size * 10 + digitValue b) input

/-- `cockpit_frame_parse` -/
def parse (input : Bytes) : Parsed :=
  let stop := parseLoop 0 0 input
  match input.drop stop.1 with
  | [] => .wantMore
  | b :: _ => if stop.2 = 0 || b != newline then .failure else .size stop.2 (stop.1 + 1)

/-- `parse_frame`: the channel and the payload of a message, or nothing when the message is
    ignored. -/
def parseFrame (message : Bytes) : Option (Option CStr × Bytes) :=
  match message.dropWhile (· != newline) with
  | [] => none
  | _ :: payload =>
    if h : (0 : UInt8) ∈ message.takeWhile (· != newline) then none
    else if message.takeWhile (· != newline) = [] then some (none, payload)
    else some (some ⟨message.takeWhile (· != newline), h⟩, payload)

/-! ### The length prefix -/

variable {input : Bytes} {i size n : Nat}

/-- A loop that stopped inside its input stops there with more input, too. -/
theorem parseLoop_append (more : Bytes) (h : (parseLoop i size input).1 < i + input.length) :
    parseLoop i size (input ++ more) = parseLoop i size input := by
  induction input generalizing i size with
  | nil => simp [parseLoop] at h
  | cons b input ih =>
    rw [cons_append, parseLoop]
    unfold parseLoop at h
    conv => rhs; unfold parseLoop
    split
    · rfl
    · rename_i hstop
      rw [if_neg hstop, length_cons] at h
      exact ih (by omega)

/-- The loop over digits that fit. -/
theorem parseLoop_digits (i size : Nat) (ds rest : Bytes) (hd : ∀ b ∈ ds, isDigit b)
    (hlen : i + ds.length ≤ maxFrameSizeBytes + 1) :
    parseLoop i size (ds ++ rest) = parseLoop (i + ds.length) (digitsValue size ds) rest := by
  induction ds generalizing i size with
  | nil => rfl
  | cons d ds ih =>
    rw [length_cons] at hlen
    have hgo : ¬ (i > maxFrameSizeBytes || !isDigit d) := by
      have := hd d mem_cons_self
      simp only [this, Bool.not_true, Bool.or_false, decide_eq_true_eq]
      omega
    rw [cons_append, parseLoop, if_neg hgo,
      ih (i + 1) _ (fun b hb => hd b (mem_cons_of_mem _ hb)) (by omega), length_cons,
      Nat.add_right_comm, Nat.add_assoc]
    rfl

/-- **More bytes never change a decision.** -/
theorem parse_append (more : Bytes) (h : parse input ≠ .wantMore) :
    parse (input ++ more) = parse input := by
  have hlt : (parseLoop 0 0 input).1 < input.length := by
    by_contra hge
    apply h
    simp only [parse]
    rw [drop_eq_nil_of_le (by omega)]
  have happ := parseLoop_append more (by rw [Nat.zero_add]; exact hlt)
  simp only [parse]
  rw [happ, drop_append_of_le_length (Nat.le_of_lt hlt)]
  cases hdrop : input.drop (parseLoop 0 0 input).1 with
  | nil =>
    rw [drop_eq_nil_iff] at hdrop
    omega
  | cons b rest => rfl

/-- A size is positive, and its prefix is part of the input. -/
theorem parse_size (h : parse input = .size size i) :
    0 < size ∧ i ≤ input.length := by
  simp only [parse] at h
  cases hdrop : input.drop (parseLoop 0 0 input).1 with
  | nil => rw [hdrop] at h; exact nomatch h
  | cons b rest =>
    rw [hdrop] at h
    dsimp only at h
    split at h
    · exact nomatch h
    rename_i hok
    obtain ⟨rfl, rfl⟩ : (parseLoop 0 0 input).2 = size ∧ (parseLoop 0 0 input).1 + 1 = i := by
      simpa using h
    have hlt := congrArg List.length hdrop
    rw [length_drop, length_cons] at hlt
    simp only [Bool.or_eq_true, decide_eq_true_eq, not_or] at hok
    omega

/-- **A length below 100000000 is read back.** -/
theorem parse_encoded (hpos : 0 < n) (hlt : n < 100000000) (rest : Bytes) :
    parse (decimal n ++ newline :: rest) = .size n ((decimal n).length + 1) := by
  have hlen : (decimal n).length ≤ 7 + 1 := (length_decimal_le_iff n 7).mpr (by omega)
  have hloop := parseLoop_digits 0 0 (decimal n) (newline :: rest)
    isDigit_of_mem_decimal (by unfold maxFrameSizeBytes; omega)
  rw [digitsValue_decimal, Nat.zero_add] at hloop
  have hstop : parseLoop (decimal n).length n (newline :: rest) = ((decimal n).length, n) := by
    rw [parseLoop, if_pos (by rw [show isDigit newline = false from by decide]; simp)]
  simp only [parse]
  rw [hloop, hstop, drop_left]
  simp [Nat.pos_iff_ne_zero.mp hpos]

/-- **A longer one is refused**, once nine bytes of it are there. -/
theorem parse_too_long (hge : 100000000 ≤ n) (rest : Bytes) :
    parse (decimal n ++ rest) = .failure := by
  have hlen : ¬ (decimal n).length ≤ 7 + 1 := by rw [length_decimal_le_iff]; omega
  -- the first eight digits are read, and the loop stops at the ninth
  obtain ⟨d, ds, hsplit⟩ : ∃ d ds, (decimal n).drop 8 = d :: ds :=
    exists_cons_of_length_pos (by rw [length_drop]; omega)
  have hdecimal : decimal n ++ rest = (decimal n).take 8 ++ d :: (ds ++ rest) := by
    rw [← cons_append, ← hsplit, ← append_assoc, take_append_drop]
  have hlen8 : ((decimal n).take 8).length = 8 := by rw [length_take]; omega
  have hloop := parseLoop_digits 0 0 ((decimal n).take 8) (d :: (ds ++ rest))
    (fun b hb => isDigit_of_mem_decimal b (mem_of_mem_take hb))
    (by rw [hlen8]; unfold maxFrameSizeBytes; omega)
  rw [hlen8, parseLoop, if_pos (by simp [maxFrameSizeBytes])] at hloop
  have hd : d ≠ newline := by
    rintro rfl
    have := isDigit_of_mem_decimal newline (mem_of_mem_drop (hsplit ▸ mem_cons_self))
    exact nomatch this
  simp only [parse]
  rw [hdecimal, hloop]
  simp only [Nat.zero_add, drop_append_of_le_length (Nat.le_of_eq hlen8.symm)]
  rw [drop_eq_nil_of_le (Nat.le_of_eq hlen8)]
  simp [hd]

/-! ### Channel and payload -/

/-- The bytes after the length prefix. -/
def body (channel : Option CStr) (payload : Bytes) : Bytes :=
  (channel.getD CStr.empty).bytes ++ newline :: payload

/-- Channel and payload are found again, unless the channel holds a newline or is the empty
    string. -/
theorem parseFrame_body {channel : Option CStr} (hne : channel ≠ some CStr.empty)
    (hnl : newline ∉ (channel.getD CStr.empty).bytes) (payload : Bytes) :
    parseFrame (body channel payload) = some (channel, payload) := by
  have hall : ∀ b ∈ (channel.getD CStr.empty).bytes, (b != newline) := by
    intro b hb
    rw [bne_iff_ne]
    rintro rfl
    exact hnl hb
  have htake : (body channel payload).takeWhile (· != newline) =
      (channel.getD CStr.empty).bytes := by
    unfold body
    rw [takeWhile_append_of_pos hall]
    simp
  have hdrop : (body channel payload).dropWhile (· != newline) = newline :: payload := by
    unfold body
    rw [dropWhile_append_of_pos hall]
    simp
  unfold parseFrame
  rw [hdrop]
  simp only [htake]
  rw [dif_neg (channel.getD CStr.empty).noNul]
  cases channel with
  | none => rfl
  | some s =>
    have hs : s.bytes ≠ [] := fun h => hne (congrArg some (CStr.ext h))
    simp [hs]

end Frame

end Cockpit
