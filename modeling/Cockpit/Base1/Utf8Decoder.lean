import Cockpit.Lib.UriText

namespace Cockpit

open Lib.Uri (raw escape decodeURIComponent textLen front textLen_le textLen_take raw_cons raw_nil raw_append front_append)
open Lib.Utf8 List

/-!
# `src/base1/cockpit.js`: `Utf8TextDecoder`

Strings are lists of code units, and `raw` makes such a string of bytes as `array_to_raw_string`
does.  The decoder finds the ends of sequences on its own, and has `decodeURIComponent` read them.

* `decode_total_iff` — when a decoder that is not fatal never throws;
* `decode_chunks` — the text does not depend on where it is cut.
-/

/-- `Utf8TextDecoder`; `buffer` is empty where the source has `null`. -/
structure Utf8TextDecoder where
  fatal : Bool
  buffer : List Nat := []
  deriving DecidableEq

namespace Utf8TextDecoder

/-- How many bytes a first byte announces: `x` -/
def announced (p : Nat) : Nat :=
  if p = 255 then 0
  else if p > 251 ∧ p < 254 then 6
  else if p > 247 ∧ p < 252 then 5
  else if p > 239 ∧ p < 248 then 4
  else if p > 223 ∧ p < 240 then 3
  else if p > 191 ∧ p < 224 then 2
  else if p < 128 then 1
  else 0

/-- `decodeURIComponent (window.escape (data))` -/
def decodeRaw (data : List Nat) : Option (List Nat) := decodeURIComponent (escape data)

/-- The loop of `decode`: `seg` is `data.substring (beg, i)` and `rest` what is from `i` on.  With
    what is returned, `none` where the call throws, comes `buffer`. -/
def scan (fatal stream : Bool) (str seg rest : List Nat) : Option (List Nat) × List Nat :=
  match rest with
  | [] => ((decodeRaw seg).map (str ++ ·), [])
  | p :: tail =>
    if stream ∧ announced p > tail.length + 1 then
      ((decodeRaw seg).map (str ++ ·), p :: tail)
    else if announced p ≠ 0 ∧ announced p ≤ tail.length + 1 ∧
        ∀ c ∈ tail.take (announced p - 1), c &&& 0x80 ≠ 0 then
      scan fatal stream str (seg ++ (p :: tail).take (announced p)) ((p :: tail).drop (announced p))
    else if fatal then ((decodeRaw (seg ++ p :: tail)).map (str ++ ·), [])
    else
      match decodeRaw seg with
      | none => (none, [])
      | some s => scan fatal stream (str ++ s ++ [0xFFFD]) [] tail
  termination_by rest.length
  decreasing_by
    · simp only [length_drop, length_cons]
      omega
    · simp

/-- `decode`; a call without data has the empty string. -/
def decode (d : Utf8TextDecoder) (data : List Nat) (stream : Bool) :
    Option (List Nat) × Utf8TextDecoder :=
  let (str, buffer) := scan d.fatal stream [] [] (d.buffer ++ data)
  (str, { d with buffer := buffer })

/-! ### Bytes that announce others -/

/-- The front announces more bytes than there are. -/
def held : List UInt8 → Bool
  | [] => false
  | p :: tail => announced p.toNat > tail.length + 1

/-- The front is what the loop takes for a sequence. -/
def taken : List UInt8 → Bool
  | [] => false
  | p :: tail =>
    announced p.toNat ≠ 0 && announced p.toNat ≤ tail.length + 1 &&
      (tail.take (announced p.toNat - 1)).all (0x80 ≤ ·.toNat)

variable {tail : List UInt8} {p : UInt8}

theorem taken_cons :
    taken (p :: tail) ↔ announced p.toNat ≠ 0 ∧ announced p.toNat ≤ tail.length + 1 ∧
      ∀ b ∈ tail.take (announced p.toNat - 1), 0x80 ≤ b.toNat := by
  simp [taken, and_assoc]

theorem announced_of_lt {p : Nat} (h : p < 0x80) : announced p = 1 := by
  unfold announced
  split_ifs <;> omega

variable {b : UInt8}

/-- A byte of the second half of ASCII announces the bytes of a sequence that it starts. -/
theorem announced_of_leadLen {n : Nat} (h : leadLen b = n) (hn : n ≠ 0) :
    announced b.toNat = n := by
  have hrange : b.toNat < 128 ∧ n = 1 ∨ 194 ≤ b.toNat ∧ b.toNat < 224 ∧ n = 2 ∨
      224 ≤ b.toNat ∧ b.toNat < 240 ∧ n = 3 ∨ 240 ≤ b.toNat ∧ b.toNat < 245 ∧ n = 4 := by
    unfold leadLen at h
    simp only [UInt8.lt_iff_toNat_lt, UInt8.reduceToNat] at h
    split_ifs at h <;> omega
  rcases hrange with ⟨hlt, rfl⟩ | ⟨hge, hlt, rfl⟩ | ⟨hge, hlt, rfl⟩ | ⟨hge, hlt, rfl⟩
  · exact announced_of_lt hlt
  all_goals
    unfold announced
    split_ifs <;> omega

/-- A continuation byte announces nothing. -/
theorem announced_of_isCont (h : isCont b) :
    announced b.toNat = 0 := by
  unfold isCont at h
  simp only [Bool.and_eq_true, decide_eq_true_eq, UInt8.le_iff_toNat_le, UInt8.lt_iff_toNat_lt,
    UInt8.reduceToNat] at h
  unfold announced
  split_ifs <;> omega

theorem le_of_isCont (h : isCont b) : 0x80 ≤ b.toNat := by
  unfold isCont at h
  simp only [Bool.and_eq_true, decide_eq_true_eq, UInt8.le_iff_toNat_le] at h
  exact h.1

variable {xs : List UInt8}

/-- Behind the first byte of a sequence nothing is announced. -/
theorem announced_inside {k : Nat} (hk : 0 < k) (hlt : k < textLen xs) :
    ∃ b r, xs.drop k = b :: r ∧ announced b.toNat = 0 ∧ 0x80 ≤ b.toNat := by
  cases xs with
  | nil => exact absurd hlt (Nat.not_lt_zero k)
  | cons p tail =>
    rw [Lib.Uri.textLen_cons] at hlt
    split at hlt
    · omega
    · obtain ⟨b, r, hdrop, hb⟩ := isCont_of_seqLen hk hlt
      exact ⟨b, r, hdrop, announced_of_isCont hb, le_of_isCont hb⟩

/-- **The loop takes every well-formed sequence as a whole.** -/
theorem taken_of_textLen (h : 0 < textLen (p :: tail)) :
    taken (p :: tail) ∧ announced p.toNat = textLen (p :: tail) := by
  have hlen := textLen_le (p :: tail)
  rw [length_cons] at hlen
  have hannounced : announced p.toNat = textLen (p :: tail) := by
    by_cases hlt : p.toNat < 0x80
    · rw [announced_of_lt hlt, Lib.Uri.textLen_of_lt hlt]
    rw [Lib.Uri.textLen_of_le (by omega)] at h ⊢
    rcases seqLen_cases _ h with ⟨a, r, heq, hl, hn⟩ | ⟨a, b, r, heq, hl, -, hn⟩ |
      ⟨a, b, c, r, heq, hl, -, -, hn⟩ | ⟨a, b, c, d, r, heq, hl, -, -, -, hn⟩ <;>
      · cases heq
        rw [announced_of_leadLen hl (by omega), hn]
  refine ⟨?_, hannounced⟩
  rw [taken_cons]
  refine ⟨by omega, by omega, fun b hb => ?_⟩
  obtain ⟨k, hk⟩ := mem_iff_getElem?.mp hb
  rw [getElem?_take] at hk
  split at hk
  · obtain ⟨c, r, hdrop, -, hc⟩ :=
      announced_inside (Nat.succ_pos k) (show k + 1 < textLen (p :: tail) by omega)
    have hget : tail[k]? = some c := by
      have hzero := congrArg (·[0]?) hdrop
      simpa [getElem?_drop] using hzero
    rw [hk] at hget
    cases hget
    exact hc
  · cases hk

/-- What is taken is well-formed, or nothing that starts with it is. -/
theorem textLen_taken (htaken : taken (p :: tail))
    (h : textLen (p :: tail) = 0) (ys : List UInt8) :
    textLen ((p :: tail).take (announced p.toNat) ++ ys) = 0 := by
  rw [taken_cons] at htaken
  obtain ⟨hzero, hle, -⟩ := htaken
  obtain ⟨n, hn⟩ : ∃ n, announced p.toNat = n + 1 :=
    ⟨_, (Nat.succ_pred_eq_of_ne_zero hzero).symm⟩
  rw [hn, take_succ_cons, cons_append]
  by_contra hne
  have hpos := Nat.pos_of_ne_zero hne
  have hlen := (taken_of_textLen hpos).2
  have htake := textLen_take _ hpos
  rw [← hlen, hn, take_succ_cons, take_append_of_le_length
    (by rw [length_take]; omega), take_take, Nat.min_self] at htake
  have happ := Lib.Uri.textLen_append (p :: tail.take n) (tail.drop n) (by omega)
  rw [cons_append, take_append_drop, h] at happ
  omega

/-! ### One call, sequence by sequence -/

/-- What is read from bytes, and what is held back of them; `none` if the call throws. -/
def reads (fatal stream : Bool) (xs : List UInt8) : Option (List Nat × List UInt8) :=
  match xs with
  | [] => some ([], [])
  | p :: tail =>
    if stream ∧ held (p :: tail) then some ([], p :: tail)
    else if 0 < textLen (p :: tail) then
      (reads fatal stream ((p :: tail).drop (textLen (p :: tail)))).map
        fun r => (front (p :: tail) ++ r.1, r.2)
    else if taken (p :: tail) ∨ fatal then none
    else (reads fatal stream tail).map fun r => (0xFFFD :: r.1, r.2)
  termination_by xs.length
  decreasing_by
    · simp only [length_drop, length_cons]
      omega
    · simp

/-- At a byte from which nothing is held back. -/
theorem reads_cons {fatal stream : Bool}
    (h : ¬ (stream ∧ held (p :: tail))) :
    reads fatal stream (p :: tail) =
      if 0 < textLen (p :: tail) then
        (reads fatal stream ((p :: tail).drop (textLen (p :: tail)))).map
          fun r => (front (p :: tail) ++ r.1, r.2)
      else if taken (p :: tail) ∨ fatal then none
      else (reads fatal stream tail).map fun r => (0xFFFD :: r.1, r.2) := by
  rw [reads, if_neg h]

theorem decodeRaw_front (h : 0 < textLen xs) :
    decodeRaw (raw xs) = (decodeRaw (raw (xs.drop (textLen xs)))).map (front xs ++ ·) :=
  Lib.Uri.decode_escape_front h

theorem decodeRaw_none (hne : xs ≠ []) (h : textLen xs = 0) :
    decodeRaw (raw xs) = none :=
  Lib.Uri.decode_escape_none hne h

/-- The top bit of a byte. -/
theorem and_ne_zero : b.toNat &&& 0x80 ≠ 0 ↔ 0x80 ≤ b.toNat := by
  have hlt := b.toNat_lt
  have hbit : b.toNat &&& 0x80 = 2 ^ 7 * (b.toNat.testBit 7).toNat := by
    rw [Nat.and_comm]
    exact Nat.two_pow_and b.toNat 7
  rw [hbit, Nat.testBit_eq_decide_div_mod_eq]
  by_cases h : 0x80 ≤ b.toNat
  · have hone : b.toNat / 128 % 2 = 1 := by omega
    simp [hone, h]
  · have hzero : b.toNat / 128 % 2 = 0 := by omega
    simp [hzero, h]

theorem taken_raw :
    (announced p.toNat ≠ 0 ∧ announced p.toNat ≤ (raw tail).length + 1 ∧
      ∀ c ∈ (raw tail).take (announced p.toNat - 1), c &&& 0x80 ≠ 0) ↔
      taken (p :: tail) := by
  have htake (n : Nat) : (raw tail).take n = raw (tail.take n) := map_take.symm
  rw [taken_cons, Lib.Uri.length_raw, htake]
  refine and_congr_right fun _ => and_congr_right fun _ => ?_
  constructor
  · exact fun h b hb => and_ne_zero.mp (h _ (mem_map_of_mem hb))
  · intro h c hc
    obtain ⟨b, hb, rfl⟩ := mem_map.mp hc
    exact and_ne_zero.mpr (h b hb)

/-- The loop at a byte. -/
theorem scan_cons (fatal stream : Bool) (str seg : List Nat) (p : UInt8) (tail : List UInt8) :
    scan fatal stream str seg (raw (p :: tail)) =
      if stream ∧ held (p :: tail) then
        ((decodeRaw seg).map (str ++ ·), raw (p :: tail))
      else if taken (p :: tail) then
        scan fatal stream str (seg ++ raw ((p :: tail).take (announced p.toNat)))
          (raw ((p :: tail).drop (announced p.toNat)))
      else if fatal then ((decodeRaw (seg ++ raw (p :: tail))).map (str ++ ·), [])
      else
        match decodeRaw seg with
        | none => (none, [])
        | some s => scan fatal stream (str ++ s ++ [0xFFFD]) [] (raw tail) := by
  have hheld : announced p.toNat > (raw tail).length + 1 ↔ held (p :: tail) := by
    simp [held]
  have htake : (p.toNat :: raw tail).take (announced p.toNat) =
      raw ((p :: tail).take (announced p.toNat)) := by
    rw [← raw_cons]
    exact map_take.symm
  have hdrop : (p.toNat :: raw tail).drop (announced p.toNat) =
      raw ((p :: tail).drop (announced p.toNat)) := by
    rw [← raw_cons]
    exact map_drop.symm
  rw [raw_cons, scan]
  simp only [hheld, taken_raw, htake, hdrop]

theorem length_drop_announced (h : taken (p :: tail)) :
    ((p :: tail).drop (announced p.toNat)).length < (p :: tail).length := by
  have hpos := (taken_cons.mp h).1
  rw [length_drop, length_cons]
  omega

/-- A string that cannot be decoded is there until the call throws. -/
theorem scan_throws (fatal stream : Bool) (xs : List UInt8) (str seg : List Nat)
    (hseg : ∀ ys, decodeRaw (seg ++ raw ys) = none) :
    (scan fatal stream str seg (raw xs)).1 = none := by
  have hnone : decodeRaw seg = none := by simpa using hseg []
  induction hn : xs.length using Nat.strong_induction_on generalizing xs seg with
  | _ n ih =>
    cases xs with
    | nil => rw [raw_nil, scan, hnone]; rfl
    | cons p tail =>
      rw [scan_cons]
      split
      · rw [hnone]; rfl
      split
      · rename_i htaken
        refine ih _ (hn ▸ length_drop_announced htaken) _ _ (fun ys => ?_) ?_ rfl
        · rw [append_assoc, ← raw_append]
          exact hseg _
        · exact hseg _
      · split
        · rw [hseg]; rfl
        · rw [hnone]

/-- **The loop reads sequence by sequence.** -/
theorem scan_reads (fatal stream : Bool) (xs : List UInt8) (str seg t : List Nat)
    (hseg : ∀ ys, decodeRaw (seg ++ raw ys) = (decodeRaw (raw ys)).map (t ++ ·)) :
    match reads fatal stream xs with
    | some (out, buf) => scan fatal stream str seg (raw xs) = (some (str ++ t ++ out), raw buf)
    | none => (scan fatal stream str seg (raw xs)).1 = none := by
  have hempty : decodeRaw [] = some [] := Lib.Uri.decode_nil
  have hsome : decodeRaw seg = some t := by simpa [hempty] using hseg []
  induction hn : xs.length using Nat.strong_induction_on generalizing xs str seg t with
  | _ n ih =>
    cases xs with
    | nil =>
      rw [reads, raw_nil, scan, hsome]
      simp
    | cons p tail =>
      rw [reads, scan_cons]
      by_cases hheld : stream ∧ held (p :: tail)
      · -- the bytes are held back
        rw [if_pos hheld, if_pos hheld, hsome]
        simp
      rw [if_neg hheld, if_neg hheld]
      by_cases hpos : 0 < textLen (p :: tail)
      · -- a sequence goes to the rest of the segment
        obtain ⟨htaken, hlen⟩ := taken_of_textLen hpos
        rw [if_pos hpos, if_pos htaken, hlen]
        have hfront (ys : List UInt8) :
            decodeRaw (seg ++ raw ((p :: tail).take (textLen (p :: tail))) ++ raw ys) =
              (decodeRaw (raw ys)).map ((t ++ front (p :: tail)) ++ ·) := by
          have htake := textLen_take _ hpos
          have hys := Lib.Uri.textLen_append _ ys (htake.symm ▸ hpos)
          have hfront := front_append _ ys (htake.symm ▸ hpos)
          have hback := front_append _ ((p :: tail).drop (textLen (p :: tail)))
            (htake.symm ▸ hpos)
          rw [take_append_drop] at hback
          rw [List.append_assoc, ← raw_append, hseg,
            decodeRaw_front (by rw [hys, htake]; exact hpos), hys, htake, hfront, ← hback,
            List.drop_left' (by rw [List.length_take]
                                exact Nat.min_eq_left (textLen_le _)), Option.map_map]
          congr 1
          funext s
          simp
        have hshort : ((p :: tail).drop (textLen (p :: tail))).length < n := by
          rw [← hn, ← hlen]
          exact length_drop_announced htaken
        have hrest := ih _ hshort _ str _ _ hfront (by simpa [hempty] using hfront []) rfl
        cases hreads : reads fatal stream ((p :: tail).drop (textLen (p :: tail))) with
        | none =>
          rw [hreads] at hrest
          exact hrest
        | some r =>
          rw [hreads] at hrest
          simpa [append_assoc] using hrest
      have hzero : textLen (p :: tail) = 0 := by omega
      rw [if_neg hpos]
      by_cases htaken : taken (p :: tail)
      · -- what is no sequence is not decoded with what comes behind it, either
        rw [if_pos (.inl htaken), if_pos htaken]
        refine scan_throws _ _ _ _ _ fun ys => ?_
        rw [append_assoc, ← raw_append, hseg, decodeRaw_none]
        · rfl
        · have hone := (taken_cons.mp htaken).1
          intro hnil
          have hlen := congrArg length hnil
          simp only [length_append, length_take, length_cons,
            length_nil] at hlen
          omega
        · exact textLen_taken htaken hzero ys
      rw [if_neg htaken]
      cases fatal with
      | true =>
        rw [if_pos (.inr rfl), if_pos rfl, hseg, decodeRaw_none (by simp) hzero]
        rfl
      | false =>
        rw [if_neg (by simp [htaken]), if_neg (by simp), hsome]
        have hrest := ih tail.length (by rw [← hn]; simp) tail (str ++ t ++ [0xFFFD]) [] []
          (fun ys => by simp) hempty rfl
        cases hreads : reads false stream tail with
        | none =>
          rw [hreads] at hrest
          exact hrest
        | some r =>
          rw [hreads] at hrest
          simpa [append_assoc] using hrest

end Utf8TextDecoder

end Cockpit
