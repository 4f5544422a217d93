import Cockpit.Common.GLib
import Cockpit.Lib.Base64

namespace Cockpit.Base64

open Lib.Base64 (sextet letter pad bytes slop first second third Letters encode length_encode sextet_letter)
open List UInt8 Nat

/-!
# Base64 as `src/common/cockpitbase64.c` reads and writes it

* `pton`, `ntop` — the decoder and the encoder;
* `Decoder.letters_run`, `Decoder.letters_overflow` — what letters do to the decoder.
-/

/-- The largest `int`. -/
def INT_MAX : Nat := 2147483647

/-- `isspace`, in the C locale -/
def isspace (ch : UInt8) : Bool := ch = 32 || 9 ≤ ch && ch ≤ 13

/-- `Base64[]` -/
def base64 : Bytes :=
  "ABCDEFGHIJKLMNOPQRSTUVWXYZabcdefghijklmnopqrstuvwxyz0123456789+/".toList.map
    fun c => ofNat c.toNat

/-- `pos - Base64`, where `pos` is what `strchr` finds. -/
def strchr (ch : UInt8) : Option Nat := base64.findIdx? (· == ch)

/-! ### The decoder -/

/-- How `cockpit_base64_pton` ends when it does not return a length. -/
inductive Failure where
  /-- `return (-1)` -/
  | invalid
  /-- `tarindex` is an `int`: there is no larger one. -/
  | overflow
  deriving DecidableEq

/-- The variables of `cockpit_base64_pton`; `target` has `targsize` bytes, or is `NULL`. -/
structure Decoder where
  state : Fin 4
  tarindex : Nat
  target : Option Bytes

/-- Write to `target`, if there is one and it has a byte at `last`. -/
def store (target : Option Bytes) (last : Nat) (write : Bytes → Bytes) :
    Except Failure (Option Bytes) :=
  match target with
  | none => .ok none
  | some target => if last ≥ target.length then .error .invalid else .ok (some (write target))

/-- `tarindex++` -/
def increment (tarindex : Nat) : Except Failure Nat :=
  if tarindex < INT_MAX then .ok (tarindex + 1) else .error .overflow

/-- `target[index] |= value` -/
def orAt (target : Bytes) (index : Nat) (value : UInt8) : Bytes :=
  target.set index (target.getD index 0 ||| value)

variable (d : Decoder)

/-- A character of the alphabet. -/
def Decoder.letter (pos : Nat) : Except Failure Decoder :=
  match d.state with
  | 0 => do
    let target ← store d.target d.tarindex fun target =>
      target.set d.tarindex (ofNat (pos <<< 2))
    return ⟨1, d.tarindex, target⟩
  | 1 => do
    let target ← store d.target (d.tarindex + 1) fun target =>
      (orAt target d.tarindex (ofNat (pos >>> 4))).set (d.tarindex + 1)
        (ofNat ((pos &&& 0x0f) <<< 4))
    return ⟨2, ← increment d.tarindex, target⟩
  | 2 => do
    let target ← store d.target (d.tarindex + 1) fun target =>
      (orAt target d.tarindex (ofNat (pos >>> 2))).set (d.tarindex + 1)
        (ofNat ((pos &&& 0x03) <<< 6))
    return ⟨3, ← increment d.tarindex, target⟩
  | 3 => do
    let target ← store d.target d.tarindex fun target =>
      orAt target d.tarindex (ofNat pos)
    return ⟨0, ← increment d.tarindex, target⟩

/-- The main loop, up to the end of the string or what is behind a `Pad64`. -/
def scan (d : Decoder) : Bytes → Except Failure (Decoder × Option Bytes)
  | [] => .ok (d, none)
  | ch :: src =>
    if ch = 0 then .ok (d, none)
    else if isspace ch then scan d src
    else if ch = pad then .ok (d, some src)
    else
      match strchr ch with
      | none => .error .invalid
      | some pos => d.letter pos >>= fun d => scan d src

/-- `next_char` -/
def next : Bytes → UInt8 × Bytes
  | [] => (0, [])
  | ch :: src => (ch, src)

/-- The loop that skips any number of spaces. -/
def skipSpaces (ch : UInt8) : Bytes → UInt8 × Bytes
  | [] => if ch ≠ 0 ∧ isspace ch then (0, []) else (ch, [])
  | c :: src => if ch ≠ 0 ∧ isspace ch then skipSpaces c src else (ch, c :: src)

/-- The loop over what is behind the padding: it ends when nothing is left to be read, without a
    look at the character that was read last. -/
def onlySpaces (ch : UInt8) : Bytes → Bool
  | [] => true
  | c :: src => isspace ch && onlySpaces c src

/-- The last check, of the bits behind the last full byte. -/
def Decoder.close : Except Failure (Nat × Option Bytes) :=
  match d.target with
  | none => .ok (d.tarindex, none)
  | some target =>
    if target.getD d.tarindex 0 ≠ 0 then .error .invalid else .ok (d.tarindex, some target)

/-- A single trailing `Pad64`. -/
def Decoder.single (ch : UInt8) (src : Bytes) : Except Failure (Nat × Option Bytes) :=
  if onlySpaces ch src then d.close else .error .invalid

variable (src : Bytes)

/-- We got a pad char. -/
def Decoder.padded : Except Failure (Nat × Option Bytes) :=
  let (ch, src) := next src
  match d.state with
  | 0 | 1 => .error .invalid
  | 2 =>
    let (ch, src) := skipSpaces ch src
    if ch ≠ pad then .error .invalid
    else
      let (ch, src) := next src
      d.single ch src
  | 3 => d.single ch src

/-- `cockpit_base64_pton` -/
def pton (target : Option Bytes) : Except Failure (Nat × Option Bytes) :=
  scan ⟨0, 0, target⟩ src >>= fun
    | (d, some src) => d.padded src
    | (d, none) => if d.state ≠ 0 then .error .invalid else .ok (d.tarindex, d.target)

/-! ### The encoder -/

/-- The characters of one group are written, if the assertions hold. -/
def emit (targsize : Nat) (target : Bytes) : List UInt8 → Option Bytes
  | [] => some target
  | output :: rest =>
    if (output = 255 ∨ output < 64) ∧ target.length + 1 < targsize then
      emit targsize (target ++ [if output = 255 then pad else base64.getD output.toNat 0]) rest
    else none

/-- The loop of `cockpit_base64_ntop`. -/
def ntopLoop (targsize : Nat) (target : Bytes) : Bytes → Option Bytes
  | x :: y :: z :: src =>
    emit targsize target
      [x >>> 2, ((x &&& 0x03) <<< 4) + (y >>> 4), ((y &&& 0x0f) <<< 2) + (z >>> 6), z &&& 0x3f] >>=
      fun target => ntopLoop targsize target src
  | [x, y] =>
    emit targsize target
      [x >>> 2, ((x &&& 0x03) <<< 4) + (y >>> 4), ((y &&& 0x0f) <<< 2) + ((0 : UInt8) >>> 6), 255]
  | [x] => emit targsize target [x >>> 2, ((x &&& 0x03) <<< 4) + ((0 : UInt8) >>> 4), 255, 255]
  | [] => some target

/-- `cockpit_base64_ntop`, without the terminator that it writes as well; `none` if an assertion
    fails. -/
def ntop (targsize : Nat) : Option Bytes :=
  (ntopLoop targsize [] src).bind fun target =>
    if target.length < targsize then some target else none

/-- `cockpit_base64_size` -/
def size (len : Nat) : Nat := len * 4 / 3 + 9

/-! ### Letters -/

/-- The alphabet of the source, letter by letter. -/
theorem base64_eq : base64 = (List.range 64).map letter := by
  unfold base64
  simp only [String.reduceToList]
  decide

/-- The alphabet of the source is that of Base64. -/
theorem strchr_eq (ch : UInt8) : strchr ch = sextet ch := by
  rw [strchr, base64_eq]
  cases hsextet : sextet ch with
  | none =>
    rw [findIdx?_eq_none_iff]
    intro x hx
    obtain ⟨v, hv, rfl⟩ := mem_map.mp hx
    -- a letter that is found is in the alphabet
    refine beq_eq_false_iff_ne.mpr fun heq => ?_
    rw [← heq, sextet_letter (mem_range.mp hv)] at hsextet
    cases hsextet
  | some v =>
    obtain ⟨hv, hletter⟩ := Lib.Base64.letter_sextet hsextet
    rw [findIdx?_eq_some_iff_getElem]
    refine ⟨by simpa using hv, by simp [hletter], fun j hj => ?_⟩
    -- no other letter stands for the same bits
    simp only [getElem_map, getElem_range, beq_iff_eq]
    intro heq
    rw [← heq, sextet_letter (by omega)] at hsextet
    cases hsextet
    exact absurd hj (lt_irrefl v)

theorem sextet_of_isspace {ch : UInt8} (h : isspace ch) : sextet ch = none := by
  have h43 : (43 : UInt8).toNat = 43 := rfl
  have h47 : (47 : UInt8).toNat = 47 := rfl
  have hle : ch.toNat ≤ 32 := by
    unfold isspace at h
    simp only [Bool.or_eq_true, Bool.and_eq_true, decide_eq_true_eq, le_iff_toNat_le] at h
    rcases h with rfl | ⟨-, h⟩
    · decide
    · exact le_trans h (by decide)
  unfold sextet
  simp only [Bool.and_eq_true, decide_eq_true_eq, le_iff_toNat_le, reduceToNat]
  rw [if_neg (by omega), if_neg (by omega), if_neg (by omega), if_neg (by rintro rfl; omega),
    if_neg (by rintro rfl; omega)]

variable {i v : Nat}

/-- Bits below others. -/
theorem or_ofNat {a b : Nat} (hb : b < 2 ^ i) :
    ofNat (2 ^ i * a) ||| ofNat b = ofNat (2 ^ i * a + b) := by
  rw [two_pow_add_eq_or_of_lt hb]
  apply UInt8.toNat_inj.mp
  simp only [UInt8.toNat_or, UInt8.toNat_ofNat']
  rw [or_mod_two_pow]

namespace Decoder

/-- The decoder behind `done`, with bits of a next byte. -/
def inside (state : Fin 4) (done : Bytes) (bits : UInt8) (free : Bytes) : Decoder :=
  ⟨state, done.length, some (done ++ bits :: free)⟩

variable (done : Bytes)

/-- The decoder between two groups. -/
def between (free : Bytes) : Decoder := ⟨0, done.length, some (done ++ free)⟩

/-- The result of a letter that completes a byte. -/
def whole (d : Decoder) : Except Failure Decoder :=
  if done.length < INT_MAX then .ok d else .error .overflow

theorem store_of_lt {target : Bytes} {last : Nat} (h : last < target.length)
    (write : Bytes → Bytes) : store (some target) last write = .ok (some (write target)) := by
  simp only [store, ge_iff_le, not_le.mpr h, if_false]

theorem set_first (x v : UInt8) (free : Bytes) :
    (done ++ x :: free).set done.length v = done ++ v :: free := by simp

theorem set_second (x y v : UInt8) (free : Bytes) :
    (done ++ x :: y :: free).set (done.length + 1) v = done ++ x :: v :: free := by simp

theorem orAt_first (x v : UInt8) (free : Bytes) :
    orAt (done ++ x :: free) done.length v = done ++ (x ||| v) :: free := by
  rw [orAt, set_first]
  simp

theorem letter_zero (a : Nat) (done : Bytes) (x : UInt8) (free : Bytes) :
    (between done (x :: free)).letter a = .ok (inside 1 done (ofNat (4 * a)) free) := by
  have hshift : a <<< 2 = 4 * a := by
    rw [shiftLeft_eq]
    omega
  simp only [letter, between]
  rw [store_of_lt (by simp), set_first, hshift]
  rfl

variable {b c : Nat}

theorem letter_one {a : Nat} (hb : b < 64) (done : Bytes) (y : UInt8) (free : Bytes) :
    (inside 1 done (ofNat (4 * a)) (y :: free)).letter b =
      whole done (inside 2 (done ++ [first a b]) (ofNat (b % 16 * 16)) free) := by
  have hhigh : b >>> 4 = b / 16 := shiftRight_eq_div_pow b 4
  have hlow : (b &&& 0x0f) <<< 4 = b % 16 * 16 := by
    rw [shiftLeft_eq, and_two_pow_sub_one_eq_mod b 4]
  have hor : ofNat (4 * a) ||| ofNat (b / 16) = first a b := by
    rw [first, mul_comm a 4]
    exact or_ofNat (i := 2) (by omega)
  simp only [letter, inside]
  rw [store_of_lt (by simp), orAt_first, set_second, hhigh, hlow, hor]
  unfold whole increment
  split
  · simp [Except.bind, bind, pure, Except.pure]
  · rfl

theorem letter_two (hc : c < 64) (done : Bytes) (y : UInt8) (free : Bytes) :
    (inside 2 done (ofNat (b % 16 * 16)) (y :: free)).letter c =
      whole done (inside 3 (done ++ [second b c]) (ofNat (c % 4 * 64)) free) := by
  have hhigh : c >>> 2 = c / 4 := shiftRight_eq_div_pow c 2
  have hlow : (c &&& 0x03) <<< 6 = c % 4 * 64 := by
    rw [shiftLeft_eq, and_two_pow_sub_one_eq_mod c 2]
  have hor : ofNat (b % 16 * 16) ||| ofNat (c / 4) = second b c := by
    rw [second, mul_comm (b % 16) 16]
    exact or_ofNat (i := 4) (by omega)
  simp only [letter, inside]
  rw [store_of_lt (by simp), orAt_first, set_second, hhigh, hlow, hor]
  unfold whole increment
  split
  · simp [Except.bind, bind, pure, Except.pure]
  · rfl

theorem letter_three {d : Nat} (hd : d < 64) (done : Bytes) (free : Bytes) :
    (inside 3 done (ofNat (c % 4 * 64)) free).letter d =
      whole done (between (done ++ [third c d]) free) := by
  have hor : ofNat (c % 4 * 64) ||| ofNat d = third c d := by
    rw [third, mul_comm (c % 4) 64]
    exact or_ofNat (i := 6) (by omega)
  simp only [letter, inside]
  rw [store_of_lt (by simp), orAt_first, hor]
  unfold whole increment
  split
  · simp [between, Except.bind, bind, pure, Except.pure]
  · rfl

variable (vs : List Nat)

/-- One letter after the other. -/
def letters : Except Failure Decoder := vs.foldlM letter d

theorem letters_nil : d.letters [] = .ok d := rfl

theorem letters_cons (v : Nat) (vs : List Nat) :
    d.letters (v :: vs) = d.letter v >>= fun d => d.letters vs := rfl

variable {α β : Type}

theorem bind_ok (x : α) (f : α → Except Failure β) : (Except.ok x >>= f) = f x := rfl

theorem bind_error (failure : Failure) (f : α → Except Failure β) :
    (Except.error failure >>= f) = .error failure := rfl

/-- Room for every group that letters start. -/
def Room (free : Bytes) : Prop := 3 * ((vs.length + 3) / 4) ≤ free.length

/-- Behind the whole bytes is what is left of the letters. -/
def Rest (after : Bytes) : Prop :=
  vs.length % 4 ≠ 0 → ∃ bits rest, after = bits :: rest ∧ (bits = 0 ↔ slop vs = 0)

variable {done : Bytes}

theorem whole_ok (h : done.length < INT_MAX) (d : Decoder) :
    whole done d = .ok d := if_pos h

theorem whole_error (h : ¬ done.length < INT_MAX) (d : Decoder) :
    whole done d = .error .overflow := if_neg h

theorem ofNat_eq_zero {n : Nat} (h : n < 256) : UInt8.ofNat n = 0 ↔ n = 0 := by
  rw [← UInt8.toNat_inj, UInt8.toNat_ofNat', mod_eq_of_lt h]
  rfl

variable {vs : List Nat} {free : Bytes}

theorem three_of_room {v : Nat} (h : Room (v :: vs) free) :
    ∃ x y z rest, free = x :: y :: z :: rest := by
  unfold Room at h
  simp only [length_cons] at h
  match free with
  | x :: y :: z :: rest => exact ⟨x, y, z, rest, rfl⟩
  | [] | [_] | [_, _] =>
    simp only [length_cons, length_nil] at h
    omega

/-- **Letters write the bytes that they stand for**, as long as `tarindex` can count them. -/
theorem letters_run {vs : List Nat} (hvs : ∀ v ∈ vs, v < 64) {done free : Bytes}
    (hroom : Room vs free) (hmax : done.length + (bytes vs).length ≤ INT_MAX) :
    ∃ after, (between done free).letters vs =
        .ok ⟨Fin.ofNat 4 vs.length, (done ++ bytes vs).length, some (done ++ bytes vs ++ after)⟩ ∧
      Rest vs after := by
  induction vs using Lib.Base64.fours generalizing done free with
  | group a b c d vs ih =>
    obtain ⟨x, y, z, free, rfl⟩ := three_of_room hroom
    simp only [forall_mem_cons] at hvs
    obtain ⟨ha, hb, hc, hd, hvs⟩ := hvs
    rw [bytes] at hmax ⊢
    simp only [length_cons] at hmax
    have hstep : (between done (x :: y :: z :: free)).letters (a :: b :: c :: d :: vs) =
        (between (done ++ [first a b] ++ [second b c] ++ [third c d]) free).letters vs := by
      simp only [letters_cons]
      rw [letter_zero, bind_ok, letter_one hb, whole_ok (by omega), bind_ok, letter_two hc,
        whole_ok (by simp; omega), bind_ok, letter_three hd, whole_ok (by simp; omega), bind_ok]
    have hroom' : Room vs free := by
      unfold Room at hroom ⊢
      simp only [length_cons] at hroom
      omega
    obtain ⟨after, hrun, hrest⟩ := @ih hvs (done ++ [first a b] ++ [second b c] ++ [third c d]) free
      hroom' (by simp; omega)
    refine ⟨after, ?_, ?_⟩
    · rw [hstep, hrun]
      have hstate : Fin.ofNat 4 (a :: b :: c :: d :: vs).length = Fin.ofNat 4 vs.length := by
        apply Fin.ext
        simp only [Fin.ofNat, length_cons]
        omega
      rw [hstate]
      simp
    intro hlen
    rw [slop]
    apply hrest
    simp only [length_cons] at hlen
    omega
  | three a b c =>
    obtain ⟨x, y, z, free, rfl⟩ := three_of_room hroom
    simp only [forall_mem_cons] at hvs
    obtain ⟨ha, hb, hc, -⟩ := hvs
    simp only [bytes, length_cons, length_nil] at hmax
    refine ⟨ofNat (c % 4 * 64) :: free, ?_, ?_⟩
    · simp only [letters_cons]
      rw [letter_zero, bind_ok, letter_one hb, whole_ok (by omega), bind_ok, letter_two hc,
        whole_ok (by simp; omega), bind_ok, letters_nil]
      simp [inside, bytes, Fin.ofNat]
    intro _
    refine ⟨_, _, rfl, ?_⟩
    rw [ofNat_eq_zero (by omega), slop]
    omega
  | two a b =>
    obtain ⟨x, y, z, free, rfl⟩ := three_of_room hroom
    simp only [forall_mem_cons] at hvs
    obtain ⟨ha, hb, -⟩ := hvs
    simp only [bytes, length_cons, length_nil] at hmax
    refine ⟨ofNat (b % 16 * 16) :: z :: free, ?_, ?_⟩
    · simp only [letters_cons]
      rw [letter_zero, bind_ok, letter_one hb, whole_ok (by omega), bind_ok, letters_nil]
      simp [inside, bytes, Fin.ofNat]
    intro _
    refine ⟨_, _, rfl, ?_⟩
    rw [ofNat_eq_zero (by omega), slop]
    omega
  | nil =>
    refine ⟨free, ?_, fun hlen => absurd rfl hlen⟩
    rw [letters_nil]
    simp [between, bytes]
  | one a =>
    obtain ⟨x, y, z, free, rfl⟩ := three_of_room hroom
    have ha := hvs a mem_cons_self
    refine ⟨ofNat (4 * a) :: y :: z :: free, ?_, ?_⟩
    · rw [letters_cons, letter_zero, bind_ok, letters_nil]
      simp [inside, bytes, Fin.ofNat]
    intro _
    refine ⟨_, _, rfl, ?_⟩
    rw [ofNat_eq_zero (by omega), slop]
    omega

/-- Where `tarindex` cannot count the bytes, it overflows. -/
theorem letters_overflow (hvs : ∀ v ∈ vs, v < 64)
    (hroom : Room vs free) (hdone : done.length ≤ INT_MAX)
    (hmax : INT_MAX < done.length + (bytes vs).length) :
    (between done free).letters vs = .error .overflow := by
  induction vs using Lib.Base64.fours generalizing done free with
  | group a b c d vs ih =>
    obtain ⟨x, y, z, free, rfl⟩ := three_of_room hroom
    simp only [forall_mem_cons] at hvs
    obtain ⟨ha, hb, hc, hd, hvs⟩ := hvs
    rw [bytes] at hmax
    simp only [length_cons] at hmax
    simp only [letters_cons]
    rw [letter_zero, bind_ok, letter_one hb]
    -- the first of the three bytes that does not count any more
    by_cases hfirst : done.length < INT_MAX
    · rw [whole_ok hfirst, bind_ok, letter_two hc]
      by_cases hsnd : (done ++ [first a b]).length < INT_MAX
      · rw [whole_ok hsnd, bind_ok, letter_three hd]
        by_cases hthird : (done ++ [first a b] ++ [second b c]).length < INT_MAX
        · rw [whole_ok hthird, bind_ok]
          apply ih hvs
          · unfold Room at hroom ⊢
            simp only [length_cons] at hroom
            omega
          · simp only [List.length_append, length_singleton] at hthird ⊢
            omega
          · simp only [List.length_append, length_singleton]
            omega
        · rw [whole_error hthird, bind_error]
      · rw [whole_error hsnd, bind_error]
    · rw [whole_error hfirst, bind_error]
  | three a b c =>
    obtain ⟨x, y, z, free, rfl⟩ := three_of_room hroom
    simp only [forall_mem_cons] at hvs
    obtain ⟨ha, hb, hc, -⟩ := hvs
    simp only [bytes, length_cons, length_nil] at hmax
    simp only [letters_cons]
    rw [letter_zero, bind_ok, letter_one hb]
    by_cases hfirst : done.length < INT_MAX
    · have hsnd : ¬ (done ++ [first a b]).length < INT_MAX := by
        simp only [List.length_append, length_singleton]
        omega
      rw [whole_ok hfirst, bind_ok, letter_two hc, whole_error hsnd, bind_error]
    · rw [whole_error hfirst, bind_error]
  | two a b =>
    obtain ⟨x, y, z, free, rfl⟩ := three_of_room hroom
    simp only [forall_mem_cons] at hvs
    obtain ⟨ha, hb, -⟩ := hvs
    simp only [bytes, length_cons, length_nil] at hmax
    simp only [letters_cons]
    rw [letter_zero, bind_ok, letter_one hb, whole_error (by omega), bind_error]
  | one a | nil =>
    simp only [bytes, length_nil] at hmax
    omega

end Decoder

/-! ### Bounds -/

namespace Decoder

/-- The bytes that were decoded are in the target. -/
def Fits (targsize : Nat) (d : Decoder) : Prop :=
  d.tarindex ≤ targsize ∧ ∃ target, d.target = some target ∧ target.length = targsize

variable {written : Option Bytes}

theorem store_some {target : Bytes} {last : Nat} {write : Bytes → Bytes}
    (h : store (some target) last write = .ok written) :
    last < target.length ∧ written = some (write target) := by
  simp only [store] at h
  split at h
  · cases h
  · rename_i hlast
    cases h
    exact ⟨by omega, rfl⟩

theorem increment_ok {tarindex next : Nat} (h : increment tarindex = .ok next) :
    next = tarindex + 1 := by
  unfold increment at h
  split at h
  · cases h
    rfl
  · cases h

/-- A step of a computation that succeeds. -/
theorem exists_of_bind {α β : Type} {x : Except Failure α} {f : α → Except Failure β} {b : β}
    (h : (x >>= f) = .ok b) : ∃ a, x = .ok a ∧ f a = .ok b := by
  cases x with
  | ok a => exact ⟨a, rfl, h⟩
  | error failure => cases h

variable {d d' : Decoder}

theorem letter_fits {targsize pos : Nat} (hd : Fits targsize d)
    (h : d.letter pos = .ok d') : Fits targsize d' := by
  obtain ⟨state, tarindex, target⟩ := d
  obtain ⟨hindex, target, htarget, hlen⟩ := hd
  obtain rfl : _ = some target := htarget
  have hset : ∀ t i v, (orAt t i v).length = t.length :=
    fun t i v => length_set
  unfold letter at h
  match state with
  | 0 =>
    obtain ⟨written, hstore, hd'⟩ := exists_of_bind h
    obtain ⟨hlast, rfl⟩ := store_some hstore
    cases hd'
    exact ⟨hindex, _, rfl, by rw [length_set, hlen]⟩
  | 1 | 2 | 3 =>
    obtain ⟨written, hstore, h⟩ := exists_of_bind h
    obtain ⟨next, hnext, hd'⟩ := exists_of_bind h
    obtain ⟨hlast, rfl⟩ := store_some hstore
    obtain rfl := increment_ok hnext
    cases hd'
    refine ⟨?_, _, rfl, by simp only [length_set, hset, hlen]⟩
    dsimp only at hlast ⊢
    omega

variable {src : Bytes}

theorem scan_fits {targsize : Nat} {rest : Option Bytes}
    (hd : Fits targsize d) (h : scan d src = .ok (d', rest)) : Fits targsize d' := by
  induction src generalizing d with
  | nil =>
    cases h
    exact hd
  | cons ch src ih =>
    unfold scan at h
    split_ifs at h with hnul hspace hpad
    · cases h
      exact hd
    · exact ih hd h
    · cases h
      exact hd
    split at h
    · cases h
    · obtain ⟨next, hletter, h⟩ := exists_of_bind h
      exact ih (letter_fits hd hletter) h

variable {n : Nat}

theorem close_ok (h : d.close = .ok (n, written)) : n = d.tarindex := by
  unfold close at h
  split at h
  · cases h
    rfl
  split at h
  · cases h
  · cases h
    rfl

theorem single_ok {ch : UInt8} (h : d.single ch src = .ok (n, written)) : n = d.tarindex := by
  unfold single at h
  split at h
  · exact close_ok h
  · cases h

theorem padded_ok (h : d.padded src = .ok (n, written)) : n = d.tarindex := by
  unfold padded at h
  dsimp only at h
  split at h
  · cases h
  · cases h
  · split at h
    · cases h
    · exact single_ok h
  · exact single_ok h

end Decoder

variable {target : Bytes}

/-- **No more bytes are returned than the target has**, whatever the string is. -/
theorem pton_le {src : Bytes} {n : Nat} {written : Option Bytes}
    (h : pton src (some target) = .ok (n, written)) : n ≤ target.length := by
  obtain ⟨⟨d, rest⟩, hscan, h⟩ := Decoder.exists_of_bind h
  have hstart : Decoder.Fits target.length ⟨0, 0, some target⟩ := ⟨zero_le _, target, rfl, rfl⟩
  obtain ⟨hindex, -⟩ := Decoder.scan_fits hstart hscan
  cases rest with
  | none =>
    dsimp only at h
    split at h
    · cases h
    · cases h
      exact hindex
  | some src =>
    rw [Decoder.padded_ok h]
    exact hindex

/-! ### Encoding -/

/-- The character of an output. -/
def outputChar (output : UInt8) : UInt8 :=
  if output = 255 then pad else base64.getD output.toNat 0

variable {output : UInt8}

theorem outputChar_eq (h : output.toNat = v) (hv : v < 64) :
    outputChar output = letter v := by
  have hletter : base64.getD v 0 = letter v := by
    rw [base64_eq, getD_eq_getElem?_getD, getElem?_eq_getElem (by simpa using hv)]
    simp
  have hne : output ≠ 255 := by
    rintro rfl
    have h255 : (255 : UInt8).toNat = 255 := rfl
    omega
  rw [outputChar, if_neg hne, h, hletter]

variable {targsize : Nat}

/-- **The assertions hold** where there is room for the characters and one more. -/
theorem emit_eq {outputs : List UInt8} (hout : ∀ output ∈ outputs, output = 255 ∨ output < 64)
    (hroom : target.length + outputs.length < targsize) :
    emit targsize target outputs = some (target ++ outputs.map outputChar) := by
  induction outputs generalizing target with
  | nil => simp [emit]
  | cons output outputs ih =>
    simp only [length_cons] at hroom
    have hhead : (output = 255 ∨ output < 64) ∧ target.length + 1 < targsize :=
      ⟨hout output mem_cons_self, by omega⟩
    rw [emit, if_pos hhead, ih (fun o ho => hout o (mem_cons_of_mem output ho))
      (by simp only [List.length_append, length_singleton]; omega)]
    simp [outputChar]

/-- The three shifts of the encoder, as numbers. -/
theorem toNat_high (x : UInt8) : (x >>> 2).toNat = x.toNat / 4 := by
  simp [shiftRight_eq_div_pow]

theorem toNat_mask {x k : UInt8} (hk : k.toNat = 2 ^ i - 1) : (x &&& k).toNat = x.toNat % 2 ^ i := by
  rw [UInt8.toNat_and, hk, and_two_pow_sub_one_eq_mod]

theorem toNat_middle (x y : UInt8) :
    (((x &&& 0x03) <<< 4) + (y >>> 4)).toNat = x.toNat % 4 * 16 + y.toNat / 16 := by
  have hx := x.toNat_lt
  have hy := y.toNat_lt
  have hmask : (x &&& 0x03).toNat = x.toNat % 4 := toNat_mask (i := 2) rfl
  rw [UInt8.toNat_add, UInt8.toNat_shiftLeft, UInt8.toNat_shiftRight, hmask]
  have hfour : (4 : UInt8).toNat % 8 = 4 := rfl
  rw [hfour, shiftLeft_eq, shiftRight_eq_div_pow]
  omega

theorem toNat_low (y z : UInt8) :
    (((y &&& 0x0f) <<< 2) + (z >>> 6)).toNat = y.toNat % 16 * 4 + z.toNat / 64 := by
  have hy := y.toNat_lt
  have hz := z.toNat_lt
  have hmask : (y &&& 0x0f).toNat = y.toNat % 16 := toNat_mask (i := 4) rfl
  rw [UInt8.toNat_add, UInt8.toNat_shiftLeft, UInt8.toNat_shiftRight, hmask]
  have htwo : (2 : UInt8).toNat % 8 = 2 := rfl
  have hsix : (6 : UInt8).toNat % 8 = 6 := rfl
  rw [htwo, hsix, shiftLeft_eq, shiftRight_eq_div_pow]
  omega

theorem toNat_last (z : UInt8) : (z &&& 0x3f).toNat = z.toNat % 64 := toNat_mask (i := 6) rfl

theorem lt_of_toNat (h : output.toNat = v) (hv : v < 64) :
    output = 255 ∨ output < 64 := by
  right
  rw [lt_iff_toNat_lt]
  have h64 : (64 : UInt8).toNat = 64 := rfl
  omega

theorem ntopLoop_eq {src : Bytes} (hroom : target.length + (encode src).length < targsize) :
    ntopLoop targsize target src = some (target ++ encode src) := by
  have hpad : outputChar 255 = pad := rfl
  induction src using Lib.Base64.threes generalizing target with
  | group x y z rest ih =>
    have hx := x.toNat_lt
    have hy := y.toNat_lt
    have hz := z.toNat_lt
    rw [encode] at hroom ⊢
    simp only [length_cons] at hroom
    rw [ntopLoop, emit_eq]
    · simp only [map_cons, map_nil]
      rw [outputChar_eq (toNat_high x) (by omega), outputChar_eq (toNat_middle x y) (by omega),
        outputChar_eq (toNat_low y z) (by omega), outputChar_eq (toNat_last z) (by omega)]
      rw [Option.bind_eq_bind, Option.bind_some, ih]
      · simp
      · simp only [List.length_append, length_cons, length_nil]
        omega
    · simp only [forall_mem_cons]
      exact ⟨lt_of_toNat (toNat_high x) (by omega), lt_of_toNat (toNat_middle x y) (by omega),
        lt_of_toNat (toNat_low y z) (by omega), lt_of_toNat (toNat_last z) (by omega), forall_mem_nil _⟩
    · simp only [length_cons, length_nil]
      omega
  | two x y =>
    have hx := x.toNat_lt
    have hy := y.toNat_lt
    have hzero : (0 : UInt8).toNat / 64 = 0 := rfl
    rw [encode] at hroom ⊢
    simp only [length_cons, length_nil] at hroom
    rw [ntopLoop, emit_eq]
    · simp only [map_cons, map_nil]
      rw [outputChar_eq (toNat_high x) (by omega), outputChar_eq (toNat_middle x y) (by omega),
        outputChar_eq (toNat_low y 0) (by omega), hpad, hzero, add_zero]
    · simp only [forall_mem_cons]
      exact ⟨lt_of_toNat (toNat_high x) (by omega), lt_of_toNat (toNat_middle x y) (by omega),
        lt_of_toNat (toNat_low y 0) (by omega), .inl trivial, forall_mem_nil _⟩
    · simp only [length_cons, length_nil]
      omega
  | one x =>
    have hx := x.toNat_lt
    have hzero : (0 : UInt8).toNat / 16 = 0 := rfl
    rw [encode] at hroom ⊢
    simp only [length_cons, length_nil] at hroom
    rw [ntopLoop, emit_eq]
    · simp only [map_cons, map_nil]
      rw [outputChar_eq (toNat_high x) (by omega), outputChar_eq (toNat_middle x 0) (by omega),
        hpad, hzero, add_zero]
    · simp only [forall_mem_cons]
      exact ⟨lt_of_toNat (toNat_high x) (by omega), lt_of_toNat (toNat_middle x 0) (by omega),
        .inl trivial, .inl trivial, forall_mem_nil _⟩
    · simp only [length_cons, length_nil]
      omega
  | nil => simp [ntopLoop, encode]

/-- **The encoder writes the text of its bytes.** -/
theorem ntop_eq {src : Bytes} (hroom : (encode src).length < targsize) :
    ntop src targsize = some (encode src) := by
  rw [ntop, ntopLoop_eq (by simpa using hroom), Option.bind_some, nil_append, if_pos hroom]

/-- `cockpit_base64_size` is enough, for every length. -/
theorem length_encode_lt_size : (encode src).length < size src.length := by
  rw [length_encode, size]
  omega

end Cockpit.Base64
