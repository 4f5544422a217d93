import Cockpit.Common.Frame

namespace Cockpit.Frame

open Lib List

/-!
# The blocking reader and writer of `src/common/cockpitframe.c`

`cockpit_frame_read` takes one byte at a time and parses the header again after every one of
them.  A *schedule* is the list of what the calls of `read` give; a function that is still
waiting at the end of its schedule returns nothing.

* `readLoop_agrees` — the loop computes what `parse` says of the whole stream;
* `frame_read_agrees` — so the frame that is read is the first one of the stream, and what
  `cockpit_frame_write` wrote is read back.
-/

/-- The values of `errno` that the functions look at. -/
inductive Errno where
  | eintr
  | eagain
  | econnreset
  | ebadmsg
  | other (errno : Nat)
  deriving DecidableEq, Repr

/-- What `read (fd, buf + buflen, 1)` gives. -/
inductive ReadResult where
  | byte (b : UInt8)
  | endOfFile
  | error (errno : Errno)
  deriving DecidableEq, Repr

/-- What `cockpit_frame_read` returns: the size and the buffer, zero, or minus one. -/
inductive Returned where
  | frame (size : Nat) (output : Bytes)
  | ended
  | failure (errno : Errno)
  deriving DecidableEq, Repr

/-- The end of a round: the header is parsed while the size isn't known, and taken off. -/
def reparse (size : Nat) (buf : Bytes) : Except Returned (Nat × Bytes) :=
  if size = 0 then
    match parse buf with
    | .wantMore => .ok (0, buf)
    | .failure => .error (.failure .ebadmsg)
    | .size size skip => .ok (size, buf.drop skip)
  else .ok (size, buf)

/-- One round of the loop.  The buffer has been grown for the byte before. -/
def readRound (size : Nat) (buf : Bytes) : ReadResult → Except Returned (Nat × Bytes)
  | .byte b => reparse size (buf ++ [b])
  | .endOfFile => .error (if size = 0 ∧ buf = [] then .ended else .failure .ebadmsg)
  | .error errno =>
    -- a reset with nothing in the buffer counts as the end of the file
    if errno = .econnreset ∧ buf = [] then
      .error (if size = 0 ∧ buf = [] then .ended else .failure .ebadmsg)
    else if errno ≠ .eintr ∧ errno ≠ .eagain then .error (.failure errno)
    else reparse size buf

/-- The loop of `cockpit_frame_read`, with the part of the schedule that it leaves. -/
def readLoop (size : Nat) (buf : Bytes) :
    List ReadResult → Option (Returned × List ReadResult)
  | [] => if size = 0 ∨ buf.length < size then none else some (.frame size buf, [])
  | res :: schedule =>
    if size = 0 ∨ buf.length < size then
      match readRound size buf res with
      | .error ret => some (ret, schedule)
      | .ok (size, buf) => readLoop size buf schedule
    else some (.frame size buf, res :: schedule)

variable (schedule : List ReadResult)

/-- `cockpit_frame_read` -/
def frameRead : Option (Returned × List ReadResult) :=
  readLoop 0 [] schedule

/-- What one call of `write` gives: the number of bytes it took, or an error. -/
inductive WriteResult where
  | wrote (count : Nat)
  | error (errno : Errno)
  deriving DecidableEq, Repr

/-- `cockpit_fd_write_all`: whether everything was written, the bytes that went out, and the
    rest of the schedule. -/
def fdWriteAll (data : Bytes) : List WriteResult → Option (Bool × Bytes × List WriteResult)
  | [] => if data = [] then some (true, [], []) else none
  | res :: schedule =>
    if data = [] then some (true, [], res :: schedule)
    else match res with
      | .wrote count => (fdWriteAll (data.drop count) schedule).map
          fun (ok, out, rest) => (ok, data.take count ++ out, rest)
      | .error errno =>
        if errno ≠ .eagain ∧ errno ≠ .eintr then some (false, [], schedule)
        else fdWriteAll data schedule

/-- `cockpit_frame_write`: whether it succeeded and the bytes that went out.  The length goes
    through `%u` as an `unsigned int`. -/
def frameWrite (input : Bytes) (schedule : List WriteResult) : Option (Bool × Bytes) :=
  match fdWriteAll (decimal (input.length % 2 ^ 32) ++ [newline]) schedule with
  | none => none
  | some (false, out, _) => some (false, out)
  | some (true, out, rest) => (fdWriteAll input rest).map fun (ok, more, _) => (ok, out ++ more)

/-! ### The stream of a schedule -/

/-- The end of the file and the errors that aren't retried. -/
def ReadResult.isFinal : ReadResult → Bool
  | .byte _ => false
  | .endOfFile => true
  | .error errno => errno ≠ .eintr ∧ errno ≠ .eagain

/-- The end of the file, or a reset in its place. -/
def ReadResult.isEnd : ReadResult → Bool
  | .endOfFile => true
  | .error errno => errno = .econnreset
  | .byte _ => false

/-- The byte that was read. -/
def ReadResult.byte? : ReadResult → Option UInt8
  | .byte b => some b
  | _ => none

/-- The bytes of the stream. -/
def stream : Bytes :=
  (schedule.takeWhile (!·.isFinal)).filterMap ReadResult.byte?

/-- How the stream ends. -/
def final : Option ReadResult := schedule.find? (·.isFinal)

theorem stream_byte (b : UInt8) (schedule : List ReadResult) :
    stream (.byte b :: schedule) = b :: stream schedule := rfl

variable {res : ReadResult}

/-- A call that is retried gives nothing. -/
theorem stream_retry (hres : res.byte? = none) (hgo : res.isFinal = false)
    (schedule : List ReadResult) : stream (res :: schedule) = stream schedule := by
  unfold stream
  rw [takeWhile_cons, hgo]
  exact filterMap_cons_none hres

theorem stream_final (hfinal : res.isFinal) (schedule : List ReadResult) :
    stream (res :: schedule) = [] := by
  unfold stream
  rw [takeWhile_cons, hfinal]
  rfl

/-- A stream that starts with a frame. -/
structure StartsWith (bytes : Bytes) (size skip : Nat) (payload : Bytes) : Prop where
  header : parse bytes = .size size skip
  complete : skip + size ≤ bytes.length
  payload : payload = (bytes.drop skip).take size

/-! ### The parse, one byte later -/

theorem le_parseLoop (i size : Nat) (input : Bytes) : i ≤ (parseLoop i size input).1 := by
  induction input generalizing i size with
  | nil => exact Nat.le_refl i
  | cons b input ih =>
    unfold parseLoop
    split
    · exact Nat.le_refl i
    · exact Nat.le_trans (Nat.le_succ i) (ih _ _)

variable {input out bytes payload : Bytes}

/-- A loop that stops inside the first part of its input stops there without the rest. -/
theorem parseLoop_of_append {i size : Nat} {more : Bytes}
    (h : (parseLoop i size (input ++ more)).1 < i + input.length) :
    parseLoop i size input = parseLoop i size (input ++ more) := by
  induction input generalizing i size with
  | nil =>
    have hle := le_parseLoop i size more
    simp only [nil_append, length_nil] at h
    omega
  | cons b input ih =>
    rw [cons_append] at h ⊢
    unfold parseLoop at h ⊢
    split
    · rfl
    · rename_i hgo
      rw [if_neg hgo, length_cons] at h
      exact ih (by omega)

variable {skip : Nat} {b : UInt8}

/-- The header ends with the byte that makes it complete. -/
theorem parse_concat {buf : Bytes} {size : Nat} (hwait : parse buf = .wantMore)
    (h : parse (buf ++ [b]) = .size size skip) : skip = buf.length + 1 := by
  have hle := (parse_size h).2
  rw [length_append, length_singleton] at hle
  have hskip : (parseLoop 0 0 (buf ++ [b])).1 + 1 = skip := by
    simp only [parse] at h
    split at h
    · cases h
    · split at h
      · cases h
      · exact (Parsed.size.inj h).2
  by_contra hne
  have hlt : (parseLoop 0 0 (buf ++ [b])).1 < buf.length := by omega
  have hloop : parseLoop 0 0 buf = parseLoop 0 0 (buf ++ [b]) :=
    parseLoop_of_append (by rw [Nat.zero_add]; exact hlt)
  -- then the loop would have stopped there before
  simp only [parse] at hwait
  rw [hloop] at hwait
  split at hwait
  · rename_i hdrop
    have := drop_eq_nil_iff.mp hdrop
    omega
  · split at hwait <;> cases hwait

/-! ### The loop -/

/-- The state of the loop after the bytes `seen` of the stream. -/
inductive Reading (seen : Bytes) : Nat → Bytes → Prop where
  | header (hwait : parse seen = .wantMore) : Reading seen 0 seen
  | payload {size skip : Nat} (hheader : parse seen = .size size skip)
      (hle : seen.length ≤ skip + size) : Reading seen size (seen.drop skip)

/-- A failure. -/
def Failed (result : Option (Returned × List ReadResult)) : Prop :=
  ∃ errno rest, result = some (.failure errno, rest)

/-- What is to come of the loop when `seen` was read and `schedule` is left. -/
structure Agrees (seen : Bytes) (schedule : List ReadResult)
    (result : Option (Returned × List ReadResult)) : Prop where
  frame : ∀ {size skip}, parse (seen ++ stream schedule) = .size size skip →
    skip + size ≤ (seen ++ stream schedule).length →
    ∃ taken rest, schedule = taken ++ rest ∧
      seen ++ stream taken = (seen ++ stream schedule).take (skip + size) ∧
      result = some (.frame size (((seen ++ stream schedule).drop skip).take size), rest)
  refused : parse (seen ++ stream schedule) = .failure → Failed result
  short : ∀ {size skip}, parse (seen ++ stream schedule) = .size size skip →
    (seen ++ stream schedule).length < skip + size →
    if (final schedule).isSome then Failed result else result = none
  waiting : parse (seen ++ stream schedule) = .wantMore →
    match final schedule with
    | none => result = none
    | some res => if seen ++ stream schedule = [] ∧ res.isEnd then ∃ rest, result = some (.ended, rest)
      else Failed result

variable {seen : Bytes} {schedule : List ReadResult} {result : Option (Returned × List ReadResult)}

/-- A byte moves from the schedule to what was seen. -/
theorem Agrees.byte (h : Agrees (seen ++ [b]) schedule result) :
    Agrees seen (.byte b :: schedule) result := by
  have hbytes : seen ++ stream (.byte b :: schedule) = seen ++ [b] ++ stream schedule := by
    rw [stream_byte, append_assoc]
    rfl
  constructor
  · intro size skip hparse hle
    rw [hbytes] at hparse hle ⊢
    obtain ⟨taken, rest, htaken, hstream, hres⟩ := h.frame hparse hle
    refine ⟨.byte b :: taken, rest, by rw [htaken]; rfl, ?_, hres⟩
    rw [← hstream, stream_byte, append_assoc]
    rfl
  · rw [hbytes]
    exact h.refused
  · rw [hbytes]
    exact h.short
  · rw [hbytes]
    exact h.waiting

/-- A call that is retried changes nothing. -/
theorem Agrees.retry (hres : res.byte? = none) (hgo : res.isFinal = false)
    (h : Agrees seen schedule result) : Agrees seen (res :: schedule) result := by
  have hfinal : final (res :: schedule) = final schedule := find?_cons_of_neg (by simp [hgo])
  constructor
  · intro size skip hparse hle
    rw [stream_retry hres hgo] at hparse hle ⊢
    obtain ⟨taken, rest, htaken, hstream, hresult⟩ := h.frame hparse hle
    refine ⟨res :: taken, rest, by rw [htaken]; rfl, ?_, hresult⟩
    rw [stream_retry hres hgo]
    exact hstream
  all_goals rw [stream_retry hres hgo]
  · exact h.refused
  · rw [hfinal]
    exact h.short
  · rw [hfinal]
    exact h.waiting

/-- A refused header is refused with whatever comes behind it. -/
theorem Agrees.of_failure (hparse : parse seen = .failure) (hres : Failed result) :
    Agrees seen schedule result := by
  have hmore : parse (seen ++ stream schedule) = .failure :=
    (parse_append _ (by simp [hparse])).trans hparse
  constructor
  · intro size skip h
    rw [hmore] at h
    cases h
  · exact fun _ => hres
  · intro size skip h
    rw [hmore] at h
    cases h
  · intro h
    rw [hmore] at h
    cases h

/-- What `reparse` leaves after one more byte. -/
theorem reparse_byte {size : Nat} {buf : Bytes} (h : Reading seen size buf)
    (hgo : size = 0 ∨ buf.length < size) (b : UInt8) :
    (∃ size' buf', reparse size (buf ++ [b]) = .ok (size', buf') ∧
      Reading (seen ++ [b]) size' buf') ∨
      parse (seen ++ [b]) = .failure ∧ reparse size (buf ++ [b]) = .error (.failure .ebadmsg) := by
  cases h with
  | header hwait =>
    cases hparse : parse (seen ++ [b]) with
    | wantMore => exact .inl ⟨0, _, by simp [reparse, hparse], .header hparse⟩
    | failure => exact .inr ⟨rfl, by simp [reparse, hparse]⟩
    | size size skip =>
      have hskip := parse_concat hwait hparse
      refine .inl ⟨size, _, by simp [reparse, hparse], .payload hparse ?_⟩
      rw [length_append, length_singleton]
      omega
  | @payload size skip hhead hle =>
    obtain ⟨hpos, hskip⟩ := parse_size hhead
    rw [length_drop] at hgo
    refine .inl ⟨size, (seen ++ [b]).drop skip, ?_, .payload ?_ ?_⟩
    · unfold reparse
      rw [if_neg (by omega), drop_append_of_le_length hskip]
    · rw [parse_append _ (by simp [hhead]), hhead]
    · rw [length_append, length_singleton]
      omega

/-- A round without a byte leaves the state as it is. -/
theorem reparse_same {size : Nat} {buf : Bytes} (h : Reading seen size buf) :
    reparse size buf = .ok (size, buf) := by
  unfold reparse
  cases h with
  | header hwait => rw [if_pos rfl, hwait]
  | payload hhead _ => exact if_neg (Nat.pos_iff_ne_zero.mp (parse_size hhead).1)

/-- The last round of the loop. -/
theorem readRound_final (hfinal : res.isFinal) (size : Nat) (buf : Bytes) :
    ∃ errno, readRound size buf res =
      .error (if (size = 0 ∧ buf = []) ∧ res.isEnd then .ended else .failure errno) := by
  cases res with
  | byte b => cases hfinal
  | endOfFile => exact ⟨.ebadmsg, by simp [readRound, ReadResult.isEnd]⟩
  | error errno =>
    have hstop : errno ≠ .eintr ∧ errno ≠ .eagain := of_decide_eq_true hfinal
    by_cases hreset : errno = .econnreset ∧ buf = []
    · exact ⟨.ebadmsg, by simp [readRound, ReadResult.isEnd, hreset]⟩
    refine ⟨errno, ?_⟩
    have hno : ¬ ((size = 0 ∧ buf = []) ∧ (ReadResult.error errno).isEnd) :=
      fun h => hreset ⟨of_decide_eq_true h.2, h.1.2⟩
    rw [if_neg hno, readRound, if_neg hreset, if_pos hstop]

section

variable {size : Nat} {buf : Bytes}

section

variable (h : Reading seen size buf)

include h

section

variable (hgo : size = 0 ∨ buf.length < size)

include hgo

/-- What was read, as the parser sees it while the loop runs. -/
theorem Reading.of_going
    :
    parse seen = .wantMore ∧ size = 0 ∧ buf = seen ∨
      ∃ skip, parse seen = .size size skip ∧ size ≠ 0 ∧ seen.length < skip + size := by
  cases h with
  | header hwait => exact .inl ⟨hwait, rfl, rfl⟩
  | @payload size skip hhead hle =>
    obtain ⟨hpos, hskip⟩ := parse_size hhead
    rw [length_drop] at hgo
    exact .inr ⟨skip, hhead, by omega, by omega⟩

/-- The schedule ends before the frame does. -/
theorem Agrees.of_final {res : ReadResult}
    (hfinal : res.isFinal) {errno : Errno} :
    Agrees seen (res :: schedule)
      (some (if (size = 0 ∧ buf = []) ∧ res.isEnd then .ended else .failure errno, schedule)) := by
  have hfind : final (res :: schedule) = some res := find?_cons_of_pos hfinal
  constructor
  all_goals
    rw [stream_final hfinal, append_nil]
    try rw [hfind]
  all_goals rcases h.of_going hgo with ⟨hwait, rfl, rfl⟩ | ⟨skip, hhead, hne, hlt⟩
  all_goals first | rw [hwait] | rw [hhead]
  · exact nofun
  · rintro _ _ ⟨⟩ hle
    omega
  · exact nofun
  · exact nofun
  · exact nofun
  · rintro _ _ ⟨⟩ _
    refine (if_pos rfl).mpr ⟨errno, schedule, ?_⟩
    rw [if_neg (fun hno => hne hno.1.1)]
  · intro _
    by_cases hend : buf = [] ∧ res.isEnd
    · exact (if_pos hend).mpr ⟨schedule, by rw [if_pos ⟨⟨rfl, hend.1⟩, hend.2⟩]⟩
    · refine (if_neg hend).mpr ⟨errno, schedule, ?_⟩
      rw [if_neg (fun hno => hend ⟨hno.1.2, hno.2⟩)]
  · exact nofun

/-- The schedule is used up. -/
theorem Agrees.of_nil
    : Agrees seen [] none := by
  have hstream : stream [] = [] := rfl
  constructor
  all_goals rw [hstream, append_nil]
  all_goals rcases h.of_going hgo with ⟨hwait, -, -⟩ | ⟨skip, hhead, -, hlt⟩
  all_goals first | rw [hwait] | rw [hhead]
  · exact nofun
  · rintro _ _ ⟨⟩ hle
    omega
  · exact nofun
  · exact nofun
  · exact nofun
  · exact fun _ _ => rfl
  · exact fun _ => rfl
  · exact nofun

end

/-- The payload is there. -/
theorem Agrees.of_done
    (hdone : ¬ (size = 0 ∨ buf.length < size)) :
    Agrees seen schedule (some (.frame size buf, schedule)) := by
  cases h with
  | header _ => exact absurd (.inl rfl) hdone
  | @payload size skip hhead hle =>
    rw [length_drop] at hdone
    have hskip := (parse_size hhead).2
    have hmore : parse (seen ++ stream schedule) = .size size skip :=
      (parse_append _ (by simp [hhead])).trans hhead
    have hlen : seen.length = skip + size := by omega
    constructor
    all_goals rw [hmore]
    · rintro _ _ ⟨⟩ _
      refine ⟨[], schedule, rfl, ?_, ?_⟩
      · rw [← hlen, take_left]
        exact append_nil seen
      · rw [drop_append_of_le_length hskip, take_left' (by rw [length_drop]; omega)]
    · exact nofun
    · rintro _ _ ⟨⟩ hlt
      rw [length_append] at hlt
      omega
    · exact nofun

end

end

/-- **The loop agrees with the parser** of the header, by induction on the schedule. -/
theorem readLoop_agrees (schedule : List ReadResult) {size : Nat} {buf : Bytes}
    (h : Reading seen size buf) : Agrees seen schedule (readLoop size buf schedule) := by
  induction schedule generalizing seen size buf with
  | nil =>
    by_cases hgo : size = 0 ∨ buf.length < size
    · rw [readLoop, if_pos hgo]
      exact .of_nil h hgo
    · rw [readLoop, if_neg hgo]
      exact .of_done h hgo
  | cons res schedule ih =>
    by_cases hgo : size = 0 ∨ buf.length < size
    · rw [readLoop, if_pos hgo]
      cases hfinal : res.isFinal with
      | true =>
        obtain ⟨errno, hround⟩ := readRound_final hfinal size buf
        rw [hround]
        exact .of_final h hgo hfinal
      | false =>
        cases res with
        | byte b =>
          rw [readRound]
          rcases reparse_byte h hgo b with ⟨size', buf', hround, hnext⟩ | ⟨hparse, hround⟩
          · rw [hround]
            exact (ih hnext).byte
          · rw [hround]
            exact (Agrees.of_failure hparse ⟨.ebadmsg, schedule, rfl⟩).byte
        | endOfFile => cases hfinal
        | error errno =>
          have hretry : ¬ (errno ≠ .eintr ∧ errno ≠ .eagain) := of_decide_eq_false hfinal
          have hreset : ¬ (errno = .econnreset ∧ buf = []) := by
            rintro ⟨rfl, -⟩
            exact hretry (by decide)
          rw [readRound, if_neg hreset, if_neg hretry, reparse_same h]
          exact (ih h).retry rfl hfinal
    · rw [readLoop, if_neg hgo]
      exact .of_done h hgo

/-! ### The writer -/

variable {data : Bytes}

/-- What is written without an error is the data. -/
theorem fdWriteAll_ok {schedule rest : List WriteResult}
    (h : fdWriteAll data schedule = some (true, out, rest)) : out = data := by
  induction schedule generalizing data out with
  | nil =>
    rw [fdWriteAll] at h
    split at h
    · rename_i hnil
      cases h
      exact hnil.symm
    · cases h
  | cons res schedule ih =>
    unfold fdWriteAll at h
    split at h
    · rename_i hnil
      cases h
      exact hnil.symm
    split at h
    · obtain ⟨⟨ok, more, rest'⟩, hmore, heq⟩ := Option.map_eq_some_iff.mp h
      cases heq
      rw [ih hmore, take_append_drop]
    · split at h
      · cases h
      · exact ih h

/-- **A frame that was written** is its length, a newline and the input. -/
theorem frameWrite_ok {schedule : List WriteResult}
    (h : frameWrite input schedule = some (true, out)) :
    out = decimal (input.length % 2 ^ 32) ++ newline :: input := by
  unfold frameWrite at h
  split at h
  · cases h
  · cases h
  rename_i prefixOut rest hprefix
  obtain ⟨⟨ok, more, rest'⟩, hmore, heq⟩ := Option.map_eq_some_iff.mp h
  cases heq
  rw [fdWriteAll_ok hprefix, fdWriteAll_ok hmore, append_assoc]
  rfl

/-- An error of `write` that isn't retried. -/
def WriteResult.isFinal : WriteResult → Bool
  | .wrote _ => false
  | .error errno => errno ≠ .eagain ∧ errno ≠ .eintr

/-- Something is taken. -/
def WriteResult.taking : WriteResult → Bool
  | .wrote count => 0 < count
  | .error _ => false

/-- How often `write` takes something before such an error. -/
def takes (writes : List WriteResult) : Nat :=
  (writes.takeWhile (!·.isFinal)).countP (·.taking)

theorem takes_cons (res : WriteResult) (writes : List WriteResult) :
    takes (res :: writes) = if res.isFinal then 0 else takes writes + if res.taking then 1 else 0 := by
  unfold takes
  rw [takeWhile_cons]
  cases res.isFinal <;> simp [countP_cons]

variable {writes : List WriteResult}

/-- Every call takes a byte at least, so that as many calls as there are bytes are enough. -/
theorem fdWriteAll_of_takes
    (h : data.length ≤ takes writes) :
    ∃ rest, fdWriteAll data writes = some (true, data, rest) ∧
      takes writes ≤ data.length + takes rest := by
  induction writes generalizing data with
  | nil =>
    obtain rfl := length_eq_zero_iff.mp (Nat.le_zero.mp h)
    exact ⟨[], rfl, Nat.zero_le _⟩
  | cons res writes ih =>
    unfold fdWriteAll
    by_cases hnil : data = []
    · rw [if_pos hnil, hnil]
      exact ⟨_, rfl, by simp⟩
    rw [if_neg hnil]
    have hpos := length_pos_iff.mpr hnil
    cases res with
    | wrote count =>
      rw [takes_cons] at h ⊢
      simp only [WriteResult.isFinal, WriteResult.taking, Bool.false_eq_true, if_false,
        decide_eq_true_eq] at h ⊢
      have hleft : (data.drop count).length ≤ takes writes := by
        rw [length_drop]
        split at h <;> omega
      obtain ⟨rest, hrest, hle⟩ := ih hleft
      refine ⟨rest, by simp [hrest], ?_⟩
      rw [length_drop] at hle
      split <;> omega
    | error errno =>
      dsimp only
      by_cases hfinal : errno ≠ .eagain ∧ errno ≠ .eintr
      · have hzero : takes (.error errno :: writes) = 0 := by
          rw [takes_cons]
          exact if_pos (decide_eq_true hfinal)
        omega
      · have hretry : takes (.error errno :: writes) = takes writes := by
          rw [takes_cons]
          exact if_neg (by simpa [WriteResult.isFinal] using hfinal)
        rw [if_neg hfinal, hretry]
        exact ih (hretry ▸ h)

/-- `cockpit_frame_write` succeeds when `write` takes something often enough. -/
theorem frameWrite_of_takes (hlt : input.length < 2 ^ 32)
    (h : (decimal input.length).length + 1 + input.length ≤ takes writes) :
    frameWrite input writes = some (true, decimal input.length ++ newline :: input) := by
  obtain ⟨rest, hprefix, hle⟩ := fdWriteAll_of_takes
    (show (decimal input.length ++ [newline]).length ≤ takes writes by
      rw [length_append, length_singleton]; omega)
  rw [length_append, length_singleton] at hle
  obtain ⟨rest', hinput, -⟩ := fdWriteAll_of_takes (show input.length ≤ takes rest by omega)
  unfold frameWrite
  rw [Nat.mod_eq_of_lt hlt, hprefix]
  simp [hinput]

/-- A stream starts with one frame at most. -/
theorem StartsWith.unique {payload' : Bytes} {size size' skip' : Nat}
    (h : StartsWith bytes size skip payload) (h' : StartsWith bytes size' skip' payload') :
    size = size' ∧ skip = skip' ∧ payload = payload' := by
  obtain ⟨rfl, rfl⟩ := Parsed.size.inj (h.header.symm.trans h'.header)
  exact ⟨rfl, rfl, h.payload.trans h'.payload.symm⟩

/-- What `cockpit_frame_read` does, by what the stream starts with and how it ends. -/
theorem frameRead_cases (schedule : List ReadResult) :
    (∃ size skip payload taken rest, StartsWith (stream schedule) size skip payload ∧
      frameRead schedule = some (.frame size payload, rest) ∧ schedule = taken ++ rest ∧
      stream taken = (stream schedule).take (skip + size)) ∨
    (¬ ∃ size skip payload, StartsWith (stream schedule) size skip payload) ∧
      ((stream schedule = [] ∧ (final schedule).any (·.isEnd)) ∧
          (∃ rest, frameRead schedule = some (.ended, rest)) ∨
        (parse (stream schedule) = .failure ∨ (final schedule).isSome) ∧
          ¬ (stream schedule = [] ∧ (final schedule).any (·.isEnd)) ∧
          Failed (frameRead schedule) ∨
        parse (stream schedule) ≠ .failure ∧ final schedule = none ∧ frameRead schedule = none) := by
  have hloop := readLoop_agrees schedule (.header (rfl : parse [] = .wantMore))
  cases hparse : parse (stream schedule) with
  | size size skip =>
    by_cases hle : skip + size ≤ (stream schedule).length
    · obtain ⟨taken, rest, htaken, hstream, hres⟩ := hloop.frame hparse hle
      exact .inl ⟨size, skip, _, taken, rest, ⟨hparse, hle, rfl⟩, hres, htaken, hstream⟩
    refine .inr ⟨?_, ?_⟩
    · rintro ⟨size', skip', payload, hstart⟩
      cases hparse.symm.trans hstart.header
      exact hle hstart.complete
    have hne : stream schedule ≠ [] := by
      intro hnil
      rw [hnil] at hparse
      cases hparse
    have hshort := hloop.short hparse (Nat.lt_of_not_le hle)
    cases hfinal : final schedule with
    | none =>
      rw [hfinal] at hshort
      exact .inr (.inr ⟨nofun, rfl, hshort⟩)
    | some res =>
      rw [hfinal] at hshort
      exact .inr (.inl ⟨.inr rfl, fun hend => hne hend.1, hshort⟩)
  | failure =>
    have hne : stream schedule ≠ [] := by
      intro hnil
      rw [hnil] at hparse
      cases hparse
    refine .inr ⟨?_, .inr (.inl ⟨.inl rfl, fun hend => hne hend.1, hloop.refused hparse⟩)⟩
    rintro ⟨size, skip, payload, hstart⟩
    cases hparse.symm.trans hstart.header
  | wantMore =>
    refine .inr ⟨?_, ?_⟩
    · rintro ⟨size, skip, payload, hstart⟩
      cases hparse.symm.trans hstart.header
    have hwait := hloop.waiting hparse
    cases hfinal : final schedule with
    | none =>
      rw [hfinal] at hwait
      exact .inr (.inr ⟨nofun, rfl, hwait⟩)
    | some res =>
      rw [hfinal] at hwait
      dsimp only at hwait
      rw [nil_append] at hwait
      split at hwait
      · rename_i hend
        exact .inl ⟨hend, hwait⟩
      · rename_i hend
        exact .inr (.inl ⟨.inr rfl, hend, hwait⟩)

theorem StartsWith.ne_nil {size : Nat} (h : StartsWith bytes size skip payload) : bytes ≠ [] := by
  rintro rfl
  cases h.header

/-- The frame that is read is the one that the stream starts with. -/
theorem frameRead_frame_iff (schedule : List ReadResult) (size : Nat) (payload : Bytes) :
    (∃ rest, frameRead schedule = some (.frame size payload, rest)) ↔
      ∃ skip, StartsWith (stream schedule) size skip payload := by
  rcases frameRead_cases schedule with
    ⟨_, skip, _, _, rest, hstart, hread, -⟩ |
    ⟨hno, ⟨-, _, hread⟩ | ⟨-, -, _, _, hread⟩ | ⟨-, -, hread⟩⟩
  · constructor
    · rintro ⟨rest', hread'⟩
      cases hread.symm.trans hread'
      exact ⟨skip, hstart⟩
    · rintro ⟨skip', hstart'⟩
      obtain ⟨rfl, -, rfl⟩ := hstart.unique hstart'
      exact ⟨rest, hread⟩
  all_goals
    rw [hread]
    exact iff_of_false nofun fun ⟨skip, hstart⟩ => hno ⟨size, skip, payload, hstart⟩

/-- Zero is returned for a stream without a byte, and all else is a failure, once the schedule
    has ended or the header was refused. -/
theorem frameRead_else (schedule : List ReadResult) :
    ((∃ rest, frameRead schedule = some (.ended, rest)) ↔
      stream schedule = [] ∧ (final schedule).any (·.isEnd)) ∧
    (Failed (frameRead schedule) ↔ (parse (stream schedule) = .failure ∨ (final schedule).isSome) ∧
      (¬ ∃ size skip payload, StartsWith (stream schedule) size skip payload) ∧
      ¬ (stream schedule = [] ∧ (final schedule).any (·.isEnd))) := by
  rcases frameRead_cases schedule with
    ⟨size, skip, payload, _, _, hstart, hread, -⟩ |
    ⟨hno, ⟨hend, _, hread⟩ | ⟨hbad, hend, hfail⟩ | ⟨hparse, hfinal, hread⟩⟩
  · rw [hread]
    exact ⟨iff_of_false nofun fun hend => hstart.ne_nil hend.1,
      iff_of_false nofun fun h => h.2.1 ⟨size, skip, payload, hstart⟩⟩
  · rw [hread]
    exact ⟨iff_of_true ⟨_, rfl⟩ hend, iff_of_false nofun fun h => h.2.2 hend⟩
  · refine ⟨iff_of_false ?_ hend, iff_of_true hfail ⟨hbad, hno, hend⟩⟩
    obtain ⟨_, _, hread⟩ := hfail
    rw [hread]
    exact nofun
  · rw [hread, hfinal]
    exact ⟨iff_of_false nofun nofun, iff_of_false nofun fun h => h.1.elim hparse nofun⟩

/-- What was written is what the stream starts with. -/
theorem startsWith_written
    (hpos : 0 < input.length) (hle : input.length ≤ 99999999)
    (h : frameWrite input writes = some (true, out)) (hbytes : out <+: bytes) :
    ∃ skip, StartsWith bytes input.length skip input := by
  obtain ⟨more, rfl⟩ := hbytes
  rw [frameWrite_ok h, Nat.mod_eq_of_lt (by omega)]
  refine ⟨(decimal input.length).length + 1, ?_, ?_, ?_⟩
  · rw [append_assoc, cons_append]
    exact parse_encoded hpos (by omega) _
  · simp only [length_append, length_cons]
    omega
  · have hsplit : decimal input.length ++ newline :: input ++ more =
        decimal input.length ++ [newline] ++ (input ++ more) := by simp
    rw [hsplit, drop_left' (by simp), take_left]

/-- **The reader agrees with the parser.**  It returns a frame iff the stream starts with it, and
    has then taken the bytes of the frame from the schedule; it returns zero iff the stream ends
    before any byte; a schedule that ends or is refused otherwise makes it fail; and a buffer is
    written when `write` takes something often enough, and what was written is read back. -/
theorem frame_read_agrees (schedule : List ReadResult) :
    (∀ size payload, (∃ rest, frameRead schedule = some (.frame size payload, rest)) ↔
      ∃ skip, StartsWith (stream schedule) size skip payload) ∧
    (∀ size payload rest, frameRead schedule = some (.frame size payload, rest) →
      ∃ taken skip, schedule = taken ++ rest ∧ StartsWith (stream schedule) size skip payload ∧
        stream taken = (stream schedule).take (skip + size)) ∧
    ((∃ rest, frameRead schedule = some (.ended, rest)) ↔
      stream schedule = [] ∧ (final schedule).any (·.isEnd)) ∧
    (Failed (frameRead schedule) ↔ (parse (stream schedule) = .failure ∨ (final schedule).isSome) ∧
      (¬ ∃ size skip payload, StartsWith (stream schedule) size skip payload) ∧
      ¬ (stream schedule = [] ∧ (final schedule).any (·.isEnd))) ∧
    ∀ input writes, 0 < input.length → input.length ≤ 99999999 →
      ((decimal input.length).length + 1 + input.length ≤ takes writes →
        ∃ out, frameWrite input writes = some (true, out)) ∧
      ∀ out, frameWrite input writes = some (true, out) → out <+: stream schedule →
        ∃ rest, frameRead schedule = some (.frame input.length input, rest) := by
  refine ⟨frameRead_frame_iff schedule, ?_, (frameRead_else schedule).1,
    (frameRead_else schedule).2, ?_⟩
  · intro size payload rest hread
    rcases frameRead_cases schedule with
      ⟨_, skip, _, taken, _, hstart, hread', htaken, hstream⟩ |
      ⟨-, ⟨-, _, hread'⟩ | ⟨-, -, _, _, hread'⟩ | ⟨-, -, hread'⟩⟩
    all_goals cases hread'.symm.trans hread
    exact ⟨taken, skip, htaken, hstart, hstream⟩
  · intro input writes hpos hle
    refine ⟨fun h => ⟨_, frameWrite_of_takes (by omega) h⟩, fun out hwrite hprefix => ?_⟩
    exact (frameRead_frame_iff schedule _ _).mpr (startsWith_written hpos hle hwrite hprefix)

/-- "hi" is written in pieces, and read back after an interruption. -/
theorem frame_read_agrees_written :
    ∃ out, frameWrite [104, 105] [.wrote 1, .error .eintr, .wrote 9, .wrote 1, .wrote 9] =
        some (true, out) ∧
      ∃ rest, frameRead (.error .eagain :: out.map .byte) = some (.frame 2 [104, 105], rest) := by
  obtain ⟨-, -, -, -, hwrites⟩ := frame_read_agrees
    (.error .eagain :: [(50 : UInt8), 10, 104, 105].map .byte)
  obtain ⟨hok, hread⟩ := hwrites [104, 105] [.wrote 1, .error .eintr, .wrote 9, .wrote 1, .wrote 9]
    (by decide) (by decide)
  obtain ⟨out, hout⟩ := hok (by decide +kernel)
  obtain rfl : out = [50, 10, 104, 105] := (frameWrite_ok hout).trans (by decide +kernel)
  exact ⟨_, hout, hread _ hout (by decide +kernel)⟩

end Cockpit.Frame
