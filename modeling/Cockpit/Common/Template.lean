import Cockpit.Common.GLib
import Cockpit.Lib.Occurrences

namespace Cockpit.Template

open List Option Lib Except

/-!
# `src/common/cockpittemplate.c`

The variables in a block of bytes are replaced.  The search for them uses the string functions, and
so it ends at a NUL byte, wherever in memory the next one is.

* `expansion` — the block with its variables replaced, whatever bytes are in it;
* `expands_iff` — the blocks that are expanded whatever they are followed by.
-/

/-- A marker is a string that is not empty. -/
structure Marker where
  bytes : Bytes
  ne_nil : bytes ≠ []
  noNul : (0 : UInt8) ∉ bytes

/-- `VARCHARS` -/
def varchar (c : UInt8) : Bool :=
  (65 ≤ c && c ≤ 90) || (97 ≤ c && c ≤ 122) || (48 ≤ c && c ≤ 57) || c == 46 || c == 95 || c == 45

def backslash : UInt8 := 92

/-- Why an expansion does not return. -/
inductive Failure where
  /-- `strlen` finds no NUL in the memory that can be read. -/
  | fault
  /-- `after <= end` does not hold. -/
  | assertion
  deriving DecidableEq

/-- A variable, the text before it, and what is behind it. -/
structure Found where
  text : Bytes
  name : Bytes
  raw : Bytes
  behind : Bytes
  deriving DecidableEq

/-- The same variable further on. -/
def Found.after (skipped : Bytes) (f : Found) : Found := { f with text := skipped ++ f.text }

/-- The same variable with more behind it. -/
def Found.extend (more : Bytes) (f : Found) : Found := { f with behind := f.behind ++ more }

/-- What one turn of the loop in `find_variable` comes to. -/
inductive Turn where
  | none
  | found (f : Found)
  /-- Another turn, that many bytes further on. -/
  | skip (d : Nat)
  deriving DecidableEq

/-- What `strlen` counts. -/
def cString (data : Bytes) : Except Failure Bytes :=
  if 0 ∈ data then .ok (data.takeWhile (· ≠ 0)) else .error .fault

section

variable (startMarker endMarker : Marker)

/-- One turn of the loop in `find_variable`; `data` is the memory from there on. -/
def turn (data : Bytes) : Except Failure Turn := do
  let hay ← cString data
  match Lib.search startMarker.bytes hay with
  | none => return .none
  | some a =>
    let b := data.drop (a + startMarker.bytes.length)
    let hay ← cString b
    match Lib.search endMarker.bytes hay with
    | none => return .none
    | some len =>
      let d := a + startMarker.bytes.length + len + endMarker.bytes.length
      if len ≠ 0 ∧ (b.takeWhile varchar).length = len then
        return .found ⟨data.take a, b.take len, (data.take d).drop a, data.drop d⟩
      else return .skip d

/-- The same within a block of bytes, whatever they are. -/
def blockTurn (block : Bytes) : Turn :=
  match Lib.search startMarker.bytes block with
  | none => .none
  | some a =>
    let b := block.drop (a + startMarker.bytes.length)
    match Lib.search endMarker.bytes b with
    | none => .none
    | some len =>
      let d := a + startMarker.bytes.length + len + endMarker.bytes.length
      if len ≠ 0 ∧ (b.takeWhile varchar).length = len then
        .found ⟨block.take a, b.take len, (block.take d).drop a, block.drop d⟩
      else .skip d

variable {startMarker endMarker}

/-- What one turn in a block comes to: the places are in the block, one behind the other. -/
theorem blockTurn_cases (block : Bytes) :
    blockTurn startMarker endMarker block = .none ∨
    (∃ a d name, a < d ∧ d ≤ block.length ∧ blockTurn startMarker endMarker block =
      .found ⟨block.take a, name, (block.take d).drop a, block.drop d⟩) ∨
    ∃ d, 0 < d ∧ d ≤ block.length ∧ blockTurn startMarker endMarker block = .skip d := by
  unfold blockTurn
  cases hstart : Lib.search startMarker.bytes block with
  | none => exact .inl rfl
  | some a =>
    have hpos := length_pos_iff.mpr startMarker.ne_nil
    have hle := (search_eq_some_iff.mp hstart).1.le startMarker.ne_nil
    dsimp only
    cases hend : Lib.search endMarker.bytes (block.drop (a + startMarker.bytes.length)) with
    | none => exact .inl rfl
    | some len =>
      have hlen := (search_eq_some_iff.mp hend).1.le endMarker.ne_nil
      rw [length_drop] at hlen
      right
      dsimp only
      split
      · exact .inl ⟨a, _, _, by omega, by omega, rfl⟩
      · exact .inr ⟨_, by omega, by omega, rfl⟩

/-! ### Memory up to a NUL -/

variable {hay : Bytes}

theorem cString_nul (hhay : (0 : UInt8) ∉ hay) (more : Bytes) :
    cString (hay ++ 0 :: more) = .ok hay := by
  have htake : (hay ++ 0 :: more).takeWhile (· ≠ 0) = hay := by
    rw [takeWhile_append_of_pos, takeWhile_cons_of_neg (by simp), append_nil]
    intro c hc
    have hne : c ≠ 0 := by
      rintro rfl
      exact hhay hc
    simpa using hne
  rw [cString, if_pos (by simp), htake]

theorem takeWhile_nul (hay more : Bytes) :
    (hay ++ 0 :: more).takeWhile varchar = hay.takeWhile varchar := by
  have hnul : varchar 0 = false := by decide
  induction hay with
  | nil => rw [nil_append, takeWhile_cons_of_neg (by simp [hnul]), takeWhile_nil]
  | cons c hay ih =>
    rw [cons_append]
    cases hc : varchar c with
    | true => rw [takeWhile_cons_of_pos hc, takeWhile_cons_of_pos hc, ih]
    | false =>
      rw [takeWhile_cons_of_neg (by simp [hc]), takeWhile_cons_of_neg (by simp [hc])]

/-- The same turn with more behind. -/
def Turn.extend (more : Bytes) : Turn → Turn
  | .none => .none
  | .found f => .found (f.extend more)
  | .skip d => .skip d

/-- **Where there is a NUL**, the string before it is what is searched. -/
theorem turn_nul (hhay : (0 : UInt8) ∉ hay) (more : Bytes) :
    turn startMarker endMarker (hay ++ 0 :: more) =
      .ok ((blockTurn startMarker endMarker hay).extend (0 :: more)) := by
  unfold turn blockTurn
  rw [cString_nul hhay]
  dsimp only [bind, Except.bind]
  cases hstart : Lib.search startMarker.bytes hay with
  | none => rfl
  | some a =>
    have hle := (search_eq_some_iff.mp hstart).1.le startMarker.ne_nil
    have hdrop : (hay ++ 0 :: more).drop (a + startMarker.bytes.length) =
        hay.drop (a + startMarker.bytes.length) ++ 0 :: more := drop_append_of_le_length hle
    have hnul : (0 : UInt8) ∉ hay.drop (a + startMarker.bytes.length) :=
      fun h => hhay (mem_of_mem_drop h)
    dsimp only
    rw [hdrop, cString_nul hnul]
    dsimp only
    cases hend : Lib.search endMarker.bytes (hay.drop (a + startMarker.bytes.length)) with
    | none => rfl
    | some len =>
      have hlen := (search_eq_some_iff.mp hend).1.le endMarker.ne_nil
      have hb : len ≤ (hay.drop (a + startMarker.bytes.length)).length := by omega
      rw [length_drop] at hlen
      dsimp only
      rw [takeWhile_nul, take_append_of_le_length hb, take_append_of_le_length (by omega),
        take_append_of_le_length (by omega), drop_append_of_le_length (by omega)]
      split <;> rfl

variable {data : Bytes}

theorem turn_fault (h : (0 : UInt8) ∉ data) :
    turn startMarker endMarker data = .error .fault := by
  unfold turn
  rw [cString, if_neg h]
  rfl

/-- A turn that goes on has something to go on from. -/
theorem turn_ok {t : Turn} (h : turn startMarker endMarker data = .ok t) :
    ∃ hay more, data = hay ++ 0 :: more ∧ (0 : UInt8) ∉ hay ∧
      t = (blockTurn startMarker endMarker hay).extend (0 :: more) := by
  by_cases hnul : (0 : UInt8) ∈ data
  · obtain ⟨hay, more, rfl, hhay⟩ := eq_append_cons_of_mem hnul
    rw [turn_nul hhay] at h
    exact ⟨hay, more, rfl, hhay, (ok.inj h).symm⟩
  · rw [turn_fault hnul] at h
    cases h

/-! ### Variables -/

variable {block : Bytes} {d left : Nat}

theorem blockTurn_skip
    (h : blockTurn startMarker endMarker block = .skip d) : 0 < d ∧ d ≤ block.length := by
  rcases @blockTurn_cases startMarker endMarker block with
    h' | ⟨_, _, _, _, _, h'⟩ | ⟨d', hpos, hle, h'⟩
  · rw [h'] at h
    cases h
  · rw [h'] at h
    cases h
  · rw [h'] at h
    cases h
    exact ⟨hpos, hle⟩

variable {f : Found}

theorem blockTurn_found
    (h : blockTurn startMarker endMarker block = .found f) :
    block = f.text ++ f.raw ++ f.behind ∧ f.raw ≠ [] := by
  rcases @blockTurn_cases startMarker endMarker block with
    h' | ⟨a, d, name, hlt, hle, h'⟩ | ⟨_, _, _, h'⟩
  · rw [h'] at h
    cases h
  · rw [h'] at h
    cases h
    have htake : (block.take d).take a = block.take a := by
      rw [take_take, Nat.min_eq_left (by omega)]
    refine ⟨?_, fun hnil => ?_⟩
    · rw [← htake, take_append_drop, take_append_drop]
    · have hlen := congrArg length hnil
      rw [length_drop, length_take, length_nil] at hlen
      omega
  · rw [h'] at h
    cases h

theorem turn_skip (h : turn startMarker endMarker data = .ok (.skip d)) :
    0 < d ∧ d < data.length := by
  obtain ⟨hay, more, rfl, -, ht⟩ := turn_ok h
  cases hb : blockTurn startMarker endMarker hay with
  | none | found f =>
    rw [hb] at ht
    cases ht
  | skip d' =>
    rw [hb] at ht
    cases ht
    obtain ⟨hpos, hle⟩ := blockTurn_skip hb
    refine ⟨hpos, ?_⟩
    rw [length_append, length_cons]
    omega

variable (startMarker endMarker)

/-- `find_variable`, on the memory from `data` on. -/
def findVariable (data : Bytes) : Except Failure (Option Found) :=
  match _h : turn startMarker endMarker data with
  | .error e => .error e
  | .ok .none => .ok none
  | .ok (.found f) => .ok (some f)
  | .ok (.skip d) => (findVariable (data.drop d)).map (Option.map (Found.after (data.take d)))
termination_by data.length
decreasing_by
  have := turn_skip ‹_›
  rw [length_drop]
  omega

/-- The first variable in a block, whatever bytes are in it. -/
def find (block : Bytes) : Option Found :=
  match _h : blockTurn startMarker endMarker block with
  | .none => none
  | .found f => some f
  | .skip d => (find (block.drop d)).map (Found.after (block.take d))
termination_by block.length
decreasing_by
  have := blockTurn_skip ‹_›
  rw [length_drop]
  omega

variable {startMarker endMarker}

theorem find_of_none (h : blockTurn startMarker endMarker block = .none) :
    find startMarker endMarker block = none := by
  rw [find]
  split
  · rfl
  · next h' => rw [h] at h'; cases h'
  · next h' => rw [h] at h'; cases h'

theorem find_of_found
    (h : blockTurn startMarker endMarker block = .found f) :
    find startMarker endMarker block = some f := by
  rw [find]
  split
  · next h' => rw [h] at h'; cases h'
  · next h' => rw [h] at h'; cases h'; rfl
  · next h' => rw [h] at h'; cases h'

theorem find_of_skip (h : blockTurn startMarker endMarker block = .skip d) :
    find startMarker endMarker block =
      (find startMarker endMarker (block.drop d)).map (Found.after (block.take d)) := by
  rw [find]
  split
  · next h' => rw [h] at h'; cases h'
  · next h' => rw [h] at h'; cases h'
  · next h' => rw [h] at h'; cases h'; rfl

/-- A variable in a block, and what is around it. -/
theorem find_spec (h : find startMarker endMarker block = some f) :
    block = f.text ++ f.raw ++ f.behind ∧ f.raw ≠ [] := by
  induction hn : block.length using Nat.strongRecOn generalizing block f with
  | ind n ih =>
    cases ht : blockTurn startMarker endMarker block with
    | none =>
      rw [find_of_none ht] at h
      cases h
    | found f' =>
      rw [find_of_found ht] at h
      cases h
      exact blockTurn_found ht
    | skip d =>
      rw [find_of_skip ht, map_eq_some_iff] at h
      obtain ⟨g, hg, rfl⟩ := h
      obtain ⟨hpos, hle⟩ := blockTurn_skip ht
      have hlt : (block.drop d).length < n := by
        rw [length_drop]
        omega
      obtain ⟨hsplit, hraw⟩ := ih _ hlt hg rfl
      refine ⟨?_, hraw⟩
      -- the bytes that are skipped are part of the text
      have hblock := take_append_drop d block
      rw [hsplit] at hblock
      simpa [Found.after] using hblock.symm

theorem find_length (h : find startMarker endMarker block = some f) :
    f.text.length + f.raw.length + f.behind.length = block.length ∧ 0 < f.raw.length := by
  obtain ⟨hsplit, hraw⟩ := find_spec h
  have hlen := congrArg length hsplit
  simp only [length_append] at hlen
  exact ⟨hlen.symm, length_pos_iff.mpr hraw⟩

theorem findVariable_eq (data : Bytes) : findVariable startMarker endMarker data =
    match turn startMarker endMarker data with
    | .error e => .error e
    | .ok .none => .ok none
    | .ok (.found f) => .ok (some f)
    | .ok (.skip d) => (findVariable startMarker endMarker (data.drop d)).map
        (Option.map (Found.after (data.take d))) := by
  rw [findVariable]
  split <;> next h => rw [h]

theorem findVariable_fault (h : (0 : UInt8) ∉ data) :
    findVariable startMarker endMarker data = .error .fault := by
  have ht := @turn_fault startMarker endMarker _ h
  rw [findVariable_eq, ht]

/-- **Where there is a NUL**, what is found are the variables of the string before it. -/
theorem findVariable_nul (hhay : (0 : UInt8) ∉ hay) (more : Bytes) :
    findVariable startMarker endMarker (hay ++ 0 :: more) =
      .ok ((find startMarker endMarker hay).map (Found.extend (0 :: more))) := by
  induction hn : hay.length using Nat.strongRecOn generalizing hay with
  | ind n ih =>
    have ht := @turn_nul startMarker endMarker _ hhay more
    rw [findVariable_eq, ht]
    cases hb : blockTurn startMarker endMarker hay with
    | none =>
      rw [find_of_none hb]
      rfl
    | found f =>
      rw [find_of_found hb]
      rfl
    | skip d =>
      obtain ⟨hpos, hle⟩ := blockTurn_skip hb
      rw [find_of_skip hb]
      dsimp only [Turn.extend]
      have hnul : (0 : UInt8) ∉ hay.drop d := fun h => hhay (mem_of_mem_drop h)
      have hlt : (hay.drop d).length < n := by
        rw [length_drop]
        omega
      rw [drop_append_of_le_length hle, take_append_of_le_length hle, ih _ hlt hnul rfl]
      cases find startMarker endMarker (hay.drop d) with
      | none | some f => rfl

/-! ### Variables in a block that grows -/

/-- A turn in a string, and in a block that has a NUL behind the string. -/
theorem blockTurn_append (hay more : Bytes)
    (h : blockTurn startMarker endMarker hay ≠ .none) :
    blockTurn startMarker endMarker (hay ++ 0 :: more) =
      (blockTurn startMarker endMarker hay).extend (0 :: more) := by
  unfold blockTurn at h ⊢
  cases hstart : Lib.search startMarker.bytes hay with
  | none =>
    rw [hstart] at h
    exact absurd rfl h
  | some a =>
    have hle := (search_eq_some_iff.mp hstart).1.le startMarker.ne_nil
    rw [hstart] at h
    dsimp only at h
    rw [search_append startMarker.ne_nil hstart]
    dsimp only
    rw [drop_append_of_le_length hle]
    cases hend : Lib.search endMarker.bytes (hay.drop (a + startMarker.bytes.length)) with
    | none =>
      rw [hend] at h
      exact absurd rfl h
    | some len =>
      have hlen := (search_eq_some_iff.mp hend).1.le endMarker.ne_nil
      have hb : len ≤ (hay.drop (a + startMarker.bytes.length)).length := by omega
      rw [length_drop] at hlen
      rw [search_append endMarker.ne_nil hend]
      dsimp only
      rw [takeWhile_nul, take_append_of_le_length hb, take_append_of_le_length (by omega),
        take_append_of_le_length (by omega), drop_append_of_le_length (by omega)]
      split <;> rfl

variable {more : Bytes}

/-- What a string does not have is behind the NUL. -/
theorem blockTurn_behind (h : blockTurn startMarker endMarker hay = .none) :
    (∀ f, blockTurn startMarker endMarker (hay ++ 0 :: more) = .found f → hay.length < f.text.length)
      ∧ ∀ d, blockTurn startMarker endMarker (hay ++ 0 :: more) = .skip d → hay.length < d := by
  unfold blockTurn at h ⊢
  cases hall : Lib.search startMarker.bytes (hay ++ 0 :: more) with
  | none => exact ⟨fun f hf => (nomatch hf), fun d hd => (nomatch hd)⟩
  | some a =>
    dsimp only
    cases hend : Lib.search endMarker.bytes ((hay ++ 0 :: more).drop (a + startMarker.bytes.length)) with
    | none => exact ⟨fun f hf => (nomatch hf), fun d hd => (nomatch hd)⟩
    | some len =>
      have hle := (search_eq_some_iff.mp hall).1.le startMarker.ne_nil
      dsimp only
      cases hstart : Lib.search startMarker.bytes hay with
      | none =>
        have hlt := search_append_of_notMem startMarker.noNul startMarker.ne_nil hstart hall
        refine ⟨fun f hf => ?_, fun d hd => ?_⟩
        · split at hf
          · cases hf
            show hay.length < (take a _).length
            rw [length_take]
            omega
          · cases hf
        split at hd
        · cases hd
        · cases hd
          omega
      | some a' =>
        -- it is the end of a variable that the string does not have
        have ha := search_append startMarker.ne_nil hstart (0 :: more)
        have hin := (search_eq_some_iff.mp hstart).1.le startMarker.ne_nil
        rw [hall] at ha
        cases ha
        rw [hstart] at h
        dsimp only at h
        rw [drop_append_of_le_length hin] at hend ⊢
        have hnone : Lib.search endMarker.bytes (hay.drop (a + startMarker.bytes.length)) = none := by
          cases hs : Lib.search endMarker.bytes (hay.drop (a + startMarker.bytes.length)) with
          | none => rfl
          | some len' =>
            rw [hs] at h
            dsimp only at h
            split at h <;> cases h
        have hlt := search_append_of_notMem endMarker.noNul endMarker.ne_nil hnone hend
        have hname := (List.takeWhile_prefix varchar
          (l := hay.drop (a + startMarker.bytes.length))).length_le
        rw [takeWhile_nul]
        rw [length_drop] at hlt hname
        refine ⟨fun f hf => ?_, fun d hd => ?_⟩
        · rw [if_neg (by omega)] at hf
          cases hf
        · rw [if_neg (by omega)] at hd
          cases hd
          omega

/-- A variable in a string is one in a block that begins with the string. -/
theorem find_append (h : find startMarker endMarker hay = some f)
    (more : Bytes) :
    find startMarker endMarker (hay ++ 0 :: more) = some (f.extend (0 :: more)) := by
  induction hn : hay.length using Nat.strongRecOn generalizing hay f with
  | ind n ih =>
    have hturn := @blockTurn_append startMarker endMarker hay more
    cases ht : blockTurn startMarker endMarker hay with
    | none =>
      rw [find_of_none ht] at h
      cases h
    | found g =>
      rw [find_of_found ht] at h
      cases h
      rw [ht] at hturn
      exact find_of_found (hturn nofun)
    | skip d =>
      rw [find_of_skip ht, map_eq_some_iff] at h
      obtain ⟨g, hg, rfl⟩ := h
      obtain ⟨hpos, hle⟩ := blockTurn_skip ht
      have hlt : (hay.drop d).length < n := by
        rw [length_drop]
        omega
      rw [ht] at hturn
      rw [find_of_skip (hturn nofun), drop_append_of_le_length hle,
        take_append_of_le_length hle, ih _ hlt hg rfl]
      rfl

theorem mem_take_nul (hd : hay.length < d) : (0 : UInt8) ∈ (hay ++ 0 :: more).take d := by
  obtain ⟨k, rfl⟩ : ∃ k, d = hay.length + (k + 1) := ⟨d - hay.length - 1, by omega⟩
  rw [take_append, take_of_length_le (by omega), Nat.add_sub_cancel_left, take_succ_cons]
  exact mem_append_right _ mem_cons_self

/-- Any other variable of the block is behind the NUL. -/
theorem find_behind (h : find startMarker endMarker hay = none)
    (hf : find startMarker endMarker (hay ++ 0 :: more) = some f) : (0 : UInt8) ∈ f.text := by
  induction hn : hay.length using Nat.strongRecOn generalizing hay f with
  | ind n ih =>
    cases ht : blockTurn startMarker endMarker hay with
    | none =>
      obtain ⟨hfound, hskip⟩ := @blockTurn_behind startMarker endMarker hay more ht
      cases hall : blockTurn startMarker endMarker (hay ++ 0 :: more) with
      | none =>
        rw [find_of_none hall] at hf
        cases hf
      | found g =>
        rw [find_of_found hall] at hf
        cases hf
        have hlt := hfound f hall
        have hsplit := (blockTurn_found hall).1
        have htext : (hay ++ 0 :: more).take f.text.length = f.text := by
          rw [hsplit, append_assoc, take_left]
        rw [← htext]
        exact mem_take_nul hlt
      | skip d =>
        rw [find_of_skip hall, map_eq_some_iff] at hf
        obtain ⟨g, -, rfl⟩ := hf
        exact mem_append_left _ (mem_take_nul (hskip d hall))
    | found g =>
      rw [find_of_found ht] at h
      cases h
    | skip d =>
      obtain ⟨hpos, hle⟩ := blockTurn_skip ht
      have hall := @blockTurn_append startMarker endMarker hay more (by rw [ht]; exact nofun)
      rw [ht] at hall
      rw [find_of_skip ht, map_eq_none_iff] at h
      rw [find_of_skip hall, drop_append_of_le_length hle, map_eq_some_iff] at hf
      obtain ⟨g, hg, rfl⟩ := hf
      have hlt : (hay.drop d).length < n := by
        rw [length_drop]
        omega
      exact mem_append_right _ (ih _ hlt h hg rfl)

/-- The place of a variable in memory. -/
theorem findVariable_spec
    (h : findVariable startMarker endMarker data = .ok (some f)) :
    data = f.text ++ f.raw ++ f.behind ∧ f.raw ≠ [] := by
  by_cases hnul : (0 : UInt8) ∈ data
  · obtain ⟨hay, more, rfl, hhay⟩ := eq_append_cons_of_mem hnul
    rw [findVariable_nul hhay] at h
    obtain ⟨g, hg, rfl⟩ := map_eq_some_iff.mp (ok.inj h)
    obtain ⟨hsplit, hraw⟩ := find_spec hg
    refine ⟨?_, hraw⟩
    show hay ++ 0 :: more = g.text ++ g.raw ++ (g.behind ++ 0 :: more)
    rw [← append_assoc, ← hsplit]
  · rw [findVariable_fault hnul] at h
    cases h

/-! ### Expansion -/

/-- A function that substitutes names; it may keep a state. -/
abbrev Func (σ : Type) := σ → Bytes → Option Bytes × σ

variable {σ : Type}

/-- A block of output, unless it is empty. -/
def chunk (block : Bytes) : List Bytes := if block = [] then [] else [block]

/-- Whether the byte in front of a variable is a backslash. -/
def Found.escaped (f : Found) : Bool := f.text.getLast? = some backslash

/-- The text in front of a variable, without the backslash. -/
def Found.plain (f : Found) : Bytes := if f.escaped then f.text.dropLast else f.text

variable (func : Func σ)

/-- What is put out for a variable and the text before it. -/
def output (st : σ) (f : Found) : List Bytes × σ :=
  let before := if f.text = [] then [] else [f.plain]
  if f.escaped then (before ++ chunk f.raw, st)
  else
    let (bytes, st) := func st f.name
    (before ++ chunk (bytes.getD f.raw), st)

variable (startMarker endMarker)

/-- The loop of `cockpit_template_expand`: `data` is the memory from there on, and `left` of it is
    in the block. -/
def expandFrom (func : Func σ) (st : σ) (data : Bytes) (left : Nat) :
    Except Failure (List Bytes × σ) :=
  match _h : findVariable startMarker endMarker data with
  | .error e => .error e
  | .ok none => .ok (chunk (data.take left), st)
  | .ok (some f) =>
    let (chunks, st) := output func st f
    if f.text.length + f.raw.length ≤ left then
      (expandFrom func st f.behind (left - (f.text.length + f.raw.length))).map
        fun (more, st) => (chunks ++ more, st)
    else .error .assertion
termination_by data.length
decreasing_by
  obtain ⟨hsplit, hraw⟩ := findVariable_spec ‹_›
  have hpos := length_pos_iff.mpr hraw
  have hlen := congrArg length hsplit
  simp only [length_append] at hlen
  omega

/-- `cockpit_template_expand`, where `rest` is the memory behind the block. -/
def expand (st : σ) (block rest : Bytes) : Except Failure (List Bytes × σ) :=
  expandFrom startMarker endMarker func st (block ++ rest) block.length

/-- The variables of a block, and the text behind the last one. -/
def segments (block : Bytes) : List Found × Bytes :=
  match _h : find startMarker endMarker block with
  | none => ([], block)
  | some f =>
    let (fs, last) := segments f.behind
    (f :: fs, last)
termination_by block.length
decreasing_by
  have := find_length ‹_›
  omega

/-- What is put out for variables one after the other. -/
def outputs (func : Func σ) : σ → List Found → List Bytes × σ
  | st, [] => ([], st)
  | st, f :: fs =>
    let (chunks, st) := output func st f
    let (more, st) := outputs func st fs
    (chunks ++ more, st)

/-- A block with its variables replaced. -/
def expansion (st : σ) (block : Bytes) : List Bytes × σ :=
  let (fs, last) := segments startMarker endMarker block
  let (chunks, st) := outputs func st fs
  (chunks ++ chunk last, st)

/-- A block without the backslashes in front of its variables. -/
def unescaped (block : Bytes) : Bytes :=
  let (fs, last) := segments startMarker endMarker block
  fs.flatMap (fun f => f.plain ++ f.raw) ++ last

variable {startMarker endMarker}

theorem segments_of_none (h : find startMarker endMarker block = none) :
    segments startMarker endMarker block = ([], block) := by
  rw [segments]
  split
  · rfl
  · next h' => rw [h] at h'; cases h'

theorem segments_of_some
    (h : find startMarker endMarker block = some f) :
    segments startMarker endMarker block = (f :: (segments startMarker endMarker f.behind).1,
        (segments startMarker endMarker f.behind).2) := by
  rw [segments]
  split
  · next h' => rw [h] at h'; cases h'
  · next h' => rw [h] at h'; cases h'; rfl

/-- The variables and the texts are all of the block. -/
theorem segments_flatten (block : Bytes) :
    (segments startMarker endMarker block).1.flatMap (fun f => f.text ++ f.raw) ++
      (segments startMarker endMarker block).2 = block := by
  induction hn : block.length using Nat.strongRecOn generalizing block with
  | ind n ih =>
    cases hf : find startMarker endMarker block with
    | none =>
      rw [segments_of_none hf]
      rfl
    | some f =>
      obtain ⟨hlen, hpos⟩ := find_length hf
      rw [segments_of_some hf, flatMap_cons, append_assoc, ih _ (by omega) _ rfl,
        ← (find_spec hf).1]

variable {func : Func σ} {st : σ}

theorem expansion_of_none
    (h : find startMarker endMarker block = none) :
    expansion startMarker endMarker func st block = (chunk block, st) := by
  unfold expansion
  rw [segments_of_none h]
  rfl

theorem expansion_of_some
    (h : find startMarker endMarker block = some f) :
    expansion startMarker endMarker func st block = ((output func st f).1 ++
          (expansion startMarker endMarker func (output func st f).2 f.behind).1,
        (expansion startMarker endMarker func (output func st f).2 f.behind).2) := by
  unfold expansion
  rw [segments_of_some h]
  dsimp only [outputs]
  rw [append_assoc]

theorem expandFrom_of_error {e : Failure} (h : findVariable startMarker endMarker data = .error e) :
    expandFrom startMarker endMarker func st data left = .error e := by
  rw [expandFrom]
  split
  · next h' => rw [h] at h'; cases h'; rfl
  · next h' => rw [h] at h'; cases h'
  · next h' => rw [h] at h'; cases h'

theorem expandFrom_of_none (h : findVariable startMarker endMarker data = .ok none) :
    expandFrom startMarker endMarker func st data left = .ok (chunk (data.take left), st) := by
  rw [expandFrom]
  split
  · next h' => rw [h] at h'; cases h'
  · rfl
  · next h' => rw [h] at h'; cases h'

theorem expandFrom_of_some (h : findVariable startMarker endMarker data = .ok (some f))
    (hle : f.text.length + f.raw.length ≤ left) :
    expandFrom startMarker endMarker func st data left =
      (expandFrom startMarker endMarker func (output func st f).2 f.behind
        (left - (f.text.length + f.raw.length))).map
          fun r => ((output func st f).1 ++ r.1, r.2) := by
  rw [expandFrom]
  split
  · next h' => rw [h] at h'; cases h'
  · next h' => rw [h] at h'; cases h'
  next h' =>
  rw [h] at h'
  cases h'
  dsimp only
  rw [if_pos hle]

/-- A function that substitutes nothing. -/
def Keeps (func : Func σ) : Prop := ∀ st name, (func st name).1 = none

theorem chunk_flatten (block : Bytes) : (chunk block).flatten = block := by
  unfold chunk
  split
  · next h => rw [h]; rfl
  · simp

theorem output_keeps (h : Keeps func) (st : σ) (f : Found) :
    (output func st f).1.flatten = f.plain ++ f.raw := by
  have hbef : (if f.text = [] then [] else [f.plain]).flatten = f.plain := by
    split
    · next htext =>
      rw [Found.plain, Found.escaped, htext]
      rfl
    · simp
  unfold output
  dsimp only
  split
  · rw [flatten_append, hbef, chunk_flatten]
  · rw [flatten_append, hbef, chunk_flatten, h st f.name, getD_none]

theorem length_output (h : Keeps func) (st : σ) (htext : f.text ≠ [])
    (hraw : f.raw ≠ []) : (output func st f).1.length = 2 := by
  unfold output
  dsimp only
  split
  · simp [hraw, chunk]
  · simp [hraw, chunk, h st f.name]

/-- **Where nothing is substituted**, just the backslashes are gone. -/
theorem expansion_keeps (h : Keeps func) (st : σ) (block : Bytes) :
    (expansion startMarker endMarker func st block).1.flatten =
      unescaped startMarker endMarker block := by
  have houtputs : ∀ fs st, (outputs func st fs).1.flatten =
      fs.flatMap fun f => f.plain ++ f.raw := by
    intro fs
    induction fs with
    | nil => exact fun st => rfl
    | cons f fs ih =>
      intro st
      dsimp only [outputs]
      rw [flatten_append, output_keeps h, ih, flatMap_cons]
  unfold expansion unescaped
  dsimp only
  rw [flatten_append, houtputs, chunk_flatten]

/-! ### Blocks that are expanded whatever they are followed by -/

variable (startMarker endMarker)

/-- The expansion of a block depends on the block alone, and is the right one. -/
structure Expands (block : Bytes) : Prop where
  independent : ∀ {σ : Type} (func : Func σ) st rest rest',
    expand startMarker endMarker func st block rest =
      expand startMarker endMarker func st block rest'
  asserted : ∀ {σ : Type} (func : Func σ) st rest,
    expand startMarker endMarker func st block rest ≠ .error .assertion
  expanded : ∀ {σ : Type} (func : Func σ) st rest, expand startMarker endMarker func st block rest =
      .ok (expansion startMarker endMarker func st block)
  unescapes : ∀ {σ : Type} (func : Func σ), Keeps func → ∀ st rest, ∃ chunks,
    expand startMarker endMarker func st block rest = .ok chunks ∧
      chunks.1.flatten = unescaped startMarker endMarker block

/-- The block has a NUL, and no variable behind the first one. -/
def NulBehind (block : Bytes) : Prop :=
  (∀ f ∈ (segments startMarker endMarker block).1, (0 : UInt8) ∉ f.text) ∧
    (0 : UInt8) ∈ (segments startMarker endMarker block).2

variable {startMarker endMarker}

/-- What a variable in front of the first NUL leaves to do. -/
theorem expand_found (hf : find startMarker endMarker block = some f)
    (hnul : (0 : UInt8) ∈ block) (htext : (0 : UInt8) ∉ f.text) (func : Func σ) (st : σ)
    (rest : Bytes) :
    expand startMarker endMarker func st block rest =
      (expand startMarker endMarker func (output func st f).2 f.behind rest).map
        fun r => ((output func st f).1 ++ r.1, r.2) := by
  obtain ⟨hay, more, rfl, hhay⟩ := eq_append_cons_of_mem hnul
  obtain ⟨hlen, -⟩ := find_length hf
  cases hg : find startMarker endMarker hay with
  | none => exact absurd (find_behind hg hf) htext
  | some g =>
    have hfind := @findVariable_nul startMarker endMarker _ hhay (more ++ rest)
    have hsame := find_append hg more
    rw [hf] at hsame
    cases hsame
    rw [hg] at hfind
    have hleft : (hay ++ 0 :: more).length - (g.text.length + g.raw.length) =
        (g.extend (0 :: more)).behind.length := by
      change g.text.length + g.raw.length + _ = _ at hlen
      omega
    unfold expand
    rw [← hleft, append_assoc, cons_append, expandFrom_of_some hfind]
    · show Except.map _ (expandFrom startMarker endMarker func _ (g.behind ++ 0 :: (more ++ rest)) _) =
        Except.map _ (expandFrom startMarker endMarker func _ (g.behind ++ 0 :: more ++ rest) _)
      rw [append_assoc, cons_append]
      rfl
    · change g.text.length + g.raw.length + _ = _ at hlen
      show g.text.length + g.raw.length ≤ _
      omega

/-- Without a variable in front of the first NUL nothing is replaced. -/
theorem expand_rest (hnul : (0 : UInt8) ∈ block)
    (h : ∀ f, find startMarker endMarker block = some f → (0 : UInt8) ∈ f.text) (func : Func σ)
    (st : σ) (rest : Bytes) :
    expand startMarker endMarker func st block rest = .ok (chunk block, st) := by
  obtain ⟨hay, more, rfl, hhay⟩ := eq_append_cons_of_mem hnul
  have hfind := @findVariable_nul startMarker endMarker _ hhay (more ++ rest)
  cases hg : find startMarker endMarker hay with
  | none =>
    rw [hg] at hfind
    unfold expand
    rw [expandFrom_of_none (by rw [append_assoc]; exact hfind), take_left]
  | some g =>
    have htext : (0 : UInt8) ∈ (g.extend (0 :: more)).text := h _ (find_append hg more)
    rw [(find_spec hg).1, append_assoc] at hhay
    exact absurd (mem_append_left _ htext) hhay

theorem expand_fault (h : (0 : UInt8) ∉ block) (func : Func σ) (st : σ) :
    expand startMarker endMarker func st block [] = .error .fault := by
  unfold expand
  rw [append_nil]
  exact expandFrom_of_error (findVariable_fault h)

theorem nulBehind_of_some
    (h : find startMarker endMarker block = some f) :
    NulBehind startMarker endMarker block ↔
      (0 : UInt8) ∉ f.text ∧ NulBehind startMarker endMarker f.behind := by
  unfold NulBehind
  rw [segments_of_some h, forall_mem_cons, and_assoc]

theorem nulBehind_of_none (h : find startMarker endMarker block = none) :
    NulBehind startMarker endMarker block ↔ (0 : UInt8) ∈ block := by
  unfold NulBehind
  rw [segments_of_none h]
  exact ⟨fun h => h.2, fun h => ⟨nofun, h⟩⟩

theorem NulBehind.mem (h : NulBehind startMarker endMarker block) :
    (0 : UInt8) ∈ block := by
  rw [← @segments_flatten startMarker endMarker block]
  exact mem_append_right _ h.2

/-- **A block with a NUL behind its variables** is expanded. -/
theorem expand_of_nulBehind (h : NulBehind startMarker endMarker block)
    (func : Func σ) (st : σ) (rest : Bytes) :
    expand startMarker endMarker func st block rest =
      .ok (expansion startMarker endMarker func st block) := by
  induction hn : block.length using Nat.strongRecOn generalizing block st with
  | ind n ih =>
    cases hf : find startMarker endMarker block with
    | none =>
      rw [expand_rest h.mem (by rw [hf]; exact nofun), expansion_of_none hf]
    | some f =>
      obtain ⟨hlen, hpos⟩ := find_length hf
      obtain ⟨htext, hbeh⟩ := (nulBehind_of_some hf).mp h
      rw [expand_found hf h.mem htext, ih _ (by omega) hbeh _ rfl, expansion_of_some hf]
      rfl

/-- A block that is expanded whatever it is followed by, when nothing is substituted. -/
theorem nulBehind_of_expanded (hkeeps : Keeps func)
    (h : ∀ rest, expand startMarker endMarker func st block rest =
      .ok (expansion startMarker endMarker func st block)) :
    NulBehind startMarker endMarker block := by
  induction hn : block.length using Nat.strongRecOn generalizing block st with
  | ind n ih =>
    have hnul : (0 : UInt8) ∈ block := by
      by_contra hnul
      have hfault := h []
      rw [expand_fault hnul] at hfault
      cases hfault
    cases hf : find startMarker endMarker block with
    | none => exact (nulBehind_of_none hf).mpr hnul
    | some f =>
      obtain ⟨hlen, hpos⟩ := find_length hf
      by_cases htext : (0 : UInt8) ∈ f.text
      · -- the variable is missed, and the block is put out as one piece
        have hrest : ∀ g, find startMarker endMarker block = some g → (0 : UInt8) ∈ g.text := by
          intro g hg
          rw [hf] at hg
          cases hg
          exact htext
        have hmissed := h []
        rw [expand_rest hnul hrest, expansion_of_some hf] at hmissed
        have hpieces := congrArg (fun r => r.1.length) (ok.inj hmissed)
        have htwo := length_output hkeeps st (ne_nil_of_mem htext)
          (length_pos_iff.mp hpos)
        have hone : (chunk block).length ≤ 1 := by
          unfold chunk
          split
          · exact Nat.zero_le 1
          · exact Nat.le_refl 1
        simp only [length_append] at hpieces
        omega
      refine (nulBehind_of_some hf).mpr ⟨htext, ?_⟩
      refine @ih _ (by omega) f.behind (output func st f).2 (fun rest => ?_) rfl
      have hrun := h rest
      rw [expand_found hf hnul htext, expansion_of_some hf] at hrun
      cases hbeh : expand startMarker endMarker func (output func st f).2 f.behind rest with
      | error e =>
        rw [hbeh] at hrun
        cases hrun
      | ok r =>
        rw [hbeh] at hrun
        obtain ⟨hchunks, hst⟩ := Prod.mk.inj (ok.inj hrun)
        exact congrArg ok (Prod.ext (append_cancel_left hchunks) hst)

/-- **Expansion depends only on the block** just when it has a NUL and no variable behind it. -/
theorem expands_iff (block : Bytes) :
    Expands startMarker endMarker block ↔ NulBehind startMarker endMarker block := by
  constructor
  · intro h
    have hkeeps : Keeps fun (_ : Unit) _ => (none, ()) := fun _ _ => rfl
    exact nulBehind_of_expanded hkeeps (h.expanded _ ())
  intro h
  have hexpanded : ∀ {σ : Type} (func : Func σ) st rest,
      expand startMarker endMarker func st block rest =
        .ok (expansion startMarker endMarker func st block) :=
    fun func st rest => expand_of_nulBehind h func st rest
  refine ⟨fun func st rest rest' => ?_, fun func st rest => ?_, hexpanded,
    fun func hkeeps st rest => ⟨_, hexpanded func st rest, expansion_keeps hkeeps st block⟩⟩
  · rw [hexpanded, hexpanded]
  · rw [hexpanded]
    exact nofun

end

/-- `${` -/
def dollar : Marker where
  bytes := [36, 123]
  ne_nil := by decide
  noNul := by decide

/-- `}` -/
def brace : Marker where
  bytes := [125]
  ne_nil := by decide
  noNul := by decide

/-- The variable in `\0${a}` is behind a NUL. -/
theorem not_expands_behind : ¬ Expands dollar brace [0, 36, 123, 97, 125] := by
  intro h
  have hrun := h.expanded (fun (_ : Unit) _ => (some [], ())) () [0]
  have hmissed : expand dollar brace (fun (_ : Unit) _ => (some [], ())) () [0, 36, 123, 97, 125] [0] =
      .ok ([[0, 36, 123, 97, 125]], ()) := by decide +kernel
  have hfound : expansion dollar brace (fun (_ : Unit) _ => (some [], ())) () [0, 36, 123, 97, 125] =
      ([[0]], ()) := by decide +kernel
  rw [hmissed, hfound] at hrun
  cases hrun

end Cockpit.Template
