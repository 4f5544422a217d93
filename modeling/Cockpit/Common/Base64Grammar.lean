import Cockpit.Common.Base64

namespace Cockpit.Base64

open Lib.Base64 (sextet pad bytes slop Letters Closes Encodes sextet_pad encodes_append_iff pad_not_mem letters_lt encodes_encode length_encode)
open List Bool Decoder

/-!
# What the Base64 decoder accepts

The decoder skips whitespace anywhere and looks at what is behind the padding, all but the last
character of it.

* `pton_eq` — what `pton` returns for every string;
* `decodes_iff`, `roundTrip_iff` — where this is Base64, and where the encoder is undone.
-/

/-! ### Spaces -/

variable (src : Bytes)

/-- The string without whitespace. -/
def strip : Bytes := src.filter fun ch => !isspace ch

theorem strip_append (src' : Bytes) : strip (src ++ src') = strip src ++ strip src' :=
  filter_append ..

variable {ch : UInt8}

theorem strip_space (h : isspace ch) (src : Bytes) :
    strip (ch :: src) = strip src := by simp [strip, h]

theorem strip_cons (h : isspace ch = false) (src : Bytes) :
    strip (ch :: src) = ch :: strip src := by simp [strip, h]

theorem strip_nil : strip [] = [] := rfl

theorem letter_plain {v : Nat} (h : sextet ch = some v) :
    ch ≠ 0 ∧ isspace ch = false ∧ ch ≠ pad := by
  refine ⟨?_, ?_, ?_⟩
  · rintro rfl
    simp [sextet] at h
  · by_contra hspace
    rw [not_eq_false] at hspace
    rw [sextet_of_isspace hspace] at h
    cases h
  · rintro rfl
    rw [sextet_pad] at h
    cases h

theorem space_plain (h : isspace ch) : ch ≠ 0 ∧ ch ≠ pad := by
  constructor
  all_goals
    rintro rfl
    exact nomatch h

variable {vs : List Nat} {text after rest out : Bytes}

/-- **Spaces between letters** make no difference to the main loop. -/
theorem scan_letters (h : Letters (strip text) vs) (d : Decoder)
    (src : Bytes) : scan d (text ++ src) = d.letters vs >>= fun d => scan d src := by
  induction text generalizing d vs with
  | nil =>
    rw [strip_nil] at h
    cases h
    rfl
  | cons ch text ih =>
    rw [cons_append, scan]
    by_cases hspace : isspace ch
    · rw [strip_space hspace] at h
      rw [if_neg (space_plain hspace).1, if_pos hspace]
      exact ih h d
    rw [not_eq_true] at hspace
    rw [strip_cons hspace] at h
    cases h with
    | cons hch h =>
      obtain ⟨hnul, -, hpad⟩ := letter_plain hch
      rw [if_neg hnul, hspace, if_neg Bool.false_ne_true, if_neg hpad, strchr_eq, hch]
      dsimp only
      rw [letters_cons, bind_assoc]
      congr
      funext d
      exact ih h d

/-- Behind the letters of a string is its end or a character of another kind. -/
theorem exists_letters :
    ∃ text rest vs, src = text ++ rest ∧ Letters (strip text) vs ∧
      ∀ ch rest', rest = ch :: rest' → isspace ch = false ∧ sextet ch = none := by
  induction src with
  | nil => exact ⟨[], [], [], rfl, .nil, nofun⟩
  | cons ch src ih =>
    obtain ⟨text, rest, vs, rfl, hvs, hrest⟩ := ih
    by_cases hspace : isspace ch
    · exact ⟨ch :: text, rest, vs, rfl, by rwa [strip_space hspace], hrest⟩
    rw [not_eq_true] at hspace
    cases hch : sextet ch with
    | some v =>
      refine ⟨ch :: text, rest, v :: vs, rfl, ?_, hrest⟩
      rw [strip_cons hspace]
      exact .cons hch hvs
    | none =>
      refine ⟨[], ch :: (text ++ rest), [], rfl, .nil, ?_⟩
      intro c rest' heq
      cases heq
      exact ⟨hspace, hch⟩

/-! ### Padding -/

/-- How much of a string the last loop looks at: all of it, or all but a last character. -/
def Seen (seen : Bytes) : Prop :=
  src = seen ∨ ∃ ch, src = seen ++ [ch] ∧ isspace ch = false

theorem Seen.cons {src seen : Bytes} (h : Seen src seen) (ch : UInt8) :
    Seen (ch :: src) (ch :: seen) := by
  rcases h with rfl | ⟨c, rfl, hc⟩
  · exact .inl rfl
  · exact .inr ⟨c, rfl, hc⟩

/-- All of a string that has a first character is seen from there, or the character is all. -/
theorem Seen.of_cons {src seen : Bytes} (h : Seen (ch :: src) seen) :
    (∃ rest, seen = ch :: rest ∧ Seen src rest) ∨ src = [] ∧ seen = [] ∧ isspace ch = false := by
  rcases h with rfl | ⟨c, hsrc, hc⟩
  · exact .inl ⟨src, rfl, .inl rfl⟩
  cases seen with
  | nil =>
    cases hsrc
    exact .inr ⟨rfl, rfl, hc⟩
  | cons first rest =>
    cases hsrc
    exact .inl ⟨rest, rfl, .inr ⟨c, rfl, hc⟩⟩

/-- **The last loop** wants spaces, up to a last character that it does not see. -/
theorem onlySpaces_iff :
    onlySpaces (next src).1 (next src).2 ↔ ∃ seen, Seen src seen ∧ strip seen = [] := by
  cases src with
  | nil => exact ⟨fun _ => ⟨[], .inl rfl, rfl⟩, fun _ => rfl⟩
  | cons ch src =>
    simp only [next]
    induction src generalizing ch with
    | nil =>
      constructor
      · intro _
        by_cases hspace : isspace ch
        · exact ⟨[ch], .inl rfl, by rw [strip_space hspace, strip_nil]⟩
        · exact ⟨[], .inr ⟨ch, rfl, by rwa [not_eq_true] at hspace⟩, rfl⟩
      · exact fun _ => rfl
    | cons c src ih =>
      rw [onlySpaces, and_eq_true, ih c]
      constructor
      · rintro ⟨hspace, seen, hseen, hstrip⟩
        exact ⟨ch :: seen, hseen.cons ch, by rwa [strip_space hspace]⟩
      rintro ⟨seen, hseen, hstrip⟩
      obtain ⟨rest, rfl, hrest⟩ | ⟨hnil, -⟩ := hseen.of_cons
      · have hspace : isspace ch := by
          by_contra hnot
          rw [strip_cons (by simpa using hnot)] at hstrip
          cases hstrip
        rw [strip_space hspace] at hstrip
        exact ⟨hspace, rest, hrest, hstrip⟩
      · cases hnil

/-- The loop that skips spaces stops at what is behind them. -/
theorem skipSpaces_next {src : Bytes} (hnul : (0 : UInt8) ∉ src) :
    skipSpaces (next src).1 (next src).2 = next (src.dropWhile isspace) := by
  cases src with
  | nil => rfl
  | cons ch src =>
    simp only [next]
    induction src generalizing ch with
    | nil =>
      by_cases hspace : isspace ch
      · simp [skipSpaces, hspace, (space_plain hspace).1]
      · simp [skipSpaces, hspace]
    | cons c src ih =>
      by_cases hspace : isspace ch
      · rw [skipSpaces, if_pos ⟨(space_plain hspace).1, hspace⟩,
          ih c (fun h => hnul (mem_cons_of_mem ch h)), dropWhile_cons_of_pos hspace]
      · rw [skipSpaces, if_neg fun h => hspace h.2, dropWhile_cons_of_neg hspace]

/-- A second `Pad64`, and what is behind it. -/
theorem seen_pad_iff :
    (∃ seen, Seen src seen ∧ strip seen = [pad]) ↔
      ∃ rest seen, src.dropWhile isspace = pad :: rest ∧ Seen rest seen ∧ strip seen = [] := by
  induction src with
  | nil =>
    constructor
    · rintro ⟨seen, rfl | ⟨ch, hsrc, -⟩, hstrip⟩
      · cases hstrip
      · simp at hsrc
    · rintro ⟨rest, seen, hdrop, -⟩
      cases hdrop
  | cons ch src ih =>
    by_cases hspace : isspace ch
    · rw [dropWhile_cons_of_pos hspace, ← ih]
      constructor
      · rintro ⟨seen, hseen, hstrip⟩
        obtain ⟨rest, rfl, hrest⟩ | ⟨-, rfl, -⟩ := hseen.of_cons
        · exact ⟨rest, hrest, by rwa [strip_space hspace] at hstrip⟩
        · cases hstrip
      · rintro ⟨seen, hseen, hstrip⟩
        exact ⟨ch :: seen, hseen.cons ch, by rwa [strip_space hspace]⟩
    have hplain : isspace ch = false := by simpa using hspace
    rw [dropWhile_cons_of_neg hspace]
    constructor
    · rintro ⟨seen, hseen, hstrip⟩
      obtain ⟨rest, rfl, hrest⟩ | ⟨-, rfl, -⟩ := hseen.of_cons
      · rw [strip_cons hplain] at hstrip
        obtain ⟨rfl, hnil⟩ := List.cons.inj hstrip
        exact ⟨src, rest, rfl, hrest, hnil⟩
      · cases hstrip
    · rintro ⟨rest, seen, hcons, hseen, hstrip⟩
      cases hcons
      exact ⟨pad :: seen, hseen.cons pad, by rw [strip_cons hplain, hstrip]⟩

/-! ### Whole strings -/

/-- The decoder behind letters. -/
def Decoder.behind (vs : List Nat) (after : Bytes) : Decoder :=
  ⟨⟨vs.length % 4, Nat.mod_lt _ (by decide)⟩, (bytes vs).length, some (bytes vs ++ after)⟩

/-- The bits behind the last whole byte have to be zero. -/
theorem close_eq (hrest : Decoder.Rest vs after) (hlen : vs.length % 4 ≠ 0) :
    (behind vs after).close =
      if slop vs = 0 then .ok ((bytes vs).length, some (bytes vs ++ after)) else .error .invalid := by
  obtain ⟨bits, rest, rfl, hbits⟩ := hrest hlen
  have hget : (bytes vs ++ bits :: rest).getD (bytes vs).length 0 = bits := by simp
  show (if (bytes vs ++ bits :: rest).getD (bytes vs).length 0 ≠ 0 then _ else _) = _
  rw [hget]
  by_cases hzero : slop vs = 0
  · rw [if_pos hzero, if_neg (not_not.mpr (hbits.mpr hzero))]
    rfl
  · rw [if_neg hzero, if_pos fun hnil => hzero (hbits.mp hnil)]

/-- What may follow the letters for the decoder. -/
def Ends (vs : List Nat) (rest : Bytes) : Prop :=
  rest = [] ∧ vs.length % 4 = 0 ∨
    ∃ src seen, rest = pad :: src ∧ Seen src seen ∧ Closes vs (pad :: strip seen)

theorem closes_pad_iff (vs : List Nat) (seen : Bytes) :
    Closes vs (pad :: strip seen) ↔
      slop vs = 0 ∧ (strip seen = [] ∧ vs.length % 4 = 3 ∨ strip seen = [pad] ∧ vs.length % 4 = 2) := by
  unfold Closes
  simp

theorem single_eq (hrest : Decoder.Rest vs after) (hlen : vs.length % 4 ≠ 0) (src : Bytes) :
    ((∃ seen, Seen src seen ∧ strip seen = []) ∧ slop vs = 0 →
      (behind vs after).single (next src).1 (next src).2 =
        .ok ((bytes vs).length, some (bytes vs ++ after))) ∧
    (¬ ((∃ seen, Seen src seen ∧ strip seen = []) ∧ slop vs = 0) →
      (behind vs after).single (next src).1 (next src).2 = .error .invalid) := by
  rw [← onlySpaces_iff]
  unfold single
  rw [close_eq hrest hlen]
  constructor
  · rintro ⟨hspaces, hslop⟩
    rw [if_pos hspaces, if_pos hslop]
  intro hnot
  by_cases hspaces : onlySpaces (next src).1 (next src).2
  · rw [if_pos hspaces, if_neg fun hslop => hnot ⟨hspaces, hslop⟩]
  · rw [if_neg hspaces]

/-- **Behind the padding.** -/
theorem padded_eq {src : Bytes} (hrest : Decoder.Rest vs after) (hnul : (0 : UInt8) ∉ src) :
    (Ends vs (pad :: src) →
      (behind vs after).padded src = .ok ((bytes vs).length, some (bytes vs ++ after))) ∧
    (¬ Ends vs (pad :: src) → (behind vs after).padded src = .error .invalid) := by
  have hends : Ends vs (pad :: src) ↔ ∃ seen, Seen src seen ∧ Closes vs (pad :: strip seen) := by
    unfold Ends
    constructor
    · rintro (⟨hnil, -⟩ | ⟨_, seen, hcons, hseen, hcloses⟩)
      · cases hnil
      · cases hcons
        exact ⟨seen, hseen, hcloses⟩
    · rintro ⟨seen, hseen, hcloses⟩
      exact .inr ⟨src, seen, rfl, hseen, hcloses⟩
  rw [hends]
  simp only [closes_pad_iff]
  have hlt : vs.length % 4 < 4 := Nat.mod_lt _ (by omega)
  have hstate : (behind vs after).state = Fin.ofNat 4 vs.length := rfl
  unfold padded
  rw [hstate]
  obtain hlen | hlen | hlen | hlen : vs.length % 4 = 0 ∨ vs.length % 4 = 1 ∨ vs.length % 4 = 2 ∨
      vs.length % 4 = 3 := by omega
  · have hzero : Fin.ofNat 4 vs.length = 0 := Fin.ext hlen
    rw [hzero]
    simp [hlen]
  · have hone : Fin.ofNat 4 vs.length = 1 := Fin.ext hlen
    rw [hone]
    simp [hlen]
  · -- a second `Pad64`
    have htwo : Fin.ofNat 4 vs.length = 2 := Fin.ext hlen
    rw [htwo]
    dsimp only
    rw [skipSpaces_next hnul]
    have hseen : (∃ seen, Seen src seen ∧ slop vs = 0 ∧
        (strip seen = [] ∧ vs.length % 4 = 3 ∨ strip seen = [pad] ∧ vs.length % 4 = 2)) ↔
        (∃ seen, Seen src seen ∧ strip seen = [pad]) ∧ slop vs = 0 := by
      simp only [hlen]
      constructor
      · rintro ⟨seen, hseen, hslop, ⟨-, hthree⟩ | ⟨hstrip, -⟩⟩
        · omega
        · exact ⟨⟨seen, hseen, hstrip⟩, hslop⟩
      · rintro ⟨⟨seen, hseen, hstrip⟩, hslop⟩
        exact ⟨seen, hseen, hslop, .inr ⟨hstrip, trivial⟩⟩
    rw [hseen, seen_pad_iff]
    cases hdrop : src.dropWhile isspace with
    | nil => simp [next, pad]
    | cons ch rest =>
      by_cases hpad : ch = pad
      · subst hpad
        have hnext : next (pad :: rest) = (pad, rest) := rfl
        rw [hnext]
        dsimp only
        rw [if_neg (by simp)]
        have hcons : (∃ rest' seen, pad :: rest = pad :: rest' ∧ Seen rest' seen ∧ strip seen = []) ↔
            ∃ seen, Seen rest seen ∧ strip seen = [] := by
          simp
        rw [hcons]
        exact single_eq hrest (by omega) rest
      · simp [next, hpad]
  have hthree : Fin.ofNat 4 vs.length = 3 := Fin.ext hlen
  rw [hthree]
  dsimp only
  have hseen : (∃ seen, Seen src seen ∧ slop vs = 0 ∧
      (strip seen = [] ∧ vs.length % 4 = 3 ∨ strip seen = [pad] ∧ vs.length % 4 = 2)) ↔
      (∃ seen, Seen src seen ∧ strip seen = []) ∧ slop vs = 0 := by
    simp only [hlen]
    constructor
    · rintro ⟨seen, hseen, hslop, ⟨hstrip, -⟩ | ⟨-, htwo⟩⟩
      · exact ⟨⟨seen, hseen, hstrip⟩, hslop⟩
      · omega
    · rintro ⟨⟨seen, hseen, hstrip⟩, hslop⟩
      exact ⟨seen, hseen, hslop, .inl ⟨hstrip, trivial⟩⟩
  rw [hseen]
  exact single_eq hrest (by omega) src

/-- A last character behind a padded text. -/
def Hidden (out : Bytes) : Prop :=
  ∃ body ch, src = body ++ [ch] ∧ isspace ch = false ∧ Encodes (strip body) out ∧
    (strip body).getLast? = some pad

/-- The bytes that the decoder reads from a string. -/
def Reads (out : Bytes) : Prop := Encodes (strip src) out ∨ Hidden src out

/-- What may follow letters. -/
abbrev Follows (rest : Bytes) : Prop :=
  ∀ ch rest', rest = ch :: rest' → isspace ch = false ∧ sextet ch = none

theorem Follows.noLetter (h : Follows rest) : Lib.Base64.NoLetter (strip rest) := by
  cases rest with
  | nil => exact nofun
  | cons ch rest =>
    obtain ⟨hspace, hsextet⟩ := h ch rest rfl
    rw [strip_cons hspace]
    intro c rest' hcons
    cases hcons
    exact hsextet

/-- Padding is all that may follow letters in a text. -/
theorem closes_iff (hrest : Follows rest) :
    Closes vs (strip rest) ↔ rest = [] ∧ vs.length % 4 = 0 ∨
        ∃ src, rest = pad :: src ∧ Closes vs (pad :: strip src) := by
  cases rest with
  | nil =>
    rw [strip_nil]
    constructor
    · rintro ⟨-, ⟨-, hlen⟩ | ⟨hnil, -⟩ | ⟨hnil, -⟩⟩
      · exact .inl ⟨rfl, hlen⟩
      · cases hnil
      · cases hnil
    · rintro (⟨-, hlen⟩ | ⟨src, hcons, -⟩)
      · exact ⟨Lib.Base64.slop_eq_zero hlen, .inl ⟨rfl, hlen⟩⟩
      · cases hcons
  | cons ch rest =>
    rw [strip_cons (hrest ch rest rfl).1]
    constructor
    · intro hcloses
      have hpad : ch = pad := by
        obtain ⟨-, ⟨hcons, -⟩ | ⟨hcons, -⟩ | ⟨hcons, -⟩⟩ := hcloses
        · cases hcons
        · exact (List.cons.inj hcons).1
        · exact (List.cons.inj hcons).1
      subst hpad
      exact .inr ⟨rest, rfl, hcloses⟩
    rintro (⟨hnil, -⟩ | ⟨src, hcons, hcloses⟩)
    · cases hnil
    · cases hcons
      exact hcloses

/-- **What is read from a string**: what its letters stand for, where they may end. -/
theorem reads_iff (hvs : Letters (strip text) vs) (hrest : Follows rest) (out : Bytes) :
    Reads (text ++ rest) out ↔ out = bytes vs ∧ Ends vs rest := by
  have hwhole : Encodes (strip (text ++ rest)) out ↔ out = bytes vs ∧ Closes vs (strip rest) := by
    rw [strip_append]
    exact encodes_append_iff hvs hrest.noLetter out
  constructor
  · rintro (henc | ⟨body, ch, hsrc, hspace, henc, hlast⟩)
    · obtain ⟨rfl, hcloses⟩ := hwhole.mp henc
      refine ⟨rfl, ?_⟩
      rcases (closes_iff hrest).mp hcloses with hend | ⟨src, rfl, hcloses⟩
      · exact .inl hend
      · exact .inr ⟨src, src, rfl, .inl rfl, hcloses⟩
    -- the character is not among the letters, since there is padding before it
    rcases eq_nil_or_concat' rest with rfl | ⟨front, last, rfl⟩
    · rw [append_nil] at hsrc
      subst hsrc
      rw [strip_append] at hvs
      have hmem : pad ∈ strip body ++ strip [ch] :=
        mem_append_left _ (mem_of_getLast? hlast)
      exact absurd hmem (pad_not_mem hvs)
    rw [← append_assoc] at hsrc
    obtain ⟨rfl, hch⟩ := append_inj' hsrc rfl
    obtain rfl := singleton_inj.mp hch
    have hfront : Follows front := by
      intro c rest' hcons
      exact hrest c (rest' ++ [last]) (by rw [hcons]; rfl)
    rw [strip_append] at henc hlast
    obtain ⟨rfl, hcloses⟩ :=
      (encodes_append_iff hvs hfront.noLetter out).mp henc
    refine ⟨rfl, ?_⟩
    rcases (closes_iff hfront).mp hcloses with ⟨rfl, -⟩ | ⟨src, rfl, hcloses⟩
    · rw [strip_nil, append_nil] at hlast
      exact absurd (mem_of_getLast? hlast) (pad_not_mem hvs)
    · exact .inr ⟨src ++ [last], src, rfl, .inr ⟨last, rfl, hspace⟩, hcloses⟩
  rintro ⟨rfl, hend⟩
  rcases hend with ⟨rfl, hlen⟩ | ⟨src, seen, rfl, rfl | ⟨ch, rfl, hspace⟩, hcloses⟩
  · exact .inl (hwhole.mpr ⟨rfl, (closes_iff hrest).mpr (.inl ⟨rfl, hlen⟩)⟩)
  · exact .inl (hwhole.mpr ⟨rfl, (closes_iff hrest).mpr (.inr ⟨src, rfl, hcloses⟩)⟩)
  right
  have hpad : isspace pad = false := by decide
  refine ⟨text ++ pad :: seen, ch, by simp, hspace, ?_, ?_⟩
  · rw [strip_append, strip_cons hpad]
    refine (encodes_append_iff hvs ?_ _).mpr ⟨rfl, hcloses⟩
    intro c rest' hcons
    cases hcons
    exact sextet_pad
  rw [strip_append, strip_cons hpad]
  obtain ⟨-, ⟨hseen, -⟩ | ⟨hseen, -⟩⟩ := (closes_pad_iff vs seen).mp hcloses
  all_goals
    rw [hseen]
    simp

/-- A last character that is not seen is too much for a text. -/
theorem Hidden.not_encodes {src out' : Bytes} (h : Hidden src out) :
    ¬ Encodes (strip src) out' := by
  obtain ⟨body, ch, rfl, hspace, henc, -⟩ := h
  intro henc'
  have hbody := henc.length
  have hsrc := henc'.length
  rw [strip_append, strip_cons hspace, strip_nil, List.length_append, length_singleton] at hsrc
  omega

/-! ### `cockpit_base64_pton` -/

/-- The letters that the decoder gets to stand for no more bytes than `tarindex` can count. -/
def Countable : Prop :=
  3 * ((strip src).takeWhile fun ch => (sextet ch).isSome).length / 4 ≤ INT_MAX

/-- There is room in the target for every group that the string starts. -/
def LargeEnough (target : Bytes) : Prop :=
  3 * (((strip src).length + 3) / 4) ≤ target.length

theorem countable_iff (hvs : Letters (strip text) vs)
    (hrest : Follows rest) : Countable (text ++ rest) ↔ (bytes vs).length ≤ INT_MAX := by
  have htake : (strip (text ++ rest)).takeWhile (fun ch => (sextet ch).isSome) = strip text := by
    rw [strip_append, takeWhile_append_of_pos]
    · have hnone : (strip rest).takeWhile (fun ch => (sextet ch).isSome) = [] := by
        cases hstrip : strip rest with
        | nil => rfl
        | cons c rest' =>
          rw [takeWhile_cons, hrest.noLetter c rest' hstrip]
          rfl
      rw [hnone, append_nil]
    · exact Lib.Base64.letters_isSome hvs
  rw [Countable, htake, Lib.Base64.length_bytes, hvs.length_eq]

theorem room_of_largeEnough {target : Bytes}
    (hvs : Letters (strip text) vs) (hroom : LargeEnough (text ++ rest) target) :
    Decoder.Room vs target := by
  unfold LargeEnough at hroom
  rw [strip_append, List.length_append, hvs.length_eq] at hroom
  unfold Decoder.Room
  omega

/-- The main loop ends behind the letters. -/
theorem pton_letters (hvs : Letters (strip text) vs) (rest target : Bytes) :
    pton (text ++ rest) (some target) =
      ((between [] target).letters vs >>= fun d => scan d rest) >>= fun
        | (d, some src) => d.padded src
        | (d, none) => if d.state ≠ 0 then .error .invalid else .ok (d.tarindex, d.target) := by
  rw [pton, scan_letters hvs]
  rfl

variable {src target : Bytes}

/-- **What `pton` returns**, where it can count the bytes. -/
theorem pton_eq (hnul : (0 : UInt8) ∉ src) (hroom : LargeEnough src target)
    (hcount : Countable src) :
    (∃ out after, pton src (some target) = .ok (out.length, some (out ++ after)) ∧ Reads src out) ∨
      pton src (some target) = .error .invalid ∧ ∀ out, ¬ Reads src out := by
  obtain ⟨text, rest, vs, rfl, hvs, hrest⟩ := exists_letters src
  have hfits : Decoder.Room vs target := room_of_largeEnough hvs hroom
  obtain ⟨after, hrun, hafter⟩ := @letters_run vs (letters_lt hvs) [] target hfits
    (by simpa using (countable_iff hvs hrest).mp hcount)
  have hbeh : (between [] target).letters vs = .ok (behind vs after) := hrun
  have hreads := reads_iff hvs hrest
  rw [pton_letters hvs, hbeh, bind_ok]
  cases rest with
  | nil =>
    rw [scan, bind_ok]
    dsimp only
    by_cases hlen : vs.length % 4 = 0
    · left
      have hstate : (behind vs after).state = 0 := Fin.ext hlen
      exact ⟨bytes vs, after, by rw [if_neg (not_not.mpr hstate)]; rfl,
        (hreads _).mpr ⟨rfl, .inl ⟨rfl, hlen⟩⟩⟩
    right
    have hstate : (behind vs after).state ≠ 0 := fun h => hlen (congrArg Fin.val h)
    refine ⟨if_pos hstate, fun out hout => ?_⟩
    obtain ⟨-, ⟨-, hzero⟩ | ⟨src, seen, hcons, -⟩⟩ := (hreads out).mp hout
    · exact hlen hzero
    · cases hcons
  | cons ch rest =>
    obtain ⟨hspace, hsextet⟩ := hrest ch rest rfl
    have hne : ch ≠ 0 := by
      rintro rfl
      exact hnul (by simp)
    rw [scan, if_neg hne, hspace, if_neg Bool.false_ne_true]
    by_cases hpad : ch = pad
    · subst hpad
      rw [if_pos rfl, bind_ok]
      dsimp only
      have hnul' : (0 : UInt8) ∉ rest := fun h => hnul (by simp [h])
      by_cases hend : Ends vs (pad :: rest)
      · exact .inl ⟨bytes vs, after, (padded_eq hafter hnul').1 hend, (hreads _).mpr ⟨rfl, hend⟩⟩
      · exact .inr ⟨(padded_eq hafter hnul').2 hend, fun out hout => hend ((hreads out).mp hout).2⟩
    right
    rw [if_neg hpad, strchr_eq, hsextet]
    refine ⟨rfl, fun out hout => ?_⟩
    obtain ⟨-, ⟨hnil, -⟩ | ⟨src, seen, hcons, -⟩⟩ := (hreads out).mp hout
    · cases hnil
    · exact hpad (List.cons.inj hcons).1

/-- Where it cannot, `tarindex` overflows. -/
theorem pton_overflow (hroom : LargeEnough src target)
    (hcount : ¬ Countable src) : pton src (some target) = .error .overflow := by
  obtain ⟨text, rest, vs, rfl, hvs, hrest⟩ := exists_letters src
  have hfits : Decoder.Room vs target := room_of_largeEnough hvs hroom
  have hmax : INT_MAX < (bytes vs).length := by
    rw [countable_iff hvs hrest] at hcount
    omega
  rw [pton_letters hvs, letters_overflow (letters_lt hvs) hfits (by simp)
    (by simpa using hmax)]
  rfl

/-- The decoder returns a length for Base64 and for nothing else, and writes its bytes. -/
structure Decodes (src target : Bytes) : Prop where
  defined : pton src (some target) ≠ .error .overflow
  accepts : (∃ n written, pton src (some target) = .ok (n, some written)) ↔
    ∃ out, Encodes (strip src) out
  writes : ∀ n written, pton src (some target) = .ok (n, some written) →
    n ≤ written.length ∧ Encodes (strip src) (written.take n)

/-- **The decoder accepts Base64**, unless a last character is hidden behind the padding. -/
theorem decodes_iff (hnul : (0 : UInt8) ∉ src)
    (hroom : LargeEnough src target) :
    Decodes src target ↔ Countable src ∧ ¬ ∃ out, Hidden src out := by
  constructor
  · intro h
    have hcount : Countable src := by
      by_contra hcount
      exact h.defined (pton_overflow hroom hcount)
    refine ⟨hcount, ?_⟩
    rintro ⟨out, hhidden⟩
    obtain ⟨out', after, hpton, -⟩ | ⟨-, hnone⟩ := pton_eq hnul hroom hcount
    · obtain ⟨out'', henc⟩ := h.accepts.mp ⟨_, _, hpton⟩
      exact hhidden.not_encodes henc
    · exact hnone out (.inr hhidden)
  rintro ⟨hcount, hhidden⟩
  obtain ⟨out, after, hpton, hreads⟩ | ⟨hpton, hnone⟩ := pton_eq hnul hroom hcount
  · have henc : Encodes (strip src) out := hreads.resolve_right fun h => hhidden ⟨out, h⟩
    refine ⟨by rw [hpton]; exact nofun, ⟨fun _ => ⟨out, henc⟩, fun _ => ⟨_, _, hpton⟩⟩, ?_⟩
    intro n written hreturn
    rw [hpton] at hreturn
    cases hreturn
    exact ⟨by simp, by simpa using henc⟩
  refine ⟨by rw [hpton]; exact nofun, ⟨?_, ?_⟩, ?_⟩
  · rintro ⟨n, written, hreturn⟩
    rw [hpton] at hreturn
    cases hreturn
  · rintro ⟨out, henc⟩
    exact absurd (.inl henc) (hnone out)
  · intro n written hreturn
    rw [hpton] at hreturn
    cases hreturn

/-! ### Round trips -/

/-- The letters of a text stand for its bytes. -/
theorem countable_of_encodes {src : Bytes} (h : Encodes (strip src) out) :
    Countable src ↔ out.length ≤ INT_MAX := by
  obtain ⟨text, rest, vs, rfl, hvs, hrest⟩ := exists_letters src
  rw [strip_append] at h
  obtain ⟨rfl, -⟩ := (encodes_append_iff hvs (Follows.noLetter hrest) out).mp h
  exact countable_iff hvs hrest

/-- **Base64 is decoded.** -/
theorem pton_of_encodes {src target : Bytes} (hnul : (0 : UInt8) ∉ src)
    (hroom : LargeEnough src target) (h : Encodes (strip src) out) (hmax : out.length ≤ INT_MAX) :
    ∃ after, pton src (some target) = .ok (out.length, some (out ++ after)) := by
  obtain ⟨out', after, hpton, hreads⟩ | ⟨-, hnone⟩ :=
    pton_eq hnul hroom ((countable_of_encodes h).mpr hmax)
  · rcases hreads with henc | hhidden
    · obtain rfl := henc.unique h
      exact ⟨after, hpton⟩
    · exact absurd h hhidden.not_encodes
  · exact absurd (.inl h) (hnone out)

/-- A text without whitespace is plain: it has no NUL either. -/
theorem plain_of_encodes (h : Encodes text out) :
    strip text = text ∧ (0 : UInt8) ∉ text := by
  constructor
  · refine filter_eq_self.mpr fun ch hch => ?_
    rcases h.letter_or_pad ch hch with hletter | rfl
    · cases hspace : isspace ch with
      | false => rfl
      | true => exact absurd (sextet_of_isspace hspace) hletter
    · decide
  intro hmem
  rcases h.letter_or_pad 0 hmem with hletter | hpad
  · exact hletter (by decide)
  · exact nomatch hpad

/-- What the encoder writes, the decoder reads back. -/
def RoundTrip (src : Bytes) : Prop :=
  ∀ targsize, 4 * ((src.length + 2) / 3) < targsize →
    ∃ text, ntop src targsize = some text ∧ ∀ target, LargeEnough text target →
      ∃ written, pton text (some target) = .ok (src.length, some written) ∧
        written.take src.length = src

/-- **Every byte string comes back** that `tarindex` can count. -/
theorem roundTrip_iff (src : Bytes) : RoundTrip src ↔ src.length ≤ INT_MAX := by
  have henc := encodes_encode src
  obtain ⟨hstrip, hnul⟩ := plain_of_encodes henc
  have hsrc : Encodes (strip (Lib.Base64.encode src)) src := by rwa [hstrip]
  constructor
  · intro h
    obtain ⟨text, hntop, hpton⟩ := h (4 * ((src.length + 2) / 3) + 1) (by omega)
    rw [ntop_eq (by rw [length_encode]; omega)] at hntop
    cases hntop
    by_contra hmax
    have hroom : LargeEnough (Lib.Base64.encode src)
        (List.replicate (3 * (((strip (Lib.Base64.encode src)).length + 3) / 4)) 0) := by
      unfold LargeEnough
      exact Nat.le_of_eq length_replicate.symm
    obtain ⟨written, hok, -⟩ := hpton _ hroom
    rw [pton_overflow hroom fun hcount => hmax ((countable_of_encodes hsrc).mp hcount)] at hok
    cases hok
  intro hmax targsize htargsize
  rw [← length_encode] at htargsize
  refine ⟨_, ntop_eq htargsize, fun target hroom => ?_⟩
  obtain ⟨after, hpton⟩ := pton_of_encodes hnul hroom hsrc hmax
  exact ⟨src ++ after, hpton, by simp⟩

/-- **`cockpitbase64.c` is Base64** but for characters that are hidden behind the padding. -/
theorem base64_iff {src target : Bytes} (hnul : (0 : UInt8) ∉ src)
    (hroom : LargeEnough src target) (x : Bytes) :
    (Decodes src target ↔ Countable src ∧ ¬ ∃ out, Hidden src out) ∧
      (RoundTrip x ↔ x.length ≤ INT_MAX) :=
  ⟨decodes_iff hnul hroom, roundTrip_iff x⟩

/-- `QQ==` with spaces in it. -/
theorem base64_spaces :
    Decodes [81, 32, 81, 61, 10, 61] [0, 0, 0] ∧ RoundTrip [65] := by
  have h := @base64_iff [81, 32, 81, 61, 10, 61] [0, 0, 0] (by decide)
    (by unfold LargeEnough; decide) [65]
  refine ⟨h.1.mpr ⟨by unfold Countable; decide, ?_⟩, h.2.mpr (by decide)⟩
  rintro ⟨out, hhidden⟩
  have henc : Encodes (strip [81, 32, 81, 61, 10, 61]) [65] := encodes_encode [65]
  exact hhidden.not_encodes henc

/-- The character behind `AA==` is not looked at. -/
theorem not_decodes_hidden : ¬ Decodes [65, 65, 61, 61, 66] [0, 0, 0, 0, 0, 0] := by
  intro h
  obtain ⟨out, henc⟩ := h.accepts.mp ⟨1, [0, 0, 0, 0, 0, 0], rfl⟩
  exact absurd henc.length (by decide)

end Cockpit.Base64
