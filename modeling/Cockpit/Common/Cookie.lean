import Cockpit.WebSocket.RequestHead

namespace Cockpit.Cookie

open Lib (isToken isTokenByte)
open List

/-!
# `cockpit_web_server_parse_cookie`

The search for a cookie jumps from one textual match of its name to the next.

* `parseCookie_eq` — the search finds the first pair that does not begin behind a match;
* `parseCookie_iff` — where this is the cookie.
-/

def semicolon : UInt8 := 59

def equals : UInt8 := 61

/-- The name of a cookie. -/
structure Name where
  bytes : Bytes
  token : isToken bytes

/-- `strstr`: what is before the first match, and the string from there on. -/
def strstr (name : Bytes) : Bytes → Option (Bytes × Bytes)
  | [] => if name.isPrefixOf [] then some ([], []) else none
  | c :: header =>
    if name.isPrefixOf (c :: header) then some ([], c :: header)
    else (strstr name header).map fun (before, pos) => (c :: before, pos)

/-- The loop that looks back from a match: `offset` stays below `diff`, and so the first character
    before the match is not looked at. -/
def lookBack (before : Bytes) : Bool :=
  match (before.drop 1).reverse.find? fun c => !isSpace c with
  | some c => c == semicolon
  | none => false

theorem Name.ne_nil (name : Name) : name.bytes ≠ [] := by
  have h := name.token
  rw [isToken, Bool.and_eq_true] at h
  intro hnil
  rw [hnil] at h
  exact absurd h.1 (by decide)

variable {header pos piece after : Bytes}

/-- A match is somewhere in the header, and begins with the name. -/
theorem strstr_eq_some {name before : Bytes}
    (h : strstr name header = some (before, pos)) : header = before ++ pos ∧ name <+: pos := by
  induction header generalizing before with
  | nil =>
    unfold strstr at h
    split at h
    · rename_i hname
      cases h
      exact ⟨rfl, isPrefixOf_iff_prefix.mp hname⟩
    · cases h
  | cons c header ih =>
    unfold strstr at h
    split at h
    · rename_i hname
      cases h
      exact ⟨rfl, isPrefixOf_iff_prefix.mp hname⟩
    obtain ⟨⟨front, rest⟩, hrest, heq⟩ := Option.map_eq_some_iff.mp h
    cases heq
    obtain ⟨rfl, hname⟩ := ih hrest
    exact ⟨rfl, hname⟩

variable {name : Name}

theorem length_drop_lt {before : Bytes} (h : strstr name.bytes header = some (before, pos)) :
    (pos.drop name.bytes.length).length < header.length := by
  obtain ⟨rfl, hname⟩ := strstr_eq_some h
  have hpos := length_pos_iff.mpr name.ne_nil
  have hle := hname.length_le
  rw [length_drop, List.length_append]
  omega

section

variable (unescape : Bytes → Option Bytes) (name : Name)

/-- The loop of `cockpit_web_server_parse_cookie`; `unescape` is `g_uri_unescape_segment`. -/
def search (header : Bytes) (atStart : Bool) : Option Bytes :=
  match _h : strstr name.bytes header with
  | none => none
  | some (before, pos) =>
    let atStart := if before ≠ [] then lookBack before else atStart
    let pos := pos.drop name.bytes.length
    if pos.head? = some equals ∧ atStart then unescape ((pos.drop 1).takeWhile (· ≠ semicolon))
    else search pos false
  termination_by header.length
  decreasing_by exact length_drop_lt _h

/-- `cockpit_web_server_parse_cookie` -/
def parseCookie (headers : Headers) : Option Bytes :=
  match lookupHeader headers "Cookie" with
  | none => none
  | some header => search unescape name header.bytes true

/-! ### Cookies -/

/-- The value of a pair with this name, if that is what a piece of the header is. -/
def pair (piece : Bytes) : Option Bytes :=
  let trimmed := piece.dropWhile isSpace
  if (name.bytes ++ [equals]).isPrefixOf trimmed then some (trimmed.drop (name.bytes.length + 1))
  else none

/-- **The cookie in a header**: the decoded value of the first pair with its name. -/
def cookie (header : Bytes) : Option Bytes :=
  ((header.splitOn semicolon).findSome? (pair name)).bind unescape

end

/-! ### Matches in pieces -/

/-- What separators leave alone. -/
theorem Name.plain (name : Name) : ∀ c ∈ name.bytes, c ≠ semicolon ∧ isSpace c = false := by
  have h := name.token
  rw [isToken, Bool.and_eq_true, all_eq_true] at h
  intro c hc
  have hall : ∀ n < 256, isTokenByte (UInt8.ofNat n) →
      UInt8.ofNat n ≠ semicolon ∧ isSpace (UInt8.ofNat n) = false := by decide +kernel
  have hbyte := hall c.toNat c.toNat_lt
  rw [UInt8.ofNat_toNat] at hbyte
  exact hbyte (h.2 c hc)

/-- The pieces behind the first one, with their separators. -/
def rest (pieces : List Bytes) : Bytes := pieces.flatMap fun piece => semicolon :: piece

theorem rest_cons (piece : Bytes) (pieces : List Bytes) :
    rest (piece :: pieces) = semicolon :: (piece ++ rest pieces) := rfl

variable {pieces : List Bytes}

/-- **A header is its pieces**, with a separator between any two. -/
theorem splitOn_eq (h : header.splitOn semicolon = piece :: pieces) :
    header = piece ++ rest pieces ∧ semicolon ∉ piece ∧ ∀ other ∈ pieces, semicolon ∉ other := by
  induction header generalizing piece pieces with
  | nil =>
    rw [splitOn_nil] at h
    obtain ⟨rfl, rfl⟩ := List.cons.inj h
    exact ⟨rfl, not_mem_nil, nofun⟩
  | cons c header ih =>
    rw [splitOn_cons_eq_if_modifyHead] at h
    cases hsplit : header.splitOn semicolon with
    | nil => exact absurd hsplit (splitOn_ne_nil semicolon header)
    | cons first others =>
      obtain ⟨hhead, hfirst, hothers⟩ := ih hsplit
      rw [hsplit] at h
      by_cases hc : c = semicolon
      · rw [if_pos (by simpa using hc)] at h
        obtain ⟨rfl, rfl⟩ := List.cons.inj h
        rw [hhead, hc]
        refine ⟨rfl, not_mem_nil, fun other hother => ?_⟩
        rcases mem_cons.mp hother with rfl | hother
        · exact hfirst
        · exact hothers other hother
      rw [if_neg (by simpa using hc), modifyHead_cons] at h
      obtain ⟨rfl, rfl⟩ := List.cons.inj h
      refine ⟨by rw [hhead]; rfl, ?_, hothers⟩
      rw [mem_cons, not_or]
      exact ⟨Ne.symm hc, hfirst⟩

/-- A match does not reach over a separator. -/
theorem prefix_piece (name : Name) {piece after : Bytes}
    (hafter : ∀ c, after.head? = some c → c = semicolon) :
    name.bytes <+: piece ++ after ↔ name.bytes <+: piece := by
  constructor
  · intro h
    rcases prefix_or_prefix_of_prefix h (prefix_append piece after) with hin | ⟨past, hover⟩
    · exact hin
    rw [← hover, prefix_append_right_inj] at h
    cases past with
    | nil =>
      rw [append_nil] at hover
      exact ⟨[], by rw [append_nil, hover]⟩
    | cons c past =>
      obtain ⟨more, rfl⟩ := h
      have hc : c = semicolon := hafter c rfl
      have hmem : c ∈ name.bytes := by
        rw [← hover]
        simp
      exact absurd hc (name.plain c hmem).1
  · exact fun h => h.trans (prefix_append _ _)

theorem head_rest (pieces : List Bytes) : ∀ c, (rest pieces).head? = some c → c = semicolon := by
  intro c hc
  cases pieces with
  | nil => cases hc
  | cons piece pieces =>
    cases hc
    rfl

/-- The first match in a piece is the first one in the header. -/
theorem strstr_append_some (name : Name) {before : Bytes}
    (hafter : ∀ c, after.head? = some c → c = semicolon)
    (h : strstr name.bytes piece = some (before, pos)) :
    strstr name.bytes (piece ++ after) = some (before, pos ++ after) := by
  induction piece generalizing before with
  | nil =>
    obtain ⟨hnil, hname⟩ := strstr_eq_some h
    obtain ⟨-, rfl⟩ := append_eq_nil_iff.mp hnil.symm
    exact absurd (prefix_nil.mp hname) name.ne_nil
  | cons c piece ih =>
    unfold strstr at h ⊢
    rw [cons_append]
    dsimp only
    have hiff := @prefix_piece name (c :: piece) after hafter
    rw [cons_append] at hiff
    by_cases hname : name.bytes <+: c :: piece
    · rw [if_pos (List.isPrefixOf_iff_prefix.mpr hname)] at h
      rw [if_pos (List.isPrefixOf_iff_prefix.mpr (hiff.mpr hname))]
      cases h
      rfl
    rw [if_neg (fun hstart => hname (List.isPrefixOf_iff_prefix.mp hstart))] at h
    rw [if_neg (fun hstart => hname (hiff.mp (List.isPrefixOf_iff_prefix.mp hstart)))]
    obtain ⟨⟨front, last⟩, hlast, heq⟩ := Option.map_eq_some_iff.mp h
    cases heq
    rw [ih hlast]
    rfl

/-- Without a match in a piece the search goes on behind it. -/
theorem strstr_append_none (name : Name) (hafter : ∀ c, after.head? = some c → c = semicolon)
    (h : strstr name.bytes piece = none) :
    strstr name.bytes (piece ++ after) =
      (strstr name.bytes after).map fun (before, pos) => (piece ++ before, pos) := by
  induction piece with
  | nil => simp
  | cons c piece ih =>
    unfold strstr at h
    rw [cons_append]
    conv_lhs => unfold strstr
    have hiff := @prefix_piece name (c :: piece) after hafter
    rw [cons_append] at hiff
    split at h
    · cases h
    rename_i hname
    have hnone : strstr name.bytes piece = none := Option.map_eq_none_iff.mp h
    rw [if_neg (fun hstart => hname (List.isPrefixOf_iff_prefix.mpr
      (hiff.mp (List.isPrefixOf_iff_prefix.mp hstart)))), ih hnone, Option.map_map]
    rfl

/-- A separator is no match. -/
theorem strstr_semicolon (name : Name) (header : Bytes) :
    strstr name.bytes (semicolon :: header) =
      (strstr name.bytes header).map fun (before, pos) => (semicolon :: before, pos) := by
  conv_lhs => unfold strstr
  rw [if_neg]
  intro hstart
  obtain ⟨c, bytes, hbytes⟩ := exists_cons_of_ne_nil name.ne_nil
  have hname := isPrefixOf_iff_prefix.mp hstart
  rw [hbytes, cons_prefix_cons] at hname
  exact (name.plain c (by rw [hbytes]; exact mem_cons_self)).1 hname.1

/-- What is left of a piece behind its last match, the matches taken from the left. -/
def leftover (name : Name) (piece : Bytes) : Bytes :=
  match _h : strstr name.bytes piece with
  | none => piece
  | some (_, pos) => leftover name (pos.drop name.bytes.length)
  termination_by piece.length
  decreasing_by exact length_drop_lt _h

theorem leftover_of_none (h : strstr name.bytes piece = none) :
    leftover name piece = piece := by
  rw [leftover]
  split
  · rfl
  · rename_i hsome
    rw [h] at hsome
    cases hsome

theorem leftover_of_some {before : Bytes} (h : strstr name.bytes piece = some (before, pos)) :
    leftover name piece = leftover name (pos.drop name.bytes.length) := by
  conv_lhs => rw [leftover]
  split
  · rename_i hnone
    rw [h] at hnone
    cases hnone
  rename_i hsome
  rw [h] at hsome
  cases hsome
  rfl

/-- There is no match left. -/
theorem strstr_leftover (name : Name) (piece : Bytes) :
    strstr name.bytes (leftover name piece) = none := by
  induction piece using leftover.induct name with
  | case1 piece h => rw [leftover_of_none h, h]
  | case2 piece before pos h ih => rw [leftover_of_some h, ih]

variable {front value : Bytes}

/-- A list in two parts, at the end of what has a property. -/
theorem dropWhile_append_stop {p : UInt8 → Bool} {back : Bytes} (hfront : front.all p)
    (hback : ∀ c, back.head? = some c → p c = false) : (front ++ back).dropWhile p = back := by
  rw [dropWhile_append_of_pos (all_eq_true.mp hfront)]
  cases back with
  | nil => rfl
  | cons c back => rw [dropWhile_cons_of_neg (by rw [hback c rfl]; exact Bool.false_ne_true)]

theorem head_name (name : Name) (after : Bytes) :
    ∀ c, (name.bytes ++ after).head? = some c → isSpace c = false := by
  obtain ⟨first, bytes, hbytes⟩ := exists_cons_of_ne_nil name.ne_nil
  intro c hc
  rw [hbytes] at hc
  cases hc
  exact (name.plain _ (by rw [hbytes]; exact mem_cons_self)).2

/-- A pair begins with a match, with nothing but spaces before it. -/
theorem pair_eq_some (h : pair name piece = some value) :
    ∃ before, before.all isSpace ∧ piece = before ++ (name.bytes ++ equals :: value) := by
  simp only [pair] at h
  split at h
  · rename_i hstart
    cases h
    obtain ⟨value, hvalue⟩ := isPrefixOf_iff_prefix.mp hstart
    refine ⟨piece.takeWhile isSpace, all_takeWhile, ?_⟩
    rw [← hvalue]
    have hdrop : ((name.bytes ++ [equals]) ++ value).drop (name.bytes.length + 1) = value :=
      drop_left' (by simp)
    rw [hdrop]
    conv_lhs => rw [← takeWhile_append_dropWhile (p := isSpace) (l := piece), ← hvalue]
    simp
  · cases h

theorem pair_of_spaces {before : Bytes} (h : before.all isSpace) :
    pair name (before ++ (name.bytes ++ after)) =
      if after.head? = some equals then some (after.drop 1) else none := by
  have htrim : (before ++ (name.bytes ++ after)).dropWhile isSpace = name.bytes ++ after :=
    dropWhile_append_stop h (head_name name after)
  simp only [pair]
  rw [htrim]
  cases after with
  | nil =>
    rw [if_neg, if_neg (by simp)]
    intro hstart
    have hle := (List.isPrefixOf_iff_prefix.mp hstart).length_le
    simp only [List.length_append, length_singleton, append_nil] at hle
    omega
  | cons c after =>
    have hiff : (name.bytes ++ [equals]).isPrefixOf (name.bytes ++ c :: after) ↔
        (c :: after).head? = some equals := by
      rw [List.isPrefixOf_iff_prefix, prefix_append_right_inj]
      simp [eq_comm]
    by_cases hc : (c :: after).head? = some equals
    · rw [if_pos (hiff.mpr hc), if_pos hc]
      have hdrop : (name.bytes ++ c :: after).drop (name.bytes.length + 1) = after := by
        have hcut : name.bytes ++ c :: after = (name.bytes ++ [c]) ++ after := by simp
        rw [hcut]
        exact drop_left' (by simp)
      rw [hdrop]
      rfl
    · rw [if_neg (fun hstart => hc (hiff.mp hstart)), if_neg hc]

variable {before : Bytes}

/-- The first match is where the spaces end, if a match is there. -/
theorem strstr_spaces (name : Name) (h : before.all isSpace)
    (after : Bytes) : strstr name.bytes (before ++ (name.bytes ++ after)) =
      some (before, name.bytes ++ after) := by
  obtain ⟨first, bytes, hbytes⟩ := exists_cons_of_ne_nil name.ne_nil
  induction before with
  | nil =>
    rw [nil_append, hbytes, cons_append]
    unfold strstr
    rw [if_pos]
    rw [List.isPrefixOf_iff_prefix, cons_prefix_cons]
    exact ⟨rfl, prefix_append _ _⟩
  | cons c before ih =>
    rw [all_cons, Bool.and_eq_true] at h
    rw [cons_append]
    unfold strstr
    rw [if_neg, ih h.2]
    · rfl
    intro hstart
    rw [List.isPrefixOf_iff_prefix, hbytes, cons_prefix_cons] at hstart
    have hplain := (name.plain first (by rw [hbytes]; exact mem_cons_self)).2
    rw [hstart.1, h.1] at hplain
    cases hplain

theorem pair_of_none (h : strstr name.bytes piece = none) :
    pair name piece = none := by
  cases hpair : pair name piece with
  | none => rfl
  | some value =>
    obtain ⟨before, hbef, rfl⟩ := pair_eq_some hpair
    rw [strstr_spaces name hbef] at h
    cases h

/-- **A pair is a match** with spaces before it and a value behind it. -/
theorem pair_of_some {before : Bytes}
    (h : strstr name.bytes piece = some (before, name.bytes ++ after)) :
    pair name piece =
      if after.head? = some equals ∧ before.all isSpace then some (after.drop 1) else none := by
  by_cases hspaces : before.all isSpace
  · obtain ⟨rfl, -⟩ := strstr_eq_some h
    rw [pair_of_spaces hspaces]
    simp [hspaces]
  rw [if_neg (fun hand => hspaces hand.2)]
  cases hpair : pair name piece with
  | none => rfl
  | some value =>
    obtain ⟨front, hfront, rfl⟩ := pair_eq_some hpair
    rw [strstr_spaces name hfront] at h
    obtain ⟨rfl, -⟩ := Prod.mk.inj (Option.some.inj h)
    exact absurd hfront hspaces

/-! ### Looking back -/

theorem find_spaces (h : before.all isSpace) :
    before.reverse.find? (fun c => !isSpace c) = none := by
  rw [find?_eq_none]
  intro c hc
  rw [all_eq_true] at h
  simp [h c (mem_reverse.mp hc)]

/-- Within a piece there is no separator to be found. -/
theorem lookBack_piece (h : semicolon ∉ before) : lookBack before = false := by
  unfold lookBack
  split
  · rename_i c hfind
    have hmem := mem_of_mem_drop (mem_reverse.mp (mem_of_find?_eq_some hfind))
    have hne : c ≠ semicolon := by
      rintro rfl
      exact h hmem
    simpa using hne
  · rfl

/-- Behind a separator there may be spaces, but the separator is not to be the first character. -/
theorem lookBack_separator (front : Bytes) (h : semicolon ∉ before) :
    lookBack (front ++ semicolon :: before) = (before.all isSpace && !front.isEmpty) := by
  cases front with
  | nil =>
    unfold lookBack
    rw [nil_append, drop_one, tail_cons]
    split
    · rename_i c hfind
      have hmem := mem_reverse.mp (mem_of_find?_eq_some hfind)
      have hne : c ≠ semicolon := by
        rintro rfl
        exact h hmem
      simpa using hne
    · simp
  | cons c front =>
    unfold lookBack
    have hdrop : (c :: front ++ semicolon :: before).drop 1 = front ++ semicolon :: before := rfl
    rw [hdrop, reverse_append, reverse_cons, append_assoc, find?_append]
    by_cases hspaces : before.all isSpace
    · rw [find_spaces hspaces, hspaces]
      rfl
    -- the last character that is not a space is in the piece
    have hsome : ∃ d, before.reverse.find? (fun c => !isSpace c) = some d := by
      rw [← Option.isSome_iff_exists, find?_isSome]
      rw [all_eq_true] at hspaces
      push Not at hspaces
      obtain ⟨d, hd, hspace⟩ := hspaces
      exact ⟨d, mem_reverse.mpr hd, by simpa using hspace⟩
    obtain ⟨d, hd⟩ := hsome
    have hne : d ≠ semicolon := by
      rintro rfl
      exact h (mem_reverse.mp (mem_of_find?_eq_some hd))
    rw [hd, Bool.eq_false_iff.mpr hspaces]
    simpa using hne

/-! ### The search -/

/-- A pair behind this piece is hidden: there is nothing between the last match and the separator,
    or between the beginning of the header and the separator. -/
def hides (name : Name) (first : Bool) (piece : Bytes) : Bool :=
  (leftover name piece).isEmpty && (first || !piece.isEmpty)

/-- The values of the pairs with this name, and which of them are hidden. -/
def pairsBehind (name : Name) (hidden : Bool) : List Bytes → List (Bytes × Bool)
  | [] => []
  | piece :: pieces =>
    ((pair name piece).map fun value => (value, hidden)).toList ++
      pairsBehind name (hides name false piece) pieces

/-- The pairs of a header; one at its beginning is hidden by spaces before it. -/
def pairs (name : Name) (header : Bytes) : List (Bytes × Bool) :=
  match header.splitOn semicolon with
  | [] => []
  | piece :: pieces =>
    ((pair name piece).map fun value => (value, piece.head?.any isSpace)).toList ++
      pairsBehind name (hides name true piece) pieces

variable (unescape : Bytes → Option Bytes)

/-- What the first pair that is not hidden decodes to. -/
def found (ps : List (Bytes × Bool)) : Option Bytes :=
  (ps.find? fun p => !p.2).bind fun p => unescape p.1

theorem found_cons (p : Bytes × Bool) (ps : List (Bytes × Bool)) :
    found unescape (p :: ps) = if p.2 then found unescape ps else unescape p.1 := by
  unfold found
  rw [find?_cons]
  cases p.2 <;> rfl

/-- The search after one match. -/
theorem search_match {before : Bytes}
    (h : strstr name.bytes header = some (before, name.bytes ++ after)) (atStart : Bool) :
    search unescape name header atStart =
      if after.head? = some equals ∧ (if before ≠ [] then lookBack before else atStart) then
        unescape ((after.drop 1).takeWhile (· ≠ semicolon))
      else search unescape name after false := by
  conv_lhs => rw [search]
  split
  · rename_i hnone
    rw [h] at hnone
    cases hnone
  rename_i hsome
  rw [h] at hsome
  obtain ⟨rfl, rfl⟩ := Prod.mk.inj (Option.some.inj hsome)
  simp only [drop_left]

theorem search_none
    (h : strstr name.bytes header = none) (atStart : Bool) :
    search unescape name header atStart = none := by
  rw [search]
  split
  · rfl
  · rename_i hsome
    rw [h] at hsome
    cases hsome

/-- The name and what is behind it. -/
theorem exists_after {before : Bytes} (h : strstr name.bytes piece = some (before, pos)) :
    ∃ after, pos = name.bytes ++ after ∧ piece = before ++ (name.bytes ++ after) := by
  obtain ⟨rfl, after, rfl⟩ := strstr_eq_some h
  exact ⟨after, rfl, rfl⟩

/-- **Inside a piece** no match is a cookie. -/
theorem search_inside (name : Name)
    (hpiece : semicolon ∉ piece) (pieces : List Bytes) :
    search unescape name (piece ++ rest pieces) false =
      search unescape name (leftover name piece ++ rest pieces) false := by
  induction piece using leftover.induct name with
  | case1 piece h => rw [leftover_of_none h]
  | case2 piece before pos h ih =>
    obtain ⟨after, rfl, rfl⟩ := exists_after h
    rw [mem_append, mem_append, not_or, not_or] at hpiece
    have happend : strstr name.bytes (before ++ (name.bytes ++ after) ++ rest pieces) =
        some (before, name.bytes ++ (after ++ rest pieces)) := by
      rw [strstr_append_some name (head_rest pieces) h, append_assoc]
    have hback : (if before ≠ [] then lookBack before else false) = false := by
      rw [lookBack_piece hpiece.1]
      exact ite_self false
    rw [search_match unescape happend, if_neg (by rw [hback]; simp), leftover_of_some h]
    rw [drop_left] at ih ⊢
    exact ih hpiece.2.2

/-- The value of a pair ends where its piece does. -/
theorem takeWhile_value (h : semicolon ∉ value) (pieces : List Bytes) :
    (value ++ rest pieces).takeWhile (· ≠ semicolon) = value := by
  rw [takeWhile_append_of_pos]
  · cases hrest : rest pieces with
    | nil => simp
    | cons c others =>
      have hc := head_rest pieces c (by rw [hrest]; rfl)
      rw [takeWhile_cons_of_neg (by simp [hc]), append_nil]
  intro c hc
  have hne : c ≠ semicolon := by
    rintro rfl
    exact h hc
  simpa using hne

theorem head_after : (after ++ rest pieces).head? = some equals ↔ after.head? = some equals := by
  cases after with
  | nil =>
    rw [nil_append]
    constructor
    · intro h
      exact nomatch (head_rest pieces equals h)
    · exact nofun
  | cons c after => exact Iff.rfl

theorem drop_after (h : after.head? = some equals) (pieces : List Bytes) :
    (after ++ rest pieces).drop 1 = after.drop 1 ++ rest pieces := by
  cases after with
  | nil => cases h
  | cons c after => rfl

/-- **Behind what has no match**: the search finds the first pair that is not hidden. -/
theorem search_behind (name : Name)
    (hfront : strstr name.bytes front = none)
    (hpieces : ∀ piece ∈ pieces, semicolon ∉ piece) (atStart : Bool) :
    search unescape name (front ++ rest pieces) atStart =
      found unescape (pairsBehind name front.isEmpty pieces) := by
  induction pieces generalizing front atStart with
  | nil =>
    have hnil : front ++ rest [] = front := append_nil front
    rw [hnil, search_none unescape hfront]
    rfl
  | cons piece pieces ih =>
    have hpiece := hpieces piece mem_cons_self
    have hothers : ∀ other ∈ pieces, semicolon ∉ other :=
      fun other hother => hpieces other (mem_cons_of_mem piece hother)
    have hstrstr : strstr name.bytes (front ++ rest (piece :: pieces)) =
        (strstr name.bytes (piece ++ rest pieces)).map fun (before, pos) =>
          (front ++ semicolon :: before, pos) := by
      rw [strstr_append_none name (head_rest _) hfront, rest_cons, strstr_semicolon, Option.map_map]
      rfl
    rw [pairsBehind]
    cases hmatch : strstr name.bytes piece with
    | none =>
      -- the piece only adds to what has no match
      have hnone : strstr name.bytes (front ++ semicolon :: piece) = none := by
        have hone := strstr_append_none name (head_rest [piece]) hfront
        rw [rest_cons, strstr_semicolon] at hone
        have hnil : piece ++ rest [] = piece := append_nil piece
        rw [hnil, hmatch] at hone
        exact hone
      have hhead : front ++ rest (piece :: pieces) = (front ++ semicolon :: piece) ++ rest pieces := by
        rw [rest_cons]
        simp
      have hhides : hides name false piece = (front ++ semicolon :: piece).isEmpty := by
        rw [hides, leftover_of_none hmatch]
        cases piece <;> simp
      rw [hhead, ih hnone hothers, pair_of_none hmatch, hhides]
      rfl
    | some m =>
      obtain ⟨before, pos⟩ := m
      obtain ⟨after, rfl, hcut⟩ := exists_after hmatch
      have hparts := hpiece
      rw [hcut, mem_append, mem_append, not_or, not_or] at hparts
      have hsome : strstr name.bytes (front ++ rest (piece :: pieces)) =
          some (front ++ semicolon :: before, name.bytes ++ (after ++ rest pieces)) := by
        rw [hstrstr, strstr_append_some name (head_rest pieces) hmatch, append_assoc]
        rfl
      have hne : front ++ semicolon :: before ≠ [] := by simp
      have hnext : search unescape name (after ++ rest pieces) false =
          found unescape (pairsBehind name (hides name false piece) pieces) := by
        have hleft : leftover name piece = leftover name after := by
          rw [leftover_of_some hmatch, drop_left]
        have hhides : hides name false piece = (leftover name after).isEmpty := by
          have hnot : piece.isEmpty = false := by
            rw [hcut]
            obtain ⟨c, bytes, hbytes⟩ := exists_cons_of_ne_nil name.ne_nil
            rw [hbytes]
            simp
          rw [hides, hleft, hnot]
          simp
        rw [search_inside unescape name hparts.2.2, hhides]
        exact ih (strstr_leftover name after) hothers false
      rw [search_match unescape hsome, if_pos hne, lookBack_separator front hparts.1, hnext,
        pair_of_some hmatch]
      simp only [head_after]
      by_cases hpair : after.head? = some equals ∧ before.all isSpace
      · rw [if_pos hpair, Option.map_some, Option.toList_some, singleton_append, found_cons]
        have hvalue : semicolon ∉ after.drop 1 := fun hmem => hparts.2.2 (mem_of_mem_drop hmem)
        rw [drop_after hpair.1, takeWhile_value hvalue]
        cases front with
        | nil => simp
        | cons c front => simp [hpair]
      · rw [if_neg hpair, Option.map_none, Option.toList_none, nil_append, if_neg]
        rw [Bool.and_eq_true]
        exact fun h => hpair ⟨h.1, h.2.1⟩

/-- **The search finds the first pair that is not hidden.** -/
theorem search_eq (name : Name) (header : Bytes) :
    search unescape name header true = found unescape (pairs name header) := by
  unfold pairs
  cases hsplit : header.splitOn semicolon with
  | nil => exact absurd hsplit (splitOn_ne_nil semicolon header)
  | cons piece pieces =>
    obtain ⟨rfl, hpiece, hpieces⟩ := splitOn_eq hsplit
    dsimp only
    cases hmatch : strstr name.bytes piece with
    | none =>
      have hhides : hides name true piece = piece.isEmpty := by
        rw [hides, leftover_of_none hmatch]
        simp
      rw [search_behind unescape name hmatch hpieces, pair_of_none hmatch, hhides]
      rfl
    | some m =>
      obtain ⟨before, pos⟩ := m
      obtain ⟨after, rfl, hcut⟩ := exists_after hmatch
      have hparts := hpiece
      rw [hcut, mem_append, mem_append, not_or, not_or] at hparts
      have hsome : strstr name.bytes (piece ++ rest pieces) =
          some (before, name.bytes ++ (after ++ rest pieces)) := by
        rw [strstr_append_some name (head_rest pieces) hmatch, append_assoc]
      have hnext : search unescape name (after ++ rest pieces) false =
          found unescape (pairsBehind name (hides name true piece) pieces) := by
        have hleft : leftover name piece = leftover name after := by
          rw [leftover_of_some hmatch, drop_left]
        have hhides : hides name true piece = (leftover name after).isEmpty := by
          rw [hides, hleft]
          simp
        rw [search_inside unescape name hparts.2.2, hhides]
        exact search_behind unescape name (strstr_leftover name after) hpieces false
      rw [search_match unescape hsome, lookBack_piece hparts.1, hnext, pair_of_some hmatch]
      simp only [head_after]
      by_cases hbef : before = []
      · subst hbef
        have hhead : piece.head?.any isSpace = false := by
          rw [hcut, nil_append]
          cases hfirst : (name.bytes ++ after).head? with
          | none => rfl
          | some c => exact head_name name after c hfirst
        have hstart : (if ([] : Bytes) ≠ [] then false else true) := rfl
        rw [hstart, hhead]
        by_cases hpair : after.head? = some equals
        · have hvalue : semicolon ∉ after.drop 1 :=
            fun hmem => hparts.2.2 (mem_of_mem_drop hmem)
          rw [if_pos ⟨hpair, rfl⟩, if_pos ⟨hpair, rfl⟩, Option.map_some, Option.toList_some,
            singleton_append, found_cons, drop_after hpair, takeWhile_value hvalue]
          rfl
        · rw [if_neg (fun h => hpair h.1), if_neg (fun h => hpair h.1)]
          rfl
      -- spaces at the beginning of the header hide the pair
      rw [if_pos hbef, if_neg (by simp)]
      split
      · rename_i hpair
        have hhead : piece.head?.any isSpace := by
          obtain ⟨c, others, rfl⟩ := exists_cons_of_ne_nil hbef
          rw [all_cons, Bool.and_eq_true] at hpair
          rw [hcut]
          exact hpair.2.1
        rw [hhead, Option.map_some, Option.toList_some, singleton_append, found_cons]
        rfl
      · rfl

/-! ### The cookie -/

theorem findSome_pairsBehind (name : Name) (hidden : Bool) (pieces : List Bytes) :
    pieces.findSome? (pair name) = ((pairsBehind name hidden pieces).head?).map Prod.fst := by
  induction pieces generalizing hidden with
  | nil => rfl
  | cons piece pieces ih =>
    rw [findSome?_cons, pairsBehind]
    cases pair name piece with
    | none =>
      rw [ih (hides name false piece)]
      rfl
    | some value => rfl

/-- The cookie is in the first of the pairs. -/
theorem cookie_eq (name : Name) (header : Bytes) :
    cookie unescape name header = (pairs name header).head?.bind fun p => unescape p.1 := by
  unfold cookie pairs
  cases header.splitOn semicolon with
  | nil => rfl
  | cons piece pieces =>
    rw [findSome?_cons]
    dsimp only
    cases pair name piece with
    | none =>
      dsimp only
      rw [findSome_pairsBehind name (hides name true piece) pieces, Option.bind_map]
      rfl
    | some value => rfl

/-- The first pair is not hidden, or what is found instead decodes to the same. -/
def Visible (name : Name) (header : Bytes) : Prop :=
  ∀ value, (pairs name header).head? = some (value, true) →
    unescape value = found unescape (pairs name header)

theorem search_iff (name : Name) (header : Bytes) :
    search unescape name header true = cookie unescape name header ↔
      Visible unescape name header := by
  rw [search_eq, cookie_eq]
  unfold Visible
  cases pairs name header with
  | nil => exact ⟨fun _ _ h => (nomatch h), fun _ => rfl⟩
  | cons p ps =>
    obtain ⟨value, hidden⟩ := p
    rw [head?_cons, Option.bind_some]
    cases hidden with
    | false =>
      constructor
      · exact fun _ _ h => (nomatch h)
      · intro _
        rw [found_cons]
        rfl
    | true =>
      constructor
      · rintro h _ ⟨⟩
        exact h.symm
      · exact fun h => (h value rfl).symm

/-- **The cookie is found** unless its pair is hidden. -/
theorem parseCookie_iff (unescape : Bytes → Option Bytes) (name : Name) {headers : Headers}
    {header : CStr} (h : lookupHeader headers "Cookie" = some header) :
    parseCookie unescape name headers = cookie unescape name header.bytes ↔
      Visible unescape name header.bytes := by
  unfold parseCookie
  rw [h]
  exact search_iff unescape name header.bytes

/-! ### Percent signs -/

/-- `g_ascii_xdigit_value` -/
def xdigitValue (c : UInt8) : Option UInt8 :=
  if 48 ≤ c && c ≤ 57 then some (c - 48)
  else if 65 ≤ c && c ≤ 70 then some (c - 55)
  else if 97 ≤ c && c ≤ 102 then some (c - 87)
  else none

/-- `g_uri_unescape_segment`, without illegal characters -/
def unescapeSegment : Bytes → Option Bytes
  | [] => some []
  | 37 :: high :: low :: bytes =>
    match xdigitValue high, xdigitValue low with
    | some high, some low =>
      let c := high * 16 + low
      if c = 0 then none else (unescapeSegment bytes).map (c :: ·)
    | _, _ => none
  | c :: bytes => if c = 37 then none else (unescapeSegment bytes).map (c :: ·)

/-- A header table with only this cookie header. -/
def cookieHeaders (header : CStr) : Headers := [(⟨[99, 111, 111, 107, 105, 101], by decide⟩, header)]

/-- `b=ac; a=%62` -/
theorem parseCookie_second : parseCookie unescapeSegment ⟨[97], by decide⟩
      (cookieHeaders ⟨[98, 61, 97, 99, 59, 32, 97, 61, 37, 54, 50], by decide⟩) =
    cookie unescapeSegment ⟨[97], by decide⟩ [98, 61, 97, 99, 59, 32, 97, 61, 37, 54, 50] := by
  have hlookup : lookupHeader
      (cookieHeaders ⟨[98, 61, 97, 99, 59, 32, 97, 61, 37, 54, 50], by decide⟩) "Cookie" =
      some ⟨[98, 61, 97, 99, 59, 32, 97, 61, 37, 54, 50], by decide⟩ := by decide
  have hpairs : pairs ⟨[97], by decide⟩ [98, 61, 97, 99, 59, 32, 97, 61, 37, 54, 50] =
      [([37, 54, 50], false)] := by decide +kernel
  apply (parseCookie_iff unescapeSegment ⟨[97], by decide⟩ hlookup).mpr
  intro value h
  rw [hpairs] at h
  cases h

/-- `a; a=b` -/
theorem not_parseCookie_bare : parseCookie unescapeSegment ⟨[97], by decide⟩
      (cookieHeaders ⟨[97, 59, 32, 97, 61, 98], by decide⟩) ≠
    cookie unescapeSegment ⟨[97], by decide⟩ [97, 59, 32, 97, 61, 98] := by
  decide +kernel

end Cockpit.Cookie
