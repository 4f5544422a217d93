import Cockpit.WebSocket.RequestHead

namespace Cockpit.Accept

open Lib (toLower sameName isBlank isDigit digitsValue)
open List

/-!
# `Accept-Language` and `Accept-Encoding` in `src/common/cockpitwebserver.c`

The elements of both headers are split at commas and have a name and maybe a q parameter.

* `Spaced.parts` — such headers have the same elements with the same parts;
* `parse_spaced` — where they give the same answers.
-/

def comma : UInt8 := 44

def semicolon : UInt8 := 59

def dash : UInt8 := 45

/-- `"q="` -/
def qParam : Bytes := [113, 61]

/-- `g_strstrip` -/
def strip (s : Bytes) : Bytes := ((s.dropWhile isSpace).reverse.dropWhile isSpace).reverse

/-- What the code does with doubles. -/
structure Doubles (D : Type) where
  zero : D
  tenth : D
  one : D
  lt : D → D → Bool
  eq : D → D → Bool

/-- `Language` -/
structure Language (D : Type) where
  qvalue : D
  value : Bytes
  deriving DecidableEq

section

variable {D : Type} (doubles : Doubles D) (strtod : Bytes → D) (element : Bytes)

/-- What is in an element behind its first semicolon and `q=`, if that is what follows. -/
def param : Option Bytes :=
  match element.dropWhile (· ≠ semicolon) with
  | [] => none
  | _ :: rest => if qParam.isPrefixOf rest then some (rest.drop 2) else none

/-- The `qvalue` of an element. -/
def qvalue : D :=
  match param element with
  | none => doubles.one
  | some text => if doubles.lt (strtod text) doubles.zero then doubles.zero else strtod text

/-- What is before the first semicolon of an element. -/
def value : Bytes := element.takeWhile (· ≠ semicolon)

/-! ### Languages -/

/-- `sort_qvalue`, where it is not positive -/
def sortQvalue (la lb : Language D) : Bool :=
  doubles.eq lb.qvalue la.qvalue || doubles.lt lb.qvalue la.qvalue

/-- `g_ptr_array_sort`: a merge sort, the first half of which is not the larger one. -/
def ptrArraySort {α : Type} (le : α → α → Bool) (array : List α) : List α :=
  if _h : array.length ≤ 1 then array
  else
    List.merge (ptrArraySort le (array.take (array.length / 2)))
      (ptrArraySort le (array.drop (array.length / 2))) le
  termination_by array.length
  decreasing_by
    · rw [length_take]
      omega
    · rw [length_drop]
      omega

/-- The languages of the header and the default one, before they are sorted. -/
def languages (accept defawlt : Option Bytes) : List (Language D) :=
  (defawlt.map fun value => ⟨doubles.tenth, value⟩).toList ++
    match accept with
    | none => []
    | some accept =>
      (accept.splitOn comma).map fun element => ⟨qvalue doubles strtod element, value element⟩

/-- A language as it is returned. -/
def fullName (lang : Language D) : Bytes := strip (lang.value.map toLower)

/-- The base of a language, if it has a dash. -/
def baseName (lang : Language D) : Option Bytes :=
  if dash ∈ lang.value then some (strip ((lang.value.takeWhile (· ≠ dash)).map toLower)) else none

/-- `cockpit_web_server_parse_languages` -/
def parseLanguages (accept defawlt : Option Bytes) : List Bytes :=
  let langs := (ptrArraySort (sortQvalue doubles) (languages doubles strtod accept defawlt)).filter
    fun lang => doubles.lt doubles.zero lang.qvalue
  langs.map fullName ++ langs.filterMap baseName

/-! ### Encodings -/

/-- The loop of `cockpit_web_server_parse_encoding`: `ret` and `any` -/
def encodingLoop (encoding : Bytes) (any : Bool) : List Bytes → Bool × Bool
  | [] => (false, any)
  | element :: elements =>
    let accept := strip (value element)
    let any := any || !accept.isEmpty
    if sameName encoding accept then (doubles.lt doubles.zero (qvalue doubles strtod element), any)
    else encodingLoop encoding any elements

/-- `cockpit_web_server_parse_encoding` -/
def parseEncoding (accept : Option Bytes) (encoding : Bytes) : Bool :=
  match accept with
  | none => true
  | some accept =>
    let (ret, any) := encodingLoop doubles strtod encoding false (accept.splitOn comma)
    ret || !any

end

/-! ### Spaces -/

/-- A blank is put before or behind a comma or semicolon. -/
inductive Insert : Bytes → Bytes → Prop
  | before (front back : Bytes) {separator blank : UInt8}
      (hseparator : separator = comma ∨ separator = semicolon) (hblank : isBlank blank) :
      Insert (front ++ separator :: back) (front ++ blank :: separator :: back)
  | behind (front back : Bytes) {separator blank : UInt8}
      (hseparator : separator = comma ∨ separator = semicolon) (hblank : isBlank blank) :
      Insert (front ++ separator :: back) (front ++ separator :: blank :: back)

/-- **The same header** up to spaces that were inserted or removed. -/
def Spaced : Bytes → Bytes → Prop := Relation.EqvGen Insert

/-- `g_ascii_strtod` does not look at spaces at the end, nor at a semicolon and what follows it. -/
def IgnoresRest {D : Type} (strtod : Bytes → D) : Prop :=
  ∀ text spaces rest : Bytes, spaces.all isSpace →
    (rest = [] ∨ rest.head? = some semicolon) → strtod (text ++ spaces ++ rest) = strtod text

/-- The elements of two headers have the same weights: where a q parameter is recognised in just
    one of them, it does not matter. -/
def SameWeights {D : Type} (doubles : Doubles D) (strtod : Bytes → D) (accept accept' : Bytes) :
    Prop :=
  List.Forall₂
    (fun element element' => (param element).isSome = (param element').isSome ∨
      qvalue doubles strtod element = qvalue doubles strtod element')
    (accept.splitOn comma) (accept'.splitOn comma)

/-! ### Stripping -/

theorem isSpace_of_isBlank {b : UInt8} (h : isBlank b) : isSpace b := by
  simp only [isBlank, Bool.or_eq_true, decide_eq_true_eq] at h
  rcases h with rfl | rfl <;> decide

/-- What `strip` takes off are spaces on both sides. -/
theorem exists_strip (s : Bytes) : ∃ front back, s = front ++ strip s ++ back ∧
    front.all isSpace ∧ back.all isSpace := by
  refine ⟨s.takeWhile isSpace, ((s.dropWhile isSpace).reverse.takeWhile isSpace).reverse, ?_,
    all_takeWhile, ?_⟩
  · rw [strip, append_assoc, ← reverse_append, takeWhile_append_dropWhile,
      reverse_reverse, takeWhile_append_dropWhile]
  · rw [all_reverse]
    exact all_takeWhile

theorem dropWhile_spaces {front : Bytes} (h : front.all isSpace) (s : Bytes) :
    (front ++ s).dropWhile isSpace = s.dropWhile isSpace :=
  dropWhile_append_of_pos (all_eq_true.mp h)

theorem strip_left {front : Bytes} (h : front.all isSpace) (s : Bytes) :
    strip (front ++ s) = strip s := by rw [strip, strip, dropWhile_spaces h]

variable {s accept accept' element : Bytes}

theorem strip_spaces (h : s.all isSpace) : strip s = [] := by
  have hdrop := dropWhile_spaces h []
  rw [append_nil] at hdrop
  rw [strip, hdrop]
  rfl

theorem strip_right {back : Bytes} (h : back.all isSpace) (s : Bytes) :
    strip (s ++ back) = strip s := by
  by_cases hs : s.all isSpace
  · rw [strip_left hs, strip_spaces h, strip_spaces hs]
  have hdrop : (s ++ back).dropWhile isSpace = s.dropWhile isSpace ++ back := by
    rw [dropWhile_append, if_neg]
    rw [List.isEmpty_iff, dropWhile_eq_nil_iff]
    exact fun hall => hs (all_eq_true.mpr hall)
  rw [strip, hdrop, reverse_append, dropWhile_spaces (by rwa [all_reverse]), strip]

variable (c : UInt8)

theorem isSpace_toLower : isSpace (toLower c) = isSpace c := by
  have hall : ∀ n < 256, isSpace (toLower (UInt8.ofNat n)) = isSpace (UInt8.ofNat n) := by
    decide +kernel
  have h := hall c.toNat c.toNat_lt
  rwa [UInt8.ofNat_toNat] at h

theorem all_map_toLower (h : s.all isSpace) : (s.map toLower).all isSpace := by
  rw [all_map]
  have hcomp : isSpace ∘ toLower = isSpace := funext isSpace_toLower
  rw [hcomp]
  exact h

/-- Lower case letters are no spaces either. -/
theorem strip_toLower (s : Bytes) : strip (s.map toLower) = strip ((strip s).map toLower) := by
  obtain ⟨front, back, hs, hfront, hback⟩ := exists_strip s
  conv_lhs => rw [hs]
  rw [map_append, map_append, append_assoc, strip_left (all_map_toLower hfront),
    strip_right (all_map_toLower hback)]

/-! ### Parts -/

theorem splitOn_cons {c d : UInt8} {first : Bytes} {others : List Bytes} (h : d ≠ c)
    (hs : s.splitOn c = first :: others) : (d :: s).splitOn c = (d :: first) :: others := by
  rw [splitOn_cons_eq_if_modifyHead, if_neg (by simpa using h), hs, modifyHead_cons]

theorem splitOn_separator (s : Bytes) : (c :: s).splitOn c = [] :: s.splitOn c := by
  rw [splitOn_cons_eq_if_modifyHead, if_pos (by simp)]

theorem exists_splitOn (s : Bytes) : ∃ first others, s.splitOn c = first :: others :=
  exists_cons_of_ne_nil (splitOn_ne_nil c s)

/-- **Where two strings meet**, the last part of one and the first part of the other are one. -/
theorem exists_splitOn_append (s : Bytes) :
    ∃ others last, s.splitOn c = others ++ [last] ∧ ∀ t first rest, t.splitOn c = first :: rest →
        (s ++ t).splitOn c = others ++ (last ++ first) :: rest := by
  induction s with
  | nil => exact ⟨[], [], splitOn_nil c, fun _ _ _ ht => ht⟩
  | cons d s ih =>
    obtain ⟨others, last, hs, happend⟩ := ih
    by_cases hd : d = c
    · subst hd
      refine ⟨[] :: others, last, by rw [splitOn_separator, hs]; rfl, ?_⟩
      intro t first rest ht
      rw [cons_append, splitOn_separator, happend t first rest ht]
      rfl
    cases others with
    | nil =>
      refine ⟨[], d :: last, splitOn_cons hd hs, ?_⟩
      intro t first rest ht
      rw [cons_append, splitOn_cons hd (happend t first rest ht)]
      rfl
    | cons other others =>
      refine ⟨(d :: other) :: others, last, splitOn_cons hd hs, ?_⟩
      intro t first rest ht
      rw [cons_append, splitOn_cons hd (happend t first rest ht)]
      rfl

/-- What does not see blanks at either end of a part. -/
structure Blind {α : Type} (f : Bytes → α) : Prop where
  front : ∀ {blank : UInt8} (s : Bytes), isBlank blank → f (blank :: s) = f s
  back : ∀ {blank : UInt8} (s : Bytes), isBlank blank → f (s ++ [blank]) = f s

theorem blank_ne {blank c : UInt8} (hblank : isBlank blank)
    (hc : c = comma ∨ c = semicolon) : blank ≠ c := by
  rintro rfl
  rcases hc with rfl | rfl <;> exact nomatch hblank

variable {α : Type} {f : Bytes → α} {c separator blank : UInt8}

/-- A blank next to a separator is at an end of a part. -/
theorem map_splitOn_separator (hf : Blind f) (hblank : isBlank blank) (hne : blank ≠ c)
    (front back : Bytes) :
    ((front ++ blank :: c :: back).splitOn c).map f = ((front ++ c :: back).splitOn c).map f ∧
      ((front ++ c :: blank :: back).splitOn c).map f = ((front ++ c :: back).splitOn c).map f := by
  obtain ⟨others, last, -, happend⟩ := exists_splitOn_append c front
  obtain ⟨first, rest, hback⟩ := exists_splitOn c back
  have hsep := splitOn_separator c back
  have hplain := happend _ _ _ hsep
  constructor
  · rw [hplain, happend _ _ _ (splitOn_cons hne hsep)]
    simp only [map_append, map_cons, append_nil]
    rw [hf.back last hblank]
  have hbeh := splitOn_separator c (blank :: back)
  rw [hplain, happend _ _ _ hbeh, hback, splitOn_cons hne hback]
  simp only [map_append, map_cons]
  rw [hf.front first hblank]

/-- A blank next to another separator is inside a part. -/
theorem map_splitOn_other (hne : blank ≠ c) (hother : separator ≠ c)
    (hbef : ∀ s t : Bytes, f (s ++ blank :: separator :: t) = f (s ++ separator :: t))
    (hbeh : ∀ s t : Bytes, f (s ++ separator :: blank :: t) = f (s ++ separator :: t))
    (front back : Bytes) :
    ((front ++ blank :: separator :: back).splitOn c).map f =
        ((front ++ separator :: back).splitOn c).map f ∧
      ((front ++ separator :: blank :: back).splitOn c).map f =
        ((front ++ separator :: back).splitOn c).map f := by
  obtain ⟨others, last, -, happend⟩ := exists_splitOn_append c front
  obtain ⟨first, rest, hback⟩ := exists_splitOn c back
  have hplain := happend _ _ _ (splitOn_cons hother hback)
  constructor
  · rw [hplain, happend _ _ _ (splitOn_cons hne (splitOn_cons hother hback))]
    simp only [map_append, map_cons]
    rw [hbef]
  · rw [hplain, happend _ _ _ (splitOn_cons hother (splitOn_cons hne hback))]
    simp only [map_append, map_cons]
    rw [hbeh]

theorem blind_strip : Blind strip where
  front {blank} s h := @strip_left [blank] (by simp [isSpace_of_isBlank h]) s
  back {blank} s h := @strip_right [blank] (by simp [isSpace_of_isBlank h]) s

/-- The parts of an element. -/
def parts (element : Bytes) : List Bytes := (element.splitOn semicolon).map strip

theorem blind_parts : Blind parts where
  front {blank} s h := by
    obtain ⟨first, rest, hs⟩ := exists_splitOn semicolon s
    rw [parts, parts, splitOn_cons (blank_ne h (.inr rfl)) hs, hs, map_cons, map_cons,
      blind_strip.front first h]
  back {blank} s h := by
    obtain ⟨others, last, hs, happend⟩ := exists_splitOn_append semicolon s
    have hblank : [blank].splitOn semicolon = [[blank]] :=
      splitOn_cons (blank_ne h (.inr rfl)) (splitOn_nil semicolon)
    rw [parts, parts, happend _ _ _ hblank, hs, map_append, map_append, map_cons,
      map_cons, blind_strip.back last h]

/-- The parts of all elements. -/
def allParts (accept : Bytes) : List (List Bytes) := (accept.splitOn comma).map parts

theorem Insert.allParts (h : Insert accept accept') :
    allParts accept' = allParts accept := by
  have hparts : ∀ {blank : UInt8}, isBlank blank → ∀ s t : Bytes,
      parts (s ++ blank :: semicolon :: t) = parts (s ++ semicolon :: t) ∧
        parts (s ++ semicolon :: blank :: t) = parts (s ++ semicolon :: t) :=
    fun hblank => map_splitOn_separator blind_strip hblank (blank_ne hblank (.inr rfl))
  cases h with
  | before front back hsep hblank =>
    have hne := blank_ne hblank (.inl rfl)
    rcases hsep with rfl | rfl
    · exact (map_splitOn_separator blind_parts hblank hne front back).1
    · exact (map_splitOn_other hne (by decide) (fun s t => (hparts hblank s t).1)
        (fun s t => (hparts hblank s t).2) front back).1
  | behind front back hsep hblank =>
    have hne := blank_ne hblank (.inl rfl)
    rcases hsep with rfl | rfl
    · exact (map_splitOn_separator blind_parts hblank hne front back).2
    · exact (map_splitOn_other hne (by decide) (fun s t => (hparts hblank s t).1)
        (fun s t => (hparts hblank s t).2) front back).2

/-- **Spaces do not change the parts.** -/
theorem Spaced.allParts (h : Spaced accept accept') :
    allParts accept = allParts accept' := by
  induction h with
  | rel _ _ h => exact h.allParts.symm
  | refl => rfl
  | symm _ _ _ ih => exact ih.symm
  | trans _ _ _ _ _ ih ih' => exact ih.trans ih'

/-! ### Elements -/

/-- The first part of an element, and the other ones. -/
theorem splitOn_eq (c : UInt8) (s : Bytes) :
    s.splitOn c = s.takeWhile (· ≠ c) ::
      match s.dropWhile (· ≠ c) with
      | [] => []
      | _ :: rest => rest.splitOn c := by
  induction s with
  | nil => exact splitOn_nil c
  | cons d s ih =>
    by_cases hd : d = c
    · subst hd
      rw [splitOn_separator, takeWhile_cons_of_neg (by simp), dropWhile_cons_of_neg (by simp)]
    · rw [splitOn_cons hd ih, takeWhile_cons_of_pos (by simpa using hd),
        dropWhile_cons_of_pos (by simpa using hd)]

theorem parts_eq (element : Bytes) : ∃ others, parts element = strip (value element) :: others :=
  ⟨_, by rw [parts, splitOn_eq, map_cons]; rfl⟩

variable {element' stop : Bytes}

theorem strip_value (h : parts element = parts element') :
    strip (value element) = strip (value element') := by
  obtain ⟨others, hparts⟩ := parts_eq element
  obtain ⟨others', hparts'⟩ := parts_eq element'
  rw [hparts, hparts'] at h
  exact (List.cons.inj h).1

variable (text : Bytes)

/-- `q=` is not stripped, only what is behind its number. -/
theorem strip_qParam :
    ∃ number back, strip (qParam ++ text) = qParam ++ number ∧ text = number ++ back ∧
      back.all isSpace := by
  obtain ⟨front, back, htext, hfront, hback⟩ := exists_strip (qParam ++ text)
  have hq : isSpace 113 = false := by decide
  have he : isSpace 61 = false := by decide
  have htext' : 113 :: 61 :: text = front ++ strip (qParam ++ text) ++ back := htext
  cases front with
  | cons c front =>
    rw [cons_append, cons_append] at htext'
    obtain ⟨rfl, -⟩ := List.cons.inj htext'
    rw [all_cons, hq] at hfront
    cases hfront
  | nil =>
    rw [nil_append] at htext'
    generalize strip (qParam ++ text) = stripped at htext' ⊢
    match stripped with
    | [] =>
      rw [nil_append] at htext'
      rw [← htext', all_cons, hq] at hback
      cases hback
    | [c] =>
      obtain ⟨rfl, hrest⟩ := List.cons.inj htext'
      rw [← (show 61 :: text = back from hrest), all_cons, he] at hback
      cases hback
    | c :: d :: number =>
      obtain ⟨rfl, hrest⟩ := List.cons.inj htext'
      obtain ⟨rfl, hnumber⟩ := List.cons.inj hrest
      exact ⟨number, back, rfl, hnumber, hback⟩

/-- **The number of a q parameter** is in the second part of the element. -/
theorem strtod_param {D : Type} {strtod : Bytes → D} (hstrtod : IgnoresRest strtod)
    {text : Bytes} (h : param element = some text) :
    ∃ first number others, parts element = first :: (qParam ++ number) :: others ∧
      strtod text = strtod number := by
  unfold param at h
  split at h
  · cases h
  rename_i d rest hdrop
  split at h
  · rename_i hstart
    cases h
    obtain ⟨text, rfl⟩ := isPrefixOf_iff_prefix.mp hstart
    have hvalue : (qParam ++ text).takeWhile (· ≠ semicolon) =
        qParam ++ text.takeWhile (· ≠ semicolon) := takeWhile_append_of_pos (by decide +kernel)
    obtain ⟨number, back, hstrip, htext, hback⟩ := strip_qParam (text.takeWhile (· ≠ semicolon))
    obtain ⟨others, hparts⟩ : ∃ others, parts element =
        strip (value element) :: (qParam ++ number) :: others := by
      rw [parts, splitOn_eq, hdrop]
      dsimp only
      rw [splitOn_eq, hvalue, map_cons, map_cons, hstrip]
      exact ⟨_, rfl⟩
    refine ⟨strip (value element), number, others, hparts, ?_⟩
    · have hrest : (qParam ++ text).drop 2 = number ++ back ++ text.dropWhile (· ≠ semicolon) := by
        rw [← htext, takeWhile_append_dropWhile]
        rfl
      rw [hrest]
      apply hstrtod number back _ hback
      cases htail : text.dropWhile (· ≠ semicolon) with
      | nil => exact .inl rfl
      | cons c others =>
        right
        have hc := head?_dropWhile_not (fun c : UInt8 => decide (c ≠ semicolon)) text
        rw [htail] at hc
        simpa using hc
  · cases h

/-- The same parts give the same weight, if the q parameter is recognised in both or in none. -/
theorem qvalue_eq {D : Type} (doubles : Doubles D) {strtod : Bytes → D}
    (hstrtod : IgnoresRest strtod) (hparts : parts element = parts element')
    (hparam : (param element).isSome = (param element').isSome) :
    qvalue doubles strtod element = qvalue doubles strtod element' := by
  unfold qvalue
  cases htext : param element with
  | none =>
    cases htext' : param element' with
    | none => rfl
    | some text' => simp [htext, htext'] at hparam
  | some text =>
    cases htext' : param element' with
    | none => simp [htext, htext'] at hparam
    | some text' =>
      obtain ⟨first, number, others, hnumber, hstrtext⟩ := strtod_param hstrtod htext
      obtain ⟨first', number', others', hnumber', hstrtext'⟩ := strtod_param hstrtod htext'
      rw [hnumber, hnumber'] at hparts
      obtain ⟨-, hparts⟩ := List.cons.inj hparts
      obtain ⟨hsame, -⟩ := List.cons.inj hparts
      obtain rfl := append_cancel_left hsame
      dsimp only
      rw [hstrtext, hstrtext']

/-- Elements that the code does not tell apart. -/
def SameElement {D : Type} (doubles : Doubles D) (strtod : Bytes → D) (element element' : Bytes) :
    Prop :=
  strip (value element) = strip (value element') ∧
    qvalue doubles strtod element = qvalue doubles strtod element'

/-- **The same elements**, one by one. -/
theorem forall₂_sameElement {D : Type} (doubles : Doubles D) {strtod : Bytes → D}
    (hstrtod : IgnoresRest strtod) (hspaced : Spaced accept accept')
    (hweights : SameWeights doubles strtod accept accept') :
    List.Forall₂ (SameElement doubles strtod) (accept.splitOn comma) (accept'.splitOn comma) := by
  have hparts := hspaced.allParts
  unfold SameWeights at hweights
  unfold allParts at hparts
  generalize accept.splitOn comma = elements at hparts hweights ⊢
  generalize accept'.splitOn comma = elements' at hparts hweights ⊢
  induction hweights with
  | nil => exact .nil
  | cons hweight _ ih =>
    rw [map_cons, map_cons] at hparts
    obtain ⟨hfirst, hothers⟩ := List.cons.inj hparts
    refine .cons ⟨strip_value hfirst, ?_⟩ (ih hothers)
    exact hweight.elim (qvalue_eq doubles hstrtod hfirst) id

/-! ### Answers -/

/-- **A merge sort** looks at nothing but the order. -/
theorem map_ptrArraySort {β : Type} {le : α → α → Bool} {le' : β → β → Bool} {f : α → β}
    (h : ∀ a b, le a b = le' (f a) (f b)) (array : List α) :
    (ptrArraySort le array).map f = ptrArraySort le' (array.map f) := by
  induction hlen : array.length using Nat.strongRecOn generalizing array with
  | ind n ih =>
    subst hlen
    conv_lhs => rw [ptrArraySort]
    conv_rhs => rw [ptrArraySort]
    by_cases hone : array.length ≤ 1
    · rw [dif_pos hone, dif_pos (by rwa [length_map])]
    rw [dif_neg hone, dif_neg (by rwa [length_map]), map_merge fun a _ b _ => h a b,
      ih (array.take (array.length / 2)).length (by rw [length_take]; omega) _ rfl,
      ih (array.drop (array.length / 2)).length (by rw [length_drop]; omega) _ rfl,
      map_take, map_drop, length_map]

/-- A language without the spaces around its name. -/
def Language.stripped {D : Type} (lang : Language D) : Language D :=
  { lang with value := strip lang.value }

theorem fullName_stripped {D : Type} (lang : Language D) :
    fullName lang.stripped = fullName lang := (strip_toLower lang.value).symm

theorem dash_mem_strip (s : Bytes) : dash ∈ strip s ↔ dash ∈ s := by
  obtain ⟨front, back, hs, hfront, hback⟩ := exists_strip s
  have hnot : ∀ t : Bytes, t.all isSpace → dash ∉ t := by
    intro t ht hmem
    exact nomatch (all_eq_true.mp ht dash hmem)
  conv_rhs => rw [hs]
  rw [mem_append, mem_append]
  constructor
  · exact fun hmem => .inl (.inr hmem)
  rintro ((hmem | hmem) | hmem)
  · exact absurd hmem (hnot front hfront)
  · exact hmem
  · exact absurd hmem (hnot back hback)

theorem baseName_stripped {D : Type} (lang : Language D) :
    baseName lang.stripped = baseName lang := by
  have hmem := dash_mem_strip lang.value
  have hvalue : lang.stripped.value = strip lang.value := rfl
  unfold baseName
  rw [hvalue]
  by_cases hdash : dash ∈ lang.value
  · obtain ⟨front, back, hs, hfront, hback⟩ := exists_strip lang.value
    have hspace : ∀ c ∈ front, decide (c ≠ dash) := by
      intro c hc
      have hne : c ≠ dash := by
        rintro rfl
        exact nomatch (all_eq_true.mp hfront dash hc)
      simpa using hne
    -- the dash comes before the spaces at the end
    have htake : lang.value.takeWhile (· ≠ dash) = front ++ (strip lang.value).takeWhile (· ≠ dash) := by
      conv_lhs => rw [hs]
      rw [append_assoc, takeWhile_append_of_pos hspace, takeWhile_append, if_neg]
      intro hlen
      have hall := takeWhile_eq_self_iff.mp
        ((List.takeWhile_prefix (fun c : UInt8 => decide (c ≠ dash))).eq_of_length hlen)
      exact absurd (hall dash (hmem.mpr hdash)) (by simp)
    rw [if_pos (hmem.mpr hdash), if_pos hdash, htake, map_append,
      strip_left (all_map_toLower hfront)]
  · rw [if_neg (fun h => hdash (hmem.mp h)), if_neg hdash]

section

variable {D : Type} (doubles : Doubles D) {strtod : Bytes → D}

theorem languages_stripped
    (h : List.Forall₂ (SameElement doubles strtod) (accept.splitOn comma) (accept'.splitOn comma))
    (defawlt : Option Bytes) :
    (languages doubles strtod (some accept) defawlt).map Language.stripped =
      (languages doubles strtod (some accept') defawlt).map Language.stripped := by
  unfold languages
  rw [map_append, map_append]
  congr 1
  dsimp only
  rw [map_map, map_map]
  generalize accept.splitOn comma = elements at h ⊢
  generalize accept'.splitOn comma = elements' at h ⊢
  induction h with
  | nil => rfl
  | cons hsame _ ih =>
    rw [map_cons, map_cons, ih]
    congr 1
    simp only [Function.comp_apply, Language.stripped]
    rw [hsame.1, hsame.2]

/-- What is returned only depends on the stripped languages. -/
theorem parseLanguages_eq (accept defawlt : Option Bytes) :
    parseLanguages doubles strtod accept defawlt =
      let langs := (ptrArraySort (sortQvalue doubles)
        ((languages doubles strtod accept defawlt).map Language.stripped)).filter
          fun lang => doubles.lt doubles.zero lang.qvalue
      langs.map fullName ++ langs.filterMap baseName := by
  have hsort := @map_ptrArraySort _ _ (sortQvalue doubles) (sortQvalue doubles) Language.stripped
    (fun _ _ => rfl) (languages doubles strtod accept defawlt)
  have hfilter : (fun lang : Language D => doubles.lt doubles.zero lang.qvalue) ∘ Language.stripped =
      fun lang => doubles.lt doubles.zero lang.qvalue := rfl
  have hfull : fullName ∘ Language.stripped = fullName (D := D) := funext fullName_stripped
  have hbase : baseName ∘ Language.stripped = baseName (D := D) := funext baseName_stripped
  dsimp only
  rw [← hsort, filter_map, hfilter, map_map, filterMap_map, hfull, hbase]
  rfl

theorem encodingLoop_eq {elements elements' : List Bytes}
    (h : List.Forall₂ (SameElement doubles strtod) elements elements') (encoding : Bytes) (any : Bool) :
    encodingLoop doubles strtod encoding any elements =
      encodingLoop doubles strtod encoding any elements' := by
  induction h generalizing any with
  | nil => rfl
  | cons hsame _ ih =>
    simp only [encodingLoop]
    rw [hsame.1, hsame.2, ih]

/-- **Spaces around commas and semicolons are irrelevant** where they leave the weights alone. -/
theorem parse_spaced (hstrtod : IgnoresRest strtod) {accept accept' : Bytes}
    (hspaced : Spaced accept accept') (hweights : SameWeights doubles strtod accept accept') :
    (∀ defawlt, parseLanguages doubles strtod (some accept) defawlt =
      parseLanguages doubles strtod (some accept') defawlt) ∧
    ∀ encoding, parseEncoding doubles strtod (some accept) encoding =
      parseEncoding doubles strtod (some accept') encoding := by
  have hsame := forall₂_sameElement doubles hstrtod hspaced hweights
  constructor
  · intro defawlt
    rw [parseLanguages_eq, parseLanguages_eq, languages_stripped doubles hsame]
  · intro encoding
    simp only [parseEncoding]
    rw [encodingLoop_eq doubles hsame]

end

/-! ### Decimal numbers -/

/-- The doubles, as far as they are exact. -/
def rationals : Doubles ℚ := ⟨0, 1 / 10, 1, fun a b => decide (a < b), fun a b => decide (a = b)⟩

/-- Digits, and maybe a point and more of them. -/
def decimalPrefixed : ℚ :=
  let rest := text.dropWhile isDigit
  let fraction := (rest.drop 1).takeWhile isDigit
  digitsValue 0 (text.takeWhile isDigit) +
    if rest.head? = some 46 then (digitsValue 0 fraction : ℚ) / 10 ^ fraction.length else 0

/-- `g_ascii_strtod`, of a decimal number without sign and exponent -/
def decimalStrtod : ℚ := decimalPrefixed (text.dropWhile isSpace)

/-- Behind a character that ends a number. -/
def Stops (stop : Bytes) : Prop := ∀ c, stop.head? = some c → isDigit c = false ∧ c ≠ 46

theorem while_append_stop {p : UInt8 → Bool}
    (hstop : ∀ c, stop.head? = some c → p c = false) (text : Bytes) :
    (text ++ stop).takeWhile p = text.takeWhile p ∧
      (text ++ stop).dropWhile p = text.dropWhile p ++ stop := by
  induction text with
  | nil =>
    cases stop with
    | nil => exact ⟨rfl, rfl⟩
    | cons c stop =>
      have hc := hstop c rfl
      rw [nil_append, takeWhile_cons_of_neg (by simp [hc]), dropWhile_cons_of_neg (by simp [hc])]
      exact ⟨rfl, rfl⟩
  | cons c text ih =>
    cases hc : p c with
    | true =>
      rw [cons_append, takeWhile_cons_of_pos hc, dropWhile_cons_of_pos hc,
        takeWhile_cons_of_pos hc, dropWhile_cons_of_pos hc, ih.1, ih.2]
      exact ⟨rfl, rfl⟩
    | false =>
      have hnot : ¬ p c := by simp [hc]
      rw [cons_append, takeWhile_cons_of_neg hnot, dropWhile_cons_of_neg hnot,
        takeWhile_cons_of_neg hnot, dropWhile_cons_of_neg hnot]
      exact ⟨rfl, rfl⟩

theorem decimalPrefixed_append (hstop : Stops stop) (text : Bytes) :
    decimalPrefixed (text ++ stop) = decimalPrefixed text := by
  have hdigit : ∀ c, stop.head? = some c → isDigit c = false := fun c hc => (hstop c hc).1
  obtain ⟨htake, hdrop⟩ := while_append_stop hdigit text
  unfold decimalPrefixed
  dsimp only
  rw [hdrop, htake]
  cases hrest : text.dropWhile isDigit with
  | nil =>
    have hnot : stop.head? ≠ some 46 := fun h => (hstop 46 h).2 rfl
    rw [nil_append, if_neg hnot, if_neg (by simp)]
  | cons c fraction =>
    rw [cons_append, head?_cons, drop_one, drop_one, tail_cons,
      tail_cons, (while_append_stop hdigit fraction).1, head?_cons]

theorem decimalStrtod_ignoresRest : IgnoresRest decimalStrtod := by
  intro text spaces rest hspaces hrest
  have hhead : ∀ c, rest.head? = some c → c = semicolon := by
    intro c hc
    rcases hrest with rfl | hsome
    · cases hc
    · rw [hc] at hsome
      exact Option.some.inj hsome
  have hstop : Stops rest := by
    intro c hc
    rw [hhead c hc]
    exact ⟨by decide, by decide⟩
  have hnospace : ∀ c, rest.head? = some c → isSpace c = false := by
    intro c hc
    rw [hhead c hc]
    decide
  have hstops : Stops (spaces ++ rest) := by
    cases spaces with
    | nil => exact hstop
    | cons s spaces =>
      intro c hc
      cases hc
      rw [all_cons, Bool.and_eq_true] at hspaces
      have hall : ∀ n < 256, isSpace (UInt8.ofNat n) →
          isDigit (UInt8.ofNat n) = false ∧ UInt8.ofNat n ≠ 46 := by decide +kernel
      have h := hall s.toNat s.toNat_lt
      rw [UInt8.ofNat_toNat] at h
      exact h hspaces.1
  unfold decimalStrtod
  by_cases htext : text.all isSpace
  · -- nothing but spaces up to the rest
    have hdrop := (while_append_stop hnospace []).2
    rw [nil_append, dropWhile_nil, nil_append] at hdrop
    have hnil := dropWhile_spaces htext []
    rw [append_nil, dropWhile_nil] at hnil
    rw [append_assoc, dropWhile_spaces htext, dropWhile_spaces hspaces, hdrop, hnil]
    exact decimalPrefixed_append hstop []
  have hdrop : (text ++ (spaces ++ rest)).dropWhile isSpace =
      text.dropWhile isSpace ++ (spaces ++ rest) := by
    rw [dropWhile_append, if_neg]
    rw [List.isEmpty_iff, dropWhile_eq_nil_iff]
    exact fun hall => htext (all_eq_true.mpr hall)
  rw [append_assoc, hdrop]
  exact decimalPrefixed_append hstops _

/-- `de;q=0.1,en` and `de ;q=0.1,en` -/
theorem parse_spaced_before :
    (∀ defawlt, parseLanguages rationals decimalStrtod
        (some [100, 101, 59, 113, 61, 48, 46, 49, 44, 101, 110]) defawlt =
      parseLanguages rationals decimalStrtod
        (some [100, 101, 32, 59, 113, 61, 48, 46, 49, 44, 101, 110]) defawlt) ∧
    ∀ encoding, parseEncoding rationals decimalStrtod
        (some [100, 101, 59, 113, 61, 48, 46, 49, 44, 101, 110]) encoding =
      parseEncoding rationals decimalStrtod
        (some [100, 101, 32, 59, 113, 61, 48, 46, 49, 44, 101, 110]) encoding := by
  apply parse_spaced rationals decimalStrtod_ignoresRest
  · exact .rel _ _ (.before [100, 101] [113, 61, 48, 46, 49, 44, 101, 110] (.inr rfl) (by decide))
  · exact .cons (.inl rfl) (.cons (.inl rfl) .nil)

/-- `gzip;q=0` and `gzip; q=0` -/
theorem not_parse_spaced_behind :
    Spaced [103, 122, 105, 112, 59, 113, 61, 48] [103, 122, 105, 112, 59, 32, 113, 61, 48] ∧
    parseEncoding rationals decimalStrtod (some [103, 122, 105, 112, 59, 113, 61, 48])
        [103, 122, 105, 112] ≠
      parseEncoding rationals decimalStrtod (some [103, 122, 105, 112, 59, 32, 113, 61, 48])
        [103, 122, 105, 112] :=
  ⟨.rel _ _ (.behind [103, 122, 105, 112] [113, 61, 48] (.inr rfl) (by decide)), by decide +kernel⟩

end Cockpit.Accept
