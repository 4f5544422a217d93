import Cockpit.Base1.Location

namespace Cockpit.Page.Location

open Lib List Option Uri

/-!
# Where `Location` throws

`resolve_path_dots` returns `null` for a path that leads above the root, and `decode_path` does not
expect it.

* `Location.decodePath_eq` — when a path is decoded;
* `Location.total_iff` — when nothing throws.
-/

/-! ### The functions of a location -/

variable (urlRoot : List Nat)

/-- `self.url_root`; what is replaced in front of the name of the application is "cockpit+". -/
def selfUrlRoot (application : List Nat) : List Nat :=
  if (units "cockpit+=").isPrefixOf application then
    (if urlRoot = [] then [] else urlRoot ++ [slash]) ++ application.drop (units "cockpit+").length
  else urlRoot

/-- What `new Location` decodes.  `path` is undefined until then, and `pop` takes that away. -/
def construct (hash : List Nat) : Option (List (List Nat) × Options) :=
  decode urlRoot [] hash []

/-- `encode`, for a path that is a string -/
def encodeString (path : List (List Nat)) (input : List Nat)
    (options : List (List Nat × Given)) (withRoot : Bool) : Option (List Nat) := do
  let path ← decodePath urlRoot path input
  encode urlRoot path options withRoot

/-! ### Above the root -/

/-- A part that is neither skipped nor leads upwards. -/
def Ordinary (part : List Nat) : Prop := part ≠ [] ∧ part ≠ units "." ∧ part ≠ units ".."

instance (part : List Nat) : Decidable (Ordinary part) :=
  inferInstanceAs (Decidable (part ≠ [] ∧ part ≠ units "." ∧ part ≠ units ".."))

/-- How far a path leads above where it starts. -/
def climb : List (List Nat) → Nat
  | [] => 0
  | part :: parts =>
    if part = units ".." then climb parts + 1
    else if Ordinary part then climb parts - 1
    else climb parts

/-- The parts that no `..` takes away. -/
def kept : List (List Nat) → List (List Nat)
  | [] => []
  | part :: parts => if Ordinary part ∧ climb parts = 0 then part :: kept parts else kept parts

variable {parts : List (List Nat)}

theorem ordinary_of_mem_kept : ∀ part ∈ kept parts, Ordinary part := by
  induction parts with
  | nil => exact nofun
  | cons part parts ih =>
    intro p hp
    rw [kept] at hp
    split at hp
    · rename_i hpart
      rcases mem_cons.mp hp with rfl | hp
      · exact hpart.1
      · exact ih p hp
    · exact ih p hp

/-- Each part is skipped, leads upwards or is ordinary. -/
theorem part_cases (part : List Nat) :
    ((part = [] ∨ part = units ".") ∧ part ≠ units ".." ∧ ¬ Ordinary part) ∨
      (part = units ".." ∧ ¬ (part = [] ∨ part = units ".") ∧ ¬ Ordinary part) ∨
      (Ordinary part ∧ ¬ (part = [] ∨ part = units ".") ∧ part ≠ units "..") := by
  by_cases hskip : part = [] ∨ part = units "."
  · refine .inl ⟨hskip, ?_, ?_⟩
    · rcases hskip with rfl | rfl <;> decide
    · rintro ⟨hnil, hdot, -⟩
      exact hskip.elim hnil hdot
  by_cases hdots : part = units ".."
  · exact .inr (.inl ⟨hdots, hskip, fun h => h.2.2 hdots⟩)
  · have hord : Ordinary part := ⟨fun h => hskip (.inl h), fun h => hskip (.inr h), hdots⟩
    exact .inr (.inr ⟨hord, hskip, hdots⟩)

/-- **What a path comes to**: nothing where it leads above its start, and else what is kept. -/
theorem resolveLoop_eq (parts out : List (List Nat)) :
    resolveLoop out parts =
      if climb parts ≤ out.length then some (out.take (out.length - climb parts) ++ kept parts)
      else none := by
  induction parts generalizing out with
  | nil => simp [resolveLoop, climb, kept]
  | cons part parts ih =>
    rcases part_cases part with ⟨hskip, hdots, hord⟩ | ⟨hdots, hskip, hord⟩ |
      ⟨hord, hskip, hdots⟩
    · -- neither up nor down
      have hclimb : climb (part :: parts) = climb parts := by
        rw [climb, if_neg hdots, if_neg hord]
      have hkept : kept (part :: parts) = kept parts := if_neg fun h => hord h.1
      rw [resolveLoop, if_pos hskip, ih, hclimb, hkept]
    · -- up
      have hclimb : climb (part :: parts) = climb parts + 1 := by rw [climb, if_pos hdots]
      have hkept : kept (part :: parts) = kept parts := if_neg fun h => hord h.1
      rw [resolveLoop, if_neg hskip, if_pos hdots, hclimb, hkept]
      by_cases hout : out.length = 0
      · rw [if_pos hout, if_neg (by omega)]
      have hlen : out.dropLast.length = out.length - 1 := length_dropLast
      have htake : out.dropLast.take (out.length - 1 - climb parts) =
          out.take (out.length - (climb parts + 1)) := by
        rw [dropLast_eq_take, take_take, Nat.min_eq_left (by omega), Nat.sub_sub, Nat.add_comm 1]
      rw [if_neg hout, ih, hlen, htake]
      by_cases hle : climb parts + 1 ≤ out.length
      · rw [if_pos hle, if_pos (by omega)]
      · rw [if_neg hle, if_neg (by omega)]
    -- down
    have hclimb : climb (part :: parts) = climb parts - 1 := by
      rw [climb, if_neg hdots, if_pos hord]
    have hlen : (out ++ [part]).length = out.length + 1 := by simp
    rw [resolveLoop, if_neg hskip, if_neg hdots, ih, hclimb, hlen]
    by_cases hzero : climb parts = 0
    · -- the part stays
      have hkept : kept (part :: parts) = part :: kept parts := if_pos ⟨hord, hzero⟩
      rw [hkept, hzero, if_pos (Nat.zero_le _), if_pos (Nat.zero_le _)]
      simp [take_of_length_le]
    have hkept : kept (part :: parts) = kept parts := if_neg fun h => hzero h.2
    have htake : (out ++ [part]).take (out.length + 1 - climb parts) =
        out.take (out.length - (climb parts - 1)) := by
      have hsub : out.length + 1 - climb parts = out.length - (climb parts - 1) := by omega
      rw [hsub, take_append_of_le_length (by omega)]
    rw [hkept, htake]
    by_cases hle : climb parts ≤ out.length + 1
    · rw [if_pos hle, if_pos (by omega)]
    · rw [if_neg hle, if_neg (by omega)]

theorem resolvePathDots_eq (parts : List (List Nat)) :
    resolvePathDots parts = if climb parts = 0 then some (kept parts) else none := by
  rw [resolvePathDots, resolveLoop_eq]
  simp

/-! ### What is decoded -/

/-- The parts that `decode_path` resolves, those of `path` in front of a relative one. -/
def partsOf (path : List (List Nat)) (input : List Nat) : List (List Nat) :=
  (if input ≠ [] ∧ input.head? ≠ some slash then path.dropLast else []) ++
    (input.splitOn slash).map fun part => (decodeURIComponent part).getD []

/-- The parts of `url_root`. -/
def rootParts : List (List Nat) :=
  if urlRoot = [] then []
  else (urlRoot.splitOn slash).map fun part => (decodeURIComponent part).getD []

/-- The path without the parts of `url_root` in front. -/
def belowRoot (parts : List (List Nat)) : List (List Nat) :=
  if (rootParts urlRoot).isPrefixOf parts then parts.drop (rootParts urlRoot).length else parts

variable {urlRoot input : List Nat}

theorem mem_belowRoot {part : List Nat} (h : part ∈ belowRoot urlRoot parts) : part ∈ parts := by
  rw [belowRoot] at h
  split at h
  · exact mem_of_mem_drop h
  · exact h

/-- The parts of what can be read. -/
theorem mapM_splitOn {s : List Nat} (h : (decodeURIComponent s).isSome) :
    (s.splitOn slash).mapM decodeURIComponent =
      some ((s.splitOn slash).map fun part => (decodeURIComponent part).getD []) := by
  have hsome := (decode_splitOn (c := slash) (by decide) (by decide) s).mpr h
  rw [mapM_isSome_iff] at hsome
  rw [mapM_eq_some_iff, forall₂_map_right_iff, forall₂_same]
  intro part hpart
  obtain ⟨value, hvalue⟩ := isSome_iff_exists.mp (hsome part hpart)
  rw [hvalue]
  rfl

/-- **When a path is decoded**, one that can be read. -/
theorem decodePath_eq (urlRoot : List Nat) (path : List (List Nat))
    (hinput : (decodeURIComponent input).isSome) :
    decodePath urlRoot path input =
      if (decodeURIComponent urlRoot).isSome = true ∧ climb (partsOf path input) = 0 then
        some (belowRoot urlRoot (kept (partsOf path input)))
      else none := by
  have hres : (if input ≠ [] ∧ input.head? ≠ some slash then
        path.dropLast ++ (input.splitOn slash).map fun part =>
          (decodeURIComponent part).getD []
      else (input.splitOn slash).map fun part => (decodeURIComponent part).getD []) =
      partsOf path input := by
    rw [partsOf]
    split <;> rfl
  simp only [decodePath]
  rw [mapM_splitOn hinput]
  simp only [bind_eq_bind, bind_some, hres, resolvePathDots_eq]
  by_cases hnil : urlRoot = []
  · have hroot : (decodeURIComponent urlRoot).isSome := by
      rw [hnil, decode_nil]
      rfl
    by_cases hclimb : climb (partsOf path input) = 0
    · rw [if_pos hnil, if_pos hclimb, if_pos ⟨hroot, hclimb⟩, belowRoot, rootParts, if_pos hnil]
      rfl
    · rw [if_pos hnil, if_neg hclimb, if_neg fun h => hclimb h.2]
      rfl
  rw [if_neg hnil]
  by_cases hroot : (decodeURIComponent urlRoot).isSome
  · rw [mapM_splitOn hroot, bind_some]
    by_cases hclimb : climb (partsOf path input) = 0
    · rw [if_pos hclimb, if_pos ⟨hroot, hclimb⟩, belowRoot, rootParts, if_neg hnil]
      rfl
    · rw [if_neg hclimb, if_neg fun h => hclimb h.2]
      rfl
  have hnone : (urlRoot.splitOn slash).mapM decodeURIComponent = none := by
    rw [← not_isSome_iff_eq_none, decode_splitOn (by decide) (by decide)]
    exact hroot
  have hnot : ¬ ((decodeURIComponent urlRoot).isSome ∧
      climb (partsOf path input) = 0) := fun h => hroot h.1
  rw [hnone, if_neg hnot]
  rfl

theorem decodePath_ordinary {path out : List (List Nat)}
    (hinput : (decodeURIComponent input).isSome)
    (h : decodePath urlRoot path input = some out) : ∀ part ∈ out, Ordinary part := by
  rw [decodePath_eq urlRoot path hinput] at h
  split at h
  · cases h
    exact fun part hpart => ordinary_of_mem_kept part (mem_belowRoot hpart)
  · cases h

variable (href : List Nat)

/-- The fragment without the `#` in front. -/
def withoutMark : List Nat :=
  match href with
  | 0x23 :: rest => rest
  | _ => href

/-- `first` in `decode` -/
def firstOf : List Nat := (withoutMark href).takeWhile (· ≠ 0x3F)

/-- The names and values behind the `?`. -/
def queryOf : List (List Nat × List Nat) :=
  match (withoutMark href).dropWhile (· ≠ 0x3F) with
  | [] => []
  | _ :: query => ((query.splitOn 0x26).mapM readOption).getD []

theorem isSome_append_iff {c : Nat} (hc : hexValue c = none) (hne : c ≠ 0x25) (s t : List Nat) :
    (decodeURIComponent (s ++ c :: t)).isSome ↔
      (decodeURIComponent s).isSome ∧ (decodeURIComponent t).isSome := by
  rw [decode_append hc hne]
  cases decodeURIComponent s with
  | none => simp
  | some x => cases decodeURIComponent t <;> simp

variable {href : List Nat}

theorem withoutMark_isSome (h : (decodeURIComponent href).isSome) :
    (decodeURIComponent (withoutMark href)).isSome := by
  unfold withoutMark
  split
  · rename_i rest
    have happ : (0x23 :: rest : List Nat) = [] ++ 0x23 :: rest := rfl
    rw [happ, isSome_append_iff (by decide) (by decide)] at h
    exact h.2
  · exact h

/-- A name and a value can be read when both are fine; `undefined` always is. -/
theorem readOption_isSome {opt : List Nat} (h : (decodeURIComponent opt).isSome) :
    (readOption opt).isSome := by
  have hparts := (decode_splitOn (c := 0x3D) (by decide) (by decide) opt).mpr h
  rw [mapM_isSome_iff] at hparts
  have hget : ∀ (i : Nat) (other : List Nat), (decodeURIComponent other).isSome →
      (decodeURIComponent ((opt.splitOn 0x3D)[i]?.getD other)).isSome := by
    intro i other hother
    cases hi : (opt.splitOn 0x3D)[i]? with
    | none => exact hother
    | some part => exact hparts part (mem_of_getElem? hi)
  have hname := hget 0 [] (by rw [decode_nil]; rfl)
  have hundef : (decodeURIComponent (units "undefined")).isSome := by
    simp [units, decode_plain, decode_nil]
  have hvalue := hget 1 (units "undefined") hundef
  obtain ⟨name, hname⟩ := isSome_iff_exists.mp hname
  obtain ⟨value, hvalue⟩ := isSome_iff_exists.mp hvalue
  rw [readOption, hname, hvalue]
  rfl

/-- What is in front of the `?` and what is behind it. -/
theorem decode_eq (urlRoot : List Nat) (path : List (List Nat))
    (options : Options) (hvalid : (decodeURIComponent href).isSome) :
    (decodeURIComponent (firstOf href)).isSome ∧
      decode urlRoot path href options = (decodePath urlRoot path (firstOf href)).bind fun path =>
        (addOptions options (queryOf href)).map fun out => (path, out) := by
  have hrest := withoutMark_isSome hvalid
  have hdecode : decode urlRoot path href options =
      (decodePath urlRoot path (firstOf href)).bind fun path =>
        match (withoutMark href).dropWhile (· ≠ 0x3F) with
        | [] => some (path, options)
        | _ :: query => ((query.splitOn 0x26).mapM readOption).bind fun read =>
          (addOptions options read).bind fun options => some (path, options) := rfl
  have hsplit := takeWhile_append_dropWhile (p := (· ≠ 0x3F)) (l := withoutMark href)
  rw [hdecode, queryOf]
  cases hquery : (withoutMark href).dropWhile (· ≠ 0x3F) with
  | nil =>
    rw [hquery, append_nil] at hsplit
    refine ⟨?_, rfl⟩
    rw [firstOf, hsplit]
    exact hrest
  | cons mark query =>
    have hmark : mark = 0x3F := by
      have := head?_dropWhile_not (fun c => decide (c ≠ 0x3F)) (withoutMark href)
      rw [hquery] at this
      simpa using this
    rw [hquery, hmark] at hsplit
    rw [← hsplit, isSome_append_iff (by decide) (by decide)] at hrest
    have hread : ((query.splitOn 0x26).mapM readOption).isSome := by
      rw [mapM_isSome_iff]
      have hopts := (decode_splitOn (c := 0x26) (by decide) (by decide) query).mpr hrest.2
      rw [mapM_isSome_iff] at hopts
      exact fun opt hopt => readOption_isSome (hopts opt hopt)
    obtain ⟨read, hread⟩ := isSome_iff_exists.mp hread
    refine ⟨hrest.1, ?_⟩
    simp only [hread, bind_some, getD_some]
    congr 1
    funext path
    cases addOptions options read <;> rfl

/-! ### When nothing throws -/

theorem encode_isSome_iff (urlRoot : List Nat) (path : List (List Nat))
    (options : List (List Nat × Given)) (withRoot : Bool) :
    (encode urlRoot path options withRoot).isSome ↔ (∀ part ∈ path, Utf16.WellFormed part) ∧
        ∀ pair ∈ pairs options, Utf16.WellFormed pair.1 ∧ Utf16.WellFormed pair.2 := by
  have hpath : (encodePath urlRoot path withRoot).isSome ↔
      ∀ part ∈ path, Utf16.WellFormed part := by
    rw [← forall₂_congr fun part _ => encodeURIComponent_isSome_iff part, ← mapM_isSome_iff,
      encodePath]
    cases path.mapM encodeURIComponent <;> simp
  rw [← hpath, ← mapM_pushOption_isSome_iff, encode]
  cases encodePath urlRoot path withRoot with
  | none => simp
  | some href =>
    cases (pairs options).mapM fun pair => pushOption pair.1 pair.2 <;> simp

/-- A path of ordinary parts and some options. -/
def Clean (result : Option (List (List Nat) × Options)) : Prop :=
  ∃ path options, result = some (path, options) ∧ ∀ part ∈ path, Ordinary part

theorem clean_decode_iff (urlRoot : List Nat) (path : List (List Nat))
    (options : Options) (hvalid : (decodeURIComponent href).isSome) :
    Clean (decode urlRoot path href options) ↔
      (decodeURIComponent urlRoot).isSome ∧ climb (partsOf path (firstOf href)) = 0 ∧
        (queryOf href = [] ∨ (hidden options = false ∧ MethodLast (queryOf href))) := by
  obtain ⟨hfirst, hdecode⟩ := decode_eq urlRoot path options hvalid
  rw [← addOptions_isSome_iff, ← and_assoc]
  constructor
  · rintro ⟨out, options', hout, -⟩
    rw [hdecode, bind_eq_some_iff] at hout
    obtain ⟨parts, hparts, hadd⟩ := hout
    rw [decodePath_eq urlRoot path hfirst] at hparts
    split at hparts
    · rename_i hpath
      obtain ⟨options', hopts, -⟩ := map_eq_some_iff.mp hadd
      exact ⟨hpath, by rw [hopts]; rfl⟩
    · cases hparts
  rintro ⟨hpath, hadd⟩
  obtain ⟨options', hopts⟩ := isSome_iff_exists.mp hadd
  have hparts := decodePath_eq urlRoot path hfirst
  rw [if_pos hpath] at hparts
  refine ⟨_, options', ?_, decodePath_ordinary hfirst hparts⟩
  rw [hdecode, hparts, hopts]
  rfl

/-- **When nothing throws**: nothing leads above the root, `url_root` can be read, no value comes
    behind one for "hasOwnProperty", and what is encoded again is well formed. -/
theorem total_iff (root application : List Nat) (current : List (List Nat)) {hash : List Nat}
    (hvalid : (decodeURIComponent hash).isSome = true) (options : Options)
    (given : List (List Nat × Given)) (withRoot : Bool) :
    (Clean (construct (selfUrlRoot root application) hash) ↔
      (decodeURIComponent (selfUrlRoot root application)).isSome = true ∧
        climb (partsOf [] (firstOf hash)) = 0 ∧ MethodLast (queryOf hash)) ∧
    (Clean (decode (selfUrlRoot root application) current hash options) ↔
      (decodeURIComponent (selfUrlRoot root application)).isSome = true ∧
        climb (partsOf current (firstOf hash)) = 0 ∧
        (queryOf hash = [] ∨ (hidden options = false ∧ MethodLast (queryOf hash)))) ∧
    ((encodeString (selfUrlRoot root application) current hash given withRoot).isSome = true ↔
      (decodeURIComponent (selfUrlRoot root application)).isSome = true ∧
        climb (partsOf current hash) = 0 ∧
        (∀ part ∈ belowRoot (selfUrlRoot root application) (kept (partsOf current hash)),
          Utf16.WellFormed part) ∧
        ∀ pair ∈ pairs given, Utf16.WellFormed pair.1 ∧ Utf16.WellFormed pair.2) := by
  refine ⟨?_, clean_decode_iff _ _ _ hvalid, ?_⟩
  · have hempty : hidden [] = false := rfl
    rw [construct, clean_decode_iff _ _ _ hvalid, hempty]
    by_cases hnil : queryOf hash = []
    · simp [hnil, MethodLast]
    · simp [hnil]
  rw [← and_assoc, ← encode_isSome_iff (selfUrlRoot root application) _ given withRoot,
    encodeString, decodePath_eq _ current hvalid]
  split
  all_goals
    rename_i hpath
    simp [hpath]

/-- `#/..` -/
def above : List Nat := units "#/.."

theorem above_valid : (decodeURIComponent above).isSome := by
  simp [above, units, decode_plain, decode_nil]

/-- There is nothing above the root. -/
theorem above_throws : (decodeURIComponent above).isSome = true ∧
    ¬ Clean (construct (selfUrlRoot [] (units "cockpit")) above) := by
  refine ⟨above_valid, ?_⟩
  rw [construct, clean_decode_iff _ _ _ above_valid]
  rintro ⟨-, hclimb, -⟩
  have hsplit : ([0x2F, 0x2E, 0x2E] : List Nat).splitOn slash = [[], [0x2E, 0x2E]] := by decide
  have hfirst : firstOf above = [0x2F, 0x2E, 0x2E] := by decide
  have hparts : partsOf [] (firstOf above) = [[], units ".."] := by
    rw [partsOf, hfirst, hsplit]
    simp [slash, units, decode_plain, decode_nil]
  rw [hparts] at hclimb
  exact nomatch hclimb

/-- `#/a/../b` -/
def below : List Nat := units "#/a/../b"

theorem total_below : Clean (construct (selfUrlRoot [] (units "cockpit")) below) := by
  have hvalid : (decodeURIComponent below).isSome := by
    simp [below, units, decode_plain, decode_nil]
  refine (total_iff [] (units "cockpit") [] hvalid [] [] false).1.mpr ⟨?_, ?_, ?_⟩
  · have hroot : selfUrlRoot [] (units "cockpit") = [] := by decide
    rw [hroot, decode_nil]
    rfl
  · have hsplit : (units "/a/../b").splitOn slash = [[], [0x61], [0x2E, 0x2E], [0x62]] := by decide
    have hfirst : firstOf below = units "/a/../b" := by decide
    have hparts : partsOf [] (firstOf below) = [[], [0x61], [0x2E, 0x2E], [0x62]] := by
      rw [partsOf, hfirst, hsplit]
      simp [slash, units, decode_plain, decode_nil]
    rw [hparts]
    decide
  have hquery : queryOf below = [] := by
    have hdrop : (withoutMark below).dropWhile (· ≠ 0x3F) = [] := by decide
    rw [queryOf, hdrop]
  rw [hquery]
  rintro (_ | ⟨p, before⟩) pair after hcons <;> cases hcons

end Cockpit.Page.Location
