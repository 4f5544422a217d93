import Cockpit.Common.GLib

namespace Cockpit

/-!
# `src/bridge/cockpitpaths.c`

Sets of D-Bus paths.  The `GTree` of the source is ordered by `tree_path_cmp`, which is zero
for equal paths only, so a lookup finds a path exactly when it was added; here it is a list.

`Paths.containOrAncestor` tries the path and then shorter and shorter parts of it, where
`Paths.equalOrAncestor` tests one candidate; `Paths.containOrAncestor_iff` says that they
agree, for sets without the root and the empty path.
-/

/-- The byte `/`. -/
def slash : UInt8 := 47

/-- The path `/`. -/
def rootPath : CStr := ⟨[slash], by decide⟩

namespace Paths

/-- A byte of an element of an object path. -/
def isPathByte (b : UInt8) : Bool :=
  (65 ≤ b && b ≤ 90) || (97 ≤ b && b ≤ 122) || (48 ≤ b && b ≤ 57) || b == 95

/-- The elements of an object path, behind the byte `prev`: none is empty, and a `/` is between
    them. -/
def isObjectPathLoop (prev : UInt8) : Bytes → Bool
  | [] => prev != slash
  | b :: rest =>
    (isPathByte b || (b == slash && prev != slash)) && isObjectPathLoop b rest

/-- `g_variant_is_object_path` -/
def isObjectPath (path : CStr) : Bool :=
  match path.bytes with
  | [] => false
  | b :: rest => b == slash && (rest.isEmpty || isObjectPathLoop b rest)

/-- `cockpit_path_equal_or_ancestor` -/
def equalOrAncestor (path ancestor : CStr) : Bool :=
  if ancestor = rootPath then true
  else
    ancestor.bytes.isPrefixOf path.bytes &&
      match path.bytes[ancestor.bytes.length]? with
      | none => true
      | some b => b == slash

variable (tree : List CStr)

/-- `cockpit_paths_add` -/
def add (path : CStr) : List CStr := if path ∈ tree then tree else path :: tree

/-- `memrchr (path, '/', len)`, as an offset. -/
def memrchr (path : Bytes) : Nat → Option Nat
  | 0 => none
  | n + 1 => if path[n]? = some slash then some n else memrchr path n

variable {path : Bytes} {len : Nat}

/-- The slash found is the last one. -/
theorem memrchr_some {pos : Nat} (h : memrchr path len = some pos) :
    pos < len ∧ path[pos]? = some slash ∧ ∀ i, pos < i → i < len → path[i]? ≠ some slash := by
  induction len with
  | zero => exact absurd h (by simp [memrchr])
  | succ n ih =>
    unfold memrchr at h
    split at h
    · rename_i hslash
      obtain rfl : n = pos := by simpa using h
      exact ⟨Nat.lt_succ_self n, hslash, fun i hi hi' => absurd hi' (by omega)⟩
    rename_i hslash
    obtain ⟨hlt, hpos, hlast⟩ := ih h
    refine ⟨by omega, hpos, fun i hi hi' => ?_⟩
    rcases Nat.lt_or_eq_of_le (Nat.le_of_lt_succ hi') with hi' | rfl
    · exact hlast i hi hi'
    · exact hslash

/-- Where none is found there is none. -/
theorem memrchr_none (h : memrchr path len = none) :
    ∀ i < len, path[i]? ≠ some slash := by
  induction len with
  | zero => exact fun i hi => absurd hi (Nat.not_lt_zero i)
  | succ n ih =>
    unfold memrchr at h
    split at h
    · exact nomatch h
    rename_i hslash
    intro i hi
    rcases Nat.lt_or_eq_of_le (Nat.le_of_lt_succ hi) with hi | rfl
    · exact ih h i hi
    · exact hslash

/-- `g_tree_lookup` of the first `len` bytes. -/
def lookup (path : Bytes) (len : Nat) : Bool :=
  tree.any (fun p => p.bytes == path.take len)

/-- The loop of `cockpit_paths_contain_or_ancestor`, with `key.len` and before `last` is set. -/
def containOrAncestorLoop (tree : List CStr) (path : Bytes) (len : Nat) : Bool :=
  if lookup tree path len then true
  else
    match _h : memrchr path len with
    | none => false
    | some 0 => lookup tree path 1
    | some (pos + 1) => containOrAncestorLoop tree path (pos + 1)
  termination_by len
  decreasing_by exact (memrchr_some _h).1

/-- `cockpit_paths_contain_or_ancestor` -/
def containOrAncestor (path : CStr) : Bool :=
  containOrAncestorLoop tree path.bytes path.bytes.length

/-- The same loop, with the path that it finds. -/
def foundOrAncestorLoop (tree : List CStr) (path : Bytes) (len : Nat) : Option CStr :=
  match tree.find? (fun p => p.bytes == path.take len) with
  | some p => some p
  | none =>
    match _h : memrchr path len with
    | none => none
    | some 0 => tree.find? (fun p => p.bytes == path.take 1)
    | some (pos + 1) => foundOrAncestorLoop tree path (pos + 1)
  termination_by len
  decreasing_by exact (memrchr_some _h).1

/-- `cockpit_paths_contain_or_ancestor`, for callers that use the path. -/
def foundOrAncestor (path : CStr) : Option CStr :=
  foundOrAncestorLoop tree path.bytes path.bytes.length

/-- `cockpit_path_has_parent` -/
def hasParent (path parent : CStr) : Bool :=
  if parent = rootPath ∧ path ≠ CStr.empty then !(path.bytes.drop 1).contains slash
  else if parent.bytes.isPrefixOf path.bytes && path.bytes[parent.bytes.length]? == some slash then
    !(path.bytes.drop (parent.bytes.length + 1)).contains slash
  else false

/-- `cockpit_path_has_ancestor` -/
def hasAncestor (path ancestor : CStr) : Bool :=
  if ancestor = rootPath then true
  else ancestor.bytes.isPrefixOf path.bytes && path.bytes[ancestor.bytes.length]? == some slash

/-! ### The loop finds the ancestors -/

theorem lookup_iff (path : Bytes) (len : Nat) :
    lookup tree path len ↔ ∃ p ∈ tree, p.bytes = path.take len := by
  simp [lookup]

variable {tree : List CStr}

/-- What the loop looks up, for a tree without the root: the first `len` bytes, and the bytes
    before every slash but the one in front. -/
theorem containOrAncestorLoop_iff (hroot : rootPath ∉ tree) (path : Bytes) (len : Nat) :
    containOrAncestorLoop tree path len ↔ lookup tree path len ∨
        ∃ i < len, 0 < i ∧ path[i]? = some slash ∧ lookup tree path i := by
  induction len using containOrAncestorLoop.induct tree path with
  | case1 len h =>
    rw [containOrAncestorLoop, if_pos h]
    exact ⟨fun _ => .inl h, fun _ => rfl⟩
  | case2 len h hnone =>
    rw [containOrAncestorLoop, if_neg h]
    split
    · refine ⟨fun hf => absurd hf Bool.false_ne_true, ?_⟩
      rintro (hl | ⟨i, hi, -, hslash, -⟩)
      · exact absurd hl h
      · exact absurd hslash (memrchr_none hnone i hi)
    · rename_i heq
      rw [hnone] at heq
      exact nomatch heq
    · rename_i heq
      rw [hnone] at heq
      exact nomatch heq
  | case3 len h hzero =>
    obtain ⟨-, hslash0, hlast⟩ := memrchr_some hzero
    -- the slash in front leads to the root, which is not there
    have hno : lookup tree path 1 = false := by
      by_contra hl
      rw [Bool.not_eq_false, lookup_iff] at hl
      obtain ⟨p, hp, heq⟩ := hl
      have hpath : path.take 1 = [slash] := by
        cases path with
        | nil => exact nomatch hslash0
        | cons b rest => simpa using hslash0
      have : p = rootPath := CStr.ext (heq.trans hpath)
      exact hroot (this ▸ hp)
    rw [containOrAncestorLoop, if_neg h]
    split
    · rename_i heq
      rw [hzero] at heq
      exact absurd heq (by simp)
    · rw [hno]
      refine ⟨fun hf => absurd hf Bool.false_ne_true, ?_⟩
      rintro (hl | ⟨i, hi, hpos, hslash, -⟩)
      · exact absurd hl h
      · exact absurd hslash (hlast i hpos hi)
    · rename_i heq
      rw [hzero] at heq
      exact nomatch heq
  | case4 len h pos hpos ih =>
    obtain ⟨hlt, hslash, hlast⟩ := memrchr_some hpos
    rw [containOrAncestorLoop, if_neg h]
    split
    · rename_i heq
      rw [hpos] at heq
      exact nomatch heq
    · rename_i heq
      rw [hpos] at heq
      exact nomatch heq
    rename_i pos' heq
    obtain rfl : pos = pos' := by simpa [hpos] using heq
    rw [ih]
    constructor
    · rintro (hl | ⟨i, hi, hi0, hs, hl⟩)
      · exact .inr ⟨pos + 1, hlt, by omega, hslash, hl⟩
      · exact .inr ⟨i, by omega, hi0, hs, hl⟩
    rintro (hl | ⟨i, hi, hi0, hs, hl⟩)
    · exact absurd hl h
    rcases Nat.lt_trichotomy i (pos + 1) with hlt' | rfl | hgt
    · exact .inr ⟨i, hlt', hi0, hs, hl⟩
    · exact .inl hl
    · exact absurd hs (hlast i hgt hi)

/-- **The loop agrees with the test of one ancestor**, unless the root or the empty path is in
    the set. -/
theorem containOrAncestor_iff (hroot : rootPath ∉ tree) (hempty : CStr.empty ∉ tree) (path : CStr) :
    containOrAncestor tree path ↔ ∃ p ∈ tree, equalOrAncestor path p := by
  unfold containOrAncestor
  rw [containOrAncestorLoop_iff hroot]
  constructor
  · rintro (hl | ⟨i, hi, hi0, hs, hl⟩)
    · obtain ⟨p, hp, heq⟩ := (lookup_iff _ _ _).mp hl
      rw [List.take_length] at heq
      refine ⟨p, hp, ?_⟩
      unfold equalOrAncestor
      split
      · rfl
      · simp [heq]
    obtain ⟨p, hp, heq⟩ := (lookup_iff _ _ _).mp hl
    have hlen : p.bytes.length = i := by rw [heq, List.length_take]; omega
    refine ⟨p, hp, ?_⟩
    unfold equalOrAncestor
    split
    · rfl
    · rw [hlen, hs]
      simp [heq, List.take_prefix]
  rintro ⟨p, hp, heq⟩
  have hne : p ≠ rootPath := by
    rintro rfl
    exact hroot hp
  unfold equalOrAncestor at heq
  rw [if_neg hne, Bool.and_eq_true, List.isPrefixOf_iff_prefix] at heq
  obtain ⟨hpre, hnext⟩ := heq
  have htake : p.bytes = path.bytes.take p.bytes.length := List.prefix_iff_eq_take.mp hpre
  cases hb : path.bytes[p.bytes.length]? with
  | none =>
    rw [List.getElem?_eq_none_iff] at hb
    have hlen : p.bytes.length = path.bytes.length := Nat.le_antisymm hpre.length_le hb
    exact .inl ((lookup_iff _ _ _).mpr ⟨p, hp, by rw [← hlen]; exact htake⟩)
  | some b =>
    rw [hb] at hnext
    have hslash : b = slash := by simpa using hnext
    have hpos : 0 < p.bytes.length := by
      rw [List.length_pos_iff]
      intro hnil
      exact hempty ((CStr.ext hnil : p = CStr.empty) ▸ hp)
    have hlt : p.bytes.length < path.bytes.length := by
      by_contra hge
      rw [List.getElem?_eq_none_iff.mpr (by omega)] at hb
      exact nomatch hb
    exact .inr ⟨p.bytes.length, hlt, hpos, by rw [hb, hslash],
      (lookup_iff _ _ _).mpr ⟨p, hp, htake⟩⟩

end Paths

end Cockpit
