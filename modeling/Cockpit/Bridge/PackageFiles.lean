import Cockpit.Bridge.Paths

namespace Cockpit.Bundle

open List Option

/-!
# The files of a package (`src/bridge/cockpitpackages.c`)

Walking through a directory, and reading a file below it.  A directory is what the operating
system shows of it, links followed; its names are distinct.  A file name in a walk is relative to
the directory where the walk started.

* `walkDirectory` — the files of a directory in the order in which they are seen;
* `Entries.read_eq` — a walk that comes to its end sees what can be read under a valid path.
-/

/-- The bytes that `validate_path` allows. -/
def pathByte (b : UInt8) : Bool :=
  65 ≤ b && b ≤ 90 || 97 ≤ b && b ≤ 122 || 48 ≤ b && b ≤ 57 ||
    b == 45 || b == 95 || b == 46 || b == 44 || b == slash

/-- `validate_path` -/
def validatePath (path : Bytes) : Bool := path != [] && path.all pathByte

/-- A name in a directory. -/
structure FileName where
  bytes : Bytes
  nonempty : bytes ≠ []
  noNul : (0 : UInt8) ∉ bytes
  noSlash : slash ∉ bytes
  /-- Neither `.` nor `..`. -/
  noDots : bytes ≠ [46] ∧ bytes ≠ [46, 46]

theorem FileName.ext {a b : FileName} (h : a.bytes = b.bytes) : a = b := by
  cases a
  cases b
  simpa using h

instance : DecidableEq FileName := fun _ _ =>
  decidable_of_iff _ ⟨FileName.ext, congrArg FileName.bytes⟩

mutual

/-- A file or a directory, or one that cannot be opened. -/
inductive Node where
  | file (content : Bytes)
  | unreadable
  | dir (entries : Entries)
  | closed

inductive Entries where
  | nil
  | cons (name : FileName) (node : Node) (rest : Entries)

end

/-- What a walk went through: names and contents; and whether it came to its end. -/
structure Walk where
  files : List (Bytes × Bytes)
  ok : Bool

/-- One walk after another, unless the first one fails. -/
def Walk.andThen (w v : Walk) : Walk := if w.ok then ⟨w.files ++ v.files, v.ok⟩ else w

/-- The walks through the entries of a directory, in the order of `directory_filenames`. -/
def walkSorted (walks : List (FileName × Walk)) : Walk :=
  ((walks.insertionSort fun a b => a.1.bytes ≤ b.1.bytes).map Prod.snd).foldr Walk.andThen ⟨[], true⟩

/-- What stands before the names in a directory. -/
def lead : Option Bytes → Bytes
  | none => []
  | some directory => directory ++ [slash]

/-- `g_build_filename (directory, name)` -/
def below (directory : Option Bytes) (name : Bytes) : Bytes := lead directory ++ name

mutual

/-- `package_walk_file` -/
def Node.walkFile (filename : Bytes) : Node → Walk
  | .file content =>
    if validatePath filename then ⟨[(filename, content)], true⟩ else ⟨[], true⟩
  | .unreadable => ⟨[], !validatePath filename⟩
  | .dir entries =>
    if validatePath filename then walkSorted (entries.walks (some filename)) else ⟨[], true⟩
  | .closed => ⟨[], !validatePath filename⟩

/-- The calls of `package_walk_file` for the entries of a directory. -/
def Entries.walks (directory : Option Bytes) : Entries → List (FileName × Walk)
  | .nil => []
  | .cons name node rest =>
    (name, node.walkFile (below directory name.bytes)) :: rest.walks directory

end

/-- `package_walk_directory` for a base directory. -/
def walkDirectory : Node → Walk
  | .dir entries => walkSorted (entries.walks none)
  | _ => ⟨[], false⟩

/-! ### Reading -/

/-- The entry with a name. -/
def Entries.find : Entries → Bytes → Option Node
  | .nil, _ => none
  | .cons name node rest, key => if name.bytes = key then some node else rest.find key

/-- What is read at the components of a path: nothing under a file, and nothing in a directory. -/
def Node.read : Node → List Bytes → Option Bytes
  | .file content, [] => some content
  | .dir entries, key :: rest =>
    if key = [] ∨ key = [46] then Node.read (.dir entries) rest
    else match entries.find key with
      | some node => node.read rest
      | none => none
  | _, _ => none

/-- The components of a path. -/
def components (path : Bytes) : List Bytes := path.splitOn slash

mutual

/-- The names in a directory are distinct. -/
def Node.Distinct : Node → Prop
  | .dir entries => entries.Distinct
  | _ => True

def Entries.Distinct : Entries → Prop
  | .nil => True
  | .cons name node rest => rest.find name.bytes = none ∧ node.Distinct ∧ rest.Distinct

end

/-- The file name that the components of a path come to, if they can be those of a file. -/
def normalize (directory : Option Bytes) : List Bytes → Option Bytes
  | [] => none
  | [key] => if key = [] ∨ key = [46] then none else some (below directory key)
  | key :: rest =>
    if key = [] ∨ key = [46] then normalize directory rest
    else normalize (some (below directory key)) rest

variable {key : Bytes}

section

variable (directory : Option Bytes)

theorem normalize_singleton
    (h : ¬ (key = [] ∨ key = [46])) : normalize directory [key] = some (below directory key) := by
  rw [normalize, if_neg h]

theorem normalize_cons (h : ¬ (key = [] ∨ key = [46]))
    (next : Bytes) (rest : List Bytes) : normalize directory (key :: next :: rest) =
      normalize (some (below directory key)) (next :: rest) := by
  rw [normalize, if_neg h]
  simp

theorem normalize_skip (h : key = [] ∨ key = [46])
    (next : Bytes) (rest : List Bytes) : normalize directory (key :: next :: rest) =
      normalize directory (next :: rest) := by
  rw [normalize, if_pos h]
  simp

end

/-! ### Names below a name -/

/-- A name, or one below it. -/
def Under (name f : Bytes) : Prop := ∃ rest, f = name ++ rest ∧ (rest = [] ∨ rest.head? = some slash)

theorem Under.refl (name : Bytes) : Under name name := ⟨[], by simp, .inl rfl⟩

variable {f name : Bytes}

theorem Under.of_below {directory : Bytes} (h : Under (below (some directory) name) f) :
    Under directory f := by
  obtain ⟨rest, rfl, -⟩ := h
  exact ⟨slash :: (name ++ rest), by simp [below, lead], .inr rfl⟩

/-- Nothing below a directory is the directory itself. -/
theorem Under.ne_of_below {directory : Bytes} (h : Under (below (some directory) name) f) :
    f ≠ directory := by
  obtain ⟨rest, rfl, -⟩ := h
  intro heq
  have hlen := congrArg List.length heq
  simp only [below, lead, List.length_append, length_cons, length_nil] at hlen
  omega

variable {directory : Option Bytes}

/-- A name is below one entry of a directory only. -/
theorem Under.unique {a b : Bytes} (ha : slash ∉ a) (hb : slash ∉ b)
    (h : Under (below directory a) f) (h' : Under (below directory b) f) : a = b := by
  obtain ⟨rest, rfl, hrest⟩ := h
  obtain ⟨rest', heq, hrest'⟩ := h'
  have hsame : a ++ rest = b ++ rest' := by
    unfold below at heq
    rw [append_assoc, append_assoc] at heq
    exact append_cancel_left heq
  have htake : ∀ {c tail}, slash ∉ c → (tail = [] ∨ tail.head? = some slash) →
      (c ++ tail).takeWhile (· ≠ slash) = c := by
    intro c tail hc htail
    rw [takeWhile_append_of_pos (by
      intro x hx
      have hne : x ≠ slash := fun heq => hc (heq ▸ hx)
      simpa using hne)]
    rcases htail with rfl | htail
    · simp
    cases tail with
    | nil => simp
    | cons x tail =>
      have hx : x = slash := by simpa using htail
      simp [hx]
  rw [← htake ha hrest, hsame, htake hb hrest']

/-! ### Walks -/

/-- A walk that comes to its end went through everything. -/
theorem walk_ok {walks : List Walk} (h : (walks.foldr Walk.andThen ⟨[], true⟩).ok) :
    (∀ w ∈ walks, w.ok) ∧
      (walks.foldr Walk.andThen ⟨[], true⟩).files = walks.flatMap Walk.files := by
  induction walks with
  | nil => exact ⟨by simp, rfl⟩
  | cons w walks ih =>
    rw [foldr_cons, Walk.andThen] at h ⊢
    split at h
    · rename_i hw
      obtain ⟨hall, hfiles⟩ := ih h
      rw [if_pos hw, hfiles]
      refine ⟨?_, rfl⟩
      intro v hv
      rcases mem_cons.mp hv with rfl | hv
      · exact hw
      · exact hall v hv
    · rename_i hw
      exact absurd h hw

variable {file : Bytes × Bytes}

/-- What a walk goes through, one of its parts goes through. -/
theorem mem_walk {walks : List Walk}
    (h : file ∈ (walks.foldr Walk.andThen ⟨[], true⟩).files) : ∃ w ∈ walks, file ∈ w.files := by
  induction walks with
  | nil => exact nomatch h
  | cons w walks ih =>
    rw [foldr_cons, Walk.andThen] at h
    split at h
    · rcases mem_append.mp h with hfirst | hrest
      · exact ⟨w, mem_cons_self, hfirst⟩
      · obtain ⟨v, hv, hfile⟩ := ih hrest
        exact ⟨v, mem_cons_of_mem w hv, hfile⟩
    · exact ⟨w, mem_cons_self, h⟩

variable {walks : List (FileName × Walk)}

theorem mem_walkSorted
    (h : file ∈ (walkSorted walks).files) : ∃ x ∈ walks, file ∈ x.2.files := by
  obtain ⟨w, hw, hfile⟩ := mem_walk h
  obtain ⟨x, hx, rfl⟩ := mem_map.mp hw
  exact ⟨x, (mem_insertionSort _).mp hx, hfile⟩

mutual

/-- A walk only sees what is at its name or below it, and skips files with an invalid name. -/
theorem Node.walkFile_under (filename : Bytes) : ∀ (node : Node),
    ∀ file ∈ (node.walkFile filename).files, Under filename file.1 ∧ validatePath file.1
  | .file content => by
    intro file hfile
    unfold Node.walkFile at hfile
    split at hfile
    · rename_i hvalid
      obtain rfl : file = (filename, content) := by simpa using hfile
      exact ⟨Under.refl filename, hvalid⟩
    · exact nomatch hfile
  | .unreadable => by
    intro file hfile
    exact nomatch hfile
  | .dir entries => by
    intro file hfile
    unfold Node.walkFile at hfile
    split at hfile
    · obtain ⟨x, hx, hfile⟩ := mem_walkSorted hfile
      obtain ⟨hunder, hvalid⟩ := Entries.walks_under (some filename) entries x hx file hfile
      exact ⟨hunder.of_below, hvalid⟩
    · exact nomatch hfile
  | .closed => by
    intro file hfile
    exact nomatch hfile

theorem Entries.walks_under (directory : Option Bytes) : ∀ (entries : Entries),
    ∀ x ∈ entries.walks directory, ∀ file ∈ x.2.files,
      Under (below directory x.1.bytes) file.1 ∧ validatePath file.1
  | .nil => by
    intro x hx
    exact nomatch hx
  | .cons name node rest => by
    intro x hx file hfile
    rcases mem_cons.mp hx with rfl | hx
    · exact Node.walkFile_under (below directory name.bytes) node file hfile
    · exact Entries.walks_under directory rest x hx file hfile

end

variable {node : Node}

/-- What is found under a name is walked through under that name. -/
theorem Entries.mem_walks (directory : Option Bytes) {entries : Entries}
    (h : entries.find key = some node) :
    ∃ name : FileName, name.bytes = key ∧
      (name, node.walkFile (below directory key)) ∈ entries.walks directory := by
  match entries with
  | .nil => exact nomatch h
  | .cons name first rest =>
    unfold Entries.find at h
    split at h
    · rename_i hname
      obtain rfl := some.inj h
      subst hname
      exact ⟨name, rfl, mem_cons_self⟩
    obtain ⟨other, hother, hmem⟩ : ∃ other : FileName, other.bytes = key ∧
        (other, node.walkFile (below directory key)) ∈ rest.walks directory :=
      Entries.mem_walks directory h
    exact ⟨other, hother, mem_cons_of_mem _ hmem⟩

variable {x : FileName × Walk}

theorem Entries.find_isSome_of_mem {entries : Entries}
    (h : x ∈ entries.walks directory) :
    (entries.find x.1.bytes).isSome := by
  match entries with
  | .nil => exact nomatch h
  | .cons name node rest =>
    unfold Entries.find
    split
    · rfl
    rename_i hname
    rcases mem_cons.mp h with rfl | hmem
    · exact absurd rfl hname
    · exact Entries.find_isSome_of_mem hmem

theorem Entries.nodup_walks {entries : Entries}
    (h : entries.Distinct) : ((entries.walks directory).map Prod.fst).Nodup := by
  match entries with
  | .nil => exact nodup_nil
  | .cons name node rest =>
    unfold Entries.Distinct at h
    refine nodup_cons.mpr ⟨?_, Entries.nodup_walks h.2.2⟩
    intro hmem
    obtain ⟨x, hx, hname⟩ := mem_map.mp hmem
    have hsome := Entries.find_isSome_of_mem hx
    rw [hname, h.1] at hsome
    exact nomatch hsome

/-- The entries that a lookup does not belong to do not matter. -/
theorem lookup_flatMap_of_forall_not_under (directory : Option Bytes)

    (hunder : ∀ x ∈ walks, ∀ file ∈ x.2.files, Under (below directory x.1.bytes) file.1)
    (hnot : ∀ x ∈ walks, ¬ Under (below directory x.1.bytes) f) :
    (walks.flatMap (·.2.files)).lookup f = none := by
  apply lookup_eq_none_iff.mpr
  intro file hfile
  obtain ⟨x, hx, hfile⟩ := mem_flatMap.mp hfile
  have hne : f ≠ file.1 := fun heq => hnot x hx (heq ▸ hunder x hx file hfile)
  simpa using hne

theorem lookup_flatMap_of_mem
    (hnodup : (walks.map Prod.fst).Nodup)
    (hunder : ∀ x ∈ walks, ∀ file ∈ x.2.files, Under (below directory x.1.bytes) file.1)
    (hx : x ∈ walks) (hf : Under (below directory x.1.bytes) f) :
    (walks.flatMap (·.2.files)).lookup f = x.2.files.lookup f := by
  have hother : ∀ y ∈ walks, y.1 ≠ x.1 → ¬ Under (below directory y.1.bytes) f := by
    intro y _ hne hy
    exact hne (FileName.ext (Under.unique y.1.noSlash x.1.noSlash hy hf))
  induction walks with
  | nil => exact nomatch hx
  | cons y walks ih =>
    obtain ⟨hfresh, hnodup⟩ := nodup_cons.mp hnodup
    have hrest := fun z hz => hunder z (mem_cons_of_mem y hz)
    rw [flatMap_cons, lookup_append]
    rcases mem_cons.mp hx with rfl | hx
    · -- the name is found here or nowhere
      rw [lookup_flatMap_of_forall_not_under directory hrest]
      · cases x.2.files.lookup f <;> rfl
      intro z hz
      apply hother z (mem_cons_of_mem x hz)
      rintro heq
      exact hfresh (heq ▸ mem_map_of_mem hz)
    have hne : y.1 ≠ x.1 := by
      intro heq
      exact hfresh (heq ▸ mem_map_of_mem hx)
    have hnone : y.2.files.lookup f = none := by
      have hone : ([y].flatMap (·.2.files)).lookup f = none :=
        lookup_flatMap_of_forall_not_under directory
          (by simpa using hunder y mem_cons_self)
          (by simpa using hother y mem_cons_self hne)
      simpa using hone
    rw [hnone, none_or]
    exact ih hnodup hrest hx fun z hz => hother z (mem_cons_of_mem y hz)

/-! ### Reading what was walked through -/

/-- The lookups in a walk through sorted entries, by the entry. -/
theorem lookup_walkSorted {entries : Entries}
    (hdist : entries.Distinct) (hok : (walkSorted (entries.walks directory)).ok)
    (hkey : slash ∉ key) (hf : Under (below directory key) f) :
    (walkSorted (entries.walks directory)).files.lookup f =
      match entries.find key with
      | none => none
      | some node => (node.walkFile (below directory key)).files.lookup f := by
  obtain ⟨-, hfiles⟩ := walk_ok hok
  have hflat : (walkSorted (entries.walks directory)).files =
      ((entries.walks directory).insertionSort fun a b => a.1.bytes ≤ b.1.bytes).flatMap
        (·.2.files) := by
    unfold walkSorted
    rw [hfiles, flatMap_map]
  have hperm := perm_insertionSort
    (fun a b : FileName × Walk => a.1.bytes ≤ b.1.bytes) (entries.walks directory)
  have hunder : ∀ x ∈ (entries.walks directory).insertionSort fun a b => a.1.bytes ≤ b.1.bytes,
      ∀ file ∈ x.2.files, Under (below directory x.1.bytes) file.1 := fun x hx file hfile =>
    (Entries.walks_under directory entries x (hperm.mem_iff.mp hx) file hfile).1
  rw [hflat]
  cases hfind : entries.find key with
  | none =>
    apply lookup_flatMap_of_forall_not_under directory hunder
    intro x hx hbelow
    have hname := Under.unique x.1.noSlash hkey hbelow hf
    have hsome := Entries.find_isSome_of_mem (hperm.mem_iff.mp hx)
    rw [hname, hfind] at hsome
    exact nomatch hsome
  | some node =>
    obtain ⟨name, rfl, hmem⟩ := Entries.mem_walks directory hfind
    apply lookup_flatMap_of_mem ((hperm.map Prod.fst).nodup_iff.mpr
      (Entries.nodup_walks hdist)) hunder (hperm.mem_iff.mpr hmem)
    exact hf

/-- A walk through sorted entries that comes to its end, did so at each of them. -/
theorem ok_of_find {entries : Entries}
    (hok : (walkSorted (entries.walks directory)).ok)
    (hfind : entries.find key = some node) :
    (node.walkFile (below directory key)).ok := by
  obtain ⟨name, -, hmem⟩ := Entries.mem_walks directory hfind
  apply (walk_ok hok).1
  exact mem_map.mpr ⟨_, (mem_insertionSort _).mpr hmem, rfl⟩

theorem distinct_of_find {entries : Entries}
    (hdist : entries.Distinct) (hfind : entries.find key = some node) : node.Distinct := by
  match entries with
  | .nil => exact nomatch hfind
  | .cons name first rest =>
    unfold Entries.Distinct at hdist
    unfold Entries.find at hfind
    split at hfind
    · obtain rfl := some.inj hfind
      exact hdist.2.1
    · exact distinct_of_find hdist.2.2 hfind

variable {keys : List Bytes}

/-- What a path comes to is below its first component. -/
theorem under_of_normalize
    (h : normalize directory keys = some f) : ∀ {own}, directory = some own →
    ∃ rest, f = own ++ slash :: rest := by
  induction keys generalizing directory with
  | nil => exact nomatch h
  | cons key rest ih =>
    rintro own rfl
    by_cases hskip : key = [] ∨ key = [46]
    · cases rest with
      | nil => simp [normalize, hskip] at h
      | cons next rest =>
        rw [normalize_skip _ hskip] at h
        exact ih h rfl
    cases rest with
    | nil =>
      rw [normalize_singleton _ hskip] at h
      rw [← some.inj h]
      exact ⟨key, by simp [below, lead]⟩
    | cons next rest =>
      rw [normalize_cons _ hskip] at h
      obtain ⟨tail, rfl⟩ := ih h rfl
      exact ⟨key ++ slash :: tail, by simp [below, lead]⟩

/-- The components of a valid path. -/
theorem components_valid {path : Bytes} (h : path.all pathByte) :
    ∀ key ∈ components path, slash ∉ key ∧ key.all pathByte := by
  unfold components
  induction path with
  | nil => simp [splitOn_nil]
  | cons b path ih =>
    rw [all_cons, Bool.and_eq_true] at h
    have hrest := ih h.2
    rw [splitOn_cons_eq_if_modifyHead]
    split
    · rintro key (_ | ⟨_, hkey⟩)
      · simp
      · exact hrest key hkey
    rename_i hb
    have hne : slash ≠ b := fun heq => hb (by simp [heq])
    cases hsplit : path.splitOn slash with
    | nil => exact absurd hsplit (splitOn_ne_nil slash path)
    | cons first keys =>
      rw [hsplit] at hrest
      rintro key (_ | ⟨_, hkey⟩)
      · obtain ⟨hslash, hall⟩ := hrest first mem_cons_self
        simp [hne, hslash, h.1, hall]
      · exact hrest key (mem_cons_of_mem first hkey)

/-- A walk that comes to its end sees what can be read at the components of a path. -/
theorem Entries.read_eq (hkeys : ∀ key ∈ keys, slash ∉ key ∧
    key.all pathByte) {entries : Entries} (hdist : entries.Distinct)
    (hdir : (lead directory).all pathByte)
    (hok : (walkSorted (entries.walks directory)).ok) :
    (Node.dir entries).read keys =
      (normalize directory keys).bind fun f => (walkSorted (entries.walks directory)).files.lookup f := by
  induction keys generalizing entries directory with
  | nil => simp [Node.read, normalize]
  | cons key rest ih =>
    have hrest := fun other hother => hkeys other (mem_cons_of_mem key hother)
    have hkey := hkeys key mem_cons_self
    unfold Node.read
    by_cases hskip : key = [] ∨ key = [46]
    · -- such a component stays in the directory
      rw [if_pos hskip, ih hrest hdist hdir hok]
      cases rest with
      | nil => simp [normalize, hskip]
      | cons next rest => rw [normalize_skip directory hskip]
    rw [if_neg hskip]
    have hvalid : (below directory key).all pathByte := by
      rw [below, all_append, hdir, hkey.2]
      rfl
    have hne : (below directory key != []) := by
      have : key ≠ [] := fun heq => hskip (.inl heq)
      simp [below, this]
    have hpath : validatePath (below directory key) := by
      rw [validatePath, hne, hvalid]
      rfl
    obtain ⟨f, hf, hnormal⟩ : ∃ f : Option Bytes, normalize directory (key :: rest) = f ∧
        ∀ g, f = some g → Under (below directory key) g := by
      refine ⟨_, rfl, fun g hg => ?_⟩
      cases rest with
      | nil =>
        rw [normalize_singleton directory hskip] at hg
        rw [← some.inj hg]
        exact Under.refl _
      | cons next rest =>
        rw [normalize_cons directory hskip] at hg
        obtain ⟨tail, rfl⟩ := under_of_normalize hg rfl
        exact ⟨_, rfl, .inr rfl⟩
    have hlook : (f.bind fun g => (walkSorted (entries.walks directory)).files.lookup g) =
        match entries.find key with
        | none => none
        | some node => f.bind fun g => (node.walkFile (below directory key)).files.lookup g := by
      cases f with
      | none => cases entries.find key <;> rfl
      | some g => exact lookup_walkSorted hdist hok hkey.1 (hnormal g rfl)
    rw [hf, hlook]
    cases hfind : entries.find key with
    | none => rfl
    | some node =>
      have hnode := ok_of_find hok hfind
      cases node with
      | file content =>
        simp only [Node.walkFile, hpath, if_true]
        cases rest with
        | nil =>
          rw [normalize_singleton directory hskip] at hf
          subst hf
          simp [Node.read]
        | cons next rest =>
          rw [normalize_cons directory hskip] at hf
          cases f with
          | none => simp [Node.read]
          | some g =>
            obtain ⟨tail, rfl⟩ := under_of_normalize hf rfl
            simp [Node.read]
      | unreadable | closed => simp [Node.walkFile, hpath] at hnode
      | dir inner =>
        simp only [Node.walkFile, hpath, if_true] at hnode ⊢
        have hlead : (lead (some (below directory key))).all pathByte := by
          simp only [lead, all_append, hvalid]
          decide
        cases rest with
        | nil =>
          rw [normalize_singleton directory hskip] at hf
          subst hf
          -- the directory itself is no file of the walk
          have hnone : (walkSorted (inner.walks (some (below directory key)))).files.lookup
              (below directory key) = none := by
            apply lookup_eq_none_iff.mpr
            intro file hfile
            obtain ⟨x, hx, hfile⟩ := mem_walkSorted hfile
            have hunder := (Entries.walks_under _ inner x hx file hfile).1
            have := hunder.ne_of_below
            simpa using Ne.symm this
          simp [Node.read, hnone]
        | cons next rest =>
          rw [normalize_cons directory hskip] at hf
          rw [ih hrest (distinct_of_find hdist hfind) hlead hnode, hf]

end Cockpit.Bundle
