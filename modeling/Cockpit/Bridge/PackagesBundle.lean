import Cockpit.Bridge.Packages

namespace Cockpit.Bundle

open List Option AList Function UInt8

/-!
# What a bundle checksum tells

The checksum is fed file names and contents, but neither the names of packages nor where one ends.

* `Fits` — the list of packages is the layout of the files that were fed;
* `sameFiles_iff` — bundles of one checksum have the same files exactly when it makes no
  difference which of the two layouts is put on them.
-/

/-! ### The layout -/

/-- What the stretch of a package depends on, besides those before it. -/
structure Label where
  name : Bytes
  manifest : Manifest
  /-- How many files the walk puts into the checksum, and whether a package comes of it. -/
  files : Nat
  added : Bool

/-- Where the files of a package are. -/
structure Place where
  start : Nat
  count : Nat
  manifest : Manifest

/-- The places of the packages, and the number of files so far. -/
structure Layout where
  places : AList fun _ : Bytes => Place := ∅
  length : Nat := 0

/-- Whether a directory is not walked through. -/
def Layout.skips (l : Layout) (label : Label) : Bool :=
  outranked label.manifest ((l.places.lookup label.name).map Place.manifest)

/-- The next directory. -/
def Layout.next (l : Layout) (label : Label) : Layout :=
  if l.skips label then l
  else
    { places :=
        if label.added then
          l.places.insert label.name ⟨l.length, label.files, label.manifest⟩
        else l.places
      length := l.length + label.files }

/-- The files of a name, out of all. -/
def Layout.stretch (l : Layout) (files : List (Bytes × Bytes)) (name : Bytes) :
    List (Bytes × Bytes) :=
  match l.places.lookup name with
  | none => []
  | some place => (files.drop place.start).take place.count

variable (S : Setup) (fs : FileSystem) (dirs : Directories)

/-- The directories with a manifest, in the order in which they are seen. -/
def candidates : List Candidate :=
  (dirs.user.toList ++ dirs.system).flatMap fun directory =>
    (directoryFilenames fs directory).filterMap (readCandidate S fs directory)

def label (c : Candidate) : Label where
  name := c.name
  manifest := c.manifest
  files := (walkPackage fs c.directory).files.length
  added := (walkPackage fs c.directory).ok && setupPackageManifest c.manifest

/-- The layout of a bundle. -/
def layout : Layout :=
  ((candidates S fs dirs).map (label fs)).foldl Layout.next {}

/-- The files of the directories that are walked through. -/
def streamFrom (fs : FileSystem) (l : Layout) : List Candidate → List (Bytes × Bytes)
  | [] => []
  | c :: rest =>
    (if l.skips (label fs c) then [] else (walkPackage fs c.directory).files) ++
      streamFrom fs (l.next (label fs c)) rest

/-- All files that are fed to the checksum of a bundle. -/
def stream : List (Bytes × Bytes) :=
  streamFrom fs {} (candidates S fs dirs)

/-! ### The files that were fed -/

/-- The list of packages, the files that were fed and the layout belong together. -/
structure Fits (S : Setup) (fs : FileSystem) (scan : Scan) (files : List (Bytes × Bytes))
    (l : Layout) : Prop where
  fed : scan.bundle = some (S.feed files)
  length : files.length = l.length
  inside : ∀ name place, l.places.lookup name = some place →
    place.start + place.count ≤ files.length
  manifest : ∀ name, (scan.listing.lookup name).map Package.manifest =
    (l.places.lookup name).map Place.manifest
  files : ∀ name package, scan.listing.lookup name = some package →
    (walkPackage fs package.directory).ok ∧
      (walkPackage fs package.directory).files = l.stretch files name

theorem Setup.feed_append (files more : List (Bytes × Bytes)) :
    S.feed (files ++ more) = S.feed files ++ S.feed more := flatMap_append

theorem Fits.empty : Fits S fs {} [] {} where
  fed := rfl
  length := rfl
  inside := fun _ _ h => nomatch h
  manifest := fun _ => rfl
  files := fun _ _ h => nomatch h

variable {files : List (Bytes × Bytes)} {l : Layout}

/-- What lies inside stays there when more files are fed. -/
theorem stretch_append (more : List (Bytes × Bytes))
    (hinside : ∀ name place, l.places.lookup name = some place →
      place.start + place.count ≤ files.length) (name : Bytes) :
    l.stretch (files ++ more) name = l.stretch files name := by
  unfold Layout.stretch
  cases hplace : l.places.lookup name with
  | none => rfl
  | some place =>
    have hle := hinside name place hplace
    dsimp only
    rw [drop_append_of_le_length (by omega), take_append_of_le_length]
    rw [length_drop]
    omega

variable {fs : FileSystem} {S : Setup} {scan : Scan}

/-- A package takes a name, and the place of it. -/
theorem Fits.insert (h : Fits S fs scan files l) (name : Bytes) {package : Package} {place : Place}
    (hman : package.manifest = place.manifest)
    (hinside : place.start + place.count ≤ files.length)
    (hok : (walkPackage fs package.directory).ok)
    (hfiles : (walkPackage fs package.directory).files =
      (files.drop place.start).take place.count) :
    Fits S fs { scan with listing := scan.listing.insert name package } files
      { l with places := l.places.insert name place } := { h with
  inside := by
    intro other place' hplace
    by_cases hname : other = name
    · subst hname
      rw [lookup_insert] at hplace
      rw [← some.inj hplace]
      exact hinside
    · rw [lookup_insert_ne hname] at hplace
      exact h.inside other place' hplace
  manifest := by
    intro other
    by_cases hname : other = name
    · subst hname
      rw [lookup_insert, lookup_insert, map_some, map_some, hman]
    · rw [lookup_insert_ne hname, lookup_insert_ne hname]
      exact h.manifest other
  files := by
    intro other package' hpack
    unfold Layout.stretch
    by_cases hname : other = name
    · subst hname
      rw [lookup_insert] at hpack ⊢
      rw [← some.inj hpack]
      exact ⟨hok, hfiles⟩
    · rw [lookup_insert_ne hname] at hpack ⊢
      exact h.files other package' hpack }

/-- A directory is seen while the checksum is still fed, and no package of the user comes of it. -/
theorem Fits.addCandidate (h : Fits S fs scan files l) (old : Listing)
    (system : Bool) (c : Candidate) :
    Fits S fs (addCandidate S fs old system scan c).1
      (files ++ if l.skips (label fs c) then [] else (walkPackage fs c.directory).files)
      (l.next (label fs c)) := by
  have hskips : outranked c.manifest ((scan.listing.lookup c.name).map Package.manifest)
      = l.skips (label fs c) := by
    rw [h.manifest]
    rfl
  unfold Bundle.addCandidate Layout.next
  rw [hskips]
  cases hskip : l.skips (label fs c) with
  | true =>
    simp only [if_true, append_nil]
    exact h
  | false =>
    simp only [Bool.false_eq_true, if_false]
    have hbun : scan.bundle.map (· ++ S.feed (walkPackage fs c.directory).files)
        = some (S.feed (files ++ (walkPackage fs c.directory).files)) := by
      rw [h.fed, S.feed_append]
      rfl
    -- the files are fed, whether or not a package comes of them
    have hfed : Fits S fs
        { scan with bundle := scan.bundle.map (· ++ S.feed (walkPackage fs c.directory).files) }
        (files ++ (walkPackage fs c.directory).files)
        { l with length := l.length + (label fs c).files } := { h with
      fed := hbun
      length := by
        rw [length_append, h.length]
        rfl
      inside := fun name place hplace => by
        rw [length_append]
        have := h.inside name place hplace
        omega
      files := fun name package hpack => by
        obtain ⟨hok, hfiles⟩ := h.files name package hpack
        exact ⟨hok, hfiles.trans (stretch_append _ h.inside name).symm⟩ }
    have hsome : scan.bundle.isSome := by simp [h.fed]
    rw [hsome, Bool.true_or, Bool.true_and]
    cases hok : (walkPackage fs c.directory).ok with
    | false => simpa [label, hok] using hfed
    | true =>
      cases hsetup : setupPackageManifest c.manifest with
      | false => simpa [label, hok, hsetup] using hfed
      | true =>
        have hadded : (label fs c).added := by simp [label, hok, hsetup]
        simp only [Bool.not_true, Bool.false_eq_true, if_false, hadded, if_true]
        refine hfed.insert c.name rfl ?_ hok ?_
        · rw [length_append, h.length]
          exact Nat.le_refl _
        · show _ = ((files ++ (walkPackage fs c.directory).files).drop l.length).take
            (walkPackage fs c.directory).files.length
          rw [← h.length, drop_left, take_length]

theorem streamFrom_append (fs : FileSystem) (l : Layout) (cs rest : List Candidate) :
    streamFrom fs l (cs ++ rest) =
      streamFrom fs l cs ++ streamFrom fs ((cs.map (label fs)).foldl Layout.next l) rest := by
  induction cs generalizing l with
  | nil => rfl
  | cons c cs ih =>
    rw [cons_append, streamFrom, ih, streamFrom, append_assoc]
    rfl

/-- Directories are seen one after the other. -/
theorem Fits.addCandidates (old : Listing) (system : Bool) (cs : List Candidate)
    (h : Fits S fs scan files l) :
    Fits S fs (cs.foldl (fun scan c => (Bundle.addCandidate S fs old system scan c).1) scan)
      (files ++ streamFrom fs l cs) ((cs.map (label fs)).foldl Layout.next l) := by
  induction cs generalizing scan files l with
  | nil =>
    rw [streamFrom, append_nil]
    exact h
  | cons c cs ih =>
    rw [streamFrom, ← append_assoc]
    exact ih (h.addCandidate old system c)

/-! ### Building the list -/

/-- The directories without a manifest do not count. -/
theorem foldl_maybeAddPackage (S : Setup) (fs : FileSystem) (old : Listing) (system : Bool)
    (directory : Bytes) (names : List Bytes) (scan : Scan) :
    names.foldl (fun scan name => (maybeAddPackage S fs old system directory scan name).1) scan =
      (names.filterMap (readCandidate S fs directory)).foldl
        (fun scan c => (addCandidate S fs old system scan c).1) scan := by
  rw [foldl_filterMap]
  congr 1
  funext scan name
  unfold maybeAddPackage
  cases readCandidate S fs directory name <;> rfl

theorem foldl_addSystemPackages (S : Setup) (fs : FileSystem) (old : Listing)
    (directories : List Bytes) (scan : Scan) :
    directories.foldl (addSystemPackages S fs old) scan =
      (directories.flatMap fun directory =>
        (directoryFilenames fs directory).filterMap (readCandidate S fs directory)).foldl
          (fun scan c => (addCandidate S fs old true scan c).1) scan := by
  rw [foldl_flatMap]
  congr 1
  funext scan directory
  exact foldl_maybeAddPackage S fs old true directory _ scan

/-- Adding a directory feeds the checksum or not, but leaves it on or off. -/
theorem isSome_addCandidate (S : Setup) (fs : FileSystem) (old : Listing) (system : Bool)
    (scan : Scan) (c : Candidate) :
    (addCandidate S fs old system scan c).1.bundle.isSome = scan.bundle.isSome := by
  unfold addCandidate
  split
  · rfl
  · dsimp only
    split_ifs <;> simp

theorem isSome_addCandidates (S : Setup) (fs : FileSystem) (old : Listing) (system : Bool)
    (cs : List Candidate) (scan : Scan) :
    (cs.foldl (fun scan c => (addCandidate S fs old system scan c).1) scan).bundle.isSome =
      scan.bundle.isSome := by
  induction cs generalizing scan with
  | nil => rfl
  | cons c cs ih => exact (ih _).trans (isSome_addCandidate S fs old system scan c)

/-- While nothing is there yet, a directory of the user becomes a package by its label alone. -/
theorem addCandidate_empty (S : Setup) (fs : FileSystem) (old : Listing)
    (hempty : scan.listing = ∅) (hsome : scan.bundle.isSome) (c : Candidate) :
    (addCandidate S fs old false scan c).2 = (label fs c).added ∧
      ((label fs c).added = false → (addCandidate S fs old false scan c).1.listing = ∅) := by
  have hpresent : scan.listing.lookup c.name = none := by
    rw [hempty]
    rfl
  unfold addCandidate
  rw [hpresent, map_none, hsome]
  cases hok : (walkPackage fs c.directory).ok with
  | false => simp [outranked, label, hok, hempty]
  | true =>
    cases hsetup : setupPackageManifest c.manifest <;> simp [outranked, label, hok, hsetup, hempty]

variable {old : Listing} {directory path : Bytes}

theorem isSome_addUserPackage {name : Bytes}
    (h : (addUserPackage S fs old directory scan name).bundle.isSome) :
    addUserPackage S fs old directory scan name =
        (maybeAddPackage S fs old false directory scan name).1 ∧ scan.bundle.isSome := by
  have hnext : addUserPackage S fs old directory scan name =
      (maybeAddPackage S fs old false directory scan name).1 := by
    unfold addUserPackage at h ⊢
    split
    · rename_i t heq
      rw [heq] at h
      exact nomatch h
    · rename_i t heq
      rw [heq]
  refine ⟨hnext, ?_⟩
  rw [hnext] at h
  unfold maybeAddPackage at h
  split at h
  · exact h
  · rwa [isSome_addCandidate] at h

/-- With a checksum in the end, no package of the user was added. -/
theorem foldl_addUserPackage {names : List Bytes}
    (h : (names.foldl (addUserPackage S fs old directory) scan).bundle.isSome) :
    names.foldl (addUserPackage S fs old directory) scan =
        names.foldl (fun scan name => (maybeAddPackage S fs old false directory scan name).1)
          scan ∧ scan.bundle.isSome := by
  induction names generalizing scan with
  | nil => exact ⟨rfl, h⟩
  | cons name names ih =>
    obtain ⟨hrest, hsome⟩ := ih h
    obtain ⟨hnext, hfirst⟩ := isSome_addUserPackage hsome
    refine ⟨?_, hfirst⟩
    rw [foldl_cons, foldl_cons, ← hnext]
    exact hrest

/-- The checksum survives the directories of the user if none of them makes a package. -/
theorem isSome_foldl_addUserPackage (S : Setup) (fs : FileSystem) (old : Listing)
    (directory : Bytes) (names : List Bytes) (hempty : scan.listing = ∅)
    (hsome : scan.bundle.isSome) :
    (names.foldl (addUserPackage S fs old directory) scan).bundle.isSome ↔
      ∀ c ∈ names.filterMap (readCandidate S fs directory), (label fs c).added = false := by
  induction names generalizing scan with
  | nil => simp [hsome]
  | cons name names ih =>
    cases hc : readCandidate S fs directory name with
    | none =>
      have hstep : addUserPackage S fs old directory scan name = scan := by
        simp [addUserPackage, maybeAddPackage, hc]
      rw [foldl_cons, hstep, filterMap_cons_none hc]
      exact ih hempty hsome
    | some c =>
      obtain ⟨hadded, hstill⟩ := addCandidate_empty S fs old hempty hsome c
      have hmaybe : maybeAddPackage S fs old false directory scan name =
          addCandidate S fs old false scan c := by
        simp [maybeAddPackage, hc]
      rw [foldl_cons, filterMap_cons_some hc, forall_mem_cons]
      cases hlabel : (label fs c).added with
      | false =>
        rw [hlabel] at hadded
        have hstep : addUserPackage S fs old directory scan name =
            (addCandidate S fs old false scan c).1 := by
          unfold addUserPackage
          rw [hmaybe]
          split
          · rename_i heq
            rw [heq] at hadded
            exact nomatch hadded
          · rename_i heq
            rw [heq]
        rw [hstep, ih (hstill hlabel)
          ((isSome_addCandidate S fs old false scan c).trans hsome)]
        simp
      | true =>
        -- a package of the user: there is no way back
        refine ⟨fun h => ?_, fun h => nomatch h.1⟩
        rw [hlabel] at hadded
        have hlost := (foldl_addUserPackage h).2
        unfold addUserPackage at hlost
        rw [hmaybe] at hlost
        split at hlost
        · exact nomatch hlost
        · rename_i heq
          rw [heq] at hadded
          exact nomatch hadded

/-- The directories of the user with a manifest. -/
def userCandidates (S : Setup) (fs : FileSystem) (dirs : Directories) : List Candidate :=
  dirs.user.toList.flatMap fun directory =>
    (directoryFilenames fs directory).filterMap (readCandidate S fs directory)

/-- No package of the user comes in. -/
def SystemOnly (S : Setup) (fs : FileSystem) (dirs : Directories) : Prop :=
  ∀ c ∈ userCandidates S fs dirs, (label fs c).added = false

/-- There is a checksum exactly when no package of the user comes in. -/
theorem isSome_buildPackageListing (S : Setup) (fs : FileSystem) (dirs : Directories)
    (old : Listing) :
    (buildPackageListing S fs dirs old).bundle.isSome ↔ SystemOnly S fs dirs := by
  unfold buildPackageListing SystemOnly userCandidates
  dsimp only
  rw [foldl_addSystemPackages, isSome_addCandidates]
  cases dirs.user with
  | none => simp
  | some directory =>
    rw [toList_some, flatMap_singleton]
    exact isSome_foldl_addUserPackage S fs old directory _ rfl rfl

variable {dirs : Directories}

/-- With a checksum in the end, the list is the layout of the files that were fed. -/
theorem fits_buildPackageListing (h : (buildPackageListing S fs dirs old).bundle.isSome) :
    Fits S fs (buildPackageListing S fs dirs old) (stream S fs dirs) (layout S fs dirs) := by
  unfold buildPackageListing at h ⊢
  dsimp only at h ⊢
  have hcandidates : candidates S fs dirs =
      userCandidates S fs dirs ++ dirs.system.flatMap fun directory =>
        (directoryFilenames fs directory).filterMap (readCandidate S fs directory) :=
    flatMap_append
  rw [foldl_addSystemPackages] at h ⊢
  rw [isSome_addCandidates] at h
  unfold stream layout
  rw [hcandidates, streamFrom_append, map_append, foldl_append]
  refine Fits.addCandidates old true _ ?_
  -- what the user's own packages leave
  unfold userCandidates
  cases hdir : dirs.user with
  | none =>
    simp only [toList_none, flatMap_nil, map_nil, foldl_nil, streamFrom]
    exact Fits.empty S fs
  | some directory =>
    rw [hdir] at h
    simp only [toList_some, flatMap_singleton]
    rw [(foldl_addUserPackage h).1, foldl_maybeAddPackage]
    exact (Fits.empty S fs).addCandidates old false _

/-! ### Reading a file of a bundle -/

theorem all_pathByte_of_validatePath (h : validatePath path) :
    path.all pathByte := by
  unfold validatePath at h
  exact (Bool.and_eq_true_iff.mp h).2

/-- Reading below the base directory of a package is a lookup in its files. -/
theorem read_walkPackage (hpath : validatePath path) (hok : (walkPackage fs (some directory)).ok) :
    (fs.node directory).read (components path) = (normalize none (components path)).bind fun f =>
        (walkPackage fs (some directory)).files.lookup f := by
  have hdist := fs.distinct directory
  unfold walkPackage at hok ⊢
  dsimp only at hok ⊢
  cases hnode : fs.node directory with
  | dir entries =>
    rw [hnode] at hok hdist
    unfold Node.Distinct at hdist
    exact Entries.read_eq (components_valid (all_pathByte_of_validatePath hpath)) hdist rfl hok
  | file content | unreadable | closed =>
    rw [hnode] at hok
    exact nomatch hok

variable {packages : Packages} {checksum : CStr}

/-- What is read of a bundle with a checksum, by the files that were fed and the layout. -/
theorem readResource_eq
    (h : (buildPackages S packages fs dirs).bundleChecksum = some checksum)
    (name path : Bytes) :
    (buildPackages S packages fs dirs).readResource fs name path =
      if acceptsPath path ∧ validatePackage name then
        (normalize none (components path)).bind fun f =>
          ((layout S fs dirs).stretch (stream S fs dirs) name).lookup f
      else none := by
  have hsome : (buildPackageListing S fs dirs packages.listing).bundle.isSome := by
    unfold buildPackages at h
    obtain ⟨bytes, hbytes, -⟩ := map_eq_some_iff.mp h
    rw [hbytes]
    rfl
  have hfits := fits_buildPackageListing hsome
  unfold Packages.readResource Packages.resolve
  by_cases hpath : acceptsPath path
  · by_cases hname : validatePackage name
    · rw [if_neg (by simpa using hpath), if_neg (by simpa using hname), if_pos ⟨hpath, hname⟩]
      have hlook : (buildPackages S packages fs dirs).listing.lookup name =
          ((buildPackageListing S fs dirs packages.listing).listing.lookup name).map
            (fixup ((buildPackageListing S fs dirs packages.listing).bundle.map S.sha256)) :=
        lookup_mapValues _ _ name
      rw [hlook]
      cases hpack : (buildPackageListing S fs dirs packages.listing).listing.lookup name with
      | none =>
        have hplace := hfits.manifest name
        rw [hpack] at hplace
        have hnone : (layout S fs dirs).places.lookup name = none := by
          simpa using hplace.symm
        unfold Layout.stretch
        rw [hnone]
        cases normalize none (components path) <;> rfl
      | some package =>
        obtain ⟨hok, hfiles⟩ := hfits.files name package hpack
        have hvalid : validatePath path := by
          unfold acceptsPath at hpath
          exact (Bool.and_eq_true_iff.mp hpath).2
        cases hdir : package.directory with
        | none =>
          rw [hdir] at hok
          exact nomatch hok
        | some directory =>
          rw [hdir] at hok hfiles
          simp only [map_some, fixup, hdir]
          rw [read_walkPackage hvalid hok, hfiles]
    · rw [if_neg (by simpa using hpath), if_pos (by simpa using hname),
        if_neg (fun hboth => hname hboth.2)]
  · rw [if_pos (by simpa using hpath), if_neg (fun hboth => hpath hboth.1)]

/-! ### What equal checksums tell -/

/-- What a walk goes through has valid names. -/
theorem walkPackage_valid (fs : FileSystem) (directory : Option Bytes) :
    ∀ file ∈ (walkPackage fs directory).files, validatePath file.1 := by
  intro file hfile
  unfold walkPackage at hfile
  split at hfile
  · exact nomatch hfile
  unfold walkDirectory at hfile
  split at hfile
  · obtain ⟨x, hx, hmem⟩ := mem_walkSorted hfile
    exact (Entries.walks_under none _ x hx file hmem).2
  · exact nomatch hfile

/-- The names of files that were fed are valid. -/
theorem streamFrom_valid (fs : FileSystem) (cs : List Candidate) (l : Layout) :
    ∀ file ∈ streamFrom fs l cs, validatePath file.1 := by
  induction cs generalizing l with
  | nil =>
    intro file hfile
    exact nomatch hfile
  | cons c cs ih =>
    intro file hfile
    rcases mem_append.mp hfile with hfirst | hrest
    · split at hfirst
      · exact nomatch hfirst
      · exact walkPackage_valid fs c.directory file hfirst
    · exact ih _ file hrest

theorem noNul_of_validatePath (h : validatePath path) : (0 : UInt8) ∉ path := by
  intro hmem
  have hzero := all_eq_true.mp (all_pathByte_of_validatePath h) 0 hmem
  exact nomatch hzero

/-- A text up to its first `NUL` is determined. -/
theorem append_nul_inj {a b x y : Bytes} (ha : (0 : UInt8) ∉ a) (hb : (0 : UInt8) ∉ b)
    (h : a ++ 0 :: x = b ++ 0 :: y) : a = b ∧ x = y := by
  induction a generalizing b with
  | nil =>
    cases b with
    | nil => exact ⟨rfl, (cons.inj h).2⟩
    | cons c b =>
      have hc : (0 : UInt8) = c := (cons.inj h).1
      exact absurd hc fun heq => hb (by simp [heq])
  | cons d a ih =>
    cases b with
    | nil =>
      have hd : d = (0 : UInt8) := (cons.inj h).1
      exact absurd hd (fun heq => ha (by simp [heq]))
    | cons c b =>
      obtain ⟨hcd, hrest⟩ := cons.inj h
      obtain ⟨hab, hxy⟩ := ih (fun hmem => ha (mem_cons_of_mem d hmem))
        (fun hmem => hb (mem_cons_of_mem c hmem)) hrest
      exact ⟨by rw [hcd, hab], hxy⟩

/-- The terminators keep names and hashes apart. -/
theorem feed_injective (hinj : Injective S.sha256)
    {files' : List (Bytes × Bytes)} (h : ∀ file ∈ files, validatePath file.1)
    (h' : ∀ file ∈ files', validatePath file.1) (heq : S.feed files = S.feed files') :
    files = files' := by
  have hcons : ∀ (file : Bytes × Bytes) (files : List (Bytes × Bytes)), S.feed (file :: files) =
        file.1 ++ 0 :: ((S.sha256 file.2).bytes ++ 0 :: S.feed files) := by
    intro file files
    simp [Setup.feed, Setup.feedFile]
  induction files generalizing files' with
  | nil =>
    cases files' with
    | nil => rfl
    | cons file' files' =>
      rw [hcons] at heq
      exact absurd heq (by simp [Setup.feed])
  | cons file files ih =>
    cases files' with
    | nil =>
      rw [hcons] at heq
      exact absurd heq (by simp [Setup.feed])
    | cons file' files' =>
      rw [hcons, hcons] at heq
      obtain ⟨hname, hrest⟩ := append_nul_inj
        (noNul_of_validatePath (h file mem_cons_self))
        (noNul_of_validatePath (h' file' mem_cons_self)) heq
      obtain ⟨hhash, htail⟩ := append_nul_inj (S.sha256 file.2).noNul (S.sha256 file'.2).noNul hrest
      have hcont := hinj (CStr.ext hhash)
      have hfiles := ih (fun f hf => h f (mem_cons_of_mem file hf))
        (fun f hf => h' f (mem_cons_of_mem file' hf)) htail
      rw [hfiles, Prod.ext hname hcont]

/-- The checksum of a bundle is the hash of its files, if no package of the user comes in. -/
theorem bundleChecksum_eq_some :
    (buildPackages S packages fs dirs).bundleChecksum = some checksum ↔
      SystemOnly S fs dirs ∧ S.sha256 (S.feed (stream S fs dirs)) = checksum := by
  rw [← isSome_buildPackageListing S fs dirs packages.listing]
  unfold buildPackages
  dsimp only
  constructor
  · intro h
    obtain ⟨bytes, hbytes, hhash⟩ := map_eq_some_iff.mp h
    have hsome : (buildPackageListing S fs dirs packages.listing).bundle.isSome := by
      rw [hbytes]
      rfl
    have hfed := (fits_buildPackageListing hsome).fed
    rw [hbytes] at hfed
    rw [← some.inj hfed]
    exact ⟨hsome, hhash⟩
  · rintro ⟨hsome, hhash⟩
    rw [(fits_buildPackageListing hsome).fed, map_some, hhash]

/-- Two bundles of one checksum serve the same, whatever was built before. -/
def SameFiles (S : Setup) (fs fs' : FileSystem) (dirs dirs' : Directories) : Prop :=
  ∀ packages packages' checksum, (buildPackages S packages fs dirs).bundleChecksum = some checksum →
    (buildPackages S packages' fs' dirs').bundleChecksum = some checksum →
    ∀ name path, (buildPackages S packages fs dirs).readResource fs name path =
      (buildPackages S packages' fs' dirs').readResource fs' name path

/-- A package of the user comes in, or the files are not the same, or it makes no difference to a
    path below a package's name which of the two layouts tells the stretch of the package. -/
def SameStretches (S : Setup) (fs fs' : FileSystem) (dirs dirs' : Directories) : Prop :=
  SystemOnly S fs dirs → SystemOnly S fs' dirs' → stream S fs dirs = stream S fs' dirs' →
    ∀ name path f, validatePackage name → acceptsPath path →
      normalize none (components path) = some f →
      ((layout S fs dirs).stretch (stream S fs dirs) name).lookup f =
        ((layout S fs' dirs').stretch (stream S fs dirs) name).lookup f

/-- Bundles of one checksum serve the same exactly when the layouts, which the checksum does not
    tell, come to the same. -/
theorem sameFiles_iff (S : Setup) (hinj : Injective S.sha256) (fs fs' : FileSystem)
    (dirs dirs' : Directories) :
    SameFiles S fs fs' dirs dirs' ↔ SameStretches S fs fs' dirs dirs' := by
  constructor
  · intro h honly honly' hstream name path f hname hpath hf
    have hchecksum : (buildPackages S {} fs dirs).bundleChecksum =
        some (S.sha256 (S.feed (stream S fs dirs))) :=
      bundleChecksum_eq_some.mpr ⟨honly, rfl⟩
    have hchecksum' : (buildPackages S {} fs' dirs').bundleChecksum =
        some (S.sha256 (S.feed (stream S fs dirs))) :=
      bundleChecksum_eq_some.mpr ⟨honly', by rw [hstream]⟩
    have hread := h {} {} _ hchecksum hchecksum' name path
    rw [readResource_eq hchecksum, readResource_eq hchecksum', if_pos ⟨hpath, hname⟩,
      if_pos ⟨hpath, hname⟩, hf, ← hstream] at hread
    exact hread
  intro h packages packages' checksum hchecksum hchecksum' name path
  obtain ⟨honly, hhash⟩ := bundleChecksum_eq_some.mp hchecksum
  obtain ⟨honly', hhash'⟩ := bundleChecksum_eq_some.mp hchecksum'
  -- one hash, so the same files were fed
  have hstream : stream S fs dirs = stream S fs' dirs' :=
    feed_injective hinj (streamFrom_valid fs _ _) (streamFrom_valid fs' _ _)
      (hinj (hhash.trans hhash'.symm))
  rw [readResource_eq hchecksum, readResource_eq hchecksum', ← hstream]
  split
  · rename_i haccepted
    cases hf : normalize none (components path) with
    | none => rfl
    | some f => exact h honly honly' hstream name path f haccepted.2 haccepted.1 hf
  · rfl

/-! ### Two hosts -/

/-- A hash for tests that tells everything: two digits a byte. -/
def digits (bytes : Bytes) : CStr where
  bytes := bytes.flatMap fun b => [b / 16 + 1, b % 16 + 1]
  noNul := by
    intro hmem
    obtain ⟨b, -, hb⟩ := mem_flatMap.mp hmem
    have hdigit : ∀ d : UInt8, d.toNat < 16 → (0 : UInt8) ≠ d + 1 := by
      intro d hd hzero
      have := congrArg toNat hzero
      simp at this
      omega
    have hb256 := b.toNat_lt
    rcases mem_cons.mp hb with h | h
    · exact hdigit _ (by simp; omega) h
    · exact hdigit _ (by simp; omega) (mem_singleton.mp h)

theorem digits_injective : Injective digits := by
  intro a b h
  have hbytes : (digits a).bytes = (digits b).bytes := congrArg CStr.bytes h
  unfold digits at hbytes
  dsimp only at hbytes
  clear h
  induction a generalizing b with
  | nil =>
    cases b with
    | nil => rfl
    | cons y b => simp at hbytes
  | cons x a ih =>
    cases b with
    | nil => simp at hbytes
    | cons y b =>
      simp only [flatMap_cons, cons_append, nil_append, cons.injEq] at hbytes
      obtain ⟨hhigh, hlow, hrest⟩ := hbytes
      have hdiv := congrArg toNat (add_left_inj 1 |>.mp hhigh)
      have hmod := congrArg toNat (add_left_inj 1 |>.mp hlow)
      rw [UInt8.toNat_div, UInt8.toNat_div] at hdiv
      rw [UInt8.toNat_mod, UInt8.toNat_mod] at hmod
      have hxy : x = y := by
        apply UInt8.toNat_inj.mp
        simp at hdiv hmod
        omega
      rw [hxy, ih hrest]

/-- Every manifest is an empty one. -/
def plain : Setup where
  sha256 := digits
  manifest := fun _ _ => some {}

def manifestFile : FileName where
  bytes := manifestName
  nonempty := by decide
  noNul := by decide
  noSlash := by decide
  noDots := by decide

/-- A package without other files. -/
def lonely : Node := .dir (.cons manifestFile (.file [123, 125]) .nil)

/-- A directory of such packages. -/
def shelf : List FileName → Entries
  | [] => .nil
  | name :: rest => .cons name lonely (shelf rest)

variable {names : List FileName}

theorem find_shelf {key : Bytes} (h : ∀ name ∈ names, name.bytes ≠ key) :
    (shelf names).find key = none := by
  induction names with
  | nil => rfl
  | cons name names ih =>
    rw [shelf, Entries.find, if_neg (h name mem_cons_self)]
    exact ih fun other hother => h other (mem_cons_of_mem name hother)

theorem distinct_lonely : lonely.Distinct := by
  simp [lonely, Node.Distinct, Entries.Distinct, Entries.find]

theorem distinct_shelf (h : names.Nodup) : (shelf names).Distinct := by
  induction names with
  | nil => simp [shelf, Entries.Distinct]
  | cons name names ih =>
    obtain ⟨hnot, hrest⟩ := nodup_cons.mp h
    unfold shelf Entries.Distinct
    refine ⟨find_shelf fun other hother hbytes => ?_, distinct_lonely, ih hrest⟩
    rw [FileName.ext hbytes] at hother
    exact hnot hother

/-- `/u` -/
def userDirectory : Bytes := [47, 117]

/-- `/s` -/
def systemDirectory : Bytes := [47, 115]

/-- A host with such packages. -/
def host (user system : List FileName) (h : user.Nodup ∧ system.Nodup) : FileSystem where
  node path :=
    if path = userDirectory then .dir (shelf user)
    else if path = systemDirectory then .dir (shelf system)
    else if path ∈ user.map (fun name => below (some userDirectory) name.bytes) ++
        system.map (fun name => below (some systemDirectory) name.bytes) then lonely
    else .unreadable
  distinct path := by
    split_ifs
    · exact distinct_shelf h.1
    · exact distinct_shelf h.2
    · exact distinct_lonely
    · trivial

/-- A name of one letter. -/
def letter (b : UInt8) (h : 97 ≤ b) : FileName where
  bytes := [b]
  nonempty := cons_ne_nil b []
  noNul := by
    intro hmem
    rw [← mem_singleton.mp hmem] at h
    exact absurd h (by decide)
  noSlash := by
    intro hmem
    rw [← mem_singleton.mp hmem] at h
    exact absurd h (by decide)
  noDots := by
    refine ⟨fun heq => ?_, fun heq => by simp at heq⟩
    rw [(cons.inj heq).1] at h
    exact absurd h (by decide)

def nameA : FileName := letter 97 (by decide)

def nameB : FileName := letter 98 (by decide)

/-- A package of another name has the same checksum. -/
theorem not_sameFiles_renamed : ¬ ∀ S : Setup, Injective S.sha256 →
    ∀ fs fs' dirs dirs', SameFiles S fs fs' dirs dirs' := by
  intro h
  have hread := h plain digits_injective (host [] [nameA] (by decide)) (host [] [nameB] (by decide))
    { system := [systemDirectory] } { system := [systemDirectory] } {} {}
    (digits (plain.feed [(manifestName, [123, 125])])) (by decide) (by decide)
    nameA.bytes manifestName
  exact nomatch hread

/-- A directory without packages makes no difference. -/
theorem sameFiles_host : SameFiles plain (host [] [nameA] (by decide)) (host [] [nameA] (by decide))
    { system := [systemDirectory] } { user := some userDirectory, system := [systemDirectory] } :=
  (sameFiles_iff plain digits_injective _ _ _ _).mpr fun _ _ _ name path f _ _ _ => by
    have hcandidates : candidates plain (host [] [nameA] (by decide)) { system := [systemDirectory] } =
        candidates plain (host [] [nameA] (by decide))
          { user := some userDirectory, system := [systemDirectory] } := by
      simp [candidates, directoryFilenames, host, shelf, Entries.names]
    unfold layout
    rw [hcandidates]

end Cockpit.Bundle
