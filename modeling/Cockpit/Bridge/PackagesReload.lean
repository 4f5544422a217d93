import Cockpit.Bridge.PackagesBundle

namespace Cockpit.Bundle

open Option

/-!
# Reloading the packages

`build_packages` runs again when the packages have changed.

* `bundleChecksum_after` — a package keeps the checksum of an earlier bundle or takes the new one;
* `checksums_track` — which run the checksum in a manifest is from.
-/

/-- What a run of `build_packages` finds. -/
structure Disk where
  fs : FileSystem
  dirs : Directories

/-! ### One scan -/

/-- What `maybe_add_package` leaves in the packages that are in the list. -/
structure Built (S : Setup) (fs : FileSystem) (old : Listing) (scan : Scan) : Prop where
  /-- The manifest is as it was read. -/
  read : ∀ name package, scan.listing.lookup name = some package →
    ∃ content override, S.manifest content override = some package.manifest
  own : ∀ name package, scan.listing.lookup name = some package →
    ∀ checksum, package.ownChecksum = some checksum →
      checksum = S.sha256 (S.feed (walkPackage fs package.directory).files)
  kept : ∀ name package, scan.listing.lookup name = some package →
    package.bundleChecksum = keptChecksum old name package.ownChecksum
  /-- A bundle's checksum goes with the checksums of all packages. -/
  bundle : scan.bundle.isSome → ∀ name package,
    scan.listing.lookup name = some package → package.ownChecksum.isSome

theorem Built.empty (S : Setup) (fs : FileSystem) (old : Listing) : Built S fs old {} where
  read := fun _ _ h => nomatch h
  own := fun _ _ h => nomatch h
  kept := fun _ _ h => nomatch h
  bundle := fun _ _ _ h => nomatch h

variable {fs : FileSystem} {S : Setup} {old : Listing} {scan : Scan}

/-- Another package comes in. -/
theorem Built.insert
    (h : Built S fs old scan) (name : Bytes) {package : Package}
    (hread : ∃ content override, S.manifest content override = some package.manifest)
    (hown : ∀ checksum, package.ownChecksum = some checksum →
      checksum = S.sha256 (S.feed (walkPackage fs package.directory).files))
    (hkept : package.bundleChecksum = keptChecksum old name package.ownChecksum)
    (hbun : scan.bundle.isSome → package.ownChecksum.isSome) :
    Built S fs old { scan with listing := scan.listing.insert name package } := by
  -- a package of the new list is the new one or an old one
  have hcases : ∀ {other package'}, (scan.listing.insert name package).lookup other = some package' →
      (other = name ∧ package' = package) ∨ scan.listing.lookup other = some package' := by
    intro other package' hlook
    by_cases hname : other = name
    · subst hname
      rw [AList.lookup_insert] at hlook
      exact .inl ⟨rfl, (some.inj hlook).symm⟩
    · rw [AList.lookup_insert_ne hname] at hlook
      exact .inr hlook
  constructor
  · intro other package' hlook
    rcases hcases hlook with ⟨rfl, rfl⟩ | hold
    · exact hread
    · exact h.read other package' hold
  · intro other package' hlook
    rcases hcases hlook with ⟨rfl, rfl⟩ | hold
    · exact hown
    · exact h.own other package' hold
  · intro other package' hlook
    rcases hcases hlook with ⟨rfl, rfl⟩ | hold
    · exact hkept
    · exact h.kept other package' hold
  intro hsome other package' hlook
  rcases hcases hlook with ⟨rfl, rfl⟩ | hold
  · exact hbun hsome
  · exact h.bundle hsome other package' hold

/-- More is fed to the checksum, or there will be none. -/
theorem Built.setBundle
    (h : Built S fs old scan) {bundle : Option Bytes}
    (hsome : bundle.isSome → scan.bundle.isSome) :
    Built S fs old { scan with bundle } := { h with
  bundle := fun hnew => h.bundle (hsome hnew) }

theorem readCandidate_manifest {parent name : Bytes} {c : Candidate}
    (h : readCandidate S fs parent name = some c) :
    ∃ content override, S.manifest content override = some c.manifest := by
  unfold readCandidate at h
  dsimp only at h
  split at h
  · exact nomatch h
  rename_i manifest hman
  split at h
  · exact nomatch h
  rw [← some.inj h]
  unfold readPackageManifest at hman
  split at hman
  · exact nomatch hman
  rename_i content _
  split at hman
  · exact nomatch hman
  rename_i manifest' hread
  split at hman
  · rw [← some.inj hman]
    exact ⟨content, _, hread⟩
  · exact nomatch hman

theorem Built.maybeAddPackage
    (h : Built S fs old scan) (system : Bool) (parent name : Bytes) :
    Built S fs old (maybeAddPackage S fs old system parent scan name).1 := by
  unfold Bundle.maybeAddPackage
  split
  · exact h
  rename_i c hc
  have hfed : Built S fs old
      { scan with
        bundle := scan.bundle.map (· ++ S.feed (walkPackage fs c.directory).files) } :=
    h.setBundle (by simp)
  unfold addCandidate
  dsimp only
  split_ifs
  · exact h
  · exact hfed
  · exact hfed
  refine hfed.insert c.name (readCandidate_manifest hc) ?_ rfl ?_
  · intro checksum hsum
    obtain ⟨bytes, -, heq⟩ := map_eq_some_iff.mp hsum
    exact heq.symm
  · intro hsome
    simpa using hsome

theorem built_foldl {α : Type} {f : Scan → α → Scan}
    (hf : ∀ scan a, Built S fs old scan → Built S fs old (f scan a)) (as : List α)
    (h : Built S fs old scan) : Built S fs old (as.foldl f scan) := by
  induction as generalizing scan with
  | nil => exact h
  | cons a as ih => exact ih (hf scan a h)

theorem built_buildPackageListing (S : Setup) (fs : FileSystem) (dirs : Directories)
    (old : Listing) : Built S fs old (buildPackageListing S fs dirs old) := by
  unfold buildPackageListing
  apply built_foldl
  · intro scan directory hscan
    exact built_foldl (fun _ name h => h.maybeAddPackage true directory name) _ hscan
  cases dirs.user with
  | none => exact Built.empty S fs old
  | some directory =>
    apply built_foldl _ _ (Built.empty S fs old)
    intro scan name hscan
    have hadd := hscan.maybeAddPackage false directory name
    unfold addUserPackage
    split
    · rename_i heq
      rw [heq] at hadd
      -- a package of the user: the checksum is given up
      exact hadd.setBundle fun hnone => nomatch hnone
    · rename_i heq
      rwa [heq] at hadd

/-! ### A package after a run -/

/-- What a run does for a package: it keeps a checksum or takes the one of the new bundle. -/
structure Rebuilt (S : Setup) (fs : FileSystem) (old : Listing) (bundle : Option CStr)
    (name : Bytes) (package : Package) : Prop where
  own : ∀ checksum, package.ownChecksum = some checksum →
    checksum = S.sha256 (S.feed (walkPackage fs package.directory).files)
  bundleChecksum : package.bundleChecksum = (keptChecksum old name package.ownChecksum <|> bundle)
  bundle : bundle.isSome → package.ownChecksum.isSome
  written : ∀ checksum, package.bundleChecksum = some checksum →
    package.manifest.checksum = .value checksum
  read : package.bundleChecksum = none →
    ∃ content override, S.manifest content override = some package.manifest

theorem rebuilt {packages : Packages} {dirs : Directories}
    {name : Bytes} {package : Package}
    (h : (buildPackages S packages fs dirs).listing.lookup name = some package) :
    Rebuilt S fs packages.listing (buildPackages S packages fs dirs).bundleChecksum name
      package := by
  have hbuilt := built_buildPackageListing S fs dirs packages.listing
  have hlook := lookup_mapValues
    (fixup ((buildPackageListing S fs dirs packages.listing).bundle.map S.sha256))
    (buildPackageListing S fs dirs packages.listing).listing name
  obtain ⟨scanned, hscanned, rfl⟩ := map_eq_some_iff.mp (hlook.symm.trans h)
  have hkept := hbuilt.kept name scanned hscanned
  constructor
  · exact hbuilt.own name scanned hscanned
  · show (scanned.bundleChecksum <|> _) = _
    rw [hkept]
    rfl
  · intro hsome
    exact hbuilt.bundle (by simpa [buildPackages] using hsome) name scanned hscanned
  · intro checksum hsum
    unfold fixup at hsum ⊢
    dsimp only at hsum ⊢
    rw [hsum]
  intro hnone
  unfold fixup at hnone ⊢
  dsimp only at hnone ⊢
  rw [hnone]
  exact hbuilt.read name scanned hscanned

/-! ### Many runs -/

section Runs

variable (S : Setup) (runs : ℕ → Disk)

/-- The packages after a run; the first run is run 0. -/
def packagesAfter : ℕ → Packages
  | 0 => buildPackages S {} (runs 0).fs (runs 0).dirs
  | k + 1 => buildPackages S (packagesAfter k) (runs (k + 1)).fs (runs (k + 1)).dirs

/-- The packages before a run. -/
def packagesBefore : ℕ → Packages
  | 0 => {}
  | k + 1 => packagesAfter S runs k

theorem packagesAfter_eq (k : ℕ) :
    packagesAfter S runs k =
      buildPackages S (packagesBefore S runs k) (runs k).fs (runs k).dirs := by
  cases k <;> rfl

/-- The files of a package at the time of a run. -/
def filesAfter (k : ℕ) (name : Bytes) : Option (List (Bytes × Bytes)) :=
  ((packagesAfter S runs k).listing.lookup name).map fun package =>
    (walkPackage (runs k).fs package.directory).files

/-- The run had a bundle checksum. -/
def Checksummed (k : ℕ) : Prop := (packagesAfter S runs k).bundleChecksum.isSome

/-- The package's own checksum was computed in the run. -/
def OwnChecksummed (name : Bytes) (k : ℕ) : Prop :=
  ((packagesAfter S runs k).listing.lookup name).any (·.ownChecksum.isSome)

/-- `j` is a run with a bundle checksum since which the package has been there with exactly the
    files of run `k`, and checksums were available. -/
def Since (available : ℕ → Prop) (name : Bytes) (k j : ℕ) : Prop :=
  j ≤ k ∧ Checksummed S runs j ∧ ∀ i, j ≤ i → i ≤ k →
    available i ∧ ∃ files, filesAfter S runs i name = some files ∧
      filesAfter S runs k name = some files

/-- `checksum` is the bundle checksum of the earliest such run. -/
def Oldest (available : ℕ → Prop) (name : Bytes) (k : ℕ) (checksum : CStr) : Prop :=
  ∃ j, IsLeast {j | Since S runs available name k j} j ∧
    (packagesAfter S runs j).bundleChecksum = some checksum

variable {name : Bytes} {available : ℕ → Prop}

theorem exists_oldest {k j : ℕ}
    (h : Since S runs available name k j) : ∃ checksum, Oldest S runs available name k checksum := by
  obtain ⟨least, hleast⟩ : ∃ least, IsLeast {j | Since S runs available name k j} least := by
    classical
    exact ⟨_, Nat.isLeast_find ⟨j, h⟩⟩
  obtain ⟨checksum, hsum⟩ := isSome_iff_exists.mp hleast.1.2.1
  exact ⟨checksum, least, hleast, hsum⟩

variable {k : ℕ} {checksum : CStr}

theorem oldest_unique {checksum' : CStr} (h : Oldest S runs available name k checksum)
    (h' : Oldest S runs available name k checksum') : checksum = checksum' := by
  obtain ⟨j, hleast, hsum⟩ := h
  obtain ⟨j', hleast', hsum'⟩ := h'
  rw [hleast.unique hleast', hsum'] at hsum
  exact (some.inj hsum).symm

/-- With no earlier run to go back to, it is the run itself. -/
theorem oldest_fresh
    (hfresh : ∀ j < k, ¬ Since S runs available name k j) (havail : available k)
    (hfiles : (filesAfter S runs k name).isSome) (checksum : CStr) :
    Oldest S runs available name k checksum ↔
      (packagesAfter S runs k).bundleChecksum = some checksum := by
  constructor
  · rintro ⟨j, ⟨hsince, -⟩, hsum⟩
    have hle := hsince.1
    have hnot : ¬ j < k := fun hlt => hfresh j hlt hsince
    have hjk : j = k := by omega
    rwa [hjk] at hsum
  intro hsum
  refine ⟨k, ⟨⟨Nat.le_refl k, by rw [Checksummed, hsum]; rfl, ?_⟩, ?_⟩, hsum⟩
  · intro i hki hik
    obtain rfl : i = k := by omega
    obtain ⟨files, hsome⟩ := isSome_iff_exists.mp hfiles
    exact ⟨havail, files, hsome, hsome⟩
  · intro j hj
    by_contra hlt
    exact hfresh j (by omega) hj

/-- If nothing has changed since the last run, the runs to go back to are the same. -/
theorem since_succ {k j : ℕ} (hjk : j ≤ k)
    (havail : available (k + 1))
    (hsame : filesAfter S runs (k + 1) name = filesAfter S runs k name) :
    Since S runs available name (k + 1) j ↔ Since S runs available name k j := by
  constructor
  · rintro ⟨-, hchecksummed, hbetween⟩
    refine ⟨hjk, hchecksummed, fun i hji hik => ?_⟩
    obtain ⟨ha, files, hi, hk⟩ := hbetween i hji (by omega)
    exact ⟨ha, files, hi, hsame ▸ hk⟩
  rintro ⟨-, hchecksummed, hbetween⟩
  refine ⟨by omega, hchecksummed, fun i hji hik => ?_⟩
  by_cases hlast : i = k + 1
  · obtain ⟨-, files, hk, -⟩ := hbetween k hjk (Nat.le_refl k)
    rw [hlast]
    exact ⟨havail, files, hsame.trans hk, hsame.trans hk⟩
  · obtain ⟨ha, files, hi, hk⟩ := hbetween i hji (by omega)
    exact ⟨ha, files, hi, hsame.trans hk⟩

/-- Such a checksum stays the oldest one while nothing changes. -/
theorem oldest_succ (h : Oldest S runs available name k checksum) (havail : available (k + 1))
    (hsame : filesAfter S runs (k + 1) name = filesAfter S runs k name) :
    Oldest S runs available name (k + 1) checksum := by
  obtain ⟨j, ⟨hsince, hleast⟩, hsum⟩ := h
  refine ⟨j, ⟨(since_succ S runs hsince.1 havail hsame).mpr hsince, ?_⟩, hsum⟩
  intro j' hj'
  by_cases hle : j' ≤ k
  · exact hleast ((since_succ S runs hle havail hsame).mp hj')
  · have := hsince.1
    omega

variable {package : Package}

theorem rebuilt_after
    (h : (packagesAfter S runs k).listing.lookup name = some package) :
    Rebuilt S (runs k).fs (packagesBefore S runs k).listing
      (packagesAfter S runs k).bundleChecksum name package := by
  rw [packagesAfter_eq] at h ⊢
  exact rebuilt h

theorem keptChecksum_eq_some {own : Option CStr} :
    keptChecksum old name own = some checksum ↔
      ∃ package, old.lookup name = some package ∧ package.bundleChecksum = some checksum ∧
        package.ownChecksum = own ∧ own.isSome := by
  unfold keptChecksum
  constructor
  · intro h
    split at h
    · exact nomatch h
    rename_i package hlook
    split at h
    · rename_i bundle value hbun hown
      split_ifs at h with heq
      exact ⟨package, hlook, hbun.trans h, hown.trans heq, by rw [← heq]; rfl⟩
    · exact nomatch h
  · rintro ⟨package, hlook, hbun, rfl, hsome⟩
    obtain ⟨value, hown⟩ := isSome_iff_exists.mp hsome
    simp [hlook, hbun, hown]

/-- A package whose own checksum was computed: the checksum is the one of its files. -/
theorem ownChecksum_after {files : List (Bytes × Bytes)}
    (hown : OwnChecksummed S runs name k) (hfiles : filesAfter S runs k name = some files) :
    ∃ package, (packagesAfter S runs k).listing.lookup name = some package ∧
      package.ownChecksum = some (S.sha256 (S.feed files)) := by
  obtain ⟨package, hlook, heq⟩ := map_eq_some_iff.mp hfiles
  unfold OwnChecksummed at hown
  rw [hlook] at hown
  obtain ⟨checksum, hsum⟩ := isSome_iff_exists.mp hown
  refine ⟨package, hlook, ?_⟩
  rw [hsum, (rebuilt_after S runs hlook).own checksum hsum, heq]

/-- Without a checksum of its own a package keeps nothing, and there is no new one. -/
theorem bundleChecksum_unowned
    (h : (packagesAfter S runs k).listing.lookup name = some package)
    (hown : package.ownChecksum = none) (checksum : CStr) :
    package.bundleChecksum = some checksum ↔
      Oldest S runs (OwnChecksummed S runs name) name k checksum := by
  have hrebuilt := rebuilt_after S runs h
  have hbun : (packagesAfter S runs k).bundleChecksum = none := by
    rw [← not_isSome_iff_eq_none]
    intro hsome
    have := hrebuilt.bundle hsome
    rw [hown] at this
    exact nomatch this
  have hkept : keptChecksum (packagesBefore S runs k).listing name none = none := by
    rw [eq_none_iff_forall_ne_some]
    intro checksum hsome
    obtain ⟨-, -, -, -, hnone⟩ := keptChecksum_eq_some.mp hsome
    exact nomatch hnone
  rw [hrebuilt.bundleChecksum, hown, hkept, hbun]
  constructor
  · intro hsome
    exact nomatch hsome
  · rintro ⟨j, ⟨⟨hjk, -, hbetween⟩, -⟩, -⟩
    have havail := (hbetween k hjk (Nat.le_refl k)).1
    simp [OwnChecksummed, h, hown] at havail

/-- A package that keeps nothing takes the checksum of the new bundle. -/
theorem bundleChecksum_fresh
    (h : (packagesAfter S runs k).listing.lookup name = some package)
    (hown : package.ownChecksum.isSome)
    (hkept : keptChecksum (packagesBefore S runs k).listing name package.ownChecksum = none)
    (hfresh : ∀ j < k, ¬ Since S runs (OwnChecksummed S runs name) name k j) (checksum : CStr) :
    package.bundleChecksum = some checksum ↔
      Oldest S runs (OwnChecksummed S runs name) name k checksum := by
  have havail : OwnChecksummed S runs name k := by simp [OwnChecksummed, h, hown]
  have hfiles : (filesAfter S runs k name).isSome := by simp [filesAfter, h]
  rw [(rebuilt_after S runs h).bundleChecksum, hkept, oldest_fresh S runs hfresh havail hfiles]
  rfl

/-- The checksum of a package's bundle is the one of the earliest run since which the package has
    its files and its own checksum was computed. -/
theorem bundleChecksum_after (hinj : Function.Injective S.sha256) (h : (packagesAfter S runs k).listing.lookup name = some package)
    (checksum : CStr) :
    package.bundleChecksum = some checksum ↔
      Oldest S runs (OwnChecksummed S runs name) name k checksum := by
  cases hown : package.ownChecksum with
  | none => exact bundleChecksum_unowned S runs h hown checksum
  | some own =>
    have hsome : package.ownChecksum.isSome := by rw [hown]; rfl
    induction k generalizing package checksum own with
    | zero =>
      exact bundleChecksum_fresh S runs h hsome rfl (fun j hj => absurd hj (by omega)) checksum
    | succ k ih =>
      have havail : OwnChecksummed S runs name (k + 1) := by simp [OwnChecksummed, h, hown]
      have hfiles : filesAfter S runs (k + 1) name =
          some (walkPackage (runs (k + 1)).fs package.directory).files := by
        unfold filesAfter
        rw [h, map_some]
      have howned := (rebuilt_after S runs h).own own hown
      cases hkept : keptChecksum (packagesAfter S runs k).listing name package.ownChecksum with
      | some kept =>
        -- the files are the ones of the last run
        obtain ⟨old, hold, hbun, hsameOwn, -⟩ := keptChecksum_eq_some.mp hkept
        have holdest := (ih hold kept own (hsameOwn.trans hown) (by rw [hsameOwn, hown]; rfl)).mp
          hbun
        have hsame : filesAfter S runs (k + 1) name = filesAfter S runs k name := by
          have heq := (rebuilt_after S runs hold).own own (hsameOwn.trans hown)
          unfold filesAfter
          rw [h, hold, map_some, map_some]
          exact congrArg some (feed_injective hinj (walkPackage_valid _ _) (walkPackage_valid _ _)
            (hinj (howned.symm.trans heq)))
        have hnext := oldest_succ S runs holdest havail hsame
        have hpack : package.bundleChecksum = some kept := by
          rw [(rebuilt_after S runs h).bundleChecksum]
          unfold packagesBefore
          rw [hkept]
          rfl
        rw [hpack]
        constructor
        · intro heq
          rwa [← some.inj heq]
        · intro hother
          rw [oldest_unique S runs hnext hother]
      | none =>
        apply bundleChecksum_fresh S runs h hsome hkept
        -- a run to go back to would have left a checksum to keep
        intro j hj hsince
        obtain ⟨hownBefore, files, hbef, hnow⟩ := hsince.2.2 k (by omega) (by omega)
        have hsame : filesAfter S runs (k + 1) name = filesAfter S runs k name :=
          hnow.trans hbef.symm
        obtain ⟨old, hold, holdOwn⟩ := ownChecksum_after S runs hownBefore hbef
        obtain ⟨kept, holdest⟩ :=
          exists_oldest S runs ((since_succ S runs (by omega) havail hsame).mp hsince)
        have hbun := (ih hold kept _ holdOwn (by rw [holdOwn]; rfl)).mpr holdest
        have hfilesEq : files = (walkPackage (runs (k + 1)).fs package.directory).files :=
          mem_unique hnow hfiles
        have := keptChecksum_eq_some.mpr ⟨old, hold, hbun, by
          rw [holdOwn, hown, howned, hfilesEq], hsome⟩
        rw [hkept] at this
        exact nomatch this

/-! ### The checksums in the manifests -/

/-- Every `.checksum` is the oldest bundle checksum of its package, in the given sense. -/
def TracksStrictly (available : ℕ → Prop) : Prop :=
  ∀ k name package checksum, (packagesAfter S runs k).listing.lookup name = some package →
    package.manifest.checksum = .value checksum → Oldest S runs available name k checksum

/-- What the checksums of many runs tell. -/
structure Tracking : Prop where
  reported : ∀ j k checksum, j ≤ k → (packagesAfter S runs j).checksum = some checksum →
    (packagesAfter S runs k).checksum = some checksum
  /-- A `.checksum` is the oldest one, unless the manifest was read with it. -/
  oldest : ∀ k name package checksum, (packagesAfter S runs k).listing.lookup name = some package →
    package.manifest.checksum = .value checksum →
    Oldest S runs (OwnChecksummed S runs name) name k checksum ∨
      ∃ content override, S.manifest content override = some package.manifest
  written : ∀ k name package checksum, (packagesAfter S runs k).listing.lookup name = some package →
    Oldest S runs (OwnChecksummed S runs name) name k checksum →
    package.manifest.checksum = .value checksum
  unchanged : ∀ k name package package', Checksummed S runs k → Checksummed S runs (k + 1) →
    (packagesAfter S runs k).listing.lookup name = some package →
    (packagesAfter S runs (k + 1)).listing.lookup name = some package' →
    filesAfter S runs (k + 1) name = filesAfter S runs k name →
    package'.manifest.checksum = package.manifest.checksum
  first : ∀ name package checksum, (packagesAfter S runs 0).listing.lookup name = some package →
    (packagesAfter S runs 0).checksum = some checksum →
    package.manifest.checksum = .value checksum

theorem checksum_after (k : ℕ) :
    (packagesAfter S runs k).checksum =
      ((packagesBefore S runs k).checksum <|> (packagesAfter S runs k).bundleChecksum) := by
  rw [packagesAfter_eq]
  rfl

/-- With a bundle checksum every package has one. -/
theorem isSome_bundleChecksum
    (hchecksummed : Checksummed S runs k)
    (h : (packagesAfter S runs k).listing.lookup name = some package) :
    OwnChecksummed S runs name k ∧ ∃ checksum, package.bundleChecksum = some checksum := by
  have hrebuilt := rebuilt_after S runs h
  have hown := hrebuilt.bundle hchecksummed
  refine ⟨by simp [OwnChecksummed, h, hown], ?_⟩
  obtain ⟨checksum, hsum⟩ := isSome_iff_exists.mp hchecksummed
  rw [hrebuilt.bundleChecksum, hsum]
  cases keptChecksum (packagesBefore S runs k).listing name package.ownChecksum with
  | none => exact ⟨checksum, rfl⟩
  | some kept => exact ⟨kept, rfl⟩

/-- The reported checksum never changes, and the checksum in a manifest is the one of the earliest
    run since which the package has its files. -/
theorem checksums_track (hinj : Function.Injective S.sha256) : Tracking S runs where
  reported := by
    intro j k checksum hjk hreported
    induction k, hjk using Nat.le_induction with
    | base => exact hreported
    | succ k _ ih =>
      rw [checksum_after]
      unfold packagesBefore
      rw [ih]
      rfl
  oldest := by
    intro k name package checksum hlookup hvalue
    cases hbundle : package.bundleChecksum with
    | none => exact .inr ((rebuilt_after S runs hlookup).read hbundle)
    | some bundle =>
      have hwritten := (rebuilt_after S runs hlookup).written bundle hbundle
      have heq : bundle = checksum := Member.value.inj (hwritten.symm.trans hvalue)
      rw [heq] at hbundle
      exact .inl ((bundleChecksum_after S runs hinj hlookup checksum).mp hbundle)
  written := by
    intro k name package checksum hlookup holdest
    apply (rebuilt_after S runs hlookup).written
    exact (bundleChecksum_after S runs hinj hlookup checksum).mpr holdest
  unchanged := by
    intro k name package package' hchecksummed hchecksummed' hlookup hlookup' hsame
    obtain ⟨-, checksum, hbundle⟩ := isSome_bundleChecksum S runs hchecksummed hlookup
    obtain ⟨havailable, -⟩ := isSome_bundleChecksum S runs hchecksummed' hlookup'
    have holdest := (bundleChecksum_after S runs hinj hlookup checksum).mp hbundle
    have hnext := oldest_succ S runs holdest havailable hsame
    have hbundle' := (bundleChecksum_after S runs hinj hlookup' checksum).mpr hnext
    rw [(rebuilt_after S runs hlookup).written checksum hbundle,
      (rebuilt_after S runs hlookup').written checksum hbundle']
  first := by
    intro name package checksum hlookup hreported
    have hrebuilt := rebuilt_after S runs hlookup
    apply hrebuilt.written
    rw [hrebuilt.bundleChecksum, ← hreported, checksum_after]
    rfl

end Runs

def nameC : FileName := letter 99 (by decide)

/-- Packages `a` and `b`; then `a` is a package of the user for a while, and `c` comes in. -/
def disks : ℕ → Disk
  | 0 => ⟨host [] [nameA, nameB] (by decide), ⟨some userDirectory, [systemDirectory]⟩⟩
  | 1 => ⟨host [nameA] [nameB] (by decide), ⟨some userDirectory, [systemDirectory]⟩⟩
  | _ => ⟨host [] [nameA, nameB, nameC] (by decide), ⟨some userDirectory, [systemDirectory]⟩⟩

theorem tracking_disks : Tracking plain disks := checksums_track plain disks digits_injective

/-- The bundle checksum of so many of these packages. -/
def bundleOf (count : ℕ) : CStr :=
  digits (plain.feed (List.replicate count (manifestName, [123, 125])))

/-- A package of the user keeps its checksum, and the one after it has to take a new one. -/
theorem not_tracksStrictly :
    (¬ ∀ S : Setup, Function.Injective S.sha256 → ∀ runs : ℕ → Disk,
      TracksStrictly S runs (Checksummed S runs)) ∧
    ¬ ∀ S : Setup, Function.Injective S.sha256 → ∀ runs : ℕ → Disk,
      TracksStrictly S runs fun _ => True := by
  constructor
  · intro h
    obtain ⟨package, hlookup, hbundle⟩ : ∃ package,
        (packagesAfter plain disks 1).listing.lookup nameA.bytes = some package ∧
          package.bundleChecksum = some (bundleOf 2) :=
      bind_eq_some_iff.mp (by decide)
    have hwritten := (rebuilt_after plain disks hlookup).written _ hbundle
    obtain ⟨j, ⟨⟨hjk, -, hbetween⟩, -⟩, -⟩ :=
      h plain digits_injective disks 1 nameA.bytes package (bundleOf 2) hlookup hwritten
    -- there was no checksum in the run itself
    have hchecksummed := (hbetween 1 hjk (Nat.le_refl 1)).1
    exact absurd hchecksummed (by unfold Checksummed; decide)
  intro h
  obtain ⟨package, hlookup, hbundle⟩ : ∃ package,
      (packagesAfter plain disks 2).listing.lookup nameB.bytes = some package ∧
        package.bundleChecksum = some (bundleOf 3) :=
    bind_eq_some_iff.mp (by decide)
  have hwritten := (rebuilt_after plain disks hlookup).written _ hbundle
  obtain ⟨j, ⟨-, hleast⟩, hchecksum⟩ :=
    h plain digits_injective disks 2 nameB.bytes package (bundleOf 3) hlookup hwritten
  -- the package was there from the first run on, with its one file
  have hfiles : ∀ i ≤ 2, filesAfter plain disks i nameB.bytes =
      some [(manifestName, [123, 125])] := by
    decide
  have hzero : Since plain disks (fun _ => True) nameB.bytes 2 0 :=
    ⟨by omega, by unfold Checksummed; decide,
      fun i _ hi => ⟨trivial, _, hfiles i hi, hfiles 2 (Nat.le_refl 2)⟩⟩
  have hj : j = 0 := Nat.le_zero.mp (hleast hzero)
  rw [hj] at hchecksum
  exact nomatch hchecksum

end Cockpit.Bundle
