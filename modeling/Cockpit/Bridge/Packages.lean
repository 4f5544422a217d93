import Cockpit.Bridge.PackageFiles

namespace Cockpit.Bundle

/-!
# The list of packages (`src/bridge/cockpitpackages.c`)

A package directory with a manifest becomes a package, unless one of that name and of no lower
priority is there already.  The bundle's checksum is fed while the directories are walked through.

A manifest is what the getters of `cockpitjson.c` make of it; reading it is part of `Setup`, and so
is the hash.  Left out are the paths that a package keeps for content negotiation, the policy and
the text of an unavailable package, and the loop over `NULL` for a user directory that cannot be
listed.
-/

/-- A member of an object: absent, of another type, or a value. -/
inductive Member (α : Type) where
  | absent
  | invalid
  | value (a : α)

/-- What a getter gives: `none` where it returns `FALSE`. -/
def Member.get {α : Type} (member : Member α) (defawlt : α) : Option α :=
  match member with
  | .absent => some defawlt
  | .invalid => none
  | .value a => some a

structure Manifest where
  name : Member Bytes := .absent
  priority : Member ℚ := .absent
  base : Member Bytes := .absent
  /-- "requires", with the member "cockpit" of it. -/
  requires : Member (Member Bytes) := .absent
  contentSecurityPolicy : Member Bytes := .absent
  /-- ".checksum" -/
  checksum : Member CStr := .absent

structure Setup where
  /-- `g_checksum_get_string` of a SHA-256. -/
  sha256 : Bytes → CStr
  /-- `manifest.json`, patched by `override.json` where that can be read. -/
  manifest : Bytes → Option Bytes → Option Manifest

/-- What is found at paths. -/
structure FileSystem where
  node : Bytes → Node
  distinct : ∀ path, (node path).Distinct

/-- The `cockpit` directories, of the user and of the system. -/
structure Directories where
  user : Option Bytes := none
  system : List Bytes := []

/-- `CockpitPackage` -/
structure Package where
  directory : Option Bytes
  manifest : Manifest
  ownChecksum : Option CStr := none
  bundleChecksum : Option CStr := none

abbrev Listing := AList fun _ : Bytes => Package

/-! ### Reading a manifest -/

/-- `validate_package` -/
def validatePackage (name : Bytes) : Bool :=
  name != [] && name.all fun b =>
    65 ≤ b && b ≤ 90 || 97 ≤ b && b ≤ 122 || 48 ≤ b && b ≤ 57 || b == 95 || b == 45

/-- `manifest.json` -/
def manifestName : Bytes := [109, 97, 110, 105, 102, 101, 115, 116, 46, 106, 115, 111, 110]

/-- `override.json` -/
def overrideName : Bytes := [111, 118, 101, 114, 114, 105, 100, 101, 46, 106, 115, 111, 110]

variable (S : Setup)

/-- `read_package_manifest` -/
def readPackageManifest (fs : FileSystem) (path name : Bytes) : Option Manifest :=
  match (fs.node path).read [manifestName] with
  | none => none
  | some content =>
    match S.manifest content ((fs.node path).read [overrideName]) with
    | none => none
    | some manifest => if validatePackage name then some manifest else none

variable (manifest : Manifest)

/-- `read_package_name` -/
def readPackageName (name : Bytes) : Option Bytes :=
  match manifest.name.get name with
  | none => none
  | some value => if validatePackage value then some value else none

/-- `compar_manifest_priority`: a priority that is no number leaves both, or the second, at 1. -/
def comparManifestPriority (manifest1 manifest2 : Manifest) : Ordering :=
  match manifest1.priority.get 1 with
  | none => .eq
  | some priority1 => compare priority1 ((manifest2.priority.get 1).getD 1)

/-- `calc_package_directory` -/
def calcPackageDirectory (path : Bytes) : Option Bytes :=
  match manifest.base with
  | .absent => some path
  | .invalid => none
  | .value base =>
    if base.head? = some slash then some base
    else if base = [] then some path
    else some (below (some path) base)

/-- `cockpit_web_response_is_header_value` -/
def isHeaderValue (value : Bytes) : Bool := value.all fun b => b != 10 && b != 11 && b != 13

/-- `setup_package_manifest`, and `check_package_compatible` in it. -/
def setupPackageManifest : Bool :=
  (match manifest.requires with
    | .absent => true
    | .invalid => false
    | .value cockpit => (cockpit.get []).isSome) &&
  (match manifest.contentSecurityPolicy with
    | .absent => true
    | .invalid => false
    | .value policy => isHeaderValue policy)

/-! ### Adding a package -/

/-- What a file puts into the checksums. -/
def Setup.feedFile (file : Bytes × Bytes) : Bytes :=
  file.1 ++ 0 :: ((S.sha256 file.2).bytes ++ [0])

def Setup.feed (files : List (Bytes × Bytes)) : Bytes := files.flatMap S.feedFile

variable (fs : FileSystem)

/-- `package_walk_directory` for the base directory of a package. -/
def walkPackage (directory : Option Bytes) : Walk :=
  match directory with
  | none => ⟨[], false⟩
  | some directory => walkDirectory (fs.node directory)

/-- The list so far, and what was fed to the bundle's checksum, if there will be one. -/
structure Scan where
  listing : Listing := ∅
  bundle : Option Bytes := some []

/-- A directory with a manifest. -/
structure Candidate where
  name : Bytes
  manifest : Manifest
  directory : Option Bytes

/-- `maybe_add_package` up to the name and the base directory. -/
def readCandidate (parent name : Bytes) : Option Candidate :=
  let path := below (some parent) name
  match readPackageManifest S fs path name with
  | none => none
  | some manifest =>
    match readPackageName manifest name with
    | none => none
    | some name =>
      some { name, manifest, directory := calcPackageDirectory manifest path }

/-- Whether the package is there already, with no lower priority. -/
def outranked (present : Option Manifest) : Bool :=
  match present with
  | none => false
  | some other => (comparManifestPriority manifest other).isLE

variable (old : Listing)

/-- The bundle checksum that a package keeps, if none of its files has changed. -/
def keptChecksum (name : Bytes) (ownChecksum : Option CStr) : Option CStr :=
  match old.lookup name with
  | none => none
  | some package =>
    match package.bundleChecksum, package.ownChecksum with
    | some bundle, some own => if some own = ownChecksum then some bundle else none
    | _, _ => none

/-- `maybe_add_package` from the lookup on, and whether it adds a package. -/
def addCandidate (system : Bool) (scan : Scan)
    (c : Candidate) : Scan × Bool :=
  if outranked c.manifest ((scan.listing.lookup c.name).map Package.manifest) then (scan, false)
  else
    let walk := walkPackage fs c.directory
    let walked := scan.bundle.isSome || system
    -- a walk that fails has fed the checksum all the same
    let fed := { scan with bundle := scan.bundle.map (· ++ S.feed walk.files) }
    if walked && !walk.ok then (fed, false)
    else if !setupPackageManifest c.manifest then (fed, false)
    else
      let ownChecksum := scan.bundle.map fun _ => S.sha256 (S.feed walk.files)
      let package :=
        { directory := c.directory, manifest := c.manifest, ownChecksum,
          bundleChecksum := keptChecksum old c.name ownChecksum }
      ({ fed with listing := fed.listing.insert c.name package }, true)

/-- `maybe_add_package` -/
def maybeAddPackage (system : Bool)
    (parent : Bytes) (scan : Scan) (name : Bytes) : Scan × Bool :=
  match readCandidate S fs parent name with
  | none => (scan, false)
  | some c => addCandidate S fs old system scan c

/-! ### Building the list -/

def Entries.names : Entries → List Bytes
  | .nil => []
  | .cons name _ rest => name.bytes :: rest.names

/-- `directory_filenames`, for what is a directory. -/
def directoryFilenames (directory : Bytes) : List Bytes :=
  match fs.node directory with
  | .dir entries => entries.names.insertionSort (· ≤ ·)
  | _ => []

/-- A package of the user: there will be no checksum. -/
def addUserPackage (parent : Bytes) (scan : Scan)
    (name : Bytes) : Scan :=
  match maybeAddPackage S fs old false parent scan name with
  | (scan, true) => { scan with bundle := none }
  | (scan, false) => scan

/-- The packages of a system directory. -/
def addSystemPackages (scan : Scan)
    (directory : Bytes) : Scan :=
  (directoryFilenames fs directory).foldl
    (fun scan name => (maybeAddPackage S fs old true directory scan name).1) scan

/-- `build_package_listing` -/
def buildPackageListing (dirs : Directories) (old : Listing) : Scan :=
  let user :=
    match dirs.user with
    | none => {}
    | some directory =>
      (directoryFilenames fs directory).foldl (addUserPackage S fs old directory) {}
  dirs.system.foldl (addSystemPackages S fs old) user

/-- `CockpitPackages`; the list is empty before it is built. -/
structure Packages where
  listing : Listing := ∅
  checksum : Option CStr := none
  bundleChecksum : Option CStr := none

/-- The values of a list, changed one by one. -/
def mapValues (f : Package → Package) (listing : Listing) : Listing :=
  ⟨listing.entries.map fun entry => ⟨entry.1, f entry.2⟩, by
    have hkeys := listing.nodupKeys
    unfold List.NodupKeys List.keys at hkeys ⊢
    rw [List.map_map]
    exact hkeys⟩

theorem lookup_mapValues (f : Package → Package) (listing : Listing) (name : Bytes) :
    (mapValues f listing).lookup name = (listing.lookup name).map f :=
  List.dlookup_map₂ (f := fun _ => f) name

/-- What `build_packages` does to a package in the end. -/
def fixup (bundleChecksum : Option CStr) (package : Package) : Package :=
  let own := package.bundleChecksum <|> bundleChecksum
  { package with
    bundleChecksum := own
    manifest :=
      match own with
      | none => package.manifest
      | some checksum => { package.manifest with checksum := .value checksum } }

variable (packages : Packages)

/-- `build_packages` -/
def buildPackages (fs : FileSystem) (dirs : Directories) :
    Packages :=
  let scan := buildPackageListing S fs dirs packages.listing
  let bundleChecksum := scan.bundle.map S.sha256
  { listing := mapValues (fixup bundleChecksum) scan.listing
    checksum := packages.checksum <|> bundleChecksum
    bundleChecksum }

/-! ### Serving files -/

/-- The checks of `cockpit_packages_resolve`: `../` and `/..` are not allowed. -/
def acceptsPath (path : Bytes) : Bool :=
  !decide ([46, 46, slash] <:+: path) && !decide ([slash, 46, 46] <:+: path) && validatePath path

/-- `cockpit_packages_resolve`: the base directory, and the path below it. -/
def Packages.resolve (name path : Bytes) : Option (Option Bytes × Bytes) :=
  if ¬ acceptsPath path then none
  else if ¬ validatePackage name then none
  else (packages.listing.lookup name).map fun package => (package.directory, path)

/-- The file is read. -/
def Packages.readResource (fs : FileSystem) (name path : Bytes) :
    Option Bytes :=
  match packages.resolve name path with
  | some (some directory, path) => (fs.node directory).read (components path)
  | _ => none

end Cockpit.Bundle
