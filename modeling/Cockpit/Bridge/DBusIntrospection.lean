import Cockpit.Bridge.DBusVariant

namespace Cockpit

open List JsonObject

/-!
# Introspection data: `src/bridge/cockpitdbusmeta.c`

`cockpit_dbus_meta_build` makes the body of a `meta` message from introspection data, and
`cockpit_dbus_meta_parse` makes introspection data from such a body.

* `DBusMeta.parseSection_of_getMember` — the loop over the members of a section undoes the loop
  that built it, when parsing undoes building on each of them and their names are distinct;
* `DBusMeta.parse_build` — parsing undoes building.
-/

/-- `GDBusArgInfo` -/
structure ArgInfo where
  name : String
  signature : String

/-- `GDBusMethodInfo`; a list that is not there is `NULL`. -/
structure MethodInfo where
  name : String
  inArgs : Option (List ArgInfo) := none
  outArgs : Option (List ArgInfo) := none

/-- `GDBusSignalInfo` -/
structure SignalInfo where
  name : String
  args : Option (List ArgInfo) := none

/-- `GDBusPropertyInfo`, with the two bits of its flags. -/
structure PropertyInfo where
  name : String
  signature : Option String
  readable : Bool
  writable : Bool

/-- `GDBusInterfaceInfo` -/
structure InterfaceInfo where
  name : String
  methods : Option (List MethodInfo) := none
  signals : Option (List SignalInfo) := none
  properties : Option (List PropertyInfo) := none

namespace DBusMeta

/-! ### Building -/

/-- `build_meta_arguments` -/
def buildArguments (args : List ArgInfo) : List Json := args.map fun arg => .string arg.signature

variable (object : JsonObject)

/-- A member that is only set when there is a value for it. -/
def withMember (field : String) : Option Json → JsonObject
  | none => object
  | some value => object.setMember field value

/-- The arguments of a method or a signal, when they are not `NULL`. -/
def buildField (field : String) (args : Option (List ArgInfo)) :
    JsonObject :=
  withMember object field (args.map fun args => .array (buildArguments args))

/-- `build_meta_method` -/
def buildMethod (meth : MethodInfo) : JsonObject :=
  buildField (buildField [] "in" meth.inArgs) "out" meth.outArgs

/-- `build_meta_signal` -/
def buildSignal (sig : SignalInfo) : JsonObject := buildField [] "in" sig.args

/-- `build_meta_property` -/
def buildProperty (prop : PropertyInfo) : JsonObject :=
  let flags := (if prop.readable then "r" else "") ++ (if prop.writable then "w" else "")
  let property := setStringMember [] "flags" flags
  match prop.signature with
  | none => property
  | some signature => property.setStringMember "type" signature

variable {α β : Type}

/-- The loop over the methods, properties or signals of an interface. -/
def buildMembers (name : α → String) (build : α → JsonObject) (members : List α) : JsonObject :=
  members.foldl (fun object member => object.setMember (name member) (.object (build member))) []

/-- A section of the interface, when its list is not `NULL`. -/
def buildSection (interface : JsonObject) (field : String) (name : α → String)
    (build : α → JsonObject) (members : Option (List α)) : JsonObject :=
  withMember interface field (members.map fun members => .object (buildMembers name build members))

/-- `cockpit_dbus_meta_build` -/
def build (iface : InterfaceInfo) : JsonObject :=
  let interface := buildSection [] "methods" MethodInfo.name buildMethod iface.methods
  let interface := buildSection interface "properties" PropertyInfo.name buildProperty
    iface.properties
  buildSection interface "signals" SignalInfo.name buildSignal iface.signals

/-! ### Parsing -/

/-- The loop of `parse_meta_arguments`, at the argument `i`. -/
def parseArguments (i : Nat) : List Json → Except DBusError (List ArgInfo)
  | [] => .ok []
  | .string signature :: rest =>
    if VariantType.isSignature signature.toList then
      (parseArguments (i + 1) rest).map (⟨"argument_" ++ toString i, signature⟩ :: ·)
    else
      .error (invalidArgs ("argument in dbus meta field has invalid signature: " ++ signature))
  | _ :: _ => .error (invalidArgs "invalid argument in dbus meta field")

/-- A field of a method or a signal that has arguments. -/
def parseField (field kind name : String) :
    Except DBusError (Option (List ArgInfo)) :=
  match Json.getArray object field with
  | none =>
    .error (invalidArgs
      ("invalid \"" ++ field ++ "\" field in dbus meta " ++ kind ++ ": " ++ name))
  | some none | some (some []) => .ok none
  | some (some args) => (parseArguments 0 args).map some

variable (name : String)

/-- `parse_meta_method` -/
def parseMethod (method : JsonObject) : Except DBusError MethodInfo := do
  let inArgs ← parseField method "in" "method" name
  let outArgs ← parseField method "out" "method" name
  return { name, inArgs, outArgs }

/-- `parse_meta_signal` -/
def parseSignal (signal : JsonObject) : Except DBusError SignalInfo := do
  let args ← parseField signal "in" "signal" name
  return { name, args }

/-- `parse_meta_property` -/
def parseProperty (property : JsonObject) : Except DBusError PropertyInfo :=
  match Json.getString property "flags" none with
  | none => .error (invalidArgs ("invalid \"flags\" field in dbus property: " ++ name))
  | some flags =>
    let has := fun c => (flags.getD "").toList.contains c
    match Json.getString property "type" none with
    | none => .error (invalidArgs ("invalid \"type\" field in dbus property: " ++ name))
    | some none => .error (invalidArgs ("missing \"type\" field in dbus property: " ++ name))
    | some (some signature) =>
      if VariantType.isSignature signature.toList then
        .ok { name, signature := some signature, readable := has 'r', writable := has 'w' }
      else
        .error (invalidArgs
          ("the \"type\" field in dbus property is not a dbus signature: " ++ signature))

/-- The loop over the names of the members of a section. -/
def parseMembers (parse : String → JsonObject → Except DBusError α) (kind : String)
    (members : JsonObject) : List String → Except DBusError (List α)
  | [] => .ok []
  | name :: rest =>
    match Json.getObject members name with
    | some (some member) => do
      let a ← parse name member
      let as ← parseMembers parse kind members rest
      return a :: as
    -- a name without a member would be an assertion that fails; the names are the members' own
    | _ => .error (invalidArgs ("invalid " ++ kind ++ " field in dbus meta structure: " ++ name))

/-- A section of an interface. -/
def parseSection (parse : String → JsonObject → Except DBusError α) (interface : JsonObject)
    (field kind : String) : Except DBusError (Option (List α)) :=
  match Json.getObject interface field with
  | none => .error (invalidArgs ("invalid \"" ++ field ++ "\" field in dbus meta structure"))
  | some none => .ok none
  | some (some members) => (parseMembers parse kind members (members.map Prod.fst)).map some

/-- `cockpit_dbus_meta_parse` -/
def parse (interface : JsonObject) : Except DBusError InterfaceInfo := do
  let methods ← parseSection parseMethod interface "methods" "method"
  let signals ← parseSection parseSignal interface "signals" "signal"
  let properties ← parseSection parseProperty interface "properties" "property"
  return { name, methods, signals, properties }

/-! ### What a description says -/

variable (args : Option (List ArgInfo))

/-- The signatures of a list of arguments. -/
def signatures : List String := (args.getD []).map (·.signature)

/-- What is described, without the names of arguments. -/
def methodShape (meth : MethodInfo) : String × List String × List String :=
  (meth.name, signatures meth.inArgs, signatures meth.outArgs)

def signalShape (sig : SignalInfo) : String × List String := (sig.name, signatures sig.args)

def propertyShape (prop : PropertyInfo) : String × Option String × Bool × Bool :=
  (prop.name, prop.signature, prop.readable, prop.writable)

/-- Two interfaces have the same methods, signals and properties, in the same order. -/
structure Same (iface iface' : InterfaceInfo) : Prop where
  methods : (iface.methods.getD []).map methodShape = (iface'.methods.getD []).map methodShape
  signals : (iface.signals.getD []).map signalShape = (iface'.signals.getD []).map signalShape
  properties : (iface.properties.getD []).map propertyShape =
    (iface'.properties.getD []).map propertyShape

/-- Every signature is one. -/
def ValidArgs : Prop :=
  ∀ signature ∈ signatures args, VariantType.isSignature signature.toList

/-- The members of an interface have distinct names, and signatures that are valid. -/
structure WellFormed (iface : InterfaceInfo) : Prop where
  methodNames : ((iface.methods.getD []).map (·.name)).Nodup
  signalNames : ((iface.signals.getD []).map (·.name)).Nodup
  propertyNames : ((iface.properties.getD []).map (·.name)).Nodup
  methods : ∀ meth ∈ iface.methods.getD [], ValidArgs meth.inArgs ∧ ValidArgs meth.outArgs
  signals : ∀ sig ∈ iface.signals.getD [], ValidArgs sig.args
  properties : ∀ prop ∈ iface.properties.getD [], ∃ signature, prop.signature = some signature ∧
    VariantType.isSignature signature.toList

/-! ### Parsing undoes building -/

variable {field : String}

theorem getMember_withMember_self
    (hnew : object.getMember field = none) (value : Option Json) :
    (withMember object field value).getMember field = value := by
  cases value with
  | none => exact hnew
  | some value => exact getMember_setMember_self object field value

theorem getMember_withMember_ne {other : String} (hne : field ≠ other)
    (object : JsonObject) (value : Option Json) :
    (withMember object field value).getMember other = object.getMember other := by
  cases value with
  | none => rfl
  | some value => exact getMember_setMember_ne hne value

theorem parseArguments_buildArguments (i : Nat) (args : List ArgInfo)
    (hvalid : ∀ arg ∈ args, VariantType.isSignature arg.signature.toList) :
    ∃ parsed, parseArguments i (buildArguments args) = .ok parsed ∧
      parsed.map (·.signature) = args.map (·.signature) := by
  induction args generalizing i with
  | nil => exact ⟨[], rfl, rfl⟩
  | cons arg args ih =>
    obtain ⟨parsed, hparsed, hsame⟩ := ih (i + 1) fun a ha => hvalid a (mem_cons_of_mem arg ha)
    refine ⟨⟨"argument_" ++ toString i, arg.signature⟩ :: parsed, ?_, ?_⟩
    · show parseArguments i (.string arg.signature :: buildArguments args) = _
      rw [parseArguments, if_pos (hvalid arg mem_cons_self), hparsed]
      rfl
    · rw [map_cons, map_cons, hsame]

/-- A field that holds the arguments is read back; a list without arguments becomes `NULL`. -/
theorem parseField_of_getMember {object : JsonObject}
    {args : Option (List ArgInfo)} (hvalid : ValidArgs args)
    (hmemb : object.getMember field = args.map fun args => .array (buildArguments args))
    (kind name : String) :
    ∃ parsed, parseField object field kind name = .ok parsed ∧
      signatures parsed = signatures args := by
  unfold parseField Json.getArray
  rw [hmemb]
  match args with
  | none | some [] => exact ⟨none, rfl, rfl⟩
  | some (arg :: args) =>
    obtain ⟨parsed, hparsed, hsame⟩ := parseArguments_buildArguments 0 (arg :: args)
      fun a ha => hvalid _ (mem_map_of_mem ha)
    refine ⟨some parsed, ?_, hsame⟩
    show (parseArguments 0 (buildArguments (arg :: args))).map some = _
    rw [hparsed]
    rfl

theorem parseMethod_buildMethod {meth : MethodInfo}
    (hvalid : ValidArgs meth.inArgs ∧ ValidArgs meth.outArgs) :
    ∃ parsed, parseMethod meth.name (buildMethod meth) = .ok parsed ∧
      methodShape parsed = methodShape meth := by
  have hin : (buildMethod meth).getMember "in" = _ :=
    (getMember_withMember_ne (by decide) _ _).trans
      (getMember_withMember_self [] rfl _)
  have hout : (buildMethod meth).getMember "out" = _ :=
    getMember_withMember_self _ (getMember_withMember_ne (by decide) [] _) _
  obtain ⟨inArgs, hparseIn, hsameIn⟩ := parseField_of_getMember hvalid.1 hin "method" meth.name
  obtain ⟨outArgs, hparseOut, hsameOut⟩ :=
    parseField_of_getMember hvalid.2 hout "method" meth.name
  refine ⟨⟨meth.name, inArgs, outArgs⟩, ?_, ?_⟩
  · rw [parseMethod, hparseIn, hparseOut]
    rfl
  · rw [methodShape, hsameIn, hsameOut, methodShape]

theorem parseSignal_buildSignal {sig : SignalInfo} (hvalid : ValidArgs sig.args) :
    ∃ parsed, parseSignal sig.name (buildSignal sig) = .ok parsed ∧
      signalShape parsed = signalShape sig := by
  have hin : (buildSignal sig).getMember "in" = _ :=
    getMember_withMember_self [] rfl _
  obtain ⟨args, hparse, hsame⟩ := parseField_of_getMember hvalid hin "signal" sig.name
  refine ⟨⟨sig.name, args⟩, ?_, ?_⟩
  · rw [parseSignal, hparse]
    rfl
  · rw [signalShape, hsame, signalShape]

/-- The letters of the flags say what the bits said. -/
theorem parseProperty_buildProperty {prop : PropertyInfo}
    (hvalid : ∃ signature, prop.signature = some signature ∧
      VariantType.isSignature signature.toList) :
    ∃ parsed, parseProperty prop.name (buildProperty prop) = .ok parsed ∧
      propertyShape parsed = propertyShape prop := by
  obtain ⟨name, _, readable, writable⟩ := prop
  obtain ⟨signature, rfl, hsignature⟩ := hvalid
  refine ⟨⟨name, some signature, readable, writable⟩, ?_, rfl⟩
  unfold parseProperty buildProperty
  cases readable <;> cases writable <;>
    simp [Json.getString, setStringMember, setMember, hasMember, getMember, hsignature]

section Members

variable {name : α → String} {build : α → JsonObject} {members : List α} {object : JsonObject}

section

variable (hnames : (members.map name).Nodup)

include hnames

/-- Names that are new and distinct are appended one by one. -/
theorem foldl_setMember
    (hnew : ∀ member ∈ members, object.hasMember (name member) = false) :
    members.foldl (fun object member => object.setMember (name member) (.object (build member)))
      object = object ++ members.map fun member => (name member, .object (build member)) := by
  induction members generalizing object with
  | nil => simp
  | cons member members ih =>
    rw [map_cons, nodup_cons] at hnames
    have hset : object.setMember (name member) (.object (build member)) =
        object ++ [(name member, .object (build member))] := by
      rw [setMember, hnew member mem_cons_self]
      rfl
    rw [foldl_cons, hset, ih hnames.2, append_assoc, map_cons]
    · rfl
    intro other hother
    have hne : name member ≠ name other :=
      fun heq => hnames.1 (heq ▸ mem_map_of_mem hother)
    simpa [hasMember, hne] using hnew other (mem_cons_of_mem member hother)

theorem buildMembers_eq :
    buildMembers name build members =
      members.map fun member => (name member, .object (build member)) :=
  foldl_setMember hnames fun _ _ => rfl

theorem getMember_map {member : α}
    (hmemb : member ∈ members) :
    getMember (members.map fun member => (name member, .object (build member)))
      (name member) = some (.object (build member)) := by
  induction members with
  | nil => exact nomatch hmemb
  | cons first members ih =>
    rw [map_cons, nodup_cons] at hnames
    rcases mem_cons.mp hmemb with rfl | hmemb
    · simp [getMember]
    · have hne : name first ≠ name member := fun heq => hnames.1 (heq ▸ mem_map_of_mem hmemb)
      simpa [getMember, hne] using ih hnames.2 hmemb

end

variable {parse : String → JsonObject → Except DBusError α} {shape : α → β}

/-- The loop over names whose members are built from what the list holds. -/
theorem parseMembers_map (kind : String)
    (hget : ∀ member ∈ members, object.getMember (name member) = some (.object (build member)))
    (hparse : ∀ member ∈ members, ∃ parsed,
      parse (name member) (build member) = .ok parsed ∧ shape parsed = shape member) :
    ∃ parsed, parseMembers parse kind object (members.map name) = .ok parsed ∧
      parsed.map shape = members.map shape := by
  induction members with
  | nil => exact ⟨[], rfl, rfl⟩
  | cons member members ih =>
    obtain ⟨first, hfirst, hsame⟩ := hparse member mem_cons_self
    obtain ⟨rest, hrest, hsames⟩ := ih (fun m hm => hget m (mem_cons_of_mem member hm))
      fun m hm => hparse m (mem_cons_of_mem member hm)
    refine ⟨first :: rest, ?_, ?_⟩
    · rw [map_cons, parseMembers, Json.getObject, hget member mem_cons_self]
      dsimp only
      rw [hfirst, hrest]
      rfl
    · rw [map_cons, map_cons, hsame, hsames]

/-- Parsing a section undoes building it, when it does so on every member. -/
theorem parseSection_of_getMember {interface : JsonObject}
    {members : Option (List α)} (hnames : ((members.getD []).map name).Nodup)
    (hparse : ∀ member ∈ members.getD [], ∃ parsed,
      parse (name member) (build member) = .ok parsed ∧ shape parsed = shape member)
    (hmemb : interface.getMember field =
      members.map fun members => .object (buildMembers name build members)) (kind : String) :
    ∃ parsed, parseSection parse interface field kind = .ok parsed ∧
      (parsed.getD []).map shape = (members.getD []).map shape := by
  unfold parseSection Json.getObject
  rw [hmemb]
  cases members with
  | none => exact ⟨none, rfl, rfl⟩
  | some members =>
    obtain ⟨parsed, hparsed, hsame⟩ :=
      parseMembers_map kind (fun _ hm => getMember_map hnames hm) hparse
    refine ⟨some parsed, ?_, hsame⟩
    dsimp only [Option.map]
    rw [show buildMembers name build members = _ from buildMembers_eq hnames, map_map]
    exact congrArg (Except.map some) hparsed

end Members

/-- Parsing what was built succeeds, and describes the same interface. -/
theorem parse_build (name : String) {iface : InterfaceInfo} (h : WellFormed iface) :
    ∃ parsed, parse name (build iface) = .ok parsed ∧ parsed.name = name ∧ Same parsed iface := by
  have hmethods : (build iface).getMember "methods" = _ :=
    ((getMember_withMember_ne (by decide) _ _).trans
      (getMember_withMember_ne (by decide) _ _)).trans
        (getMember_withMember_self [] rfl _)
  have hproperties : (build iface).getMember "properties" = _ :=
    (getMember_withMember_ne (by decide) _ _).trans
      (getMember_withMember_self _ (getMember_withMember_ne (by decide) [] _) _)
  have hsignals : (build iface).getMember "signals" = _ :=
    getMember_withMember_self _ ((getMember_withMember_ne (by decide) _ _).trans
      (getMember_withMember_ne (by decide) [] _)) _
  obtain ⟨methods, hparseM, hsameM⟩ := parseSection_of_getMember h.methodNames
    (fun m hm => parseMethod_buildMethod (h.methods m hm)) hmethods "method"
  obtain ⟨signals, hparseS, hsameS⟩ := parseSection_of_getMember h.signalNames
    (fun s hs => parseSignal_buildSignal (h.signals s hs)) hsignals "signal"
  obtain ⟨properties, hparseP, hsameP⟩ := parseSection_of_getMember h.propertyNames
    (fun p hp => parseProperty_buildProperty (h.properties p hp)) hproperties "property"
  refine ⟨⟨name, methods, signals, properties⟩, ?_, rfl, hsameM, hsameS, hsameP⟩
  rw [parse, hparseM, hparseS, hparseP]
  rfl

/-- A method with a string and an integer, a signal without a list, and a property. -/
theorem parse_build_sample : ∃ iface parsed, WellFormed iface ∧ iface.methods.map length = some 1 ∧
      parse "com.example" (build iface) = .ok parsed ∧ Same parsed iface := by
  let iface : InterfaceInfo :=
    { name := "com.example"
      methods := some [⟨"Say", some [⟨"text", "s"⟩, ⟨"times", "i"⟩], none⟩]
      signals := some [⟨"Said", none⟩]
      properties := some [⟨"Voice", some "as", true, false⟩] }
  have h : WellFormed iface := by
    constructor <;> simp [iface, ValidArgs, signatures] <;> decide
  obtain ⟨parsed, hparsed, -, hsame⟩ := parse_build "com.example" h
  exact ⟨iface, parsed, h, rfl, hparsed, hsame⟩

end DBusMeta

end Cockpit
