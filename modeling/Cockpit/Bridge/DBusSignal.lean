import Cockpit.Bridge.DBusRules
import Cockpit.Bridge.DBusVariant
import Cockpit.Lib.Base64

namespace Cockpit

open Option DBusRules Paths

/-!
# Signals of D-Bus on their way to the browser

`on_signal_message` and `build_json` of `src/bridge/cockpitdbusjson.c`, and `matches` of the
`DBusClient` in `src/base1/cockpit.js`.  A subscription of the browser becomes a rule of the bridge
(`handle_dbus_add_match`), and the browser then matches the signals that come against its
subscriptions once more.

* `DBusSignal.matches_of_ruleMatch` — the browser takes every signal that the rule is for;
* `DBusSignal.agree_iff` — when it takes no other.
-/

/-- A string of D-Bus in JSON. -/
def jsonText (bytes : Bytes) : String := (String.fromUTF8? ⟨bytes.toArray⟩).getD ""

/-- Strings of D-Bus are UTF-8. -/
def CStr.IsUtf8 (s : CStr) : Prop := ByteArray.IsValidUTF8 ⟨s.bytes.toArray⟩

/-- C reads all of the string. -/
def NulFree (s : String) : Prop := (cText s).bytes = s.toUTF8.data.toList

instance (s : String) : Decidable (NulFree s) :=
  inferInstanceAs (Decidable ((cText s).bytes = s.toUTF8.data.toList))

variable {s : CStr}

@[simp] theorem toUTF8_jsonText (h : s.IsUtf8) :
    (jsonText s.bytes).toUTF8.data.toList = s.bytes := by
  rw [CStr.IsUtf8] at h
  simp [jsonText, String.fromUTF8?, h, String.fromUTF8]

/-- Two strings are the same in the browser when they are in the bridge. -/
theorem jsonText_eq_iff {t : String} (hs : s.IsUtf8) (ht : NulFree t) :
    jsonText s.bytes = t ↔ s = cText t := by
  constructor
  · rintro rfl
    apply CStr.ext
    rw [ht, toUTF8_jsonText hs]
  rintro rfl
  rw [← String.toByteArray_inj]
  apply ByteArray.ext
  exact Array.toList_inj.mp ((toUTF8_jsonText hs).trans ht)

theorem isUtf8_cText {s : String} (h : NulFree s) : (cText s).IsUtf8 := by
  rw [CStr.IsUtf8, h]
  exact s.isValidUTF8

@[simp] theorem jsonText_cText {s : String} (h : NulFree s) : jsonText (cText s).bytes = s :=
  (jsonText_eq_iff (isUtf8_cText h) h).mpr rfl

/-! ### Signals in JSON -/

namespace DBusValue

/-- `g_variant_get_type_string` -/
def typeText : DBusValue → String
  | .boolean _ => "b"
  | .number type _ => type.text
  | .string _ => "s"
  | .objectPath _ => "o"
  | .signature _ => "g"
  | .byteArray _ => "ay"
  | .array element _ => "a" ++ element.text
  | .dictEntry key value => "\x7b" ++ key.typeText ++ value.typeText ++ "\x7d"
  | .tuple items => "(" ++ typeTexts items ++ ")"
  | .variant _ => "v"
where
  typeTexts : List DBusValue → String
    | [] => ""
    | item :: items => item.typeText ++ typeTexts items

/-- The text of a key of a dictionary; `print` is `g_variant_print`. -/
def keyText (print : DBusValue → String) : DBusValue → String
  | .string s | .objectPath s | .signature s => jsonText s.bytes
  | key => print key

mutual

/-- `build_json`, without file descriptors as in a signal -/
def buildJson (print : DBusValue → String) : DBusValue → Json
  | .boolean b => .bool b
  | .number .handle _ => .null
  -- numbers of json-glib are signed
  | .number .uint64 n => .int (n.bmod (2 ^ 64))
  | .number _ n => .int n
  | .string s | .objectPath s | .signature s => .string (jsonText s.bytes)
  | .byteArray data => .string (jsonText (Lib.Base64.encode data))
  | .array (.dictEntry _ _) items => .object (buildDictionary print [] items)
  | .array _ items => .array (buildArrayOrTuple print items)
  | .tuple items => .array (buildArrayOrTuple print items)
  | .variant value => .object [("t", .string value.typeText), ("v", value.buildJson print)]
  | .dictEntry _ _ => .null

/-- `build_json_array_or_tuple` -/
def buildArrayOrTuple (print : DBusValue → String) : List DBusValue → List Json
  | [] => []
  | item :: items => item.buildJson print :: buildArrayOrTuple print items

/-- `build_json_dictionary`, with the members so far -/
def buildDictionary (print : DBusValue → String) (object : JsonObject) :
    List DBusValue → JsonObject
  | [] => object
  | .dictEntry key value :: items =>
    buildDictionary print (object.setMember (key.keyText print) (value.buildJson print)) items
  | _ :: items => buildDictionary print object items

end

/-- The string in a value of one of the types that have one. -/
def text : DBusValue → Option CStr
  | .string s | .objectPath s | .signature s => some s
  | _ => none

end DBusValue

/-- What GDBus tells of a signal. -/
structure DBusSignal where
  path : CStr
  interface : CStr
  member : CStr
  parameters : Option DBusValue

namespace DBusSignal

/-- The arguments of a signal. -/
def args (signal : DBusSignal) : List DBusValue :=
  match signal.parameters with
  | some (.tuple items) => items
  | _ => []

/-- The `arg0` of `on_signal_message`. -/
def arg0 (signal : DBusSignal) : Option CStr :=
  match signal.args with
  | .string s :: _ => some s
  | _ => none

/-- `build_json_signal`: the "signal" that the browser gets. -/
def buildJsonSignal (print : DBusValue → String) (signal : DBusSignal) : List Json :=
  [.string (jsonText signal.path.bytes), .string (jsonText signal.interface.bytes),
    .string (jsonText signal.member.bytes),
    -- `build_json_body`
    match signal.parameters with
    | some body => body.buildJson print
    | none => .null]

/-- A signal that D-Bus can carry: its body is a tuple, and its strings are UTF-8. -/
structure Valid (signal : DBusSignal) : Prop where
  path : Paths.isObjectPath signal.path
  pathText : signal.path.IsUtf8
  interfaceText : signal.interface.IsUtf8
  memberText : signal.member.IsUtf8
  body : ∃ items, signal.parameters = some (.tuple items)
  args : ∀ value ∈ signal.args, ∀ s ∈ value.text, s.IsUtf8

end DBusSignal

/-! ### Matches -/

/-- What `parse_json_rule` finds in an "add-match". -/
structure DBusMatch where
  name : Option String
  path : Option String
  pathNamespace : Option String
  interface : Option String
  signal : Option String
  arg0 : Option String

namespace DBusMatch

/-- The fields that an "add-match" may have. -/
def fields : List String := ["name", "interface", "member", "path", "path_namespace", "arg0"]

/-- A field of a match. -/
def field (object : JsonObject) (name : String) : Option String :=
  (object.getMember name).bind Json.asString

/-- `parse_json_rule`, with everything that a rule may have -/
def parse (L : DBusLibrary) (onBus : Bool) (defaultName : Option String) :
    Json → Except String DBusMatch
  | .object object =>
    match object.find? fun m => !(fields.contains m.1 && (Json.asString m.2).isSome) with
    | some m => .error ("invalid or unsupported match field: " ++ m.1)
    | none =>
      let name := field object "name"
      let path := field object "path"
      let pathNamespace := field object "path_namespace"
      let interface := field object "interface"
      let signal := field object "member"
      let arg0 := field object "arg0"
      if name.any fun name => !L.isName (cText name) then
        .error ("match \"name\" is not valid: " ++ name.getD "")
      else if path.any fun path => !L.isObjectPath (cText path) then
        .error ("match path is not valid: " ++ path.getD "")
      else if pathNamespace.any fun path => !L.isObjectPath (cText path) then
        .error ("match path_namespace is not valid: " ++ pathNamespace.getD "")
      else if interface.any fun interface => !L.isInterfaceName (cText interface) then
        .error ("match interface is not valid: " ++ interface.getD "")
      else if signal.any fun signal => !L.isMemberName (cText signal) then
        .error ("match \"member\" is not valid: " ++ signal.getD "")
      -- an apostrophe
      else if arg0.any fun arg0 => (cText arg0).bytes.contains 39 then
        .error ("match arg0 is not valid: " ++ arg0.getD "")
      else if path.isSome && pathNamespace.isSome then
        .error "match cannot specify both path and path_namespace"
      else if onBus && (name <|> defaultName).isNone then
        .error "no \"name\" specified in match"
      else .ok { name := name <|> defaultName, path, pathNamespace, interface, signal, arg0 }
  | _ => .error "incorrect match field in dbus command"

/-- The rule that `handle_dbus_add_match` adds. -/
def rule (m : DBusMatch) : Rule :=
  ruleOf ((m.path <|> m.pathNamespace).map cText) m.pathNamespace.isSome
    (m.interface.map cText) (m.signal.map cText) (m.arg0.map cText)

/-- Whether the rule of a match is for a signal. -/
def ruleMatch (m : DBusMatch) (signal : DBusSignal) : Bool :=
  m.rule.ruleMatch signal.path (some signal.interface) (some signal.member) signal.arg0

end DBusMatch

namespace DBusClient

/-- What is true in JavaScript. -/
def truthy : Json → Bool
  | .null => false
  | .bool b => b
  | .int n => n != 0
  | .string s => s != ""
  | .array _ | .object _ => true

/-- `===`; no two arrays or objects that were parsed are the same. -/
def same : Option Json → Json → Bool
  | some .null, .null => true
  | some (.bool a), .bool b => a == b
  | some (.int a), .int b => a == b
  | some (.string a), .string b => a == b
  | _, _ => false

/-- `value.indexOf(part) === 0`; a string that starts with another one does so in UTF-8 too. -/
def startsWith : Option Json → Json → Bool
  | some (.string s), .string part => part.toUTF8.data.toList.isPrefixOf s.toUTF8.data.toList
  | _, _ => false

/-- The first element of an array. -/
def first : Option Json → Option Json
  | some (.array elements) => elements[0]?
  | _ => none

/-- `matches` -/
def matchesSignal (signal : List Json) (m : JsonObject) : Bool :=
  let given := fun name => (m.getMember name).filter truthy
  if (given "path").any fun path => !same signal[0]? path then false
  else if (given "path_namespace").any fun path => !startsWith signal[0]? path then false
  else if (given "interface").any fun interface => !same signal[1]? interface then false
  else if (given "member").any fun member => !same signal[2]? member then false
  else if (given "arg0").any fun arg0 =>
      !signal[3]?.any truthy || !same (first signal[3]?) arg0 then false
  else true

end DBusClient

/-! ### What the two ask for -/

namespace DBusMatch

/-- What `parse_json_rule` has made sure of. -/
structure Accepted (L : DBusLibrary) (object : JsonObject) (m : DBusMatch) : Prop where
  path : object.getMember "path" = m.path.map .string
  pathNamespace : object.getMember "path_namespace" = m.pathNamespace.map .string
  interface : object.getMember "interface" = m.interface.map .string
  signal : object.getMember "member" = m.signal.map .string
  arg0 : object.getMember "arg0" = m.arg0.map .string
  pathValid : ∀ p ∈ m.path, L.isObjectPath (cText p)
  namespaceValid : ∀ p ∈ m.pathNamespace, L.isObjectPath (cText p)
  interfaceValid : ∀ i ∈ m.interface, L.isInterfaceName (cText i)
  signalValid : ∀ i ∈ m.signal, L.isMemberName (cText i)
  single : m.path = none ∨ m.pathNamespace = none

variable {object : JsonObject}

theorem getMember_eq_field
    (h : ∀ member ∈ object, (Json.asString member.2).isSome) (name : String) :
    object.getMember name = (field object name).map .string := by
  unfold field
  cases hget : object.getMember name with
  | none => rfl
  | some value =>
    obtain ⟨member, hfind, rfl⟩ := map_eq_some_iff.mp hget
    have hsome := h member (List.mem_of_find?_eq_some hfind)
    -- the value is a string
    cases hvalue : member.2 with
    | string s => simp [Json.asString]
    | _ => simp [hvalue, Json.asString] at hsome

/-- A check of a field that is there. -/
theorem valid_of_any {o : Option String} {valid : CStr → Bool}
    (h : ¬ (o.any fun s => !valid (cText s))) : ∀ s ∈ o, valid (cText s) := by
  intro s hs
  rw [mem_def.mp hs] at h
  simpa using h

variable {L : DBusLibrary} {m : DBusMatch}

theorem parse_accepted {onBus : Bool} {defaultName : Option String}
    (h : parse L onBus defaultName (.object object) = .ok m) : m.Accepted L object := by
  unfold parse at h
  simp only at h
  split at h
  · cases h
  rename_i hfind
  have hstrings : ∀ member ∈ object, (Json.asString member.2).isSome := by
    intro member hmem
    have := List.find?_eq_none.mp hfind member hmem
    simp only [Bool.not_eq_true, Bool.not_eq_false', Bool.and_eq_true] at this
    exact this.2
  split_ifs at h with hname hpath hns hiface hsignal harg hboth hbus
  obtain rfl := Except.ok.inj h
  refine ⟨getMember_eq_field hstrings _, getMember_eq_field hstrings _,
    getMember_eq_field hstrings _, getMember_eq_field hstrings _,
    getMember_eq_field hstrings _, valid_of_any hpath, valid_of_any hns,
    valid_of_any hiface, valid_of_any hsignal, ?_⟩
  · simp only [Bool.and_eq_true, not_and, not_isSome_iff_eq_none] at hboth
    cases hp : field object "path" with
    | none => exact .inl rfl
    | some p => exact .inr (hboth (by simp [hp]))

/-- The fields that have to be the same, are. -/
structure SameFields (m : DBusMatch) (signal : DBusSignal) : Prop where
  path : ∀ p ∈ m.path, signal.path = cText p
  interface : ∀ i ∈ m.interface, signal.interface = cText i
  signal : ∀ i ∈ m.signal, signal.member = cText i

/-- The namespace is in front of the path. -/
def TextNamespace (m : DBusMatch) (signal : DBusSignal) : Prop :=
  ∀ ns ∈ m.pathNamespace, (cText ns).bytes <+: signal.path.bytes

/-- `arg0` is empty, or the first argument is that string in JSON. -/
def TextArg0 (print : DBusValue → String) (m : DBusMatch) (signal : DBusSignal) : Prop :=
  ∀ a ∈ m.arg0, a = "" ∨ signal.args.head?.map (·.buildJson print) = some (.string a)

/-- The rule of a match, in terms of its fields. -/
theorem ruleMatch_iff (h : m.Accepted L object) (signal : DBusSignal) :
    m.ruleMatch signal ↔ m.SameFields signal ∧
        (∀ ns ∈ m.pathNamespace, equalOrAncestor signal.path (cText ns)) ∧
        ∀ a ∈ m.arg0, signal.arg0 = some (cText a) := by
  have hpath : m.rule.pathMatch signal.path ↔ (∀ p ∈ m.path, signal.path = cText p) ∧
        ∀ ns ∈ m.pathNamespace, equalOrAncestor signal.path (cText ns) := by
    have hself : ∀ path, equalOrAncestor path path := by
      intro path
      simp [equalOrAncestor]
    unfold rule ruleOf Rule.pathMatch
    rcases h.single with hnone | hnone
    · cases hns : m.pathNamespace with
      | none => simp [hnone, equalOrAncestor]
      | some ns =>
        -- a path is in the namespace that it names
        have hor : cText ns = signal.path ∨ equalOrAncestor signal.path (cText ns) ↔
              equalOrAncestor signal.path (cText ns) :=
          or_iff_right_of_imp fun heq => heq ▸ hself _
        simpa [hnone] using hor
    · cases hp : m.path with
      | none => simp [hnone, equalOrAncestor]
      | some p => simp [hnone, eq_comm (a := signal.path)]
  have hiface : m.rule.interface = m.interface.map cText := by
    unfold rule ruleOf
    split <;> rfl
  have hmemb : m.rule.member = m.signal.map cText := by
    unfold rule ruleOf
    split <;> rfl
  have harg0 : m.rule.arg0 = m.arg0.map cText := by
    unfold rule ruleOf
    split <;> rfl
  unfold ruleMatch Rule.ruleMatch
  simp only [Bool.and_eq_true, hpath, hiface, hmemb, harg0]
  constructor
  · rintro ⟨⟨⟨⟨hp, hns⟩, hi⟩, hm⟩, ha⟩
    refine ⟨⟨hp, ?_, ?_⟩, hns, ?_⟩
    · rintro i hmem
      simpa [mem_def.mp hmem] using hi
    · rintro i hmem
      simpa [mem_def.mp hmem] using hm
    · rintro a hmem
      simpa [mem_def.mp hmem] using ha
  rintro ⟨⟨hp, hi, hm⟩, hns, ha⟩
  refine ⟨⟨⟨⟨hp, hns⟩, ?_⟩, ?_⟩, ?_⟩
  · cases hmem : m.interface with
    | none => simp
    | some i => simp [hi i hmem]
  · cases hmem : m.signal with
    | none => simp
    | some i => simp [hm i hmem]
  · cases hmem : m.arg0 with
    | none => simp
    | some a => simp [ha a hmem]

end DBusMatch

namespace DBusClient

open DBusMatch

/-- A field that has to be the same. -/
theorem given_same {o : Option String} {text : CStr} (htext : text.IsUtf8)
    (hnul : ∀ s ∈ o, NulFree s) (hne : ∀ s ∈ o, s ≠ "") :
    ((o.map Json.string).filter truthy).any
        (fun v => !same (some (.string (jsonText text.bytes))) v) = false ↔
      ∀ s ∈ o, text = cText s := by
  cases o with
  | none => simp
  | some s =>
    have hs : truthy (.string s) := by simpa [truthy] using hne s rfl
    simp [hs, same, jsonText_eq_iff htext (hnul s rfl)]

/-- What `matches` asks for. -/
theorem matchesSignal_iff {L : DBusLibrary} {object : JsonObject} {m : DBusMatch}
    (h : m.Accepted L object) {print : DBusValue → String} {signal : DBusSignal}
    (hvalid : signal.Valid) (hL : L.isObjectPath = Paths.isObjectPath)
    (hiface : L.isInterfaceName .empty = false) (hmemb : L.isMemberName .empty = false)
    (hnul : ∀ name s, object.getMember name = some (.string s) → NulFree s) :
    matchesSignal (signal.buildJsonSignal print) object ↔
      m.SameFields signal ∧ m.TextNamespace signal ∧ m.TextArg0 print signal := by
  have hread : ∀ {name : String} {o : Option String}, object.getMember name = o.map .string →
      ∀ s ∈ o, NulFree s := by
    intro name o hget s hs
    exact hnul name s (by rw [hget, mem_def.mp hs]; rfl)
  -- no valid field is empty
  have hpathNe : ∀ p ∈ m.path, p ≠ "" := by
    rintro p hp rfl
    have := h.pathValid _ hp
    rw [hL] at this
    exact nomatch this
  have hnsNe : ∀ p ∈ m.pathNamespace, p ≠ "" := by
    rintro p hp rfl
    have := h.namespaceValid _ hp
    rw [hL] at this
    exact nomatch this
  have hempty : cText "" = .empty := by decide
  have hinterfaceNe : ∀ p ∈ m.interface, p ≠ "" := by
    rintro p hp rfl
    have := h.interfaceValid _ hp
    rw [hempty, hiface] at this
    exact Bool.false_ne_true this
  have hsignalNe : ∀ p ∈ m.signal, p ≠ "" := by
    rintro p hp rfl
    have := h.signalValid _ hp
    rw [hempty, hmemb] at this
    exact Bool.false_ne_true this
  have hns : ((m.pathNamespace.map Json.string).filter truthy).any
        (fun v => !startsWith (some (.string (jsonText signal.path.bytes))) v) = false ↔
      m.TextNamespace signal := by
    unfold TextNamespace
    cases hm : m.pathNamespace with
    | none => simp
    | some ns =>
      have hs : truthy (.string ns) := by simpa [truthy] using hnsNe ns hm
      have hb := hread h.pathNamespace ns hm
      rw [NulFree] at hb
      simp only [map_some, filter_some, hs, if_true, any_some, startsWith,
        toUTF8_jsonText hvalid.pathText, ← hb, Bool.not_eq_false', List.isPrefixOf_iff_prefix,
        mem_def, some.injEq, forall_eq']
  have harg0 : ((m.arg0.map Json.string).filter truthy).any (fun v =>
        !(signal.buildJsonSignal print)[3]?.any truthy ||
          !same (first (signal.buildJsonSignal print)[3]?) v) = false ↔
      m.TextArg0 print signal := by
    obtain ⟨items, hbody⟩ := hvalid.body
    unfold TextArg0
    cases hm : m.arg0 with
    | none => simp
    | some a =>
      by_cases ha : a = ""
      · simp [ha, truthy]
      have hs : truthy (.string a) := by simpa [truthy] using ha
      cases items with
      | nil =>
        simp [hs, ha, DBusSignal.buildJsonSignal, DBusSignal.args, hbody, DBusValue.buildJson,
          DBusValue.buildArrayOrTuple, first, same]
      | cons item items =>
        simp only [map_some, filter_some, hs, if_true, any_some,
          DBusSignal.buildJsonSignal, DBusSignal.args, hbody, DBusValue.buildJson,
          DBusValue.buildArrayOrTuple, first, ha, false_or, mem_def, some.injEq,
          forall_eq', List.head?_cons]
        cases item.buildJson print <;> simp [same, truthy]
  have hif : ∀ a b c d e : Bool, (if a then false else if b then false else if c then false
      else if d then false else if e then false else true) = true ↔
        a = false ∧ b = false ∧ c = false ∧ d = false ∧ e = false := by decide
  have h0 : (signal.buildJsonSignal print)[0]? = some (.string (jsonText signal.path.bytes)) := rfl
  have h1 : (signal.buildJsonSignal print)[1]? =
    some (.string (jsonText signal.interface.bytes)) := rfl
  have h2 : (signal.buildJsonSignal print)[2]? =
    some (.string (jsonText signal.member.bytes)) := rfl
  unfold matchesSignal
  simp only [h.path, h.pathNamespace, h.interface, h.signal, h.arg0]
  rw [hif, harg0, h0, h1, h2, hns, given_same hvalid.pathText (hread h.path) hpathNe,
    given_same hvalid.interfaceText (hread h.interface) hinterfaceNe,
    given_same hvalid.memberText (hread h.signal) hsignalNe]
  constructor
  · rintro ⟨hp, hns, hi, hm, ha⟩
    exact ⟨⟨hp, hi, hm⟩, hns, ha⟩
  · rintro ⟨⟨hp, hi, hm⟩, hns, ha⟩
    exact ⟨hp, hns, hi, hm, ha⟩

end DBusClient

/-! ### When the two agree -/

namespace DBusMatch

/-- A namespace that ends inside an element of the path. -/
def StrayNamespace (m : DBusMatch) (signal : DBusSignal) : Prop :=
  ∃ ns ∈ m.pathNamespace, (cText ns).bytes <+: signal.path.bytes ∧
    equalOrAncestor signal.path (cText ns) = false

variable (print : DBusValue → String)

/-- An `arg0` that the first argument is not, and that is empty or the same in JSON. -/
def StrayArg0 (m : DBusMatch) (signal : DBusSignal) : Prop :=
  ∃ a ∈ m.arg0, signal.arg0 ≠ some (cText a) ∧
    (a = "" ∨ signal.args.head?.map (·.buildJson print) = some (.string a))

/-- An ancestor is in front of the path. -/
theorem isPrefix_of_equalOrAncestor {path ancestor : CStr} (hpath : Paths.isObjectPath path)
    (h : equalOrAncestor path ancestor) : ancestor.bytes <+: path.bytes := by
  unfold equalOrAncestor at h
  split at h
  · -- the root: every object path starts with a `/`
    rename_i hroot
    subst hroot
    unfold Paths.isObjectPath at hpath
    split at hpath
    · cases hpath
    rename_i b rest hbytes
    simp only [Bool.and_eq_true, beq_iff_eq] at hpath
    rw [hbytes, hpath.1]
    exact ⟨rest, rfl⟩
  · rw [Bool.and_eq_true, List.isPrefixOf_iff_prefix] at h
    exact h.1

variable {m : DBusMatch} {signal : DBusSignal}

theorem namespace_iff (hvalid : signal.Valid) :
    (∀ ns ∈ m.pathNamespace, equalOrAncestor signal.path (cText ns)) ↔
      m.TextNamespace signal ∧ ¬ m.StrayNamespace signal := by
  constructor
  · intro h
    refine ⟨fun ns hns => isPrefix_of_equalOrAncestor hvalid.path (h ns hns), ?_⟩
    rintro ⟨ns, hns, -, hstray⟩
    exact absurd ((h ns hns).symm.trans hstray) (by decide)
  · rintro ⟨htext, hstray⟩ ns hns
    by_contra hne
    exact hstray ⟨ns, hns, htext ns hns, Bool.not_eq_true _ ▸ hne⟩

theorem arg0_iff
    (hvalid : signal.Valid) (hnul : ∀ a ∈ m.arg0, NulFree a) :
    (∀ a ∈ m.arg0, signal.arg0 = some (cText a)) ↔
      m.TextArg0 print signal ∧ ¬ m.StrayArg0 print signal := by
  constructor
  · intro h
    refine ⟨?_, ?_⟩
    · intro a ha
      right
      have harg := h a ha
      unfold DBusSignal.arg0 at harg
      split at harg
      · -- the first argument is that string
        rename_i s rest hargs
        have hs : s.IsUtf8 := hvalid.args (.string s) (by simp [hargs]) s rfl
        have htext := (jsonText_eq_iff hs (hnul a ha)).mpr (some.inj harg)
        simp [hargs, DBusValue.buildJson, htext]
      · cases harg
    · rintro ⟨a, ha, hne, -⟩
      exact hne (h a ha)
  · rintro ⟨htext, hstray⟩ a ha
    by_contra hne
    exact hstray ⟨a, ha, hne, htext a ha⟩

end DBusMatch

namespace DBusSignal

open DBusMatch DBusClient

section

variable {L : DBusLibrary} {onBus : Bool} {defaultName : Option String} {object : JsonObject}
  {m : DBusMatch} {signal : DBusSignal}

/-- The browser takes every signal that the rule is for. -/
theorem matches_of_ruleMatch (hL : L.isObjectPath = Paths.isObjectPath)
    (hiface : L.isInterfaceName .empty = false) (hmemb : L.isMemberName .empty = false)
    (hparse : DBusMatch.parse L onBus defaultName (.object object) = .ok m)
    (hnul : ∀ name s, object.getMember name = some (.string s) → NulFree s)
    (print : DBusValue → String) (hvalid : signal.Valid) (h : m.ruleMatch signal) :
    matchesSignal (signal.buildJsonSignal print) object := by
  have hacc := parse_accepted hparse
  obtain ⟨hsame, hns, harg⟩ := (ruleMatch_iff hacc signal).mp h
  refine (matchesSignal_iff hacc hvalid hL hiface hmemb hnul).mpr
    ⟨hsame, ((namespace_iff hvalid).mp hns).1, ((arg0_iff print hvalid ?_).mp harg).1⟩
  exact fun a ha => hnul "arg0" a (by rw [hacc.arg0, mem_def.mp ha]; rfl)

/-- **When the browser and the bridge agree on a match**: unless the match is for the signal up to
    a namespace that ends inside an element of its path, or up to an `arg0` that is empty or that
    the first argument is in JSON only. -/
theorem agree_iff (hL : L.isObjectPath = Paths.isObjectPath)
    (hinterface : L.isInterfaceName .empty = false) (hmember : L.isMemberName .empty = false)
    (hparse : DBusMatch.parse L onBus defaultName (.object object) = .ok m)
    (hnul : ∀ name s, object.getMember name = some (.string s) → NulFree s)
    (print : DBusValue → String) (hvalid : signal.Valid) :
    (matchesSignal (signal.buildJsonSignal print) object = true ↔ m.ruleMatch signal = true) ↔
      ¬ (m.SameFields signal ∧ m.TextNamespace signal ∧ m.TextArg0 print signal ∧
        (m.StrayNamespace signal ∨ m.StrayArg0 print signal)) := by
  have haccepted := parse_accepted hparse
  have harg : ∀ a ∈ m.arg0, NulFree a := by
    intro a ha
    exact hnul "arg0" a (by rw [haccepted.arg0, mem_def.mp ha]; rfl)
  rw [matchesSignal_iff haccepted hvalid hL hinterface hmember hnul, ruleMatch_iff haccepted,
    namespace_iff hvalid, arg0_iff print hvalid harg]
  tauto

end

/-- A library that takes every name but the empty one. -/
def anyNames : DBusLibrary where
  isObjectPath := Paths.isObjectPath
  isInterfaceName := fun s => !s.bytes.isEmpty
  isMemberName := fun s => !s.bytes.isEmpty
  isName := fun s => !s.bytes.isEmpty
  base64Decode := fun _ => []
  parseKey := fun _ => none

/-- A signal `org.Test.Changed` without arguments. -/
def changed (path : String) : DBusSignal :=
  ⟨cText path, cText "org.Test", cText "Changed", some (.tuple [])⟩

theorem valid_changed {path : String} (hpath : Paths.isObjectPath (cText path))
    (hnul : NulFree path) : (changed path).Valid where
  path := hpath
  pathText := isUtf8_cText hnul
  interfaceText := isUtf8_cText (by decide)
  memberText := isUtf8_cText (by decide)
  body := ⟨[], rfl⟩
  args := by simp [changed, DBusSignal.args]

/-- A match for what is below `/foo`, as an object and as it is read. -/
def belowFoo : JsonObject × DBusMatch :=
  ([("path_namespace", .string "/foo")], ⟨none, none, some "/foo", none, none, none⟩)

theorem parse_belowFoo :
    DBusMatch.parse anyNames false none (.object belowFoo.1) = .ok belowFoo.2 := rfl

/-- `/foobar` is not below `/foo`, but the browser takes it to be. -/
theorem matches_foobar :
    (changed "/foobar").Valid ∧
      DBusMatch.parse anyNames false none (.object belowFoo.1) = .ok belowFoo.2 ∧
      matchesSignal ((changed "/foobar").buildJsonSignal fun _ => "") belowFoo.1 = true ∧
      belowFoo.2.ruleMatch (changed "/foobar") = false := by
  refine ⟨valid_changed (by decide) (by decide), rfl, ?_, by decide⟩
  have hpath : (changed "/foobar").buildJsonSignal (fun _ => "") =
      [.string "/foobar", .string "org.Test", .string "Changed", .array []] := by
    simp only [buildJsonSignal, changed]
    rw [jsonText_cText (by decide), jsonText_cText (by decide), jsonText_cText (by decide)]
    rfl
  rw [hpath]
  decide

theorem agree_foo :
    (matchesSignal ((changed "/foo").buildJsonSignal fun _ => "") belowFoo.1 = true ↔
        belowFoo.2.ruleMatch (changed "/foo") = true) ↔
      ¬ (belowFoo.2.SameFields (changed "/foo") ∧ belowFoo.2.TextNamespace (changed "/foo") ∧
        belowFoo.2.TextArg0 (fun _ => "") (changed "/foo") ∧
        (belowFoo.2.StrayNamespace (changed "/foo") ∨
          belowFoo.2.StrayArg0 (fun _ => "") (changed "/foo"))) := by
  refine agree_iff rfl rfl rfl parse_belowFoo ?_ _ (valid_changed (by decide) (by decide))
  -- the only text of the match
  intro name s hs
  have hs' : s = "/foo" := by
    simp only [belowFoo, JsonObject.getMember, List.find?_cons] at hs
    split at hs
    · simpa [eq_comm] using hs
    · simp at hs
  rw [hs']
  decide

end DBusSignal

end Cockpit
