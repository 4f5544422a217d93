import Cockpit.Common.Json
import Cockpit.WebSocket.RequestHead

namespace Cockpit

/-!
# Types and values of D-Bus

Type strings are those of GLib.
-/

/-- A string of JSON as C reads it. -/
def cText (s : String) : CStr := strndup s.toUTF8.data.toList

/-- `G_DBUS_ERROR`, by its name on the bus. -/
structure DBusError where
  name : String
  message : String
  deriving DecidableEq

/-- `G_DBUS_ERROR_INVALID_ARGS` -/
def invalidArgs (message : String) : DBusError :=
  ⟨"org.freedesktop.DBus.Error.InvalidArgs", message⟩

/-! ### Type strings -/

/-- `GVariantType` -/
inductive VariantType where
  | boolean
  | byte
  | int16
  | uint16
  | int32
  | uint32
  | int64
  | uint64
  | double
  | string
  | objectPath
  | signature
  | handle
  | anyBasic
  | variant
  | any
  | anyTuple
  | array (element : VariantType)
  | maybe (element : VariantType)
  | dictEntry (key value : VariantType)
  | tuple (items : List VariantType)

namespace VariantType

/-- The types of one character. -/
def ofChar (c : Char) : Option VariantType :=
  match c with
  | 'b' => some .boolean
  | 'y' => some .byte
  | 'n' => some .int16
  | 'q' => some .uint16
  | 'i' => some .int32
  | 'u' => some .uint32
  | 'x' => some .int64
  | 't' => some .uint64
  | 'd' => some .double
  | 's' => some .string
  | 'o' => some .objectPath
  | 'g' => some .signature
  | 'h' => some .handle
  | '?' => some .anyBasic
  | 'v' => some .variant
  | '*' => some .any
  | 'r' => some .anyTuple
  | _ => none

/-- `g_variant_type_is_basic` -/
def isBasic : VariantType → Bool
  | .variant | .any | .anyTuple | .array _ | .maybe _ | .dictEntry _ _ | .tuple _ => false
  | _ => true

mutual

/-- `g_variant_type_string_scan`; the number bounds the depth. -/
def scan : Nat → List Char → Option (VariantType × List Char)
  | 0, _ => none
  | _ + 1, [] => none
  | n + 1, 'a' :: rest => (scan n rest).map fun (element, rest) => (.array element, rest)
  | n + 1, 'm' :: rest => (scan n rest).map fun (element, rest) => (.maybe element, rest)
  | n + 1, '(' :: rest => (scanItems n rest).map fun (items, rest) => (.tuple items, rest)
  | n + 1, '\x7b' :: c :: rest =>
    match ofChar c with
    | none => none
    | some key =>
      if key.isBasic then
        match scan n rest with
        | some (value, '\x7d' :: rest) => some (.dictEntry key value, rest)
        | _ => none
      else none
  | _ + 1, c :: rest => (ofChar c).map fun type => (type, rest)

/-- The types up to a `)`. -/
def scanItems : Nat → List Char → Option (List VariantType × List Char)
  | 0, _ => none
  | _ + 1, ')' :: rest => some ([], rest)
  | n + 1, text =>
    match scan n text with
    | none => none
    | some (item, rest) => (scanItems n rest).map fun (items, rest) => (item :: items, rest)

end

/-- A sequence of types. -/
def scanAll : Nat → List Char → Bool
  | _, [] => true
  | 0, _ => false
  | n + 1, text =>
    match scan (2 * text.length + 2) text with
    | some (_, rest) => scanAll n rest
    | none => false

/-- `g_variant_is_signature` -/
def isSignature (text : List Char) : Bool :=
  text.all (fun c => "ybnqiuxthdvasog()\x7b\x7d".toList.contains c) && scanAll text.length text

mutual

/-- `g_variant_type_peek_string` -/
def text : VariantType → String
  | .boolean => "b"
  | .byte => "y"
  | .int16 => "n"
  | .uint16 => "q"
  | .int32 => "i"
  | .uint32 => "u"
  | .int64 => "x"
  | .uint64 => "t"
  | .double => "d"
  | .string => "s"
  | .objectPath => "o"
  | .signature => "g"
  | .handle => "h"
  | .anyBasic => "?"
  | .variant => "v"
  | .any => "*"
  | .anyTuple => "r"
  | .array element => "a" ++ element.text
  | .maybe element => "m" ++ element.text
  | .dictEntry key value => "\x7b" ++ key.text ++ value.text ++ "\x7d"
  | .tuple items => "(" ++ textAll items ++ ")"

def textAll : List VariantType → String
  | [] => ""
  | item :: items => item.text ++ textAll items

end

end VariantType

/-! ### Values -/

/-- `GVariant`, as far as it is made from JSON. -/
inductive DBusValue where
  | boolean (b : Bool)
  | number (type : VariantType) (n : Int)
  | string (s : CStr)
  | objectPath (path : CStr)
  | signature (sig : CStr)
  | byteArray (data : Bytes)
  | array (element : VariantType) (items : List DBusValue)
  | dictEntry (key value : DBusValue)
  | tuple (items : List DBusValue)
  | variant (value : DBusValue)

/-- What comes from GLib and json-glib. -/
structure DBusLibrary where
  /-- `g_variant_is_object_path` -/
  isObjectPath : CStr → Bool
  /-- `g_dbus_is_interface_name` -/
  isInterfaceName : CStr → Bool
  /-- `g_dbus_is_member_name` -/
  isMemberName : CStr → Bool
  /-- `g_dbus_is_name` -/
  isName : CStr → Bool
  /-- `g_base64_decode` -/
  base64Decode : CStr → Bytes
  /-- `cockpit_json_parse`, for a key -/
  parseKey : String → Option Json

end Cockpit
