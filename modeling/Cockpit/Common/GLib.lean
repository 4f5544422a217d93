import Mathlib

namespace Cockpit

/-!
# C strings and their hash
-/

/-- The contents of a `GBytes` or `GByteArray`. -/
abbrev Bytes := List UInt8

/-- A NUL-terminated string, without its terminator. -/
structure CStr where
  bytes : Bytes
  noNul : (0 : UInt8) ∉ bytes
  deriving DecidableEq

namespace CStr

/-- Two strings are equal when their bytes are (`strcmp`, `g_str_equal`). -/
@[ext] theorem ext {s t : CStr} (h : s.bytes = t.bytes) : s = t := by
  cases s
  cases t
  simpa using h

/-- The empty string. -/
def empty : CStr := ⟨[], by simp⟩

/-- `strlen` -/
def length (s : CStr) : Nat := s.bytes.length

end CStr

namespace GLib

/-- `g_str_hash`: `h * 33 + c` from 5381 on, where `c` is a signed character. -/
def strHash (s : CStr) : UInt32 :=
  s.bytes.foldl (fun h b => h * 33 + if b < 128 then b.toUInt32 else b.toUInt32 + 0xFFFFFF00) 5381

end GLib

end Cockpit
