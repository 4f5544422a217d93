import Cockpit.Base1.StorageHelper
import Cockpit.Lib.HttpMessage
import Cockpit.Common.GLib

namespace Cockpit.Ws.Application

open Lib Page List

/-!
# The application of a path

`calculate_application` and `calculate_url` of `src/base1/cockpit.js` against
`cockpit_auth_parse_application` of `src/ws/cockpitauth.c`.

* `parse_socket` — an application is read back from the path of its socket;
* `applications_agree_iff` — where the browser and the server mean the same application.
-/

/-! ### The server -/

/-- The `/`. -/
def slash : UInt8 := 47

variable (path : Bytes)

/-- The part of a path before a slash. -/
def word : Bytes := path.takeWhile (· ≠ slash)

/-- `cockpit_auth_parse_application` -/
def parseApplication : Bytes → Option Bytes
  | [] => none
  | b :: path =>
    if b ≠ slash then none
    else if ascii "cockpit+" <+: path ∧ path.length ≠ 8 then some (word path)
    else if ascii "=" <+: path ∧ path.length ≠ 1 then some (ascii "cockpit+" ++ word path)
    else some (ascii "cockpit")

/-- `application_parse_host` -/
def parseHost (application : Bytes) : Option Bytes :=
  if ascii "cockpit+=" <+: application ∧ application.length ≠ 9 then some (application.drop 9)
  else none

/-- `application_cookie_name` -/
def cookieName (application : Bytes) : Bytes :=
  match parseHost application with
  | some host => ascii "machine-cockpit+" ++ host
  | none => application

/-! ### The browser -/

/-- The path of a URL that `calculate_url` makes. -/
def urlPath (urlRoot pathname suffix : List Nat) : List Nat :=
  let path := (calculateApplication urlRoot pathname).getD []
  let path := if urlRoot ≠ [] then urlRoot ++ Location.slash :: path else path
  Location.slash :: (path ++ Location.slash :: suffix)

/-- `calculate_url`, without a mock. -/
def calculateUrl (location host urlRoot pathname suffix : List Nat) : Option (List Nat) :=
  let suffix := if suffix = [] then units "socket" else suffix
  if units "http:" <+: location then
    some (units "ws://" ++ host ++ urlPath urlRoot pathname suffix)
  else if units "https:" <+: location then
    some (units "wss://" ++ host ++ urlPath urlRoot pathname suffix)
  else none

/-- The path of a page, as the browser has it. -/
def pathname : List Nat := path.map UInt8.toNat

/-- The path of the socket of a page, as the server gets it. -/
def socketPath : Bytes :=
  (urlPath [] (pathname path) (units "socket")).map UInt8.ofNat

/-- `calculate_application` over bytes, without a URL root, behind the first slash. -/
def browserName : Bytes :=
  if ascii "cockpit+" <+: path then word path
  else if ascii "=" <+: path then ascii "cockpit+" ++ word path
  else ascii "cockpit"

theorem prefix_pathname (text path : Bytes) : pathname text <+: pathname path ↔ text <+: path :=
  prefix_map_iff_of_injective fun _ _ => UInt8.toNat_inj.mp

theorem takeWhile_pathname :
    (pathname path).takeWhile (· ≠ Location.slash) = pathname (word path) := by
  unfold pathname word
  rw [takeWhile_map]
  congr 2
  funext b
  show decide (b.toNat ≠ 47) = decide (b ≠ slash)
  rw [decide_eq_decide, ne_eq, ne_eq, ← UInt8.toNat_inj]
  rfl

theorem slash_notMem_word : slash ∉ word path := by
  intro h
  simpa using mem_takeWhile_imp h

variable {name : Bytes}

theorem word_eq_self (h : slash ∉ name) : word name = name := by
  apply takeWhile_eq_self_iff.mpr
  intro b hb
  simpa using fun heq : b = slash => h (heq ▸ hb)

/-- A word in front of a slash. -/
theorem word_append (h : slash ∉ name) (rest : Bytes) :
    word (name ++ slash :: rest) = name := by
  have hname := word_eq_self h
  unfold word at hname ⊢
  rw [takeWhile_append, hname]
  simp

theorem calculateApplication_pathname :
    calculateApplication [] (pathname (slash :: path)) = some (pathname (browserName path)) := by
  have hplus : ∀ word : Bytes, units "/cockpit+" ++ pathname word =
      Location.slash :: pathname (ascii "cockpit+" ++ word) := fun word => by
    simp only [pathname, map_append]
    rfl
  have hpage : units "/cockpit/" <+: pathname (slash :: path) ↔ ascii "cockpit/" <+: path := by
    rw [← prefix_pathname (ascii "cockpit/") path]
    exact prefix_cons_inj _
  have hnamed : units "/cockpit+" <+: pathname (slash :: path) ↔ ascii "cockpit+" <+: path := by
    rw [← prefix_pathname (ascii "cockpit+") path]
    exact prefix_cons_inj _
  have hhost : units "/=" <+: pathname (slash :: path) ↔ ascii "=" <+: path := by
    rw [← prefix_pathname (ascii "=") path]
    exact prefix_cons_inj _
  have hsnd : ∀ path : Bytes, ((pathname (slash :: path)).splitOn Location.slash)[1]? =
      some (pathname (word path)) := fun path => by
    rw [← takeWhile_pathname]
    exact splitOn_second _
  have hbare : ¬ pathname (slash :: path) = [] := by simp [pathname]
  unfold calculateApplication browserName
  simp only [if_neg hbare, ne_eq, not_true_eq_false, false_and, if_false, hpage, hnamed, hhost]
  by_cases hplain : ascii "cockpit/" <+: path
  · obtain ⟨tail, rfl⟩ := hplain
    rw [if_neg (by simp), hsnd, if_neg (fun h => by simp [ascii] at h),
      if_neg (fun h => by simp [ascii] at h)]
    rfl
  by_cases happ : ascii "cockpit+" <+: path
  · rw [if_neg (by simp [happ]), if_pos happ, hsnd]
  rw [if_pos ⟨hplain, happ⟩, if_neg happ, hsnd]
  split
  · rw [Option.getD_some, hplus, splitOn_second, takeWhile_pathname]
    have hname : slash ∉ ascii "cockpit+" ++ word path := by
      rw [mem_append, not_or]
      exact ⟨by decide, slash_notMem_word path⟩
    rw [word_eq_self hname]
  · rfl

/-- What the browser calls an application. -/
theorem browserName_cases :
    slash ∉ browserName path ∧
      (ascii "cockpit+" <+: browserName path ∨ browserName path = ascii "cockpit") := by
  unfold browserName
  split
  · rename_i hplus
    obtain ⟨tail, rfl⟩ := hplus
    refine ⟨slash_notMem_word _, .inl ?_⟩
    rw [word, takeWhile_append_of_pos (all_eq_true.mp (by decide))]
    exact prefix_append _ _
  split
  · refine ⟨?_, .inl (prefix_append _ _)⟩
    rw [mem_append, not_or]
    exact ⟨by decide, slash_notMem_word path⟩
  · exact ⟨by decide, .inr rfl⟩

theorem socketPath_eq :
    socketPath (slash :: path) = slash :: (browserName path ++ slash :: ascii "socket") := by
  have hback : ∀ bytes : Bytes, (pathname bytes).map UInt8.ofNat = bytes := fun bytes => by
    simp [pathname, Function.comp_def]
  unfold socketPath urlPath
  rw [calculateApplication_pathname]
  simp only [ne_eq, not_true_eq_false, if_false, Option.getD_some, map_cons, map_append, hback]
  rfl

/-- It is what is behind the host in the URL that a page on `http:` opens. -/
theorem calculateUrl_socket {location : List Nat} (h : units "http:" <+: location)
    (host : List Nat) (path : Bytes) :
    calculateUrl location host [] (pathname (slash :: path)) [] =
      some (units "ws://" ++ host ++ pathname (socketPath (slash :: path))) := by
  rw [calculateUrl, if_pos h, socketPath_eq, urlPath, calculateApplication_pathname]
  simp only [ne_eq, not_true_eq_false, if_false, Option.getD_some, pathname, map_cons, map_append]
  rfl

/-- **The socket of a page** has the application that the browser means. -/
theorem parse_socket :
    parseApplication (socketPath (slash :: path)) = some (browserName path) := by
  rw [socketPath_eq]
  obtain ⟨hword, hplus | hplain⟩ := browserName_cases path
  · have hlong : (browserName path ++ slash :: ascii "socket").length ≠ 8 := by
      have := hplus.length_le
      simp only [List.length_append, length_cons]
      intro h
      have h8 : (ascii "cockpit+").length = 8 := by decide
      omega
    rw [parseApplication, if_neg (by simp), if_pos ⟨hplus.trans (prefix_append _ _), hlong⟩,
      word_append hword]
  · rw [hplain]
    decide

/-! ### Agreement -/

/-- The browser and the server mean the same application, with the same cookie. -/
structure Agree (path : Bytes) : Prop where
  page : calculateApplication [] (pathname path) = (parseApplication path).map pathname
  socket : parseApplication (socketPath path) = parseApplication path
  cookie : (parseApplication (socketPath path)).map cookieName =
    (parseApplication path).map cookieName

/-- **Where they agree**: everywhere but on a bare `/cockpit+` and a bare `/=`. -/
theorem applications_agree_iff (path : CStr) :
    Agree (slash :: path.bytes) ↔ path.bytes ≠ ascii "cockpit+" ∧ path.bytes ≠ ascii "=" := by
  generalize path.bytes = path
  constructor
  · intro h
    have hsocket := h.socket
    rw [parse_socket] at hsocket
    constructor <;> rintro rfl <;> exact nomatch hsocket
  rintro ⟨hplus, hhost⟩
  have hparse : parseApplication (slash :: path) = some (browserName path) := by
    have hlong : ∀ text : Bytes, text <+: path → path ≠ text → path.length ≠ text.length :=
      fun text hpre hne heq => hne (hpre.eq_of_length heq.symm).symm
    rw [parseApplication, if_neg (by simp)]
    unfold browserName
    split
    · rename_i h
      rw [if_pos h.1]
    rename_i h
    rw [if_neg fun hpre => h ⟨hpre, hlong _ hpre hplus⟩]
    split
    · rename_i h
      rw [if_pos h.1]
    · rename_i h
      rw [if_neg fun hpre => h ⟨hpre, hlong _ hpre hhost⟩]
  refine ⟨?_, ?_, ?_⟩
  · rw [calculateApplication_pathname, hparse, Option.map_some]
  · rw [parse_socket, hparse]
  · rw [parse_socket, hparse]

/-- The page `/=` has the cookie of the plain application, its socket another one. -/
theorem not_agree_host :
    parseApplication (ascii "/=") = some (ascii "cockpit") ∧
      parseApplication (socketPath (ascii "/=")) = some (ascii "cockpit+=") ∧
      ¬ Agree (ascii "/=") :=
  ⟨by decide, parse_socket (ascii "="), fun h =>
    absurd ((parse_socket (ascii "=")).symm.trans h.socket) (by decide)⟩

end Cockpit.Ws.Application
