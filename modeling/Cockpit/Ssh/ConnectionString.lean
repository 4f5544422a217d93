import Cockpit.Lib.UriComponent
import Cockpit.Common.WebServer
import Cockpit.Kubernetes.Client

namespace Cockpit.Ssh

open Lib List Option WebServer UInt8 Nat

/-!
# Connection strings

`generate_connection_string` and `split_connection_string` of `pkg/lib/machines.js`, and
`parse_host` of `src/ssh/cockpitsshrelay.c`.  A string of the browser is a list of characters, which
`cockpit-ssh` gets as UTF-8.

* `parseHost_generate` — what `cockpit-ssh` makes of it;
* `hosts_agree_iff` — when both find the parts again.
-/

/-- `lastIndexOf`, and `strrchr` as an offset. -/
def lastIndexOf {α : Type} [DecidableEq α] (c : α) : List α → Option Nat
  | [] => none
  | d :: s =>
    match lastIndexOf c s with
    | some i => some (i + 1)
    | none => if d = c then some 0 else none

variable {α : Type}

theorem lastIndexOf_of_notMem [DecidableEq α] {c : α} {s : List α} (h : c ∉ s) :
    lastIndexOf c s = none := by
  induction s with
  | nil => rfl
  | cons d s ih =>
    rw [mem_cons, not_or] at h
    rw [lastIndexOf, ih h.2]
    exact if_neg (Ne.symm h.1)

theorem lastIndexOf_append [DecidableEq α] {c : α} {s : List α} (h : c ∉ s)
    (before : List α) : lastIndexOf c (before ++ c :: s) = some before.length := by
  induction before with
  | nil =>
    rw [nil_append, lastIndexOf, lastIndexOf_of_notMem h]
    exact if_pos rfl
  | cons d before ih =>
    rw [cons_append, lastIndexOf, ih]
    rfl

/-! ### `machines.js` -/

/-- `generate_connection_string`; neither an absent port nor zero is appended. -/
def generateConnectionString (user : List Char) (port : Option Nat) (addr : List Char) :
    List Char :=
  let address := if user ≠ [] then user ++ '@' :: addr else addr
  if port.getD 0 ≠ 0 then address ++ ':' :: (toString (port.getD 0)).toList else address

structure Parts where
  user : Option (List Char)
  port : Option Int
  address : List Char
  deriving DecidableEq

/-- The second half of `split_connection_string`, behind the user. -/
def splitPort (user : Option (List Char)) (connTo : List Char) : Parts :=
  match lastIndexOf ':' connTo with
  | none => { user, port := none, address := connTo }
  | some portSpot =>
    match Kube.parseInt (String.ofList (connTo.drop (portSpot + 1))) with
    | some port => { user, port := some port, address := connTo.take portSpot }
    | none => { user, port := none, address := connTo }

/-- `split_connection_string`; an "@" in front is left where it is. -/
def splitConnectionString (connTo : List Char) : Parts :=
  let userSpot := (lastIndexOf '@' connTo).getD 0
  if userSpot > 0 then splitPort (some (connTo.take userSpot)) (connTo.drop (userSpot + 1))
  else splitPort none connTo

/-! ### `cockpitsshrelay.c` -/

/-- `G_MAXUSHORT` -/
def maxUshort : Nat := 65535

structure Host where
  hostname : Bytes
  username : Bytes
  port : Nat
  deriving DecidableEq

variable (host : Bytes)

/-- The "@" that ends a user; it is not looked at where it stands, but for what stands in front. -/
def userSpot : Option Nat :=
  (lastIndexOf 64 host).filter fun i => host[i]? ≠ host[0]?

/-- What `g_ascii_strtoull` makes of what is behind a ":". -/
def portAt (i : Nat) : Nat × Bytes :=
  WebServer.strtoull (strndup (host.drop (i + 1)))

/-- The ":" that a port is behind. -/
def portSpot : Option Nat :=
  (lastIndexOf 58 host).filter fun i =>
    (portAt host i).2 = [] ∧ 0 < (portAt host i).1 ∧ (portAt host i).1 < maxUshort

variable (currentUser : Bytes)

/-- `parse_host`, with the result of `g_get_user_name` and the port that the caller sets before. -/
def parseHost (host : CStr) : Host :=
  let host := host.bytes
  let userArg := (userSpot host).map host.take
  let hostOffset := ((userSpot host).map (· + 1)).getD 0
  let port := (portSpot host).map fun i => (portAt host i).1
  let hostLength := host.length - hostOffset - ((portSpot host).map (host.length - ·)).getD 0
  { hostname := (host.drop hostOffset).take hostLength
    username := (userArg.filter (· ≠ [])).getD currentUser
    port := port.getD 22 }

/-! ### Strings and addresses -/

/-- The UTF-8 of a string. -/
def utf8 (s : List Char) : Bytes := s.flatMap fun c => Utf16.octets c.toNat

@[simp] theorem utf8_append (s t : List Char) : utf8 (s ++ t) = utf8 s ++ utf8 t :=
  flatMap_append

variable {c : Char}

theorem utf8_cons_ascii (h : c.toNat < 0x80) (s : List Char) :
    utf8 (c :: s) = ofNat c.toNat :: utf8 s := by
  simp [utf8, Utf16.octets, h]

variable {s : List Char} {b : UInt8}

/-- An ASCII byte is that of a character. -/
theorem mem_of_mem_utf8 (hb : b.toNat < 0x80) (h : b ∈ utf8 s) :
    ∃ c ∈ s, c.toNat = b.toNat := by
  obtain ⟨c, hc, hmem⟩ := mem_flatMap.mp h
  refine ⟨c, hc, ?_⟩
  by_cases hascii : c.toNat < 0x80
  · rw [Utf16.octets, if_pos hascii, mem_singleton] at hmem
    rw [hmem, toNat_ofNat', mod_eq_of_lt (by omega)]
  have hvalid : c.toNat < 0x110000 := by
    have := c.valid
    simp only [UInt32.isValidChar, Nat.isValidChar] at this
    have : c.toNat = c.val.toNat := rfl
    omega
  have := Utf16.le_of_mem_octets (not_lt.mp hascii) hvalid b hmem
  omega

theorem notMem_utf8 (hc : c.toNat < 0x80) (h : c ∉ s) :
    ofNat c.toNat ∉ utf8 s := by
  intro hmem
  have hb : (ofNat c.toNat).toNat = c.toNat := by
    rw [toNat_ofNat', mod_eq_of_lt (by omega)]
  obtain ⟨d, hd, heq⟩ := mem_of_mem_utf8 (by omega) hmem
  rw [hb] at heq
  exact h (Char.toNat_inj.mp heq ▸ hd)

/-- A string as an argument of `cockpit-ssh`. -/
def cstr (s : List Char) : CStr := strndup (utf8 s)

theorem bytes_cstr (h : '\x00' ∉ s) : (cstr s).bytes = utf8 s := by
  have hnul : (0 : UInt8) ∉ utf8 s := notMem_utf8 (by decide) h
  apply takeWhile_eq_self_iff.mpr
  intro b hb
  simpa using fun heq : b = 0 => hnul (heq ▸ hb)

/-- What a group of an address is made of; a zone may be behind the last one. -/
def isGroupChar (c : Char) : Bool := c.isAlphanum || c == '.' || c == '%'

/-- A host name or an IPv4 address, which has no ":", or an IPv6 address, by its last ":". -/
inductive Address where
  | name (text : List Char) (wf : ∀ c ∈ text, c ≠ '@' ∧ c ≠ ':' ∧ c ≠ '\x00')
  | ipv6 (front last : List Char) (front_wf : ∀ c ∈ front, isGroupChar c ∨ c = ':')
    (last_wf : ∀ c ∈ last, isGroupChar c)

namespace Address

def text : Address → List Char
  | name text _ => text
  | ipv6 front last _ _ => front ++ ':' :: last

/-- Whether a digit is behind the last ":". -/
def digitLast : Address → Bool
  | name _ _ => false
  | ipv6 _ last _ _ => last.head?.any Char.isDigit

end Address

/-! ### The browser -/

theorem isGroupChar_graph (h : isGroupChar c) :
    c ≠ '@' ∧ c ≠ ':' ∧ c ≠ '-' ∧ c ≠ '+' ∧ 33 ≤ c.toNat ∧ c.toNat < 128 := by
  refine ⟨?_, ?_, ?_, ?_, ?_⟩ <;> try (rintro rfl; exact nomatch h)
  simp only [isGroupChar, Char.isAlphanum, Char.isAlpha, Char.isUpper, Char.isLower, Char.isDigit,
    Bool.or_eq_true, Bool.and_eq_true, decide_eq_true_eq, beq_iff_eq, UInt32.le_iff_toNat_le,
    ge_iff_le] at h
  rcases h with ((h | h) | rfl) | rfl
  · simp at h
    omega
  · simp at h
    omega
  · decide
  · decide

/-- What is neither skipped nor a sign is read up to the last digit. -/
theorem parseInt_cons (h : isGroupChar c) :
    Kube.parseInt (String.ofList (c :: s)) =
      if c.isDigit then
        some (Int.ofNat (Kube.toNumber (ofDigitChars 10 ((c :: s).takeWhile Char.isDigit) 0)))
      else none := by
  obtain ⟨-, -, hminus, hplus, hgraph, hascii⟩ := isGroupChar_graph h
  have hspace : Kube.isSpace c = false := by
    simp [Kube.isSpace]
    omega
  unfold Kube.parseInt
  rw [String.toList_ofList, dropWhile_cons_of_neg (by simp [hspace])]
  by_cases hdigit : c.isDigit
  · simp [hminus, hplus, hdigit, ofDigitChars_eq_foldl]
  · simp [hminus, hplus, hdigit]

theorem isGroupChar_of_isDigit (h : c.isDigit) : isGroupChar c := by
  simp [isGroupChar, Char.isAlphanum, h]

variable {p : Nat}

theorem parseInt_toString (hp : p < 2 ^ 53) :
    Kube.parseInt (String.ofList (toString p).toList) = some (Int.ofNat p) := by
  have hdigs : ∀ c ∈ (toString p).toList, c.isDigit := fun c hc =>
    isDigit_of_mem_toString hc
  have hvalue : ofDigitChars 10 (toString p).toList 0 = p := by
    rw [show (toString p).toList = toDigits 10 p from toList_repr]
    exact ofDigitChars_ten_toDigits
  obtain ⟨c, s, htext⟩ := exists_cons_of_ne_nil
    (show (toString p).toList ≠ [] from toList_repr ▸ toDigits_ne_nil)
  rw [htext] at hdigs hvalue ⊢
  have hc := hdigs c mem_cons_self
  rw [parseInt_cons (isGroupChar_of_isDigit hc), if_pos hc,
    takeWhile_eq_self_iff.mpr hdigs, hvalue, Kube.toNumber, if_pos hp]

variable {user : List Char} {port : Option Nat} {address : Address}

theorem notMem_text (address : Address) : '@' ∉ address.text ∧ '\x00' ∉ address.text := by
  cases address with
  | name text wf => exact ⟨fun h => (wf _ h).1 rfl, fun h => (wf _ h).2.2 rfl⟩
  | ipv6 front last hfront hlast =>
    constructor
    all_goals
      intro h
      rcases mem_append.mp h with h | h
      · exact nomatch (hfront _ h)
      · exact absurd (hlast _ ((mem_cons.mp h).resolve_left (by decide))) (by decide)

/-- A port behind a ":". -/
def portText (port : Option Nat) : List Char :=
  if port.getD 0 ≠ 0 then ':' :: (toString (port.getD 0)).toList else []

theorem notMem_portText (hc : c ≠ ':') (hdigit : c.isDigit = false) :
    c ∉ portText port := by
  intro h
  unfold portText at h
  split at h
  · have := isDigit_of_mem_toString ((mem_cons.mp h).resolve_left hc)
    rw [hdigit] at this
    exact Bool.false_ne_true this
  · exact not_mem_nil h

theorem generate_eq (user : List Char) (port : Option Nat) (addr : List Char) :
    generateConnectionString user port addr =
      (if user ≠ [] then user ++ ['@'] else []) ++ (addr ++ portText port) := by
  unfold generateConnectionString portText
  split_ifs <;> simp

theorem splitPort_of_spot (user : Option (List Char)) {front last : List Char} (h : ':' ∉ last) :
    splitPort user (front ++ ':' :: last) =
      match Kube.parseInt (String.ofList last) with
      | some port => { user, port := some port, address := front }
      | none => { user, port := none, address := front ++ ':' :: last } := by
  have hdrop : (front ++ ':' :: last).drop (front.length + 1) = last := by
    rw [← drop_drop, drop_left]
    rfl
  unfold splitPort
  rw [lastIndexOf_append h]
  simp only [hdrop, take_left]

/-- What is behind the user: the port, if the address does not look like having one itself. -/
theorem splitPort_iff (user : Option (List Char)) (hport : ∀ p ∈ port, 1 ≤ p ∧ p ≤ 65535) :
    splitPort user (address.text ++ portText port) =
      { user, port := port.map Int.ofNat, address := address.text } ↔
      (port = none → address.digitLast = false) := by
  cases port with
  | some p =>
    have hp := hport p rfl
    have htext : portText (some p) = ':' :: (toString p).toList := if_pos (by simp; omega)
    have hcolon : ':' ∉ (toString p).toList := fun h =>
      nomatch (isDigit_of_mem_toString h)
    rw [htext, splitPort_of_spot user hcolon, parseInt_toString (by omega)]
    simp
  | none =>
    have htext : portText none = [] := if_neg (by simp)
    rw [htext, append_nil]
    cases address with
    | name text wf =>
      have hcolon : ':' ∉ text := fun h => (wf _ h).2.1 rfl
      simp [splitPort, Address.text, Address.digitLast, lastIndexOf_of_notMem hcolon]
    | ipv6 front last hfront hlast =>
      have hcolon : ':' ∉ last := fun h => nomatch (hlast _ h)
      rw [Address.text, splitPort_of_spot user hcolon]
      cases last with
      | nil => simp [Address.digitLast, Kube.parseInt]
      | cons c last =>
        rw [parseInt_cons (hlast c mem_cons_self)]
        cases hdigit : c.isDigit <;> simp [Address.digitLast, hdigit]

theorem split_generate (hport : ∀ p ∈ port, 1 ≤ p ∧ p ≤ 65535) :
    splitConnectionString (generateConnectionString user port address.text) =
      { user := if user = [] then none else some user
        port := port.map Int.ofNat
        address := address.text } ↔
      (port = none → address.digitLast = false) := by
  have hat : '@' ∉ address.text ++ portText port := by
    rw [mem_append, not_or]
    exact ⟨(notMem_text address).1, notMem_portText (by decide) (by decide)⟩
  rw [generate_eq]
  unfold splitConnectionString
  by_cases huser : user = []
  · simp [huser, lastIndexOf_of_notMem hat, ← splitPort_iff none hport]
  have hpos := length_pos_of_ne_nil huser
  have hdrop : (user ++ '@' :: (address.text ++ portText port)).drop (user.length + 1) =
      address.text ++ portText port := by
    rw [← drop_drop, drop_left]
    rfl
  rw [if_pos huser, append_assoc, singleton_append, lastIndexOf_append hat,
    getD_some, if_pos hpos, hdrop, take_left, if_neg huser]
  exact splitPort_iff (some user) hport

/-! ### `cockpit-ssh` -/

/-- Without a space or a sign in front. -/
theorem strtoull_cons {bytes : Bytes} (hnul : (0 : UInt8) ∉ b :: bytes)
    (hspace : isStrtoullSpace b = false) (hplus : b ≠ 43) (hminus : b ≠ 45) :
    WebServer.strtoull ⟨b :: bytes, hnul⟩ =
      if isDigit b then (min (digitsValue 0 ((b :: bytes).takeWhile isDigit)) (2 ^ 64 - 1),
        (b :: bytes).dropWhile isDigit)
      else (0, b :: bytes) := by
  unfold WebServer.strtoull
  rw [dropWhile_cons_of_neg (by simp [hspace])]
  by_cases hdigit : isDigit b <;> simp [hplus, hminus, hdigit]

/-- What is read to its end has no "@". -/
theorem at_notMem_of_strtoull {s : CStr} (h : (WebServer.strtoull s).2 = []) :
    (64 : UInt8) ∉ s.bytes := by
  have hnil : s.bytes = [] → (64 : UInt8) ∉ s.bytes := fun hs => by simp [hs]
  unfold WebServer.strtoull at h
  split at h
  · exact hnil h
  rename_i sign digits hdrop
  have hnumber : (64 : UInt8) ∈ sign :: digits →
      (64 : UInt8) ∈ if sign = 43 || sign = 45 then digits else sign :: digits := by
    intro hmem
    split
    · rename_i hsign
      refine (mem_cons.mp hmem).resolve_left fun heq => ?_
      rw [← heq] at hsign
      cases hsign
    · exact hmem
  dsimp only at h
  generalize (if sign = 43 || sign = 45 then digits else sign :: digits) = number at h hnumber
  split at h
  · exact hnil h
  have hall := dropWhile_eq_nil_iff.mp h
  rw [← s.bytes.takeWhile_append_dropWhile (p := isStrtoullSpace), hdrop]
  intro hmem
  rcases mem_append.mp hmem with hmem | hmem
  · cases (mem_takeWhile_imp hmem)
  · exact absurd (hall _ (hnumber hmem)) (by decide)

theorem portAt_append {front last : Bytes} (h : (0 : UInt8) ∉ last) :
    portAt (front ++ 58 :: last) front.length = WebServer.strtoull ⟨last, h⟩ := by
  have hdrop : (front ++ 58 :: last).drop (front.length + 1) = last := by
    rw [← drop_drop, drop_left]
    rfl
  have hdup : strndup last = ⟨last, h⟩ := by
    apply CStr.ext
    apply takeWhile_eq_self_iff.mpr
    intro b hb
    simpa using fun heq : b = 0 => h (heq ▸ hb)
  rw [portAt, hdrop, hdup]

/-- The digits of a number, in UTF-8. -/
theorem utf8_digits (h : ∀ c ∈ s, c.isDigit) (acc : Nat) :
    (∀ b ∈ utf8 s, isDigit b) ∧ digitsValue acc (utf8 s) = ofDigitChars 10 s acc := by
  induction s generalizing acc with
  | nil => exact ⟨fun b hb => absurd hb not_mem_nil, rfl⟩
  | cons c s ih =>
    have hc := h c mem_cons_self
    have hrange : 48 ≤ c.toNat ∧ c.toNat ≤ 57 := by
      simpa [Char.isDigit, UInt32.le_iff_toNat_le] using hc
    have hbyte : (ofNat c.toNat).toNat = c.toNat := by
      rw [toNat_ofNat', mod_eq_of_lt (by omega)]
    obtain ⟨hdigs, hvalue⟩ := ih (fun c hc => h c (mem_cons_of_mem _ hc))
      (acc * 10 + (c.toNat - 48))
    rw [utf8_cons_ascii (by omega)]
    constructor
    · intro b hb
      rcases mem_cons.mp hb with rfl | hb
      · simp only [isDigit, Bool.and_eq_true, decide_eq_true_eq, le_iff_toNat_le, hbyte]
        exact hrange
      · exact hdigs b hb
    rw [ofDigitChars_cons]
    show digitsValue (acc * 10 + digitValue (ofNat c.toNat)) (utf8 s) = _
    rw [digitValue, hbyte, hvalue, mul_comm]
    rfl

theorem isStrtoullSpace_of_graph (h : 33 ≤ b.toNat) :
    isStrtoullSpace b = false := by
  simp only [isStrtoullSpace, isSpace, Bool.or_eq_false_iff, decide_eq_false_iff_not]
  refine ⟨⟨⟨⟨⟨?_, ?_⟩, ?_⟩, ?_⟩, ?_⟩, ?_⟩ <;> rintro rfl <;> exact nomatch h

theorem isDigit_not_space (h : isDigit b) :
    isStrtoullSpace b = false ∧ b ≠ 43 ∧ b ≠ 45 := by
  refine ⟨isStrtoullSpace_of_graph ?_, ?_, ?_⟩
  · simp only [isDigit, Bool.and_eq_true, decide_eq_true_eq, le_iff_toNat_le,
      reduceToNat] at h
    omega
  · rintro rfl
    cases h
  · rintro rfl
    cases h

/-- The port of a string is read as a whole. -/
theorem strtoull_toString (hp : p < 2 ^ 63) (hnul : (0 : UInt8) ∉ utf8 (toString p).toList) :
    WebServer.strtoull ⟨utf8 (toString p).toList, hnul⟩ = (p, []) := by
  have hchars : ∀ c ∈ (toString p).toList, c.isDigit := fun c hc =>
    isDigit_of_mem_toString hc
  obtain ⟨hdigs, hvalue⟩ := utf8_digits hchars 0
  have htext : (toString p).toList = toDigits 10 p := toList_repr
  have hne : utf8 (toString p).toList ≠ [] := by
    intro hnil
    rw [hnil, htext, ofDigitChars_ten_toDigits] at hvalue
    rw [← hvalue] at hnil
    exact nomatch hnil
  rw [htext, ofDigitChars_ten_toDigits, ← htext] at hvalue
  generalize utf8 (toString p).toList = bytes at hdigs hvalue hne hnul
  obtain ⟨b, bytes, rfl⟩ := exists_cons_of_ne_nil hne
  have hb := hdigs b mem_cons_self
  obtain ⟨hspace, hplus, hminus⟩ := isDigit_not_space hb
  rw [strtoull_cons hnul hspace hplus hminus, if_pos hb,
    takeWhile_eq_self_iff.mpr hdigs, dropWhile_eq_nil_iff.mpr hdigs, hvalue,
    Nat.min_eq_left (by omega)]

/-- No number is behind the last ":" of an address. -/
theorem strtoull_group (h : ∀ c ∈ s, isGroupChar c)
    (hdigit : s.head?.any Char.isDigit = false) (hnul : (0 : UInt8) ∉ utf8 s) :
    (WebServer.strtoull ⟨utf8 s, hnul⟩).1 = 0 := by
  cases s with
  | nil => rfl
  | cons c s =>
    obtain ⟨-, -, hminus, hplus, hgraph, hascii⟩ := isGroupChar_graph (h c mem_cons_self)
    have hbyte : (ofNat c.toNat).toNat = c.toNat := by
      rw [toNat_ofNat', mod_eq_of_lt (by omega)]
    have hsign : ∀ sign : Char, sign.toNat < 128 → c ≠ sign →
        ofNat c.toNat ≠ ofNat sign.toNat := by
      intro sign hsign hne heq
      have hnat := congrArg toNat heq
      rw [hbyte, toNat_ofNat', mod_eq_of_lt (by omega)] at hnat
      exact hne (Char.toNat_inj.mp hnat)
    have hletter : ¬ isDigit (ofNat c.toNat) := by
      intro hd
      simp only [isDigit, Bool.and_eq_true, decide_eq_true_eq, le_iff_toNat_le, hbyte] at hd
      have hc : c.isDigit := by
        simpa [Char.isDigit, UInt32.le_iff_toNat_le] using hd
      simp [hc] at hdigit
    revert hnul
    rw [utf8_cons_ascii hascii]
    intro hnul
    rw [strtoull_cons hnul (isStrtoullSpace_of_graph (by omega)) (hsign '+' (by decide) hplus)
      (hsign '-' (by decide) hminus), if_neg hletter]

/-! ### Spots -/

/-- What `cockpit-ssh` gets, up to the host. -/
def userPart (user : List Char) : Bytes := if user = [] then [] else utf8 user ++ [64]

variable {rest : Bytes}

theorem userSpot_append (hrest : (64 : UInt8) ∉ rest) (hat : user.head? ≠ some '@') :
    userSpot (userPart user ++ rest) = if user = [] then none else some (utf8 user).length := by
  unfold userSpot userPart
  cases user with
  | nil => simp [lastIndexOf_of_notMem hrest]
  | cons c user =>
    rw [if_neg (by simp), if_neg (by simp), append_assoc, singleton_append,
      lastIndexOf_append hrest, filter_some, if_pos]
    obtain ⟨b, bytes, hbytes⟩ := exists_cons_of_length_pos (Utf16.length_octets_pos c.toNat)
    have hutf8 : utf8 (c :: user) = b :: (bytes ++ utf8 user) := by
      rw [utf8, flatMap_cons, hbytes]
      rfl
    have hb : b ≠ 64 := by
      rintro rfl
      obtain ⟨d, hd, heq⟩ := mem_of_mem_utf8 (b := 64) (by decide) (s := [c])
        (by simp [utf8, hbytes])
      rw [mem_singleton.mp hd] at heq
      exact hat (congrArg some (Char.toNat_inj.mp heq))
    simp [hutf8, Ne.symm hb]

theorem lastIndexOf_eq_some [DecidableEq α] {c : α} {s : List α} {i : Nat}
    (h : lastIndexOf c s = some i) : s[i]? = some c := by
  induction s generalizing i with
  | nil => exact absurd h (by simp [lastIndexOf])
  | cons d s ih =>
    rw [lastIndexOf] at h
    split at h
    · rename_i j hj
      obtain rfl : j + 1 = i := some.inj h
      rw [getElem?_cons_succ]
      exact ih hj
    split at h
    · rename_i hd
      obtain rfl : 0 = i := some.inj h
      rw [getElem?_cons_zero, hd]
    · cases h

/-- A ":" in front of an "@" is none that a port is behind. -/
theorem portSpot_of_notMem (hrest : (58 : UInt8) ∉ rest)
    (hnul : (0 : UInt8) ∉ userPart user ++ rest) : portSpot (userPart user ++ rest) = none := by
  rw [portSpot, filter_eq_none_iff]
  intro i hi
  have hcolon := lastIndexOf_eq_some hi
  have hnul' : (0 : UInt8) ∉ (userPart user ++ rest).drop (i + 1) := fun h =>
    hnul (mem_of_mem_drop h)
  have hdup : (strndup ((userPart user ++ rest).drop (i + 1))).bytes =
      (userPart user ++ rest).drop (i + 1) := by
    apply takeWhile_eq_self_iff.mpr
    intro b hb
    simpa using fun heq : b = 0 => hnul' (heq ▸ hb)
  have hat : (64 : UInt8) ∈ (userPart user ++ rest).drop (i + 1) := by
    unfold userPart at hcolon ⊢
    split at hcolon
    · exact absurd (mem_of_getElem? hcolon) hrest
    rename_i huser
    rw [if_neg huser, append_assoc] at *
    by_cases hlt : i < (utf8 user).length
    · rw [drop_append_of_le_length hlt]
      simp
    rw [getElem?_append_right (not_lt.mp hlt), singleton_append] at hcolon
    rcases mem_cons.mp (mem_of_getElem? hcolon) with h | h
    · exact nomatch h
    · exact absurd h hrest
  simp only [decide_eq_true_eq, not_and]
  intro hall
  exact (at_notMem_of_strtoull hall (by rw [hdup]; exact hat)).elim

theorem utf8_colon (s : List Char) : utf8 (':' :: s) = 58 :: utf8 s := utf8_cons_ascii (by decide) s

/-- The ":" in front of the port. -/
theorem portSpot_port (hp : 1 ≤ p) (hmax : p < maxUshort) (front : Bytes) :
    portSpot (front ++ utf8 (portText (some p))) = some front.length ∧
      (portAt (front ++ utf8 (portText (some p))) front.length).1 = p := by
  have htext : portText (some p) = ':' :: (toString p).toList := if_pos (by simp; omega)
  have hchars : ∀ c ∈ (toString p).toList, c.isDigit := fun c hc =>
    isDigit_of_mem_toString hc
  have hdigs := (utf8_digits hchars 0).1
  have hnul : (0 : UInt8) ∉ utf8 (toString p).toList := fun h => nomatch (hdigs _ h)
  have hcolon : (58 : UInt8) ∉ utf8 (toString p).toList := fun h =>
    nomatch (hdigs _ h)
  have hport : portAt (front ++ 58 :: utf8 (toString p).toList) front.length = (p, []) := by
    rw [portAt_append hnul, strtoull_toString (by simp only [maxUshort] at hmax; omega)]
  rw [htext, utf8_colon, portSpot, lastIndexOf_append hcolon, hport]
  refine ⟨?_, rfl⟩
  rw [filter_some, hport, if_pos (by simp; omega)]

/-- Without a port. -/
theorem portSpot_none (hlast : address.digitLast = false)
    (hnul : (0 : UInt8) ∉ userPart user ++ utf8 address.text) :
    portSpot (userPart user ++ utf8 address.text) = none := by
  cases address with
  | name text wf =>
    have hcolon : (58 : UInt8) ∉ utf8 text :=
      notMem_utf8 (c := ':') (by decide) fun h => (wf _ h).2.1 rfl
    exact portSpot_of_notMem hcolon hnul
  | ipv6 front last hfront hgroup =>
    have hcolon : (58 : UInt8) ∉ utf8 last :=
      notMem_utf8 (c := ':') (by decide) fun h => nomatch (hgroup _ h)
    have hnul' : (0 : UInt8) ∉ utf8 last :=
      notMem_utf8 (c := '\x00') (by decide) fun h => nomatch (hgroup _ h)
    rw [Address.text, utf8_append, utf8_colon, ← append_assoc, portSpot,
      lastIndexOf_append hcolon, filter_some, portAt_append hnul',
      strtoull_group hgroup hlast, if_neg (by simp)]

theorem bytes_generate (hnul : '\x00' ∉ user) :
    (cstr (generateConnectionString user port address.text)).bytes =
      userPart user ++ (utf8 address.text ++ utf8 (portText port)) := by
  have hnul' : '\x00' ∉ generateConnectionString user port address.text := by
    rw [generate_eq, mem_append, not_or, mem_append, not_or]
    refine ⟨?_, (notMem_text address).2, notMem_portText (by decide) (by decide)⟩
    split
    · simpa using hnul
    · simp
  rw [bytes_cstr hnul', generate_eq, utf8_append, utf8_append]
  congr 1
  unfold userPart
  by_cases huser : user = []
  · rw [if_neg (not_not.mpr huser), if_pos huser]
    rfl
  · rw [if_pos huser, if_neg huser, utf8_append]
    rfl

theorem parseHost_generate (hnul : '\x00' ∉ user)
    (hport : ∀ p ∈ port, 1 ≤ p ∧ p ≤ 65535) (hat : user.head? ≠ some '@')
    (hmax : port ≠ some 65535) (hlast : port = none → address.digitLast = false) :
    parseHost currentUser (cstr (generateConnectionString user port address.text)) =
      { hostname := utf8 address.text
        username := if user = [] then currentUser else utf8 user
        port := port.getD 22 } := by
  have hbytes := @bytes_generate user port address hnul
  have hrest : (64 : UInt8) ∉ utf8 address.text ++ utf8 (portText port) := by
    rw [← utf8_append]
    refine notMem_utf8 (c := '@') (by decide) ?_
    rw [mem_append, not_or]
    exact ⟨(notMem_text address).1, notMem_portText (by decide) (by decide)⟩
  have hoff : (((userSpot (userPart user ++ (utf8 address.text ++ utf8 (portText port)))).map
      (· + 1)).getD 0) = (userPart user).length := by
    rw [userSpot_append hrest hat, userPart]
    by_cases huser : user = [] <;> simp [huser]
  have huserArg : (((userSpot (userPart user ++ (utf8 address.text ++ utf8 (portText port)))).map
      (userPart user ++ (utf8 address.text ++ utf8 (portText port))).take).filter (· ≠ [])).getD
        currentUser = if user = [] then currentUser else utf8 user := by
    rw [userSpot_append hrest hat]
    cases user with
    | nil => rfl
    | cons c user =>
      have hne : utf8 (c :: user) ≠ [] := by
        have := Utf16.length_octets_pos c.toNat
        intro hnil
        rw [utf8, flatMap_cons, append_eq_nil_iff] at hnil
        rw [hnil.1] at this
        exact nomatch this
      simp [userPart, filter_some, hne]
  unfold parseHost
  dsimp only
  rw [hbytes, hoff, huserArg]
  have hdrop : (userPart user ++ (utf8 address.text ++ utf8 (portText port))).drop
      (userPart user).length = utf8 address.text ++ utf8 (portText port) := drop_left
  rw [hdrop]
  cases port with
  | none =>
    have htext : utf8 (portText none) = [] := rfl
    rw [htext, append_nil, portSpot_none (hlast rfl)]
    · simp
    · rw [← append_nil (utf8 address.text), ← htext, ← hbytes]
      exact CStr.noNul _
  | some p =>
    obtain ⟨hone, hle⟩ := hport p rfl
    have hlt : p < maxUshort := by
      have : p ≠ 65535 := fun h => hmax (congrArg some h)
      unfold maxUshort
      omega
    obtain ⟨hspot, hp⟩ := portSpot_port hone hlt (userPart user ++ utf8 address.text)
    rw [append_assoc] at hspot hp
    rw [hspot, map_some, map_some, hp]
    have htake : (utf8 address.text ++ utf8 (portText (some p))).take
        ((userPart user ++ (utf8 address.text ++ utf8 (portText (some p)))).length -
          (userPart user).length -
          ((userPart user ++ (utf8 address.text ++ utf8 (portText (some p)))).length -
            (userPart user ++ utf8 address.text).length)) = utf8 address.text := by
      rw [take_append_of_le_length]
      · apply take_of_length_le
        simp only [List.length_append]
        omega
      · simp only [List.length_append]
        omega
    simp only [getD_some, htake]

/-! ### Agreement -/

/-- Both find the parts that the string was made of. -/
structure Agree (currentUser : Bytes) (user : List Char) (port : Option Nat) (address : Address) :
    Prop where
  browser : splitConnectionString (generateConnectionString user port address.text) =
    { user := if user = [] then none else some user
      port := port.map Int.ofNat
      address := address.text }
  relay : parseHost currentUser (cstr (generateConnectionString user port address.text)) =
    { hostname := utf8 address.text
      username := if user = [] then currentUser else utf8 user
      port := port.getD 22 }

theorem port_parseHost_lt (host : CStr) :
    (parseHost currentUser host).port < maxUshort := by
  unfold parseHost
  dsimp only
  cases hspot : portSpot host.bytes with
  | none =>
    show 22 < maxUshort
    decide
  | some i =>
    have hport := (filter_eq_some_iff.mp hspot).2
    simp only [decide_eq_true_eq] at hport
    exact hport.2.2

/-- An "@" in front of a user is taken for that of an empty one, and the host begins with it. -/
theorem at_mem_hostname {host : CStr} (h : host.bytes.head? = some 64) :
    (64 : UInt8) ∈ (parseHost currentUser host).hostname := by
  obtain ⟨rest, hbytes⟩ := head?_eq_some_iff.mp h
  have huser : userSpot host.bytes = none := by
    rw [userSpot, filter_eq_none_iff]
    intro i hi
    rw [lastIndexOf_eq_some hi, hbytes]
    simp
  -- the ":" of a port is behind it
  have hlen : 0 < host.bytes.length - 0 -
      ((portSpot host.bytes).map (host.bytes.length - ·)).getD 0 := by
    cases hspot : portSpot host.bytes with
    | none => simp [hbytes]
    | some i =>
      have hcolon := lastIndexOf_eq_some (filter_eq_some_iff.mp hspot).1
      obtain ⟨hi, -⟩ := List.getElem?_eq_some_iff.mp hcolon
      have hpos : i ≠ 0 := by
        rintro rfl
        rw [hbytes] at hcolon
        exact nomatch hcolon
      simp only [map_some, getD_some]
      omega
  unfold parseHost
  dsimp only
  rw [huser, map_none, getD_none, drop_zero]
  obtain ⟨n, hn⟩ := exists_eq_succ_of_ne_zero (pos_iff_ne_zero.mp hlen)
  rw [hn, hbytes, take_succ_cons]
  exact mem_cons_self

/-- **When both agree.** -/
theorem hosts_agree_iff (currentUser : Bytes) (hnul : '\x00' ∉ user)
    (hport : ∀ p ∈ port, 1 ≤ p ∧ p ≤ 65535) :
    Agree currentUser user port address ↔
      port ≠ some 65535 ∧ user.head? ≠ some '@' ∧ (port = none → address.digitLast = false) := by
  constructor
  · rintro ⟨hbrowser, hrelay⟩
    refine ⟨?_, ?_, (split_generate hport).mp hbrowser⟩
    · rintro rfl
      have hlt := port_parseHost_lt currentUser
        (cstr (generateConnectionString user (some 65535) address.text))
      rw [hrelay] at hlt
      exact lt_irrefl _ hlt
    intro hat
    obtain ⟨rest, rfl⟩ := head?_eq_some_iff.mp hat
    have hhead : (cstr (generateConnectionString ('@' :: rest) port address.text)).bytes.head? =
        some 64 := by
      rw [bytes_generate hnul, userPart, if_neg (by simp), utf8_cons_ascii (by decide)]
      rfl
    have hmem := at_mem_hostname currentUser hhead
    rw [hrelay] at hmem
    exact notMem_utf8 (c := '@') (by decide) ((notMem_text address).1) hmem
  · rintro ⟨hmax, hat, hlast⟩
    exact ⟨(split_generate hport).mpr hlast,
      parseHost_generate currentUser hnul hport hat hmax hlast⟩

/-- A user, a port and a host name. -/
theorem hosts_agree_admin : Agree [] ['a'] (some 2222) (.name ['h'] (by simp)) :=
  (hosts_agree_iff [] (by decide) (by rintro p ⟨rfl⟩; omega)).mpr ⟨by decide, by decide, by decide⟩

/-- `cockpit-ssh` finds no port 65535. -/
theorem not_agree_port : ¬ Agree [] [] (some 65535) (.name ['h'] (by simp)) := by
  intro h
  have hlt := port_parseHost_lt [] (cstr (generateConnectionString [] (some 65535) ['h']))
  have hport :
      (parseHost [] (cstr (generateConnectionString [] (some 65535) ['h']))).port = 65535 :=
    congrArg Host.port h.relay
  rw [hport] at hlt
  exact lt_irrefl _ hlt

end Cockpit.Ssh
