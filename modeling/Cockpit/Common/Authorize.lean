import Cockpit.Common.Base64Grammar

namespace Cockpit.Authorize

open Base64 (INT_MAX pton ntop size strip LargeEnough pton_le)
open Lib.Base64 (encode Encodes encodes_encode)
open List CStr
open Option

/-!
# The encodings of `src/common/cockpitauthorize.c`

Challenges and responses: a type, maybe a subject, and something in Base64.

* `buildBasic`, `parseBasic`, `buildNegotiate`, `parseNegotiate`, `buildXConversation`,
  `parseXConversation` — the encodings;
* `authorize_roundTrip` — what is built is parsed to the same, and no assertion fails.
-/

/-- Why a function does not return what it is for. -/
inductive Stop where
  /-- `NULL` is returned, with an `errno`. -/
  | null
  /-- An assertion fails. -/
  | assertion
  /-- The `int` of `cockpit_base64_pton` overflows. -/
  | overflow
  deriving DecidableEq

/-- What `malloc` finds in the memory that it returns. -/
structure Heap where
  malloc : Nat → Bytes
  length_malloc : ∀ n, (malloc n).length = n

/-- The string in a buffer, up to the first NUL. -/
def ofBuffer (buf : Bytes) : CStr :=
  ⟨buf.takeWhile (· ≠ 0), by
    intro h
    have hne := all_takeWhile (p := fun c : UInt8 => decide (c ≠ 0)) (l := buf)
    exact absurd (all_eq_true.mp hne 0 h) (by decide)⟩

/-- `%s%s` -/
def append (s t : CStr) : CStr :=
  ⟨s.bytes ++ t.bytes, fun h => (mem_append.mp h).elim s.noNul t.noNul⟩

/-- `asprintf`, which returns the length as an `int`. -/
def asprintf (s : CStr) : Except Stop CStr := if s.length ≤ INT_MAX then .ok s else .error .null

/-- `strcspn` -/
def strcspn (s reject : Bytes) : Nat := (s.takeWhile fun c => c ≠ 0 && !reject.contains c).length

/-- `tolower` -/
def tolower (c : UInt8) : UInt8 := if 65 ≤ c && c ≤ 90 then c + 32 else c

def colon : UInt8 := 58

def space : UInt8 := 32

def basicType : Bytes := [98, 97, 115, 105, 99]

def negotiateType : Bytes := [110, 101, 103, 111, 116, 105, 97, 116, 101]

def xConversationType : Bytes :=
  [120, 45, 99, 111, 110, 118, 101, 114, 115, 97, 116, 105, 111, 110]

/-- `"Basic "` -/
def basicIntro : CStr := ⟨[66, 97, 115, 105, 99, 32], by decide⟩

/-- `"Negotiate"` -/
def negotiateIntro : CStr := ⟨[78, 101, 103, 111, 116, 105, 97, 116, 101], by decide⟩

/-- `"X-Conversation "` -/
def xConversationIntro : CStr :=
  ⟨[88, 45, 67, 111, 110, 118, 101, 114, 115, 97, 116, 105, 111, 110, 32], by decide⟩

def spaceStr : CStr := ⟨[32], by decide⟩

def colonStr : CStr := ⟨[58], by decide⟩

variable (challenge : Bytes)

/-- Behind the delimiter and the spaces after it. -/
def behind (len : Nat) : Bytes := (challenge.drop (len + 1)).dropWhile (· = space)

/-- `cockpit_authorize_type`: the type, and the rest of the challenge. -/
def authorizeType : Option (Bytes × Bytes) :=
  let len := strcspn challenge [colon, space]
  if len = 0 then none else some ((challenge.take len).map tolower, behind challenge len)

/-- `cockpit_authorize_subject` -/
def authorizeSubject : Option (Bytes × Bytes) :=
  (authorizeType challenge).bind fun (_, challenge) =>
    let len := strcspn challenge [colon, space]
    if len = 0 then none else some (challenge.take len, behind challenge len)

section

variable (heap : Heap)

/-- `buf = malloc (len + 1)`, and `cockpit_base64_pton` into all of it but the last byte. -/
def decode (challenge : Bytes) : Except Stop (Nat × Bytes) :=
  let len := strcspn challenge [space]
  let buf := heap.malloc (len + 1)
  match pton (challenge.take len) (some (buf.take len)) with
  | .ok (res, some written) => .ok (res, written ++ buf.drop len)
  | .ok (res, none) => .ok (res, buf)
  | .error .invalid => .error .null
  | .error .overflow => .error .overflow

variable (challenge : CStr)

/-- `cockpit_authorize_parse_basic`: the user, or `NULL`, and the password. -/
def parseBasic : Except Stop (Option CStr × CStr) :=
  match authorizeType challenge.bytes with
  | none => .error .null
  | some (type, challenge) =>
    if type ≠ basicType then .error .null
    else
      let len := strcspn challenge [space]
      -- no value
      if len = 0 then .ok (none, empty)
      else do
        let (res, buf) ← decode heap challenge
        if ¬ res ≤ len then .error .assertion
        else
          let buf := buf.set res 0
          let off := strcspn buf [colon]
          if off = res then .error .null
          else .ok (some (ofBuffer (buf.take off)), ofBuffer ((buf.drop (off + 1)).take (res - off)))

/-- `cockpit_authorize_parse_negotiate`: the first `*length` bytes of the buffer. -/
def parseNegotiate : Except Stop Bytes :=
  match authorizeType challenge.bytes with
  | none => .error .null
  | some (type, challenge) =>
    if type ≠ negotiateType then .error .null
    else do
      let (res, buf) ← decode heap challenge
      return buf.take res

/-- `cockpit_authorize_parse_x_conversation`: the conversation and the prompt. -/
def parseXConversation : Except Stop (CStr × CStr) :=
  match authorizeType challenge.bytes with
  | none => .error .null
  | some (type, _) =>
    if type ≠ xConversationType then .error .null
    else
      match authorizeSubject challenge.bytes with
      | none => .error .null
      | some (conversation, challenge) => do
        let (res, buf) ← decode heap challenge
        return (ofBuffer conversation, ofBuffer (buf.set res 0))

end

/-- `cockpit_base64_ntop` into a buffer of `cockpit_base64_size`. -/
def encoded (content : Bytes) : Except Stop CStr :=
  match ntop content (size content.length) with
  | none => .error .assertion
  | some text => .ok (ofBuffer text)

/-- `cockpit_authorize_build_basic` -/
def buildBasic (user password : Option CStr) : Except Stop CStr := do
  let content ← asprintf (append (user.getD empty) (append colonStr (password.getD empty)))
  let text ← encoded content.bytes
  asprintf (append basicIntro text)

/-- `encoded ? " " : ""` and `encoded ? encoded : ""`: nothing is encoded if there is nothing. -/
def spaced (content : Bytes) : Except Stop CStr :=
  if content.length > 0 then (encoded content).map fun text => append spaceStr text
  else .ok empty

/-- `cockpit_authorize_build_negotiate` -/
def buildNegotiate (input : Option Bytes) : Except Stop CStr := do
  let text ← spaced (input.getD [])
  asprintf (append negotiateIntro text)

/-- The conversation of the caller, or one from a nonce, if there is one to be had. -/
def conversationFrom : Option Bytes → Option CStr → Except Stop CStr
  | _, some conversation => .ok conversation
  | some nonce, none => encoded nonce
  | none, none => .error .null

variable (nonce : Option Bytes)

/-- `cockpit_authorize_build_x_conversation`: the challenge and the conversation. -/
def buildXConversation (prompt conversation : Option CStr) :
    Except Stop (CStr × CStr) := do
  let conv ← conversationFrom nonce conversation
  if conv.length = 0 then .error .null
  else
    let text ← spaced (prompt.getD empty).bytes
    let response ← asprintf (append xConversationIntro (append conv text))
    return (response, conv)

/-! ### Strings and buffers -/

variable {rest word : Bytes}

/-- The part of a list before the first element that stops. -/
theorem takeWhile_until {p : UInt8 → Bool} {front : Bytes} (hfront : ∀ c ∈ front, p c)
    (hrest : ∀ c, rest.head? = some c → p c = false) : (front ++ rest).takeWhile p = front := by
  rw [takeWhile_append_of_pos hfront]
  cases rest with
  | nil => simp
  | cons c rest => rw [takeWhile_cons, hrest c rfl]; simp

theorem bytes_ofBuffer {s rest : Bytes} (hnul : (0 : UInt8) ∉ s)
    (hrest : ∀ c, rest.head? = some c → c = 0) : (ofBuffer (s ++ rest)).bytes = s := by
  apply takeWhile_until
  · intro c hc
    have hne : c ≠ 0 := by
      rintro rfl
      exact hnul hc
    simpa using hne
  · intro c hc
    simp [hrest c hc]

theorem strcspn_until {front rest reject : Bytes}
    (hfront : ∀ c ∈ front, c ≠ 0 ∧ c ∉ reject)
    (hrest : ∀ c, rest.head? = some c → c = 0 ∨ c ∈ reject) :
    strcspn (front ++ rest) reject = front.length := by
  unfold strcspn
  rw [takeWhile_until]
  · intro c hc
    obtain ⟨hnul, hreject⟩ := hfront c hc
    simp [hnul, hreject]
  intro c hc
  rcases hrest c hc with rfl | hreject
  · simp
  · simp [hreject]

theorem strcspn_all {s reject : Bytes} (h : ∀ c ∈ s, c ≠ 0 ∧ c ∉ reject) :
    strcspn s reject = s.length := by
  have huntil := @strcspn_until s [] reject h fun _ hc => by cases hc
  rwa [append_nil] at huntil

/-- No delimiter. -/
def Plain (word : Bytes) : Prop := ∀ c ∈ word, c ≠ 0 ∧ c ∉ [colon, space]

instance (word : Bytes) : Decidable (Plain word) :=
  inferInstanceAs (Decidable (∀ c ∈ word, c ≠ 0 ∧ c ∉ [colon, space]))

theorem plain_types : Plain [66, 97, 115, 105, 99] ∧ Plain negotiateIntro.bytes ∧
    Plain [88, 45, 67, 111, 110, 118, 101, 114, 115, 97, 116, 105, 111, 110] := by
  decide +kernel

/-- A word, up to the end. -/
theorem word_end (h : Plain word) :
    strcspn word [colon, space] = word.length ∧ behind word word.length = [] := by
  refine ⟨strcspn_all h, ?_⟩
  rw [behind, drop_eq_nil_of_le (by omega)]
  rfl

/-- A word, up to a space and what comes behind it. -/
theorem word_space (h : Plain word) (hrest : rest.head? ≠ some space) :
    strcspn (word ++ space :: rest) [colon, space] = word.length ∧
      behind (word ++ space :: rest) word.length = rest := by
  have hdrop : rest.dropWhile (· = space) = rest := by
    cases rest with
    | nil => rfl
    | cons c rest =>
      have hc : c ≠ space := fun hc => hrest (congrArg some hc)
      rw [dropWhile_cons_of_neg (by simpa using hc)]
  refine ⟨strcspn_until h (by rintro c hc; cases hc; simp), ?_⟩
  rw [behind]
  simp [hdrop]

theorem authorizeType_space (hne : word ≠ []) (h : Plain word) (hrest : rest.head? ≠ some space) :
    authorizeType (word ++ space :: rest) = some (word.map tolower, rest) := by
  have hlen : word.length ≠ 0 := fun hzero => hne (length_eq_zero_iff.mp hzero)
  obtain ⟨hspan, hbeh⟩ := word_space h hrest
  simp only [authorizeType]
  rw [hspan, if_neg hlen, take_left, hbeh]

/-! ### Base64 between them -/

section

variable (content : Bytes)

include content

theorem noNul_encode : (0 : UInt8) ∉ encode content :=
  (Base64.plain_of_encodes (encodes_encode content)).2

/-- The buffer is large enough, and what is in it is the text. -/
theorem encoded_eq : encoded content = .ok ⟨encode content, noNul_encode content⟩ := by
  have hbuf : ofBuffer (encode content) = ⟨encode content, noNul_encode content⟩ := by
    apply CStr.ext
    have h := @bytes_ofBuffer (encode content) [] (noNul_encode content) fun _ hc => by cases hc
    rwa [append_nil] at h
  rw [encoded, Base64.ntop_eq (Base64.length_encode_lt_size content)]
  exact congrArg Except.ok hbuf

theorem space_not_mem_encode : space ∉ encode content := by
  intro hmem
  rcases (encodes_encode content).letter_or_pad space hmem with hletter | hpad
  · exact hletter (by decide)
  · exact nomatch hpad

theorem head_encode : (encode content).head? ≠ some space := fun hhead =>
  space_not_mem_encode content (mem_of_head? hhead)

theorem strcspn_encode :
    strcspn (encode content) [space] = (encode content).length := by
  apply strcspn_all
  intro c hc
  refine ⟨?_, ?_⟩
  · rintro rfl
    exact noNul_encode content hc
  intro hspace
  rw [mem_singleton] at hspace
  subst hspace
  exact space_not_mem_encode content hc

theorem length_le_encode : content.length ≤ (encode content).length := by
  rw [Lib.Base64.length_encode]
  omega

end

variable (heap : Heap)

/-- **What was encoded is decoded**, with room for one more byte behind it. -/
theorem decode_encode {content : Bytes} (hmax : (encode content).length ≤ INT_MAX) :
    ∃ last after, decode heap (encode content) = .ok (content.length, content ++ last :: after) := by
  have henc := encodes_encode content
  have hstrip := (Base64.plain_of_encodes henc).1
  have hmalloc := heap.length_malloc ((encode content).length + 1)
  have hle := length_le_encode content
  have htake : ((heap.malloc ((encode content).length + 1)).take (encode content).length).length =
      (encode content).length := by
    rw [length_take, hmalloc]
    omega
  have hroom : LargeEnough (encode content)
      ((heap.malloc ((encode content).length + 1)).take (encode content).length) := by
    have hfour := henc.length
    unfold LargeEnough
    rw [hstrip, htake]
    omega
  obtain ⟨after, hpton⟩ := Base64.pton_of_encodes (noNul_encode content) hroom (by rwa [hstrip])
    (by omega)
  have hdrop : (heap.malloc ((encode content).length + 1)).drop (encode content).length ≠ [] := by
    intro hnil
    have hlen := congrArg List.length hnil
    rw [length_drop, hmalloc, length_nil] at hlen
    omega
  obtain ⟨last, rest, hlast⟩ := exists_cons_of_ne_nil hdrop
  have hok : decode heap (encode content) = .ok (content.length,
      content ++ after ++ (heap.malloc ((encode content).length + 1)).drop (encode content).length) := by
    simp only [decode]
    rw [strcspn_encode, take_length, hpton]
  rw [hok, hlast, append_assoc]
  cases after with
  | nil => exact ⟨last, rest, rfl⟩
  | cons first after => exact ⟨first, after ++ last :: rest, rfl⟩

/-! ### Round trips -/

theorem set_behind (content : Bytes) (last : UInt8) (after : Bytes) :
    (content ++ last :: after).set content.length 0 = content ++ 0 :: after := by simp

variable {α β : Type}

theorem bind_ok (x : α) (f : α → Except Stop β) : (Except.ok x >>= f) = f x := rfl

theorem bind_error (stop : Stop) (f : α → Except Stop β) :
    (Except.error stop >>= f) = .error stop := rfl

theorem length_append (s t : CStr) : (append s t).length = s.length + t.length := List.length_append

/-- Bytes as their text. -/
def encodedStr (content : Bytes) : CStr := ⟨encode content, noNul_encode content⟩

variable {s user : CStr}

theorem asprintf_of_le (h : s.length ≤ INT_MAX) : asprintf s = .ok s := if_pos h

theorem asprintf_of_lt (h : INT_MAX < s.length) : asprintf s = .error .null :=
  if_neg (Nat.not_le.mpr h)

def basicContent (user password : CStr) : CStr := append user (append colonStr password)

def basicResponse (user password : CStr) : CStr :=
  append basicIntro (encodedStr (basicContent user password).bytes)

/-- A Basic response is only too long to be printed. -/
theorem buildBasic_eq (user password : CStr) :
    buildBasic (some user) (some password) = asprintf (basicResponse user password) := by
  have hcont : append user (append colonStr password) = basicContent user password := rfl
  simp only [buildBasic, getD_some]
  rw [hcont]
  by_cases hle : (basicContent user password).length ≤ INT_MAX
  · rw [asprintf_of_le hle, bind_ok, encoded_eq, bind_ok]
    rfl
  -- the text is no shorter than what it stands for
  have hshort := length_le_encode (basicContent user password).bytes
  rw [asprintf_of_lt (by omega), asprintf_of_lt]
  · rfl
  have hbytes : (encodedStr (basicContent user password).bytes).length =
      (encode (basicContent user password).bytes).length := rfl
  have hlen : (basicContent user password).length = (basicContent user password).bytes.length := rfl
  rw [basicResponse, length_append, hbytes]
  omega

/-- **Basic.** -/
theorem parseBasic_build {password : CStr} (hcolon : colon ∉ user.bytes)
    (hmax : (basicResponse user password).length ≤ INT_MAX) :
    parseBasic heap (basicResponse user password) = .ok (some user, password) := by
  have hcont : (basicContent user password).bytes = user.bytes ++ colon :: password.bytes := rfl
  have hbytes : (basicResponse user password).bytes =
      [66, 97, 115, 105, 99] ++ space :: encode (basicContent user password).bytes := rfl
  have htext : (encode (basicContent user password).bytes).length ≤ INT_MAX := by
    rw [basicResponse, length_append] at hmax
    have : (encodedStr (basicContent user password).bytes).length =
      (encode (basicContent user password).bytes).length := rfl
    omega
  have hle := length_le_encode (basicContent user password).bytes
  obtain ⟨last, after, hdecode⟩ := decode_encode heap htext
  have htype : authorizeType (basicResponse user password).bytes =
      some (basicType, encode (basicContent user password).bytes) := by
    rw [hbytes, authorizeType_space (by decide) plain_types.1 (head_encode _)]
    rfl
  have hcolonBytes : (basicContent user password).bytes.length = user.length + (password.length + 1) := by
    rw [hcont, List.length_append, length_cons]
    rfl
  -- up to the first colon
  have hoff : strcspn ((basicContent user password).bytes ++ 0 :: after) [colon] = user.length := by
    rw [hcont, append_assoc]
    apply strcspn_until
    · intro c hc
      refine ⟨?_, ?_⟩
      · rintro rfl
        exact user.noNul hc
      intro hmem
      rw [mem_singleton] at hmem
      subst hmem
      exact hcolon hc
    · rintro c hc
      cases hc
      simp
  have huser : ofBuffer (((basicContent user password).bytes ++ 0 :: after).take user.length) = user := by
    apply CStr.ext
    have htake : ((basicContent user password).bytes ++ 0 :: after).take user.length =
        user.bytes ++ [] := by
      rw [hcont, append_assoc, append_nil]
      exact take_left
    rw [htake]
    exact bytes_ofBuffer user.noNul fun _ hc => by cases hc
  have hpassword : ofBuffer ((((basicContent user password).bytes ++ 0 :: after).drop
      (user.length + 1)).take ((basicContent user password).bytes.length - user.length)) = password := by
    apply CStr.ext
    have hdrop : ((basicContent user password).bytes ++ 0 :: after).drop (user.length + 1) =
        password.bytes ++ 0 :: after := by
      have hfront : (basicContent user password).bytes ++ 0 :: after =
          (user.bytes ++ [colon]) ++ (password.bytes ++ 0 :: after) := by
        rw [hcont]
        simp
      rw [hfront]
      exact drop_left' (by simp [CStr.length])
    have htake : (password.bytes ++ 0 :: after).take
        ((basicContent user password).bytes.length - user.length) = password.bytes ++ [0] := by
      rw [hcolonBytes]
      have hcut : password.bytes ++ 0 :: after = (password.bytes ++ [0]) ++ after := by simp
      rw [hcut]
      apply take_left'
      simp only [List.length_append, length_singleton, CStr.length]
      omega
    rw [hdrop, htake]
    exact bytes_ofBuffer password.noNul fun c hc => by cases hc; rfl
  have hpositive : (encode (basicContent user password).bytes).length ≠ 0 := by omega
  unfold parseBasic
  rw [htype]
  dsimp only
  rw [if_neg (by simp), strcspn_encode, if_neg hpositive, hdecode, bind_ok]
  dsimp only
  rw [if_neg (not_not.mpr hle), set_behind, hoff, if_neg (by omega), huser, hpassword]

/-- A space and a text, or nothing. -/
def spacedStr (content : Bytes) : CStr :=
  if content.length > 0 then append spaceStr (encodedStr content) else empty

theorem spaced_eq (content : Bytes) : spaced content = .ok (spacedStr content) := by
  unfold spaced spacedStr
  split
  · rw [encoded_eq]
    rfl
  · rfl

/-- What stands behind a word does not make it longer. -/
theorem word_spaced {word : Bytes} (h : Plain word) (content : Bytes) :
    strcspn (word ++ (spacedStr content).bytes) [colon, space] = word.length ∧
      behind (word ++ (spacedStr content).bytes) word.length = encode content := by
  unfold spacedStr
  by_cases hcont : content.length > 0
  · rw [if_pos hcont]
    exact word_space h (head_encode content)
  have hnil : content = [] := length_eq_zero_iff.mp (by omega)
  have hword : word ++ empty.bytes = word := append_nil word
  rw [if_neg hcont, hword, hnil]
  exact word_end h

theorem length_encode_le_spaced (content : Bytes) :
    (encode content).length ≤ (spacedStr content).length := by
  unfold spacedStr
  by_cases hcont : content.length > 0
  · have hlen : (encodedStr content).length = (encode content).length := rfl
    rw [if_pos hcont, length_append]
    omega
  · have hnil : content = [] := length_eq_zero_iff.mp (by omega)
    rw [if_neg hcont, hnil]
    exact Nat.zero_le _

def negotiateResponse (d : Bytes) : CStr := append negotiateIntro (spacedStr d)

theorem buildNegotiate_eq (d : Bytes) : buildNegotiate (some d) = asprintf (negotiateResponse d) := by
  rw [buildNegotiate, getD_some, spaced_eq, bind_ok]
  rfl

/-- **Negotiate.** -/
theorem parseNegotiate_build {d : Bytes}
    (hmax : (negotiateResponse d).length ≤ INT_MAX) :
    parseNegotiate heap (negotiateResponse d) = .ok d := by
  have htext := length_encode_le_spaced d
  rw [negotiateResponse, length_append] at hmax
  obtain ⟨last, after, hdecode⟩ := decode_encode heap (by omega : (encode d).length ≤ INT_MAX)
  have htype : authorizeType (negotiateResponse d).bytes = some (negotiateType, encode d) := by
    obtain ⟨hspan, hbeh⟩ := word_spaced plain_types.2.1 d
    have hbytes : (negotiateResponse d).bytes = negotiateIntro.bytes ++ (spacedStr d).bytes := rfl
    simp only [authorizeType]
    rw [hbytes, hspan, hbeh, if_neg (by decide), take_left]
    rfl
  unfold parseNegotiate
  rw [htype]
  dsimp only
  rw [if_neg (by simp), hdecode, bind_ok]
  exact congrArg Except.ok take_left

variable (prompt : CStr)

def xConversationResponse (conversation : CStr) : CStr :=
  append xConversationIntro (append conversation (spacedStr prompt.bytes))

variable {conversation : CStr}

section

variable (hne : conversation.length ≠ 0)

include hne

theorem buildXConversation_eq
    :
    buildXConversation nonce (some prompt) (some conversation) =
      asprintf (xConversationResponse prompt conversation) >>= fun response =>
        .ok (response, conversation) := by
  rw [buildXConversation, conversationFrom, bind_ok, if_neg hne, getD_some, spaced_eq, bind_ok]
  rfl

section

variable (hplain : Plain conversation.bytes)

include hplain

/-- The type of what was built. -/
theorem authorizeType_xConversation
    :
    authorizeType (xConversationResponse prompt conversation).bytes =
      some (xConversationType, conversation.bytes ++ (spacedStr prompt.bytes).bytes) := by
  have hword : conversation.bytes ≠ [] := fun hnil => hne (congrArg List.length hnil)
  obtain ⟨first, tail, hfirst⟩ := exists_cons_of_ne_nil hword
  have hspace : first ≠ space := by
    rintro rfl
    exact (hplain space (by rw [hfirst]; exact mem_cons_self)).2 (by simp)
  have hbytes : (xConversationResponse prompt conversation).bytes =
      [88, 45, 67, 111, 110, 118, 101, 114, 115, 97, 116, 105, 111, 110] ++
        space :: (conversation.bytes ++ (spacedStr prompt.bytes).bytes) := rfl
  rw [hbytes, authorizeType_space (by decide) plain_types.2.2]
  · rfl
  · rw [hfirst]
    exact fun h => hspace (some.inj h)

/-- The subject of what was built. -/
theorem authorizeSubject_xConversation
    :
    authorizeSubject (xConversationResponse prompt conversation).bytes =
      some (conversation.bytes, encode prompt.bytes) := by
  have hlen : conversation.bytes.length ≠ 0 := hne
  obtain ⟨hspan, hbeh⟩ := word_spaced hplain prompt.bytes
  unfold authorizeSubject
  rw [authorizeType_xConversation prompt hne hplain, bind_some]
  dsimp only
  rw [hspan, if_neg hlen, take_left, hbeh]

/-- **X-Conversation.** -/
theorem parseXConversation_build {prompt : CStr}

    (hmax : (xConversationResponse prompt conversation).length ≤ INT_MAX) :
    parseXConversation heap (xConversationResponse prompt conversation) =
      .ok (conversation, prompt) := by
  have htext := length_encode_le_spaced prompt.bytes
  rw [xConversationResponse, length_append, length_append] at hmax
  obtain ⟨last, after, hdecode⟩ := decode_encode heap (by omega : (encode prompt.bytes).length ≤ INT_MAX)
  have hconv : ofBuffer conversation.bytes = conversation := by
    apply CStr.ext
    have h := @bytes_ofBuffer conversation.bytes [] conversation.noNul fun _ hc => by cases hc
    rwa [append_nil] at h
  have hprompt : ofBuffer (prompt.bytes ++ 0 :: after) = prompt :=
    ext (bytes_ofBuffer prompt.noNul fun c hc => by cases hc; rfl)
  unfold parseXConversation
  rw [authorizeType_xConversation prompt hne hplain]
  dsimp only
  rw [if_neg (by simp), authorizeSubject_xConversation prompt hne hplain]
  dsimp only
  rw [hdecode, bind_ok]
  dsimp only
  rw [set_behind, hconv, hprompt]
  rfl

end

end

/-! ### Assertions -/

theorem asprintf_ne_assertion (s : CStr) : asprintf s ≠ .error .assertion := by
  unfold asprintf
  split <;> exact nofun

theorem bind_ne_assertion {x : Except Stop α} {f : α → Except Stop β}
    (hx : x ≠ .error .assertion) (hf : ∀ a, x = .ok a → f a ≠ .error .assertion) :
    (x >>= f) ≠ .error .assertion := by
  cases x with
  | ok a => exact hf a rfl
  | error stop =>
    intro h
    cases h
    exact hx rfl

theorem encoded_ne_assertion (content : Bytes) : encoded content ≠ .error .assertion := by
  rw [encoded_eq]
  exact nofun

/-- **The encoder's assertions hold** for every length. -/
theorem buildBasic_ne_assertion (user password : Option CStr) :
    buildBasic user password ≠ .error .assertion :=
  bind_ne_assertion (asprintf_ne_assertion _) fun _ _ =>
    bind_ne_assertion (encoded_ne_assertion _) fun _ _ => asprintf_ne_assertion _

theorem spaced_ne_assertion (content : Bytes) : spaced content ≠ .error .assertion := by
  rw [spaced_eq]
  exact nofun

theorem buildNegotiate_ne_assertion (input : Option Bytes) :
    buildNegotiate input ≠ .error .assertion :=
  bind_ne_assertion (spaced_ne_assertion _) fun _ _ => asprintf_ne_assertion _

theorem buildXConversation_ne_assertion (prompt conversation : Option CStr) :
    buildXConversation nonce prompt conversation ≠ .error .assertion := by
  apply bind_ne_assertion
  · unfold conversationFrom
    split
    · exact nofun
    · exact encoded_ne_assertion _
    · exact nofun
  intro conv _
  split
  · exact nofun
  · exact bind_ne_assertion (spaced_ne_assertion _) fun _ _ =>
      bind_ne_assertion (asprintf_ne_assertion _) fun _ _ => nofun

/-- What was decoded is no longer than the text. -/
theorem decode_le {heap : Heap} {challenge buf : Bytes} {res : Nat}
    (h : decode heap challenge = .ok (res, buf)) : res ≤ strcspn challenge [space] := by
  have hmalloc := heap.length_malloc (strcspn challenge [space] + 1)
  have hbuf : ((heap.malloc (strcspn challenge [space] + 1)).take (strcspn challenge [space])).length =
      strcspn challenge [space] := by
    rw [length_take, hmalloc]
    omega
  simp only [decode] at h
  split at h
  · rename_i hpton
    cases h
    have hle := pton_le hpton
    omega
  · rename_i hpton
    cases h
    have hle := pton_le hpton
    omega
  · cases h
  · cases h

theorem decode_ne_assertion (challenge : Bytes) :
    decode heap challenge ≠ .error .assertion := by
  simp only [decode]
  split <;> exact nofun

/-- **The decoded length fits**, for every challenge. -/
theorem parseBasic_ne_assertion (challenge : CStr) :
    parseBasic heap challenge ≠ .error .assertion := by
  unfold parseBasic
  split
  · exact nofun
  split
  · exact nofun
  dsimp only
  split
  · exact nofun
  apply bind_ne_assertion (decode_ne_assertion heap _)
  rintro ⟨res, buf⟩ hdecode
  have hle := decode_le hdecode
  dsimp only
  rw [if_neg (not_not.mpr hle)]
  split <;> exact nofun

theorem parseNegotiate_ne_assertion (challenge : CStr) :
    parseNegotiate heap challenge ≠ .error .assertion := by
  unfold parseNegotiate
  split
  · exact nofun
  · split
    · exact nofun
    · exact bind_ne_assertion (decode_ne_assertion heap _) fun _ _ => nofun

theorem parseXConversation_ne_assertion (challenge : CStr) :
    parseXConversation heap challenge ≠ .error .assertion := by
  unfold parseXConversation
  split
  · exact nofun
  split
  · exact nofun
  · split
    · exact nofun
    · exact bind_ne_assertion (decode_ne_assertion heap _) fun _ _ => nofun

/-! ### All of them -/

/-- What is to be built is too long to be printed, or it is what is returned, and it is parsed to
    what it was built from. -/
def Returns {α β : Type} (built : Except Stop α) (text : α → CStr) (response : CStr)
    (parse : α → Except Stop β) (value : β) : Prop :=
  if response.length ≤ INT_MAX then ∃ a, built = .ok a ∧ text a = response ∧ parse a = .ok value
  else built = .error .null

/-- **The encodings are undone**, and no assertion fails. -/
theorem authorize_roundTrip (heap : Heap) :
    (∀ user password, colon ∉ user.bytes →
      Returns (buildBasic (some user) (some password)) id (basicResponse user password)
        (parseBasic heap) (some user, password)) ∧
    (∀ d, Returns (buildNegotiate (some d)) id (negotiateResponse d) (parseNegotiate heap) d) ∧
    (∀ nonce prompt conversation, conversation.length ≠ 0 → Plain conversation.bytes →
      Returns (buildXConversation nonce (some prompt) (some conversation)) Prod.fst
        (xConversationResponse prompt conversation)
        (fun built => parseXConversation heap built.1) (conversation, prompt)) ∧
    (∀ user password, buildBasic user password ≠ .error .assertion) ∧
    (∀ input, buildNegotiate input ≠ .error .assertion) ∧
    (∀ nonce prompt conversation,
      buildXConversation nonce prompt conversation ≠ .error .assertion) ∧
    ∀ challenge, parseBasic heap challenge ≠ .error .assertion ∧
      parseNegotiate heap challenge ≠ .error .assertion ∧
      parseXConversation heap challenge ≠ .error .assertion := by
  refine ⟨?_, ?_, ?_, buildBasic_ne_assertion, buildNegotiate_ne_assertion,
    buildXConversation_ne_assertion, fun challenge => ⟨parseBasic_ne_assertion heap challenge,
      parseNegotiate_ne_assertion heap challenge, parseXConversation_ne_assertion heap challenge⟩⟩
  · intro user password hcolon
    rw [Returns, buildBasic_eq]
    split
    · rename_i hmax
      exact ⟨_, asprintf_of_le hmax, rfl, parseBasic_build heap hcolon hmax⟩
    · rename_i hmax
      exact asprintf_of_lt (by omega)
  · intro d
    rw [Returns, buildNegotiate_eq]
    split
    · rename_i hmax
      exact ⟨_, asprintf_of_le hmax, rfl, parseNegotiate_build heap hmax⟩
    · rename_i hmax
      exact asprintf_of_lt (by omega)
  intro nonce prompt conversation hne hplain
  rw [Returns, buildXConversation_eq nonce prompt hne]
  split
  · rename_i hmax
    refine ⟨(xConversationResponse prompt conversation, conversation), ?_, rfl, ?_⟩
    · rw [asprintf_of_le hmax, bind_ok]
    · exact parseXConversation_build heap hne hplain hmax
  · rename_i hmax
    rw [asprintf_of_lt (by omega), bind_error]

/-- Memory that is all zero. -/
def zeroHeap : Heap := ⟨fun n => List.replicate n 0, fun _ => length_replicate⟩

/-- `a` and `b`. -/
theorem returns_short : Returns (buildBasic (some ⟨[97], by decide⟩) (some ⟨[98], by decide⟩))
    id (basicResponse ⟨[97], by decide⟩ ⟨[98], by decide⟩) (parseBasic zeroHeap)
    (some ⟨[97], by decide⟩, ⟨[98], by decide⟩) :=
  (authorize_roundTrip zeroHeap).1 _ _ (by decide)

/-- A name of `n` letters. -/
def longName (n : Nat) : CStr :=
  ⟨List.replicate n 97, fun h => absurd (eq_of_mem_replicate h) (by decide)⟩

theorem length_longName (n : Nat) : (longName n).length = n := length_replicate

theorem buildBasic_long (h : INT_MAX < user.length) (password : CStr) :
    buildBasic (some user) (some password) = .error .null := by
  have hcont : INT_MAX < (append user (append colonStr password)).length := by
    rw [length_append]
    omega
  simp only [buildBasic, getD_some]
  rw [asprintf_of_lt hcont]
  rfl

/-- `asprintf` does not print a longer name. -/
theorem not_built_long :
    ¬ ∃ response, buildBasic (some (longName (INT_MAX + 1))) (some empty) = .ok response ∧
      parseBasic zeroHeap response = .ok (some (longName (INT_MAX + 1)), empty) := by
  have hlong : INT_MAX < (longName (INT_MAX + 1)).length := by
    rw [length_longName]
    exact Nat.lt_succ_self _
  rintro ⟨response, hbuild, -⟩
  rw [buildBasic_long hlong] at hbuild
  cases hbuild

end Cockpit.Authorize
