import Cockpit.Bridge.HttpStream
import Cockpit.Common.WebResponseHeaders
import Cockpit.Lib.HttpRequest

namespace Cockpit

open Lib List WebResponse Json

/-!
# HTTP requests that are written

`cockpit_web_response_is_simple_token` takes every text without blanks and ends of lines for a
token, also the empty one and one with a colon, and `disallowed_header` refuses the one value of
`Connection` that it is there to allow.

* `HttpStream.Accepted.reads` — what is written is read as one request;
* `HttpStream.one_request_iff` — when nothing else can be read.
-/

namespace HttpStream

variable {s : HttpStream}

/-! ### What is accepted -/

/-- A header that the loop of `send_http_request` accepts. -/
def HeaderAccepted (binary : Bool) (header : String × Json) : Prop :=
  isSimpleToken (cstr header.1) ∧
    ∃ value, header.2 = .string value ∧ disallowedHeader header.1 value binary = false ∧
      WebResponse.isHeaderValue (cstr value)

/-- The headers that are strings. -/
def stringFields (headers : List (String × Json)) : List Field :=
  headers.filterMap fun header =>
    match header.2 with
    | .string value => some ⟨(cstr header.1).bytes, (cstr value).bytes⟩
    | _ => none

variable {binary : Bool}

theorem headersText_refused {header : String × Json}
    (h : ¬ HeaderAccepted binary header) (headers : List (String × Json)) :
    ∃ message, headersText binary (header :: headers) = .error message := by
  obtain ⟨name, node⟩ := header
  unfold headersText
  split
  · exact ⟨_, rfl⟩
  rename_i htoken
  split
  · split
    · exact ⟨_, rfl⟩
    rename_i hallowed
    split
    · exact ⟨_, rfl⟩
    · rename_i hvalue
      exact absurd ⟨by simpa using htoken, _, rfl, by simpa using hallowed,
        by simpa using hvalue⟩ h
  · exact ⟨_, rfl⟩

variable {headers : List (String × Json)}

theorem headersText_eq_ok_iff {text : Bytes} :
    headersText binary headers = .ok text ↔ (∀ header ∈ headers, HeaderAccepted binary header) ∧
        text = (stringFields headers).flatMap fieldLine := by
  induction headers generalizing text with
  | nil => simp [headersText, stringFields, eq_comm]
  | cons header headers ih =>
    rw [forall_mem_cons]
    by_cases hacc : HeaderAccepted binary header
    · obtain ⟨htoken, value, hvalue, hallowed, hline⟩ := hacc
      obtain ⟨name, node⟩ := header
      obtain rfl : node = .string value := hvalue
      -- the header is written, and the others behind it
      have hstep : headersText binary ((name, .string value) :: headers) =
          (headersText binary headers).map
            ((cstr name).bytes ++ ascii ": " ++ (cstr value).bytes ++ crlf ++ ·) := by
        conv_lhs => unfold headersText
        dsimp only at htoken hallowed ⊢
        rw [htoken, hallowed, hline]
        rfl
      have hfields : (stringFields ((name, .string value) :: headers)).flatMap fieldLine =
          (cstr name).bytes ++ ascii ": " ++ (cstr value).bytes ++ crlf ++
            (stringFields headers).flatMap fieldLine := by
        simp [stringFields, fieldLine]
      rw [hstep, hfields]
      cases hrest : headersText binary headers with
      | error message =>
        refine iff_of_false nofun fun h => ?_
        rw [ih.mpr ⟨h.1.2, rfl⟩] at hrest
        cases hrest
      | ok rest =>
        obtain ⟨hall, rfl⟩ := ih.mp hrest
        rw [Except.map, Except.ok.injEq, eq_comm]
        exact ⟨fun h => ⟨⟨⟨htoken, value, rfl, hallowed, hline⟩, hall⟩, h⟩, fun h => h.2⟩
    · obtain ⟨message, hstep⟩ := headersText_refused hacc headers
      rw [hstep]
      exact iff_of_false nofun fun h => hacc h.1.1

variable {text : CStr}

theorem requestField_eq_ok_iff {options : JsonObject} {field : String} :
    requestField options field = .ok text ↔
      ∃ value, getString options field none = some (some value) ∧
        isSimpleToken (cstr value) ∧ text = cstr value := by
  unfold requestField
  cases hget : getString options field none with
  | none => simp
  | some found =>
    cases found with
    | none => simp
    | some value =>
      by_cases htoken : isSimpleToken (cstr value)
      · dsimp only
        rw [if_pos htoken, Except.ok.injEq]
        constructor
        · rintro rfl
          exact ⟨value, rfl, htoken, rfl⟩
        · rintro ⟨value', hvalue, -, rfl⟩
          cases hvalue
          rfl
      dsimp only
      rw [if_neg htoken]
      refine iff_of_false nofun ?_
      rintro ⟨value', hvalue, htoken', -⟩
      cases hvalue
      exact htoken htoken'

/-- What `send_http_request` accepts. -/
structure Accepted (s : HttpStream) : Prop where
  path : ∃ path, getString s.channel.openOptions "path" none = some (some path) ∧
    isSimpleToken (cstr path)
  method : ∃ method, getString s.channel.openOptions "method" none = some (some method) ∧
    isSimpleToken (cstr method)
  headers : ∃ headers, requestHeaders s.channel.openOptions = .ok headers ∧
    ∀ header ∈ headers, HeaderAccepted s.binary header

/-- A text that is given in the options. -/
def givenText (s : HttpStream) (field : String) : Bytes :=
  ((getString s.channel.openOptions field none).join.map fun value =>
    (cstr value).bytes).getD []

/-- The headers that are given in the options. -/
def givenFields (s : HttpStream) : List Field :=
  match requestHeaders s.channel.openOptions with
  | .error _ => []
  | .ok headers => stringFields headers

/-- The messages of the body. -/
def messages (s : HttpStream) : Bytes := s.request.reverse.flatten

/-- Whether a length is announced: there is a message, or the method is `POST`. -/
def announces (s : HttpStream) : Bool :=
  !s.request.isEmpty || sameName (s.givenText "method") (ascii "POST")

/-- The headers that are added. -/
def addedFields (s : HttpStream) : List Field :=
  let had (name : String) := s.givenFields.any fun f => sameName (ascii name) f.name
  (if had "Host" then [] else
    [⟨ascii "Host", uriEscaped (utf8 ((s.connectable.map Connectable.name).getD ""))⟩]) ++
  (if had "Accept-Encoding" then [] else [⟨ascii "Accept-Encoding", ascii "identity"⟩]) ++
  (if s.binary then [] else [⟨ascii "Accept-Charset", ascii "UTF-8"⟩]) ++
  (if s.announces then [⟨ascii "Content-Length", decimal s.messages.length⟩] else [])

/-- The request line. -/
def requestLine (s : HttpStream) : Bytes :=
  s.givenText "method" ++ 32 :: (s.givenText "path" ++ 32 :: ascii "HTTP/1.1")

/-- The request up to its body. -/
def requestHead (s : HttpStream) : Bytes :=
  s.requestLine ++ (crlf ++ ((s.givenFields ++ s.addedFields).flatMap fieldLine ++ crlf))

theorem addedFields_had (h : requestHeaders s.channel.openOptions = .ok headers)
    (hall : ∀ header ∈ headers, HeaderAccepted s.binary header) (name : String) :
    (headers.any fun header => sameName (ascii name) (cstr header.1).bytes) =
      s.givenFields.any fun f => sameName (ascii name) f.name := by
  rw [givenFields, h]
  clear h
  dsimp only
  induction headers with
  | nil => rfl
  | cons header headers ih =>
    rw [forall_mem_cons] at hall
    obtain ⟨-, value, hvalue, -⟩ := hall.1
    obtain ⟨n, node⟩ := header
    obtain rfl : node = .string value := hvalue
    rw [any_cons, ih hall.2]
    simp [stringFields]

theorem requestText_ok {path method : CStr} {lines : Bytes}
    (hpath : requestField s.channel.openOptions "path" = .ok path)
    (hmeth : requestField s.channel.openOptions "method" = .ok method)
    (hheads : requestHeaders s.channel.openOptions = .ok headers)
    (hlines : headersText s.binary headers = .ok lines) :
    s.requestText = .ok s.requestHead := by
  obtain ⟨hall, rfl⟩ := headersText_eq_ok_iff.mp hlines
  obtain ⟨p, hp, -, rfl⟩ := requestField_eq_ok_iff.mp hpath
  obtain ⟨m, hm, -, rfl⟩ := requestField_eq_ok_iff.mp hmeth
  have hfields : s.givenFields = stringFields headers := by rw [givenFields, hheads]
  have hgivenPath : s.givenText "path" = (cstr p).bytes := by simp [givenText, hp]
  have hgivenMethod : s.givenText "method" = (cstr m).bytes := by simp [givenText, hm]
  have htotal : (s.request.map List.length).sum = s.messages.length := by
    rw [messages, length_flatten, map_reverse, sum_reverse]
  unfold requestText
  simp only [hpath, hmeth, hheads, hlines, bind, Except.bind, pure, Except.pure,
    addedFields_had hheads hall]
  rw [requestHead, requestLine, addedFields, announces, hgivenPath, hgivenMethod, htotal]
  have hline : ascii " HTTP/1.1\r\n" = 32 :: ascii "HTTP/1.1" ++ crlf := by decide
  have hhost : ∀ v, fieldLine ⟨ascii "Host", v⟩ = ascii "Host: " ++ v ++ crlf := by
    intro v
    rw [show ascii "Host: " = ascii "Host" ++ ascii ": " by decide]
    simp [fieldLine]
  have hencoding : fieldLine ⟨ascii "Accept-Encoding", ascii "identity"⟩ =
      ascii "Accept-Encoding: identity\r\n" := by decide
  have hcharset : fieldLine ⟨ascii "Accept-Charset", ascii "UTF-8"⟩ =
      ascii "Accept-Charset: UTF-8\r\n" := by decide
  have hlen : ∀ v, fieldLine ⟨ascii "Content-Length", v⟩ =
      ascii "Content-Length: " ++ v ++ crlf := by
    intro v
    rw [show ascii "Content-Length: " = ascii "Content-Length" ++ ascii ": " by decide]
    simp [fieldLine]
  simp only [flatMap_append, apply_ite (List.flatMap fieldLine), flatMap_nil,
    flatMap_singleton, hhost, hencoding, hcharset, hlen, hfields, hline]
  simp [show ascii " " = [32] by decide]

theorem requestText_refused (h : ¬ Accepted s) : ∃ message, s.requestText = .error message := by
  unfold requestText
  simp only [bind, Except.bind]
  cases hpath : requestField s.channel.openOptions "path" with
  | error message => exact ⟨message, rfl⟩
  | ok path =>
    cases hmeth : requestField s.channel.openOptions "method" with
    | error message => exact ⟨message, rfl⟩
    | ok method =>
      cases hheads : requestHeaders s.channel.openOptions with
      | error message => exact ⟨message, rfl⟩
      | ok headers =>
        cases hlines : headersText s.binary headers with
        | error message => exact ⟨message, by simp only [hlines]⟩
        | ok lines =>
          -- all of it is accepted
          obtain ⟨p, hp, hptoken, -⟩ := requestField_eq_ok_iff.mp hpath
          obtain ⟨m, hm, hmtoken, -⟩ := requestField_eq_ok_iff.mp hmeth
          exact absurd ⟨⟨p, hp, hptoken⟩, ⟨m, hm, hmtoken⟩,
            ⟨headers, hheads, (headersText_eq_ok_iff.mp hlines).1⟩⟩ h

/-- What is written for a request that is accepted. -/
theorem Accepted.requestText (h : Accepted s) : s.requestText = .ok s.requestHead := by
  obtain ⟨⟨p, hp, hptoken⟩, ⟨m, hm, hmtoken⟩, ⟨headers, hheads, hall⟩⟩ := h
  exact requestText_ok (requestField_eq_ok_iff.mpr ⟨p, hp, hptoken, rfl⟩)
    (requestField_eq_ok_iff.mpr ⟨m, hm, hmtoken, rfl⟩) hheads
    (headersText_eq_ok_iff.mpr ⟨hall, rfl⟩)

/-! ### What is read -/

theorem notMem_of_isSimpleToken (h : isSimpleToken text) :
    OneLine text.bytes ∧ 32 ∉ text.bytes := by
  rw [isSimpleToken, all_eq_true] at h
  refine ⟨⟨?_, ?_⟩, ?_⟩ <;> exact fun hmem => nomatch (h _ hmem)

theorem Accepted.givenText (h : Accepted s) {field : String} (hfield : field = "path" ∨ field = "method") :
    OneLine (s.givenText field) ∧ 32 ∉ s.givenText field := by
  have hget : ∃ value, getString s.channel.openOptions field none = some (some value) ∧
      isSimpleToken (cstr value) := by
    rcases hfield with rfl | rfl
    · exact h.path
    · exact h.method
  obtain ⟨value, hvalue, htoken⟩ := hget
  have hgiven : s.givenText field = (cstr value).bytes := by simp [HttpStream.givenText, hvalue]
  rw [hgiven]
  exact notMem_of_isSimpleToken htoken

variable {f : Field}

/-- A header that is accepted, and given. -/
theorem Accepted.given (h : Accepted s) (hf : f ∈ s.givenFields) :
    ∃ name value, f = ⟨(cstr name).bytes, (cstr value).bytes⟩ ∧
      disallowedHeader name value s.binary = false ∧ OneLine f.value := by
  obtain ⟨headers, hheads, hall⟩ := h.headers
  rw [givenFields, hheads] at hf
  obtain ⟨⟨name, node⟩, hmem, hsome⟩ := mem_filterMap.mp hf
  obtain ⟨-, value, hnode, hallowed, hvalue⟩ := hall _ hmem
  obtain rfl : node = .string value := hnode
  cases hsome
  refine ⟨name, value, rfl, hallowed, ?_⟩
  exact oneLine_of_isHeaderValue hvalue

theorem oneLine_uriEscaped (bytes : Bytes) : OneLine (uriEscaped bytes) := by
  have hplain : ∀ b ∈ uriEscaped bytes, b ≠ 13 ∧ b ≠ 10 := by
    intro b hb
    obtain ⟨c, -, hc⟩ := mem_flatMap.mp hb
    split at hc
    · rename_i hplain
      rw [mem_singleton] at hc
      subst hc
      constructor
      all_goals
        rintro rfl
        exact nomatch hplain
    have hdigit : ∀ d : Fin 16, upperHexDigit d ≠ 13 ∧ upperHexDigit d ≠ 10 := by decide
    have hc' := c.toNat_lt
    simp only [mem_cons, not_mem_nil, or_false] at hc
    rcases hc with rfl | rfl | rfl
    · exact ⟨by decide, by decide⟩
    · exact hdigit ⟨c.toNat / 16, by omega⟩
    · exact hdigit ⟨c.toNat % 16, by omega⟩
  exact ⟨fun h => (hplain _ h).1 rfl, fun h => (hplain _ h).2 rfl⟩

theorem addedFields_ok : ∀ f ∈ s.addedFields, f.Ok := by
  intro f hf
  simp only [addedFields, mem_append, mem_ite_nil_left, mem_singleton, mem_ite_nil_right] at hf
  rcases hf with ((⟨-, rfl⟩ | ⟨-, rfl⟩) | ⟨-, rfl⟩) | ⟨-, rfl⟩
  · exact ⟨(by decide : isToken (ascii "Host")), oneLine_uriEscaped _⟩
  · decide
  · decide
  · exact ⟨(by decide : isToken (ascii "Content-Length")), oneLine_decimal _⟩

/-! ### What is not written -/

/-- `bad_headers` -/
def badHeaders : List String :=
  ["Content-Length", "Content-MD5", "TE", "Trailer", "Transfer-Encoding", "Upgrade"]

/-- `bad_text` -/
def badText : List String :=
  ["Accept-Encoding", "Content-Encoding", "Accept-Charset", "Accept-Ranges", "Content-Range",
    "Range"]

/-- The headers that are not to be in a request, of which "Connection: close" is none. -/
def Forbidden (binary : Bool) (f : Field) : Prop :=
  (∃ bad ∈ badHeaders, sameName (ascii bad) f.name) ∨
    (binary = false ∧ ∃ bad ∈ badText, sameName (ascii bad) f.name) ∨
    (sameName (ascii "Connection") f.name ∧ f.value ≠ ascii "close")

theorem disallowedHeader_eq_false {name value : String}
    (h : disallowedHeader name value binary = false) :
    (∀ bad ∈ badHeaders, sameName (ascii bad) (cstr name).bytes = false) ∧
      (binary = false → ∀ bad ∈ badText, sameName (ascii bad) (cstr name).bytes = false) := by
  rw [disallowedHeader, Bool.or_eq_false_iff, Bool.or_eq_false_iff] at h
  refine ⟨fun bad hbad => ?_, fun hbin bad hbad => ?_⟩
  · exact Bool.eq_false_iff.mpr (any_eq_false.mp h.1.1 bad hbad)
  · have htext := h.1.2
    rw [hbin, Bool.not_false, Bool.true_and] at htext
    exact Bool.eq_false_iff.mpr (any_eq_false.mp htext bad hbad)

/-- A header that is given and accepted is forbidden when it is a `Connection` for something else. -/
theorem Accepted.forbidden_iff (h : Accepted s) (hf : f ∈ s.givenFields) :
    Forbidden s.binary f.trimmed ↔
      sameName (ascii "Connection") f.name ∧ trim f.value ≠ ascii "close" := by
  obtain ⟨name, value, rfl, hallowed, -⟩ := h.given hf
  obtain ⟨hbad, htext⟩ := disallowedHeader_eq_false hallowed
  constructor
  · rintro (⟨bad, hmem, hsame⟩ | ⟨hbin, bad, hmem, hsame⟩ | hconn)
    · exact absurd ((hbad bad hmem).symm.trans hsame) Bool.false_ne_true
    · exact absurd ((htext hbin bad hmem).symm.trans hsame) Bool.false_ne_true
    · exact hconn
  · exact fun hconn => .inr (.inr hconn)

/-- **No header is added that is given.** -/
theorem Accepted.once (h : Accepted s) :
    ∀ g ∈ s.addedFields, ∀ f ∈ s.givenFields, sameName g.name f.name = false := by
  intro g hg f hf
  have hhad : ∀ name : String, ¬ (s.givenFields.any fun f => sameName (ascii name) f.name) →
        sameName (ascii name) f.name = false := by
    intro name hnone
    rw [Bool.not_eq_true] at hnone
    exact Bool.eq_false_iff.mpr (any_eq_false.mp hnone f hf)
  obtain ⟨name, value, rfl, hallowed, -⟩ := h.given hf
  obtain ⟨hbad, htext⟩ := disallowedHeader_eq_false hallowed
  simp only [addedFields, mem_append, mem_ite_nil_left, mem_singleton, mem_ite_nil_right] at hg
  rcases hg with ((⟨hnone, rfl⟩ | ⟨hnone, rfl⟩) | ⟨hbin, rfl⟩) | ⟨-, rfl⟩
  · exact hhad "Host" hnone
  · exact hhad "Accept-Encoding" hnone
  · exact htext (Bool.eq_false_iff.mpr hbin) "Accept-Charset" (by simp [badText])
  · exact hbad "Content-Length" (by simp [badHeaders])

/-! ### One request -/

/-- The headers that are read. -/
def readHeaders (s : HttpStream) : List Field := (s.givenFields ++ s.addedFields).map Field.trimmed

theorem Accepted.valuesOf_given (h : Accepted s) {bad : String} (hbad : bad ∈ badHeaders) :
    valuesOf (ascii bad) (s.givenFields.map Field.trimmed) = [] := by
  refine valuesOf_eq_nil fun f hf => ?_
  obtain ⟨g, hg, rfl⟩ := mem_map.mp hf
  obtain ⟨name, value, rfl, hallowed, -⟩ := h.given hg
  exact (disallowedHeader_eq_false hallowed).1 bad hbad

theorem valuesOf_append (name : Bytes) (fs gs : List Field) :
    valuesOf name (fs ++ gs) = valuesOf name fs ++ valuesOf name gs := by
  simp [valuesOf]

theorem valuesOf_added {name : Bytes} (hhost : sameName name (ascii "Host") = false)
    (hencoding : sameName name (ascii "Accept-Encoding") = false)
    (hcharset : sameName name (ascii "Accept-Charset") = false) :
    valuesOf name (s.addedFields.map Field.trimmed) =
      if s.announces = true ∧ sameName name (ascii "Content-Length") then
        [decimal s.messages.length]
      else [] := by
  have hnone : ∀ (c : Prop) [Decidable c] (f : Field), sameName name f.name = false →
      valuesOf name ((if c then [] else [f]).map Field.trimmed) = [] := by
    intro c _ f hf
    split
    · rfl
    exact valuesOf_eq_nil fun g hg => by
      rw [map_singleton, mem_singleton] at hg
      rw [hg]
      exact hf
  rw [addedFields]
  simp only [map_append, valuesOf_append, hnone _ ⟨ascii "Host", _⟩ hhost,
    hnone _ ⟨ascii "Accept-Encoding", _⟩ hencoding, hnone _ ⟨ascii "Accept-Charset", _⟩ hcharset,
    nil_append]
  by_cases hann : s.announces
  · cases hsame : sameName name (ascii "Content-Length") with
    | false => simp [hann, valuesOf, Field.trimmed, hsame]
    | true => simp [hann, valuesOf, Field.trimmed, hsame, trim_decimal]
  · simp [hann, valuesOf]

/-- The length is announced once, and nothing else tells the end of the body. -/
theorem Accepted.requestEnd (h : Accepted s) :
    valuesOf (ascii "Content-Length") s.readHeaders =
        (if s.announces then [decimal s.messages.length] else []) ∧
      Lib.requestEnd s.readHeaders =
        some (if s.announces then .sized s.messages.length else .absent) := by
  have hlen : valuesOf (ascii "Content-Length") s.readHeaders =
      if s.announces then [decimal s.messages.length] else [] := by
    have hsame : sameName (ascii "Content-Length") (ascii "Content-Length") := by decide
    rw [readHeaders, map_append, valuesOf_append,
      h.valuesOf_given (show "Content-Length" ∈ badHeaders by simp [badHeaders]), nil_append,
      valuesOf_added (by decide) (by decide) (by decide)]
    simp [hsame]
  have hcode : valuesOf (ascii "Transfer-Encoding") s.readHeaders = [] := by
    have hother : sameName (ascii "Transfer-Encoding") (ascii "Content-Length") = false := by decide
    rw [readHeaders, map_append, valuesOf_append,
      h.valuesOf_given (show "Transfer-Encoding" ∈ badHeaders by simp [badHeaders]), nil_append,
      valuesOf_added (by decide) (by decide) (by decide)]
    simp [hother]
  refine ⟨hlen, ?_⟩
  rw [Lib.requestEnd, bodyEnd, if_neg (by decide), hcode, hlen]
  by_cases hann : s.announces
  · have hdigs : (decimal s.messages.length).all isDigit :=
      all_eq_true.mpr isDigit_of_mem_decimal
    have hne := length_pos_iff.mp (length_decimal_pos s.messages.length)
    simp [hann, hne, hdigs, digitsValue_decimal]
  · simp [hann]

/-- Exactly one request: the method, the path and the headers that are given, each of them once and
    none of them forbidden, and the messages as its body. -/
structure OneRequest (s : HttpStream) (bytes : Bytes) : Prop where
  reads : ∀ next, readRequest (bytes ++ next) =
    some (⟨s.givenText "method", s.givenText "path", s.readHeaders, s.messages⟩, next)
  sized : valuesOf (ascii "Content-Length") s.readHeaders =
    if s.announces then [decimal s.messages.length] else []
  once : ∀ g ∈ s.addedFields, ∀ f ∈ s.givenFields, sameName g.name f.name = false
  allowed : ∀ f ∈ s.givenFields, ¬ Forbidden s.binary f.trimmed

/-- What must hold of a request that is accepted. -/
structure Proper (s : HttpStream) : Prop where
  method : isToken (s.givenText "method")
  path : s.givenText "path" ≠ []
  names : ∀ f ∈ s.givenFields, isToken f.name
  connection : ∀ f ∈ s.givenFields, sameName (ascii "Connection") f.name →
    trim f.value = ascii "close"

/-- **What is written is read as one request**, when it is proper. -/
theorem Accepted.reads (h : Accepted s) (hproper : Proper s) (next : Bytes) :
    readRequest (s.requestHead ++ s.messages ++ next) =
      some (⟨s.givenText "method", s.givenText "path", s.readHeaders, s.messages⟩, next) := by
  obtain ⟨hmeth, hmethod32⟩ := @Accepted.givenText s h "method" (.inr rfl)
  obtain ⟨hpath, hpath32⟩ := @Accepted.givenText s h "path" (.inl rfl)
  have hline : OneLine s.requestLine := by
    refine hmeth.append (OneLine.append (by decide : OneLine [32]) ?_)
    exact hpath.append (by decide)
  have hread : readRequestLine s.requestLine = some (s.givenText "method", s.givenText "path") :=
    (readRequestLine_eq_some_iff hmethod32 hpath32 _).mpr
      ⟨⟨hproper.method, hproper.path⟩, rfl⟩
  have hfields : ∀ f ∈ s.givenFields ++ s.addedFields, f.Ok := by
    intro f hf
    rcases mem_append.mp hf with hf | hf
    · obtain ⟨name, value, rfl, -, hvalue⟩ := h.given hf
      exact ⟨hproper.names _ hf, hvalue⟩
    · exact addedFields_ok f hf
  have htext : s.requestHead ++ s.messages ++ next = s.requestLine ++ (crlf ++
      ((s.givenFields ++ s.addedFields).flatMap fieldLine ++ (crlf ++ (s.messages ++ next)))) := by
    simp [requestHead]
  rw [htext, readRequest_head hline hread hfields, ← readHeaders, h.requestEnd.2, Option.bind_some]
  by_cases hann : s.announces
  · rw [if_pos hann, readBody_sized]
    rfl
  -- there are no messages
  have hempty : s.request = [] := by
    rw [Bool.not_eq_true, announces, Bool.or_eq_false_iff] at hann
    simpa using hann.1
  have hnone : s.messages = [] := by rw [messages, hempty]; rfl
  rw [if_neg hann, hnone]
  rfl

/-- What is written was one request, or the channel failed and nothing was. -/
def Answered (s s' : HttpStream) : Prop :=
  (∃ pieces, s'.written = s.written ++ pieces ∧ OneRequest s pieces.flatten) ∨
    (s'.written = s.written ∧ ∃ message, s' = s.protocolError message)

/-- **When nothing else can be read**: a request that is accepted is proper. -/
theorem one_request_iff (s : HttpStream) :
    Answered s s.sendHttpRequest ↔ (Accepted s → Proper s) := by
  by_cases haccepted : Accepted s
  · have hsend : s.sendHttpRequest =
        { s with request := [], written := s.written ++ s.requestHead :: s.request.reverse } := by
      rw [sendHttpRequest, haccepted.requestText]
    have hbytes : (s.requestHead :: s.request.reverse).flatten = s.requestHead ++ s.messages := rfl
    rw [hsend]
    constructor
    · rintro (⟨pieces, hpieces, hone⟩ | ⟨hwritten, -⟩) -
      · rw [append_cancel_left_eq] at hpieces
        rw [← hpieces, hbytes] at hone
        obtain ⟨hmethod, hpath, hnames⟩ := readRequest_tokens (hone.reads [])
        have hgiven : ∀ f ∈ s.givenFields, f.trimmed ∈ s.readHeaders := fun f hf =>
          mem_map_of_mem (mem_append_left _ hf)
        refine ⟨hmethod, hpath, fun f hf => hnames f.trimmed (hgiven f hf), fun f hf hsame => ?_⟩
        by_contra hvalue
        exact hone.allowed f hf ((haccepted.forbidden_iff hf).mpr ⟨hsame, hvalue⟩)
      · -- something was written
        simp at hwritten
    intro h
    have hproper := h haccepted
    refine .inl ⟨_, rfl, ?_, haccepted.requestEnd.1, haccepted.once, fun f hf hbad => ?_⟩
    · intro next
      rw [hbytes]
      exact haccepted.reads hproper next
    · obtain ⟨hsame, hvalue⟩ := (haccepted.forbidden_iff hf).mp hbad
      exact hvalue (hproper.connection f hf hsame)
  obtain ⟨message, hrefused⟩ := requestText_refused haccepted
  have hsend : s.sendHttpRequest = s.protocolError message := by rw [sendHttpRequest, hrefused]
  refine iff_of_true (.inr ⟨?_, message, hsend⟩) fun h => absurd h haccepted
  rw [hsend]
  rfl

/-- A stream with a request for a connection that is kept. -/
def keepAliveStream : HttpStream :=
  new "4" [("path", .string "/"), ("method", .string "GET"),
    ("headers", .object [("Connection", .string "keep-alive")])]

/-- The request is sent, with the header that is not allowed. -/
theorem keepAlive_sent : ¬ Answered keepAliveStream keepAliveStream.sendHttpRequest := by
  rintro (⟨pieces, -, hone⟩ | ⟨hwritten, -⟩)
  · have hmem : (⟨ascii "Connection", ascii "keep-alive"⟩ : Field) ∈ keepAliveStream.givenFields := by
      decide
    exact hone.allowed _ hmem (.inr (.inr ⟨by decide, by decide⟩))
  · revert hwritten
    decide

end HttpStream

end Cockpit
