import Cockpit.Bridge.HttpStreamRelay

namespace Cockpit

open Lib List Channel

/-!
# HTTP responses and the messages they become

* `HttpStream.Stage` — where a stream is in the middle of a response;
* `HttpStream.run_response_relayed` — what goes out on the channel for a response, and for one that breaks off,
  however it is cut into reads.
-/

/-- A response: its status in three digits, and the rest of it. -/
structure HttpResponse where
  code : Bytes
  reason : Bytes
  fields : List Field
  body : ResponseBody

namespace HttpResponse

variable (r : HttpResponse)

/-- The status. -/
def status : Nat := digitsValue 0 r.code

/-- The head as it is written. -/
def head : Bytes :=
  statusText r.code r.reason ++ (r.fields.flatMap rawLine ++ crlf)

/-- The response as it is written. -/
def text (r : HttpResponse) : Bytes := r.head ++ r.body.text

/-- The bytes without which the response cannot have ended. -/
def required : Bytes := if r.body.framed then r.text else r.head

/-- The values that the fields of a name have. -/
def values (name : String) : List Bytes :=
  valuesOf (ascii name) (r.fields.map Field.trimmed)

/-- How the fields frame the body. -/
def Framed : Prop :=
  match r.body with
  | .chunked _ _ => r.values "Transfer-Encoding" = [ascii "chunked"]
  | .sized data =>
    r.values "Transfer-Encoding" = [] ∧ r.values "Content-Length" ≠ [] ∧
      ∀ v ∈ r.values "Content-Length", digitsValue 0 v = data.length
  | .untilClose _ => r.values "Transfer-Encoding" = [] ∧ r.values "Content-Length" = []

/-- A final response that may carry a body, and does. -/
structure Ok (r : HttpResponse) : Prop where
  code : r.code.length = 3
  digits : ∀ b ∈ r.code, isDigit b
  final : 200 ≤ r.status
  bodily : ¬ Bodiless r.status
  reason : OneLine r.reason
  fields : ∀ f ∈ r.fields, f.Ok
  /-- A `Content-Length` is a numeral, and there is no other one. -/
  lengths : ∀ v ∈ r.values "Content-Length",
    v ≠ [] ∧ (∀ b ∈ v, isDigit b) ∧ ∀ w ∈ r.values "Content-Length", w = v
  framed : r.Framed
  body : r.body.Ok

/-- Neither a `Content-Length` nor a chunk is larger than `G_MAXSSIZE`. -/
def Small (r : HttpResponse) : Prop :=
  r.body.Small ∧ ∀ v ∈ r.values "Content-Length", digitsValue 0 v ≤ maxSsize

variable {r : HttpResponse}

/-- What the table of headers has for the length. -/
theorem Ok.lookup_length (h : r.Ok) :
    (r.values "Content-Length" = [] ∧
      lookupHeader (insertFields [] r.fields) "Content-Length" = none) ∨
    ∃ v value, v ∈ r.values "Content-Length" ∧ value.bytes = v ∧
      lookupHeader (insertFields [] r.fields) "Content-Length" = some value := by
  by_cases hnone : r.values "Content-Length" = []
  · exact .inl ⟨hnone, lookupHeader_absent h.fields hnone []⟩
  obtain ⟨v, hv⟩ := exists_mem_of_ne_nil _ hnone
  obtain ⟨hne, hdigs, hsame⟩ := h.lengths v hv
  have hplain : ∀ b ∈ v, isSpace b = false ∧ b ≠ 0 := by
    intro b hb
    have hdigit := @NumeralBase.digit?_not_space .ten b (by simp [NumeralBase.digit?, hdigs b hb])
    refine ⟨(Bool.or_eq_false_iff.mp hdigit.1).1, ?_⟩
    rintro rfl
    cases (hdigs 0 hb)
  obtain ⟨value, hlook, hvalue⟩ := lookupHeader_parsed h.fields hne hplain hnone hsame []
  exact .inr ⟨v, value, hv, hvalue, hlook⟩

/-- What the table of headers has for the coding. -/
theorem Ok.lookup_coding (h : r.Ok) :
    (r.values "Transfer-Encoding" = [] ∧
      lookupHeader (insertFields [] r.fields) "Transfer-Encoding" = none) ∨
    (r.values "Transfer-Encoding" = [ascii "chunked"] ∧ ∃ value : CStr,
      value.bytes = ascii "chunked" ∧
        lookupHeader (insertFields [] r.fields) "Transfer-Encoding" = some value) := by
  have hvalues : r.values "Transfer-Encoding" = [] ∨
      r.values "Transfer-Encoding" = [ascii "chunked"] := by
    have hfram := h.framed
    unfold Framed at hfram
    cases hbody : r.body with
    | chunked chunks last =>
      rw [hbody] at hfram
      exact .inr hfram
    | sized data | untilClose data =>
      rw [hbody] at hfram
      exact .inl hfram.1
  rcases hvalues with hnone | hsome
  · exact .inl ⟨hnone, lookupHeader_absent h.fields hnone []⟩
  have hne : r.values "Transfer-Encoding" ≠ [] := by simp [hsome]
  have hall : ∀ w ∈ r.values "Transfer-Encoding", w = ascii "chunked" := by simp [hsome]
  obtain ⟨value, hlook, hvalue⟩ := lookupHeader_parsed h.fields
    (by decide : ascii "chunked" ≠ []) (by decide +kernel) hne hall []
  exact .inr ⟨hsome, value, hvalue, hlook⟩

end HttpResponse

namespace HttpStream

variable {writeBytes : JsonObject → Bytes} {s : HttpStream} {r : HttpResponse}

/-! ### The head -/

/-- A plain numeral is read as a whole. -/
theorem strtoull_numeral {value : CStr} (hne : value.bytes ≠ [])
    (hdigs : ∀ b ∈ value.bytes, isDigit b) :
    WebServer.strtoull value = (min (digitsValue 0 value.bytes) (2 ^ 64 - 1), []) := by
  obtain ⟨d, ds, hbytes⟩ := exists_cons_of_ne_nil hne
  have hd : isDigit d := hdigs d (by simp [hbytes])
  have hspace : WebServer.isStrtoullSpace d = false :=
    (@NumeralBase.digit?_not_space .ten d (by simp [NumeralBase.digit?, hd])).1
  have hsign : d ≠ 43 ∧ d ≠ 45 := by
    have hdigit := @NumeralBase.digit?_not_space .ten d (by simp [NumeralBase.digit?, hd])
    exact ⟨hdigit.2.1, hdigit.2.2.1⟩
  have htake : (d :: ds).takeWhile isDigit = d :: ds :=
    takeWhile_eq_self_iff.mpr fun b hb => hdigs b (hbytes ▸ hb)
  have hdrop : (d :: ds).dropWhile isDigit = [] :=
    dropWhile_eq_nil_iff.mpr fun b hb => hdigs b (hbytes ▸ hb)
  unfold WebServer.strtoull
  rw [hbytes, dropWhile_cons_of_neg (by simp [hspace])]
  simp [hsign, htake, hdrop]

/-- **A part of the head is not enough.** -/
theorem relayHeaders_more (h : r.Ok) {missing : Bytes} (htext : s.buffer ++ missing = r.head)
    (hmiss : missing ≠ []) (beyond : Bytes) :
    relayHeaders writeBytes s beyond = (s, false) := by
  obtain ⟨line, hline, hfeed⟩ := statusText_line h.digits h.reason
  unfold relayHeaders
  -- the status line has no end yet, or a part of the fields is behind it
  have hcases : (∃ more, more ≠ [] ∧ s.buffer ++ more = line ++ [10]) ∨
      ∃ rest, s.buffer = statusText r.code r.reason ++ rest ∧
        rest ++ missing = r.fields.flatMap rawLine ++ crlf := by
    rcases append_eq_append_iff.mp htext with ⟨more, hstat, hrest⟩ | ⟨rest, hbuf, hrest⟩
    · by_cases hmore : more = []
      · subst hmore
        exact .inr ⟨[], by simpa using hstat.symm, by simpa using hrest⟩
      · exact .inl ⟨more, hmore, by rw [← hline, hstat]⟩
    · exact .inr ⟨rest, hbuf, hrest.symm⟩
  rcases hcases with ⟨more, hmore, hstart⟩ | ⟨rest, hbuf, hrest⟩
  · have hnone : (10 : UInt8) ∉ s.buffer := by
      obtain ⟨init, last, rfl⟩ := (eq_nil_or_concat more).resolve_left hmore
      rw [concat_eq_append, ← append_assoc] at hstart
      have hinit := (append_inj' hstart rfl).1
      exact fun hmem => hfeed (hinit ▸ mem_append_left _ hmem)
    have hparse : parseStatusLine s.buffer beyond = some .more := by
      unfold parseStatusLine
      rw [splitLine_none hnone]
    rw [hparse]
  obtain ⟨text, hparse⟩ := parseStatusLine_item h.digits h.code
    (lt_of_lt_of_le (by decide) h.final) h.reason rest beyond
  have hheads : parseHeaders rest = .more := parseHeaders_more h.fields [] hrest hmiss
  rw [hbuf, hparse]
  dsimp only
  rw [drop_left, hheads]

/-- The table of headers as it is shown. -/
def shownHeaders (s : HttpStream) (headers : Headers) : Headers :=
  let headers :=
    if s.binary then headers else removeHeader (removeHeader headers "Content-Length") "Range"
  removeHeader (removeHeader headers "Connection") "Transfer-Encoding"

/-- The message about a response. -/
def responseWire (writeBytes : JsonObject → Bytes) (s : HttpStream) (line : StatusLine)
    (headers : Headers) : Wire :=
  let object := responseObject line (s.shownHeaders headers)
  if s.headersInline then .payload (writeBytes object)
  else .control "response" (s.channel.message "response" object)

/-- A message that says what the head of a response says. -/
def IsResponse (writeBytes : JsonObject → Bytes) (s : HttpStream) (r : HttpResponse) (wire : Wire) :
    Prop :=
  ∃ reason : CStr, wire = responseWire writeBytes s ⟨strndup (ascii "HTTP/1.1"), r.status, reason⟩
    (insertFields [] r.fields)

theorem relayResponse_eq (hopen : s.channel.Open) (line : StatusLine) (headers : Headers) :
    relayResponse writeBytes s line headers =
      { s with channel := { s.channel with
          sent := s.channel.sent ++ [responseWire writeBytes s line headers] } } := by
  unfold relayResponse responseWire shownHeaders
  dsimp only
  cases hinline : s.headersInline with
  | true =>
    simp only [if_true]
    rw [hopen.send _ (.inl rfl)]
  | false =>
    simp only [Bool.false_eq_true, if_false]
    rw [s.channel.control_eq (by decide) (by decide)]
    rfl

/-- The stream behind a head of `length` bytes. -/
def withResponse (writeBytes : JsonObject → Bytes) (s : HttpStream) (line : StatusLine)
    (headers : Headers) (length : Nat) : HttpStream :=
  { s with
    responseChunked := (lookupHeader headers "Transfer-Encoding").isSome
    responseLength := contentLength line.status headers
    keepAlive := parseKeepAlive line.version headers
    buffer := s.buffer.drop length
    channel := { s.channel with
      sent := s.channel.sent ++ [responseWire writeBytes s line headers] } }

/-- A head that can be read, with a coding and a length that are accepted. -/
theorem relayHeaders_item (hopen : s.channel.Open) {beyond : Bytes} {offset offset2 : Nat}
    {line : StatusLine} {headers : Headers}
    (hline : parseStatusLine s.buffer beyond = some (.item offset line))
    (hheads : parseHeaders (s.buffer.drop offset) = .item offset2 headers)
    (hcode : ∀ coding, lookupHeader headers "Transfer-Encoding" = some coding →
      coding.bytes = ascii "chunked")
    (hlen : line.status ≠ 204 → ∀ length, lookupHeader headers "Content-Length" = some length →
      (WebServer.strtoull length).2 = [] ∧ (WebServer.strtoull length).1 ≤ maxSsize) :
    relayHeaders writeBytes s beyond =
      (withResponse writeBytes s line headers (offset + offset2), true) := by
  unfold relayHeaders
  rw [hline]
  dsimp only
  rw [hheads]
  dsimp only
  rw [parseTransferEncoding_eq hcode]
  dsimp only
  rw [parseContentLength_eq hlen]
  dsimp only
  rw [relayResponse_eq]
  · rfl
  · exact hopen

/-- **A head is read**, whatever comes behind it. -/
theorem relayHeaders_head (h : r.Ok) (hsmall : r.Small) (hopen : s.channel.Open) {rest : Bytes}
    (hbuf : s.buffer = r.head ++ rest) (beyond : Bytes) :
    ∃ wire keepAlive chunked length, IsResponse writeBytes s r wire ∧
      relayHeaders writeBytes s beyond =
        ({ s with
          responseChunked := chunked
          responseLength := length
          keepAlive := keepAlive
          buffer := rest
          channel := { s.channel with sent := s.channel.sent ++ [wire] } }, true) ∧
      r.body.Expected { s with responseChunked := chunked, responseLength := length } := by
  obtain ⟨reason, hparse⟩ := parseStatusLine_item h.digits h.code
    (lt_of_lt_of_le (by decide) h.final) h.reason (r.fields.flatMap rawLine ++ (crlf ++ rest)) beyond
  replace hparse : parseStatusLine _ beyond =
      some (.item _ ⟨strndup (ascii "HTTP/1.1"), r.status, reason⟩) := hparse
  have hheads := parseHeaders_fields h.fields [] rest
  have hwhole : s.buffer = statusText r.code r.reason ++ (r.fields.flatMap rawLine ++ (crlf ++ rest)) := by
    rw [hbuf]
    simp [HttpResponse.head]
  have hcoding : ∀ coding, lookupHeader (insertFields [] r.fields) "Transfer-Encoding" = some coding →
      coding.bytes = ascii "chunked" := by
    intro coding hsome
    rcases h.lookup_coding with ⟨-, hnone⟩ | ⟨-, value, hvalue, hlook⟩
    · rw [hnone] at hsome
      cases hsome
    · rw [hlook] at hsome
      cases hsome
      exact hvalue
  have hnumeral : ∀ v value, v ∈ r.values "Content-Length" → value.bytes = v →
      WebServer.strtoull value = (digitsValue 0 v, []) := by
    rintro v value hv rfl
    obtain ⟨hne, hdigs, -⟩ := h.lengths _ hv
    have hmax : digitsValue 0 value.bytes ≤ 2 ^ 64 - 1 := le_trans (hsmall.2 _ hv) (by decide)
    rw [strtoull_numeral hne hdigs, Nat.min_eq_left hmax]
  have hlen : r.status ≠ 204 → ∀ length,
      lookupHeader (insertFields [] r.fields) "Content-Length" = some length →
      (WebServer.strtoull length).2 = [] ∧ (WebServer.strtoull length).1 ≤ maxSsize := by
    intro _ length hsome
    rcases h.lookup_length with ⟨-, hnone⟩ | ⟨v, value, hv, hvalue, hlook⟩
    · rw [hnone] at hsome
      cases hsome
    rw [hlook] at hsome
    cases hsome
    rw [hnumeral v _ hv hvalue]
    exact ⟨rfl, hsmall.2 v hv⟩
  refine ⟨_, parseKeepAlive (strndup (ascii "HTTP/1.1")) (insertFields [] r.fields),
    (lookupHeader (insertFields [] r.fields) "Transfer-Encoding").isSome,
    contentLength r.status (insertFields [] r.fields), ⟨reason, rfl⟩, ?_, ?_⟩
  · rw [← hwhole] at hparse
    rw [relayHeaders_item hopen hparse ?_ hcoding hlen, withResponse]
    · have hdrop : s.buffer.drop ((statusText r.code r.reason).length +
          (r.fields.flatMap rawLine ++ crlf).length) = rest := by
        rw [hwhole, ← drop_drop, drop_left, ← append_assoc, drop_left]
      rw [hdrop]
    · rw [hwhole, drop_left]
      exact hheads
  have hfram := h.framed
  unfold HttpResponse.Framed at hfram
  cases hbody : r.body with
  | chunked chunks last =>
    rw [hbody] at hfram
    rcases h.lookup_coding with ⟨hnone, -⟩ | ⟨-, value, -, hlook⟩
    · rw [hfram] at hnone
      cases hnone
    · simp [ResponseBody.Expected, hlook]
  | sized data =>
    rw [hbody] at hfram
    obtain ⟨hcode, hsome, hdata⟩ := hfram
    have hplain : lookupHeader (insertFields [] r.fields) "Transfer-Encoding" = none :=
      lookupHeader_absent h.fields hcode []
    rcases h.lookup_length with ⟨hnone, -⟩ | ⟨v, value, hv, hvalue, hlook⟩
    · exact absurd hnone hsome
    · have hstat : r.status ≠ 204 := fun heq => h.bodily (.inr (.inl heq))
      have hnum := hnumeral v value hv hvalue
      simp [ResponseBody.Expected, hplain, contentLength, hlook, hstat, hnum, hdata v hv]
  | untilClose data =>
    rw [hbody] at hfram
    have hplain : lookupHeader (insertFields [] r.fields) "Transfer-Encoding" = none :=
      lookupHeader_absent h.fields hfram.1 []
    have hnone : lookupHeader (insertFields [] r.fields) "Content-Length" = none :=
      lookupHeader_absent h.fields hfram.2 []
    have hstat : r.status ≠ 204 := fun heq => h.bodily (.inr (.inl heq))
    simp [ResponseBody.Expected, hplain, hnone, contentLength, hstat]

/-! ### Reads -/

/-- A response that broke off: the channel closes with a problem, behind a part of the body if the
    response was announced. -/
def Broken (before : List Wire) (isResponse : Wire → Prop) (data : Bytes) (sent : List Wire) :
    Prop :=
  ∃ (shown : List Wire) (payloads : List Bytes) (close : JsonObject),
    sent = before ++ shown ++ payloads.map .payload ++ [.control "close" close] ∧
      (shown = [] ∧ payloads = [] ∨ ∃ wire, isResponse wire ∧ shown = [wire]) ∧
      payloads.flatten <+: data ∧ close.getMember "problem" = some (.string "protocol-error")

/-- A stream whose request went out, with nothing read so far. -/
structure Asked (s : HttpStream) : Prop where
  state : s.state = .relayRequest
  buffer : s.buffer = []
  stream : s.stream
  alive : s.aborted = false
  binary : s.channel.binaryOk
  channelOpen : s.channel.Open
  noDone : s.channel.sentDone = false

/-- Where a stream is that began as `s₀` and reads a response, of which `future` is still to
    come. -/
inductive Stage (writeBytes : JsonObject → Bytes) (s₀ : HttpStream) (r : HttpResponse)
    (future : Bytes) : HttpStream → Prop
  | head {buffer missing : Bytes} (hhead : buffer ++ missing = r.head) (hmissing : missing ≠ [])
      (htext : buffer ++ future = r.text) : Stage writeBytes s₀ r future { s₀ with buffer := buffer }
  | body {s : HttpStream} {wire : Wire} {body : ResponseBody}
      (hwire : IsResponse writeBytes s₀ r wire)
      (hpending : Pending (s₀.channel.sent ++ [wire]) r.body.data future s body)
      (hframed : body.framed = r.body.framed) (hlength : future.length ≤ r.body.text.length)
      (hend : future = [] → body = .untilClose []) : Stage writeBytes s₀ r future s
  | ended {s : HttpStream} {wire : Wire} (hwire : IsResponse writeBytes s₀ r wire)
      (hended : Ended (s₀.channel.sent ++ [wire]) r.body.data s) (hfuture : future = []) :
      Stage writeBytes s₀ r future s

/-- The response broke off in its head. -/
structure Failed (writeBytes : JsonObject → Bytes) (s₀ : HttpStream) (r : HttpResponse)
    (future : Bytes) (s : HttpStream) : Prop where
  state : s.state = .finished
  alive : s.aborted = false
  broken : Broken s₀.channel.sent (IsResponse writeBytes s₀ r) r.body.data s.channel.sent
  future : r.body.text.length < future.length

/-- What went out when the stream closes in front of the bytes of `future`. -/
def Settled (writeBytes : JsonObject → Bytes) (s₀ : HttpStream) (r : HttpResponse) (future : Bytes)
    (sent : List Wire) : Prop :=
  (future = [] → ∃ wire, IsResponse writeBytes s₀ r wire ∧
    Delivered (s₀.channel.sent ++ [wire]) r.body.data sent) ∧
  (future ≠ [] → r.body.framed ∨ r.body.text.length < future.length →
    Broken s₀.channel.sent (IsResponse writeBytes s₀ r) r.body.data sent)

/-- A read while the response's head is waited for. -/
theorem onStreamRead_relayRequest (hstream : s.stream) (hstate : s.state = .relayRequest)
    (data : Bytes) (beyond : Nat → Bytes) (endOfData : Bool) :
    onStreamRead writeBytes s data beyond endOfData =
      match relayHeaders writeBytes { s with buffer := s.buffer ++ data } (beyond 0) with
      | (s, true) => if s.aborted then s else (s.setState .relayData).relayBody beyond
      | (s, false) =>
        if endOfData then s.protocolError ": received truncated HTTP response" else s := by
  unfold onStreamRead
  rw [if_pos hstream]
  dsimp only
  exact hstate ▸ rfl

namespace Stage

variable {s₀ : HttpStream} {future : Bytes}

/-- The head has not come in as a whole. -/
theorem lt_future {buffer missing : Bytes} (hhead : buffer ++ missing = r.head)
    (hmiss : missing ≠ []) (htext : buffer ++ future = r.text) :
    r.body.text.length < future.length := by
  have hlen := congrArg length htext
  have hlength' := congrArg length hhead
  have hpos := length_pos_iff.mpr hmiss
  simp only [HttpResponse.text, length_append] at hlen hlength'
  omega

/-- The loop runs. -/
theorem relayBody {wire : Wire} {body : ResponseBody} (hwire : IsResponse writeBytes s₀ r wire)
    (hpend : Pending (s₀.channel.sent ++ [wire]) r.body.data future s body)
    (hfram : body.framed = r.body.framed) (hlen : future.length ≤ r.body.text.length)
    (beyond : Nat → Bytes) : Stage writeBytes s₀ r future (s.relayBody beyond) := by
  rcases hpend.relayLoop beyond (show s.buffer.length < s.buffer.length + 2 by omega) with
    ⟨rest, hrest, hsame, hend⟩ | ⟨hfuture, hended⟩
  · exact .body hwire hrest (hsame.trans hfram) hlen hend
  · exact .ended hwire hended hfuture

/-- A failure before the response was announced. -/
theorem broken_head (h₀ : Asked s₀) (message : String) :
    Broken s₀.channel.sent (IsResponse writeBytes s₀ r) r.body.data
      (s₀.channel.fail "protocol-error" message true).sent := by
  obtain ⟨close, hclose, hprob⟩ := h₀.channelOpen.fail "protocol-error" message
  refine ⟨[], [], close, ?_, .inl ⟨rfl, rfl⟩, nil_prefix, hprob⟩
  rw [append_nil, map_nil, append_nil, hclose]

/-- A read before the head was there. -/
theorem read_head (hr : r.Ok) (hsmall : r.Small) (h₀ : Asked s₀) {buffer data : Bytes}
    (htext : buffer ++ (data ++ future) = r.text) (beyond : Nat → Bytes) (endOfData : Bool) :
    let s' := onStreamRead writeBytes { s₀ with buffer := buffer } data beyond endOfData
    Stage writeBytes s₀ r future s' ∨ (endOfData ∧ Failed writeBytes s₀ r future s') := by
  dsimp only
  rw [onStreamRead_relayRequest (s := { s₀ with buffer := buffer }) h₀.stream h₀.state]
  dsimp only
  rw [← append_assoc] at htext
  have hcases : (∃ missing, missing ≠ [] ∧ buffer ++ data ++ missing = r.head) ∨
      ∃ rest, buffer ++ data = r.head ++ rest ∧ rest ++ future = r.body.text := by
    rcases append_eq_append_iff.mp htext with ⟨missing, hhead, hfuture⟩ | ⟨rest, hbuf, hrest⟩
    · by_cases hmiss : missing = []
      · subst hmiss
        exact .inr ⟨[], by simpa using hhead.symm, by simpa using hfuture⟩
      · exact .inl ⟨missing, hmiss, hhead.symm⟩
    · exact .inr ⟨rest, hbuf, hrest.symm⟩
  rcases hcases with ⟨missing, hmiss, hhead⟩ | ⟨rest, hbuf, hrest⟩
  · have hmore : relayHeaders writeBytes { s₀ with buffer := buffer ++ data } (beyond 0) =
        ({ s₀ with buffer := buffer ++ data }, false) :=
      relayHeaders_more hr hhead hmiss (beyond 0)
    rw [hmore]
    dsimp only
    split
    · rename_i heof
      exact .inr ⟨heof, rfl, h₀.alive, broken_head h₀ _, lt_future hhead hmiss htext⟩
    · exact .inl (.head hhead hmiss htext)
  obtain ⟨wire, keepAlive, chunked, length, hwire, heq, hexp⟩ :=
    @relayHeaders_head writeBytes { s₀ with buffer := buffer ++ data } r hr hsmall h₀.channelOpen
      rest hbuf (beyond 0)
  replace hwire : IsResponse writeBytes s₀ r wire := hwire
  rw [heq]
  dsimp only
  rw [if_neg (by simp [h₀.alive])]
  refine .inl (relayBody hwire ?_ rfl ?_ beyond)
  · refine ⟨rfl, h₀.stream, h₀.alive, h₀.channelOpen.sent _, h₀.noDone, h₀.binary, ⟨[], ?_, rfl⟩,
      hr.body, hsmall.1, ?_, hrest⟩
    · rw [map_nil, append_nil]
      rfl
    cases hbody : r.body with
    | chunked | sized | untilClose => rw [hbody] at hexp; exact hexp
  · rw [← hrest, length_append]
    omega

/-- **A read.** -/
theorem read (hr : r.Ok) (hsmall : r.Small) (h₀ : Asked s₀) {data : Bytes}
    (h : Stage writeBytes s₀ r (data ++ future) s) (beyond : Nat → Bytes) (endOfData : Bool) :
    let s' := onStreamRead writeBytes s data beyond endOfData
    Stage writeBytes s₀ r future s' ∨ (endOfData ∧ Failed writeBytes s₀ r future s') := by
  cases h with
  | head hhead hmiss htext => exact read_head hr hsmall h₀ htext beyond endOfData
  | @body _ wire body hwire hpend hfram hlen hend =>
    have hstep : onStreamRead writeBytes s data beyond endOfData =
        ({ s with buffer := s.buffer ++ data } : HttpStream).relayBody beyond := by
      simp only [onStreamRead, hpend.stream, if_true, hpend.state]
    dsimp only
    rw [hstep]
    refine .inl (relayBody hwire (?_ : Pending _ _ _ _ body) hfram ?_ beyond)
    · refine { hpend with expected := ?_, text := ?_ }
      · have hexp := hpend.expected
        cases body <;> exact hexp
      · rw [← hpend.text, append_assoc]
    · rw [length_append] at hlen
      omega
  | ended hwire hended hfuture =>
    obtain ⟨rfl, rfl⟩ := append_eq_nil_iff.mp hfuture
    refine .inl (.ended hwire ?_ rfl)
    unfold onStreamRead
    split
    · simp only [hended.state]
      exact ⟨rfl, hended.alive, hended.sent⟩
    · exact hended

section

variable (h₀ : Asked s₀) {s : HttpStream} (h : Stage writeBytes s₀ r future s)

include h₀ h

/-- **The stream closes.** -/
theorem close : Settled writeBytes s₀ r future (s.onStreamClose none).channel.sent := by
  cases h with
  | head hhead hmiss htext =>
    refine ⟨fun hfuture => ?_, fun _ _ => ?_⟩
    · have hless := lt_future hhead hmiss htext
      rw [hfuture] at hless
      simp at hless
    · simp only [onStreamClose, h₀.stream, h₀.state]
      exact broken_head h₀ _
  | @body _ wire body hwire hpend hfram hlen hend =>
    have hquiet : Pending (s₀.channel.sent ++ [wire]) r.body.data future
        { s with keepAlive := false } body := by
      refine { hpend with expected := ?_ }
      have hexp := hpend.expected
      cases body <;> exact hexp
    refine ⟨fun hfuture => ⟨wire, hwire, ?_⟩, fun hfuture htrunc => ?_⟩
    · obtain rfl := hend hfuture
      obtain ⟨hchunk, hlen⟩ := hpend.expected
      have hclose : s.onStreamClose none = ({ s with keepAlive := false } : HttpStream).close none := by
        simp [onStreamClose, hpend.stream, hpend.state, hchunk, hlen]
      rw [hclose]
      exact (hquiet.close rfl s.buffer s.framed).sent
    have hyes : body.framed := by
      rcases htrunc with hyes | hless
      · exact hfram.trans hyes
      · omega
    have hfail : s.onStreamClose none = ({ s with keepAlive := false } : HttpStream).protocolError
        ": received truncated HTTP response" := by
      have hnot : ¬ (s.responseChunked = false ∧ s.responseLength ≤ 0) := by
        have hexp := hpend.expected
        cases body with
        | chunked chunks last =>
          have hchunk : s.responseChunked := hexp
          simp [hchunk]
        | sized data =>
          obtain ⟨-, hlen⟩ := hexp
          have htext := congrArg length hpend.text
          have hpos := length_pos_iff.mpr hfuture
          simp only [ResponseBody.text, length_append] at htext
          omega
        | untilClose => cases hyes
      simp [onStreamClose, hpend.stream, hpend.state, hnot]
    obtain ⟨payloads, hsent, htotal⟩ := hpend.sent
    obtain ⟨close, hclose, hprob⟩ := hpend.channelOpen.fail "protocol-error"
      (s.name ++ ": received truncated HTTP response")
    rw [hfail]
    refine ⟨[wire], payloads, close, ?_, .inr ⟨wire, hwire, rfl⟩, ?_, hprob⟩
    · rw [← hsent]
      exact hclose
    · rw [← htotal]
      exact prefix_append _ _
  | ended hwire hended hfuture =>
    refine ⟨fun _ => ⟨_, hwire, ?_⟩, fun hne => absurd hfuture hne⟩
    have hsame : (s.onStreamClose none).channel = s.channel := by
      unfold onStreamClose
      dsimp only
      rw [hended.state]
      split <;> rfl
    rw [hsame]
    exact hended.sent

theorem alive :
    s.aborted = false := by
  cases h with
  | head => exact h₀.alive
  | body _ hpend => exact hpend.alive
  | ended _ hended => exact hended.alive

/-- The event of the close. -/
theorem close_step :
    Settled writeBytes s₀ r future (run (step writeBytes) s [.streamClose none]).channel.sent := by
  have hstep : run (step writeBytes) s [.streamClose none] = s.onStreamClose none := by
    simp [step, h.alive h₀]
  rw [hstep]
  exact h.close h₀

end

/-- Reads that are not the end of the input. -/
theorem reads (hr : r.Ok) (hsmall : r.Small) (h₀ : Asked s₀) (cut : List (Bytes × (Nat → Bytes))) (h : Stage writeBytes s₀ r (cut.flatMap Prod.fst ++ future) s) :
    Stage writeBytes s₀ r future
      (run (step writeBytes) s (cut.map fun p => .streamRead p.1 p.2 false)) := by
  induction cut generalizing s with
  | nil => exact h
  | cons p cut ih =>
    rw [flatMap_cons, append_assoc] at h
    have hstep : step writeBytes s (.streamRead p.1 p.2 false) =
        onStreamRead writeBytes s p.1 p.2 false := by
      simp [step, h.alive h₀]
    rcases h.read hr hsmall h₀ p.2 false with hnext | ⟨heof, -⟩
    · rw [map_cons, run_cons, hstep]
      exact ih hnext
    · cases heof

end Stage

/-- Nothing comes behind a failure. -/
theorem Failed.close_step {s₀ : HttpStream} {future : Bytes} (h : Failed writeBytes s₀ r future s) :
    Settled writeBytes s₀ r future (run (step writeBytes) s [.streamClose none]).channel.sent := by
  have hstep : (run (step writeBytes) s [.streamClose none]).channel = s.channel := by
    have hclose : run (step writeBytes) s [.streamClose none] = s.onStreamClose none := by
      simp [step, h.alive]
    rw [hclose]
    unfold onStreamClose
    dsimp only
    rw [h.state]
    split <;> rfl
  refine ⟨fun hfuture => ?_, fun _ _ => ?_⟩
  · have hless := h.future
    rw [hfuture] at hless
    simp at hless
  · rw [hstep]
    exact h.broken

/-! ### Before the response -/

/-- What holds as long as no response is relayed. -/
structure Unanswered (s : HttpStream) : Prop where
  channelOpen : s.channel.Open
  noDone : s.channel.sentDone = false
  emitted : s.channel.emittedClose = false

/-- Whether no response is relayed yet. -/
def Early (s : HttpStream) : Prop := s.state = .bufferRequest ∨ s.state = .relayRequest

/-- What an event does to a stream for which no response is relayed. -/
def Keeps (s s' : HttpStream) : Prop := s'.Early → s.Early ∧ (s.Unanswered → s'.Unanswered)

namespace Keeps

variable {s' : HttpStream}

theorem past (h : s'.state = .relayData ∨ s'.state = .finished) : Keeps s s' := by
  rintro (hearly | hearly) <;> rw [hearly] at h <;> simp at h

/-- Only fields that do not matter change. -/
theorem of_eq (hstate : s'.state = s.state) (hchan : s'.channel = s.channel) : Keeps s s' :=
  fun hearly => ⟨by unfold Early at hearly ⊢; rwa [hstate] at hearly, fun h =>
    ⟨hchan ▸ h.channelOpen, hchan ▸ h.noDone, hchan ▸ h.emitted⟩⟩

theorem trans {t : HttpStream} (h : Keeps s s') (ht : Keeps s' t) : Keeps s t :=
  fun hearly => ⟨(h (ht hearly).1).1, fun hs => (ht hearly).2 ((h (ht hearly).1).2 hs)⟩

/-- The channel changes, and is still open. -/
theorem of_open (hstate : s'.state = s.state) (h : s.Unanswered → s'.Unanswered) : Keeps s s' :=
  fun hearly => ⟨by unfold Early at hearly ⊢; rwa [hstate] at hearly, h⟩

end Keeps

namespace Keeps

theorem parseTransferEncoding (s : HttpStream) (headers : Headers) :
    Keeps s (s.parseTransferEncoding headers).1 := by
  unfold HttpStream.parseTransferEncoding
  split
  · exact of_eq rfl rfl
  split
  · exact past (.inr rfl)
  · exact of_eq rfl rfl

theorem parseContentLength (s : HttpStream) (status : Nat) (headers : Headers) :
    Keeps s (s.parseContentLength status headers).1 := by
  unfold HttpStream.parseContentLength
  split
  · exact of_eq rfl rfl
  split
  · exact of_eq rfl rfl
  dsimp only
  split
  · exact past (.inr rfl)
  split
  · exact past (.inr rfl)
  · exact of_eq rfl rfl

theorem relayHeaders (writeBytes : JsonObject → Bytes) (s : HttpStream) (beyond : Bytes) :
    Keeps s (relayHeaders writeBytes s beyond).1 := by
  unfold HttpStream.relayHeaders
  split
  · exact of_eq rfl rfl
  · exact of_eq rfl rfl
  · exact past (.inr rfl)
  rename_i offset line _
  split
  · exact of_eq rfl rfl
  · exact past (.inr rfl)
  rename_i offset2 headers _
  have hcode := parseTransferEncoding s headers
  split
  · rename_i s₁ heq
    rw [heq] at hcode
    exact hcode
  rename_i s₁ heq
  rw [heq] at hcode
  have hlen := hcode.trans (parseContentLength s₁ line.status headers)
  split
  · rename_i s₂ heq
    rw [heq] at hlen
    exact hlen
  rename_i s₂ heq
  rw [heq] at hlen
  refine hlen.trans (of_open (state_relayResponse _ _) fun h => ?_)
  dsimp only
  rw [relayResponse_eq]
  · exact ⟨h.channelOpen.sent _, h.noDone, h.emitted⟩
  · exact h.channelOpen

theorem onStreamRead (writeBytes : JsonObject → Bytes) (s : HttpStream) (data : Bytes)
    (beyond : Nat → Bytes) (endOfData : Bool) :
    Keeps s (onStreamRead writeBytes s data beyond endOfData) := by
  unfold HttpStream.onStreamRead
  split
  · dsimp only
    split
    · split
      · exact of_eq rfl rfl
      · exact past (.inr rfl)
    · have hread : Keeps s { s with buffer := s.buffer ++ data } := of_eq rfl rfl
      have hhead := hread.trans (relayHeaders writeBytes _ (beyond 0))
      split
      · rename_i s' heq
        rw [heq] at hhead
        split
        · exact hhead
        · exact past (state_relayLoop beyond _ (.inl rfl))
      rename_i s' heq
      rw [heq] at hhead
      split
      · exact past (.inr rfl)
      · exact hhead
    · rename_i hstate
      exact past (state_relayLoop beyond _ (.inl hstate))
    · exact of_eq rfl rfl
  · exact of_eq rfl rfl

section

variable (s : HttpStream)

theorem onStreamClose (problem : Option String) :
    Keeps s (s.onStreamClose problem) := by
  unfold HttpStream.onStreamClose
  split
  · dsimp only
    split
    · exact of_eq rfl rfl
    split
    · exact past (.inr (state_close _ _))
    split
    · exact past (.inr (state_close _ _))
    · exact past (.inr rfl)
  · exact of_eq rfl rfl

theorem done : Keeps s s.done := by
  unfold HttpStream.done
  split
  · rename_i hstate
    unfold sendHttpRequest
    split
    · exact past (.inr rfl)
    · exact fun _ => ⟨.inl hstate, fun h => ⟨h.channelOpen, h.noDone, h.emitted⟩⟩
  · exact of_eq rfl rfl

theorem deliver (m : Incoming) : Keeps s (s.deliver m) := by
  cases m with
  | recv payload =>
    unfold HttpStream.deliver processRecv
    dsimp only
    split
    · split
      · exact past (.inr rfl)
      · exact of_eq rfl rfl
    · exact of_eq rfl rfl
  | control command options =>
    unfold HttpStream.deliver processControl
    dsimp only
    split
    · split
      · exact past (.inr (state_close _ _))
      split
      · split
        · exact (past (.inr rfl)).trans (done _)
        have hmark : Keeps s { s with channel := { s.channel with receivedDone := true } } :=
          of_open rfl fun h => ⟨⟨h.channelOpen.sentClose, h.channelOpen.transport,
            h.channelOpen.noBuffer, h.channelOpen.noTimeout, h.channelOpen.noProblem⟩, h.noDone,
            h.emitted⟩
        exact hmark.trans (done _)
      · exact of_eq rfl rfl
    · exact of_eq rfl rfl

theorem realPrepare (client : Option Connectable)
    (parsed : Except (String × String) Connectable) (checkout : Option Bytes) :
    Keeps s (s.realPrepare client parsed checkout) := by
  unfold HttpStream.realPrepare
  dsimp only
  split
  · exact past (.inr rfl)
  split
  · exact past (.inr rfl)
  split
  · exact past (.inr rfl)
  refine of_open (by split <;> rfl) fun h => ?_
  have hopen := h.channelOpen
  split
  · exact ⟨{ hopen with },
      h.noDone, h.emitted⟩
  · exact ⟨hopen, h.noDone, h.emitted⟩

theorem prepare (client : Option Connectable)
    (parsed : Except (String × String) Connectable) (checkout : Option Bytes) :
    Keeps s (s.prepare client parsed checkout) := by
  unfold HttpStream.prepare
  split
  · exact of_eq rfl rfl
  dsimp only
  split
  · rename_i hemit
    exact of_open rfl fun h => by simp [h.emitted] at hemit
  split
  · exact past (.inr rfl)
  rename_i hstill
  have hparent : Keeps s { s with channel := (
      { s.channel with prepareTag := false, prepared := true } : Channel).realPrepare true } := by
    refine of_open rfl fun h => ?_
    obtain ⟨binaryOk, heq⟩ := realPrepare_open (by simpa using hstill)
    have hopen := h.channelOpen
    rw [heq]
    exact ⟨{ hopen with },
      h.noDone, h.emitted⟩
  exact hparent.trans (realPrepare _ client parsed checkout)

end

/-- **An event.** -/
theorem step (writeBytes : JsonObject → Bytes) (s : HttpStream) (e : Event) :
    Keeps s (HttpStream.step writeBytes s e) := by
  unfold HttpStream.step
  split
  · exact of_eq rfl rfl
  cases e with
  | prepare client parsed checkout => exact prepare s client parsed checkout
  | streamOpen =>
    dsimp only [onStreamOpen]
    split
    · exact of_open rfl fun h => ⟨⟨h.channelOpen.sentClose, h.channelOpen.transport,
        h.channelOpen.noBuffer, h.channelOpen.noTimeout, h.channelOpen.noProblem⟩, h.noDone,
        h.emitted⟩
    · exact of_eq rfl rfl
  | thawed =>
    dsimp only
    split
    · rename_i message m rest outer _
      have hpopped : Keeps s { s with
          channel := { s.channel with readying := (message, rest) :: outer } } :=
        of_open rfl fun h => ⟨⟨h.channelOpen.sentClose, h.channelOpen.transport,
          h.channelOpen.noBuffer, h.channelOpen.noTimeout, h.channelOpen.noProblem⟩, h.noDone,
          h.emitted⟩
      exact hpopped.trans (deliver _ m)
    · exact of_eq rfl rfl
  | readyDone =>
    refine of_open rfl fun h => ?_
    dsimp only [Channel.step]
    split
    · rw [control_eq _ (by decide) (by decide)]
      exact ⟨⟨h.channelOpen.sentClose, h.channelOpen.transport, h.channelOpen.noBuffer,
        h.channelOpen.noTimeout, h.channelOpen.noProblem⟩, h.noDone, h.emitted⟩
    · exact h
  | incoming m =>
    dsimp only
    split
    · exact of_open rfl fun h => ⟨⟨h.channelOpen.sentClose, h.channelOpen.transport,
        h.channelOpen.noBuffer, h.channelOpen.noTimeout, h.channelOpen.noProblem⟩, h.noDone,
        h.emitted⟩
    · exact deliver s m
  | streamRead data beyond endOfData => exact onStreamRead writeBytes s data beyond endOfData
  | streamClose problem => exact onStreamClose s problem
  | rejectedCert pemData =>
    dsimp only [onRejectedCert]
    split
    · refine of_open rfl fun h => ⟨⟨h.channelOpen.sentClose, h.channelOpen.transport,
        h.channelOpen.noBuffer, h.channelOpen.noTimeout, ?_⟩, h.noDone, h.emitted⟩
      exact (JsonObject.getMember_setMember_ne (by decide) _).trans h.channelOpen.noProblem
    · exact of_eq rfl rfl
  | close problem => exact past (.inr (state_close s problem))
  | timeout source =>
    refine of_open rfl fun h => ?_
    dsimp only [Channel.step]
    split
    · have hflush (c : Channel) (hnone : c.outBuffer = none) : c.flushBuffer = c := by
        simp [Channel.flushBuffer, hnone]
      rw [hflush _ (by exact h.channelOpen.noBuffer)]
      exact ⟨⟨h.channelOpen.sentClose, h.channelOpen.transport, h.channelOpen.noBuffer,
        h.channelOpen.noTimeout, h.channelOpen.noProblem⟩, h.noDone, h.emitted⟩
    · exact h
  | transportClosed problem =>
    dsimp only [onTransportClosed]
    split
    · split
      · rename_i hemit
        exact of_open rfl fun h => by simp [h.emitted] at hemit
      · exact past (.inr (state_close _ _))
    · exact of_eq rfl rfl
  | dispose =>
    dsimp only [dispose]
    split
    · rename_i hemit
      exact of_open rfl fun h => by simp [h.emitted] at hemit
    · exact past (.inr rfl)

end Keeps

/-- As long as no response is relayed, the channel is open. -/
theorem run_unanswered (writeBytes : JsonObject → Bytes) (id : String) (options : JsonObject)
    (es : List Event) (hearly : (run (step writeBytes) (new id options) es).Early) :
    (run (step writeBytes) (new id options) es).Unanswered := by
  have hok : ∀ (s : HttpStream) (es : List Event), RunOk (step writeBytes) (fun _ _ => True) s es := by
    intro s es
    induction es generalizing s with
    | nil => trivial
    | cons e es ih => exact ⟨trivial, ih _⟩
  have hnew : (new id options).Unanswered := ⟨⟨rfl, rfl, rfl, rfl, rfl⟩, rfl, rfl⟩
  exact run_invariant (fun s => s.Early → s.Unanswered)
    (fun s e h _ hearly => ((Keeps.step writeBytes s e hearly).2 (h (Keeps.step writeBytes s e hearly).1)))
    (fun _ => hnew) (hok _ es) hearly

/-! ### Responses -/

variable (cut : List (Bytes × (Nat → Bytes)))

/-- The reads of a response, the last of them with the end of the input if there is one, and the
    close of the stream. -/
def readEvents (last : Option (Bytes × (Nat → Bytes))) :
    List Event :=
  cut.map (fun p => .streamRead p.1 p.2 false) ++
    (last.toList.map (fun p => .streamRead p.1 p.2 true) ++ [.streamClose none])

/-- The bytes that are read. -/
def readBytes (last : Option (Bytes × (Nat → Bytes))) : Bytes :=
  cut.flatMap Prod.fst ++ last.toList.flatMap Prod.fst

/-- What goes out on the channel for a response of which `bytes` were read: the response, its body,
    "done" and "close" if that is all of it; and if it breaks off before its end is told, a part of
    that, and "close" with a problem. -/
structure Relayed (writeBytes : JsonObject → Bytes) (r : HttpResponse) (bytes : Bytes)
    (s s' : HttpStream) : Prop where
  whole : bytes = r.text → ∃ wire, IsResponse writeBytes s r wire ∧
    Delivered (s.channel.sent ++ [wire]) r.body.data s'.channel.sent
  broken : ∀ missing, missing ≠ [] → bytes ++ missing = r.required →
    Broken s.channel.sent (IsResponse writeBytes s r) r.body.data s'.channel.sent

/-- A stream whose request went out relays the response. -/
theorem Asked.relayed (hasked : Asked s) (hr : r.Ok) (hsmall : r.Small)
    (cut : List (Bytes × (Nat → Bytes))) (last : Option (Bytes × (Nat → Bytes))) :
    Relayed writeBytes r (readBytes cut last) s
      (run (step writeBytes) s (readEvents cut last)) := by
  -- the whole text, with what was not read behind what was
  have hrun : ∀ future, readBytes cut last ++ future = r.text →
      Settled writeBytes s r future (run (step writeBytes) s (readEvents cut last)).channel.sent := by
    intro future htext
    have hhead : r.head ≠ [] := by simp [HttpResponse.head, crlf]
    have hstart : Stage writeBytes s r (cut.flatMap Prod.fst ++
        (last.toList.flatMap Prod.fst ++ future)) { s with buffer := s.buffer } := by
      have hnone : s.buffer ++ r.head = r.head := by rw [hasked.buffer, nil_append]
      refine .head hnone hhead ?_
      rw [hasked.buffer, nil_append, ← append_assoc]
      exact htext
    have hreads := Stage.reads hr hsmall hasked cut hstart
    rw [readEvents, run_append, run_append]
    cases last with
    | none => exact Stage.close_step hasked hreads
    | some p =>
      generalize run (step writeBytes) s (cut.map fun p => .streamRead p.1 p.2 false) = s₁ at hreads ⊢
      have hstep : step writeBytes s₁ (.streamRead p.1 p.2 true) =
          onStreamRead writeBytes s₁ p.1 p.2 true := by
        simp [step, hreads.alive hasked]
      rw [Option.toList_some, flatMap_cons, flatMap_nil, append_nil] at hreads
      rcases hreads.read hr hsmall hasked p.2 true with hlast | ⟨-, hfail⟩
      · rw [← hstep] at hlast
        exact Stage.close_step hasked hlast
      · rw [← hstep] at hfail
        exact hfail.close_step
  constructor
  · intro hall
    exact (hrun [] (by rw [append_nil, hall])).1 rfl
  intro missing hmiss htext
  unfold HttpResponse.required at htext
  by_cases hfram : r.body.framed
  · rw [if_pos hfram] at htext
    exact (hrun missing htext).2 hmiss (.inl hfram)
  rw [if_neg hfram] at htext
  have hall : readBytes cut last ++ (missing ++ r.body.text) = r.text := by
    rw [← append_assoc, htext]
    rfl
  have hpos := length_pos_iff.mpr hmiss
  refine (hrun _ hall).2 (append_ne_nil_of_left_ne_nil hmiss _) (.inr ?_)
  rw [length_append]
  omega

/-- **A response is relayed however it is cut into reads.** -/
theorem run_response_relayed (writeBytes : JsonObject → Bytes) (id : String) (options : JsonObject)
    (before : List Event) (r : HttpResponse) (hr : r.Ok) (hsmall : r.Small)
    (cut : List (Bytes × (Nat → Bytes))) (last : Option (Bytes × (Nat → Bytes))) :
    let s := run (step writeBytes) (new id options) before
    s.state = .relayRequest → s.buffer = [] → s.stream → s.aborted = false →
      s.channel.binaryOk →
      Relayed writeBytes r (readBytes cut last) s
        (run (step writeBytes) s (readEvents cut last)) := by
  intro s hstate hbuffer hstream halive hbinary
  have hearly := run_unanswered writeBytes id options before (.inr hstate)
  exact Asked.relayed ⟨hstate, hbuffer, hstream, halive, hbinary, hearly.channelOpen, hearly.noDone⟩
    hr hsmall cut last

/-- A response in chunks. -/
def greeting : HttpResponse where
  code := ascii "200"
  reason := ascii "OK"
  fields := [⟨ascii "Transfer-Encoding", ascii " chunked"⟩]
  body := .chunked [⟨ascii "2", ascii "hi"⟩] ⟨ascii "0", []⟩

/-- Its bytes, cut in a name and in the end of a line. -/
def greetingCut : List (Bytes × (Nat → Bytes)) :=
  [(ascii "HTTP/1.1 200 OK\r\nTransfer-Enc", fun _ => []),
    (ascii "oding: chunked\r\n\r\n2\r", fun _ => []), (ascii "\nhi\r\n0\r\n\r\n", fun _ => [])]

/-- The stream when the request is out. -/
def getStream : HttpStream := run (step fun _ => []) (new "4" getOptions) getEvents

theorem ok_greeting : greeting.Ok where
  code := by decide
  digits := all_eq_true.mp (by decide)
  final := by decide
  bodily := by decide
  reason := by decide
  fields := by decide
  lengths := by decide
  framed := by
    show greeting.values "Transfer-Encoding" = [ascii "chunked"]
    decide
  body := ⟨by
    intro c hc
    obtain rfl := mem_singleton.mp hc
    exact ⟨⟨by decide, all_eq_true.mp (by decide), by decide⟩, by decide⟩,
      ⟨by decide, all_eq_true.mp (by decide), by decide⟩, rfl⟩

theorem run_response_relayed_greeting :
    greeting.Ok ∧ greeting.Small ∧ readBytes greetingCut none = greeting.text ∧
      Relayed (fun _ => []) greeting (readBytes greetingCut none) getStream
        (run (step fun _ => []) getStream (readEvents greetingCut none)) := by
  have hsmall : greeting.Small := by
    refine ⟨fun c hc => ?_, by decide⟩
    obtain rfl := mem_singleton.mp hc
    decide
  exact ⟨ok_greeting, hsmall, by decide, run_response_relayed _ _ _ _ greeting ok_greeting hsmall
    greetingCut none (by decide) (by decide) (by decide)
    (by decide) (by decide)⟩

/-! ### Too large for `gssize` -/

/-- A response with a chunk that is said to have 2 ^ 63 bytes. -/
def hugeChunk (data : Bytes) : HttpResponse where
  code := ascii "200"
  reason := ascii "OK"
  fields := [⟨ascii "Transfer-Encoding", ascii " chunked"⟩]
  body := .chunked [⟨ascii "8000000000000000", data⟩] ⟨ascii "0", []⟩

/-- A response with as many bytes by its `Content-Length`. -/
def hugeLength (data : Bytes) : HttpResponse where
  code := ascii "200"
  reason := ascii "OK"
  fields := [⟨ascii "Content-Length", ascii " 9223372036854775808"⟩]
  body := .sized data

/-- The first read of the former, which has the size. -/
def hugeChunkRead : Bytes :=
  ascii "HTTP/1.1 200 OK\r\nTransfer-Encoding: chunked\r\n\r\n8000000000000000\r\n"

/-- The only read of the latter. -/
def hugeLengthRead : Bytes :=
  ascii "HTTP/1.1 200 OK\r\nContent-Length: 9223372036854775808\r\n\r\n"

variable {data : Bytes}

theorem ok_hugeChunk (hsize : data.length = 2 ^ 63) : (hugeChunk data).Ok where
  code := (by decide : (ascii "200").length = 3)
  digits := all_eq_true.mp (by decide : (ascii "200").all isDigit)
  final := (by decide : 200 ≤ digitsValue 0 (ascii "200"))
  bodily := (by decide : ¬ Bodiless (digitsValue 0 (ascii "200")))
  reason := (by decide : OneLine (ascii "OK"))
  fields := (by decide : ∀ f ∈ [Lib.Field.mk (ascii "Transfer-Encoding") (ascii " chunked")], f.Ok)
  lengths := by
    have hnone : (hugeChunk data).values "Content-Length" = [] := by
      show valuesOf (ascii "Content-Length") ([Lib.Field.mk (ascii "Transfer-Encoding")
        (ascii " chunked")].map Field.trimmed) = []
      decide
    rw [hnone]
    simp
  framed := by
    show valuesOf (ascii "Transfer-Encoding") ([Lib.Field.mk (ascii "Transfer-Encoding")
      (ascii " chunked")].map Field.trimmed) = [ascii "chunked"]
    decide
  body := by
    refine ⟨fun c hc => ?_, ⟨by decide, all_eq_true.mp (by decide), by decide⟩, rfl⟩
    obtain rfl := mem_singleton.mp hc
    refine ⟨⟨(by decide : ascii "8000000000000000" ≠ []), ?_, ?_⟩, ?_⟩
    · exact all_eq_true.mp (by decide : (ascii "8000000000000000").all fun b => (hexValue? b).isSome)
    · exact (by decide : hexDigitsValue 0 (ascii "8000000000000000") = 2 ^ 63).trans hsize.symm
    · rintro rfl
      exact nomatch hsize

theorem ok_hugeLength (hsize : data.length = 2 ^ 63) : (hugeLength data).Ok := by
  have hvalues : (hugeLength data).values "Content-Length" = [ascii "9223372036854775808"] := by
    show valuesOf (ascii "Content-Length") ([Lib.Field.mk (ascii "Content-Length")
      (ascii " 9223372036854775808")].map Field.trimmed) = [ascii "9223372036854775808"]
    decide
  refine ⟨(by decide : (ascii "200").length = 3), all_eq_true.mp (by decide : (ascii "200").all isDigit),
    (by decide : 200 ≤ digitsValue 0 (ascii "200")),
    (by decide : ¬ Bodiless (digitsValue 0 (ascii "200"))), (by decide : OneLine (ascii "OK")),
    (by decide : ∀ f ∈ [Lib.Field.mk (ascii "Content-Length") (ascii " 9223372036854775808")], f.Ok),
    ?_, ⟨?_, ?_, ?_⟩, trivial⟩
  · rw [hvalues]
    decide +kernel
  · show valuesOf (ascii "Transfer-Encoding") ([Lib.Field.mk (ascii "Content-Length")
      (ascii " 9223372036854775808")].map Field.trimmed) = []
    decide
  · rw [hvalues]
    decide
  · rw [hvalues, hsize]
    decide

/-- What was sent for a response that was delivered has a "done". -/
theorem any_isDone_of_delivered {before sent : List Wire}
    (h : Delivered before data sent) : sent.any Wire.isDone := by
  obtain ⟨payloads, done, close, rfl, -, -⟩ := h
  simp [Wire.isDone]

/-- What was sent for a response that broke off has none. -/
theorem Broken.any_isDone {before sent : List Wire} {isResponse : Wire → Prop}
    (h : Broken before isResponse data sent) (hbef : before.any Wire.isDone = false)
    (hresp : ∀ wire, isResponse wire → wire.isDone = false) :
    sent.any Wire.isDone = false := by
  obtain ⟨shown, payloads, close, rfl, hshown, -, -⟩ := h
  have hpayloads : (payloads.map Wire.payload).any Wire.isDone = false := by
    simp [any_map, Function.comp_def, Wire.isDone]
  have hclose : [Wire.control "close" close].any Wire.isDone = false := by simp [Wire.isDone]
  rw [any_append, any_append, any_append, hbef, hpayloads, hclose]
  rcases hshown with ⟨rfl, -⟩ | ⟨wire, hwire, rfl⟩
  · rfl
  · rw [any_cons, hresp wire hwire]
    rfl

/-- A finished stream reads on without a message. -/
theorem channel_read_finished (h : s.state = .finished) (data : Bytes)
    (beyond : Nat → Bytes) (endOfData : Bool) :
    (step writeBytes s (.streamRead data beyond endOfData)).channel = s.channel ∧
      (step writeBytes s (.streamRead data beyond endOfData)).state = .finished := by
  unfold step
  split
  · exact ⟨rfl, h⟩
  dsimp only [onStreamRead]
  split
  · rw [h]
    exact ⟨rfl, rfl⟩
  · exact ⟨rfl, h⟩

theorem channel_close_finished (h : s.state = .finished) :
    (step writeBytes s (.streamClose none)).channel = s.channel := by
  unfold step
  split
  · rfl
  · dsimp only [onStreamClose]
    rw [h]
    split <;> rfl

/-- The reads of `hugeChunk`. -/
def hugeChunkCut (data : Bytes) : List (Bytes × (Nat → Bytes)) :=
  [(hugeChunkRead, fun _ => []), (data ++ ascii "\r\n0\r\n\r\n", fun _ => [])]

/-- A chunk of 2 ^ 63 bytes is refused when its size has been read. -/
theorem not_delivered_hugeChunk (data before : Bytes) (sent : List Wire) :
    ¬ Delivered sent before
      (run (step fun _ => []) getStream (readEvents (hugeChunkCut data) none)).channel.sent := by
  intro h
  have hstate : (step (fun _ => []) getStream
      (.streamRead hugeChunkRead (fun _ => []) false)).state = .finished := by decide +kernel
  have hdone : (step (fun _ => []) getStream
      (.streamRead hugeChunkRead (fun _ => []) false)).channel.sent.any Wire.isDone = false := by
    decide +kernel
  have hread := @channel_read_finished (fun _ => []) _ hstate
    (data ++ ascii "\r\n0\r\n\r\n") (fun _ => []) false
  have hsent := any_isDone_of_delivered h
  simp only [readEvents, hugeChunkCut, map_cons, map_nil, Option.toList_none,
    nil_append, cons_append, run_cons, run_nil] at hsent
  rw [channel_close_finished hread.2, hread.1, hdone] at hsent
  cases hsent

/-- **Larger than `G_MAXSSIZE`.** A chunk of that size is refused, so its response is not delivered;
    a `Content-Length` of that size is refused, but the response is then relayed up to the close of
    the stream, with a "done", as if it had no framing. -/
theorem not_relayed_huge :
    ((hugeChunk (replicate (2 ^ 63) 0)).Ok ∧
      readBytes (hugeChunkCut (replicate (2 ^ 63) 0)) none =
        (hugeChunk (replicate (2 ^ 63) 0)).text ∧
      ¬ Relayed (fun _ => []) (hugeChunk (replicate (2 ^ 63) 0))
        (readBytes (hugeChunkCut (replicate (2 ^ 63) 0)) none) getStream
        (run (step fun _ => []) getStream
          (readEvents (hugeChunkCut (replicate (2 ^ 63) 0)) none))) ∧
    ((hugeLength (replicate (2 ^ 63) 0)).Ok ∧
      ¬ Relayed (fun _ => []) (hugeLength (replicate (2 ^ 63) 0))
        (readBytes [(hugeLengthRead, fun _ => [])] none) getStream
        (run (step fun _ => []) getStream (readEvents [(hugeLengthRead, fun _ => [])] none))) := by
  have hsize : (replicate (2 ^ 63) (0 : UInt8)).length = 2 ^ 63 := length_replicate
  generalize replicate (2 ^ 63) (0 : UInt8) = data at hsize
  have htext : readBytes (hugeChunkCut data) none = (hugeChunk data).text := by
    have hhead : hugeChunkRead = (hugeChunk []).head ++ (ascii "8000000000000000" ++ crlf) := by decide
    have hlast : ascii "\r\n0\r\n\r\n" = crlf ++ (ascii "0" ++ (crlf ++ ([] ++ crlf))) := by decide
    simp only [readBytes, hugeChunkCut, hhead, hlast]
    simp only [HttpResponse.text, hugeChunk, ResponseBody.text, Chunk.text, flatMap_cons,
      flatMap_nil, Option.toList_none, append_nil, append_assoc, HttpResponse.head]
  refine ⟨⟨ok_hugeChunk hsize, htext, fun h => ?_⟩, ⟨ok_hugeLength hsize, fun h => ?_⟩⟩
  · obtain ⟨wire, -, hdelivered⟩ := h.whole htext
    exact not_delivered_hugeChunk _ _ _ hdelivered
  have hne : data ≠ [] := by
    rintro rfl
    cases hsize
  have hbytes : readBytes [(hugeLengthRead, fun _ => [])] none ++ data =
      (hugeLength data).required := by
    have hhead : hugeLengthRead = (hugeLength []).head := by decide
    simp only [readBytes, hhead]
    simp [HttpResponse.required, HttpResponse.text, hugeLength, ResponseBody.text,
      ResponseBody.framed, HttpResponse.head]
  have hnone := (h.broken data hne hbytes).any_isDone (by decide) (by
    rintro wire ⟨reason, rfl⟩
    unfold responseWire
    dsimp only
    split <;> rfl)
  have hdone : (run (step fun _ => []) getStream
      (readEvents [(hugeLengthRead, fun _ => [])] none)).channel.sent.any Wire.isDone = true := by
    decide +kernel
  rw [hdone] at hnone
  cases hnone

end HttpStream

end Cockpit
