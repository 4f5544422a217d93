import Cockpit.Bridge.HttpStreamResponse

namespace Cockpit

open Lib List Channel

/-!
# HTTP responses without a body

Where the body of a response ends is decided by two of its headers and the status 204; the method
of the request and the other statuses whose responses have no body are not looked at.

* `HttpStream.relayHeaders_bad` — a head that is bad;
* `HttpStream.ends_at_header_iff` — which responses end with their head.
-/

namespace Channel

/-! ### What was sent stays sent -/

theorem sent_kept_realClose (c : Channel) (problem : Option String) :
    c.sent <+: (c.realClose problem).sent := by
  rcases c.realClose_cases problem with ⟨-, heq⟩ | ⟨-, -, hsent, -⟩ | ⟨-, -, -, -, message, hsent⟩
  · simp [heq]
  · simp [hsent]
  · rw [hsent, append_assoc]
    exact prefix_append _ _

theorem Passed.sent_kept {c c' : Channel} (h : Passed c c') : c.sent <+: c'.sent := by
  obtain ⟨ms, hsent, -⟩ := h.sent
  rw [hsent]
  exact prefix_append _ _

end Channel

namespace HttpStream

variable {writeBytes : JsonObject → Bytes} {s : HttpStream}

theorem sent_kept_protocolError (s : HttpStream) (message : String) :
    s.channel.sent <+: (s.protocolError message).channel.sent :=
  -- the message of the problem does not matter
  sent_kept_realClose
    { s.channel with
      closeOptions := some _, recvSig := false, controlSig := false, closeSig := false,
      emittedClose := true } (some "protocol-error")

theorem sent_kept_close (hstate : s.state = .relayData) :
    s.channel.sent <+: (s.close none).channel.sent := by
  rw [close_relayed hstate]
  have hdone := (Channel.Passed.control (s.channel.close none false)
    (show "done" ≠ "close" by decide) none true).sent_kept
  exact hdone.trans (sent_kept_realClose _ _)

theorem sent_kept_relayData (s : HttpStream) (data : Bytes) :
    s.channel.sent <+: (s.relayData data).channel.sent := by
  unfold relayData
  split
  · exact (Channel.Passed.send _ _ _).sent_kept
  dsimp only
  generalize s.channel = c
  induction blocks data generalizing c with
  | nil => exact prefix_rfl
  | cons block rest ih => exact (Channel.Passed.send _ _ _).sent_kept.trans (ih _)

theorem sent_kept_relay (hstate : s.state = .relayData) (beyond : Bytes) :
    s.channel.sent <+: (s.relay beyond).1.channel.sent := by
  have hclose : ∀ s' : HttpStream, s'.state = .relayData → s'.channel = s.channel →
      s.channel.sent <+: (s'.close none).channel.sent := by
    intro s' hs' hchan
    rw [← hchan]
    exact sent_kept_close hs'
  have hdata : ∀ (s' : HttpStream) (data : Bytes), s'.channel = s.channel →
      s.channel.sent <+: (s'.relayData data).channel.sent := by
    intro s' data hchan
    rw [← hchan]
    exact sent_kept_relayData s' data
  unfold relay
  split
  · unfold relayChunked
    dsimp only
    split
    · exact prefix_rfl
    split
    · exact prefix_rfl
    split
    · exact sent_kept_protocolError s _
    split
    · exact sent_kept_protocolError s _
    split
    · exact prefix_rfl
    split
    · exact sent_kept_protocolError s _
    split
    · exact hclose _ hstate rfl
    · exact hdata _ _ rfl
  split
  · unfold relayLength
    dsimp only
    split
    · exact hclose _ hstate rfl
    split
    · exact prefix_rfl
    · exact hdata _ _ rfl
  unfold relayAll
  split
  · exact prefix_rfl
  · exact hdata _ _ rfl

variable (beyond : Nat → Bytes)

theorem sent_kept_relayLoop (n : Nat) (s : HttpStream) :
    s.channel.sent <+: (relayLoop beyond n s).channel.sent := by
  induction n generalizing s with
  | zero => exact prefix_rfl
  | succ n ih =>
    unfold relayLoop
    split
    · rename_i hstate
      have hturn := sent_kept_relay hstate (beyond n)
      split
      · rename_i s' hs
        rw [hs] at hturn
        exact hturn.trans (ih s')
      · rename_i s' hs
        rw [hs] at hturn
        exact hturn
    · exact prefix_rfl

/-! ### What a body takes from the input -/

/-- **A turn that relays a body** waits, fails or takes something from the input. -/
theorem relay_body_cases (h : s.responseChunked ∨ s.responseLength ≠ 0) (beyond : Bytes) :
    s.relay beyond = (s, false) ∨ (∃ message, s.relay beyond = (s.protocolError message, true)) ∨
      (s.relay beyond).1.buffer.length < s.buffer.length := by
  unfold relay
  split
  · unfold relayChunked
    dsimp only
    split
    · exact .inl rfl
    -- from here on there is a byte at least
    rename_i hmem
    have hpos : 0 < s.buffer.length := length_pos_of_mem (Classical.not_not.mp hmem)
    split
    · exact .inl rfl
    split
    · exact .inr (.inl ⟨_, rfl⟩)
    split
    · exact .inr (.inl ⟨_, rfl⟩)
    split
    · exact .inl rfl
    split
    · exact .inr (.inl ⟨_, rfl⟩)
    split
    · refine .inr (.inr ?_)
      rw [(close_spec _ _).2, length_drop]
      omega
    · refine .inr (.inr ?_)
      rw [buffer_relayData, length_drop]
      omega
  rename_i hchunk
  have hlen : s.responseLength ≠ 0 := h.resolve_left hchunk
  split
  · unfold relayLength
    dsimp only
    split
    · rename_i hzero
      exact absurd hzero hlen
    split
    · exact .inl rfl
    rename_i hbuf
    have hpos := length_pos_iff.mpr hbuf
    refine .inr (.inr ?_)
    rw [buffer_relayData, length_drop]
    omega
  unfold relayAll
  split
  · exact .inl rfl
  rename_i hbuf
  refine .inr (.inr ?_)
  rw [buffer_relayData]
  exact length_pos_iff.mpr hbuf

theorem buffer_relay_le (s : HttpStream) (beyond : Bytes) :
    (s.relay beyond).1.buffer.length ≤ s.buffer.length := by
  by_cases h : s.responseChunked ∨ s.responseLength ≠ 0
  · rcases relay_body_cases h beyond with heq | ⟨message, heq⟩ | hless
    · rw [heq]
    · rw [heq]
      exact Nat.le_refl _
    · exact Nat.le_of_lt hless
  -- there is nothing to take
  push Not at h
  have heq : s.relay beyond = (({ s with framed := true } : HttpStream).close none, true) := by
    simp [relay, relayLength, h.1, h.2]
  rw [heq, (close_spec _ _).2]

theorem buffer_relayLoop_le (n : Nat) (s : HttpStream) :
    (relayLoop beyond n s).buffer.length ≤ s.buffer.length := by
  induction n generalizing s with
  | zero => exact Nat.le_refl _
  | succ n ih =>
    have hturn := buffer_relay_le s (beyond n)
    unfold relayLoop
    split
    · split
      · rename_i s' hs
        rw [hs] at hturn
        exact (ih s').trans hturn
      · rename_i s' hs
        rw [hs] at hturn
        exact hturn
    · exact Nat.le_refl _

theorem relayLoop_over (n : Nat) (h : s.state ≠ .relayData) :
    relayLoop beyond n s = s := by
  cases n with
  | zero => rfl
  | succ n => exact if_neg h

/-! ### The head of a response -/

/-- A head that can be read and is bad: the channel fails before there is a response on it. -/
theorem relayHeaders_bad {beyond : Bytes} {offset offset2 : Nat} {line : StatusLine}
    {headers : Headers} (hline : parseStatusLine s.buffer beyond = some (.item offset line))
    (hheads : parseHeaders (s.buffer.drop offset) = .item offset2 headers)
    (hbad : badHead s.buffer beyond) :
    ∃ (s' : HttpStream) (message : String), s'.channel = s.channel ∧ s'.aborted = s.aborted ∧
      relayHeaders writeBytes s beyond = (s'.protocolError message, true) := by
  have hcode : (∃ message, s.parseTransferEncoding headers = (s.protocolError message, false)) ∨
      ((∀ coding, lookupHeader headers "Transfer-Encoding" = some coding →
        coding.bytes = ascii "chunked") ∧
        s.parseTransferEncoding headers =
          ({ s with responseChunked := (lookupHeader headers "Transfer-Encoding").isSome }, true)) := by
    by_cases h : ∀ coding, lookupHeader headers "Transfer-Encoding" = some coding →
        coding.bytes = ascii "chunked"
    · exact .inr ⟨h, parseTransferEncoding_eq h⟩
    push Not at h
    obtain ⟨coding, hsome, hne⟩ := h
    refine .inl
      ⟨": received unsupported Transfer-Encoding in HTTP response: " ++ coding.text, ?_⟩
    simp [parseTransferEncoding, hsome, hne]
  unfold relayHeaders
  rw [hline]
  dsimp only
  rw [hheads]
  dsimp only
  rcases hcode with ⟨message, heq⟩ | ⟨hchunk, heq⟩
  · rw [heq]
    exact ⟨s, message, rfl, rfl, rfl⟩
  rw [heq]
  dsimp only
  -- it is the length that is bad
  have hlen : ∃ length, line.status ≠ 204 ∧ lookupHeader headers "Content-Length" = some length ∧
      ((WebServer.strtoull length).2 ≠ [] ∨ maxSsize < (WebServer.strtoull length).1) := by
    simp only [badHead, hline, hheads, Bool.or_eq_true] at hbad
    rcases hbad with hbad | hbad
    · cases hsome : lookupHeader headers "Transfer-Encoding" with
      | none => simp [hsome] at hbad
      | some coding => simp [hsome, hchunk coding hsome] at hbad
    by_cases hstat : line.status = 204
    · simp [hstat] at hbad
    · cases hsome : lookupHeader headers "Content-Length" with
      | none => simp [hsome] at hbad
      | some length => exact ⟨length, hstat, rfl, by simpa [hsome, hstat] using hbad⟩
  obtain ⟨length, hstat, hsome, hbad⟩ := hlen
  have hparse : ∀ s' : HttpStream, ∃ message,
      s'.parseContentLength line.status headers = (s'.protocolError message, false) := by
    intro s'
    unfold parseContentLength
    rw [if_neg hstat, hsome]
    dsimp only
    split
    · exact ⟨_, rfl⟩
    · rename_i hend
      rw [if_pos (hbad.resolve_left hend)]
      exact ⟨_, rfl⟩
  obtain ⟨message, hparse⟩ := hparse
    { s with responseChunked := (lookupHeader headers "Transfer-Encoding").isSome }
  rw [hparse]
  exact ⟨{ s with responseChunked := (lookupHeader headers "Transfer-Encoding").isSome }, message,
    rfl, rfl, rfl⟩

/-! ### Which responses end with their head -/

/-- Whether a response has no body: it answers a `HEAD`, or has a status without one. -/
def NoBody (s : HttpStream) (line : StatusLine) : Prop :=
  requestField s.channel.openOptions "method" = .ok (cstr "HEAD") ∨ Bodiless line.status

/-- The response is relayed, with "done" and a "close" without problem behind it, `rest` is what is
    left of the input, and a stream that is kept alive is handed back. -/
structure EndsAtHeader (writeBytes : JsonObject → Bytes) (s : HttpStream) (line : StatusLine)
    (headers : Headers) (rest : Bytes) (s' : HttpStream) : Prop where
  state : s'.state = .finished
  sent : ∃ done close, s'.channel.sent = s.channel.sent ++
      [responseWire writeBytes s line headers, .control "done" done, .control "close" close] ∧
    close.getMember "problem" = none
  buffer : s'.buffer = rest
  stream : s'.stream = !parseKeepAlive line.version headers
  checkins : s'.checkins = s.checkins + (parseKeepAlive line.version headers).toNat

/-- A head that leaves no body: no coding, and no length. -/
def EmptyByHead (line : StatusLine) (headers : Headers) : Prop :=
  lookupHeader headers "Transfer-Encoding" = none ∧ (line.status = 204 ∨
      ∃ length, lookupHeader headers "Content-Length" = some length ∧
        WebServer.strtoull length = (0, []))

theorem emptyByHead_iff {beyond : Bytes} {offset offset2 : Nat} {line : StatusLine}
    {headers : Headers} (hline : parseStatusLine s.buffer beyond = some (.item offset line))
    (hheads : parseHeaders (s.buffer.drop offset) = .item offset2 headers) :
    EmptyByHead line headers ↔ badHead s.buffer beyond = false ∧
      (lookupHeader headers "Transfer-Encoding").isSome = false ∧
        contentLength line.status headers = 0 := by
  constructor
  · rintro ⟨hcode, hlen⟩
    refine ⟨?_, by rw [hcode]; rfl, ?_⟩
    · rcases hlen with hstat | ⟨length, hsome, hzero⟩
      · simp [badHead, hline, hheads, hcode, hstat]
      · simp [badHead, hline, hheads, hcode, hsome, hzero]
    · rcases hlen with hstat | ⟨length, hsome, hzero⟩
      · simp [contentLength, hstat]
      · simp [contentLength, hsome, hzero]
  rintro ⟨hok, hcode, hlen⟩
  refine ⟨by simpa using hcode, ?_⟩
  by_cases hstat : line.status = 204
  · exact .inl hstat
  right
  cases hsome : lookupHeader headers "Content-Length" with
  | none => simp [contentLength, hstat, hsome] at hlen
  | some length =>
    obtain ⟨hend, -⟩ := (badHead_item hok hline hheads).2 hstat length hsome
    have hzero : (WebServer.strtoull length).1 = 0 := by
      simpa [contentLength, hstat, hsome] using hlen
    exact ⟨length, rfl, Prod.ext hzero hend⟩

/-- The read with which the head is there. -/
theorem onStreamRead_head (hstate : s.state = .relayRequest) (hstream : s.stream)
    (data : Bytes) (beyond : Nat → Bytes) (endOfData : Bool) {s' : HttpStream}
    (h : relayHeaders writeBytes { s with buffer := s.buffer ++ data } (beyond 0) = (s', true))
    (halive : s'.aborted = false) :
    onStreamRead writeBytes s data beyond endOfData = (s'.setState .relayData).relayBody beyond := by
  rw [onStreamRead_relayRequest hstream hstate, h]
  exact if_neg (by simp [halive])

/-- Nothing is relayed, and the stream ends. -/
theorem relayBody_empty (hstate : s.state = .relayData) (hchunk : s.responseChunked = false)
    (hlen : s.responseLength = 0) (beyond : Nat → Bytes) :
    s.relayBody beyond = ({ s with framed := true } : HttpStream).close none := by
  have hturn : s.relay (beyond (s.buffer.length + 1)) =
      (({ s with framed := true } : HttpStream).close none, true) := by
    simp [relay, relayLength, hchunk, hlen]
  rw [relayBody, relayLoop, if_pos hstate, hturn]
  exact relayLoop_over beyond _ (by simp [state_close])

/-- A body is waited for, or something else than a response with nothing behind it. -/
theorem relayBody_body (hstate : s.state = .relayData) (hopen : s.channel.Open)
    (h : s.responseChunked ∨ s.responseLength ≠ 0) (beyond : Nat → Bytes) :
    (s.relayBody beyond).state = .relayData ∨ (s.relayBody beyond).buffer ≠ s.buffer ∨
      ∃ close, (s.relayBody beyond).channel.sent = s.channel.sent ++ [.control "close" close] := by
  rw [relayBody, relayLoop, if_pos hstate]
  rcases relay_body_cases h (beyond (s.buffer.length + 1)) with heq | ⟨message, heq⟩ | hless
  · rw [heq]
    exact .inl hstate
  · rw [heq]
    dsimp only
    rw [relayLoop_over beyond _ (show (s.protocolError message).state ≠ .relayData from nofun)]
    obtain ⟨close, hclose, -⟩ := hopen.fail "protocol-error" (s.name ++ message)
    exact .inr (.inr ⟨close, hclose⟩)
  -- what was taken does not come back
  refine .inr (.inl fun heq => ?_)
  rcases hs : s.relay (beyond (s.buffer.length + 1)) with ⟨s', more⟩
  rw [hs] at heq hless
  cases more with
  | false =>
    dsimp only at heq hless
    rw [heq] at hless
    exact absurd hless (Nat.lt_irrefl _)
  | true =>
    have hle := buffer_relayLoop_le beyond (s.buffer.length + 1) s'
    dsimp only at heq hless
    rw [heq] at hle
    omega

/-- **A read that completes a head** ends the response if the head leaves no body, and not
    otherwise. -/
theorem endsAtHeader_read_iff (hstate : s.state = .relayRequest) (hstream : s.stream)
    (halive : s.aborted = false) (hopen : s.channel.Open) (hdone : s.channel.sentDone = false)
    (data : Bytes) (beyond : Nat → Bytes) (endOfData : Bool) {offset offset2 : Nat}
    {line : StatusLine} {headers : Headers}
    (hline : parseStatusLine (s.buffer ++ data) (beyond 0) = some (.item offset line))
    (hheads : parseHeaders ((s.buffer ++ data).drop offset) = .item offset2 headers) :
    EndsAtHeader writeBytes s line headers ((s.buffer ++ data).drop (offset + offset2))
        (onStreamRead writeBytes s data beyond endOfData) ↔ EmptyByHead line headers := by
  set whole : HttpStream := { s with buffer := s.buffer ++ data } with hwhole
  rw [@emptyByHead_iff whole (beyond 0) offset offset2 line headers hline hheads]
  by_cases hbad : badHead whole.buffer (beyond 0)
  · -- the channel is closed with a problem, whatever comes behind it
    refine iff_of_false ?_ fun h => by rw [h.1] at hbad; cases hbad
    obtain ⟨s', message, hchan, haborted, heq⟩ :=
      @relayHeaders_bad writeBytes whole (beyond 0) offset offset2 line headers hline hheads hbad
    rw [onStreamRead_head hstate hstream data beyond endOfData heq (haborted.trans halive)]
    intro h
    obtain ⟨close, hclose, -⟩ := hopen.fail "protocol-error" (s'.name ++ message)
    obtain ⟨done, close', hsent, -⟩ := h.sent
    have hprefix := sent_kept_relayLoop beyond
      (((s'.protocolError message).setState .relayData).buffer.length + 2)
      ((s'.protocolError message).setState .relayData)
    have hfail : ((s'.protocolError message).setState .relayData).channel.sent =
        s.channel.sent ++ [.control "close" close] := by
      rw [← hclose, ← show whole.channel = s.channel from rfl, ← hchan]
      rfl
    rw [← relayBody, hsent, hfail, prefix_append_right_inj, prefix_cons_iff] at hprefix
    rcases hprefix with hnil | ⟨rest, hcons, -⟩
    · cases hnil
    have hwire : responseWire writeBytes s line headers = .control "close" close :=
      (List.cons.inj hcons).1.symm
    unfold responseWire at hwire
    dsimp only at hwire
    split at hwire
    · cases hwire
    · simp at hwire
  have hok : badHead whole.buffer (beyond 0) = false := Bool.eq_false_iff.mpr hbad
  obtain ⟨hcode, hlen⟩ := badHead_item hok hline hheads
  have heq := @relayHeaders_item writeBytes whole hopen (beyond 0) offset offset2 line headers
    hline hheads hcode hlen
  rw [onStreamRead_head hstate hstream data beyond endOfData heq halive]
  set t : HttpStream := (withResponse writeBytes whole line headers (offset + offset2)).setState
    .relayData with ht
  have htOpen : t.channel.Open := hopen.sent _
  by_cases hempty : (lookupHeader headers "Transfer-Encoding").isSome = false ∧
      contentLength line.status headers = 0
  · refine iff_of_true ?_ ⟨hok, hempty⟩
    rw [relayBody_empty rfl hempty.1 hempty.2, close_relayed rfl]
    have hclos : ({ t with framed := true } : HttpStream).channel.close none false |>.Open :=
      { htOpen with }
    obtain ⟨done, hdone, hopen'⟩ := hclos.done hdone
    obtain ⟨close, hclose, hprob⟩ := hopen'.realClose none
    refine ⟨rfl, ⟨done, close, ?_, hprob⟩, rfl, ?_, rfl⟩
    · rw [hclose, hdone]
      simp [ht, withResponse, setState, Channel.close, hwhole, responseWire, shownHeaders]
    · show (s.stream && !parseKeepAlive line.version headers) = _
      rw [hstream, Bool.true_and]
  refine iff_of_false ?_ fun h => hempty h.2
  have hbody : t.responseChunked ∨ t.responseLength ≠ 0 := by
    by_contra hnone
    push Not at hnone
    exact hempty ⟨Bool.eq_false_iff.mpr hnone.1, hnone.2⟩
  intro h
  rcases relayBody_body rfl htOpen hbody beyond with hwait | hbuf | ⟨close, hsent⟩
  · rw [h.state] at hwait
    cases hwait
  · exact hbuf h.buffer
  -- a "done" is missing
  obtain ⟨done, close', hsent', -⟩ := h.sent
  rw [hsent'] at hsent
  have hlen := congrArg List.length hsent
  simp [ht, withResponse, setState, hwhole] at hlen

/-- **Which responses without a body end with their head**: those whose head leaves no body, and of
    these neither the method of the request nor the status is a reason but 204. -/
theorem ends_at_header_iff (writeBytes : JsonObject → Bytes) (id : String) (options : JsonObject)
    (before : List Event) (data : Bytes) (beyond : Nat → Bytes) (endOfData : Bool)
    {offset offset2 : Nat} {line : StatusLine} {headers : Headers} :
    let s := run (step writeBytes) (new id options) before
    s.state = .relayRequest → s.stream → s.aborted = false →
      parseStatusLine (s.buffer ++ data) (beyond 0) = some (.item offset line) →
      parseHeaders ((s.buffer ++ data).drop offset) = .item offset2 headers →
      ((NoBody s line →
          EndsAtHeader writeBytes s line headers ((s.buffer ++ data).drop (offset + offset2))
            (step writeBytes s (.streamRead data beyond endOfData))) ↔
        (NoBody s line → EmptyByHead line headers)) := by
  intro s hstate hstream halive hline hheaders
  have hearly := run_unanswered writeBytes id options before (.inr hstate)
  have hstep : step writeBytes s (.streamRead data beyond endOfData) =
      onStreamRead writeBytes s data beyond endOfData := by
    rw [step, if_neg (by rw [halive]; exact Bool.false_ne_true)]
  rw [hstep, endsAtHeader_read_iff hstate hstream halive hearly.channelOpen hearly.noDone data
    beyond endOfData hline hheaders]

/-- A head with a length. -/
def lengthHead (code length : Bytes) : Bytes :=
  statusText code (ascii "OK") ++ ([(⟨ascii "Content-Length", length⟩ : Field)].flatMap rawLine ++ crlf)

theorem parse_lengthHead {code length : Bytes} (hdigs : ∀ b ∈ code, isDigit b)
    (hcode : code.length = 3) (hpos : 0 < digitsValue 0 code)
    (hlen : (⟨ascii "Content-Length", length⟩ : Field).Ok) (rest beyond : Bytes) :
    ∃ offset offset2 line headers,
      parseStatusLine (lengthHead code length ++ rest) beyond = some (.item offset line) ∧
        parseHeaders ((lengthHead code length ++ rest).drop offset) = .item offset2 headers ∧
        line.status = digitsValue 0 code ∧
        headers = insertFields [] [⟨ascii "Content-Length", length⟩] ∧
        (lengthHead code length ++ rest).drop (offset + offset2) = rest := by
  have hassoc : lengthHead code length ++ rest = statusText code (ascii "OK") ++
      ([(⟨ascii "Content-Length", length⟩ : Field)].flatMap rawLine ++ (crlf ++ rest)) := by
    simp [lengthHead]
  obtain ⟨reason, hline⟩ := parseStatusLine_item hdigs hcode hpos
    (by decide : OneLine (ascii "OK"))
    ([(⟨ascii "Content-Length", length⟩ : Field)].flatMap rawLine ++ (crlf ++ rest)) beyond
  have hheads := @parseHeaders_fields [⟨ascii "Content-Length", length⟩]
    (by simpa using hlen) [] rest
  rw [← hassoc] at hline
  refine ⟨_, ([(⟨ascii "Content-Length", length⟩ : Field)].flatMap rawLine ++ crlf).length, _, _,
    hline, ?_, rfl, rfl, ?_⟩
  · rw [hassoc, drop_left]
    exact hheads
  · rw [hassoc, ← drop_drop, drop_left, ← append_assoc, drop_left]

/-- A response without content, and what comes behind it. -/
theorem ends_at_header_noContent :
    let s := run (step fun _ => []) (new "4" getOptions) getEvents
    ∃ line headers, NoBody s line ∧
      EndsAtHeader (fun _ => []) s line headers (ascii "HTTP") (step (fun _ => []) s
        (.streamRead (lengthHead (ascii "204") (ascii " 5") ++ ascii "HTTP") (fun _ => []) false)) := by
  intro s
  obtain ⟨offset, offset2, line, headers, hline, hheaders, hstatus, rfl, hdrop⟩ :=
    @parse_lengthHead (ascii "204") (ascii " 5") (all_eq_true.mp (by decide)) (by decide)
      (by decide) (by decide)
      (ascii "HTTP") []
  have hbuffer : s.buffer = [] := by decide
  have htext : s.buffer ++ (lengthHead (ascii "204") (ascii " 5") ++ ascii "HTTP") =
      lengthHead (ascii "204") (ascii " 5") ++ ascii "HTTP" := by
    rw [hbuffer, nil_append]
  rw [← htext] at hline hheaders hdrop
  have h204 : line.status = 204 := by rw [hstatus]; decide
  have hnone : lookupHeader (insertFields [] [(⟨ascii "Content-Length", ascii " 5"⟩ : Field)])
      "Transfer-Encoding" = none := by decide
  have hbody : NoBody s line := .inr (.inr (.inl h204))
  have hends := (ends_at_header_iff (fun _ => []) "4" getOptions getEvents
    (lengthHead (ascii "204") (ascii " 5") ++ ascii "HTTP") (fun _ => []) false
    (by decide) (by decide) (by decide) hline hheaders).mpr (fun _ => ⟨hnone, .inl h204⟩) hbody
  rw [hdrop] at hends
  exact ⟨line, _, hbody, hends⟩

/-- The options of a request for the head of something. -/
def headOptions : JsonObject :=
  [("payload", .string "http-stream2"), ("binary", .string "raw"), ("path", .string "/"),
    ("method", .string "HEAD")]

/-- What would be the body is waited for. -/
theorem head_waits :
    let s := run (step fun _ => []) (new "4" headOptions) getEvents
    ∃ offset offset2 line headers,
      parseStatusLine (s.buffer ++ lengthHead (ascii "200") (ascii " 2")) [] =
          some (.item offset line) ∧
        parseHeaders ((s.buffer ++ lengthHead (ascii "200") (ascii " 2")).drop offset) =
          .item offset2 headers ∧
        NoBody s line ∧
        ¬ EndsAtHeader (fun _ => []) s line headers [] (step (fun _ => []) s
          (.streamRead (lengthHead (ascii "200") (ascii " 2")) (fun _ => []) false)) := by
  intro s
  obtain ⟨offset, offset2, line, headers, hline, hheaders, hstatus, rfl, hdrop⟩ :=
    @parse_lengthHead (ascii "200") (ascii " 2") (all_eq_true.mp (by decide)) (by decide)
      (by decide) (by decide)
      [] []
  have hbuffer : s.buffer = [] := by decide
  have htext : s.buffer ++ lengthHead (ascii "200") (ascii " 2") =
      lengthHead (ascii "200") (ascii " 2") ++ [] := by
    rw [hbuffer, nil_append, append_nil]
  rw [← htext] at hline hheaders hdrop
  have hstate : s.state = .relayRequest := by decide
  have hearly := run_unanswered (fun _ => []) "4" headOptions getEvents (.inr hstate)
  have hends := @endsAtHeader_read_iff (fun _ => []) s hstate (by decide) (by decide)
    hearly.channelOpen hearly.noDone (lengthHead (ascii "200") (ascii " 2")) (fun _ => []) false
    offset offset2 line _ hline hheaders
  refine ⟨offset, offset2, line, _, hline, hheaders, .inl rfl, fun h => ?_⟩
  rw [hdrop] at hends
  -- the length is 2, and the status 200
  have hlength : (lookupHeader (insertFields [] [(⟨ascii "Content-Length", ascii " 2"⟩ : Field)])
      "Content-Length").map (fun length => (WebServer.strtoull length).1) = some 2 := by decide
  have hcode : digitsValue 0 (ascii "200") = 200 := by decide
  rcases (hends.mp h).2 with h204 | ⟨length, hsome, hzero⟩
  · rw [hstatus, hcode] at h204
    cases h204
  · rw [hsome, Option.map_some, hzero] at hlength
    cases hlength

end HttpStream

end Cockpit
