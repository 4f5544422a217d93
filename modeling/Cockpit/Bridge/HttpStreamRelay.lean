import Cockpit.Bridge.HttpStreamFinished

namespace Cockpit

open Lib List JsonObject

/-!
# What the loop in `on_stream_read` makes of a body

The three framings share the loop.  `HttpStream.Coding` says what is still to come on the
stream and which body it stands for; one turn of the loop takes a part of both, waits for more
input, or closes at the end.

* `HttpStream.Coding.relayLoop` — the loop;
* `HttpStream.relayLoop_ends` — the loop has turns enough.
-/

namespace Channel

/-- A channel that has not sent "close", with nothing held back. -/
structure Open (c : Channel) : Prop where
  sentClose : c.sentClose = false
  transport : c.transportClosed = false
  noBuffer : c.outBuffer = none
  noTimeout : c.bufferTimeout = 0
  noProblem : (c.closeOptions.getD []).getMember "problem" = none

/-- A control message about the channel. -/
def message (c : Channel) (command : String) (options : JsonObject) : JsonObject :=
  (options.setStringMember "command" command).setStringMember "channel" c.id

theorem control_eq (c : Channel) {command : String} (hne : command ≠ "close") (hdone : command ≠ "done")
    (options : Option JsonObject) :
    c.control command options true =
      { c with sent := c.sent ++ [.control command (message c command (options.getD []))] } := by
  simp [control, hne, hdone, message]

/-- The parent of a class has prepared the channel and left it open. -/
theorem realPrepare_open {c : Channel} (h : (c.realPrepare true).emittedClose = false) :
    ∃ binaryOk, c.realPrepare true = { c with binaryOk := binaryOk } := by
  have hclos {c' : Channel} (hclos : c.Closed c') : c'.emittedClose :=
    congrArg Prod.fst hclos.flags
  unfold realPrepare at h ⊢
  rcases ensureCapable_cases c with ⟨heq, hcap⟩ | ⟨hfail, hcap⟩
  · simp only [heq, hcap, Bool.not_true, Bool.false_eq_true, if_false] at h ⊢
    split at h
    · rw [hclos (.close c _)] at h
      cases h
    rename_i hbase
    rw [if_neg hbase]
    split at h
    · rw [hclos (.fail c _ _)] at h
      cases h
    · exact ⟨c.binaryOk, rfl⟩
    split at h
    · rename_i hraw
      exact ⟨true, if_pos hraw⟩
    · refine absurd ((hclos ?_).symm.trans h) (by decide)
      exact (Closed.fail { c with binaryOk := true } _ _).of_same rfl rfl
  · simp only [hcap, Bool.not_false, if_true] at h
    rw [hclos hfail] at h
    cases h

namespace Open

variable {c : Channel}

section

variable (h : c.Open)

include h

/-- Only what is on the wire changes. -/
theorem sent (ms : List Wire) : Open { c with sent := c.sent ++ ms } :=
  { h with }

/-- A payload goes out as it is, if it is trusted or the channel is binary. -/
theorem send (payload : Bytes) {trust : Bool}
    (hplain : trust ∨ c.binaryOk) :
    c.send payload trust = { c with sent := c.sent ++ [.payload payload] } := by
  have hkeep : c.holdsBack payload trust = false := by
    rcases hplain with rfl | hbin
    · simp [holdsBack, h.noBuffer]
    · simp [holdsBack, hbin]
  have hplain : (!(trust && c.outBuffer.isNone) && !c.binaryOk) = false := by
    rcases hplain with rfl | hbin
    · simp [h.noBuffer]
    · simp [hbin]
  rw [send_of_not_holdsBack hkeep, hplain, h.noBuffer]
  obtain ⟨-, -, hbuf, htime, -⟩ := h
  cases c
  simp only at hbuf htime
  simp [removeTimeout, hbuf, htime]

/-- The blocks of a long payload go out one after the other. -/
theorem send_blocks (hbin : c.binaryOk) (blocks : List Bytes) :
    blocks.foldl (fun c block => c.send block false) c =
      { c with sent := c.sent ++ blocks.map .payload } := by
  induction blocks generalizing c with
  | nil => simp
  | cons block blocks ih =>
    rw [foldl_cons, h.send block (.inr hbin), ih (h.sent _) hbin]
    simp

/-- The "done" behind the last payload. -/
theorem done (hdone : c.sentDone = false) : ∃ message : JsonObject,
    (c.control "done" none true).sent = c.sent ++ [.control "done" message] ∧
      (c.control "done" none true).Open := by
  refine ⟨message c "done" [], ?_, ?_⟩
  · simp [control, hdone, message]
  · simp only [control, hdone]
    exact { h with }

/-- The end of a channel: what was sent then, and what the "close" says of a problem. -/
theorem realClose (problem : Option String) :
    ∃ message : JsonObject, (c.realClose problem).sent = c.sent ++ [.control "close" message] ∧
      message.getMember "problem" = problem.map .string := by
  have hkeep (name value : String) (hne : name ≠ "problem") (object : JsonObject) :
      (object.setStringMember name value).getMember "problem" = object.getMember "problem" :=
    getMember_setMember_ne hne _
  have hbase := ((hkeep "channel" c.id (by decide) _).trans
    (hkeep "command" "close" (by decide) (c.closeOptions.getD []))).trans h.noProblem
  cases problem with
  | none =>
    refine ⟨_, ?_, hbase⟩
    simp [Channel.realClose, h.sentClose, h.transport, flushBuffer, h.noBuffer]
  | some problem =>
    refine ⟨_, ?_, getMember_setMember_self
      (((c.closeOptions.getD []).setStringMember "command" "close").setStringMember "channel" c.id)
      "problem" (.string problem)⟩
    simp [Channel.realClose, h.sentClose, h.transport, flushBuffer, h.noBuffer, setStringMember]

/-- A failure. -/
theorem fail (problem message : String) :
    ∃ options : JsonObject,
      (c.fail problem message true).sent = c.sent ++ [.control "close" options] ∧
        options.getMember "problem" = some (.string problem) := by
  have hclose : ∀ options : JsonObject, options.getMember "problem" = none →
      ({ c with closeOptions := some options, recvSig := false, controlSig := false, closeSig := false,
                emittedClose := true } : Channel).Open := fun options hnone =>
    { h with noProblem := hnone }
  unfold Channel.fail close
  dsimp only
  rw [if_pos rfl]
  refine (hclose _ ?_).realClose (some problem)
  split
  · exact h.noProblem
  · exact (getMember_setMember_ne (by decide) _).trans h.noProblem

end

end Open

end Channel

/-! ### Chunks -/

/-- A chunk: its size as it is written, and its data. -/
structure Chunk where
  size : Bytes
  data : Bytes

namespace Chunk

/-- A chunk as it is written. -/
def text (c : Chunk) : Bytes := c.size ++ (crlf ++ (c.data ++ crlf))

/-- The size is a hexadecimal numeral and says how long the data is. -/
structure Ok (c : Chunk) : Prop where
  ne_nil : c.size ≠ []
  digits : ∀ b ∈ c.size, (hexValue? b).isSome
  length : hexDigitsValue 0 c.size = c.data.length

theorem text_append (c : Chunk) (rest : Bytes) :
    c.text ++ rest = c.size ++ 13 :: 10 :: (c.data ++ (crlf ++ rest)) := by
  simp [text, crlf]

variable {c : Chunk}

/-- The size has no byte that ends a line. -/
theorem Ok.not_mem (h : c.Ok) : (13 : UInt8) ∉ c.size := by
  intro hb
  have hdigit := @NumeralBase.digit?_not_space .sixteen 13 (h.digits 13 hb)
  exact hdigit.2.2.2.2.2.2.1 rfl

theorem Ok.takeWhile (h : c.Ok) (rest : Bytes) :
    (c.size ++ 13 :: rest).takeWhile (· ≠ 13) = c.size := by
  rw [takeWhile_append_of_pos, takeWhile_cons_of_neg (by simp), append_nil]
  intro b hb
  exact decide_eq_true fun heq => h.not_mem (heq ▸ hb)

end Chunk

namespace HttpStream

variable {s : HttpStream} {c : Chunk} {rest : Bytes}

section

variable (h : c.Ok) (hsmall : c.data.length ≤ maxSsize)

include h hsmall

/-- The size of a chunk has come in as a line. -/
theorem relayChunked_line (hbuf : s.buffer = c.size ++ 13 :: 10 :: rest) (beyond : Bytes) :
    s.relayChunked beyond =
      if rest.length < c.data.length + 2 then (s, false)
      else if (rest.drop c.data.length).take 2 ≠ crlf then
        (s.protocolError ": received invalid HTTP chunk data", true)
      else if c.data.length = 0 then
        (({ s with buffer := rest.drop 2, framed := true } : HttpStream).close none, true)
      else
        (({ s with buffer := rest.drop (c.data.length + 2) } : HttpStream).relayData
          (rest.take c.data.length), true) := by
  have hpos : (s.buffer.takeWhile (· ≠ 13)).length = c.size.length := by
    rw [hbuf, h.takeWhile]
  have hmem : (13 : UInt8) ∈ s.buffer := by simp [hbuf]
  have hdrop : ∀ n, s.buffer.drop (c.size.length + (2 + n)) = rest.drop n := fun n => by
    rw [hbuf, ← drop_drop, drop_left, ← drop_drop]
    rfl
  have hsize : strtoull .sixteen (s.buffer ++ beyond) =
      (c.data.length, 13 :: 10 :: (rest ++ beyond)) := by
    have hvalue : NumeralBase.sixteen.value c.size = c.data.length := h.length
    have hmax : c.data.length ≤ 2 ^ 64 - 1 := le_trans hsmall (by decide)
    rw [hbuf, append_assoc, cons_append, strtoull_digits .sixteen h.ne_nil h.digits
      (by decide) (by decide), hvalue, Nat.min_eq_left hmax]
    rfl
  have hline : (s.buffer.drop (c.size.length + 1)).head? = some 10 := by
    rw [hbuf, ← drop_drop, drop_left]
    rfl
  have hend : c.size.length + (13 :: 10 :: (rest ++ beyond)).length = (s.buffer ++ beyond).length := by
    simp [hbuf]
  have hlen : s.buffer.length = c.size.length + 2 + rest.length := by
    simp [hbuf]
    omega
  unfold relayChunked
  rw [if_neg (not_not_intro hmem)]
  dsimp only
  rw [hpos, hsize, if_neg (by omega), if_neg (by simp only [hline, hend]; simp),
    if_neg (Nat.not_lt.mpr hsmall)]
  have hless : s.buffer.length < c.size.length + 2 + c.data.length + 2 ↔
      rest.length < c.data.length + 2 := by omega
  have htwo := hdrop 0
  simp only [Nat.add_assoc] at hless htwo ⊢
  simp only [hless, hdrop]
  simp only [Nat.add_zero, drop_zero] at htwo
  rw [htwo]

/-- **A part of a chunk waits.** -/
theorem relayChunked_more {missing : Bytes}
    (htext : s.buffer ++ missing = c.text) (hmiss : missing ≠ []) (beyond : Bytes) :
    s.relayChunked beyond = (s, false) := by
  have hnone (hmem : (13 : UInt8) ∉ s.buffer) : s.relayChunked beyond = (s, false) := by
    unfold relayChunked
    rw [if_pos hmem]
  have hwhole : s.buffer ++ missing = c.size ++ 13 :: 10 :: (c.data ++ crlf) := by
    simpa [Chunk.text, crlf] using htext
  rcases append_eq_append_iff.mp hwhole with ⟨more, hsize, -⟩ | ⟨line, hbuf, hline⟩
  · exact hnone fun hmem => h.not_mem (by rw [hsize]; exact mem_append_left _ hmem)
  rcases line with - | ⟨b, - | ⟨d, rest⟩⟩
  · rw [append_nil] at hbuf
    exact hnone (hbuf ▸ h.not_mem)
  · -- the line has no end yet
    obtain ⟨rfl, -⟩ := List.cons.inj hline
    have hmem : (13 : UInt8) ∈ s.buffer := by simp [hbuf]
    have hpos : (s.buffer.takeWhile (· ≠ 13)).length = c.size.length := by
      rw [hbuf, h.takeWhile]
    unfold relayChunked
    rw [if_neg (not_not_intro hmem)]
    dsimp only
    rw [hpos, if_pos (by simp [hbuf])]
  · simp only [cons_append, List.cons.injEq] at hline
    obtain ⟨rfl, rfl, hrest⟩ := hline
    have hlen := congrArg List.length hrest
    have hpos := length_pos_iff.mpr hmiss
    simp only [List.length_append, crlf, length_cons, length_nil] at hlen
    rw [relayChunked_line h hsmall hbuf, if_pos (by omega)]

/-- **A chunk with data is relayed**, whatever comes behind it. -/
theorem relayChunked_data
    (hdata : c.data ≠ []) (hbuf : s.buffer = c.text ++ rest) (beyond : Bytes) :
    s.relayChunked beyond = (({ s with buffer := rest } : HttpStream).relayData c.data, true) := by
  rw [c.text_append] at hbuf
  have hdrop : (c.data ++ (crlf ++ rest)).drop c.data.length = crlf ++ rest := drop_left
  have hskip : (c.data ++ (crlf ++ rest)).drop (c.data.length + 2) = rest := by
    rw [← drop_drop, hdrop]
    rfl
  have hpos : c.data.length ≠ 0 := fun hzero => hdata (length_eq_zero_iff.mp hzero)
  rw [relayChunked_line h hsmall hbuf, if_neg (by simp [crlf]), if_neg (by simp [crlf]),
    if_neg hpos, hskip, take_left]

end

/-- **The last chunk closes.** -/
theorem relayChunked_last (h : c.Ok) (hdata : c.data = [])
    (hbuf : s.buffer = c.text ++ rest) (beyond : Bytes) :
    s.relayChunked beyond =
      (({ s with buffer := rest, framed := true } : HttpStream).close none, true) := by
  rw [c.text_append, hdata, nil_append] at hbuf
  have hlen : c.data.length = 0 := by simp [hdata]
  rw [relayChunked_line h (by simp [hdata]) hbuf, hlen, if_neg (by simp [crlf]),
    if_neg (by simp [crlf]), if_pos rfl]
  rfl

/-! ### Payload -/

theorem flatten_blocks (data : Bytes) : (blocks data).flatten = data := by
  induction data using blocks.induct with
  | case1 => simp [blocks]
  | case2 data hne ih =>
    rw [blocks, if_neg hne, flatten_cons, ih]
    exact take_append_drop 4096 data

/-- On a channel that is open and binary, data goes out as it is, in one message or in blocks. -/
theorem relayData_eq (hopen : s.channel.Open) (hbin : s.channel.binaryOk) (data : Bytes) :
    ∃ parts : List Bytes, parts.flatten = data ∧ s.relayData data =
        { s with channel := { s.channel with sent := s.channel.sent ++ parts.map .payload } } := by
  unfold relayData
  split
  · exact ⟨[data], by simp, by rw [hopen.send data (.inr hbin)]; rfl⟩
  · exact ⟨blocks data, flatten_blocks data, by rw [hopen.send_blocks hbin]⟩

@[simp] theorem buffer_relayData (s : HttpStream) (data : Bytes) :
    (s.relayData data).buffer = s.buffer := by
  unfold relayData
  split <;> rfl

@[simp] theorem state_relayData (s : HttpStream) (data : Bytes) :
    (s.relayData data).state = s.state := by
  unfold relayData
  split <;> rfl

/-! ### Bodies -/

end HttpStream

/-- A body, with what its framing adds. -/
inductive ResponseBody where
  | chunked (chunks : List Chunk) (last : Chunk)
  | sized (data : Bytes)
  | untilClose (data : Bytes)

namespace ResponseBody

/-- What is framed. -/
def data : ResponseBody → Bytes
  | chunked chunks _ => chunks.flatMap Chunk.data
  | sized data => data
  | untilClose data => data

/-- The body as it is written. -/
def text : ResponseBody → Bytes
  | chunked chunks last => chunks.flatMap Chunk.text ++ last.text
  | sized data => data
  | untilClose data => data

/-- Every chunk but the last one has data. -/
def Ok : ResponseBody → Prop
  | chunked chunks last => (∀ c ∈ chunks, c.Ok ∧ c.data ≠ []) ∧ last.Ok ∧ last.data = []
  | sized _ => True
  | untilClose _ => True

/-- No chunk is longer than `G_MAXSSIZE`. -/
def Small : ResponseBody → Prop
  | chunked chunks _ => ∀ c ∈ chunks, c.data.length ≤ maxSsize
  | sized _ => True
  | untilClose _ => True

/-- Whether the framing tells where the body ends. -/
def framed : ResponseBody → Bool
  | chunked _ _ => true
  | sized _ => true
  | untilClose _ => false

/-- A stream that is about to read the body. -/
def Expected (s : HttpStream) : ResponseBody → Prop
  | chunked _ _ => s.responseChunked
  | sized data => s.responseChunked = false ∧ s.responseLength = data.length
  | untilClose _ => s.responseChunked = false ∧ s.responseLength = -1

end ResponseBody

/-- All of a body has been relayed, and the channel closed behind it. -/
def Delivered (before : List Wire) (data : Bytes) (sent : List Wire) : Prop :=
  ∃ (payloads : List Bytes) (done close : JsonObject),
    sent = before ++ payloads.map .payload ++ [.control "done" done, .control "close" close] ∧
      payloads.flatten = data ∧ close.getMember "problem" = none

namespace HttpStream

/-- A response is being relayed: `total` is what was passed on and what `body` still has, and the
    bytes of `body` are in the buffer and in the future. -/
structure Pending (before : List Wire) (total future : Bytes) (s : HttpStream)
    (body : ResponseBody) : Prop where
  state : s.state = .relayData
  stream : s.stream
  alive : s.aborted = false
  channelOpen : s.channel.Open
  noDone : s.channel.sentDone = false
  binary : s.channel.binaryOk
  sent : ∃ payloads : List Bytes, s.channel.sent = before ++ payloads.map .payload ∧
    payloads.flatten ++ body.data = total
  ok : body.Ok
  small : body.Small
  expected : body.Expected s
  text : s.buffer ++ future = body.text

/-- A response has been relayed. -/
structure Ended (before : List Wire) (total : Bytes) (s : HttpStream) : Prop where
  state : s.state = .finished
  alive : s.aborted = false
  sent : Delivered before total s.channel.sent

variable (beyond : Nat → Bytes)

namespace Pending

variable {before : List Wire} {total future : Bytes} {s : HttpStream} {body : ResponseBody}

section

variable (h : Pending before total future s body)

include h

variable {part rest : Bytes} {body' : ResponseBody}

/-- A part of the body is passed on. -/
theorem take (length : Int) (hdata : body.data = part ++ body'.data) (hok : body'.Ok)
    (hsmall : body'.Small)
    (hexp : body'.Expected { s with buffer := rest, responseLength := length })
    (htext : rest ++ future = body'.text) :
    Pending before total future
      (({ s with buffer := rest, responseLength := length } : HttpStream).relayData part) body' := by
  obtain ⟨parts, hparts, heq⟩ := relayData_eq
    (show ({ s with buffer := rest, responseLength := length } : HttpStream).channel.Open from
      h.channelOpen) h.binary part
  obtain ⟨payloads, hsent, htotal⟩ := h.sent
  rw [heq]
  refine ⟨h.state, h.stream, h.alive, h.channelOpen.sent _, h.noDone, h.binary, ?_, hok, hsmall, ?_, htext⟩
  · refine ⟨payloads ++ parts, ?_, ?_⟩
    · simp [hsent]
    · rw [flatten_append, hparts, append_assoc, ← hdata, htotal]
  cases body' <;> exact hexp

/-- The end of the body. -/
theorem close (hdata : body.data = []) (rest : Bytes)
    (framed : Bool) :
    Ended before total (({ s with buffer := rest, framed := framed } : HttpStream).close none) := by
  obtain ⟨payloads, hsent, htotal⟩ := h.sent
  rw [hdata, append_nil] at htotal
  have heq := close_relayed
    (show ({ s with buffer := rest, framed := framed } : HttpStream).state = .relayData from h.state)
  rw [heq]
  refine ⟨rfl, h.alive, ?_⟩
  have hclos : (s.channel.close none false).Open :=
    ⟨h.channelOpen.sentClose, h.channelOpen.transport, h.channelOpen.noBuffer,
      h.channelOpen.noTimeout, h.channelOpen.noProblem⟩
  obtain ⟨done, hdone, hopen⟩ := hclos.done h.noDone
  obtain ⟨close, hclose, hprob⟩ := hopen.realClose none
  refine ⟨payloads, done, close, ?_, htotal, hprob⟩
  show (((s.channel.close none false).control "done" none true).realClose none).sent = _
  rw [hclose, hdone]
  simp [Channel.close, hsent]

/-- Same stream, another part of its fields. -/
theorem take_same (hdata : body.data = part ++ body'.data) (hok : body'.Ok)
    (hsmall : body'.Small) (hexp : body'.Expected s) (htext : rest ++ future = body'.text) :
    Pending before total future (({ s with buffer := rest } : HttpStream).relayData part) body' := by
  refine h.take s.responseLength hdata hok hsmall ?_ htext
  cases body' <;> exact hexp

/-- **One turn of the loop** waits for more input, takes a part of the body, or closes behind
    it. -/
theorem relay (beyond : Bytes) :
    (s.relay beyond = (s, false) ∧ (future = [] → body = .untilClose [])) ∨
    (∃ s' body', s.relay beyond = (s', true) ∧ Pending before total future s' body' ∧
      body'.framed = body.framed ∧ s'.buffer.length < s.buffer.length) ∨
    (∃ s', s.relay beyond = (s', true) ∧ future = [] ∧ Ended before total s') := by
  have htext := h.text
  cases body with
  | chunked chunks last =>
    have hchunk : s.responseChunked := h.expected
    have hrelay : s.relay beyond = s.relayChunked beyond := by simp [HttpStream.relay, hchunk]
    obtain ⟨hchunks, hlast, hempty⟩ := h.ok
    rw [hrelay]
    cases chunks with
    | nil =>
      replace htext : s.buffer ++ future = last.text := htext
      by_cases hfuture : future = []
      · rw [hfuture, append_nil] at htext
        have hbuf : s.buffer = last.text ++ [] := by rw [htext, append_nil]
        exact .inr (.inr ⟨_, relayChunked_last hlast hempty hbuf beyond, hfuture,
          h.close rfl [] true⟩)
      · have hsmall : last.data.length ≤ maxSsize := by simp [hempty]
        exact .inl ⟨relayChunked_more hlast hsmall htext hfuture beyond, fun hnil =>
          absurd hnil hfuture⟩
    | cons c chunks =>
      obtain ⟨hc, hne⟩ := hchunks c mem_cons_self
      have hsmall := h.small c mem_cons_self
      replace htext : s.buffer ++ future = c.text ++ (chunks.flatMap Chunk.text ++ last.text) := by
        rw [htext]
        simp [ResponseBody.text]
      -- the chunk is there as a whole, or a part of it is missing
      have hcases : (∃ missing, missing ≠ [] ∧ s.buffer ++ missing = c.text ∧ future ≠ []) ∨
          ∃ rest, s.buffer = c.text ++ rest ∧
            rest ++ future = chunks.flatMap Chunk.text ++ last.text := by
        rcases append_eq_append_iff.mp htext with ⟨missing, hctext, hfuture⟩ | ⟨rest, hbuf, hrest⟩
        · by_cases hmiss : missing = []
          · subst hmiss
            exact .inr ⟨[], by rw [hctext]; simp, by simpa using hfuture⟩
          · refine .inl ⟨missing, hmiss, hctext.symm, ?_⟩
            rw [hfuture]
            exact append_ne_nil_of_left_ne_nil hmiss _
        · exact .inr ⟨rest, hbuf, hrest.symm⟩
      rcases hcases with ⟨missing, hmiss, hctext, hfuture⟩ | ⟨rest, hbuf, hrest⟩
      · exact .inl ⟨relayChunked_more hc hsmall hctext hmiss beyond, fun hnil =>
          absurd hnil hfuture⟩
      refine .inr (.inl ⟨_, .chunked chunks last,
        relayChunked_data hc hsmall hne hbuf beyond, ?_, rfl, ?_⟩)
      · refine h.take_same ?_ ?_ ?_ hchunk hrest
        · simp [ResponseBody.data]
        · exact ⟨fun d hd => hchunks d (mem_cons_of_mem c hd), hlast, hempty⟩
        · exact fun d hd => h.small d (mem_cons_of_mem c hd)
      rw [buffer_relayData, hbuf, List.length_append, Chunk.text]
      have hcrlf : 0 < crlf.length := by decide
      simp only [List.length_append]
      omega
  | sized data =>
    obtain ⟨hchunk, hlen⟩ := h.expected
    replace htext : s.buffer ++ future = data := htext
    have hrelay : s.relay beyond = s.relayLength := by simp [HttpStream.relay, hchunk, hlen]
    rw [hrelay]
    unfold relayLength
    by_cases hdata : data = []
    · have hnil := append_eq_nil_iff.mp (htext.trans hdata)
      rw [if_pos (by simp [hlen, hdata])]
      refine .inr (.inr ⟨_, rfl, hnil.2, ?_⟩)
      exact h.close hdata s.buffer true
    have hpos : s.responseLength ≠ 0 := by
      have := length_pos_iff.mpr hdata
      omega
    rw [if_neg hpos]
    by_cases hbuf : s.buffer = []
    · rw [if_pos hbuf]
      refine .inl ⟨rfl, fun hfuture => absurd ?_ hdata⟩
      rw [← htext, hbuf, hfuture]
      rfl
    have hblock : min s.buffer.length s.responseLength.toNat = s.buffer.length := by
      rw [hlen, ← htext, List.length_append]
      omega
    rw [if_neg hbuf]
    dsimp only
    rw [hblock, drop_length, take_length]
    refine .inr (.inl ⟨_, .sized future, rfl, ?_, rfl, ?_⟩)
    · refine h.take _ htext.symm trivial trivial ⟨hchunk, ?_⟩ rfl
      show s.responseLength - s.buffer.length = future.length
      rw [hlen, ← htext, List.length_append]
      omega
    · rw [buffer_relayData]
      exact length_pos_iff.mpr hbuf
  | untilClose data =>
    obtain ⟨hchunk, hlen⟩ := h.expected
    replace htext : s.buffer ++ future = data := htext
    have hrelay : s.relay beyond = s.relayAll := by simp [HttpStream.relay, hchunk, hlen]
    rw [hrelay]
    unfold relayAll
    by_cases hbuf : s.buffer = []
    · rw [if_pos hbuf]
      refine .inl ⟨rfl, fun hfuture => ?_⟩
      rw [← htext, hbuf, hfuture]
      rfl
    rw [if_neg hbuf]
    refine .inr (.inl ⟨_, .untilClose future, rfl, ?_, rfl, ?_⟩)
    · exact h.take_same htext.symm trivial trivial ⟨hchunk, hlen⟩ rfl
    · rw [buffer_relayData]
      exact length_pos_iff.mpr hbuf

end

/-- **The loop** takes from the buffer what it can, and closes behind the end. -/
theorem relayLoop {n : Nat} {s : HttpStream}
    (h : Pending before total future s body) (hn : s.buffer.length < n) :
    (∃ body', Pending before total future (HttpStream.relayLoop beyond n s) body' ∧
      body'.framed = body.framed ∧ (future = [] → body' = .untilClose [])) ∨
    (future = [] ∧ Ended before total (HttpStream.relayLoop beyond n s)) := by
  induction n generalizing s body with
  | zero => omega
  | succ n ih =>
    unfold HttpStream.relayLoop
    rw [if_pos h.state]
    rcases h.relay (beyond n) with ⟨heq, hwait⟩ | ⟨s', body', heq, hpend, hfram, hless⟩ |
      ⟨s', heq, hfuture, hended⟩
    · rw [heq]
      exact .inl ⟨body, h, rfl, hwait⟩
    · rw [heq, ← hfram]
      exact ih hpend (by omega)
    rw [heq]
    refine .inr ⟨hfuture, ?_⟩
    dsimp only
    cases n with
    | zero => exact hended
    | succ n =>
      unfold HttpStream.relayLoop
      rw [if_neg (by simp [hended.state])]
      exact hended

end Pending

/-! ### The turns of the loop -/

variable {s : HttpStream}

theorem close_spec (s : HttpStream) (problem : Option String) :
    (s.close problem).state = .finished ∧ (s.close problem).buffer = s.buffer := by
  cases problem with
  | some problem => exact ⟨rfl, rfl⟩
  | none =>
    cases hstate : s.state with
    | finished => rw [close_finished hstate]; exact ⟨hstate, rfl⟩
    | bufferRequest => rw [close_early (.inl hstate)]; exact ⟨rfl, rfl⟩
    | relayRequest => rw [close_early (.inr hstate)]; exact ⟨rfl, rfl⟩
    | relayData => rw [close_relayed hstate]; exact ⟨rfl, rfl⟩

theorem state_close (s : HttpStream) (problem : Option String) :
    (s.close problem).state = .finished :=
  (s.close_spec problem).1

/-- A turn goes on relaying, or ends it. -/
theorem state_relay (hstate : s.state = .relayData) (beyond : Bytes) :
    (s.relay beyond).1.state = .relayData ∨ (s.relay beyond).1.state = .finished := by
  unfold relay
  split
  · unfold relayChunked
    dsimp only
    split
    · exact .inl hstate
    split
    · exact .inl hstate
    split
    · exact .inr rfl
    split
    · exact .inr rfl
    split
    · exact .inl hstate
    split
    · exact .inr rfl
    split
    · exact .inr (state_close _ none)
    · exact .inl ((state_relayData _ _).trans hstate)
  split
  · unfold relayLength
    dsimp only
    split
    · exact .inr (state_close _ none)
    split
    · exact .inl hstate
    · exact .inl ((state_relayData _ _).trans hstate)
  unfold relayAll
  split
  · exact .inl hstate
  · exact .inl ((state_relayData _ _).trans hstate)

/-- The loop does not go back to an earlier state. -/
theorem state_relayLoop (n : Nat)
    (h : s.state = .relayData ∨ s.state = .finished) :
    (relayLoop beyond n s).state = .relayData ∨ (relayLoop beyond n s).state = .finished := by
  induction n generalizing s with
  | zero => exact h
  | succ n ih =>
    unfold relayLoop
    split
    · rename_i hstate
      have hturn := state_relay hstate (beyond n)
      split
      · rename_i s' hs
        rw [hs] at hturn
        exact ih hturn
      · rename_i s' hs
        rw [hs] at hturn
        exact hturn
    · exact h

/-- A turn that wants more input changes nothing; any other one takes from the buffer, or ends
    the relaying. -/
theorem relay_turn (s : HttpStream) (beyond : Bytes) :
    s.relay beyond = (s, false) ∨ ((s.relay beyond).2 ∧ ((s.relay beyond).1.state ≠ .relayData ∨
        (s.relay beyond).1.buffer.length < s.buffer.length)) := by
  have hclose (s : HttpStream) : (s.close none).state ≠ .relayData := by simp [state_close]
  unfold relay
  split
  · unfold relayChunked
    dsimp only
    split
    · exact .inl rfl
    split
    · exact .inl rfl
    split
    · exact .inr ⟨rfl, .inl (by simp [protocolError, fail, setState])⟩
    split
    · exact .inr ⟨rfl, .inl (by simp [protocolError, fail, setState])⟩
    split
    · exact .inl rfl
    split
    · exact .inr ⟨rfl, .inl (by simp [protocolError, fail, setState])⟩
    split
    · exact .inr ⟨rfl, .inl (hclose _)⟩
    refine .inr ⟨rfl, .inr ?_⟩
    rw [buffer_relayData]
    simp only [length_drop]
    omega
  split
  · unfold relayLength
    dsimp only
    split
    · exact .inr ⟨rfl, .inl (hclose _)⟩
    split
    · exact .inl rfl
    rename_i hbuf
    have hpos := length_pos_iff.mpr hbuf
    refine .inr ⟨rfl, .inr ?_⟩
    rw [buffer_relayData]
    simp only [length_drop]
    omega
  unfold relayAll
  split
  · exact .inl rfl
  · rename_i hbuf
    exact .inr ⟨rfl, .inr (by rw [buffer_relayData]; exact length_pos_iff.mpr hbuf)⟩

/-- **The loop has turns enough**: it stops because the relaying is over, or for want of
    input. -/
theorem relayLoop_ends {n : Nat} (hn : s.buffer.length + 1 < n) :
    (relayLoop beyond n s).state ≠ .relayData ∨
      ∃ bytes, (relayLoop beyond n s).relay bytes = (relayLoop beyond n s, false) := by
  induction n generalizing s with
  | zero => omega
  | succ n ih =>
    unfold relayLoop
    by_cases hstate : s.state = .relayData
    · rw [if_pos hstate]
      rcases relay_turn s (beyond n) with heq | ⟨hmore, hturn⟩
      · rw [heq]
        exact .inr ⟨_, heq⟩
      rcases hs : s.relay (beyond n) with ⟨s', more⟩
      rw [hs] at hmore hturn
      obtain rfl : more := hmore
      rcases hturn with hover | hless
      · cases n with
        | zero => omega
        | succ n =>
          dsimp only at hover ⊢
          unfold relayLoop
          rw [if_neg hover]
          exact .inl hover
      · exact ih (by dsimp only at hless; omega)
    · rw [if_neg hstate]
      exact .inl hstate

end HttpStream

end Cockpit
