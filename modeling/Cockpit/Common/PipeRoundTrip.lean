import Cockpit.Common.PipeTransport

namespace Cockpit

open Lib List Cockpit.Frame

/-!
# Messages survive the stream

What one `PipeTransport` writes, another one reads, however the bytes are cut into reads.

* `PipeTransport.Follows` — the reader does what `Framing.feed` does, read by read;
* `PipeTransport.stream_round_trip` — all messages of a whole stream arrive, those before a
  cut when it is cut short, and those before the first message that is too long.
-/

namespace PipeTransport

/-! ### The written bytes -/

/-- The length that `cockpit_pipe_transport_send` announces. -/
def totalLength (m : Message) : Nat := (m.1.map CStr.length).getD 0 + 1 + m.2.length

/-- One message on the stream. -/
def encode (m : Message) : Bytes := sendPrefix m.1 m.2 ++ m.2

variable (messages : List Message)

/-- The bytes a new transport has written after the messages were sent. -/
def written : Bytes :=
  (messages.foldl send (new "sender" false true false)).outQueue.flatten

/-- Writing an empty block is the same as not writing it. -/
theorem pipeWrite_flatten (t : PipeTransport) (h : t.pipeClosed = false) (data : Bytes) :
    (t.pipeWrite data).outQueue.flatten = t.outQueue.flatten ++ data ∧
      (t.pipeWrite data).pipeClosed = false ∧ (t.pipeWrite data).closed = t.closed := by
  unfold pipeWrite
  rw [h, if_neg Bool.false_ne_true]
  split
  · rename_i hlen
    rw [length_eq_zero_iff] at hlen
    simp [hlen, h]
  · simp

/-- Sending on an open transport queues the encoded messages. -/
theorem foldl_send_flatten (t : PipeTransport)
    (hclos : t.closed = false) (hpipe : t.pipeClosed = false) :
    (messages.foldl send t).outQueue.flatten =
      t.outQueue.flatten ++ (messages.map encode).flatten := by
  induction messages generalizing t with
  | nil => simp
  | cons m messages ih =>
    obtain ⟨hflat, hpipe', hcl'⟩ := pipeWrite_flatten t hpipe (sendPrefix m.1 m.2)
    obtain ⟨hflat', hpipe'', hclosed''⟩ := pipeWrite_flatten _ hpipe' m.2
    have hsend : t.send m = (t.pipeWrite (sendPrefix m.1 m.2)).pipeWrite m.2 := by
      rw [send, hclos, if_neg Bool.false_ne_true]
    rw [foldl_cons, hsend, ih _ (by rw [hclosed'', hcl', hclos]) hpipe'', hflat', hflat]
    simp [encode]

/-- **What is written is the encoded messages, one after another.** -/
theorem written_eq : written messages = (messages.map encode).flatten := by
  unfold written
  rw [foldl_send_flatten messages _ rfl rfl]
  rfl

/-- The stream of messages one after the other. -/
theorem written_append (ms ns : List Message) : written (ms ++ ns) = written ms ++ written ns := by
  simp [written_eq]

/-! ### Reading one message -/

/-- The messages that survive: a channel is not the empty string and holds no newline, and the
    length fits into eight digits. -/
structure Sendable (m : Message) : Prop where
  notEmpty : m.1 ≠ some CStr.empty
  noNewline : newline ∉ (m.1.getD CStr.empty).bytes
  fits : totalLength m ≤ 99999999

/-- The encoding is the announced length and as many bytes. -/
theorem encode_eq (m : Message) :
    encode m = decimal (totalLength m) ++ newline :: Frame.body m.1 m.2 ∧
      (Frame.body m.1 m.2).length = totalLength m := by
  obtain ⟨channel, payload⟩ := m
  constructor
  · simp [encode, sendPrefix, totalLength, Frame.body]
  · cases channel <;> simp [totalLength, Frame.body, CStr.length, CStr.empty] <;> omega

variable {m : Message}

/-- A message that survives is found at the front of the stream. -/
theorem scan_encode (h : Sendable m) (rest : Bytes) :
    framing.scan (encode m ++ rest) = .item (encode m).length (some m) := by
  obtain ⟨henc, hbody⟩ := encode_eq m
  have hparse : Frame.parse (encode m ++ rest) =
      .size (totalLength m) ((decimal (totalLength m)).length + 1) := by
    rw [henc, append_assoc, cons_append]
    have := h.fits
    exact parse_encoded (by unfold totalLength; omega) (by omega) _
  have hlen : (encode m).length = (decimal (totalLength m)).length + 1 + totalLength m := by
    rw [henc, List.length_append, length_cons, hbody]
    omega
  have hmsg : ((encode m ++ rest).drop ((decimal (totalLength m)).length + 1)).take
      (totalLength m) = Frame.body m.1 m.2 := by
    have hsplit : encode m ++ rest =
        (decimal (totalLength m) ++ [newline]) ++ (Frame.body m.1 m.2 ++ rest) := by
      rw [henc]
      simp
    rw [hsplit, drop_append_of_le_length (by simp), drop_eq_nil_of_le (by simp),
      nil_append, ← hbody, take_left]
  simp only [framing, scan, hparse]
  rw [if_neg (by rw [List.length_append]; omega), hmsg,
    parseFrame_body h.notEmpty h.noNewline, hlen]

/-- A message that is too long makes the scan fail. -/
theorem scan_too_long (h : 100000000 ≤ totalLength m) (rest : Bytes) :
    framing.scan (encode m ++ rest) = .fail := by
  have hparse : Frame.parse (encode m ++ rest) = .failure := by
    rw [(encode_eq m).1, append_assoc]
    exact parse_too_long h _
  simp only [framing, scan, hparse]

/-! ### Reading a stream -/

/-- A reader that has come as far as `s`: all items emitted; the rest buffered and the pipe
    open, or the pipe closed as the stream is invalid. -/
structure Follows (t : PipeTransport) (s : Drained UInt8 (Option Message)) : Prop where
  emitted : t.emitted = s.items.flatMap Option.toList
  reading : s.failed = false →
    t.input = s.rest ∧ t.inSource ∧ t.pipeClosed = false ∧ t.closed = false ∧
      t.problem = none
  failed : s.failed →
    t.inSource = false ∧ t.pipeClosed ∧ t.problem = some "protocol-error"

/-- A new transport has come nowhere. -/
theorem follows_new (name : String) (pid outSource errSource : Bool) :
    Follows (new name pid outSource errSource) (framing.drain []) := by
  have hscan : framing.scan [] = .more := rfl
  rw [framing.drain_of_more hscan]
  exact ⟨rfl, fun _ => ⟨rfl, rfl, rfl, rfl, rfl⟩, nofun⟩

variable {t : PipeTransport}

/-- `close_immediately` of an open pipe stops the input and keeps what was emitted. -/
theorem closeImmediately_open (h : t.pipeClosed = false) (problem : String) :
    (t.closeImmediately problem).emitted = t.emitted ∧
      (t.closeImmediately problem).inSource = false ∧
      (t.closeImmediately problem).pipeClosed ∧
      (t.closeImmediately problem).problem = some problem := by
  unfold closeImmediately
  rw [h, if_neg Bool.false_ne_true]
  dsimp only
  split <;> simp [onPipeClose]

variable {s : Drained UInt8 (Option Message)}

/-- One read. -/
theorem Follows.dispatchInput (h : Follows t s) {chunk : Bytes} (hne : chunk ≠ []) :
    Follows (t.dispatchInput chunk) (framing.feed s chunk) := by
  cases hf : s.failed with
  | true =>
    obtain ⟨hsrc, hclos, hprob⟩ := h.failed hf
    rw [PipeTransport.dispatchInput, hsrc, framing.feed_of_failed hf]
    exact h
  | false =>
    obtain ⟨hinput, hsrc, hpipe, hclos, hprob⟩ := h.reading hf
    have hread : t.dispatchInput chunk = (t.buffered chunk).readLoop := by
      simp [PipeTransport.dispatchInput, hsrc, hne, readFromPipe]
    have hbuf : (t.buffered chunk).input = s.rest ++ chunk := by rw [buffered, hinput]
    rw [hread, readLoop_eq (t.buffered chunk) hclos, hbuf, framing.feed_of_reading hf]
    cases hd : (framing.drain (s.rest ++ chunk)).failed with
    | true =>
      rw [if_pos rfl]
      obtain ⟨hemit, hsrc', hpipe', hproblem'⟩ := closeImmediately_open
        (t := (t.buffered chunk).drained (framing.drain (s.rest ++ chunk))) hpipe "protocol-error"
      refine ⟨?_, fun h => absurd h (by simp), fun _ => ⟨hsrc', hpipe', hproblem'⟩⟩
      rw [hemit]
      simp [drained, buffered, h.emitted]
    | false =>
      rw [if_neg Bool.false_ne_true]
      refine ⟨by simp [drained, buffered, h.emitted],
        fun _ => ⟨rfl, hsrc, hpipe, hclos, hprob⟩, fun h => by cases h⟩

/-- Any number of reads, none of them empty. -/
theorem Follows.reads (h : Follows t s) (chunks : List Bytes) (hne : ∀ chunk ∈ chunks, chunk ≠ []) :
    Follows (run step t (chunks.map .input)) (chunks.foldl framing.feed s) := by
  induction chunks generalizing t s with
  | nil => exact h
  | cons chunk chunks ih =>
    rw [map_cons, run_cons, foldl_cons]
    exact ih (h.dispatchInput (hne chunk mem_cons_self))
      fun c hc => hne c (mem_cons_of_mem _ hc)

variable {chunks : List Bytes}

/-- After the reads of a stream the reader has drained it. -/
theorem follows_stream (name : String) (pid outSource errSource : Bool)
    (hne : ∀ chunk ∈ chunks, chunk ≠ []) :
    let t := run step (new name pid outSource errSource) (chunks.map .input)
    t.emitted = (framing.drain chunks.flatten).items.flatMap Option.toList ∧
    ((framing.drain chunks.flatten).failed = false →
      t.input = (framing.drain chunks.flatten).rest ∧ t.inSource ∧ t.pipeClosed = false ∧
        t.closed = false ∧ t.problem = none) ∧
    ((framing.drain chunks.flatten).failed →
      t.pipeClosed ∧ t.problem = some "protocol-error") := by
  intro t
  have hf := (follows_new name pid outSource errSource).reads chunks hne
  obtain ⟨hitems, hfail, hrest⟩ := framing.feed_flatten chunks
  refine ⟨hitems ▸ hf.emitted, fun h => ?_, fun h => (hf.failed (hfail.trans h)).2⟩
  rw [← hrest h]
  exact hf.reading (hfail.trans h)

variable {messages : List Message}

/-- The stream of messages that survive, followed by other bytes. -/
theorem drain_written_append (h : ∀ m ∈ messages, Sendable m)
    (rest : Bytes) :
    framing.drain (written messages ++ rest) =
      ⟨messages.map some ++ (framing.drain rest).items, (framing.drain rest).rest,
        (framing.drain rest).failed⟩ := by
  rw [written_eq]
  exact framing.drain_encoded_append messages rest fun m hm zs => scan_encode (h m hm) zs

/-- Emitting found messages. -/
theorem flatMap_toList_map_some (messages : List Message) :
    (messages.map some).flatMap Option.toList = messages := by
  induction messages with
  | nil => rfl
  | cons m messages ih => rw [map_cons, flatMap_cons, ih]; rfl

/-! ### The end of data -/

/-- A place in a stream is inside a message or at a boundary. -/
theorem exists_cut (messages : List Message) {pre : Bytes} (hpre : pre <+: written messages)
    (hcut : ∀ k, pre ≠ written (messages.take k)) :
    ∃ done m rest part missing, messages = done ++ m :: rest ∧ part ≠ [] ∧ missing ≠ [] ∧
      encode m = part ++ missing ∧ pre = written done ++ part := by
  induction messages generalizing pre with
  | nil =>
    have hnil : pre = [] := prefix_nil.mp hpre
    exact absurd hnil (hcut 0)
  | cons m messages ih =>
    have hcons : written (m :: messages) = encode m ++ written messages := by simp [written_eq]
    rw [hcons] at hpre
    by_cases hlen : pre.length < (encode m).length
    · -- the cut is inside the first message
      obtain ⟨missing, hmiss⟩ : pre <+: encode m :=
        prefix_of_prefix_length_le hpre (prefix_append _ _) (Nat.le_of_lt hlen)
      refine ⟨[], m, messages, pre, missing, rfl, ?_, ?_, hmiss.symm, rfl⟩
      · rintro rfl
        exact hcut 0 rfl
      · rintro rfl
        rw [← hmiss, append_nil] at hlen
        exact absurd hlen (Nat.lt_irrefl _)
    obtain ⟨pre', rfl⟩ : encode m <+: pre :=
      prefix_of_prefix_length_le (prefix_append _ _) hpre (by omega)
    rw [prefix_append_right_inj] at hpre
    obtain ⟨done, m', rest, part, missing, rfl, hpart, hmiss, henc, rfl⟩ := ih hpre (by
      intro k hk
      exact hcut (k + 1) (by rw [hk]; simp [written_eq]))
    exact ⟨m :: done, m', rest, part, missing, rfl, hpart, hmiss, henc, by simp [written_eq]⟩

/-- The end of data in the middle of a message closes the pipe. -/
theorem dispatchInput_eof (hsrc : t.inSource)
    (hpipe : t.pipeClosed = false) (hclos : t.closed = false)
    (hmore : framing.scan t.input = .more) (hne : t.input ≠ []) :
    (t.dispatchInput []).emitted = t.emitted ∧ (t.dispatchInput []).pipeClosed ∧
      (t.dispatchInput []).problem = some "disconnected" := by
  have hloop : (t.buffered []).stopInput.readLoop = t.stopInput := by
    have hinput : (t.buffered []).stopInput.input = t.input := append_nil t.input
    rw [readLoop_eq (t.buffered []).stopInput hclos, hinput, framing.drain_of_more hmore]
    simp [drained, buffered, stopInput]
  have hclose : t.dispatchInput [] = (t.stopInput.closeImmediately "disconnected").closeMaybe := by
    have hpos : 0 < t.stopInput.input.length := length_pos_iff.mpr hne
    simp [dispatchInput, hsrc, readFromPipe, hloop, hpos]
  obtain ⟨hemit, -, hpipe', hprob⟩ :=
    closeImmediately_open (t := t.stopInput) hpipe "disconnected"
  rw [hclose, closeMaybe, hpipe']
  exact ⟨hemit, hpipe', hprob⟩

/-! ### The round trip -/

variable (name : String) (pid outSource errSource : Bool)

/-- A whole stream. -/
theorem reads_whole (h : ∀ m ∈ messages, Sendable m) (hne : ∀ chunk ∈ chunks, chunk ≠ [])
    (hflat : chunks.flatten = written messages) :
    let t := run step (new name pid outSource errSource) (chunks.map .input)
    t.emitted = messages ∧ t.input = [] ∧ t.pipeClosed = false := by
  intro t
  obtain ⟨hemit, hread, -⟩ := follows_stream name pid outSource errSource hne
  have hdrain : framing.drain chunks.flatten = ⟨messages.map some, [], false⟩ := by
    have hnil : framing.scan [] = .more := rfl
    have := drain_written_append h []
    rw [framing.drain_of_more hnil, append_nil, append_nil] at this
    rw [hflat, this]
  rw [hdrain] at hemit hread
  rw [flatMap_toList_map_some] at hemit
  obtain ⟨hinput, -, hpipe, -, -⟩ := hread rfl
  exact ⟨hemit, hinput, hpipe⟩

/-- A stream that ends inside of the message `m`. -/
theorem reads_cut_short {done : List Message} (h : ∀ m ∈ done, Sendable m)
    (hm : Sendable m) {part missing : Bytes} (hpart : part ≠ []) (hmiss : missing ≠ [])
    (henc : encode m = part ++ missing)
    (hne : ∀ chunk ∈ chunks, chunk ≠ []) (hflat : chunks.flatten = written done ++ part) :
    let t := run step (new name pid outSource errSource) (chunks.map .input ++ [.input []])
    t.emitted = done ∧ t.pipeClosed ∧ t.problem = some "disconnected" := by
  intro t
  have hmore : framing.scan part = .more := by
    have hscan := scan_encode hm []
    rw [append_nil, henc] at hscan
    exact framing.scan_of_cut hmiss hscan
  obtain ⟨hemit, hread, -⟩ := follows_stream name pid outSource errSource hne
  have hdrain : framing.drain chunks.flatten = ⟨done.map some, part, false⟩ := by
    rw [hflat, drain_written_append h, framing.drain_of_more hmore, append_nil]
  rw [hdrain] at hemit hread
  rw [flatMap_toList_map_some] at hemit
  obtain ⟨hinput, hsrc, hpipe, hclos, -⟩ := hread rfl
  have hrun : t = (run step (new name pid outSource errSource)
      (chunks.map .input)).dispatchInput [] := run_append _ _ _
  obtain ⟨hemit', hpipe', hprob⟩ := dispatchInput_eof hsrc hpipe hclos
    (by rw [hinput]; exact hmore) (by rw [hinput]; exact hpart)
  rw [hrun, hemit', hemit]
  exact ⟨rfl, hpipe', hprob⟩

/-- A stream with a message that is too long. -/
theorem reads_too_long (h : ∀ m ∈ messages, Sendable m)
    {tooLong : Message} (hlong : 100000000 ≤ totalLength tooLong) (later : List Message) (hne : ∀ chunk ∈ chunks, chunk ≠ [])
    (hflat : chunks.flatten = written (messages ++ tooLong :: later)) :
    let t := run step (new name pid outSource errSource) (chunks.map .input)
    t.emitted = messages ∧ t.pipeClosed ∧ t.problem = some "protocol-error" := by
  intro t
  obtain ⟨hemit, -, hfail⟩ := follows_stream name pid outSource errSource hne
  have hcons : written (tooLong :: later) = encode tooLong ++ written later := by
    simp [written_eq]
  have hdrain : framing.drain chunks.flatten =
      ⟨messages.map some, encode tooLong ++ written later, true⟩ := by
    rw [hflat, written_append, drain_written_append h, hcons,
      framing.drain_of_fail (scan_too_long hlong _), append_nil]
  rw [hdrain] at hemit hfail
  rw [flatMap_toList_map_some] at hemit
  exact ⟨hemit, hfail rfl⟩

/-- **Stream round trip.** Whatever the reads: a whole stream gives its messages, an empty
    buffer and an open pipe; a stream that ends inside a message gives the complete messages
    before it and closes as "disconnected"; and a message with a length of 100000000 or more
    closes as "protocol-error", with only the messages before it emitted. -/
theorem stream_round_trip :
    (∀ messages : List Message, (∀ m ∈ messages, Sendable m) →
      ∀ chunks : List Bytes, (∀ chunk ∈ chunks, chunk ≠ []) → chunks.flatten = written messages →
        let t := run step (new name pid outSource errSource) (chunks.map .input)
        t.emitted = messages ∧ t.input = [] ∧ t.pipeClosed = false) ∧
    (∀ messages : List Message, (∀ m ∈ messages, Sendable m) →
      ∀ pre : Bytes, pre <+: written messages → (∀ k, pre ≠ written (messages.take k)) →
      ∀ chunks : List Bytes, (∀ chunk ∈ chunks, chunk ≠ []) → chunks.flatten = pre →
        let t := run step (new name pid outSource errSource) (chunks.map .input ++ [.input []])
        (∃ k, t.emitted = messages.take k ∧ written (messages.take k) <+: pre ∧
          ¬ written (messages.take (k + 1)) <+: pre) ∧
        t.pipeClosed = true ∧ t.problem = some "disconnected") ∧
    (∀ messages tooLong later, (∀ m ∈ messages, Sendable m) → 100000000 ≤ totalLength tooLong →
      ∀ chunks : List Bytes, (∀ chunk ∈ chunks, chunk ≠ []) →
        chunks.flatten = written (messages ++ tooLong :: later) →
        let t := run step (new name pid outSource errSource) (chunks.map .input)
        t.emitted = messages ∧ t.pipeClosed = true ∧ t.problem = some "protocol-error") := by
  refine ⟨fun messages h chunks hne hflat => reads_whole name pid outSource errSource h hne hflat,
    ?_, fun messages tooLong later h hlong chunks hne hflat =>
      reads_too_long name pid outSource errSource h hlong later hne hflat⟩
  intro messages h pre hpre hcut chunks hne hflat t
  obtain ⟨done, m, rest, part, missing, rfl, hpart, hmissing, henc, rfl⟩ :=
    exists_cut messages hpre hcut
  obtain ⟨hemit, hpipe, hproblem⟩ := reads_cut_short name pid outSource errSource
    (fun m hm => h m (mem_append_left _ hm)) (h m (by simp)) hpart hmissing henc hne hflat
  refine ⟨⟨done.length, ?_, ?_, ?_⟩, hpipe, hproblem⟩
  · rw [take_left]
    exact hemit
  · rw [take_left]
    exact prefix_append _ _
  -- the message that was cut is longer than its part
  have htake : (done ++ m :: rest).take (done.length + 1) = done ++ [m] := by
    rw [take_append, take_of_length_le (by omega)]
    simp
  have hsingle : written [m] = part ++ missing := by simp [written_eq, henc]
  rw [htake, written_append, prefix_append_right_inj, hsingle]
  intro hle
  have hlen := hle.length_le
  have hpos : 0 < missing.length := length_pos_iff.mpr hmissing
  rw [List.length_append] at hlen
  omega

/-- The message "hi" on the channel "c1". -/
def hiMessage : Message := (some ⟨[99, 49], by decide⟩, [104, 105])

/-- A control message of `n` spaces. -/
def spacesMessage (n : Nat) : Message := (none, List.replicate n 32)

theorem totalLength_spacesMessage (n : Nat) : totalLength (spacesMessage n) = 1 + n := by
  simp [totalLength, spacesMessage]

/-- "hi" in two reads, cut short in the second one, and in front of a message that is too
    long. -/
theorem stream_round_trip_hi :
    (run step (new "pipe" false true false)
      [.input [53, 10, 99], .input [49, 10, 104, 105]]).emitted = [hiMessage] ∧
    (run step (new "pipe" false true false)
      [.input [53, 10, 99], .input [49, 10, 104], .input []]).problem = some "disconnected" ∧
    (run step (new "pipe" false true false)
      [.input (written [hiMessage, spacesMessage 100000000])]).emitted = [hiMessage] := by
  obtain ⟨hwhole, hcut, hlong⟩ := stream_round_trip "pipe" false true false
  have hsend : ∀ m ∈ [hiMessage], Sendable m := by
    intro m hm
    rw [mem_singleton.mp hm]
    exact ⟨by decide, by decide, by decide⟩
  have hwritten : written [hiMessage] = [53, 10, 99, 49, 10, 104, 105] := by decide +kernel
  refine ⟨?_, ?_, ?_⟩
  · exact (hwhole [hiMessage] hsend [[53, 10, 99], [49, 10, 104, 105]] (by decide)
      hwritten.symm).1
  · refine (hcut [hiMessage] hsend [53, 10, 99, 49, 10, 104] ?_ ?_
      [[53, 10, 99], [49, 10, 104]] (by decide) rfl).2.2
    · rw [hwritten]
      decide
    intro k hk
    cases k with
    | zero => exact nomatch hk
    | succ k =>
      rw [take_of_length_le (by simp), hwritten] at hk
      exact nomatch hk
  refine (hlong [hiMessage] (spacesMessage 100000000) [] hsend ?_ [written [hiMessage, spacesMessage 100000000]] ?_ ?_).1
  · rw [totalLength_spacesMessage]
    omega
  · intro chunk hchunk
    have happ : written [hiMessage, spacesMessage 100000000] = written [hiMessage] ++ written [spacesMessage 100000000] :=
      written_append [hiMessage] [spacesMessage 100000000]
    rw [mem_singleton.mp hchunk, happ, hwritten]
    exact cons_ne_nil _ _
  · exact flatten_singleton

end PipeTransport

end Cockpit
