import Cockpit.Lib.Run
import Cockpit.Lib.Incremental
import Cockpit.Common.Frame

namespace Cockpit

open Lib Cockpit.Frame

/-!
# `src/common/cockpitpipetransport.c`

A transport that frames its messages onto a `CockpitPipe`.  `PipeTransport` holds the fields
of both objects that sending and receiving act on.  Handlers of received messages are
passive here: they record the message and do not close the transport.

The reading loop is an instance of `Lib.Framing` (`framing`, `readLoop_eq`), so what it emits
does not depend on how the stream is cut into reads.
-/

/-- A message: its channel, `NULL` for control messages, and its payload. -/
abbrev Message := Option CStr × Bytes

/-- What `waitpid` reports about a child. -/
inductive ExitStatus where
  | exited (code : Nat)
  | signaled (signal : Nat)
  deriving DecidableEq, Repr

/-- `CockpitPipeTransport` and its `CockpitPipe`. -/
structure PipeTransport where
  name : String
  /-- `self->closed` of the transport -/
  closed : Bool
  /-- `self->priv->in_buffer` of the pipe -/
  input : Bytes
  outQueue : List Bytes
  inSource : Bool
  outSource : Bool
  errSource : Bool
  pipeClosed : Bool
  problem : Option String
  /-- Whether the pipe has a process, whether it is still waited for, and how it ended. -/
  pid : Bool
  child : Bool
  status : ExitStatus
  /-- What `cockpit_transport_emit_recv` was called with. -/
  emitted : List Message
  /-- What `cockpit_transport_emit_closed` was called with. -/
  closedSignals : List (Option String)

namespace PipeTransport

/-- A transport on a new pipe, with or without a process and a source for its errors. -/
def new (name : String) (pid outSource errSource : Bool) : PipeTransport where
  name := name
  closed := false
  input := []
  outQueue := []
  inSource := true
  outSource := outSource
  errSource := errSource
  pipeClosed := false
  problem := none
  pid := pid
  child := pid
  status := .exited 0
  emitted := []
  closedSignals := []

/-! ### Sending -/

variable (t : PipeTransport)

/-- `cockpit_pipe_write` -/
def pipeWrite (data : Bytes) : PipeTransport :=
  if t.pipeClosed then t
  else if data.length = 0 then t
  else { t with outQueue := t.outQueue ++ [data], outSource := true }

/-- The prefix that `cockpit_pipe_transport_send` prints. -/
def sendPrefix (channel : Option CStr) (payload : Bytes) : Bytes :=
  let channelLen := (channel.map CStr.length).getD 0
  decimal (channelLen + 1 + payload.length) ++ newline ::
    ((channel.getD CStr.empty).bytes ++ [newline])

/-- `cockpit_pipe_transport_send` -/
def send (message : Message) : PipeTransport :=
  if t.closed then t
  else (t.pipeWrite (sendPrefix message.1 message.2)).pipeWrite message.2

/-! ### Closing -/

/-- The problem that `on_pipe_close` makes of the pipe's problem. -/
def closeProblem : Option String :=
  let isCockpit := t.name = "cockpit-bridge" || t.name = "cockpit-session"
  if !t.pid then t.problem
  else if t.problem = none || t.problem = some "internal-error" then
    match t.status with
    | .signaled signal => if signal = 15 then some "terminated" else some "internal-error"
    | .exited code =>
      if isCockpit && code = 127 then some "no-cockpit"
      else if code = 255 then some "terminated"
      else if code ≠ 0 then some "internal-error"
      else t.problem
  else if t.problem = some "not-found" && isCockpit then some "no-cockpit"
  else t.problem

/-- `on_pipe_close` -/
def onPipeClose : PipeTransport :=
  { t with closed := true, closedSignals := t.closedSignals ++ [t.closeProblem] }

/-- `close_immediately` of the pipe; with a child the signal waits for its end. -/
def closeImmediately (problem : Option String) : PipeTransport :=
  if t.pipeClosed then t
  else
    let t := { t with
      problem := problem.or t.problem
      pipeClosed := true
      inSource := false
      outSource := false
      errSource := false }
    if t.child then t else t.onPipeClose

/-- `close_maybe` of the pipe -/
def closeMaybe : PipeTransport :=
  if !t.pipeClosed && (!t.inSource && !t.outSource && !t.errSource) then t.closeImmediately none
  else t

/-- `on_child_reap` -/
def onChildReap (status : ExitStatus) : PipeTransport :=
  let t := { t with status := status, child := false }
  if t.pipeClosed then t.onPipeClose else t

/-! ### Receiving -/

/-- The loop of `cockpit_transport_read_from_pipe`. -/
def readLoop (t : PipeTransport) : PipeTransport :=
  if t.closed then t
  else
    match _h : Frame.parse t.input with
    | .wantMore => t
    | .failure => t.closeImmediately "protocol-error"
    | .size size i =>
      if t.input.length < i + size then t
      else
        readLoop { t with
          input := t.input.drop (i + size)
          emitted := t.emitted ++ (parseFrame ((t.input.drop i).take size)).toList }
  termination_by t.input.length
  decreasing_by
    have := parse_size _h
    simp only [List.length_drop]
    omega

/-- `cockpit_transport_read_from_pipe` -/
def readFromPipe (endOfData : Bool) : PipeTransport :=
  let t := t.readLoop
  if endOfData && 0 < t.input.length then t.closeImmediately "disconnected" else t

/-- `stop_input` of the pipe -/
def stopInput : PipeTransport := { t with inSource := false }

/-- The bytes that `read` returned, in the buffer. -/
def buffered (data : Bytes) : PipeTransport :=
  { t with input := t.input ++ data }

/-- `dispatch_input` of the pipe, when `read` returns `data`: nothing at the end of data. -/
def dispatchInput (data : Bytes) : PipeTransport :=
  if !t.inSource then t
  else if data.length = 0 then
    ((t.buffered data).stopInput.readFromPipe true).closeMaybe
  else (t.buffered data).readFromPipe false

/-- What can happen to a transport that receives. -/
inductive Event where
  | input (data : Bytes)
  | reap (status : ExitStatus)

/-- One event. -/
def step : Event → PipeTransport
  | .input data => t.dispatchInput data
  | .reap status => if t.child then t.onChildReap status else t

/-! ### The loop as incremental reading -/

/-- What the loop finds at the front of the buffer: a message, or one that it ignores. -/
def scan (input : Bytes) : Scan (Option Message) :=
  match Frame.parse input with
  | .wantMore => .more
  | .failure => .fail
  | .size size i =>
    if input.length < i + size then .more
    else .item (i + size) (parseFrame ((input.drop i).take size))

variable {input : Bytes}

theorem scan_item {n : Nat} {m : Option Message} (h : scan input = .item n m) :
    ∃ size i, Frame.parse input = .size size i ∧ i + size ≤ input.length ∧ n = i + size ∧
      m = parseFrame ((input.drop i).take size) := by
  unfold scan at h
  split at h
  · exact nomatch h
  · exact nomatch h
  rename_i size i hparse
  split at h
  · exact nomatch h
  · rename_i hle
    obtain ⟨rfl, rfl⟩ : i + size = n ∧ _ = m := by simpa using h
    exact ⟨size, i, hparse, by omega, rfl, rfl⟩

theorem scan_fail (h : scan input = .fail) : Frame.parse input = .failure := by
  unfold scan at h
  split at h
  · exact nomatch h
  · assumption
  · split at h <;> exact nomatch h

/-- The stream format as a `Framing`. -/
def framing : Framing UInt8 (Option Message) where
  scan := scan
  item_pos := by
    intro xs n x h
    obtain ⟨size, i, hparse, -, rfl, -⟩ := scan_item h
    have := parse_size hparse
    omega
  item_le := by
    intro xs n x h
    obtain ⟨size, i, -, hle, rfl, -⟩ := scan_item h
    exact hle
  item_append := by
    intro xs n x ys h
    obtain ⟨size, i, hparse, hle, rfl, rfl⟩ := scan_item h
    have happ := parse_append ys (by rw [hparse]; simp)
    unfold scan
    rw [happ, hparse]
    simp only [List.length_append]
    rw [if_neg (by omega), take_drop_append hle]
  fail_append := by
    intro xs ys h
    have hparse := scan_fail h
    have happ := parse_append ys (by rw [hparse]; simp)
    unfold scan
    rw [happ, hparse]

/-- The transport after its buffer was drained. -/
def drained (d : Drained UInt8 (Option Message)) : PipeTransport :=
  { t with input := d.rest, emitted := t.emitted ++ d.items.flatMap Option.toList }

/-- **The loop drains the buffer**, and closes the pipe where the scan fails. -/
theorem readLoop_eq (hopen : t.closed = false) :
    t.readLoop =
      if (framing.drain t.input).failed then
        (t.drained (framing.drain t.input)).closeImmediately "protocol-error"
      else t.drained (framing.drain t.input) := by
  fun_induction readLoop t with
  | case1 t h => exact absurd hopen (by simp [h])
  | case2 t h hparse =>
    have hscan : framing.scan t.input = .more := by simp only [framing, scan, hparse]
    rw [framing.drain_of_more hscan]
    simp [drained]
  | case3 t h hparse =>
    have hscan : framing.scan t.input = .fail := by simp only [framing, scan, hparse]
    rw [framing.drain_of_fail hscan]
    simp [drained]
  | case4 t h size i hparse hlt =>
    have hscan : framing.scan t.input = .more := by simp only [framing, scan, hparse, hlt, if_true]
    rw [framing.drain_of_more hscan]
    simp [drained]
  | case5 t h size i hparse hle ih =>
    have hscan : framing.scan t.input =
        .item (i + size) (parseFrame ((t.input.drop i).take size)) := by
      simp only [framing, scan, hparse, hle, if_false]
    rw [ih hopen, framing.drain_of_item hscan]
    simp [drained]

end PipeTransport

end Cockpit
