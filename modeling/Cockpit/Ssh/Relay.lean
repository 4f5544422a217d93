import Cockpit.Common.GLib
import Cockpit.Common.Json
import Cockpit.Lib.HttpMessage
import Cockpit.Lib.Run

namespace Cockpit.Ssh

open Lib

/-!
# `src/ssh/cockpitsshrelay.c`

A started relay: an ssh channel on one side, a pipe on the other.  libssh calls back while one of
its own functions runs, so the relay has a place: it is in the main loop or in such a call, where
any callback may run before the call returns.  What libssh's functions return is in the events.

`log` is the history of what the outside can see.  Left out are the connection and the log-in
before it, the messages for standard error, and the count of bytes `on_channel_data` took.
-/

/-! ### Exit codes -/

def internalError : Nat := 1
def authenticationFailed : Nat := 2
def disconnected : Nat := 254
def terminated : Nat := 255
def noCockpit : Nat := 127

/-- `exit_code_problem` -/
def exitCodeProblem (exitCode : Nat) : Option String :=
  if exitCode = 0 then none
  else if exitCode = authenticationFailed then some "authentication-failed"
  else if exitCode = disconnected then some "disconnected"
  else if exitCode = terminated then some "terminated"
  else if exitCode = noCockpit then some "no-cockpit"
  else some "internal-error"

theorem exitCodeProblem_eq_none {exitCode : Nat} : exitCodeProblem exitCode = none ↔ exitCode = 0 := by
  unfold exitCodeProblem
  split
  · simp [*]
  · simp only [*, iff_false]
    split_ifs <;> simp

/-! ### What libssh gives -/

/-- `SSH_OK`, `SSH_AGAIN`, `SSH_ERROR` -/
def sshOk : Int := 0
def sshAgain : Int := -2
def sshError : Int := -1

/-- What a call of libssh comes to. -/
structure Result where
  rc : Int
  /-- Whether `ssh_get_error_code` is `SSH_REQUEST_DENIED`. -/
  denied : Bool := false
  /-- `ssh_get_error` -/
  msg : String := ""

/-- `ssh_msg_is_disconnected` -/
def msgIsDisconnected (msg : String) : Bool :=
  ["disconnected", "SSH_MSG_DISCONNECT", "Socket error: Success",
    "Socket error: Connection reset by peer"].any fun text => decide (text.toList <:+: msg.toList)

/-- The callbacks of a channel; a signal may come without a name. -/
inductive Callback where
  | data (data : Bytes) (isStderr : Bool)
  | eof
  | close
  | signal (signal : Option Bytes)
  | exitSignal (signal : Option Bytes)
  | exitStatus (status : Int)
  deriving DecidableEq

/-- `GIOCondition`, as far as it is looked at. -/
structure Condition where
  out : Bool := false
  err : Bool := false
  hup : Bool := false
  nval : Bool := false

/-- `CockpitSshData`, as far as `send_auth_reply` reads it. -/
structure SshData where
  hostKey : Option String := none
  hostFingerprint : Option String := none
  knownhostsFile : String := ""
  /-- The global `tmp_knownhost_file`. -/
  tmpKnownhostFile : Option String := none
  authResults : List (String × String) := []

namespace Relay

/-- What the outside can see of a relay. -/
inductive Entry where
  /-- `send_auth_reply` is called. -/
  | authReply (problem : Option String)
  /-- An "init" with a problem is written. -/
  | init (object : JsonObject)
  /-- `cockpit_ssh_data_free` -/
  | free
  /-- The first frame is seen. -/
  | frame
  /-- `cockpit_relay_disconnect` is called. -/
  | disconnecting
  /-- Data of the remote bridge is written to the pipe. -/
  | relayed (data : Bytes)
  /-- The signal "disconnect". -/
  | disconnect

/-- Where the relay is: in the main loop, or in a call of libssh. -/
inductive Place where
  | mainLoop
  /-- `ssh_channel_request_exec` in `cockpit_ssh_relay_start` -/
  | requestExec
  /-- `ssh_event_dopoll`, `ssh_channel_write` in `cockpit_ssh_source_dispatch` -/
  | dopoll (cond : Condition)
  | write
  /-- `ssh_channel_send_eof` for `on_pipe_close`, and in `cockpit_ssh_source_dispatch` -/
  | eofOfPipe
  | eofOfPoll
  /-- The two places of `dispatch_close` in `cockpit_ssh_source_dispatch`. -/
  | closeAfterEof
  | closeAtEnd
  | disposed

/-- A `GSource *`, attached to the main loop or not. -/
inductive Source where
  | null
  | attached
  | destroyed
  deriving DecidableEq

/-- `g_source_destroy`, where there is a source. -/
def Source.destroy : Source → Source
  | .null => .null
  | _ => .destroyed

end Relay

/-- `CockpitSshRelay` -/
structure Relay where
  sshData : Option SshData
  sentDisconnect : Bool := false
  receivedEof : Bool := false
  receivedFrame : Bool := false
  receivedClose : Bool := false
  receivedExit : Bool := false
  sentClose : Bool := false
  sentEof : Bool := false
  exitCode : Nat := 0
  pipeClosed : Bool := false
  /-- Whether there is a pipe with the handlers connected. -/
  pipe : Bool := false
  queue : List Bytes := []
  /-- What was sent of the block in front, `partial` in the source. -/
  sentPart : Nat := 0
  /-- Whether there is a channel; its callbacks are cleared with it. -/
  channel : Bool := false
  io : Relay.Source := .null
  /-- The timeouts that will call `emit_disconnect`. -/
  timeouts : Nat := 0
  place : Relay.Place := .mainLoop
  /-- Whether an assertion failed, or `NULL` was freed. -/
  aborted : Bool := false
  log : List Relay.Entry := []

namespace Relay

variable (s : Relay)

def record (entry : Entry) : Relay := { s with log := s.log ++ [entry] }

/-- A failed `g_assert`. -/
def abort : Relay := { s with aborted := true }

/-- What follows is not reached after a failed assertion. -/
def andThen (f : Relay → Relay) : Relay := if s.aborted then s else f s

/-- `if (!self->exit_code) self->exit_code = exit_code;` -/
def setExitCode (exitCode : Nat) : Relay :=
  if s.exitCode = 0 then { s with exitCode := exitCode } else s

/-! ### Reporting a problem -/

variable (data : SshData)

/-- The object that `send_auth_reply` writes. -/
def authReply (problem : String) : JsonObject :=
  [("command", .string "init")] ++
    (data.hostKey.map fun key => ("host-key", Json.string key)).toList ++
    (data.hostFingerprint.map fun print => ("host-fingerprint", Json.string print)).toList ++
    (if problem = "invalid-hostkey" ∧ data.tmpKnownhostFile = none then
      [("invalid-hostkey-file", .string data.knownhostsFile)] else []) ++
    [("problem", .string problem), ("error", .string problem),
      ("auth-method-results", .object (data.authResults.map fun r => (r.1, .string r.2)))]

variable (problem : Option String)

/-- `send_auth_reply` -/
def sendAuthReply : Relay :=
  let s := s.record (.authReply problem)
  match problem with
  | none => s.abort
  | some problem => s.record (.init (authReply data problem))

/-- `cockpit_ssh_data_free` and the assignment after it; there is nothing to free at `NULL`. -/
def freeSshData : Relay :=
  match s.sshData with
  | none => s.abort
  | some _ => { s.record .free with sshData := none }

/-- `cockpit_relay_disconnect` -/
def disconnect : Relay :=
  let s := s.record .disconnecting
  let s :=
    match s.sshData with
    | none => s
    | some data =>
      (s.sendAuthReply data (problem <|> exitCodeProblem s.exitCode)).andThen freeSshData
  s.andThen fun s =>
    { s with channel := false, io := s.io.destroy, timeouts := s.timeouts + 1 }

/-- The end of every failure: an exit code, unless there is one, and the end of the relay. -/
def fail (exitCode : Nat) : Relay :=
  ({ s with receivedExit := true }.setExitCode exitCode).disconnect none

/-- `emit_disconnect` -/
def emitDisconnect : Relay :=
  if s.sentDisconnect then s else { s.record .disconnect with sentDisconnect := true }

/-! ### The callbacks of the channel -/

/-- The loop over the digits of a frame's size, from index `i`: what is left. -/
def skipSize (i : Nat) : Bytes → Bytes
  | [] => []
  | b :: rest => if i > 7 ∨ b < 48 ∨ b > 57 then b :: rest else skipSize (i + 1) rest

/-- `on_channel_data` from `if (is_stderr || …)` on. -/
def relayData (data : Bytes) (isStderr : Bool) : Relay :=
  if isStderr ∨ s.exitCode = noCockpit then s
  else if s.receivedFrame ∧ ¬ s.pipeClosed then s.record (.relayed data)
  else s

/-- `on_channel_data` -/
def onChannelData (data : Bytes) (isStderr : Bool) : Relay :=
  if ¬ s.receivedFrame ∧ ¬ isStderr then
    match skipSize 0 data with
    -- more is needed to tell what this is
    | [] => s
    | b :: _ =>
      if b ≠ 10 then ({ s with exitCode := noCockpit }).relayData data isStderr
      else
        (({ s with receivedFrame := true }.record .frame).freeSshData).andThen
          (relayData · data isStderr)
  else s.relayData data isStderr

def onChannelEof : Relay := { s with receivedEof := true }

def onChannelClose : Relay := { s with receivedClose := true }

/-- Whether a signal asks to end; `g_ascii_strcasecmp` with `NULL` is `0`. -/
def isTerm : Option Bytes → Bool
  | none => true
  | some signal => sameName signal (ascii "TERM") || sameName signal (ascii "Terminated")

/-- `on_channel_exit_signal` -/
def onChannelExitSignal (signal : Option Bytes) : Relay :=
  match signal with
  | none => s
  | some _ => s.fail (if isTerm signal then terminated else internalError)

/-- `on_channel_signal` -/
def onChannelSignal (signal : Option Bytes) : Relay :=
  if isTerm signal then s.onChannelExitSignal signal else s

/-- The exit code for a status of the remote bridge. -/
def statusExitCode (status : Int) : Nat :=
  if status = 127 then noCockpit
  else if ¬ s.receivedFrame then noCockpit
  else if status ≠ 0 then internalError
  else 0

/-- `on_channel_exit_status` -/
def onChannelExitStatus (status : Int) : Relay :=
  s.fail (s.statusExitCode status)

/-- libssh runs a callback of the channel. -/
def callback : Callback → Relay
  | .data data isStderr => s.onChannelData data isStderr
  | .eof => s.onChannelEof
  | .close => s.onChannelClose
  | .signal signal => s.onChannelSignal signal
  | .exitSignal signal => s.onChannelExitSignal signal
  | .exitStatus status => s.onChannelExitStatus status

/-! ### The source

`cockpit_ssh_source_dispatch` from its end on, each part up to the next call of libssh. -/

/-- `out:`; a source that returns `FALSE` is destroyed. -/
def pollOut (ret : Bool) : Relay :=
  (if s.receivedExit then s.disconnect none else s).andThen fun s =>
    { s with place := .mainLoop, io := if ret then s.io else s.io.destroy }

/-- `dispatch_close` up to the call. -/
def dispatchClose (place : Place) : Relay :=
  if s.sentClose then s.abort else { s with place := place }

/-- After the first `dispatch_close`. -/
def pollClose : Relay :=
  if s.receivedEof ∧ ¬ s.receivedClose ∧ ¬ s.sentClose then s.dispatchClose .closeAtEnd
  else s.pollOut true

/-- After `dispatch_eof`. -/
def pollEof : Relay :=
  if s.receivedEof ∧ s.sentEof ∧ ¬ s.sentClose then s.dispatchClose .closeAfterEof
  else s.pollClose

/-- `dispatch_eof` up to the call. -/
def dispatchEof (place : Place) : Relay :=
  if s.sentEof then s.abort else { s with place := place }

/-- After `dispatch_queue` returned `ret`. -/
def pollQueue (ret : Bool) : Relay :=
  if ¬ ret ∧ s.pipeClosed ∧ ¬ s.sentEof then s.dispatchEof .eofOfPoll else s.pollEof

/-- The loop of `dispatch_queue` up to the call. -/
def dispatchBlock : Relay :=
  match s.queue with
  | [] => s.pollQueue false
  | block :: _ => if s.sentPart ≤ block.length then { s with place := .write } else s.abort

/-- `dispatch_queue` -/
def dispatchQueue : Relay :=
  if s.sentEof ∨ s.receivedClose then s.pollQueue false else s.dispatchBlock

/-- `cockpit_ssh_source_dispatch` up to `ssh_event_dopoll`. -/
def poll (cond : Condition) : Relay :=
  let s := if (cond.hup ∨ cond.err) ∧ (s.sentClose ∨ s.sentEof)
    then { s with receivedEof := true, receivedClose := true } else s
  if s.receivedExit then { s with io := s.io.destroy }
  else if cond.nval then { s with io := s.io.destroy }
  else { s with place := .dopoll cond }

/-! ### What the calls return -/

variable (result : Result)

/-- `ssh_channel_request_exec`, and the end of `cockpit_ssh_relay_start`. -/
def requestExecReturns : Relay :=
  if result.rc = sshAgain then s
  else if result.rc = sshOk then { s with io := .attached, place := .mainLoop }
  else ({ s with exitCode := authenticationFailed, place := .mainLoop }).disconnect
    (some "internal-error")

/-- `ssh_event_dopoll` -/
def dopollReturns (cond : Condition) (result : Result) : Relay :=
  if result.rc = sshOk ∨ result.rc = sshAgain then
    if cond.err then ({ s with receivedExit := true }.setExitCode disconnected).pollOut false
    else if cond.out then s.dispatchQueue
    else s.pollOut true
  else if result.rc = sshError ∧ msgIsDisconnected result.msg then
    ({ s with receivedExit := true }.setExitCode terminated).pollOut false
  else ({ s with receivedExit := true }.setExitCode internalError).pollOut false

/-- `ssh_channel_write`; more than was asked for is refused by a guard. -/
def writeReturns : Relay :=
  match s.queue with
  | [] => s
  | block :: queue =>
    let want : Int := (block.length - s.sentPart : Nat)
    if result.rc < 0 then
      if ¬ result.denied ∧ msgIsDisconnected result.msg then
        ({ s with receivedClose := true, receivedEof := true }).pollQueue false
      else s.pollQueue false
    else if result.rc = want then ({ s with queue := queue, sentPart := 0 }).dispatchBlock
    else if want < result.rc then s.pollQueue false
    else
      let s := { s with sentPart := s.sentPart + result.rc.toNat }
      if result.rc = 0 then s.pollQueue true else s.dispatchBlock

/-- The rest of `dispatch_eof`; `next` is what follows it. -/
def eofReturns (next : Relay → Relay) : Relay :=
  if result.rc = sshAgain then next s
  else if result.rc = sshOk ∨ result.denied then next { s with sentEof := true }
  else (s.fail internalError).andThen next

/-- The rest of `dispatch_close`; `next` is what follows it. -/
def closeReturns (next : Relay → Relay) : Relay :=
  if result.rc = sshAgain then next s
  else if result.rc = sshOk ∨ result.denied then next { s with sentClose := true }
  else (s.fail internalError).andThen next

/-- A call of libssh returns. -/
def returns : Relay :=
  match s.place with
  | .mainLoop | .disposed => s
  | .requestExec => s.requestExecReturns result
  | .dopoll cond => s.dopollReturns cond result
  | .write => s.writeReturns result
  | .eofOfPipe => s.eofReturns result fun s => { s with place := .mainLoop }
  | .eofOfPoll => s.eofReturns result pollEof
  | .closeAfterEof => s.closeReturns result pollClose
  | .closeAtEnd => s.closeReturns result (pollOut · true)

/-! ### The pipe and the owner -/

/-- `on_pipe_read` -/
def onPipeRead (buf : Bytes) : Relay :=
  if ¬ s.sentEof ∧ ¬ s.receivedClose ∧ 0 < buf.length then { s with queue := s.queue ++ [buf] }
  else s

/-- `on_pipe_close` -/
def onPipeClose : Relay :=
  let s := { s with pipeClosed := true, receivedFrame := true }
  if s.receivedEof then s else s.dispatchEof .eofOfPipe

/-- `cockpit_ssh_relay_dispose` -/
def dispose : Relay :=
  if s.sshData.isSome then s.abort
  else { s with pipe := false, io := s.io.destroy, place := .disposed }

/-- Whether a call of libssh runs. -/
def inCall : Bool :=
  match s.place with
  | .mainLoop | .disposed => false
  | _ => true

/-- Whether the main loop can call. -/
def idle : Bool :=
  match s.place with
  | .mainLoop => true
  | _ => false

inductive Event where
  /-- libssh runs a callback in one of its calls. -/
  | callback (callback : Callback)
  /-- A call of libssh returns. -/
  | returns (result : Result)
  /-- The source is dispatched. -/
  | poll (cond : Condition)
  | pipeRead (buf : Bytes)
  | pipeClose
  /-- A timeout calls `emit_disconnect`. -/
  | timeout
  /-- The owner lets go of the relay, after "disconnect". -/
  | dispose

/-- One step; what cannot happen at this time changes nothing.  A pipe closes once. -/
def step (event : Event) : Relay :=
  if s.aborted then s
  else match event with
  | .callback callback => if s.inCall ∧ s.channel then s.callback callback else s
  | .returns result => s.returns result
  | .poll cond => if s.idle ∧ s.io = .attached then s.poll cond else s
  | .pipeRead buf => if s.idle ∧ s.pipe then s.onPipeRead buf else s
  | .pipeClose => if s.idle ∧ s.pipe ∧ ¬ s.pipeClosed then s.onPipeClose else s
  | .timeout =>
    if s.idle ∧ 0 < s.timeouts then { s with timeouts := s.timeouts - 1 }.emitDisconnect else s
  | .dispose => if s.idle ∧ s.sentDisconnect then s.dispose else s

/-- `cockpit_ssh_relay_start` up to the command: `problem` is what `cockpit_ssh_connect` found. -/
def start : Relay :=
  match problem with
  | some problem =>
    ({ sshData := some data, exitCode := authenticationFailed } : Relay).disconnect (some problem)
  | none => { sshData := some data, channel := true, pipe := true, place := .requestExec }

end Relay

end Cockpit.Ssh
