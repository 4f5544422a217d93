import Cockpit.Common.GLib

namespace Cockpit

/-!
# `src/common/cockpitpipe.c`

A pipe reads and writes descriptors that the main loop polls.  What the system calls come to is
part of the events.  A handler of "read" runs in the middle of `dispatch_input`, and the calls
that it makes are steps of their own until it returns; what a handler of "close" does is the same
as if it were done right after the event.

`log` is the history of what the outside can see: signals, closed descriptors and failed checks.
-/

/-- `errno`, as far as the pipe tells its values apart. -/
inductive Errno where
  | perm
  | acces
  | noent
  | connrefused
  | badf
  | again
  | intr
  | connreset
  | brokenPipe
  | inprogress
  | notsock
  | other
  deriving DecidableEq

namespace Pipe

/-- A `GSource *`; the main loop drops a source whose callback returns `FALSE`, and the pointer
    stays. -/
inductive Source where
  | null
  | attached
  | dropped
  deriving DecidableEq

/-- What the outside can see of a pipe. -/
inductive Entry where
  /-- "read", with `eof`, and whether the pipe was closed. -/
  | read (eof closed : Bool)
  /-- "close", whether the pipe was closed, and whether its child was waited for. -/
  | close (closed child : Bool)
  /-- `close` of a descriptor. -/
  | closeFd (fd : Nat)
  /-- A guard or an assertion that fails. -/
  | failed
  deriving DecidableEq

/-- What `read` comes to; without data it is the end. -/
inductive ReadResult where
  | data (data : Bytes)
  | error (errn : Errno)

/-- What `writev` comes to. -/
inductive WritevResult where
  | wrote (n : Nat)
  | error (errn : Errno)

/-- What `getsockopt` tells of a connection. -/
inductive ConnectResult where
  | unavailable
  | error (errn : Errno)
  | connected

end Pipe

/-- `CockpitPipePrivate` -/
structure Pipe where
  closed : Bool := false
  closing : Bool := false
  connecting : Bool := false
  problem : Option String := none
  /-- Whether the child is waited for. -/
  child : Bool := false
  exited : Bool := false
  status : Int := -1
  outFd : Option Nat := none
  outSource : Pipe.Source := .null
  outQueue : List Bytes := []
  outPartial : Nat := 0
  inFd : Option Nat := none
  inSource : Pipe.Source := .null
  inBuffer : Bytes := []
  errFd : Option Nat := none
  errSource : Pipe.Source := .null
  errBuffer : Bytes := []
  isUserFd : Bool := false
  /-- Whether `on_later_close` is to be called. -/
  later : Bool := false
  /-- Whether a handler of "read" runs, and with which `eof`. -/
  reading : Option Bool := none
  log : List Pipe.Entry := []
  /-- History: all blocks that were queued, and what `writev` took. -/
  queued : Bytes := []
  written : Bytes := []

namespace Pipe

variable (s : Pipe)

def record (entry : Entry) : Pipe := { s with log := s.log ++ [entry] }

/-- What the main loop does with a source whose callback returned `FALSE`. -/
def Source.drop : Source → Source
  | .attached => .dropped
  | source => source

/-- `g_assert` on a source, and its end. -/
def stopOutput : Pipe :=
  if s.outSource = .null then s.record .failed else { s with outSource := .null }

/-- `stop_input` -/
def stopInput : Pipe :=
  if s.inSource = .null then s.record .failed else { s with inSource := .null }

/-- `stop_error` -/
def stopError : Pipe :=
  if s.errSource = .null then s.record .failed else { s with errSource := .null }

/-! ### Closing -/

variable (fd : Option Nat)

/-- `close` of the descriptor of a field, if there is one. -/
def closeFd : Pipe :=
  match fd with
  | none => s
  | some fd => s.record (.closeFd fd)

/-- The emission of "close". -/
def emitClose : Pipe := s.record (.close s.closed s.child)

/-- The sources that are left are stopped. -/
def stopAnyInput : Pipe := if s.inSource ≠ .null then s.stopInput else s

def stopAnyOutput : Pipe := if s.outSource ≠ .null then s.stopOutput else s

def stopAnyError : Pipe := if s.errSource ≠ .null then s.stopError else s

/-- The descriptors that are left are closed. -/
def closeInFd : Pipe := { s.closeFd s.inFd with inFd := none }

def closeOutFd : Pipe := { s.closeFd s.outFd with outFd := none }

def closeErrFd : Pipe := { s.closeFd s.errFd with errFd := none }

variable (problem : Option String)

/-- `close_immediately`, behind its check; the child is killed as well. -/
def closeAll : Pipe :=
  let s := { s with problem := problem.or s.problem, closed := true }
  let s := s.stopAnyInput.stopAnyOutput.stopAnyError
  let s := s.closeInFd.closeOutFd.closeErrFd
  if s.child then s else s.emitClose

/-- The descriptors that `close` is called for. -/
def closedFd : List Entry := (fd.map Entry.closeFd).toList

theorem closeFd_eq :
    s.closeFd fd = { s with log := s.log ++ closedFd fd } := by
  cases fd with
  | none =>
    show s = { s with log := s.log ++ [] }
    rw [List.append_nil]
  | some fd => rfl

theorem stopAnyInput_eq : s.stopAnyInput = { s with inSource := .null } := by
  unfold stopAnyInput stopInput
  by_cases h : s.inSource = .null
  · rw [if_neg (not_not.mpr h), ← h]
  · rw [if_pos h, if_neg h]

theorem stopAnyOutput_eq : s.stopAnyOutput = { s with outSource := .null } := by
  unfold stopAnyOutput stopOutput
  by_cases h : s.outSource = .null
  · rw [if_neg (not_not.mpr h), ← h]
  · rw [if_pos h, if_neg h]

theorem stopAnyError_eq : s.stopAnyError = { s with errSource := .null } := by
  unfold stopAnyError stopError
  by_cases h : s.errSource = .null
  · rw [if_neg (not_not.mpr h), ← h]
  · rw [if_pos h, if_neg h]

/-- All that `close_immediately` does: no source and no descriptor is left. -/
theorem closeAll_eq :
    s.closeAll problem = { s with
      problem := problem.or s.problem, closed := true
      inSource := .null, outSource := .null, errSource := .null
      inFd := none, outFd := none, errFd := none
      log := s.log ++ closedFd s.inFd ++ closedFd s.outFd ++ closedFd s.errFd ++
        if s.child then [] else [.close true false] } := by
  have hopen : ∀ s : Pipe, s.closeInFd.closeOutFd.closeErrFd = { s with
      inFd := none, outFd := none, errFd := none
      log := s.log ++ closedFd s.inFd ++ closedFd s.outFd ++ closedFd s.errFd } := by
    intro s
    unfold closeErrFd closeOutFd closeInFd
    rw [closeFd_eq, closeFd_eq, closeFd_eq]
  have hstop : ∀ s : Pipe, s.stopAnyInput.stopAnyOutput.stopAnyError = { s with
      inSource := .null, outSource := .null, errSource := .null } := by
    intro s
    rw [stopAnyError_eq, stopAnyOutput_eq, stopAnyInput_eq]
  unfold closeAll
  dsimp only
  rw [hstop, hopen]
  dsimp only
  split
  · rw [List.append_nil]
  rename_i hchild
  unfold emitClose record
  rw [Bool.not_eq_true] at hchild
  rw [hchild]

/-- `close_immediately` -/
def closeImmediately : Pipe :=
  if s.closed then s else s.closeAll problem

/-- Whether no source is left. -/
def idle : Bool :=
  decide (s.inSource = .null ∧ s.outSource = .null ∧ s.errSource = .null)

/-- `close_maybe` -/
def closeMaybe : Pipe :=
  if !s.closed && s.idle then s.closeImmediately none else s

/-- The part of `close_output` for a descriptor that is no socket. -/
def closeEntirely (fd : Nat) : Pipe :=
  let s := s.closeFd (some fd)
  let s :=
    if s.inFd = s.outFd then { s with inFd := none }.stopAnyInput
    else s
  { s with outFd := none }

/-- `close_output`, with the error of `shutdown` -/
def closeOutput (shutdown : Option Errno) : Pipe :=
  (match s.outFd with
  | none => s
  | some fd =>
    match shutdown with
    | none => s
    | some .notsock => s.closeEntirely fd
    | some _ => s.closeImmediately (some "internal-error")).closeMaybe

/-- `on_child_reap` -/
def onChildReap (status : Int) : Pipe :=
  let s := { s with status := status, exited := true, child := false }
  if s.closed then s.emitClose else s

/-- `set_problem_from_errno` -/
def setProblemFromErrno (errn : Errno) : Pipe :=
  { s with problem := some (
      if errn = .perm ∨ errn = .acces then "access-denied"
      else if errn = .noent ∨ errn = .connrefused then "not-found"
      else if errn = .badf ∧ s.isUserFd = true then "protocol-error"
      else "internal-error") }

/-! ### Input -/

/-- `dispatch_input`, up to the emission of "read"; `hup` is whether the condition is just
    `G_IO_HUP`. -/
def dispatchInput (hup : Bool) (result : ReadResult) : Pipe :=
  if s.inSource = .null then s.record .failed
  else
    let emit (s : Pipe) (data : Bytes) : Pipe :=
      let s := { s with inBuffer := s.inBuffer ++ data }
      let s := if data.isEmpty then s.stopInput else s
      let eof := decide (s.inSource = .null)
      { s.record (.read eof s.closed) with reading := some eof }
    if hup then emit s []
    else
      match result with
      | .data data => emit s data
      | .error errn =>
        if errn = .again ∨ errn = .intr then s
        else if errn = .connreset then emit s []
        else
          let s := (s.setProblemFromErrno errn).closeImmediately none
          { s with inSource := s.inSource.drop }

/-- `dispatch_input`, behind the emission of "read" -/
def readReturns (eof : Bool) : Pipe :=
  let s := { s with reading := none }
  if eof then s.closeMaybe else s

/-- `dispatch_error` -/
def dispatchError (hup : Bool) (result : ReadResult) : Pipe :=
  if s.errSource = .null then s.record .failed
  else
    let ended (s : Pipe) (data : Bytes) : Pipe :=
      let s := { s with errBuffer := s.errBuffer ++ data }
      if data.isEmpty then s.stopError.closeMaybe else s
    if hup then ended s []
    else
      match result with
      | .data data => ended s data
      | .error errn =>
        if errn = .again ∨ errn = .intr then s
        else
          let s := s.closeImmediately (some "internal-error")
          { s with errSource := s.errSource.drop }

/-! ### Output -/

/-- `dispatch_connect` -/
def dispatchConnect (connect : ConnectResult) : Pipe :=
  let s := { s with connecting := false }
  match connect with
  | .unavailable => s.closeImmediately (some "internal-error")
  | .error .inprogress => { s with connecting := true }
  | .error errn => (s.setProblemFromErrno errn).closeImmediately none
  | .connected => s

/-- The number of blocks that are written at once. -/
def iovCount : Nat := 4

/-- The bytes that `writev` is given. -/
def iov : Bytes := (s.outQueue.take iovCount).flatten.drop s.outPartial

/-- The loop that figures out what was written: the queue and the partial offset. -/
def wroteBlocks : (count ret : Nat) → (queue : List Bytes) → (offset : Nat) → List Bytes × Nat
  | 0, _, queue, offset => (queue, offset)
  | _ + 1, _, [], offset => ([], offset)
  | count + 1, ret, block :: queue, offset =>
    if ret = 0 then (block :: queue, offset)
    else if block.length - offset ≤ ret then
      wroteBlocks count (ret - (block.length - offset)) queue 0
    else (block :: queue, offset + ret)

/-- `dispatch_output`, when `writev` took `ret` bytes; with an empty queue it is not called. -/
def wrote (ret : Nat) (shutdown : Option Errno) : Pipe :=
  let left := wroteBlocks iovCount ret s.outQueue s.outPartial
  let s := { s with
    written := s.written ++ s.iov.take ret, outQueue := left.1, outPartial := left.2 }
  if s.outQueue ≠ [] then s
  else
    let s := s.stopOutput
    if s.closing then s.closeOutput shutdown else s.closeMaybe

/-- The part of `dispatch_output` behind the connecting. -/
def dispatchWrite (result : WritevResult) (shutdown : Option Errno) : Pipe :=
  if s.outSource = .null then s.record .failed
  else if s.outQueue = [] then s.wrote 0 shutdown
  else
    match result with
    | .wrote n => s.wrote (min n s.iov.length) shutdown
    | .error errn =>
      let s :=
        if errn = .again ∨ errn = .intr then s
        else if errn = .brokenPipe then s.closeImmediately (some "terminated")
        else (s.setProblemFromErrno errn).closeImmediately none
      { s with outSource := s.outSource.drop }

/-- `dispatch_output`; `dispatch_connect` always returns `TRUE`. -/
def dispatchOutput (connect : ConnectResult) (result : WritevResult)
    (shutdown : Option Errno) : Pipe :=
  (if s.connecting then s.dispatchConnect connect else s).dispatchWrite result shutdown

/-- `start_output` -/
def startOutput : Pipe :=
  if s.outSource ≠ .null then s.record .failed else { s with outSource := .attached }

/-! ### Calls -/

/-- The calls on a pipe. -/
inductive Call where
  | write (data : Bytes)
  | close (problem : Option String) (shutdown : Option Errno)
  | dispose
  /-- `cockpit_pipe_skip`, of the buffer of the input. -/
  | skip (n : Nat)

/-- `_cockpit_pipe_write` -/
def write (data : Bytes) : Pipe :=
  if s.closed then s
  else if data.isEmpty then s
  else
    let s := { s with outQueue := s.outQueue ++ [data], queued := s.queued ++ data }
    if s.outSource = .null ∧ s.outFd.isSome then s.startOutput else s

/-- `cockpit_pipe_close` -/
def close (shutdown : Option Errno) : Pipe :=
  let s := { s with closing := true }
  match problem with
  | some problem => s.closeImmediately (some problem)
  | none => if s.outQueue = [] then s.closeOutput shutdown else s

/-- `cockpit_pipe_dispose`; the child is killed as well. -/
def dispose : Pipe :=
  { s.closeImmediately (some "terminated") with outQueue := [] }

def call : Call → Pipe
  | .write data => s.write data
  | .close problem shutdown => s.close problem shutdown
  | .dispose => s.dispose
  | .skip n => { s with inBuffer := s.inBuffer.drop n }

/-! ### Runs -/

/-- What a pipe is made with: descriptors of its own, of which in and out may be the same. -/
structure Setup where
  inFd : Option Nat
  outFd : Option Nat
  errFd : Option Nat
  apart : ∀ fd, errFd = some fd → inFd ≠ some fd ∧ outFd ≠ some fd
  /-- Whether there is a process to wait for. -/
  pid : Bool
  /-- What went wrong before; the pipe closes with it soon. -/
  problem : Option String
  /-- Whether `cockpit_pipe_connect` is still connecting. -/
  connecting : Bool
  isUserFd : Bool

/-- The source of a descriptor. -/
def sourceOf : Option Nat → Source
  | none => .null
  | some _ => .attached

/-- `cockpit_pipe_constructed` -/
def new (setup : Setup) : Pipe where
  inFd := setup.inFd
  outFd := setup.outFd
  errFd := setup.errFd
  inSource := sourceOf setup.inFd
  outSource := sourceOf setup.outFd
  errSource := sourceOf setup.errFd
  child := setup.pid
  problem := setup.problem
  connecting := setup.connecting
  later := setup.problem.isSome
  isUserFd := setup.isUserFd

/-- What happens to a pipe. -/
inductive Event where
  | input (hup : Bool) (result : ReadResult)
  | readReturns
  | error (hup : Bool) (result : ReadResult)
  | output (connect : ConnectResult) (result : WritevResult) (shutdown : Option Errno)
  | reap (status : Int)
  | later
  | call (call : Call)

/-- What the main loop does; sources that are not attached are not polled. -/
def mainStep : Event → Pipe
  | .input hup result => if s.inSource = .attached then s.dispatchInput hup result else s
  | .error hup result => if s.errSource = .attached then s.dispatchError hup result else s
  | .output connect result shutdown =>
    if s.outSource = .attached then s.dispatchOutput connect result shutdown else s
  | .reap status => if s.child then s.onChildReap status else s
  | .later => if s.later then { s with later := false }.closeImmediately none else s
  | .readReturns | .call _ => s

def step (e : Event) : Pipe :=
  match e with
  | .call call => s.call call
  | e =>
    match s.reading with
    | none => s.mainStep e
    | some eof =>
      match e with
      | .readReturns => s.readReturns eof
      | _ => s

end Pipe

end Cockpit
