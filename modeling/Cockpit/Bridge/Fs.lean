import Cockpit.Bridge.ChannelText
import Cockpit.Common.Pipe

namespace Cockpit

open Unicode Channel

/-!
# `src/bridge/cockpitfsread.c` and `src/bridge/cockpitfsreplace.c`

`Disk` is what the two kinds of channels see of the file system: the regular files that exist, by
the descriptors that are open on them, and which of them the path leads to.  What a system call
comes to is part of the events.

A function returns what it sends, which `cockpit_channel_close` ends.  Channels here are text
channels: `sendText` is `cockpit_channel_send`, and `flushText` is `flush_buffer`, which the timeout
of a channel calls as well as its closing.
-/

namespace Fs

/-! ### Files and tags -/

/-- `struct stat` -/
structure Stat where
  ino : Nat
  sec : Int
  nsec : Nat
  deriving DecidableEq

/-- A regular file. -/
structure Node where
  content : Bytes
  stat : Stat
  deriving DecidableEq

/-- What a path leads to. -/
abbrev Version := Option Node

/-- `file_tag_from_stat`; without a result the path leads nowhere. -/
def fileTagFromStat : Option Stat → String
  | none => "-"
  | some stat =>
    "1:" ++ toString stat.ino ++ "-" ++ toString stat.sec ++ "." ++ toString stat.nsec

/-- The tag of a version. -/
def tagOf (v : Version) : String := fileTagFromStat (v.map Node.stat)

structure Disk where
  nodes : List Node
  path : Option Nat

variable (d : Disk)

/-- The version that the path leads to. -/
def Disk.version : Version := d.path.bind (d.nodes[·]?)

/-- `cockpit_get_file_tag` -/
def Disk.getFileTag : String := tagOf d.version

variable (fd : Nat)

/-- `cockpit_get_file_tag_from_fd` -/
def Disk.getFileTagFromFd : String := tagOf d.nodes[fd]?

/-! ### Channels -/

/-- What a channel sends; other control messages are not listened to. -/
inductive Sent where
  | payload (data : Bytes)
  | done
  | close (problem tag : Option String)
  deriving DecidableEq

/-- What a channel receives. -/
inductive Received where
  | payload (data : Bytes)
  | done
  | close (problem : String)
  deriving DecidableEq

/-- The options of an "open" message. -/
inductive Options where
  | fsread
  | fsreplace (tag : Option String)
  deriving DecidableEq

/-- A channel, before it is prepared and until it is closed. -/
inductive State where
  | opened
  | fsread (fd : Nat) (startTag : String) (queue : List Bytes) (outBuffer : Option Bytes)
  | fsreplace (fd : Nat) (expectedTag : Option String) (gotContent : Bool)
  | closed
  deriving DecidableEq

/-- `cockpit_channel_send`, with `trust_is_utf8` unset. -/
def sendText (outBuffer : Option Bytes) (payload : Bytes) : List Bytes × Option Bytes :=
  let data := outBuffer.getD [] ++ payload
  if hasIncompleteEnding data then ([], some data) else ([forceUtf8 data], none)

/-- `flush_buffer` -/
def flushText (outBuffer : Option Bytes) : List Bytes := outBuffer.toList.map forceUtf8

/-- The functions of `Channel` do the same. -/
theorem send_eq_sendText (c : Channel) (hbin : c.binaryOk = false) (payload : Bytes) :
    (c.send payload false).payloads = c.payloads ++ (sendText c.outBuffer payload).1 ∧
      (c.send payload false).outBuffer = (sendText c.outBuffer payload).2 := by
  have hholds : c.holdsBack payload false =
      hasIncompleteEnding (c.outBuffer.getD [] ++ payload) := by
    simp [holdsBack, hbin]
  unfold sendText
  dsimp only
  split
  · rename_i hinc
    rw [send_of_holdsBack (hholds.trans hinc)]
    exact ⟨(List.append_nil _).symm, rfl⟩
  rename_i hcompl
  have hcompl' : c.holdsBack payload false = false := by
    rw [hholds]
    simpa using hcompl
  rw [send_of_not_holdsBack hcompl']
  refine ⟨?_, rfl⟩
  simp [Channel.payloads, Wire.payload?, hbin]

/-- What happens to a text channel; `flush_buffer` runs when its timeout comes. -/
theorem flushBuffer_eq_flushText (c : Channel) (hbin : c.binaryOk = false) :
    c.flushBuffer.payloads = c.payloads ++ flushText c.outBuffer ∧
      c.flushBuffer.outBuffer = none := by
  unfold Channel.flushBuffer flushText
  cases hbuf : c.outBuffer with
  | none => exact ⟨(List.append_nil _).symm, hbuf⟩
  | some data => simp [Channel.actualSend, Channel.payloads, Wire.payload?, hbin]

/-! ### `fsread1` -/

/-- `DEFAULT_MAX_READ_SIZE` -/
def maxReadSize : Nat := 16 * 1024 * 1024

/-- The loop of `push_bytes`. -/
def pushSlices (bytes : Bytes) : List Bytes :=
  if bytes = [] then [] else bytes.take 4096 :: pushSlices (bytes.drop 4096)
  termination_by bytes.length
  decreasing_by
    rename_i hne
    have hpos := List.length_pos_of_ne_nil hne
    rw [List.length_drop]
    omega

/-- `push_bytes` -/
def pushBytes (bytes : Bytes) : List Bytes :=
  if bytes.length < 8192 then [bytes] else pushSlices bytes

/-- The problem that an error is reported with. -/
def problemOf (errn : Errno) : String :=
  if errn = .perm ∨ errn = .acces then "access-denied" else "internal-error"

/-- `cockpit_fsread_prepare`; `error` is whether `open` fails although there is a file. -/
def fsreadPrepare (error : Option Errno) : State × List Sent :=
  match d.path with
  | none => (.closed, [.close none (some "-")])
  | some fd =>
    match error with
    | some errn => (.closed, [.close (some (problemOf errn)) none])
    | none =>
      let content := ((d.nodes[fd]?).map Node.content).getD []
      if maxReadSize < content.length then (.closed, [.close (some "too-large") none])
      else (.fsread fd (d.getFileTagFromFd fd) (pushBytes content) none, [])

/-- `on_idle_send_block`; `cockpit_channel_close` flushes what is held back. -/
def onIdleSendBlock (startTag : String) (queue : List Bytes)
    (outBuffer : Option Bytes) : State × List Sent :=
  match queue with
  | [] =>
    let tag := d.getFileTagFromFd fd
    let close : Sent :=
      if tag = startTag then .close none (some tag) else .close (some "change-conflict") none
    (.closed, .done :: (flushText outBuffer).map .payload ++ [close])
  | payload :: queue =>
    let sent := sendText outBuffer payload
    (.fsread fd startTag queue sent.2, sent.1.map .payload)

/-! ### `fsreplace1` -/

/-- What the system calls come to, and the `stat` that a file has afterwards. -/
structure Io where
  /-- `open`, `write` or `fsync`. -/
  error : Option Errno := none
  /-- How much of a message was written before an error. -/
  wrote : Nat := 0
  /-- `rename`, or `unlink` of the path. -/
  commitError : Option Errno := none
  stat : Stat
  deriving DecidableEq

variable (expectedTag : Option String)

/-- `cockpit_fsreplace_prepare`; `open` makes a file of a new name. -/
def fsreplacePrepare (io : Io) : Disk × State × List Sent :=
  if expectedTag.isSome ∧ expectedTag ≠ some d.getFileTag then
    (d, .closed, [.close (some "change-conflict") none])
  else
    match io.error with
    | some errn => (d, .closed, [.close (some (problemOf errn)) none])
    | none =>
      ({ d with nodes := d.nodes ++ [⟨[], io.stat⟩] }, .fsreplace d.nodes.length expectedTag false, [])

/-- `write` of some bytes at the end of a file. -/
def Disk.write (data : Bytes) (stat : Stat) : Disk :=
  { d with nodes := d.nodes.modify fd (fun node => ⟨node.content ++ data, stat⟩) }

/-- `cockpit_fsreplace_recv` -/
def fsreplaceRecv (data : Bytes) (io : Io) :
    Disk × State × List Sent :=
  match io.error with
  | some errn =>
    (d.write fd (data.take io.wrote) io.stat, .closed, [.close (some (problemOf errn)) none])
  | none =>
    if data = [] then (d, .fsreplace fd expectedTag true, [])
    else (d.write fd data io.stat, .fsreplace fd expectedTag true, [])

/-- `cockpit_fsreplace_control`, for "done". -/
def fsreplaceDone (gotContent : Bool) (io : Io) :
    Disk × State × List Sent :=
  match io.error with
  | some errn => (d, .closed, [.close (some (problemOf errn)) none])
  | none =>
    if expectedTag.isSome ∧ expectedTag ≠ some d.getFileTag then
      (d, .closed, [.close (some "out-of-date") none])
    else if gotContent then
      let newTag := d.getFileTagFromFd fd
      match io.commitError with
      | some errn => (d, .closed, [.close (some (problemOf errn)) (some newTag)])
      | none => ({ d with path := some fd }, .closed, [.close none (some newTag)])
    else
      match io.commitError with
      | some errn => (d, .closed, [.close (some (problemOf errn)) (some "-")])
      | none => ({ d with path := none }, .closed, [.close none (some "-")])

/-! ### Steps of a channel -/

/-- The idle callback that prepares a channel. -/
def prepare (options : Options) (io : Io) : Disk × State × List Sent :=
  match options with
  | .fsread => (d, fsreadPrepare d io.error)
  | .fsreplace tag => fsreplacePrepare d tag io

/-- A message that is delivered to a channel; "close" echoes the problem. -/
def receive (state : State) (message : Received) (io : Io) : Disk × State × List Sent :=
  match state, message with
  | .fsread _ _ _ outBuffer, .close problem =>
    (d, .closed, (flushText outBuffer).map .payload ++ [.close (some problem) none])
  | .fsreplace _ _ _, .close problem => (d, .closed, [.close (some problem) none])
  | .fsread _ _ _ outBuffer, .payload _ =>
    (d, .closed, (flushText outBuffer).map .payload ++ [.close (some "protocol-error") none])
  | .fsreplace fd expectedTag _, .payload data => fsreplaceRecv d fd expectedTag data io
  | .fsreplace fd expectedTag gotContent, .done => fsreplaceDone d fd expectedTag gotContent io
  | state, _ => (d, state, [])

/-- A source of the main loop that belongs to a channel that sends a file. -/
def idle : State → State × List Sent
  | .fsread fd startTag queue outBuffer => onIdleSendBlock d fd startTag queue outBuffer
  | state => (state, [])

/-- The timeout of a channel; there is one while bytes are held back. -/
def flush : State → State × List Sent
  | .fsread fd startTag queue outBuffer =>
    (.fsread fd startTag queue none, (flushText outBuffer).map .payload)
  | state => (state, [])

end Fs

end Cockpit
