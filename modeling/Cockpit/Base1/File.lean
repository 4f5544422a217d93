import Cockpit.Bridge.Fs

namespace Cockpit.Page.File

/-!
# `src/base1/cockpit.js`: `cockpit.file`

Any number of handles that `cockpit.file(path)` made for one path, each of them with any number of
users, and the channels of one bridge that they talk to.  A channel has two ends, and the messages
between them are delivered in order.  The main loop of the bridge and the event loops of the pages
take their next step whenever they like; the handlers of promises that were settled (`Task`) run
some time later.

What a callback returns is part of the events.  How the browser turns text into the payload of a
message, and back, is `WebSocket`.
-/

open Fs

/-! ## State -/

/-- A JavaScript string: its code units. -/
abbrev Text := List UInt16

/-- The text messages of the browser. -/
structure WebSocket where
  decode : Bytes → Text
  encode : Text → Bytes

/-- Who opened a channel: `read`, or `replace` for a call of `modify`. -/
inductive Owner where
  | read
  | replace (call : Nat) (newContent : Option Text)

/-- A channel, with the messages that are on their way. -/
structure Channel where
  handle : Nat
  owner : Owner
  options : Options
  valid : Bool := true
  receivedDone : Bool := false
  contentParts : List Text := []
  outgoing : List Received
  incoming : List Sent := []
  server : Fs.State := .opened

structure Handle where
  /-- `read_promise`, as the calls of `modify` that wait for it. -/
  readPromise : Option (List Nat) := none
  readChannel : Option Nat := none
  replaceChannel : Option Nat := none

/-- A handler of a promise that was settled, for a call of `modify`. -/
inductive Task where
  | update (handle call : Nat) (content : Option Text) (tag : Option String)
  | readFailed (call : Nat) (problem : String)
  | replaced (call : Nat) (newContent : Option Text) (newTag : Option String)
  | replaceFailed (handle call : Nat) (problem : String)

/-- History: a call of a callback that led to a call of `replace`. -/
structure Update where
  call : Nat
  content : Option Text
  tag : Option String
  newContent : Option Text
  /-- The channel that `replace` opened. -/
  channel : Nat
  deriving DecidableEq

/-- History: a `rename` or an `unlink`. -/
structure Commit where
  channel : Nat
  replaced : Version
  version : Version
  deriving DecidableEq

/-- How a call of `modify` ended. -/
inductive Outcome where
  | resolved (newContent : Option Text) (newTag : Option String)
  | rejected (problem : String)
  deriving DecidableEq

structure World where
  disk : Disk
  channels : List Channel := []
  handles : Nat → Handle := fun _ => {}
  /-- The number of calls of `modify`. -/
  calls : Nat := 0
  tasks : List Task := []
  updates : List Update := []
  commits : List Commit := []
  outcomes : List (Nat × Outcome) := []

namespace World

/-- A path that leads to a version, before anything happens. -/
def start (first : Version) : World where
  disk := ⟨first.toList, first.map (fun _ => 0)⟩

variable (s : World) (h : Nat)

def setHandle (handle : Handle) : World :=
  { s with handles := Function.update s.handles h handle }

variable (ch : Nat)

def setChannel (f : Channel → Channel) : World :=
  { s with channels := s.channels.modify ch f }

def later (tasks : List Task) : World := { s with tasks := s.tasks ++ tasks }

def settle (call : Nat) (outcome : Outcome) : World :=
  { s with outcomes := s.outcomes ++ [(call, outcome)] }

/-! ## `read` -/

/-- `try_read` -/
def tryRead : World :=
  { s with
    channels := s.channels ++ [{ handle := h, owner := .read, options := .fsread, outgoing := [] }]
    handles := Function.update s.handles h
      { s.handles h with readChannel := some s.channels.length } }

/-- `read`; `waiting` is whose handlers are added to the promise. -/
def read (waiting : List Nat) : World :=
  match (s.handles h).readPromise with
  | some before => s.setHandle h { s.handles h with readPromise := some (before ++ waiting) }
  | none =>
    let s := s.tryRead h
    s.setHandle h { s.handles h with readPromise := some waiting }

/-! ## Closing -/

/-- `if (message.problem)` -/
def failed (problem : Option String) : Bool := problem.getD "" != ""

/-- The handler of "close" in `try_read`. -/
def readClosed (parts : List Text) (problem tag : Option String) : World :=
  let s := s.setHandle h { s.handles h with readChannel := none }
  if problem = some "change-conflict" then s.tryRead h
  else
    let waiting := ((s.handles h).readPromise).getD []
    let s := s.setHandle h { s.handles h with readPromise := none }
    if failed problem then s.later (waiting.map (.readFailed · (problem.getD "")))
    else
      let content := if tag = some "-" then none else some parts.flatten
      s.later (waiting.map (.update h · content tag))

/-- The handler of "close" in `replace`. -/
def replaceClosed (call : Nat) (newContent : Option Text)
    (problem tag : Option String) : World :=
  let s := s.setHandle h { s.handles h with replaceChannel := none }
  if failed problem then s.later [.replaceFailed h call (problem.getD "")]
  else s.later [.replaced call newContent tag]

/-- `on_close` -/
def onClose (channel : Channel) (problem tag : Option String) : World :=
  let s := s.setChannel ch (fun c => { c with valid := false })
  match channel.owner with
  | .read => s.readClosed channel.handle channel.contentParts problem tag
  | .replace call newContent => s.replaceClosed channel.handle call newContent problem tag

/-- `close` of a channel. -/
def close (problem : String) : World :=
  match s.channels[ch]? with
  | none => s
  | some channel =>
    if !channel.valid then s
    else
      let s := s.setChannel ch (fun c => { c with outgoing := c.outgoing ++ [.close problem] })
      s.onClose ch channel (some problem) none

/-- `close` of a channel, where there is one. -/
def closeAny (ch : Option Nat) (problem : String) : World :=
  match ch with
  | none => s
  | some ch => s.close ch problem

/-! ## `replace` and `modify` -/

/-- The loop of `replace`, over the batches of a text. -/
def batches (text : Text) : List Text :=
  if text = [] then [] else text.take (16 * 1024) :: batches (text.drop (16 * 1024))
  termination_by text.length
  decreasing_by
    rename_i hne
    have hpos := List.length_pos_of_ne_nil hne
    rw [List.length_drop]
    omega

variable (ws : WebSocket)

/-- `replace` -/
def replace (h call : Nat) (newContent : Option Text)
    (expectedTag : Option String) : World :=
  let s := s.closeAny (s.handles h).replaceChannel "abort"
  let payloads := (batches (newContent.getD [])).map (fun batch => Received.payload (ws.encode batch))
  { s with
    channels := s.channels ++
      [{ handle := h, owner := .replace call newContent, options := .fsreplace expectedTag
         outgoing := payloads ++ [.done] }]
    handles := Function.update s.handles h
      { s.handles h with replaceChannel := some s.channels.length } }

/-- What a callback comes to. -/
inductive CallbackResult where
  | undefined
  | returns (content : Option Text)
  | throws

/-- `update`, once the callback has returned. -/
def update (h call : Nat) (content newContent : Option Text)
    (tag : Option String) : World :=
  let s := s.replace ws h call newContent tag
  { s with updates := s.updates ++ [⟨call, content, tag, newContent, s.channels.length - 1⟩] }

/-- `modify`; the callback is what the updates are about. -/
def modify : World :=
  ({ s with calls := s.calls + 1 } : World).read h [s.calls]

/-- A handler runs. -/
def runTask (result : CallbackResult) : Task → World
  | .update h call content tag =>
    match result with
    | .undefined => s.update ws h call content content tag
    | .returns newContent => s.update ws h call content newContent tag
    | .throws => s
  | .readFailed call problem => s.settle call (.rejected problem)
  | .replaced call newContent newTag => s.settle call (.resolved newContent newTag)
  | .replaceFailed h call problem =>
    if problem = "change-conflict" then s.read h [call]
    else s.settle call (.rejected problem)

/-! ## Messages -/

/-- `on_message` and `on_control`; there is no handler of "message" in `replace`. -/
def deliver (ch : Nat) (channel : Channel) : Sent → World
  | .payload data =>
    if channel.receivedDone then s.close ch "protocol-error"
    else
      match channel.owner with
      | .read =>
        s.setChannel ch (fun c => { c with contentParts := c.contentParts ++ [ws.decode data] })
      | .replace _ _ => s
  | .done =>
    if channel.receivedDone then s.close ch "protocol-error"
    else s.setChannel ch (fun c => { c with receivedDone := true })
  | .close problem tag => s.onClose ch channel problem tag

/-- What a channel of the bridge did. -/
def serve (result : Disk × Fs.State × List Sent) : World :=
  ({ s with disk := result.1 } : World).setChannel ch (fun c => { c with
    server := result.2.1, incoming := c.incoming ++ result.2.2 })

/-- Whether a message made a channel replace the file. -/
def committed (state : Fs.State) (message : Received) (sent : List Sent) : Bool :=
  match state, message, sent with
  | .fsreplace _ _ _, .done, [.close none _] => true
  | _, _, _ => false

/-- A channel of the bridge receives a message. -/
def receive (channel : Channel) (message : Received) (io : Io) : World :=
  let result := Fs.receive s.disk channel.server message io
  let t := s.serve ch result
  if committed channel.server message result.2.2 then
    { t with commits := t.commits ++ [⟨ch, s.disk.version, t.disk.version⟩] }
  else t

/-! ## Runs -/

/-- What happens. -/
inductive Event where
  /-- `modify` of a handle, without initial content. -/
  | modify (handle : Nat)
  /-- `read` of a handle, by somebody else. -/
  | read (handle : Nat)
  /-- `close` of a handle. -/
  | close (handle : Nat)
  /-- A handler of a promise runs, and what its callback comes to. -/
  | task (i : Nat) (result : CallbackResult)
  /-- The page receives the next message of a channel. -/
  | deliver (channel : Nat)
  /-- The page loses its connection to a channel. -/
  | lost (channel : Nat)
  /-- The bridge prepares a channel. -/
  | prepare (channel : Nat) (io : Io)
  /-- The bridge receives the next message of a channel. -/
  | receive (channel : Nat) (io : Io)
  /-- A channel sends the next part of a file. -/
  | idle (channel : Nat)
  /-- The timeout of a channel. -/
  | flush (channel : Nat)

/-- The steps of a page. -/
def pageStep (ch : Nat) (channel : Channel) : World :=
  match channel.incoming with
  | [] => s
  | message :: rest =>
    let t := s.setChannel ch (fun c => { c with incoming := rest })
    if channel.valid then t.deliver ws ch { channel with incoming := rest } message else t

/-- A channel of the bridge receives its next message, if it is prepared. -/
def bridgeStep (channel : Channel) (io : Io) : World :=
  if channel.server = .opened then s
  else
    match channel.outgoing with
    | [] => s
    | message :: rest =>
      (s.setChannel ch (fun c => { c with outgoing := rest })).receive ch
        { channel with outgoing := rest } message io

def channelStep (ch : Nat) (channel : Channel) : Event → World
  | .deliver _ => s.pageStep ws ch channel
  | .lost _ => if channel.valid then s.onClose ch channel (some "disconnected") none else s
  | .prepare _ io =>
    if channel.server = .opened then s.serve ch (Fs.prepare s.disk channel.options io) else s
  | .receive _ io => s.bridgeStep ch channel io
  | .idle _ => s.serve ch (s.disk, Fs.idle s.disk channel.server)
  | .flush _ => s.serve ch (s.disk, Fs.flush channel.server)
  | _ => s

/-- The channel that an event is about. -/
def Event.channel : Event → Option Nat
  | .deliver ch | .lost ch | .prepare ch _ | .receive ch _ | .idle ch | .flush ch => some ch
  | _ => none

def step (s : World) (e : Event) : World :=
  match e with
  | .modify h => s.modify h
  | .read h => s.read h []
  | .close h =>
    (s.closeAny (s.handles h).readChannel "cancelled").closeAny (s.handles h).replaceChannel
      "cancelled"
  | .task i result =>
    match s.tasks[i]? with
    | none => s
    | some task => ({ s with tasks := s.tasks.eraseIdx i } : World).runTask ws result task
  | e =>
    match e.channel with
    | none => s
    | some ch =>
      match s.channels[ch]? with
      | none => s
      | some channel => s.channelStep ws ch channel e

end World

end Cockpit.Page.File
