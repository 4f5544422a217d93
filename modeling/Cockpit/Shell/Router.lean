import Cockpit.Base1.Channels
import Cockpit.Common.GLib

namespace Cockpit.Shell

open Page (truthy isString)

/-!
# `Router` of `pkg/shell/base_index.js`

The shell passes messages between the frames and its own transport.  Frames are windows; a window
has a name that may change, may be closed, and may be no frame at all.  `log` is the history of
what goes to windows, to the transport and to the channels of the shell itself.

Left out is what `index` does with "jump", "hint", "oops" and a followed location, except that it
may remove frames while `register` runs.
-/

/-- A message: a string, an `ArrayBuffer`, or something else. -/
inductive Data where
  | text (text : String)
  | binary (data : Bytes)
  | other
  deriving DecidableEq

/-- What a page is given: JSON, and the options of its transport. -/
structure Setup where
  /-- `JSON.parse`, `none` where it throws. -/
  parse : String → Option Json
  /-- `JSON.stringify` -/
  stringify : Json → String
  /-- `cockpit.transport.options` and its "channel-seed". -/
  options : JsonObject := []
  channelSeed : String := ""

variable (S : Setup)

/-- The seed of the registration with number `id`. -/
def Setup.seed (id : Nat) : String :=
  (if S.channelSeed = "" then "undefined:" else S.channelSeed) ++ toString id ++ "!"

structure Window where
  name : String := ""
  closed : Bool := false
  /-- Whether it is the window of a frame. -/
  framed : Bool := true

/-- A `source` -/
structure Source where
  name : String
  window : Nat
  channelSeed : String
  defaultHost : String
  inited : Bool := false
  deriving DecidableEq

namespace Router

/-- What a lookup by name gives: every object has members such as "constructor". -/
inductive Found where
  | none
  | inherited
  | source (i : Nat)
  deriving DecidableEq

inductive Entry where
  /-- `cockpit.transport.inject` of a window's message, and what was found under its name. -/
  | inject (child : Nat) (data : Data) (found : Found)
  | post (window : Nat) (message : Data)
  /-- A message of the bridge is delivered in the shell. -/
  | deliver (message : Data)
  /-- `cockpit.kill` -/
  | kill (group : Option String)
  /-- `source.inited = true` -/
  | inited (child : Nat)
  deriving DecidableEq

end Router

/-- The state of `Router`, and the windows that there are. -/
structure Router where
  windows : Nat → Window
  uniqueId : Nat := 0
  /-- All sources, also those that are no longer registered. -/
  sources : List Source := []
  sourceBySeed : AList (fun _ : String => Nat) := ∅
  sourceByName : AList (fun _ : String => Nat) := ∅
  log : List Router.Entry := []

namespace Router

variable (s : Router)

def record (entry : Entry) : Router := { s with log := s.log ++ [entry] }

/-! ### Names and seeds -/

/-- The members of `Object.prototype`. -/
def objectPrototype : List String :=
  ["constructor", "__defineGetter__", "__defineSetter__", "hasOwnProperty", "__lookupGetter__",
    "__lookupSetter__", "isPrototypeOf", "propertyIsEnumerable", "toString", "valueOf",
    "__proto__", "toLocaleString"]

/-- `source_by_name[name]` -/
def find (name : String) : Found :=
  match s.sourceByName.lookup name with
  | some i => .source i
  | none => if name ∈ objectPrototype then .inherited else .none

/-- The `host` of `register`, empty where the name has none. -/
def hostOf (name : String) : String :=
  if "cockpit1:".toList.isPrefixOf name.toList then
    String.ofList ((name.toList.drop 9).takeWhile (· ≠ '/'))
  else ""

/-- `channel.substring(0, channel.indexOf('!') + 1)`, if there is a '!'. -/
def seedOf (channel : String) : Option String :=
  if '!' ∈ channel.toList then some (String.ofList (channel.toList.takeWhile (· ≠ '!') ++ ['!']))
  else none

/-- `parse_channel` of `cockpit.js`. -/
def parseChannel : Data → Option String
  | .text text =>
    if '\n' ∈ text.toList then some (String.ofList (text.toList.takeWhile (· ≠ '\n'))) else none
  | .binary data =>
    let channel := data.takeWhile (· ≠ 10)
    if channel.length = data.length ∨ channel = [] then none
    else some (String.ofList (channel.map fun b => Char.ofNat b.toNat))
  | .other => none

/-! ### Sources -/

variable (w : Nat)

/-- `child.frameElement`, named by its window; a closed window has none. -/
def frameElement : Option Nat :=
  if (s.windows w).framed ∧ ¬ (s.windows w).closed then some w else none

/-- `postMessage` to a window, unless it is closed. -/
def postIfOpen (message : Data) : Router :=
  if (s.windows w).closed then s else s.record (.post w message)

/-- `unregister` -/
def unregister (i : Nat) : Router :=
  match s.sources[i]? with
  | none => s
  | some source =>
    let name := (s.windows source.window).name
    { s.record (.kill (if name = "" then none else some name)) with
      sourceBySeed := s.sourceBySeed.erase source.channelSeed
      sourceByName := s.sourceByName.erase source.name }

/-- `on_unload` for a window; what a name inherits is no source, and `unregister` throws. -/
def onUnload : Router :=
  match s.find (s.windows w).name with
  | .source i => s.unregister i
  | _ => s

/-- A window is closed; it stays so. -/
def close : Router :=
  { s with windows := Function.update s.windows w { s.windows w with closed := true } }

/-- A frame is taken out of the page: its window unloads and is closed. -/
def removeFrame : Router := (s.onUnload w).close w

/-- What a function comes to that gives a source, nothing, or throws. -/
inductive Outcome where
  | source (i : Nat)
  | nothing
  | threw

/-- A source for a window, under its seed and its name. -/
def addSource (s : Router) (child : Nat) (host : String) : Router :=
  let name := (s.windows child).name
  let seed := S.seed (s.uniqueId + 1)
  { s with
    uniqueId := s.uniqueId + 1
    sources := s.sources ++ [{ name, window := child, channelSeed := seed, defaultHost := host }]
    sourceBySeed := s.sourceBySeed.insert seed s.sources.length
    sourceByName := s.sourceByName.insert name s.sources.length }

/-- `register`; `removed` are the frames that `index` removes in it. -/
def register (s : Router) (child : Nat) (removed : List Nat) : Router × Outcome :=
  let host := hostOf (s.windows child).name
  if host = "" then (s, .nothing)
  -- `frame.addEventListener` without a frame
  else if s.frameElement child = none then (s.addSource S child host, .threw)
  else (removed.foldl removeFrame (s.addSource S child host), .source s.sources.length)

/-- `self.hint` -/
def hint (S : Setup) (s : Router) (child : Nat) (data : JsonObject) : Router :=
  match s.find (s.windows child).name with
  | .source i =>
    match s.sources[i]? with
    | none => s
    | some source =>
      if source.inited then
        s.postIfOpen source.window
          (.text ("\n" ++ S.stringify (.object (data.setMember "command" (.string "hint")))))
      else s
  | _ => s

/-- The answer to "init". -/
def initReply (source : Source) : Data :=
  .text ("\n" ++ S.stringify (.object (((S.options.setMember "command" (.string "init")).setMember
    "host" (.string source.defaultHost)).setMember "channel-seed" (.string source.channelSeed))))

/-- `source.inited = true` -/
def setInited (i : Nat) : Router :=
  { s with sources := s.sources.modify i fun source => { source with inited := true } }

/-- The answer, and what follows a registration; `current` is the current frame. -/
def complete (s : Router) (child i : Nat) (current : Option Nat) : Router × Outcome :=
  match s.sources[i]? with
  | none => (s, .threw)
  | some source =>
    let s := ((s.record (.post child (initReply S source))).record (.inited child)).setInited i
    if s.frameElement child = current then (s, .source i)
    else
      match s.frameElement child with
      | none => (s, .threw)
      | some w => (s.hint S w [("hidden", .bool true)], .source i)

/-! ### `message_handler` -/

/-- The branch for "init". -/
def init (s : Router) (child : Nat) (control : JsonObject) (removed : List Nat)
    (current : Option Nat) : Router × Outcome :=
  match s.find (s.windows child).name with
  | .inherited => (s, .threw)
  | found =>
    let s := match found with
      | .source i => s.unregister i
      | _ => s
    if truthy (control.getMember "problem") then (s, .nothing)
    else
      match s.register S child removed with
      | (s, .source i) => s.complete S child i current
      | result => result

/-- The end of `message_handler`. -/
def forward (child : Nat) (text : String) (found : Found) : Router :=
  match found with
  | .none => s
  | found => s.record (.inject child (.text text) found)

/-- `value == text`; a list is compared by its only element. -/
def looseEq : Json → String → Bool
  | .string s, text => s == text
  | .array [x], text => looseEq x text
  | _, _ => false

/-- `control.command == command` -/
def commandIs (control : JsonObject) (command : String) : Bool :=
  match control.getMember "command" with
  | some value => looseEq value command
  | none => false

/-- A control message of a window. -/
def onControl (s : Router) (child : Nat) (text : String) (control : JsonObject)
    (removed : List Nat) (current : Option Nat) : Router :=
  let name := (s.windows child).name
  if isString (control.getMember "command") "init" then
    match s.init S child control removed current with
    | (s, .source i) => s.forward child text (.source i)
    | (s, _) => s
  else if isString (control.getMember "command") "jump" then s
  else if commandIs control "logout" ∨ commandIs control "kill" then
    s.forward child text (s.find name)
  else if isString (control.getMember "command") "hint" then s
  else if commandIs control "oops" then s
  else if (control.getMember "channel").isNone then s
  else if commandIs control "open" then
    s.forward child
      ("\n" ++ S.stringify (.object (control.setMember "group" (.string name)))) (s.find name)
  else s.forward child text (s.find name)

/-- A text message of a window. -/
def onText (s : Router) (child : Nat) (text : String) (removed : List Nat)
    (current : Option Nat) : Router :=
  match text.toList with
  | [] =>
    match s.find (s.windows child).name with
    | .source i => s.unregister i
    | _ => s
  | '\n' :: rest =>
    match S.parse (String.ofList rest) with
    | none => s
    -- reading a member of `null` throws
    | some .null => s
    | some (.object control) => s.onControl S child text control removed current
    -- any other value has neither a command nor a channel
    | some _ => s
  | _ => s.forward child text (s.find (s.windows child).name)

/-- `message_handler` -/
def messageHandler (s : Router) (sameOrigin : Bool) (child : Option Nat) (data : Data)
    (removed : List Nat) (current : Option Nat) : Router :=
  if ¬ sameOrigin then s
  else
    match child, data with
    | none, _ => s
    | some child, .binary data => s.record (.inject child (.binary data) .none)
    | some child, .text text => s.onText S child text removed current
    | some _, .other => s

/-! ### The filter of the transport -/

/-- A message for all sources, in the order in which they were registered. -/
def broadcast (message : Data) : Router :=
  (s.sourceBySeed.entries.reverse.map Sigma.snd).foldl
    (fun s i =>
      match s.sources[i]? with
      | none => s
      | some source => s.postIfOpen source.window message) s

/-- Whether a control message has a channel. -/
def hasChannel : Json → Bool
  | .object control => JsonObject.hasMember control "channel"
  | _ => false

/-- A message of the bridge goes through the filter, and to the channels of the shell unless it
    is stopped. -/
def incoming (s : Router) (message : Data) : Router :=
  match parseChannel message with
  | none => s
  | some channel =>
    if channel = "" then
      match message with
      | .text text =>
        match S.parse (String.ofList (text.toList.drop 1)) with
        | none => s
        | some control =>
          (if hasChannel control then s.broadcast message else s).record (.deliver message)
      | _ => s
    else
      match seedOf channel >>= fun seed => s.sourceBySeed.lookup seed with
      | none => s.record (.deliver message)
      | some i =>
        match s.sources[i]? with
        | none => s
        | some source => s.postIfOpen source.window message

/-! ### Steps -/

inductive Event where
  /-- A message for the shell's window, with what `index` does and shows meanwhile. -/
  | message (sameOrigin : Bool) (child : Option Nat) (data : Data) (removed : List Nat)
      (current : Option Nat)
  /-- A message of the bridge. -/
  | incoming (message : Data)
  | unload (w : Nat)
  | rename (w : Nat) (name : String)
  | close (w : Nat)
  /-- `index` tells a frame something. -/
  | hint (w : Nat) (data : JsonObject)

def step (s : Router) : Event → Router
  | .message sameOrigin child data removed current =>
    s.messageHandler S sameOrigin child data removed current
  | .incoming message => s.incoming S message
  | .unload w => s.onUnload w
  | .rename w name =>
    { s with windows := Function.update s.windows w { s.windows w with name := name } }
  | .close w => s.close w
  | .hint w data => s.hint S w data

/-- A shell with these windows, before anything was registered. -/
def start (windows : Nat → Window) : Router := { windows }

end Router

end Cockpit.Shell
