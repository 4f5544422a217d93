import Cockpit.Kubernetes.Client

namespace Cockpit.Kube

/-!
# `pkg/kubernetes/scripts/kube-client-cockpit.js`: `CockpitKubeWatch`

A loader is given the implementation of its watches (`KubeWatch`): what a watch is at first, what
happens to it, and what stops it.  Each of these calls the loader back with lists of frames, at once
and in order.

`CockpitKubeWatch` makes one HTTP request after the other.  Each change comes as a line of JSON, and
`parse` is `JSON.parse`.
-/

/-- A dict of resources. -/
abbrev Objects := AList fun _ : String => Resource

/-- What a watch tells about a resource. -/
structure Frame where
  type : String
  object : Option Resource
  checkResourceVersion : Bool := false
deriving DecidableEq, Repr

/-- An implementation of `KubeWatch`. -/
structure KubeWatch where
  State : Type
  Event : Type
  create : String → State
  step : State → Event → State × List (List Frame)
  cancel : State → State × List (List Frame)

/-- A request of `startWatch`, with the variables that are its own. -/
structure Request where
  full : Bool
  /-- `response.status` -/
  status : Option Nat := none
  /-- It took a second at least. -/
  blocked : Bool := false
deriving DecidableEq, Repr

def Request.failed (request : Request) : Bool := request.status.any (299 < ·)

/-- The variable `loading`; a timer may go on when it is not held any more. -/
inductive Loading where
  | undefined
  | false
  | timer (n : Nat)
deriving DecidableEq, Repr

structure CockpitKubeWatch where
  path : String
  lastResource : Option String := none
  stopping : Bool := false
  /-- `cockpitKubeDiscover` has not answered. -/
  discovering : Bool := true
  channel : Option Request := none
  wait : Bool := false
  loaded : Bool := false
  /-- The resources that were last told of, by their `uid`. -/
  objects : Objects := ∅
  previous : Option Objects := none
  loading : Loading := .undefined
  /-- The timers that call `loadFinish`, and how many there were. -/
  timers : List Nat := []
  timersMade : Nat := 0
  buffer : List Char := []

namespace CockpitKubeWatch

variable (w : CockpitKubeWatch)

def loadPoke (force : Bool) : CockpitKubeWatch :=
  if force ∨ w.loading ≠ .undefined then
    let timers := match w.loading with
      | .timer n => w.timers.erase n
      | _ => w.timers
    { w with
      loading := .timer w.timersMade
      timers := timers ++ [w.timersMade]
      timersMade := w.timersMade + 1 }
  else w

def loadBegin (full : Bool) : CockpitKubeWatch :=
  if full then { w with previous := some w.objects, objects := ∅ }.loadPoke true
  else { w with previous := none }.loadPoke true

/-- Those of `prev` that have gone. -/
def goneFrames (prev objects : Objects) : List Frame :=
  (prev.entries.filter (fun e => e.1 ∉ objects)).map (fun e => ⟨"DELETED", some e.2, false⟩)

def loadFinish : CockpitKubeWatch × List (List Frame) :=
  if w.loaded then (w, [])
  else
    let frames := goneFrames (w.previous.getD ∅) w.objects
    ({ w with loaded := true, previous := none }, (if frames = [] then [] else [frames]) ++ [[]])

def startWatch : CockpitKubeWatch :=
  if w.channel.isSome then w
  else { w with channel := some { full := !truthy w.lastResource } }

def startWatchLater : CockpitKubeWatch := { w with wait := true }

/-- The request has ended. -/
def closed (request : Request) (problem : Bool) :
    CockpitKubeWatch × List (List Frame) :=
  let w := { w with channel := none, loading := .false }
  if w.stopping then (w, [])
  else if problem then
    let (w, passed) := w.loadFinish
    (w.startWatchLater, passed)
  else if request.failed then
    let (w, passed) := w.loadFinish
    -- it is not tried again
    if request.status ∈ [some 404, some 410, some 403] then (w, passed)
    else (w.startWatchLater, passed)
  else if !request.blocked then (w.startWatchLater, [])
  else (w.startWatch, [])

/-- Lines that have ended, and what comes after the last of them. -/
def splitLines : List Char → List (List Char) × List Char
  | [] => ([], [])
  | c :: rest =>
    if c = '\n' then ([] :: (splitLines rest).1, (splitLines rest).2)
    else
      match splitLines rest with
      | ([], last) => ([], c :: last)
      | (line :: lines, last) => ((c :: line) :: lines, last)

section

-- `JSON.parse`: it throws, or returns `null`, or something that may be a frame
variable (parse : List Char → Option (Option Frame))

/-- The lines of a message.  The list of frames grows, and so do the lists that were passed to the
    callback; `none` instead of the frames when a line raises an error. -/
def handleLines : List (List Char) → CockpitKubeWatch → List Frame → List (List Frame) →
    CockpitKubeWatch × List (List Frame) × Option (List Frame)
  | [], w, frames, passed => (w, passed, some frames)
  | line :: lines, w, frames, passed =>
    match parse line with
    | none =>
      -- the line cannot be parsed, and this ends the request
      match w.channel with
      | none => (w, passed, none)
      | some request =>
        handleLines lines (w.closed request false).1 frames (passed ++ (w.closed request false).2)
    | some none => (w, passed, none)
    | some (some frame) =>
      match frame.object with
      | none => handleLines lines w frames passed
      | some object =>
        if frame.type = "ERROR" then
          if truthy w.lastResource then
            handleLines lines { w with lastResource := none }.startWatch frames passed
          else handleLines lines w frames passed
        else
          match object.metadata with
          | none => handleLines lines w frames passed
          | some metadata =>
            if (!truthy metadata.uid && object.kind != some "Project") || !truthy object.kind then
              handleLines lines w frames passed
            else
              let uid := metadata.uid.getD "undefined"
              handleLines lines { w with
                lastResource := metadata.resourceVersion
                objects := if frame.type = "DELETED" then w.objects.erase uid
                  else w.objects.insert uid object }
                (frames ++ [frame]) passed

def handleWatch (w : CockpitKubeWatch) (data : List Char) : CockpitKubeWatch × List (List Frame) :=
  let split := splitLines (w.buffer ++ data)
  match handleLines parse split.1 { w with buffer := split.2 } [] [] with
  | (w, passed, some frames) => (w.loadPoke false, passed ++ [frames])
  | (w, passed, none) => (w, passed)

inductive Event where
  /-- `cockpitKubeDiscover` answers. -/
  | discovered (ok : Bool)
  | response (status : Nat)
  | message (payload : List Char)
  | close (problem : Bool)
  /-- The request has taken a second. -/
  | blocked
  | loadTimeout (n : Nat)
  | waitTimeout
deriving DecidableEq, Repr

def step (w : CockpitKubeWatch) : Event → CockpitKubeWatch × List (List Frame)
  | .discovered ok =>
    if !w.discovering then (w, [])
    else if ok then ({ w with discovering := false }.startWatch, [])
    else { w with discovering := false }.loadFinish
  | .response status =>
    match w.channel with
    | none => (w, [])
    | some request =>
      ({ w with channel := some { request with status := some status } }.loadBegin request.full, [])
  | .message payload =>
    match w.channel with
    | none => (w, [])
    | some request => if request.failed then (w, []) else handleWatch parse w payload
  | .close problem =>
    match w.channel with
    | none => (w, [])
    | some request => w.closed request problem
  | .blocked =>
    match w.channel with
    | none => (w, [])
    | some request => ({ w with channel := some { request with blocked := true } }, [])
  | .loadTimeout n =>
    if n ∈ w.timers then { w with timers := w.timers.erase n }.loadFinish else (w, [])
  | .waitTimeout => if w.wait then ({ w with wait := false }.startWatch, []) else (w, [])

def cancel : CockpitKubeWatch × List (List Frame) :=
  let w := { w with stopping := true }
  let w := match w.channel with
    | none => w
    | some request => (w.closed request true).1
  { w with wait := false }.loadFinish

/-- The implementation that the pages are given. -/
abbrev implementation : KubeWatch where
  State := CockpitKubeWatch
  Event := Event
  create path := { path := path }
  step := step parse
  cancel := cancel

end

/-- A watch that was not cancelled, or that has a request all the same. -/
def isOpen : Bool := !w.stopping || w.channel.isSome

end CockpitKubeWatch

end Cockpit.Kube
