import Cockpit.Kubernetes.WatchLines
import Cockpit.Lib.Run
import Cockpit.Lib.Updates

namespace Cockpit.Kube

open CockpitKubeWatch

/-!
# `CockpitKubeWatch` and a server

A server has a log of the changes of its objects.  A request without `resourceVersion` is answered
with all objects that there are, and one with it by the changes since then; what changes later
follows.  What is sent comes in messages that are cut anywhere.

* `Converged` — what a watch is for;
* `StepOk` — what the steps of a run keep to, so that it is.
-/

variable {parse : List Char → Option (Option Frame)}

/-! ## Objects -/

/-- A `uid`, or the name of a project that has none. -/
abbrev Identity := Option String × Option String

def Resource.identity (resource : Resource) : Identity :=
  let uid := resource.metadata.bind fun metadata => metadata.uid
  if truthy uid then (uid, none) else (none, resource.metadata.bind fun metadata => metadata.name)

/-- What a frame says of an object. -/
def Frame.update (frame : Frame) : Option (Lib.Update Identity Resource) :=
  frame.object.map fun object =>
    (object.identity, if frame.type = "DELETED" then none else some object)

def Change.update (c : Change parse) : Lib.Update Identity Resource :=
  (c.resource.identity, if c.frame.type = "DELETED" then none else some c.resource)

/-- The objects, for whoever applies all frames. -/
def view (frames : List Frame) : Lib.Table Identity Resource :=
  Lib.Table.updates (fun _ => none) (frames.filterMap Frame.update)

/-- The objects after some changes. -/
def existing (changes : List (Change parse)) : Lib.Table Identity Resource :=
  Lib.Table.updates (fun _ => none) (changes.map Change.update)

/-! ## The server -/

/-- How much a server has told, up to the last line that has come. -/
structure Progress where
  /-- How many lines of a full listing are yet to come, if there was one that did not end early. -/
  listing : Option Nat := none
  /-- How many changes are known of. -/
  position : Nat := 0
  /-- How many were known of at any time. -/
  newest : Nat := 0
deriving DecidableEq, Repr

def Progress.line (progress : Progress) : Line parse → Progress
  | .change _ =>
    match progress.listing with
    | some (n + 1) => { progress with listing := some n }
    | _ => { progress with
        position := progress.position + 1
        newest := max progress.newest (progress.position + 1) }
  | .error _ => progress

/-- All that was there when the response began is known of, and nothing comes a second time. -/
def Progress.complete (progress : Progress) : Prop :=
  progress.listing = some 0 ∧ progress.newest ≤ progress.position

instance (progress : Progress) : Decidable progress.complete :=
  inferInstanceAs (Decidable (_ ∧ _))

structure World (parse : List Char → Option (Option Frame)) where
  watch : CockpitKubeWatch
  /-- All frames that were passed to the callback. -/
  passed : List Frame := []
  /-- Those that were passed when messages came, and the lines that came to their end then. -/
  heard : List Frame := []
  received : List (Line parse) := []
  log : List (Change parse) := []
  /-- Lines of the response that are yet to come, but for a piece of the first one. -/
  pending : List (Line parse) := []
  piece : List Char := []
  /-- Changes are sent as they are made. -/
  follows : Bool := false
  progress : Progress := {}

/-- How a server answers. -/
inductive Reply (parse : List Char → Option (Option Frame)) where
  | listing (objects : List (Change parse))
  | changes (start : Nat)
  | error (f : Failure parse)

namespace World

inductive Event (parse : List Char → Option (Option Frame)) where
  /-- An object changes on the server. -/
  | change (c : Change parse)
  /-- The server sends an error on the response, and then nothing more. -/
  | fail (f : Failure parse)
  | discovered (ok : Bool)
  | response (status : Nat) (reply : Reply parse)
  /-- So many characters come, or as many as there are. -/
  | message (n : Nat)
  | close (problem : Bool)
  | blocked
  | loadTimeout (n : Nat)
  | waitTimeout

variable (w : World parse)

/-- The objects on the server when so many changes were made. -/
def server (n : Nat) : Lib.Table Identity Resource := existing (w.log.take n)

/-- The characters that come. -/
def data (n : Nat) : List Char :=
  ((Line.sent w.pending).drop w.piece.length).take n

def watchStep (event : CockpitKubeWatch.Event) : World parse :=
  let (watch, passed) := CockpitKubeWatch.step parse w.watch event
  { w with watch := watch, passed := w.passed ++ passed.flatten }

def respond (status : Nat) (reply : Reply parse) : World parse :=
  match w.watch.channel with
  | none => w
  | some request =>
    if request.status.isSome then w
    else
      let told := if request.full then { w.progress with listing := none } else w.progress
      let w := { w.watchStep (.response status) with pending := [], piece := [], follows := false }
      if 299 < status then { w with progress := told }
      else match reply with
        | .listing objects => { w with
            pending := objects.map .change
            follows := true
            progress := ⟨some objects.length, w.log.length, w.log.length⟩ }
        | .changes start => { w with
            pending := (w.log.drop start).map .change
            follows := true
            progress := { w.progress with position := start } }
        | .error f => { w with pending := [.error f], progress := told }

def receive (n : Nat) : World parse :=
  if w.data n = [] then w
  else
    let split := splitLines (w.piece ++ w.data n)
    let lines := w.pending.take split.1.length
    let (watch, passed) := CockpitKubeWatch.step parse w.watch (.message (w.data n))
    { w with
      watch := watch
      passed := w.passed ++ passed.flatten
      heard := w.heard ++ passed.flatten
      received := w.received ++ lines
      pending := w.pending.drop split.1.length
      piece := split.2
      progress := lines.foldl Progress.line w.progress }

def step : Event parse → World parse
  | .change c => { w with
      log := w.log ++ [c]
      pending := if w.follows then w.pending ++ [.change c] else w.pending }
  | .fail f =>
    if w.follows then { w with pending := w.pending ++ [.error f], follows := false } else w
  | .discovered ok => w.watchStep (.discovered ok)
  | .response status reply => w.respond status reply
  | .message n => w.receive n
  | .close problem => { w.watchStep (.close problem) with
      pending := []
      piece := []
      follows := false
      progress := if w.progress.listing = some 0 then w.progress
        else { w.progress with listing := none } }
  | .blocked => w.watchStep .blocked
  | .loadTimeout n => w.watchStep (.loadTimeout n)
  | .waitTimeout => w.watchStep .waitTimeout

/-! ## What is expected -/

/-- A server tells of all objects as they are added, or of all changes after what is known. -/
def Assumed : Event parse → Prop
  | .response status reply => ∀ request ∈ w.watch.channel, request.status = none → status ≤ 299 →
    match reply with
    | .listing objects => request.full ∧ (∀ c ∈ objects, c.frame.type = "ADDED") ∧
        existing objects = w.server w.log.length
    | .changes start => request.full = false ∧ start ≤ w.progress.position
    | .error _ => True
  | _ => True

/-- **What a watch is for**: once it is loaded, and knows of what was there, whoever applies the
    frames has the objects of the server; and all lines were handled. -/
structure Converged (w : World parse) : Prop where
  objects : w.watch.loaded → w.progress.complete →
    view w.passed = w.server w.progress.position
  lines : w.heard = (w.received.filterMap Line.changed).map Change.frame

/-! ## What steps keep to -/

/-- All of them are at their own `uid`. -/
def OwnKeys (objects : Objects) : Prop :=
  ∀ uid resource, objects.lookup uid = some resource →
    resource.identity = (some uid, none) ∧ uid ≠ "undefined"

/-- What was deleted in the meantime is noticed when all is listed again. -/
structure Restarts (w : World parse) : Prop where
  own : w.watch.loaded = false → OwnKeys w.watch.objects
  gone : ∀ k, view w.passed k ≠ none → w.server w.log.length k = none →
    w.watch.loaded = false ∧ ∃ uid resource,
      w.watch.objects.lookup uid = some resource ∧ resource.identity = k

/-- No deletion that was noticed is yet to be told. -/
def Resumes : Prop :=
  w.watch.loaded ∨ ∀ frame ∈ goneFrames (w.watch.previous.getD ∅) w.watch.objects,
      ∀ resource ∈ frame.object, view w.passed resource.identity = none

/-- **What the steps of a run keep to**: no piece of a line is left of an earlier response; all
    that is deleted in the meantime is noticed when all is listed again; and a listing was complete
    when only changes are asked for. -/
def StepOk : Event parse → Prop
  | .response status reply => ∀ request ∈ w.watch.channel, request.status = none →
    if request.full then
      status ≤ 299 → ∀ objects, reply = .listing objects → w.Restarts
    else
      w.Resumes ∧ (status ≤ 299 → ∀ start, reply = .changes start → w.progress.listing = some 0)
  | .message n => w.data n ≠ [] → w.watch.buffer = w.piece
  | _ => True

end World

end Cockpit.Kube
