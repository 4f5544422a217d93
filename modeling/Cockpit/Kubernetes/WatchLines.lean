import Cockpit.Kubernetes.Watch

namespace Cockpit.Kube

open List

/-!
# `CockpitKubeWatch`: lines of a response

* `splitLines_of_isPrefix` — what has come of the lines is whole lines and a piece of the next one;
* `handleLines_lines` — whole lines are handled one after the other, and none is left out.
-/

variable {parse : List Char → Option (Option Frame)}

/-! ## Lines -/

/-- What a frame tells of, if it tells of an object. -/
def Frame.reported (frame : Frame) : Option Resource :=
  frame.object.bind fun object =>
    if frame.type = "ERROR" then none
    else object.metadata.bind fun metadata =>
      if (!truthy metadata.uid && object.kind != some "Project") || !truthy object.kind then none
      else some object

/-- A line that tells of a change of an object. -/
structure Change (parse : List Char → Option (Option Frame)) where
  text : List Char
  frame : Frame
  resource : Resource
  ends : '\n' ∉ text
  parsed : parse text = some (some frame)
  reported : frame.reported = some resource

/-- A line that tells of an error. -/
structure Failure (parse : List Char → Option (Option Frame)) where
  text : List Char
  frame : Frame
  ends : '\n' ∉ text
  parsed : parse text = some (some frame)
  error : frame.type = "ERROR"

inductive Line (parse : List Char → Option (Option Frame)) where
  | change (c : Change parse)
  | error (f : Failure parse)

namespace Line

def text : Line parse → List Char
  | change c => c.text
  | error f => f.text

def changed : Line parse → Option (Change parse)
  | change c => some c
  | error _ => none

theorem ends (line : Line parse) : '\n' ∉ line.text := by
  cases line with
  | change c => exact c.ends
  | error f => exact f.ends

/-- Lines as they are sent. -/
def sent (lines : List (Line parse)) : List Char := lines.flatMap fun line => line.text ++ ['\n']

theorem sent_cons (line : Line parse) (lines : List (Line parse)) :
    sent (line :: lines) = line.text ++ '\n' :: sent lines := by
  simp [sent]

end Line

/-! ## Splitting -/

namespace CockpitKubeWatch

theorem splitLines_piece {piece : List Char} (h : '\n' ∉ piece) : splitLines piece = ([], piece) := by
  induction piece with
  | nil => rfl
  | cons c piece ih =>
    obtain ⟨hc, hpiece⟩ := not_or.mp (mem_cons.not.mp h)
    unfold splitLines
    rw [if_neg (Ne.symm hc), ih hpiece]

theorem splitLines_line {line : List Char} (h : '\n' ∉ line) (rest : List Char) :
    splitLines (line ++ '\n' :: rest) = (line :: (splitLines rest).1, (splitLines rest).2) := by
  induction line with
  | nil =>
    rw [nil_append, splitLines, if_pos rfl]
  | cons c line ih =>
    obtain ⟨hc, hline⟩ := not_or.mp (mem_cons.not.mp h)
    rw [cons_append, splitLines, if_neg (Ne.symm hc), ih hline]

/-- **What has come of the lines** is some of them, and a piece of the next one. -/
theorem splitLines_of_isPrefix {lines : List (Line parse)} {data : List Char}
    (h : data <+: Line.sent lines) :
    ∃ k, k ≤ lines.length ∧ (splitLines data).1 = (lines.take k).map Line.text ∧
      (splitLines data).2 <+: Line.sent (lines.drop k) ∧ '\n' ∉ (splitLines data).2 := by
  induction lines generalizing data with
  | nil =>
    obtain rfl := prefix_nil.mp h
    exact ⟨0, le_refl 0, rfl, prefix_rfl, not_mem_nil⟩
  | cons line lines ih =>
    rw [Line.sent_cons] at h
    rcases prefix_or_prefix_of_prefix h (prefix_append line.text _) with
      hpiece | ⟨rest, rfl⟩
    · -- the first line has not ended
      have hends : '\n' ∉ data := fun hmem => line.ends (hpiece.subset hmem)
      rw [splitLines_piece hends]
      refine ⟨0, Nat.zero_le _, rfl, ?_, hends⟩
      rw [drop_zero, Line.sent_cons]
      exact h
    have hrest := (prefix_append_right_inj line.text).mp h
    cases rest with
    | nil =>
      rw [append_nil, splitLines_piece line.ends]
      refine ⟨0, Nat.zero_le _, rfl, ?_, line.ends⟩
      rw [drop_zero, Line.sent_cons]
      exact prefix_append _ _
    | cons c rest =>
      obtain ⟨rfl, hnext⟩ := cons_prefix_cons.mp hrest
      obtain ⟨k, hk, hlines, hlast, hends⟩ := ih hnext
      rw [splitLines_line line.ends]
      refine ⟨k + 1, Nat.succ_le_succ hk, ?_, hlast, hends⟩
      rw [take_succ_cons, map_cons, hlines]

/-! ## Handling -/

end CockpitKubeWatch

/-- The key of a resource in `objects`. -/
def Resource.uidKey (resource : Resource) : String :=
  (resource.metadata.bind fun metadata => metadata.uid).getD "undefined"

def Resource.resourceVersion (resource : Resource) : Option String :=
  resource.metadata.bind fun metadata => metadata.resourceVersion

/-- The objects after a change. -/
def Change.track (c : Change parse) (objects : Objects) : Objects :=
  if c.frame.type = "DELETED" then objects.erase c.resource.uidKey
  else objects.insert c.resource.uidKey c.resource

namespace CockpitKubeWatch

/-- What a line does to a watch. -/
def track (w : CockpitKubeWatch) : Line parse → CockpitKubeWatch
  | .change c => { w with
      lastResource := c.resource.resourceVersion
      objects := c.track w.objects }
  | .error f =>
    if f.frame.object.isSome ∧ truthy w.lastResource then { w with lastResource := none } else w

theorem channel_track (w : CockpitKubeWatch) (line : Line parse) :
    (w.track line).channel = w.channel := by
  unfold track
  split
  · rfl
  · split <;> rfl

theorem handleLines_change (c : Change parse) (texts : List (List Char)) (w : CockpitKubeWatch)
    (frames : List Frame) (passed : List (List Frame)) :
    handleLines parse (c.text :: texts) w frames passed =
      handleLines parse texts (w.track (.change c)) (frames ++ [c.frame]) passed := by
  have hrep := c.reported
  unfold Frame.reported at hrep
  obtain ⟨object, hobj, hrep⟩ := Option.bind_eq_some_iff.mp hrep
  rw [handleLines, c.parsed]
  dsimp only
  rw [hobj]
  dsimp only
  split at hrep
  · exact nomatch hrep
  rename_i htype
  obtain ⟨metadata, hmetadata, hrep⟩ := Option.bind_eq_some_iff.mp hrep
  rw [if_neg htype, hmetadata]
  split at hrep
  · exact nomatch hrep
  rename_i hknown
  dsimp only
  rw [if_neg hknown]
  obtain rfl := Option.some.inj hrep
  have hvers : c.resource.resourceVersion = metadata.resourceVersion := by
    unfold Resource.resourceVersion
    rw [hmetadata]
    rfl
  have hkey : c.resource.uidKey = metadata.uid.getD "undefined" := by
    unfold Resource.uidKey
    rw [hmetadata]
    rfl
  show _ = handleLines parse texts { w with
    lastResource := c.resource.resourceVersion
    objects := c.track w.objects } (frames ++ [c.frame]) passed
  unfold Change.track
  rw [hvers, hkey]

theorem handleLines_error (f : Failure parse) (texts : List (List Char)) {w : CockpitKubeWatch}
    (hw : w.channel.isSome) (frames : List Frame) (passed : List (List Frame)) :
    handleLines parse (f.text :: texts) w frames passed =
      handleLines parse texts (w.track (.error f)) frames passed := by
  have htrack : w.track (.error f) =
      if f.frame.object.isSome ∧ truthy w.lastResource then { w with lastResource := none }
      else w := rfl
  rw [htrack, handleLines, f.parsed]
  dsimp only
  cases hobj : f.frame.object with
  | none => simp
  | some object =>
    dsimp only
    rw [if_pos f.error]
    cases hlast : truthy w.lastResource with
    | false => simp
    | true =>
      -- the request is there, and none is made
      unfold startWatch
      simp [hw]

/-- **Whole lines are handled**, one after the other. -/
theorem handleLines_lines (lines : List (Line parse)) {w : CockpitKubeWatch}
    (hw : w.channel.isSome) (frames : List Frame) (passed : List (List Frame)) :
    handleLines parse (lines.map Line.text) w frames passed = (lines.foldl track w, passed,
        some (frames ++ (lines.filterMap Line.changed).map Change.frame)) := by
  induction lines generalizing w frames with
  | nil => simp [handleLines]
  | cons line lines ih =>
    have hnext : (w.track line).channel.isSome := by
      rw [channel_track]
      exact hw
    rw [map_cons]
    cases line with
    | change c =>
      refine (handleLines_change c _ w frames passed).trans ?_
      rw [ih hnext]
      simp [Line.changed]
    | error f =>
      refine (handleLines_error f _ hw frames passed).trans ?_
      rw [ih hnext]
      rfl

end CockpitKubeWatch

end Cockpit.Kube
