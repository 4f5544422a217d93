import Cockpit.Kubernetes.WatchServer

namespace Cockpit.Kube

open Lib (CatchesUp lastOf)
open List Line
open Option
open Resource

/-!
# `CockpitKubeWatch`: what is on its way

* `Sends` — what is on its way makes the objects what they are on the server, but for those that
  have gone and are known to have;
* `Sound.next`, `Sound.watchStep` — it stays so when a line comes, and when loading is finished.
-/

variable {parse : List Char → Option (Option Frame)}

/-! ## Identities -/

variable {resource : Resource}

theorem ne_empty_of_identity {uid : String}
    (h : resource.identity = (some uid, none)) : uid ≠ "" := by
  unfold Resource.identity at h
  dsimp only at h
  split at h
  · rename_i htruthy
    obtain ⟨huid, -⟩ := Prod.mk.inj h
    rintro rfl
    rw [huid] at htruthy
    exact nomatch htruthy
  · exact nomatch (Prod.mk.inj h).1

theorem uidKey_of_identity {uid : String}
    (h : resource.identity = (some uid, none)) : resource.uidKey = uid := by
  unfold Resource.identity at h
  dsimp only at h
  unfold uidKey
  split at h
  · rw [(Prod.mk.inj h).1]
    rfl
  · exact nomatch (Prod.mk.inj h).1

theorem identity_of_uidKey {uid : String} (h : resource.uidKey = uid)
    (hundef : uid ≠ "undefined") (hempty : uid ≠ "") :
    resource.identity = (some uid, none) := by
  unfold uidKey at h
  unfold Resource.identity
  cases huid : resource.metadata.bind fun metadata => metadata.uid with
  | none =>
    rw [huid] at h
    exact absurd h.symm hundef
  | some uid' =>
    rw [huid] at h
    obtain rfl : uid' = uid := h
    simp [truthy, hempty]

theorem Change.frame_update (c : Change parse) : c.frame.update = some c.update := by
  have hrep := c.reported
  unfold Frame.reported at hrep
  obtain ⟨object, hobj, hrep⟩ := bind_eq_some_iff.mp hrep
  have heq : object = c.resource := by
    split at hrep
    · exact nomatch hrep
    obtain ⟨metadata, -, hrep⟩ := bind_eq_some_iff.mp hrep
    split at hrep
    · exact nomatch hrep
    · exact some.inj hrep
  unfold Frame.update Change.update
  rw [hobj, heq]
  rfl

theorem view_append (frames frames' : List Frame) :
    view (frames ++ frames') = (view frames).updates (frames'.filterMap Frame.update) := by
  unfold view
  rw [filterMap_append, Lib.updates_append]

theorem view_change (frames : List Frame) (c : Change parse) :
    view (frames ++ [c.frame]) = (view frames).update c.update := by
  rw [view_append, filterMap_cons, c.frame_update]
  rfl

theorem existing_append (changes : List (Change parse)) (c : Change parse) :
    existing (changes ++ [c]) = (existing changes).update c.update := by
  unfold existing
  rw [map_append, Lib.updates_append]
  rfl

/-! ## Objects of two generations -/

namespace Change

variable {objects : Objects} {uid : String} {c : Change parse}

theorem not_mem_track (h : uid ∉ objects) (hne : uid ≠ c.resource.uidKey) :
    uid ∉ c.track objects := by
  unfold track
  split
  · simp [h]
  · simp [h, hne]

theorem not_mem_of_track (h : uid ∉ c.track objects) (hne : uid ≠ c.resource.uidKey) :
    uid ∉ objects := by
  unfold track at h
  split at h <;> simpa [hne] using h

theorem mem_track (h : c.frame.type ≠ "DELETED") : c.resource.uidKey ∈ c.track objects := by
  unfold track
  rw [if_neg h]
  simp

end Change

namespace CockpitKubeWatch

/-- It has gone, and this is yet to be told. -/
def Gone (w : CockpitKubeWatch) (k : Identity) : Prop :=
  w.loaded = false ∧ ∃ uid resource, (w.previous.getD ∅).lookup uid = some resource ∧
    uid ∉ w.objects ∧ resource.identity = k

/-- The objects of the generation before are to be compared with what comes: those that do not come
    are not there. -/
structure Compares (w : CockpitKubeWatch) (due : List (Lib.Update Identity Resource))
    (t : Lib.Table Identity Resource) : Prop where
  own : World.OwnKeys (w.previous.getD ∅)
  gone : ∀ uid resource, (w.previous.getD ∅).lookup uid = some resource → uid ∉ w.objects →
    lastOf due (some uid, none) = none → t (some uid, none) = none

variable {w : CockpitKubeWatch} {c : Change parse} {due : List (Lib.Update Identity Resource)}
  {t : Lib.Table Identity Resource}

/-- An object whose key is its own is that of a change only if it is its object. -/
theorem ne_uidKey {uid : String}
    (h : resource.identity = (some uid, none)) (hundef : uid ≠ "undefined")
    (hne : (some uid, none) ≠ c.resource.identity) : uid ≠ c.resource.uidKey := by
  intro heq
  exact hne (identity_of_uidKey heq.symm hundef (ne_empty_of_identity h)).symm

variable {v : Lib.Table Identity Resource}

/-- **A change comes.** -/
theorem catchesUp_track (h : CatchesUp v (c.update :: due) t w.Gone)
    (hcmp : w.loaded = false → w.Compares (c.update :: due) t) :
    CatchesUp (v.update c.update) due t (w.track (.change c)).Gone := by
  refine h.update fun k hne hgone => ?_
  obtain ⟨hloaded, uid, resource, hlook, hmem, hidentity⟩ := hgone
  obtain ⟨hown, hundef⟩ := (hcmp hloaded).own uid resource hlook
  refine ⟨hloaded, uid, resource, hlook, ?_, hidentity⟩
  apply Change.not_mem_track hmem
  apply ne_uidKey hown hundef
  rw [← hown, hidentity]
  exact hne

theorem compares_track
    (h : CatchesUp v (c.update :: due) t w.Gone) (hcmp : w.Compares (c.update :: due) t) :
    (w.track (.change c)).Compares due t where
  own := hcmp.own
  gone uid resource hlook hmem hnone := by
    obtain ⟨hown, hundef⟩ := hcmp.own uid resource hlook
    by_cases heq : (some uid, none) = c.resource.identity
    · -- it is the object of the change, and not there when this deletes it
      have hkey : c.resource.uidKey = uid := uidKey_of_identity heq.symm
      by_cases hdeleted : c.frame.type = "DELETED"
      · apply h.stored
        rw [Lib.lastOf_cons, hnone]
        unfold Change.update
        rw [if_pos heq.symm, if_pos hdeleted]
        rfl
      · exact absurd (hkey ▸ Change.mem_track hdeleted) hmem
    have hold := Change.not_mem_of_track hmem (ne_uidKey hown hundef heq)
    apply hcmp.gone uid resource hlook hold
    rw [Lib.lastOf_cons, hnone]
    unfold Change.update
    rw [if_neg (Ne.symm heq)]
    rfl

end CockpitKubeWatch

/-! ## What is on its way -/

namespace World

open CockpitKubeWatch

variable {w w' : World parse} {listed : List (Change parse)} {rest : List (Line parse)}

/-- What makes the objects what they are on the server. -/
def due (w : World parse) (listed : List (Change parse)) : List (Lib.Update Identity Resource) :=
  (listed ++ (w.log.take w.progress.newest).drop w.progress.position).map Change.update

/-- First comes what is listed, then changes. -/
structure Sends (w : World parse) (listed : List (Change parse)) (rest : List (Line parse)) :
    Prop where
  listing : w.progress.listing = some listed.length
  pending : w.pending = listed.map .change ++ rest
  position_le : w.progress.position ≤ w.progress.newest
  newest_le : w.progress.newest ≤ w.log.length
  still : listed ≠ [] → w.progress.position = w.progress.newest
  changes : rest.filterMap changed <+: w.log.drop w.progress.position
  follows : w.follows → rest.filterMap changed = w.log.drop w.progress.position
  catchesUp : CatchesUp (view w.passed) (w.due listed) (w.server w.progress.newest) w.watch.Gone
  compares : w.watch.loaded = false → w.watch.Compares (w.due listed) (w.server w.progress.newest)

/-- What is on its way is what is to come. -/
structure Sound (w : World parse) : Prop where
  untold : w.progress.listing = none → w.pending.filterMap changed = []
  sends : w.progress.listing ≠ none → ∃ listed rest, w.Sends listed rest
  following : w.follows → w.progress.listing ≠ none

/-- What all this is about. -/
def core (w : World parse) : List (Change parse) × List (Line parse) × Bool × Progress ×
    List Frame × Objects × Option Objects × Bool :=
  (w.log, w.pending, w.follows, w.progress, w.passed, w.watch.objects, w.watch.previous,
    w.watch.loaded)

theorem Sound.congr (h : w.Sound) (heq : w'.core = w.core) : w'.Sound := by
  simp only [core, Prod.mk.injEq] at heq
  obtain ⟨hlog, hpend, hfoll, hprog, hpass, hobjs, hprev, hloaded⟩ := heq
  have hgone : w'.watch.Gone = w.watch.Gone := by
    unfold Gone
    rw [hobjs, hprev, hloaded]
  have hsrv : ∀ n, w'.server n = w.server n := by
    intro n
    unfold server
    rw [hlog]
  have hdue : ∀ listed, w'.due listed = w.due listed := by
    intro listed
    unfold due
    rw [hlog, hprog]
  refine ⟨?_, ?_, ?_⟩
  · rw [hprog, hpend]
    exact h.untold
  · rw [hprog]
    intro hlist
    obtain ⟨listed, rest, hs⟩ := h.sends hlist
    refine ⟨listed, rest, ?_⟩
    constructor
    · rw [hprog]
      exact hs.listing
    · rw [hpend]
      exact hs.pending
    · rw [hprog]
      exact hs.position_le
    · rw [hprog, hlog]
      exact hs.newest_le
    · rw [hprog]
      exact hs.still
    · rw [hprog, hlog]
      exact hs.changes
    · rw [hprog, hlog, hfoll]
      exact hs.follows
    · rw [hpass, hdue, hprog, hsrv, hgone]
      exact hs.catchesUp
    rw [hdue, hprog, hsrv, hloaded]
    intro hnot
    obtain ⟨hown, hcmp⟩ := hs.compares hnot
    constructor
    · rw [hprev]
      exact hown
    · rw [hprev, hobjs]
      exact hcmp
  · rw [hprog, hfoll]
    exact h.following

/-! ### A line comes -/

/-- The next line is handled. -/
def next (w : World parse) (line : Line parse) : World parse :=
  { w with
    watch := w.watch.track line
    passed := w.passed ++ (line.changed.map Change.frame).toList
    pending := w.pending.tail
    progress := w.progress.line line }

variable {c : Change parse} {n : Nat}

theorem server_succ {tail : List (Change parse)}
    (h : w.log.drop n = c :: tail) : w.server (n + 1) = (w.server n).update c.update := by
  have hget : w.log[n]? = some c := by
    rw [← head?_drop, h]
    rfl
  unfold server
  rw [take_add_one, hget]
  exact existing_append _ c

variable {progress : Progress}

theorem line_listed (h : progress.listing = some (n + 1))
    (c : Change parse) : progress.line (.change c) = { progress with listing := some n } := by
  obtain ⟨listing, position, newest⟩ := progress
  obtain rfl : listing = some (n + 1) := h
  rfl

theorem line_changed (h : progress.listing = some 0) (c : Change parse) :
    progress.line (.change c) = ⟨some 0, progress.position + 1,
      max progress.newest (progress.position + 1)⟩ := by
  obtain ⟨listing, position, newest⟩ := progress
  obtain rfl : listing = some 0 := h
  rfl

theorem Sends.next_listed (h : w.Sends (c :: listed) rest) :
    (w.next (.change c)).Sends listed rest := by
  have hprog : w.progress.line (.change c) =
      { w.progress with listing := some listed.length } := line_listed h.listing c
  have hsame := h.still (cons_ne_nil c listed)
  have hdue : w.due (c :: listed) = c.update :: (w.next (.change c)).due listed := by
    unfold due next
    dsimp only
    rw [hprog]
    rfl
  have hcatch := h.catchesUp
  have hcmp := h.compares
  rw [hdue] at hcatch hcmp
  constructor
  · show (w.progress.line (.change c)).listing = _
    rw [hprog]
  · show w.pending.tail = _
    rw [h.pending]
    rfl
  · show (w.progress.line (.change c)).position ≤ (w.progress.line (.change c)).newest
    rw [hprog]
    exact h.position_le
  · show (w.progress.line (.change c)).newest ≤ w.log.length
    rw [hprog]
    exact h.newest_le
  · intro _
    show (w.progress.line (.change c)).position = (w.progress.line (.change c)).newest
    rw [hprog]
    exact hsame
  · show _ <+: w.log.drop (w.progress.line (.change c)).position
    rw [hprog]
    exact h.changes
  · show _ → _ = w.log.drop (w.progress.line (.change c)).position
    rw [hprog]
    exact h.follows
  · show CatchesUp (view (w.passed ++ [c.frame])) _
      (w.server (w.progress.line (.change c)).newest) _
    rw [view_change, hprog]
    exact catchesUp_track hcatch hcmp
  intro hloaded
  show Compares _ _ (w.server (w.progress.line (.change c)).newest)
  rw [hprog]
  exact compares_track hcatch (hcmp hloaded)

section

variable (h : w.Sends [] (.change c :: rest))

include h

/-- A change that comes is the next one of the log. -/
theorem Sends.drop_position :
    ∃ tail, w.log.drop w.progress.position = c :: (rest.filterMap changed ++ tail) := by
  obtain ⟨tail, htail⟩ := h.changes
  exact ⟨tail, htail.symm⟩

/-- It is due, or was made since. -/
theorem Sends.due_next :
    let due := ((w.log.take (max w.progress.newest (w.progress.position + 1))).drop
      (w.progress.position + 1)).map Change.update
    let t := w.server (max w.progress.newest (w.progress.position + 1))
    CatchesUp (view w.passed) (c.update :: due) t w.watch.Gone ∧
      (w.watch.loaded = false → w.watch.Compares (c.update :: due) t) := by
  intro due t
  obtain ⟨tail, hlog⟩ := h.drop_position
  rcases Nat.lt_or_eq_of_le h.position_le with hlt | heq
  · have hmax : max w.progress.newest (w.progress.position + 1) = w.progress.newest :=
      Nat.max_eq_left hlt
    have hdue : w.due [] = c.update :: due := by
      have hnext : w.log.drop (w.progress.position + 1) = rest.filterMap changed ++ tail := by
        rw [← tail_drop, hlog]
        rfl
      have hlen : w.progress.newest - w.progress.position =
          (w.progress.newest - (w.progress.position + 1)) + 1 := by omega
      unfold World.due
      rw [nil_append, drop_take, hlog, hlen, take_succ_cons, map_cons]
      simp only [due]
      rw [hmax, drop_take, hnext]
    have hcatch := h.catchesUp
    have hcmp := h.compares
    rw [hdue, ← hmax] at hcatch hcmp
    exact ⟨hcatch, hcmp⟩
  have hmax : max w.progress.newest (w.progress.position + 1) = w.progress.newest + 1 := by omega
  have hold : w.due [] = [] := by
    unfold World.due
    rw [heq, nil_append, drop_take, Nat.sub_self, take_zero, map_nil]
  have hnew : due = [] := by
    simp only [due]
    rw [hmax, heq, drop_take, Nat.sub_self, take_zero, map_nil]
  have hsrv : t = (w.server w.progress.newest).update c.update := by
    simp only [t]
    rw [hmax]
    exact server_succ (heq ▸ hlog)
  have hcatch := h.catchesUp
  have hcmp := h.compares
  rw [hold] at hcatch hcmp
  rw [hnew, hsrv]
  refine ⟨hcatch.append c.update, fun hloaded => ⟨(hcmp hloaded).own, ?_⟩⟩
  intro uid resource hlook hmem hnone
  rw [Lib.update_apply]
  by_cases hkey : c.update.1 = (some uid, none)
  · rw [Lib.lastOf_cons, if_pos hkey] at hnone
    exact nomatch hnone
  · rw [if_neg hkey]
    exact (hcmp hloaded).gone uid resource hlook hmem rfl

theorem Sends.next_change :
    (w.next (.change c)).Sends [] rest := by
  obtain ⟨tail, hlog⟩ := h.drop_position
  obtain ⟨hcatch, hcmp⟩ := h.due_next
  have hprog := line_changed h.listing c
  have hnext : w.log.drop (w.progress.position + 1) = rest.filterMap changed ++ tail := by
    rw [← tail_drop, hlog]
    rfl
  have hlt : w.progress.position < w.log.length := by
    by_contra hnot
    rw [drop_eq_nil_of_le (not_lt.mp hnot)] at hlog
    exact nomatch hlog
  have hdue : (w.next (.change c)).due [] =
      ((w.log.take (max w.progress.newest (w.progress.position + 1))).drop
        (w.progress.position + 1)).map Change.update := by
    show (([] ++ (w.log.take (w.progress.line (.change c)).newest).drop
      (w.progress.line (.change c)).position) : List (Change parse)).map Change.update = _
    rw [hprog, nil_append]
  constructor
  · show (w.progress.line (.change c)).listing = _
    rw [hprog]
    rfl
  · show w.pending.tail = _
    rw [h.pending]
    rfl
  · show (w.progress.line (.change c)).position ≤ (w.progress.line (.change c)).newest
    rw [hprog]
    exact Nat.le_max_right _ _
  · show (w.progress.line (.change c)).newest ≤ w.log.length
    rw [hprog]
    exact Nat.max_le.mpr ⟨h.newest_le, hlt⟩
  · intro hne
    exact absurd rfl hne
  · show _ <+: w.log.drop (w.progress.line (.change c)).position
    rw [hprog, hnext]
    exact prefix_append _ _
  · intro hfoll
    have hall := h.follows hfoll
    rw [hlog] at hall
    show _ = w.log.drop (w.progress.line (.change c)).position
    rw [hprog, hnext]
    exact (List.cons.inj hall).2
  · show CatchesUp (view (w.passed ++ [c.frame])) _
      (w.server (w.progress.line (.change c)).newest) _
    rw [view_change, hdue, hprog]
    exact catchesUp_track hcatch hcmp
  intro hloaded
  show Compares _ _ (w.server (w.progress.line (.change c)).newest)
  rw [hdue, hprog]
  exact compares_track hcatch (hcmp hloaded)

end

theorem Sends.next_error {f : Failure parse} (h : w.Sends [] (.error f :: rest)) :
    Sends { w with pending := rest } [] rest := { h with
  pending := rfl }

/-- An error changes nothing of what is known. -/
theorem core_next_error (w : World parse) (f : Failure parse) :
    (w.next (.error f)).core = { w with pending := w.pending.tail }.core := by
  unfold next core track changed
  dsimp only
  rw [map_none, toList_none, append_nil]
  split <;> rfl

/-- **A line comes.** -/
theorem Sound.next (h : w.Sound) {line : Line parse} {pending : List (Line parse)}
    (hpend : w.pending = line :: pending) : (w.next line).Sound := by
  cases line with
  | change c =>
    have hlist : w.progress.listing ≠ none := by
      intro hnone
      have hnil := h.untold hnone
      rw [hpend] at hnil
      exact nomatch hnil
    obtain ⟨listed, rest, hs⟩ := h.sends hlist
    have hhead := hs.pending
    rw [hpend] at hhead
    have hsends : ∃ listed rest, (w.next (.change c)).Sends listed rest := by
      cases listed with
      | nil =>
        obtain rfl : rest = .change c :: pending := hhead.symm
        exact ⟨[], pending, hs.next_change⟩
      | cons c' listed =>
        obtain ⟨hc, -⟩ := List.cons.inj hhead
        obtain rfl := change.inj hc
        exact ⟨listed, rest, hs.next_listed⟩
    have htold : (w.next (.change c)).progress.listing ≠ none := by
      obtain ⟨listed', rest', hs'⟩ := hsends
      rw [hs'.listing]
      exact some_ne_none _
    exact ⟨fun hnone => absurd hnone htold, fun _ => hsends, fun _ => htold⟩
  | error f =>
    refine Sound.congr (w := { w with pending := w.pending.tail })
      ⟨fun hnone => ?_, fun hlist => ?_, h.following⟩ (core_next_error w f)
    · have hnil := h.untold hnone
      rw [hpend] at hnil
      show w.pending.tail.filterMap changed = []
      rw [hpend]
      exact hnil
    obtain ⟨listed, rest, hs⟩ := h.sends hlist
    have hhead := hs.pending
    rw [hpend] at hhead
    cases listed with
    | nil =>
      obtain rfl : rest = .error f :: pending := hhead.symm
      rw [hpend]
      exact ⟨[], pending, hs.next_error⟩
    | cons c listed => exact nomatch (List.cons.inj hhead).1

variable {lines : List (Line parse)}

/-- Lines come. -/
theorem core_foldl_next (h : w.pending = lines ++ rest) :
    (lines.foldl next w).core = (w.log, rest, w.follows, lines.foldl Progress.line w.progress,
      w.passed ++ (lines.filterMap changed).map Change.frame,
      (lines.foldl track w.watch).objects, (lines.foldl track w.watch).previous,
      (lines.foldl track w.watch).loaded) := by
  induction lines generalizing w with
  | nil =>
    obtain rfl : rest = w.pending := h.symm
    simp [core]
  | cons line lines ih =>
    have htail : (w.next line).pending = lines ++ rest := by
      show w.pending.tail = _
      rw [h]
      rfl
    rw [foldl_cons, ih htail]
    cases line with
    | change c =>
      simp only [next, changed, foldl_cons, map_some, toList_some,
        filterMap_cons, map_cons, append_assoc, singleton_append]
    | error f =>
      simp only [next, changed, foldl_cons, map_none, toList_none,
        filterMap_cons, append_nil]

theorem Sound.foldl_next (h : w.Sound)
    (hpend : w.pending = lines ++ rest) : (lines.foldl World.next w).Sound := by
  induction lines generalizing w with
  | nil => exact h
  | cons line lines ih =>
    have htail : (w.next line).pending = lines ++ rest := by
      show w.pending.tail = _
      rw [hpend]
      rfl
    exact ih (h.next hpend) htail

/-! ### Loading is finished -/

theorem mem_goneFrames {prev objects : Objects} {u : Lib.Update Identity Resource} :
    u ∈ (goneFrames prev objects).filterMap Frame.update ↔
      ∃ uid resource, prev.lookup uid = some resource ∧ uid ∉ objects ∧
        u = (resource.identity, none) := by
  unfold goneFrames
  rw [filterMap_map, mem_filterMap]
  constructor
  · rintro ⟨⟨uid, resource⟩, he, hu⟩
    obtain ⟨hmem, hnot⟩ := mem_filter.mp he
    exact ⟨uid, resource, AList.mem_lookup_iff.mpr hmem, of_decide_eq_true hnot, (some.inj hu).symm⟩
  · rintro ⟨uid, resource, hlook, hnot, rfl⟩
    refine ⟨⟨uid, resource⟩, mem_filter.mpr ⟨AList.mem_lookup_iff.mp hlook, ?_⟩, rfl⟩
    exact decide_eq_true hnot

/-- **Loading is finished**: those that have gone are told. -/
theorem Sends.finish (h : w.Sends listed rest) (hloaded : w.watch.loaded = false) :
    Sends { w with
      watch := { w.watch with loaded := true, previous := none }
      passed := w.passed ++ goneFrames (w.watch.previous.getD ∅) w.watch.objects } listed rest := { h with
  catchesUp := by
    obtain ⟨hown, hgone⟩ := h.compares hloaded
    refine h.catchesUp.mono fun k hlast hbef => ?_
    dsimp only
    rw [view_append, Lib.updates_apply]
    left
    cases hk : lastOf ((goneFrames (w.watch.previous.getD ∅) w.watch.objects).filterMap
        Frame.update) k with
    | some a =>
      obtain ⟨uid, resource, hlook, hnot, heq⟩ := mem_goneFrames.mp (Lib.mem_of_lastOf hk)
      obtain ⟨rfl, rfl⟩ := Prod.mk.inj heq
      rw [(hown uid resource hlook).1] at hlast ⊢
      exact (hgone uid resource hlook hnot hlast).symm
    | none =>
      rcases hbef with hsame | ⟨-, uid, resource, hlook, hnot, rfl⟩
      · exact hsame
      · have hmem := mem_goneFrames.mpr ⟨uid, resource, hlook, hnot, rfl⟩
        exact absurd rfl (Lib.lastOf_eq_none_iff.mp hk _ hmem)
  compares hnot := nomatch hnot }

/-- What a watch knows of objects. -/
def kept (w : CockpitKubeWatch) : Objects × Option Objects × Bool :=
  (w.objects, w.previous, w.loaded)

/-- Nothing is told, or loading is finished. -/
def Finishes (w : CockpitKubeWatch) (result : CockpitKubeWatch × List (List Frame)) : Prop :=
  kept result.1 = kept w ∧ result.2.flatten = [] ∨
    w.loaded = false ∧ kept result.1 = (w.objects, none, true) ∧
      result.2.flatten = goneFrames (w.previous.getD ∅) w.objects

theorem finishes_loadFinish (w : CockpitKubeWatch) : Finishes w w.loadFinish := by
  unfold Finishes loadFinish
  cases hloaded : w.loaded with
  | true => exact .inl ⟨rfl, rfl⟩
  | false =>
    right
    rw [if_neg Bool.false_ne_true]
    refine ⟨rfl, rfl, ?_⟩
    dsimp only
    split
    · rename_i hnil
      rw [hnil]
      rfl
    · simp

theorem Finishes.congr {w w' : CockpitKubeWatch} {result result' : CockpitKubeWatch × List (List Frame)}
    (h : Finishes w result) (hw : kept w' = kept w) (hres : kept result'.1 = kept result.1)
    (hpass : result'.2 = result.2) : Finishes w' result' := by
  obtain ⟨hobjs, hrest⟩ := Prod.mk.inj hw
  obtain ⟨hprev, hloaded⟩ := Prod.mk.inj hrest
  unfold Finishes at h ⊢
  rw [hw, hres, hpass, hobjs, hprev, hloaded]
  exact h

theorem kept_startWatch (w : CockpitKubeWatch) : kept w.startWatch = kept w := by
  unfold startWatch
  split <;> rfl

theorem finishes_closed (w : CockpitKubeWatch) (request : Request) (problem : Bool) :
    Finishes w (w.closed request problem) := by
  have hfinish := finishes_loadFinish { w with channel := none, loading := .false }
  unfold closed
  dsimp only
  split
  · exact .inl ⟨rfl, rfl⟩
  split
  · exact hfinish.congr rfl rfl rfl
  split
  · split <;> exact hfinish.congr rfl rfl rfl
  · split
    · exact .inl ⟨rfl, rfl⟩
    · exact .inl ⟨kept_startWatch _, rfl⟩

theorem finishes_step (w : CockpitKubeWatch) {event : CockpitKubeWatch.Event}
    (hresp : ∀ status, event ≠ .response status)
    (hmsg : ∀ payload, event ≠ .message payload) :
    Finishes w (CockpitKubeWatch.step parse w event) := by
  unfold CockpitKubeWatch.step
  cases event with
  | discovered ok =>
    dsimp only
    split
    · exact .inl ⟨rfl, rfl⟩
    · split
      · exact .inl ⟨kept_startWatch _, rfl⟩
      · exact (finishes_loadFinish { w with discovering := false }).congr rfl rfl rfl
  | response status => exact absurd rfl (hresp status)
  | message payload => exact absurd rfl (hmsg payload)
  | close problem =>
    dsimp only
    split
    · exact .inl ⟨rfl, rfl⟩
    · exact finishes_closed w _ problem
  | blocked =>
    dsimp only
    split <;> exact .inl ⟨rfl, rfl⟩
  | loadTimeout n =>
    dsimp only
    split
    · exact (finishes_loadFinish { w with timers := w.timers.erase n }).congr rfl rfl rfl
    · exact .inl ⟨rfl, rfl⟩
  | waitTimeout =>
    dsimp only
    split
    · exact .inl ⟨kept_startWatch _, rfl⟩
    · exact .inl ⟨rfl, rfl⟩

theorem Sound.watchStep (h : w.Sound) {event : CockpitKubeWatch.Event}
    (hresp : ∀ status, event ≠ .response status)
    (hmsg : ∀ payload, event ≠ .message payload) : (w.watchStep event).Sound := by
  have hcore : (w.watchStep event).core = (w.log, w.pending, w.follows, w.progress,
      w.passed ++ (CockpitKubeWatch.step parse w.watch event).2.flatten,
      kept (CockpitKubeWatch.step parse w.watch event).1) := rfl
  rcases @finishes_step parse w.watch event hresp hmsg with
    ⟨hkept, hpass⟩ | ⟨hloaded, hkept, hpass⟩
  · apply h.congr
    rw [hcore, hkept, hpass, append_nil]
    rfl
  rw [hkept, hpass] at hcore
  refine Sound.congr (w := { w with
    watch := { w.watch with loaded := true, previous := none }
    passed := w.passed ++ goneFrames (w.watch.previous.getD ∅) w.watch.objects })
    ⟨h.untold, fun hlist => ?_, h.following⟩ hcore
  obtain ⟨listed, rest, hs⟩ := h.sends hlist
  exact ⟨listed, rest, hs.finish hloaded⟩

end World

end Cockpit.Kube
