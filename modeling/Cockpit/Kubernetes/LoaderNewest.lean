import Cockpit.Kubernetes.LoaderErrors

namespace Cockpit.Kube

open List Option AList CockpitKubeWatch Lib

/-!
# `kubeLoader`: what it has in the end

Frames of a watch and results of requests come to the same table in any order.

* `Loader.pending` — what the table will have at a link when all that waits has been flushed; it
  changes by one frame after the other, whenever they are flushed (`arrive_spec`);
* `newest_iff` — when it is the last version that an object had.
-/

/-! ## One link -/

variable (link : String)

/-- The frames for a link, with their resources. -/
def framesAt (frames : List Frame) : List (Frame × Resource) :=
  frames.filterMap fun frame => frame.object.bind fun resource =>
    if resource.link = some link then some (frame, resource) else none

theorem framesAt_append (frames frames' : List Frame) :
    framesAt link (frames ++ frames') = framesAt link frames ++ framesAt link frames' :=
  filterMap_append

/-- What a frame does at its link. -/
def applyAt (current : Option Resource) (entry : Frame × Resource) : Option Resource :=
  if entry.1.type = "DELETED" then none
  else if entry.1.checkResourceVersion && isStale current entry.2 then current
  else some entry.2

theorem lookup_apply (d : Drain) (frame : Frame) (resource : Resource) (link link' : String) :
    (d.apply frame link resource).objects.lookup link' =
      if link = link' then applyAt (d.objects.lookup link') (frame, resource)
      else d.objects.lookup link' := by
  unfold Drain.apply applyAt
  by_cases heq : link = link'
  · subst heq
    rw [if_pos rfl]
    split
    · exact lookup_erase link d.objects
    cases frame.checkResourceVersion with
    | false => exact lookup_insert d.objects
    | true =>
      cases isStale (d.objects.lookup link) resource with
      | false => exact lookup_insert d.objects
      | true => rfl
  rw [if_neg heq]
  have hne : link' ≠ link := Ne.symm heq
  split
  · exact lookup_erase_ne hne
  split
  · split
    · rfl
    · exact lookup_insert_ne hne
  · exact lookup_insert_ne hne

/-- A batch at one link, for a view of the table that a frame only changes at its own link. -/
theorem loop_at {β : Type} (view : Drain → β) {f : β → Frame × Resource → β} {link : String}
    (happly : ∀ d frame resource link', view (Drain.apply d frame link' resource) =
      if link' = link then f (view d) (frame, resource) else view d)
    {frames : List Frame} (h : Decodes frames) (d : Drain) :
    view (Drain.loop frames d).1 = (framesAt link frames).foldl f (view d) := by
  induction frames generalizing d with
  | nil => rfl
  | cons frame frames ih =>
    have hrest : Decodes frames := fun f hf => h f (mem_cons_of_mem _ hf)
    unfold Drain.loop framesAt
    rw [filterMap_cons]
    cases hobj : frame.object with
    | none => exact ih hrest d
    | some resource =>
      have hlink := h frame mem_cons_self resource hobj
      dsimp only [bind_some]
      cases hdecoded : resource.link with
      | none => exact absurd hdecoded hlink
      | some link' =>
        refine (ih hrest _).trans ?_
        rw [happly]
        by_cases heq : link' = link
        · rw [if_pos heq, if_pos (congrArg some heq)]
          rfl
        · rw [if_neg heq, if_neg fun hsome => heq (some.inj hsome)]
          rfl

theorem lookup_loop {frames : List Frame} (h : Decodes frames) (d : Drain) (link : String) :
    (Drain.loop frames d).1.objects.lookup link =
      (framesAt link frames).foldl applyAt (d.objects.lookup link) :=
  loop_at (·.objects.lookup link) (fun d frame resource link' =>
    lookup_apply d frame resource link' link) h d

namespace Loader

variable {K : KubeWatch} {l : Loader K} {link : String}

/-- What the table will have at a link. -/
def pending (l : Loader K) (link : String) : Option Resource :=
  (framesAt link (l.batch.getD [])).foldl applyAt (l.objects.lookup link)

section

variable (h : Decodes (l.batch.getD []))

include h

theorem handleFlush_spec :
    ∃ l', l.handleFlush = .ok l' ∧ l'.batch = none ∧
      ∀ link, l'.objects.lookup link = l.pending link := by
  rw [handleFlush_eq]
  unfold pending
  cases hbatch : l.batch with
  | none => exact ⟨l, rfl, hbatch, fun link => rfl⟩
  | some drain =>
    rw [hbatch] at h
    have hdrain : Decodes drain := h
    dsimp only
    rw [loop_ended hdrain]
    exact ⟨_, rfl, rfl, fun link => lookup_loop hdrain _ link⟩

theorem handleFrames_spec {frames : List Frame}
    (hframes : Decodes frames) :
    ∃ l', l.handleFrames frames = .ok l' ∧ Decodes (l'.batch.getD []) ∧
      ∀ link, l'.pending link = (framesAt link frames).foldl applyAt (l.pending link) := by
  have hwaits : ∀ link, ((framesAt link (l.batch.getD [] ++ frames)).foldl applyAt
      (l.objects.lookup link)) = (framesAt link frames).foldl applyAt (l.pending link) := by
    intro link
    rw [framesAt_append, foldl_append]
    rfl
  unfold handleFrames
  dsimp only
  split
  · exact ⟨_, rfl, h.append hframes, hwaits⟩
  obtain ⟨l', hl', hbatch, hobjs⟩ := @handleFlush_spec K { l with
    batch := some (l.batch.getD [] ++ frames)
    batchTimeout := l.batchTimeout || frames != [] } (h.append hframes)
  refine ⟨l', hl', ?_, fun link => ?_⟩
  · rw [hbatch]
    exact decodes_nil
  · unfold pending
    rw [hbatch, hobjs]
    exact hwaits link

theorem handleFrames_flush_spec {frames : List Frame}
    (hframes : Decodes frames) :
    ∃ l', (l.handleFrames frames >>= handleFlush) = .ok l' ∧ Decodes (l'.batch.getD []) ∧
      ∀ link, l'.pending link = (framesAt link frames).foldl applyAt (l.pending link) := by
  obtain ⟨l₁, hl₁, hbatch₁, hpending₁⟩ := handleFrames_spec h hframes
  obtain ⟨l₂, hl₂, hbatch₂, hobjects₂⟩ := handleFlush_spec hbatch₁
  rw [hl₁]
  refine ⟨l₂, hl₂, ?_, fun link => ?_⟩
  · rw [hbatch₂]
    exact decodes_nil
  · rw [← hpending₁, ← hobjects₂, pending, hbatch₂]
    rfl

end

/-! ## What comes to a loader -/

/-- What comes: frames that a watch passes on, an answer to a request, or the time to flush. -/
inductive Arrival where
  | watched (frames : List Frame)
  | loaded (response : Response)
  | timeout

def arrive (l : Loader K) : Arrival → Loader K
  | .watched frames => settle (l.handleFrames frames)
  | .loaded response => settle (l.loaded response)
  | .timeout => if l.batchTimeout then settle l.handleTimeout else l

/-- The frames that are made of a response, if it is handled at all. -/
def Response.frames (response : Response) : Option (List Frame) :=
  match response.resource.kind with
  | none => none
  | some kind =>
    if kind = "" then none
    else if isList kind then
      response.items.map fun items =>
        objectFrames items false (some (String.ofList (kind.toList.take (kind.length - 4))))
    else some (objectFrames [response.resource] false none)

/-- What is handled, is handled at once. -/
theorem loaded_eq (l : Loader K) (response : Response) :
    settle (l.loaded response) = match response.frames with
      | none => l
      | some frames => settle (l.handleFrames frames >>= handleFlush) := by
  unfold loaded Response.frames
  cases response.resource.kind with
  | none => rfl
  | some kind =>
    dsimp only
    split
    · rfl
    split
    · cases response.items <;> rfl
    · rfl

def Arrival.frames : Arrival → List Frame
  | .watched frames => frames
  | .loaded response => response.frames.getD []
  | .timeout => []

/-- **Whatever comes changes what will be there**, by one frame after the other. -/
theorem arrive_spec (h : Decodes (l.batch.getD [])) (arrival : Arrival)
    (hframes : Decodes arrival.frames) :
    Decodes ((l.arrive arrival).batch.getD []) ∧ ∀ link, (l.arrive arrival).pending link =
        (framesAt link arrival.frames).foldl applyAt (l.pending link) := by
  unfold arrive Arrival.frames at *
  cases arrival with
  | watched frames =>
    obtain ⟨l', hl', hspec⟩ := handleFrames_spec h hframes
    dsimp only
    rw [hl']
    exact hspec
  | loaded response =>
    dsimp only at hframes ⊢
    rw [loaded_eq]
    cases hresp : response.frames with
    | none => exact ⟨h, fun link => rfl⟩
    | some frames =>
      rw [hresp] at hframes
      obtain ⟨l', hl', hspec⟩ := handleFrames_flush_spec h (show Decodes frames from hframes)
      dsimp only
      rw [hl']
      exact hspec
  | timeout =>
    dsimp only
    split
    · obtain ⟨l', hl', hbatch, hobjs⟩ := @handleFlush_spec K { l with batchTimeout := false } h
      unfold handleTimeout
      rw [hl']
      refine ⟨?_, fun link => ?_⟩
      · simp only [settle]
        rw [hbatch]
        exact decodes_nil
      simp only [settle]
      unfold pending
      rw [hbatch]
      exact hobjs link
    · exact ⟨h, fun link => rfl⟩

theorem arrive_run {arrivals : List Arrival} (hframes : Decodes (arrivals.flatMap Arrival.frames)) :
    Decodes ((Lib.run arrive ({} : Loader K) arrivals).batch.getD []) ∧
      ∀ link, (Lib.run arrive ({} : Loader K) arrivals).pending link =
        (framesAt link (arrivals.flatMap Arrival.frames)).foldl applyAt none := by
  induction arrivals using List.reverseRecOn with
  | nil => exact ⟨decodes_nil, fun link => rfl⟩
  | append_singleton arrivals arrival ih =>
    rw [flatMap_append, flatMap_singleton] at hframes ⊢
    obtain ⟨hbatch, hpend⟩ := ih fun f hf => hframes f (mem_append_left _ hf)
    obtain ⟨hbatch', hpending'⟩ :=
      arrive_spec hbatch arrival fun f hf => hframes f (mem_append_right _ hf)
    rw [run_append, run_cons, run_nil]
    refine ⟨hbatch', fun link => ?_⟩
    rw [hpending', hpend, framesAt_append, foldl_append]

end Loader

/-! ## An object and its versions -/

/-- An object on the server: its versions one after the other, and what the frame of its deletion
    has. -/
structure History where
  versions : List Resource
  deleted : Option Resource := none
deriving DecidableEq, Repr

namespace History

variable {h : History}

def told (type : String) (resource : Resource) : Frame × Resource := (⟨type, some resource, false⟩, resource)

/-- The frames in which a watch tells of it. -/
def frames (h : History) : List (Frame × Resource) :=
  (match h.versions with
    | [] => []
    | version :: versions => told "ADDED" version :: versions.map (told "MODIFIED")) ++
    (h.deleted.map (told "DELETED")).toList

/-- Its last version, unless it was deleted. -/
def newest (h : History) : Option Resource :=
  match h.deleted with
  | some _ => none
  | none => h.versions.getLast?

/-- Versions are positive numbers that grow, as far as JavaScript can tell. -/
structure Grows (h : History) : Prop where
  created : h.versions ≠ []
  positive : ∀ resource ∈ h.versions, ∃ version, resource.version = some version ∧ 0 < version
  grow : h.versions.Pairwise fun a b => a.version.getD 0 ≤ b.version.getD 0

/-- What comes for its link: all the frames of a watch in order, and among them any results, each of
    them a version that it had. -/
structure Delivered (link : String) (h : History) (frames : List Frame) : Prop where
  watched : (framesAt link frames).filter (fun e => !e.1.checkResourceVersion) = h.frames
  results : ∀ e ∈ framesAt link frames, e.1.checkResourceVersion →
    e.1.type ≠ "DELETED" ∧ e.2 ∈ h.versions

/-- The results that come after the last frame. -/
def late (frames : List Frame) : List (Frame × Resource) :=
  (framesAt link frames).rtakeWhile fun e => e.1.checkResourceVersion

/-- No result comes after the deletion; and of those that come after the last version, and have a
    number that reads the same, the last one is this version. -/
def Kept (h : History) (late : List Resource) : Prop :=
  match h.deleted with
  | some _ => late = []
  | none => ∀ last ∈ h.versions.getLast?,
    (late.filter (fun resource => resource.version = last.version)).getLast?.getD last = last

/-! ### The last frame, and what comes after it -/

/-- A frame of a watch replaces what was there, whatever it was. -/
theorem applyAt_of_watch {e : Frame × Resource} (he : e.1.checkResourceVersion = false)
    (current : Option Resource) :
    applyAt current e = if e.1.type = "DELETED" then none else some e.2 := by
  unfold applyAt
  rw [he]
  rfl

/-- Only the last frame of a watch counts, and the results after it. -/
theorem foldl_last {entries watched : List (Frame × Resource)} {last : Frame × Resource}
    (h : entries.filter (fun e => !e.1.checkResourceVersion) = watched ++ [last])
    (current : Option Resource) :
    entries.foldl applyAt current =
      (entries.rtakeWhile fun e => e.1.checkResourceVersion).foldl applyAt
        (if last.1.type = "DELETED" then none else some last.2) := by
  induction entries using List.reverseRecOn generalizing watched with
  | nil => exact absurd h.symm (by simp)
  | append_singleton entries e ih =>
    rw [filter_append] at h
    by_cases he : e.1.checkResourceVersion
    · -- a result
      have hnil : [e].filter (fun e => !e.1.checkResourceVersion) = [] := by simp [he]
      rw [hnil, append_nil] at h
      rw [rtakeWhile_concat_pos (fun e : Frame × Resource => e.1.checkResourceVersion) _ _ he,
        foldl_append, foldl_append, ih h]
    have hfalse : e.1.checkResourceVersion = false := Bool.eq_false_iff.mpr he
    have hone : [e].filter (fun e => !e.1.checkResourceVersion) = [e] := by simp [hfalse]
    rw [hone] at h
    obtain ⟨-, heq⟩ := append_inj' h rfl
    obtain rfl := singleton_inj.mp heq
    rw [rtakeWhile_concat_neg (fun e : Frame × Resource => e.1.checkResourceVersion) _ _ he,
      foldl_append]
    exact applyAt_of_watch hfalse _

variable {results : List (Frame × Resource)}

/-- A result is taken where there is nothing. -/
theorem foldl_none (h : ∀ e ∈ results, e.1.type ≠ "DELETED") :
    results.foldl applyAt none = none ↔ results = [] := by
  have hsome : ∀ (results : List (Frame × Resource)) (current : Resource),
      (∀ e ∈ results, e.1.type ≠ "DELETED") →
      ∃ resource, results.foldl applyAt (some current) = some resource := by
    intro results
    induction results with
    | nil => exact fun current _ => ⟨current, rfl⟩
    | cons e results ih =>
      intro current hall
      have hrest := fun e' he' => hall e' (mem_cons_of_mem _ he')
      rw [foldl_cons]
      unfold applyAt
      rw [if_neg (hall e mem_cons_self)]
      split
      · exact ih current hrest
      · exact ih e.2 hrest
  cases results with
  | nil => exact ⟨fun _ => rfl, fun _ => rfl⟩
  | cons e results =>
    have hfirst : applyAt none e = some e.2 := by
      unfold applyAt
      rw [if_neg (h e mem_cons_self)]
      have hstale : isStale none e.2 = false := by simp [isStale, noVersion]
      rw [hstale, Bool.and_false]
      rfl
    rw [foldl_cons, hfirst]
    obtain ⟨resource, hresource⟩ :=
      hsome results e.2 fun e' he' => h e' (mem_cons_of_mem _ he')
    rw [hresource]
    exact ⟨fun hn => (nomatch hn), fun hn => (nomatch hn)⟩

/-- Older results are passed over; among those whose number is the same, the last one stays. -/
theorem foldl_some {current : Resource} {number : Int}
    (hcurrent : current.version = some number) (hpos : 0 < number)
    (h : ∀ e ∈ results, e.1.checkResourceVersion ∧ e.1.type ≠ "DELETED" ∧
      ∃ version, e.2.version = some version ∧ 0 < version ∧ version ≤ number) :
    results.foldl applyAt (some current) =
      some (((results.map Prod.snd).filter (fun resource => resource.version = some number)).getLast?.getD
        current) := by
  induction results generalizing current with
  | nil => rfl
  | cons e results ih =>
    have hrest := fun e' he' => h e' (mem_cons_of_mem _ he')
    obtain ⟨hcheck, htype, version, hvers, hvpos, hle⟩ := h e mem_cons_self
    have hstale : isStale (some current) e.2 = decide (version < number) := by
      unfold isStale noVersion
      rw [bind_some, hvers, hcurrent]
      by_cases hlt : version < number
      · simp [hlt, hvpos.ne', hpos.ne']
      · simp [hlt, not_lt.mp hlt]
    have hstep : applyAt (some current) e = if version < number then some current else some e.2 := by
      unfold applyAt
      rw [if_neg htype, hcheck, hstale, Bool.true_and]
      simp only [decide_eq_true_eq]
    rw [foldl_cons, map_cons, hstep]
    by_cases hlt : version < number
    · rw [if_pos hlt, ih hcurrent hrest, filter_cons_of_neg]
      rw [hvers]
      simp [hlt.ne]
    have heq : version = number := le_antisymm hle (not_lt.mp hlt)
    rw [if_neg hlt, ih (hvers.trans (congrArg some heq)) hrest, filter_cons_of_pos,
      getLast?_cons, getD_some]
    rw [hvers, heq]
    exact decide_eq_true rfl

/-- The frames of a watch end with the deletion, or else with the last version. -/
theorem frames_eq (h : History) (hcreat : h.versions ≠ []) :
    ∃ watched last, h.frames = watched ++ [last] ∧
      match h.deleted with
      | some _ => last.1.type = "DELETED"
      | none => last.1.type ≠ "DELETED" ∧ h.versions.getLast? = some last.2 := by
  unfold frames
  cases hdeleted : h.deleted with
  | some resource => exact ⟨_, told "DELETED" resource, rfl, rfl⟩
  | none =>
    rw [map_none, toList_none, append_nil]
    cases hversions : h.versions with
    | nil => exact absurd hversions hcreat
    | cons version versions =>
      rcases eq_nil_or_concat versions with rfl | ⟨before, last, rfl⟩
      · exact ⟨[], told "ADDED" version, rfl, (by decide : "ADDED" ≠ "DELETED"), rfl⟩
      refine ⟨told "ADDED" version :: before.map (told "MODIFIED"), told "MODIFIED" last, ?_, ?_, ?_⟩
      · simp
      · exact (by decide : "MODIFIED" ≠ "DELETED")
      · rw [concat_eq_append, ← cons_append, getLast?_concat]
        rfl

/-- Versions are at most the last one. -/
theorem Grows.le_last (hg : h.Grows) {last : Resource} (hlast : h.versions.getLast? = some last) :
    ∀ resource ∈ h.versions, resource.version.getD 0 ≤ last.version.getD 0 := by
  intro resource hmem
  obtain ⟨before, hsplit⟩ := getLast?_eq_some_iff.mp hlast
  have hgrow := hg.grow
  rw [hsplit] at hmem hgrow
  rcases mem_append.mp hmem with hmem | hmem
  · exact (pairwise_append.mp hgrow).2.2 resource hmem last mem_cons_self
  · rw [mem_singleton.mp hmem]

/-- What one link has in the end. -/
theorem foldl_eq_newest_iff (hg : h.Grows) {link : String} {frames : List Frame}
    (hd : Delivered link h frames) :
    (framesAt link frames).foldl applyAt none = h.newest ↔
      h.Kept ((late link frames).map Prod.snd) := by
  obtain ⟨watched, last, hframes, hlast⟩ := h.frames_eq hg.created
  rw [foldl_last (hd.watched.trans hframes)]
  have hlate : ∀ e ∈ late link frames,
      e.1.checkResourceVersion ∧ e.1.type ≠ "DELETED" ∧ e.2 ∈ h.versions := by
    intro e he
    have hcheck := mem_rtakeWhile_imp he
    obtain ⟨htype, hmem⟩ := hd.results e ((rtakeWhile_suffix _ _).mem he) hcheck
    exact ⟨hcheck, htype, hmem⟩
  unfold newest Kept
  cases hdeleted : h.deleted with
  | some resource =>
    rw [hdeleted] at hlast
    dsimp only at hlast ⊢
    rw [if_pos hlast, map_eq_nil_iff]
    exact foldl_none fun e he => (hlate e he).2.1
  | none =>
    rw [hdeleted] at hlast
    dsimp only at hlast ⊢
    obtain ⟨htype, hvers⟩ := hlast
    obtain ⟨number, hnumber, hpos⟩ := hg.positive last.2 (mem_of_getLast? hvers)
    have hress := @foldl_some (late link frames) last.2 number hnumber hpos fun e he => by
      obtain ⟨hcheck, htype', hmem⟩ := hlate e he
      obtain ⟨version, hv, hvpos⟩ := hg.positive e.2 hmem
      have hle := hg.le_last hvers e.2 hmem
      rw [hv, hnumber] at hle
      exact ⟨hcheck, htype', version, hv, hvpos, hle⟩
    rw [if_neg htype]
    unfold late at hress
    rw [hress, hvers]
    simp only [some.injEq, mem_def, forall_eq', hnumber]
    rfl

end History

namespace Loader

variable {K : KubeWatch}

/-- **The loader ends up with the newest state** of an object just when no result comes too late. -/
theorem newest_iff {link : String} {h : History} (hgrows : h.Grows) {arrivals : List Arrival}
    (hdelivered : History.Delivered link h (arrivals.flatMap Arrival.frames))
    (hdecodes : Decodes (arrivals.flatMap Arrival.frames)) :
    (settle (Lib.run arrive ({} : Loader K) arrivals).handleFlush).objects.lookup link = h.newest ↔
      h.Kept ((History.late link (arrivals.flatMap Arrival.frames)).map Prod.snd) := by
  obtain ⟨hbatch, hpending⟩ := @arrive_run K arrivals hdecodes
  obtain ⟨l', hl', -, hobjects⟩ := handleFlush_spec hbatch
  rw [hl']
  simp only [settle]
  rw [hobjects, hpending]
  exact History.foldl_eq_newest_iff hgrows hdelivered

/-- A node, in one of its versions. -/
def node (version : String) : Resource where
  kind := some "Node"
  metadata := some { selfLink := some "/api/v1/nodes/a", resourceVersion := some version }

/-- Results that are older than what is there, or come before what is newer. -/
theorem newest_changed :
    let h : History := ⟨[node "9", node "10"], none⟩
    (settle (Lib.run arrive ({} : Loader (implementation fun _ => none))
      [.watched [⟨"ADDED", node "9", false⟩], .loaded ⟨node "10", none⟩,
        .watched [⟨"MODIFIED", node "10", false⟩], .loaded ⟨node "9", none⟩]).handleFlush).objects.lookup
        "/api/v1/nodes/a" = h.newest := by
  intro h
  have hgrows : h.Grows := by
    refine ⟨by decide, fun resource hmem => ?_, by decide⟩
    have hversion : resource.version.isSome ∧ 0 < resource.version.getD 0 :=
      (by decide : ∀ resource ∈ h.versions,
        resource.version.isSome ∧ 0 < resource.version.getD 0) resource hmem
    obtain ⟨version, hsome⟩ := isSome_iff_exists.mp hversion.1
    exact ⟨version, hsome, by rw [hsome] at hversion; exact hversion.2⟩
  refine (newest_iff hgrows ⟨by decide, by decide⟩ (by decide)).mpr ?_
  show ∀ last ∈ h.versions.getLast?, _
  decide

/-- A result that comes after the deletion brings the object back. -/
theorem not_newest_deleted :
    let h : History := ⟨[node "9"], some (node "9")⟩
    let arrivals : List Arrival := [.watched [⟨"ADDED", node "9", false⟩],
      .watched [⟨"DELETED", node "9", false⟩], .loaded ⟨node "9", none⟩]
    History.Delivered "/api/v1/nodes/a" h (arrivals.flatMap Arrival.frames) ∧
      (settle (Lib.run arrive ({} : Loader (implementation fun _ => none))
        arrivals).handleFlush).objects.lookup "/api/v1/nodes/a" ≠ h.newest := by
  intro h arrivals
  exact ⟨⟨by decide, by decide⟩, by decide⟩

end Loader

end Cockpit.Kube
