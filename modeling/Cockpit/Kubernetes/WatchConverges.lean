import Cockpit.Kubernetes.WatchSound

namespace Cockpit.Kube

open Lib (CatchesUp lastOf)
open List Line
open Option

/-!
# `CockpitKubeWatch`: a watch that is restarted converges

* `Sound.respond`, `Inv.receive` — what is on its way is what is to come when a response begins,
  and when a message comes;
* `converged_run` — a watch converges, in all runs of steps that keep it so.
-/

variable {parse : List Char → Option (Option Frame)}

namespace World

open CockpitKubeWatch

variable {w w' : World parse} {listed : List (Change parse)} {rest : List (Line parse)}

/-! ### A response begins -/

variable {watch : CockpitKubeWatch}

/-- Everything is listed again. -/
theorem sends_listing {objects : List (Change parse)} (hlists : existing objects = w.server w.log.length)
    (h : w.Restarts)
    (hkept : kept watch = (∅, some w.watch.objects, w.watch.loaded)) :
    Sends { w with
      watch := watch
      pending := objects.map .change
      piece := []
      follows := true
      progress := ⟨some objects.length, w.log.length, w.log.length⟩ } objects [] := by
  obtain ⟨hobjs, hrest⟩ := Prod.mk.inj hkept
  obtain ⟨hprev, hloaded⟩ := Prod.mk.inj hrest
  have hdue : ((objects ++ (w.log.take w.log.length).drop w.log.length).map Change.update) =
      objects.map Change.update := by
    rw [take_length, drop_length, append_nil]
  have hstored : ∀ k, w.server w.log.length k =
      (lastOf (objects.map Change.update) k).getD none := by
    intro k
    rw [← hlists]
    exact Lib.updates_apply _ _ k
  constructor
  · rfl
  · exact (append_nil _).symm
  · exact le_refl _
  · exact le_refl _
  · exact fun _ => rfl
  · exact nil_prefix
  · intro _
    exact (drop_length).symm
  · unfold due
    dsimp only
    rw [hdue]
    constructor
    · intro k a hk
      show w.server w.log.length k = a
      rw [hstored, hk]
      rfl
    intro k hk
    have hnone : w.server w.log.length k = none := by
      rw [hstored, hk]
      rfl
    show view w.passed k = w.server w.log.length k ∨ _
    rw [hnone]
    by_cases hview : view w.passed k = none
    · exact .inl hview
    obtain ⟨hnot, uid, resource, hlook, hidentity⟩ := h.gone k hview hnone
    right
    refine ⟨hloaded.trans hnot, uid, resource, ?_, ?_, hidentity⟩
    · rw [hprev]
      exact hlook
    · rw [hobjs]
      simp
  intro hnot
  unfold due
  dsimp only
  rw [hdue]
  constructor
  · rw [hprev]
    exact h.own (hloaded.symm.trans hnot)
  intro uid resource _ _ hk
  show w.server w.log.length _ = none
  rw [hstored, hk]
  rfl

/-- What has gone and is yet to be told has been told all the same. -/
theorem Sends.resumes (h : w.Sends listed rest) (hresumes : w.Resumes)
    (hkept : kept watch = (w.watch.objects, none, w.watch.loaded)) :
    CatchesUp (view w.passed) (w.due listed) (w.server w.progress.newest) watch.Gone ∧
      ∀ due t, watch.Compares due t := by
  obtain ⟨hobjs, hrest⟩ := Prod.mk.inj hkept
  obtain ⟨hprev, hloaded⟩ := Prod.mk.inj hrest
  constructor
  · refine h.catchesUp.mono fun k hlast hbef => .inl ?_
    rcases hbef with hsame | ⟨hnot, uid, resource, hlook, hmem, rfl⟩
    · exact hsame
    obtain ⟨hown, hgone⟩ := h.compares hnot
    rcases hresumes with htrue | htold
    · rw [hnot] at htrue
      exact nomatch htrue
    have hframe : (⟨"DELETED", some resource, false⟩ : Frame) ∈
        goneFrames (w.watch.previous.getD ∅) w.watch.objects := by
      apply List.mem_map.mpr
      refine ⟨⟨uid, resource⟩, mem_filter.mpr ⟨AList.mem_lookup_iff.mp hlook, ?_⟩, rfl⟩
      exact decide_eq_true hmem
    rw [htold _ hframe resource rfl, (hown uid resource hlook).1]
    rw [(hown uid resource hlook).1] at hlast
    exact (hgone uid resource hlook hmem hlast).symm
  intro due t
  constructor
  all_goals
    rw [hprev]
    intro uid resource hlook
    exact nomatch hlook

/-- Nothing comes, or an error. -/
theorem Sound.resumes (h : w.Sound) (hnone : w.pending = []) (hresumes : w.Resumes) (hkept : kept watch = (w.watch.objects, none, w.watch.loaded))
    {pending : List (Line parse)} (hpend : pending.filterMap changed = []) :
    Sound { w with watch := watch, pending := pending, piece := [], follows := false } where
  untold _ := hpend
  sends hlisting := by
    obtain ⟨listed, rest, hs⟩ := h.sends hlisting
    have hempty := hs.pending
    rw [hnone] at hempty
    obtain ⟨hlisted, -⟩ := append_eq_nil_iff.mp hempty.symm
    obtain rfl := map_eq_nil_iff.mp hlisted
    obtain ⟨hcatch, hcmp⟩ := hs.resumes hresumes hkept
    refine ⟨[], pending, ?_⟩
    exact { hs with
      pending := rfl
      changes := by
        rw [hpend]
        exact nil_prefix
      follows := nofun
      catchesUp := hcatch
      compares := fun _ => hcmp _ _ }
  following hnot := nomatch hnot

/-- Changes come again from a place on that was known of. -/
theorem Sound.resumes_at (h : w.Sound) (hresumes : w.Resumes) (hkept : kept watch = (w.watch.objects, none, w.watch.loaded))
    {start : Nat} (hstart : start ≤ w.progress.position) (hlist : w.progress.listing = some 0) :
    Sends { w with
      watch := watch
      pending := (w.log.drop start).map .change
      piece := []
      follows := true
      progress := { w.progress with position := start } } [] ((w.log.drop start).map .change) := by
  obtain ⟨listed, rest, hs⟩ := h.sends (hlist ▸ some_ne_none 0)
  obtain rfl : listed = [] := by
    have hlen := hs.listing
    rw [hlist] at hlen
    exact length_eq_zero_iff.mp (some.inj hlen).symm
  obtain ⟨hcatch, hcmp⟩ := hs.resumes hresumes hkept
  have hchanged : ∀ changes : List (Change parse),
      (changes.map change).filterMap changed = changes := by
    intro changes
    rw [filterMap_map]
    exact filterMap_some
  have hsplit : (w.log.take w.progress.newest).drop start =
      ((w.log.take w.progress.newest).drop start).take (w.progress.position - start) ++
        (w.log.take w.progress.newest).drop w.progress.position := by
    conv_lhs => rw [← take_append_drop (w.progress.position - start)
      ((w.log.take w.progress.newest).drop start)]
    rw [drop_drop, Nat.add_sub_cancel' hstart]
  have hsrv : w.server w.progress.newest = (existing ((w.log.take w.progress.newest).take start)).updates
      ((((w.log.take w.progress.newest).drop start).take (w.progress.position - start)).map
        Change.update ++ w.due []) := by
    unfold due server existing
    rw [← map_append, nil_append, ← hsplit, ← Lib.updates_append, ← map_append, take_append_drop]
  have hdue : (([] ++ (w.log.take w.progress.newest).drop start : List (Change parse)).map
      Change.update) = (((w.log.take w.progress.newest).drop start).take
        (w.progress.position - start)).map Change.update ++ w.due [] := by
    unfold due
    rw [← map_append, nil_append, nil_append, ← hsplit]
  exact { hs with
    listing := hlist
    pending := rfl
    position_le := le_trans hstart hs.position_le
    still := fun hne => absurd rfl hne
    changes := ⟨[], by rw [hchanged, append_nil]⟩
    follows := fun _ => hchanged _
    catchesUp := by
      have hresume := hcatch.resume hsrv
      rw [← hdue] at hresume
      exact hresume
    compares := fun _ => hcmp _ _ }

theorem kept_loadPoke (w : CockpitKubeWatch) (force : Bool) : kept (w.loadPoke force) = kept w := by
  unfold loadPoke
  split <;> rfl

theorem kept_loadBegin (w : CockpitKubeWatch) (full : Bool) : kept (w.loadBegin full) =
    if full then (∅, some w.objects, w.loaded) else (w.objects, none, w.loaded) := by
  unfold loadBegin
  split <;> exact kept_loadPoke _ _

variable {status : Nat} {reply : Reply parse}

/-- **A response begins.** -/
theorem Sound.respond (h : w.Sound) {request : Request} (hchan : w.watch.channel = some request)
    (hstat : request.status = none) (hnone : w.pending = [])
    (hassumed : w.Assumed (.response status reply)) (hok : w.StepOk (.response status reply)) :
    (w.respond status reply).Sound := by
  have hassumed := hassumed request hchan hstat
  have hok := hok request hchan hstat
  have hkept := kept_loadBegin { w.watch with channel := some { request with status := some status } }
    request.full
  have hstep : w.watchStep (.response status) = { w with
      watch := { w.watch with
        channel := some { request with status := some status } }.loadBegin request.full } := by
    unfold World.watchStep CockpitKubeWatch.step
    dsimp only
    rw [hchan]
    simp
  unfold World.respond
  rw [hchan]
  dsimp only
  rw [hstat, hstep]
  cases hfull : request.full with
  | true =>
    rw [hfull] at hok hkept
    rw [if_pos rfl] at hok hkept
    have huntold : ∀ (watch : CockpitKubeWatch) (pending : List (Line parse)),
        pending.filterMap changed = [] → Sound { w with
          watch := watch
          pending := pending
          piece := []
          follows := false
          progress := { w.progress with listing := none } } := by
      intro watch pending hpend
      exact ⟨fun _ => hpend, fun hnot => absurd rfl hnot, nofun⟩
    split
    · rename_i hsome
      exact nomatch hsome
    split
    · exact huntold _ [] rfl
    rename_i hlow
    cases reply with
    | listing objects =>
      obtain ⟨-, -, hlists⟩ := hassumed (not_lt.mp hlow)
      have hs := sends_listing hlists (hok (not_lt.mp hlow) objects rfl) hkept
      exact ⟨fun hnot => (nomatch hnot), fun _ => ⟨objects, [], hs⟩,
        fun _ => some_ne_none _⟩
    | changes start =>
      have hnot := (hassumed (not_lt.mp hlow)).1
      rw [hfull] at hnot
      exact nomatch hnot
    | error f => exact huntold _ [.error f] rfl
  | false =>
    rw [hfull] at hok hkept
    rw [if_neg Bool.false_ne_true] at hok hkept
    obtain ⟨hresumes, hcompl⟩ := hok
    split
    · rename_i hsome
      exact nomatch hsome
    split
    · exact h.resumes hnone hresumes hkept rfl
    rename_i hlow
    cases reply with
    | listing objects =>
      have hnot := (hassumed (not_lt.mp hlow)).1
      rw [hfull] at hnot
      exact nomatch hnot
    | changes start =>
      obtain ⟨-, hstart⟩ := hassumed (not_lt.mp hlow)
      have hlist := hcompl (not_lt.mp hlow) start rfl
      have hs := h.resumes_at hresumes hkept hstart hlist
      have htold : w.progress.listing ≠ none := hlist ▸ some_ne_none 0
      exact ⟨fun hnot => absurd hnot htold, fun _ => ⟨[], _, hs⟩, fun _ => htold⟩
    | error f => exact h.resumes hnone hresumes hkept rfl

/-! ### The server goes on -/

theorem Sends.append (h : w.Sends listed rest) (c : Change parse) : Sends { w with
    log := w.log ++ [c]
    pending := if w.follows then w.pending ++ [.change c] else w.pending } listed
    (if w.follows then rest ++ [.change c] else rest) := by
  have hposition : w.progress.position ≤ w.log.length := le_trans h.position_le h.newest_le
  have hdrop : (w.log ++ [c]).drop w.progress.position = w.log.drop w.progress.position ++ [c] :=
    drop_append_of_le_length hposition
  have htake : (w.log ++ [c]).take w.progress.newest = w.log.take w.progress.newest :=
    take_append_of_le_length h.newest_le
  have hsrv : server { w with
      log := w.log ++ [c]
      pending := if w.follows then w.pending ++ [.change c] else w.pending } w.progress.newest =
        w.server w.progress.newest := congrArg existing htake
  have hdue : due { w with
      log := w.log ++ [c]
      pending := if w.follows then w.pending ++ [.change c] else w.pending } listed =
        w.due listed := by
    unfold due
    dsimp only
    rw [htake]
  constructor
  · exact h.listing
  · dsimp only
    split
    · rw [h.pending, append_assoc]
    · exact h.pending
  · exact h.position_le
  · rw [List.length_append]
    exact Nat.le_add_right_of_le h.newest_le
  · exact h.still
  · dsimp only
    rw [hdrop]
    split
    · rename_i hfoll
      rw [filterMap_append, h.follows hfoll]
      exact prefix_rfl
    · exact h.changes.trans (prefix_append _ _)
  · intro hfoll
    have hbef : w.follows := hfoll
    dsimp only
    rw [hdrop, if_pos hbef, filterMap_append, h.follows hbef]
    rfl
  · dsimp only
    rw [hsrv, hdue]
    exact h.catchesUp
  intro hloaded
  dsimp only
  rw [hsrv, hdue]
  exact h.compares hloaded

theorem Sound.append (h : w.Sound) (c : Change parse) : (w.step (.change c)).Sound := by
  refine ⟨fun hnone => ?_, fun hlist => ?_, h.following⟩
  · show (if w.follows then w.pending ++ [.change c] else w.pending).filterMap changed = []
    split
    · rename_i hfoll
      exact absurd hnone (h.following hfoll)
    · exact h.untold hnone
  · obtain ⟨listed, rest, hs⟩ := h.sends hlist
    exact ⟨listed, _, hs.append c⟩

theorem Sound.fail (h : w.Sound) (f : Failure parse) :
    Sound { w with pending := w.pending ++ [.error f], follows := false } where
  untold hnone := by
    show (w.pending ++ [error f]).filterMap changed = []
    rw [filterMap_append, h.untold hnone]
    rfl
  sends hlisting := by
    obtain ⟨listed, rest, hs⟩ := h.sends hlisting
    refine ⟨listed, rest ++ [.error f], ?_⟩
    exact { hs with
      pending := by
        dsimp only
        rw [hs.pending, append_assoc]
      changes := by
        rw [filterMap_append]
        show rest.filterMap changed ++ [] <+: _
        rw [append_nil]
        exact hs.changes
      follows := nofun }
  following hnot := nomatch hnot

/-- A response ends. -/
theorem Sound.close (h : w.Sound) : Sound { w with
    pending := []
    piece := []
    follows := false
    progress := if w.progress.listing = some 0 then w.progress
      else { w.progress with listing := none } } := by
  split
  · rename_i hlist
    obtain ⟨listed, rest, hs⟩ := h.sends (hlist ▸ some_ne_none 0)
    obtain rfl : listed = [] := by
      have hlen := hs.listing
      rw [hlist] at hlen
      exact length_eq_zero_iff.mp (some.inj hlen).symm
    refine ⟨fun _ => rfl, fun _ => ⟨[], [], ?_⟩, nofun⟩
    exact { hs with
      pending := rfl
      changes := nil_prefix
      follows := nofun }
  · exact ⟨fun _ => rfl, fun hnot => absurd rfl hnot, nofun⟩

/-! ### A message comes -/

variable {watch' : CockpitKubeWatch}

theorem kept_track (h : kept watch = kept watch')
    (line : Line parse) : kept (watch.track line) = kept (watch'.track line) := by
  obtain ⟨hobjs, hrest⟩ := Prod.mk.inj h
  cases line with
  | change c =>
    show (c.track watch.objects, watch.previous, watch.loaded) = _
    rw [hobjs]
    exact congrArg (Prod.mk (c.track watch'.objects)) hrest
  | error f =>
    have herror : ∀ watch : CockpitKubeWatch, kept (watch.track (.error f)) = kept watch := by
      intro watch
      unfold track
      dsimp only
      split <;> rfl
    rw [herror, herror, h]

theorem kept_foldl_track (h : kept watch = kept watch')
    (lines : List (Line parse)) : kept (lines.foldl track watch) = kept (lines.foldl track watch') := by
  induction lines generalizing watch watch' with
  | nil => exact h
  | cons line lines ih => exact ih (kept_track h line)

theorem channel_foldl_track (lines : List (Line parse)) (watch : CockpitKubeWatch) :
    (lines.foldl track watch).channel = watch.channel := by
  induction lines generalizing watch with
  | nil => rfl
  | cons line lines ih =>
    rw [foldl_cons, ih, channel_track]

theorem channel_loadPoke (watch : CockpitKubeWatch) (force : Bool) :
    (watch.loadPoke force).channel = watch.channel := by
  unfold loadPoke
  split <;> rfl

/-- A watch is handed whole lines, when it has what came of the first one. -/
theorem handleWatch_lines (hopen : watch.channel.isSome)
    {data : List Char} {lines : List (Line parse)}
    (hlines : (splitLines (watch.buffer ++ data)).1 = lines.map text) :
    handleWatch parse watch data =
      ((lines.foldl track { watch with
        buffer := (splitLines (watch.buffer ++ data)).2 }).loadPoke false,
        [(lines.filterMap changed).map Change.frame]) := by
  unfold handleWatch
  dsimp only
  rw [hlines, @handleLines_lines parse lines { watch with
    buffer := (splitLines (watch.buffer ++ data)).2 } hopen]
  rfl

/-- What holds in all runs. -/
structure Inv (w : World parse) : Prop where
  sound : w.Sound
  lines : w.heard = (w.received.filterMap changed).map Change.frame
  piece : w.piece <+: sent w.pending
  ends : '\n' ∉ w.piece
  serving : w.pending ≠ [] ∨ w.follows →
    ∃ request, w.watch.channel = some request ∧ request.failed = false ∧ request.status ≠ none

theorem Inv.receive (h : w.Inv) {n : Nat} (hok : w.StepOk (.message n)) : (w.receive n).Inv := by
  unfold World.receive
  split
  · exact h
  rename_i hdata
  have hpend : w.pending ≠ [] := by
    intro hnil
    apply hdata
    unfold World.data
    rw [hnil]
    simp [sent]
  obtain ⟨request, hchan, hfail, hstat⟩ := h.serving (.inl hpend)
  have hopen : w.watch.channel.isSome := by
    rw [hchan]
    rfl
  have hprefix : w.piece ++ w.data n <+: sent w.pending := by
    have hpiece : w.piece = (sent w.pending).take w.piece.length :=
      prefix_iff_eq_take.mp h.piece
    unfold World.data
    conv_lhs => rw [hpiece]
    rw [length_take, Nat.min_eq_left h.piece.length_le, ← take_add]
    exact take_prefix _ _
  obtain ⟨k, hk, hlines, hlast, hends⟩ := splitLines_of_isPrefix hprefix
  have hlen : (splitLines (w.piece ++ w.data n)).1.length = k := by
    rw [hlines, length_map, length_take, Nat.min_eq_left hk]
  have hstep : CockpitKubeWatch.step parse w.watch (.message (w.data n)) =
      (((w.pending.take k).foldl track { w.watch with
        buffer := (splitLines (w.piece ++ w.data n)).2 }).loadPoke false,
        [((w.pending.take k).filterMap changed).map Change.frame]) := by
    have hbuf := hok hdata
    unfold CockpitKubeWatch.step
    dsimp only
    rw [handleWatch_lines hopen (hbuf ▸ hlines), hbuf, hchan]
    dsimp only
    rw [hfail, if_neg Bool.false_ne_true]
  have hsplit : w.pending = w.pending.take k ++ w.pending.drop k :=
    (take_append_drop k w.pending).symm
  dsimp only
  rw [hstep, hlen]
  dsimp only
  rw [flatten_singleton]
  constructor
  · apply (h.sound.foldl_next hsplit).congr
    rw [core_foldl_next hsplit]
    have hkept : kept (((w.pending.take k).foldl track { w.watch with
        buffer := (splitLines (w.piece ++ w.data n)).2 }).loadPoke false) =
          kept ((w.pending.take k).foldl track w.watch) := by
      have hsame : kept { w.watch with buffer := (splitLines (w.piece ++ w.data n)).2 } =
          kept w.watch := rfl
      rw [kept_loadPoke]
      exact kept_foldl_track hsame _
    unfold core
    dsimp only
    exact congrArg (fun kept => (w.log, w.pending.drop k, w.follows,
      (w.pending.take k).foldl Progress.line w.progress,
      w.passed ++ ((w.pending.take k).filterMap changed).map Change.frame, kept)) hkept
  · dsimp only
    rw [h.lines, filterMap_append, map_append]
  · exact hlast
  · exact hends
  intro _
  dsimp only
  rw [channel_loadPoke, channel_foldl_track]
  exact ⟨request, hchan, hfail, hstat⟩

/-- A request stays, whatever happens besides. -/
theorem channel_step {event : CockpitKubeWatch.Event} {request : Request}
    (hchan : watch.channel = some request) (hresp : ∀ status, event ≠ .response status)
    (hmsg : ∀ payload, event ≠ .message payload) (hclose : ∀ problem, event ≠ .close problem) :
    ∃ request', (CockpitKubeWatch.step parse watch event).1.channel = some request' ∧
      request'.status = request.status := by
  have hstart : ∀ watch : CockpitKubeWatch, watch.channel = some request →
      watch.startWatch.channel = some request := by
    intro watch hchan
    unfold startWatch
    rw [hchan]
    exact hchan
  have hfinish : ∀ watch : CockpitKubeWatch, watch.channel = some request →
      watch.loadFinish.1.channel = some request := by
    intro watch hchan
    unfold loadFinish
    split <;> exact hchan
  unfold CockpitKubeWatch.step
  cases event with
  | discovered ok =>
    refine ⟨request, ?_, rfl⟩
    dsimp only
    split
    · exact hchan
    · split
      · exact hstart _ hchan
      · exact hfinish _ hchan
  | response status => exact absurd rfl (hresp status)
  | message payload => exact absurd rfl (hmsg payload)
  | close problem => exact absurd rfl (hclose problem)
  | blocked =>
    dsimp only
    rw [hchan]
    exact ⟨{ request with blocked := true }, rfl, rfl⟩
  | loadTimeout n =>
    refine ⟨request, ?_, rfl⟩
    dsimp only
    split
    · exact hfinish _ hchan
    · exact hchan
  | waitTimeout =>
    refine ⟨request, ?_, rfl⟩
    dsimp only
    split
    · exact hstart _ hchan
    · exact hchan

theorem Inv.watchStep (h : w.Inv) {event : CockpitKubeWatch.Event}
    (hresp : ∀ status, event ≠ .response status)
    (hmsg : ∀ payload, event ≠ .message payload) (hclose : ∀ problem, event ≠ .close problem) :
    (w.watchStep event).Inv := { h with
  sound := h.sound.watchStep hresp hmsg
  serving hserves := by
    obtain ⟨request, hchan, hfail, hstat⟩ := h.serving hserves
    obtain ⟨request', hchannel', heq⟩ :=
      @channel_step parse w.watch event request hchan hresp hmsg hclose
    refine ⟨request', hchannel', ?_, heq ▸ hstat⟩
    unfold Request.failed at hfail ⊢
    rw [heq]
    exact hfail }

theorem Inv.close (h : w.Inv) (problem : Bool) : (w.step (.close problem)).Inv where
  sound := by
    have hstep : (w.watchStep (.close problem)).Sound :=
      h.sound.watchStep (nofun) nofun
    exact hstep.close
  lines := h.lines
  piece := nil_prefix
  ends := not_mem_nil
  serving hserves := by
    rcases hserves with hnot | hnot
    · exact absurd rfl hnot
    · exact nomatch hnot

theorem Inv.respond (h : w.Inv)
    (hassumed : w.Assumed (.response status reply)) (hok : w.StepOk (.response status reply)) :
    (w.respond status reply).Inv := by
  cases hchan : w.watch.channel with
  | none =>
    unfold World.respond
    rw [hchan]
    exact h
  | some request =>
    cases hstat : request.status with
    | some status' =>
      unfold World.respond
      rw [hchan]
      dsimp only
      rw [hstat]
      exact h
    | none =>
      have hnone : w.pending = [] := by
        by_contra hne
        obtain ⟨request', hchannel', -, hstatus'⟩ := h.serving (.inl hne)
        obtain rfl := mem_unique hchan hchannel'
        exact hstatus' hstat
      have hsound := h.sound.respond hchan hstat hnone hassumed hok
      have hwatch : (w.watchStep (.response status)).watch = { w.watch with
          channel := some { request with status := some status } }.loadBegin request.full := by
        unfold World.watchStep CockpitKubeWatch.step
        dsimp only
        rw [hchan]
      have hopen : ¬ 299 < status → ∃ request', (w.watchStep (.response status)).watch.channel =
          some request' ∧ request'.failed = false ∧ request'.status ≠ none := by
        intro hlow
        refine ⟨{ request with status := some status }, ?_, ?_, some_ne_none status⟩
        · rw [hwatch]
          unfold loadBegin
          split <;> exact channel_loadPoke _ _
        · exact decide_eq_false hlow
      unfold World.respond at hsound ⊢
      rw [hchan] at hsound ⊢
      dsimp only at hsound ⊢
      rw [hstat] at hsound ⊢
      rw [if_neg (show ¬ (none : Option Nat).isSome by decide)] at hsound ⊢
      split at hsound
      · rename_i hhigh
        rw [if_pos hhigh]
        refine ⟨hsound, h.lines, nil_prefix, not_mem_nil, fun hserves => ?_⟩
        rcases hserves with hnot | hnot
        · exact absurd rfl hnot
        · exact nomatch hnot
      rename_i hlow
      rw [if_neg hlow]
      cases reply with
      | listing objects | changes start | error f =>
        exact ⟨hsound, h.lines, nil_prefix, not_mem_nil, fun _ => hopen hlow⟩

/-- **One step.** -/
theorem Inv.step (h : w.Inv) {event : Event parse} (hassumed : w.Assumed event)
    (hok : w.StepOk event) : (w.step event).Inv := by
  have hmore : ∀ line : Line parse, w.piece <+: sent (w.pending ++ [line]) := by
    intro line
    unfold sent
    rw [flatMap_append]
    exact h.piece.trans (prefix_append _ _)
  cases event with
  | change c =>
    refine ⟨h.sound.append c, h.lines, ?_, h.ends, fun hserves => h.serving ?_⟩
    · show w.piece <+: sent (if w.follows then w.pending ++ [.change c] else w.pending)
      split
      · exact hmore _
      · exact h.piece
    by_cases hfoll : w.follows
    · exact .inr hfoll
    · have hsame : (w.step (.change c)).pending = w.pending := if_neg hfoll
      rw [hsame] at hserves
      exact hserves
  | fail f =>
    dsimp only [World.step]
    split
    · rename_i hfoll
      exact ⟨h.sound.fail f, h.lines, hmore _, h.ends, fun _ => h.serving (.inr hfoll)⟩
    · exact h
  | discovered ok =>
    exact @Inv.watchStep parse w h (.discovered ok) (by simp) (by simp)
      (by simp)
  | response status reply => exact h.respond hassumed hok
  | message n => exact h.receive hok
  | close problem => exact h.close problem
  | blocked =>
    exact @Inv.watchStep parse w h .blocked (by simp) (by simp)
      (by simp)
  | loadTimeout n =>
    exact @Inv.watchStep parse w h (.loadTimeout n) (by simp) (by simp)
      (by simp)
  | waitTimeout =>
    exact @Inv.watchStep parse w h .waitTimeout (by simp) (by simp)
      (by simp)

theorem Inv.init (path : String) : ({ watch := { path := path } } : World parse).Inv where
  sound := ⟨fun _ => rfl, fun hnot => absurd rfl hnot, nofun⟩
  lines := rfl
  piece := nil_prefix
  ends := not_mem_nil
  serving hserves := by
    rcases hserves with hnot | hnot
    · exact absurd rfl hnot
    · exact nomatch hnot

theorem Inv.converged (h : w.Inv) : w.Converged where
  objects hloaded hcomplete := by
    obtain ⟨hlist, hnewest⟩ := hcomplete
    obtain ⟨listed, rest, hs⟩ := h.sound.sends (hlist ▸ some_ne_none 0)
    obtain rfl : listed = [] := by
      have hlen := hs.listing
      rw [hlist] at hlen
      exact length_eq_zero_iff.mp (some.inj hlen).symm
    have hposition : w.progress.position = w.progress.newest :=
      le_antisymm hs.position_le hnewest
    have hdue : w.due [] = [] := by
      unfold due
      rw [hposition, nil_append, drop_take, Nat.sub_self, take_zero, map_nil]
    have hcatch := hs.catchesUp
    rw [hdue] at hcatch
    rw [hposition]
    apply CatchesUp.eq
    refine hcatch.mono fun k _ hk => ?_
    rcases hk with hsame | ⟨hnot, -⟩
    · exact .inl hsame
    · rw [hloaded] at hnot
      exact nomatch hnot
  lines := h.lines

/-- **A watch that is restarted converges**, in all runs of steps that keep to this. -/
theorem converged_run {path : String} {events : List (Event parse)}
    (hok : Lib.RunOk step (fun w event => w.Assumed event ∧ w.StepOk event)
      ({ watch := { path := path } } : World parse) events) :
    (Lib.run step ({ watch := { path := path } } : World parse) events).Converged :=
  (Lib.run_invariant Inv (fun _ _ h hstep => h.step hstep.1 hstep.2) (.init path) hok).converged

/-! ## Two runs -/

section Runs

/-- The only object of a server. -/
def lonely : Resource where
  kind := some "Node"
  metadata := some { uid := some "1", name := some "a", resourceVersion := some "5" }

/-- The lines of this server. -/
def parseLonely : List Char → Option (Option Frame)
  | ['+'] => some (some ⟨"ADDED", some lonely, false⟩)
  | ['-'] => some (some ⟨"DELETED", some lonely, false⟩)
  | ['!'] => some (some ⟨"ERROR", some {}, false⟩)
  | _ => none

def added : Change parseLonely where
  text := ['+']
  frame := ⟨"ADDED", some lonely, false⟩
  resource := lonely
  ends := by decide
  parsed := rfl
  reported := by decide

def deleted : Change parseLonely where
  text := ['-']
  frame := ⟨"DELETED", some lonely, false⟩
  resource := lonely
  ends := by decide
  parsed := rfl
  reported := by decide

def failure : Failure parseLonely where
  text := ['!']
  frame := ⟨"ERROR", some {}, false⟩
  ends := by decide
  parsed := rfl
  error := rfl

/-- The object is listed, in two messages, and deleted while the watch is down. -/
theorem converged_restarted :
    (Lib.run step ({ watch := { path := "/api/v1/nodes" } } : World parseLonely)
      [.change added, .discovered true, .response 200 (.listing [added]), .message 1, .message 1,
        .loadTimeout 2, .blocked, .close false, .change deleted, .response 200 (.changes 1),
        .message 2]).Converged := by
  apply converged_run
  refine ⟨⟨trivial, trivial⟩, ⟨trivial, trivial⟩, ⟨?_, ?_⟩, ⟨trivial, fun _ => rfl⟩,
    ⟨trivial, fun _ => rfl⟩, ⟨trivial, trivial⟩, ⟨trivial, trivial⟩, ⟨trivial, trivial⟩,
    ⟨trivial, trivial⟩, ⟨?_, ?_⟩, ⟨trivial, fun _ => rfl⟩, trivial⟩
  · rintro request hrequest - -
    obtain rfl := some.inj hrequest
    exact ⟨rfl, by decide, rfl⟩
  · rintro request hrequest -
    obtain rfl := some.inj hrequest
    intro _ objects _
    exact ⟨fun _ uid resource h => (nomatch h), fun k hview => absurd rfl hview⟩
  · rintro request hrequest - -
    obtain rfl := some.inj hrequest
    exact ⟨rfl, by decide⟩
  · rintro request hrequest -
    obtain rfl := some.inj hrequest
    exact ⟨.inl rfl, fun _ _ _ => rfl⟩

/-- The object is deleted while the watch is down, and an error makes it list all objects again. -/
theorem not_converged_deleted :
    let events : List (Event parseLonely) := [.change added, .discovered true,
      .response 200 (.listing [added]), .message 2, .loadTimeout 1, .blocked, .close false,
      .change deleted, .response 200 (.error failure), .message 2, .blocked, .close false,
      .response 200 (.listing []), .loadTimeout 4]
    Lib.RunOk step Assumed ({ watch := { path := "/api/v1/nodes" } } : World parseLonely) events ∧
      ¬ (Lib.run step ({ watch := { path := "/api/v1/nodes" } } : World parseLonely)
        events).Converged := by
  intro events
  constructor
  · refine ⟨trivial, trivial, ?_, trivial, trivial, trivial, trivial, trivial, ?_, trivial, trivial,
      trivial, ?_, trivial, trivial⟩
    · rintro request hrequest - -
      obtain rfl := some.inj hrequest
      exact ⟨rfl, by decide, rfl⟩
    · rintro request hrequest - -
      trivial
    rintro request hrequest - -
    obtain rfl := some.inj hrequest
    refine ⟨rfl, by decide, funext fun k => ?_⟩
    show none = (Lib.Table.update (Lib.Table.update (fun _ => none) added.update) deleted.update) k
    rw [Lib.update_apply, Lib.update_apply]
    by_cases hk : deleted.update.1 = k
    · rw [if_pos hk]
      rfl
    · rw [if_neg hk, if_neg (show ¬ added.update.1 = k from hk)]
  intro h
  have hobjects := congrFun (h.objects (by decide) (by decide))
    (some "1", none)
  revert hobjects
  decide

end Runs

end World

end Cockpit.Kube
