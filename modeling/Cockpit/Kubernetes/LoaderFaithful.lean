import Cockpit.Kubernetes.LoaderListeners

namespace Cockpit.Kube

open Lib (Tells UpToDate)
open List Drain
open Option
open CockpitKubeWatch

/-!
# `kubeLoader`: a faithful stream

* `Rest.cancelAll`, `Rest.cancelInapplicable` — what is passed on when watches are cancelled;
* `faithful_run` — listeners have what the loader has, in all runs of such steps.
-/

variable {K : KubeWatch}

/-- What waits, and whether a timer is set for it. -/
structure Window where
  frames : List Frame := []
  timer : Bool := false

namespace Window

/-- It is not flushed until later. -/
def Waits (w : Window) (frames : List Frame) : Prop := frames ≠ [] ∧ w.timer

instance (w : Window) (frames : List Frame) : Decidable (w.Waits frames) :=
  inferInstanceAs (Decidable (_ ∧ _))

def after (w : Window) (frames : List Frame) : Window :=
  if w.Waits frames then ⟨w.frames ++ frames, w.timer⟩ else ⟨[], w.timer || frames != []⟩

/-- Each batch that is flushed when these are passed on may be. -/
def Passes : List (List Frame) → Window → Prop
  | [], _ => True
  | frames :: passed, w =>
    (¬ w.Waits frames → FlushOk (w.frames ++ frames)) ∧ Passes passed (w.after frames)

end Window

namespace Loader

variable {l l' : Loader K}

def window (l : Loader K) : Window := ⟨l.batch.getD [], l.batchTimeout⟩

/-! ### Flushes -/

theorem handleFlush_streams (h : l.Streams) (hok : FlushOk (l.batch.getD [])) :
    ∃ l', l.handleFlush = .ok l' ∧ l'.Streams ∧ l'.window = ⟨[], l.batchTimeout⟩ := by
  rw [handleFlush_eq]
  cases hbatch : l.batch with
  | none =>
    refine ⟨l, rfl, h, ?_⟩
    unfold window
    rw [hbatch]
    rfl
  | some drain =>
    rw [hbatch] at hok
    have hdrain : FlushOk drain := hok
    have htold := told_loop hdrain l.objects
    dsimp only
    rw [loop_ended hdrain.1]
    refine ⟨_, rfl, ?_, rfl⟩
    exact (@Streams.congr K l { l with batch := none } h rfl).told htold.tells rfl
      htold.notification_disjoint

variable {frames : List Frame}

theorem handleFrames_streams (h : l.Streams)
    (hok : ¬ l.window.Waits frames → FlushOk (l.batch.getD [] ++ frames)) :
    ∃ l', l.handleFrames frames = .ok l' ∧ l'.Streams ∧ l'.window = l.window.after frames := by
  unfold handleFrames Window.after
  dsimp only
  by_cases hwaits : l.window.Waits frames
  · have hcond : frames ≠ [] ∧ l.batchTimeout := hwaits
    rw [if_pos hwaits, if_pos hcond]
    exact ⟨_, rfl, h.congr rfl, rfl⟩
  have hcond : ¬ (frames ≠ [] ∧ l.batchTimeout) := hwaits
  rw [if_neg hwaits, if_neg hcond]
  exact @handleFlush_streams K { l with
    batch := some (l.batch.getD [] ++ frames)
    batchTimeout := l.batchTimeout || frames != [] } (h.congr rfl) (hok hwaits)

theorem handleObjects_streams (h : l.Streams) (hok : FlushOk (l.batch.getD [] ++ frames)) :
    ∃ l', (l.handleFrames frames >>= handleFlush) = .ok l' ∧ l'.Streams := by
  obtain ⟨l₁, hl₁, h₁, hwindow⟩ := handleFrames_streams h fun _ => hok
  have hrest : FlushOk (l₁.batch.getD []) := by
    show FlushOk l₁.window.frames
    rw [hwindow]
    unfold Window.after
    split
    · exact hok
    · exact flushOk_nil
  obtain ⟨l₂, hl₂, h₂, -⟩ := handleFlush_streams h₁ hrest
  rw [hl₁]
  exact ⟨l₂, hl₂, h₂⟩

theorem passFrames_streams {passed rest : List (List Frame)} (h : l.Streams)
    (hok : Window.Passes (passed ++ rest) l.window) :
    ∃ l', passFrames passed l = .ok l' ∧ l'.Streams ∧ Window.Passes rest l'.window := by
  induction passed generalizing l with
  | nil => exact ⟨l, rfl, h, hok⟩
  | cons frames passed ih =>
    obtain ⟨l₁, hl₁, h₁, hwindow⟩ := handleFrames_streams h hok.1
    unfold passFrames
    rw [hl₁]
    exact ih h₁ (hwindow ▸ hok.2)

/-! ### Watches that are cancelled -/

/-- What holds before something is passed on, and what of it is left after. -/
structure Rest (P : List (List Frame) → Loader K → Prop) : Prop where
  pass : ∀ {passed rest l}, P (passed ++ rest) l → ∃ l', passFrames passed l = .ok l' ∧ P rest l'
  congr : ∀ {rest l l'}, l'.streamPart = l.streamPart → l'.window = l.window → P rest l → P rest l'

/-- Listeners have what the loader has. -/
theorem rest_streams : Rest fun rest (l : Loader K) => l.Streams ∧ Window.Passes rest l.window where
  pass h := by
    obtain ⟨l', hl', h', hok'⟩ := passFrames_streams h.1 h.2
    exact ⟨l', hl', h', hok'⟩
  congr hstream hwindow h := ⟨h.1.congr hstream, hwindow ▸ h.2⟩

/-- Nothing is passed on. -/
theorem rest_same (l₀ : Loader K) : Rest fun rest (l : Loader K) => rest = [] ∧
    l.streamPart = l₀.streamPart ∧ l.window = l₀.window where
  pass h := by
    obtain ⟨hnil, hsame⟩ := h
    obtain ⟨rfl, hrest⟩ := append_eq_nil_iff.mp hnil
    exact ⟨_, rfl, hrest, hsame⟩
  congr hstream hwindow h := ⟨h.1, hstream.trans h.2.1, hwindow.trans h.2.2⟩

/-- A watch that was cancelled. -/
def cancelled (watches : List (Watch K)) (i : Nat) : List (Watch K) :=
  watches.modify i fun w => { w with state := (K.cancel w.state).1 }

/-- What is passed on when watches are cancelled one after the other. -/
def cancelledFrames : List Nat → List (Watch K) → List (List Frame)
  | [], _ => []
  | i :: is, watches =>
    (match watches[i]? with
      | none => []
      | some w => (K.cancel w.state).2) ++ cancelledFrames is (cancelled watches i)

namespace Rest

variable {P : List (List Frame) → Loader K → Prop} {rest : List (List Frame)}

theorem cancelWatch (hP : Rest P) {i : Nat} {is : List Nat}
    (h : P (cancelledFrames (i :: is) l.watches ++ rest) l) :
    ∃ l', l.cancelWatch i = .ok l' ∧ P (cancelledFrames is l'.watches ++ rest) l' ∧
      l'.watches = cancelled l.watches i ∧ l'.watching = l.watching := by
  unfold cancelledFrames at h
  unfold Loader.cancelWatch
  cases hi : l.watches[i]? with
  | none =>
    have hsame : cancelled l.watches i = l.watches :=
      modify_eq_self (List.getElem?_eq_none_iff.mp hi)
    rw [hi, nil_append] at h
    rw [hsame] at h ⊢
    exact ⟨l, rfl, h, rfl, rfl⟩
  | some w =>
    have hmodify : (l.watches.modify i fun w' => { w' with state := (K.cancel w.state).1 }) =
        cancelled l.watches i := by
      apply ext_getElem?
      intro j
      unfold cancelled
      rw [getElem?_modify, getElem?_modify]
      by_cases hij : i = j
      · subst hij
        rw [hi]
        simp
      · simp [hij]
    rw [hi, append_assoc] at h
    dsimp only
    have hpass : P ((K.cancel w.state).2 ++ (cancelledFrames is (cancelled l.watches i) ++ rest))
        { l with
          watches := l.watches.modify i fun w' => { w' with state := (K.cancel w.state).1 } } :=
      hP.congr (l := l) rfl rfl h
    obtain ⟨l', hl', h'⟩ := hP.pass hpass
    have hpart := watchPart_passFrames (K.cancel w.state).2 { l with
      watches := l.watches.modify i fun w' => { w' with state := (K.cancel w.state).1 } }
    rw [hl'] at hpart
    have hwatch : l'.watches = cancelled l.watches i :=
      (congrArg (fun part => part.2.1) hpart).trans hmodify
    refine ⟨l', hl', ?_, hwatch, congrArg Prod.fst hpart⟩
    rw [hwatch]
    exact h'

theorem cancelAll (hP : Rest P) {old : List Nat} (h : P (cancelledFrames old l.watches ++ rest) l) :
    ∃ l', Loader.cancelAll old l = .ok l' ∧ P rest l' := by
  induction old generalizing l with
  | nil => exact ⟨l, rfl, h⟩
  | cons i old ih =>
    obtain ⟨l₁, hl₁, h₁, -⟩ := hP.cancelWatch h
    unfold Loader.cancelAll
    rw [hl₁]
    exact ih h₁

end Rest

variable (only : Option (List String))

/-- Those that are not applicable to these namespaces, in the order in which they are cancelled. -/
def limited (paths : List String)
    (watching : AList fun _ : String => Nat) (watches : List (Watch K)) : List Nat :=
  paths.filterMap fun path =>
    (watching.lookup path).filter fun i => (watches[i]?).any fun w => inapplicable w only

theorem limited_cancelled (paths : List String)
    (watching : AList fun _ : String => Nat) (watches : List (Watch K)) (i : Nat) :
    limited only paths watching (cancelled watches i) = limited only paths watching watches := by
  unfold limited cancelled
  congr 1
  funext path
  congr 1
  funext j
  rw [getElem?_modify]
  cases watches[j]? with
  | none => rfl
  | some w =>
    show inapplicable (if i = j then { w with state := (K.cancel w.state).1 } else w) only = _
    split <;> rfl

variable {only : Option (List String)} {paths : List String}

theorem limited_erase {path : String}
    (h : path ∉ paths) (watching : AList fun _ : String => Nat) (watches : List (Watch K)) :
    limited only paths (watching.erase path) watches = limited only paths watching watches := by
  unfold limited
  apply filterMap_congr
  intro path' hpath'
  have hne : path' ≠ path := by
    rintro rfl
    exact h hpath'
  rw [AList.lookup_erase_ne hne]

theorem Rest.cancelInapplicable {P : List (List Frame) → Loader K → Prop} (hP : Rest P)
    {rest : List (List Frame)} (hpaths : paths.Nodup) (reconnect : List (Watch K))
    (h : P (cancelledFrames (limited only paths l.watching l.watches) l.watches ++ rest) l) :
    ∃ l' reconnect', cancelInapplicable only paths l reconnect = .ok (l', reconnect') ∧
      P rest l' := by
  induction paths generalizing l reconnect with
  | nil => exact ⟨l, reconnect, rfl, h⟩
  | cons path paths ih =>
    obtain ⟨hpath, hpaths⟩ := nodup_cons.mp hpaths
    unfold cancelInapplicable
    unfold limited at h
    rw [filterMap_cons] at h
    cases hlook : l.watching.lookup path with
    | none =>
      rw [hlook] at h
      exact ih hpaths reconnect h
    | some i =>
      rw [hlook, filter_some] at h
      cases hi : l.watches[i]? with
      | none =>
        rw [hi] at h
        dsimp only [bind_some]
        rw [hi]
        exact ih hpaths reconnect h
      | some w =>
        rw [hi, any_some] at h
        dsimp only [bind_some]
        rw [hi]
        dsimp only [map_some]
        by_cases hw : inapplicable w only
        · rw [if_pos hw] at h ⊢
          obtain ⟨l₁, hl₁, h₁, hwatches, hwatch⟩ := hP.cancelWatch h
          rw [hl₁]
          refine @ih { l₁ with watching := l₁.watching.erase path } hpaths (reconnect ++ [w]) ?_
          have hsame : limited only paths (l₁.watching.erase path) l₁.watches =
              limited only paths l.watching l.watches := by
            rw [limited_erase hpath, hwatches, hwatch, limited_cancelled]
          dsimp only
          rw [hsame]
          exact hP.congr (l := l₁) rfl rfl h₁
        · rw [if_neg hw] at h ⊢
          exact ih hpaths reconnect h

/-- The watch that is cancelled with a part of what `watch` returned: it was the last reference. -/
def lastPart (l : Loader K) (i : Nat) : Option Nat :=
  l.watches[i]?.bind fun part => (l.watching.lookup part.path).filter fun j =>
    (l.watches[j]?.bind Watch.references).any fun n => n - 1 ≤ 0

/-- What the watch passes on then. -/
def PartOk (l : Loader K) (i : Nat) : Prop :=
  ∀ j ∈ l.lastPart i, ∀ w ∈ l.watches[j]?, Window.Passes (K.cancel w.state).2 l.window

variable {i : Nat}

theorem cancelPart_streams (h : l.Streams) (hok : l.PartOk i) :
    ∃ l', l.cancelPart i = .ok l' ∧ l'.Streams := by
  unfold cancelPart
  unfold PartOk lastPart at hok
  cases hi : l.watches[i]? with
  | none => exact ⟨l, rfl, h⟩
  | some part =>
    rw [hi, bind_some] at hok
    dsimp only
    cases hj : l.watching.lookup part.path with
    | none => exact ⟨l, rfl, h⟩
    | some j =>
      dsimp only
      rw [hj, filter_some] at hok
      split
      · rename_i hlast
        rw [getElem?_modify_eq] at hlast
        cases hw : l.watches[j]? with
        | none =>
          rw [hw] at hlast
          exact nomatch hlast
        | some w =>
          -- it has one reference less, and its state is as before
          have hcond : (l.watches[j]?.bind Watch.references).any (fun n => n - 1 ≤ 0) := by
            rw [hw] at hlast ⊢
            simpa [Option.any_map, Function.comp_def] using hlast
          have hpasses := (if_pos hcond ▸ hok) j rfl w hw
          have hmodified : (l.watches.modify j fun w =>
              { w with references := w.references.map (· - 1) })[j]? =
                some { w with references := w.references.map (· - 1) } := by
            rw [getElem?_modify_eq, hw]
            rfl
          have hframes : cancelledFrames [j] (l.watches.modify j fun w =>
              { w with references := w.references.map (· - 1) }) = (K.cancel w.state).2 := by
            unfold cancelledFrames
            rw [hmodified]
            exact append_nil _
          obtain ⟨l', hl', h', -⟩ := @Rest.cancelWatch K { l with
            watches := l.watches.modify j fun w =>
              { w with references := w.references.map (· - 1) } } _ [] rest_streams j [] (by
                dsimp only
                rw [hframes, append_nil]
                exact ⟨h.congr rfl, hpasses⟩)
          rw [hl']
          exact ⟨_, rfl, h'.1.congr rfl⟩
      · exact ⟨_, rfl, h.congr rfl⟩

def PartsOk : List Nat → Loader K → Prop
  | [], _ => True
  | i :: parts, l => l.PartOk i ∧ PartsOk parts (settle (l.cancelPart i))

theorem cancelParts_streams (h : l.Streams) {parts : List Nat} (hok : PartsOk parts l) :
    ∃ l', cancelParts parts l = .ok l' ∧ l'.Streams := by
  induction parts generalizing l with
  | nil => exact ⟨l, rfl, h⟩
  | cons i parts ih =>
    obtain ⟨hpart, hparts⟩ := hok
    obtain ⟨l₁, hl₁, h₁⟩ := cancelPart_streams h hpart
    unfold cancelParts
    rw [hl₁] at hparts ⊢
    exact ih h₁ hparts

theorem streamPart_ensureWatch (l : Loader K) (what : String) (nameSpace : Option String)
    (increment : Option Int) :
    (l.ensureWatch what nameSpace increment).1.streamPart = l.streamPart := by
  unfold ensureWatch
  dsimp only
  split <;> rfl

theorem streamPart_ensureParts (what : String) (increment : Option Int) (vals : List String)
    (l : Loader K) (parts : List Nat) :
    (ensureParts what increment vals l parts).1.streamPart = l.streamPart := by
  induction vals generalizing l parts with
  | nil => rfl
  | cons val vals ih =>
    unfold ensureParts
    dsimp only
    rw [ih, streamPart_ensureWatch]

theorem streamPart_ensureWatches (l : Loader K) (what : String) (increment : Option Int) :
    (l.ensureWatches what increment).1.streamPart = l.streamPart := by
  unfold ensureWatches
  split
  · exact streamPart_ensureWatch l what none increment
  · exact streamPart_ensureWatch l what _ increment
  · exact streamPart_ensureParts what increment _ l []

theorem streamPart_reconnectAll (ws : List (Watch K)) (l : Loader K) :
    (reconnectAll ws l).streamPart = l.streamPart := by
  induction ws generalizing l with
  | nil => rfl
  | cons w ws ih =>
    unfold reconnectAll
    rw [ih, streamPart_ensureWatches]

/-! ### Limits and resets -/

/-- What is passed on when the limit changes. -/
def limitFrames (l : Loader K) (value : Limit) : List (List Frame) :=
  cancelledFrames (limited value.only l.watching.keys l.watching l.watches) l.watches

/-- Nothing is to be told: what waits is older than what is there, and all of this may stay. -/
structure Idle (l : Loader K) (value : Limit) : Prop where
  stale : ∀ frame ∈ l.batch.getD [], ∀ resource ∈ frame.object,
    frame.type ≠ "DELETED" ∧ frame.checkResourceVersion ∧
      ∀ link ∈ resource.link, isStale (l.objects.lookup link) resource
  inside : ∀ only ∈ value.only, ∀ link resource, l.objects.lookup link = some resource →
    ∀ metadata ∈ resource.metadata,
      (truthy metadata.nameSpace && !isIn metadata.nameSpace only) = false

/-- **A change of the limit that listeners can follow**: no watch calls back while it is made,
    unless there is nothing to tell. -/
structure LimitTold (l : Loader K) (value : Limit) : Prop where
  flush : FlushOk (l.batch.getD [])
  metadata : value.only ≠ none → ∀ link resource, l.pending link = some resource →
    resource.metadata ≠ none
  silent : l.limitFrames value = [] ∨ l.Idle value ∧ Window.Passes (l.limitFrames value) {}

variable {d : Drain}

theorem loop_stale (h : ∀ frame ∈ frames, ∀ resource ∈ frame.object,
      frame.type ≠ "DELETED" ∧ frame.checkResourceVersion ∧
        ∀ link ∈ resource.link, isStale (d.objects.lookup link) resource) :
    (loop frames d).1 = d := by
  induction frames with
  | nil => rfl
  | cons frame frames ih =>
    have hrest := ih fun f hf => h f (mem_cons_of_mem _ hf)
    unfold loop
    cases hobj : frame.object with
    | none => exact hrest
    | some resource =>
      obtain ⟨htype, hcheck, hstale⟩ := h frame mem_cons_self resource hobj
      dsimp only
      cases hlink : resource.link with
      | none => rfl
      | some link =>
        have happly : d.apply frame link resource = d := by
          unfold apply
          rw [if_neg htype, if_pos hcheck, if_pos (hstale link hlink)]
        dsimp only
        rw [happly]
        exact hrest

theorem removeObjects_inside {only links : List String}
    (h : ∀ link resource, d.objects.lookup link = some resource → ∀ metadata ∈ resource.metadata,
        (truthy metadata.nameSpace && !isIn metadata.nameSpace only) = false) :
    (removeObjects only links d).1 = d := by
  induction links with
  | nil => rfl
  | cons link links ih =>
    unfold removeObjects
    cases hlook : d.objects.lookup link with
    | none => exact ih
    | some resource =>
      dsimp only
      cases hmetadata : resource.metadata with
      | none => rfl
      | some metadata =>
        dsimp only
        rw [h link resource hlook metadata hmetadata, if_neg Bool.false_ne_true]
        exact ih

/-- What `limit` has to tell. -/
def limitDrain (l : Loader K) (value : Limit) : Drain :=
  (removeOutside value.only (loop (l.batch.getD []) { objects := l.objects }).1).1

variable {value : Limit}

theorem limitDrain_idle (h : l.Idle value) :
    l.limitDrain value = { objects := l.objects } := by
  unfold limitDrain
  rw [loop_stale h.stale]
  unfold removeOutside
  cases hvalue : value.only with
  | none => rfl
  | some only => exact removeObjects_inside (h.inside only hvalue)

/-- The objects are changed, and then watches cancelled, and then it is told. -/
theorem adjustNamespace_eq (h : l.LimitTold value) :
    l.adjustNamespace value = (cancelInapplicable value.only l.watching.keys { l with
      batchTimeout := false
      nameSpace := value
      batch := none
      objects := (l.limitDrain value).objects } []).bind fun (l', reconnect) =>
        .ok (reconnectAll reconnect (l'.invokeCallbacks
          (.change (l.limitDrain value).present (l.limitDrain value).removed))) := by
  have hchanges : ∀ batch : Option (List Frame), ((batch.map fun drain =>
      ((loop drain { objects := l.objects }).1.present,
        (loop drain { objects := l.objects }).1.removed)).getD (∅, ∅)) =
      ((loop (batch.getD []) { objects := l.objects }).1.present,
        (loop (batch.getD []) { objects := l.objects }).1.removed) := by
    intro batch
    cases batch <;> rfl
  have hended : (removeOutside value.only
      (loop (l.batch.getD []) { objects := l.objects }).1).2 := by
    unfold removeOutside
    cases hvalue : value.only with
    | none => rfl
    | some only =>
      refine removeObjects_ended fun link resource hlook => ?_
      rw [lookup_loop h.flush.1] at hlook
      exact h.metadata (hvalue ▸ some_ne_none only) link resource hlook
  unfold adjustNamespace limitDrain
  rw [@flush_ok K { l with batchTimeout := false, nameSpace := value } h.flush.1]
  dsimp only [bind, Except.bind]
  rw [hchanges, if_pos hended]
  rfl

theorem streamPart_invokeCallbacks (h : l'.streamPart = l.streamPart) (n : Notification) :
    (l'.invokeCallbacks n).streamPart = (l.invokeCallbacks n).streamPart := by
  simp only [streamPart, Prod.mk.injEq] at h
  obtain ⟨hcalls, htimeouts, hlistened, hobjs, hlog⟩ := h
  unfold invokeCallbacks streamPart
  dsimp only
  rw [hcalls, htimeouts, hlistened, hobjs, hlog]

theorem adjustNamespace_streams (h : l.Streams) (hok : l.LimitTold value) :
    ∃ l', l.adjustNamespace value = .ok l' ∧ l'.Streams := by
  have htold : (l.limitDrain value).Told (table l.objects) :=
    (told_loop hok.flush l.objects).removeOutside value.only
  have hkeys : l.watching.keys.Nodup := l.watching.nodupKeys
  rw [adjustNamespace_eq hok]
  rcases hok.silent with hnil | ⟨hidle, hpasses⟩
  · -- nothing else happens between the change and the notification
    obtain ⟨l₂, reconnect, hl₂, -, hstream, -⟩ := (rest_same { l with
      objects := (l.limitDrain value).objects
      batch := none
      batchTimeout := false }).cancelInapplicable (l := { l with
        batchTimeout := false
        nameSpace := value
        batch := none
        objects := (l.limitDrain value).objects }) hkeys []
      ⟨by rw [append_nil]; exact hnil, rfl, rfl⟩
    rw [hl₂]
    refine ⟨_, rfl, ?_⟩
    apply (h.told htold.tells rfl htold.notification_disjoint).congr
    rw [streamPart_reconnectAll]
    exact streamPart_invokeCallbacks hstream _
  -- there is nothing to tell, and what watches pass on is told as always
  rw [limitDrain_idle hidle]
  obtain ⟨l₂, reconnect, hl₂, h₂, -⟩ := rest_streams.cancelInapplicable (l := { l with
      batchTimeout := false
      nameSpace := value
      batch := none
      objects := l.objects }) hkeys []
    ⟨h.congr rfl, (append_nil (l.limitFrames value)).symm ▸ hpasses⟩
  rw [hl₂]
  refine ⟨_, rfl, ?_⟩
  have hno := told_loop flushOk_nil l₂.objects
  apply (h₂.told hno.tells rfl hno.notification_disjoint).congr
  rw [streamPart_reconnectAll]
  rfl

theorem resetLoader_streams (h : l.Streams) (hok : Window.Passes
    (cancelledFrames (l.watching.entries.map (·.2)) l.watches) {}) :
    ∃ l', l.resetLoader = .ok l' ∧ l'.Streams := by
  obtain ⟨l₁, hl₁, h₁, -⟩ := @Rest.cancelAll K { l with
    batchTimeout := false
    batch := none
    watching := ∅
    handlesReset := l.handles.length } _ [] rest_streams (l.watching.entries.map (·.2))
    ⟨h.congr rfl, (append_nil (cancelledFrames _ l.watches)).symm ▸ hok⟩
  unfold resetLoader
  dsimp only
  rw [hl₁]
  refine ⟨_, rfl, ?_⟩
  have htells : Tells Notification.reset.message (table l₁.objects) (table ∅) :=
    Lib.tells_clear _
  exact (h₁.told htells rfl trivial).congr rfl

/-! ## Runs -/

/-- **What the steps of a run keep to**: each batch that is flushed can be decoded, and has no object
    come back that it deletes; and a change of the limit is one that listeners can follow. -/
def StreamOk (l : Loader K) : Event K → Prop
  | .watch _ => True
  | .cancel i => ∀ handle ∈ l.handles[i]?, PartsOk handle.parts { l with
      handles := l.handles.modify i fun handle => { handle with cancelled := true } }
  | .limit value => l.LimitTold value
  | .reset =>
    Window.Passes (cancelledFrames (l.watching.entries.map (·.2)) l.watches) {}
  | .handle objects removed kind =>
    FlushOk (l.batch.getD [] ++ objectFrames objects removed kind)
  | .loaded response => ∀ frames ∈ response.frames, FlushOk (l.batch.getD [] ++ frames)
  | .timeout => l.batchTimeout → FlushOk (l.batch.getD [])
  | .listen _ => True
  | .listening _ => True
  | .unlisten _ => True
  | .watchEvent i event => ∀ w ∈ l.watches[i]?, Window.Passes (K.step w.state event).2 l.window

theorem cancel_streams (h : l.Streams) (hok : l.StreamOk (.cancel i)) :
    ∃ l', l.cancel i = .ok l' ∧ l'.Streams := by
  unfold cancel
  cases hi : l.handles[i]? with
  | none => exact ⟨l, rfl, h⟩
  | some handle =>
    have hcanc : ({ l with
        handles := l.handles.modify i fun handle => { handle with cancelled := true } } :
          Loader K).Streams := h.congr rfl
    exact cancelParts_streams hcanc (hok handle hi)

theorem watchEvent_streams (h : l.Streams) {event : K.Event}
    (hok : l.StreamOk (.watchEvent i event)) :
    ∃ l', l.watchEvent i event = .ok l' ∧ l'.Streams := by
  unfold watchEvent
  cases hi : l.watches[i]? with
  | none => exact ⟨l, rfl, h⟩
  | some w =>
    obtain ⟨l', hl', h', -⟩ := @passFrames_streams K { l with
      watches := l.watches.modify i fun w' => { w' with state := (K.step w.state event).1 } }
      (K.step w.state event).2 [] (h.congr rfl)
      ((append_nil (K.step w.state event).2).symm ▸ hok w hi)
    exact ⟨l', hl', h'⟩

theorem settle_streams {call : Except (Loader K) (Loader K)}
    (h : ∃ l', call = .ok l' ∧ l'.Streams) : (settle call).Streams := by
  obtain ⟨l', hl', h'⟩ := h
  rw [hl']
  exact h'

/-- **One step.** -/
theorem Streams.step (h : l.Streams) {event : Event K} (hok : l.StreamOk event) :
    (l.step event).Streams := by
  unfold Loader.step call
  cases event with
  | watch what =>
    apply h.congr
    exact streamPart_ensureWatches l what (some 1)
  | cancel i => exact settle_streams (cancel_streams h hok)
  | limit value => exact settle_streams (adjustNamespace_streams h hok)
  | reset => exact settle_streams (resetLoader_streams h hok)
  | handle objects removed kind => exact settle_streams (handleObjects_streams h hok)
  | loaded response =>
    dsimp only
    rw [loaded_eq]
    cases hframes : response.frames with
    | none => exact h
    | some frames => exact settle_streams (handleObjects_streams h (hok frames hframes))
  | timeout =>
    dsimp only
    split
    · rename_i htimer
      obtain ⟨l', hl', h', -⟩ := @handleFlush_streams K { l with batchTimeout := false }
        (h.congr rfl) (hok htimer)
      exact settle_streams ⟨l', hl', h'⟩
    · exact h
  | listen early => exact h.listen early
  | listening i => exact h.listening i
  | unlisten i => exact h.unlisten i
  | watchEvent i event => exact settle_streams (watchEvent_streams h hok)

/-- **A faithful stream**, in all runs of steps that keep to this: nothing is told to be both
    present and removed, and from the first full notification on a listener has the objects. -/
theorem faithful_run {events : List (Event K)}
    (hok : Lib.RunOk Loader.step StreamOk ({} : Loader K) events) :
    (∀ d ∈ (Lib.run Loader.step ({} : Loader K) events).log, d.notification.Disjoint) ∧
      ∀ i, Lib.Faithful ((Lib.run Loader.step ({} : Loader K) events).sent i) := by
  have h : (Lib.run Loader.step ({} : Loader K) events).Streams :=
    Lib.run_invariant Streams (fun _ _ h hstep => h.step hstep) streams_init hok
  exact ⟨h.disjoint, h.faithful⟩

/-- A pod in a namespace. -/
def pod (nameSpace : String) : Resource where
  kind := some "Pod"
  metadata := some {
    selfLink := some ("/api/v1/namespaces/" ++ nameSpace ++ "/pods/x")
    nameSpace := some nameSpace }

theorem noReadd_singleton (frame : Frame) : NoReadd [frame] := by
  rintro link ⟨e, he, hdeleted⟩ e' he'
  have hlen : (framesAt link [frame]).length ≤ 1 := length_filterMap_le _ _
  obtain ⟨e₀, he₀⟩ := length_eq_one_iff.mp (le_antisymm hlen (length_pos_of_mem he))
  rw [he₀] at he he'
  rw [getLast?_singleton] at he'
  obtain rfl := mem_singleton.mp he
  exact some.inj he' ▸ hdeleted

/-- An object is added, and another one outside the namespace that is chosen then. -/
theorem faithful_limited :
    let l := Lib.run Loader.step
      ({} : Loader (implementation fun _ => none))
      [.listen false, .handle [pod "a"] false none, .listening 0, .handle [pod "b"] false none,
        .limit (.one "a"), .reset]
    (∀ d ∈ l.log, d.notification.Disjoint) ∧ ∀ i, Lib.Faithful (l.sent i) := by
  apply faithful_run
  refine ⟨trivial, ⟨by decide, noReadd_singleton _⟩, trivial,
    ⟨by decide, noReadd_singleton _⟩, ⟨flushOk_nil, fun _ link resource h => ?_, .inl rfl⟩,
    trivial, trivial⟩
  have hentries : ∀ e ∈ (Lib.run Loader.step
      ({} : Loader (implementation fun _ => none))
      [.listen false, .handle [pod "a"] false none, .listening 0,
        .handle [pod "b"] false none]).objects.entries, e.2.metadata ≠ none := by decide
  exact hentries ⟨link, resource⟩ (AList.mem_lookup_iff.mp h)

/-- A node that has an identity. -/
def knownNode : Resource :=
  { node "9" with metadata := (node "9").metadata.map fun metadata => { metadata with uid := some "1" } }

/-- An object is deleted and comes back, while its frames wait. -/
theorem not_disjoint_readded :
    ¬ ∀ d ∈ (Lib.run Loader.step
        ({} : Loader (implementation fun line =>
          some (some ⟨if line = ['+'] then "ADDED" else "DELETED", some knownNode, false⟩)))
        [.listen false, .listening 0, .watch "nodes", .watchEvent 0 (.discovered true),
          .watchEvent 0 (.response 200), .watchEvent 0 (.message ['+', '\n']),
          .watchEvent 0 (.message ['-', '\n', '+', '\n']), .timeout]).log,
      d.notification.Disjoint := by
  decide

end Loader

end Cockpit.Kube
