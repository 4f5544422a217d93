import Cockpit.Kubernetes.LoaderPaths

namespace Cockpit.Kube

open List AList Drain

/-!
# `kubeLoader`: calls that raise no error

A path that cannot be decoded is an error for whoever flushes the batch that it is in, and an object
without metadata is one for `limit`.

* `loop_ended` — what it takes for a batch;
* `Readable`, `adjustNamespace_total`, `resetLoader_total` — what it takes for a loader.
-/

/-- The paths of all resources can be decoded. -/
def Decodes (frames : List Frame) : Prop :=
  ∀ frame ∈ frames, ∀ resource, frame.object = some resource → resource.link ≠ none

instance (frames : List Frame) : Decidable (Decodes frames) :=
  decidable_of_iff (∀ frame ∈ frames, ∀ resource ∈ frame.object, resource.link ≠ none) Iff.rfl

theorem decodes_nil : Decodes [] := nofun

variable {frames : List Frame}

theorem Decodes.append {frames' : List Frame} (h : Decodes frames) (h' : Decodes frames') :
    Decodes (frames ++ frames') := by
  intro frame hframe
  rcases mem_append.mp hframe with hframe | hframe
  · exact h frame hframe
  · exact h' frame hframe

/-- A batch is handled to its end. -/
theorem loop_ended (h : Decodes frames) (d : Drain) : (loop frames d).2 := by
  induction frames generalizing d with
  | nil => rfl
  | cons frame frames ih =>
    have hrest : Decodes frames := fun f hf => h f (mem_cons_of_mem _ hf)
    unfold loop
    cases hobj : frame.object with
    | none => exact ih hrest d
    | some resource =>
      have hlink := h frame mem_cons_self resource hobj
      dsimp only
      cases hdecoded : resource.link with
      | none => exact absurd hdecoded hlink
      | some link => exact ih hrest _

/-- What holds of all resources in a table and in a batch holds of those in the table after it. -/
theorem loop_forall {P : Resource → Prop} {d : Drain}
    (hframes : ∀ frame ∈ frames, ∀ resource, frame.object = some resource → P resource)
    (h : ∀ link resource, d.objects.lookup link = some resource → P resource) :
    ∀ link resource, (loop frames d).1.objects.lookup link = some resource → P resource := by
  induction frames generalizing d with
  | nil => exact h
  | cons frame frames ih =>
    have hrest := fun f hf => hframes f (mem_cons_of_mem _ hf)
    unfold loop
    cases hobj : frame.object with
    | none => exact ih hrest h
    | some resource =>
      have hnew := hframes frame mem_cons_self resource hobj
      dsimp only
      cases resource.link with
      | none => exact h
      | some link =>
        refine ih hrest fun link' resource' hlook => ?_
        have hstore : ∀ r, (d.objects.insert link resource).lookup link' = some r → P r := by
          intro r hr
          by_cases heq : link' = link
          · subst heq
            rw [lookup_insert] at hr
            exact Option.some.inj hr ▸ hnew
          · rw [lookup_insert_ne heq] at hr
            exact h link' r hr
        unfold apply at hlook
        split at hlook
        · by_cases heq : link' = link
          · subst heq
            rw [lookup_erase] at hlook
            exact nomatch hlook
          · rw [lookup_erase_ne heq] at hlook
            exact h link' resource' hlook
        split at hlook
        · split at hlook
          · exact h link' resource' hlook
          · exact hstore resource' hlook
        · exact hstore resource' hlook

/-- Objects that all have metadata are removed to the end. -/
theorem removeObjects_ended {only : List String} {links : List String} {d : Drain}
    (h : ∀ link resource, d.objects.lookup link = some resource → resource.metadata ≠ none) :
    (Loader.removeObjects only links d).2 := by
  induction links generalizing d with
  | nil => rfl
  | cons link links ih =>
    unfold Loader.removeObjects
    cases hlook : d.objects.lookup link with
    | none => exact ih h
    | some resource =>
      dsimp only
      cases hmetadata : resource.metadata with
      | none => exact absurd hmetadata (h link resource hlook)
      | some metadata =>
        dsimp only
        split
        · refine ih fun link' resource' hlook' => ?_
          dsimp only at hlook'
          by_cases heq : link' = link
          · subst heq
            rw [lookup_erase] at hlook'
            exact nomatch hlook'
          · rw [lookup_erase_ne heq] at hlook'
            exact h link' resource' hlook'
        · exact ih h

namespace Loader

variable {K : KubeWatch} {l l' : Loader K}

theorem flush_ok (h : Decodes (l.batch.getD [])) :
    l.flush = .ok ({ l with
      batch := none
      objects := (loop (l.batch.getD []) { objects := l.objects }).1.objects },
      l.batch.map fun drain =>
        ((loop drain { objects := l.objects }).1.present,
          (loop drain { objects := l.objects }).1.removed)) := by
  obtain ⟨_, _, _, _, _, _, objects, batch, _, _, _, _⟩ := l
  cases batch with
  | none => rfl
  | some drain =>
    have hended := loop_ended (show Decodes drain from h) { objects := objects }
    unfold flush
    dsimp only
    rw [hended]
    rfl

theorem handleFlush_ok (h : Decodes (l.batch.getD [])) :
    ∃ l', l.handleFlush = .ok l' ∧ l'.batch = none := by
  rw [handleFlush_eq]
  cases hbatch : l.batch with
  | none => exact ⟨l, rfl, hbatch⟩
  | some drain =>
    rw [hbatch] at h
    dsimp only
    rw [loop_ended (show Decodes drain from h)]
    exact ⟨_, rfl, rfl⟩

theorem handleFrames_ok (h : Decodes (l.batch.getD [])) (hframes : Decodes frames) :
    ∃ l', l.handleFrames frames = .ok l' ∧ Decodes (l'.batch.getD []) := by
  have happend := h.append hframes
  unfold handleFrames
  dsimp only
  split
  · exact ⟨_, rfl, happend⟩
  obtain ⟨l', hl', hbatch⟩ := @handleFlush_ok K { l with
    batch := some (l.batch.getD [] ++ frames)
    batchTimeout := l.batchTimeout || frames != [] } happend
  refine ⟨l', hl', ?_⟩
  rw [hbatch]
  exact decodes_nil

theorem passFrames_ok {passed : List (List Frame)} (h : Decodes (l.batch.getD []))
    (hpass : ∀ frames ∈ passed, Decodes frames) :
    ∃ l', passFrames passed l = .ok l' ∧ Decodes (l'.batch.getD []) := by
  induction passed generalizing l with
  | nil => exact ⟨l, rfl, h⟩
  | cons frames passed ih =>
    obtain ⟨l₁, hl₁, hbatch⟩ := handleFrames_ok h (hpass frames mem_cons_self)
    unfold passFrames
    rw [hl₁]
    exact ih hbatch fun frames' hframes' => hpass frames' (mem_cons_of_mem _ hframes')

/-! ### Calls with many steps -/

/-- Watches pass nothing on that cannot be decoded when they are cancelled. -/
def PassOn (l : Loader K) : Prop :=
  Decodes (l.batch.getD []) ∧ ∀ w ∈ l.watches, ∀ frames ∈ (K.cancel w.state).2, Decodes frames

/-- A watch that was cancelled has nothing to pass on. -/
def Silent (K : KubeWatch) : Prop := ∀ state, (K.cancel (K.cancel state).1).2 = []

theorem cancelWatch_total (hK : Silent K) (h : l.PassOn) (i : Nat) :
    ∃ l', l.cancelWatch i = .ok l' ∧ l'.PassOn := by
  unfold cancelWatch
  cases hw : l.watches[i]? with
  | none => exact ⟨l, rfl, h⟩
  | some w =>
    dsimp only
    obtain ⟨l', hl', hbatch⟩ := @passFrames_ok K { l with
      watches := l.watches.modify i fun w' => { w' with state := (K.cancel w.state).1 } }
      (K.cancel w.state).2 h.1 (h.2 w (mem_of_getElem? hw))
    refine ⟨l', hl', hbatch, fun w' hw' => ?_⟩
    have hpart := watchPart_passFrames (K.cancel w.state).2 { l with
      watches := l.watches.modify i fun w' => { w' with state := (K.cancel w.state).1 } }
    rw [hl'] at hpart
    have hwatch : l'.watches =
        l.watches.modify i fun w' => { w' with state := (K.cancel w.state).1 } :=
      congrArg (fun part => part.2.1) hpart
    rw [hwatch] at hw'
    obtain ⟨j, hj⟩ := getElem?_of_mem hw'
    obtain ⟨w₀, hw₀, ⟨-, rfl⟩ | ⟨-, rfl⟩⟩ := Lib.modify_cases hj
    · dsimp only
      rw [hK]
      exact nofun
    · exact h.2 w' (mem_of_getElem? hw₀)

theorem cancelInapplicable_total (hK : Silent K) (only : Option (List String)) (paths : List String)
    (h : l.PassOn) (reconnect : List (Watch K)) :
    ∃ l' reconnect', cancelInapplicable only paths l reconnect = .ok (l', reconnect') := by
  induction paths generalizing l reconnect with
  | nil => exact ⟨l, reconnect, rfl⟩
  | cons path paths ih =>
    unfold cancelInapplicable
    split
    · exact ih h _
    split
    · rename_i i w _ _
      obtain ⟨l₁, hl₁, h₁⟩ := cancelWatch_total hK h i
      rw [hl₁]
      exact @ih { l₁ with watching := l₁.watching.erase path } h₁ _
    · exact ih h _

theorem cancelAll_total (hK : Silent K) (old : List Nat) (h : l.PassOn) :
    ∃ l', cancelAll old l = .ok l' := by
  induction old generalizing l with
  | nil => exact ⟨l, rfl⟩
  | cons i old ih =>
    obtain ⟨l₁, hl₁, h₁⟩ := cancelWatch_total hK h i
    unfold cancelAll
    rw [hl₁]
    exact ih h₁

theorem resetLoader_total (hK : Silent K)
    (h : ∀ w ∈ l.watches, ∀ frames ∈ (K.cancel w.state).2, Decodes frames) :
    ∃ l', l.resetLoader = .ok l' := by
  obtain ⟨l₁, hl₁⟩ := @cancelAll_total K { l with
    batchTimeout := false
    batch := none
    watching := ∅
    handlesReset := l.handles.length } hK (l.watching.entries.map (·.2)) ⟨decodes_nil, h⟩
  unfold resetLoader
  dsimp only
  rw [hl₁]
  exact ⟨_, rfl⟩

/-- All of it can be read: the paths of what waits and of what its watches have yet to pass on, and
    the metadata of its objects. -/
structure Readable (l : Loader K) : Prop where
  passOn : l.PassOn
  waits : ∀ frame ∈ l.batch.getD [], ∀ resource, frame.object = some resource →
    resource.metadata ≠ none
  objects : ∀ link resource, l.objects.lookup link = some resource → resource.metadata ≠ none

/-- A change of the limit, when it raises no error: the objects and listeners, then the watches. -/
theorem adjustNamespace_ok {value : Limit} (h : l.adjustNamespace value = .ok l') :
    ∃ l₁ l₂ reconnect notification, l₁.watchPart = { l with nameSpace := value }.watchPart ∧
      cancelInapplicable value.only l₁.watching.keys l₁ [] = .ok (l₂, reconnect) ∧
      l' = reconnectAll reconnect (l₂.invokeCallbacks notification) := by
  unfold adjustNamespace at h
  cases hflush : { l with batchTimeout := false, nameSpace := value }.flush with
  | error l₁ =>
    rw [hflush] at h
    exact nomatch h
  | ok result =>
    obtain ⟨l₁, changes⟩ := result
    have hpart : l₁.watchPart = { l with nameSpace := value }.watchPart := by
      unfold flush at hflush
      split at hflush
      · obtain ⟨rfl, -⟩ := Prod.mk.inj (Except.ok.inj hflush)
        rfl
      dsimp only at hflush
      split at hflush
      · obtain ⟨rfl, -⟩ := Prod.mk.inj (Except.ok.inj hflush)
        rfl
      · exact nomatch hflush
    rw [hflush] at h
    dsimp only [bind, Except.bind] at h
    split at h
    · split at h
      · exact nomatch h
      rename_i hcancel
      exact ⟨{ l₁ with objects := (removeOutside value.only
        ⟨l₁.objects, (changes.getD (∅, ∅)).1, (changes.getD (∅, ∅)).2⟩).1.objects },
        _, _, _, hpart, hcancel, (Except.ok.inj h).symm⟩
    · exact nomatch h

theorem adjustNamespace_total (hK : Silent K) (h : l.Readable) (value : Limit) :
    ∃ l', l.adjustNamespace value = .ok l' := by
  have hmetadata := @loop_forall _ _ { objects := l.objects } h.waits h.objects
  have hended : ∀ present removed : Objects,
      (removeOutside value.only ⟨(loop (l.batch.getD []) { objects := l.objects }).1.objects,
        present, removed⟩).2 := by
    intro present removed
    unfold removeOutside
    split
    · rfl
    · exact removeObjects_ended hmetadata
  unfold adjustNamespace
  rw [@flush_ok K { l with batchTimeout := false, nameSpace := value } h.passOn.1]
  dsimp only [bind, Except.bind]
  rw [if_pos (hended _ _)]
  obtain ⟨l₂, reconnect, hcancel⟩ := @cancelInapplicable_total K { l with
    batchTimeout := false
    nameSpace := value
    batch := none
    objects := (removeOutside value.only
      ⟨(loop (l.batch.getD []) { objects := l.objects }).1.objects, _, _⟩).1.objects }
    hK value.only l.watching.keys ⟨decodes_nil, h.passOn.2⟩ []
  rw [hcancel]
  exact ⟨_, rfl⟩

end Loader

end Cockpit.Kube
