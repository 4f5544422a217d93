import Cockpit.Kubernetes.LoaderErrors

namespace Cockpit.Kube

open List CockpitKubeWatch Loader Lib AList

/-!
# `kubeLoader`: which types are watched

With the watches of `CockpitKubeWatch`.

* `Follows` — what is watched is what is asked for, within the namespaces of the limit;
* `StepOk` — a step that keeps it so, and `follows_run`, for all runs of such steps.

A promise has no property `references` when it is made, so the references are no number, and no
`cancel` is ever the last one.
-/

variable {parse : List Char → Option (Option Frame)}

/-- A loader on a page. -/
abbrev CockpitLoader (parse : List Char → Option (Option Frame)) :=
  Loader (implementation parse)

abbrev CockpitWatch (parse : List Char → Option (Option Frame)) :=
  Watch (implementation parse)

/-! ## One watch -/

namespace CockpitKubeWatch

variable (w : CockpitKubeWatch)

/-- It was cancelled, and all of it has ended. -/
def Ended : Prop := w.channel = none ∧ w.wait = false

theorem loadFinish_same :
    w.loadFinish.1.stopping = w.stopping ∧ w.loadFinish.1.channel = w.channel ∧
      w.loadFinish.1.wait = w.wait := by
  unfold loadFinish
  split <;> exact ⟨rfl, rfl, rfl⟩

theorem loadPoke_same (force : Bool) :
    (w.loadPoke force).stopping = w.stopping := by
  unfold loadPoke
  split <;> rfl

theorem startWatch_same : w.startWatch.stopping = w.stopping := by
  unfold startWatch
  split <;> rfl

theorem closed_same (request : Request) (problem : Bool) :
    (w.closed request problem).1.stopping = w.stopping := by
  unfold closed
  dsimp only
  split
  · rfl
  split
  · exact (loadFinish_same _).1
  split
  · split <;> exact (loadFinish_same _).1
  · split
    · rfl
    · exact startWatch_same _

theorem handleLines_same (lines : List (List Char)) (w : CockpitKubeWatch) (frames : List Frame)
    (passed : List (List Frame)) :
    (handleLines parse lines w frames passed).1.stopping = w.stopping := by
  induction lines generalizing w frames passed with
  | nil => rfl
  | cons line lines ih =>
    unfold handleLines
    split
    · split
      · rfl
      · rw [ih, closed_same]
    · rfl
    split
    · exact ih _ _ _
    split
    · split
      · rw [ih, startWatch_same]
      · exact ih _ _ _
    split
    · exact ih _ _ _
    · split
      · exact ih _ _ _
      · rw [ih]

/-- Only `cancel` stops a watch. -/
theorem step_same (event : Event) :
    (step parse w event).1.stopping = w.stopping := by
  cases event with
  | discovered ok =>
    dsimp only [step]
    split
    · rfl
    · split
      · rw [startWatch_same]
      · exact (loadFinish_same _).1
  | response status =>
    dsimp only [step]
    split
    · rfl
    unfold loadBegin
    split <;> exact loadPoke_same _ _
  | message payload =>
    dsimp only [step]
    split
    · rfl
    split
    · rfl
    unfold handleWatch
    have hlines := @handleLines_same parse (splitLines (w.buffer ++ payload)).1
      { w with buffer := (splitLines (w.buffer ++ payload)).2 } [] []
    dsimp only
    split
    · rename_i heq
      rw [heq] at hlines
      rw [← hlines, loadPoke_same]
    · rename_i heq
      rw [heq] at hlines
      exact hlines
  | close problem =>
    dsimp only [step]
    split
    · rfl
    · exact closed_same _ _ _
  | blocked =>
    dsimp only [step]
    split <;> rfl
  | loadTimeout n =>
    dsimp only [step]
    split
    · exact (loadFinish_same _).1
    · rfl
  | waitTimeout =>
    dsimp only [step]
    split
    · rw [startWatch_same]
    · rfl

variable {w : CockpitKubeWatch}

/-- Nothing begins again, but for an answer that makes no difference between a watch and one that was
    cancelled. -/
theorem ended_step (h : w.Ended) {event : Event}
    (hok : event = .discovered true → w.discovering = false) : (step parse w event).1.Ended := by
  obtain ⟨hchan, hwait⟩ := h
  cases event with
  | discovered ok =>
    dsimp only [step]
    split
    · exact ⟨hchan, hwait⟩
    rename_i hdiscovering
    split
    · rename_i htrue
      rw [hok (by rw [htrue])] at hdiscovering
      exact absurd rfl hdiscovering
    · exact ⟨(loadFinish_same _).2.1.trans hchan, (loadFinish_same _).2.2.trans hwait⟩
  | loadTimeout n =>
    dsimp only [step]
    split
    · exact ⟨(loadFinish_same _).2.1.trans hchan, (loadFinish_same _).2.2.trans hwait⟩
    · exact ⟨hchan, hwait⟩
  | waitTimeout =>
    dsimp only [step]
    rw [hwait]
    exact ⟨hchan, hwait⟩
  | response status | message payload | close problem | blocked =>
    dsimp only [step]
    rw [hchan]
    exact ⟨hchan, hwait⟩

theorem cancel_spec (w : CockpitKubeWatch) : w.cancel.1.stopping ∧ w.cancel.1.Ended := by
  unfold cancel Ended
  dsimp only
  rw [(loadFinish_same _).1, (loadFinish_same _).2.1, (loadFinish_same _).2.2]
  split
  · rename_i hnone
    exact ⟨rfl, hnone, rfl⟩
  · exact ⟨closed_same _ _ _, rfl, rfl⟩

theorem isOpen_of_ended (h : w.Ended) : w.isOpen = !w.stopping := by
  unfold isOpen
  rw [h.1]
  simp

end CockpitKubeWatch

/-! ## The watches of a loader -/

/-- The watch at a path. -/
def watchAt (watching : AList fun _ : String => Nat) (watches : List (CockpitWatch parse))
    (path : String) : Option (CockpitWatch parse) :=
  (watching.lookup path).bind fun i => watches[i]?

/-- The watches that go on are those in `watching`, each at its path. -/
structure Tidy (watching : AList fun _ : String => Nat) (watches : List (CockpitWatch parse)) :
    Prop where
  watched : ∀ {path : String} {i : Nat}, watching.lookup path = some i →
    ∃ w : CockpitWatch parse, watches[i]? = some w ∧ w.path = path ∧ w.state.stopping = false
  going : ∀ {i : Nat} {w : CockpitWatch parse}, watches[i]? = some w → w.state.stopping = false →
    watching.lookup w.path = some i
  ended : ∀ {i : Nat} {w : CockpitWatch parse}, watches[i]? = some w → w.state.stopping → w.state.Ended
  path : ∀ {i : Nat} {w : CockpitWatch parse}, watches[i]? = some w → w.path = watchPath w.what w.nameSpace
  global : ∀ {i : Nat} {w : CockpitWatch parse}, watches[i]? = some w → w.global = (schemaOf w.what).global
  /-- They are no number. -/
  references : ∀ {i : Nat} {w : CockpitWatch parse}, watches[i]? = some w → w.references = none

namespace Tidy

variable {watching : AList fun _ : String => Nat} {watches : List (CockpitWatch parse)}

theorem empty : Tidy ∅ ([] : List (CockpitWatch parse)) where
  watched h := by simp at h
  going h := by simp at h
  ended h := by simp at h
  path h := by simp at h
  global h := by simp at h
  references h := by simp at h

variable {w : CockpitWatch parse}

section

variable (h : Tidy watching watches)

include h

variable {i : Nat}

theorem isOpen_iff (hw : watches[i]? = some w) : w.state.isOpen ↔ w.state.stopping = false := by
  cases hstop : w.state.stopping with
  | false => simp [CockpitKubeWatch.isOpen, hstop]
  | true => simp [isOpen_of_ended (h.ended hw hstop), hstop]

variable {path : String}

theorem watchAt_isSome : (watchAt watching watches path).isSome ↔ path ∈ watching := by
  rw [← lookup_isSome]
  unfold watchAt
  cases hlook : watching.lookup path with
  | none => simp
  | some i =>
    obtain ⟨w, hw, -⟩ := h.watched hlook
    simp [hw]

theorem of_watchAt (hw : watchAt watching watches path = some w) :
    w.path = path ∧ path = watchPath w.what w.nameSpace ∧
      w.global = (schemaOf w.what).global := by
  obtain ⟨i, hlook, hi⟩ := Option.bind_eq_some_iff.mp hw
  obtain ⟨w', hw', hpath, -⟩ := h.watched hlook
  obtain rfl := Option.mem_unique hw' hi
  exact ⟨hpath, hpath ▸ h.path hi, h.global hi⟩

/-- Adding to a number that there is not. -/
theorem modify_references (i : Nat) (f : Option Int → Option Int)
    (hf : f none = none) :
    watches.modify i (fun w => { w with references := f w.references }) = watches := by
  apply ext_getElem?
  intro j
  rw [getElem?_modify]
  cases hw : watches[j]? with
  | none => rfl
  | some w =>
    split
    · have hnone := h.references hw
      obtain ⟨path, what, global, nameSpace, references, state⟩ := w
      obtain rfl : references = none := hnone
      rw [Option.map_eq_map, Option.map_some, hf]
    · rfl

/-- A watch at a path where there was none. -/
theorem insert
    {what : String} {nameSpace : Option String} (hnew : watchPath what nameSpace ∉ watching)
    (hw : w = ⟨watchPath what nameSpace, what, (schemaOf what).global, nameSpace, none,
      { path := watchPath what nameSpace }⟩) :
    Tidy (watching.insert w.path watches.length) (watches ++ [w]) ∧
      ∀ path, watchAt (watching.insert w.path watches.length) (watches ++ [w]) path =
        if path = w.path then some w else watchAt watching watches path := by
  have hpath : w.path = watchPath what nameSpace := by rw [hw]
  have hlast : (watches ++ [w])[watches.length]? = some w := by simp
  have hold : ∀ {i : Nat} {w' : CockpitWatch parse}, watches[i]? = some w' → (watches ++ [w])[i]? = some w' := by
    intro i w' h'
    exact (getElem?_append_left (List.getElem?_eq_some_iff.mp h').1).trans h'
  have hlook : ∀ {path i}, watching.lookup path = some i → path ≠ w.path := by
    rintro path i h' rfl
    exact hnew (hpath ▸ lookup_isSome.mp (by rw [h']; rfl))
  constructor
  · constructor
    · intro path i h'
      by_cases hp : path = w.path
      · subst hp
        rw [lookup_insert] at h'
        obtain rfl := Option.some.inj h'
        exact ⟨w, hlast, rfl, by rw [hw]⟩
      · rw [lookup_insert_ne hp] at h'
        obtain ⟨w', hw', hrest⟩ := h.watched h'
        exact ⟨w', hold hw', hrest⟩
    · intro i w' h' hgoing
      rcases append_singleton_cases h' with h' | ⟨rfl, rfl⟩
      · have hgo := h.going h' hgoing
        rw [lookup_insert_ne (hlook hgo), hgo]
      · exact lookup_insert _
    all_goals
      intro i w' h'
      rcases append_singleton_cases h' with h' | ⟨-, rfl⟩
    · exact h.ended h'
    · rw [hw]
      exact fun hstop => (nomatch hstop)
    · exact h.path h'
    · rw [hw]
    · exact h.global h'
    · rw [hw]
    · exact h.references h'
    · rw [hw]
  intro path
  unfold watchAt
  by_cases hp : path = w.path
  · rw [if_pos hp, hp, lookup_insert, Option.bind_some, hlast]
  rw [if_neg hp, lookup_insert_ne hp]
  cases h' : watching.lookup path with
  | none => rfl
  | some i =>
    obtain ⟨w', hw', -⟩ := h.watched h'
    rw [Option.bind_some, Option.bind_some, hold hw', hw']

/-- A watch is cancelled, and its path is not watched any more. -/
theorem erase (hi : watching.lookup path = some i) :
    let watches' := watches.modify i fun w => { w with state := w.state.cancel.1 }
    Tidy (watching.erase path) watches' ∧ ∀ path', watchAt (watching.erase path) watches' path' =
        if path' = path then none else watchAt watching watches path' := by
  intro watches'
  obtain ⟨w, hw, hpath, hgoing⟩ := h.watched hi
  -- the watches that there are now, and what they were before
  have hcases : ∀ {j w'}, watches'[j]? = some w' →
      (j ≠ i ∧ watches[j]? = some w') ∨ (j = i ∧ w' = { w with state := w.state.cancel.1 }) := by
    intro j w' h'
    obtain ⟨w₀, hw₀, ⟨rfl, rfl⟩ | ⟨hij, rfl⟩⟩ := modify_cases h'
    · obtain rfl := Option.mem_unique hw₀ hw
      exact .inr ⟨rfl, rfl⟩
    · exact .inl ⟨Ne.symm hij, hw₀⟩
  have hother : ∀ {j}, j ≠ i → watches'[j]? = watches[j]? :=
    fun hj => getElem?_modify_ne _ _ (Ne.symm hj)
  have hne : ∀ {path' j}, path' ≠ path → watching.lookup path' = some j → j ≠ i := by
    rintro path' j hp hj rfl
    obtain ⟨w', hw', hpath', -⟩ := h.watched hj
    rw [hw] at hw'
    obtain rfl := Option.some.inj hw'
    exact hp (hpath'.symm.trans hpath)
  constructor
  · constructor
    · intro path' j h'
      by_cases hp : path' = path
      · subst hp
        rw [lookup_erase] at h'
        cases h'
      · rw [lookup_erase_ne hp] at h'
        rw [hother (hne hp h')]
        exact h.watched h'
    · intro j w' h' hgo
      rcases hcases h' with ⟨hji, h'⟩ | ⟨rfl, rfl⟩
      · have hlook := h.going h' hgo
        rw [lookup_erase_ne, hlook]
        rintro hp
        rw [hp, hi] at hlook
        exact hji (Option.some.inj hlook).symm
      · rw [(cancel_spec w.state).1] at hgo
        cases hgo
    all_goals
      intro j w' h'
      rcases hcases h' with ⟨-, h'⟩ | ⟨rfl, rfl⟩
    · exact h.ended h'
    · exact fun _ => (cancel_spec w.state).2
    · exact h.path h'
    · exact (h.path hw :)
    · exact h.global h'
    · exact (h.global hw :)
    · exact h.references h'
    · exact (h.references hw :)
  intro path'
  unfold watchAt
  by_cases hp : path' = path
  · rw [if_pos hp, hp, lookup_erase]
    rfl
  rw [if_neg hp, lookup_erase_ne hp]
  cases h' : watching.lookup path' with
  | none => rfl
  | some j =>
    rw [Option.bind_some, Option.bind_some, hother (hne hp h')]

/-- Something happens to a watch that does not cancel it, nor begins it again. -/
theorem modify {i : Nat}
    (hi : watches[i]? = some w) {state : CockpitKubeWatch}
    (hstop : state.stopping = w.state.stopping)
    (hended : w.state.stopping → w.state.Ended → state.Ended) :
    let watches' := watches.modify i fun w => { w with state := state }
    Tidy watching watches' ∧ ∀ path, (watchAt watching watches' path).map
        (fun w => (w.what, w.global, w.nameSpace)) =
      (watchAt watching watches path).map fun w => (w.what, w.global, w.nameSpace) := by
  intro watches'
  have hsame : ∀ {j : Nat} {w' : CockpitWatch parse}, watches'[j]? = some w' → ∃ w₀ : CockpitWatch parse, watches[j]? = some w₀ ∧
      w'.path = w₀.path ∧ w'.what = w₀.what ∧ w'.global = w₀.global ∧
      w'.nameSpace = w₀.nameSpace ∧ w'.references = w₀.references ∧
      w'.state.stopping = w₀.state.stopping ∧
      (w₀.state.stopping → w₀.state.Ended → w'.state.Ended) := by
    intro j w' h'
    obtain ⟨w₀, hw₀, ⟨rfl, rfl⟩ | ⟨-, rfl⟩⟩ := modify_cases h'
    · obtain rfl := Option.some.inj (hw₀.symm.trans hi)
      exact ⟨w₀, hi, rfl, rfl, rfl, rfl, rfl, hstop, hended⟩
    · exact ⟨w', hw₀, rfl, rfl, rfl, rfl, rfl, rfl, fun _ => id⟩
  have hback : ∀ {j : Nat} {w₀ : CockpitWatch parse}, watches[j]? = some w₀ → ∃ w' : CockpitWatch parse, watches'[j]? = some w' := by
    intro j w₀ h'
    have hlt := (List.getElem?_eq_some_iff.mp h').1
    exact ⟨_, getElem?_eq_getElem (by rwa [length_modify])⟩
  constructor
  · constructor
    · intro path j h'
      obtain ⟨w₀, hw₀, hpath, hgo⟩ := h.watched h'
      obtain ⟨w', hw'⟩ := hback hw₀
      obtain ⟨w₁, hw₁, hpath', -, -, -, -, hstop', -⟩ := hsame hw'
      obtain rfl := Option.mem_unique hw₁ hw₀
      exact ⟨w', hw', hpath'.trans hpath, hstop'.trans hgo⟩
    all_goals
      intro j w' h'
      obtain ⟨w₀, hw₀, hpath, hwhat, hglobal, hns, hrefs, hstop', hended'⟩ := hsame h'
    · intro hgo
      rw [hpath]
      exact h.going hw₀ (hstop'.symm.trans hgo)
    · intro hstopped
      have hstopped₀ := hstop'.symm.trans hstopped
      exact hended' hstopped₀ (h.ended hw₀ hstopped₀)
    · rw [hpath, hwhat, hns]
      exact h.path hw₀
    · rw [hglobal, hwhat]
      exact h.global hw₀
    · rw [hrefs]
      exact h.references hw₀
  intro path
  unfold watchAt
  cases h' : watching.lookup path with
  | none => rfl
  | some j =>
    obtain ⟨w₀, hw₀, -⟩ := h.watched h'
    obtain ⟨w', hw'⟩ := hback hw₀
    obtain ⟨w₁, hw₁, -, hwhat, hglobal, hns, -⟩ := hsame hw'
    obtain rfl := Option.mem_unique hw₁ hw₀
    rw [Option.bind_some, Option.bind_some, hw', hw₀, Option.map_some, Option.map_some, hwhat,
      hglobal, hns]

end

end Tidy

/-- One element counts when there is no other. -/
theorem countP_eq_one_of_unique {α : Type} {as : List α} {i : Nat} {a : α} {p : α → Bool}
    (hi : as[i]? = some a) (ha : p a)
    (hunique : ∀ {j b}, as[j]? = some b → p b → j = i) : as.countP p = 1 := by
  induction as generalizing i with
  | nil => simp at hi
  | cons b as ih =>
    cases i with
    | zero =>
      obtain rfl : b = a := by simpa using hi
      rw [countP_cons_of_pos ha, Nat.add_eq_right, countP_eq_zero]
      intro c hc hp
      obtain ⟨j, hj⟩ := getElem?_of_mem hc
      have := @hunique (j + 1) c hj hp
      omega
    | succ i =>
      have hb : ¬ p b := by
        intro hp
        have := @hunique 0 b rfl hp
        omega
      rw [countP_cons_of_neg hb]
      refine ih hi fun {j c} hj hp => ?_
      have := @hunique (j + 1) c hj hp
      omega

/-! ## More watches -/

namespace Loader

variable {l l' l'' : CockpitLoader parse}

/-- The watch of a loader at a path. -/
def watchIn (l : CockpitLoader parse) (path : String) : Option (CockpitWatch parse) :=
  watchAt l.watching l.watches path

/-- What else the watches depend on. -/
def limits (l : CockpitLoader parse) : Limit × List Handle × Nat :=
  (l.nameSpace, l.handles, l.handlesReset)

theorem ensureWatch_eq (h : Tidy l.watching l.watches) (what : String) (nameSpace : Option String)
    (increment : Option Int) :
    (l.ensureWatch what nameSpace increment).1 =
      if watchPath what nameSpace ∈ l.watching then l
      else { l with
        watching := l.watching.insert (watchPath what nameSpace) l.watches.length
        watches := l.watches ++ [⟨watchPath what nameSpace, what, (schemaOf what).global, nameSpace,
          none, { path := watchPath what nameSpace }⟩] } := by
  have hadd : (none : Option Int).bind (fun n => increment.map (n + ·)) = none := rfl
  unfold ensureWatch
  dsimp only
  split
  · have hsame := h.modify_references ((l.watching.lookup (watchPath what nameSpace)).getD 0)
      (fun references => references.bind fun n => increment.map (n + ·)) hadd
    rw [hsame]
  rename_i hnew
  have htidy := (h.insert hnew rfl).1
  have hsame := htidy.modify_references
    (((l.watching.insert (watchPath what nameSpace) l.watches.length).lookup
      (watchPath what nameSpace)).getD 0)
    (fun references => references.bind fun n => increment.map (n + ·)) hadd
  dsimp only at hsame ⊢
  rw [hsame]

/-- A loader that watches what is asked for as well: types in namespaces. -/
structure Grown (asked : List (String × Option String)) (l l' : CockpitLoader parse) : Prop where
  tidy : Tidy l'.watching l'.watches
  limits : l'.limits = l.limits
  kept : ∀ {path : String} {w : CockpitWatch parse}, l.watchIn path = some w →
    l'.watchIn path = some w
  new : ∀ {path : String} {w : CockpitWatch parse}, l'.watchIn path = some w →
    l.watchIn path = some w ∨ (w.what, w.nameSpace) ∈ asked
  there : ∀ ask ∈ asked, watchPath ask.1 ask.2 ∈ l'.watching

theorem Grown.refl (h : Tidy l.watching l.watches) : Grown [] l l where
  tidy := h
  limits := rfl
  kept := id
  new := .inl
  there ask hask := by simp at hask

theorem Grown.trans {asked asked' : List (String × Option String)} (h : Grown asked l l')
    (h' : Grown asked' l' l'') : Grown (asked ++ asked') l l'' where
  tidy := h'.tidy
  limits := h'.limits.trans h.limits
  kept hw := h'.kept (h.kept hw)
  new hw := by
    rcases h'.new hw with hw | hw
    · exact (h.new hw).imp id (mem_append_left _)
    · exact .inr (mem_append_right _ hw)
  there ask hask := by
    rcases mem_append.mp hask with hask | hask
    · -- it goes on to be there
      have hthere := h.there ask hask
      rw [← h.tidy.watchAt_isSome, Option.isSome_iff_exists] at hthere
      obtain ⟨w, hw⟩ := hthere
      rw [← h'.tidy.watchAt_isSome, Option.isSome_iff_exists]
      exact ⟨w, h'.kept hw⟩
    · exact h'.there ask hask

section

variable (h : Tidy l.watching l.watches)

include h

variable (what : String)

theorem grown_ensureWatch
    (nameSpace : Option String) (increment : Option Int) :
    Grown [(what, nameSpace)] l (l.ensureWatch what nameSpace increment).1 := by
  rw [ensureWatch_eq h]
  split
  · rename_i hthere
    refine ⟨h, rfl, id, .inl, fun ask hask => ?_⟩
    rw [mem_singleton] at hask
    rwa [hask]
  rename_i hnew
  obtain ⟨htidy, hat⟩ := h.insert hnew rfl
  refine ⟨htidy, rfl, fun {path w} hw => ?_, fun {path w} hw => ?_, fun ask hask => ?_⟩
  · refine (hat path).trans ?_
    rw [if_neg, ← hw]
    · rfl
    rintro rfl
    apply hnew
    rw [← h.watchAt_isSome]
    exact Option.isSome_iff_exists.mpr ⟨w, hw⟩
  · rw [watchIn, hat path] at hw
    split at hw
    · obtain rfl := Option.some.inj hw
      exact .inr mem_cons_self
    · exact .inl hw
  · rw [mem_singleton] at hask
    rw [hask]
    exact (mem_insert _).mpr (.inl rfl)

theorem grown_ensureParts (increment : Option Int)
    (vals : List String) (parts : List Nat) :
    Grown (vals.map fun val => (what, some val)) l (ensureParts what increment vals l parts).1 := by
  induction vals generalizing l parts with
  | nil => exact .refl h
  | cons val vals ih =>
    have hfirst := grown_ensureWatch h what (some val) increment
    exact hfirst.trans (ih hfirst.tidy _)

/-- **A type is watched in all the namespaces** of the limit, and nowhere else for this. -/
theorem grown_ensureWatches
    (increment : Option Int) :
    Grown (l.nameSpace.nameSpaces.map fun nameSpace => (what, nameSpace)) l
      (l.ensureWatches what increment).1 := by
  unfold ensureWatches
  cases l.nameSpace with
  | all => exact grown_ensureWatch h what none increment
  | one nameSpace => exact grown_ensureWatch h what (some nameSpace) increment
  | many nameSpaces =>
    have hparts := grown_ensureParts h what increment nameSpaces []
    simp only [Limit.nameSpaces, map_map]
    exact hparts

theorem grown_reconnectAll (ws : List (CockpitWatch parse)) :
    Grown (ws.flatMap fun w => l.nameSpace.nameSpaces.map fun nameSpace => (w.what, nameSpace)) l
      (reconnectAll ws l) := by
  induction ws generalizing l with
  | nil => exact .refl h
  | cons w ws ih =>
    have hfirst := grown_ensureWatches h w.what w.references
    have hsame : (l.ensureWatches w.what w.references).1.nameSpace = l.nameSpace :=
      congrArg Prod.fst hfirst.limits
    have hrest := ih hfirst.tidy
    rw [hsame] at hrest
    exact hfirst.trans hrest

/-! ## Fewer watches -/

end

theorem of_watchPart {K : KubeWatch} {l l' : Loader K} (h : l'.watchPart = l.watchPart) :
    l'.watching = l.watching ∧ l'.watches = l.watches ∧ l'.nameSpace = l.nameSpace ∧
      l'.handles = l.handles ∧ l'.handlesReset = l.handlesReset := by
  unfold watchPart at h
  simpa using h

variable {i : Nat}

/-- What is cancelled is changed, and nothing else of the watches. -/
theorem cancelWatch_ok (h : l.cancelWatch i = .ok l') :
    l'.watchPart = { l with
      watches := l.watches.modify i fun w => { w with state := w.state.cancel.1 } }.watchPart := by
  unfold cancelWatch at h
  cases hw : l.watches[i]? with
  | none =>
    rw [hw] at h
    obtain rfl := Except.ok.inj h
    rw [modify_eq_self]
    exact List.getElem?_eq_none_iff.mp hw
  | some w =>
    rw [hw] at h
    dsimp only at h
    have hpart := watchPart_passFrames (CockpitKubeWatch.cancel w.state).2
      { l with watches := l.watches.modify i fun w' => { w' with state := w.state.cancel.1 } }
    rw [h] at hpart
    refine hpart.trans ?_
    unfold watchPart
    congr 2
    apply ext_getElem?
    intro j
    rw [getElem?_modify, getElem?_modify]
    by_cases hij : i = j
    · subst hij
      simp [hw]
    · simp [hij]

variable {path : String}

/-- A watch is cancelled at its path. -/
theorem cancel_at (h : Tidy l.watching l.watches)
    (hi : l.watching.lookup path = some i) (heq : l.cancelWatch i = .ok l') :
    Tidy (l'.watching.erase path) l'.watches ∧ l'.limits = l.limits ∧
      ∀ path', watchAt (l'.watching.erase path) l'.watches path' =
        if path' = path then none else l.watchIn path' := by
  obtain ⟨hwatch, hwatches, hns, hhand, hreset⟩ := of_watchPart (cancelWatch_ok heq)
  dsimp only at hwatch hwatches hns hhand hreset
  have herase := h.erase hi
  dsimp only at herase
  rw [hwatch, hwatches]
  refine ⟨herase.1, ?_, herase.2⟩
  unfold limits
  rw [hns, hhand, hreset]

/-- **The loop that cancels watches** leaves those that are applicable. -/
theorem cancelInapplicable_spec {only : Option (List String)} {paths : List String}
    {reconnect reconnect' : List (CockpitWatch parse)} (hnodup : paths.Nodup)
    (h : Tidy l.watching l.watches)
    (heq : cancelInapplicable only paths l reconnect = .ok (l', reconnect')) :
    Tidy l'.watching l'.watches ∧ l'.limits = l.limits ∧ (∀ path, l'.watchIn path =
        if path ∈ paths ∧ (l.watchIn path).any (inapplicable · only) then none
        else l.watchIn path) ∧
      reconnect' = reconnect ++ (paths.filterMap l.watchIn).filter (inapplicable · only) := by
  induction paths generalizing l reconnect with
  | nil =>
    unfold cancelInapplicable at heq
    obtain ⟨rfl, rfl⟩ := Prod.mk.inj (Except.ok.inj heq)
    refine ⟨h, rfl, fun path => ?_, ?_⟩
    · rw [if_neg]
      exact fun hmem => absurd hmem.1 not_mem_nil
    · simp
  | cons path paths ih =>
    obtain ⟨hnot, hnodup⟩ := nodup_cons.mp hnodup
    -- what the loop leaves alone at this path
    have hleave : (l.watchIn path).any (inapplicable · only) = false →
        cancelInapplicable only paths l reconnect = .ok (l', reconnect') →
        Tidy l'.watching l'.watches ∧ l'.limits = l.limits ∧ (∀ path', l'.watchIn path' =
            if path' ∈ path :: paths ∧ (l.watchIn path').any (inapplicable · only) then none
            else l.watchIn path') ∧
          reconnect' = reconnect ++
            ((path :: paths).filterMap l.watchIn).filter (inapplicable · only) := by
      intro hany hrest
      obtain ⟨htidy, hlimits, hat, hrecon⟩ := ih hnodup h hrest
      refine ⟨htidy, hlimits, fun path' => ?_, ?_⟩
      · rw [hat]
        by_cases hp : path' = path
        · subst hp
          rw [if_neg (fun hmem => hnot hmem.1), if_neg]
          rw [hany]
          exact fun hmem => by cases hmem.2
        · simp only [mem_cons, hp, false_or]
      rw [hrecon, filterMap_cons]
      cases hw : l.watchIn path with
      | none => rfl
      | some w =>
        rw [hw, Option.any_some] at hany
        rw [filter_cons_of_neg (by simp [hany])]
    unfold cancelInapplicable at heq
    cases hlook : l.watching.lookup path with
    | none =>
      have hnone : l.watchIn path = none := by
        unfold watchIn watchAt
        rw [hlook]
        rfl
      rw [hlook] at heq
      exact hleave (by rw [hnone]; rfl) heq
    | some i =>
      obtain ⟨w, hw, -⟩ := h.watched hlook
      have hsome : l.watchIn path = some w := by
        unfold watchIn watchAt
        rw [hlook]
        exact hw
      rw [hlook, Option.bind_some, hw, Option.map_some] at heq
      dsimp only at heq
      split at heq
      · rename_i hinapp
        cases hcancel : l.cancelWatch i with
        | error l₁ =>
          rw [hcancel] at heq
          cases heq
        | ok l₁ =>
          rw [hcancel] at heq
          obtain ⟨htidy₁, hlimits₁, hat₁⟩ := cancel_at h hlook hcancel
          obtain ⟨htidy, hlimits, hat, hrecon⟩ :=
            @ih { l₁ with watching := l₁.watching.erase path } _ hnodup htidy₁ heq
          have hat₁' : ∀ path',
              ({ l₁ with watching := l₁.watching.erase path } : CockpitLoader parse).watchIn path' =
                if path' = path then none else l.watchIn path' := hat₁
          refine ⟨htidy, hlimits.trans hlimits₁, fun path' => ?_, ?_⟩
          · rw [hat, hat₁']
            by_cases hp : path' = path
            · subst hp
              rw [if_neg (fun hmem => hnot hmem.1), if_pos rfl, if_pos]
              rw [hsome]
              exact ⟨mem_cons_self, hinapp⟩
            · simp only [mem_cons, hp, false_or, if_false]
          rw [hrecon, filterMap_cons, hsome]
          dsimp only
          rw [filter_cons, if_pos hinapp, append_assoc, singleton_append]
          congr 3
          apply filterMap_congr
          intro path' hmem
          rw [hat₁', if_neg]
          rintro rfl
          exact hnot hmem
      rename_i hinapp
      refine hleave ?_ heq
      rw [hsome, Option.any_some]
      exact Bool.eq_false_iff.mpr hinapp

/-! ## What is asked for -/

/-- A watch that was returned since the last reset and not cancelled. -/
def Alive (l : CockpitLoader parse) (i : Nat) (handle : Handle) : Prop :=
  l.handles[i]? = some handle ∧ l.handlesReset ≤ i ∧ handle.cancelled = false

/-- Someone watches the type. -/
def Used (l : CockpitLoader parse) (what : String) : Prop :=
  ∃ i handle, l.Alive i handle ∧ schemaOf handle.what = schemaOf what

/-- **What is watched is what is asked for**: the types that are used, and each of them by just one
    open watch at each of its paths. -/
structure Follows (l : CockpitLoader parse) : Prop where
  watched_iff : ∀ what,
    (∃ w ∈ l.watches, w.state.isOpen ∧ schemaOf w.what = schemaOf what) ↔ l.Used what
  one : ∀ what, l.Used what → ∀ path,
    l.watches.countP (fun w => w.state.isOpen ∧ schemaOf w.what = schemaOf what ∧ w.path = path) =
      if path ∈ paths what l.nameSpace then 1 else 0

/-- The invariant of a loader that does so. -/
structure Inv (l : CockpitLoader parse) : Prop where
  tidy : Tidy l.watching l.watches
  wanted : ∀ path, path ∈ l.watching ↔ ∃ what, l.Used what ∧ path ∈ paths what l.nameSpace
  limited : ∀ {path : String} {w : CockpitWatch parse}, l.watchIn path = some w →
    w.global = false → norm w.nameSpace ∈ l.nameSpace.nameSpaces.map norm
  somewhere : ∀ what, l.Used what → paths what l.nameSpace ≠ []
  reset_le : l.handlesReset ≤ l.handles.length

variable {what : String}

theorem mem_paths {limit : Limit} {nameSpace : Option String}
    (h : nameSpace ∈ limit.nameSpaces) : watchPath what nameSpace ∈ paths what limit := by
  unfold paths
  split
  · rename_i hglobal
    exact mem_singleton.mpr (watchPath_of_global hglobal nameSpace)
  · exact mem_map_of_mem h

theorem mem_paths_of_global (h : (schemaOf what).global)
    {limit : Limit} : path ∈ paths what limit ↔ path = watchPath what none := by
  unfold paths
  rw [if_pos h, mem_singleton]

theorem mem_paths_of_not_global (h : (schemaOf what).global = false) {limit : Limit} :
    path ∈ paths what limit ↔ ∃ nameSpace ∈ limit.nameSpaces, watchPath what nameSpace = path := by
  unfold paths
  rw [if_neg (by simp [h]), mem_map]

theorem Used.congr {what what' : String} (h : l.Used what) (hsame : schemaOf what = schemaOf what') :
    l.Used what' := by
  obtain ⟨i, handle, halive, hschema⟩ := h
  exact ⟨i, handle, halive, hschema.trans hsame⟩

theorem used_of_limits (h : l'.limits = l.limits) (what : String) : l'.Used what ↔ l.Used what := by
  obtain ⟨-, hhand, hreset⟩ : l'.nameSpace = l.nameSpace ∧ l'.handles = l.handles ∧
      l'.handlesReset = l.handlesReset := by
    unfold limits at h
    simpa using h
  unfold Used Alive
  rw [hhand, hreset]

namespace Inv

theorem init : Inv ({} : CockpitLoader parse) where
  tidy := .empty
  wanted path := by
    constructor
    · intro h
      simp at h
    · rintro ⟨what, ⟨i, handle, halive, -⟩, -⟩
      simp [Alive] at halive
  limited h := by simp [watchIn, watchAt] at h
  somewhere what h := by
    obtain ⟨i, handle, halive, -⟩ := h
    simp [Alive] at halive
  reset_le := Nat.le_refl 0

/-- What has nothing to do with watches keeps it. -/
theorem congr (h : l.Inv) (hpart : l'.watchPart = l.watchPart) : l'.Inv := by
  obtain ⟨hwatch, hwatches, hns, hhand, hreset⟩ := of_watchPart hpart
  have hused : ∀ what, l'.Used what ↔ l.Used what :=
    used_of_limits (by unfold limits; rw [hns, hhand, hreset])
  constructor
  · rw [hwatch, hwatches]
    exact h.tidy
  · intro path
    simp only [hused, hwatch, hns]
    exact h.wanted path
  · intro path w hw
    unfold watchIn at hw
    rw [hwatch, hwatches] at hw
    rw [hns]
    exact h.limited hw
  · intro what hwhat
    rw [hns]
    exact h.somewhere what ((hused what).mp hwhat)
  · rw [hhand, hreset]
    exact h.reset_le

/-- A watch is there for a type that is used, and at one of its paths. -/
theorem used_of_watchIn (h : l.Inv) {w : CockpitWatch parse}
    (hw : l.watchIn path = some w) : l.Used w.what ∧ path ∈ paths w.what l.nameSpace := by
  have hthere : path ∈ l.watching := by
    rw [← h.tidy.watchAt_isSome]
    exact Option.isSome_iff_exists.mpr ⟨w, hw⟩
  obtain ⟨what, hused, hpath⟩ := (h.wanted path).mp hthere
  have hplace := (h.tidy.of_watchAt hw).2.1
  have hschema : schemaOf w.what = schemaOf what := schemaOf_eq_of_mem_paths (hplace ▸ hpath)
  exact ⟨hused.congr hschema.symm, paths_congr hschema _ ▸ hpath⟩

/-- At each path of a type that is used is a watch of this type. -/
theorem watchIn_of_used (h : l.Inv) (hused : l.Used what) (hpath : path ∈ paths what l.nameSpace) :
    ∃ w, l.watchIn path = some w ∧ schemaOf w.what = schemaOf what := by
  have hthere := (h.wanted path).mpr ⟨what, hused, hpath⟩
  rw [← h.tidy.watchAt_isSome, Option.isSome_iff_exists] at hthere
  obtain ⟨w, hw⟩ := hthere
  have hplace := (h.tidy.of_watchAt hw).2.1
  exact ⟨w, hw, schemaOf_eq_of_mem_paths (hplace ▸ hpath)⟩

/-- **The invariant says what is watched.** -/
theorem follows (h : l.Inv) : l.Follows where
  watched_iff what := by
    constructor
    · rintro ⟨w, hmem, hopen, hschema⟩
      obtain ⟨i, hi⟩ := getElem?_of_mem hmem
      have hlook := h.tidy.going hi ((h.tidy.isOpen_iff hi).mp hopen)
      have hw : l.watchIn w.path = some w := by
        unfold watchIn watchAt
        rw [hlook]
        exact hi
      exact (h.used_of_watchIn hw).1.congr hschema
    intro hused
    obtain ⟨path, hpath⟩ := exists_mem_of_ne_nil _ (h.somewhere what hused)
    obtain ⟨w, hw, hschema⟩ := h.watchIn_of_used hused hpath
    obtain ⟨i, hlook, hi⟩ := Option.bind_eq_some_iff.mp hw
    obtain ⟨w', hw', -, hgoing⟩ := h.tidy.watched hlook
    obtain rfl := Option.mem_unique hw' hi
    exact ⟨w', mem_of_getElem? hi, (h.tidy.isOpen_iff hi).mpr hgoing, hschema⟩
  one what hused path := by
    -- an open watch at the path is the one that `watching` has there
    have hindex : ∀ {i w}, l.watches[i]? = some w →
        (w.state.isOpen ∧ schemaOf w.what = schemaOf what ∧ w.path = path) →
        l.watching.lookup path = some i := by
      rintro i w hi ⟨hopen, -, rfl⟩
      exact h.tidy.going hi ((h.tidy.isOpen_iff hi).mp hopen)
    split
    · rename_i hpath
      obtain ⟨w, hw, hschema⟩ := h.watchIn_of_used hused hpath
      obtain ⟨i, hlook, hi⟩ := Option.bind_eq_some_iff.mp hw
      obtain ⟨w', hw', hplace, hgoing⟩ := h.tidy.watched hlook
      obtain rfl := Option.mem_unique hw' hi
      have hlt := (List.getElem?_eq_some_iff.mp hi).1
      apply countP_eq_one_of_unique hi
      · simpa using ⟨(h.tidy.isOpen_iff hi).mpr hgoing, hschema, hplace⟩
      · intro j w₁ hj hp
        have hj' := hindex hj (by simpa using hp)
        exact Option.mem_unique hj' hlook
    rename_i hpath
    rw [countP_eq_zero]
    intro w hmem hp
    obtain ⟨i, hi⟩ := getElem?_of_mem hmem
    have hp' : w.state.isOpen ∧ schemaOf w.what = schemaOf what ∧ w.path = path := by
      simpa using hp
    have hw : l.watchIn path = some w := by
      unfold watchIn watchAt
      rw [hindex hi hp']
      exact hi
    exact hpath (paths_congr hp'.2.1 _ ▸ (h.used_of_watchIn hw).2)

end Inv

/-! ## Steps -/

/-- A change of the limit that keeps to what is asked for. -/
structure LimitOk (l : CockpitLoader parse) (value : Limit) : Prop where
  readable : l.Readable
  /-- A watch that is left alone is for one of the new namespaces. -/
  kept : ∀ {path : String} {w : CockpitWatch parse}, l.watchIn path = some w → w.global = false →
    inapplicable w value.only = false → norm w.nameSpace ∈ value.nameSpaces.map norm
  /-- If no watch of a type is cancelled, there is no new namespace. -/
  spread : ∀ what, l.Used what → (schemaOf what).global = false →
    (∃ path w, l.watchIn path = some w ∧ schemaOf w.what = schemaOf what ∧
      inapplicable w value.only) ∨
    ∀ nameSpace ∈ value.nameSpaces, norm nameSpace ∈ l.nameSpace.nameSpaces.map norm
  somewhere : ∀ what, l.Used what → (schemaOf what).global = false → value ≠ .many []

/-- A step after which what is watched is what is asked for. -/
def StepOk (l : CockpitLoader parse) :
    Event (implementation parse) → Prop
  /- There is a namespace to watch the type in, or it is global and watched already. -/
  | .watch what => l.nameSpace = .many [] → (schemaOf what).global ∧ l.Used what
  /- It is not the last one for its type. -/
  | .cancel i => ∀ handle, l.Alive i handle →
      ∃ j handle', j ≠ i ∧ l.Alive j handle' ∧ schemaOf handle'.what = schemaOf handle.what
  | .limit value => l.LimitOk value
  | .reset => ∀ w ∈ l.watches, ∀ frames ∈ w.state.cancel.2, Decodes frames
  /- A watch that was cancelled is not begun by an answer that comes late. -/
  | .watchEvent i event => event = CockpitKubeWatch.Event.discovered true →
      ∀ w, l.watches[i]? = some w → w.state.stopping → w.state.discovering = false
  | .handle .. | .loaded _ | .timeout | .listen _ | .listening _ | .unlisten _ => True

/-- Watches that have been cancelled have said everything. -/
theorem silent : Silent (implementation parse) := by
  intro state
  have hloaded : state.cancel.1.loaded := by
    unfold CockpitKubeWatch.cancel loadFinish
    dsimp only
    split
    · rename_i h
      exact h
    · rfl
  show (CockpitKubeWatch.cancel (CockpitKubeWatch.cancel state).1).2 = []
  generalize (CockpitKubeWatch.cancel state).1 = w at hloaded
  unfold CockpitKubeWatch.cancel
  dsimp only
  unfold loadFinish
  rw [if_pos]
  split
  · exact hloaded
  rename_i request _
  -- what is ended stays loaded
  unfold CockpitKubeWatch.closed
  exact hloaded

namespace Inv

theorem watch (h : l.Inv) (hok : l.nameSpace = .many [] → (schemaOf what).global ∧ l.Used what) :
    (l.watch what).Inv := by
  have hgrown := grown_ensureWatches h.tidy what (some 1)
  have hns : (l.ensureWatches what (some 1)).1.nameSpace = l.nameSpace :=
    congrArg Prod.fst hgrown.limits
  obtain ⟨hhand, hreset⟩ : (l.ensureWatches what (some 1)).1.handles = l.handles ∧
      (l.ensureWatches what (some 1)).1.handlesReset = l.handlesReset := by
    have := congrArg Prod.snd hgrown.limits
    simpa [limits] using this
  have hused : ∀ what', (l.watch what).Used what' ↔
      l.Used what' ∨ schemaOf what = schemaOf what' := by
    intro what'
    unfold Used Alive Loader.watch
    dsimp only
    rw [hhand, hreset]
    constructor
    · rintro ⟨i, handle, ⟨hi, hle, hcanc⟩, hschema⟩
      rcases append_singleton_cases hi with hi | ⟨-, rfl⟩
      · exact .inl ⟨i, handle, ⟨hi, hle, hcanc⟩, hschema⟩
      · exact .inr hschema
    rintro (⟨i, handle, ⟨hi, hle, hcanc⟩, hschema⟩ | hschema)
    · have hlt := (List.getElem?_eq_some_iff.mp hi).1
      exact ⟨i, handle, ⟨(getElem?_append_left hlt).trans hi, hle, hcanc⟩, hschema⟩
    · refine ⟨l.handles.length, _, ⟨getElem?_concat_length, h.reset_le, rfl⟩, hschema⟩
  have hthere : ∀ path, path ∈ (l.watch what).watching ↔ path ∈ l.watching ∨
      ∃ nameSpace ∈ l.nameSpace.nameSpaces, watchPath what nameSpace = path := by
    intro path
    constructor
    · intro hpath
      have hsome := hgrown.tidy.watchAt_isSome.mpr hpath
      obtain ⟨w, hw⟩ := Option.isSome_iff_exists.mp hsome
      rcases hgrown.new hw with hold | hnew
      · exact .inl (h.tidy.watchAt_isSome.mp (Option.isSome_iff_exists.mpr ⟨w, hold⟩))
      obtain ⟨nameSpace, hmem, heq⟩ := mem_map.mp hnew
      obtain ⟨hwhat, hwns⟩ := Prod.mk.inj heq
      have hplace := (hgrown.tidy.of_watchAt hw).2.1
      exact .inr ⟨nameSpace, hmem, by rw [hplace, ← hwhat, ← hwns]⟩
    rintro (hpath | ⟨nameSpace, hmem, rfl⟩)
    · obtain ⟨w, hw⟩ := Option.isSome_iff_exists.mp (h.tidy.watchAt_isSome.mpr hpath)
      exact hgrown.tidy.watchAt_isSome.mp (Option.isSome_iff_exists.mpr ⟨w, hgrown.kept hw⟩)
    · exact hgrown.there (what, nameSpace) (mem_map_of_mem hmem)
  constructor
  · exact hgrown.tidy
  · intro path
    rw [hthere, h.wanted]
    simp only [hused]
    show _ ↔ ∃ what', _ ∧ path ∈ paths what' (l.ensureWatches what (some 1)).1.nameSpace
    rw [hns]
    constructor
    · rintro (⟨what', hwhat', hpath⟩ | ⟨nameSpace, hmem, rfl⟩)
      · exact ⟨what', .inl hwhat', hpath⟩
      · exact ⟨what, .inr rfl, mem_paths hmem⟩
    rintro ⟨what', hwhat' | hschema, hpath⟩
    · exact .inl ⟨what', hwhat', hpath⟩
    rw [← paths_congr hschema] at hpath
    by_cases hnone : l.nameSpace = .many []
    · exact .inl ⟨what, (hok hnone).2, hpath⟩
    refine .inr ?_
    by_cases hglobal : (schemaOf what).global
    · rw [mem_paths_of_global hglobal] at hpath
      obtain ⟨nameSpace, hmem⟩ := exists_mem_of_ne_nil _ (Limit.nameSpaces_ne_nil hnone)
      exact ⟨nameSpace, hmem, (watchPath_of_global hglobal nameSpace).trans hpath.symm⟩
    · exact (mem_paths_of_not_global (Bool.eq_false_iff.mpr hglobal)).mp hpath
  · intro path w hw hglobal
    show norm w.nameSpace ∈ (l.ensureWatches what (some 1)).1.nameSpace.nameSpaces.map norm
    rw [hns]
    rcases hgrown.new hw with hold | hnew
    · exact h.limited hold hglobal
    · obtain ⟨nameSpace, hmem, heq⟩ := mem_map.mp hnew
      rw [← (Prod.mk.inj heq).2]
      exact mem_map_of_mem hmem
  · intro what' hwhat'
    show paths what' (l.ensureWatches what (some 1)).1.nameSpace ≠ []
    rw [hns]
    rcases (hused what').mp hwhat' with hwhat' | hschema
    · exact h.somewhere what' hwhat'
    rw [← paths_congr hschema]
    by_cases hnone : l.nameSpace = .many []
    · exact h.somewhere what (hok hnone).2
    · obtain ⟨nameSpace, hmem⟩ := exists_mem_of_ne_nil _ (Limit.nameSpaces_ne_nil hnone)
      exact ne_nil_of_mem (mem_paths hmem)
  show (l.ensureWatches what (some 1)).1.handlesReset ≤
    ((l.ensureWatches what (some 1)).1.handles ++ [_]).length
  rw [hhand, hreset, List.length_append]
  exact Nat.le_trans h.reset_le (Nat.le_add_right _ _)

theorem cancelPart_eq (h : Tidy l.watching l.watches) (i : Nat) : l.cancelPart i = .ok l := by
  unfold cancelPart
  split
  · rfl
  split
  · rfl
  rename_i j _
  have hsame := h.modify_references j (fun references => references.map (· - 1)) rfl
  dsimp only at hsame ⊢
  rw [hsame]
  have hnone : (l.watches[j]?).bind Watch.references = none := by
    cases hw : l.watches[j]? with
    | none => rfl
    | some w => exact h.references hw
  rw [hnone]
  rfl

/-- **No watch is ever the last one**: there is nothing that is not positive. -/
theorem cancelParts_eq (h : Tidy l.watching l.watches) (parts : List Nat) :
    cancelParts parts l = .ok l := by
  induction parts with
  | nil => rfl
  | cons i parts ih =>
    unfold cancelParts
    rw [cancelPart_eq h]
    exact ih

theorem cancel (h : l.Inv) {i : Nat}
    (hok : ∀ handle, l.Alive i handle →
      ∃ j handle', j ≠ i ∧ l.Alive j handle' ∧ schemaOf handle'.what = schemaOf handle.what) :
    (settle (l.cancel i)).Inv := by
  unfold Loader.cancel
  cases hi : l.handles[i]? with
  | none => exact h
  | some handle =>
    dsimp only
    have hparts := @cancelParts_eq parse { l with
      handles := l.handles.modify i fun handle => { handle with cancelled := true } }
      h.tidy handle.parts
    rw [hparts]
    have hused : ∀ what, ({ l with
        handles := l.handles.modify i fun handle => { handle with cancelled := true } } :
          CockpitLoader parse).Used what ↔ l.Used what := by
      intro what
      constructor
      · rintro ⟨j, handle', ⟨hj, hle, hcanc⟩, hschema⟩
        obtain ⟨handle₀, hj₀, ⟨-, rfl⟩ | ⟨-, rfl⟩⟩ := modify_cases hj
        · exact nomatch hcanc
        · exact ⟨j, handle', ⟨hj₀, hle, hcanc⟩, hschema⟩
      rintro ⟨j, handle', halive, hschema⟩
      -- another one goes on
      obtain ⟨k, handle'', hne, ⟨hk, hle, hcanc⟩, hschema'⟩ :
          ∃ k handle'', k ≠ i ∧ l.Alive k handle'' ∧
            schemaOf handle''.what = schemaOf what := by
        by_cases hji : j = i
        · subst hji
          obtain ⟨k, handle'', hne, halive', hsame⟩ := hok handle' halive
          exact ⟨k, handle'', hne, halive', hsame.trans hschema⟩
        · exact ⟨j, handle', hji, halive, hschema⟩
      refine ⟨k, handle'', ⟨?_, hle, hcanc⟩, hschema'⟩
      exact (getElem?_modify_ne _ _ hne.symm).trans hk
    constructor
    · exact h.tidy
    · intro path
      simp only [settle, hused]
      exact h.wanted path
    · exact h.limited
    · exact fun what hwhat => h.somewhere what ((hused what).mp hwhat)
    · show l.handlesReset ≤ (l.handles.modify i _).length
      rw [length_modify]
      exact h.reset_le

/-- What a change of the limit makes of the watches. -/
structure Relimited (l l' : CockpitLoader parse) (value : Limit) : Prop where
  tidy : Tidy l'.watching l'.watches
  limits : l'.limits = (value, l.handles, l.handlesReset)
  /-- A watch was there, or is for one of the new namespaces. -/
  new : ∀ {path w}, l'.watchIn path = some w →
    (l.watchIn path = some w ∧ inapplicable w value.only = false) ∨
      (w.nameSpace ∈ value.nameSpaces ∧ path ∈ paths w.what value ∧ l.Used w.what)
  /-- Those that were there stay, -/
  stays : ∀ {path w}, l.watchIn path = some w → inapplicable w value.only = false →
    path ∈ l'.watching
  /-- or are made anew for every namespace. -/
  anew : ∀ {path w}, l.watchIn path = some w → inapplicable w value.only →
    ∀ nameSpace ∈ value.nameSpaces, watchPath w.what nameSpace ∈ l'.watching

theorem relimited (h : l.Inv) {value : Limit} (hreadable : Readable l) :
    Relimited l (settle (l.adjustNamespace value)) value := by
  obtain ⟨l', hl'⟩ := adjustNamespace_total silent hreadable value
  obtain ⟨l₁, l₂, reconnect, notification, hpart, hcancel, rfl⟩ := adjustNamespace_ok hl'
  rw [hl']
  obtain ⟨hwatch, hwatches, hns₁, hhandles₁, hreset₁⟩ := of_watchPart hpart
  dsimp only at hwatch hwatches hns₁ hhandles₁ hreset₁
  have hat₁ : ∀ path, l₁.watchIn path = l.watchIn path := by
    intro path
    unfold watchIn
    rw [hwatch, hwatches]
  have htidy₁ : Tidy l₁.watching l₁.watches := by
    rw [hwatch, hwatches]
    exact h.tidy
  obtain ⟨htidy₂, hlimits₂, hat₂, hrecon⟩ :=
    cancelInapplicable_spec l₁.watching.keys_nodup htidy₁ hcancel
  have hgrown := @grown_reconnectAll parse (l₂.invokeCallbacks notification) htidy₂ reconnect
  have hns₂ : l₂.nameSpace = value := (congrArg Prod.fst hlimits₂).trans hns₁
  have hkeys : ∀ {path w}, l.watchIn path = some w → path ∈ l₁.watching.keys := by
    intro path w hw
    rw [← AList.mem_keys, hwatch, ← h.tidy.watchAt_isSome]
    exact Option.isSome_iff_exists.mpr ⟨w, hw⟩
  have hanew : ∀ {w}, w ∈ reconnect ↔
      ∃ path, l.watchIn path = some w ∧ inapplicable w value.only := by
    intro w
    rw [hrecon, nil_append, mem_filter, mem_filterMap]
    constructor
    · rintro ⟨⟨path, -, hw⟩, hin⟩
      exact ⟨path, hat₁ path ▸ hw, hin⟩
    rintro ⟨path, hw, hin⟩
    exact ⟨⟨path, hkeys hw, (hat₁ path).trans hw⟩, hin⟩
  constructor
  · exact hgrown.tidy
  · refine hgrown.limits.trans (hlimits₂.trans ?_)
    unfold limits
    rw [hns₁, hhandles₁, hreset₁]
  · intro path w hw
    rcases hgrown.new hw with hold | hask
    · have hold : l₂.watchIn path = some w := hold
      rw [hat₂] at hold
      split at hold
      · exact nomatch hold
      rename_i hnot
      rw [hat₁] at hold hnot
      refine .inl ⟨hold, Bool.eq_false_iff.mpr fun hin => hnot ⟨hkeys hold, ?_⟩⟩
      rw [hold]
      exact hin
    obtain ⟨w₀, hw₀, hask⟩ := mem_flatMap.mp hask
    obtain ⟨nameSpace, hmem, heq⟩ := mem_map.mp hask
    obtain ⟨hwhat, hwns⟩ := Prod.mk.inj heq
    have hmem' : nameSpace ∈ value.nameSpaces := hns₂ ▸ hmem
    obtain ⟨path₀, hpath₀, -⟩ := hanew.mp hw₀
    have hplace := (hgrown.tidy.of_watchAt hw).2.1
    refine .inr ⟨hwns ▸ hmem', ?_, hwhat ▸ (h.used_of_watchIn hpath₀).1⟩
    rw [hplace, ← hwns]
    exact mem_paths hmem'
  · intro path w hw hin
    refine hgrown.tidy.watchAt_isSome.mp (Option.isSome_iff_exists.mpr ⟨w, hgrown.kept ?_⟩)
    show l₂.watchIn path = some w
    rw [hat₂, if_neg, hat₁, hw]
    rw [hat₁, hw]
    exact fun hmem => Bool.eq_false_iff.mp hin hmem.2
  · intro path w hw hin nameSpace hmem
    refine hgrown.there (w.what, nameSpace) (mem_flatMap.mpr ⟨w, hanew.mpr ⟨path, hw, hin⟩, ?_⟩)
    exact mem_map_of_mem (hns₂ ▸ hmem)

/-- **A change of the limit.** -/
theorem limit (h : l.Inv) {value : Limit} (hok : l.LimitOk value) :
    (settle (l.adjustNamespace value)).Inv := by
  have hnew : Relimited l (settle (l.adjustNamespace value)) value := h.relimited hok.readable
  generalize settle (l.adjustNamespace value) = l' at hnew ⊢
  have hns : l'.nameSpace = value := congrArg Prod.fst hnew.limits
  have hused : ∀ what, l'.Used what ↔ l.Used what := fun what =>
    used_of_limits (l := { l with nameSpace := value }) hnew.limits what
  constructor
  · exact hnew.tidy
  · intro path
    simp only [hused, hns]
    constructor
    · intro hpath
      obtain ⟨w, hw⟩ := Option.isSome_iff_exists.mp (hnew.tidy.watchAt_isSome.mpr hpath)
      obtain ⟨-, hplace, hglobal⟩ := hnew.tidy.of_watchAt hw
      rcases hnew.new hw with ⟨hold, happlicable⟩ | ⟨-, hmem, hwhat⟩
      · refine ⟨w.what, (h.used_of_watchIn hold).1, ?_⟩
        by_cases hg : w.global
        · rw [mem_paths_of_global (hglobal ▸ hg), hplace]
          exact watchPath_of_global (hglobal ▸ hg) _
        -- it is for one of the new namespaces
        have hg' : w.global = false := Bool.eq_false_iff.mpr hg
        obtain ⟨nameSpace, hmem, hnorm⟩ := mem_map.mp (hok.kept hold hg' happlicable)
        rw [hplace, ← watchPath_of_norm hnorm]
        exact mem_paths hmem
      · exact ⟨w.what, hwhat, hmem⟩
    rintro ⟨what, hwhat, hpath⟩
    by_cases hglobal : (schemaOf what).global
    · rw [mem_paths_of_global hglobal] at hpath
      obtain ⟨w, hw, hschema⟩ := h.watchIn_of_used hwhat ((mem_paths_of_global hglobal).mpr hpath)
      by_cases hin : inapplicable w value.only
      · -- only an end of the limit cancels it
        have hg : w.global := by
          rw [(h.tidy.of_watchAt hw).2.2, hschema]
          exact hglobal
        cases value with
        | all =>
          rw [hpath, ← watchPath_congr hschema]
          exact hnew.anew hw hin none mem_cons_self
        | one nameSpace | many nameSpaces =>
          simp [inapplicable, Limit.only, hg] at hin
      · exact hnew.stays hw (Bool.eq_false_iff.mpr hin)
    have hg : (schemaOf what).global = false := Bool.eq_false_iff.mpr hglobal
    obtain ⟨nameSpace, hmem, rfl⟩ := (mem_paths_of_not_global hg).mp hpath
    rcases hok.spread what hwhat hg with ⟨path₀, w₀, hw₀, hschema, hin⟩ | hsame
    · rw [← watchPath_congr hschema]
      exact hnew.anew hw₀ hin nameSpace hmem
    obtain ⟨nameSpace', hmem', hnorm⟩ := mem_map.mp (hsame nameSpace hmem)
    rw [← watchPath_of_norm hnorm]
    obtain ⟨w, hw, hschema⟩ := h.watchIn_of_used hwhat (mem_paths hmem')
    by_cases hin : inapplicable w value.only
    · rw [watchPath_of_norm hnorm, ← watchPath_congr hschema]
      exact hnew.anew hw hin nameSpace hmem
    · exact hnew.stays hw (Bool.eq_false_iff.mpr hin)
  · intro path w hw hglobal
    rw [hns]
    rcases hnew.new hw with ⟨hold, happlicable⟩ | ⟨hmem, -⟩
    · exact hok.kept hold hglobal happlicable
    · exact mem_map_of_mem hmem
  · intro what hwhat
    rw [hns]
    have hwhat' := (hused what).mp hwhat
    by_cases hglobal : (schemaOf what).global
    · exact ne_nil_of_mem ((mem_paths_of_global hglobal).mpr rfl)
    · have hne := hok.somewhere what hwhat' (Bool.eq_false_iff.mpr hglobal)
      obtain ⟨nameSpace, hmem⟩ := exists_mem_of_ne_nil _ (Limit.nameSpaces_ne_nil hne)
      exact ne_nil_of_mem (mem_paths hmem)
  have hsnd := congrArg Prod.snd hnew.limits
  obtain ⟨hhand, hreset⟩ := Prod.mk.inj hsnd
  rw [hhand, hreset]
  exact h.reset_le

/-- All the watches are cancelled that still go on. -/
theorem cancelAll_spec {old : List Nat} (heq : cancelAll old l = .ok l')
    (hold : ∀ {i : Nat} {w : CockpitWatch parse}, l.watches[i]? = some w →
      w.state.stopping = false → i ∈ old)
    (h : ∀ {i : Nat} {w : CockpitWatch parse}, l.watches[i]? = some w →
      (w.state.stopping → w.state.Ended) ∧ w.path = watchPath w.what w.nameSpace ∧
        w.global = (schemaOf w.what).global ∧ w.references = none) :
    l'.limits = l.limits ∧ l'.watching = l.watching ∧
      ∀ {i : Nat} {w : CockpitWatch parse}, l'.watches[i]? = some w →
        w.state.stopping ∧ w.state.Ended ∧ w.path = watchPath w.what w.nameSpace ∧
          w.global = (schemaOf w.what).global ∧ w.references = none := by
  induction old generalizing l with
  | nil =>
    obtain rfl := Except.ok.inj heq
    refine ⟨rfl, rfl, fun {i w} hw => ?_⟩
    have hstopping : w.state.stopping := by
      by_contra hgoing
      exact absurd (hold hw (Bool.eq_false_iff.mpr hgoing)) not_mem_nil
    exact ⟨hstopping, (h hw).1 hstopping, (h hw).2⟩
  | cons i old ih =>
    unfold cancelAll at heq
    cases hcancel : l.cancelWatch i with
    | error l₁ =>
      rw [hcancel] at heq
      cases heq
    | ok l₁ =>
      rw [hcancel] at heq
      obtain ⟨hwatch, hwatches, hns, hhand, hreset⟩ := of_watchPart (cancelWatch_ok hcancel)
      dsimp only at hwatch hwatches hns hhand hreset
      have hcases : ∀ {j w}, l₁.watches[j]? = some w →
          ∃ w₀ : CockpitWatch parse, l.watches[j]? = some w₀ ∧
            ((i = j ∧ w = { w₀ with state := w₀.state.cancel.1 }) ∨ (i ≠ j ∧ w = w₀)) := by
        intro j w hw
        rw [hwatches] at hw
        exact modify_cases hw
      obtain ⟨hlimits', hwatching', hall⟩ := @ih l₁ heq
        (fun {j w} hw hgoing => by
          obtain ⟨w₀, hw₀, ⟨-, rfl⟩ | ⟨hij, rfl⟩⟩ := hcases hw
          · rw [(cancel_spec w₀.state).1] at hgoing
            cases hgoing
          · exact (mem_cons.mp (hold hw₀ hgoing)).resolve_left (Ne.symm hij))
        (fun {j w} hw => by
          obtain ⟨w₀, hw₀, ⟨-, rfl⟩ | ⟨-, rfl⟩⟩ := hcases hw
          · exact ⟨fun _ => (cancel_spec w₀.state).2, (h hw₀).2⟩
          · exact h hw₀)
      refine ⟨hlimits'.trans ?_, hwatching'.trans hwatch, hall⟩
      unfold limits
      rw [hns, hhand, hreset]

theorem reset (h : l.Inv) (hok : ∀ w ∈ l.watches, ∀ frames ∈ w.state.cancel.2, Decodes frames) :
    (settle l.resetLoader).Inv := by
  obtain ⟨l', hl'⟩ := resetLoader_total silent hok
  rw [hl']
  unfold resetLoader at hl'
  dsimp only [bind, Except.bind] at hl'
  split at hl'
  · exact nomatch hl'
  rename_i l₁ hcancel
  obtain rfl := Except.ok.inj hl'
  obtain ⟨hlimits, hwatch, hall⟩ := cancelAll_spec hcancel
    (fun {i w} hw hgoing => by
      have hlook := h.tidy.going hw hgoing
      exact mem_map.mpr ⟨⟨w.path, i⟩, mem_lookup_iff.mp hlook, rfl⟩)
    fun hw => ⟨h.tidy.ended hw, h.tidy.path hw, h.tidy.global hw, h.tidy.references hw⟩
  have hreset : l₁.handlesReset = l₁.handles.length := by
    have hreset : l₁.handlesReset = l.handles.length := congrArg (fun part => part.2.2) hlimits
    have hhand : l₁.handles = l.handles := congrArg (fun part => part.2.1) hlimits
    rw [hreset, hhand]
  -- nothing is asked for since
  have hnone : ∀ what, ¬ (settle (.ok ({ l₁ with
      objects := ∅, nameSpace := .all }.invokeCallbacks .reset))).Used what := by
    rintro what ⟨i, handle, ⟨hi, hle, -⟩, -⟩
    have hlt := (List.getElem?_eq_some_iff.mp hi).1
    exact absurd hlt (Nat.not_lt.mpr (hreset ▸ hle))
  constructor
  · constructor
    · intro path i hlook
      simp only [settle, invokeCallbacks, hwatch] at hlook
      simp at hlook
    · intro i w hw hgoing
      rw [(hall hw).1] at hgoing
      exact nomatch hgoing
    · exact fun hw _ => (hall hw).2.1
    · exact fun hw => (hall hw).2.2.1
    · exact fun hw => (hall hw).2.2.2.1
    · exact fun hw => (hall hw).2.2.2.2
  · intro path
    constructor
    · intro hpath
      simp only [settle, invokeCallbacks, hwatch] at hpath
      simp at hpath
    · rintro ⟨what, hwhat, -⟩
      exact absurd hwhat (hnone what)
  · intro path w hw
    simp only [settle, invokeCallbacks, watchIn, watchAt, hwatch] at hw
    simp at hw
  · exact fun what hwhat => absurd hwhat (hnone what)
  · exact Nat.le_of_eq hreset

/-- Something happens to a watch. -/
theorem watchEvent (h : l.Inv) {i : Nat} {event : CockpitKubeWatch.Event}
    (hok : event = .discovered true →
      ∀ w, l.watches[i]? = some w → w.state.stopping → w.state.discovering = false) :
    (settle (l.watchEvent i event)).Inv := by
  unfold Loader.watchEvent
  cases hi : l.watches[i]? with
  | none => exact h
  | some w =>
    dsimp only
    refine congr ?_ (watchPart_passFrames _ _)
    have hended : w.state.stopping → w.state.Ended →
        (CockpitKubeWatch.step parse w.state event).1.Ended :=
      fun hstop hend => ended_step hend fun hevent => hok hevent w hi hstop
    obtain ⟨htidy, hat⟩ := h.tidy.modify hi (step_same w.state event) hended
    have hback : ∀ {path w'},
        watchAt l.watching (l.watches.modify i fun w' =>
          { w' with state := (CockpitKubeWatch.step parse w.state event).1 }) path = some w' →
        ∃ w₀ : CockpitWatch parse, l.watchIn path = some w₀ ∧ w₀.global = w'.global ∧
          w₀.nameSpace = w'.nameSpace := by
      intro path w' hw'
      have hmap := hat path
      rw [hw', Option.map_some] at hmap
      obtain ⟨w₀, hw₀, heq⟩ := Option.map_eq_some_iff.mp hmap.symm
      simp only [Prod.mk.injEq] at heq
      exact ⟨w₀, hw₀, heq.2.1, heq.2.2⟩
    constructor
    · exact htidy
    · exact h.wanted
    · intro path w' hw' hglobal
      obtain ⟨w₀, hw₀, hglobal₀, hns₀⟩ := hback hw'
      rw [← hns₀]
      exact h.limited hw₀ (hglobal₀.trans hglobal)
    · exact h.somewhere
    · exact h.reset_le

/-- **One step.** -/
theorem step (h : l.Inv) {event : Event (implementation parse)}
    (hok : l.StepOk event) : (l.step event).Inv := by
  unfold Loader.step call
  cases event with
  | watch what => exact h.watch hok
  | cancel i => exact h.cancel hok
  | limit value => exact h.limit hok
  | reset => exact h.reset hok
  | handle objects removed kind => exact h.congr (watchPart_handleObjects l objects removed kind)
  | loaded response => exact h.congr (watchPart_loaded l response)
  | timeout =>
    dsimp only
    split
    · exact h.congr (watchPart_handleFlush _)
    · exact h
  | listen early => exact h.congr rfl
  | listening listener =>
    refine h.congr ?_
    unfold listening
    dsimp only [settle]
    split <;> rfl
  | unlisten listener => exact h.congr rfl
  | watchEvent i event => exact h.watchEvent hok

end Inv

/-- **Watches follow their users and the limit**, in all runs of steps that keep to this. -/
theorem follows_run {events : List (Event (implementation parse))}
    (hok : Lib.RunOk Loader.step StepOk {} events) :
    (Lib.run Loader.step ({} : CockpitLoader parse) events).Follows :=
  (run_invariant Inv (fun _ _ h hstep => h.step hstep) .init hok).follows

theorem mem_of_watchIn {w : CockpitWatch parse} (h : l.watchIn path = some w) :
    w ∈ l.watches := by
  obtain ⟨i, -, hi⟩ := Option.bind_eq_some_iff.mp h
  exact mem_of_getElem? hi

/-- Two users share a watch, one of them goes, and then the limit changes. -/
theorem follows_shared :
    (Lib.run Loader.step ({} : CockpitLoader fun _ => none)
      [.watch "pods", .watch "Pod", .cancel 0, .limit (.one "a")]).Follows := by
  have hwatches : ∀ w ∈ (Lib.run Loader.step ({} : CockpitLoader fun _ => none)
      [.watch "pods", .watch "Pod", .cancel 0]).watches,
      inapplicable w (some ["a"]) := by decide
  have hhandles : ∀ handle ∈ (Lib.run Loader.step ({} : CockpitLoader fun _ => none)
      [.watch "pods", .watch "Pod", .cancel 0]).handles,
      schemaOf "pods" = schemaOf handle.what := by decide
  apply follows_run
  refine ⟨fun h => (nomatch h), fun h => (nomatch h), fun handle h => ?_, ?_, trivial⟩
  · have hhandle : handle = ⟨"pods", [0], false⟩ := (Option.some.inj h.1).symm
    refine ⟨1, ⟨"Pod", [0], false⟩, by decide, ⟨by decide, by decide, rfl⟩, ?_⟩
    rw [hhandle]
    decide
  refine ⟨⟨⟨decodes_nil, by decide⟩, by decide, fun link resource h => ?_⟩,
    fun {path w} hw _ hin => ?_, fun what hused _ => .inl ?_, fun _ _ _ h => (nomatch h)⟩
  · exact nomatch h
  · have hcancelled := hwatches w (mem_of_watchIn hw)
    exact nomatch (hcancelled.symm.trans hin)
  obtain ⟨i, handle, ⟨hi, -, -⟩, hschema⟩ := hused
  refine ⟨"/api/v1/pods", ⟨"/api/v1/pods", "pods", false, none, none,
    { path := "/api/v1/pods" }⟩, by rfl, ?_, by decide⟩
  exact (hhandles handle (mem_of_getElem? hi)).trans hschema

/-- A watch that is cancelled, and goes on. -/
theorem not_follows_cancelled :
    ¬ (Lib.run Loader.step ({} : CockpitLoader fun _ => none)
      [.watch "pods", .cancel 0]).Follows := by
  intro h
  have hwatched : ∃ w ∈ (Lib.run Loader.step ({} : CockpitLoader fun _ => none)
      [.watch "pods", .cancel 0]).watches,
      w.state.isOpen ∧ schemaOf w.what = schemaOf "pods" := by decide
  have hhandles : ∀ handle ∈ (Lib.run Loader.step ({} : CockpitLoader fun _ => none)
      [.watch "pods", .cancel 0]).handles, handle.cancelled := by decide
  obtain ⟨i, handle, ⟨hi, -, hcancelled⟩, -⟩ := (h.watched_iff "pods").mp hwatched
  rw [hhandles handle (mem_of_getElem? hi)] at hcancelled
  exact nomatch hcancelled

end Loader

end Cockpit.Kube
