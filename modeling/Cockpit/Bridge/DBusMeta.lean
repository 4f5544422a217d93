import Cockpit.Bridge.DBusCacheMoves

namespace Cockpit

open Lib Relation List AList Out

/-!
# Introspection data comes before what it describes

* `Contents.Announced` — interfaces that are in the cache or in a pending update were sent
  with a `meta`, which no `notify` comes before;
* `DBusCache.run_announced` — so it is after every run.
-/

variable {V : Type}

/-- Whether an update mentions an interface with a property table, maybe an empty one. -/
def Mentions (update : Update V) (iface : CStr) : Prop :=
  ∃ path interfaces properties, update.lookup path = some interfaces ∧
    interfaces.lookup iface = some (some properties)

namespace Contents

/-! ### Changes -/

/-- A step of the contents: an edit, something that is sent, or the end of a batch. -/
inductive Change (c : Contents V) : Contents V → Prop
  | edit {origins : List Nat} {c' : Contents V} (h : Edit origins c c') : Change c c'
  | sent (seq : Nat) : Change c (c.say (.sent seq))
  | ready (seq : Nat) : Change c (c.say (.ready seq))
  | emitUpdate : Change c c.emitUpdate

/-- Any number of them. -/
abbrev Changes : Contents V → Contents V → Prop := ReflTransGen Change

variable {origins : List Nat} {c c' : Contents V}

theorem Edits.changes (h : Edits origins c c') : Changes c c' := by
  induction h with
  | refl => exact .refl
  | tail _ hedit ih => exact ih.tail (.edit hedit)

/-! ### Pending updates -/

/-- What `update` says about an interface: nothing, that it went away, or its properties. -/
def pending (c : Contents V) (path iface : CStr) : Option (Option (Table V)) :=
  ((c.update.getD ∅).lookup path).bind (·.lookup iface)

theorem pending_emitInterfaces (c : Contents V) (path : CStr)
    (f : Table (Option (Table V)) → Table (Option (Table V))) (path' iface' : CStr) :
    (c.emitInterfaces path f).pending path' iface' =
      if path' = path then (f (((c.update.getD ∅).lookup path).getD ∅)).lookup iface'
      else c.pending path' iface' := by
  unfold pending emitInterfaces
  dsimp only [Option.getD_some]
  by_cases hpath : path' = path
  · subst hpath
    rw [lookup_insert, if_pos rfl]
    rfl
  · rw [lookup_insert_ne hpath, if_neg hpath]

/-- The table of a path has what is pending there. -/
theorem lookup_pending (c : Contents V) (path iface : CStr) :
    (((c.update.getD ∅).lookup path).getD ∅).lookup iface = c.pending path iface := by
  unfold pending
  cases (c.update.getD ∅).lookup path with
  | none => exact lookup_empty _
  | some interfaces => rfl

/-- Something is to be said about an interface of a path. -/
theorem pending_insert (c : Contents V) (path iface : CStr)
    (f : Table (Option (Table V)) → Option (Table V)) (path' iface' : CStr) :
    (c.emitInterfaces path fun t => t.insert iface (f t)).pending path' iface' =
      if path' = path ∧ iface' = iface then some (f (((c.update.getD ∅).lookup path).getD ∅))
      else c.pending path' iface' := by
  rw [pending_emitInterfaces]
  by_cases hpath : path' = path
  · subst hpath
    rw [if_pos rfl]
    by_cases hiface : iface' = iface
    · subst hiface
      rw [lookup_insert, if_pos ⟨rfl, rfl⟩]
    · rw [lookup_insert_ne hiface, if_neg fun h => hiface h.2, lookup_pending]
  · rw [if_neg hpath, if_neg fun h => hpath h.1]

theorem pending_emitRemove (c : Contents V) (path iface path' iface' : CStr) :
    (c.emitRemove path iface).pending path' iface' =
      if path' = path ∧ iface' = iface then some none else c.pending path' iface' :=
  c.pending_insert path iface (fun _ => none) path' iface'

/-- The properties of a change: those that are pending already, and the one that changed. -/
def changedProperties (c : Contents V) (path iface : CStr) (property : Option (CStr × V)) :
    Table V :=
  let properties := (c.pending path iface).join.getD ∅
  match property with
  | none => properties
  | some (property, value) => properties.insert property value

theorem pending_emitChange (c : Contents V) (path iface : CStr) (property : Option (CStr × V))
    (path' iface' : CStr) :
    (c.emitChange path iface property).pending path' iface' =
      if path' = path ∧ iface' = iface then some (some (c.changedProperties path iface property))
      else c.pending path' iface' := by
  refine (c.pending_insert path iface _ path' iface').trans ?_
  rw [lookup_pending]
  rfl

@[simp] theorem pending_carry (c : Contents V) (origin : Option Nat) :
    (c.carry origin).pending = c.pending := rfl

@[simp] theorem pending_ensureInterfaces (c : Contents V) (path : CStr) :
    (c.ensureInterfaces path).pending = c.pending := by
  unfold ensureInterfaces
  split <;> rfl

/-- What an emitted update mentions was pending. -/
theorem pending_of_mentions {update : Update V} (h : c.update = some update) {iface : CStr}
    (hment : Mentions update iface) : ∃ path t, c.pending path iface = some (some t) := by
  obtain ⟨path, interfaces, properties, hpath, hiface⟩ := hment
  refine ⟨path, properties, ?_⟩
  rw [pending, h, Option.getD_some, hpath]
  exact hiface

/-! ### Announced interfaces -/

/-- Every `meta` is there once, for the interfaces of `introsent`; these are all that the
    cache and the pending update have, and a `notify` comes after the `meta` of whatever it
    mentions. -/
structure Announced (c : Contents V) : Prop where
  cached : ∀ path iface, (c.properties path iface).isSome → iface ∈ c.introsent
  pending : ∀ path iface properties, c.pending path iface = some (some properties) →
    iface ∈ c.introsent
  sent : ∀ iface ∈ c.introsent, metaInfo iface ∈ c.log
  unsent : ∀ iface, metaInfo iface ∈ c.log → iface ∈ c.introsent
  once : ∀ (j k : Nat) (iface : CStr), c.log[j]? = some (metaInfo iface) →
    c.log[k]? = some (metaInfo iface) → j = k
  first : ∀ (k : Nat) (update : Update V) (carried : List Nat) (iface : CStr),
    c.log[k]? = some (Out.notify update carried) → Mentions update iface →
    ∃ j < k, c.log[j]? = some (metaInfo iface)

variable {α : Type} {k : Nat}

/-- An element of a longer log was there or is the new one. -/
theorem getElem?_snoc_eq {as : List α} {a b : α}
    (h : (as ++ [a])[k]? = some b) : as[k]? = some b ∨ (k = as.length ∧ b = a) := by
  rcases Nat.lt_trichotomy k as.length with hlt | rfl | hgt
  · rw [getElem?_append_left hlt] at h
    exact .inl h
  · rw [getElem?_concat_length, Option.some.injEq] at h
    exact .inr ⟨rfl, h.symm⟩
  · rw [getElem?_eq_none (by simp; omega)] at h
    exact nomatch h

theorem getElem?_snoc_left {as : List α} {a b : α} (h : as[k]? = some b) :
    (as ++ [a])[k]? = some b := by
  rw [getElem?_append_left (List.getElem?_eq_some_iff.mp h).1]
  exact h

namespace Announced

section

variable (h : c.Announced)

include h

/-- Sending something else. -/
theorem say {out : Out V} (hmeta : ∀ iface, out ≠ .metaInfo iface)
    (hnotify : ∀ update carried iface, out = .notify update carried → Mentions update iface →
      iface ∈ c.introsent) : (c.say out).Announced := { h with
  sent iface hi := mem_append_left _ (h.sent iface hi)
  unsent iface hi := by
    rcases mem_append.mp hi with hi | hi
    · exact h.unsent iface hi
    · exact absurd (mem_singleton.mp hi).symm (hmeta iface)
  once j k iface hj hk := by
    rcases getElem?_snoc_eq hj with hj | ⟨-, hj⟩
    · rcases getElem?_snoc_eq hk with hk | ⟨-, hk⟩
      · exact h.once j k iface hj hk
      · exact absurd hk.symm (hmeta iface)
    · exact absurd hj.symm (hmeta iface)
  first k update carried iface hk hmentions := by
    rcases getElem?_snoc_eq hk with hold | ⟨rfl, hnew⟩
    · obtain ⟨j, hj, hlog⟩ := h.first k update carried iface hold hmentions
      exact ⟨j, hj, getElem?_snoc_left hlog⟩
    -- the new one is a notify
    have hmem := h.sent iface (hnotify update carried iface hnew.symm hmentions)
    obtain ⟨j, hj⟩ := mem_iff_getElem?.mp hmem
    exact ⟨j, (List.getElem?_eq_some_iff.mp hj).1, getElem?_snoc_left hj⟩ }

/-- `introsent` and the log stay. -/
theorem of_eq (hlog : c'.log = c.log) (hsent : c'.introsent = c.introsent)
    (hcached : ∀ path iface, (c'.properties path iface).isSome → iface ∈ c.introsent)
    (hpend : ∀ path iface properties, c'.pending path iface = some (some properties) →
      iface ∈ c.introsent) : c'.Announced where
  cached := by rw [hsent]; exact hcached
  pending := by rw [hsent]; exact hpend
  sent := by rw [hsent, hlog]; exact h.sent
  unsent := by rw [hsent, hlog]; exact h.unsent
  once := by rw [hlog]; exact h.once
  first := by rw [hlog]; exact h.first

theorem ensureInterfaces (path : CStr) : (c.ensureInterfaces path).Announced := by
  refine h.of_eq ?_ ?_ ?_ ?_
  · unfold Contents.ensureInterfaces
    split <;> rfl
  · unfold Contents.ensureInterfaces
    split <;> rfl
  · rw [properties_ensureInterfaces]
    exact h.cached
  · rw [pending_ensureInterfaces]
    exact h.pending

/-- After `ensure_properties` has sent the `meta`, the interface may be anywhere. -/
theorem sendMeta {iface : CStr} (hlog : c'.log = c.log)
    (hsent : c'.introsent = c.introsent)
    (hcached : ∀ path i, (c'.properties path i).isSome → i = iface ∨ i ∈ c.introsent)
    (hpend : ∀ path i properties, c'.pending path i = some (some properties) →
      i = iface ∨ i ∈ c.introsent) : (c'.sendMeta iface).Announced := by
  unfold Contents.sendMeta
  rw [hsent]
  split
  · rename_i hmem
    refine h.of_eq hlog hsent (fun path i hi => ?_) (fun path i t ht => ?_)
    · rcases hcached path i hi with rfl | hi
      · exact hmem
      · exact hi
    · rcases hpend path i t ht with rfl | ht
      · exact hmem
      · exact ht
  rename_i hnew
  have hnot : metaInfo iface ∉ c.log := fun hmem => hnew (h.unsent iface hmem)
  have hne : ∀ {k : Nat}, c.log[k]? ≠ some (.metaInfo iface) := fun hk =>
    hnot (mem_of_getElem? hk)
  have hlog' : (({ c' with introsent := iface :: c.introsent } : Contents V).say
      (.metaInfo iface)).log = c.log ++ [.metaInfo iface] := by rw [← hlog]; rfl
  refine ⟨fun path i hi => ?_, fun path i t ht => ?_, fun i hi => ?_, fun i hi => ?_, ?_, ?_⟩
  · exact mem_cons.mpr (hcached path i hi)
  · exact mem_cons.mpr (hpend path i t ht)
  · rw [hlog', mem_append, mem_singleton]
    rcases mem_cons.mp hi with rfl | hi
    · exact .inr rfl
    · exact .inl (h.sent i hi)
  · rw [hlog', mem_append, mem_singleton] at hi
    rcases hi with hi | hi
    · exact mem_cons_of_mem _ (h.unsent i hi)
    · rw [metaInfo.injEq] at hi
      exact hi ▸ mem_cons_self
  · intro j k i hj hk
    rw [hlog'] at hj hk
    rcases getElem?_snoc_eq hj with hj | ⟨hj, hi⟩
    · rcases getElem?_snoc_eq hk with hk | ⟨-, hk⟩
      · exact h.once j k i hj hk
      · rw [hk] at hj
        exact absurd hj hne
    rcases getElem?_snoc_eq hk with hk | ⟨hk, -⟩
    · rw [hi] at hk
      exact absurd hk hne
    · exact hj.trans hk.symm
  intro k update carried i hk hment
  rw [hlog'] at hk ⊢
  rcases getElem?_snoc_eq hk with hk | ⟨-, hk⟩
  · obtain ⟨j, hj, hfound⟩ := h.first k update carried i hk hment
    exact ⟨j, hj, getElem?_snoc_left hfound⟩
  · exact nomatch hk

theorem ensureProperties (path iface : CStr) :
    (c.ensureProperties path iface).Announced := by
  have hc := h.ensureInterfaces path
  unfold Contents.ensureProperties
  dsimp only
  generalize c.ensureInterfaces path = c at hc ⊢
  split
  · exact hc.sendMeta rfl rfl (fun p i hi => .inr (hc.cached p i hi))
      fun p i t ht => .inr (hc.pending p i t ht)
  refine hc.sendMeta rfl rfl (fun p i hi => ?_) fun p i t ht => ?_
  · rw [properties_emitChange, properties_setProperties] at hi
    split at hi
    · rename_i heq
      exact .inl heq.2
    · exact .inr (hc.cached p i hi)
  rw [pending_emitChange] at ht
  split at ht
  · rename_i heq
    exact .inl heq.2
  · exact .inr (hc.pending p i t ht)

/-- **An edit keeps everything announced.** -/
theorem edit (hedit : Edit origins c c') : c'.Announced := by
  cases hedit with
  | ensureInterfaces path => exact h.ensureInterfaces path
  | ensureProperties path iface => exact h.ensureProperties path iface
  | @value path iface properties hsome property origin horigin =>
    -- the interface is there, so it was announced
    have hiface : iface ∈ c.introsent := h.cached path iface (by rw [hsome]; rfl)
    refine h.of_eq rfl rfl (fun p i hi => ?_) fun p i t ht => ?_
    · rw [properties_carry, properties_emitChange, properties_setProperties] at hi
      split at hi
      · rename_i heq
        exact heq.2 ▸ hiface
      · exact h.cached p i hi
    rw [pending_carry, pending_emitChange] at ht
    split at ht
    · rename_i heq
      exact heq.2 ▸ hiface
    · exact h.pending p i t ht
  | @change path iface hsome =>
    refine h.of_eq rfl rfl h.cached fun p i t ht => ?_
    rw [pending_emitChange] at ht
    split at ht
    · rename_i heq
      exact heq.2 ▸ h.cached path iface hsome
    · exact h.pending p i t ht
  | removed path iface =>
    have hprops := properties_processRemoved path c iface
    revert hprops
    unfold processRemoved
    split
    · exact fun _ => h
    split
    · exact fun _ => h
    intro hprops
    refine h.of_eq rfl rfl (fun p i hi => ?_) fun p i t ht => ?_
    · rw [hprops] at hi
      split at hi
      · exact nomatch hi
      · exact h.cached p i hi
    rw [pending_emitRemove] at ht
    split at ht
    · exact nomatch ht
    · exact h.pending p i t ht
  | dangle dangling => exact h.of_eq rfl rfl h.cached h.pending

theorem emitUpdate : c.emitUpdate.Announced := by
  unfold Contents.emitUpdate
  split
  · exact h.of_eq rfl rfl h.cached h.pending
  rename_i update hupdate
  have hempty : ({ c with update := none, carried := [] } : Contents V).Announced := by
    refine h.of_eq rfl rfl h.cached fun path iface t ht => ?_
    simp [Contents.pending] at ht
  refine hempty.say (by simp) fun u k iface heq hment => ?_
  rw [Out.notify.injEq] at heq
  rw [← heq.1] at hment
  obtain ⟨path, t, ht⟩ := pending_of_mentions hupdate hment
  exact h.pending path iface t ht

/-- **Whatever happens to the contents keeps everything announced.** -/
theorem changes (hchanges : Changes c c') : c'.Announced := by
  induction hchanges with
  | refl => exact h
  | tail _ hchange ih =>
    cases hchange with
    | edit hedit => exact ih.edit hedit
    | sent seq | ready seq => exact ih.say (by simp) (by simp)
    | emitUpdate => exact ih.emitUpdate

end

theorem empty : (Contents.empty : Contents V).Announced where
  cached path iface h := by simp [Contents.properties, interfaces, Contents.empty] at h
  pending path iface t h := by simp [Contents.pending, Contents.empty] at h
  sent := by simp [Contents.empty]
  unsent := by simp [Contents.empty]
  once := by simp [Contents.empty]
  first := by simp [Contents.empty]

end Announced

end Contents

namespace DBusCache

open Contents

variable {room : Room V} {scope signals readies : List Nat} {s : DBusCache V}

/-! ### The changes of a step -/

theorem contents_introspectNext (s : DBusCache V) : s.introspectNext.contents = s.contents := by
  unfold introspectNext
  split <;> [rfl; (split <;> rfl)]

variable {a b : DBusCache V × List Nat}

theorem Move.changes (h : Move room scope signals readies a b) :
    Changes a.1.contents b.1.contents := by
  cases h with
  | create h | ref h => exact .refl
  | introspect hi h hr =>
    show Changes _ (introspectNext _).contents
    rw [contents_introspectNext]
  | call h | push ht hb h hr => exact .refl
  | edit hf hne => exact hf.changes
  | @ready s ex seq h => exact .single (.ready seq)
  | learn introspected managed => exact .refl
  | next =>
    show Changes _ (introspectNext _).contents
    rw [contents_introspectNext]
  | perm h => exact .refl

theorem Moves.changes (h : Moves room scope signals readies a b) :
    Changes a.1.contents b.1.contents := by
  induction h with
  | refl => exact .refl
  | tail _ hmove ih => exact ih.trans hmove.changes

section

variable [Variant V]

theorem changes_barrierFunc (f : BarrierFunc V) :
    Changes s.contents (s.barrierFunc f).contents := by
  by_cases hwait : ∃ seq, f = .waitComplete seq
  · obtain ⟨seq, rfl⟩ := hwait
    exact .single (.sent seq)
  · have hmoves : Moves anyRoom [] f.signals [] (s, []) (s.barrierFunc f, []) :=
      moves_barrierFunc (fun seq heq => hwait ⟨seq, heq⟩) (fun _ => trivial) (List.Subset.refl _)
    exact hmoves.changes

theorem changes_exec (t : DBusTask V) (stale : UInt32) :
    Changes s.contents (s.exec stale t).contents := by
  by_cases hplain : t.plain
  · have hmoves : Moves anyRoom t.borrows t.signals t.readies (s, t.held) (s.exec stale t, []) :=
      moves_exec hplain fun _ => trivial
    exact hmoves.changes
  cases t with
  | batchUnref b =>
    show Changes _ (s.batchUnref b).contents
    unfold batchUnref
    split
    · split <;> exact .refl
    · exact .refl
  | batchProgress =>
    show Changes _ s.batchProgress.contents
    unfold batchProgress
    split
    · exact .refl
    · split
      · exact .refl
      · exact .single .emitUpdate
  | barrierProgress =>
    show Changes _ s.barrierProgress.contents
    unfold barrierProgress
    split <;> exact .refl
  | barrierRounds =>
    show Changes _ s.barrierRounds.contents
    unfold barrierRounds
    split <;> exact .refl
  | barrierLoop batch =>
    show Changes _ (s.barrierLoop batch stale).contents
    unfold barrierLoop
    split
    · exact .refl
    split
    · exact .refl
    · rename_i barrier rest _ _
      exact changes_barrierFunc (s := ({ s with barriers := rest } : DBusCache V).push
        [.barrierLoop batch]) barrier.callback
  | barrier f =>
    show Changes _ (s.barrier f).contents
    unfold barrier
    split
    · exact .refl
    · exact changes_barrierFunc f
  | _ => exact absurd rfl hplain

theorem changes_handle (s : DBusCache V) (e : DBusEvent V) :
    Changes s.contents (s.handle e).contents := by
  obtain ⟨s', scope, signals, hstart, hmoves⟩ := @moves_handle V anyRoom s _ e fun _ => trivial
  have hsame : s'.contents = s.contents := by cases hstart <;> rfl
  rw [← hsame]
  exact hmoves.changes

/-- **The changes of a step.** -/
theorem changes_step (s : DBusCache V) (e : DBusEvent V) :
    Changes s.contents (s.step e).contents := by
  unfold step
  split
  · exact changes_handle s _
  · rename_i t ts stale _
    exact changes_exec (s := { s with tasks := ts }) t stale
  · exact .refl

/-- **Introspection data comes first.** After every run of a cache, a `notify` that mentions an
    interface comes after the `meta` of that interface; no interface has two of these; and the
    interfaces in the cache and in the pending update are in `introsent`. -/
theorem run_announced (introspected : List CStr) (es : List (DBusEvent V)) :
    (run step (new introspected) es).contents.Announced := by
  have hnew : (new introspected : DBusCache V).contents.Announced := Announced.empty
  have hok : ∀ s : DBusCache V, RunOk step (fun _ _ => True) s es := by
    induction es with
    | nil => exact fun _ => trivial
    | cons e es ih => exact fun s => ⟨trivial, ih _⟩
  exact run_invariant (fun s => s.contents.Announced)
    (fun s e h _ => h.changes (changes_step s e)) hnew (hok _)

end

end DBusCache

end Cockpit
