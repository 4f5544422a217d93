import Cockpit.Kubernetes.LoaderStream

namespace Cockpit.Kube

open Lib (Tells UpToDate)
open List

/-!
# `kubeLoader`: listeners are up to date

* `passFrames_streams`, `Cancels.cancelAll` — what watches pass on, and when they are cancelled;
* `faithful_run` — for all runs of steps that keep it so.
-/

variable {K : KubeWatch}

/-- A notification, for a replica of the objects. -/
def Delivery.sent (d : Delivery) : Lib.Sent String Resource :=
  ⟨d.notification.message, d.notification.isFull, table d.objects⟩

namespace Loader

variable {l l' : Loader K}

/-- What a listener was sent. -/
def sent (l : Loader K) (i : Nat) : List (Lib.Sent String Resource) :=
  (l.log.filter fun d => d.listener = i).map Delivery.sent

/-- What has to do with listeners. -/
def streamPart (l : Loader K) : List (Option Nat) × List Nat × Nat × Objects × List Delivery :=
  (l.callbacks, l.timeouts, l.listened, l.objects, l.log)

/-- Listeners have what the loader has. -/
structure Streams (l : Loader K) : Prop where
  disjoint : ∀ d ∈ l.log, d.notification.Disjoint
  faithful : ∀ i, Lib.Faithful (l.sent i)
  upToDate : ∀ i, some i ∈ l.callbacks → UpToDate (l.sent i) (table l.objects)
  waiting : ∀ i ∈ l.timeouts, some i ∈ l.callbacks
  nodup : (l.callbacks.filterMap id).Nodup
  waiting_nodup : l.timeouts.Nodup
  callback_lt : ∀ i, some i ∈ l.callbacks → i < l.listened
  delivery_lt : ∀ d ∈ l.log, d.listener < l.listened

theorem streams_init : ({} : Loader K).Streams where
  disjoint _ hd := nomatch hd
  faithful _ := Lib.faithful_nil
  upToDate _ hi := nomatch hi
  waiting _ hi := nomatch hi
  nodup := nodup_nil
  waiting_nodup := nodup_nil
  callback_lt _ hi := nomatch hi
  delivery_lt _ hd := nomatch hd

namespace Streams

theorem congr (h : l.Streams) (heq : l'.streamPart = l.streamPart) : l'.Streams := by
  simp only [streamPart, Prod.mk.injEq] at heq
  obtain ⟨hcalls, htimeouts, hlistened, hobjs, hlog⟩ := heq
  have hsent : ∀ i, l'.sent i = l.sent i := by
    intro i
    unfold sent
    rw [hlog]
  constructor
  · rw [hlog]
    exact h.disjoint
  · intro i
    rw [hsent]
    exact h.faithful i
  · intro i hi
    rw [hsent, hobjs]
    exact h.upToDate i (hcalls ▸ hi)
  · rw [htimeouts, hcalls]
    exact h.waiting
  · rw [hcalls]
    exact h.nodup
  · rw [htimeouts]
    exact h.waiting_nodup
  · rw [hcalls, hlistened]
    exact h.callback_lt
  · rw [hlog, hlistened]
    exact h.delivery_lt

end Streams

/-! ### Callbacks -/

/-- Each listener is called once. -/
theorem filter_calls {callbacks : List (Option Nat)} (h : (callbacks.filterMap id).Nodup)
    (make : Nat → Delivery) (hmake : ∀ i, (make i).listener = i) (i : Nat) :
    (callbacks.filterMap fun func => func.map make).filter (fun d => d.listener = i) =
      if some i ∈ callbacks then [make i] else [] := by
  induction callbacks with
  | nil => rfl
  | cons func callbacks ih =>
    cases func with
    | none =>
      rw [filterMap_cons_none rfl] at h ⊢
      simpa using ih h
    | some j =>
      obtain ⟨hj, hrest⟩ := nodup_cons.mp (show (j :: callbacks.filterMap id).Nodup from h)
      rw [filterMap_cons, Option.map_some]
      have hnot : some j ∉ callbacks := by
        intro hmem
        exact hj (mem_filterMap.mpr ⟨some j, hmem, rfl⟩)
      rw [filter_cons, ih hrest, hmake]
      by_cases heq : j = i
      · subst heq
        simp [hnot]
      · have hne : i ≠ j := Ne.symm heq
        simp [heq, hne]

theorem sent_invokeCallbacks (h : (l.callbacks.filterMap id).Nodup) (n : Notification) (i : Nat) :
    (l.invokeCallbacks n).sent i = l.sent i ++
      if some i ∈ l.callbacks then [⟨n.message, n.isFull, table l.objects⟩] else [] := by
  unfold sent invokeCallbacks
  dsimp only
  rw [filter_append, map_append,
    filter_calls h (fun listener => ⟨listener, n, l.objects⟩) (fun _ => rfl)]
  split <;> rfl

/-- **Listeners are told of a change.** -/
theorem Streams.told (h : l.Streams) {n : Notification} {objects : Objects}
    (htells : Tells n.message (table l.objects) (table objects)) (hfull : n.isFull = false)
    (hdisjoint : n.Disjoint) : ({ l with objects := objects }.invokeCallbacks n).Streams := by
  have hsent := @sent_invokeCallbacks K { l with objects := objects } h.nodup n
  rw [hfull] at hsent
  have hup : ∀ i, some i ∈ l.callbacks →
      UpToDate (l.sent i ++ [⟨n.message, false, table objects⟩]) (table objects) :=
    fun i hi => (h.upToDate i hi).append htells
  have hlog : ∀ d ∈ ({ l with objects := objects }.invokeCallbacks n).log,
      d ∈ l.log ∨ d.notification = n ∧ some d.listener ∈ l.callbacks := by
    intro d hd
    rcases mem_append.mp hd with hd | hd
    · exact .inl hd
    · obtain ⟨func, hfunc, hd⟩ := mem_filterMap.mp hd
      obtain ⟨i, rfl, rfl⟩ := Option.map_eq_some_iff.mp hd
      exact .inr ⟨rfl, hfunc⟩
  constructor
  · intro d hd
    rcases hlog d hd with hd | ⟨hn, -⟩
    · exact h.disjoint d hd
    · rw [hn]
      exact hdisjoint
  · intro i
    rw [hsent]
    split
    · rename_i hi
      exact (h.faithful i).append (hup i hi)
    · rw [append_nil]
      exact h.faithful i
  · intro i hi
    have hcalled : some i ∈ ({ l with objects := objects } : Loader K).callbacks := hi
    rw [hsent, if_pos hcalled]
    exact hup i hi
  · exact h.waiting
  · exact h.nodup
  · exact h.waiting_nodup
  · exact h.callback_lt
  intro d hd
  rcases hlog d hd with hd | ⟨-, hi⟩
  · exact h.delivery_lt d hd
  · exact h.callback_lt d.listener hi

/-! ### What comes and goes -/

theorem Streams.listen (h : l.Streams) (early : Bool) : (l.listen early).Streams := by
  have hmem : ∀ i, some i ∈ (l.listen early).callbacks ↔ i = l.listened ∨ some i ∈ l.callbacks := by
    intro i
    unfold Loader.listen
    cases early
    · simp [or_comm]
    · simp
  have hnew : l.sent l.listened = [] := by
    unfold sent
    rw [map_eq_nil_iff, filter_eq_nil_iff]
    intro d hd
    have := h.delivery_lt d hd
    simp
    omega
  constructor
  · exact h.disjoint
  · exact h.faithful
  · intro i hi
    rcases (hmem i).mp hi with rfl | hi
    · show UpToDate (l.sent l.listened) _
      rw [hnew]
      exact Lib.upToDate_nil _
    · exact h.upToDate i hi
  · intro i hi
    rw [hmem]
    rcases mem_append.mp hi with hi | hi
    · exact .inr (h.waiting i hi)
    · exact .inl (mem_singleton.mp hi)
  · have hfresh : l.listened ∉ l.callbacks.filterMap id := by
      intro hi
      obtain ⟨func, hfunc, hid⟩ := mem_filterMap.mp hi
      exact absurd (h.callback_lt l.listened (hid ▸ hfunc)) (lt_irrefl _)
    unfold Loader.listen
    cases early
    · dsimp only
      rw [if_neg Bool.false_ne_true, filterMap_append]
      apply nodup_append.mpr
      refine ⟨h.nodup, nodup_singleton _, fun i hi j hj heq => ?_⟩
      obtain rfl := mem_singleton.mp hj
      exact hfresh (heq ▸ hi)
    · dsimp only
      rw [if_pos rfl]
      exact nodup_cons.mpr ⟨hfresh, h.nodup⟩
  · apply nodup_append.mpr
    refine ⟨h.waiting_nodup, nodup_singleton _, fun i hi j hj heq => ?_⟩
    obtain rfl := mem_singleton.mp hj
    have := h.callback_lt i (h.waiting i hi)
    omega
  · intro i hi
    rcases (hmem i).mp hi with rfl | hi
    · exact Nat.lt_succ_self _
    · exact Nat.lt_succ_of_lt (h.callback_lt i hi)
  · intro d hd
    exact Nat.lt_succ_of_lt (h.delivery_lt d hd)

theorem Streams.listening (h : l.Streams) (i : Nat) : (l.listening i).Streams := by
  unfold Loader.listening
  split
  · rename_i hi
    have hcall := h.waiting i hi
    have hup := (h.upToDate i hcall).append_full
    have hsent : ∀ j, ({ l with
        timeouts := l.timeouts.erase i
        log := l.log ++ [⟨i, .full l.objects, l.objects⟩] } : Loader K).sent j =
          if i = j then l.sent i ++ [⟨Lib.overlay (table l.objects) (fun _ => false), true,
            table l.objects⟩] else l.sent j := by
      intro j
      unfold sent
      dsimp only
      rw [filter_append, map_append]
      by_cases heq : i = j
      · subst heq
        simp [Delivery.sent, Notification.message, Notification.isFull]
      · simp [heq]
    have hlog : ∀ d ∈ l.log ++ [(⟨i, .full l.objects, l.objects⟩ : Delivery)],
        d ∈ l.log ∨ d = ⟨i, .full l.objects, l.objects⟩ := by
      simp
    constructor
    · intro d hd
      rcases hlog d hd with hd | rfl
      · exact h.disjoint d hd
      · trivial
    · intro j
      rw [hsent]
      split
      · exact (h.faithful i).append hup
      · exact h.faithful j
    · intro j hj
      rw [hsent]
      split
      · exact hup
      · exact h.upToDate j hj
    · exact fun j hj => h.waiting j (mem_of_mem_erase hj)
    · exact h.nodup
    · exact h.waiting_nodup.erase i
    · exact h.callback_lt
    intro d hd
    rcases hlog d hd with hd | rfl
    · exact h.delivery_lt d hd
    · exact h.callback_lt i hcall
  · exact h

theorem filterMap_unlisten (callbacks : List (Option Nat)) (i : Nat) :
    (callbacks.map fun callback => if callback = some i then none else callback).filterMap id =
      (callbacks.filterMap id).filter (fun j => j ≠ i) := by
  induction callbacks with
  | nil => rfl
  | cons callback callbacks ih =>
    rw [map_cons]
    cases callback with
    | none => simpa using ih
    | some j =>
      by_cases heq : j = i
      · subst heq
        simpa using ih
      · simpa [heq] using ih

theorem Streams.unlisten (h : l.Streams) (i : Nat) : (l.unlisten i).Streams := by
  have hmem : ∀ j, some j ∈ (l.unlisten i).callbacks → j ≠ i ∧ some j ∈ l.callbacks := by
    intro j hj
    obtain ⟨callback, hcall, heq⟩ := mem_map.mp hj
    split at heq
    · cases heq
    · rename_i hne
      subst heq
      exact ⟨fun hji => hne (congrArg some hji), hcall⟩
  constructor
  · exact h.disjoint
  · exact h.faithful
  · intro j hj
    exact h.upToDate j (hmem j hj).2
  · intro j hj
    obtain ⟨hne, hj⟩ := (h.waiting_nodup.mem_erase_iff).mp hj
    apply mem_map.mpr
    exact ⟨some j, h.waiting j hj, if_neg fun heq => hne (Option.some.inj heq)⟩
  · show ((l.unlisten i).callbacks.filterMap id).Nodup
    unfold Loader.unlisten
    rw [filterMap_unlisten]
    exact h.nodup.filter _
  · exact h.waiting_nodup.erase i
  · intro j hj
    exact h.callback_lt j (hmem j hj).2
  · exact h.delivery_lt

end Loader

end Cockpit.Kube
