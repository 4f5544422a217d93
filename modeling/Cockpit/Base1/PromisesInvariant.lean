import Cockpit.Lib.Run
import Cockpit.Base1.Promises

namespace Cockpit

open Lib List Option Promises Function Nat

/-!
# Promises: the invariants

* `Promises.QueueInv` — what is registered and not handled is queued, once and in order;
* `Promises.AdoptInv` — what a promise that was resolved with another one waits for;
* `Promises.Grows` — what no step takes back.
-/

variable {V κ : Type}

namespace Promises

/-- What the `process_queue` that runs has not come to yet, if it runs for `p`. -/
def rest (s : Promises V κ) (p : Nat) : List (Registration κ) :=
  match s.drain with
  | some ⟨_, some (.processQueue q rest), _⟩ => if q = p then rest else []
  | _ => []

variable (s : Promises V κ)

/-- What is in `state.pending`. -/
def pendingOf (p : Nat) : List (Registration κ) :=
  match (s.deferreds p).pending with
  | some array => s.arrays array
  | none => []

/-- The deferred that a `process_queue` in the later queue is for. -/
def processId : LaterTask V → Option Nat
  | .processQueue id => some id
  | .notify .. => none

/-- The functions that `later_drain` has taken and not called. -/
def drainQueue : List (LaterTask V) :=
  match s.drain with
  | some drain => drain.queue
  | none => []

/-- The deferreds whose `process_queue` is to come. -/
def queued : List Nat :=
  (s.drainQueue ++ s.laterQueue).filterMap processId

/-- The calls that registrations are due from a promise in this state. -/
def due (state : DeferredState V) (regs : List (Registration κ)) : List (CallbackCall V κ) :=
  regs.filterMap fun reg =>
    match reg.handler state.status with
    | some (.callback k) => some ⟨reg.result, k, state.values⟩
    | _ => none

/-- Whether a promise is resolved or rejected. -/
def settled (p : Nat) : Bool := (s.deferreds p).status.settled

/-! ### The invariants -/

/-- **The queues.** What is registered on a promise and not handled yet is with the
    `process_queue` that runs or in its array, and a `process_queue` is queued once for each
    promise that it is scheduled for. -/
structure QueueInv (s : Promises V κ) : Prop where
  fresh : ∀ p, s.created ≤ p → s.deferreds p = {} ∧ s.registered p = []
  handled : ∀ p, s.handled p ≤ (s.registered p).length
  left : ∀ p, (s.registered p).drop (s.handled p) = s.rest p ++ s.pendingOf p
  called : ∀ p, s.called p = due (s.deferreds p) ((s.registered p).take (s.handled p))
  unsettled : ∀ p, s.settled p = false → s.handled p = 0
  results : ∀ p reg, reg ∈ s.registered p → reg.result < s.created
  awaits : ∀ queue p rest result,
    s.drain = some ⟨queue, some (.processQueue p rest), some result⟩ → result < s.created
  running : ∀ p queue rest awaiting,
    s.drain = some ⟨queue, some (.processQueue p rest), awaiting⟩ → s.settled p
  scheduled : ∀ p, (s.deferreds p).processScheduled →
    s.settled p ∧ (s.deferreds p).pending ≠ none
  nodup : s.queued.Nodup
  queued : ∀ p, p ∈ s.queued ↔ (s.deferreds p).processScheduled
  arrays : ∀ p array, (s.deferreds p).pending = some array →
    array < s.arraysCreated ∧ ∀ q, (s.deferreds q).pending = some array → q = p
  timeout : s.laterQueue ≠ [] → s.laterTimeout
  plain : ∀ p, (s.deferreds p).status = .resolved →
    ∀ q, (s.deferreds p).values.head? ≠ some (.promise q)

/-- A `process_queue` is scheduled for every promise that needs one, except for those in `P`. -/
def Scheduled (P : Nat → Prop) : Prop :=
  ∀ p, ¬ P p → s.settled p → (s.deferreds p).pending ≠ none →
    (s.deferreds p).processScheduled

/-- **Adoption.** A promise that was resolved with another one waits for the registration that
    this made there, and is settled like the other one once that is handled. -/
structure AdoptInv (s : Promises V κ) : Prop where
  adoption : ∀ d q i, s.adopted d = some (q, i) → ∃ c r fn, c < s.closuresCreated ∧
    (s.closures c).state = d ∧ fn = some (.adopt c) ∧
    (s.registered q)[i]? = some ⟨r, fn, fn, fn⟩ ∧
    (i < s.handled q → (s.deferreds d).status = (s.deferreds q).status ∧
      (s.deferreds d).values = (s.deferreds q).values) ∧
    (s.handled q ≤ i → (s.deferreds d).status = .following ∧ (s.closures c).done = false)
  handlers : ∀ q i reg c status, (s.registered q)[i]? = some reg →
    reg.handler status = some (.adopt c) →
    c < s.closuresCreated ∧ s.adopted (s.closures c).state = some (q, i)
  closures : ∀ c c', c < s.closuresCreated → c' < s.closuresCreated →
    (s.closures c).state = (s.closures c').state → c = c'
  owned : ∀ c, c < s.closuresCreated → s.adopted (s.closures c).state ≠ none
  following : ∀ d, (s.deferreds d).status = .following → s.adopted d ≠ none
  untouched : ∀ d, (s.deferreds d).status = .pending → s.adopted d = none

/-- What no step takes back. -/
structure Grows (s s' : Promises V κ) : Prop where
  settled : ∀ p, s.settled p → (s'.deferreds p).status = (s.deferreds p).status ∧
    (s'.deferreds p).values = (s.deferreds p).values
  registered : ∀ p, s.registered p <+: s'.registered p
  handled : ∀ p, s.handled p ≤ s'.handled p
  adopted : ∀ d t, s.adopted d = some t → s'.adopted d = some t
  created : s.created ≤ s'.created

/-- A step that calls no callback. -/
structure Silent (s s' : Promises V κ) : Prop extends Grows s s' where
  drain : s'.drain = s.drain
  called : s'.called = s.called
  handled_eq : s'.handled = s.handled

variable {s t u : Promises V κ}

theorem Grows.refl (s : Promises V κ) : Grows s s :=
  ⟨fun _ _ => ⟨rfl, rfl⟩, fun _ => prefix_rfl, fun _ => le_refl _, fun _ _ h => h,
    le_refl _⟩

variable {p : Nat}

theorem Grows.settled_eq (h : Grows s t) (hp : s.settled p) :
    t.settled p := by
  unfold Promises.settled at hp ⊢
  rw [(h.settled p hp).1]
  exact hp

theorem Grows.trans (h : Grows s t) (h' : Grows t u) : Grows s u where
  settled p hp := by
    obtain ⟨h1, h2⟩ := h.settled p hp
    obtain ⟨h3, h4⟩ := h'.settled p (h.settled_eq hp)
    exact ⟨h3.trans h1, h4.trans h2⟩
  registered p := (h.registered p).trans (h'.registered p)
  handled p := le_trans (h.handled p) (h'.handled p)
  adopted d t hd := h'.adopted d t (h.adopted d t hd)
  created := le_trans h.created h'.created

theorem Silent.refl (s : Promises V κ) : Silent s s := ⟨Grows.refl s, rfl, rfl, rfl⟩

theorem Silent.trans (h : Silent s t) (h' : Silent t u) : Silent s u :=
  ⟨h.toGrows.trans h'.toGrows, h'.drain.trans h.drain, h'.called.trans h.called,
    h'.handled_eq.trans h.handled_eq⟩

/-! ### The operations on the queues -/

theorem rest_congr (h : t.drain = s.drain) : t.rest p = s.rest p := by
  unfold rest
  rw [h]

/-- A new deferred is in the state that the numbers to come are in. -/
theorem QueueInv.newDeferred_eq (h : s.QueueInv) :
    s.newDeferred = { s with created := s.created + 1 } := by
  have hfresh := (h.fresh s.created (le_refl _)).1
  unfold newDeferred set
  rw [← hfresh, update_eq_self]

theorem QueueInv.newDeferred (h : s.QueueInv) : s.newDeferred.QueueInv := by
  rw [h.newDeferred_eq]
  exact { h with
      fresh := fun p hp => h.fresh p (le_of_succ_le hp),
      results := fun p reg hreg => lt_succ_of_lt (h.results p reg hreg),
      awaits := fun queue q rest r hr => lt_succ_of_lt (h.awaits queue q rest r hr) }

/-- Functions that are queued for a notification change nothing else. -/
theorem QueueInv.laterNotify (h : s.QueueInv) (callbacks : Nat) (values : List (PromiseValue V)) :
    (s.laterInvoke (.notify callbacks values)).QueueInv := by
  have hqueue : (s.laterInvoke (.notify callbacks values)).queued = s.queued := by
    unfold Promises.queued laterInvoke
    show ((s.drainQueue ++ (s.laterQueue ++ _)).filterMap processId) = _
    simp [processId]
  exact { h with nodup := hqueue ▸ h.nodup, queued := hqueue ▸ h.queued, timeout := fun _ => rfl }

/-- `schedule_process_queue` for a promise that is settled. -/
theorem QueueInv.schedule (h : s.QueueInv) (hp : s.settled p) :
    (s.scheduleProcessQueue p).QueueInv := by
  unfold scheduleProcessQueue
  split
  · exact h
  rename_i hsched
  simp only [Bool.or_eq_true, not_or, Bool.not_eq_true, isNone_eq_false_iff] at hsched
  obtain ⟨hnot, hpending⟩ := hsched
  set s' := (s.set p { s.deferreds p with processScheduled := true }).laterInvoke
    (.processQueue p) with hs'
  -- only the flag differs, and the queue
  have hstate : ∀ q, (s'.deferreds q).status = (s.deferreds q).status ∧
      (s'.deferreds q).values = (s.deferreds q).values ∧
      (s'.deferreds q).pending = (s.deferreds q).pending := by
    intro q
    simp only [hs', laterInvoke, set, update_apply]
    split
    · rename_i hq
      simp [hq]
    · simp
  have hflag : ∀ q, (s'.deferreds q).processScheduled ↔
      q = p ∨ (s.deferreds q).processScheduled := by
    intro q
    simp only [hs', laterInvoke, set, update_apply]
    split <;> simp_all
  have hqueue : s'.queued = s.queued ++ [p] := by
    unfold Promises.queued
    show ((s.drainQueue ++ (s.laterQueue ++ [LaterTask.processQueue p])).filterMap processId) = _
    simp [processId]
  have hset : ∀ q, s'.settled q = s.settled q := by
    intro q
    unfold Promises.settled
    rw [(hstate q).1]
  have hdue : ∀ q (regs : List (Registration κ)),
      due (s'.deferreds q) regs = due (s.deferreds q) regs := by
    intro q regs
    unfold due
    rw [(hstate q).1, (hstate q).2.1]
  have hpend : ∀ q, s'.pendingOf q = s.pendingOf q := by
    intro q
    unfold pendingOf
    rw [(hstate q).2.2]
    rfl
  have hcreat : p < s.created := by
    by_contra hge
    rw [(h.fresh p (Nat.le_of_not_lt hge)).1] at hpending
    simp at hpending
  constructor
  · intro q hq
    have hq' : s.created ≤ q := hq
    refine ⟨?_, (h.fresh q hq').2⟩
    rw [← (h.fresh q hq').1]
    exact update_of_ne (by omega) _ _
  · exact h.handled
  · intro q
    rw [hpend]
    exact h.left q
  · intro q
    rw [hdue]
    exact h.called q
  · intro q hq
    exact h.unsettled q (hset q ▸ hq)
  · exact h.results
  · exact h.awaits
  · intro q queue rest awaiting hdrain
    rw [hset]
    exact h.running q queue rest awaiting hdrain
  · intro q hq
    rw [hset, (hstate q).2.2]
    rcases (hflag q).mp hq with rfl | hq
    · exact ⟨hp, ne_none_iff_isSome.mpr hpending⟩
    · exact h.scheduled q hq
  · rw [hqueue, nodup_append]
    refine ⟨h.nodup, nodup_singleton p, ?_⟩
    intro q hq r hr heq
    rw [mem_singleton] at hr
    rw [heq, hr] at hq
    rw [(h.queued p).mp hq] at hnot
    simp at hnot
  · intro q
    rw [hqueue, hflag, mem_append, mem_singleton, h.queued]
    exact or_comm
  · intro q array harray
    rw [(hstate q).2.2] at harray
    refine ⟨(h.arrays q array harray).1, ?_⟩
    intro r hr
    rw [(hstate r).2.2] at hr
    exact (h.arrays q array harray).2 r hr
  · exact fun _ => rfl
  intro q hq r
  rw [(hstate q).1] at hq
  rw [(hstate q).2.1]
  exact h.plain q hq r

variable {values : List (PromiseValue V)} {status : PromiseStatus}

/-- A promise that is not settled gets another status; it may need its `process_queue` then. -/
theorem QueueInv.setStatus (h : s.QueueInv) (hp : s.settled p = false)
    (hcreat : p < s.created)
    (hplain : status = .resolved → ∀ q, values.head? ≠ some (.promise q)) :
    (s.set p { s.deferreds p with status := status, values := values }).QueueInv := by
  set s' := s.set p { s.deferreds p with status := status, values := values } with hs'
  have hself : s'.deferreds p = { s.deferreds p with status := status, values := values } :=
    update_self p _ _
  have hother : ∀ q, q ≠ p → s'.deferreds q = s.deferreds q :=
    fun q hq => update_of_ne hq _ _
  have hrest : ∀ q, (s'.deferreds q).pending = (s.deferreds q).pending ∧
      (s'.deferreds q).processScheduled = (s.deferreds q).processScheduled := by
    intro q
    by_cases hq : q = p
    · rw [hq, hself]
      exact ⟨rfl, rfl⟩
    · rw [hother q hq]
      exact ⟨rfl, rfl⟩
  have hset : ∀ q, q ≠ p → s'.settled q = s.settled q := by
    intro q hq
    unfold settled
    rw [hother q hq]
  have hpend : ∀ q, s'.pendingOf q = s.pendingOf q := by
    intro q
    unfold pendingOf
    rw [(hrest q).1]
    rfl
  constructor
  · intro q hq
    have hq' : s.created ≤ q := hq
    rw [hother q (by omega)]
    exact h.fresh q hq'
  · exact h.handled
  · intro q
    rw [hpend]
    exact h.left q
  · intro q
    by_cases hq : q = p
    · -- nothing of it was handled
      have h0 := h.unsettled p hp
      have hc := h.called p
      rw [h0] at hc
      rw [hq]
      show s.called p = due _ ((s.registered p).take (s.handled p))
      rw [hc, h0]
      rfl
    · rw [hother q hq]
      exact h.called q
  · intro q hq
    by_cases hqp : q = p
    · rw [hqp]
      exact h.unsettled p hp
    · exact h.unsettled q (hset q hqp ▸ hq)
  · exact h.results
  · exact h.awaits
  · intro q queue rest awaiting hdrain
    have hq := h.running q queue rest awaiting hdrain
    rw [hset q (by rintro rfl; simp [hp] at hq)]
    exact hq
  · intro q hq
    rw [(hrest q).2] at hq
    have hq' := h.scheduled q hq
    rw [hset q (by rintro rfl; simp [hp] at hq'), (hrest q).1]
    exact hq'
  · exact h.nodup
  · intro q
    rw [(hrest q).2]
    exact h.queued q
  · intro q array harray
    rw [(hrest q).1] at harray
    refine ⟨(h.arrays q array harray).1, ?_⟩
    intro r hr
    rw [(hrest r).1] at hr
    exact (h.arrays q array harray).2 r hr
  · exact h.timeout
  intro q hq r
  by_cases hqp : q = p
  · rw [hqp, hself] at hq ⊢
    exact hplain hq r
  · rw [hother q hqp] at hq ⊢
    exact h.plain q hq r

/-- What `push` leaves of the state of a deferred. -/
theorem push_state (s : Promises V κ) (p : Nat) (reg : Registration κ) (q : Nat) :
    ((s.push p reg).deferreds q).status = (s.deferreds q).status ∧
    ((s.push p reg).deferreds q).values = (s.deferreds q).values ∧
    ((s.push p reg).deferreds q).processScheduled = (s.deferreds q).processScheduled := by
  unfold push
  dsimp only
  split
  · exact ⟨rfl, rfl, rfl⟩
  simp only [set, update_apply]
  split
  · rename_i hq
    rw [hq]
    exact ⟨rfl, rfl, rfl⟩
  · exact ⟨rfl, rfl, rfl⟩

/-- What `push` leaves alone. -/
theorem push_rest (s : Promises V κ) (p : Nat) (reg : Registration κ) :
    (s.push p reg).drain = s.drain ∧ (s.push p reg).laterQueue = s.laterQueue ∧
    (s.push p reg).laterTimeout = s.laterTimeout ∧ (s.push p reg).created = s.created ∧
    (s.push p reg).handled = s.handled ∧ (s.push p reg).called = s.called ∧
    (s.push p reg).adopted = s.adopted ∧ (s.push p reg).closures = s.closures ∧
    (s.push p reg).closuresCreated = s.closuresCreated ∧
    (s.push p reg).registered =
      update s.registered p (s.registered p ++ [reg]) := by
  unfold push
  dsimp only
  split <;> exact ⟨rfl, rfl, rfl, rfl, rfl, rfl, rfl, rfl, rfl, rfl⟩

/-- `push` puts the registration behind the others. -/
theorem QueueInv.pendingOf_push (h : s.QueueInv) (p : Nat) (reg : Registration κ) (q : Nat) :
    (s.push p reg).pendingOf q = if q = p then s.pendingOf p ++ [reg] else s.pendingOf q := by
  cases hp : (s.deferreds p).pending with
  | some array =>
    have hpush : (s.push p reg).deferreds = s.deferreds ∧ (s.push p reg).arrays =
        update s.arrays array (s.arrays array ++ [reg]) := by
      unfold push
      simp only [hp, and_self]
    unfold pendingOf
    rw [hpush.1, hpush.2]
    by_cases hq : q = p
    · simp only [hq, hp, update_self, if_true]
    rw [if_neg hq]
    cases hq' : (s.deferreds q).pending with
    | none => rfl
    | some array' =>
      -- the arrays of two promises are two arrays
      have hne : array' ≠ array := by
        rintro rfl
        exact hq ((h.arrays p array' hp).2 q hq')
      exact update_of_ne hne _ _
  | none =>
    have hpush : (s.push p reg).deferreds = update s.deferreds p
        { s.deferreds p with pending := some s.arraysCreated } ∧
        (s.push p reg).arrays = update s.arrays s.arraysCreated [reg] := by
      unfold push
      simp only [hp, set, and_self]
    unfold pendingOf
    rw [hpush.1, hpush.2]
    by_cases hq : q = p
    · simp only [hq, hp, update_self, nil_append, if_true]
    rw [if_neg hq, update_of_ne hq]
    cases hq' : (s.deferreds q).pending with
    | none => rfl
    | some array' =>
      have := (h.arrays q array' hq').1
      exact update_of_ne (by omega) _ _

/-- The arrays after a `push`. -/
theorem QueueInv.arrays_push (h : s.QueueInv) (p : Nat) (reg : Registration κ) (q array : Nat)
    (hq : ((s.push p reg).deferreds q).pending = some array) :
    array < (s.push p reg).arraysCreated ∧
      ∀ r, ((s.push p reg).deferreds r).pending = some array → r = q := by
  unfold push at hq ⊢
  dsimp only at hq ⊢
  split at hq
  · exact h.arrays q array hq
  simp only [set, update_apply] at hq ⊢
  by_cases hqp : q = p
  · rw [if_pos hqp, some.injEq] at hq
    refine ⟨by omega, ?_⟩
    intro r hr
    by_cases hrp : r = p
    · rw [hrp, hqp]
    · rw [if_neg hrp] at hr
      have := (h.arrays r array hr).1
      omega
  rw [if_neg hqp] at hq
  refine ⟨lt_succ_of_lt (h.arrays q array hq).1, ?_⟩
  intro r hr
  by_cases hrp : r = p
  · rw [if_pos hrp, some.injEq] at hr
    have := (h.arrays q array hq).1
    omega
  · rw [if_neg hrp] at hr
    exact (h.arrays q array hq).2 r hr

variable {reg : Registration κ}

/-- `push` for a promise that exists. -/
theorem QueueInv.push (h : s.QueueInv) (hp : p < s.created)
    (hres : reg.result < s.created) : (s.push p reg).QueueInv := by
  have hpend := h.pendingOf_push p reg
  have harrays := h.arrays_push p reg
  have hstate := s.push_state p reg
  obtain ⟨hdrain, hlater, htime, hcreat, hhand, hcalled, -, -, -, hreg⟩ := s.push_rest p reg
  have hself : ((s.push p reg).deferreds p).pending ≠ none := by
    unfold Promises.push
    dsimp only
    split
    · rename_i h
      simp [h]
    · simp [set]
  have hother : ∀ q, q ≠ p → (s.push p reg).deferreds q = s.deferreds q := by
    intro q hq
    unfold Promises.push
    dsimp only
    split
    · rfl
    · exact update_of_ne hq _ _
  have hset : ∀ q, (s.push p reg).settled q = s.settled q := by
    intro q
    unfold Promises.settled
    rw [(hstate q).1]
  have hqueue : (s.push p reg).queued = s.queued := by
    unfold Promises.queued drainQueue
    rw [hdrain, hlater]
  constructor
  · intro q hq
    rw [hcreat] at hq
    rw [hother q (by omega), hreg, update_of_ne (by omega)]
    exact h.fresh q hq
  · intro q
    rw [hhand, hreg, update_apply]
    have := h.handled q
    split
    · rename_i hq
      rw [List.length_append, ← hq]
      omega
    · exact this
  · intro q
    rw [hpend, rest_congr hdrain, hhand, hreg, update_apply]
    have hl := h.left q
    split
    · rename_i hq
      rw [← hq, drop_append_of_le_length (h.handled q), hl, append_assoc]
    · exact hl
  · intro q
    have hc := h.called q
    have hdue : ∀ regs : List (Registration κ),
        due ((s.push p reg).deferreds q) regs = due (s.deferreds q) regs := by
      intro regs
      unfold due
      rw [(hstate q).1, (hstate q).2.1]
    rw [hcalled, hdue, hhand, hreg, update_apply, hc]
    split
    · rename_i hq
      rw [← hq, take_append_of_le_length (h.handled q)]
    · rfl
  · intro q hq
    rw [hhand]
    exact h.unsettled q (hset q ▸ hq)
  · intro q r hr
    rw [hcreat]
    rw [hreg, update_apply] at hr
    split at hr
    · rcases mem_append.mp hr with hr | hr
      · exact h.results p r hr
      · rw [mem_singleton.mp hr]
        exact hres
    · exact h.results q r hr
  · rw [hdrain, hcreat]
    exact h.awaits
  · intro q queue rest awaiting hq
    rw [hset]
    exact h.running q queue rest awaiting (hdrain ▸ hq)
  · intro q hq
    rw [(hstate q).2.2] at hq
    rw [hset]
    by_cases hqp : q = p
    · rw [hqp] at hq ⊢
      exact ⟨(h.scheduled p hq).1, hself⟩
    · rw [hother q hqp]
      exact h.scheduled q hq
  · rw [hqueue]
    exact h.nodup
  · intro q
    rw [hqueue, (hstate q).2.2]
    exact h.queued q
  · exact harrays
  · rw [hlater, htime]
    exact h.timeout
  intro q hq r
  rw [(hstate q).1] at hq
  rw [(hstate q).2.1]
  exact h.plain q hq r

/-! ### The operations on adoptions -/

/-- `AdoptInv` reads these parts of the state only. -/
theorem AdoptInv.congr (h : s.AdoptInv) (hreg : t.registered = s.registered)
    (hhand : t.handled = s.handled) (hadopt : t.adopted = s.adopted)
    (hclos : t.closures = s.closures) (hn : t.closuresCreated = s.closuresCreated)
    (hstate : ∀ p, (t.deferreds p).status = (s.deferreds p).status ∧
      (t.deferreds p).values = (s.deferreds p).values) : t.AdoptInv := by
  constructor
  · intro d q i hd
    rw [hadopt] at hd
    rw [hn, hclos, hreg, hhand, (hstate d).1, (hstate d).2, (hstate q).1, (hstate q).2]
    exact h.adoption d q i hd
  · intro q i reg c status hi hslot
    rw [hreg] at hi
    rw [hn, hclos, hadopt]
    exact h.handlers q i reg c status hi hslot
  · rw [hn, hclos]
    exact h.closures
  · rw [hn, hclos, hadopt]
    exact h.owned
  · intro d hd
    rw [(hstate d).1] at hd
    rw [hadopt]
    exact h.following d hd
  intro d hd
  rw [(hstate d).1] at hd
  rw [hadopt]
  exact h.untouched d hd

/-- A promise that was not resolved with another one may be settled. -/
theorem AdoptInv.settle (h : s.AdoptInv) (hp : (s.deferreds p).status = .pending)
    (hhand : s.handled p = 0) (hstat : status.settled) :
    (s.set p { s.deferreds p with status := status, values := values }).AdoptInv := by
  have hnone := h.untouched p hp
  have hother : ∀ q, q ≠ p → (s.set p { s.deferreds p with status := status, values := values }
      ).deferreds q = s.deferreds q := fun q hq => update_of_ne hq _ _
  have hself : ((s.set p { s.deferreds p with status := status, values := values }
      ).deferreds p).status = status :=
    by simp [set]
  refine ⟨?_, h.handlers, h.closures, h.owned, ?_, ?_⟩
  · intro d q i hd
    obtain ⟨c, r, fn, hc, hstate, hfn, hreg, hdone, htodo⟩ := h.adoption d q i hd
    have hdp : d ≠ p := by
      rintro rfl
      exact absurd hd (hnone ▸ some_ne_none _ ∘ Eq.symm)
    rw [hother d hdp]
    refine ⟨c, r, fn, hc, hstate, hfn, hreg, ?_, htodo⟩
    intro hi
    have hqp : q ≠ p := by
      rintro rfl
      have hi' : i < s.handled q := hi
      omega
    rw [hother q hqp]
    exact hdone hi
  · intro d hd
    by_cases hdp : d = p
    · rw [hdp, hself] at hd
      rw [hd] at hstat
      simp [PromiseStatus.settled] at hstat
    · rw [hother d hdp] at hd
      exact h.following d hd
  intro d hd
  by_cases hdp : d = p
  · rw [hdp, hself] at hd
    rw [hd] at hstat
    simp [PromiseStatus.settled] at hstat
  · rw [hother d hdp] at hd
    exact h.untouched d hd

/-- A registration of the program. -/
theorem AdoptInv.push (h : s.AdoptInv) (p : Nat)
    (hreg : ∀ status c, reg.handler status ≠ some (.adopt c)) : (s.push p reg).AdoptInv := by
  have hstate := s.push_state p reg
  obtain ⟨-, -, -, -, hhand, -, hadopt, hclos, hn, hregistered⟩ := s.push_rest p reg
  -- what was registered is where it was
  have hold : ∀ (q i : Nat) r, (s.registered q)[i]? = some r →
      ((s.push p reg).registered q)[i]? = some r := by
    intro q i r hi
    rw [hregistered, update_apply]
    split
    · rename_i hq
      rw [← hq, getElem?_append_left (List.getElem?_eq_some_iff.mp hi).1]
      exact hi
    · exact hi
  constructor
  · intro d q i hd
    rw [hadopt] at hd
    obtain ⟨c, r, fn, hc, hcs, hfn, hi, hdone⟩ := h.adoption d q i hd
    rw [hn, hclos, hhand, (hstate d).1, (hstate d).2.1, (hstate q).1, (hstate q).2.1]
    exact ⟨c, r, fn, hc, hcs, hfn, hold q i _ hi, hdone⟩
  · intro q i r c status hi hslot
    rw [hn, hclos, hadopt]
    rw [hregistered, update_apply] at hi
    split at hi
    · rename_i hq
      rcases lt_or_ge i (s.registered p).length with hlt | hge
      · rw [getElem?_append_left hlt] at hi
        rw [hq]
        exact h.handlers p i r c status hi hslot
      rw [getElem?_append_right hge, getElem?_singleton] at hi
      split at hi
      · rw [some.injEq] at hi
        exact absurd (hi ▸ hslot) (hreg status c)
      · exact nomatch hi
    · exact h.handlers q i r c status hi hslot
  · rw [hn, hclos]
    exact h.closures
  · rw [hn, hclos, hadopt]
    exact h.owned
  · intro d hd
    rw [(hstate d).1] at hd
    rw [hadopt]
    exact h.following d hd
  intro d hd
  rw [(hstate d).1] at hd
  rw [hadopt]
  exact h.untouched d hd

/-- A promise is resolved with another one: the first half of `follow`. -/
def startFollow (s : Promises V κ) (p other : Nat) : Promises V κ :=
  { s.set p { s.deferreds p with status := .following } with
    closures := update s.closures s.closuresCreated ⟨p, false⟩
    closuresCreated := s.closuresCreated + 1
    adopted := update s.adopted p (some (other, (s.registered other).length)) }

/-- **A promise follows another one** from the registration on. -/
theorem AdoptInv.follow (h : s.AdoptInv) (hp : (s.deferreds p).status = .pending)
    (hzero : s.handled p = 0) (other : Nat) (hhand : s.handled other ≤ (s.registered other).length)
    (result : Nat) :
    ((s.startFollow p other).push other ⟨result, some (.adopt s.closuresCreated),
      some (.adopt s.closuresCreated), some (.adopt s.closuresCreated)⟩).AdoptInv := by
  set fn : Option (HandlerFn κ) := some (.adopt s.closuresCreated) with hfn
  set t := s.startFollow p other with ht
  have hnone := h.untouched p hp
  have hstate := t.push_state other ⟨result, fn, fn, fn⟩
  obtain ⟨-, -, -, -, hh, -, hadopt, hclos, hn, hreg⟩ :=
    t.push_rest other ⟨result, fn, fn, fn⟩
  have hself : (t.deferreds p).status = .following := by
    simp [ht, startFollow, set]
  have hother : ∀ q, q ≠ p → t.deferreds q = s.deferreds q :=
    fun q hq => update_of_ne hq _ _
  have hadoptedSelf : t.adopted p = some (other, (s.registered other).length) :=
    update_self p _ _
  have hadoptedOther : ∀ d, d ≠ p → t.adopted d = s.adopted d :=
    fun d hd => update_of_ne hd _ _
  have hnew : t.closures s.closuresCreated = ⟨p, false⟩ := update_self _ _ _
  have hclosureOld : ∀ c, c < s.closuresCreated → t.closures c = s.closures c :=
    fun c hc => update_of_ne (by omega) _ _
  -- no closure was made for it before
  have hfresh : ∀ c, c < s.closuresCreated → (s.closures c).state ≠ p := by
    rintro c hc rfl
    exact h.owned c hc hnone
  have hold : ∀ (q i : Nat) r, (s.registered q)[i]? = some r →
      ((t.push other ⟨result, fn, fn, fn⟩).registered q)[i]? = some r := by
    intro q i r hi
    rw [hreg, update_apply]
    split
    · rename_i hq
      rw [← hq]
      show (s.registered q ++ _)[i]? = _
      rw [getElem?_append_left (List.getElem?_eq_some_iff.mp hi).1]
      exact hi
    · exact hi
  constructor
  · intro d q i hd
    rw [hadopt] at hd
    rw [hn, hclos, hh, (hstate d).1, (hstate d).2.1, (hstate q).1, (hstate q).2.1]
    by_cases hdp : d = p
    · -- the new registration
      rw [hdp, hadoptedSelf, some.injEq, Prod.mk.injEq] at hd
      obtain ⟨rfl, rfl⟩ := hd
      refine ⟨s.closuresCreated, result, fn, lt_succ_self _, ?_, hfn, ?_, ?_, ?_⟩
      · rw [hnew, hdp]
      · rw [hreg, update_self]
        show (s.registered other ++ _)[_]? = _
        rw [getElem?_concat_length]
      · intro hi
        exact absurd hi (by show ¬ _ < s.handled other; omega)
      · intro _
        rw [hdp, hself, hnew]
        exact ⟨rfl, rfl⟩
    rw [hadoptedOther d hdp] at hd
    obtain ⟨c, r, fn', hc, hcs, hfn', hi, hdone, htodo⟩ := h.adoption d q i hd
    rw [hother d hdp]
    refine ⟨c, r, fn', lt_succ_of_lt hc, ?_, hfn', hold q i _ hi, ?_, ?_⟩
    · rw [hclosureOld c hc, hcs]
    · intro hi'
      have hqp : q ≠ p := by
        rintro rfl
        have hi'' : i < s.handled q := hi'
        omega
      rw [hother q hqp]
      exact hdone hi'
    · intro hi'
      rw [hclosureOld c hc]
      exact htodo hi'
  · intro q i r c status hi hslot
    rw [hn, hclos, hadopt]
    have hcase : (s.registered q)[i]? = some r ∨
        (q = other ∧ i = (s.registered other).length ∧ r = ⟨result, fn, fn, fn⟩) := by
      rw [hreg, update_apply] at hi
      split at hi
      · rename_i hq
        have hi : (s.registered other ++ [_])[i]? = some r := hi
        rcases lt_or_ge i (s.registered other).length with hlt | hge
        · rw [getElem?_append_left hlt] at hi
          exact .inl (hq ▸ hi)
        rw [getElem?_append_right hge, getElem?_singleton] at hi
        split at hi
        · exact .inr ⟨hq, by omega, (some.inj hi).symm⟩
        · exact nomatch hi
      · exact .inl hi
    rcases hcase with hi | ⟨rfl, rfl, rfl⟩
    · obtain ⟨hc, hq⟩ := h.handlers q i r c status hi hslot
      rw [hclosureOld c hc, hadoptedOther _ (hfresh c hc)]
      exact ⟨lt_succ_of_lt hc, hq⟩
    have hc : c = s.closuresCreated := by
      cases status <;> simp [Registration.handler, hfn] at hslot <;> exact hslot.symm
    rw [hc, hnew]
    exact ⟨lt_succ_self _, hadoptedSelf⟩
  · intro c c' hc hc' heq
    rw [hn] at hc hc'
    rw [hclos] at heq
    rcases Nat.lt_succ_iff_lt_or_eq.mp hc with hc | rfl <;>
      rcases Nat.lt_succ_iff_lt_or_eq.mp hc' with hc' | rfl
    · rw [hclosureOld c hc, hclosureOld c' hc'] at heq
      exact h.closures c c' hc hc' heq
    · rw [hclosureOld c hc, hnew] at heq
      exact absurd heq (hfresh c hc)
    · rw [hclosureOld c' hc', hnew] at heq
      exact absurd heq.symm (hfresh c' hc')
    · rfl
  · intro c hc
    rw [hn] at hc
    rw [hadopt, hclos]
    rcases Nat.lt_succ_iff_lt_or_eq.mp hc with hc | rfl
    · rw [hclosureOld c hc, hadoptedOther _ (hfresh c hc)]
      exact h.owned c hc
    · rw [hnew, hadoptedSelf]
      simp
  · intro d hd
    rw [(hstate d).1] at hd
    rw [hadopt]
    by_cases hdp : d = p
    · rw [hdp, hadoptedSelf]
      simp
    · rw [hother d hdp] at hd
      rw [hadoptedOther d hdp]
      exact h.following d hd
  intro d hd
  rw [(hstate d).1] at hd
  rw [hadopt]
  by_cases hdp : d = p
  · rw [hdp, hself] at hd
    cases hd
  · rw [hother d hdp] at hd
    rw [hadoptedOther d hdp]
    exact h.untouched d hd

end Promises

end Cockpit
