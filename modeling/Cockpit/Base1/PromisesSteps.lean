import Cockpit.Base1.PromisesInvariant

namespace Cockpit

open Lib List Option Promises Function Nat

/-!
# Promises: what each step keeps

* `Promises.Inv.invoke` — a call of the program;
* `Promises.Inv.next` and `Promises.Inv.callbackReturns` — `later_drain`;
* `Promises.Inv.step` — any step.
-/

variable {V κ : Type}

namespace Promises

variable {s t u : Promises V κ} {p : Nat} {values : List (PromiseValue V)} {status : PromiseStatus}
    {reg : Registration κ}

/-! ### The calls of a program -/

/-- What holds between the steps of the program and of `later_drain`. -/
structure Inv (s : Promises V κ) : Prop where
  queue : s.QueueInv
  adopt : s.AdoptInv
  scheduled : s.Scheduled (fun _ => False)

/-- What `schedule_process_queue` leaves of the state of a deferred. -/
theorem schedule_state (s : Promises V κ) (p q : Nat) :
    ((s.scheduleProcessQueue p).deferreds q).status = (s.deferreds q).status ∧
    ((s.scheduleProcessQueue p).deferreds q).values = (s.deferreds q).values ∧
    ((s.scheduleProcessQueue p).deferreds q).pending = (s.deferreds q).pending := by
  unfold scheduleProcessQueue
  split
  · exact ⟨rfl, rfl, rfl⟩
  simp only [laterInvoke, set, update_apply]
  split
  · rename_i hq
    rw [hq]
    exact ⟨rfl, rfl, rfl⟩
  · exact ⟨rfl, rfl, rfl⟩

/-- What `schedule_process_queue` leaves alone. -/
theorem schedule_rest (s : Promises V κ) (p : Nat) :
    (s.scheduleProcessQueue p).drain = s.drain ∧
    (s.scheduleProcessQueue p).created = s.created ∧
    (s.scheduleProcessQueue p).handled = s.handled ∧
    (s.scheduleProcessQueue p).called = s.called ∧
    (s.scheduleProcessQueue p).adopted = s.adopted ∧
    (s.scheduleProcessQueue p).closures = s.closures ∧
    (s.scheduleProcessQueue p).closuresCreated = s.closuresCreated ∧
    (s.scheduleProcessQueue p).registered = s.registered := by
  unfold scheduleProcessQueue
  split <;> exact ⟨rfl, rfl, rfl, rfl, rfl, rfl, rfl, rfl⟩

theorem AdoptInv.schedule (h : s.AdoptInv) (p : Nat) : (s.scheduleProcessQueue p).AdoptInv := by
  obtain ⟨-, -, hhand, -, hadopt, hclos, hn, hreg⟩ := s.schedule_rest p
  apply h.congr hreg hhand hadopt hclos hn
  intro q
  exact ⟨(s.schedule_state p q).1, (s.schedule_state p q).2.1⟩

theorem silent_schedule (s : Promises V κ) (p : Nat) : Silent s (s.scheduleProcessQueue p) := by
  obtain ⟨hdrain, hcreat, hhand, hcalled, hadopt, -, -, hreg⟩ := s.schedule_rest p
  refine ⟨⟨?_, ?_, ?_, ?_, ?_⟩, hdrain, hcalled, hhand⟩
  · intro q _
    exact ⟨(s.schedule_state p q).1, (s.schedule_state p q).2.1⟩
  · intro q
    rw [hreg]
  · intro q
    rw [hhand]
  · intro d t hd
    rw [hadopt]
    exact hd
  · rw [hcreat]

/-- After `schedule_process_queue` the promise is not an exception any more. -/
theorem Scheduled.schedule (h : s.Scheduled (· = p)) :
    (s.scheduleProcessQueue p).Scheduled (fun _ => False) := by
  intro q _ hq hpend
  unfold scheduleProcessQueue at hq hpend ⊢
  split at hq
  · rename_i hsched
    rw [if_pos hsched] at hpend ⊢
    by_cases hqp : q = p
    · rw [hqp] at hpend ⊢
      rw [Bool.or_eq_true, isNone_iff_eq_none] at hsched
      exact hsched.resolve_right hpend
    · exact h q hqp hq hpend
  rename_i hsched
  rw [if_neg hsched] at hpend ⊢
  simp only [settled, laterInvoke, set, update_apply] at hq hpend ⊢
  by_cases hqp : q = p
  · rw [if_pos hqp]
  · rw [if_neg hqp] at hq hpend ⊢
    exact h q hqp hq hpend

theorem silent_set (s : Promises V κ) (hp : s.settled p = false)
    (status : PromiseStatus) (values : List (PromiseValue V)) :
    Silent s (s.set p { s.deferreds p with status := status, values := values }) := by
  refine ⟨⟨?_, fun _ => prefix_rfl, fun _ => le_refl _, fun _ _ h => h,
    le_refl _⟩, rfl, rfl, rfl⟩
  intro q hq
  have hqp : q ≠ p := by
    rintro rfl
    rw [hp] at hq
    cases hq
  simp only [set, update_of_ne hqp, and_self]

/-- A promise of status 0 is not settled, and nothing was handled. -/
theorem settled_eq_false (hp : (s.deferreds p).status = .pending) :
    s.settled p = false := by
  unfold settled
  rw [hp]
  rfl

/-- **Settling a promise** of status 0. -/
theorem Inv.settle (h : s.Inv) (hcreat : p < s.created)
    (hp : (s.deferreds p).status = .pending)
    (hstat : status.settled)
    (hplain : status = .resolved → ∀ q, values.head? ≠ some (.promise q)) :
    (s.settle p status values).Inv ∧ Silent s (s.settle p status values) := by
  have hunset := settled_eq_false hp
  set s' := s.set p { s.deferreds p with status := status, values := values } with hs'
  have hqueue : s'.QueueInv := h.queue.setStatus hunset hcreat hplain
  have hadopt : s'.AdoptInv := h.adopt.settle hp (h.queue.unsettled p hunset) hstat
  have hset : s'.settled p := by
    simp [hs', settled, set, hstat]
  have hsched : s'.Scheduled (· = p) := by
    intro q hqp hq hpend
    simp only [hs', settled, set, update_of_ne hqp] at hq hpend ⊢
    exact h.scheduled q not_false hq hpend
  exact ⟨⟨hqueue.schedule hset, hadopt.schedule p, hsched.schedule⟩,
    (silent_set s hunset status values).trans (silent_schedule s' p)⟩

theorem silent_push (s : Promises V κ) (p : Nat) (reg : Registration κ) :
    Silent s (s.push p reg) := by
  obtain ⟨hdrain, -, -, hcreat, hhand, hcalled, hadopt, -, -, hreg⟩ := s.push_rest p reg
  refine ⟨⟨?_, ?_, ?_, ?_, ?_⟩, hdrain, hcalled, hhand⟩
  · intro q _
    exact ⟨(s.push_state p reg q).1, (s.push_state p reg q).2.1⟩
  · intro q
    rw [hreg, update_apply]
    split
    · rename_i hq
      rw [hq]
      exact prefix_append _ _
    · exact prefix_rfl
  · intro q
    rw [hhand]
  · intro d t hd
    rw [hadopt]
    exact hd
  · rw [hcreat]

theorem Inv.newDeferred (h : s.Inv) : s.newDeferred.Inv ∧ Silent s s.newDeferred := by
  have hqueue := h.queue.newDeferred
  rw [h.queue.newDeferred_eq] at hqueue ⊢
  refine ⟨⟨hqueue, h.adopt.congr rfl rfl rfl rfl rfl fun _ => ⟨rfl, rfl⟩, h.scheduled⟩, ?_⟩
  exact ⟨⟨fun _ _ => ⟨rfl, rfl⟩, fun _ => prefix_rfl, fun _ => le_refl _, fun _ _ h => h,
    le_succ _⟩, rfl, rfl, rfl⟩

/-- The end of `promise_then`: whether the promise is settled decides about its queue. -/
theorem Inv.afterPush (hqueue : s.QueueInv) (hsched : s.Scheduled (fun _ => False))
    (hp : p < s.created) (hres : reg.result < s.created)
    (hadopt : (s.push p reg).AdoptInv) :
    (if ((s.push p reg).deferreds p).status.settled then (s.push p reg).scheduleProcessQueue p
      else s.push p reg).Inv ∧
    Silent s (if ((s.push p reg).deferreds p).status.settled then
      (s.push p reg).scheduleProcessQueue p else s.push p reg) := by
  have hqueue' := hqueue.push hp hres
  have hquiet := silent_push s p reg
  -- every other promise is as before
  have hother : (s.push p reg).Scheduled (· = p) := by
    intro q hqp hq hpend
    have hstate : (s.push p reg).deferreds q = s.deferreds q := by
      unfold push
      dsimp only
      split
      · rfl
      · exact update_of_ne hqp _ _
    unfold settled at hq
    rw [hstate] at hq hpend ⊢
    exact hsched q not_false hq hpend
  split
  · rename_i hset
    exact ⟨⟨hqueue'.schedule hset, hadopt.schedule p, hother.schedule⟩,
      hquiet.trans (silent_schedule _ p)⟩
  rename_i hset
  refine ⟨⟨hqueue', hadopt, ?_⟩, hquiet⟩
  intro q _ hq hpend
  have hqp : q ≠ p := by
    rintro rfl
    exact hset hq
  exact hother q hqp hq hpend

section

variable (h : s.Inv)

include h

/-- **Registering handlers of the program.** -/
theorem Inv.register (hp : p < s.created) (fulfilled rejected updated : Handler κ) :
    (s.register p fulfilled.fn rejected.fn updated.fn).Inv ∧
      Silent s (s.register p fulfilled.fn rejected.fn updated.fn) := by
  obtain ⟨hnew, hquiet⟩ := h.newDeferred
  have hplain : ∀ status c, (⟨s.created, fulfilled.fn, rejected.fn, updated.fn⟩ :
      Registration κ).handler status ≠ some (.adopt c) := by
    intro status c
    cases status <;> cases fulfilled <;> cases rejected <;>
      simp [Registration.handler, Handler.fn]
  have hcreat : p < s.newDeferred.created := lt_succ_of_lt hp
  obtain ⟨hinv, hafter⟩ := Inv.afterPush hnew.queue hnew.scheduled hcreat
    (lt_succ_self s.created) (hnew.adopt.push p hplain)
  exact ⟨hinv, hquiet.trans hafter⟩

section

variable (hcreat : p < s.created)

include hcreat

/-- The first half of `follow`. -/
theorem Inv.startFollow
    (hp : (s.deferreds p).status = .pending) (other : Nat) :
    (s.startFollow p other).QueueInv ∧ (s.startFollow p other).Scheduled (fun _ => False) ∧
      Silent s (s.startFollow p other) := by
  have hunset := settled_eq_false hp
  have hq : (s.set p { s.deferreds p with status := .following }).QueueInv :=
    h.queue.setStatus hunset hcreat fun h => by cases h
  have hquiet := silent_set s hunset .following (s.deferreds p).values
  refine ⟨{ hq with }, ?_, ⟨{ hquiet with adopted := ?_ }, rfl, rfl, rfl⟩⟩
  · intro q _ hq hpend
    have hqp : q ≠ p := by
      rintro rfl
      simp [Promises.startFollow, Promises.settled, Promises.set, PromiseStatus.settled] at hq
    simp only [Promises.startFollow, Promises.settled, Promises.set,
      update_of_ne hqp] at hq hpend ⊢
    exact h.scheduled q not_false hq hpend
  intro d t hd
  have hdp : d ≠ p := by
    rintro rfl
    rw [h.adopt.untouched d hp] at hd
    cases hd
  exact (update_of_ne hdp _ _).trans hd

/-- **Resolving a promise with another one.** -/
theorem Inv.follow {other : Nat}
    (hother : other < s.created) (hp : (s.deferreds p).status = .pending) :
    (s.follow p other).Inv ∧ Silent s (s.follow p other) := by
  obtain ⟨hqueue, hsched, hquiet⟩ := h.startFollow hcreat hp other
  obtain ⟨hnew, -⟩ := h.newDeferred
  -- the new deferred may as well come first
  have hswap : (s.startFollow p other).newDeferred = s.newDeferred.startFollow p other := by
    rw [hqueue.newDeferred_eq, h.queue.newDeferred_eq]
    rfl
  have hpnew : (s.newDeferred.deferreds p).status = .pending := by
    rw [h.queue.newDeferred_eq]
    exact hp
  have hadopt := hnew.adopt.follow hpnew (hnew.queue.unsettled p (settled_eq_false hpnew)) other
    (hnew.queue.handled other) s.created
  rw [← hswap, show s.newDeferred.closuresCreated = s.closuresCreated from rfl] at hadopt
  have hsilentNew : Silent (s.startFollow p other) (s.startFollow p other).newDeferred := by
    rw [hqueue.newDeferred_eq]
    exact ⟨⟨fun _ _ => ⟨rfl, rfl⟩, fun _ => prefix_rfl, fun _ => le_refl _,
      fun _ _ h => h, le_succ _⟩, rfl, rfl, rfl⟩
  have hscheduledNew : (s.startFollow p other).newDeferred.Scheduled (fun _ => False) := by
    rw [hqueue.newDeferred_eq]
    exact hsched
  obtain ⟨hinv, hafter⟩ := Inv.afterPush hqueue.newDeferred hscheduledNew
    (lt_succ_of_lt hother) (lt_succ_self s.created) hadopt
  exact ⟨hinv, (hquiet.trans hsilentNew).trans hafter⟩

/-- `deferred_resolve` for a promise of status 0. -/
theorem Inv.deferredResolve
    (hp : (s.deferreds p).status = .pending)
    (hknown : ∀ other, values.head? = some (.promise other) → other < s.created) :
    (s.deferredResolve p values).Inv ∧ Silent s (s.deferredResolve p values) := by
  unfold Promises.deferredResolve
  split
  · rename_i other hhead
    exact h.follow hcreat (hknown other hhead) hp
  · rename_i hhead
    exact h.settle hcreat hp rfl fun _ q hq => hhead q hq

/-- `resolve` of a deferred. -/
theorem Inv.resolve
    (values : List (PromiseValue V))
    (hknown : ∀ other, values.head? = some (.promise other) → other < s.created) :
    (s.resolve p values).Inv ∧ Silent s (s.resolve p values) := by
  unfold Promises.resolve
  split
  · rename_i hp
    exact h.deferredResolve hcreat hp hknown
  · exact ⟨h, .refl s⟩

/-- `reject` of a deferred. -/
theorem Inv.reject
    (values : List (PromiseValue V)) : (s.reject p values).Inv ∧ Silent s (s.reject p values) := by
  unfold Promises.reject
  split
  · rename_i hp
    exact h.settle hcreat hp rfl nofun
  · exact ⟨h, .refl s⟩

end

/-- `notify` of a deferred. -/
theorem Inv.deferredNotify (p : Nat) (values : List (PromiseValue V)) :
    (s.deferredNotify p values).Inv ∧ Silent s (s.deferredNotify p values) := by
  unfold Promises.deferredNotify
  split
  · rename_i callbacks _
    split
    · refine ⟨⟨h.queue.laterNotify callbacks values,
        h.adopt.congr rfl rfl rfl rfl rfl fun _ => ⟨rfl, rfl⟩, h.scheduled⟩, ?_⟩
      exact ⟨⟨fun _ _ => ⟨rfl, rfl⟩, fun _ => prefix_rfl, fun _ => le_refl _,
        fun _ _ h => h, le_refl _⟩, rfl, rfl, rfl⟩
    · exact ⟨h, .refl s⟩
  · exact ⟨h, .refl s⟩

theorem Inv.promiseThen [DecidableEq κ] (hp : p < s.created)
    (fulfilled rejected updated : Handler κ) :
    (s.promiseThen p fulfilled rejected updated).Inv ∧
      Silent s (s.promiseThen p fulfilled rejected updated) := by
  unfold Promises.promiseThen
  split
  · exact ⟨h, .refl s⟩
  · exact h.register hp fulfilled rejected updated

/-- **No call of a program calls a callback.** -/
theorem Inv.invoke [DecidableEq κ] {call : PromiseCall V κ}
    (hknown : call.known s.created) :
    (s.invoke call).Inv ∧ Silent s (s.invoke call) := by
  cases call with
  | defer => exact h.newDeferred
  | resolve p values =>
    simp only [PromiseCall.known, Bool.and_eq_true, decide_eq_true_eq] at hknown
    show (if isOwn p values then s else s.resolve p values).Inv ∧ Silent s (if _ then _ else _)
    split
    · exact ⟨h, .refl s⟩
    · apply h.resolve hknown.1 values
      intro other hhead
      exact of_decide_eq_true (all_eq_true.mp hknown.2 _ (mem_of_mem_head? hhead))
  | reject p values =>
    simp only [PromiseCall.known, Bool.and_eq_true, decide_eq_true_eq] at hknown
    exact h.reject hknown.1 values
  | notify p values => exact h.deferredNotify p values
  | then_ p f r u => exact h.promiseThen (of_decide_eq_true hknown) f r u
  | done p f => exact h.promiseThen (of_decide_eq_true hknown) f .undefined .undefined
  | fail p r => exact h.promiseThen (of_decide_eq_true hknown) .other r .undefined
  | always p k => exact h.promiseThen (of_decide_eq_true hknown) k k .undefined
  | catch_ p k => exact h.promiseThen (of_decide_eq_true hknown) .other k .undefined
  | progress p u => exact h.promiseThen (of_decide_eq_true hknown) .other .other u

end

/-! ### `process_queue` -/

/-- The state after `process_queue` has come to the registration `reg` of `p`. -/
def turn (s : Promises V κ) (p : Nat) (reg : Registration κ) (drain : LaterDrain V κ) :
    Promises V κ :=
  { s with
    drain := some drain
    handled := update s.handled p (s.handled p + 1)
    called := update s.called p (s.called p ++ due (s.deferreds p) [reg]) }

variable {queue : List (LaterTask V)} {rest : List (Registration κ)} {awaiting : Option Nat}

/-- What `process_queue` has come to is the first registration that is not handled. -/
theorem QueueInv.getElem_handled (h : s.QueueInv)
    (hdrain : s.drain = some ⟨queue, some (.processQueue p (reg :: rest)), awaiting⟩) :
    (s.registered p)[s.handled p]? = some reg := by
  have hl := h.left p
  have hrest : s.rest p = reg :: rest := by
    unfold Promises.rest
    rw [hdrain]
    exact if_pos rfl
  rw [hrest] at hl
  have h0 := congrArg (fun l => l[0]?) hl
  rw [getElem?_drop] at h0
  simpa using h0

theorem QueueInv.turn (h : s.QueueInv)
    (hdrain : s.drain = some ⟨queue, some (.processQueue p (reg :: rest)), none⟩)
    (awaiting : Option Nat) (hawaiting : ∀ r, awaiting = some r → r < s.created) :
    (s.turn p reg ⟨queue, some (.processQueue p rest), awaiting⟩).QueueInv := by
  have hget := h.getElem_handled hdrain
  obtain ⟨hlt, hgetElem⟩ := List.getElem?_eq_some_iff.mp hget
  set s' := s.turn p reg ⟨queue, some (.processQueue p rest), awaiting⟩ with hs'
  have hhand : ∀ q, s'.handled q = if q = p then s.handled p + 1 else s.handled q :=
    fun q => update_apply _ _ _ _
  have hqueue : s'.queued = s.queued := by
    unfold Promises.queued drainQueue
    rw [hdrain]
    rfl
  constructor
  · exact h.fresh
  · intro q
    rw [hhand]
    split
    · rename_i hq
      rw [hq]
      exact hlt
    · exact h.handled q
  · intro q
    have hl := h.left q
    rw [hhand]
    unfold Promises.rest at hl ⊢
    rw [hdrain] at hl
    show _ = (if p = q then rest else []) ++ s.pendingOf q
    by_cases hq : q = p
    · rw [if_pos hq, if_pos hq.symm]
      rw [hq] at hl ⊢
      dsimp only at hl
      rw [if_pos rfl, drop_eq_getElem_cons hlt] at hl
      exact (List.cons.inj hl).2
    rw [if_neg hq, if_neg (Ne.symm hq)]
    dsimp only at hl
    rw [if_neg (Ne.symm hq)] at hl
    exact hl
  · intro q
    show update s.called p _ q = _
    rw [hhand, update_apply]
    split
    · rename_i hq
      rw [hq, h.called p]
      show _ = due (s.deferreds p) ((s.registered p).take _)
      rw [take_add_one, hget]
      unfold due
      rw [filterMap_append]
      rfl
    · exact h.called q
  · intro q hq
    have hq' : s.settled q = false := hq
    have hqp : q ≠ p := by
      rintro rfl
      rw [h.running q _ _ _ hdrain] at hq'
      cases hq'
    rw [hhand, if_neg hqp]
    exact h.unsettled q hq
  · exact h.results
  · intro queue' q rest' r hr
    have hr := some.inj hr
    rw [LaterDrain.mk.injEq] at hr
    exact hawaiting r hr.2.2
  · intro q queue' rest' awaiting' hq
    have hq := some.inj hq
    simp only [LaterDrain.mk.injEq, some.injEq, LaterFrame.processQueue.injEq] at hq
    rw [← hq.2.1.1]
    exact h.running p _ _ _ hdrain
  · exact h.scheduled
  · rw [hqueue]
    exact h.nodup
  · rw [hqueue]
    exact h.queued
  · exact h.arrays
  · exact h.timeout
  · exact h.plain

/-- The handlers of an adoption are the functions of one closure. -/
theorem AdoptInv.handler_of_adopted (h : s.AdoptInv) {d q i : Nat}
    (hd : s.adopted d = some (q, i)) (hreg : (s.registered q)[i]? = some reg) (hstat : status.settled) :
    ∃ c, reg.handler status = some (.adopt c) ∧ c < s.closuresCreated ∧
      (s.closures c).state = d := by
  obtain ⟨c, r, fn, hc, hstate, hfn, hi, -⟩ := h.adoption d q i hd
  rw [hi, some.injEq] at hreg
  refine ⟨c, ?_, hc, hstate⟩
  rw [← hreg, ← hfn]
  cases status
  · cases hstat
  · cases hstat
  · rfl
  · rfl

/-- A turn for a registration that belongs to no adoption. -/
theorem AdoptInv.turn (h : s.AdoptInv)
    (hreg : (s.registered p)[s.handled p]? = some reg) (hp : s.settled p)
    (hslot : ∀ c, reg.handler (s.deferreds p).status ≠ some (.adopt c))
    (drain : LaterDrain V κ) : (s.turn p reg drain).AdoptInv := by
  have hhand : ∀ q, (s.turn p reg drain).handled q =
      if q = p then s.handled p + 1 else s.handled q := fun q => update_apply _ _ _ _
  refine { h with adoption := ?_ }
  intro d q i hd
  obtain ⟨c, r, fn, hc, hstate, hfn, hi, hdone, htodo⟩ := h.adoption d q i hd
  refine ⟨c, r, fn, hc, hstate, hfn, hi, ?_, ?_⟩
  · intro hlt
    apply hdone
    rw [hhand] at hlt
    split at hlt
    · rename_i hq
      rw [hq]
      rcases Nat.lt_succ_iff_lt_or_eq.mp hlt with hlt | heq
      · exact hlt
      -- the turn would be for the adoption
      rw [hq] at hd
      rw [← heq] at hreg
      obtain ⟨c', hc', -⟩ := h.handler_of_adopted hd hreg hp
      exact absurd hc' (hslot c')
    · exact hlt
  intro hle
  apply htodo
  rw [hhand] at hle
  split at hle
  · rename_i hq
    rw [hq]
    omega
  · exact hle

variable {c : Nat}

/-- **A turn for an adoption.** The promise still follows, and is settled like the other one. -/
theorem AdoptInv.adopt (h : s.AdoptInv) (hzero : ∀ q, s.settled q = false → s.handled q = 0)
    (hreg : (s.registered p)[s.handled p]? = some reg) (hp : s.settled p)
    (hslot : reg.handler (s.deferreds p).status = some (.adopt c)) (drain : LaterDrain V κ) :
    (s.deferreds (s.closures c).state).status = .following ∧ (s.closures c).done = false ∧
    ({ (s.turn p reg drain).set (s.closures c).state { s.deferreds (s.closures c).state with
          status := (s.deferreds p).status, values := (s.deferreds p).values } with
        closures := update s.closures c ⟨(s.closures c).state, true⟩ } :
      Promises V κ).AdoptInv := by
  set d := (s.closures c).state with hd
  obtain ⟨hc, hadopt⟩ := h.handlers p _ reg c _ hreg hslot
  obtain ⟨c', -, -, hc', hstate', -, -, -, htodo⟩ := h.adoption d p _ hadopt
  obtain rfl := h.closures c c' hc hc' hstate'.symm
  obtain ⟨hfoll, hdone⟩ := htodo (le_refl _)
  refine ⟨hfoll, hdone, ?_⟩
  have hdsettled : s.settled d = false := by
    unfold settled
    rw [hfoll]
    rfl
  have hdp : d ≠ p := by
    intro heq
    rw [heq, hp] at hdsettled
    cases hdsettled
  set s' : Promises V κ := { (s.turn p reg drain).set d { s.deferreds d with
      status := (s.deferreds p).status, values := (s.deferreds p).values } with
    closures := update s.closures c ⟨d, true⟩ } with hs'
  have hself : (s'.deferreds d).status = (s.deferreds p).status ∧
      (s'.deferreds d).values = (s.deferreds p).values := by
    simp [hs', set]
  have hother : ∀ q, q ≠ d → s'.deferreds q = s.deferreds q :=
    fun q hq => update_of_ne hq _ _
  have hhand : ∀ q, s'.handled q = if q = p then s.handled p + 1 else s.handled q :=
    fun q => update_apply _ _ _ _
  have hstates : ∀ c', (s'.closures c').state = (s.closures c').state := by
    intro c'
    by_cases hcc : c' = c
    · rw [hcc]
      show (update s.closures c _ c).state = _
      rw [update_self]
    · exact congrArg AdoptClosure.state (update_of_ne hcc _ s.closures)
  constructor
  · intro d' q i hd'
    have hd' : s.adopted d' = some (q, i) := hd'
    obtain ⟨c', r, fn, hc', hst, hfn, hi, hdone', htodo'⟩ := h.adoption d' q i hd'
    refine ⟨c', r, fn, hc', (hstates c').trans hst, hfn, hi, ?_, ?_⟩
    · intro hlt
      rw [hhand] at hlt
      by_cases hdd : d' = d
      · -- the adoption that the turn is for
        rw [hdd, hadopt, some.injEq, Prod.mk.injEq] at hd'
        rw [hdd, ← hd'.1, hother p hdp.symm]
        exact hself
      rw [hother d' hdd]
      have hlt' : i < s.handled q := by
        split at hlt
        · rename_i hq
          rw [hq]
          rcases Nat.lt_succ_iff_lt_or_eq.mp hlt with hlt | heq
          · exact hlt
          -- two adoptions would share a registration
          rw [hq, heq] at hd'
          obtain ⟨c'', hslot'', -, hstate''⟩ := h.handler_of_adopted hd' hreg hp
          rw [hslot, some.injEq, HandlerFn.adopt.injEq] at hslot''
          rw [← hslot''] at hstate''
          exact absurd hstate''.symm hdd
        · exact hlt
      have hqd : q ≠ d := by
        intro heq
        rw [heq, hzero d hdsettled] at hlt'
        omega
      rw [hother q hqd]
      exact hdone' hlt'
    intro hle
    rw [hhand] at hle
    have hdd : d' ≠ d := by
      intro heq
      rw [heq, hadopt, some.injEq, Prod.mk.injEq] at hd'
      rw [if_pos hd'.1.symm] at hle
      omega
    have hle' : s.handled q ≤ i := by
      split at hle
      · rename_i hq
        rw [hq]
        omega
      · exact hle
    obtain ⟨hf, hnd⟩ := htodo' hle'
    rw [hother d' hdd]
    refine ⟨hf, ?_⟩
    have hcc : c' ≠ c := by
      intro heq
      rw [heq] at hst
      exact hdd hst.symm
    show (update s.closures c _ c').done = false
    rw [update_of_ne hcc]
    exact hnd
  · intro q i r c' status hi hs
    rw [hstates]
    exact h.handlers q i r c' status hi hs
  · intro c₁ c₂ h₁ h₂ heq
    rw [hstates, hstates] at heq
    exact h.closures c₁ c₂ h₁ h₂ heq
  · intro c' hc'
    rw [hstates]
    exact h.owned c' hc'
  · intro d' hd'
    by_cases hdd : d' = d
    · rw [hdd]
      show s.adopted d ≠ none
      rw [hadopt]
      simp
    · rw [hother d' hdd] at hd'
      exact h.following d' hd'
  intro d' hd'
  by_cases hdd : d' = d
  · rw [hdd, hself.1] at hd'
    unfold settled at hp
    rw [hd'] at hp
    cases hp
  · rw [hother d' hdd] at hd'
    exact h.untouched d' hd'

theorem grows_turn (s : Promises V κ) (p : Nat) (reg : Registration κ) (drain : LaterDrain V κ) :
    Grows s (s.turn p reg drain) := by
  refine ⟨fun _ _ => ⟨rfl, rfl⟩, fun _ => prefix_rfl, ?_, fun _ _ h => h, le_refl _⟩
  intro q
  show _ ≤ update s.handled p _ q
  rw [update_apply]
  split
  · rename_i hq
    rw [hq]
    exact le_succ _
  · exact le_refl _

/-- A turn without a callback only counts. -/
theorem turn_eq (s : Promises V κ) (drain : LaterDrain V κ)
    (hdue : due (s.deferreds p) [reg] = []) : s.turn p reg drain =
      { s with drain := some drain, handled := update s.handled p (s.handled p + 1) } := by
  unfold turn
  rw [hdue, append_nil, update_eq_self]

/-- The functions of `deferred_resolve` settle the promise when they are called first. -/
theorem adoptCall_eq (s : Promises V κ) (hdone : (s.closures c).done = false)
    (hstat : status.settled)
    (hplain : status = .resolved → ∀ q, values.head? ≠ some (.promise q)) :
    s.adoptCall c status values = ({ s.set (s.closures c).state
          { s.deferreds (s.closures c).state with status := status, values := values } with
        closures := update s.closures c ⟨(s.closures c).state, true⟩ } :
        Promises V κ).scheduleProcessQueue (s.closures c).state := by
  unfold adoptCall
  dsimp only
  rw [hdone]
  cases status with
  | pending | following => cases hstat
  | resolved =>
    rw [if_neg Bool.false_ne_true, if_pos rfl]
    unfold deferredResolve
    split
    · rename_i q hhead
      exact absurd hhead (hplain rfl q)
    · rfl
  | rejected => rfl

/-- The invariant of the queues does not read the closures. -/
theorem QueueInv.closures (h : s.QueueInv) (closures : Nat → AdoptClosure) :
    ({ s with closures := closures } : Promises V κ).QueueInv :=
  { h with }

/-- **A turn of `process_queue`** counts the registration, makes the call that it is due, and
    then calls nothing else. -/
theorem Inv.processTurn (h : s.Inv)
    (hdrain : s.drain = some ⟨queue, some (.processQueue p (reg :: rest)), none⟩) :
    (s.processTurn ⟨queue, none, none⟩ p reg rest).Inv ∧
      ∃ awaiting, Silent (s.turn p reg ⟨queue, some (.processQueue p rest), awaiting⟩)
        (s.processTurn ⟨queue, none, none⟩ p reg rest) := by
  have hsettled := h.queue.running p _ _ _ hdrain
  have hreg := h.queue.getElem_handled hdrain
  have hres := h.queue.results p reg (mem_of_getElem? hreg)
  have hplain := h.queue.plain p
  unfold Promises.processTurn
  dsimp only
  cases hslot : reg.handler (s.deferreds p).status with
  | none =>
    have hdue : due (s.deferreds p) [reg] = [] := by simp [due, hslot]
    have hqueue := h.queue.turn hdrain none fun r hr => by cases hr
    have hadopt := h.adopt.turn hreg hsettled fun c => by rw [hslot]; simp
      ⟨queue, some (.processQueue p rest), none⟩
    have hinv : (s.turn p reg ⟨queue, some (.processQueue p rest), none⟩).Inv :=
      ⟨hqueue, hadopt, h.scheduled⟩
    rw [← turn_eq s ⟨queue, some (.processQueue p rest), none⟩ hdue]
    by_cases hresol : (s.deferreds p).status = .resolved
    · have hown : isOwn reg.result (s.deferreds p).values = false := by
        unfold isOwn
        split
        · rename_i q hhead
          exact absurd hhead (hplain hresol q)
        · rfl
      simp only [hresol, if_true, hown, Bool.false_eq_true, if_false]
      obtain ⟨hinv', hquiet⟩ := hinv.resolve hres (s.deferreds p).values
        fun q hq => absurd hq (hplain hresol q)
      exact ⟨hinv', none, hquiet⟩
    · simp only [if_neg hresol]
      obtain ⟨hinv', hquiet⟩ := hinv.reject hres (s.deferreds p).values
      exact ⟨hinv', none, hquiet⟩
  | some fn =>
    cases fn with
    | callback k =>
      have hdue : due (s.deferreds p) [reg] = [⟨reg.result, k, (s.deferreds p).values⟩] := by
        simp [due, hslot]
      have hqueue := h.queue.turn hdrain (some reg.result) (by
        rintro r hr
        rw [← some.inj hr]
        exact hres)
      have hadopt := h.adopt.turn hreg hsettled fun c => by rw [hslot]; simp
        ⟨queue, some (.processQueue p rest), some reg.result⟩
      have hturn : s.turn p reg ⟨queue, some (.processQueue p rest), some reg.result⟩ =
          { s with
            drain := some ⟨queue, some (.processQueue p rest), some reg.result⟩
            handled := update s.handled p (s.handled p + 1)
            called := update s.called p
              (s.called p ++ [⟨reg.result, k, (s.deferreds p).values⟩]) } := by
        unfold Promises.turn
        rw [hdue]
      simp only
      rw [← hturn]
      exact ⟨⟨hqueue, hadopt, h.scheduled⟩, some reg.result, .refl _⟩
    | adopt c =>
      have hdue : due (s.deferreds p) [reg] = [] := by simp [due, hslot]
      set drain : LaterDrain V κ := ⟨queue, some (.processQueue p rest), none⟩ with hdrain'
      obtain ⟨hfoll, hdone, hadopt⟩ := h.adopt.adopt h.queue.unsettled hreg hsettled hslot drain
      set d := (s.closures c).state with hd
      have hdsettled : s.settled d = false := by
        unfold Promises.settled
        rw [hfoll]
        rfl
      have hdcreated : d < s.created := by
        by_contra hge
        rw [(h.queue.fresh d (Nat.le_of_not_lt hge)).1] at hfoll
        cases hfoll
      have hqueue : (s.turn p reg drain).QueueInv :=
        h.queue.turn hdrain none fun r hr => by cases hr
      -- the promise that followed is settled like `p`
      set t := (s.turn p reg drain).set d { s.deferreds d with
        status := (s.deferreds p).status, values := (s.deferreds p).values } with ht
      have hqueue' : t.QueueInv := hqueue.setStatus hdsettled hdcreated hplain
      set t' : Promises V κ := { t with closures := update s.closures c ⟨d, true⟩ } with ht'
      have hsched : t'.Scheduled (· = d) := by
        intro q hqd hq hpend
        simp only [ht', ht, turn, settled, set,
          update_of_ne hqd] at hq hpend ⊢
        exact h.scheduled q not_false hq hpend
      have htsettled : t'.settled d := by
        simp only [ht', ht, settled, set, update_self]
        exact hsettled
      have hinv : (t'.scheduleProcessQueue d).Inv :=
        ⟨(hqueue'.closures _).schedule htsettled, hadopt.schedule d, hsched.schedule⟩
      have hquiet : Silent (s.turn p reg drain) (t'.scheduleProcessQueue d) := by
        have hset : Silent (s.turn p reg drain) t :=
          silent_set (s.turn p reg drain) hdsettled (s.deferreds p).status (s.deferreds p).values
        have hset' : Silent (s.turn p reg drain) t' :=
          ⟨{ hset with }, hset.drain,
            hset.called, hset.handled_eq⟩
        exact hset'.trans (silent_schedule t' d)
      have hcall : (s.turn p reg drain).adoptCall c (s.deferreds p).status (s.deferreds p).values =
          t'.scheduleProcessQueue d :=
        adoptCall_eq (s.turn p reg drain) hdone hsettled hplain
      obtain ⟨hinv', hsilent'⟩ := hinv.resolve
        (lt_of_lt_of_le hres hquiet.created) [.undefined] fun q hq => by simp at hq
      rw [← turn_eq s drain hdue]
      show (((s.turn p reg drain).adoptCall c _ _).resolve _ _).Inv ∧ ∃ awaiting,
        Silent _ (((s.turn p reg drain).adoptCall c _ _).resolve _ _)
      rw [hcall]
      exact ⟨hinv', none, hquiet.trans hsilent'⟩

/-! ### `later_drain` -/

/-- The first `n` registrations of `p` are handled, or will be by the time `later_drain` ends. -/
def Covered (s : Promises V κ) (p n : Nat) : Prop :=
  n ≤ s.handled p ∨ ∃ queue frame awaiting, s.drain = some ⟨queue, frame, awaiting⟩ ∧
    (p ∈ queue.filterMap processId ∨
      ∃ rest, frame = some (.processQueue p rest) ∧ n ≤ s.handled p + rest.length)

variable {frame : Option (LaterFrame V κ)} {n : Nat}

theorem Covered.cases {s : Promises V κ} {p : Nat} {queue : List (LaterTask V)}
    {awaiting : Option Nat} (h : s.Covered p n)
    (hdrain : s.drain = some ⟨queue, frame, awaiting⟩) :
    n ≤ s.handled p ∨ p ∈ queue.filterMap processId ∨
      ∃ rest, frame = some (.processQueue p rest) ∧ n ≤ s.handled p + rest.length := by
  rcases h with h | ⟨_, _, _, hd, h⟩
  · exact .inl h
  · rw [hdrain, some.injEq, LaterDrain.mk.injEq] at hd
    obtain ⟨rfl, rfl, -⟩ := hd
    exact .inr h

/-- What every step keeps. -/
structure StepKept (s s' : Promises V κ) : Prop where
  inv : s'.Inv
  grows : Grows s s'
  covered : ∀ p n, n ≤ (s.registered p).length → s.Covered p n → s'.Covered p n

theorem Silent.covered (h : Silent s t) (hc : s.Covered p n) : t.Covered p n := by
  unfold Covered at hc ⊢
  rw [h.drain, h.handled_eq]
  exact hc

theorem StepKept.of_silent (hinv : t.Inv) (h : Silent s t) : StepKept s t :=
  ⟨hinv, h.toGrows, fun _ _ _ hc => h.covered hc⟩

theorem StepKept.trans (h : StepKept s t) (h' : StepKept t u) : StepKept s u where
  inv := h'.inv
  grows := h.grows.trans h'.grows
  covered p n hn hc :=
    h'.covered p n (le_trans hn (h.grows.registered p).length_le) (h.covered p n hn hc)

theorem StepKept.silent (h : StepKept s t) (hinv : u.Inv) (hu : Silent t u) : StepKept s u :=
  h.trans (.of_silent hinv hu)

/-- Only the position of `later_drain` changes, and no `process_queue` runs before or after. -/
theorem Inv.setDrain (h : s.Inv) {drain : Option (LaterDrain V κ)}
    (hqueue : ({ s with drain := drain } : Promises V κ).queued = s.queued)
    (hrest : ∀ p, ({ s with drain := drain } : Promises V κ).rest p = s.rest p)
    (hrunning : ∀ p queue rest awaiting,
      drain = some ⟨queue, some (.processQueue p rest), awaiting⟩ → s.settled p)
    (hawaits : ∀ queue p rest r,
      drain = some ⟨queue, some (.processQueue p rest), some r⟩ → r < s.created) :
    ({ s with drain := drain } : Promises V κ).Inv := by
  refine ⟨⟨h.queue.fresh, h.queue.handled, ?_, h.queue.called, h.queue.unsettled, h.queue.results,
    hawaits, hrunning, h.queue.scheduled, hqueue ▸ h.queue.nodup, hqueue ▸ h.queue.queued,
    h.queue.arrays, h.queue.timeout, h.queue.plain⟩,
    h.adopt.congr rfl rfl rfl rfl rfl fun _ => ⟨rfl, rfl⟩, h.scheduled⟩
  intro p
  rw [hrest]
  exact h.queue.left p

theorem grows_setDrain (s : Promises V κ) (drain : Option (LaterDrain V κ)) :
    Grows s { s with drain := drain } :=
  ⟨fun _ _ => ⟨rfl, rfl⟩, fun _ => prefix_rfl, fun _ => le_refl _, fun _ _ h => h,
    le_refl _⟩

/-- A function of the queue goes on, but for a turn of `process_queue`. -/
theorem Inv.setFrame (h : s.Inv) (hdrain : s.drain = some ⟨queue, frame, awaiting⟩)
    (frame' : Option (LaterFrame V κ)) (awaiting' : Option Nat)
    (hkeep : ∀ p rest, frame' = some (.processQueue p rest) → awaiting' = none ∧ frame = frame')
    (hdrop : ∀ p rest, frame = some (.processQueue p rest) → frame' = frame ∨ frame' = none ∧ rest = []) :
    StepKept s { s with drain := some ⟨queue, frame', awaiting'⟩ } := by
  refine ⟨h.setDrain ?_ ?_ ?_ ?_, grows_setDrain s _, ?_⟩
  · unfold queued drainQueue
    rw [hdrain]
  · intro p
    unfold rest
    rw [hdrain]
    rcases frame with _ | ⟨q, rest⟩ | ⟨values, rest⟩
    · rcases frame' with _ | ⟨q', rest'⟩ | ⟨values', rest'⟩
      · rfl
      · cases (hkeep q' rest' rfl).2
      · rfl
    · rcases hdrop q rest rfl with heq | ⟨heq, hrest⟩
      · rw [heq]
      · rw [heq, hrest]
        show [] = if q = p then [] else []
        rw [ite_self]
    rcases frame' with _ | ⟨q', rest'⟩ | ⟨values', rest'⟩
    · rfl
    · cases (hkeep q' rest' rfl).2
    · rfl
  · intro p queue' rest awaiting'' heq
    have heq := some.inj heq
    rw [LaterDrain.mk.injEq] at heq
    have hframe := (hkeep p rest heq.2.1).2.trans heq.2.1
    exact h.queue.running p queue rest awaiting (hframe ▸ hdrain)
  · intro queue' p rest r heq
    have heq := some.inj heq
    rw [LaterDrain.mk.injEq] at heq
    have hnone := (hkeep p rest heq.2.1).1
    rw [heq.2.2] at hnone
    cases hnone
  intro p n _ hc
  rcases hc.cases hdrain with hc | hc | ⟨rest, rfl, hc⟩
  · exact .inl hc
  · exact .inr ⟨_, _, _, rfl, .inl hc⟩
  rcases hdrop p rest rfl with heq | ⟨-, hrest⟩
  · exact .inr ⟨_, _, _, rfl, .inr ⟨rest, heq, hc⟩⟩
  · rw [hrest] at hc
    exact .inl hc

/-- A turn of `process_queue` keeps what is kept. -/
theorem Inv.processTurn_kept (h : s.Inv)
    (hdrain : s.drain = some ⟨queue, some (.processQueue p (reg :: rest)), none⟩) :
    StepKept s (s.processTurn ⟨queue, none, none⟩ p reg rest) := by
  obtain ⟨hinv, awaiting, hquiet⟩ := h.processTurn hdrain
  refine ⟨hinv, (grows_turn s p reg _).trans hquiet.toGrows, ?_⟩
  intro q n _ hc
  apply hquiet.covered
  have hhand : (s.turn p reg ⟨queue, some (.processQueue p rest), awaiting⟩).handled q =
      if q = p then s.handled p + 1 else s.handled q := update_apply _ _ _ _
  have hle : s.handled q ≤ if q = p then s.handled p + 1 else s.handled q := by
    split
    · rename_i hq
      rw [hq]
      exact le_succ _
    · exact le_refl _
  unfold Covered at hc ⊢
  rw [hhand]
  rcases hc with hc | ⟨queue', frame, awaiting', hd, hc⟩
  · exact .inl (le_trans hc hle)
  rw [hdrain, some.injEq, LaterDrain.mk.injEq] at hd
  obtain ⟨rfl, rfl, -⟩ := hd
  refine .inr ⟨queue, _, awaiting, rfl, ?_⟩
  rcases hc with hc | ⟨rest', heq, hc⟩
  · exact .inl hc
  -- the turn moves a registration from one side of the sum to the other
  obtain ⟨rfl, rfl⟩ := heq
  rw [if_pos rfl]
  rw [length_cons] at hc
  exact .inr ⟨rest, rfl, by omega⟩

/-- A turn of a notification keeps what is kept. -/
theorem Inv.notifyTurn_kept (h : s.Inv)
    (hdrain : s.drain = some ⟨queue, some (.notify values (reg :: rest)), none⟩) :
    StepKept s (s.notifyTurn ⟨queue, none, none⟩ values reg rest) := by
  have hframe : ∀ awaiting, StepKept s
      { s with drain := some ⟨queue, some (.notify values rest), awaiting⟩ } := by
    intro awaiting
    exact h.setFrame hdrain _ awaiting (fun p rest hp => by simp at hp) fun p rest hp => by simp at hp
  unfold notifyTurn
  dsimp only
  split
  · exact hframe (some reg.result)
  · have h1 := hframe none
    obtain ⟨hinv, hquiet⟩ := h1.inv.deferredNotify (s.closures _).state values
    obtain ⟨hinv', hsilent'⟩ := hinv.deferredNotify reg.result [.undefined]
    exact h1.silent hinv' (hquiet.trans hsilent')
  · have h1 := hframe none
    obtain ⟨hinv, hquiet⟩ := h1.inv.deferredNotify reg.result values
    exact h1.silent hinv hquiet

/-- The state in which the `process_queue` of `p` begins. -/
def beginProcess (s : Promises V κ) (p : Nat) (queue : List (LaterTask V)) : Promises V κ :=
  { s.set p { s.deferreds p with processScheduled := false, pending := none } with
    drain := some ⟨queue, some (.processQueue p (s.pendingOf p)), none⟩ }

theorem beginProcess_state (s : Promises V κ) (p : Nat) (queue : List (LaterTask V)) (q : Nat) :
    ((s.beginProcess p queue).deferreds q).status = (s.deferreds q).status ∧
    ((s.beginProcess p queue).deferreds q).values = (s.deferreds q).values := by
  simp only [beginProcess, set, update_apply]
  split
  · rename_i hq
    rw [hq]
    exact ⟨rfl, rfl⟩
  · exact ⟨rfl, rfl⟩

/-- `process_queue` takes over what is registered. -/
theorem QueueInv.beginProcess (h : s.QueueInv)
    (hdrain : s.drain = some ⟨.processQueue p :: queue, none, none⟩) :
    (s.beginProcess p queue).QueueInv := by
  have hqueue : s.queued = p :: (s.beginProcess p queue).queued := by
    unfold Promises.queued drainQueue
    rw [hdrain]
    rfl
  have hflag := (h.queued p).mp (hqueue ▸ mem_cons_self)
  obtain ⟨hsettled, hpend⟩ := h.scheduled p hflag
  have hnodup := h.nodup
  rw [hqueue, nodup_cons] at hnodup
  have hstate := s.beginProcess_state p queue
  have hself : (s.beginProcess p queue).deferreds p =
      { s.deferreds p with processScheduled := false, pending := none } :=
    update_self p _ _
  have hother : ∀ q, q ≠ p → (s.beginProcess p queue).deferreds q = s.deferreds q :=
    fun q hq => update_of_ne hq _ _
  have hset : ∀ q, (s.beginProcess p queue).settled q = s.settled q := by
    intro q
    unfold Promises.settled
    rw [(hstate q).1]
  constructor
  · intro q hq
    have hqp : q ≠ p := by
      rintro rfl
      rw [(h.fresh q hq).1] at hpend
      exact hpend rfl
    rw [hother q hqp]
    exact h.fresh q hq
  · exact h.handled
  · intro q
    have hl := h.left q
    unfold Promises.rest at hl ⊢
    rw [hdrain] at hl
    show _ = (if p = q then s.pendingOf p else []) ++ _
    by_cases hq : q = p
    · rw [hq] at hl ⊢
      rw [if_pos rfl]
      unfold pendingOf at hl ⊢
      rw [hself, append_nil]
      exact hl
    rw [if_neg (Ne.symm hq)]
    unfold pendingOf at hl ⊢
    rw [hother q hq]
    exact hl
  · intro q
    have hc := h.called q
    unfold due at hc ⊢
    rw [(hstate q).1, (hstate q).2]
    exact hc
  · intro q hq
    exact h.unsettled q (hset q ▸ hq)
  · exact h.results
  · intro queue' q rest r heq
    have heq := some.inj heq
    rw [LaterDrain.mk.injEq] at heq
    cases heq.2.2
  · intro q queue' rest awaiting heq
    have heq := some.inj heq
    simp only [LaterDrain.mk.injEq, some.injEq, LaterFrame.processQueue.injEq] at heq
    rw [← heq.2.1.1, hset]
    exact hsettled
  · intro q hq
    have hqp : q ≠ p := by
      rintro rfl
      rw [hself] at hq
      cases hq
    rw [hother q hqp] at hq ⊢
    rw [hset]
    exact h.scheduled q hq
  · exact hnodup.2
  · intro q
    have hq := h.queued q
    rw [hqueue, mem_cons] at hq
    by_cases hqp : q = p
    · rw [hqp, hself]
      exact ⟨fun hmem => absurd hmem hnodup.1, nofun⟩
    · rw [hother q hqp, ← hq]
      exact ⟨.inr, fun hor => hor.resolve_left hqp⟩
  · intro q array harray
    have hqp : q ≠ p := by
      rintro rfl
      rw [hself] at harray
      cases harray
    rw [hother q hqp] at harray
    refine ⟨(h.arrays q array harray).1, ?_⟩
    intro r hr
    by_cases hrp : r = p
    · rw [hrp, hself] at hr
      cases hr
    · rw [hother r hrp] at hr
      exact (h.arrays q array harray).2 r hr
  · exact h.timeout
  intro q hq r
  rw [(hstate q).1] at hq
  rw [(hstate q).2]
  exact h.plain q hq r

/-- `later_drain` takes a `process_queue`; there is an array for it. -/
theorem Inv.takeProcess (h : s.Inv)
    (hdrain : s.drain = some ⟨.processQueue p :: queue, none, none⟩) :
    StepKept s (s.nextTask ⟨.processQueue p :: queue, none, none⟩) := by
  have hmem : p ∈ s.queued := by
    unfold queued drainQueue
    rw [hdrain]
    exact mem_cons_self
  have hpending := (h.queue.scheduled p ((h.queue.queued p).mp hmem)).2
  obtain ⟨array, harray⟩ := ne_none_iff_exists'.mp hpending
  have hnext : s.nextTask ⟨.processQueue p :: queue, none, none⟩ = s.beginProcess p queue := by
    unfold nextTask beginProcess pendingOf
    simp only [harray]
  have hstate := s.beginProcess_state p queue
  rw [hnext]
  refine ⟨⟨h.queue.beginProcess hdrain, h.adopt.congr rfl rfl rfl rfl rfl hstate, ?_⟩, ?_, ?_⟩
  · intro q _ hq hpend
    have hqp : q ≠ p := by
      rintro rfl
      simp [beginProcess, set] at hpend
    simp only [beginProcess, settled, set,
      update_of_ne hqp] at hq hpend ⊢
    exact h.scheduled q not_false hq hpend
  · exact ⟨fun q _ => hstate q, fun _ => prefix_rfl, fun _ => le_refl _,
      fun _ _ h => h, le_refl _⟩
  intro q n hn hc
  rcases hc.cases hdrain with hc | hc
  · exact .inl hc
  refine .inr ⟨queue, _, none, rfl, ?_⟩
  by_cases hqp : q = p
  · -- all that is registered by now is in the array
    have hl := congrArg List.length (h.queue.left p)
    have hrest : s.rest p = [] := by
      unfold rest
      rw [hdrain]
    have hle := h.queue.handled p
    rw [hrest, nil_append, length_drop] at hl
    refine .inr ⟨s.pendingOf p, by rw [hqp], ?_⟩
    rw [hqp] at hn ⊢
    show n ≤ s.handled p + _
    omega
  · rcases hc with hc | ⟨rest, heq, -⟩
    · exact .inl ((mem_cons.mp hc).resolve_left hqp)
    · cases heq

/-- `later_drain` goes on to its next function. -/
theorem Inv.nextTask_kept (h : s.Inv)
    (hdrain : s.drain = some ⟨queue, none, none⟩) :
    StepKept s (s.nextTask ⟨queue, none, none⟩) := by
  rcases queue with _ | ⟨p | ⟨callbacks, values⟩, queue⟩
  · -- the queue is empty
    refine ⟨h.setDrain ?_ ?_ ?_ ?_, grows_setDrain s none, ?_⟩
    · unfold queued drainQueue
      rw [hdrain]
    · intro p
      unfold rest
      rw [hdrain]
    · exact nofun
    · exact fun _ _ _ _ heq => by cases heq
    intro p n _ hc
    rcases hc.cases hdrain with hc | hc | ⟨rest, heq, -⟩
    · exact .inl hc
    · cases hc
    · cases heq
  · exact h.takeProcess hdrain
  refine ⟨h.setDrain ?_ ?_ ?_ ?_, grows_setDrain s _, ?_⟩
  · unfold queued drainQueue
    rw [hdrain]
    rfl
  · intro p
    unfold rest
    rw [hdrain]
  · exact fun _ _ _ _ heq => by simp at heq
  · exact fun _ _ _ _ heq => by simp at heq
  intro p n _ hc
  rcases hc.cases hdrain with hc | hc | ⟨rest, heq, -⟩
  · exact .inl hc
  · exact .inr ⟨_, _, _, rfl, .inl hc⟩
  · cases heq

/-- **`later_drain` goes on.** -/
theorem Inv.next (h : s.Inv) : StepKept s s.next := by
  unfold Promises.next
  split
  · exact .of_silent h (.refl s)
  · exact .of_silent h (.refl s)
  · rename_i queue hdrain
    exact h.nextTask_kept hdrain
  · rename_i queue p hdrain
    apply h.setFrame hdrain none none
    · exact nofun
    · intro q rest heq
      simp only [some.injEq, LaterFrame.processQueue.injEq] at heq
      exact .inr ⟨rfl, heq.2.symm⟩
  · rename_i queue values hdrain
    apply h.setFrame hdrain none none <;> exact nofun
  · rename_i queue p reg rest hdrain
    exact h.processTurn_kept hdrain
  · rename_i queue values reg rest hdrain
    exact h.notifyTurn_kept hdrain

/-- A callback returns another value than the promise that its own registration made: `resolve`
    throws for that one. -/
def other (s : Promises V κ) : PromiseEvent V κ → Bool
  | .ret value =>
    match s.drain with
    | some ⟨_, some (.processQueue _ _), some result⟩ => !isOwn result [value]
    | _ => true
  | _ => true

/-- **A callback returns.** -/
theorem Inv.callbackReturns (h : s.Inv) {value : PromiseValue V} (hother : s.other (.ret value))
    (hknown : value.known s.created) :
    StepKept s (s.callbackReturns value) ∧ (s.callbackReturns value).called = s.called := by
  unfold Promises.callbackReturns
  split
  · rename_i queue p rest result hdrain
    have hres := h.queue.awaits _ _ _ _ hdrain
    have hframe := h.setFrame hdrain (some (.processQueue p rest)) none
      (fun _ _ _ => ⟨rfl, rfl⟩) fun _ _ _ => .inl rfl
    obtain ⟨hinv, hquiet⟩ := hframe.inv.resolve hres [value] (by
      intro other hhead
      rw [head?_cons, some.injEq] at hhead
      rw [hhead] at hknown
      exact of_decide_eq_true hknown)
    have hnot : isOwn result [value] = false := by
      unfold other at hother
      rw [hdrain] at hother
      exact (Bool.not_eq_true' _).mp hother
    rw [if_neg (by rw [hnot]; exact Bool.false_ne_true)]
    exact ⟨hframe.silent hinv hquiet, hquiet.called⟩
  · rename_i queue values rest result hdrain
    have hframe := h.setFrame hdrain (some (.notify values rest)) none
      (fun _ _ heq => by simp at heq) fun _ _ heq => by simp at heq
    obtain ⟨hinv, hquiet⟩ := hframe.inv.deferredNotify result [value]
    exact ⟨hframe.silent hinv hquiet, hquiet.called⟩
  · exact ⟨.of_silent h (.refl s), rfl⟩

/-- **`later_drain` starts.** -/
theorem Inv.timer (h : s.Inv) : StepKept s s.timer ∧ s.timer.called = s.called := by
  unfold Promises.timer
  split
  · rename_i hcond
    rw [Bool.and_eq_true, isNone_iff_eq_none] at hcond
    have hdrain := hcond.1
    have hqueue : ({ s with
        laterTimeout := false, laterQueue := [], drain := some ⟨s.laterQueue, none, none⟩ } :
        Promises V κ).queued = s.queued := by
      unfold Promises.queued drainQueue
      rw [hdrain]
      simp
    refine ⟨⟨⟨⟨h.queue.fresh, h.queue.handled, ?_, h.queue.called, h.queue.unsettled,
      h.queue.results, ?_, ?_, h.queue.scheduled, hqueue ▸ h.queue.nodup, hqueue ▸ h.queue.queued,
      h.queue.arrays, fun hne => absurd rfl hne, h.queue.plain⟩,
      h.adopt.congr rfl rfl rfl rfl rfl fun _ => ⟨rfl, rfl⟩, h.scheduled⟩, ?_, ?_⟩, rfl⟩
    · intro p
      have hl := h.queue.left p
      unfold Promises.rest at hl ⊢
      rw [hdrain] at hl
      exact hl
    · intro _ _ _ _ heq
      simp at heq
    · intro _ _ _ _ heq
      simp at heq
    · exact ⟨fun _ _ => ⟨rfl, rfl⟩, fun _ => prefix_rfl, fun _ => le_refl _,
        fun _ _ h => h, le_refl _⟩
    intro p n _ hc
    rcases hc with hc | ⟨queue, frame, awaiting, hd, -⟩
    · exact .inl hc
    · rw [hdrain] at hd
      cases hd
  · exact ⟨.of_silent h (.refl s), rfl⟩

variable [DecidableEq κ]

/-- **Every step keeps what is kept**, and only `later_drain` calls a callback. -/
theorem Inv.step (h : s.Inv) (e : PromiseEvent V κ) (hother : s.other e) :
    StepKept s (s.step e) ∧
      ((s.step e).called ≠ s.called → e = .next ∧ s.programRuns = false) := by
  cases e with
  | call call =>
    show StepKept s (if _ then _ else _) ∧ ((if _ then _ else _ : Promises V κ).called ≠ _ → _)
    split
    · rename_i hcond
      rw [Bool.and_eq_true] at hcond
      obtain ⟨hinv, hquiet⟩ := h.invoke hcond.2
      exact ⟨.of_silent hinv hquiet, fun hne => absurd hquiet.called hne⟩
    · exact ⟨.of_silent h (.refl s), fun hne => absurd rfl hne⟩
  | ret value =>
    show StepKept s (if _ then _ else _) ∧ ((if _ then _ else _ : Promises V κ).called ≠ _ → _)
    split
    · rename_i hknown
      obtain ⟨hkept, hcalled⟩ := h.callbackReturns hother hknown
      exact ⟨hkept, fun hne => absurd hcalled hne⟩
    · exact ⟨.of_silent h (.refl s), fun hne => absurd rfl hne⟩
  | timer => exact ⟨h.timer.1, fun hne => absurd h.timer.2 hne⟩
  | next =>
    refine ⟨h.next, fun hne => ⟨rfl, ?_⟩⟩
    -- while the program runs, nothing goes on
    by_contra hruns
    rw [Bool.not_eq_false] at hruns
    apply hne
    show s.next.called = s.called
    unfold Promises.next
    unfold programRuns at hruns
    rcases hdrain : s.drain with _ | ⟨queue, frame, awaiting⟩
    · rfl
    · rw [hdrain] at hruns
      obtain ⟨result, rfl⟩ := isSome_iff_exists.mp hruns
      rfl

omit [DecidableEq κ] in
theorem inv_new : (new : Promises V κ).Inv := by
  constructor
  · constructor <;> simp [new, rest, pendingOf, queued, drainQueue, due,
      settled]
  · constructor <;> simp [new]
  · intro p _ _ hpend
    exact absurd rfl hpend

end Promises

end Cockpit
