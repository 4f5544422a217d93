import Cockpit.Lib.Run

namespace Cockpit.Page

open Lib List Function Prod

/-!
# `src/base1/cockpit.js`: exceptions in the later queue

Functions are numbered in the order of the calls of `later_invoke`, and the callbacks of a promise
in the order in which they are registered.  A callback that is not a function counts as one that
returns.  While a function runs the program can do anything; then it returns, or it throws, which
ends `later_drain`.

* `LaterQueue.NothingLost` — every function was started or waits to be, and every callback was
  called or waits to be;
* `LaterQueue.run_nothing_lost` — this holds until an exception leaves something behind.
-/

/-- A function in the later queue. -/
inductive LaterFunction where
  | plain
  | processQueue (p : Nat)
  deriving DecidableEq

/-- `later_drain` that runs. -/
structure RunningDrain where
  /-- The rest of its queue. -/
  queue : List (Nat × LaterFunction)
  /-- The promise whose `process_queue` runs, and the callbacks behind the one that runs. -/
  left : Option (Nat × List Nat)

structure LaterQueue where
  laterQueue : List (Nat × LaterFunction) := []
  laterTimeout : Bool := false
  drain : Option RunningDrain := none
  /-- `status > 0` -/
  settled : Nat → Bool := fun _ => false
  pending : Nat → List Nat := fun _ => []
  processScheduled : Nat → Bool := fun _ => false
  /-- History: the calls of `later_invoke` with a function. -/
  invoked : Nat := 0
  started : List Nat := []
  registered : Nat → Nat := fun _ => 0
  called : Nat → List Nat := fun _ => []

namespace LaterQueue

variable (s : LaterQueue)

/-- `later_invoke` -/
def laterInvoke (func : Option LaterFunction) : LaterQueue :=
  match func with
  | none => { s with laterTimeout := true }
  | some func =>
    { s with
      laterQueue := s.laterQueue ++ [(s.invoked, func)]
      laterTimeout := true
      invoked := s.invoked + 1 }

variable (p : Nat)

/-- `schedule_process_queue` -/
def scheduleProcessQueue : LaterQueue :=
  if s.processScheduled p || (s.pending p).isEmpty then s
  else ({ s with processScheduled := update s.processScheduled p true } :
    LaterQueue).laterInvoke (some (.processQueue p))

/-- `promise_then` -/
def promiseThen : LaterQueue :=
  let s := { s with
    pending := update s.pending p (s.pending p ++ [s.registered p])
    registered := update s.registered p (s.registered p + 1) }
  if s.settled p then s.scheduleProcessQueue p else s

/-- The end of `deferred_resolve` and `deferred_reject` -/
def settle : LaterQueue :=
  ({ s with settled := update s.settled p true } : LaterQueue).scheduleProcessQueue p

/-- The callback at the front of what is left of a promise is called. -/
def call (queue : List (Nat × LaterFunction)) (p c : Nat) (left : List Nat) :
    LaterQueue :=
  { s with
    drain := some ⟨queue, some (p, left)⟩
    called := update s.called p (s.called p ++ [c]) }

/-- The loop of `later_drain` comes to the next function, which begins to run. -/
def next : List (Nat × LaterFunction) → LaterQueue
  | [] => { s with drain := none }
  | (id, .plain) :: queue =>
    { s with started := s.started ++ [id], drain := some ⟨queue, none⟩ }
  | (id, .processQueue p) :: queue =>
    let s := { s with
      started := s.started ++ [id]
      processScheduled := update s.processScheduled p false }
    match s.pending p with
    -- `pending.length` throws
    | [] => { s with drain := none }
    | c :: left =>
      ({ s with pending := update s.pending p [] } : LaterQueue).call queue p c left

inductive Event where
  | laterInvoke (func : Bool)
  | promiseThen (p : Nat)
  | settle (p : Nat)
  /-- The timeout fires. -/
  | timeout
  /-- What runs returns. -/
  | ret
  /-- What runs throws. -/
  | throws

def step : Event → LaterQueue
  | .laterInvoke func => s.laterInvoke (if func then some .plain else none)
  | .promiseThen p => s.promiseThen p
  | .settle p => s.settle p
  | .timeout =>
    if s.drain.isNone && s.laterTimeout then
      ({ s with laterTimeout := false, laterQueue := [] } : LaterQueue).next s.laterQueue
    else s
  | .ret =>
    match s.drain with
    | none => s
    | some ⟨queue, some (p, c :: left)⟩ => s.call queue p c left
    | some ⟨queue, _⟩ => s.next queue
  | .throws => { s with drain := none }

/-- The functions that wait, in the order in which they will be started. -/
def waiting : List (Nat × LaterFunction) :=
  (match s.drain with
    | none => []
    | some drain => drain.queue) ++ s.laterQueue

/-- The callbacks of a promise that the running `process_queue` has not come to. -/
def left : List Nat :=
  match s.drain with
  | some ⟨_, some (q, cs)⟩ => if q = p then cs else []
  | _ => []

/-- Every function was started, in the order of the calls, or waits for the drain that runs or for a
    timeout that is set; every callback was called, or waits for the same. -/
structure NothingLost (s : LaterQueue) : Prop where
  functions : s.started ++ s.waiting.map fst = range s.invoked
  timeout : s.laterQueue ≠ [] → s.laterTimeout
  callbacks : ∀ p, s.called p ++ s.left p ++ s.pending p = range (s.registered p)
  scheduled : ∀ p, s.settled p → s.pending p ≠ [] → .processQueue p ∈ s.waiting.map snd

/-- Once what runs returns and the timeouts fire, every function is started. -/
def Finishes : Prop :=
  ∃ es, (∀ e ∈ es, e = .timeout ∨ e = .ret) ∧ (run step s es).started = range s.invoked

/-- What throws leaves nothing behind. -/
def Harmless : Event → Prop
  | .throws => ∀ drain, s.drain = some drain → drain.queue = [] ∧ ∀ p, s.left p = []
  | _ => True

/-- A promise is in the queue once when it is scheduled. -/
structure Core (s : LaterQueue) : Prop where
  functions : s.started ++ s.waiting.map fst = range s.invoked
  timeout : s.laterQueue ≠ [] → s.laterTimeout
  callbacks : ∀ p, s.called p ++ s.left p ++ s.pending p = range (s.registered p)
  once : ∀ p, (s.waiting.map snd).count (.processQueue p) =
    if s.processScheduled p then 1 else 0
  pending : ∀ p, s.processScheduled p → s.pending p ≠ []

/-- A settled promise with callbacks is scheduled. -/
def Due : Prop :=
  s.settled p → s.pending p ≠ [] → s.processScheduled p

structure Inv (s : LaterQueue) : Prop extends s.Core where
  due : ∀ p, s.Due p

variable {s : LaterQueue}

theorem Core.mem_iff (h : s.Core) (p : Nat) :
    .processQueue p ∈ s.waiting.map snd ↔ s.processScheduled p := by
  rw [← count_pos_iff, h.once]
  cases s.processScheduled p with
  | true | false => simp

theorem Inv.nothingLost (h : s.Inv) : s.NothingLost :=
  { h with scheduled := fun p hset hpend => (h.mem_iff p).mpr (h.due p hset hpend) }

/-! ### Steps -/

theorem Inv.congr {s' : LaterQueue} (h : s.Inv) (hwait : s'.waiting = s.waiting)
    (hleft : s'.left = s.left) (htime : s'.laterQueue ≠ [] → s'.laterTimeout)
    (hset : s'.settled = s.settled) (hpend : s'.pending = s.pending)
    (hsched : s'.processScheduled = s.processScheduled) (hinvoked : s'.invoked = s.invoked)
    (hstarted : s'.started = s.started) (hreg : s'.registered = s.registered)
    (hcalled : s'.called = s.called) : s'.Inv := by
  refine ⟨⟨?_, htime, ?_, ?_, ?_⟩, ?_⟩
  · rw [hstarted, hwait, hinvoked]
    exact h.functions
  · rw [hcalled, hleft, hpend, hreg]
    exact h.callbacks
  · rw [hwait, hsched]
    exact h.once
  · rw [hsched, hpend]
    exact h.pending
  · unfold Due
    rw [hset, hpend, hsched]
    exact h.due

theorem waiting_laterInvoke (s : LaterQueue) (func : LaterFunction) :
    (s.laterInvoke (some func)).waiting = s.waiting ++ [(s.invoked, func)] := by
  simp [waiting, laterInvoke]

/-- The function that is invoked comes last. -/
theorem functions_laterInvoke
    (h : s.started ++ s.waiting.map fst = range s.invoked) (func : LaterFunction) :
    (s.laterInvoke (some func)).started ++ (s.laterInvoke (some func)).waiting.map fst =
      range (s.laterInvoke (some func)).invoked := by
  rw [waiting_laterInvoke, map_append, ← append_assoc]
  show s.started ++ s.waiting.map fst ++ [s.invoked] = range (s.invoked + 1)
  rw [h, range_succ]

theorem Inv.laterInvoke (h : s.Inv) (func : Bool) :
    (s.laterInvoke (if func then some .plain else none)).Inv := by
  cases func with
  | false => exact h.congr rfl rfl (fun _ => rfl) rfl rfl rfl rfl rfl rfl rfl
  | true =>
    refine ⟨⟨functions_laterInvoke h.functions .plain, fun _ => rfl, h.callbacks, fun p => ?_,
      h.pending⟩, h.due⟩
    rw [if_pos rfl, waiting_laterInvoke, map_append, count_append, h.once p]
    rfl

variable {p : Nat}

theorem Core.scheduleProcessQueue (h : s.Core)
    (hothers : ∀ q, q ≠ p → s.Due q) : (s.scheduleProcessQueue p).Inv := by
  unfold LaterQueue.scheduleProcessQueue
  split
  · rename_i hidle
    refine ⟨h, fun q => ?_⟩
    by_cases hq : q = p
    · subst hq
      intro _ hpend
      rw [Bool.or_eq_true, List.isEmpty_iff] at hidle
      exact hidle.resolve_right hpend
    · exact hothers q hq
  rename_i hidle
  simp only [Bool.or_eq_true, List.isEmpty_iff, not_or, Bool.not_eq_true] at hidle
  obtain ⟨hsched, hpend⟩ := hidle
  refine ⟨⟨functions_laterInvoke h.functions _, fun _ => rfl, h.callbacks, fun q => ?_,
    fun q hq => ?_⟩, fun q => ?_⟩
  · rw [waiting_laterInvoke, map_append, count_append]
    show (s.waiting.map snd).count (.processQueue q) +
      [LaterFunction.processQueue p].count (.processQueue q) =
        if update s.processScheduled p true q then 1 else 0
    rw [h.once q]
    by_cases hqp : q = p
    · subst hqp
      simp [hsched]
    · simp [update_of_ne hqp, Ne.symm hqp]
  · by_cases hqp : q = p
    · exact hqp ▸ hpend
    · have hold : update s.processScheduled p true q := hq
      rw [update_of_ne hqp] at hold
      exact h.pending q hold
  show s.settled q → s.pending q ≠ [] → update s.processScheduled p true q
  intro hset hqpending
  by_cases hqp : q = p
  · rw [hqp, update_self]
  · rw [update_of_ne hqp]
    exact hothers q hqp hset hqpending

theorem Inv.settle (h : s.Inv) (p : Nat) : (s.settle p).Inv := by
  have hcore : ({ s with settled := update s.settled p true } : LaterQueue).Core :=
    { h with }
  refine hcore.scheduleProcessQueue fun q hq hset => ?_
  have hold : update s.settled p true q := hset
  rw [update_of_ne hq] at hold
  exact h.due q hold

theorem Inv.promiseThen (h : s.Inv) (p : Nat) : (s.promiseThen p).Inv := by
  have hcore : ({ s with
      pending := update s.pending p (s.pending p ++ [s.registered p])
      registered := update s.registered p (s.registered p + 1) } : LaterQueue).Core := by
    refine ⟨h.functions, h.timeout, fun q => ?_, h.once, fun q hq => ?_⟩
    · show s.called q ++ s.left q ++ update s.pending p _ q =
        range (update s.registered p _ q)
      by_cases hqp : q = p
      · subst hqp
        rw [update_self, update_self, range_succ, ← h.callbacks q]
        simp
      · rw [update_of_ne hqp, update_of_ne hqp]
        exact h.callbacks q
    show update s.pending p _ q ≠ []
    by_cases hqp : q = p
    · subst hqp
      rw [update_self]
      simp
    · rw [update_of_ne hqp]
      exact h.pending q hq
  have hothers : ∀ q, q ≠ p → s.settled q →
      update s.pending p (s.pending p ++ [s.registered p]) q ≠ [] →
        s.processScheduled q := by
    intro q hq hset hpend
    rw [update_of_ne hq] at hpend
    exact h.due q hset hpend
  unfold LaterQueue.promiseThen
  dsimp only
  split
  · exact hcore.scheduleProcessQueue hothers
  rename_i hset
  refine ⟨hcore, fun q => ?_⟩
  by_cases hq : q = p
  · subst hq
    exact fun hnow => absurd hnow hset
  · exact hothers q hq

variable {queue : List (Nat × LaterFunction)}

/-- A callback is called that was the next one of its promise. -/
theorem Core.call {c : Nat}
    {left : List Nat} (h : s.Core) (hwait : s.waiting = queue ++ s.laterQueue)
    (hleft : ∀ q, s.left q = if p = q then c :: left else []) : (s.call queue p c left).Core := by
  refine ⟨?_, h.timeout, fun q => ?_, ?_, h.pending⟩
  · have hfuns := h.functions
    rw [hwait] at hfuns
    exact hfuns
  · have hcalls := h.callbacks q
    rw [hleft] at hcalls
    show update s.called p _ q ++ (if p = q then left else []) ++ s.pending q =
      range (s.registered q)
    by_cases hq : p = q
    · subst hq
      rw [if_pos rfl] at hcalls ⊢
      rw [update_self]
      simpa using hcalls
    · rw [if_neg hq] at hcalls ⊢
      rw [update_of_ne (Ne.symm hq)]
      exact hcalls
  · have honce := h.once
    rw [hwait] at honce
    exact honce

/-- A drain that comes to its next function. -/
theorem Inv.next
    (h : ({ s with drain := some ⟨queue, none⟩ } : LaterQueue).Inv) : (s.next queue).Inv := by
  cases queue with
  | nil => exact h.congr rfl rfl h.timeout rfl rfl rfl rfl rfl rfl rfl
  | cons func queue =>
    obtain ⟨id, func⟩ := func
    have hfuns : (s.started ++ [id]) ++ (queue ++ s.laterQueue).map fst =
        range s.invoked := by
      rw [append_assoc]
      exact h.functions
    have honce : ∀ q, ((func :: (queue ++ s.laterQueue).map snd)).count (.processQueue q) =
        if s.processScheduled q then 1 else 0 := h.once
    cases func with
    | plain =>
      exact ⟨{ h with functions := hfuns, once := fun q => honce q }, h.due⟩
    | processQueue p =>
      have hsched : s.processScheduled p := (h.mem_iff p).mp mem_cons_self
      have hpend := h.pending p hsched
      unfold next
      dsimp only at hpend ⊢
      -- the callbacks are taken away from the promise
      cases hcalls : s.pending p with
      | nil => exact absurd hcalls hpend
      | cons c left =>
        refine ⟨⟨hfuns, h.timeout, fun q => ?_, fun q => ?_, fun q hq => ?_⟩, fun q => ?_⟩
        · have hold : s.called q ++ [] ++ s.pending q = range (s.registered q) := h.callbacks q
          show update s.called p _ q ++ (if p = q then left else []) ++
            update s.pending p [] q = range (s.registered q)
          by_cases hq : q = p
          · subst hq
            rw [hcalls] at hold
            simpa using hold
          · rw [update_of_ne hq, update_of_ne hq, if_neg (Ne.symm hq)]
            exact hold
        · have hold := honce q
          show ((queue ++ s.laterQueue).map snd).count (.processQueue q) =
            if update s.processScheduled p false q then 1 else 0
          by_cases hq : q = p
          · subst hq
            rw [hsched] at hold
            simpa using hold
          · rw [update_of_ne hq, ← hold, count_cons_of_ne]
            simpa using Ne.symm hq
        · have hq : update s.processScheduled p false q := hq
          show update s.pending p [] q ≠ []
          by_cases hqp : q = p
          · rw [hqp, update_self] at hq
            exact nomatch hq
          · rw [update_of_ne hqp] at hq ⊢
            exact h.pending q hq
        show s.settled q → update s.pending p [] q ≠ [] →
          update s.processScheduled p false q
        intro hset hqpending
        by_cases hqp : q = p
        · rw [hqp, update_self] at hqpending
          exact absurd rfl hqpending
        · rw [update_of_ne hqp] at hqpending ⊢
          exact h.due q hset hqpending

/-- Nothing is lost as long as what throws leaves nothing behind. -/
theorem Inv.step (h : s.Inv) {e : Event} (hharm : s.Harmless e) :
    (s.step e).Inv := by
  cases e with
  | laterInvoke func => exact h.laterInvoke func
  | promiseThen p => exact h.promiseThen p
  | settle p => exact h.settle p
  | timeout =>
    unfold LaterQueue.step
    dsimp only
    split
    · rename_i hfires
      have hdrain : s.drain = none := by
        simpa using (Bool.and_eq_true_iff.mp hfires).1
      refine Inv.next (h.congr ?_ ?_ (fun hne => absurd rfl hne) rfl rfl rfl rfl rfl rfl rfl)
      · simp [waiting, hdrain]
      · funext p
        simp [left, hdrain]
    · exact h
  | ret =>
    unfold LaterQueue.step
    dsimp only
    split
    · exact h
    · rename_i queue p c left hdrain
      refine ⟨h.toCore.call ?_ fun q => ?_, h.due⟩
      · simp [waiting, hdrain]
      · simp [LaterQueue.left, hdrain]
    rename_i queue frame hframe hdrain
    refine Inv.next (h.congr ?_ ?_ h.timeout rfl rfl rfl rfl rfl rfl rfl)
    · simp [waiting, hdrain]
    -- no callback is left
    funext p
    unfold LaterQueue.left
    rw [hdrain]
    cases frame with
    | none => rfl
    | some frame =>
      obtain ⟨q, cs⟩ := frame
      cases cs with
      | nil => simp
      | cons c cs => exact absurd rfl (hframe q c cs)
  | throws =>
    show ({ s with drain := none } : LaterQueue).Inv
    refine h.congr ?_ ?_ h.timeout rfl rfl rfl rfl rfl rfl rfl
    · cases hdrain : s.drain with
      | none => simp [waiting, hdrain]
      | some drain => simp [waiting, hdrain, (hharm drain hdrain).1]
    funext p
    cases hdrain : s.drain with
    | none => simp [left, hdrain]
    | some drain => exact ((hharm drain hdrain).2 p).symm

/-- An exception that leaves something behind loses it. -/
theorem Inv.lost (h : s.Inv) {e : Event} (hharm : ¬ s.Harmless e) :
    ¬ (s.step e).NothingLost := by
  cases e with
  | laterInvoke _ | promiseThen _ | settle _ | timeout | ret => exact absurd trivial hharm
  | throws =>
    intro hkept
    refine hharm fun drain hdrain => ⟨?_, fun p => ?_⟩
    · have hbef := congrArg length h.functions
      have hafter := congrArg length hkept.functions
      simp [LaterQueue.step, waiting, hdrain] at hbef hafter
      exact eq_nil_of_length_eq_zero (by omega)
    have hbef := congrArg length (h.callbacks p)
    have hafter := congrArg length (hkept.callbacks p)
    simp [LaterQueue.step, LaterQueue.left] at hafter
    simp at hbef
    exact eq_nil_of_length_eq_zero (by omega)

/-- The turns that the function that runs still takes. -/
def busy (s : LaterQueue) : Nat :=
  match s.drain with
  | none => 0
  | some ⟨_, none⟩ => 1
  | some ⟨_, some (_, left)⟩ => left.length + 1

theorem waiting_next (s : LaterQueue) (func : Nat × LaterFunction)
    (queue : List (Nat × LaterFunction)) :
    (s.next (func :: queue)).waiting.length ≤ queue.length + s.laterQueue.length ∧
      (s.next (func :: queue)).invoked = s.invoked := by
  obtain ⟨id, _ | p⟩ := func
  · simp [next, waiting]
  unfold next
  dsimp only
  cases s.pending p with
  | nil => simp [waiting]
  | cons c left => simp [waiting, call]

/-- One more turn, as long as a function waits. -/
theorem turn_shrinks (h : s.Inv) (hne : s.waiting ≠ []) :
    ∃ e, (e = .timeout ∨ e = .ret) ∧ (s.step e).invoked = s.invoked ∧
      ((s.step e).waiting.length < s.waiting.length ∨
        ((s.step e).waiting.length = s.waiting.length ∧ (s.step e).busy < s.busy)) := by
  cases hdrain : s.drain with
  | none =>
    have hqueue : s.laterQueue ≠ [] := by simpa [waiting, hdrain] using hne
    have htime := h.timeout hqueue
    obtain ⟨func, queue, hcons⟩ := exists_cons_of_ne_nil hqueue
    have hstep : s.step .timeout =
        ({ s with laterTimeout := false, laterQueue := [] } : LaterQueue).next (func :: queue) := by
      simp [step, hdrain, htime, hcons]
    obtain ⟨hlen, hinvoked⟩ :=
      waiting_next { s with laterTimeout := false, laterQueue := [] } func queue
    refine ⟨.timeout, .inl rfl, by rw [hstep, hinvoked], .inl ?_⟩
    rw [hstep]
    simp [waiting, hdrain, hcons] at hlen ⊢
    omega
  | some drain =>
    obtain ⟨queue, frame⟩ := drain
    refine ⟨.ret, .inr rfl, ?_⟩
    have hnext : (s.next queue).invoked = s.invoked ∧
        ((s.next queue).waiting.length < s.waiting.length ∨
          ((s.next queue).waiting.length = s.waiting.length ∧ (s.next queue).busy < s.busy)) := by
      have hbusy : 0 < s.busy := by
        unfold busy
        rw [hdrain]
        split <;> simp_all
      cases queue with
      | nil => exact ⟨rfl, .inr ⟨by simp [next, waiting, hdrain], hbusy⟩⟩
      | cons func queue =>
        obtain ⟨hlen, hinvoked⟩ := waiting_next s func queue
        refine ⟨hinvoked, .inl ?_⟩
        simp [waiting, hdrain] at hlen ⊢
        omega
    cases frame with
    | none => simpa [step, hdrain] using hnext
    | some frame =>
      obtain ⟨p, cs⟩ := frame
      cases cs with
      | nil => simpa [step, hdrain] using hnext
      | cons c left =>
        -- the next callback of the same promise
        simp [step, hdrain, call, waiting, busy]

/-- **Every function is started** in the end. -/
theorem Inv.finishes (h : s.Inv) : s.Finishes := by
  have hall : ∀ n b (s : LaterQueue), s.Inv → s.waiting.length = n → s.busy = b → s.Finishes := by
    intro n
    induction n using Nat.strong_induction_on with
    | _ n ihn =>
      intro b
      induction b using Nat.strong_induction_on with
      | _ b ihb =>
        intro s h hn hb
        by_cases hne : s.waiting = []
        · refine ⟨[], nofun, ?_⟩
          have hfuns := h.functions
          rw [hne, map_nil, append_nil] at hfuns
          exact hfuns
        obtain ⟨e, he, hinvoked, hsmaller⟩ := turn_shrinks h hne
        have hharm : s.Harmless e := by
          rcases he with rfl | rfl <;> trivial
        have hfinishes : (s.step e).Finishes := by
          rcases hsmaller with hless | ⟨hsame, hless⟩
          · exact ihn _ (hn ▸ hless) _ _ (h.step hharm) rfl rfl
          · exact ihb _ (hb ▸ hless) _ (h.step hharm) (hsame.trans hn) rfl
        obtain ⟨es, hes, hstarted⟩ := hfinishes
        refine ⟨e :: es, fun e' he' => ?_, hstarted.trans (congrArg range hinvoked)⟩
        exact (mem_cons.mp he').elim (fun heq => heq ▸ he) (hes e')
  exact hall _ _ s h rfl rfl

theorem inv_new : ({} : LaterQueue).Inv :=
  ⟨⟨rfl, fun hne => absurd rfl hne, fun _ => rfl, fun _ => rfl, nofun⟩, nofun⟩

/-- **Nothing is lost in a run**, and every function is started in the end, exactly as long as what
    throws leaves nothing behind. -/
theorem run_nothing_lost (es : List Event) :
    (∀ before, before <+: es → (run step {} before).NothingLost ∧ (run step {} before).Finishes) ↔
        RunOk step Harmless {} es :=
  Lib.run_good_iff Inv (fun s => s.NothingLost ∧ s.Finishes)
    (fun _ h => ⟨h.nothingLost, h.finishes⟩) (fun _ _ h => h.step)
    (fun _ _ h hharmless hkept => h.lost hharmless hkept.1) inv_new es

/-- Two functions, of which the first throws. -/
def throwingRun : List Event := [.laterInvoke true, .laterInvoke true, .timeout, .throws]

/-- The second function is never started. -/
theorem not_nothing_lost_throwing :
    ¬ ∀ es, (run step {} es).NothingLost := by
  intro h
  have hfunctions := (h throwingRun).functions
  exact nomatch hfunctions

end LaterQueue

end Cockpit.Page
