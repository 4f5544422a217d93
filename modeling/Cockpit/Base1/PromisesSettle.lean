import Cockpit.Base1.PromisesSteps

namespace Cockpit

open Lib List Option Promises Nat

/-!
# Promises settle once and call back once

* `Promises.drain_ends` — a `later_drain` ends when its callbacks return;
* `Promises.run_promises` — what a program can rely on, in every run.
-/

variable {V κ : Type}

namespace Promises

variable {s t u : Promises V κ} {p : Nat}

/-! ### What leaves `later_drain` alone -/

section

variable (s : Promises V κ)

section

variable (id : Nat)

@[simp] theorem drain_set (state : DeferredState V) :
    (s.set id state).drain = s.drain := rfl

@[simp] theorem drain_schedule :
    (s.scheduleProcessQueue id).drain = s.drain := (s.schedule_rest id).1

@[simp] theorem drain_register
    (fulfilled rejected updated : Option (HandlerFn κ)) :
    (s.register id fulfilled rejected updated).drain = s.drain := by
  have hpush : ∀ (s : Promises V κ) reg, (s.push id reg).drain = s.drain := by
    intro s reg
    unfold push
    dsimp only
    split <;> rfl
  unfold register
  dsimp only
  split
  · rw [drain_schedule, hpush]
    rfl
  · rw [hpush]
    rfl

section

variable (values : List (PromiseValue V))

@[simp] theorem drain_deferredResolve
    : (s.deferredResolve id values).drain = s.drain := by
  unfold deferredResolve
  split
  · simp [follow]
  · simp [settle]

@[simp] theorem drain_resolve :
    (s.resolve id values).drain = s.drain := by
  unfold resolve
  split <;> simp

@[simp] theorem drain_reject :
    (s.reject id values).drain = s.drain := by
  unfold reject
  split <;> simp [deferredReject, settle]

@[simp] theorem drain_deferredNotify
    : (s.deferredNotify id values).drain = s.drain := by
  unfold deferredNotify
  split
  · split <;> rfl
  · rfl

end

end

@[simp] theorem drain_adoptCall (c : Nat) (status : PromiseStatus)
    (values : List (PromiseValue V)) : (s.adoptCall c status values).drain = s.drain := by
  unfold adoptCall
  dsimp only
  split
  · rfl
  · split <;> simp [deferredReject, settle]

end

/-! ### `later_drain` ends -/

/-- What is left of the array of a function. -/
def frameLeft : Option (LaterFrame V κ) → Nat
  | none => 0
  | some (.processQueue _ rest) | some (.notify _ rest) => rest.length + 1

/-- What is left of `later_drain`: the functions of its queue, and in the one that runs twice the
    turns of its loop, and the callback that has not returned.  What the program registers
    meanwhile may make the arrays of the queue longer, but not the queue. -/
def drainLeft (s : Promises V κ) : ℕ ×ₗ ℕ :=
  match s.drain with
  | none => toLex (0, 0)
  | some ⟨queue, frame, awaiting⟩ =>
    toLex (queue.length + 1, 2 * frameLeft frame + awaiting.toList.length)

/-- The event that the page waits for: the callback that was called returns, `later_drain` goes on,
    or its timer fires. -/
def drives (s : Promises V κ) (e : PromiseEvent V κ) : Prop :=
  match s.drain with
  | none => s.laterTimeout → e = .timer
  | some ⟨_, _, none⟩ => e = .next
  | some ⟨_, frame, some _⟩ =>
    frame.isSome ∧ ∃ value, e = .ret value ∧ value.known s.created

theorem drainLeft_none (hs : s.drain ≠ none) (ht : t.drain = none) : t.drainLeft < s.drainLeft := by
  obtain ⟨drain, hdrain⟩ := ne_none_iff_exists'.mp hs
  unfold drainLeft
  rw [ht, hdrain]
  exact Prod.Lex.toLex_lt_toLex.mpr (.inl (succ_pos _))

variable {queue : List (LaterTask V)}

theorem drainLeft_frame {frame frame' : Option (LaterFrame V κ)}
    {awaiting awaiting' : Option Nat} (hs : s.drain = some ⟨queue, frame, awaiting⟩)
    (ht : t.drain = some ⟨queue, frame', awaiting'⟩)
    (hlt : 2 * frameLeft frame' + awaiting'.toList.length <
      2 * frameLeft frame + awaiting.toList.length) : t.drainLeft < s.drainLeft := by
  unfold drainLeft
  rw [hs, ht]
  exact Prod.Lex.toLex_lt_toLex.mpr (.inr ⟨rfl, hlt⟩)

/-- A function that is taken from the queue makes it shorter, whatever its array is. -/
theorem drainLeft_nextTask (hs : s.drain = some ⟨queue, none, none⟩) :
    (s.nextTask ⟨queue, none, none⟩).drainLeft < s.drainLeft := by
  have hsome : s.drain ≠ none := by simp [hs]
  have htaken : ∀ {t : Promises V κ} {task rest frame}, queue = task :: rest →
      t.drain = some ⟨rest, frame, none⟩ → t.drainLeft < s.drainLeft := by
    intro t task rest frame hqueue ht
    unfold drainLeft
    rw [hs, ht, hqueue]
    exact Prod.Lex.toLex_lt_toLex.mpr (.inl (lt_succ_self _))
  unfold nextTask
  split
  · exact drainLeft_none hsome rfl
  · rename_i id rest hqueue
    split
    · exact drainLeft_none hsome rfl
    · exact htaken hqueue rfl
  · rename_i callbacks values rest hqueue
    exact htaken hqueue rfl

variable {frame : LaterFrame V κ}

/-- A turn of a loop leaves one element less. -/
theorem drainLeft_turn (frame' : LaterFrame V κ)
    (hs : s.drain = some ⟨queue, some frame, none⟩)
    (hframe : frameLeft (some frame') + 1 = frameLeft (some frame))
    (ht : t.drain = none ∨ ∃ awaiting, t.drain = some ⟨queue, some frame', awaiting⟩) :
    t.drainLeft < s.drainLeft := by
  rcases ht with ht | ⟨awaiting, ht⟩
  · exact drainLeft_none (by simp [hs]) ht
  · refine drainLeft_frame hs ht ?_
    have hone : awaiting.toList.length ≤ 1 := by cases awaiting <;> simp
    simp only [toList_none, length_nil]
    omega

/-- **`later_drain` comes nearer to its end** when it goes on. -/
theorem drainLeft_next (hs : s.drain ≠ none) (hnext : s.drives .next) :
    s.next.drainLeft < s.drainLeft := by
  unfold drives at hnext
  unfold next
  split
  · rename_i hdrain
    exact absurd hdrain hs
  · rename_i hdrain
    rw [hdrain] at hnext
    obtain ⟨-, value, heq, -⟩ := hnext
    cases heq
  · rename_i queue hdrain
    exact drainLeft_nextTask hdrain
  · rename_i queue id hdrain
    exact drainLeft_frame hdrain rfl (by simp [frameLeft])
  · rename_i queue values hdrain
    exact drainLeft_frame hdrain rfl (by simp [frameLeft])
  · rename_i queue id reg rest hdrain
    refine drainLeft_turn (.processQueue id rest) hdrain rfl ?_
    unfold processTurn
    dsimp only
    split
    · exact .inr ⟨_, rfl⟩
    · exact .inr ⟨none, by simp⟩
    · split
      · split
        · exact .inl rfl
        · exact .inr ⟨none, by simp⟩
      · exact .inr ⟨none, by simp⟩
  · rename_i queue values reg rest hdrain
    refine drainLeft_turn (.notify values rest) hdrain rfl ?_
    unfold notifyTurn
    dsimp only
    split
    · exact .inr ⟨_, rfl⟩
    · exact .inr ⟨none, by simp⟩
    · exact .inr ⟨none, by simp⟩

/-- And when a callback returns. -/
theorem drainLeft_callbackReturns
    {result : Nat} (hs : s.drain = some ⟨queue, some frame, some result⟩)
    (value : PromiseValue V) : (s.callbackReturns value).drainLeft < s.drainLeft := by
  have hreturned : ∀ {t : Promises V κ}, t.drain = some ⟨queue, some frame, none⟩ →
      t.drainLeft < s.drainLeft := fun ht => drainLeft_frame hs ht (by simp)
  unfold callbackReturns
  rw [hs]
  cases frame with
  | processQueue id rest =>
    dsimp only
    split
    · exact drainLeft_none (by simp [hs]) rfl
    · exact hreturned (by simp)
  | notify values rest => exact hreturned (by simp)

variable [DecidableEq κ]

@[simp] theorem drain_promiseThen (s : Promises V κ) (id : Nat)
    (fulfilled rejected updated : Handler κ) :
    (s.promiseThen id fulfilled rejected updated).drain = s.drain := by
  unfold promiseThen
  split <;> simp

/-- The program does not run `later_drain`. -/
theorem drain_invoke (s : Promises V κ) (call : PromiseCall V κ) :
    (s.invoke call).drain = s.drain := by
  cases call with
  | resolve id values =>
    rw [invoke]
    split <;> simp
  | _ => simp [invoke, newDeferred]

/-- No event takes `later_drain` farther from its end, and those it waits for bring it nearer. -/
theorem drainLeft_step (hs : s.drain ≠ none) (e : PromiseEvent V κ) :
    (s.step e).drainLeft ≤ s.drainLeft ∧ (s.drives e → (s.step e).drainLeft < s.drainLeft) := by
  obtain ⟨⟨queue, frame, awaiting⟩, hdrain⟩ := ne_none_iff_exists'.mp hs
  have hsame : ∀ {t : Promises V κ}, t.drain = s.drain → t.drainLeft ≤ s.drainLeft := by
    intro t ht
    unfold drainLeft
    rw [ht]
  cases e with
  | call call =>
    refine ⟨hsame ?_, by cases awaiting <;> simp [drives, hdrain]⟩
    simp only [step]
    split
    · exact drain_invoke s call
    · rfl
  | timer =>
    refine ⟨hsame ?_, by cases awaiting <;> simp [drives, hdrain]⟩
    simp [step, timer, hdrain]
  | ret value =>
    simp only [step]
    split
    · rename_i hknown
      rcases frame with - | frame
      · refine ⟨hsame ?_, ?_⟩
        · simp [callbackReturns, hdrain]
        · cases awaiting <;> simp [drives, hdrain]
      rcases awaiting with - | result
      · refine ⟨hsame ?_, by simp [drives, hdrain]⟩
        cases frame <;> simp [callbackReturns, hdrain]
      · have hlt := drainLeft_callbackReturns hdrain value
        exact ⟨hlt.le, fun _ => hlt⟩
    · rename_i hknown
      refine ⟨hsame rfl, fun hdrives => ?_⟩
      unfold drives at hdrives
      rw [hdrain] at hdrives
      rcases awaiting with - | result
      · cases hdrives
      · obtain ⟨-, value', heq, hknown'⟩ := hdrives
        cases heq
        exact absurd hknown' hknown
  | next =>
    rcases awaiting with - | result
    · have hlt := drainLeft_next hs (by simp [drives, hdrain])
      exact ⟨hlt.le, fun _ => hlt⟩
    · exact ⟨hsame (by simp [step, next, hdrain]), by simp [drives, hdrain]⟩

/-! ### Pages that go on -/

/-- The states of a page as more and more of these events happen. -/
def onward (s : Promises V κ) (f : Nat → PromiseEvent V κ) : Nat → Promises V κ
  | 0 => s
  | n + 1 => (onward s f n).step (f n)

/-- Callbacks return, not their own promises, `later_drain` goes on and its timer fires, in the
    end; the program may call what it likes meanwhile. -/
structure GoesOn (s : Promises V κ) (f : Nat → PromiseEvent V κ) : Prop where
  other : ∀ n, (s.onward f n).other (f n)
  drives : ∀ n, ∃ m, n ≤ m ∧ (s.onward f m).drives (f m)

variable {f : Nat → PromiseEvent V κ}

/-- **Every `later_drain` ends**. -/
theorem drain_ends (h : s.GoesOn f) (n : Nat) : ∃ m, n ≤ m ∧ (s.onward f m).drain = none := by
  induction hleft : (s.onward f n).drainLeft using WellFoundedLT.induction generalizing n with
  | ind left ih =>
    by_contra hnone
    have hrun : ∀ m, n ≤ m → (s.onward f m).drain ≠ none := fun m hm hd => hnone ⟨m, hm, hd⟩
    have hle : ∀ k, (s.onward f (n + k)).drainLeft ≤ left := by
      intro k
      induction k with
      | zero => exact hleft.le
      | succ k ihk => exact (drainLeft_step (hrun _ (le_add_right _ _)) _).1.trans ihk
    obtain ⟨m, hm, hdrives⟩ := h.drives n
    obtain ⟨k, rfl⟩ := Nat.exists_eq_add_of_le hm
    have hlt := (drainLeft_step (hrun _ hm) _).2 hdrives
    obtain ⟨m', hm', hend⟩ := ih _ (hlt.trans_le (hle k)) (n + k + 1) rfl
    exact hnone ⟨m', by omega, hend⟩

/-! ### Runs -/

/-- The page after a run. -/
abbrev after (es : List (PromiseEvent V κ)) : Promises V κ := run step new es

/-- **What a program can rely on** by the end of a run. -/
structure RunKept (es : List (PromiseEvent V κ)) : Prop where
  /-- A promise that was settled at some time is still settled in that way. -/
  settlesOnce : ∀ es₁ es₂ p, es = es₁ ++ es₂ → (after es₁).settled p →
    ((after es).deferreds p).status = ((after es₁).deferreds p).status ∧
    ((after es).deferreds p).values = ((after es₁).deferreds p).values
  /-- Only promises that are settled have called callbacks. -/
  notBefore : ∀ p, (after es).settled p = false → (after es).called p = []
  /-- The calls are those of the matching callbacks of the first registrations, one each, in
      order and with the values of the promise. -/
  inOrder : ∀ p, (after es).handled p ≤ ((after es).registered p).length ∧ (after es).called p =
    due ((after es).deferreds p) (((after es).registered p).take ((after es).handled p))
  /-- What is registered on a settled promise is handled by the next `later_drain`. -/
  allCalled : ∀ es₁ es₂ p, es = es₁ ++ .timer :: es₂ → (after es₁).drain = none →
    (after es₁).settled p → (after es).drain = none →
    (after es₁).registered p <+: (after es).registered p ∧
    ((after es₁).registered p).length ≤ (after es).handled p
  /-- The timer for that is set. -/
  timerSet : ∀ p, (after es).drain = none → (after es).settled p →
    (after es).handled p < ((after es).registered p).length → (after es).laterTimeout
  /-- Callbacks are called by `later_drain` only, while the program does not run. -/
  neverSync : ∀ es₁ e es₂, es = es₁ ++ e :: es₂ → (after (es₁ ++ [e])).called ≠ (after es₁).called →
    e = .next ∧ (after es₁).programRuns = false
  /-- A promise that was resolved with another one is settled only as that one is. -/
  follows : ∀ d q i, (after es).adopted d = some (q, i) → (after es).settled d →
    ((after es).deferreds d).status = ((after es).deferreds q).status ∧
    ((after es).deferreds d).values = ((after es).deferreds q).values
  /-- It is settled by the next `later_drain` once the other one is. -/
  followsSoon : ∀ es₁ es₂ d q i, es = es₁ ++ .timer :: es₂ → (after es₁).drain = none →
    (after es₁).adopted d = some (q, i) → (after es₁).settled q →
    (after es).drain = none → (after es).settled d
  /-- A `later_drain` ends when callbacks return. -/
  drainEnds : ∀ f, (after es).GoesOn f → ∀ n, ∃ m, n ≤ m ∧ ((after es).onward f m).drain = none
  /-- So what is registered on a settled promise is handled in the end, -/
  calledAtLast : ∀ f, (after es).GoesOn f → ∀ p, (after es).settled p →
    ∃ n, ((after es).registered p).length ≤ ((after es).onward f n).handled p
  /-- and a promise that was resolved with a settled one is settled. -/
  followsAtLast : ∀ f, (after es).GoesOn f → ∀ d q i, (after es).adopted d = some (q, i) →
    (after es).settled q → ∃ n, ((after es).onward f n).settled d

variable {es : List (PromiseEvent V κ)}

/-- The invariant holds in every state, and nothing is taken back. -/
theorem Inv.run (h : s.Inv) (hother : RunOk Promises.step (fun s e => s.other e) s es) :
    StepKept s (Lib.run Promises.step s es) := by
  induction es generalizing s with
  | nil => exact .of_silent h (.refl s)
  | cons e es ih =>
    obtain ⟨hstep, -⟩ := h.step e hother.1
    exact hstep.trans (ih hstep.inv hother.2)

/-- So it does on a page that goes on. -/
theorem GoesOn.kept (hgoes : s.GoesOn f) (h : s.Inv) {n m : Nat} (hle : n ≤ m) :
    StepKept (s.onward f n) (s.onward f m) := by
  have hinv : ∀ n, (s.onward f n).Inv := by
    intro n
    induction n with
    | zero => exact h
    | succ n ih => exact (ih.step _ (hgoes.other n)).1.inv
  induction m, hle using le_induction with
  | base => exact .of_silent (hinv n) (.refl _)
  | succ m _ ih => exact ih.trans ((hinv m).step _ (hgoes.other m)).1

omit [DecidableEq κ] in
/-- A settled promise with something left to handle has its `process_queue` in the later queue. -/
theorem Inv.queued_of_left (h : s.Inv) (hdrain : s.drain = none)
    (hp : s.settled p) (hleft : s.handled p < (s.registered p).length) :
    p ∈ s.laterQueue.filterMap processId := by
  have hl := h.queue.left p
  have hrest : s.rest p = [] := by
    unfold rest
    rw [hdrain]
  have hpending : (s.deferreds p).pending ≠ none := by
    intro hnone
    have hpend : s.pendingOf p = [] := by
      unfold pendingOf
      rw [hnone]
    rw [hrest, hpend, append_nil, drop_eq_nil_iff] at hl
    omega
  have hmem := (h.queue.queued p).mpr (h.scheduled p not_false hp hpending)
  unfold queued drainQueue at hmem
  rw [hdrain] at hmem
  exact hmem

/-- **One `later_drain`**, from its start to its end, handles all that was left for a settled
    promise. -/
theorem Inv.drain_handles (h : s.Inv) (hkept : StepKept (s.step .timer) t)
    (hdrain : s.drain = none) (hp : s.settled p) (hend : t.drain = none) :
    (s.registered p).length ≤ t.handled p := by
  obtain ⟨hstep, -⟩ := h.step .timer rfl
  have hcovered : (s.step .timer).Covered p (s.registered p).length := by
    rcases lt_or_ge (s.handled p) (s.registered p).length with hlt | hge
    · -- its `process_queue` is taken along
      have hmem := h.queued_of_left hdrain hp hlt
      have hne : s.laterQueue ≠ [] := by
        intro hnil
        rw [hnil] at hmem
        cases hmem
      refine .inr ⟨s.laterQueue, none, none, ?_, .inl hmem⟩
      show s.timer.drain = _
      unfold Promises.timer
      rw [if_pos (by simp [hdrain, h.queue.timeout hne])]
    · exact .inl (le_trans hge (hstep.grows.handled p))
  rcases hkept.covered p _ (hstep.grows.registered p).length_le hcovered with hle | ⟨_, _, _, hd, -⟩
  · exact hle
  · rw [hend] at hd
    cases hd

omit [DecidableEq κ] in
/-- The timer is set for what is left. -/
theorem Inv.timer_of_left (h : s.Inv) (hdrain : s.drain = none) (hp : s.settled p)
    (hleft : s.handled p < (s.registered p).length) : s.laterTimeout := by
  have hmem := h.queued_of_left hdrain hp hleft
  apply h.queue.timeout
  intro hnil
  rw [hnil] at hmem
  cases hmem

/-- Only the timer starts `later_drain`. -/
theorem drain_step_none (hdrain : s.drain = none) {e : PromiseEvent V κ} (he : e ≠ .timer) :
    (s.step e).drain = none := by
  cases e with
  | call call =>
    simp only [step]
    split
    · rw [drain_invoke, hdrain]
    · exact hdrain
  | ret value =>
    simp only [step]
    split
    · simp [callbackReturns, hdrain]
    · exact hdrain
  | timer => exact absurd rfl he
  | next => simp [step, next, hdrain]

/-- The timer of a page that goes on fires, or there was nothing left for a promise. -/
theorem GoesOn.timer_fires (hgoes : s.GoesOn f) (h : s.Inv) (hp : s.settled p) (n : Nat)
    (hdrain : (s.onward f n).drain = none) :
    ∃ m, n ≤ m ∧ ((s.registered p).length ≤ (s.onward f m).handled p ∨
      (s.onward f m).drain = none ∧ f m = .timer) := by
  by_contra hno
  have hnever : ∀ m, n ≤ m → (s.onward f m).drain = none := by
    intro m hm
    induction m, hm using le_induction with
    | base => exact hdrain
    | succ m hm ih => exact drain_step_none ih fun hf => hno ⟨m, hm, .inr ⟨ih, hf⟩⟩
  obtain ⟨m, hm, hdrives⟩ := hgoes.drives n
  have hkept := hgoes.kept h (zero_le m)
  have hleft : (s.onward f m).handled p < ((s.onward f m).registered p).length := by
    have hlt := lt_of_not_ge fun hge => hno ⟨m, hm, .inl hge⟩
    exact hlt.trans_le (hkept.grows.registered p).length_le
  have hset := hkept.inv.timer_of_left (hnever m hm) (hkept.grows.settled_eq hp) hleft
  unfold Promises.drives at hdrives
  rw [hnever m hm] at hdrives
  exact hno ⟨m, hm, .inr ⟨hnever m hm, hdrives hset⟩⟩

/-- **Nothing is forgotten**: what is registered on a settled promise is handled in the end. -/
theorem GoesOn.handled (hgoes : s.GoesOn f) (h : s.Inv) (hp : s.settled p) :
    ∃ n, (s.registered p).length ≤ (s.onward f n).handled p := by
  obtain ⟨n, -, hdrain⟩ := drain_ends hgoes 0
  obtain ⟨m, hm, hle | ⟨hdrain, htimer⟩⟩ := hgoes.timer_fires h hp n hdrain
  · exact ⟨m, hle⟩
  have hkept := hgoes.kept h (zero_le m)
  obtain ⟨k, hk, hend⟩ := drain_ends hgoes (m + 1)
  have hlater : StepKept ((s.onward f m).step .timer) (s.onward f k) := htimer ▸ hgoes.kept h hk
  have hle := hkept.inv.drain_handles hlater hdrain (hkept.grows.settled_eq hp) hend
  exact ⟨k, le_trans (hkept.grows.registered p).length_le hle⟩

omit [DecidableEq κ] in
/-- A promise that waits for a settled one is settled when its registration is handled. -/
theorem Inv.settled_of_handled (h : s.Inv) {d q i : Nat} (hadopted : s.adopted d = some (q, i))
    (hq : s.settled q) (hlt : i < s.handled q) : s.settled d := by
  obtain ⟨-, -, -, -, -, -, -, hdone, -⟩ := h.adopt.adoption d q i hadopted
  unfold settled
  rw [(hdone hlt).1]
  exact hq

/-- **Promises settle once and call back once**, whatever the program calls and in whatever order,
    as long as no callback returns the promise that it is to settle itself. -/
theorem run_promises (es : List (PromiseEvent V κ))
    (hother : RunOk Promises.step (fun s e => s.other e = true) new es) : RunKept es := by
  have hinv := (inv_new.run hother).inv
  -- a run goes on from each of its states
  have hsplit : ∀ es₁ es₂, es = es₁ ++ es₂ → (after es₁).Inv ∧
      RunOk Promises.step (fun s e => s.other e = true) (after es₁) es₂ ∧
      after es = Lib.run Promises.step (after es₁) es₂ := by
    rintro es₁ es₂ rfl
    rw [runOk_append] at hother
    exact ⟨(inv_new.run hother.1).inv, hother.2, run_append _ _ _⟩
  constructor
  · intro es₁ es₂ p heq hp
    obtain ⟨h₁, h₂, hrun⟩ := hsplit es₁ es₂ heq
    rw [hrun]
    exact (h₁.run h₂).grows.settled p hp
  · intro p hp
    rw [hinv.queue.called, hinv.queue.unsettled p hp]
    rfl
  · exact fun p => ⟨hinv.queue.handled p, hinv.queue.called p⟩
  · intro es₁ es₂ p heq hd hp hend
    obtain ⟨h₁, h₂, hrun⟩ := hsplit es₁ _ heq
    rw [hrun] at hend ⊢
    obtain ⟨hstep, -⟩ := h₁.step .timer h₂.1
    exact ⟨(h₁.run h₂).grows.registered p, h₁.drain_handles (hstep.inv.run h₂.2) hd hp hend⟩
  · exact fun p hd hp hleft => hinv.timer_of_left hd hp hleft
  · intro es₁ e es₂ heq hne
    obtain ⟨h₁, h₂, -⟩ := hsplit es₁ _ heq
    unfold after at hne
    rw [run_append] at hne
    exact (h₁.step e h₂.1).2 hne
  · intro d q i hd hp
    obtain ⟨c, r, fn, -, -, -, -, hdone, htodo⟩ := hinv.adopt.adoption d q i hd
    rcases lt_or_ge i ((after es).handled q) with hlt | hge
    · exact hdone hlt
    · unfold Promises.settled at hp
      rw [(htodo hge).1] at hp
      cases hp
  · intro es₁ es₂ d q i heq hd hadopted hq hend
    obtain ⟨h₁, h₂, hrun⟩ := hsplit es₁ _ heq
    obtain ⟨c, r, fn, -, -, -, hi, -⟩ := h₁.adopt.adoption d q i hadopted
    have hlt := (List.getElem?_eq_some_iff.mp hi).1
    rw [hrun] at hend
    obtain ⟨hstep, -⟩ := h₁.step .timer h₂.1
    have hle := h₁.drain_handles (hstep.inv.run h₂.2) hd hq hend
    have hgrows := (h₁.run h₂).grows
    rw [← Lib.run_cons, ← hrun] at hle
    rw [← hrun] at hgrows
    -- by then the registration that the promise waits for is handled
    exact hinv.settled_of_handled (hgrows.adopted d _ hadopted) (hgrows.settled_eq hq)
      (lt_of_lt_of_le hlt hle)
  · exact fun f hgoes => drain_ends hgoes
  · exact fun f hgoes p hp => hgoes.handled hinv hp
  · intro f hgoes d q i hadopted hq
    obtain ⟨c, r, fn, -, -, -, hi, -⟩ := hinv.adopt.adoption d q i hadopted
    have hlt := (List.getElem?_eq_some_iff.mp hi).1
    obtain ⟨n, hle⟩ := hgoes.handled hinv hq
    have hkept := hgoes.kept hinv (zero_le n)
    exact ⟨n, hkept.inv.settled_of_handled (hkept.grows.adopted d _ hadopted)
      (hkept.grows.settled_eq hq) (lt_of_lt_of_le hlt hle)⟩

/-- Two deferreds: the first is resolved with the promise of the second, which is settled twice,
    and the callback of the first registers another one on it. -/
def adoptingRun : List (PromiseEvent Nat Nat) :=
  [.call .defer, .call .defer, .call (.done 0 (.callback 7)),
    .call (.resolve 0 [.promise 1]), .call (.resolve 1 [.plain 5]), .call (.reject 1 [.plain 6]),
    .timer, .next, .next, .next, .next,
    .timer, .next, .next, .call (.always 0 (.callback 8)), .ret .undefined, .next, .next]

/-- The next `later_drain` calls that one, and then nothing more happens. -/
def adoptingRest (n : Nat) : PromiseEvent Nat Nat :=
  [.timer, .next, .next, .ret .undefined, .next, .next].getD n .next

theorem goesOn_adoptingRest : (after adoptingRun).GoesOn adoptingRest := by
  have hidle : ∀ k, (onward (after adoptingRun) adoptingRest (k + 6)).drain = none ∧
      (onward (after adoptingRun) adoptingRest (k + 6)).laterTimeout = false := by
    intro k
    induction k with
    | zero => decide
    | succ k ih =>
      have hstep : onward (after adoptingRun) adoptingRest (k + 1 + 6) =
          (onward (after adoptingRun) adoptingRest (k + 6)).next := rfl
      rw [hstep, next, ih.1]
      exact ih
  refine ⟨fun n => ?_, fun n => ⟨n + 6, by omega, ?_⟩⟩
  · rcases lt_or_ge n 6 with hlt | hge
    · interval_cases n <;> decide
    · obtain ⟨k, rfl⟩ := Nat.exists_eq_add_of_le' hge
      rfl
  · unfold drives
    rw [(hidle n).1]
    simp [(hidle n).2]

theorem run_promises_adoptingRun : RunKept adoptingRun ∧
    ((after adoptingRun).called 0).map (·.callback) = [7] ∧
    (after adoptingRun).laterTimeout = true ∧ (after adoptingRun).GoesOn adoptingRest ∧
    ((onward (after adoptingRun) adoptingRest 6).called 0).map (·.callback) = [7, 8] :=
  ⟨run_promises adoptingRun (by decide), by decide, by decide, goesOn_adoptingRest, by decide⟩

end Promises

end Cockpit
