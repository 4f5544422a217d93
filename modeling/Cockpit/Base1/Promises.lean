import Mathlib

namespace Cockpit

open Function

/-!
# `src/base1/cockpit.js`: promises and the later queue

Deferreds, the `pending` arrays and the closures of `deferred_resolve` are numbered in the order
in which they are made.  The JavaScript stack is at most one `later_drain` with one function of
its queue, which may wait for a callback of the program; the program runs at the top or in such a
callback.  What the program registers and which of its callbacks are called is kept in a history.
-/

/-- A value that a promise is settled with; other values than promises have no `then`. -/
inductive PromiseValue (V : Type) where
  | undefined
  | plain (v : V)
  | promise (id : Nat)

/-- `state.status`: 0, -1, 1 and 2. -/
inductive PromiseStatus where
  | pending
  | following
  | resolved
  | rejected
  deriving DecidableEq

/-- A function in `state.pending`: a callback of the program, or one that `deferred_resolve`
    makes, by its closure. -/
inductive HandlerFn (κ : Type) where
  | callback (callback : κ)
  | adopt (closure : Nat)

/-- What a program passes to `then`: nothing, a value that is not a function, or a callback. -/
inductive Handler (κ : Type) where
  | undefined
  | other
  | callback (callback : κ)
  deriving DecidableEq

/-- An element of `state.pending`; a handler that is not a function is `none`. -/
structure Registration (κ : Type) where
  result : Nat
  fulfilled : Option (HandlerFn κ)
  rejected : Option (HandlerFn κ)
  updated : Option (HandlerFn κ)

/-- The `state` of a deferred. -/
structure DeferredState (V : Type) where
  status : PromiseStatus := .pending
  values : List (PromiseValue V) := []
  /-- The array of what is registered, if there is one. -/
  pending : Option Nat := none
  processScheduled : Bool := false

/-- The variables that the functions made by one call of `deferred_resolve` share. -/
structure AdoptClosure where
  state : Nat
  done : Bool

/-- A function in the later queue. -/
inductive LaterTask (V : Type) where
  | processQueue (id : Nat)
  | notify (callbacks : Nat) (values : List (PromiseValue V))

/-- A function of the later queue that runs, with the part of its array that is left. -/
inductive LaterFrame (V κ : Type) where
  | processQueue (id : Nat) (rest : List (Registration κ))
  | notify (values : List (PromiseValue V)) (rest : List (Registration κ))

/-- `later_drain` that runs. -/
structure LaterDrain (V κ : Type) where
  queue : List (LaterTask V)
  frame : Option (LaterFrame V κ)
  /-- The result of the registration whose callback has not returned. -/
  awaiting : Option Nat

/-- A call of a callback. -/
structure CallbackCall (V κ : Type) where
  result : Nat
  callback : κ
  args : List (PromiseValue V)

/-- The promises of a page. -/
structure Promises (V κ : Type) where
  deferreds : Nat → DeferredState V
  created : Nat
  arrays : Nat → List (Registration κ)
  arraysCreated : Nat
  closures : Nat → AdoptClosure
  closuresCreated : Nat
  laterQueue : List (LaterTask V)
  /-- Whether `later_timeout` is set. -/
  laterTimeout : Bool
  drain : Option (LaterDrain V κ)
  /-- History: what was registered on a promise. -/
  registered : Nat → List (Registration κ)
  /-- History: how many of the registrations `process_queue` has come to. -/
  handled : Nat → Nat
  /-- History: the calls of callbacks for a promise that was settled. -/
  called : Nat → List (CallbackCall V κ)
  /-- History: the promise that one was resolved with, and which registration that made there. -/
  adopted : Nat → Option (Nat × Nat)

variable {V κ : Type}

/-- `status > 0` -/
def PromiseStatus.settled : PromiseStatus → Bool
  | .resolved | .rejected => true
  | .pending | .following => false

/-- `pending[i][state.status]`, where it is a function. -/
def Registration.handler (reg : Registration κ) : PromiseStatus → Option (HandlerFn κ)
  | .resolved => reg.fulfilled
  | .rejected => reg.rejected
  | .pending | .following => none

/-- The function that a handler is. -/
def Handler.fn : Handler κ → Option (HandlerFn κ)
  | .callback k => some (.callback k)
  | .undefined | .other => none

namespace Promises

/-- A page without promises. -/
def new : Promises V κ where
  deferreds := fun _ => {}
  created := 0
  arrays := fun _ => []
  arraysCreated := 0
  closures := fun _ => ⟨0, false⟩
  closuresCreated := 0
  laterQueue := []
  laterTimeout := false
  drain := none
  registered := fun _ => []
  handled := fun _ => 0
  called := fun _ => []
  adopted := fun _ => none

variable (s : Promises V κ) (id : Nat)

/-- Assign to the `state` of a deferred. -/
def set (state : DeferredState V) : Promises V κ :=
  { s with deferreds := update s.deferreds id state }

/-- `later_invoke` -/
def laterInvoke (task : LaterTask V) : Promises V κ :=
  { s with laterQueue := s.laterQueue ++ [task], laterTimeout := true }

/-- `new Deferred ()` -/
def newDeferred : Promises V κ :=
  { s.set s.created {} with created := s.created + 1 }

/-- `schedule_process_queue` -/
def scheduleProcessQueue : Promises V κ :=
  if (s.deferreds id).processScheduled || (s.deferreds id).pending.isNone then s
  else
    (s.set id { s.deferreds id with processScheduled := true }).laterInvoke (.processQueue id)

/-- `state.pending = state.pending || []; state.pending.push (...)` -/
def push (reg : Registration κ) : Promises V κ :=
  let s := { s with registered := update s.registered id (s.registered id ++ [reg]) }
  match (s.deferreds id).pending with
  | some array => { s with arrays := update s.arrays array (s.arrays array ++ [reg]) }
  | none =>
    { s.set id { s.deferreds id with pending := some s.arraysCreated } with
      arrays := update s.arrays s.arraysCreated [reg]
      arraysCreated := s.arraysCreated + 1 }

/-- `promise_then`, with at least one handler that is not undefined. -/
def register (fulfilled rejected updated : Option (HandlerFn κ)) :
    Promises V κ :=
  let s := s.newDeferred.push id ⟨s.created, fulfilled, rejected, updated⟩
  if (s.deferreds id).status.settled then s.scheduleProcessQueue id else s

/-- `promise_then` -/
def promiseThen [DecidableEq κ]
    (fulfilled rejected updated : Handler κ) : Promises V κ :=
  if fulfilled = .undefined ∧ rejected = .undefined ∧ updated = .undefined then s
  else s.register id fulfilled.fn rejected.fn updated.fn

/-- The end of `deferred_resolve` and `deferred_reject`. -/
def settle (status : PromiseStatus) (values : List (PromiseValue V)) :
    Promises V κ :=
  (s.set id { s.deferreds id with status := status, values := values }).scheduleProcessQueue id

variable (values : List (PromiseValue V))

/-- `deferred_reject` -/
def deferredReject : Promises V κ :=
  s.settle id .rejected values

/-- `deferred_resolve` where the first value is a promise: its `then` is called with functions
    that share a new closure. -/
def follow (other : Nat) : Promises V κ :=
  let fn := some (.adopt s.closuresCreated)
  ({ s.set id { s.deferreds id with status := .following } with
      closures := update s.closures s.closuresCreated ⟨id, false⟩
      closuresCreated := s.closuresCreated + 1
      adopted := update s.adopted id (some (other, (s.registered other).length)) } :
    Promises V κ).register other fn fn fn

/-- `deferred_resolve` -/
def deferredResolve :
    Promises V κ :=
  match values.head? with
  | some (.promise other) => s.follow id other
  | _ => s.settle id .resolved values

/-- `deferred_notify` -/
def deferredNotify : Promises V κ :=
  match (s.deferreds id).pending with
  | some callbacks =>
    if (s.deferreds id).status.settled = false ∧ s.arrays callbacks ≠ [] then
      s.laterInvoke (.notify callbacks values)
    else s
  | none => s

/-- `resolve` of a deferred whose own promise is not the first value. -/
def resolve : Promises V κ :=
  if (s.deferreds id).status = .pending then s.deferredResolve id values else s

/-- `reject` of a deferred. -/
def reject : Promises V κ :=
  if (s.deferreds id).status = .pending then s.deferredReject id values else s

/-- The first two functions that `deferred_resolve` passes to `then`, for the status that the
    other promise has. -/
def adoptCall (closure : Nat) (status : PromiseStatus)
    (values : List (PromiseValue V)) : Promises V κ :=
  let c := s.closures closure
  if c.done then s
  else
    let s := { s with closures := update s.closures closure { c with done := true } }
    if status = .resolved then s.deferredResolve c.state values
    else s.deferredReject c.state values

/-! ### The program -/

end Promises

/-- What a program can call. -/
inductive PromiseCall (V κ : Type) where
  | defer
  | resolve (id : Nat) (values : List (PromiseValue V))
  | reject (id : Nat) (values : List (PromiseValue V))
  | notify (id : Nat) (values : List (PromiseValue V))
  | then_ (id : Nat) (fulfilled rejected updated : Handler κ)
  | done (id : Nat) (fulfilled : Handler κ)
  | fail (id : Nat) (rejected : Handler κ)
  | always (id : Nat) (callback : Handler κ)
  | catch_ (id : Nat) (callback : Handler κ)
  | progress (id : Nat) (updated : Handler κ)

/-- A program has only promises that exist. -/
def PromiseValue.known (created : Nat) : PromiseValue V → Bool
  | .promise id => decide (id < created)
  | .undefined | .plain _ => true

/-- A program has only deferreds and promises that exist. -/
def PromiseCall.known (created : Nat) : PromiseCall V κ → Bool
  | .defer => true
  | .resolve id values | .reject id values | .notify id values =>
    decide (id < created) && values.all (·.known created)
  | .then_ id .. | .done id _ | .fail id _ | .always id _ | .catch_ id _ | .progress id _ =>
    decide (id < created)

/-- What happens next: the program calls something, a callback of the program returns, the timer
    of `later_timeout` fires, or `later_drain` goes on. -/
inductive PromiseEvent (V κ : Type) where
  | call (call : PromiseCall V κ)
  | ret (value : PromiseValue V)
  | timer
  | next

namespace Promises

/-- Whether a value is the promise of the deferred itself: `resolve` throws then. -/
def isOwn (id : Nat) (values : List (PromiseValue V)) : Bool :=
  match values.head? with
  | some (.promise other) => other == id
  | _ => false

variable (s : Promises V κ)

/-- A call from the program. -/
def invoke [DecidableEq κ] : PromiseCall V κ → Promises V κ
  | .defer => s.newDeferred
  | .resolve id values => if isOwn id values then s else s.resolve id values
  | .reject id values => s.reject id values
  | .notify id values => s.deferredNotify id values
  | .then_ id fulfilled rejected updated => s.promiseThen id fulfilled rejected updated
  | .done id fulfilled => s.promiseThen id fulfilled .undefined .undefined
  | .fail id rejected => s.promiseThen id .other rejected .undefined
  | .always id callback => s.promiseThen id callback callback .undefined
  | .catch_ id callback => s.promiseThen id .other callback .undefined
  | .progress id updated => s.promiseThen id .other .other updated

/-- The functions of the queue that `later_drain` has not come to are lost when one throws. -/
def throwOut : Promises V κ := { s with drain := none }

variable (drain : LaterDrain V κ)

/-- A turn of the loop of `process_queue`. -/
def processTurn (id : Nat) (reg : Registration κ)
    (rest : List (Registration κ)) : Promises V κ :=
  let state := s.deferreds id
  let s := { s with
    drain := some { drain with frame := some (.processQueue id rest) }
    handled := update s.handled id (s.handled id + 1) }
  match reg.handler state.status with
  | some (.callback k) =>
    { s with
      drain := some { drain with
        frame := some (.processQueue id rest)
        awaiting := some reg.result }
      called := update s.called id (s.called id ++ [⟨reg.result, k, state.values⟩]) }
  | some (.adopt closure) =>
    (s.adoptCall closure state.status state.values).resolve reg.result [.undefined]
  | none =>
    if state.status = .resolved then
      if isOwn reg.result state.values then s.throwOut else s.resolve reg.result state.values
    else s.reject reg.result state.values

/-- A turn of the loop of the function that `deferred_notify` makes. -/
def notifyTurn (values : List (PromiseValue V))
    (reg : Registration κ) (rest : List (Registration κ)) : Promises V κ :=
  let s := { s with drain := some { drain with frame := some (.notify values rest) } }
  match reg.updated with
  | some (.callback _) =>
    { s with drain := some { drain with
        frame := some (.notify values rest)
        awaiting := some reg.result } }
  | some (.adopt closure) =>
    (s.deferredNotify (s.closures closure).state values).deferredNotify reg.result [.undefined]
  | none => s.deferredNotify reg.result values

/-- `later_drain` takes the next function from its queue. -/
def nextTask : Promises V κ :=
  match drain.queue with
  | [] => { s with drain := none }
  | .processQueue id :: queue =>
    match (s.deferreds id).pending with
    | none => s.throwOut
    | some array =>
      { s.set id { s.deferreds id with processScheduled := false, pending := none } with
        drain := some ⟨queue, some (.processQueue id (s.arrays array)), none⟩ }
  | .notify callbacks values :: queue =>
    { s with drain := some ⟨queue, some (.notify values (s.arrays callbacks)), none⟩ }

/-- `later_drain` goes on. -/
def next : Promises V κ :=
  match s.drain with
  | none | some ⟨_, _, some _⟩ => s
  | some ⟨queue, none, none⟩ => s.nextTask ⟨queue, none, none⟩
  | some ⟨queue, some (.processQueue _ []), none⟩ => { s with drain := some ⟨queue, none, none⟩ }
  | some ⟨queue, some (.notify _ []), none⟩ => { s with drain := some ⟨queue, none, none⟩ }
  | some ⟨queue, some (.processQueue id (reg :: rest)), none⟩ =>
    s.processTurn ⟨queue, none, none⟩ id reg rest
  | some ⟨queue, some (.notify values (reg :: rest)), none⟩ =>
    s.notifyTurn ⟨queue, none, none⟩ values reg rest

/-- The callback that runs returns. -/
def callbackReturns (value : PromiseValue V) : Promises V κ :=
  match s.drain with
  | some ⟨queue, some (.processQueue id rest), some result⟩ =>
    let s := { s with drain := some ⟨queue, some (.processQueue id rest), none⟩ }
    if isOwn result [value] then s.throwOut else s.resolve result [value]
  | some ⟨queue, some (.notify values rest), some result⟩ =>
    ({ s with drain := some ⟨queue, some (.notify values rest), none⟩ } : Promises V κ)
      |>.deferredNotify result [value]
  | _ => s

/-- `later_drain` starts. -/
def timer : Promises V κ :=
  if s.drain.isNone && s.laterTimeout then
    { s with laterTimeout := false, laterQueue := [], drain := some ⟨s.laterQueue, none, none⟩ }
  else s

/-- Whether the program runs: nothing else does, or one of its callbacks was called. -/
def programRuns : Bool :=
  match s.drain with
  | none => true
  | some drain => drain.awaiting.isSome

/-- One event. -/
def step [DecidableEq κ] (s : Promises V κ) : PromiseEvent V κ → Promises V κ
  | .call call => if s.programRuns && call.known s.created then s.invoke call else s
  | .ret value => if value.known s.created then s.callbackReturns value else s
  | .timer => s.timer
  | .next => s.next

end Promises

end Cockpit
