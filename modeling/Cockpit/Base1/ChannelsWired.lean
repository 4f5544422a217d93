import Cockpit.Base1.Channels
import Cockpit.Lib.Modify

namespace Cockpit.Page

open Lib List State

/-!
# Channels and the tables of their transports

What a page does to its channels goes through few functions, so an invariant is first shown to
be kept by these (`Keeps`); the step rule then covers all events but the ones that an invariant
has more to say about.

* `Keeps.step` — the step rule;
* `Wired` — the tables lead to open channels, and a channel waits until its callback runs.
-/

/-! ## What functions of a channel change -/

namespace Transport

/-- Two states of a transport that differ at most in its socket, its timer and what it sent. -/
structure Beside (t t' : Transport) : Prop where
  callbacks : t'.callbacks = t.callbacks
  listeners : t'.listeners = t.listeners
  ready : t'.ready = t.ready
  broadcast : t'.broadcast = t.broadcast
  returned : t'.returned = t.returned
  lastChannel : t'.lastChannel = t.lastChannel
  channelSeed : t'.channelSeed = t.channelSeed

theorem Beside.trans {t t' u : Transport} (h : Beside t t') (h' : Beside t' u) : Beside t u where
  callbacks := h'.callbacks.trans h.callbacks
  listeners := h'.listeners.trans h.listeners
  ready := h'.ready.trans h.ready
  broadcast := h'.broadcast.trans h.broadcast
  returned := h'.returned.trans h.returned
  lastChannel := h'.lastChannel.trans h.lastChannel
  channelSeed := h'.channelSeed.trans h.channelSeed

variable (t : Transport)

theorem Beside.refl : Beside t t := ⟨rfl, rfl, rfl, rfl, rfl, rfl, rfl⟩

theorem beside_sendData (message : Message) : Beside t (t.sendData message) := by
  unfold sendData
  split
  · exact .refl t
  · exact ⟨rfl, rfl, rfl, rfl, rfl, rfl, rfl⟩

theorem beside_sendControl (data : JsonObject) :
    Beside t (t.sendControl data) := by
  unfold sendControl
  split
  · exact .refl t
  · split
    · exact ⟨rfl, rfl, rfl, rfl, rfl, rfl, rfl⟩
    · exact t.beside_sendData _

end Transport

namespace Channel

/-- The tables after a channel was closed. -/
def unregistered (x : Channel × Transport) : AList (fun _ : String => Nat) :=
  match x.1.transport, x.1.id with
  | true, some id => x.2.callbacks.erase id
  | _, _ => x.2.callbacks

/-- What a function of a channel does to the tables: nothing, or it closes the channel. -/
structure Effect (x y : Channel × Transport) : Prop where
  home : y.1.home = x.1.home
  id : y.1.id = x.1.id
  transport : y.1.transport = x.1.transport
  listeners : y.2.listeners = x.2.listeners
  ready : y.2.ready = x.2.ready
  broadcast : y.2.broadcast = x.2.broadcast
  returned : y.2.returned = x.2.returned
  lastChannel : y.2.lastChannel = x.2.lastChannel
  channelSeed : y.2.channelSeed = x.2.channelSeed
  closes : (y.1.closed = x.1.closed ∧ y.1.closeEvents = x.1.closeEvents ∧
      y.2.callbacks = x.2.callbacks) ∨
    (y.1.closed.isSome ∧ y.1.closeEvents ≠ [] ∧ y.2.callbacks = unregistered x)

variable {y : Channel × Transport}

/-- A step that leaves the variables alone which the tables depend on. -/
theorem Effect.of_beside {x : Channel × Transport} (home : y.1.home = x.1.home)
    (id : y.1.id = x.1.id) (transport : y.1.transport = x.1.transport)
    (closed : y.1.closed = x.1.closed) (events : y.1.closeEvents = x.1.closeEvents)
    (h : Transport.Beside x.2 y.2) : Effect x y :=
  { h with
      home := home, id := id, transport := transport,
      closes := .inl ⟨closed, events, h.callbacks⟩ }

theorem Effect.refl (x : Channel × Transport) : Effect x x :=
  .of_beside rfl rfl rfl rfl rfl (.refl _)

/-- An effect that closed nothing, and then another one. -/
theorem Effect.after {x z : Channel × Transport} (h : Effect x y)
    (hclos : y.1.closed = x.1.closed) (hevents : y.1.closeEvents = x.1.closeEvents)
    (hcalls : y.2.callbacks = x.2.callbacks) (h' : Effect y z) : Effect x z where
  home := h'.home.trans h.home
  id := h'.id.trans h.id
  transport := h'.transport.trans h.transport
  listeners := h'.listeners.trans h.listeners
  ready := h'.ready.trans h.ready
  broadcast := h'.broadcast.trans h.broadcast
  returned := h'.returned.trans h.returned
  lastChannel := h'.lastChannel.trans h.lastChannel
  channelSeed := h'.channelSeed.trans h.channelSeed
  closes := by
    rcases h'.closes with ⟨hc, he, ht⟩ | ⟨hc, he, ht⟩
    · exact .inl ⟨hc.trans hclos, he.trans hevents, ht.trans hcalls⟩
    · refine .inr ⟨hc, he, ht.trans ?_⟩
      unfold unregistered
      rw [h.transport, h.id, hcalls]

section

variable (x : Channel × Transport)

include x

theorem effect_queueControl (options : JsonObject) :
    Effect x (queueControl x options) := by
  unfold queueControl
  dsimp only
  split
  · exact .of_beside rfl rfl rfl rfl rfl (.refl _)
  · exact .of_beside rfl rfl rfl rfl rfl (x.2.beside_sendControl _)

theorem queueControl_closed (options : JsonObject) :
    (queueControl x options).1.closed = x.1.closed ∧
      (queueControl x options).1.closeEvents = x.1.closeEvents ∧
      (queueControl x options).2.callbacks = x.2.callbacks := by
  unfold queueControl
  dsimp only
  split
  · exact ⟨rfl, rfl, rfl⟩
  · exact ⟨rfl, rfl, (x.2.beside_sendControl _).callbacks⟩

theorem effect_onClose (data : JsonObject) :
    Effect x (onClose x data) := by
  have hmatch : ∀ {α : Type} (field : Transport → α)
      (_ : ∀ id, field (x.2.unregister id) = field x.2), field (onClose x data).2 = field x.2 := by
    intro α field hfield
    unfold onClose
    dsimp only
    split
    · exact hfield _
    · rfl
  refine ⟨rfl, rfl, rfl, hmatch _ fun _ => rfl, hmatch _ fun _ => rfl, hmatch _ fun _ => rfl,
    hmatch _ fun _ => rfl, hmatch _ fun _ => rfl, hmatch _ fun _ => rfl, .inr ⟨rfl, ?_, ?_⟩⟩
  · exact append_ne_nil_of_right_ne_nil _ (cons_ne_nil _ _)
  unfold onClose unregistered
  dsimp only
  cases x.1.transport with
  | false => rfl
  | true =>
    cases x.1.id <;> rfl

theorem effect_close (options : CloseOptions) :
    Effect x (close x options) := by
  unfold close
  split
  · exact .refl x
  obtain ⟨hclos, hevents, hcalls⟩ := queueControl_closed x
    ((options.toObject.setMember "command" (.string "close")).setMember "channel"
      (idValue x.1.id))
  exact (effect_queueControl x _).after hclos hevents hcalls (effect_onClose _ _)

theorem effect_send (message : Payload) :
    Effect x (send x message) := by
  unfold send
  dsimp only
  split
  · exact .refl x
  split
  · exact .refl x
  · split
    · exact .of_beside rfl rfl rfl rfl rfl (.refl _)
    · exact .of_beside rfl rfl rfl rfl rfl (x.2.beside_sendData _)

theorem effect_control (options : Option JsonObject) :
    Effect x (control x options) := by
  unfold control
  dsimp only
  split
  · have h : Effect x ({ x.1 with sentDone := true }, x.2) :=
      .of_beside rfl rfl rfl rfl rfl (.refl _)
    exact h.after rfl rfl rfl (effect_queueControl _ _)
  · exact effect_queueControl x _

theorem effect_onMessage : Effect x (onMessage x) := by
  unfold onMessage
  split
  · exact effect_close x _
  · exact .refl x

theorem effect_onControl (data : JsonObject) :
    Effect x (onControl x data) := by
  unfold onControl
  split
  · exact effect_onClose x data
  split
  · exact effect_close x _
  · split
    · exact .of_beside rfl rfl rfl rfl rfl (.refl _)
    · exact .refl x

end

/-- What draining the queue leaves alone. -/
structure Drained (x y : Channel × Transport) : Prop where
  home : y.1.home = x.1.home
  id : y.1.id = x.1.id
  transport : y.1.transport = x.1.transport
  closed : y.1.closed = x.1.closed
  closeEvents : y.1.closeEvents = x.1.closeEvents
  beside : Transport.Beside x.2 y.2

theorem drained_drainItem (x : Channel × Transport) (item : Item) :
    Drained x (drainItem x item) := by
  cases item with
  | control options => exact ⟨rfl, rfl, rfl, rfl, rfl, x.2.beside_sendControl _⟩
  | payload payload => exact ⟨rfl, rfl, rfl, rfl, rfl, x.2.beside_sendData _⟩

theorem drained_foldl (x : Channel × Transport) (queue : List Item) :
    Drained x (queue.foldl drainItem x) := by
  induction queue generalizing x with
  | nil => exact ⟨rfl, rfl, rfl, rfl, rfl, .refl _⟩
  | cons item queue ih =>
    have h := drained_drainItem x item
    have h' := ih (drainItem x item)
    exact ⟨h'.home.trans h.home, h'.id.trans h.id, h'.transport.trans h.transport,
      h'.closed.trans h.closed, h'.closeEvents.trans h.closeEvents, h.beside.trans h'.beside⟩

/-- What the callback of a channel does: the channel opens under the next id, unless it was
    closed in the meantime. -/
structure Opens (c : Nat) (x y : Channel × Transport) : Prop where
  home : y.1.home = x.1.home
  transport : y.1.transport
  closed : y.1.closed = x.1.closed
  closeEvents : y.1.closeEvents = x.1.closeEvents
  listeners : y.2.listeners = x.2.listeners
  ready : y.2.ready = x.2.ready
  broadcast : y.2.broadcast = x.2.broadcast
  returned : y.2.returned = x.2.returned
  channelSeed : y.2.channelSeed = x.2.channelSeed
  opens : (x.1.closed.isSome ∧ y.2.callbacks = x.2.callbacks ∧
      y.2.lastChannel = x.2.lastChannel) ∨
    (x.1.closed = none ∧ y.1.id = some x.2.nextId ∧
      y.2.callbacks = x.2.callbacks.insert x.2.nextId c ∧
      y.2.lastChannel = x.2.lastChannel + 1)

theorem opens_onTransport (c : Nat) (defaultHost : Option Json) (x : Channel × Transport) :
    Opens c x (onTransport c defaultHost x) := by
  unfold onTransport
  dsimp only
  split
  · rename_i hclos
    exact ⟨rfl, rfl, rfl, rfl, rfl, rfl, rfl, rfl, rfl, .inl ⟨hclos, rfl, rfl⟩⟩
  rename_i hclos
  have hnone : x.1.closed = none := by simpa using hclos
  have h := drained_foldl (sendControl
    ({ x.1 with transport := true, id := some x.2.nextId, queue := [] },
      x.2.nextChannel.register x.2.nextId c)
    (openCommand { x.1 with transport := true } defaultHost x.2.nextId)) x.1.queue
  have hopen := Transport.beside_sendControl (x.2.nextChannel.register x.2.nextId c)
    (openCommand { x.1 with transport := true } defaultHost x.2.nextId)
  have hall := hopen.trans h.beside
  exact { hall with
      home := h.home, transport := h.transport, closed := h.closed, closeEvents := h.closeEvents,
      opens := .inr ⟨hnone, h.id, hall.callbacks, hall.lastChannel⟩ }

end Channel

/-! ## Who waits for a transport -/

/-- The channel that a handler of `ready` opens. -/
def Listener.waiting : Listener → List Nat
  | .channel c => [c]
  | .control _ => []
  | .callback => []

def Transport.waiting (t : Transport) : List Nat := t.listeners.flatMap Listener.waiting

def Task.waiting : Task → List Nat
  | .listeners _ rest => rest.flatMap Listener.waiting
  | _ => []

/-- The channels whose callback has not run yet. -/
def State.waiting (s : State) : List Nat :=
  s.transports.flatMap Transport.waiting ++ s.stack.flatMap Task.waiting

namespace State

theorem onTransport_getElem? (s : State) (t t' : Nat) (g : Transport → Transport) :
    (s.onTransport t g).transports[t']? =
      if t = t' then g <$> s.transports[t']? else s.transports[t']? := by
  rw [onTransport, getElem?_modify]
  split <;> simp

variable {s : State} {t : Nat} {g : Transport → Transport}

/-- A transport after a change is an old one, changed or not. -/
theorem onTransport_cases {t' : Nat} {tr' : Transport}
    (h : (s.onTransport t g).transports[t']? = some tr') :
    ∃ tr, s.transports[t']? = some tr ∧ ((t = t' ∧ tr' = g tr) ∨ (t ≠ t' ∧ tr' = tr)) :=
  modify_cases h

theorem waiting_onTransport_perm {tr : Transport}
    (h : s.transports[t]? = some tr) (g : Transport → Transport) :
    (tr.waiting ++ (s.onTransport t g).waiting).Perm ((g tr).waiting ++ s.waiting) := by
  unfold waiting
  rw [← append_assoc, ← append_assoc]
  exact (flatMap_modify_perm h g Transport.waiting).append_right _

theorem waiting_onTransport (hg : ∀ tr, s.transports[t]? = some tr → (g tr).waiting = tr.waiting) :
    (s.onTransport t g).waiting.Perm s.waiting := by
  cases h : s.transports[t]? with
  | none =>
    have hlen : s.transports.length ≤ t := by simpa using h
    unfold onTransport
    rw [modify_eq_self hlen]
  | some tr =>
    have hperm := waiting_onTransport_perm h g
    rw [hg tr h] at hperm
    exact (perm_append_left_iff _).mp hperm

/-- The handlers of `ready` move from the transport to the task that calls them. -/
theorem waiting_readyForChannels (s : State) (t : Nat) :
    (s.readyForChannels t).waiting.Perm s.waiting := by
  unfold readyForChannels
  split
  · exact .refl _
  rename_i tr htr
  split
  · exact .refl _
  have hperm := waiting_onTransport_perm htr
    fun tr => { tr with ready := true, listeners := [] }
  have hmove : ({ s.onTransport t fun tr => { tr with ready := true, listeners := [] } with
      stack := .listeners t tr.listeners :: s.stack } : State).waiting.Perm
        (tr.waiting ++ (s.onTransport t
          fun tr => { tr with ready := true, listeners := [] }).waiting) := by
    show (_ ++ (tr.waiting ++ _)).Perm _
    exact perm_append_comm_assoc _ _ _
  exact hmove.trans hperm

theorem waiting_onChannel {c : Nat} {f : Channel × Transport → Channel × Transport}
    (hf : ∀ x, (f x).2.listeners = x.2.listeners) : (s.onChannel c f).waiting.Perm s.waiting := by
  unfold onChannel
  split
  · exact .refl _
  rename_i ch hch
  split
  · exact .refl _
  rename_i tr htr
  have hset : s.transports.set ch.home (f (ch, tr)).2 =
      s.transports.modify ch.home fun _ => (f (ch, tr)).2 := set_eq_modify _ _ _
  rw [hset]
  exact waiting_onTransport (s := { s with channels := s.channels.set c (f (ch, tr)).1 })
    fun tr' htr' => by
      obtain rfl : tr' = tr := Option.mem_unique htr' htr
      show ((f (ch, tr')).2.listeners.flatMap _) = _
      rw [hf]
      rfl

end State

/-! ## The step rule -/

/-- The tasks that any function may leave on the stack. -/
def Task.Plain : Task → Prop
  | .close _ options => hasCommand options "close"
  | .initialized _ => True
  | .forget => True
  | .listeners _ rest => rest = []
  | .startBroadcast _ _ => False
  | .broadcast _ _ _ => False

/-- The calls of the application that close a channel or send on it. -/
inductive Call : (Channel × Transport → Channel × Transport) → Prop where
  | send (message : Payload) : Call (Channel.send · message)
  | close (options : Channel.CloseOptions) : Call (Channel.close · options)

/-- The calls of a transport through its tables. -/
inductive Delivery : (Channel × Transport → Channel × Transport) → Prop where
  | message : Delivery Channel.onMessage
  | control (data : JsonObject) : Delivery (Channel.onControl · data)

/-- An invariant that the functions of a page keep which any event may call.  A change of the
    seed of a transport has to meet `seedOk`. -/
structure Keeps (P : State → Prop) (seedOk : State → Nat → String → Prop) : Prop where
  same : ∀ {s s' : State}, P s → s'.channels = s.channels → s'.transports = s.transports →
    s'.stack = s.stack →
    (s'.defaultTransport = s.defaultTransport ∨ s'.defaultTransport = none) → P s'
  quiet : ∀ {s : State} {t : Nat} {g : Transport → Transport},
    (∀ tr, Transport.Beside tr (g tr)) → P s → P (s.onTransport t g)
  seed : ∀ {s : State} {t : Nat} {seed : String}, seedOk s t seed → P s →
    P (s.onTransport t fun tr => { tr with channelSeed := seed })
  listen : ∀ {s : State} {t : Nat} {tr : Transport} {listener : Listener},
    s.transports[t]? = some tr → tr.ready = false → listener.waiting = [] → P s →
    P (s.onTransport t fun tr => { tr with listeners := tr.listeners ++ [listener] })
  ensureDefault : ∀ {s : State}, P s → P s.ensureDefault
  ready : ∀ {s : State} (t : Nat), P s → P (s.readyForChannels t)
  push : ∀ {s : State} {task : Task}, task.Plain → P s → P { s with stack := task :: s.stack }
  pop : ∀ {s : State} {task : Task} {stack : List Task}, s.stack = task :: stack → task.Plain →
    P s → P { s with stack }
  dropClose : ∀ {s : State} {t : Nat} {options : JsonObject} {stack : List Task},
    s.stack = .close t options :: stack → P s → P { s with stack }
  heard : ∀ {s : State} {t : Nat} {listener : Listener} {rest : List Listener}
    {stack : List Task}, s.stack = .listeners t (listener :: rest) :: stack →
    listener.waiting = [] → P s → P { s with stack := .listeners t rest :: stack }
  start : ∀ {s : State} {t : Nat} {options : JsonObject} {stack : List Task},
    s.stack = .close t options :: stack → P s →
    P ({ s with stack := .startBroadcast t options :: stack }.readyForChannels t)
  call : ∀ {s : State} {f : Channel × Transport → Channel × Transport} (c : Nat), Call f → P s →
    P (s.onChannel c f)
  deliver : ∀ {s : State} {t c : Nat} {tr : Transport} {key : String}
    {f : Channel × Transport → Channel × Transport}, s.transports[t]? = some tr →
    tr.callbacks.lookup key = some c → Delivery f → P s → P (s.onChannel c f)

theorem hasCommand_setMember (data : JsonObject) (command : String) :
    hasCommand (data.setMember "command" (.string command)) command := by
  unfold hasCommand
  rw [JsonObject.getMember_setMember_self]
  exact beq_self_eq_true command

variable (t : Nat)

theorem plain_close (options : JsonObject) :
    (Task.close t (options.setMember "command" (.string "close"))).Plain :=
  hasCommand_setMember options "close"

/-- The tasks whose next step opens a channel or belongs to a broadcast. -/
def Task.Special : Task → Prop
  | .listeners _ (.channel _ :: _) => True
  | .startBroadcast _ _ => True
  | .broadcast _ _ _ => True
  | _ => False

/-- The state in which a received message is handled. -/
def State.gotMessage (s : State) (t : Nat) : State :=
  s.onTransport t fun tr => { tr with gotMessage := true }

namespace Keeps

variable {P : State → Prop} {seedOk : State → Nat → String → Prop} {s : State}

section

variable (K : Keeps P seedOk)

include K

theorem checkReload (h : P s) : P s.checkReload := by
  unfold State.checkReload
  split
  · exact K.same h rfl rfl rfl (.inl rfl)
  · exact h

theorem closeTransport (options : Option JsonObject) (h : P s) :
    P (s.closeTransport t options) := by
  unfold State.closeTransport
  split
  · exact h
  have hclos : P (s.onTransport t fun tr => { tr with timer := false, ws := false }) :=
    K.quiet (fun tr => ⟨rfl, rfl, rfl, rfl, rfl, rfl, rfl⟩) h
  dsimp only
  split
  · exact K.push (plain_close t _) (K.push (plain_close t _) (K.checkReload hclos))
  · exact K.push (plain_close t _) hclos

variable {listener : Listener}

theorem callListener
    (hlsn : listener.waiting = []) (h : P s) : P (s.callListener t listener) := by
  cases listener with
  | channel c => simp [Listener.waiting] at hlsn
  | control data => exact K.quiet (fun tr => tr.beside_sendControl data) h
  | callback => exact h

theorem ensureTransport
    (hlsn : listener.waiting = []) (h : P s) : P (s.ensureTransport listener) := by
  unfold State.ensureTransport
  have hdef := K.ensureDefault h
  split
  · exact hdef
  unfold State.whenReady
  split
  · exact hdef
  rename_i htr
  split
  · exact K.callListener _ hlsn hdef
  · rename_i hready
    exact K.listen htr (by simpa using hready) hlsn hdef

theorem processInit (options : JsonObject)
    (hseed : ∀ seed, processInit.channelSeed options = some seed → seedOk s t seed)
    (h : P s) : P (s.processInit t options) := by
  unfold State.processInit
  split
  · exact K.closeTransport t _ h
  split
  · refine K.push (show Task.Plain (.initialized t) from trivial) ?_
    -- the seed and the host are each set or left alone
    split
    · split
      · exact K.same h rfl rfl rfl (.inl rfl)
      · rename_i seed hsome
        exact K.same (K.seed (hseed seed hsome) h) rfl rfl rfl (.inl rfl)
    · split
      · exact h
      · rename_i seed hsome
        exact K.seed (hseed seed hsome) h
  · exact K.closeTransport t _ h

theorem processControl (data : JsonObject)
    (hseed : hasCommand data "init" → ∀ seed,
      processInit.channelSeed data = some seed → seedOk s t seed)
    (h : P s) : P (s.processControl t data) := by
  unfold State.processControl
  split
  · exact h
  rename_i tr htr
  split
  · rename_i hinit
    exact K.processInit t data (hseed hinit) h
  split
  · have hquiet : P (s.onTransport t fun tr => { tr with waitingForInit := false }) :=
      K.quiet (fun tr => ⟨rfl, rfl, rfl, rfl, rfl, rfl, rfl⟩) h
    dsimp only
    split <;> exact K.closeTransport t _ hquiet
  split
  · exact h
  split
  · exact h
  split
  · exact h
  split
  · exact h
  · rename_i c hlook
    exact K.deliver htr hlook (.control data) h

theorem processMessage (channel : String) (h : P s) :
    P (s.processMessage t channel) := by
  unfold State.processMessage
  split
  · exact h
  rename_i tr htr
  split
  · exact h
  · rename_i c hlook
    exact K.deliver htr hlook .message h

theorem healthCheck (h : P s) : P (s.healthCheck t) := by
  unfold State.healthCheck
  have hquiet : P (s.onTransport t fun tr => { tr with gotMessage := false }) :=
    K.quiet (fun tr => ⟨rfl, rfl, rfl, rfl, rfl, rfl, rfl⟩) h
  split
  · exact h
  dsimp only
  split
  · exact K.closeTransport t _ hquiet
  · split
    · exact hquiet
    · exact h

theorem resume
    (hspec : ∀ task stack, s.stack = task :: stack → task.Special → P s.resume) (h : P s) :
    P s.resume := by
  cases hstack : s.stack with
  | nil =>
    unfold State.resume
    rw [hstack]
    exact h
  | cons task stack =>
    cases task with
    | listeners t rest =>
      cases rest with
      | nil =>
        unfold State.resume
        rw [hstack]
        exact K.pop hstack rfl h
      | cons listener rest =>
        cases listener with
        | channel c => exact hspec _ _ hstack trivial
        | control data | callback =>
          unfold State.resume
          rw [hstack]
          exact K.callListener t rfl (K.heard hstack rfl h)
    | close t options =>
      unfold State.resume
      rw [hstack]
      dsimp only
      split
      · exact K.dropClose hstack h
      · exact K.start hstack h
    | startBroadcast t options | broadcast t options keys => exact hspec _ _ hstack trivial
    | initialized t =>
      have hpop : P { s with stack } := K.pop hstack trivial h
      unfold State.resume
      rw [hstack]
      dsimp only
      split
      · exact hpop
      · split
        · exact K.ready t (K.quiet (fun tr => ⟨rfl, rfl, rfl, rfl, rfl, rfl, rfl⟩) hpop)
        · exact hpop
    | forget =>
      have hpop : P { s with stack } := K.pop hstack trivial h
      unfold State.resume
      rw [hstack]
      exact K.same hpop rfl rfl rfl (.inr rfl)

/-- **Step rule.** What is left of an event are the calls that an invariant may have conditions
    for: new channels, `control`, and the steps that open or close channels of a transport. -/
theorem step {e : Event}
    (hseed : ∀ t data seed, e = .receivedControl t data → hasCommand data "init" →
      processInit.channelSeed data = some seed → seedOk (s.gotMessage t) t seed)
    (hcreate : ∀ options, e = .create options → P (s.createChannel options))
    (hctl : ∀ c options, e = .control c options → P (s.onChannel c (Channel.control · options)))
    (hspec : ∀ task stack, e = .resume → s.stack = task :: stack → task.Special → P s.resume)
    (h : P s) : P (Page.step s e) := by
  have hgot : ∀ t, P (s.gotMessage t) := fun t =>
    K.quiet (fun tr => ⟨rfl, rfl, rfl, rfl, rfl, rfl, rfl⟩) h
  cases e with
  | create options => exact hcreate options rfl
  | send c message => exact K.call c (.send message) h
  | control c options => exact hctl c options rfl
  | close c options => exact K.call c (.close options) h
  | wait | transportControl data => exact K.ensureTransport rfl h
  | transportClose problem =>
    have hforget : P { s with stack := .forget :: s.stack } := K.push trivial h
    show P (s.transportClose problem)
    unfold State.transportClose
    dsimp only
    split
    · exact hforget
    · exact K.closeTransport _ _ hforget
  | beforeUnload => exact K.same h rfl rfl rfl (.inl rfl)
  | unload =>
    simp only [Page.step]
    split
    · exact h
    · exact K.closeTransport _ _ h
  | logout reload => exact K.ensureTransport rfl (K.same h rfl rfl rfl (.inl rfl))
  | socketClosed t =>
    have hquiet : P (s.onTransport t fun tr => { tr with ws := false }) :=
      K.quiet (fun tr => ⟨rfl, rfl, rfl, rfl, rfl, rfl, rfl⟩) h
    exact K.closeTransport t none (K.checkReload hquiet)
  | receivedControl t data =>
    exact K.processControl t data
      (fun hinit seed hsome => hseed t data seed rfl hinit hsome) (hgot t)
  | receivedMessage t channel => exact K.processMessage t channel (hgot t)
  | healthCheck t => exact K.healthCheck t h
  | noCockpit t =>
    simp only [Page.step]
    split
    · exact h
    · split
      · exact K.closeTransport t _ h
      · exact h
  | resume => exact K.resume (fun task stack => hspec task stack rfl) h

end

end Keeps

end Cockpit.Page
