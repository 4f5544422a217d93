import Cockpit.Common.TransportThaw
import Cockpit.Bridge.RouterOpen

namespace Cockpit

open Lib Transport

/-!
# The steps of a bridge

What one event can do to a bridge whose loops have their places (`Bridge.Step`, `Bridge.steps`).
The invariants of a bridge are derived from this list of cases.  The first of them is that the
loops do keep their places:

* `Bridge.LoopInv` — the invariant of the transport, and which loop runs;
* `Bridge.LoopInv.step` — every event that is `Sound` keeps it.
-/

namespace Transport

variable {t : Transport}

/-- The loop is about to hand out the link `l`. -/
theorem Delivers.delivering {thaw : Thaw} {outer : List Thaw}
    {l : Link FrozenMessage} (h : Delivers t thaw outer l) :
    t.delivering = some (thaw.channel, l.data.message) := by
  simp [Transport.delivering, h.thaws, h.flush, h.cursor, LinkQueue.find_of_mem h.link, h.stolen,
    h.unfrozen]

/-- What the loop is about to hand out is held by a link of the queue. -/
theorem exists_delivers {delivery : String × TransportMessage} (h : t.delivering = some delivery) :
    ∃ thaw outer l, Delivers t thaw outer l ∧ delivery = (thaw.channel, l.data.message) ∧
      t.next = t.handOut thaw outer l := by
  unfold Transport.delivering at h
  cases hthaws : t.thaws with
  | nil => simp [hthaws] at h
  | cons thaw outer =>
    cases hflush : thaw.flush with
    | some i => simp [hthaws, hflush] at h
    | none =>
      cases hl : thaw.l with
      | none => simp [hthaws, hflush, hl] at h
      | some i =>
        cases hfind : t.frozen.find i with
        | none => simp [hthaws, hflush, hl, hfind] at h
        | some frozen =>
          simp only [hthaws, hflush, hl, Option.bind_some, hfind] at h
          split at h
          · rename_i hboth
            refine ⟨thaw, outer, ⟨i, frozen⟩, ⟨hthaws, hflush, LinkQueue.mem_of_find hfind, hl,
              hboth.1, hboth.2⟩, (Option.some.inj h).symm, ?_⟩
            simp only [Transport.next, hthaws, hflush, hl, visit, hfind, if_pos hboth.1,
              maybeFreezeMessage, hboth.2]
            rfl
          · cases h

end Transport

namespace Bridge

/-! ### The handlers of a message -/

variable {message : TransportMessage}

/-- A message that does not open a channel touches the peers at most. -/
theorem handle_other (S : Setup) (b : Bridge) (channel : Option String)
    (h : message.isOpen = false ∨ channel = none ∨ b.initHost = none) :
    ∃ initHost peers problem, (b.initHost ≠ none → initHost = b.initHost) ∧
      b.handle S channel message =
        { b with initHost := initHost, peers := peers, transportProblem := problem } := by
  cases message with
  | recv data => exact ⟨b.initHost, b.peers, b.transportProblem, fun _ => rfl, rfl⟩
  | control command options data =>
    simp only [handle, onTransportControl]
    split
    · -- "init"
      unfold processInit
      split
      · exact ⟨_, _, _, fun _ => rfl, rfl⟩
      rename_i hinit
      split
      · exact ⟨_, _, _, fun _ => rfl, rfl⟩
      split
      · exact ⟨_, _, _, fun _ => rfl, rfl⟩
      split
      · split
        · exact ⟨_, _, _, fun _ => rfl, rfl⟩
        · exact ⟨_, _, b.transportProblem, fun h => absurd (by simpa using hinit) h, rfl⟩
      · exact ⟨_, _, _, fun _ => rfl, rfl⟩
    cases hhost : b.initHost with
    | none => exact ⟨b.initHost, _, _, fun _ => hhost, rfl⟩
    | some host =>
      dsimp only
      split
      · rename_i hopen
        rcases h with h | h | h
        · simp [TransportMessage.isOpen, hopen] at h
        · subst h
          exact ⟨b.initHost, _, _, fun _ => hhost, rfl⟩
        · rw [hhost] at h
          cases h
      split
      · exact ⟨b.initHost, _, _, fun _ => hhost, rfl⟩
      unfold peersControl
      cases channel with
      | none => exact ⟨b.initHost, _, _, fun _ => hhost, rfl⟩
      | some channel =>
        dsimp only
        split
        · exact ⟨b.initHost, _, _, fun _ => hhost, rfl⟩
        · split <;> exact ⟨b.initHost, _, _, fun _ => hhost, rfl⟩

/-- An "open" message goes to `process_open`. -/
theorem handle_open (S : Setup) (b : Bridge) (channel : Option String) (options : JsonObject)
    (data : Bytes) {host : String} (h : b.initHost = some host) :
    b.handle S channel (.control (some "open") options data) =
      b.processOpen S host channel options data := by
  simp [handle, onTransportControl, h]

/-- "open" messages are control messages. -/
theorem eq_control_of_isOpen (h : message.isOpen) :
    ∃ options data, message = .control (some "open") options data := by
  cases message with
  | recv data => cases h
  | control command options data =>
    simp only [TransportMessage.isOpen, beq_iff_eq] at h
    exact ⟨options, data, by rw [h]⟩

/-! ### The cases of a step -/

/-- What a round of a loop over channels sends to the client before it thaws `channel`. -/
def answers (kind : TaskKind) (channel : String) : List Entry :=
  match kind with
  | .ended id (some _) => [.closed channel (.peer id)]
  | _ => []

/-- **What an event can do.** -/
inductive Step (S : Setup) (b : Bridge) : Event → Bridge → Prop where
  /-- The event cannot happen now, or changes nothing. -/
  | stay (e : Event) (hother : e ≠ .next) : Step S b e b
  /-- A message for a frozen channel. -/
  | queued {channel : String} {message : TransportMessage} {key : Nat} (hidle : b.idle)
      (hkey : b.transport.freeze.lookup channel = some key) :
      Step S b (.arrive (some channel) message)
        { b with
          log := b.log ++ opens (some channel) message
          transport := { b.transport with
            frozen := b.transport.frozen.pushTail (.of key channel message) } }
  /-- A message that is handled here or by the peers. -/
  | passed {channel : Option String} {message : TransportMessage} (hidle : b.idle)
      (initHost : Option String) (peers : Nat → Peer) (problem : Option String)
      (hhost : b.initHost ≠ none → initHost = b.initHost) :
      Step S b (.arrive channel message)
        { b with
          log := b.log ++ opens channel message
          transport := b.transport.deliver channel message
          initHost := initHost, peers := peers, transportProblem := problem }
  /-- An "open" message of the client. -/
  | opened {channel : String} {options : JsonObject} {data : Bytes} {b' : Bridge}
      (hidle : b.idle) (hfree : b.transport.freeze.lookup channel = none)
      (hopening : Opening S
        { b with
          log := b.log ++ [.opened channel]
          transport := b.transport.deliver (some channel) (.control (some "open") options data) }
        channel options data b') (hhost : b.initHost ≠ none) :
      Step S b (.arrive (some channel) (.control (some "open") options data)) b'
  /-- The end of a local channel. -/
  | closed {channel : String} (hout : b.outside) (hopen : channel ∈ b.channels) :
      Step S b (.closed channel) ((b.record (.closed channel .channel)).onChannelClosed channel)
  /-- A local channel thaws itself. -/
  | ready {channel : String} (hidle : b.idle) (hopen : channel ∈ b.channels) :
      Step S b (.ready channel) { b with transport := b.transport.beginThaw channel }
  /-- A peer changes nothing but itself. -/
  | peer (e : Event) (hidle : b.idle) (peers : Nat → Peer) :
      Step S b e { b with peers := peers }
  /-- A peer is ready for the channels it has put back. -/
  | inited {id : Nat} {options : JsonObject} (hidle : b.idle) (peers : Nat → Peer) :
      Step S b (.peerInit id options)
        { b with
          peers := peers
          tasks := ⟨.init id, (b.peers id).frozen, b.transport.thaws.length⟩ :: b.tasks }
  /-- The process of a peer closes a channel. -/
  | peerClosed {id : Nat} {channel : String} (hidle : b.idle) (peers : Nat → Peer) :
      Step S b (.peerClose id channel)
        { b with
          peers := peers
          given := b.given.erase (id, channel)
          log := b.log ++ [.closed channel (.process id)] }
  /-- The process of a peer has ended. -/
  | ended {id : Nat} {problem : Option String} {status : ExitStatus} (hidle : b.idle)
      (peers : Nat → Peer) :
      Step S b (.peerEnded id problem status)
        { b with
          peers := peers
          given := b.given.filter (fun g => g.1 ≠ id)
          tasks := ⟨.ended id (b.endProblem S id problem status), (b.peers id).channels,
            b.transport.thaws.length⟩ :: b.tasks }
  /-- A peer without channels is reset. -/
  | reset {id : Nat} (hidle : b.idle) (peers : Nat → Peer) :
      Step S b (.peerTimeout id)
        { b with peers := peers, given := b.given.filter (fun g => g.1 ≠ id) }
  /-- A loop over channels ends. -/
  | finished {task : Task} {rest : List Task} (hrun : b.running = some (task, rest))
      (htodo : task.todo = []) (peers : Nat → Peer) {given : List (Nat × String)}
      (hgiven : given.Sublist b.given) :
      Step S b .next { b with tasks := rest, peers := peers, given := given }
  /-- A loop over channels thaws the next one. -/
  | thaw {task : Task} {rest : List Task} {channel : String} {todo : List String}
      (hrun : b.running = some (task, rest)) (htodo : task.todo = channel :: todo) :
      Step S b .next
        { b with
          log := b.log ++ answers task.kind channel
          transport := b.transport.beginThaw channel
          tasks := { task with todo := todo } :: rest }
  /-- A thaw goes on without handing out a message. -/
  | loop {t : Transport} (hrun : b.running = none) (hquiet : b.transport.delivering = none)
      (hnext : b.transport.Next t) : Step S b .next { b with transport := t }
  /-- A thaw hands out a message that is handled by others. -/
  | delivered {thaw : Thaw} {outer : List Thaw} {l : Link FrozenMessage}
      (hrun : b.running = none) (hdelivers : b.transport.Delivers thaw outer l)
      (hother : l.data.message.isOpen = false)
      (initHost : Option String) (peers : Nat → Peer) (problem : Option String)
      (hhost : b.initHost ≠ none → initHost = b.initHost) :
      Step S b .next
        { b with
          transport := b.transport.handOut thaw outer l
          initHost := initHost, peers := peers, transportProblem := problem }
  /-- A thaw hands out an "open" message before the client has sent "init". -/
  | refused {thaw : Thaw} {outer : List Thaw} {l : Link FrozenMessage}
      (hrun : b.running = none) (hdelivers : b.transport.Delivers thaw outer l)
      (initHost : Option String) (peers : Nat → Peer) (problem : Option String)
      (hhost : b.initHost = none) :
      Step S b .next
        { b with
          transport := (b.transport.handOut thaw outer l).next
          initHost := initHost, peers := peers, transportProblem := problem }
  /-- A thaw hands out an "open" message. -/
  | reopened {thaw : Thaw} {outer : List Thaw} {l : Link FrozenMessage} {options : JsonObject}
      {data : Bytes} {b' : Bridge} (hrun : b.running = none)
      (hdelivers : b.transport.Delivers thaw outer l)
      (hmessage : l.data.message = .control (some "open") options data)
      (hopening : Opening S { b with transport := b.transport.handOut thaw outer l }
        thaw.channel options data b') (hhost : b.initHost ≠ none) :
      Step S b .next { b' with transport := b'.transport.next }

section

variable (S : Setup) (b : Bridge)

include S b

/-- A message of the client. -/
theorem arrive_step (hidle : b.idle) (channel : Option String)
    (message : TransportMessage) :
    Step S b (.arrive channel message)
      ({ b with log := b.log ++ opens channel message }.arrive S channel message) := by
  unfold arrive
  cases channel with
  | none =>
    obtain ⟨initHost, peers, problem, hhost', heq⟩ := handle_other S
      { b with
        log := b.log ++ opens none message
        transport := b.transport.deliver none message } none (.inr (.inl rfl))
    show Step S b _ (handle _ S none message)
    rw [heq]
    exact .passed hidle initHost peers problem hhost'
  | some channel =>
    cases hkey : b.transport.freeze.lookup channel with
    | some key =>
      simp only [maybeFreezeMessage, hkey]
      exact .queued hidle hkey
    | none =>
      simp only [maybeFreezeMessage, hkey]
      by_cases hopen : message.isOpen ∧ b.initHost.isSome
      · obtain ⟨options, data, rfl⟩ := eq_control_of_isOpen hopen.1
        obtain ⟨host, hhost⟩ := Option.isSome_iff_exists.mp hopen.2
        rw [handle_open S
          { b with
            log := b.log ++ opens (some channel) (.control (some "open") options data)
            transport := b.transport.deliver (some channel) (.control (some "open") options data) }
          (some channel) options data hhost]
        exact .opened hidle hkey (opening S _ host channel options data) (by simp [hhost])
      have hother : message.isOpen = false ∨ some channel = none ∨ b.initHost = none := by
        rw [not_and_or] at hopen
        rcases hopen with h | h
        · exact .inl (by simpa using h)
        · exact .inr (.inr (by simpa using h))
      obtain ⟨initHost, peers, problem, hhost', heq⟩ := handle_other S
        { b with
          log := b.log ++ opens (some channel) message
          transport := b.transport.deliver (some channel) message } (some channel)
        (hother : message.isOpen = false ∨ some channel = none ∨ b.initHost = none)
      rw [heq]
      exact .passed hidle initHost peers problem hhost'

/-- A step of the innermost thaw. -/
theorem loopStep_step (hrun : b.running = none)
    (hnest : NestInv b.transport.freeze b.transport.frozen b.transport.thaws) :
    Step S b .next (b.loopStep S) := by
  unfold loopStep
  cases hdel : b.transport.delivering with
  | none => exact .loop hrun hdel hnest.next
  | some delivery =>
    obtain ⟨thaw, outer, l, hdelivers, rfl, hnext⟩ := exists_delivers hdel
    dsimp only
    rw [hnext]
    by_cases hopen : l.data.message.isOpen
    · rw [if_pos hopen]
      rcases Option.eq_none_or_eq_some b.initHost with hhost | ⟨host, hhost⟩
      · obtain ⟨initHost, peers, problem, hhost', heq⟩ := handle_other S
          { b with transport := b.transport.handOut thaw outer l } (some thaw.channel)
          (.inr (.inr hhost) : l.data.message.isOpen = false ∨ _)
        rw [heq]
        exact .refused hrun hdelivers initHost peers problem hhost
      obtain ⟨options, data, hmsg⟩ := eq_control_of_isOpen hopen
      rw [hmsg, handle_open S { b with transport := b.transport.handOut thaw outer l }
        (some thaw.channel) options data hhost]
      exact .reopened hrun hdelivers hmsg (opening S _ host thaw.channel options data)
        (by simp [hhost])
    rw [if_neg hopen]
    obtain ⟨initHost, peers, problem, hhost', heq⟩ := handle_other S
      { b with transport := b.transport.handOut thaw outer l } (some thaw.channel)
      (.inl (by simpa using hopen) : l.data.message.isOpen = false ∨ _)
    rw [heq]
    exact .delivered hrun hdelivers (by simpa using hopen) initHost peers problem hhost'

/-- A round of the innermost loop over channels. -/
theorem taskStep_step {task : Task} {rest : List Task}
    (hrun : b.running = some (task, rest)) : Step S b .next (b.taskStep S task rest) := by
  unfold taskStep
  split
  · rename_i htodo
    cases hkind : task.kind with
    | release r => exact .finished hrun htodo b.peers (List.Sublist.refl _)
    | init id => exact .finished hrun htodo _ (List.Sublist.refl _)
    | ended id problem =>
      simp only [finish]
      split
      · exact .finished hrun htodo _ List.filter_sublist
      · exact .finished hrun htodo b.peers (List.Sublist.refl _)
  rename_i channel todo htodo
  have hstep := Step.thaw (S := S) hrun htodo
  cases hkind : task.kind with
  | release r | init id =>
    simp only [answers, hkind, List.append_nil] at hstep ⊢
    exact hstep
  | ended id problem =>
    cases problem with
    | none =>
      simp only [answers, hkind, List.append_nil] at hstep ⊢
      exact hstep
    | some problem =>
      simp only [answers, hkind] at hstep ⊢
      exact hstep

/-- The messages and the end of a peer. -/
theorem onOtherInit_step (hidle : b.idle) (id : Nat)
    (options : JsonObject) : Step S b (.peerInit id options) (b.onOtherInit id options) := by
  unfold onOtherInit
  split
  · exact .stay _ (by simp)
  · exact .peer _ hidle _
  · split
    · exact .inited hidle _
    · exact .stay _ (by simp)

/-- **Every event is one of the cases.** -/
theorem steps (hnest : NestInv b.transport.freeze b.transport.frozen b.transport.thaws)
    (e : Event) : Step S b e (b.step S e) := by
  cases e with
  | arrive channel message =>
    rw [step]
    split
    · rename_i hidle
      exact arrive_step S b hidle channel message
    · exact .stay _ (by simp)
  | closed channel =>
    rw [step]
    split
    · rename_i h
      exact .closed h.1 h.2
    · exact .stay _ (by simp)
  | ready channel =>
    rw [step]
    split
    · rename_i h
      exact .ready h.1 h.2
    · exact .stay _ (by simp)
  | peerInit id options =>
    rw [step]
    split
    · rename_i h
      exact onOtherInit_step S b h.1 id options
    · exact .stay _ (by simp)
  | peerClose id channel =>
    rw [step]
    split
    · rename_i h
      exact .peerClosed h.1 _
    · exact .stay _ (by simp)
  | peerEnded id problem status =>
    rw [step]
    split
    · rename_i h
      exact .ended h.1 _
    · exact .stay _ (by simp)
  | peerTimeout id =>
    rw [step]
    split
    · rename_i h
      unfold onTimeoutReset
      split
      · exact .reset h.1 _
      · exact .peer _ h.1 _
    · exact .stay _ (by simp)
  | next =>
    rw [step, next]
    split
    · rename_i task rest hrun
      exact taskStep_step S b hrun
    · rename_i hrun
      exact loopStep_step S b hrun hnest

end

end Bridge

end Cockpit
