import Cockpit.Bridge.RouterRelease

namespace Cockpit

open Lib List Transport

/-!
# Fences block and release

* `Bridge.LoopInv.ends` — the loops come to an end;
* `Bridge.run_fences` — in every run that is `FenceOk`, fences hold up what is opened, and the end
  of the last one releases it.

The code breaks this where a peer thaws a channel that a fence holds up.  The peer keeps track of
a channel whose "open" message it has put back, also when the fence holds that message up
afterwards; when the peer ends it thaws the channel, which is then held up, and later released,
twice.  `Bridge.FenceOk` excludes this.
-/

namespace Bridge

variable {S : Setup} {b b' : Bridge}

/-! ### One event -/

variable {task : Task}

/-- When a thaw runs, the innermost loop over channels does not. -/
theorem LoopInv.base_ne (h : LoopInv b) (hrun : b.running = none)
    {rest : List Task} (htasks : b.tasks = task :: rest) :
    b.transport.thaws.length ≠ task.base := by
  have hlt := h.base_lt hrun task (htasks ▸ mem_cons_self)
  omega

namespace ReleaseInv

theorem of_nil (h : b.tasks = []) : ReleaseInv b := by
  intro task rest htasks
  rw [h] at htasks
  cases htasks

/-- A change that keeps the loops over channels and the phase of a release. -/
theorem of_tasks (h : ReleaseInv b) (htasks : b'.tasks = b.tasks)
    (hkeep : ∀ task rest r, b.tasks = task :: rest → Releasing b r task.todo task.base →
      Releasing b' r task.todo task.base) : ReleaseInv b' := by
  intro task rest heq
  rw [htasks] at heq
  obtain ⟨houter, hrelease⟩ := h task rest heq
  exact ⟨houter, fun r hr => hkeep task rest r heq (hrelease r hr)⟩

/-- The end of a local channel: a release begins, or one that has begun goes on. -/
theorem closed (h : ReleaseInv b) (hloop : LoopInv b) (hinv : FenceInv b)
    (hout : b.outside) (channel : String) :
    ReleaseInv ((b.record (.closed channel .channel)).onChannelClosed channel) := by
  have hrun := running_of_outside hout
  have hrecord : FenceInv (b.record (.closed channel .channel)) :=
    hinv.of_same id rfl rfl rfl rfl (fun _ => prefix_refl _) hinv.single
  unfold onChannelClosed
  dsimp only
  split
  · refine h.of_tasks rfl fun task rest r htasks hrel => ?_
    exact hrel.of_same rfl rfl rfl rfl erase_subset rfl rfl rfl
  rename_i hmem
  -- a release that is going on has left no fence that could close
  have hnone : ∀ task rest r, b.tasks = task :: rest →
      ¬ Releasing b r task.todo task.base := by
    intro task rest r htasks hrel
    have hnil := hrel.fences_nil (hloop.base_ne hrun htasks) (transport_of_outside hout)
    apply hmem
    show channel ∉ b.fences
    rw [hnil]
    exact not_mem_nil
  split
  · exact h.of_tasks rfl fun task rest r htasks hrel => absurd hrel (hnone task rest r htasks)
  intro task rest htasks
  obtain ⟨rfl, rfl⟩ := List.cons.inj htasks
  refine ⟨fun outer houter => ?_, fun r hr => ?_⟩
  · cases htail : b.tasks with
    | nil =>
      have hno : outer ∈ b.tasks := houter
      rw [htail] at hno
      cases hno
    | cons task rest =>
      obtain ⟨hrest, hrelease⟩ := h task rest htail
      have hmem' : outer ∈ task :: rest := htail ▸ houter
      rcases mem_cons.mp hmem' with rfl | hin
      · cases hkind : outer.kind with
        | release r => exact absurd (hrelease r hkind) (hnone outer rest r htail)
        | init id | ended id problem => rfl
      · exact hrest outer hin
  obtain rfl : _ = r := TaskKind.release.inj hr
  refine Releasing.start hrecord ?_
  apply hinv.host
  intro hnil
  apply hmem
  show channel ∉ b.fences
  rw [hnil]
  exact not_mem_nil

/-- **One event** keeps a release in its phases. -/
theorem step (h : ReleaseInv b) (hloop : LoopInv b) (hinv : FenceInv b) {e : Event}
    (hstep : Step S b e b') : ReleaseInv b' := by
  cases hstep with
  | stay => exact h
  | queued hidle | passed hidle => exact of_nil (tasks_of_idle hidle)
  | opened hidle _ hopng => exact of_nil (hopng.tasks.trans (tasks_of_idle hidle))
  | closed hout hopen => exact h.closed hloop hinv hout _
  | ready hidle => exact of_nil (tasks_of_idle (b := b) hidle)
  | peer _ hidle => exact of_nil (tasks_of_idle hidle)
  | inited hidle =>
    intro task rest htasks
    obtain ⟨rfl, rfl⟩ := List.cons.inj htasks
    refine ⟨fun outer houter => ?_, nofun⟩
    rw [tasks_of_idle hidle] at houter
    cases houter
  | peerClosed hidle => exact of_nil (tasks_of_idle hidle)
  | ended hidle =>
    intro task rest htasks
    obtain ⟨rfl, rfl⟩ := List.cons.inj htasks
    refine ⟨fun outer houter => ?_, nofun⟩
    rw [tasks_of_idle hidle] at houter
    cases houter
  | reset hidle => exact of_nil (tasks_of_idle hidle)
  | @finished task rest hrun =>
    -- the loops outside of it are no releases
    obtain ⟨houter, -⟩ := h task rest (running_some hrun).1
    intro task' rest' htasks
    have hcons : rest = task' :: rest' := htasks
    refine ⟨fun outer hin => houter outer (hcons ▸ mem_cons_of_mem _ hin), fun r hr => ?_⟩
    have hno := houter task' (hcons ▸ mem_cons_self)
    rw [hr] at hno
    cases hno
  | @thaw task rest channel todo hrun htodo =>
    obtain ⟨htasks, hbase⟩ := running_some hrun
    obtain ⟨houter, hrelease⟩ := h task rest htasks
    intro task' rest' hcons
    obtain ⟨rfl, rfl⟩ := List.cons.inj hcons
    refine ⟨houter, fun r hr => ?_⟩
    have hr' : task.kind = .release r := hr
    have hrel := hrelease r hr'
    rw [htodo] at hrel
    have hanswers : answers task.kind channel = [] := by
      rw [hr']
      rfl
    rw [hanswers, append_nil]
    exact hrel.thaw hbase.symm
  | @loop t hrun hquiet hnext =>
    refine h.of_tasks rfl fun task rest r htasks hrel => ?_
    refine hrel.loop hloop.nest (hloop.base_ne hrun htasks) hnext ?_
    rcases hnext.account hloop.nest with ⟨hsame, -⟩ | ⟨thaw, outer, l, hdel, -, -⟩
    · exact hsame
    · rw [hdel.delivering] at hquiet
      cases hquiet
  | delivered hrun hdel hother initHost peers problem hhost =>
    refine h.of_tasks rfl fun task rest r htasks hrel => ?_
    have hnext := hrel.delivered hinv (hloop.base_ne hrun htasks) hdel hother
    exact hnext.of_same (hhost hrel.host) (append_nil _).symm rfl rfl
      (List.Subset.refl _) rfl rfl rfl
  | refused hrun hdel initHost peers problem hhost =>
    exact h.of_tasks rfl fun task rest r htasks hrel => absurd hhost hrel.host
  | reopened hrun hdel hmsg hopng =>
    refine h.of_tasks hopng.tasks fun task rest r htasks hrel => ?_
    exact hrel.reopened hinv hloop.nest (hloop.base_ne hrun htasks) hdel hmsg hopng

/-- A release does not thaw what is held up again. -/
theorem thawing_not_fenced (h : ReleaseInv b) (hok : b.FenceOk .next) {channel : String}
    (hthawing : b.thawing = some channel) : channel ∉ b.fenced := by
  obtain ⟨⟨task, rest⟩, hrun, hhead⟩ := Option.bind_eq_some_iff.mp hthawing
  cases hkind : TaskKind.isRelease task.kind with
  | false => exact hok.2 (task, rest) hrun hkind channel hhead
  | true =>
    obtain ⟨r, hr⟩ : ∃ r, task.kind = .release r := by
      cases hk : task.kind with
      | release r => exact ⟨r, rfl⟩
      | init id | ended id problem =>
        rw [hk] at hkind
        cases hkind
    have hrel := (h task rest (running_some hrun).1).2 r hr
    exact hrel.not_mem_fenced (mem_of_mem_head? hhead)

end ReleaseInv

/-! ### What is offered to the rules -/

variable {options : JsonObject} {name : String} {data : Bytes}

theorem Opening.offered_log
    (h : Opening S b name options data b') (hinv : FenceInv b) :
    ∃ es, b'.log = b.log ++ es ∧ ∀ c, .offered c ∈ es → b.fences = [] := by
  cases h with
  | reused => exact ⟨[], (append_nil _).symm, by simp⟩
  | blocked => exact ⟨[.blocked name], rfl, by simp⟩
  | offered hnew hfences _ hout =>
    have hnil : b.fences = [] := by
      rcases hfences with hnil | hmem
      · exact hnil
      · exact absurd hmem (hinv.not_mem_fences hnew)
    obtain ⟨es, hrouted⟩ := hout.routed hnil (.recv [])
    exact ⟨es, hrouted.log, fun _ _ => hnil⟩

/-- **Nothing is offered to the rules while a fence is up.** -/
theorem Step.offered_log {e : Event} (h : Step S b e b') (hinv : FenceInv b) :
    ∃ es, b'.log = b.log ++ es ∧ ∀ c, .offered c ∈ es → b.fences = [] := by
  have hopens : ∀ channel message c, .offered c ∉ opens channel message := by
    intro channel message c
    unfold opens
    split
    · split <;> simp
    · simp
  have hsame : ∃ es, b.log = b.log ++ es ∧ ∀ c, .offered c ∈ es → b.fences = [] :=
    ⟨[], (append_nil _).symm, by simp⟩
  cases h with
  | queued | passed => exact ⟨_, rfl, fun c hc => absurd hc (hopens _ _ c)⟩
  | @opened name options data b' hidle hfree hopng =>
    have hdeliver : FenceInv { b with
        log := b.log ++ [.opened name]
        transport := b.transport.deliver (some name) (.control (some "open") options data) } :=
      hinv.of_same id rfl rfl rfl rfl (fun _ => prefix_refl _) hinv.single
    obtain ⟨es, hlog, hoffered⟩ := hopng.offered_log hdeliver
    refine ⟨[.opened name] ++ es, hlog.trans (append_assoc _ _ _), fun c hc => ?_⟩
    exact hoffered c (by simpa using hc)
  | @closed name =>
    refine ⟨[.closed name .channel], ?_, by simp⟩
    unfold onChannelClosed
    dsimp only
    split
    · rfl
    · split <;> rfl
  | @peerClosed id name => exact ⟨[.closed name (.process id)], rfl, by simp⟩
  | @thaw task rest channel todo hrun htodo =>
    refine ⟨answers task.kind channel, rfl, fun c hc => ?_⟩
    unfold answers at hc
    split at hc <;> simp at hc
  | @reopened thaw outer l options data b'' hrun hdel hmsg hopng =>
    obtain ⟨es, hlog, hoffered⟩ := hopng.offered_log (hinv.handOut hdel)
    exact ⟨es, hlog, hoffered⟩
  | _ => exact hsame

/-! ### The loops come to an end -/

/-- How many channels the loops over channels have yet to thaw. -/
def todoLeft (b : Bridge) : Nat := (b.tasks.map (fun task => task.todo.length)).sum

/-- The order in which the loops come to an end. -/
def Closer (b' b : Bridge) : Prop :=
  Prod.Lex (· < ·) (Prod.Lex Transport.Nearer (· < ·))
    (b'.todoLeft, b'.transport, b'.tasks.length) (b.todoLeft, b.transport, b.tasks.length)

theorem closer_wf : WellFounded Closer :=
  InvImage.wf (fun b : Bridge => (b.todoLeft, b.transport, b.tasks.length))
    (Prod.lex Nat.lt_wfRel (Prod.lex ⟨Transport.Nearer, nearer_wf⟩ Nat.lt_wfRel)).wf

/-- The same loops over channels, and thaws that are nearer to their end. -/
theorem closer_of_nearer (htasks : b'.tasks = b.tasks)
    (h : Transport.Nearer b'.transport b.transport) : Closer b' b := by
  have htodo : b'.todoLeft = b.todoLeft := by rw [todoLeft, todoLeft, htasks]
  rw [Closer, htodo, htasks]
  exact .right _ (.left _ _ h)

/-- What is handed out stays pending until its link is deleted. -/
theorem pending_handOut {t : Transport} {thaw : Thaw} {outer : List Thaw}
    {l : Link FrozenMessage} (hdel : t.Delivers thaw outer l) :
    (t.handOut thaw outer l).pending ≤ t.pending :=
  pending_le rfl (by simp [Transport.handOut, hdel.thaws])

/-- What an "open" message puts back is not pending. -/
theorem Opening.pending
    (h : Opening S b name options data b')
    (hnest : NestInv b.transport.freeze b.transport.frozen b.transport.thaws)
    (hfree : b.transport.freeze.lookup name = none) :
    b'.transport.pending = b.transport.pending := by
  rcases h.transport with heq | heq | ⟨message, heq⟩ <;> rw [heq]
  · rfl
  · rw [emit_freezeChannel]
    exact (hnest.freezeChannel S.alloc hfree).pending_pushTail
      (t := b.transport.freezeChannel S.alloc name) (AList.lookup_insert _) message

/-- Every step of the loops brings their end nearer. -/
theorem Step.closer (h : Step S b .next b') (hloop : LoopInv b) (hbusy : ¬ b.idle) :
    Closer b' b := by
  have hthaws : b.running = none → b.transport.thaws ≠ [] := by
    intro hrun hnil
    apply hbusy
    cases htasks : b.tasks with
    | nil => simp [idle, htasks, hnil]
    | cons task rest =>
      have hlt := hloop.base_lt hrun task (htasks ▸ mem_cons_self)
      rw [hnil] at hlt
      exact absurd hlt (Nat.not_lt_zero _)
  cases h with
  | stay _ hother => exact absurd rfl hother
  | peer _ hidle => exact absurd hidle hbusy
  | @finished task rest hrun htodo =>
    have htasks := (running_some hrun).1
    have hleft : (rest.map (fun task => task.todo.length)).sum = b.todoLeft := by
      rw [todoLeft, htasks, map_cons, sum_cons, htodo, length_nil, Nat.zero_add]
    rw [Closer, htasks]
    show Prod.Lex _ _ ((rest.map (fun task => task.todo.length)).sum, b.transport, rest.length) _
    rw [hleft]
    exact .right _ (.right _ (Nat.lt_succ_self _))
  | @thaw task rest channel todo hrun htodo =>
    refine .left _ _ ?_
    rw [todoLeft, todoLeft, (running_some hrun).1]
    simp only [map_cons, sum_cons, htodo, length_cons]
    omega
  | loop hrun _ hnext => exact closer_of_nearer rfl (hnext.nearer hloop.nest (hthaws hrun))
  | delivered hrun hdel =>
    exact closer_of_nearer rfl
      ((Transport.Next.deliver hdel).nearer hloop.nest (hthaws hrun))
  | refused hrun hdel =>
    have hnest := (Transport.Next.deliver hdel).nestInv hloop.nest
    exact closer_of_nearer rfl (.left _ _
      (Nat.lt_of_lt_of_le (hnest.pending_next rfl rfl) (pending_handOut hdel)))
  | reopened hrun hdel hmsg hopng =>
    have hnest := (Transport.Next.deliver hdel).nestInv hloop.nest
    have hlt := (hopng.nest hnest hdel.unfrozen).pending_next hopng.thaws rfl
    rw [hopng.pending hnest hdel.unfrozen] at hlt
    exact closer_of_nearer hopng.tasks
      (.left _ _ (Nat.lt_of_lt_of_le hlt (pending_handOut hdel)))

/-- **The loops come to an end**, unless one of their steps breaks the condition. -/
theorem LoopInv.ends (h : LoopInv b) (S : Setup) :
    ∃ n, RunOk (Bridge.step S) FenceOk b (List.replicate n .next) →
      (run (Bridge.step S) b (List.replicate n .next)).idle := by
  induction b using closer_wf.induction with
  | h b ih =>
    by_cases hidle : b.idle
    · exact ⟨0, fun _ => hidle⟩
    by_cases hok : b.FenceOk .next
    · obtain ⟨n, hn⟩ := ih (b.step S .next) ((steps S b h.nest .next).closer h hidle)
        (h.step S .next hok.1)
      exact ⟨n + 1, fun hrun => hn hrun.2⟩
    · exact ⟨1, fun hrun => absurd hrun.1 hok⟩

/-! ### Whole runs -/

/-- What a release keeps: the "open" messages are offered to the rules or held up again in the order
    in which they were held up, each of them once, and those that are held up again have their
    messages in the order in which they were. -/
structure Released (b : Bridge) (task : Task) (r : Release) : Prop where
  once : (b.routedSince r.logged).Nodup
  order : b.routedSince r.logged <+: r.all
  /-- Between two thaws, and so at the end, no channel is left out. -/
  whole : b.transport.thaws.length = task.base → r.all = b.routedSince r.logged ++ task.todo
  again : b.fenced = b.barredSince r.logged
  kept : ∀ c ∈ b.fenced, b.transport.line c = r.start.line c

/-- **What fences are for.** -/
structure FencesKept (S : Setup) (b : Bridge) : Prop where
  /-- The fences have a group, and what has a group is an open local channel. -/
  fences : ∀ c ∈ b.fences, c ∈ b.groups
  groups : ∀ c ∈ b.groups, c ∈ b.channels
  /-- Nothing is held up without a fence. -/
  barred : b.fenced ≠ [] → b.fences ≠ []
  /-- While a channel of the group "fence" is open, nothing is offered to the rules. -/
  offered : ∀ e c, .offered c ∈ (b.step S e).log.drop b.log.length →
    ∀ fence, b.groups.lookup fence ≠ some "fence"
  /-- The end of the last fence releases what is held up. -/
  releases : ∀ fence, b.outside → fence ∈ b.channels → b.fences = [fence] →
    b.fenced ≠ [] → ∃ task r, (b.step S (.closed fence)).tasks = task :: b.tasks ∧
      task.kind = .release r ∧ r.all = b.fenced ∧ task.todo = b.fenced ∧ r.start = b.transport
  released : ∀ task ∈ b.tasks, ∀ r, task.kind = .release r → Released b task r
  /-- The loops come to an end. -/
  ends : ∃ n, RunOk (step S) FenceOk b (List.replicate n .next) →
    (run (step S) b (List.replicate n .next)).idle
  fault : b.transport.fault = false
  defined : b.undefined = false

theorem Releasing.released {r : Release} (h : Releasing b r task.todo task.base) :
    Released b task r := by
  have hdist := h.distinct
  cases h.phase with
  | between hthaws hall =>
    rw [hall, nodup_append] at hdist
    exact ⟨hdist.1, hall ▸ prefix_append _ _, fun _ => hall, h.again, h.kept⟩
  | pending hthaws hbase _ _ _ _ _ hall =>
    rw [hall, nodup_append] at hdist
    refine ⟨hdist.1, hall ▸ prefix_append _ _, fun hlen => ?_, h.again, h.kept⟩
    rw [hthaws, length_cons] at hlen
    omega
  | routed hthaws hbase _ _ hall =>
    rw [hall, nodup_append] at hdist
    exact ⟨hdist.1, hall ▸ prefix_append _ _, fun _ => hall, h.again, h.kept⟩

/-- The end of the last fence. -/
theorem onChannelClosed_last {fence : String} (hfences : b.fences = [fence])
    (hfenced : b.fenced ≠ []) :
    ∃ task r, (b.onChannelClosed fence).tasks = task :: b.tasks ∧ task.kind = .release r ∧
      r.all = b.fenced ∧ task.todo = b.fenced ∧ r.start = b.transport := by
  refine ⟨⟨.release ⟨b.fenced, b.transport, b.log.length⟩, b.fenced, b.transport.thaws.length⟩,
    ⟨b.fenced, b.transport, b.log.length⟩, ?_, rfl, rfl, rfl, rfl⟩
  simp [onChannelClosed, hfences, hfenced]

/-- The invariants of a run. -/
structure FenceRunInv (b : Bridge) : Prop where
  loop : LoopInv b
  fence : FenceInv b
  release : ReleaseInv b

namespace FenceRunInv

theorem new (connected : List Nat) : FenceRunInv (Bridge.new connected) :=
  ⟨LoopInv.new connected, FenceInv.new connected, ReleaseInv.of_nil rfl⟩

/-- **One admitted event keeps the invariants.** -/
theorem step (h : FenceRunInv b) (S : Setup) (e : Event) (hok : b.FenceOk e) :
    FenceRunInv (b.step S e) := by
  have hstep := steps S b h.loop.nest e
  refine ⟨h.loop.step S e hok.1, ?_, h.release.step h.loop h.fence hstep⟩
  refine h.fence.step h.loop.nest hok (fun c he hthawing => ?_) hstep
  subst he
  exact h.release.thawing_not_fenced hok hthawing

theorem fencesKept (h : FenceRunInv b) (S : Setup) : FencesKept S b where
  fences := by
    intro c hc
    rw [← AList.lookup_isSome, (h.fence.fences c).mp hc]
    rfl
  groups := by
    intro c hc
    apply h.fence.groups c
    rw [← Option.isSome_iff_ne_none, AList.lookup_isSome]
    exact hc
  barred := h.fence.barred
  offered := by
    intro e c hmem fence hfence
    obtain ⟨es, hlog, hoffered⟩ := (steps S b h.loop.nest e).offered_log h.fence
    rw [hlog, drop_left] at hmem
    have hin := (h.fence.fences fence).mpr hfence
    rw [hoffered c hmem] at hin
    exact not_mem_nil hin
  releases := by
    intro fence hout hopen hfences hfenced
    rw [Bridge.step, if_pos ⟨hout, hopen⟩]
    exact onChannelClosed_last (b := b.record (.closed fence .channel)) hfences hfenced
  released := by
    intro task htask r hr
    cases htasks : b.tasks with
    | nil =>
      rw [htasks] at htask
      cases htask
    | cons top rest =>
      obtain ⟨hrest, hrelease⟩ := h.release top rest htasks
      rw [htasks] at htask
      rcases mem_cons.mp htask with rfl | hin
      · exact (hrelease r hr).released
      · have hno := hrest task hin
        rw [hr] at hno
        cases hno
  ends := h.loop.ends S
  fault := h.loop.fault
  defined := h.loop.defined

end FenceRunInv

/-- **Fences block and release** in every admitted run. -/
theorem run_fences (S : Setup) (connected : List Nat) (es : List Event)
    (hok : RunOk (step S) FenceOk (new connected) es) :
    FencesKept S (run (step S) (new connected) es) :=
  (run_invariant FenceRunInv (fun _ e h hok => h.step S e hok)
    (FenceRunInv.new connected) hok).fencesKept S

/-- A bridge that opens local channels for one payload and hands everything else to a peer, which is
    started again when it has ended. -/
def localAndPeer : Setup where
  alloc := .above
  rules := [⟨[.glob "payload" "local"], .channel⟩, ⟨[], .peer (fun _ => 0)⟩]
  config := fun _ => [("timeout", .int 0)]
  spawn := fun _ => true
  userName := "user"
  patternMatch := fun pattern value => pattern == value
  jsonEqual := fun _ _ => false
  jsonWrite := fun _ => []

/-- The options of a local channel in the group "fence". -/
def fenceOptions : JsonObject := [("payload", .string "local"), ("group", .string "fence")]

/-- The fence "f" holds up "d" and "e".  It closes, "d" is released and is a fence itself, so "e" is
    held up again, with its payload behind its "open" message. -/
theorem run_fences_second_fence :
    FencesKept localAndPeer (run (step localAndPeer) (new [0])
      [.clientInit, .clientOpen "f" fenceOptions, .clientOpen "d" fenceOptions,
        .clientOpen "e" [], .arrive (some "e") (.recv [1]), .closed "f",
        .next, .next, .next, .next, .next, .next, .next]) :=
  run_fences localAndPeer [0] _ (by decide)

/-- The peer has put the "open" message of "c" back, and the fence "f" holds it up when the peer is
    ready.  Then the process of the peer ends, and the fence closes. -/
def peerEndsBehindFence : List Event :=
  [.clientInit, .clientOpen "c" [], .clientOpen "f" fenceOptions,
    .processInit 0, .next, .next, .next, .next,
    .peerEnded 0 none (.exited 0), .next, .next, .next, .next,
    .closed "f", .next, .next, .next, .next, .next]

/-- A release has offered the "open" message of "c" twice. -/
def releasedTwice (b : Bridge) (task : Task) : Bool :=
  match task.kind with
  | .release r => b.routedSince r.logged == ["c", "c"]
  | _ => false

/-- The peer has thawed "c", which is held up a second time: the release offers its one "open" message
    to the rules twice. -/
theorem not_fencesKept_released_twice :
    ¬ FencesKept localAndPeer (run (step localAndPeer) (new [0]) peerEndsBehindFence) := by
  intro h
  have htwice : (run (step localAndPeer) (new [0]) peerEndsBehindFence).tasks.any
      (run (step localAndPeer) (new [0]) peerEndsBehindFence).releasedTwice := by decide
  obtain ⟨task, htask, hrouted⟩ := any_eq_true.mp htwice
  cases hkind : task.kind with
  | release r =>
    have honce := (h.released task htask r hkind).once
    rw [releasedTwice, hkind] at hrouted
    rw [eq_of_beq hrouted] at honce
    revert honce
    decide
  | init id | ended id problem =>
    rw [releasedTwice, hkind] at hrouted
    cases hrouted

end Bridge

end Cockpit
