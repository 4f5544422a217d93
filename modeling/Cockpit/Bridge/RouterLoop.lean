import Cockpit.Bridge.RouterStep

namespace Cockpit

open Lib List Transport

/-!
# The loops of a bridge keep their places

* `Bridge.LoopInv` — the invariant of the transport holds, and the loops over channels are nested in
  the thaws in progress;
* `Bridge.LoopInv.step` — every event that is `Sound` keeps it.
-/

namespace Bridge

/-! ### What `process_open` does to the loops -/

section Opening

variable {S : Setup} {b b' : Bridge} {channel : String} {options : JsonObject} {data : Bytes}

section

variable (h : Opening S b channel options data b')

include h

/-- The transport is left alone, or the channel is frozen, with or without its "open" message. -/
theorem Opening.transport :
    b'.transport = b.transport ∨ b'.transport = b.transport.freezeChannel S.alloc channel ∨
      ∃ message, b'.transport = (b.transport.freezeChannel S.alloc channel).emit (some channel)
        message := by
  cases h with
  | reused => exact .inl rfl
  | blocked => exact .inr (.inr ⟨_, rfl⟩)
  | offered _ _ _ hout =>
    cases hout with
    | dropped | unread => exact .inl rfl
    | unsupported | created => exact .inr (.inl rfl)
    | answered | given => exact .inl rfl
    | held => exact .inr (.inr ⟨_, rfl⟩)

theorem Opening.tasks : b'.tasks = b.tasks := by
  cases h with
  | reused | blocked => rfl
  | offered _ _ _ hout => cases hout <;> rfl

theorem Opening.undefined
    (hgroup : GroupOk (.control (some "open") options data)) : b'.undefined = b.undefined := by
  cases h with
  | reused | blocked => rfl
  | offered _ _ hsame hout =>
    cases hout with
    | unread _ _ _ hnone =>
      have := hgroup rfl
      rw [hsame] at hnone
      simp [hnone] at this
    | _ => rfl

theorem Opening.thaws :
    b'.transport.thaws = b.transport.thaws := by
  rcases h.transport with heq | heq | ⟨message, heq⟩ <;> rw [heq]
  · rfl
  · rw [emit_freezeChannel]
    rfl

theorem Opening.fault :
    b'.transport.fault = b.transport.fault := by
  rcases h.transport with heq | heq | ⟨message, heq⟩ <;> rw [heq]
  · rfl
  · rw [emit_freezeChannel]
    rfl

theorem Opening.nest
    (hnest : NestInv b.transport.freeze b.transport.frozen b.transport.thaws)
    (hfree : b.transport.freeze.lookup channel = none) :
    NestInv b'.transport.freeze b'.transport.frozen b'.transport.thaws := by
  rcases h.transport with heq | heq | ⟨message, heq⟩ <;> rw [heq]
  · exact hnest
  · exact hnest.freezeChannel S.alloc hfree
  · rw [emit_freezeChannel]
    exact (hnest.freezeChannel S.alloc hfree).pushTail (AList.lookup_insert _) message

end

end Opening

/-! ### The invariant -/

/-- **The loops have their places**, and a loop over channels that runs has been called by handlers or
    by the main loop. -/
structure LoopInv (b : Bridge) : Prop where
  nest : NestInv b.transport.freeze b.transport.frozen b.transport.thaws
  fault : b.transport.fault = false
  defined : b.undefined = false
  nested : b.tasks.Pairwise (fun inner outer => outer.base < inner.base)
  below : ∀ task ∈ b.tasks, task.base ≤ b.transport.thaws.length
  called : ∀ r, b.running = some r → b.transport.outside

/-- Which loop over channels runs is a matter of the loops in progress. -/
theorem running_congr {b b' : Bridge} (htasks : b'.tasks = b.tasks)
    (hthaws : b'.transport.thaws.length = b.transport.thaws.length) : b'.running = b.running := by
  rw [running, running, htasks, hthaws]

theorem running_some {b : Bridge} {task : Task} {rest : List Task}
    (h : b.running = some (task, rest)) :
    b.tasks = task :: rest ∧ task.base = b.transport.thaws.length := by
  unfold running at h
  split at h
  · cases h
  split at h
  · rename_i heq hbase
    obtain ⟨rfl, rfl⟩ := h
    exact ⟨heq, hbase⟩
  · cases h

theorem tasks_of_idle {b : Bridge} (h : b.idle) : b.tasks = [] := by
  simp only [idle, Bool.and_eq_true, List.isEmpty_iff] at h
  exact h.1

theorem thaws_of_idle {b : Bridge} (h : b.idle) : b.transport.thaws = [] := by
  simp only [idle, Bool.and_eq_true, List.isEmpty_iff] at h
  exact h.2

theorem running_of_outside {b : Bridge} (h : b.outside) : b.running = none := by
  simp only [outside, Bool.and_eq_true, Option.isNone_iff_eq_none] at h
  exact h.1

theorem transport_of_outside {b : Bridge} (h : b.outside) :
    b.transport.outside := by
  simp only [outside, Bool.and_eq_true] at h
  exact h.2

namespace LoopInv

variable {S : Setup} {b : Bridge}

theorem new (connected : List Nat) : LoopInv (Bridge.new connected) where
  nest := Transport.ThawInv.new.nest
  fault := rfl
  defined := rfl
  nested := List.Pairwise.nil
  below := by simp [Bridge.new]
  called := by
    intro r hr
    cases hr

section

variable (h : LoopInv b)

include h

/-- When no loop over channels runs, all of them began before the innermost thaw. -/
theorem base_lt (hrun : b.running = none) :
    ∀ task ∈ b.tasks, task.base < b.transport.thaws.length := by
  intro task htask
  have hnested := h.nested
  have hbelow := h.below
  unfold running at hrun
  cases htasks : b.tasks with
  | nil =>
    rw [htasks] at htask
    cases htask
  | cons inner rest =>
    rw [htasks] at htask hrun hnested hbelow
    have hne : inner.base ≠ b.transport.thaws.length := by
      intro heq
      simp [heq] at hrun
    have hinner := hbelow inner mem_cons_self
    rcases mem_cons.mp htask with rfl | hrest
    · omega
    · have := (pairwise_cons.mp hnested).1 task hrest
      omega

variable {b' : Bridge}

/-- A change that keeps the number of thaws and the loops over channels, when none of these runs. -/
theorem of_same
    (hnest : NestInv b'.transport.freeze b'.transport.frozen b'.transport.thaws)
    (hfault : b'.transport.fault = b.transport.fault) (hdef : b'.undefined = b.undefined)
    (htasks : b'.tasks = b.tasks) (hthaws : b'.transport.thaws.length = b.transport.thaws.length)
    (hrun : b.running = none) : LoopInv b' where
  nest := hnest
  fault := hfault.trans h.fault
  defined := hdef.trans h.defined
  nested := htasks ▸ h.nested
  below := by
    rw [htasks, hthaws]
    exact h.below
  called := by
    intro r hr
    rw [running_congr htasks hthaws, hrun] at hr
    cases hr

/-- Thawing a channel, which its own loop over channels or code outside of all loops does. -/
theorem beginThaw (hout : b.transport.outside) {channel : String} (hok : b.transport.ThawOk channel)
    (htrans : b'.transport = b.transport.beginThaw channel)
    (hdef : b'.undefined = b.undefined)
    (htasks : b'.tasks.map Task.base = b.tasks.map Task.base) : LoopInv b' where
  nest := by
    rw [htrans]
    exact h.nest.beginThaw (h.nest.all_waiting hout) hok
  fault := by
    rw [htrans]
    exact h.fault
  defined := hdef.trans h.defined
  nested := by
    have hnested : (b.tasks.map Task.base).Pairwise (fun inner outer => outer < inner) :=
      pairwise_map.mpr h.nested
    rw [← htasks] at hnested
    exact pairwise_map.mp hnested
  below := by
    intro task htask
    have hmem : task.base ∈ b.tasks.map Task.base := htasks ▸ mem_map_of_mem htask
    obtain ⟨task', htask', heq⟩ := mem_map.mp hmem
    have := h.below task' htask'
    rw [htrans]
    show task.base ≤ b.transport.thaws.length + 1
    omega
  called := by
    rintro ⟨task, rest⟩ hr
    obtain ⟨htask, hbase⟩ := running_some hr
    have hmem : task.base ∈ b.tasks.map Task.base := by
      rw [← htasks, htask]
      simp
    obtain ⟨task', htask', heq⟩ := mem_map.mp hmem
    have hle := h.below task' htask'
    have hlen : b'.transport.thaws.length = b.transport.thaws.length + 1 := by
      rw [htrans]
      rfl
    omega

variable {task : Task}

/-- A loop over channels is called by code outside of all loops. -/
theorem push (hrun : b.running = none) (hout : b.transport.outside) (htrans : b'.transport = b.transport)
    (hdef : b'.undefined = b.undefined)
    (htasks : b'.tasks = task :: b.tasks) (hbase : task.base = b.transport.thaws.length) :
    LoopInv b' where
  nest := by
    rw [htrans]
    exact h.nest
  fault := by
    rw [htrans]
    exact h.fault
  defined := hdef.trans h.defined
  nested := by
    rw [htasks]
    refine pairwise_cons.mpr ⟨fun outer houter => ?_, h.nested⟩
    rw [hbase]
    exact h.base_lt hrun outer houter
  below := by
    rw [htasks, htrans]
    intro task' htask'
    rcases mem_cons.mp htask' with rfl | hmem
    · exact Nat.le_of_eq hbase
    · exact h.below task' hmem
  called := by
    intro _ _
    rw [htrans]
    exact hout

/-- A loop over channels ends. -/
theorem pop {rest : List Task}
    (hrun : b.running = some (task, rest)) (htrans : b'.transport = b.transport)
    (hdef : b'.undefined = b.undefined) (htasks : b'.tasks = rest) : LoopInv b' := by
  obtain ⟨hcons, hbase⟩ := running_some hrun
  have hnested := h.nested
  rw [hcons] at hnested
  obtain ⟨hhead, htail⟩ := pairwise_cons.mp hnested
  refine ⟨?_, ?_, hdef.trans h.defined, htasks ▸ htail, ?_, ?_⟩
  · rw [htrans]
    exact h.nest
  · rw [htrans]
    exact h.fault
  · rw [htasks, htrans]
    intro outer houter
    exact h.below outer (hcons ▸ mem_cons_of_mem _ houter)
  rintro ⟨outer, rest'⟩ hr
  obtain ⟨houter, hbase'⟩ := running_some hr
  rw [htasks] at houter
  rw [htrans] at hbase'
  have := hhead outer (houter ▸ mem_cons_self)
  omega

/-- A step of the innermost thaw, when no loop over channels runs. -/
theorem next (hrun : b.running = none) {t : Transport}
    (hnext : b.transport.Next t) : LoopInv { b with transport := t } := by
  have hnest := hnext.nestInv h.nest
  cases hnext with
  | idle => exact h
  | flushed hthaws | other hthaws => exact h.of_same hnest rfl rfl rfl (by simp [hthaws]) hrun
  | deliver hdel =>
    exact h.of_same hnest rfl rfl rfl (by simp [Transport.handOut, hdel.thaws]) hrun
  | again hthaws => exact h.of_same hnest rfl rfl rfl (by simp [hthaws]) hrun
  | @leave thaw outer hthaws hflush hl =>
    refine ⟨hnest, h.fault, h.defined, h.nested, ?_, ?_⟩
    · intro task htask
      have := h.base_lt hrun task htask
      rw [hthaws, length_cons] at this
      exact Nat.le_of_lt_succ this
    -- a call that is not the innermost waits for its handlers
    intro r hr
    have hwait := h.nest.waiting
    rw [hthaws] at hwait
    show Transport.outside { b.transport with thaws := outer }
    cases outer with
    | nil => rfl
    | cons w ws => exact Option.isSome_iff_ne_none.mpr (hwait w mem_cons_self)

/-- The transport after an "open" message was handled and its link deleted. -/
theorem reopened (hrun : b.running = none) {thaw : Thaw} {outer : List Thaw}
    {l : Link FrozenMessage} (hdel : b.transport.Delivers thaw outer l) (b' : Bridge)
    (hnest : NestInv b'.transport.freeze b'.transport.frozen b'.transport.thaws)
    (hthaws : b'.transport.thaws = (b.transport.handOut thaw outer l).thaws)
    (hfault : b'.transport.fault = b.transport.fault) (hdef : b'.undefined = b.undefined)
    (htasks : b'.tasks = b.tasks) : LoopInv { b' with transport := b'.transport.next } := by
  have hsame : LoopInv b' := by
    refine h.of_same hnest hfault hdef htasks ?_ hrun
    rw [hthaws, hdel.thaws]
    rfl
  refine hsame.next ?_ hnest.next
  rw [running_congr htasks (by rw [hthaws, hdel.thaws]; rfl), hrun]

/-- **Every event that is `Sound` keeps the loops in their places.** -/
theorem step (S : Setup) (e : Event) (hok : b.Sound e) :
    LoopInv (b.step S e) := by
  have hstep := steps S b h.nest e
  generalize b.step S e = b' at hstep ⊢
  cases hstep with
  | stay => exact h
  | queued hidle hkey =>
    refine h.of_same (h.nest.pushTail hkey _) rfl rfl rfl rfl ?_
    simp [running, tasks_of_idle hidle]
  | passed hidle =>
    exact h.of_same h.nest rfl rfl rfl rfl (by simp [running, tasks_of_idle hidle])
  | opened hidle hfree hopng =>
    refine h.of_same (hopng.nest h.nest hfree) hopng.fault (hopng.undefined hok.2)
      hopng.tasks (by rw [hopng.thaws]; rfl) ?_
    simp [running, tasks_of_idle hidle]
  | closed hout hopen =>
    unfold onChannelClosed
    dsimp only
    split
    · exact h.of_same h.nest rfl rfl rfl rfl (running_of_outside hout)
    · split
      · exact h.of_same h.nest rfl rfl rfl rfl (running_of_outside hout)
      · exact h.push (running_of_outside hout) (transport_of_outside hout) rfl rfl rfl rfl
  | ready hidle hopen =>
    refine h.beginThaw (by simp [Transport.outside, thaws_of_idle hidle]) ?_ rfl rfl rfl
    intro thaw hthaw
    rw [thaws_of_idle hidle] at hthaw
    cases hthaw
  | peer _ hidle => exact h.of_same h.nest rfl rfl rfl rfl (by simp [running, tasks_of_idle hidle])
  | inited hidle =>
    refine h.push (by simp [running, tasks_of_idle hidle]) ?_ rfl rfl rfl rfl
    simp [Transport.outside, thaws_of_idle hidle]
  | peerClosed hidle =>
    exact h.of_same h.nest rfl rfl rfl rfl (by simp [running, tasks_of_idle hidle])
  | ended hidle =>
    refine h.push (by simp [running, tasks_of_idle hidle]) ?_ rfl rfl rfl rfl
    simp [Transport.outside, thaws_of_idle hidle]
  | reset hidle => exact h.of_same h.nest rfl rfl rfl rfl (by simp [running, tasks_of_idle hidle])
  | finished hrun => exact h.pop hrun rfl rfl rfl
  | @thaw task rest channel todo hrun htodo =>
    have hthaw : b.thawing = some channel := by simp [thawing, hrun, htodo]
    refine h.beginThaw (h.called _ hrun) (hok.1 channel hthaw) rfl rfl ?_
    rw [(running_some hrun).1]
    rfl
  | loop hrun _ hnext => exact h.next hrun hnext
  | delivered hrun hdel =>
    have hnext := h.next hrun (.deliver hdel)
    exact { hnext with }
  | refused hrun hdel initHost peers problem =>
    have hnest := (Transport.Next.deliver hdel).nestInv h.nest
    have hnext := h.reopened hrun hdel { b with transport := b.transport.handOut _ _ _ } hnest
      rfl rfl rfl rfl
    exact { hnext with }
  | reopened hrun hdel hmsg hopng =>
    have hnest := (Transport.Next.deliver hdel).nestInv h.nest
    refine h.reopened hrun hdel _ (hopng.nest hnest hdel.unfrozen) hopng.thaws
      hopng.fault (hopng.undefined ?_) hopng.tasks
    have := hok.2 hrun _ hdel.delivering
    rw [hmsg] at this
    exact this

end

end LoopInv

end Bridge

end Cockpit
