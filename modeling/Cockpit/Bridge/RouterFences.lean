import Cockpit.Common.TransportLine
import Cockpit.Bridge.RouterLoop

namespace Cockpit

open Lib List AList FrozenMessage Transport

/-!
# Fences

While a channel of the group "fence" is open, the router puts the "open" messages of all other
channels back into the transport and keeps these channels in `fenced`.  `Bridge.FenceInv` says how
the tables of the router, this queue and the queue of the transport belong together: in
particular, the "open" message of a channel in `fenced` is the first that a thaw of the channel
hands out.

* `Bridge.FenceInv.opening` — opening a channel keeps the invariant;
* `Bridge.FenceInv.step` — so does every event that is `FenceOk`, as long as no loop thaws a
  channel in `fenced`.
-/

/-- The first message is an "open". -/
def OpensFirst (messages : List TransportMessage) : Prop :=
  ∃ message rest, messages = message :: rest ∧ message.isOpen

variable {messages : List TransportMessage}

theorem OpensFirst.extend {messages' : List TransportMessage}
    (h : OpensFirst messages) (hmore : messages <+: messages') : OpensFirst messages' := by
  obtain ⟨message, rest, rfl, hopen⟩ := h
  obtain ⟨more, rfl⟩ := hmore
  exact ⟨message, rest ++ more, rfl, hopen⟩

theorem OpensFirst.ne_nil (h : OpensFirst messages) :
    messages ≠ [] := by
  obtain ⟨message, rest, rfl, -⟩ := h
  exact cons_ne_nil _ _

/-- No message is an "open". -/
def NoOpen (messages : List TransportMessage) : Prop :=
  ∀ message ∈ messages, message.isOpen = false

instance (messages : List TransportMessage) : Decidable (NoOpen messages) :=
  inferInstanceAs (Decidable (∀ message ∈ messages, _))

theorem noOpen_iff :
    NoOpen messages ↔ messages.countP TransportMessage.isOpen = 0 := by
  rw [countP_eq_zero]
  simp [NoOpen]

namespace Bridge

/-- Whether a loop releases the channels that a fence has held up. -/
def TaskKind.isRelease : TaskKind → Bool
  | .release _ => true
  | _ => false

/-- **The condition**: a run is `Sound`, the client opens no channel while an "open" message of it is
    held back, and a peer that is ready or has ended does not thaw what a fence holds up. -/
def FenceOk (b : Bridge) (e : Event) : Prop :=
  b.Sound e ∧
    match e with
    | .arrive (some channel) message =>
      message.isOpen → NoOpen (b.transport.line channel)
    | .next =>
      ∀ r ∈ b.running, TaskKind.isRelease r.1.kind = false →
        ∀ channel ∈ r.1.todo.head?, channel ∉ b.fenced
    | _ => True

instance (b : Bridge) : ∀ e, Decidable (b.FenceOk e)
  | .arrive (some _) _ => inferInstanceAs (Decidable (_ ∧ (_ → _)))
  | .arrive none _ => inferInstanceAs (Decidable (_ ∧ True))
  | .next => inferInstanceAs (Decidable (_ ∧ ∀ r ∈ b.running, _ → ∀ channel ∈ r.1.todo.head?, _))
  | .closed _ => inferInstanceAs (Decidable (_ ∧ True))
  | .ready _ => inferInstanceAs (Decidable (_ ∧ True))
  | .peerInit _ _ => inferInstanceAs (Decidable (_ ∧ True))
  | .peerClose _ _ => inferInstanceAs (Decidable (_ ∧ True))
  | .peerEnded _ _ _ => inferInstanceAs (Decidable (_ ∧ True))
  | .peerTimeout _ => inferInstanceAs (Decidable (_ ∧ True))

/-- **The invariant** of the fences. -/
structure FenceInv (b : Bridge) : Prop where
  /-- There are no fences before "init". -/
  host : b.fences ≠ [] → b.initHost ≠ none
  nodup : b.fences.Nodup
  /-- The fences are the channels of the group "fence". -/
  fences : ∀ c, c ∈ b.fences ↔ b.groups.lookup c = some "fence"
  /-- Only local channels have a group. -/
  groups : ∀ c, b.groups.lookup c ≠ none → c ∈ b.channels
  /-- Nothing is held up without a fence. -/
  barred : b.fenced ≠ [] → b.fences ≠ []
  distinct : b.fenced.Nodup
  /-- What is held up is not open, and its "open" message is the first to be handed out. -/
  fenced : ∀ c ∈ b.fenced, c ∉ b.channels ∧ OpensFirst (b.transport.tabled c)
  /-- At most one "open" message of a channel is held back. -/
  single : ∀ c, (b.transport.line c).countP TransportMessage.isOpen ≤ 1

namespace FenceInv

variable {S : Setup} {b b' : Bridge} {channel : String} {options : JsonObject} {data : Bytes}

theorem new (connected : List Nat) : FenceInv (Bridge.new connected) where
  host := fun h => absurd rfl h
  nodup := nodup_nil
  fences := by simp [Bridge.new]
  groups := by simp [Bridge.new]
  barred := fun h => absurd rfl h
  distinct := nodup_nil
  fenced := by simp [Bridge.new]
  single := by simp [Bridge.new, Transport.line, Transport.tabled, tabledIn,
    stolenIn, Transport.new]

section

variable (h : FenceInv b)

include h

/-- A change that leaves the tables of the router alone. -/
theorem of_same (hhost : b.initHost ≠ none → b'.initHost ≠ none)
    (hchans : b'.channels = b.channels) (hgroups : b'.groups = b.groups)
    (hfences : b'.fences = b.fences) (hfenced : b'.fenced = b.fenced)
    (htabled : ∀ c, b.transport.tabled c <+: b'.transport.tabled c)
    (hone : ∀ c, (b'.transport.line c).countP TransportMessage.isOpen ≤ 1) : FenceInv b' where
  host := by
    rw [hfences]
    exact fun hne => hhost (h.host hne)
  nodup := hfences ▸ h.nodup
  fences := by
    rw [hfences, hgroups]
    exact h.fences
  groups := by
    rw [hgroups, hchans]
    exact h.groups
  barred := by
    rw [hfenced, hfences]
    exact h.barred
  distinct := hfenced ▸ h.distinct
  fenced := by
    rw [hfenced, hchans]
    exact fun c hc => ⟨(h.fenced c hc).1, (h.fenced c hc).2.extend (htabled c)⟩
  single := hone

/-- A channel that is not open is no fence. -/
theorem not_mem_fences (hnew : channel ∉ b.channels) : channel ∉ b.fences := by
  intro hmem
  apply hnew
  apply h.groups channel
  rw [(h.fences channel).mp hmem]
  exact Option.some_ne_none _

/-- A channel that is held up is frozen. -/
theorem not_mem_fenced (hfree : b.transport.freeze.lookup channel = none) :
    channel ∉ b.fenced := by
  intro hmem
  exact (h.fenced channel hmem).2.ne_nil (tabledIn_unfrozen hfree)

/-! ### Opening a channel -/

section

variable (hnest : NestInv b.transport.freeze b.transport.frozen b.transport.thaws)
    (hfree : b.transport.freeze.lookup channel = none)

include hnest hfree

/-- A channel that is put back into the transport. -/
theorem requeue
    (hquiet : NoOpen (b.transport.line channel)) (message : TransportMessage) {t : Transport}
    (ht : t = (b.transport.freezeChannel S.alloc channel).emit (some channel) message) :
    (∀ c, b.transport.tabled c <+: t.tabled c) ∧
      (∀ c, (t.line c).countP TransportMessage.isOpen ≤ 1) ∧
      (message.Named → message.isOpen → OpensFirst (t.tabled channel)) := by
  subst ht
  obtain ⟨m, hm, hparts⟩ := exists_requeue hnest S.alloc hfree message
  refine ⟨fun c => ?_, fun c => ?_, fun hnamed hopen => ?_⟩
  · rw [(hparts c).1]
    exact prefix_append _ _
  · rw [(hparts c).2, countP_append]
    by_cases heq : c = channel
    · -- the message that is put back is the only one that can be an "open"
      rw [heq, if_pos rfl, noOpen_iff.mp hquiet, countP_singleton]
      split <;> omega
    · rw [if_neg heq, countP_nil, Nat.zero_add]
      exact h.single c
  · rw [(hparts channel).1, if_pos rfl, hm hnamed, Transport.tabled, tabledIn_unfrozen hfree]
    exact ⟨message, [], rfl, hopen⟩

/-- A new local channel, which freezes itself. -/
theorem create (hnew : channel ∉ b.channels)
    (hhost : b'.initHost = b.initHost) (hchans : b'.channels = b.channels ++ [channel])
    (hgroups : b'.groups = b.groups) (hfences : b'.fences = b.fences)
    (hfenced : b'.fenced = b.fenced)
    (htrans : b'.transport = b.transport.freezeChannel S.alloc channel) : FenceInv b' where
  host := by
    rw [hfences, hhost]
    exact h.host
  nodup := hfences ▸ h.nodup
  fences := by
    rw [hfences, hgroups]
    exact h.fences
  groups := by
    rw [hgroups, hchans]
    exact fun c hc => mem_append_left _ (h.groups c hc)
  barred := by
    rw [hfenced, hfences]
    exact h.barred
  distinct := hfenced ▸ h.distinct
  fenced := by
    rw [hfenced, hchans, htrans]
    intro c hc
    rw [tabled_freezeChannel hnest S.alloc hfree]
    refine ⟨?_, (h.fenced c hc).2⟩
    rw [mem_append, mem_singleton, not_or]
    refine ⟨(h.fenced c hc).1, ?_⟩
    rintro rfl
    exact h.not_mem_fenced hfree hc
  single := by
    intro c
    rw [htrans, line_freezeChannel hnest S.alloc hfree]
    exact h.single c

end

/-- The group of a new local channel is entered. -/
theorem enter (hopen : channel ∈ b.channels)
    (hfree : b.groups.lookup channel = none) (hhost : b.initHost ≠ none) (group : String) :
    FenceInv { b with
      fences := if group = "fence" then b.fences.insert channel else b.fences
      groups := b.groups.insert channel group } := { h with
  host := fun _ => hhost
  nodup := by
    split
    · exact h.nodup.insert
    · exact h.nodup
  fences := by
    intro c
    have hnot : channel ∉ b.fences := by
      rw [h.fences, hfree]
      simp
    by_cases heq : c = channel
    · subst heq
      rw [lookup_insert, Option.some.injEq]
      by_cases hgroup : group = "fence"
      · simp [hgroup]
      · simp [hgroup, hnot]
    rw [lookup_insert_ne heq, ← h.fences]
    split
    · simp [mem_insert_iff, heq]
    · rfl
  groups := by
    intro c hc
    by_cases heq : c = channel
    · rw [heq]
      exact hopen
    · rw [lookup_insert_ne heq] at hc
      exact h.groups c hc
  barred := by
    intro hne
    have hfences := h.barred hne
    split
    · exact ne_nil_of_mem (mem_insert_self)
    · exact hfences }

section

variable (hnest : NestInv b.transport.freeze b.transport.frozen b.transport.thaws)

include hnest

/-- An outcome of the rules keeps the invariant. -/
theorem outcome (hout : Outcome S options b channel b')
    (hfree : b.transport.freeze.lookup channel = none)
    (hquiet : NoOpen (b.transport.line channel)) (hnew : channel ∉ b.channels)
    (hhost : b.initHost ≠ none) : FenceInv b' := by
  cases hout with
  | dropped | unread | answered | given =>
    exact h.of_same id rfl rfl rfl rfl (fun _ => prefix_refl _) h.single
  | unsupported => exact h.create hnest hfree hnew rfl rfl rfl rfl rfl rfl
  | created peers connected spawns group =>
    have hcreate : FenceInv { b with
        peers := peers, connected := connected, spawns := spawns
        channels := b.channels ++ [channel]
        transport := b.transport.freezeChannel S.alloc channel } :=
      h.create hnest hfree hnew rfl rfl rfl rfl rfl rfl
    refine hcreate.enter ?_ ?_ hhost group
    · exact mem_append_right _ (mem_singleton.mpr rfl)
    · by_contra hne
      exact hnew (h.groups channel hne)
  | held =>
    obtain ⟨htabled, hone, -⟩ := h.requeue hnest hfree hquiet _ rfl
    exact h.of_same id rfl rfl rfl rfl htabled hone

/-- **Opening a channel keeps the invariant.** -/
theorem opening (hopng : Opening S b channel options data b')
    (hfree : b.transport.freeze.lookup channel = none)
    (hquiet : NoOpen (b.transport.line channel)) (hhost : b.initHost ≠ none)
    (hnamed : TransportMessage.Named (.control (some "open") options data)) : FenceInv b' := by
  cases hopng with
  | reused => exact h.of_same id rfl rfl rfl rfl (fun _ => prefix_refl _) h.single
  | blocked hnew hfences =>
    obtain ⟨htabled, hone, hfirst⟩ := h.requeue hnest hfree hquiet _ rfl
    refine ⟨h.host, h.nodup, h.fences, h.groups, fun _ => hfences, ?_, ?_, hone⟩
    · show (b.fenced ++ [channel]).Nodup
      rw [nodup_append]
      refine ⟨h.distinct, nodup_singleton _, ?_⟩
      intro c hc c' hc' heq
      rw [mem_singleton.mp hc'] at heq
      exact h.not_mem_fenced hfree (heq ▸ hc)
    intro c hc
    rcases mem_append.mp hc with hold | hlast
    · exact ⟨(h.fenced c hold).1, (h.fenced c hold).2.extend (htabled c)⟩
    · rw [mem_singleton.mp hlast]
      exact ⟨hnew, hfirst hnamed rfl⟩
  | offered hnew _ _ hout =>
    have hrecord : FenceInv (b.record (.offered channel)) :=
      h.of_same id rfl rfl rfl rfl (fun _ => prefix_refl _) h.single
    exact hrecord.outcome hnest hout hfree hquiet hnew hhost

/-! ### The end of a local channel -/

end

/-- The tables without a channel that is gone. -/
theorem closeTables (channel : String) (fenced : List String)
    (tasks : List Task) (log : List Entry)
    (hfenced : fenced = b.fenced ∧ (b.fenced ≠ [] → b.fences.erase channel ≠ []) ∨ fenced = []) :
    FenceInv { b with
      channels := b.channels.erase channel
      groups := b.groups.erase channel
      fences := b.fences.erase channel
      fenced := fenced, tasks := tasks, log := log } where
  host := by
    intro hne
    apply h.host
    intro hnil
    rw [hnil] at hne
    exact hne rfl
  nodup := h.nodup.erase channel
  fences := by
    intro c
    rw [h.nodup.mem_erase_iff]
    by_cases heq : c = channel
    · rw [heq, lookup_erase]
      simp
    · rw [lookup_erase_ne heq, ← h.fences]
      exact and_iff_right heq
  groups := by
    intro c hc
    by_cases heq : c = channel
    · rw [heq, lookup_erase] at hc
      exact absurd rfl hc
    · rw [lookup_erase_ne heq] at hc
      exact (mem_erase_of_ne heq).mpr (h.groups c hc)
  barred := by
    rcases hfenced with ⟨rfl, hne⟩ | rfl
    · exact hne
    · exact fun hne => absurd rfl hne
  distinct := by
    rcases hfenced with ⟨rfl, -⟩ | rfl
    · exact h.distinct
    · exact nodup_nil
  fenced := by
    rcases hfenced with ⟨rfl, -⟩ | rfl
    · exact fun c hc => ⟨fun hmem => (h.fenced c hc).1 (mem_of_mem_erase hmem), (h.fenced c hc).2⟩
    · exact nofun
  single := h.single

/-- **The end of a local channel** keeps the invariant. -/
theorem onChannelClosed (channel : String) :
    FenceInv (b.onChannelClosed channel) := by
  unfold Bridge.onChannelClosed
  dsimp only
  split
  · rename_i hnot
    have herase : b.fences.erase channel = b.fences := erase_of_not_mem hnot
    have hclose := h.closeTables channel b.fenced b.tasks b.log
      (.inl ⟨rfl, fun hne => by rw [herase]; exact h.barred hne⟩)
    rw [herase] at hclose
    exact hclose
  split
  · rename_i hmore
    refine h.closeTables channel b.fenced b.tasks b.log (.inl ⟨rfl, fun hne => ?_⟩)
    rcases hmore with hfences | hnil
    · exact hfences
    · exact absurd hnil hne
  · exact h.closeTables channel [] _ b.log (.inr rfl)

/-! ### One event -/

variable {thaw : Thaw} {outer : List Thaw} {l : Link FrozenMessage}

/-- A message that is handed out leaves the rest of its line. -/
theorem handOut (hdel : b.transport.Delivers thaw outer l) :
    FenceInv { b with transport := b.transport.handOut thaw outer l } := by
  refine h.of_same id rfl rfl rfl rfl (fun _ => prefix_refl _) fun c => ?_
  have hone := h.single c
  rw [line_handOut hdel, countP_append] at hone
  exact le_trans (Nat.le_add_left _ _) hone

/-- The "open" message that is handed out was the only one of its channel. -/
theorem noOpen_handOut (hdel : b.transport.Delivers thaw outer l)
    (hopen : l.data.message.isOpen) :
    NoOpen ((b.transport.handOut thaw outer l).line thaw.channel) := by
  have hone := h.single thaw.channel
  rw [line_handOut hdel, countP_append, if_pos rfl, countP_singleton, if_pos hopen] at hone
  rw [noOpen_iff]
  omega

/-- The link of a message whose handlers have returned is deleted. -/
theorem nextFlushed
    (hnest : NestInv b.transport.freeze b.transport.frozen b.transport.thaws) {i : Nat} (hthaws : b.transport.thaws = thaw :: outer)
    (hflush : thaw.flush = some i) : FenceInv { b with transport := b.transport.next } := by
  refine h.of_same id rfl rfl rfl rfl (fun c => ?_) fun c => ?_
  · exact (hnest.tabled_next_flushed hthaws hflush c) ▸ prefix_refl _
  · show (b.transport.next.line c).countP _ ≤ 1
    rw [hnest.line_next_flushed hthaws hflush]
    exact h.single c

/-- A channel that no fence holds up is thawed. -/
theorem beginThaw (hnot : channel ∉ b.fenced)
    (htrans : b'.transport = b.transport.beginThaw channel)
    (hhost : b'.initHost = b.initHost)
    (hchans : b'.channels = b.channels) (hgroups : b'.groups = b.groups)
    (hfences : b'.fences = b.fences) (hfenced : b'.fenced = b.fenced) : FenceInv b' where
  host := by
    rw [hfences, hhost]
    exact h.host
  nodup := hfences ▸ h.nodup
  fences := by
    rw [hfences, hgroups]
    exact h.fences
  groups := by
    rw [hgroups, hchans]
    exact h.groups
  barred := by
    rw [hfenced, hfences]
    exact h.barred
  distinct := hfenced ▸ h.distinct
  fenced := by
    rw [hfenced, hchans, htrans]
    intro c hc
    have hne : c ≠ channel := by
      rintro rfl
      exact hnot hc
    rw [tabled_beginThaw hne]
    exact h.fenced c hc
  single := by
    intro c
    rw [htrans, line_beginThaw]
    exact h.single c

/-- **One event** keeps the invariant, if it thaws nothing that a fence holds up. -/
theorem step
    (hnest : NestInv b.transport.freeze b.transport.frozen b.transport.thaws) {e : Event}
    (hok : b.FenceOk e) (hthaw : ∀ c, e = .next → b.thawing = some c → c ∉ b.fenced)
    (hstep : Step S b e b') : FenceInv b' := by
  cases hstep with
  | stay => exact h
  | @queued name message key hidle hkey =>
    have hnamed : message.Named := hok.1.1
    refine h.of_same id rfl rfl rfl rfl (fun c => ?_) fun c => ?_
    · show _ <+: tabledIn _ (b.transport.frozen.pushTail _) c
      rw [hnest.tabledIn_push hkey]
      exact prefix_append _ _
    have hone := h.single c
    rw [Transport.line, countP_append] at hone
    rw [line_pushTail hnest hkey, message_of hnamed, countP_append, countP_append]
    by_cases heq : c = name
    · subst heq
      rw [if_pos rfl, countP_singleton]
      by_cases hopen : message.isOpen
      · have hquiet := noOpen_iff.mp (hok.2 hopen)
        rw [Transport.line, countP_append] at hquiet
        rw [if_pos hopen]
        omega
      · rw [if_neg hopen]
        omega
    · rw [if_neg heq, countP_nil]
      omega
  | passed hidle initHost peers problem hhost =>
    refine h.of_same (fun hne => ?_) rfl rfl rfl rfl (fun _ => prefix_refl _) h.single
    rw [hhost hne]
    exact hne
  | @opened name options data b' hidle hfree hopng hhost =>
    have hdeliver : FenceInv { b with
        log := b.log ++ [.opened name]
        transport := b.transport.deliver (some name) (.control (some "open") options data) } :=
      h.of_same id rfl rfl rfl rfl (fun _ => prefix_refl _) h.single
    exact hdeliver.opening hnest hopng hfree (hok.2 rfl) hhost hok.1.1
  | @closed name hout hopen =>
    have hrecord : FenceInv (b.record (.closed name .channel)) :=
      h.of_same id rfl rfl rfl rfl (fun _ => prefix_refl _) h.single
    exact hrecord.onChannelClosed name
  | ready hidle hopen =>
    exact h.beginThaw (fun hmem => (h.fenced _ hmem).1 hopen) rfl rfl rfl rfl rfl rfl
  | peer | inited | peerClosed | ended | reset | finished =>
    exact h.of_same id rfl rfl rfl rfl (fun _ => prefix_refl _) h.single
  | @thaw task rest c todo hrun htodo =>
    have hthawing : b.thawing = some c := by simp [thawing, hrun, htodo]
    exact h.beginThaw (hthaw c rfl hthawing) rfl rfl rfl rfl rfl rfl
  | @loop t hrun hquiet hnext =>
    have hsame : t.delivered = b.transport.delivered := by
      rcases hnext.account hnest with ⟨hsame, -⟩ | ⟨thaw, outer, l, hdel, -, -⟩
      · exact hsame
      · rw [hdel.delivering] at hquiet
        cases hquiet
    refine h.of_same id rfl rfl rfl rfl (hnext.tabled_extends hnest) fun c => ?_
    rw [hnext.line hnest hsame]
    exact h.single c
  | delivered hrun hdel _ initHost peers problem hhost =>
    refine (h.handOut hdel).of_same (fun hne => ?_) rfl rfl rfl rfl
      (fun _ => prefix_refl _) (h.handOut hdel).single
    show initHost ≠ none
    rw [hhost hne]
    exact hne
  | refused hrun hdel initHost peers problem hhost =>
    have hnest' := (Transport.Next.deliver hdel).nestInv hnest
    have hnext := (h.handOut hdel).nextFlushed hnest' rfl rfl
    exact hnext.of_same (fun hne => absurd hhost hne) rfl rfl rfl rfl
      (fun _ => prefix_refl _) hnext.single
  | @reopened thaw outer l options data b'' hrun hdel hmsg hopng hhost =>
    have hnest' := (Transport.Next.deliver hdel).nestInv hnest
    have hopen : l.data.message.isOpen := by
      rw [hmsg]
      rfl
    have hnamed : TransportMessage.Named (.control (some "open") options data) :=
      hmsg ▸ named_message l.data
    have hopened := (h.handOut hdel).opening hnest' hopng hdel.unfrozen
      (h.noOpen_handOut hdel hopen) hhost hnamed
    exact hopened.nextFlushed (hopng.nest hnest' hdel.unfrozen) hopng.thaws rfl

end

end FenceInv

end Bridge

end Cockpit
