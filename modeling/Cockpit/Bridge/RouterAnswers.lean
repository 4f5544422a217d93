import Cockpit.Bridge.RouterLoop

namespace Cockpit

open Lib List FrozenMessage Transport

/-!
# One answer for each "open" message

Every "open" message of the client is in one place at a time: held by the transport, with a local
channel, with the process of a peer, or with a peer that has ended and is about to answer.  A
"close" that is sent to the client uses one of them up (`Bridge.AnswerInv`), so a channel that is
opened once is closed at most once, and is not offered to the rules any more when it was closed
(`Bridge.run_answers`).

The code breaks this where a peer ends: `on_other_closed` answers for every channel the peer keeps
track of, also for those whose "open" message it has never passed on, and then thaws that
message, which is offered to the rules again.  `Bridge.AnswerOk` excludes this.
-/

namespace Entry

/-- A "close" for `channel`. -/
def closes (channel : String) : Entry → Bool
  | .closed c _ => c == channel
  | _ => false

end Entry

namespace Bridge

/-! ### Where the "open" messages of a channel are -/

/-- Whether a message is the "open" message of `channel`. -/
def opensChannel (channel : String) (delivery : Option String × TransportMessage) : Bool :=
  delivery.1 == some channel && delivery.2.isOpen

/-- The "open" messages of `channel` that a transport holds. -/
def heldOpens (t : Transport) (channel : String) : Nat :=
  (t.held.map (fun l => l.data.delivery)).countP (opensChannel channel)

/-- The answers for `channel` that a loop has yet to send. -/
def Task.owes (channel : String) (task : Task) : Nat :=
  match task.kind with
  | .ended _ (some _) => task.todo.count channel
  | _ => 0

/-- The "open" messages of `channel` that are still to be answered. -/
def unanswered (b : Bridge) (channel : String) : Nat :=
  heldOpens b.transport channel + b.channels.count channel +
    b.given.countP (fun g => g.2 == channel) + (b.tasks.map (Task.owes channel)).sum

variable (log : List Entry)

/-- How often the client has opened `channel`. -/
def openedCount (channel : String) : Nat := log.count (.opened channel)

/-- How often it was told that `channel` is closed. -/
def closedCount (channel : String) : Nat := log.countP (Entry.closes channel)

/-- **The condition**: a run is `Sound`, the processes of peers close what they were given to open, and
    a peer only ends with a problem when it has passed on the "open" messages of all channels it
    keeps track of. -/
def AnswerOk (S : Setup) (b : Bridge) (e : Event) : Prop :=
  b.Sound e ∧
    match e with
    | .peerClose id channel => (id, channel) ∈ b.given
    | .peerEnded id problem status =>
      (b.endProblem S id problem status).isSome →
        ∀ channel ∈ (b.peers id).channels, (id, channel) ∈ b.given
    | _ => True

instance (S : Setup) (b : Bridge) (e : Event) : Decidable (b.AnswerOk S e) := by
  cases e <;> exact instDecidableAnd

/-- Whenever a channel was offered to the rules, one of its "open" messages was not answered yet. -/
def OffersPaid : Prop :=
  ∀ before after channel, log = before ++ .offered channel :: after →
    closedCount before channel < openedCount before channel

/-- **The invariant**: every "close" and every "open" message that is yet to be answered is one that the
    client has sent. -/
structure AnswerInv (b : Bridge) : Prop where
  loop : LoopInv b
  paid : ∀ channel, b.unanswered channel + closedCount b.log channel ≤ openedCount b.log channel
  offers : OffersPaid b.log

/-! ### Counting -/

@[simp] theorem openedCount_append (l l' : List Entry) (channel : String) :
    openedCount (l ++ l') channel = openedCount l channel + openedCount l' channel :=
  count_append

@[simp] theorem closedCount_append (l l' : List Entry) (channel : String) :
    closedCount (l ++ l') channel = closedCount l channel + closedCount l' channel :=
  countP_append

section

variable (name channel : String)

include name channel

/-- One "close" counts for its channel. -/
@[simp] theorem closedCount_closed (closer : Closer) :
    closedCount [.closed name closer] channel = if channel = name then 1 else 0 := by
  by_cases heq : channel = name
  · simp [closedCount, Entry.closes, heq]
  · simp [closedCount, Entry.closes, heq, Ne.symm heq]

@[simp] theorem openedCount_opened :
    openedCount [.opened name] channel = if channel = name then 1 else 0 := by
  by_cases heq : channel = name
  · simp [openedCount, heq]
  · simp [openedCount, heq, Ne.symm heq]

/-- The other entries do not count. -/
@[simp] theorem openedCount_closed (closer : Closer) :
    openedCount [.closed name closer] channel = 0 := by simp [openedCount]

@[simp] theorem openedCount_blocked :
    openedCount [.blocked name] channel = 0 := by simp [openedCount]

@[simp] theorem closedCount_opened :
    closedCount [.opened name] channel = 0 := by simp [closedCount, Entry.closes]

@[simp] theorem closedCount_offered :
    closedCount [.offered name] channel = 0 := by simp [closedCount, Entry.closes]

@[simp] theorem closedCount_blocked :
    closedCount [.blocked name] channel = 0 := by simp [closedCount, Entry.closes]

/-- One local channel counts, -/
theorem count_channel :
    [name].count channel = if channel = name then 1 else 0 := by
  by_cases heq : channel = name
  · simp [heq]
  · simp [heq, Ne.symm heq]

end

/-- and one "open" message that a process was given. -/
theorem countP_given (id : Nat) (name channel : String) :
    [(id, name)].countP (fun g => g.2 == channel) = if channel = name then 1 else 0 := by
  by_cases heq : channel = name
  · simp [heq]
  · simp [heq, Ne.symm heq]

variable {t : Transport}

/-- What is held is unchanged as long as the messages are, in whatever order. -/
theorem heldOpens_perm {t' : Transport}
    (h : (t'.held.map (fun l => l.data.delivery)).Perm (t.held.map (fun l => l.data.delivery)))
    (channel : String) : heldOpens t' channel = heldOpens t channel := h.countP_eq _

theorem heldOpens_freezeChannel (a : Allocator) (t : Transport) (name channel : String) :
    heldOpens (t.freezeChannel a name) channel = heldOpens t channel := rfl

/-- A message that joins the queue. -/
theorem heldOpens_pushTail
    (h : NestInv t.freeze t.frozen t.thaws) (frozen : FrozenMessage) (channel : String) :
    heldOpens { t with frozen := t.frozen.pushTail frozen } channel =
      heldOpens t channel + if opensChannel channel frozen.delivery then 1 else 0 := by
  unfold heldOpens
  rw [held_eq, held_eq]
  show List.countP _ ((heldIn (t.frozen.pushTail frozen) t.thaws).map _) = _
  rw [heldIn_pushTail h, map_append, countP_append]
  simp [countP_cons]

/-- A channel that is frozen and whose "open" message is emitted then. -/
theorem heldOpens_requeue
    (h : NestInv t.freeze t.frozen t.thaws) (a : Allocator) {name : String}
    (hfree : t.freeze.lookup name = none) (message : TransportMessage) (channel : String) :
    heldOpens ((t.freezeChannel a name).emit (some name) message) channel ≤
      heldOpens t channel + if channel = name then 1 else 0 := by
  rw [emit_freezeChannel]
  have hpush := heldOpens_pushTail (h.freezeChannel a hfree)
    (.of (a.strdup t.strdups t.live) name message) channel
  refine le_trans (le_of_eq hpush) (Nat.add_le_add_left ?_ _)
  by_cases heq : channel = name
  · rw [if_pos heq]
    split <;> omega
  · rw [if_neg heq, if_neg]
    simp [opensChannel, FrozenMessage.delivery, Ne.symm heq]

variable {log : List Entry}

/-- One more entry. -/
theorem OffersPaid.snoc (h : OffersPaid log) {e : Entry} (he : ∀ channel, e = .offered channel →
      closedCount log channel < openedCount log channel) : OffersPaid (log ++ [e]) := by
  intro before after channel heq
  rcases eq_nil_or_concat after with rfl | ⟨after', last, rfl⟩
  · obtain ⟨rfl, hlast⟩ := append_inj' heq rfl
    exact he channel (by simpa using hlast)
  · rw [concat_eq_append, ← cons_append, ← append_assoc] at heq
    obtain ⟨hlog, -⟩ := append_inj' heq rfl
    exact h before after' channel hlog

/-- Only an entry for an offer has to be paid for. -/
theorem OffersPaid.closed (h : OffersPaid log) (name : String)
    (closer : Closer) : OffersPaid (log ++ [.closed name closer]) := by
  refine h.snoc fun channel heq => ?_
  cases heq

theorem OffersPaid.opens (h : OffersPaid log) (name : Option String)
    (message : TransportMessage) : OffersPaid (log ++ opens name message) := by
  unfold Bridge.opens
  split
  · split
    · refine h.snoc fun channel heq => ?_
      cases heq
    · rw [append_nil]
      exact h
  · rw [append_nil]
    exact h

/-- A message of the client closes nothing. -/
@[simp] theorem closedCount_opens (name : Option String) (message : TransportMessage)
    (channel : String) : closedCount (opens name message) channel = 0 := by
  unfold opens
  split
  · split <;> simp [closedCount, Entry.closes]
  · rfl

/-- An "open" message of the client counts. -/
theorem openedCount_opens (name : String) (message : TransportMessage) (channel : String) :
    openedCount (opens (some name) message) channel =
      if opensChannel channel (some name, message) then 1 else 0 := by
  unfold opens opensChannel
  by_cases hopen : message.isOpen
  · by_cases heq : channel = name
    · simp [hopen, heq]
    · simp [hopen, heq, Ne.symm heq]
  · simp [hopen, openedCount]

/-! ### Opening a channel -/

section Opening

variable {S : Setup} {b b' : Bridge} {name : String} {options : JsonObject} {data : Bytes}

/-- An outcome takes up the one "open" message there is. -/
theorem Outcome.paid (h : Outcome S options b name b')
    (hnest : NestInv b.transport.freeze b.transport.frozen b.transport.thaws)
    (hfree : b.transport.freeze.lookup name = none) (channel : String) :
    b'.unanswered channel + closedCount b'.log channel ≤
      b.unanswered channel + closedCount b.log channel + if channel = name then 1 else 0 := by
  cases h with
  | dropped | unread => exact Nat.le_add_right _ _
  | unsupported | created =>
    simp only [unanswered, heldOpens_freezeChannel, count_append, count_channel]
    omega
  | answered =>
    simp only [unanswered, closedCount_append, closedCount_closed]
    omega
  | given =>
    simp only [unanswered, countP_append, countP_given]
    omega
  | held _ _ _ data =>
    have hheld := heldOpens_requeue hnest S.alloc hfree (.control (some "open") options data) channel
    simp only [unanswered]
    omega

section

variable (h : Opening S b name options data b')

include h

/-- Opening a channel takes up one "open" message. -/
theorem Opening.paid
    (hnest : NestInv b.transport.freeze b.transport.frozen b.transport.thaws)
    (hfree : b.transport.freeze.lookup name = none) (channel : String) :
    b'.unanswered channel + closedCount b'.log channel ≤
      b.unanswered channel + closedCount b.log channel + if channel = name then 1 else 0 := by
  cases h with
  | reused => exact Nat.le_add_right _ _
  | blocked =>
    have hheld := heldOpens_requeue hnest S.alloc hfree (.control (some "open") options data) channel
    simp only [unanswered, closedCount_append, closedCount_blocked]
    omega
  | offered _ _ _ hout =>
    have hpaid := hout.paid hnest hfree channel
    simp only [record, closedCount_append, closedCount_offered] at hpaid
    exact hpaid

/-- It does not open any, -/
theorem Opening.openedCount_eq (channel : String) :
    openedCount b'.log channel = openedCount b.log channel := by
  cases h with
  | reused => rfl
  | blocked => simp
  | offered _ _ _ hout => cases hout <;> simp [record, openedCount]

/-- and offers it to the rules only when there is an "open" message to be answered. -/
theorem Opening.offers (hoffers : OffersPaid b.log)
    (hpaid : closedCount b.log name < openedCount b.log name) : OffersPaid b'.log := by
  have hoffered : OffersPaid (b.log ++ [.offered name]) := by
    refine hoffers.snoc fun channel heq => ?_
    obtain rfl : name = channel := by simpa using heq
    exact hpaid
  cases h with
  | reused => exact hoffers
  | blocked => exact hoffers.snoc nofun
  | offered _ _ _ hout =>
    cases hout with
    | answered => exact hoffered.snoc nofun
    | _ => exact hoffered

end

end Opening

/-! ### One event -/

namespace AnswerInv

variable {b : Bridge}

theorem new (connected : List Nat) : AnswerInv (Bridge.new connected) where
  loop := LoopInv.new connected
  paid := fun _ => Nat.le_refl _
  offers := by
    intro before after channel heq
    simp [Bridge.new] at heq

variable {channel name : String}

/-- There is an "open" message to be answered as long as the transport holds one. -/
theorem closedCount_lt (h : AnswerInv b) (hheld : 0 < heldOpens b.transport channel) :
    closedCount b.log channel < openedCount b.log channel := by
  have hpaid := h.paid channel
  simp only [unanswered] at hpaid
  omega

/-- An answer of a peer that has ended. -/
theorem answers_eq (task : Task) {todo : List String}
    (htodo : task.todo = channel :: todo) (c : String) :
    Task.owes c { task with todo := todo } + closedCount (answers task.kind channel) c =
      Task.owes c task := by
  unfold Task.owes answers
  cases task.kind with
  | release r | init id => rfl
  | ended id problem =>
    cases problem with
    | none => rfl
    | some problem =>
      simp only [htodo, closedCount_closed, count_cons]
      by_cases heq : c = channel
      · simp [heq]
      · simp [heq, Ne.symm heq]

variable {id : Nat}

/-- A peer that ends with a problem answers for what its process was given. -/
theorem given_ended {given : List (Nat × String)} {channels : List String}
    (hnodup : channels.Nodup) (hgiven : ∀ channel ∈ channels, (id, channel) ∈ given) (c : String) :
    channels.count c + (given.filter (fun g => g.1 ≠ id)).countP (fun g => g.2 == c) ≤
      given.countP (fun g => g.2 == c) := by
  by_cases hmem : c ∈ channels
  · rw [count_eq_one_of_mem hnodup hmem]
    have hperm := perm_cons_erase (hgiven c hmem)
    rw [hperm.countP_eq, (hperm.filter _).countP_eq, filter_cons_of_neg (by simp),
      countP_cons_of_pos (by simp)]
    have hle : ((given.erase (id, c)).filter (fun g => g.1 ≠ id)).countP (fun g => g.2 == c) ≤
        (given.erase (id, c)).countP (fun g => g.2 == c) := filter_sublist.countP_le
    omega
  · rw [count_eq_zero_of_not_mem hmem, Nat.zero_add]
    exact filter_sublist.countP_le

/-- A local channel that closes sends the one answer it owes. -/
theorem unanswered_closed (b : Bridge) (hopen : name ∈ b.channels) (c : String) :
    (b.onChannelClosed name).unanswered c + (if c = name then 1 else 0) = b.unanswered c := by
  have hcount : (b.channels.erase name).count c + (if c = name then 1 else 0) =
      b.channels.count c := by
    rw [(perm_cons_erase hopen).count_eq, ← singleton_append, count_append, count_channel]
    omega
  unfold onChannelClosed
  dsimp only
  split
  · simp only [unanswered]
    omega
  split
  · simp only [unanswered]
    omega
  · simp only [unanswered, map_cons, sum_cons, Task.owes]
    omega

theorem log_onChannelClosed (b : Bridge) (name : String) : (b.onChannelClosed name).log = b.log := by
  unfold onChannelClosed
  dsimp only
  split
  · rfl
  · split <;> rfl

variable {thaw : Thaw} {outer : List Thaw} {l : Link FrozenMessage}

/-- What is still to be answered when a link was handed out. -/
theorem heldOpens_handOut (h : LoopInv b) (hdel : b.transport.Delivers thaw outer l) (c : String) :
    heldOpens b.transport c = heldOpens (b.transport.handOut thaw outer l) c +
      if opensChannel c (some thaw.channel, l.data.message) then 1 else 0 := by
  unfold heldOpens
  rw [(hdel.account h.nest).countP_eq, countP_cons]

/-! The cases of a step, as to what is to be answered. -/

theorem paid_queued (h : AnswerInv b) {message : TransportMessage}
    (hnamed : message.Named) (key : Nat) (c : String) :
    heldOpens { b.transport with frozen := b.transport.frozen.pushTail (.of key name message) } c =
      heldOpens b.transport c + openedCount (opens (some name) message) c := by
  rw [heldOpens_pushTail h.loop.nest, openedCount_opens, FrozenMessage.delivery,
    of_owner, message_of hnamed]

variable {S : Setup}

theorem paid_ended {problem : Option String}
    {status : ExitStatus} (hok : b.AnswerOk S (.peerEnded id problem status)) (base : Nat)
    (c : String) :
    Task.owes c ⟨.ended id (b.endProblem S id problem status), (b.peers id).channels, base⟩ +
      (b.given.filter (fun g => g.1 ≠ id)).countP (fun g => g.2 == c) ≤
      b.given.countP (fun g => g.2 == c) := by
  unfold Task.owes
  cases hend : b.endProblem S id problem status with
  | none =>
    rw [Nat.zero_add]
    exact filter_sublist.countP_le
  | some problem => exact given_ended (b.peers id).nodup (hok.2 (by rw [hend]; rfl)) c

theorem held_beginThaw (t : Transport) (name : String) : (t.beginThaw name).held = t.held := by
  refine heldIn_congr fun i => ?_
  simp [Transport.beginThaw]

variable {b' : Bridge}

/-- The handlers of the "open" message that was handed out have returned. -/
theorem heldOpens_next
    (hnest : NestInv b'.transport.freeze b'.transport.frozen b'.transport.thaws)
    (hthaws : b'.transport.thaws = (b.transport.handOut thaw outer l).thaws) (c : String) :
    heldOpens b'.transport.next c = heldOpens b'.transport c :=
  heldOpens_perm (held_next_flush hnest hthaws rfl) c

variable {e : Event}

/-- An event uses up an "open" message for each "close". -/
theorem paid_step (h : AnswerInv b) (hok : b.AnswerOk S e) (hstep : Step S b e b') (c : String) :
    b'.unanswered c + closedCount b'.log c ≤ openedCount b'.log c := by
  have hpaid := h.paid c
  cases hstep with
  | stay => exact hpaid
  | @queued name message key =>
    simp only [unanswered, h.paid_queued hok.1.1, closedCount_append, closedCount_opens,
      openedCount_append] at hpaid ⊢
    omega
  | passed =>
    simp only [closedCount_append, closedCount_opens, openedCount_append]
    exact le_trans hpaid (Nat.le_add_right _ _)
  | opened _ hfree hopng =>
    have hone := hopng.paid h.loop.nest hfree c
    rw [hopng.openedCount_eq]
    simp only [closedCount_append, openedCount_append, closedCount_opened,
      openedCount_opened] at hone ⊢
    exact le_trans hone (Nat.add_le_add_right hpaid _)
  | @closed name hout hopen =>
    have hone := unanswered_closed (b.record (.closed name .channel)) hopen c
    have hsame : (b.record (.closed name .channel)).unanswered c = b.unanswered c := rfl
    rw [log_onChannelClosed]
    simp only [record, closedCount_append, openedCount_append, closedCount_closed,
      openedCount_closed] at hone hsame ⊢
    omega
  | ready =>
    simp only [unanswered, heldOpens, held_beginThaw] at hpaid ⊢
    exact hpaid
  | peer => exact hpaid
  | inited =>
    simp only [unanswered, map_cons, sum_cons, Task.owes] at hpaid ⊢
    omega
  | peerClosed =>
    have hperm := (perm_cons_erase hok.2).countP_eq fun g => g.2 == c
    rw [← singleton_append, countP_append, countP_given] at hperm
    simp only [unanswered, closedCount_append, openedCount_append, closedCount_closed,
      openedCount_closed] at hpaid ⊢
    omega
  | ended =>
    have hended := paid_ended hok b.transport.thaws.length c
    simp only [unanswered, map_cons, sum_cons] at hpaid ⊢
    omega
  | @reset id =>
    have hle : (b.given.filter (fun g => g.1 ≠ id)).countP (fun g => g.2 == c) ≤
        b.given.countP (fun g => g.2 == c) := filter_sublist.countP_le
    simp only [unanswered] at hpaid ⊢
    omega
  | @finished task rest hrun htodo peers given hgiven =>
    have hle : given.countP (fun g => g.2 == c) ≤ b.given.countP (fun g => g.2 == c) :=
      hgiven.countP_le
    simp only [unanswered, (running_some hrun).1, map_cons, sum_cons] at hpaid ⊢
    omega
  | @thaw task rest name todo hrun htodo =>
    have howes := answers_eq task htodo c
    have hopened : openedCount (answers task.kind name) c = 0 := by
      unfold answers
      split <;> simp [openedCount]
    simp only [unanswered, heldOpens, held_beginThaw, (running_some hrun).1, map_cons,
      sum_cons, closedCount_append, openedCount_append, hopened] at hpaid ⊢
    omega
  | loop hrun hquiet hnext =>
    rcases hnext.account h.loop.nest with ⟨-, hperm⟩ | ⟨thaw, outer, l, hdel, -, -⟩
    · simp only [unanswered, heldOpens_perm hperm] at hpaid ⊢
      exact hpaid
    · rw [hdel.delivering] at hquiet
      cases hquiet
  | delivered hrun hdel hother =>
    have hheld := heldOpens_handOut h.loop hdel c
    simp only [unanswered] at hpaid ⊢
    omega
  | @refused thaw outer l hrun hdel initHost peers problem =>
    have hheld := heldOpens_handOut h.loop hdel c
    have hnest := (Transport.Next.deliver hdel).nestInv h.loop.nest
    have hnext := heldOpens_perm (held_next_flush hnest rfl rfl) c
    simp only [unanswered, hnext] at hpaid ⊢
    omega
  | @reopened thaw outer l options data b'' hrun hdel hmsg hopng =>
    have hheld := heldOpens_handOut h.loop hdel c
    have hnest := (Transport.Next.deliver hdel).nestInv h.loop.nest
    have hone := hopng.paid hnest hdel.unfrozen c
    have hnext := heldOpens_next (hopng.nest hnest hdel.unfrozen) hopng.thaws c
    have hopens : opensChannel c (some thaw.channel, l.data.message) = decide (c = thaw.channel) := by
      rw [hmsg]
      by_cases heq : c = thaw.channel
      · simp [opensChannel, TransportMessage.isOpen, heq]
      · simp [opensChannel, TransportMessage.isOpen, heq, Ne.symm heq]
    rw [hopens] at hheld
    simp only [decide_eq_true_eq] at hheld
    simp only [unanswered, hnext, hopng.openedCount_eq] at hpaid hone ⊢
    omega

/-- An event offers a channel to the rules only when there is something to be answered. -/
theorem offers_step (h : AnswerInv b) (hstep : Step S b e b') : OffersPaid b'.log := by
  cases hstep with
  | queued | passed => exact h.offers.opens _ _
  | @opened channel options data b' hidle hfree hopng =>
    refine hopng.offers (h.offers.opens (some channel) (.control (some "open") options data)) ?_
    have hpaid := h.paid channel
    simp only [closedCount_append, openedCount_append, closedCount_opened, openedCount_opened,
      if_true]
    omega
  | closed =>
    rw [log_onChannelClosed]
    exact h.offers.closed _ _
  | peerClosed => exact h.offers.closed _ _
  | thaw =>
    unfold answers
    split
    · exact h.offers.closed _ _
    · rw [append_nil]
      exact h.offers
  | @reopened thaw outer l options data b' hrun hdel hmsg hopng =>
    refine hopng.offers h.offers (h.closedCount_lt ?_)
    have hheld := heldOpens_handOut h.loop hdel thaw.channel
    rw [hheld, hmsg]
    simp [opensChannel, TransportMessage.isOpen]
  | _ => exact h.offers

/-- **One admitted event keeps the invariant.** -/
theorem step (h : AnswerInv b) (S : Setup) (e : Event) (hok : b.AnswerOk S e) :
    AnswerInv (b.step S e) :=
  ⟨h.loop.step S e hok.1, h.paid_step hok (steps S b h.loop.nest e),
    h.offers_step (steps S b h.loop.nest e)⟩

end AnswerInv

/-! ### Whole runs -/

/-- What the client may see of a channel that it opens once: one "close", and no offer to the rules
    after it. -/
structure OneAnswer (log : List Entry) (channel : String) : Prop where
  once : closedCount log channel ≤ 1
  final : ∀ before after, log = before ++ .offered channel :: after → closedCount before channel = 0

/-- **Peer channels get one answer** in every admitted run. -/
theorem run_one_answer (S : Setup) (connected : List Nat) (es : List Event)
    (hok : RunOk (step S) (AnswerOk S) (new connected) es) (channel : String)
    (honce : openedCount (run (step S) (new connected) es).log channel ≤ 1) :
    OneAnswer (run (step S) (new connected) es).log channel := by
  have hinv := run_invariant AnswerInv (fun _ e h hok => h.step S e hok)
    (AnswerInv.new connected) hok
  constructor
  · have hpaid := hinv.paid channel
    omega
  intro before after heq
  have hoffer := hinv.offers before after channel heq
  have hle : openedCount before channel ≤ 1 := by
    rw [heq, openedCount_append] at honce
    omega
  omega

/-- A bridge whose only rule hands everything to one peer, which can be spawned. -/
def onePeer (config : JsonObject) : Setup where
  alloc := .above
  rules := [⟨[], .peer (fun _ => 0)⟩]
  config := fun _ => config
  spawn := fun _ => true
  userName := "user"
  patternMatch := fun pattern value => pattern == value
  jsonEqual := fun _ _ => false
  jsonWrite := fun _ => []

/-- The peer sends "init" and is given the channel, and its process closes it. -/
theorem run_one_answer_given :
    OneAnswer (run (step (onePeer [])) (new [0])
      [.clientInit, .clientOpen "a" [], .processInit 0, .next, .next, .next, .next,
        .peerClose 0 "a"]).log "a" :=
  run_one_answer (onePeer []) [0] _ (by decide) "a" (by decide)

/-- The process of a peer ends before it sends "init". -/
def failedStart : List Event :=
  [.clientInit, .clientOpen "a" [], .peerEnded 0 none (.exited 1), .next, .next, .next, .next]

/-- The process of a peer with a configured problem ends before it sends "init": the peer answers,
    thaws the "open" message, is offered it again and answers again. -/
theorem not_oneAnswer_failed_start :
    openedCount (run (step (onePeer [("problem", .string "access-denied")])) (new [0])
      failedStart).log "a" = 1 ∧
    ¬ OneAnswer (run (step (onePeer [("problem", .string "access-denied")])) (new [0])
      failedStart).log "a" := by
  refine ⟨by decide, fun h => ?_⟩
  have htwo : closedCount (run (step (onePeer [("problem", .string "access-denied")])) (new [0])
      failedStart).log "a" = 2 := by decide
  have hone := h.once
  omega

end Bridge

end Cockpit
