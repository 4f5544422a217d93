import Cockpit.Common.TransportNested

namespace Cockpit

open Lib List FrozenMessage LinkQueue

/-!
# Every frozen message is handed out once

The steps of the loops in progress, read off the invariant of `TransportNested`
(`Transport.NestInv.next`), and the account of the messages: what was handed to the handlers and
what is still held is, up to order, what was emitted.

* `Transport.ThawInv.step` — one admitted event keeps the invariant and the account;
* `Transport.run_nested_thaw` — so they hold in every state of an admitted run.
-/

/-- A message as the handlers get it, with its channel. -/
def FrozenMessage.delivery (frozen : FrozenMessage) : Option String × TransportMessage :=
  (some frozen.owner, frozen.message)

namespace Transport

/-! ### The steps of a loop -/

/-- The innermost loop is at a message of its channel, which is not frozen again. -/
structure Delivers (t : Transport) (thaw : Thaw) (outer : List Thaw) (l : Link FrozenMessage) :
    Prop where
  thaws : t.thaws = thaw :: outer
  flush : thaw.flush = none
  link : l ∈ t.frozen.links
  cursor : thaw.l = some l.id
  stolen : thaw.stolen = some l.data.channel
  unfrozen : t.freeze.lookup thaw.channel = none

/-- The handlers of the link `l` have been called. -/
def handOut (t : Transport) (thaw : Thaw) (outer : List Thaw) (l : Link FrozenMessage) :
    Transport :=
  { t.deliver (some thaw.channel) l.data.message with
    thaws := { thaw with l := t.frozen.next l.id, flush := some l.id } :: outer }

/-- What `next` can do when no loop has lost its place. -/
inductive Next (t : Transport) : Transport → Prop where
  /-- No call is in progress. -/
  | idle (hthaws : t.thaws = []) : Next t t
  /-- The handlers have returned. -/
  | flushed {thaw : Thaw} {outer : List Thaw} {i : Nat} (hthaws : t.thaws = thaw :: outer)
      (hflush : thaw.flush = some i) :
      Next t { t with
        frozen := t.frozen.deleteLink i, thaws := { thaw with flush := none } :: outer }
  /-- The loop is over. -/
  | leave {thaw : Thaw} {outer : List Thaw} (hthaws : t.thaws = thaw :: outer)
      (hflush : thaw.flush = none) (hl : thaw.l = none) : Next t { t with thaws := outer }
  /-- A message of another channel. -/
  | other {thaw : Thaw} {outer : List Thaw} {l : Link FrozenMessage}
      (hthaws : t.thaws = thaw :: outer) (hflush : thaw.flush = none)
      (hlink : l ∈ t.frozen.links) (hl : thaw.l = some l.id)
      (hother : thaw.stolen ≠ some l.data.channel) :
      Next t { t with thaws := { thaw with l := t.frozen.next l.id } :: outer }
  /-- A message of the channel, which is not frozen again. -/
  | deliver {thaw : Thaw} {outer : List Thaw} {l : Link FrozenMessage}
      (hdelivers : Delivers t thaw outer l) : Next t (t.handOut thaw outer l)
  /-- A message of the channel, which a handler has frozen again. -/
  | again {thaw : Thaw} {outer : List Thaw} {l : Link FrozenMessage} {key : Nat}
      (hthaws : t.thaws = thaw :: outer) (hflush : thaw.flush = none)
      (hlink : l ∈ t.frozen.links) (hl : thaw.l = some l.id)
      (hmatch : thaw.stolen = some l.data.channel)
      (hfrozen : t.freeze.lookup thaw.channel = some key) :
      Next t { t with
        frozen := (t.frozen.pushTail (.of key thaw.channel l.data.message)).deleteLink l.id
        thaws := { thaw with l := t.frozen.next l.id } :: outer }

variable {t : Transport}

/-- **The loop keeps its place**: under the invariant `next` never sets `fault`. -/
theorem NestInv.next (h : NestInv t.freeze t.frozen t.thaws) : Next t t.next := by
  cases hthaws : t.thaws with
  | nil =>
    have hnext : t.next = t := by simp only [Transport.next, hthaws]
    rw [hnext]
    exact .idle hthaws
  | cons thaw outer =>
    rw [hthaws] at h
    cases hflush : thaw.flush with
    | some i =>
      obtain ⟨-, l, hlink, rfl, -⟩ := h.flush thaw mem_cons_self i hflush
      simp only [Transport.next, hthaws, hflush, Transport.flushed, find_of_mem hlink]
      exact .flushed hthaws hflush
    | none =>
      cases hl : thaw.l with
      | none =>
        simp only [Transport.next, hthaws, hflush, hl]
        exact .leave hthaws hflush hl
      | some i =>
        obtain ⟨l, hlink, rfl⟩ := h.cursor thaw mem_cons_self i hl
        have hnext : t.next = t.visit thaw outer l.id := by
          simp only [Transport.next, hthaws, hflush, hl]
        rw [hnext, visit, find_of_mem hlink]
        dsimp only
        by_cases hmatch : thaw.stolen = some l.data.channel
        · rw [if_pos hmatch]
          cases hfrozen : t.freeze.lookup thaw.channel with
          | none =>
            simp only [maybeFreezeMessage, hfrozen]
            exact .deliver ⟨hthaws, hflush, hlink, hl, hmatch, hfrozen⟩
          | some key =>
            simp only [maybeFreezeMessage, hfrozen]
            exact .again hthaws hflush hlink hl hmatch hfrozen
        · rw [if_neg hmatch]
          exact .other hthaws hflush hlink hl hmatch

variable {i : Nat}

/-- When the handlers have returned the link is deleted. -/
theorem NestInv.next_flushed {thaw : Thaw} {outer : List Thaw}
    (h : NestInv t.freeze t.frozen t.thaws) (hthaws : t.thaws = thaw :: outer)
    (hflush : thaw.flush = some i) :
    t.next = { t with
      frozen := t.frozen.deleteLink i, thaws := { thaw with flush := none } :: outer } := by
  rw [hthaws] at h
  obtain ⟨-, l, hlink, rfl, -⟩ := h.flush thaw mem_cons_self i hflush
  simp only [Transport.next, hthaws, hflush, Transport.flushed, find_of_mem hlink]

variable {t' : Transport}

/-- A step of the innermost loop keeps the invariant. -/
theorem Next.nestInv (hnext : Next t t')
    (h : NestInv t.freeze t.frozen t.thaws) : NestInv t'.freeze t'.frozen t'.thaws := by
  cases hnext with
  | idle => exact h
  | flushed hthaws hflush =>
    rw [hthaws] at h
    exact h.deleteLink hflush
  | leave hthaws hflush hl =>
    rw [hthaws] at h
    exact h.leave hflush hl
  | other hthaws hflush hlink hl hother =>
    rw [hthaws] at h
    have hmove := h.move hflush hlink hl (.inr ⟨rfl, hother⟩)
    rw [← hflush] at hmove
    exact hmove
  | deliver hdel =>
    rw [hdel.thaws] at h
    exact h.move hdel.flush hdel.link hdel.cursor (.inl ⟨rfl, hdel.stolen⟩)
  | @again thaw outer l key hthaws hflush hlink hl hmatch hfrozen =>
    rw [hthaws] at h
    -- the link is marked, the message joins the queue again, and the link is deleted
    have hpush := (h.move hflush hlink hl (.inl ⟨rfl, hmatch⟩)).pushTail hfrozen l.data.message
    have hdelete := hpush.deleteLink rfl
    rw [← hflush] at hdelete
    exact hdelete

/-- When code outside of the loops runs, every call in progress waits for its handlers. -/
theorem NestInv.all_waiting (h : NestInv t.freeze t.frozen t.thaws)
    (hout : t.outside) : ∀ thaw ∈ t.thaws, thaw.flush ≠ none := by
  intro w hw
  have hwait := h.waiting
  unfold outside at hout
  cases hthaws : t.thaws with
  | nil =>
    rw [hthaws] at hw
    cases hw
  | cons thaw outer =>
    rw [hthaws] at hw hout hwait
    rcases mem_cons.mp hw with rfl | hw
    · exact Option.isSome_iff_ne_none.mp hout
    · exact hwait w hw

/-! ### The account -/

/-- The links whose handlers have not run. -/
def heldIn (q : LinkQueue FrozenMessage) (thaws : List Thaw) : List (Link FrozenMessage) :=
  q.links.filter (fun l => ¬ ∃ thaw ∈ thaws, thaw.flush = some l.id)

theorem held_eq (t : Transport) : t.held = heldIn t.frozen t.thaws := rfl

/-- Only the links that are being flushed count. -/
theorem heldIn_congr {q : LinkQueue FrozenMessage} {thaws thaws' : List Thaw}
    (h : ∀ i, (∃ thaw ∈ thaws, thaw.flush = some i) ↔ ∃ thaw ∈ thaws', thaw.flush = some i) :
    heldIn q thaws = heldIn q thaws' := by
  refine filter_congr fun l _ => ?_
  simp only [h l.id]

section Account

variable {freeze : AList (fun _ : String => Nat)} {q : LinkQueue FrozenMessage}
  {thaw : Thaw} {thaws outer : List Thaw}

/-- A link that joins the queue is held. -/
theorem heldIn_pushTail (h : NestInv freeze q thaws) (x : FrozenMessage) :
    heldIn (q.pushTail x) thaws = heldIn q thaws ++ [⟨q.fresh, x⟩] := by
  have hfresh : ¬ ∃ thaw ∈ thaws, thaw.flush = some q.fresh := by
    rintro ⟨w, hw, hflush⟩
    obtain ⟨-, l, hl, hid, -⟩ := h.flush w hw _ hflush
    exact ne_fresh hl hid
  rw [heldIn, links_pushTail, filter_append, heldIn]
  simp only [filter_cons, hfresh, not_false_eq_true, decide_true, if_true, filter_nil]

/-- A link that is deleted was not held any more. -/
theorem heldIn_deleteLink {w : Thaw} {i : Nat} (hflush : w.flush = some i) :
    heldIn (q.deleteLink i) ({ w with flush := none } :: outer) = heldIn q (w :: outer) := by
  rw [heldIn, heldIn, deleteLink, filter_filter]
  refine filter_congr fun l _ => ?_
  by_cases heq : l.id = i
  · simp [heq, hflush]
  · simp [heq, hflush, Ne.symm heq]

variable {l : Link FrozenMessage}

/-- A link whose handlers are called is held no more. -/
theorem heldIn_flush (h : NestInv freeze q (thaw :: outer)) (hflush : thaw.flush = none) (hlink : l ∈ q.links) (hmatch : thaw.stolen = some l.data.channel)
    (cursor : Option Nat) :
    (heldIn q (thaw :: outer)).Perm
      (l :: heldIn q ({ thaw with l := cursor, flush := some l.id } :: outer)) := by
  have houter : ¬ ∃ w ∈ outer, w.flush = some l.id := by
    rintro ⟨w, hw, hf⟩
    obtain ⟨-, l', hlink', hid, hstolen⟩ := h.flush w (mem_cons_of_mem _ hw) _ hf
    obtain rfl : l' = l := eq_of_id hlink' hlink hid
    exact h.stolen_ne hw hmatch hstolen
  refine filter_perm_cons _ _ hlink (by simpa [hflush] using houter) (by simp) ?_
  intro l' _ hne
  simp [hflush, Ne.symm hne]

/-- The link that is handed out is held no more. -/
theorem Delivers.held_perm
    (hdel : Delivers t thaw outer l) (h : NestInv t.freeze t.frozen t.thaws) :
    t.held.Perm (l :: (t.handOut thaw outer l).held) := by
  rw [hdel.thaws] at h
  have hperm := heldIn_flush h hdel.flush hdel.link hdel.stolen
    (t.frozen.next l.id)
  rw [held_eq, hdel.thaws]
  exact hperm

/-- A message that is flushed is one that was held. -/
theorem delivery_eq (h : NestInv freeze q (thaw :: outer))
    (hlink : l ∈ q.links) (hmatch : thaw.stolen = some l.data.channel) :
    l.data.delivery = (some thaw.channel, l.data.message) := by
  rw [FrozenMessage.delivery, h.owner_eq hlink hmatch]

/-- The message that is handed out is one that was held. -/
theorem Delivers.account
    (hdel : Delivers t thaw outer l) (h : NestInv t.freeze t.frozen t.thaws) :
    (t.held.map (fun l => l.data.delivery)).Perm ((some thaw.channel, l.data.message) ::
      (t.handOut thaw outer l).held.map (fun l => l.data.delivery)) := by
  have hperm := (hdel.held_perm h).map fun l => l.data.delivery
  rw [hdel.thaws] at h
  rw [map_cons, delivery_eq h hdel.link hdel.stolen] at hperm
  exact hperm

theorem Next.fault (hnext : Next t t') : t'.fault = t.fault := by
  cases hnext <;> rfl

theorem Next.emitted (hnext : Next t t') : t'.emitted = t.emitted := by
  cases hnext <;> rfl

/-- **What a step of the innermost loop does to the account**: it hands out one of the messages that
    were held, or leaves them all as they are. -/
theorem Next.account (hnext : Next t t') (h : NestInv t.freeze t.frozen t.thaws) :
    (t'.delivered = t.delivered ∧ (t'.held.map (fun l => l.data.delivery)).Perm
      (t.held.map (fun l => l.data.delivery))) ∨
    ∃ thaw outer l, Delivers t thaw outer l ∧ t' = t.handOut thaw outer l ∧
      (t.held.map (fun l => l.data.delivery)).Perm
        ((some thaw.channel, l.data.message) :: t'.held.map (fun l => l.data.delivery)) := by
  cases hnext with
  | idle => exact .inl ⟨rfl, .refl _⟩
  | flushed hthaws hflush =>
    refine .inl ⟨rfl, ?_⟩
    rw [held_eq, held_eq, hthaws, ← heldIn_deleteLink hflush]
  | @leave thaw outer hthaws hflush hl =>
    refine .inl ⟨rfl, ?_⟩
    have hheld : heldIn t.frozen outer = t.held := by
      rw [held_eq, hthaws]
      exact heldIn_congr fun i => by simp [hflush]
    rw [← hheld]
    exact .refl _
  | @other thaw outer l hthaws hflush hlink hl hother =>
    refine .inl ⟨rfl, ?_⟩
    have hheld : heldIn t.frozen ({ thaw with l := t.frozen.next l.id } :: outer) = t.held := by
      rw [held_eq, hthaws]
      exact heldIn_congr fun i => by simp
    rw [← hheld]
    exact .refl _
  | @deliver thaw outer l hdel =>
    exact .inr ⟨thaw, outer, l, hdel, rfl, hdel.account h⟩
  | @again thaw outer l key hthaws hflush hlink hl hmatch hfrozen =>
    refine .inl ⟨rfl, ?_⟩
    rw [hthaws] at h
    have hmove := h.move hflush hlink hl (.inl ⟨rfl, hmatch⟩)
    have hheld : heldIn
        ((t.frozen.pushTail (.of key thaw.channel l.data.message)).deleteLink l.id)
        ({ thaw with l := t.frozen.next l.id, flush := none } :: outer) = _ :=
      heldIn_deleteLink (w := { thaw with l := t.frozen.next l.id, flush := some l.id }) rfl
    rw [heldIn_pushTail hmove, ← hflush] at hheld
    -- the message leaves the queue at one place and joins it at the other
    have hnew : l.data.delivery =
        (FrozenMessage.of key thaw.channel l.data.message).delivery := by
      rw [delivery_eq h hlink hmatch, FrozenMessage.delivery, of_owner,
        message_of (named_message l.data)]
    have hperm := (heldIn_flush h hflush hlink hmatch (t.frozen.next l.id)).map
      fun l => l.data.delivery
    rw [held_eq, held_eq, hthaws]
    show ((heldIn _ _).map _).Perm _
    rw [hheld, map_append, map_singleton, ← hnew]
    exact perm_append_comm.trans hperm.symm

/-- A loop whose handlers have returned leaves what is held as it is. -/
theorem held_next_flush (h : NestInv t.freeze t.frozen t.thaws)
    (hthaws : t.thaws = thaw :: outer) {i : Nat} (hflush : thaw.flush = some i) :
    (t.next.held.map (fun l => l.data.delivery)).Perm (t.held.map (fun l => l.data.delivery)) := by
  rcases h.next.account h with ⟨-, hperm⟩ | ⟨w, ws, l, hdel, -, -⟩
  · exact hperm
  have heq := hdel.thaws
  rw [hthaws, List.cons.injEq] at heq
  rw [heq.1, hdel.flush] at hflush
  cases hflush

end Account

/-! ### Events -/

/-- The events that keep the loops in order: no channel is frozen anew while messages point at its
    key, no thaw flushes the link that a call in progress goes on with, and control messages are
    emitted under their own command. -/
def EventOk (t : Transport) : Event → Prop
  | .freeze channel => t.FreezeOk channel
  | .thaw channel => t.ThawOk channel
  | .emit _ message => message.Named
  | .next => True

instance (t : Transport) : ∀ e, Decidable (t.EventOk e)
  | .freeze channel => inferInstanceAs (Decidable (t.FreezeOk channel))
  | .thaw channel => inferInstanceAs (Decidable (t.ThawOk channel))
  | .emit _ message => inferInstanceAs (Decidable message.Named)
  | .next => inferInstanceAs (Decidable True)

/-- The invariant of a run: the loops have their places, and every message is accounted for. -/
structure ThawInv (t : Transport) : Prop where
  nest : NestInv t.freeze t.frozen t.thaws
  once : (t.delivered ++ t.held.map (fun l => l.data.delivery)).Perm t.emitted
  fault : t.fault = false

namespace ThawInv

variable {t : Transport}

theorem new : ThawInv Transport.new where
  nest := by
    refine ⟨?_, ?_, ?_, ?_, ?_, ?_, List.Pairwise.nil⟩ <;> simp [Transport.new]
  once := .refl _
  fault := rfl

variable {channel : String}

section

variable (h : ThawInv t)

include h

theorem freezeChannel (a : Allocator)
    (hok : t.FreezeOk channel) : ThawInv (t.freezeChannel a channel) :=
  ⟨h.nest.insert (fun _ _ => lookup_ne_strdup a) (fun _ => stolen_ne_strdup a) hok, h.once, h.fault⟩

theorem beginThaw (hout : t.outside)
    (hok : t.ThawOk channel) : ThawInv (t.beginThaw channel) := by
  refine ⟨h.nest.beginThaw (h.nest.all_waiting hout) hok, ?_, h.fault⟩
  have hheld : (t.beginThaw channel).held = t.held := by
    refine heldIn_congr fun i => ?_
    simp [Transport.beginThaw]
  rw [hheld]
  exact h.once

theorem emit (channel : Option String) {message : TransportMessage}
    (hnamed : message.Named) :
    ThawInv { t.emit channel message with emitted := t.emitted ++ [(channel, message)] } := by
  -- a message that is not held back goes to the handlers
  have hdeliver : ((t.delivered ++ [(channel, message)]) ++
      t.held.map (fun l => l.data.delivery)).Perm (t.emitted ++ [(channel, message)]) := by
    rw [append_assoc]
    refine (perm_append_comm.append_left _).trans ?_
    rw [← append_assoc]
    exact h.once.append_right _
  cases channel with
  | none => exact ⟨h.nest, hdeliver, h.fault⟩
  | some name =>
    simp only [Transport.emit, maybeFreezeMessage]
    cases hkey : t.freeze.lookup name with
    | none => exact ⟨h.nest, hdeliver, h.fault⟩
    | some key =>
      refine ⟨h.nest.pushTail hkey message, ?_, h.fault⟩
      show (t.delivered ++ (heldIn (t.frozen.pushTail _) t.thaws).map _).Perm _
      rw [heldIn_pushTail h.nest, map_append, ← append_assoc]
      have hone : [(⟨t.frozen.fresh, .of key name message⟩ : Link FrozenMessage)].map
          (fun l => l.data.delivery) = [(some name, message)] := by
        simp [FrozenMessage.delivery, message_of hnamed]
      rw [hone]
      exact h.once.append_right _

/-- **A step of the innermost loop** keeps the invariant. -/
theorem next : ThawInv t.next := by
  have hcase := h.nest.next
  have hnest := hcase.nestInv h.nest
  generalize t.next = t' at hcase hnest ⊢
  refine ⟨hnest, ?_, hcase.fault.trans h.fault⟩
  rw [hcase.emitted]
  refine List.Perm.trans ?_ h.once
  rcases hcase.account h.nest with ⟨hsame, hperm⟩ | ⟨thaw, outer, l, -, rfl, hperm⟩
  · rw [hsame]
    exact hperm.append_left _
  · show (t.delivered ++ [_] ++ _).Perm _
    rw [append_assoc, singleton_append]
    exact hperm.symm.append_left _

/-- **One admitted event keeps the invariant.** -/
theorem step (a : Allocator) (e : Event) (hok : t.EventOk e) :
    ThawInv (t.step a e) := by
  cases e with
  | next => exact h.next
  | freeze channel =>
    rw [Transport.step]
    split
    · exact h.freezeChannel a hok
    · exact h
  | thaw channel =>
    rw [Transport.step]
    split
    · rename_i hout
      exact h.beginThaw hout hok
    · exact h
  | emit channel message =>
    rw [Transport.step]
    split
    · exact h.emit channel hok
    · exact h

end

end ThawInv

/-! ### The loops come to an end -/

/-- How many messages the calls in progress have to flush. -/
def pending (t : Transport) : Nat :=
  (t.frozen.links.filter (fun l => ∃ thaw ∈ t.thaws, thaw.stolen = some l.data.channel)).length

/-- How many links they have to visit. -/
def unvisited (t : Transport) : Nat :=
  (t.thaws.map (fun thaw => (t.frozen.ahead thaw.l).length)).sum

/-- The order in which the loops come to an end. -/
def Nearer (t' t : Transport) : Prop :=
  Prod.Lex (· < ·) (Prod.Lex (· < ·) (· < ·)) (t'.pending, t'.unvisited, t'.thaws.length)
    (t.pending, t.unvisited, t.thaws.length)

theorem nearer_wf : WellFounded Nearer :=
  InvImage.wf (fun t : Transport => (t.pending, t.unvisited, t.thaws.length))
    (Prod.lex Nat.lt_wfRel (Prod.lex Nat.lt_wfRel Nat.lt_wfRel)).wf

/-- No more to flush, and less to visit or fewer calls. -/
theorem nearer_of_le (hpend : t'.pending ≤ t.pending)
    (h : Prod.Lex (· < ·) (· < ·) (t'.unvisited, t'.thaws.length)
      (t.unvisited, t.thaws.length)) : Nearer t' t := by
  rcases Nat.lt_or_eq_of_le hpend with hlt | heq
  · exact .left _ _ hlt
  · rw [Nearer, heq]
    exact .right _ h

/-- What points at a key that one of fewer calls has stolen is counted for all of them. -/
theorem pending_le (hlinks : t'.frozen.links = t.frozen.links)
    (h : t'.thaws.map Thaw.stolen ⊆ t.thaws.map Thaw.stolen) : t'.pending ≤ t.pending := by
  rw [pending, pending, hlinks]
  refine (monotone_filter_right _ (fun l hl => ?_)).length_le
  have hmem : some l.data.channel ∈ t'.thaws.map Thaw.stolen := by simpa using hl
  simpa using h hmem

/-- The cursor of the innermost call has moved on. -/
theorem unvisited_next {thaw thaw' : Thaw} {outer : List Thaw}
    {l : Link FrozenMessage} (hthaws : t.thaws = thaw :: outer) (hlink : l ∈ t.frozen.links)
    (hl : thaw.l = some l.id) (hthaws' : t'.thaws = thaw' :: outer)
    (hfrozen : t'.frozen = t.frozen) (hl' : thaw'.l = t.frozen.next l.id) :
    t'.unvisited < t.unvisited := by
  rw [unvisited, unvisited, hthaws, hthaws', hfrozen]
  simp only [map_cons, sum_cons, hl, hl', ahead_next hlink, length_cons]
  omega

/-- A link that points at a stolen key is pending until it is deleted, whatever is added. -/
theorem pending_deleteLink {thaw : Thaw} {l : Link FrozenMessage}
    (added : List (Link FrozenMessage)) (hthaw : thaw ∈ t.thaws) (hlink : l ∈ t.frozen.links)
    (hmatch : thaw.stolen = some l.data.channel)
    (hstolen : t'.thaws.map Thaw.stolen = t.thaws.map Thaw.stolen)
    (hlinks : t'.frozen.links = (t.frozen.links ++ added).filter (fun l' => l'.id != l.id))
    (hadded : ∀ l' ∈ added, ∀ w ∈ t.thaws, w.stolen ≠ some l'.data.channel) :
    t'.pending < t.pending := by
  have hsame : ∀ l' : Link FrozenMessage, (∃ w ∈ t'.thaws, w.stolen = some l'.data.channel) ↔
      ∃ w ∈ t.thaws, w.stolen = some l'.data.channel := by
    intro l'
    have := congrArg (fun ks => some l'.data.channel ∈ ks) hstolen
    simpa using this
  have hnone : added.filter (fun l' => decide (∃ w ∈ t.thaws, w.stolen = some l'.data.channel) &&
      l'.id != l.id) = [] := by
    rw [filter_eq_nil_iff]
    intro l' hl'
    have := hadded l' hl'
    simp only [Bool.and_eq_true, decide_eq_true_eq, not_and]
    rintro ⟨w, hw, heq⟩
    exact absurd heq (this w hw)
  have hperm := filter_perm_cons
    (fun l' => decide (∃ w ∈ t.thaws, w.stolen = some l'.data.channel))
    (fun l' => decide (∃ w ∈ t.thaws, w.stolen = some l'.data.channel) && l'.id != l.id)
    hlink (decide_eq_true ⟨thaw, hthaw, hmatch⟩) (by simp) fun l' _ hne => by simp [hne]
  rw [pending, pending, hlinks, filter_filter]
  simp only [hsame]
  rw [filter_append, hnone, append_nil, hperm.length_eq, length_cons]
  exact Nat.lt_succ_self _

/-- A link whose handlers have returned is pending no more. -/
theorem NestInv.pending_next {thaw : Thaw} {outer : List Thaw}
    (h : NestInv t.freeze t.frozen t.thaws) (hthaws : t.thaws = thaw :: outer)
    (hflush : thaw.flush = some i) : t.next.pending < t.pending := by
  rw [h.next_flushed hthaws hflush]
  rw [hthaws] at h
  obtain ⟨-, l, hlink, rfl, hmatch⟩ := h.flush thaw mem_cons_self i hflush
  refine pending_deleteLink [] (by simp [hthaws]) hlink hmatch ?_ ?_ ?_
  · simp [hthaws]
  · simp [LinkQueue.deleteLink]
  · simp

/-- A message that is held back under a key of the table is not pending. -/
theorem NestInv.pending_pushTail (h : NestInv t.freeze t.frozen t.thaws)
    {name : String} {key : Nat} (hkey : t.freeze.lookup name = some key)
    (message : TransportMessage) :
    pending { t with frozen := t.frozen.pushTail (.of key name message) } = t.pending := by
  have hnot : ¬ ∃ thaw ∈ t.thaws, thaw.stolen = some key := by
    rintro ⟨w, hw, heq⟩
    exact h.stolen w hw name key hkey heq
  unfold pending
  rw [links_pushTail, filter_append, List.length_append, filter_cons]
  simp only [of_channel, hnot, decide_false, Bool.false_eq_true, if_false,
    filter_nil, length_nil, Nat.add_zero]

/-- Every step of a loop in progress brings its end nearer. -/
theorem Next.nearer (hnext : Next t t')
    (h : NestInv t.freeze t.frozen t.thaws) (hbusy : t.thaws ≠ []) : Nearer t' t := by
  cases hnext with
  | idle hthaws => exact absurd hthaws hbusy
  | @flushed thaw outer i hthaws hflush =>
    have hpend := h.pending_next hthaws hflush
    rw [h.next_flushed hthaws hflush] at hpend
    exact .left _ _ hpend
  | @again thaw outer l key hthaws hflush hlink hl hmatch hfrozen =>
    refine .left _ _ (pending_deleteLink [⟨t.frozen.fresh, .of key thaw.channel l.data.message⟩]
      (by simp [hthaws]) hlink hmatch ?_ ?_ ?_)
    · simp [hthaws]
    · simp [deleteLink]
    · intro l' hl' w hw
      rw [mem_singleton.mp hl', of_channel]
      exact h.stolen w hw _ _ hfrozen
  | @leave thaw outer hthaws hflush hl =>
    refine nearer_of_le (pending_le rfl (by simp [hthaws])) ?_
    have hsame : unvisited { t with thaws := outer } = t.unvisited := by
      simp [unvisited, hthaws, hl]
    rw [hsame]
    exact .right _ (by simp [hthaws])
  | @other thaw outer l hthaws hflush hlink hl hother =>
    exact nearer_of_le (pending_le rfl (by simp [hthaws]))
      (.left _ _ (unvisited_next hthaws hlink hl rfl rfl rfl))
  | @deliver thaw outer l hdel =>
    exact nearer_of_le (pending_le rfl (by simp [handOut, hdel.thaws]))
      (.left _ _ (unvisited_next hdel.thaws hdel.link hdel.cursor rfl rfl rfl))

/-- **The loops come to an end** once the handlers make no more calls. -/
theorem ThawInv.settles (h : ThawInv t) :
    ∃ fuel, (settle fuel t).thaws = [] := by
  induction t using nearer_wf.induction with
  | h t ih =>
    by_cases hidle : t.thaws = []
    · exact ⟨0, hidle⟩
    obtain ⟨fuel, hfuel⟩ := ih t.next (h.nest.next.nearer h.nest hidle) h.next
    refine ⟨fuel + 1, ?_⟩
    rw [settle, if_neg hidle]
    exact hfuel

/-! ### Whole runs -/

/-- What thawing from within handlers must not break. -/
structure NestedSafe (t : Transport) : Prop where
  /-- No loop has read or deleted a link that was gone. -/
  fault : t.fault = false
  /-- Every message was handed out once or is held once. -/
  once : (t.delivered ++ t.held.map (fun l => l.data.delivery)).Perm t.emitted
  /-- What is held points at the key of its frozen channel, or is ahead of a call that thaws it. -/
  found : ∀ l ∈ t.held, t.freeze.lookup l.data.owner = some l.data.channel ∨
    ∃ thaw ∈ t.thaws, thaw.channel = l.data.owner ∧ thaw.stolen = some l.data.channel ∧
      l ∈ t.frozen.ahead thaw.l
  /-- The calls in progress return. -/
  settles : ∃ fuel, (settle fuel t).thaws = []

theorem ThawInv.nestedSafe (h : ThawInv t) : NestedSafe t := by
  refine ⟨h.fault, h.once, ?_, h.settles⟩
  intro l hl
  obtain ⟨hlink, hnot⟩ := mem_filter.mp hl
  rcases h.nest.points l hlink with hp | ⟨w, hw, howner, hstolen, hwaits⟩
  · exact .inl hp
  refine .inr ⟨w, hw, howner, hstolen, ?_⟩
  rcases hwaits with hahead | hflush
  · exact hahead
  · exact absurd ⟨w, hw, hflush⟩ (of_decide_eq_true hnot)

/-- **Thawing from within handlers is safe** in every admitted run. -/
theorem run_nested_thaw (a : Allocator) (es : List Event)
    (hok : RunOk (step a) EventOk new es) : NestedSafe (run (step a) new es) :=
  (run_invariant ThawInv (fun _ e h hok => h.step a e hok) ThawInv.new hok).nestedSafe

/-- The handlers of one message of "f" thaw "d" while another message of "f" is next. -/
theorem run_nested_thaw_other_channel :
    NestedSafe (run (step .above) new
      [.freeze "f", .freeze "d", .emit (some "f") (.recv [1]), .emit (some "f") (.recv [2]),
        .emit (some "d") (.recv [3]), .thaw "f", .next, .thaw "d", .next, .next, .next, .next]) :=
  run_nested_thaw .above _ (by decide)

/-- The handlers of the message of "f" thaw "d", whose message is next: the outer loop goes on
    with a link that the inner one has deleted. -/
theorem not_nestedSafe_thaw_next :
    ¬ NestedSafe (run (step .above) new
      [.freeze "f", .freeze "d", .emit (some "f") (.recv [1]), .emit (some "d") (.recv [2]),
        .thaw "f", .next, .thaw "d", .next, .next, .next, .next, .next, .next]) := by
  intro h
  have hfault : (run (step .above) new
      [.freeze "f", .freeze "d", .emit (some "f") (.recv [1]), .emit (some "d") (.recv [2]),
        .thaw "f", .next, .thaw "d", .next, .next, .next, .next, .next, .next]).fault := by
    decide
  rw [h.fault] at hfault
  cases hfault

end Transport

end Cockpit
