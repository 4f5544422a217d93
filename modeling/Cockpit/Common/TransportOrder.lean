import Cockpit.Lib.Run
import Cockpit.Common.Transport

namespace Cockpit

open Lib List AList

/-!
# Freezing and thawing keep the messages of a channel in order

Runs of whole calls, with handlers that do not call back into the transport: what a channel's
handlers were given, followed by what the queue still holds for it, is what was emitted for it
(`Transport.run_keepsOrder`).  The one call that breaks this is `cockpit_transport_freeze` on a
channel that is frozen already and has messages held: it replaces the key that they point at,
and no later thaw recognises them.

* `Transport.OrderInv` — held messages point at the current key of their channel;
* `Transport.OrderInv.call` — one admitted call keeps it.
-/

namespace Transport

/-! ### The loop of `cockpit_transport_thaw` -/

/-- The state in which a single call of `cockpit_transport_thaw` has come to the links `r`, having
    left the links `pre` behind. -/
structure Loop (t : Transport) (thaw : Thaw) (pre r : List (Link FrozenMessage)) : Prop where
  thaws : t.thaws = [thaw]
  flush : thaw.flush = none
  l : thaw.l = r.head?.map Link.id
  links : t.frozen.links = pre ++ r
  unfrozen : t.freeze.lookup thaw.channel = none

variable {t : Transport} {thaw : Thaw}

/-- At its end the loop is left. -/
theorem Loop.next_nil {pre : List (Link FrozenMessage)}
    (h : Loop t thaw pre []) : t.next = { t with thaws := [] } := by
  have hl : thaw.l = none := h.l
  simp only [next, h.thaws, h.flush, hl]

variable {pre r : List (Link FrozenMessage)} {l : Link FrozenMessage}

/-- A link of another channel is passed over. -/
theorem Loop.next_other (h : Loop t thaw pre (l :: r)) (hother : ¬ thaw.flushes l) :
    ∃ thaw', t.next = { t with thaws := [thaw'] } ∧ Loop t.next thaw' (pre ++ [l]) r ∧
      thaw'.channel = thaw.channel ∧ thaw'.stolen = thaw.stolen := by
  have hl : thaw.l = some l.id := h.l
  have hne : ¬ thaw.stolen = some l.data.channel := fun heq => hother (Thaw.flushes_iff.mpr heq)
  have hnext : t.next = { t with thaws := [{ thaw with l := t.frozen.next l.id }] } := by
    simp only [next, h.thaws, h.flush, hl, visit, LinkQueue.find_of_split h.links, if_neg hne]
  refine ⟨_, hnext, ?_, rfl, rfl⟩
  rw [hnext]
  refine ⟨rfl, h.flush, LinkQueue.next_of_split h.links, ?_, h.unfrozen⟩
  show t.frozen.links = pre ++ [l] ++ r
  rw [h.links, append_assoc, singleton_append]

/-- A link of the channel is emitted and deleted. -/
theorem Loop.next_flush (h : Loop t thaw pre (l :: r)) (hflush : thaw.flushes l) :
    ∃ thaw', t.next.next = { t with
          frozen := t.frozen.deleteLink l.id
          thaws := [thaw']
          delivered := t.delivered ++ [(some thaw.channel, l.data.message)] } ∧
      t.next.thaws ≠ [] ∧ Loop t.next.next thaw' pre r ∧
      thaw'.channel = thaw.channel ∧ thaw'.stolen = thaw.stolen := by
  have hl : thaw.l = some l.id := h.l
  have heq : thaw.stolen = some l.data.channel := Thaw.flushes_iff.mp hflush
  have hnext : t.next = { t.deliver (some thaw.channel) l.data.message with
      thaws := [{ thaw with l := t.frozen.next l.id, flush := some l.id }] } := by
    simp only [next, h.thaws, h.flush, hl, visit, LinkQueue.find_of_split h.links, if_pos heq,
      maybeFreezeMessage, h.unfrozen]
  have hnext' : t.next.next =
      { t with
        frozen := t.frozen.deleteLink l.id
        thaws := [{ thaw with l := t.frozen.next l.id, flush := none }]
        delivered := t.delivered ++ [(some thaw.channel, l.data.message)] } := by
    rw [hnext]
    simp only [next, flushed, deliver, LinkQueue.find_of_split h.links]
  refine ⟨_, hnext', ?_, ?_, rfl, rfl⟩
  · rw [hnext]
    simp
  · rw [hnext']
    exact ⟨rfl, rfl, LinkQueue.next_of_split h.links,
      LinkQueue.links_deleteLink_of_split h.links, h.unfrozen⟩

/-- What is left when the loop is done. -/
structure Flushed (t t' : Transport) (thaw : Thaw) (pre r : List (Link FrozenMessage)) : Prop where
  thaws : t'.thaws = []
  freeze : t'.freeze = t.freeze
  links : t'.frozen.links = pre ++ r.filter (fun l => !thaw.flushes l)
  delivered : t'.delivered = t.delivered ++
    (r.filter thaw.flushes).map (fun l => (some thaw.channel, l.data.message))

theorem settle_of_idle (fuel : Nat) (h : t.thaws = []) : settle fuel t = t := by
  cases fuel with
  | zero => rfl
  | succ n => rw [settle, if_pos h]

/-- **The loop** hands out the messages that point at the stolen key and leaves the others. -/
theorem Loop.settle
    (h : Loop t thaw pre r) {fuel : Nat} (hfuel : 2 * r.length < fuel) :
    Flushed t (settle fuel t) thaw pre r := by
  induction r generalizing t thaw pre fuel with
  | nil =>
    obtain ⟨n, rfl⟩ : ∃ n, fuel = n + 1 := ⟨fuel - 1, by simp at hfuel; omega⟩
    rw [settle, if_neg (by simp [h.thaws]), settle_of_idle n (by rw [h.next_nil]),
      h.next_nil]
    exact ⟨rfl, rfl, h.links, by simp⟩
  | cons l r ih =>
    rw [length_cons] at hfuel
    by_cases hflush : thaw.flushes l
    · obtain ⟨n, rfl⟩ : ∃ n, fuel = n + 2 := ⟨fuel - 2, by omega⟩
      obtain ⟨thaw', hnext, hbusy, hloop, hchan, hstolen⟩ := h.next_flush hflush
      rw [settle, if_neg (by simp [h.thaws]), settle, if_neg hbusy]
      have hdone : Flushed _ (settle n _) thaw' _ r := ih hloop (by omega)
      rw [hnext] at hdone ⊢
      refine ⟨hdone.thaws, hdone.freeze, ?_, ?_⟩
      · rw [hdone.links, Thaw.flushes_congr hstolen, filter_cons, hflush]
        rfl
      · rw [hdone.delivered, Thaw.flushes_congr hstolen, hchan, filter_cons, if_pos hflush,
          map_cons, append_assoc]
        rfl
    obtain ⟨n, rfl⟩ : ∃ n, fuel = n + 1 := ⟨fuel - 1, by omega⟩
    obtain ⟨thaw', hnext, hloop, hchan, hstolen⟩ := h.next_other hflush
    rw [settle, if_neg (by simp [h.thaws])]
    have hdone : Flushed _ (settle n _) thaw' _ r := ih hloop (by omega)
    rw [hnext] at hdone ⊢
    refine ⟨hdone.thaws, hdone.freeze, ?_, ?_⟩
    · rw [hdone.links, Thaw.flushes_congr hstolen, filter_cons,
        if_pos (by simpa using hflush), append_assoc]
      rfl
    · rw [hdone.delivered, Thaw.flushes_congr hstolen, hchan, filter_cons, if_neg hflush]

/-- **`cockpit_transport_thaw` as two filters** over the queue. -/
theorem thawChannel_spec (h : t.thaws = []) (channel : String) :
    Flushed (t.beginThaw channel) (t.thawChannel channel)
      ⟨channel, t.freeze.lookup channel, t.frozen.head, none⟩ [] t.frozen.links := by
  refine Loop.settle ⟨?_, rfl, rfl, rfl, ?_⟩ (Nat.lt_succ_self _)
  · show _ :: t.thaws = _
    rw [h]
  · exact lookup_erase _ _

/-! ### Calls and what is known about the messages of a channel -/

/-- The calls on a transport. -/
inductive Call where
  | freeze (channel : String)
  | thaw (channel : String)
  | emit (channel : Option String) (message : TransportMessage)
  deriving Repr

variable (a : Allocator)

/-- One call, with all that it does. -/
def call (t : Transport) : Call → Transport
  | .freeze channel => t.freezeChannel a channel
  | .thaw channel => t.thawChannel channel
  | .emit channel message => t.emit channel message

/-- What a call emits for `channel`. -/
def Call.emitted (channel : String) : Call → Option TransportMessage
  | .emit (some name) message => if name = channel then some message else none
  | _ => none

/-- The messages handed to the handlers for `channel`. -/
def deliveredFor (t : Transport) (channel : String) : List TransportMessage :=
  (t.delivered.filter (fun d => d.1 = some channel)).map Prod.snd

/-- The messages that the queue holds for `channel`. -/
def heldFor (t : Transport) (channel : String) : List TransportMessage :=
  (t.frozen.links.filter (fun l => l.data.owner = channel)).map (fun l => l.data.message)

/-- The calls that keep the order: a channel is not frozen anew while messages point at its
    key, and control messages are emitted under their own command. -/
def CallOk (t : Transport) : Call → Prop
  | .freeze channel => t.FreezeOk channel
  | .thaw _ => True
  | .emit _ message => message.Named

/-- The invariant between calls: different channels have different keys, and a held message points
    at the current key of its channel. -/
structure OrderInv (t : Transport) : Prop where
  idle : t.thaws = []
  keys : ∀ c c' key, t.freeze.lookup c = some key → t.freeze.lookup c' = some key → c = c'
  held : ∀ l ∈ t.frozen.links, t.freeze.lookup l.data.owner = some l.data.channel

namespace OrderInv

variable {t : Transport} {channel : String}

theorem new : OrderInv Transport.new :=
  ⟨rfl, fun _ _ _ h => by simp [Transport.new] at h, by simp [Transport.new]⟩

section

variable (h : OrderInv t)

include h

/-- Under the invariant the pointer of a message and its channel's name say the same. -/
theorem flushed_iff_owner {l : Link FrozenMessage} (hl : l ∈ t.frozen.links) :
    t.freeze.lookup channel = some l.data.channel ↔ l.data.owner = channel := by
  constructor
  · intro hkey
    exact h.keys _ _ _ (h.held l hl) hkey
  · rintro rfl
    exact h.held l hl

/-- Nothing is held for a channel that is not frozen. -/
theorem heldFor_unfrozen (hnone : t.freeze.lookup channel = none) :
    t.heldFor channel = [] := by
  rw [heldFor, map_eq_nil_iff, filter_eq_nil_iff]
  intro l hl howner
  have := (h.flushed_iff_owner hl).mpr (by simpa using howner)
  rw [hnone] at this
  cases this

/-! ### The calls keep the invariant -/

theorem freezeChannel (hok : t.CallOk (.freeze channel)) :
    OrderInv (t.freezeChannel a channel) := by
  refine ⟨h.idle, ?_, ?_⟩
  · intro c c' key hc hc'
    simp only [Transport.freezeChannel] at hc hc'
    by_cases heq : c = channel <;> by_cases heq' : c' = channel
    · rw [heq, heq']
    · subst heq
      rw [lookup_insert, Option.some.injEq] at hc
      rw [lookup_insert_ne heq'] at hc'
      exact absurd hc.symm (lookup_ne_strdup a hc')
    · subst heq'
      rw [lookup_insert, Option.some.injEq] at hc'
      rw [lookup_insert_ne heq] at hc
      exact absurd hc'.symm (lookup_ne_strdup a hc)
    · rw [lookup_insert_ne heq] at hc
      rw [lookup_insert_ne heq'] at hc'
      exact h.keys c c' key hc hc'
  intro l hl
  have hheld := h.held l hl
  -- a message that points at the old key is what `CallOk` rules out
  have hne : l.data.owner ≠ channel := by
    rintro rfl
    exact hok _ hheld l hl rfl
  show (t.freeze.insert _ _).lookup _ = _
  rw [lookup_insert_ne hne, hheld]

theorem emit (name : Option String) (message : TransportMessage) :
    OrderInv (t.emit name message) := by
  cases name with
  | none => exact ⟨h.idle, h.keys, h.held⟩
  | some name =>
    simp only [Transport.emit, maybeFreezeMessage]
    cases hkey : t.freeze.lookup name with
    | none => exact ⟨h.idle, h.keys, h.held⟩
    | some key =>
      refine ⟨h.idle, h.keys, ?_⟩
      intro l hl
      rcases mem_append.mp hl with hl | hl
      · exact h.held l hl
      · rw [mem_singleton.mp hl, FrozenMessage.of_owner, FrozenMessage.of_channel]
        exact hkey

theorem thawChannel (channel : String) : OrderInv (t.thawChannel channel) := by
  have hspec := thawChannel_spec h.idle channel
  have hfreeze : (t.thawChannel channel).freeze = t.freeze.erase channel := hspec.freeze
  refine ⟨hspec.thaws, ?_, ?_⟩
  · intro c c' key hc hc'
    rw [hfreeze] at hc hc'
    by_cases heq : c = channel <;> by_cases heq' : c' = channel
    · rw [heq, heq']
    · rw [heq, lookup_erase] at hc
      cases hc
    · rw [heq', lookup_erase] at hc'
      cases hc'
    · rw [lookup_erase_ne heq] at hc
      rw [lookup_erase_ne heq'] at hc'
      exact h.keys c c' key hc hc'
  intro l hl
  rw [hspec.links, nil_append, mem_filter] at hl
  -- what the loop leaves does not point at the stolen key, so it is another channel's
  have hne : l.data.owner ≠ channel := by
    intro howner
    have := (h.flushed_iff_owner hl.1).mpr howner
    simp [Thaw.flushes, this] at hl
  rw [hfreeze, lookup_erase_ne hne]
  exact h.held l hl.1

/-- **One admitted call keeps the invariant.** -/
theorem call (c : Call) (hok : t.CallOk c) :
    OrderInv (t.call a c) := by
  cases c with
  | freeze channel => exact h.freezeChannel a hok
  | thaw channel => exact h.thawChannel channel
  | emit name message => exact h.emit name message

/-! ### The calls keep the order -/

theorem emit_keeps (channel : String) (name : Option String)
    {message : TransportMessage} (hnamed : message.Named) :
    (t.emit name message).deliveredFor channel ++ (t.emit name message).heldFor channel =
      t.deliveredFor channel ++ t.heldFor channel ++
        ((Call.emit name message).emitted channel).toList := by
  cases name with
  | none => simp [Transport.emit, maybeFreezeMessage, deliver, deliveredFor, heldFor, Call.emitted]
  | some name =>
    simp only [Transport.emit, maybeFreezeMessage]
    cases hkey : t.freeze.lookup name with
    | none =>
      by_cases heq : name = channel
      · subst heq
        have hheld := h.heldFor_unfrozen hkey
        have hheld' : (t.deliver (some name) message).heldFor name = [] := hheld
        simp only [hheld, hheld']
        simp [deliver, deliveredFor, Call.emitted]
      · simp [deliver, deliveredFor, heldFor, Call.emitted, heq]
    | some key =>
      by_cases heq : name = channel
      · simp [deliveredFor, heldFor, Call.emitted, heq, FrozenMessage.message_of hnamed]
      · simp [deliveredFor, heldFor, Call.emitted, heq]

theorem thawChannel_keeps (channel name : String) :
    (t.thawChannel name).deliveredFor channel ++ (t.thawChannel name).heldFor channel =
      t.deliveredFor channel ++ t.heldFor channel := by
  have hspec := thawChannel_spec h.idle name
  -- under the invariant the two filters of the loop go by the name of the channel
  have hflushed : t.frozen.links.filter
      (Thaw.flushes ⟨name, t.freeze.lookup name, t.frozen.head, none⟩) =
      t.frozen.links.filter (fun l => l.data.owner = name) := by
    refine filter_congr fun l hl => ?_
    rw [Bool.eq_iff_iff, Thaw.flushes_iff, decide_eq_true_iff]
    exact h.flushed_iff_owner hl
  have hleft : t.frozen.links.filter
      (fun l => !Thaw.flushes ⟨name, t.freeze.lookup name, t.frozen.head, none⟩ l) =
      t.frozen.links.filter (fun l => !decide (l.data.owner = name)) := by
    refine filter_congr fun l hl => ?_
    rw [Bool.not_inj_iff, Bool.eq_iff_iff, Thaw.flushes_iff, decide_eq_true_iff]
    exact h.flushed_iff_owner hl
  rw [deliveredFor, deliveredFor, heldFor, heldFor, hspec.delivered, hspec.links, hflushed, hleft]
  by_cases heq : name = channel
  · subst heq
    have hnone : (t.frozen.links.filter (fun l => !decide (l.data.owner = name))).filter
        (fun l => l.data.owner = name) = [] := by
      rw [filter_filter, filter_eq_nil_iff]
      simp
    simp [hnone, beginThaw, filter_map, Function.comp_def]
  have hsame : (t.frozen.links.filter (fun l => !decide (l.data.owner = name))).filter
      (fun l => l.data.owner = channel) =
      t.frozen.links.filter (fun l => l.data.owner = channel) := by
    rw [filter_filter]
    refine filter_congr fun l _ => ?_
    by_cases howner : l.data.owner = channel
    · simp [howner, Ne.symm heq]
    · simp [howner]
  simp [hsame, beginThaw, filter_map, Function.comp_def, heq]

/-- **One admitted call keeps the order** of every channel. -/
theorem call_keeps (c : Call) (hok : t.CallOk c)
    (channel : String) :
    (t.call a c).deliveredFor channel ++ (t.call a c).heldFor channel =
      t.deliveredFor channel ++ t.heldFor channel ++ (c.emitted channel).toList := by
  cases c with
  | freeze name => simp [Transport.call, Transport.freezeChannel, deliveredFor, heldFor,
      Call.emitted]
  | thaw name =>
    rw [Transport.call, h.thawChannel_keeps]
    simp [Call.emitted]
  | emit name message => exact h.emit_keeps channel name hok

end

end OrderInv

/-! ### Whole runs -/

/-- Whether a call freezes or thaws `channel`. -/
def Call.gates (channel : String) : Call → Bool
  | .freeze name => name = channel
  | .thaw name => name = channel
  | .emit _ _ => false

/-- What the calls `es` must have led to: every message of `channel` was handed out or is held,
    in the order of emission, and none is held when the last call that froze or thawed the
    channel thawed it. -/
def KeepsOrder (es : List Call) (t : Transport) (channel : String) : Prop :=
  t.deliveredFor channel ++ t.heldFor channel = es.filterMap (Call.emitted channel) ∧
    ((es.filter (Call.gates channel)).getLast? = some (.thaw channel) → t.heldFor channel = [])

/-- The channel of the last thaw stays out of the table. -/
theorem OrderInv.call_unfrozen (h : OrderInv t) (a : Allocator) {es : List Call}
    (c : Call) (channel : String)
    (hlast : (es.filter (Call.gates channel)).getLast? = some (.thaw channel) →
      t.freeze.lookup channel = none) :
    ((es ++ [c]).filter (Call.gates channel)).getLast? = some (.thaw channel) →
      (t.call a c).freeze.lookup channel = none := by
  intro hthaw
  rw [filter_append] at hthaw
  cases c with
  | emit name message =>
    have hfreeze : (t.emit name message).freeze = t.freeze := by
      unfold Transport.emit maybeFreezeMessage
      cases name with
      | none => rfl
      | some name => dsimp only; cases t.freeze.lookup name <;> rfl
    show (t.emit name message).freeze.lookup channel = none
    rw [hfreeze]
    exact hlast (by simpa [Call.gates] using hthaw)
  | freeze name =>
    by_cases heq : name = channel
    · simp [Call.gates, heq] at hthaw
    · show (t.freeze.insert name _).lookup channel = none
      rw [lookup_insert_ne (Ne.symm heq)]
      exact hlast (by simpa [Call.gates, heq] using hthaw)
  | thaw name =>
    have hfreeze : (t.thawChannel name).freeze = t.freeze.erase name :=
      (thawChannel_spec h.idle name).freeze
    show (t.thawChannel name).freeze.lookup channel = none
    rw [hfreeze]
    by_cases heq : name = channel
    · rw [heq, lookup_erase]
    · rw [lookup_erase_ne (Ne.symm heq)]
      exact hlast (by simpa [Call.gates, heq] using hthaw)

/-- **Nothing is lost, duplicated or reordered** in any run of admitted calls. -/
theorem run_keepsOrder (a : Allocator) (es : List Call) (hok : RunOk (call a) CallOk new es)
    (channel : String) : KeepsOrder es (run (call a) new es) channel := by
  -- the history: the invariant, the order so far, and whether the channel was last thawed
  have hrun := run_history
    (fun es t => OrderInv t ∧
      t.deliveredFor channel ++ t.heldFor channel = es.filterMap (Call.emitted channel) ∧
      ((es.filter (Call.gates channel)).getLast? = some (.thaw channel) →
        t.freeze.lookup channel = none))
    (s := new) ⟨OrderInv.new, rfl, fun h => by simp at h⟩ ?_ hok
  · exact ⟨hrun.2.1, fun hthaw => hrun.1.heldFor_unfrozen (hrun.2.2 hthaw)⟩
  rintro es t c ⟨hinv, horder, hlast⟩ hc
  refine ⟨hinv.call a c hc, ?_, hinv.call_unfrozen a c channel hlast⟩
  rw [hinv.call_keeps a c hc, horder, filterMap_append]
  cases h : c.emitted channel <;> simp [h]

/-- A run with two channels, one of which is thawed. -/
theorem run_keepsOrder_two_channels :
    KeepsOrder [.freeze "a", .emit (some "a") (.recv [1]), .freeze "b", .thaw "a"]
      (run (call .above) new [.freeze "a", .emit (some "a") (.recv [1]), .freeze "b", .thaw "a"])
      "a" := by
  refine run_keepsOrder .above
    [.freeze "a", .emit (some "a") (.recv [1]), .freeze "b", .thaw "a"]
    ⟨?_, trivial, ?_, trivial, trivial⟩ "a"
  · intro key hkey
    cases hkey
  intro key hkey
  have hnone : (((new.call .above (.freeze "a")).call .above
      (.emit (some "a") (.recv [1]))).freeze).lookup "b" = none := by decide
  rw [hnone] at hkey
  cases hkey

/-- A channel that is frozen twice loses what was held in between: the thaw steals the second
    key, and the message points at the first. -/
theorem not_keepsOrder_frozen_twice :
    ¬ KeepsOrder [.freeze "a", .emit (some "a") (.recv [1]), .freeze "a", .thaw "a"]
      (run (call .above) new [.freeze "a", .emit (some "a") (.recv [1]), .freeze "a", .thaw "a"])
      "a" := by
  rintro ⟨-, hthawed⟩
  have hheld := hthawed (by simp [Call.gates])
  have hone : (heldFor (run (call .above) new
      [.freeze "a", .emit (some "a") (.recv [1]), .freeze "a", .thaw "a"]) "a").length = 1 := by
    decide
  rw [hheld] at hone
  cases hone

end Transport

end Cockpit
