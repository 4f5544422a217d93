import Cockpit.Lib.Run
import Cockpit.Common.Transport

namespace Cockpit

open Lib List Option AList FrozenMessage LinkQueue

/-!
# Thawing from within the handlers of a thawed message

The loop of `cockpit_transport_thaw` saves the next link before it emits a message, and the
handlers of the message may freeze, thaw and emit.  Two calls break the loop: a thaw of the
channel that the saved link of a call in progress belongs to deletes that link, and a freeze of a
channel that is frozen already leaves its held messages behind.  `Transport.EventOk` excludes
both.  In all other runs, with handlers nested to any depth, no loop touches a link that is gone,
and every message is handed out exactly once or is still held where a thaw will find it
(`Transport.run_nested_thaw`).

* `Transport.NestInv` — the invariant of the table, the queue and the calls in progress;
* `Transport.NestInv.step` — every admitted event keeps it.
-/

variable (q : LinkQueue FrozenMessage)

/-- The link `l` waits for the call `thaw`: the call stole the key that `l` points at, and its
    cursor has yet to come to `l`, or the handlers of `l` are running. -/
def Thaw.Awaits (thaw : Thaw) (l : Link FrozenMessage) : Prop :=
  thaw.channel = l.data.owner ∧ thaw.stolen = some l.data.channel ∧
    (l ∈ q.ahead thaw.l ∨ thaw.flush = some l.id)

/-- What holds between a call and one it is nested in: they stole different keys, and the inner
    one does not flush the link that the outer one will go on with. -/
def Thaw.Apart (inner outer : Thaw) : Prop :=
  (∀ key, inner.stolen = some key → outer.stolen ≠ some key) ∧
    ∀ l ∈ q.links, outer.l = some l.id → inner.stolen ≠ some l.data.channel

namespace Transport

/-- **The invariant** of the table, the queue and the calls in progress. -/
structure NestInv (freeze : AList (fun _ : String => Nat)) (q : LinkQueue FrozenMessage)
    (thaws : List Thaw) : Prop where
  /-- Different channels have different keys. -/
  keys : ∀ c c' key, freeze.lookup c = some key → freeze.lookup c' = some key → c = c'
  /-- A stolen key is not in the table. -/
  stolen : ∀ thaw ∈ thaws, ∀ c key, freeze.lookup c = some key → thaw.stolen ≠ some key
  /-- A message points at the key of its channel, or waits for a call in progress. -/
  points : ∀ l ∈ q.links, freeze.lookup l.data.owner = some l.data.channel ∨
    ∃ thaw ∈ thaws, thaw.Awaits q l
  /-- The saved links are in the queue. -/
  cursor : ∀ thaw ∈ thaws, ∀ i, thaw.l = some i → q.Has i
  /-- So are those that are being flushed, which are not visited again. -/
  flush : ∀ thaw ∈ thaws, ∀ i, thaw.flush = some i → (∀ l ∈ q.ahead thaw.l, l.id ≠ i) ∧
    ∃ l ∈ q.links, l.id = i ∧ thaw.stolen = some l.data.channel
  /-- Only the innermost call can be between two messages. -/
  waiting : ∀ thaw ∈ thaws.tail, thaw.flush ≠ none
  apart : thaws.Pairwise (Thaw.Apart q)

namespace NestInv

variable {freeze : AList (fun _ : String => Nat)} {q : LinkQueue FrozenMessage}
  {thaw : Thaw} {thaws outer : List Thaw}

/-! ### Calls from outside -/

variable {channel : String} {key : Nat}

/-- Freezing a channel under a key of its own, if no message points at the key it had. -/
theorem insert (h : NestInv freeze q thaws) (hfresh : ∀ c k, freeze.lookup c = some k → k ≠ key)
    (hstolen : ∀ thaw ∈ thaws, thaw.stolen ≠ some key)
    (hok : ∀ k, freeze.lookup channel = some k → ∀ l ∈ q.links, l.data.channel ≠ k) :
    NestInv (freeze.insert channel key) q thaws := { h with
  keys := by
    intro c c' k hc hc'
    by_cases heq : c = channel <;> by_cases heq' : c' = channel
    · rw [heq, heq']
    · rw [heq, lookup_insert, some.injEq] at hc
      rw [lookup_insert_ne heq'] at hc'
      exact absurd hc.symm (hfresh _ _ hc')
    · rw [heq', lookup_insert, some.injEq] at hc'
      rw [lookup_insert_ne heq] at hc
      exact absurd hc'.symm (hfresh _ _ hc)
    · rw [lookup_insert_ne heq] at hc
      rw [lookup_insert_ne heq'] at hc'
      exact h.keys c c' k hc hc'
  stolen := by
    intro w hw c k hc
    by_cases heq : c = channel
    · rw [heq, lookup_insert, some.injEq] at hc
      rw [← hc]
      exact hstolen w hw
    · rw [lookup_insert_ne heq] at hc
      exact h.stolen w hw c k hc
  points := by
    intro l hl
    rcases h.points l hl with hkey | hwaits
    · left
      have hne : l.data.owner ≠ channel := fun heq => hok _ (heq ▸ hkey) l hl rfl
      rw [lookup_insert_ne hne]
      exact hkey
    · exact .inr hwaits }

/-- Entering the loop: the messages that pointed at the stolen key are all ahead. -/
theorem beginThaw (h : NestInv freeze q thaws) (hout : ∀ thaw ∈ thaws, thaw.flush ≠ none)
    (hok : ∀ thaw ∈ thaws, ∀ l ∈ q.links, thaw.l = some l.id →
      freeze.lookup channel ≠ some l.data.channel) :
    NestInv (freeze.erase channel) q (⟨channel, freeze.lookup channel, q.head, none⟩ :: thaws) where
  keys := by
    intro c c' k hc hc'
    by_cases heq : c = channel <;> by_cases heq' : c' = channel
    · rw [heq, heq']
    · rw [heq, lookup_erase] at hc
      cases hc
    · rw [heq', lookup_erase] at hc'
      cases hc'
    · rw [lookup_erase_ne heq] at hc
      rw [lookup_erase_ne heq'] at hc'
      exact h.keys c c' k hc hc'
  stolen := by
    intro w hw c k hc
    by_cases heq : c = channel
    · rw [heq, lookup_erase] at hc
      cases hc
    rw [lookup_erase_ne heq] at hc
    rcases mem_cons.mp hw with rfl | hw
    · exact fun hkey => heq (h.keys _ _ _ hc hkey)
    · exact h.stolen w hw c k hc
  points := by
    intro l hl
    rcases h.points l hl with hkey | ⟨w, hw, hwaits⟩
    · by_cases heq : l.data.owner = channel
      · refine .inr ⟨_, mem_cons_self, heq.symm, heq ▸ hkey, .inl ?_⟩
        show l ∈ q.ahead q.head
        rw [ahead_head]
        exact hl
      · left
        rw [lookup_erase_ne heq]
        exact hkey
    · exact .inr ⟨w, mem_cons_of_mem _ hw, hwaits⟩
  cursor := by
    intro w hw i hi
    rcases mem_cons.mp hw with rfl | hw
    · rw [LinkQueue.head, map_eq_some_iff] at hi
      obtain ⟨l, hl, rfl⟩ := hi
      exact ⟨l, mem_of_head? hl, rfl⟩
    · exact h.cursor w hw i hi
  flush := by
    intro w hw i hi
    rcases mem_cons.mp hw with rfl | hw
    · cases hi
    · exact h.flush w hw i hi
  waiting := hout
  apart := by
    refine pairwise_cons.mpr ⟨?_, h.apart⟩
    intro w hw
    refine ⟨?_, hok w hw⟩
    intro key hkey
    exact h.stolen w hw channel key hkey

/-- A message for a frozen channel joins the queue. -/
theorem pushTail (h : NestInv freeze q thaws)
    (hkey : freeze.lookup channel = some key) (message : TransportMessage) :
    NestInv freeze (q.pushTail (.of key channel message)) thaws := { h with
  points := by
    intro l hl
    rcases mem_append.mp hl with hl | hl
    · rcases h.points l hl with hp | ⟨w, hw, howner, hstolen, hwaits⟩
      · exact .inl hp
      · refine .inr ⟨w, hw, howner, hstolen, ?_⟩
        exact hwaits.imp_left fun ha => mem_ahead_pushTail ha (h.cursor w hw) _
    · left
      rw [mem_singleton.mp hl, of_owner, of_channel]
      exact hkey
  cursor := fun w hw i hi => has_pushTail (h.cursor w hw i hi) _
  flush := by
    intro w hw i hi
    obtain ⟨hne, l, hl, hid, hstolen⟩ := h.flush w hw i hi
    refine ⟨?_, l, mem_append_left _ hl, hid, hstolen⟩
    intro l' hl'
    cases hcur : w.l with
    | none =>
      rw [hcur] at hl'
      cases hl'
    | some j =>
      rw [hcur, ahead_pushTail (h.cursor w hw j hcur)] at hl'
      rcases mem_append.mp hl' with hold | hnew
      · exact hne l' (hcur ▸ hold)
      · rw [mem_singleton.mp hnew, ← hid]
        exact (ne_fresh hl).symm
  apart := by
    refine h.apart.imp_of_mem fun {inner outer} _ hout hapart => ⟨hapart.1, ?_⟩
    intro l hl hcur
    rcases mem_append.mp hl with hl | hl
    · exact hapart.2 l hl hcur
    -- no cursor can point at a link that is only now added
    obtain ⟨l', hl', hid⟩ := h.cursor outer hout _ hcur
    rw [mem_singleton.mp hl] at hid
    exact absurd hid (ne_fresh hl') }

/-! ### The innermost loop goes on -/

section

variable (h : NestInv freeze q (thaw :: outer))

include h

variable {w : Thaw}

/-- The innermost call has stolen a key of its own. -/
theorem stolen_ne (hw : w ∈ outer) {key : Nat}
    (hkey : thaw.stolen = some key) : w.stolen ≠ some key :=
  ((pairwise_cons.mp h.apart).1 w hw).1 key hkey

/-- Leaving the loop: nothing waits for it any more. -/
theorem leave (hflush : thaw.flush = none)
    (hl : thaw.l = none) : NestInv freeze q outer where
  keys := h.keys
  stolen := fun w hw => h.stolen w (mem_cons_of_mem _ hw)
  points := by
    intro l hlink
    rcases h.points l hlink with hp | ⟨w, hw, howner, hstolen, hwaits⟩
    · exact .inl hp
    · rcases mem_cons.mp hw with rfl | hw
      · simp [hl, hflush] at hwaits
      · exact .inr ⟨w, hw, howner, hstolen, hwaits⟩
  cursor := fun w hw => h.cursor w (mem_cons_of_mem _ hw)
  flush := fun w hw => h.flush w (mem_cons_of_mem _ hw)
  waiting := fun w hw => h.waiting w (mem_of_mem_tail hw)
  apart := (pairwise_cons.mp h.apart).2

variable {l : Link FrozenMessage}

/-- The cursor moves past the link `l`, which is flushed if it points at the stolen key. -/
theorem move (hflush : thaw.flush = none) (hlink : l ∈ q.links) (hl : thaw.l = some l.id) {flush : Option Nat}
    (hmatch : flush = some l.id ∧ thaw.stolen = some l.data.channel ∨
      flush = none ∧ thaw.stolen ≠ some l.data.channel) :
    NestInv freeze q ({ thaw with l := q.next l.id, flush := flush } :: outer) := { h with
  stolen := by
    intro w hw
    rcases mem_cons.mp hw with rfl | hw
    · exact h.stolen thaw mem_cons_self
    · exact h.stolen w (mem_cons_of_mem _ hw)
  points := by
    intro l' hl'
    rcases h.points l' hl' with hp | ⟨w, hw, howner, hstolen, hwaits⟩
    · exact .inl hp
    right
    rcases mem_cons.mp hw with rfl | hw
    · refine ⟨_, mem_cons_self, howner, hstolen, ?_⟩
      rw [hl, ahead_next hlink, mem_cons, hflush] at hwaits
      rcases hwaits with (rfl | hahead) | hnone
      · rcases hmatch with ⟨hf, -⟩ | ⟨-, hne⟩
        · exact .inr hf
        · exact absurd hstolen hne
      · exact .inl hahead
      · cases hnone
    · exact ⟨w, mem_cons_of_mem _ hw, howner, hstolen, hwaits⟩
  cursor := by
    intro w hw i hi
    rcases mem_cons.mp hw with rfl | hw
    · exact (has_next hlink hi).1
    · exact h.cursor w (mem_cons_of_mem _ hw) i hi
  flush := by
    intro w hw i hi
    rcases mem_cons.mp hw with rfl | hw
    · rcases hmatch with ⟨hf, hstolen⟩ | ⟨hf, -⟩
      · obtain rfl : l.id = i := by
          rw [hf] at hi
          exact some.inj hi
        exact ⟨fun l' hl' => ne_of_mem_ahead_next hlink hl', l, hlink, rfl, hstolen⟩
      · rw [hf] at hi
        cases hi
    · exact h.flush w (mem_cons_of_mem _ hw) i hi
  apart := by
    obtain ⟨hhead, htail⟩ := pairwise_cons.mp h.apart
    exact pairwise_cons.mpr ⟨hhead, htail⟩ }

variable {i : Nat}

/-- No saved link is the one that the innermost call has flushed. -/
theorem cursor_ne_flush (hflush : thaw.flush = some i) (hw : w ∈ thaw :: outer) : w.l ≠ some i := by
  obtain ⟨hne, l, hlink, rfl, hstolen⟩ := h.flush thaw mem_cons_self i hflush
  rcases mem_cons.mp hw with rfl | hw
  · intro hcur
    rw [hcur, ahead_next hlink] at hne
    exact hne l mem_cons_self rfl
  · exact fun hcur => ((pairwise_cons.mp h.apart).1 w hw).2 l hlink hcur hstolen

/-- No other call is flushing the link of the innermost one. -/
theorem flush_ne (hflush : thaw.flush = some i) (hw : w ∈ outer) : w.flush ≠ some i := by
  intro hsame
  obtain ⟨-, l, hlink, hid, hstolen⟩ := h.flush thaw mem_cons_self i hflush
  obtain ⟨-, l', hlink', hid', hstolen'⟩ := h.flush w (mem_cons_of_mem _ hw) i hsame
  obtain rfl : l = l' := eq_of_id hlink hlink' (hid.trans hid'.symm)
  exact h.stolen_ne hw hstolen hstolen'

/-- The handlers have returned and the link is deleted. -/
theorem deleteLink (hflush : thaw.flush = some i) :
    NestInv freeze (q.deleteLink i) ({ thaw with flush := none } :: outer) := { h with
  stolen := by
    intro w hw
    rcases mem_cons.mp hw with rfl | hw
    · exact h.stolen thaw mem_cons_self
    · exact h.stolen w (mem_cons_of_mem _ hw)
  points := by
    intro l hl
    obtain ⟨hl, hne⟩ := mem_deleteLink.mp hl
    have hahead : ∀ w ∈ thaw :: outer, l ∈ q.ahead w.l → l ∈ (q.deleteLink i).ahead w.l := by
      intro w hw ha
      refine mem_ahead_deleteLink ha (fun j hj => ⟨h.cursor w hw j hj, ?_⟩) hne
      rintro rfl
      exact h.cursor_ne_flush hflush hw hj
    rcases h.points l hl with hp | ⟨w, hw, howner, hstolen, hwaits⟩
    · exact .inl hp
    right
    rcases mem_cons.mp hw with rfl | hw'
    · refine ⟨_, mem_cons_self, howner, hstolen, ?_⟩
      rcases hwaits with ha | hf
      · exact .inl (hahead w hw ha)
      · rw [hflush] at hf
        exact absurd (some.inj hf).symm hne
    · exact ⟨w, mem_cons_of_mem _ hw', howner, hstolen, hwaits.imp_left (hahead w hw)⟩
  cursor := by
    intro w hw j hj
    have hold : ∃ v ∈ thaw :: outer, v.l = some j := by
      rcases mem_cons.mp hw with rfl | hw
      · exact ⟨thaw, mem_cons_self, hj⟩
      · exact ⟨w, mem_cons_of_mem _ hw, hj⟩
    obtain ⟨v, hv, hvj⟩ := hold
    refine has_deleteLink (h.cursor v hv j hvj) ?_
    rintro rfl
    exact h.cursor_ne_flush hflush hv hvj
  flush := by
    intro w hw j hj
    rcases mem_cons.mp hw with rfl | hw
    · cases hj
    obtain ⟨hne, l, hl, rfl, hstolen⟩ := h.flush w (mem_cons_of_mem _ hw) j hj
    refine ⟨?_, l, mem_deleteLink.mpr ⟨hl, ?_⟩, rfl, hstolen⟩
    · intro l' hl'
      refine hne l' (mem_of_mem_ahead_deleteLink (fun k hk => ⟨?_, ?_⟩) hl')
      · exact h.cursor w (mem_cons_of_mem _ hw) k hk
      · rintro rfl
        exact h.cursor_ne_flush hflush (mem_cons_of_mem _ hw) hk
    · intro heq
      exact h.flush_ne hflush hw (heq ▸ hj)
  apart := by
    obtain ⟨hhead, htail⟩ := pairwise_cons.mp h.apart
    refine pairwise_cons.mpr ⟨fun w hw => ⟨(hhead w hw).1, ?_⟩, ?_⟩
    · intro l hl
      exact (hhead w hw).2 l (mem_deleteLink.mp hl).1
    · refine htail.imp fun hapart => ⟨hapart.1, ?_⟩
      intro l hl
      exact hapart.2 l (mem_deleteLink.mp hl).1 }

/-- A message that points at the stolen key is one of the channel that is thawed. -/
theorem owner_eq (hlink : l ∈ q.links) (hstolen : thaw.stolen = some l.data.channel) :
    l.data.owner = thaw.channel := by
  rcases h.points l hlink with hp | ⟨w, hw, howner, hstolen', -⟩
  · exact absurd hstolen (h.stolen thaw mem_cons_self _ _ hp)
  · rcases mem_cons.mp hw with rfl | hw
    · exact howner.symm
    · exact absurd hstolen' (h.stolen_ne hw hstolen)

end

end NestInv

/-- Freezing a channel that is not frozen. -/
theorem NestInv.freezeChannel {t : Transport} (h : NestInv t.freeze t.frozen t.thaws)
    (a : Allocator) {channel : String} (hfree : t.freeze.lookup channel = none) :
    NestInv (t.freezeChannel a channel).freeze t.frozen t.thaws :=
  h.insert (fun _ _ => lookup_ne_strdup a) (fun _ => stolen_ne_strdup a)
    (fun k hk => by rw [hfree] at hk; cases hk)

end Transport

end Cockpit
