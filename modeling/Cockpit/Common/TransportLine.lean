import Cockpit.Common.TransportThaw

namespace Cockpit

open Lib List AList FrozenMessage Thaw

/-!
# The line of a channel

The messages of a channel that have not been handed out stand in a line (`Transport.line`): first
those that point at its key in the table, then those that the calls in progress have stolen and
are yet to come to.  A message of a channel that is frozen again in the middle of a thaw is moved
from the second part to the end of the first, so the line as a whole stays as it is.

* `Transport.line_handOut` — a message that is handed out was the first of its line;
* `Transport.line_pushTail`, `Transport.line_requeue` — what is held back anew.
-/

namespace Thaw

/-- The messages that a call has yet to flush. -/
def waiting (q : LinkQueue FrozenMessage) (thaw : Thaw) : List TransportMessage :=
  ((q.ahead thaw.l).filter thaw.flushes).map (fun l => l.data.message)

variable {q : LinkQueue FrozenMessage} {thaw : Thaw}

/-- A message that joins the queue under a key of the table does not wait for a call. -/
theorem waiting_pushTail (hcursor : ∀ i, thaw.l = some i → q.Has i) {x : FrozenMessage}
    (hkey : thaw.stolen ≠ some x.channel) : waiting (q.pushTail x) thaw = waiting q thaw := by
  unfold waiting
  cases hl : thaw.l with
  | none => rfl
  | some i =>
    have hnot : thaw.flushes ⟨q.fresh, x⟩ = false := by
      rw [Bool.eq_false_iff]
      exact fun h => hkey (flushes_iff.mp h)
    rw [LinkQueue.ahead_pushTail (hcursor i hl), filter_append, filter_cons, hnot]
    simp

/-- Nor does one whose link the call does not come to or does not flush. -/
theorem waiting_deleteLink {i : Nat} (hcursor : ∀ j, thaw.l = some j → q.Has j ∧ j ≠ i)
    (hnot : ∀ l ∈ q.ahead thaw.l, l.id = i → thaw.flushes l = false) :
    waiting (q.deleteLink i) thaw = waiting q thaw := by
  unfold waiting
  cases hl : thaw.l with
  | none => rfl
  | some j =>
    rw [LinkQueue.ahead_deleteLink (hcursor j hl).1 (hcursor j hl).2, filter_filter]
    congr 1
    refine filter_congr fun l hmem => ?_
    by_cases heq : l.id = i
    · rw [hnot l (hl ▸ hmem) heq, Bool.false_and]
    · simp [heq]

/-- The cursor moves past a link. -/
theorem waiting_next {l : Link FrozenMessage} (hlink : l ∈ q.links) (hl : thaw.l = some l.id) :
    waiting q thaw = (if thaw.flushes l then [l.data.message] else []) ++
      waiting q { thaw with l := q.next l.id } := by
  unfold waiting
  rw [hl, LinkQueue.ahead_next hlink, filter_cons]
  split <;> rfl

end Thaw

namespace Transport

/-- The messages that point at the key of `channel`. -/
def tabledIn (freeze : AList (fun _ : String => Nat)) (q : LinkQueue FrozenMessage)
    (channel : String) : List TransportMessage :=
  (q.links.filter (fun l => freeze.lookup channel == some l.data.channel)).map
    (fun l => l.data.message)

/-- The messages of `channel` that wait for calls in progress. -/
def stolenIn (q : LinkQueue FrozenMessage) (thaws : List Thaw) (channel : String) :
    List TransportMessage :=
  (thaws.filter (fun thaw => thaw.channel == channel)).flatMap (Thaw.waiting q)

/-- The messages that the next thaw of `channel` is to hand out. -/
def tabled (t : Transport) (channel : String) : List TransportMessage :=
  tabledIn t.freeze t.frozen channel

/-- **The line** of `channel`: its messages in the order in which they will be handed out. -/
def line (t : Transport) (channel : String) : List TransportMessage :=
  t.tabled channel ++ stolenIn t.frozen t.thaws channel

section Parts

variable {freeze : AList (fun _ : String => Nat)} {q : LinkQueue FrozenMessage}
  {thaw : Thaw} {thaws outer : List Thaw} {channel : String}

theorem stolenIn_cons : stolenIn q (thaw :: outer) channel =
    (if thaw.channel = channel then thaw.waiting q else []) ++ stolenIn q outer channel := by
  unfold stolenIn
  by_cases heq : thaw.channel = channel <;> simp [heq]

/-- What waits for a call is what it has ahead. -/
theorem stolenIn_congr {q' : LinkQueue FrozenMessage}
    (h : ∀ thaw ∈ thaws, thaw.waiting q' = thaw.waiting q) :
    stolenIn q' thaws channel = stolenIn q thaws channel := by
  induction thaws with
  | nil => rfl
  | cons thaw outer ih =>
    rw [stolenIn_cons, stolenIn_cons, h thaw mem_cons_self,
      ih (fun w hw => h w (mem_cons_of_mem _ hw))]

/-- Nothing points at the key of a channel that is not frozen. -/
theorem tabledIn_unfrozen (hfree : freeze.lookup channel = none) :
    tabledIn freeze q channel = [] := by
  simp [tabledIn, hfree]

/-- A message that is held back joins the line of its channel. -/
theorem tabledIn_pushTail (x : FrozenMessage) : tabledIn freeze (q.pushTail x) channel =
    tabledIn freeze q channel ++
      if freeze.lookup channel = some x.channel then [x.message] else [] := by
  unfold tabledIn
  rw [LinkQueue.links_pushTail, filter_append, map_append, filter_cons]
  by_cases heq : freeze.lookup channel = some x.channel <;> simp [heq]

variable {i : Nat}

/-- A link that points at no key of the table can go. -/
theorem tabledIn_deleteLink
    (hnot : ∀ l ∈ q.links, l.id = i → freeze.lookup channel ≠ some l.data.channel) :
    tabledIn freeze (q.deleteLink i) channel = tabledIn freeze q channel := by
  unfold tabledIn LinkQueue.deleteLink
  dsimp only
  rw [filter_filter]
  congr 1
  refine filter_congr fun l hl => ?_
  by_cases heq : l.id = i
  · simp [hnot l hl heq]
  · simp [heq]

/-- The link that is being flushed stands in no line. -/
theorem NestInv.tabledIn_flushed (h : NestInv freeze q (thaw :: outer))
    (hflush : thaw.flush = some i) (channel : String) :
    tabledIn freeze (q.deleteLink i) channel = tabledIn freeze q channel := by
  refine tabledIn_deleteLink fun l hl hid hkey => ?_
  obtain ⟨-, l', hl', hid', hstolen⟩ := h.flush thaw mem_cons_self i hflush
  obtain rfl : l = l' := LinkQueue.eq_of_id hl hl' (hid.trans hid'.symm)
  exact h.stolen thaw mem_cons_self _ _ hkey hstolen

theorem NestInv.stolenIn_flushed (h : NestInv freeze q (thaw :: outer))
    (hflush : thaw.flush = some i) (channel : String) :
    stolenIn (q.deleteLink i) ({ thaw with flush := none } :: outer) channel =
      stolenIn q (thaw :: outer) channel := by
  obtain ⟨hne, l, hl, hid, hstolen⟩ := h.flush thaw mem_cons_self i hflush
  have hcursor : ∀ w ∈ thaw :: outer, ∀ j, w.l = some j → q.Has j ∧ j ≠ i := by
    intro w hw j hj
    refine ⟨h.cursor w hw j hj, ?_⟩
    rintro rfl
    exact h.cursor_ne_flush hflush hw hj
  have hinner : Thaw.waiting (q.deleteLink i) thaw = Thaw.waiting q thaw :=
    waiting_deleteLink (hcursor thaw mem_cons_self)
      fun l' hl' hid' => absurd hid' (hne l' hl')
  have houter : stolenIn (q.deleteLink i) outer channel = stolenIn q outer channel := by
    refine stolenIn_congr fun w hw => ?_
    refine waiting_deleteLink (hcursor w (mem_cons_of_mem _ hw)) fun l' hl' hid' => ?_
    obtain rfl : l' = l :=
      LinkQueue.eq_of_id (LinkQueue.mem_of_mem_ahead hl') hl (hid'.trans hid.symm)
    rw [Bool.eq_false_iff]
    exact fun hf => h.stolen_ne hw hstolen (flushes_iff.mp hf)
  rw [stolenIn_cons, stolenIn_cons, houter]
  show (if thaw.channel = channel then Thaw.waiting (q.deleteLink i) thaw else []) ++ _ = _
  rw [hinner]

/-- A message that joins the queue waits for no call. -/
theorem NestInv.stolenIn_pushTail (h : NestInv freeze q thaws) {name : String} {key : Nat}
    (hkey : freeze.lookup name = some key) (message : TransportMessage) (channel : String) :
    stolenIn (q.pushTail (.of key name message)) thaws channel = stolenIn q thaws channel := by
  refine stolenIn_congr fun w hw => ?_
  refine waiting_pushTail (h.cursor w hw) ?_
  rw [of_channel]
  exact h.stolen w hw name key hkey

/-- Only the channel that has the key gets a message under it. -/
theorem NestInv.tabledIn_push (h : NestInv freeze q thaws) {name : String} {key : Nat}
    (hkey : freeze.lookup name = some key) (message : TransportMessage) (channel : String) :
    tabledIn freeze (q.pushTail (.of key name message)) channel = tabledIn freeze q channel ++
      if channel = name then [(FrozenMessage.of key name message).message] else [] := by
  rw [tabledIn_pushTail, of_channel]
  by_cases heq : channel = name
  · rw [if_pos heq, heq, if_pos hkey]
  · rw [if_neg heq, if_neg]
    exact fun hother => heq (h.keys _ _ _ hother hkey)

end Parts

section Steps

variable {t t' : Transport} {thaw : Thaw} {outer : List Thaw} {l : Link FrozenMessage}
    {name : String}

section

variable (h : NestInv t.freeze t.frozen t.thaws)

include h

/-- A message for a frozen channel goes behind those that point at its key. -/
theorem line_pushTail {key : Nat}
    (hkey : t.freeze.lookup name = some key) (message : TransportMessage) (channel : String) :
    line { t with frozen := t.frozen.pushTail (.of key name message) } channel = t.tabled channel ++
      (if channel = name then [(FrozenMessage.of key name message).message] else []) ++
        stolenIn t.frozen t.thaws channel := by
  show tabledIn t.freeze (t.frozen.pushTail _) channel ++
    stolenIn (t.frozen.pushTail _) t.thaws channel = _
  rw [h.tabledIn_push hkey, h.stolenIn_pushTail hkey]
  rfl

/-- A channel that is frozen under a new key has nothing that points at it. -/
theorem tabled_freezeChannel (a : Allocator) (hfree : t.freeze.lookup name = none) (channel : String) :
    (t.freezeChannel a name).tabled channel = t.tabled channel := by
  show tabledIn (t.freeze.insert name (a.strdup t.strdups t.live)) t.frozen channel = _
  by_cases heq : channel = name
  · rw [heq, tabled, tabledIn_unfrozen hfree]
    unfold tabledIn
    rw [lookup_insert, map_eq_nil_iff, filter_eq_nil_iff]
    intro l hl
    rw [beq_iff_eq, Option.some.injEq]
    intro hkey
    rcases h.points l hl with hp | ⟨w, hw, -, hstolen, -⟩
    · exact lookup_ne_strdup a hp hkey.symm
    · exact stolen_ne_strdup a hw (hkey ▸ hstolen)
  · rw [tabled, tabledIn, tabledIn, lookup_insert_ne heq]

theorem line_freezeChannel (a : Allocator) (hfree : t.freeze.lookup name = none) (channel : String) :
    (t.freezeChannel a name).line channel = t.line channel := by
  rw [line, tabled_freezeChannel h a hfree]
  rfl

/-- A channel that is frozen and whose message is held back then: it is the first of the line, and
    the only one that points at the new key. -/
theorem exists_requeue (a : Allocator)
    (hfree : t.freeze.lookup name = none) (message : TransportMessage) :
    ∃ m, (message.Named → m = message) ∧ ∀ channel,
      ((t.freezeChannel a name).emit (some name) message).tabled channel =
        t.tabled channel ++ (if channel = name then [m] else []) ∧
      ((t.freezeChannel a name).emit (some name) message).line channel =
        (if channel = name then [m] else []) ++ t.line channel := by
  have hfreeze := h.freezeChannel a hfree
  have hkey : (t.freezeChannel a name).freeze.lookup name =
      some (a.strdup t.strdups t.live) := lookup_insert _
  refine ⟨(FrozenMessage.of (a.strdup t.strdups t.live) name message).message,
    fun hnamed => message_of hnamed _ name, fun channel => ?_⟩
  rw [emit_freezeChannel]
  have htabled : tabledIn (t.freezeChannel a name).freeze t.frozen channel = t.tabled channel :=
    tabled_freezeChannel h a hfree channel
  refine ⟨?_, ?_⟩
  · show tabledIn _ _ _ = _
    rw [hfreeze.tabledIn_push hkey, htabled]
  show tabledIn _ _ _ ++ stolenIn _ t.thaws _ = _
  rw [hfreeze.tabledIn_push hkey, htabled, hfreeze.stolenIn_pushTail hkey, line]
  by_cases heq : channel = name
  · rw [heq, tabled, tabledIn_unfrozen hfree]
    rfl
  · rw [if_neg heq, append_nil, nil_append]

end

/-- Entering the loop: what pointed at the key waits for the call. -/
theorem line_beginThaw (t : Transport) (name channel : String) :
    (t.beginThaw name).line channel = t.line channel := by
  unfold line tabled
  show tabledIn (t.freeze.erase name) t.frozen channel ++ stolenIn t.frozen (_ :: t.thaws) channel = _
  rw [stolenIn_cons]
  by_cases heq : name = channel
  · subst heq
    rw [tabledIn_unfrozen (lookup_erase _ _), nil_append, if_pos rfl]
    unfold Thaw.waiting tabledIn
    rw [LinkQueue.ahead_head]
    rfl
  · rw [if_neg heq, nil_append]
    unfold tabledIn
    rw [lookup_erase_ne (Ne.symm heq)]

theorem tabled_beginThaw {channel : String} (hne : channel ≠ name) :
    (t.beginThaw name).tabled channel = t.tabled channel := by
  show tabledIn (t.freeze.erase name) t.frozen channel = tabledIn t.freeze t.frozen channel
  rw [tabledIn, tabledIn, lookup_erase_ne hne]

/-- **A message that is handed out was the first of its line.** -/
theorem line_handOut (hdel : Delivers t thaw outer l) (channel : String) :
    t.line channel = (if channel = thaw.channel then [l.data.message] else []) ++
      (t.handOut thaw outer l).line channel := by
  have hflushes : thaw.flushes l := flushes_iff.mpr hdel.stolen
  have hwait := Thaw.waiting_next hdel.link hdel.cursor
  rw [if_pos hflushes] at hwait
  have hparts : (t.handOut thaw outer l).line channel = t.tabled channel ++
      stolenIn t.frozen ({ thaw with l := t.frozen.next l.id, flush := some l.id } :: outer)
        channel := rfl
  rw [hparts, line, hdel.thaws, stolenIn_cons, stolenIn_cons]
  by_cases heq : thaw.channel = channel
  · rw [if_pos heq, if_pos heq.symm, if_pos heq, tabled,
      tabledIn_unfrozen (heq ▸ hdel.unfrozen), hwait]
    rfl
  · rw [if_neg heq, if_neg (Ne.symm heq), if_neg heq]
    rfl

/-- **A loop that hands nothing out leaves the lines alone.** -/
theorem Next.line (hnext : Next t t') (h : NestInv t.freeze t.frozen t.thaws)
    (hquiet : t'.delivered = t.delivered) (channel : String) :
    t'.line channel = t.line channel := by
  unfold Transport.line tabled
  cases hnext with
  | idle => rfl
  | flushed hthaws hflush =>
    rw [hthaws] at h
    dsimp only
    rw [h.tabledIn_flushed hflush, h.stolenIn_flushed hflush, hthaws]
  | @leave thaw outer hthaws hflush hl =>
    dsimp only
    rw [hthaws, stolenIn_cons, Thaw.waiting, hl]
    simp
  | @other thaw outer l hthaws hflush hlink hl hother =>
    have hnot : ¬ thaw.flushes l := fun hf => hother (flushes_iff.mp hf)
    have hwait := Thaw.waiting_next hlink hl
    rw [if_neg hnot, nil_append] at hwait
    dsimp only
    rw [hthaws, stolenIn_cons, stolenIn_cons, hwait]
  | @deliver thaw outer l hdel =>
    have hlen := congrArg List.length hquiet
    simp [handOut, Transport.deliver] at hlen
  | @again thaw outer l key hthaws hflush hlink hl hmatch hfrozen =>
    rw [hthaws] at h
    -- the link is marked, the message joins the queue again, and the link is deleted
    have hmove := h.move hflush hlink hl (.inl ⟨rfl, hmatch⟩)
    have hpush := hmove.pushTail hfrozen l.data.message
    have hnamed := named_message l.data
    have htabled := hpush.tabledIn_flushed rfl channel
    have hstolen := hpush.stolenIn_flushed rfl channel
    rw [← hflush] at hstolen
    have hwait := Thaw.waiting_next hlink hl
    rw [if_pos (flushes_iff.mpr hmatch)] at hwait
    dsimp only
    rw [htabled, hstolen, hmove.tabledIn_push hfrozen, message_of hnamed,
      hmove.stolenIn_pushTail hfrozen, hthaws, stolenIn_cons, stolenIn_cons]
    by_cases heq : thaw.channel = channel
    · rw [if_pos heq.symm, if_pos heq, if_pos heq, hwait]
      simp only [append_assoc]
      rfl
    · rw [if_neg (Ne.symm heq), if_neg heq, if_neg heq, append_nil]

/-- A loop can only add to what points at the key of a channel. -/
theorem Next.tabled_extends (hnext : Next t t') (h : NestInv t.freeze t.frozen t.thaws)
    (channel : String) : t.tabled channel <+: t'.tabled channel := by
  unfold Transport.tabled
  cases hnext with
  | idle => exact prefix_refl _
  | flushed hthaws hflush =>
    rw [hthaws] at h
    exact (h.tabledIn_flushed hflush channel).symm ▸ prefix_refl _
  | leave | other | deliver => exact prefix_refl _
  | @again thaw outer l key hthaws hflush hlink hl hmatch hfrozen =>
    rw [hthaws] at h
    have hmove := h.move hflush hlink hl (.inl ⟨rfl, hmatch⟩)
    have hpush := hmove.pushTail hfrozen l.data.message
    dsimp only
    rw [hpush.tabledIn_flushed rfl, hmove.tabledIn_push hfrozen]
    exact prefix_append _ _

/-- No loop changes which channels are frozen. -/
theorem Next.freeze (hnext : Next t t') : t'.freeze = t.freeze := by
  cases hnext <;> rfl

/-- When the handlers have returned a link is deleted that is no message of any line. -/
theorem NestInv.tabled_next_flushed (h : NestInv t.freeze t.frozen t.thaws) {i : Nat}
    (hthaws : t.thaws = thaw :: outer) (hflush : thaw.flush = some i) (channel : String) :
    t.next.tabled channel = t.tabled channel := by
  rw [h.next_flushed hthaws hflush]
  rw [hthaws] at h
  exact h.tabledIn_flushed hflush channel

theorem NestInv.line_next_flushed (h : NestInv t.freeze t.frozen t.thaws) {i : Nat}
    (hthaws : t.thaws = thaw :: outer) (hflush : thaw.flush = some i) (channel : String) :
    t.next.line channel = t.line channel := by
  have hquiet : t.next.delivered = t.delivered := by rw [h.next_flushed hthaws hflush]
  exact h.next.line h hquiet channel

end Steps

end Transport

end Cockpit
