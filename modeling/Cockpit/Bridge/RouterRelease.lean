import Cockpit.Bridge.RouterFences

namespace Cockpit

open Lib List Transport

/-!
# The release of what a fence has held up

When the last fence closes, `on_channel_closed` thaws the channels in `fenced` one after the other.
Every thaw hands out the "open" message of its channel first, which goes to the rules or, if a
channel that was released before is a fence itself, is held up again.  `Bridge.Releasing` follows
the loop through its phases:

* `Phase.pending` — a thaw that has not come to the "open" message of its channel;
* `Phase.routed` — a thaw that has handed it out.

While such a loop runs nothing else thaws, so there is one of them at most (`Bridge.ReleaseInv`).
-/

namespace Entry

/-- The channel whose "open" message was offered to the rules or held up. -/
def routed : Entry → Option String
  | .offered channel => some channel
  | .blocked channel => some channel
  | _ => none

/-- The channel that was held up. -/
def barred : Entry → Option String
  | .blocked channel => some channel
  | _ => none

end Entry

namespace Bridge

/-- The channels whose "open" messages the router has taken up since the log had `logged` entries. -/
def routedSince (b : Bridge) (logged : Nat) : List String :=
  (b.log.drop logged).filterMap Entry.routed

/-- Those that a fence has held up again. -/
def barredSince (b : Bridge) (logged : Nat) : List String :=
  (b.log.drop logged).filterMap Entry.barred

/-! ### What opening a channel does to the others -/

section Opening

variable {S : Setup} {b b' : Bridge} {name : String} {options : JsonObject} {data : Bytes}

theorem Opening.initHost (h : Opening S b name options data b') : b'.initHost = b.initHost := by
  cases h with
  | reused | blocked => rfl
  | offered _ _ _ hout => cases hout <;> rfl

variable {c : String}

/-- No other channel is opened. -/
theorem Opening.mem_channels (h : Opening S b name options data b') (hne : c ≠ name)
    (hc : c ∈ b'.channels) : c ∈ b.channels := by
  have hlast : ∀ l : List String, c ∈ l ++ [name] → c ∈ l := by
    intro l hmem
    rcases mem_append.mp hmem with hold | hlast
    · exact hold
    · exact absurd (mem_singleton.mp hlast) hne
  cases h with
  | reused | blocked => exact hc
  | offered _ _ _ hout =>
    cases hout with
    | unsupported | created => exact hlast _ hc
    | _ => exact hc

/-- No other line is touched. -/
theorem Opening.lines (h : Opening S b name options data b')
    (hnest : NestInv b.transport.freeze b.transport.frozen b.transport.thaws)
    (hfree : b.transport.freeze.lookup name = none) (hne : c ≠ name) :
    b'.transport.tabled c = b.transport.tabled c ∧ b'.transport.line c = b.transport.line c := by
  rcases h.transport with heq | heq | ⟨message, heq⟩ <;> rw [heq]
  · exact ⟨rfl, rfl⟩
  · exact ⟨tabled_freezeChannel hnest S.alloc hfree c, line_freezeChannel hnest S.alloc hfree c⟩
  · obtain ⟨m, -, hparts⟩ := exists_requeue hnest S.alloc hfree message
    rw [(hparts c).1, (hparts c).2, if_neg hne]
    exact ⟨append_nil _, rfl⟩

/-- A channel that is frozen is in the table. -/
theorem lookup_freezeChannel (a : Allocator) (t : Transport) (channel : String) :
    (t.freezeChannel a channel).freeze.lookup channel ≠ none := by
  rw [Transport.freezeChannel, AList.lookup_insert]
  exact Option.some_ne_none _

/-- What becomes of the channel itself: its "open" message is offered to the rules or held up, and
    in the end it is frozen, or there is no fence and the rest of its line is as it was. -/
structure Routed (b b' : Bridge) (name : String) (message : TransportMessage) (es : List Entry) :
    Prop where
  log : b'.log = b.log ++ es
  routed : es.filterMap Entry.routed = [name]
  fenced : b'.fenced = b.fenced ++ es.filterMap Entry.barred
  barred : ∀ c ∈ es.filterMap Entry.barred,
    c = name ∧ b'.transport.line name = message :: b.transport.line name
  frozen : b'.fences ≠ [] → b'.transport.freeze.lookup name ≠ none
  rest : b'.transport.freeze.lookup name = none → b'.transport.line name = b.transport.line name

/-- An offer to the rules, when there is no fence. -/
theorem Outcome.routed (h : Outcome S options (b.record (.offered name)) name b')
    (hfences : b.fences = []) (message : TransportMessage) :
    ∃ es, Routed b b' name message es := by
  have hno : ∀ c ∈ [Entry.offered name].filterMap Entry.barred,
      c = name ∧ b'.transport.line name = message :: b.transport.line name := by
    simp [Entry.barred]
  cases h with
  | dropped | unread =>
    exact ⟨[.offered name], rfl, rfl, (append_nil _).symm, hno,
      fun hne => absurd hfences hne, fun _ => rfl⟩
  | unsupported =>
    exact ⟨[.offered name], rfl, rfl, (append_nil _).symm, hno,
      fun hne => absurd hfences hne,
      fun hnone => absurd hnone (lookup_freezeChannel S.alloc _ name)⟩
  | created =>
    exact ⟨[.offered name], rfl, rfl, (append_nil _).symm, hno,
      fun _ => lookup_freezeChannel S.alloc _ name,
      fun hnone => absurd hnone (lookup_freezeChannel S.alloc _ name)⟩
  | answered _ _ _ id =>
    refine ⟨[.offered name, .closed name (.peer id)], ?_, rfl, (append_nil _).symm, ?_,
      fun hne => absurd hfences hne, fun _ => rfl⟩
    · simp [record]
    · simp [Entry.barred]
  | given =>
    exact ⟨[.offered name], rfl, rfl, (append_nil _).symm, hno,
      fun hne => absurd hfences hne, fun _ => rfl⟩
  | held _ _ _ data =>
    refine ⟨[.offered name], rfl, rfl, (append_nil _).symm, hno,
      fun hne => absurd hfences hne, fun hnone => ?_⟩
    rw [emit_freezeChannel] at hnone
    exact absurd hnone (lookup_freezeChannel S.alloc _ name)

theorem Opening.routed (h : Opening S b name options data b') (hinv : FenceInv b)
    (hnest : NestInv b.transport.freeze b.transport.frozen b.transport.thaws)
    (hfree : b.transport.freeze.lookup name = none) (hnew : name ∉ b.channels)
    (hnamed : TransportMessage.Named (.control (some "open") options data)) :
    ∃ es, Routed b b' name (.control (some "open") options data) es := by
  cases h with
  | reused hopen => exact absurd hopen hnew
  | blocked _ hfences =>
    obtain ⟨m, hm, hparts⟩ := exists_requeue hnest S.alloc hfree
      (.control (some "open") options data)
    have hfrozen : ((b.transport.freezeChannel S.alloc name).emit (some name)
        (.control (some "open") options data)).freeze.lookup name ≠ none := by
      rw [emit_freezeChannel]
      exact lookup_freezeChannel S.alloc _ name
    refine ⟨[.blocked name], rfl, rfl, rfl, ?_, fun _ => hfrozen, fun hnone => absurd hnone hfrozen⟩
    intro c hc
    refine ⟨by simpa [Entry.barred] using hc, ?_⟩
    rw [(hparts name).2, if_pos rfl, hm hnamed]
    rfl
  | offered _ hfences _ hout =>
    refine hout.routed ?_ _
    rcases hfences with hnil | hmem
    · exact hnil
    · exact absurd hmem (hinv.not_mem_fences hnew)

end Opening

/-! ### The phases of a release -/

/-- Where a release is. -/
inductive Phase (b : Bridge) (r : Release) (todo : List String) (base : Nat) : Prop where
  /-- Between two thaws. -/
  | between (hthaws : b.transport.thaws.length = base)
      (hall : r.all = b.routedSince r.logged ++ todo)
  /-- In a thaw that has not come to the "open" message of its channel. -/
  | pending {thaw : Thaw} {outer : List Thaw} (hthaws : b.transport.thaws = thaw :: outer)
      (hbase : outer.length = base) (hflush : thaw.flush = none)
      (hfree : b.transport.freeze.lookup thaw.channel = none)
      (hnew : thaw.channel ∉ b.channels)
      (hfirst : OpensFirst (thaw.waiting b.transport.frozen))
      (hline : b.transport.line thaw.channel = r.start.line thaw.channel)
      (hall : r.all = b.routedSince r.logged ++ thaw.channel :: todo)
  /-- In a thaw that has handed it out. -/
  | routed {thaw : Thaw} {outer : List Thaw} (hthaws : b.transport.thaws = thaw :: outer)
      (hbase : outer.length = base)
      (hfences : b.fences ≠ [] → b.transport.freeze.lookup thaw.channel ≠ none ∧ thaw.flush = none)
      (hquiet : b.transport.freeze.lookup thaw.channel = none →
        NoOpen (b.transport.line thaw.channel))
      (hall : r.all = b.routedSince r.logged ++ todo)

/-- **The invariant of a release**: the channels that are to come are as they were when it began, and
    so are those that are held up again. -/
structure Releasing (b : Bridge) (r : Release) (todo : List String) (base : Nat) : Prop where
  host : b.initHost ≠ none
  logged : r.logged ≤ b.log.length
  distinct : r.all.Nodup
  again : b.fenced = b.barredSince r.logged
  kept : ∀ c ∈ b.fenced, b.transport.line c = r.start.line c
  coming : ∀ c ∈ todo, c ∉ b.channels ∧ OpensFirst (b.transport.tabled c) ∧
    b.transport.line c = r.start.line c
  phase : Phase b r todo base

/-- Only the innermost loop over channels can be a release. -/
def ReleaseInv (b : Bridge) : Prop :=
  ∀ task rest, b.tasks = task :: rest → (∀ outer ∈ rest, TaskKind.isRelease outer.kind = false) ∧
      ∀ r, task.kind = .release r → Releasing b r task.todo task.base

section

variable {b b' : Bridge} {logged : Nat} {es : List Entry} (hlog : b'.log = b.log ++ es)
    (hlogged : logged ≤ b.log.length)

include hlog hlogged

/-- What is routed is added to. -/
theorem routedSince_append :
    b'.routedSince logged = b.routedSince logged ++ es.filterMap Entry.routed := by
  rw [routedSince, hlog, drop_append_of_le_length hlogged, filterMap_append]
  rfl

theorem barredSince_append :
    b'.barredSince logged = b.barredSince logged ++ es.filterMap Entry.barred := by
  rw [barredSince, hlog, drop_append_of_le_length hlogged, filterMap_append]
  rfl

end

variable {t : Transport}

/-- A channel with a message that points at its key is frozen. -/
theorem lookup_of_opensFirst {c : String} (h : OpensFirst (t.tabled c)) :
    t.freeze.lookup c ≠ none :=
  fun hfree => h.ne_nil (tabledIn_unfrozen hfree)

namespace Releasing

variable {S : Setup} {b b' : Bridge} {r : Release} {todo : List String} {base : Nat} {c : String}

/-- The channels to come are not held up again. -/
theorem not_mem_fenced (h : Releasing b r todo base) (hc : c ∈ todo) :
    c ∉ b.fenced := by
  have hrouted : ∀ c ∈ b.fenced, c ∈ b.routedSince r.logged := by
    intro c hmem
    rw [h.again] at hmem
    obtain ⟨e, he, hbarred⟩ := mem_filterMap.mp hmem
    refine mem_filterMap.mpr ⟨e, he, ?_⟩
    cases e with
    | blocked channel => exact hbarred
    | _ => cases hbarred
  have hdist := h.distinct
  intro hmem
  -- a channel is in the list once, before or behind the place where the loop is
  have hapart : ∀ middle, r.all = b.routedSince r.logged ++ (middle ++ todo) → False := by
    intro middle hall
    rw [hall, nodup_append] at hdist
    exact hdist.2.2 c (hrouted c hmem) c (mem_append_right _ hc) rfl
  cases h.phase with
  | between _ hall => exact hapart [] hall
  | @pending thaw _ _ _ _ _ _ _ _ hall => exact hapart [thaw.channel] hall
  | routed _ _ _ _ hall => exact hapart [] hall

/-- What is to come is frozen. -/
theorem ne_of_unfrozen (h : Releasing b r todo base) {name : String}
    (hfree : b.transport.freeze.lookup name = none) (hc : c ∈ todo) : c ≠ name := by
  rintro rfl
  exact lookup_of_opensFirst (h.coming c hc).2.1 hfree

/-! ### The steps of a release -/

variable {tasks : List Task} {channel : String}

/-- A release begins. -/
theorem start (hinv : FenceInv b) (hhost : b.initHost ≠ none)
    {fences : List String} {groups : AList (fun _ : String => String)} :
    Releasing
      { b with
        channels := b.channels.erase channel, groups := groups, fences := fences
        fenced := [], tasks := tasks }
      ⟨b.fenced, b.transport, b.log.length⟩ b.fenced b.transport.thaws.length where
  host := hhost
  logged := Nat.le_refl _
  distinct := hinv.distinct
  again := by simp [barredSince]
  kept := nofun
  coming := fun c hc => ⟨fun hmem => (hinv.fenced c hc).1 (mem_of_mem_erase hmem),
    (hinv.fenced c hc).2, rfl⟩
  phase := .between rfl (by simp [routedSince])

/-- The next channel is thawed. -/
theorem thaw (h : Releasing b r (channel :: todo) base)
    (hrun : b.transport.thaws.length = base) :
    Releasing { b with transport := b.transport.beginThaw channel, tasks := tasks } r todo base := by
  have hall : r.all = b.routedSince r.logged ++ channel :: todo := by
    cases h.phase with
    | between _ hall => exact hall
    | pending hthaws hbase | routed hthaws hbase =>
      rw [hthaws, length_cons] at hrun
      omega
  obtain ⟨hnew, hfirst, hline⟩ := h.coming channel mem_cons_self
  refine { h with kept := ?_, coming := ?_, phase := ?_ }
  · intro c hc
    show (b.transport.beginThaw channel).line c = _
    rw [line_beginThaw]
    exact h.kept c hc
  · intro c hc
    have hne : c ≠ channel := by
      rintro rfl
      have hdist := h.distinct
      rw [hall, nodup_append, nodup_cons] at hdist
      exact hdist.2.1.1 hc
    show c ∉ b.channels ∧ OpensFirst ((b.transport.beginThaw channel).tabled c) ∧
      (b.transport.beginThaw channel).line c = _
    rw [tabled_beginThaw hne, line_beginThaw]
    exact h.coming c (mem_cons_of_mem _ hc)
  refine .pending rfl hrun rfl (AList.lookup_erase _ _) hnew ?_ ?_ hall
  · -- what pointed at the key is what the new call is to flush
    show OpensFirst (Thaw.waiting b.transport.frozen
      ⟨channel, b.transport.freeze.lookup channel, b.transport.frozen.head, none⟩)
    unfold Thaw.waiting
    rw [LinkQueue.ahead_head]
    exact hfirst
  · show (b.transport.beginThaw channel).line channel = _
    rw [line_beginThaw]
    exact hline

/-- A change that leaves the transport, the fences and what was routed alone. -/
theorem of_same (h : Releasing b r todo base) (hhost : b'.initHost = b.initHost)
    {es : List Entry} (hlog : b'.log = b.log ++ es) (hquiet : es.filterMap Entry.routed = [])
    (hbarred : es.filterMap Entry.barred = []) (hchans : b'.channels ⊆ b.channels)
    (htrans : b'.transport = b.transport) (hfences : b'.fences = b.fences)
    (hfenced : b'.fenced = b.fenced) : Releasing b' r todo base := by
  have hrouted : b'.routedSince r.logged = b.routedSince r.logged := by
    rw [routedSince_append hlog h.logged, hquiet, append_nil]
  refine ⟨hhost ▸ h.host, ?_, h.distinct, ?_, ?_, ?_, ?_⟩
  · rw [hlog, length_append]
    exact le_trans h.logged (Nat.le_add_right _ _)
  · rw [barredSince_append hlog h.logged, hbarred, append_nil, hfenced]
    exact h.again
  · rw [hfenced, htrans]
    exact h.kept
  · rw [htrans]
    exact fun c hc => ⟨fun hmem => (h.coming c hc).1 (hchans hmem), (h.coming c hc).2⟩
  cases h.phase with
  | between hthaws hall => exact .between (htrans ▸ hthaws) (hrouted ▸ hall)
  | pending hthaws hbase hflush hfree hnew hfirst hline hall =>
    exact .pending (htrans ▸ hthaws) hbase hflush (htrans ▸ hfree)
      (fun hmem => hnew (hchans hmem)) (htrans ▸ hfirst) (htrans ▸ hline)
      (hrouted ▸ hall)
  | routed hthaws hbase hfence hnone hall =>
    exact .routed (htrans ▸ hthaws) hbase (hfences ▸ htrans ▸ hfence)
      (htrans ▸ hnone) (hrouted ▸ hall)

/-- A thaw goes on without handing out a message. -/
theorem loop (h : Releasing b r todo base)
    (hnest : NestInv b.transport.freeze b.transport.frozen b.transport.thaws)
    (hrun : b.transport.thaws.length ≠ base) (hnext : b.transport.Next t)
    (hsame : t.delivered = b.transport.delivered) :
    Releasing { b with transport := t } r todo base := by
  have hline := hnext.line hnest hsame
  have hfreeze := hnext.freeze
  refine { h with kept := ?_, coming := ?_, phase := ?_ }
  · intro c hc
    rw [hline]
    exact h.kept c hc
  · intro c hc
    obtain ⟨hnew, hfirst, hsame⟩ := h.coming c hc
    exact ⟨hnew, hfirst.extend (hnext.tabled_extends hnest c), (hline c).trans hsame⟩
  cases h.phase with
  | between hthaws => exact absurd hthaws hrun
  | @pending thaw outer hthaws hbase hflush hfree hnew hfirst hstart hall =>
    cases hnext with
    | idle hnil =>
      rw [hnil] at hthaws
      cases hthaws
    | flushed hthaws' hflush' =>
      obtain ⟨rfl, rfl⟩ := cons.inj (hthaws.symm.trans hthaws')
      rw [hflush] at hflush'
      cases hflush'
    | leave hthaws' _ hl =>
      -- the message is still ahead
      obtain ⟨rfl, rfl⟩ := cons.inj (hthaws.symm.trans hthaws')
      apply absurd _ hfirst.ne_nil
      simp [Thaw.waiting, hl]
    | @other thaw' outer' l hthaws' _ hlink hl hother =>
      obtain ⟨rfl, rfl⟩ := cons.inj (hthaws.symm.trans hthaws')
      have hnot : ¬ thaw.flushes l := fun hf => hother (Thaw.flushes_iff.mp hf)
      rw [Thaw.waiting_next hlink hl, if_neg hnot, nil_append] at hfirst
      exact .pending rfl hbase hflush hfree hnew hfirst ((hline _).trans hstart) hall
    | deliver =>
      have hlen := congrArg length hsame
      simp [Transport.handOut, Transport.deliver] at hlen
    | again hthaws' _ _ _ _ hfrozen =>
      obtain ⟨rfl, rfl⟩ := cons.inj (hthaws.symm.trans hthaws')
      rw [hfree] at hfrozen
      cases hfrozen
  | @routed thaw outer hthaws hbase hfences hquiet hall =>
    have hnone : t.freeze.lookup thaw.channel = none → NoOpen (t.line thaw.channel) := by
      rw [hfreeze, hline]
      exact hquiet
    cases hnext with
    | idle hnil =>
      rw [hnil] at hthaws
      cases hthaws
    | flushed hthaws' =>
      obtain ⟨rfl, rfl⟩ := cons.inj (hthaws.symm.trans hthaws')
      exact .routed rfl hbase (fun hne => ⟨(hfences hne).1, rfl⟩) hnone hall
    | leave hthaws' =>
      obtain ⟨rfl, rfl⟩ := cons.inj (hthaws.symm.trans hthaws')
      exact .between hbase hall
    | other hthaws' =>
      obtain ⟨rfl, rfl⟩ := cons.inj (hthaws.symm.trans hthaws')
      exact .routed rfl hbase hfences hnone hall
    | deliver =>
      have hlen := congrArg length hsame
      simp [Transport.handOut, Transport.deliver] at hlen
    | again hthaws' =>
      obtain ⟨rfl, rfl⟩ := cons.inj (hthaws.symm.trans hthaws')
      exact .routed rfl hbase hfences hnone hall

variable {l : Link FrozenMessage} {outer : List Thaw} {thaw : Thaw}

/-- The message that a thaw hands out first is the "open" message. -/
theorem isOpen_of_waiting (hdel : t.Delivers thaw outer l)
    (hfirst : OpensFirst (thaw.waiting t.frozen)) : l.data.message.isOpen := by
  rw [Thaw.waiting_next hdel.link hdel.cursor, if_pos (Thaw.flushes_iff.mpr hdel.stolen)] at hfirst
  obtain ⟨message, rest, heq, hopen⟩ := hfirst
  rw [(cons.inj heq).1]
  exact hopen

section

variable (h : Releasing b r todo base) (hinv : FenceInv b)

include h hinv

/-- A message that is handed out is no message of a channel that is to come or held up. -/
theorem handOut (hdel : b.transport.Delivers thaw outer l) :
    (∀ c ∈ b.fenced, (b.transport.handOut thaw outer l).line c = r.start.line c) ∧
      ∀ c ∈ todo, (b.transport.handOut thaw outer l).line c = r.start.line c := by
  have hline : ∀ c ≠ thaw.channel,
      (b.transport.handOut thaw outer l).line c = b.transport.line c := by
    intro c hne
    rw [line_handOut hdel c, if_neg hne]
    rfl
  refine ⟨fun c hc => ?_, fun c hc => ?_⟩
  · rw [hline c]
    · exact h.kept c hc
    · rintro rfl
      exact hinv.not_mem_fenced hdel.unfrozen hc
  · rw [hline c (h.ne_of_unfrozen hdel.unfrozen hc)]
    exact (h.coming c hc).2.2

/-- A thaw hands out another message. -/
theorem delivered
    (hrun : b.transport.thaws.length ≠ base) (hdel : b.transport.Delivers thaw outer l)
    (hother : l.data.message.isOpen = false) :
    Releasing { b with transport := b.transport.handOut thaw outer l } r todo base := by
  obtain ⟨hkept, hcoming⟩ := h.handOut hinv hdel
  refine { h with kept := hkept, coming := ?_, phase := ?_ }
  · exact fun c hc => ⟨(h.coming c hc).1, (h.coming c hc).2.1, hcoming c hc⟩
  cases h.phase with
  | between hthaws => exact absurd hthaws hrun
  | pending hthaws _ _ _ _ hfirst =>
    obtain ⟨rfl, rfl⟩ := cons.inj (hdel.thaws.symm.trans hthaws)
    rw [isOpen_of_waiting hdel hfirst] at hother
    cases hother
  | routed hthaws hbase hfences hquiet hall =>
    obtain ⟨rfl, rfl⟩ := cons.inj (hdel.thaws.symm.trans hthaws)
    refine .routed rfl hbase (fun hne => ?_) (fun hnone => ?_) hall
    · exact absurd hdel.unfrozen (hfences hne).1
    intro message hmem
    apply hquiet hnone
    rw [line_handOut hdel]
    exact mem_append_right _ hmem

/-- A thaw hands out the "open" message of its channel. -/
theorem reopened (hnest : NestInv b.transport.freeze b.transport.frozen b.transport.thaws)
    (hrun : b.transport.thaws.length ≠ base) {options : JsonObject} {data : Bytes}
    (hdel : b.transport.Delivers thaw outer l)
    (hmsg : l.data.message = .control (some "open") options data)
    (hopng : Opening S { b with transport := b.transport.handOut thaw outer l } thaw.channel
      options data b') :
    Releasing { b' with transport := b'.transport.next } r todo base := by
  have hopen : l.data.message.isOpen := by
    rw [hmsg]
    rfl
  have hnamed : TransportMessage.Named (.control (some "open") options data) :=
    hmsg ▸ FrozenMessage.named_message l.data
  have hnest₀ := (Transport.Next.deliver hdel).nestInv hnest
  have hnest₁ := hopng.nest hnest₀ hdel.unfrozen
  have hrest := hinv.noOpen_handOut hdel hopen
  have hfirst := line_handOut hdel thaw.channel
  rw [if_pos rfl, hmsg] at hfirst
  cases h.phase with
  | between hthaws => exact absurd hthaws hrun
  | routed hthaws _ _ hquiet =>
    obtain ⟨rfl, rfl⟩ := cons.inj (hdel.thaws.symm.trans hthaws)
    have hno := hquiet hdel.unfrozen
    rw [hfirst] at hno
    exact absurd (hno _ mem_cons_self) (by simp [TransportMessage.isOpen])
  | pending hthaws hbase _ hfree hnew _ hstart hall =>
    obtain ⟨rfl, rfl⟩ := cons.inj (hdel.thaws.symm.trans hthaws)
    obtain ⟨es, hrouted⟩ := hopng.routed (hinv.handOut hdel) hnest₀ hdel.unfrozen
      hnew hnamed
    obtain ⟨hkept, hcoming⟩ := h.handOut hinv hdel
    have hlines := fun {c : String} (hne : c ≠ thaw.channel) =>
      hopng.lines hnest₀ hdel.unfrozen hne
    have hnext := hnest₁.next_flushed hopng.thaws rfl
    have hline := hnest₁.line_next_flushed hopng.thaws rfl
    refine ⟨?_, ?_, h.distinct, ?_, ?_, ?_, ?_⟩
    · show b'.initHost ≠ none
      rw [hopng.initHost]
      exact h.host
    · show r.logged ≤ b'.log.length
      rw [hrouted.log, length_append]
      exact le_trans h.logged (Nat.le_add_right _ _)
    · show b'.fenced = b'.barredSince r.logged
      rw [hrouted.fenced, barredSince_append hrouted.log h.logged]
      exact congrArg (· ++ _) h.again
    · -- a channel that is held up again has its "open" message at the head of its line again
      intro c hc
      show b'.transport.next.line c = _
      rw [hline]
      have hc' : c ∈ b.fenced ++ es.filterMap Entry.barred := hrouted.fenced ▸ hc
      rcases mem_append.mp hc' with hold | hagain
      · have hne : c ≠ thaw.channel := by
          rintro rfl
          exact hinv.not_mem_fenced hdel.unfrozen hold
        rw [(hlines hne).2]
        exact hkept c hold
      · obtain ⟨rfl, hback⟩ := hrouted.barred c hagain
        rw [hback, ← hstart, hfirst]
        rfl
    · intro c hc
      have hne := h.ne_of_unfrozen hdel.unfrozen hc
      obtain ⟨hnew', hopens, -⟩ := h.coming c hc
      refine ⟨fun hmem => hnew' (hopng.mem_channels hne hmem), ?_, ?_⟩
      · show OpensFirst (b'.transport.next.tabled c)
        rw [hnest₁.tabled_next_flushed hopng.thaws rfl, (hlines hne).1]
        exact hopens
      · show b'.transport.next.line c = _
        rw [hline, (hlines hne).2]
        exact hcoming c hc
    have hfreeze : b'.transport.next.freeze = b'.transport.freeze := by rw [hnext]
    refine .routed (congrArg Transport.thaws hnext) hbase (fun hne => ⟨?_, rfl⟩) (fun hnone => ?_)
      ?_
    · show b'.transport.next.freeze.lookup thaw.channel ≠ none
      rw [hfreeze]
      exact hrouted.frozen hne
    · show NoOpen (b'.transport.next.line thaw.channel)
      rw [hline, hrouted.rest (hfreeze ▸ hnone)]
      exact hrest
    · show r.all = b'.routedSince r.logged ++ todo
      rw [routedSince_append hrouted.log h.logged, hrouted.routed, append_assoc]
      exact hall

end

/-- While handlers run inside of a release there is no fence. -/
theorem fences_nil (h : Releasing b r todo base) (hrun : b.transport.thaws.length ≠ base)
    (hout : b.transport.outside) : b.fences = [] := by
  unfold Transport.outside at hout
  cases h.phase with
  | between hthaws => exact absurd hthaws hrun
  | pending hthaws _ hflush => simp [hthaws, hflush] at hout
  | routed hthaws _ hfences =>
    by_contra hne
    simp [hthaws, (hfences hne).2] at hout

end Releasing

end Bridge

end Cockpit
