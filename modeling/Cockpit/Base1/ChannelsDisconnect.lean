import Cockpit.Base1.ChannelsTables
import Cockpit.Lib.Decimal

namespace Cockpit.Page

open Lib List Channel State Option

/-!
# No channel outlives its transport unnoticed

* `Attached.opens` — the callback of a channel;
* `run_nothing_dangles` — once `Transport.close` has returned, every channel of the transport has
  had its `close` event.
-/

/-- What a task on the stack relies on. -/
def TaskOk (s : State) : Task → Prop
  | .close _ options => hasCommand options "close"
  | .startBroadcast _ options => hasCommand options "close"
  | .broadcast t options keys => hasCommand options "close" ∧
    (∃ tr : Transport, s.transports[t]? = some tr ∧ tr.broadcast) ∧
    ∀ (c : Nat) (ch : Channel), s.channels[c]? = some ch → ch.home = t → ch.closed = none →
      ∃ key ∈ keys, ch.id = some key
  | _ => True

/-- Channels end with their transport. -/
structure Attached (s : State) : Prop where
  /-- An open channel can be reached through the table of its transport. -/
  registered : ∀ {c : Nat} {ch : Channel}, s.channels[c]? = some ch → ch.closed = none →
    ch.transport → ∃ (tr : Transport) (key : String), s.transports[ch.home]? = some tr ∧ ch.id = some key ∧
      tr.callbacks.lookup key = some c
  notified : ∀ {c : Nat} {ch : Channel}, s.channels[c]? = some ch → ch.closed.isSome →
    ch.closeEvents ≠ []
  /-- The ids were made by `next_channel`. -/
  ids : ∀ {t : Nat} {tr : Transport}, s.transports[t]? = some tr → ∀ key ∈ tr.callbacks,
    ∃ n < tr.lastChannel, key = tr.channelSeed ++ toString (n + 1)
  /-- No open channel waits for a transport that told its channels about a close. -/
  gone : ∀ {t : Nat} {tr : Transport}, s.transports[t]? = some tr → tr.broadcast →
    ∀ (c : Nat) (ch : Channel), s.channels[c]? = some ch → ch.home = t → ch.closed = none →
      ch.transport
  returned : ∀ {t : Nat} {tr : Transport}, s.transports[t]? = some tr → tr.returned →
    tr.broadcast ∧ ∀ (c : Nat) (ch : Channel), s.channels[c]? = some ch → ch.home = t →
      ch.closed.isSome

/-- The invariant of a run, next to `Wired`. -/
structure Ending (s : State) : Prop where
  attached : Attached s
  tasks : ∀ task ∈ s.stack, TaskOk s task

/-- A channel after a step that opens nothing. -/
structure Channel.Shrinks (ch ch' : Channel) : Prop where
  home : ch'.home = ch.home
  id : ch'.id = ch.id
  transport : ch'.transport = ch.transport
  closed : ch'.closed = none → ch.closed = none
  notified : ch'.closed.isSome → ch'.closeEvents ≠ []

/-- A transport after a step that neither starts nor ends a broadcast. -/
structure Transport.Kept (tr tr' : Transport) : Prop where
  broadcast : tr'.broadcast = tr.broadcast
  returned : tr'.returned = tr.returned

/-- A step that opens nothing, and after which the transports are the old ones or new. -/
structure Shrinks (s s' : State) : Prop where
  channels : ∀ {c : Nat} {ch' : Channel}, s'.channels[c]? = some ch' →
    ∃ ch, s.channels[c]? = some ch ∧ ch.Shrinks ch'
  stays : ∀ {t : Nat} {tr : Transport}, s.transports[t]? = some tr →
    ∃ tr', s'.transports[t]? = some tr' ∧ tr.Kept tr'
  transports : ∀ {t : Nat} {tr' : Transport}, s'.transports[t]? = some tr' →
    (∃ tr, s.transports[t]? = some tr ∧ tr.Kept tr') ∨
      (tr'.broadcast = false ∧ tr'.returned = false)

/-- What a task relies on survives a step that opens nothing. -/
theorem TaskOk.shrinks {s s' : State} {task : Task} (hok : TaskOk s task) (h : Shrinks s s') :
    TaskOk s' task := by
  cases task with
  | broadcast t options keys =>
    obtain ⟨hcmd, ⟨tr, htr, hgone⟩, hcovered⟩ := hok
    obtain ⟨tr', htr', hkept⟩ := h.stays htr
    refine ⟨hcmd, ⟨tr', htr', hkept.broadcast.trans hgone⟩, ?_⟩
    intro c ch' hch' hhome hclos
    obtain ⟨ch, hch, hshrinks⟩ := h.channels hch'
    obtain ⟨key, hkey, hid⟩ :=
      hcovered c ch hch (hshrinks.home.symm.trans hhome) (hshrinks.closed hclos)
    exact ⟨key, hkey, hshrinks.id.trans hid⟩
  | _ => exact hok

namespace Attached

variable {s s' : State}

/-- A step that opens nothing, when the tables still lead to the open channels. -/
theorem shrinks (h : Attached s) (hshrinks : Shrinks s s')
    (hreg : ∀ {c : Nat} {ch' : Channel}, s'.channels[c]? = some ch' →
      ch'.closed = none → ch'.transport → ∃ (tr : Transport) (key : String),
        s'.transports[ch'.home]? = some tr ∧ ch'.id = some key ∧ tr.callbacks.lookup key = some c)
    (hids : ∀ {t : Nat} {tr' : Transport}, s'.transports[t]? = some tr' →
      ∀ key ∈ tr'.callbacks, ∃ n < tr'.lastChannel,
        key = tr'.channelSeed ++ toString (n + 1)) : Attached s' where
  registered := hreg
  notified hch' hclosed := by
    obtain ⟨ch, hch, hch'⟩ := hshrinks.channels hch'
    exact hch'.notified hclosed
  ids := hids
  gone htr' hgone c ch' hch' hhome hclosed := by
    obtain ⟨ch, hch, hshrink⟩ := hshrinks.channels hch'
    rcases hshrinks.transports htr' with ⟨tr, htr, hkept⟩ | ⟨hnot, -⟩
    · exact hshrink.transport.trans (h.gone htr (hkept.broadcast.symm.trans hgone) c ch hch
        (hshrink.home.symm.trans hhome) (hshrink.closed hclosed))
    · exact nomatch (hgone.symm.trans hnot)
  returned htr' hreturned := by
    rcases hshrinks.transports htr' with ⟨tr, htr, hkept⟩ | ⟨-, hnot⟩
    · obtain ⟨hgone, hclosed⟩ := h.returned htr (hkept.returned.symm.trans hreturned)
      refine ⟨hkept.broadcast.trans hgone, fun c ch' hch' hhome => ?_⟩
      obtain ⟨ch, hch, hshrink⟩ := hshrinks.channels hch'
      rw [isSome_iff_ne_none]
      intro hopen
      have hsome := hclosed c ch hch (hshrink.home.symm.trans hhome)
      rw [hshrink.closed hopen] at hsome
      exact nomatch hsome
    · exact nomatch (hreturned.symm.trans hnot)

variable {ch : Channel}

theorem self_shrinks (h : Attached s) {c : Nat} (hch : s.channels[c]? = some ch) :
    ch.Shrinks ch :=
  ⟨rfl, rfl, rfl, fun h' => h', h.notified hch⟩

/-- Two states with the same channels, whose transports have the same tables. -/
structure SameTables (s s' : State) : Prop where
  channels : s'.channels = s.channels
  stays : ∀ {t : Nat} {tr : Transport}, s.transports[t]? = some tr →
    ∃ tr', s'.transports[t]? = some tr' ∧ tr.Kept tr' ∧ tr'.callbacks = tr.callbacks
  transports : ∀ {t : Nat} {tr' : Transport}, s'.transports[t]? = some tr' →
    (∃ tr, s.transports[t]? = some tr ∧ tr.Kept tr' ∧ tr'.callbacks = tr.callbacks ∧
      tr'.lastChannel = tr.lastChannel ∧ (tr'.channelSeed = tr.channelSeed ∨ tr.lastChannel = 0)) ∨
      (tr'.broadcast = false ∧ tr'.returned = false ∧ tr'.callbacks = ∅)

theorem SameTables.shrinks (hsame : SameTables s s') (h : Attached s) : Shrinks s s' where
  channels hch := ⟨_, hsame.channels ▸ hch, h.self_shrinks (hsame.channels ▸ hch)⟩
  stays htr := by
    obtain ⟨tr', htr', hkept, -⟩ := hsame.stays htr
    exact ⟨tr', htr', hkept⟩
  transports htr' := by
    rcases hsame.transports htr' with ⟨tr, htr, hkept, -⟩ | ⟨hbroadcast, hret, -⟩
    · exact .inl ⟨tr, htr, hkept⟩
    · exact .inr ⟨hbroadcast, hret⟩

/-- Steps that leave the tables alone. -/
theorem congr (h : Attached s) (hsame : SameTables s s') : Attached s' := by
  refine h.shrinks (hsame.shrinks h) ?_ ?_
  · intro c ch hch hclos htrans
    obtain ⟨tr, key, htr, hid, hlook⟩ :=
      h.registered (hsame.channels ▸ hch) hclos htrans
    obtain ⟨tr', htr', -, hcalls⟩ := hsame.stays htr
    exact ⟨tr', key, htr', hid, hcalls ▸ hlook⟩
  intro t tr' htr' key hkey
  rcases hsame.transports htr' with ⟨tr, htr, -, hcalls, hlast, hseed⟩ | ⟨-, -, hempty⟩
  · obtain ⟨n, hn, heq⟩ := h.ids htr key (hcalls ▸ hkey)
    rcases hseed with hseed | hzero
    · exact ⟨n, hlast ▸ hn, hseed ▸ heq⟩
    · omega
  · rw [hempty] at hkey
    exact absurd hkey (AList.notMem_empty key)

variable {t : Nat}

theorem sameTables_onTransport (s : State) {g : Transport → Transport}
    (hg : ∀ tr, s.transports[t]? = some tr → tr.Kept (g tr) ∧
      (g tr).callbacks = tr.callbacks ∧ (g tr).lastChannel = tr.lastChannel ∧
        ((g tr).channelSeed = tr.channelSeed ∨ tr.lastChannel = 0)) :
    SameTables s (s.onTransport t g) where
  channels := rfl
  stays {t'} tr htr := by
    rw [onTransport_getElem?, htr]
    split
    · rename_i heq
      subst heq
      obtain ⟨hkept, hcalls, -⟩ := hg tr htr
      exact ⟨g tr, rfl, hkept, hcalls⟩
    · exact ⟨tr, rfl, ⟨rfl, rfl⟩, rfl⟩
  transports {t'} tr' htr' := by
    obtain ⟨tr, htr, ⟨rfl, rfl⟩ | ⟨-, rfl⟩⟩ := onTransport_cases htr'
    · obtain ⟨hkept, hcalls, hlast, hseed⟩ := hg tr htr
      exact .inl ⟨tr, htr, hkept, hcalls, hlast, hseed⟩
    · exact .inl ⟨tr', htr, ⟨rfl, rfl⟩, rfl, rfl, .inl rfl⟩

variable {tr : Transport}

theorem onChannel_eq {c : Nat}
    (hch : s.channels[c]? = some ch) (htr : s.transports[ch.home]? = some tr)
    (f : Channel × Transport → Channel × Transport) :
    s.onChannel c f = { s with
      channels := s.channels.set c (f (ch, tr)).1
      transports := s.transports.set ch.home (f (ch, tr)).2 } := by
  unfold State.onChannel
  simp only [hch, htr]

section

variable (h : Attached s) {c : Nat} (hch : s.channels[c]? = some ch)
    (htr : s.transports[ch.home]? = some tr) {f : Channel × Transport → Channel × Transport}
    (heff : Channel.Effect (ch, tr) (f (ch, tr)))

include h hch htr heff

/-- A function of a channel that opens nothing. -/
theorem shrinks_onChannel : Shrinks s (s.onChannel c f) := by
  rw [onChannel_eq hch htr]
  refine ⟨?_, ?_, ?_⟩
  · intro c' ch' hget
    rw [getElem?_set] at hget
    split at hget
    · rename_i heq
      subst heq
      split at hget
      · obtain rfl := some.inj hget
        refine ⟨ch, hch, heff.home, heff.id, heff.transport, ?_, ?_⟩
        · intro hopen
          rcases heff.closes with ⟨hclos, -⟩ | ⟨hclos, -⟩
          · exact hclos.symm.trans hopen
          · rw [hopen] at hclos
            exact nomatch hclos
        intro hcl'
        rcases heff.closes with ⟨hclos, hevents, -⟩ | ⟨-, hevents, -⟩
        · rw [hevents]
          exact h.notified hch (hclos ▸ hcl')
        · exact hevents
      · exact nomatch hget
    · exact ⟨ch', hget, h.self_shrinks hget⟩
  · intro t old hold
    show ∃ tr', (s.transports.set ch.home (f (ch, tr)).2)[t]? = some tr' ∧ _
    rw [getElem?_set]
    split
    · rename_i heq
      subst heq
      obtain rfl := mem_unique hold htr
      rw [if_pos (List.getElem?_eq_some_iff.mp htr).1]
      exact ⟨_, rfl, heff.broadcast, heff.returned⟩
    · exact ⟨old, hold, rfl, rfl⟩
  intro t tr' htr'
  rw [getElem?_set] at htr'
  split at htr'
  · rename_i heq
    subst heq
    split at htr'
    · obtain rfl := some.inj htr'
      exact .inl ⟨tr, htr, heff.broadcast, heff.returned⟩
    · exact nomatch htr'
  · exact .inl ⟨tr', htr', rfl, rfl⟩

/-- A function that closes an open channel at most leaves the entries of the others alone. -/
theorem onChannel (hopen : ch.closed = none ∨ (f (ch, tr)).2.callbacks = tr.callbacks) :
    Attached (s.onChannel c f) := by
  have hlt : ch.home < s.transports.length := (List.getElem?_eq_some_iff.mp htr).1
  refine h.shrinks (h.shrinks_onChannel hch htr heff) ?_ ?_
  · rw [onChannel_eq hch htr]
    intro c' ch' hget hcl' htrans'
    show ∃ (tr' : Transport) (key : String),
      (s.transports.set ch.home (f (ch, tr)).2)[ch'.home]? = some tr' ∧ _
    rw [getElem?_set] at hget
    split at hget
    · rename_i heq
      subst heq
      split at hget
      · obtain rfl := some.inj hget
        -- the channel itself is still open, so its entry is there
        rcases heff.closes with ⟨hclos, -, hcalls⟩ | ⟨hclos, -⟩
        · obtain ⟨tr', key, htr', hid, hlook⟩ := h.registered hch
            (hclos.symm.trans hcl') (heff.transport.symm.trans htrans')
          obtain rfl := mem_unique htr' htr
          refine ⟨_, key, ?_, heff.id.trans hid, hcalls ▸ hlook⟩
          rw [heff.home]
          exact getElem?_set_self hlt
        · rw [hcl'] at hclos
          exact nomatch hclos
      · exact nomatch hget
    rename_i hne
    obtain ⟨tr', key, htr', hid, hlook⟩ := h.registered hget hcl' htrans'
    by_cases hhome : ch.home = ch'.home
    · rw [← hhome] at htr' ⊢
      obtain rfl := mem_unique htr' htr
      refine ⟨_, key, getElem?_set_self hlt, hid, ?_⟩
      -- at most the entry of `c` was deleted, and that is another one
      rcases heff.closes with ⟨-, -, hcalls⟩ | ⟨-, -, hcalls⟩
      · exact hcalls ▸ hlook
      rcases hopen with hopen | hsame
      · rw [hcalls]
        unfold unregistered
        split
        · rename_i id htrans hown
          obtain ⟨tr', key', htr', hid', hlook'⟩ := h.registered hch hopen htrans
          obtain rfl := mem_unique htr' htr
          obtain rfl := mem_unique hown hid'
          have hkey : key ≠ id := by
            rintro rfl
            exact hne (mem_unique hlook' hlook)
          exact (AList.lookup_erase_ne hkey).trans hlook
        · exact hlook
      · exact hsame ▸ hlook
    · exact ⟨tr', key, (getElem?_set_ne hhome).trans htr', hid, hlook⟩
  rw [onChannel_eq hch htr]
  intro t tr' htr' key hkey
  rw [getElem?_set] at htr'
  split at htr'
  · rename_i heq
    subst heq
    obtain rfl := some.inj htr'
    have hmem : key ∈ tr.callbacks := by
      rcases heff.closes with ⟨-, -, hcalls⟩ | ⟨-, -, hcalls⟩
      · exact hcalls ▸ hkey
      rw [hcalls] at hkey
      unfold unregistered at hkey
      split at hkey
      · exact (AList.mem_erase.mp hkey).2
      · exact hkey
    obtain ⟨n, hn, heq⟩ := h.ids htr key hmem
    exact ⟨n, heff.lastChannel.symm ▸ hn, heff.channelSeed.symm ▸ heq⟩
  · exact h.ids htr' key hkey

end

/-- `next_channel` makes up a new id. -/
theorem nextId_notMem (h : Attached s)
    (htr : s.transports[t]? = some tr) : tr.nextId ∉ tr.callbacks := by
  intro hmem
  obtain ⟨n, hn, heq⟩ := h.ids htr _ hmem
  have hrepr : toString (tr.lastChannel + 1) = toString (n + 1) :=
    (String.append_right_inj tr.channelSeed).mp heq
  have hnat : tr.lastChannel + 1 = n + 1 := toString_injective hrepr
  omega

section Opens

variable {c : Nat} {ch : Channel} {tr : Transport}
  {f : Channel × Transport → Channel × Transport}

section

variable (h : Attached s) (hch : s.channels[c]? = some ch) (htr : s.transports[ch.home]? = some tr)

include h hch htr

/-- The callback of a channel registers it, unless it was closed. -/
theorem opens (hopens : Channel.Opens c (ch, tr) (f (ch, tr))) : Attached (s.onChannel c f) := by
  have hhome : ch.home < s.transports.length := (List.getElem?_eq_some_iff.mp htr).1
  have hlt : c < s.channels.length := (List.getElem?_eq_some_iff.mp hch).1
  -- a channel afterwards is the one that was called, or another one
  have hchans : ∀ {c' ch'}, (s.channels.set c (f (ch, tr)).1)[c']? = some ch' →
      (c' = c ∧ ch' = (f (ch, tr)).1) ∨ (c' ≠ c ∧ s.channels[c']? = some ch') := by
    intro c' ch' hget
    rw [getElem?_set] at hget
    split at hget
    · rename_i heq
      exact .inl ⟨heq.symm, (some.inj hget).symm⟩
    · rename_i hne
      exact .inr ⟨Ne.symm hne, hget⟩
  have htrs : ∀ {t tr'}, (s.transports.set ch.home (f (ch, tr)).2)[t]? = some tr' →
      (t = ch.home ∧ tr' = (f (ch, tr)).2) ∨ (t ≠ ch.home ∧ s.transports[t]? = some tr') := by
    intro t tr' hget
    rw [getElem?_set] at hget
    split at hget
    · rename_i heq
      exact .inl ⟨heq.symm, (some.inj hget).symm⟩
    · rename_i hne
      exact .inr ⟨Ne.symm hne, hget⟩
  rw [onChannel_eq hch htr]
  refine ⟨?_, ?_, ?_, ?_, ?_⟩
  · intro c' ch' hget hcl' htrans'
    show ∃ tr' key, (s.transports.set ch.home (f (ch, tr)).2)[ch'.home]? = some tr' ∧ _
    rcases hchans hget with ⟨rfl, rfl⟩ | ⟨hne, hget⟩
    · rcases hopens.opens with ⟨hclos, -⟩ | ⟨-, hid, hinsert, -⟩
      · rw [← hopens.closed, hcl'] at hclos
        exact nomatch hclos
      refine ⟨(f (ch, tr)).2, tr.nextId, ?_, hid, ?_⟩
      · rw [hopens.home]
        exact getElem?_set_self hhome
      · rw [hinsert]
        exact AList.lookup_insert _
    obtain ⟨tr', key, htr', hid, hlook⟩ := h.registered hget hcl' htrans'
    by_cases hsame : ch.home = ch'.home
    · rw [← hsame] at htr' ⊢
      obtain rfl := mem_unique htr' htr
      refine ⟨_, key, getElem?_set_self hhome, hid, ?_⟩
      rcases hopens.opens with ⟨-, hcalls, -⟩ | ⟨-, -, hinsert, -⟩
      · exact hcalls ▸ hlook
      have hkey : key ≠ tr'.nextId := by
        rintro rfl
        exact h.nextId_notMem htr (AList.lookup_isSome.mp (by simp [hlook]))
      rw [hinsert]
      exact (AList.lookup_insert_ne hkey).trans hlook
    · exact ⟨tr', key, (getElem?_set_ne hsame).trans htr', hid, hlook⟩
  · intro c' ch' hget hclos
    rcases hchans hget with ⟨rfl, rfl⟩ | ⟨-, hget⟩
    · rw [hopens.closeEvents]
      exact h.notified hch (hopens.closed ▸ hclos)
    · exact h.notified hget hclos
  · intro t tr' htr' key hkey
    rcases htrs htr' with ⟨rfl, rfl⟩ | ⟨-, htr'⟩
    · rw [hopens.channelSeed]
      rcases hopens.opens with ⟨-, hcalls, hlast⟩ | ⟨-, -, hinsert, hlast⟩
      · rw [hlast]
        exact h.ids htr key (hcalls ▸ hkey)
      rw [hlast]
      rw [hinsert] at hkey
      rcases (AList.mem_insert _).mp hkey with rfl | hkey
      · exact ⟨tr.lastChannel, Nat.lt_succ_self _, rfl⟩
      · obtain ⟨n, hn, heq⟩ := h.ids htr key hkey
        exact ⟨n, Nat.lt_succ_of_lt hn, heq⟩
    · exact h.ids htr' key hkey
  · intro t tr' htr' hgone c' ch' hget hown hclos
    rcases hchans hget with ⟨rfl, rfl⟩ | ⟨-, hget⟩
    · exact hopens.transport
    · rcases htrs htr' with ⟨rfl, rfl⟩ | ⟨-, htr'⟩
      · exact h.gone htr (hopens.broadcast.symm.trans hgone) c' ch' hget hown hclos
      · exact h.gone htr' hgone c' ch' hget hown hclos
  intro t tr' htr' hret
  have hall : tr'.broadcast ∧ ∀ (c : Nat) (ch : Channel), s.channels[c]? = some ch →
      ch.home = t → ch.closed.isSome := by
    rcases htrs htr' with ⟨rfl, rfl⟩ | ⟨-, htr'⟩
    · obtain ⟨hgone, hclos⟩ := h.returned htr (hopens.returned.symm.trans hret)
      exact ⟨hopens.broadcast.trans hgone, hclos⟩
    · exact h.returned htr' hret
  refine ⟨hall.1, fun c' ch' hget hown => ?_⟩
  rcases hchans hget with ⟨rfl, rfl⟩ | ⟨-, hget⟩
  · rw [hopens.closed]
    exact hall.2 c' ch hch (hopens.home.symm.trans hown)
  · exact hall.2 c' ch' hget hown

/-- No broadcast has a channel to visit that was not open before. -/
theorem opens_taskOk (huncal : ch.transport = false)
    (hopens : Channel.Opens c (ch, tr) (f (ch, tr))) {task : Task} (hok : TaskOk s task) :
    TaskOk (s.onChannel c f) task := by
  have hhome : ch.home < s.transports.length := (List.getElem?_eq_some_iff.mp htr).1
  have hlt : c < s.channels.length := (List.getElem?_eq_some_iff.mp hch).1
  rw [onChannel_eq hch htr]
  cases task with
  | broadcast t options keys =>
    obtain ⟨hcmd, ⟨old, hold, hgone⟩, hcovered⟩ := hok
    refine ⟨hcmd, ?_, ?_⟩
    · by_cases hsame : ch.home = t
      · subst hsame
        obtain rfl := mem_unique hold htr
        exact ⟨_, getElem?_set_self hhome, hopens.broadcast.trans hgone⟩
      · exact ⟨old, (getElem?_set_ne hsame).trans hold, hgone⟩
    intro c' ch' hget hown hclos
    rw [getElem?_set] at hget
    split at hget
    · rename_i heq
      subst heq
      obtain rfl := some.inj hget
      have htrans := h.gone hold hgone c ch hch (hopens.home.symm.trans hown)
        (hopens.closed.symm.trans hclos)
      exact nomatch (htrans.symm.trans huncal)
    · exact hcovered c' ch' hget hown hclos
  | _ => exact hok

end

end Opens

end Attached

/-! ## Steps -/

/-- `control` closes nothing. -/
theorem Channel.control_callbacks (x : Channel × Transport) (options : Option JsonObject) :
    (Channel.control x options).2.callbacks = x.2.callbacks := by
  unfold Channel.control
  dsimp only
  exact (queueControl_closed _ _).2.2

namespace Ending

open Attached

variable {s s' : State}

/-- Steps that leave the tables alone; what is new on the stack has to be in order. -/
theorem congr (h : Ending s) (hsame : SameTables s s')
    (htasks : ∀ task ∈ s'.stack, task ∈ s.stack ∨ TaskOk s' task) : Ending s' where
  attached := h.attached.congr hsame
  tasks task htask := by
    rcases htasks task htask with hold | hnew
    · exact (h.tasks task hold).shrinks (hsame.shrinks h.attached)
    · exact hnew

theorem sameTables_of_eq (hchans : s'.channels = s.channels)
    (htrs : s'.transports = s.transports) : SameTables s s' where
  channels := hchans
  stays {_ tr} htr := ⟨tr, htrs ▸ htr, ⟨rfl, rfl⟩, rfl⟩
  transports {_ tr'} htr' := .inl ⟨tr', htrs ▸ htr', ⟨rfl, rfl⟩, rfl, rfl, .inl rfl⟩

theorem sameTables_ensureDefault (s : State) : SameTables s s.ensureDefault := by
  unfold State.ensureDefault
  split
  · exact sameTables_of_eq rfl rfl
  refine ⟨rfl, ?_, ?_⟩
  · intro t tr htr
    have hlt := (List.getElem?_eq_some_iff.mp htr).1
    exact ⟨tr, (getElem?_append_left hlt).trans htr, ⟨rfl, rfl⟩, rfl⟩
  intro t tr' htr'
  have hget : (s.transports ++ [Transport.make s.socket])[t]? = some tr' := htr'
  rw [getElem?_append] at hget
  split at hget
  · exact .inl ⟨tr', hget, ⟨rfl, rfl⟩, rfl, rfl, .inl rfl⟩
  rw [getElem?_singleton] at hget
  split at hget
  · obtain rfl := some.inj hget
    exact .inr ⟨rfl, rfl, rfl⟩
  · exact nomatch hget

variable {t : Nat}

theorem onTransport (h : Ending s) {g : Transport → Transport}
    (hg : ∀ tr, s.transports[t]? = some tr → tr.Kept (g tr) ∧
      (g tr).callbacks = tr.callbacks ∧ (g tr).lastChannel = tr.lastChannel ∧
        ((g tr).channelSeed = tr.channelSeed ∨ tr.lastChannel = 0)) :
    Ending (s.onTransport t g) :=
  h.congr (sameTables_onTransport s hg) fun _ htask => .inl htask

theorem readyForChannels (h : Ending s) (t : Nat) : Ending (s.readyForChannels t) := by
  unfold State.readyForChannels
  split
  · exact h
  split
  · exact h
  have hready : Ending
      (s.onTransport t fun tr => { tr with ready := true, listeners := [] }) :=
    h.onTransport fun tr _ => ⟨⟨rfl, rfl⟩, rfl, rfl, .inl rfl⟩
  refine hready.congr (sameTables_of_eq rfl rfl) ?_
  intro task htask
  rcases mem_cons.mp htask with rfl | htask
  · exact .inr trivial
  · exact .inl htask

variable {task : Task}

theorem plain_taskOk (h : task.Plain) (s : State) : TaskOk s task := by
  cases task with
  | listeners t rest => trivial
  | close t options => exact h
  | startBroadcast t options | broadcast t options keys => exact h.elim
  | initialized t | forget => trivial

variable {stack : List Task}

/-- The stack loses a task, or its topmost task is exchanged for one that is in order. -/
theorem pop (h : Ending s) (hstack : s.stack = task :: stack) :
    Ending { s with stack } :=
  h.congr (sameTables_of_eq rfl rfl) fun _ htask =>
    .inl (hstack ▸ mem_cons_of_mem _ htask)

theorem push (h : Ending s) (htask : TaskOk s task) :
    Ending { s with stack := task :: s.stack } where
  attached := h.attached.congr (sameTables_of_eq rfl rfl)
  tasks task' htask' := by
    have hsame : SameTables s { s with stack := task :: s.stack } := sameTables_of_eq rfl rfl
    rcases mem_cons.mp htask' with rfl | htask'
    · exact htask.shrinks (hsame.shrinks h.attached)
    · exact (h.tasks task' htask').shrinks (hsame.shrinks h.attached)

variable {f : Channel × Transport → Channel × Transport}

theorem onChannel (h : Ending s) (c : Nat) (hf : ∀ {ch tr}, s.channels[c]? = some ch →
      s.transports[ch.home]? = some tr → Channel.Effect (ch, tr) (f (ch, tr)) ∧
        (ch.closed = none ∨ (f (ch, tr)).2.callbacks = tr.callbacks)) :
    Ending (s.onChannel c f) := by
  cases hch : s.channels[c]? with
  | none =>
    unfold State.onChannel
    rw [hch]
    exact h
  | some ch =>
    cases htr : s.transports[ch.home]? with
    | none =>
      unfold State.onChannel
      simp only [hch, htr]
      exact h
    | some tr =>
      obtain ⟨heff, hopen⟩ := hf hch htr
      refine ⟨h.attached.onChannel hch htr heff hopen, fun task htask => ?_⟩
      have hold : task ∈ s.stack := by
        rw [onChannel_eq hch htr] at htask
        exact htask
      exact (h.tasks task hold).shrinks (h.attached.shrinks_onChannel hch htr heff)

variable {c : Nat}

theorem calls (h : Ending s) (hcalling : Calling c s) (defaultHost : Option Json) :
    Ending (s.onChannel c (Channel.onTransport c defaultHost)) := by
  obtain ⟨ch, hch, huncal⟩ := hcalling.called
  obtain ⟨tr, htr⟩ : ∃ tr, s.transports[ch.home]? = some tr :=
    ⟨_, getElem?_eq_getElem (hcalling.homes hch)⟩
  have hopens := opens_onTransport c defaultHost (ch, tr)
  refine ⟨h.attached.opens hch htr hopens, fun task htask => ?_⟩
  have hold : task ∈ s.stack := by
    rw [onChannel_eq hch htr] at htask
    exact htask
  exact h.attached.opens_taskOk hch htr huncal hopens (h.tasks task hold)

/-- A seed may be set as long as no channel has an id. -/
def SeedOk (s : State) (t : Nat) (seed : String) : Prop :=
  ∀ tr, s.transports[t]? = some tr → tr.lastChannel = 0 ∨ tr.channelSeed = seed

theorem call_closed (hcall : Call f)
    {x : Channel × Transport} (hclos : x.1.closed.isSome) : f x = x := by
  cases hcall <;> exact if_pos hclos

theorem keeps : Keeps (fun s => Wired s ∧ Ending s) SeedOk where
  same h hchans htrs hstack hdefault :=
    ⟨Wired.keeps.same h.1 hchans htrs hstack hdefault,
      h.2.congr (sameTables_of_eq hchans htrs) fun _ htask => .inl (hstack ▸ htask)⟩
  quiet hg h := ⟨Wired.keeps.quiet hg h.1, h.2.onTransport fun tr _ =>
    ⟨⟨(hg tr).broadcast, (hg tr).returned⟩, (hg tr).callbacks, (hg tr).lastChannel,
      .inl (hg tr).channelSeed⟩⟩
  seed {s t seed} hseed h := by
    refine ⟨Wired.keeps.seed trivial h.1, h.2.onTransport fun tr htr => ?_⟩
    refine ⟨⟨rfl, rfl⟩, rfl, rfl, ?_⟩
    rcases hseed tr htr with hzero | hsame
    · exact .inr hzero
    · exact .inl hsame.symm
  listen htr hready hlsn h :=
    ⟨Wired.keeps.listen htr hready hlsn h.1,
      h.2.onTransport fun tr _ => ⟨⟨rfl, rfl⟩, rfl, rfl, .inl rfl⟩⟩
  ensureDefault {s} h := by
    refine ⟨h.1.ensureDefault, h.2.congr (sameTables_ensureDefault _) ?_⟩
    intro task htask
    unfold State.ensureDefault at htask
    split at htask <;> exact .inl htask
  ready t h := ⟨h.1.readyForChannels t, h.2.readyForChannels t⟩
  push htask h := ⟨Wired.keeps.push htask h.1, h.2.push (plain_taskOk htask _)⟩
  pop hstack htask h := ⟨Wired.keeps.pop hstack htask h.1, h.2.pop hstack⟩
  dropClose hstack h := ⟨Wired.keeps.dropClose hstack h.1, h.2.pop hstack⟩
  heard {s t listener rest stack} hstack hlsn h :=
    ⟨Wired.keeps.heard hstack hlsn h.1,
      (h.2.pop hstack).push (show TaskOk { s with stack } (.listeners t rest) from trivial)⟩
  start {s t options stack} hstack h := by
    refine ⟨Wired.keeps.start hstack h.1, ?_⟩
    have hcmd : TaskOk s (.close t options) :=
      h.2.tasks _ (hstack ▸ mem_cons_self ..)
    have hnext : Ending { s with stack := .startBroadcast t options :: stack } :=
      (h.2.pop hstack).push (show TaskOk { s with stack } (.startBroadcast t options)
        from hcmd)
    exact hnext.readyForChannels t
  call {s f} c hcall h := by
    refine ⟨Wired.keeps.call c hcall h.1, h.2.onChannel c fun {ch tr} _ _ => ?_⟩
    have heff : Channel.Effect (ch, tr) (f (ch, tr)) := by
      cases hcall with
      | send message => exact effect_send _ message
      | close options => exact effect_close _ options
    refine ⟨heff, ?_⟩
    cases hclos : ch.closed with
    | none => exact .inl rfl
    | some data =>
      have hsame := call_closed hcall (x := (ch, tr)) (by simp [hclos])
      exact .inr (by rw [hsame])
  deliver {s t c tr key f} htr hlook hdel h := by
    refine ⟨Wired.keeps.deliver htr hlook hdel h.1, h.2.onChannel c ?_⟩
    intro ch tr' hch _
    obtain ⟨old, hold, -, -, -, hclos⟩ := h.1.entries htr hlook
    obtain rfl := mem_unique hold hch
    refine ⟨?_, .inl hclos⟩
    cases hdel with
    | message => exact effect_onMessage _
    | control data => exact effect_onControl _ data

/-- A new channel on a transport that has not told its channels about a close. -/
theorem new_channel (h : Ending s) (options : JsonObject)
    (hthere : ∀ tr, s.transports[t]? = some tr → tr.broadcast = false) :
    Ending { s with channels := s.channels ++ [Channel.make options t] } := by
  -- a channel of the new state is the new one, or it was there before
  have hcases : ∀ {c : Nat} {ch : Channel}, (s.channels ++ [Channel.make options t])[c]? = some ch →
      s.channels[c]? = some ch ∨ ch = Channel.make options t := by
    intro c ch hget
    rw [getElem?_append] at hget
    split at hget
    · exact .inl hget
    rw [getElem?_singleton] at hget
    split at hget
    · exact .inr (some.inj hget).symm
    · exact nomatch hget
  have hnotGone : ∀ {t' tr}, s.transports[t']? = some tr →
      tr.broadcast → (Channel.make options t).home ≠ t' := by
    rintro t' tr htr hgone rfl
    exact absurd (hgone.symm.trans (hthere tr htr)) (by decide)
  refine ⟨⟨?_, ?_, h.attached.ids, ?_, ?_⟩, ?_⟩
  · intro c ch hget hclos htrans
    rcases hcases hget with hold | rfl
    · exact h.attached.registered hold hclos htrans
    · exact nomatch htrans
  · intro c ch hget hclos
    rcases hcases hget with hold | rfl
    · exact h.attached.notified hold hclos
    · exact nomatch hclos
  · intro t' tr htr hgone c ch hget hhome hclos
    rcases hcases hget with hold | rfl
    · exact h.attached.gone htr hgone c ch hold hhome hclos
    · exact absurd hhome (hnotGone htr hgone)
  · intro t' tr htr hret
    obtain ⟨hgone, hclos⟩ := h.attached.returned htr hret
    refine ⟨hgone, fun c ch hget hhome => ?_⟩
    rcases hcases hget with hold | rfl
    · exact hclos c ch hold hhome
    · exact absurd hhome (hnotGone htr hgone)
  intro task htask
  have hok := h.tasks task htask
  cases task with
  | broadcast t' options' keys =>
    obtain ⟨hcmd, ⟨tr, htr, hgone⟩, hcovered⟩ := hok
    refine ⟨hcmd, ⟨tr, htr, hgone⟩, fun c ch hget hhome hclos => ?_⟩
    rcases hcases hget with hold | rfl
    · exact hcovered c ch hold hhome hclos
    · exact absurd hhome (hnotGone htr hgone)
  | _ => exact hok

theorem createChannel (h : Ending s) (hwired : Wired s) (options : JsonObject)
    (hthere : ∀ t tr, s.defaultTransport = some t → s.transports[t]? = some tr →
      tr.broadcast = false) : Ending (s.createChannel options) := by
  have hdef : Ending s.ensureDefault := (keeps.ensureDefault ⟨hwired, h⟩).2
  unfold State.createChannel
  dsimp only
  split
  · exact hdef
  rename_i t ht
  have hnew : ∀ tr, s.ensureDefault.transports[t]? = some tr → tr.broadcast = false := by
    intro tr htr
    unfold State.ensureDefault at ht htr
    split at ht
    · rename_i hsome
      simp only [hsome] at htr
      exact hthere t tr ht htr
    rename_i hnone
    simp only [hnone] at htr
    obtain rfl : s.transports.length = t := some.inj ht
    rw [getElem?_append_right (Nat.le_refl _), Nat.sub_self] at htr
    obtain rfl := some.inj htr
    rfl
  have hchan := hdef.new_channel options hnew
  have hcalling := hwired.ensureDefault.calling_new options ht
  unfold State.whenReady
  split
  · exact hchan
  · split
    · exact hchan.calls hcalling _
    · exact hchan.onTransport fun tr _ => ⟨⟨rfl, rfl⟩, rfl, rfl, .inl rfl⟩

variable {options : JsonObject} {tr : Transport}

/-- A broadcast begins, and no open channel waits for its transport. -/
theorem startBroadcast (h : Ending s) (hstack : s.stack = .startBroadcast t options :: stack)
    (hwaits : ∀ (c : Nat) (ch : Channel), s.channels[c]? = some ch → ch.home = t →
      ch.closed = none → ch.transport) (htr : s.transports[t]? = some tr) :
    Ending ({ s with stack := .broadcast t options tr.callbacks.keys :: stack }.onTransport t
      fun tr => { tr with broadcast := true }) := by
  have hcmd : TaskOk s (.startBroadcast t options) :=
    h.tasks _ (hstack ▸ mem_cons_self ..)
  have hself : (s.onTransport t fun tr => { tr with broadcast := true }).transports[t]? =
      some { tr with broadcast := true } := by
    rw [onTransport_getElem?, if_pos rfl, htr]
    rfl
  refine ⟨⟨?_, h.attached.notified, ?_, ?_, ?_⟩, ?_⟩
  · intro c ch hch hclos htrans
    obtain ⟨tr', key, htr', hid, hlook⟩ := h.attached.registered hch hclos htrans
    show ∃ tr' key,
      (s.onTransport t fun tr => { tr with broadcast := true }).transports[ch.home]? = _ ∧ _
    rw [onTransport_getElem?, htr']
    split <;> exact ⟨_, key, rfl, hid, hlook⟩
  · intro t' tr' htr' key hkey
    obtain ⟨old, hold, ⟨-, rfl⟩ | ⟨-, rfl⟩⟩ := onTransport_cases htr'
    · exact h.attached.ids hold key hkey
    · exact h.attached.ids hold key hkey
  · intro t' tr' htr' hgone c ch hch hhome hclos
    obtain ⟨old, hold, ⟨rfl, rfl⟩ | ⟨-, rfl⟩⟩ := onTransport_cases htr'
    · exact hwaits c ch hch hhome hclos
    · exact h.attached.gone hold hgone c ch hch hhome hclos
  · intro t' tr' htr' hret
    obtain ⟨old, hold, ⟨rfl, rfl⟩ | ⟨-, rfl⟩⟩ := onTransport_cases htr'
    · exact ⟨rfl, (h.attached.returned hold hret).2⟩
    · exact h.attached.returned hold hret
  intro task htask
  rcases mem_cons.mp htask with rfl | htask
  · refine ⟨hcmd, ⟨_, hself, rfl⟩, fun c ch hch hhome hclos => ?_⟩
    obtain ⟨tr', key, htr', hid, hlook⟩ :=
      h.attached.registered hch hclos (hwaits c ch hch hhome hclos)
    rw [hhome] at htr'
    obtain rfl := mem_unique htr' htr
    exact ⟨key, AList.mem_keys.mp (AList.lookup_isSome.mp (by simp [hlook])), hid⟩
  have hok := h.tasks task (hstack ▸ mem_cons_of_mem _ htask)
  cases task with
  | broadcast t' options' keys =>
    obtain ⟨hcommand', ⟨old, hold, hgone⟩, hcovered⟩ := hok
    refine ⟨hcommand', ?_, hcovered⟩
    show ∃ tr' : Transport,
      (s.onTransport t fun tr => { tr with broadcast := true }).transports[t']? = _ ∧ _
    rw [onTransport_getElem?, hold]
    split
    · exact ⟨_, rfl, rfl⟩
    · exact ⟨_, rfl, hgone⟩
  | _ => exact hok

variable {key : String} {keys : List String}

/-- The broadcast passes over a key that is not in the table any more. -/
theorem skipKey (h : Ending s) (hstack : s.stack = .broadcast t options (key :: keys) :: stack)
    (habsent : ∀ tr, s.transports[t]? = some tr → tr.callbacks.lookup key = none) :
    Ending { s with stack := .broadcast t options keys :: stack } := by
  obtain ⟨hcmd, ⟨tr, htr, hgone⟩, hcovered⟩ :=
    h.tasks (.broadcast t options (key :: keys)) (hstack ▸ mem_cons_self ..)
  refine (h.pop hstack).push (show TaskOk { s with stack } (.broadcast t options keys) from ?_)
  refine ⟨hcmd, ⟨tr, htr, hgone⟩, fun c ch hch hhome hclos => ?_⟩
  obtain ⟨key', hkey', hid⟩ := hcovered c ch hch hhome hclos
  rcases mem_cons.mp hkey' with rfl | hrest
  · have htrans := h.attached.gone htr hgone c ch hch hhome hclos
    obtain ⟨tr', key, htr', hid', hlook⟩ := h.attached.registered hch hclos htrans
    obtain rfl := mem_unique hid hid'
    rw [hhome] at htr'
    exact nomatch (habsent tr' htr').symm.trans hlook
  · exact ⟨key', hrest, hid⟩

/-- The broadcast closes the channel of a key. -/
theorem closeKey (h : Ending s)
    (hstack : s.stack = .broadcast t options (key :: keys) :: stack) (hwired : Wired s)
    (htr : s.transports[t]? = some tr) (hlook : tr.callbacks.lookup key = some c) :
    Ending ({ s with stack := .broadcast t options keys :: stack }.onChannel c
      (Channel.onControl · options)) := by
  obtain ⟨ch, hch, hhome, hid, htrans, hopen⟩ := hwired.entries htr hlook
  obtain ⟨hcmd, hgone, hcovered⟩ :=
    h.tasks (.broadcast t options (key :: keys)) (hstack ▸ mem_cons_self ..)
  have htr' : s.transports[ch.home]? = some tr := hhome ▸ htr
  have hcloses : Channel.onControl (ch, tr) options = Channel.onClose (ch, tr) options :=
    if_pos hcmd
  have heff := effect_onControl (ch, tr) options
  have hpop : Ending { s with stack } := h.pop hstack
  have hdone : Ending ({ s with stack }.onChannel c (Channel.onControl · options)) :=
    hpop.onChannel c fun {ch' tr'} hch' _ => by
      obtain rfl := mem_unique hch' hch
      exact ⟨effect_onControl _ options, .inl hopen⟩
  -- the same state but for the task itself
  have hchans := onChannel_eq (s := { s with stack := .broadcast t options keys :: stack })
    hch htr' (Channel.onControl · options)
  have hchannels' := onChannel_eq (s := { s with stack }) hch htr' (Channel.onControl · options)
  rw [hchans]
  rw [hchannels'] at hdone
  refine hdone.push (show TaskOk _ (.broadcast t options keys) from ?_)
  have hshrinks := h.attached.shrinks_onChannel (f := (Channel.onControl · options)) hch htr' heff
  rw [onChannel_eq hch htr'] at hshrinks
  obtain ⟨old, hold, hgone⟩ := hgone
  obtain ⟨new, hnew, hkept⟩ := hshrinks.stays hold
  refine ⟨hcmd, ⟨new, hnew, hkept.broadcast.trans hgone⟩, fun c' ch' hget hown hclos => ?_⟩
  obtain ⟨old', hold', hshrink⟩ := hshrinks.channels hget
  obtain ⟨key', hkey', hid'⟩ := hcovered c' old' hold' (hshrink.home.symm.trans hown)
    (hshrink.closed hclos)
  rcases mem_cons.mp hkey' with rfl | hrest
  · -- the channel of this key is the one that was closed
    have htrans' := h.attached.gone hold hgone c' old' hold'
      (hshrink.home.symm.trans hown) (hshrink.closed hclos)
    obtain ⟨trOwn, keyOwn, htrOwn, hidOwn, hlookupOwn⟩ :=
      h.attached.registered hold' (hshrink.closed hclos) htrans'
    obtain rfl := mem_unique hid' hidOwn
    rw [hshrink.home.symm.trans hown] at htrOwn
    obtain rfl := mem_unique htrOwn htr
    obtain rfl := some.inj (hlookupOwn.symm.trans hlook)
    have hself : ch' = (Channel.onControl (ch, trOwn) options).1 := by
      have hlt := (List.getElem?_eq_some_iff.mp hch).1
      exact (some.inj ((getElem?_set_self hlt).symm.trans hget)).symm
    rw [hself, hcloses] at hclos
    exact nomatch hclos
  · exact ⟨key', hrest, hshrink.id.trans hid'⟩

/-- A broadcast that has visited all keys leaves no open channel behind. -/
theorem endBroadcast (h : Ending s) (hstack : s.stack = .broadcast t options [] :: stack) :
    Ending ({ s with stack }.onTransport t fun tr => { tr with returned := true }) := by
  obtain ⟨-, ⟨old, hold, hgone⟩, hcovered⟩ :=
    h.tasks (.broadcast t options []) (hstack ▸ mem_cons_self ..)
  have hall : ∀ (c : Nat) (ch : Channel), s.channels[c]? = some ch → ch.home = t →
      ch.closed.isSome := by
    intro c ch hch hhome
    rw [isSome_iff_ne_none]
    intro hopen
    obtain ⟨key, hkey, -⟩ := hcovered c ch hch hhome hopen
    exact nomatch hkey
  have hpop : Ending { s with stack } := h.pop hstack
  refine ⟨⟨?_, hpop.attached.notified, ?_, ?_, ?_⟩, ?_⟩
  · intro c ch hch hclos htrans
    obtain ⟨tr', key, htr', hid, hlook⟩ := h.attached.registered hch hclos htrans
    show ∃ tr' key,
      (s.onTransport t fun tr => { tr with returned := true }).transports[ch.home]? = _ ∧ _
    rw [onTransport_getElem?, htr']
    split <;> exact ⟨_, key, rfl, hid, hlook⟩
  · intro t' tr' htr' key hkey
    obtain ⟨tr, htr, ⟨-, rfl⟩ | ⟨-, rfl⟩⟩ := onTransport_cases htr'
    · exact h.attached.ids htr key hkey
    · exact h.attached.ids htr key hkey
  · intro t' tr' htr' hgone'
    obtain ⟨tr, htr, ⟨-, rfl⟩ | ⟨-, rfl⟩⟩ := onTransport_cases htr'
    · exact h.attached.gone htr hgone'
    · exact h.attached.gone htr hgone'
  · intro t' tr' htr' hret
    obtain ⟨tr, htr, ⟨rfl, rfl⟩ | ⟨-, rfl⟩⟩ := onTransport_cases htr'
    · have hget : s.transports[t]? = some tr := htr
      obtain rfl := mem_unique hold hget
      exact ⟨hgone, hall⟩
    · exact h.attached.returned htr hret
  intro task htask
  have hok := hpop.tasks task htask
  cases task with
  | broadcast t' options' keys =>
    obtain ⟨hcommand', ⟨tr, htr, hgone'⟩, hcovered'⟩ := hok
    refine ⟨hcommand', ?_, hcovered'⟩
    have htr' : s.transports[t']? = some tr := htr
    show ∃ tr' : Transport,
      (s.onTransport t fun tr => { tr with returned := true }).transports[t']? = _ ∧ _
    rw [onTransport_getElem?, htr']
    split <;> exact ⟨_, rfl, hgone'⟩
  | _ => exact hok

end Ending

/-! ## Whole runs -/

/-- Once `Transport.close` has returned from its broadcast, the transport leads to no channel,
    and every channel that was made for it has had its `close` event. -/
def NothingDangles (s : State) : Prop :=
  ∀ (t : Nat) (tr : Transport), s.transports[t]? = some tr → tr.returned →
    (∀ key, tr.callbacks.lookup key = none) ∧
      ∀ (c : Nat) (ch : Channel), s.channels[c]? = some ch → ch.home = t → ch.closeEvents ≠ []

/-- No channel is made on a transport that has begun to tell its channels about a close, no
    broadcast begins while a channel waits for its turn in the handlers of `ready`, and no
    `init` changes the seed once a channel has an id. -/
def Disconnects (s : State) : Event → Prop
  | .create _ => ∀ (t : Nat) (tr : Transport), s.defaultTransport = some t →
    s.transports[t]? = some tr → tr.broadcast = false
  | .receivedControl t data => hasCommand data "init" → ∀ seed,
    processInit.channelSeed data = some seed →
      ∀ tr : Transport, s.transports[t]? = some tr → tr.lastChannel = 0 ∨ tr.channelSeed = seed
  | .resume => ∀ (t : Nat) (options : JsonObject) (stack : List Task),
    s.stack = .startBroadcast t options :: stack → ∀ (c : Nat) (ch : Channel),
      s.channels[c]? = some ch → ch.home = t → ch.closed = none → ch.transport
  | _ => True

/-- Every admitted step keeps channels attached to their transports. -/
theorem Ending.step {s : State} {e : Event} (h : Wired s ∧ Ending s) (hok : Disconnects s e) :
    Wired (Page.step s e) ∧ Ending (Page.step s e) := by
  refine Ending.keeps.step ?_ ?_ ?_ ?_ h
  · rintro t data seed rfl hinit hseed tr htr
    obtain ⟨old, hold, ⟨-, rfl⟩ | ⟨hne, -⟩⟩ := onTransport_cases htr
    · exact hok hinit seed hseed old hold
    · exact absurd rfl hne
  · rintro options rfl
    exact ⟨h.1.createChannel options, h.2.createChannel h.1 options hok⟩
  · rintro c options rfl
    refine ⟨h.1.onChannel c fun x => effect_control x options,
      h.2.onChannel c fun {ch tr} _ _ => ⟨effect_control _ options, .inr ?_⟩⟩
    exact control_callbacks (ch, tr) options
  rintro task stack rfl hstack hspec
  refine ⟨h.1.step .resume, ?_⟩
  unfold State.resume
  rw [hstack]
  cases task with
  | listeners t rest =>
    cases rest with
    | nil => exact hspec.elim
    | cons listener rest =>
      cases listener with
      | channel c =>
        have hnext : Ending { s with stack := .listeners t rest :: stack } :=
          (h.2.pop hstack).push (show TaskOk { s with stack } (.listeners t rest) from trivial)
        exact hnext.calls (h.1.calling_next hstack) s.defaultHost
      | control data | callback => exact hspec.elim
  | startBroadcast t options =>
    dsimp only
    split
    · exact h.2.pop hstack
    · rename_i tr htr
      exact h.2.startBroadcast hstack (hok t options stack hstack) htr
  | broadcast t options keys =>
    cases keys with
    | nil => exact h.2.endBroadcast hstack
    | cons key keys =>
      dsimp only
      split
      · rename_i hnone
        exact h.2.skipKey hstack fun tr htr => nomatch hnone.symm.trans htr
      rename_i tr htr
      split
      · rename_i habsent
        refine h.2.skipKey hstack fun tr' htr' => ?_
        obtain rfl := mem_unique htr' htr
        exact habsent
      · rename_i c hlook
        exact h.2.closeKey hstack h.1 htr hlook
  | close t options | initialized t | forget => exact hspec.elim

theorem Ending.new (socket : Socket) : Ending { socket } where
  attached := ⟨fun hch => (nomatch hch), fun hch => (nomatch hch), fun htr => (nomatch htr),
    fun htr => (nomatch htr), fun htr => (nomatch htr)⟩
  tasks _ htask := nomatch htask

theorem Ending.nothingDangles {s : State} (h : Ending s) (hwired : Wired s) :
    NothingDangles s := by
  intro t tr htr hret
  obtain ⟨-, hclos⟩ := h.attached.returned htr hret
  refine ⟨fun key => ?_, fun c ch hch hhome => ?_⟩
  · cases hlook : tr.callbacks.lookup key with
    | none => rfl
    | some c =>
      obtain ⟨ch, hch, hhome, -, -, hopen⟩ := hwired.entries htr hlook
      have hsome := hclos c ch hch hhome
      rw [hopen] at hsome
      exact nomatch hsome
  · exact h.attached.notified hch (hclos c ch hch hhome)

/-- **No channel dangles.**  In a run in which channels are only made on transports that have not
    begun to tell theirs about a close, every channel of a transport has had its `close` event
    by the time that `Transport.close` returns. -/
theorem run_nothing_dangles (socket : Socket) {es : List Event}
    (hok : RunOk step Disconnects { socket } es) : NothingDangles (run step { socket } es) := by
  have h := run_invariant (fun s => Wired s ∧ Ending s) (fun _ _ h => Ending.step h)
    ⟨.new socket, .new socket⟩ hok
  exact h.2.nothingDangles h.1

/-- A step on a state without open channels that wait begins no broadcast too early. -/
theorem disconnects_resume {s : State}
    (h : (s.stack.all fun task => match task with | .startBroadcast _ _ => false | _ => true) ∨
      s.channels.all fun ch => ch.closed.isSome || ch.transport) : Disconnects s .resume := by
  intro t options stack hstack c ch hch _ hclos
  rcases h with hcalm | hcalled
  · have hfalse := all_eq_true.mp hcalm (.startBroadcast t options)
      (hstack ▸ mem_cons_self ..)
    exact nomatch hfalse
  · have hmem := all_eq_true.mp hcalled ch (mem_of_getElem? hch)
    simpa [hclos] using hmem

/-- Two channels wait for the `init` of the server, one of them is closed, and then the socket
    goes away. -/
def lostSocket : List Event :=
  [.create [], .create [], .receivedControl 0 [("command", .string "init"), ("version", .int 1)],
    .resume, .resume, .resume, .resume, .close 1 .none, .socketClosed 0, .resume, .resume,
    .resume, .resume]

theorem run_nothing_dangles_lost_socket :
    ((run step { socket := .own } lostSocket).transports[0]?.map (·.returned) = some true) ∧
      NothingDangles (run step { socket := .own } lostSocket) := by
  refine ⟨by decide, run_nothing_dangles .own ?_⟩
  have hinit : ∀ tr : Transport, (run step { socket := .own }
      [.create [], .create []]).transports[0]? = some tr → tr.lastChannel = 0 := by
    intro tr htr
    obtain rfl := some.inj htr
    rfl
  refine ⟨fun _ _ ht => (nomatch ht), ?_, fun _ _ _ tr htr => .inl (hinit tr htr), ?_⟩
  · intro t tr ht htr
    obtain rfl := some.inj ht
    obtain rfl := some.inj htr
    rfl
  have hcalled : ∀ n ∈ [6, 9, 10, 11, 12],
      (run step { socket := .own } (lostSocket.take n)).channels.all
        fun ch => ch.closed.isSome || ch.transport := by decide
  have hcalm : ∀ n ∈ [3, 4, 5], (run step { socket := .own } (lostSocket.take n)).stack.all
        fun task => match task with | .startBroadcast _ _ => false | _ => true := by
    decide
  exact ⟨disconnects_resume (.inl (hcalm 3 (by decide))),
    disconnects_resume (.inl (hcalm 4 (by decide))),
    disconnects_resume (.inl (hcalm 5 (by decide))),
    disconnects_resume (.inr (hcalled 6 (by decide))), trivial, trivial,
    disconnects_resume (.inr (hcalled 9 (by decide))),
    disconnects_resume (.inr (hcalled 10 (by decide))),
    disconnects_resume (.inr (hcalled 11 (by decide))),
    disconnects_resume (.inr (hcalled 12 (by decide))), trivial⟩

/-- The socket goes away, and then a channel is made. -/
def afterwards : List Event :=
  [.wait, .receivedControl 0 [("command", .string "init"), ("version", .int 1)], .resume,
    .resume, .resume, .socketClosed 0, .resume, .resume, .resume, .create []]

/-- A channel that is made on the closed transport is registered, and nothing will close it. -/
theorem not_nothing_dangles_afterwards :
    ¬ NothingDangles (run step { socket := .own } afterwards) := by
  intro h
  have hrun : (run step { socket := .own } afterwards).transports[0]?.map
      (fun tr => (tr.returned, tr.callbacks.lookup "1")) = some (true, some 0) := by
    decide
  obtain ⟨tr, htr, hpair⟩ := map_eq_some_iff.mp hrun
  have hnone := (h 0 tr htr (congrArg Prod.fst hpair)).1 "1"
  exact nomatch hnone.symm.trans (congrArg Prod.snd hpair)

end Cockpit.Page
