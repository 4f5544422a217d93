import Cockpit.Base1.ChannelsWired

namespace Cockpit.Page

open List Option Channel State

/-!
# The tables of the transports lead to open channels

* `Calling` — the same in the middle of a call, when one channel no longer waits;
* `Wired.keeps`, `Wired.step` — every step keeps it, whatever the application does.
-/

/-- The tables and the queues of waiting channels. -/
structure Wired (s : State) : Prop where
  homes : ∀ {c : Nat} {ch : Channel}, s.channels[c]? = some ch → ch.home < s.transports.length
  entries : ∀ {t : Nat} {tr : Transport} {key : String} {c : Nat}, s.transports[t]? = some tr →
    tr.callbacks.lookup key = some c →
    ∃ ch : Channel, s.channels[c]? = some ch ∧ ch.home = t ∧ ch.id = some key ∧ ch.transport ∧
      ch.closed = none
  waiting : ∀ c, c ∈ s.waiting ↔ ∃ ch : Channel, s.channels[c]? = some ch ∧ ch.transport = false
  nodup : s.waiting.Nodup
  default : ∀ {t : Nat}, s.defaultTransport = some t → t < s.transports.length

/-- The channel `c` has left the queue, and its callback is about to run. -/
structure Calling (c : Nat) (s : State) : Prop where
  homes : ∀ {c : Nat} {ch : Channel}, s.channels[c]? = some ch → ch.home < s.transports.length
  entries : ∀ {t : Nat} {tr : Transport} {key : String} {c : Nat}, s.transports[t]? = some tr →
    tr.callbacks.lookup key = some c →
    ∃ ch : Channel, s.channels[c]? = some ch ∧ ch.home = t ∧ ch.id = some key ∧ ch.transport ∧
      ch.closed = none
  waiting : ∀ c', c' ∈ s.waiting ↔
    c' ≠ c ∧ ∃ ch : Channel, s.channels[c']? = some ch ∧ ch.transport = false
  nodup : s.waiting.Nodup
  default : ∀ {t : Nat}, s.defaultTransport = some t → t < s.transports.length
  called : ∃ ch : Channel, s.channels[c]? = some ch ∧ ch.transport = false

namespace Wired

variable {s s' : State}

/-- Only the channels, the tables and the queues matter. -/
theorem congr (h : Wired s) (hchans : s'.channels = s.channels)
    (hlen : s.transports.length ≤ s'.transports.length)
    (htables : ∀ {t : Nat} {tr' : Transport}, s'.transports[t]? = some tr' → tr'.callbacks = ∅ ∨
      ∃ tr, s.transports[t]? = some tr ∧ tr'.callbacks = tr.callbacks)
    (hwait : s'.waiting.Perm s.waiting)
    (hdef : ∀ {t : Nat}, s'.defaultTransport = some t → s.defaultTransport = some t ∨
      t < s'.transports.length) : Wired s' where
  homes hch := by
    rw [hchans] at hch
    exact lt_of_lt_of_le (h.homes hch) hlen
  entries htr hlookup := by
    rw [hchans]
    rcases htables htr with hempty | ⟨tr, hold, hsame⟩
    · rw [hempty, AList.lookup_empty] at hlookup
      exact nomatch hlookup
    · exact h.entries hold (hsame ▸ hlookup)
  waiting c := by
    rw [hwait.mem_iff, hchans]
    exact h.waiting c
  nodup := hwait.nodup_iff.mpr h.nodup
  default ht := by
    rcases hdef ht with hold | hlt
    · exact lt_of_lt_of_le (h.default hold) hlen
    · exact hlt

theorem stack (h : Wired s) (hchans : s'.channels = s.channels)
    (htrs : s'.transports = s.transports)
    (hwait : (s'.stack.flatMap Task.waiting).Perm (s.stack.flatMap Task.waiting))
    (hdef : s'.defaultTransport = s.defaultTransport ∨ s'.defaultTransport = none) :
    Wired s' := by
  refine h.congr hchans (le_of_eq (congrArg List.length htrs.symm)) ?_ ?_ ?_
  · intro t tr' htr
    exact .inr ⟨tr', htrs ▸ htr, rfl⟩
  · unfold State.waiting
    rw [htrs]
    exact hwait.append_left _
  intro t ht
  rcases hdef with hsame | hnone
  · exact .inl (hsame ▸ ht)
  · rw [hnone] at ht
    exact nomatch ht

theorem onTransport (h : Wired s) {t : Nat} {g : Transport → Transport}
    (hcalls : ∀ tr, (g tr).callbacks = tr.callbacks)
    (hlisteners : ∀ tr, (g tr).waiting = tr.waiting) : Wired (s.onTransport t g) := by
  refine h.congr rfl (le_of_eq (length_modify _ _ _).symm) ?_
    (waiting_onTransport fun tr _ => hlisteners tr) .inl
  intro t' tr' htr
  obtain ⟨tr, hold, ⟨-, rfl⟩ | ⟨-, rfl⟩⟩ := onTransport_cases htr
  · exact .inr ⟨tr, hold, hcalls tr⟩
  · exact .inr ⟨tr', hold, rfl⟩

theorem readyForChannels (h : Wired s) (t : Nat) : Wired (s.readyForChannels t) := by
  have hperm := s.waiting_readyForChannels t
  unfold State.readyForChannels at hperm ⊢
  split
  · exact h
  rename_i tr htr
  simp only [htr] at hperm
  split
  · exact h
  rename_i hready
  rw [if_neg hready] at hperm
  refine h.congr rfl (le_of_eq (length_modify _ _ _).symm) ?_ hperm .inl
  intro t' tr' htr'
  obtain ⟨old, hold, ⟨-, rfl⟩ | ⟨-, rfl⟩⟩ := onTransport_cases htr'
  · exact .inr ⟨old, hold, rfl⟩
  · exact .inr ⟨tr', hold, rfl⟩

/-- Functions of a channel change its entry along with the channel. -/
theorem onChannel (h : Wired s) (c : Nat) {f : Channel × Transport → Channel × Transport}
    (hf : ∀ x, Channel.Effect x (f x)) : Wired (s.onChannel c f) := by
  have hperm := waiting_onChannel (s := s) (c := c) fun x => (hf x).listeners
  unfold State.onChannel at hperm ⊢
  split
  · exact h
  rename_i ch hch
  simp only [hch] at hperm
  split
  · exact h
  rename_i tr htr
  simp only [htr] at hperm
  have hlt : c < s.channels.length := (List.getElem?_eq_some_iff.mp hch).1
  have hhome : ch.home < s.transports.length := h.homes hch
  have heff := hf (ch, tr)
  -- a channel of the new state is an old one, at its old place
  have hold : ∀ {c' : Nat} {ch' : Channel}, (s.channels.set c (f (ch, tr)).1)[c']? = some ch' →
      ∃ old, s.channels[c']? = some old ∧ ch'.home = old.home ∧
        ch'.transport = old.transport := by
    intro c' ch' hget
    rw [getElem?_set] at hget
    split at hget
    · rename_i heq
      subst heq
      obtain rfl := some.inj hget
      exact ⟨ch, hch, heff.home, heff.transport⟩
    · exact ⟨ch', hget, rfl, rfl⟩
  refine ⟨?_, ?_, ?_, hperm.nodup_iff.mpr h.nodup, fun ht => ?_⟩
  · intro c' ch' hget
    obtain ⟨old, hget', hsame, -⟩ := hold hget
    show ch'.home < (s.transports.set _ _).length
    rw [hsame, length_set]
    exact h.homes hget'
  · intro t tr' key c' htr' hlook
    show ∃ ch', (s.channels.set c (f (ch, tr)).1)[c']? = some ch' ∧ _
    rw [getElem?_set] at htr'
    split at htr'
    · rename_i heq
      subst heq
      obtain rfl := some.inj htr'
      -- the entry was there before, and it is not the one of a channel that was closed
      have hbef : tr.callbacks.lookup key = some c' ∧
          (c' = c → (f (ch, tr)).1.closed = ch.closed) := by
        rcases heff.closes with ⟨hclos, -, hsame⟩ | ⟨-, -, hsame⟩
        · rw [hsame] at hlook
          exact ⟨hlook, fun _ => hclos⟩
        rw [hsame] at hlook
        unfold unregistered at hlook
        split at hlook
        · rename_i id htrans hid
          have hne : key ≠ id := by
            rintro rfl
            rw [AList.lookup_erase] at hlook
            exact nomatch hlook
          rw [AList.lookup_erase_ne hne] at hlook
          refine ⟨hlook, ?_⟩
          rintro rfl
          obtain ⟨old, hget, -, hkey, -⟩ := h.entries htr hlook
          obtain rfl := mem_unique hget hch
          exact absurd (mem_unique hkey hid) hne
        rename_i hnot
        refine ⟨hlook, ?_⟩
        rintro rfl
        obtain ⟨old, hget, -, hkey, htrans, -⟩ := h.entries htr hlook
        obtain rfl := mem_unique hget hch
        exact absurd hkey (hnot key htrans)
      obtain ⟨old, hget, hhome', hkey, htrans, hclos⟩ := h.entries htr hbef.1
      by_cases hc : c' = c
      · subst hc
        obtain rfl := mem_unique hget hch
        exact ⟨_, getElem?_set_self hlt, heff.home, heff.id.trans hkey,
          heff.transport.trans htrans, (hbef.2 rfl).trans hclos⟩
      · exact ⟨old, (getElem?_set_ne (Ne.symm hc)).trans hget, hhome', hkey, htrans, hclos⟩
    rename_i hne
    obtain ⟨old, hget, hhome', hrest⟩ := h.entries htr' hlook
    have hc : c ≠ c' := by
      rintro rfl
      obtain rfl := mem_unique hget hch
      exact hne hhome'
    exact ⟨old, (getElem?_set_ne hc).trans hget, hhome', hrest⟩
  · intro c'
    rw [hperm.mem_iff, h.waiting c']
    constructor
    · rintro ⟨old, hget, htrans⟩
      by_cases hc : c' = c
      · subst hc
        obtain rfl := mem_unique hget hch
        exact ⟨_, getElem?_set_self hlt, heff.transport.trans htrans⟩
      · exact ⟨old, (getElem?_set_ne (Ne.symm hc)).trans hget, htrans⟩
    · rintro ⟨ch', hget, htrans⟩
      obtain ⟨old, hget', -, hsame⟩ := hold hget
      exact ⟨old, hget', hsame ▸ htrans⟩
  · show _ < (s.transports.set _ _).length
    rw [length_set]
    exact h.default ht

end Wired

namespace Calling

variable {s : State} {c : Nat}

/-- The callback of a channel opens it, and it no longer waits. -/
theorem onChannel (h : Calling c s) (defaultHost : Option Json) :
    Wired (s.onChannel c (Channel.onTransport c defaultHost)) := by
  obtain ⟨ch, hch, huncal⟩ := h.called
  have hhome : ch.home < s.transports.length := h.homes hch
  obtain ⟨tr, htr⟩ : ∃ tr, s.transports[ch.home]? = some tr :=
    ⟨_, getElem?_eq_getElem hhome⟩
  have hopens := opens_onTransport c defaultHost
  have hperm := waiting_onChannel (s := s) (c := c) fun x => (hopens x).listeners
  have hlt : c < s.channels.length := (List.getElem?_eq_some_iff.mp hch).1
  specialize hopens (ch, tr)
  unfold State.onChannel at hperm ⊢
  simp only [hch, htr] at hperm ⊢
  refine ⟨?_, ?_, ?_, hperm.nodup_iff.mpr h.nodup, fun ht => ?_⟩
  · intro c' ch' hget
    show ch'.home < (s.transports.set _ _).length
    rw [length_set]
    rw [getElem?_set] at hget
    split at hget
    · rename_i heq
      subst heq
      obtain rfl := some.inj hget
      rw [hopens.home]
      exact hhome
    · exact h.homes hget
  · intro t tr' key c' htr' hlook
    show ∃ ch', (s.channels.set c _)[c']? = some ch' ∧ _
    -- an entry that was there before belongs to another channel
    have hother : ∀ {tr key}, s.transports[t]? = some tr → tr.callbacks.lookup key = some c' →
        ∃ ch', (s.channels.set c (Channel.onTransport c defaultHost (ch, tr)).1)[c']? =
          some ch' ∧ ch'.home = t ∧ ch'.id = some key ∧ ch'.transport ∧
            ch'.closed = none := by
      intro tr key htr hlook
      obtain ⟨old, hget, hold, hkey, htrans, hclos⟩ := h.entries htr hlook
      have hc : c ≠ c' := by
        rintro rfl
        obtain rfl := mem_unique hget hch
        exact nomatch (htrans.symm.trans huncal)
      exact ⟨old, (getElem?_set_ne hc).trans hget, hold, hkey, htrans, hclos⟩
    rw [getElem?_set] at htr'
    split at htr'
    · rename_i heq
      subst heq
      obtain rfl := some.inj htr'
      rcases hopens.opens with ⟨-, hsame, -⟩ | ⟨hclos, hid, hinsert, -⟩
      · rw [hsame] at hlook
        exact hother htr hlook
      rw [hinsert] at hlook
      by_cases hkey : key = tr.nextId
      · subst hkey
        rw [AList.lookup_insert] at hlook
        obtain rfl := some.inj hlook
        exact ⟨_, getElem?_set_self hlt, hopens.home, hid, hopens.transport,
          hopens.closed.trans hclos⟩
      · rw [AList.lookup_insert_ne hkey] at hlook
        exact hother htr hlook
    rename_i hne
    obtain ⟨old, hget, hold, hrest⟩ := h.entries htr' hlook
    have hc : c ≠ c' := by
      rintro rfl
      obtain rfl := mem_unique hget hch
      exact hne hold
    exact ⟨old, (getElem?_set_ne hc).trans hget, hold, hrest⟩
  · intro c'
    rw [hperm.mem_iff, h.waiting c', getElem?_set]
    constructor
    · rintro ⟨hc, ch', hget, htrans⟩
      rw [if_neg (Ne.symm hc)]
      exact ⟨ch', hget, htrans⟩
    rintro ⟨ch', hget, htrans⟩
    split at hget
    · obtain rfl := some.inj hget
      exact nomatch (hopens.transport.symm.trans htrans)
    · rename_i hc
      exact ⟨Ne.symm hc, ch', hget, htrans⟩
  · show _ < (s.transports.set _ _).length
    rw [length_set]
    exact h.default ht

/-- The channel waits once more. -/
theorem wired (h : Calling c s) {s' : State} (hchans : s'.channels = s.channels)
    (hlen : s.transports.length ≤ s'.transports.length)
    (htables : ∀ {t : Nat} {tr' : Transport}, s'.transports[t]? = some tr' →
      ∃ tr, s.transports[t]? = some tr ∧ tr'.callbacks = tr.callbacks)
    (hwait : s'.waiting.Perm (c :: s.waiting))
    (hdef : s'.defaultTransport = s.defaultTransport) : Wired s' where
  homes hch := by
    rw [hchans] at hch
    exact lt_of_lt_of_le (h.homes hch) hlen
  entries htr hlookup := by
    obtain ⟨tr, hold, hsame⟩ := htables htr
    rw [hchans]
    exact h.entries hold (hsame ▸ hlookup)
  waiting c' := by
    rw [hwait.mem_iff, mem_cons, h.waiting c', hchans]
    constructor
    · rintro (rfl | ⟨-, hget⟩)
      · exact h.called
      · exact hget
    intro hget
    by_cases hc : c' = c
    · exact .inl hc
    · exact .inr ⟨hc, hget⟩
  nodup := by
    rw [hwait.nodup_iff, nodup_cons]
    exact ⟨fun hmem => ((h.waiting c).mp hmem).1 rfl, h.nodup⟩
  default ht := lt_of_lt_of_le (h.default (hdef ▸ ht)) hlen

end Calling

namespace Wired

variable {s : State}

theorem ensureDefault (h : Wired s) : Wired s.ensureDefault := by
  unfold State.ensureDefault
  split
  · exact h
  refine h.congr rfl ?_ ?_ ?_ ?_
  · show s.transports.length ≤ (s.transports ++ [Transport.make s.socket]).length
    rw [List.length_append]
    exact Nat.le_add_right _ _
  · intro t tr' htr
    show tr'.callbacks = ∅ ∨ _
    have htr' : (s.transports ++ [Transport.make s.socket])[t]? = some tr' := htr
    rw [getElem?_append] at htr'
    split at htr'
    · exact .inr ⟨tr', htr', rfl⟩
    rw [getElem?_singleton] at htr'
    split at htr'
    · obtain rfl := some.inj htr'
      exact .inl rfl
    · exact nomatch htr'
  · show ((s.transports ++ [Transport.make s.socket]).flatMap Transport.waiting ++ _).Perm _
    rw [flatMap_append]
    show ((_ ++ []) ++ _).Perm _
    rw [append_nil]
    exact .refl _
  intro t ht
  obtain rfl : s.transports.length = t := some.inj ht
  refine .inr ?_
  show s.transports.length < (s.transports ++ [Transport.make s.socket]).length
  rw [List.length_append]
  exact Nat.lt_succ_self _

theorem plain_waiting {task : Task} (h : task.Plain) : task.waiting = [] := by
  cases task with
  | listeners t rest =>
    have hrest : rest = [] := h
    subst hrest
    rfl
  | close t options | startBroadcast t options | broadcast t options keys | initialized t | forget =>
    rfl

/-- The functions of a page keep the tables. -/
theorem keeps : Keeps Wired fun _ _ _ => True where
  same h hchans htrs hstack hdefault :=
    h.stack hchans htrs (by rw [hstack]) hdefault
  quiet hg h := h.onTransport (fun tr => (hg tr).callbacks) fun tr => by
    unfold Transport.waiting
    rw [(hg tr).listeners]
  seed _ h := h.onTransport (fun _ => rfl) fun _ => rfl
  listen _ _ hlsn h := h.onTransport (fun _ => rfl) fun tr => by
    unfold Transport.waiting
    simp [hlsn]
  ensureDefault h := h.ensureDefault
  ready t h := h.readyForChannels t
  push htask h := h.stack rfl rfl (by simp [plain_waiting htask]) (.inl rfl)
  pop hstack htask h := h.stack rfl rfl (by simp [hstack, plain_waiting htask]) (.inl rfl)
  dropClose hstack h := h.stack rfl rfl (by simp [hstack, Task.waiting]) (.inl rfl)
  heard hstack hlsn h :=
    h.stack rfl rfl (by simp [hstack, Task.waiting, hlsn]) (.inl rfl)
  start {s t options stack} hstack h := by
    have hnext : Wired { s with stack := .startBroadcast t options :: stack } :=
      h.stack rfl rfl (by simp [hstack, Task.waiting]) (.inl rfl)
    exact hnext.readyForChannels t
  call c hcall h := by
    cases hcall with
    | send message => exact h.onChannel c fun x => effect_send x message
    | close options => exact h.onChannel c fun x => effect_close x options
  deliver _ _ hdel h := by
    cases hdel with
    | message => exact h.onChannel _ effect_onMessage
    | control data => exact h.onChannel _ fun x => effect_onControl x data

variable {t : Nat}

/-- A new channel, before its callback is passed on. -/
theorem calling_new (h : Wired s) (options : JsonObject) (ht : s.defaultTransport = some t) :
    Calling s.channels.length { s with channels := s.channels ++ [Channel.make options t] } where
  homes {c ch} hch := by
    have hch' : (s.channels ++ [Channel.make options t])[c]? = some ch := hch
    rw [getElem?_append] at hch'
    split at hch'
    · exact h.homes hch'
    rw [getElem?_singleton] at hch'
    split at hch'
    · obtain rfl := some.inj hch'
      exact h.default ht
    · exact nomatch hch'
  entries htr hlookup := by
    obtain ⟨ch, hch, hrest⟩ := h.entries htr hlookup
    have hlt := (List.getElem?_eq_some_iff.mp hch).1
    exact ⟨ch, (getElem?_append_left hlt).trans hch, hrest⟩
  waiting c := by
    have hsame : c ∈ ({ s with channels := s.channels ++ [Channel.make options t] } :
      State).waiting ↔ c ∈ s.waiting := Iff.rfl
    rw [hsame, h.waiting c]
    constructor
    · rintro ⟨ch, hch, htrans⟩
      have hlt := (List.getElem?_eq_some_iff.mp hch).1
      exact ⟨Nat.ne_of_lt hlt, ch, (getElem?_append_left hlt).trans hch, htrans⟩
    rintro ⟨hne, ch, hch, htrans⟩
    have hch' : (s.channels ++ [Channel.make options t])[c]? = some ch := hch
    rw [getElem?_append] at hch'
    split at hch'
    · exact ⟨ch, hch', htrans⟩
    rw [getElem?_singleton] at hch'
    split at hch'
    · omega
    · exact nomatch hch'
  nodup := h.nodup
  default ht := h.default ht
  called := ⟨Channel.make options t, by simp, rfl⟩

theorem whenReady {c : Nat} (h : Calling c s) (ht : t < s.transports.length) :
    Wired (s.whenReady t (.channel c)) := by
  obtain ⟨tr, htr⟩ : ∃ tr, s.transports[t]? = some tr := ⟨_, getElem?_eq_getElem ht⟩
  unfold State.whenReady
  rw [htr]
  dsimp only
  split
  · exact h.onChannel _
  refine h.wired rfl (le_of_eq (length_modify _ _ _).symm) ?_ ?_ rfl
  · intro t' tr' htr'
    obtain ⟨old, hold, ⟨-, rfl⟩ | ⟨-, rfl⟩⟩ := onTransport_cases htr'
    · exact ⟨old, hold, rfl⟩
    · exact ⟨tr', hold, rfl⟩
  have hperm := waiting_onTransport_perm htr
    fun tr => { tr with listeners := tr.listeners ++ [.channel c] }
  have hwait : Transport.waiting { tr with listeners := tr.listeners ++ [.channel c] } =
      tr.waiting ++ [c] := by
    unfold Transport.waiting
    rw [flatMap_append]
    rfl
  rw [hwait, append_assoc] at hperm
  exact (perm_append_left_iff _).mp hperm

theorem ensureDefault_default (s : State) :
    ∃ t, s.ensureDefault.defaultTransport = some t := by
  unfold State.ensureDefault
  cases ht : s.defaultTransport with
  | none => exact ⟨_, rfl⟩
  | some t => exact ⟨t, ht⟩

theorem createChannel (h : Wired s) (options : JsonObject) :
    Wired (s.createChannel options) := by
  obtain ⟨t, ht⟩ := ensureDefault_default s
  have hcalling := h.ensureDefault.calling_new options ht
  unfold State.createChannel
  dsimp only
  split
  · rename_i hnone
    exact nomatch ht.symm.trans hnone
  · rename_i t' ht'
    obtain rfl : t' = t := mem_unique ht' ht
    exact whenReady hcalling (h.ensureDefault.default ht)

/-- The callback of the first channel in the queue is about to run. -/
theorem calling_next (h : Wired s) {c : Nat} {rest : List Listener} {stack : List Task}
    (hstack : s.stack = .listeners t (.channel c :: rest) :: stack) :
    Calling c { s with stack := .listeners t rest :: stack } := by
  have hperm : s.waiting.Perm
      (c :: ({ s with stack := .listeners t rest :: stack } : State).waiting) := by
    unfold State.waiting
    rw [hstack]
    show (_ ++ (c :: (rest.flatMap Listener.waiting ++ _))).Perm _
    exact perm_middle
  have hnodup := hperm.nodup_iff.mp h.nodup
  rw [nodup_cons] at hnodup
  refine ⟨h.homes, h.entries, fun c' => ?_, hnodup.2, h.default, ?_⟩
  · have hmem : c' ∈ s.waiting ↔ _ := hperm.mem_iff
    rw [mem_cons, h.waiting c'] at hmem
    show _ ↔ c' ≠ c ∧ ∃ ch : Channel, s.channels[c']? = some ch ∧ ch.transport = false
    rw [hmem]
    constructor
    · intro h'
      refine ⟨?_, .inr h'⟩
      rintro rfl
      exact hnodup.1 h'
    · rintro ⟨hne, rfl | h'⟩
      · exact absurd rfl hne
      · exact h'
  · exact (h.waiting c).mp (hperm.mem_iff.mpr (mem_cons_self ..))

/-- Every step keeps the tables, whatever it is. -/
theorem step (h : Wired s) (e : Event) : Wired (Page.step s e) := by
  refine keeps.step (fun _ _ _ _ _ _ => trivial) (fun options _ => h.createChannel options)
    (fun c options _ => h.onChannel c fun x => effect_control x options) ?_ h
  intro task stack _ hstack hspec
  unfold State.resume
  rw [hstack]
  cases task with
  | listeners t rest =>
    cases rest with
    | nil => exact hspec.elim
    | cons listener rest =>
      cases listener with
      | channel c => exact (h.calling_next hstack).onChannel _
      | control data | callback => exact hspec.elim
  | startBroadcast t options =>
    have hpop : Wired { s with stack } :=
      h.stack rfl rfl (by simp [hstack, Task.waiting]) (.inl rfl)
    dsimp only
    split
    · exact hpop
    · refine Wired.onTransport ?_ (fun _ => rfl) fun _ => rfl
      exact h.stack rfl rfl (by simp [hstack, Task.waiting]) (.inl rfl)
  | broadcast t options keys =>
    cases keys with
    | nil =>
      have hpop : Wired { s with stack } :=
        h.stack rfl rfl (by simp [hstack, Task.waiting]) (.inl rfl)
      exact hpop.onTransport (fun _ => rfl) fun _ => rfl
    | cons key keys =>
      have hnext : Wired { s with stack := .broadcast t options keys :: stack } :=
        h.stack rfl rfl (by simp [hstack, Task.waiting]) (.inl rfl)
      dsimp only
      split
      · exact hnext
      · split
        · exact hnext
        · exact hnext.onChannel _ fun x => effect_onControl x options
  | close t options | initialized t | forget => exact hspec.elim

theorem new (socket : Socket) : Wired { socket } where
  homes hch := nomatch hch
  entries htr := nomatch htr
  waiting _ := ⟨fun hmem => (nomatch hmem), fun ⟨_, hch, _⟩ => nomatch hch⟩
  nodup := nodup_nil
  default ht := nomatch ht

end Wired

end Cockpit.Page
