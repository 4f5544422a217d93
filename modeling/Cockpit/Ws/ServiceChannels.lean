import Cockpit.Lib.Modify
import Cockpit.Ws.ServiceHistory
import Cockpit.WebSocket.Signals

namespace Cockpit.Ws.WebService

open Lib List Option AList Json
open WebSocket (Connection Later Onward Emitted DataType)

/-!
# Channels do not outlive their WebSocket

* `Tidy.closing` — the handlers of "closing" send the one "close" of each channel;
* `Tidy.onWebSocketMessage`, `Tidy.onWebSocketClose` — what messages and "close" must meet.
-/

/-- A live channel, `n` "close"s after its opening, in the tables of the service and of its
    socket. -/
structure Held (s : WebService) (i : Nat) (channel : String) (n : Nat) (socket : Socket) :
    Prop where
  mem : channel ∈ socket.channels
  byChannel : s.byChannel.lookup channel = some i
  others : ∀ (j : Nat) (other : Socket), s.sockets[j]? = some other → other.tracked →
    channel ∈ other.channels → j = i
  count : n = if socket.closingEmitted then 1 else 0
  handshake : socket.connection.handshakeDone
  sent : socket.closingEmitted → socket.connection.closeSent

/-- What a channel that is opened through a socket needs while the transport is open: the socket
    has not emitted "closing", and no other socket still has the channel in its table. -/
structure Fresh (s : WebService) (i : Nat) (socket : Socket) (channel : String) : Prop where
  before : socket.closingEmitted = false
  others : ∀ (j : Nat) (other : Socket), s.sockets[j]? = some other → other.tracked →
    channel ∈ other.channels → j = i

/-- An entry that is neither about a socket nor a "close" of the service. -/
structure Plain (e : Entry) : Prop where
  opened : ∀ i channel, e ≠ .opened i channel
  destroyed : ∀ i, e ≠ .destroyed i true
  closes : ∀ channel, closedBySide channel e = false → closes channel e = false

/-- The invariant of a run. -/
structure Tidy (s : WebService) : Prop where
  quiet : ∀ (i : Nat) (socket : Socket), s.sockets[i]? = some socket →
    socket.connection.pending = []
  stream : ∀ (i : Nat) (socket : Socket), s.sockets[i]? = some socket →
    socket.connection.ioStream
  standing : s.transportOpen → s.closing = false ∧ s.sentDone = false
  closed : ChannelsClosed s.log
  held : s.transportOpen → ∀ (i : Nat) (channel : String) (between : List Entry),
    Live s.log i channel between → ∃ socket, s.sockets[i]? = some socket ∧
      (socket.tracked → Held s i channel (between.countP (closes channel)) socket)

namespace Tidy

variable {S : Setup} {s : WebService}

/-! ## The transport closes -/

variable {s' : WebService}

/-- Without a transport nothing is asked of the channels. -/
theorem shut (h : Tidy s) (hsockets : s'.sockets = s.sockets)
    (hlog : s'.log = s.log) (hshut : s'.transportOpen = false) : Tidy s' where
  quiet i socket hget := h.quiet i socket (hsockets ▸ hget)
  stream i socket hget := h.stream i socket (hsockets ▸ hget)
  standing hopen := nomatch (hshut.symm.trans hopen)
  closed := hlog ▸ h.closed
  held hopen := nomatch (hshut.symm.trans hopen)

/-- States that agree in everything the invariant speaks of. -/
theorem same (h : Tidy s) (hsockets : s'.sockets = s.sockets)
    (htable : s'.byChannel = s.byChannel) (hclsg : s'.closing = s.closing)
    (hsent : s'.sentDone = s.sentDone) (hopens : s'.transportOpen = s.transportOpen)
    (hlog : s'.log = s.log) : Tidy s' where
  quiet i socket hget := h.quiet i socket (hsockets ▸ hget)
  stream i socket hget := h.stream i socket (hsockets ▸ hget)
  standing hopen := by
    rw [hclsg, hsent]
    exact h.standing (hopens ▸ hopen)
  closed := hlog ▸ h.closed
  held hopen i channel between hlive := by
    obtain ⟨socket, hget, hheld⟩ := h.held (hopens ▸ hopen) i channel between (hlog ▸ hlive)
    refine ⟨socket, hsockets.symm ▸ hget, fun htrack => ?_⟩
    obtain ⟨hmem, hby, hother, hcount, hdone, hsent⟩ := hheld htrack
    exact ⟨hmem, htable.symm ▸ hby, hsockets.symm ▸ hother, hcount, hdone, hsent⟩

/-! ## Connections -/

variable {i : Nat}

/-- The connection of a socket goes on. -/
theorem onConnection (h : Tidy s) {f : Connection → Connection}
    (hf : ∀ socket : Socket, s.sockets[i]? = some socket →
      Later socket.connection (f socket.connection) ∧ (f socket.connection).pending = []) :
    Tidy (s.onConnection i f) := { h with
  quiet j socket hget := by
    obtain ⟨old, hold, ⟨rfl, rfl⟩ | ⟨-, rfl⟩⟩ := modify_cases hget
    · exact (hf old hold).2
    · exact h.quiet j socket hold
  stream j socket hget := by
    obtain ⟨old, hold, ⟨rfl, rfl⟩ | ⟨-, rfl⟩⟩ := modify_cases hget
    · exact (hf old hold).1.ioStream (h.stream i old hold)
    · exact h.stream j socket hold
  held hopen j channel between hlive := by
    obtain ⟨socket, hget, hheld⟩ := h.held hopen j channel between hlive
    have hothers : (∀ k other, s.sockets[k]? = some other →
        other.tracked → channel ∈ other.channels → k = j) →
        ∀ k other, (s.onConnection i f).sockets[k]? = some other →
          other.tracked → channel ∈ other.channels → k = j := by
      intro hothers k other hother
      obtain ⟨old, hold, ⟨-, rfl⟩ | ⟨-, rfl⟩⟩ := modify_cases hother
      · exact hothers k old hold
      · exact hothers k other hold
    by_cases hij : i = j
    · subst hij
      refine ⟨{ socket with connection := f socket.connection }, ?_, fun htrack => ?_⟩
      · show (s.sockets.modify i _)[i]? = _
        rw [getElem?_modify_eq, hget]
        rfl
      · obtain ⟨hmem, hby, hother, hcount, hdone, hsent⟩ := hheld htrack
        exact ⟨hmem, hby, hothers hother, hcount, (hf socket hget).1.handshakeDone hdone,
          fun hclsg => (hf socket hget).1.closeSent (hsent hclsg)⟩
    · refine ⟨socket, (getElem?_modify_ne _ _ hij).trans hget, fun htrack => ?_⟩
      obtain ⟨hmem, hby, hother, hcount, hdone, hsent⟩ := hheld htrack
      exact ⟨hmem, hby, hothers hother, hcount, hdone, hsent⟩ }

/-- A message to a socket. -/
theorem sendTo (h : Tidy s) (i : Nat) (type : DataType) (pref message : Bytes) :
    Tidy (s.sendTo i type pref message) :=
  h.onConnection fun socket hget =>
    ⟨(socket.connection.onward_send type pref message).1.toLater,
      (socket.connection.onward_send type pref message).2.trans (h.quiet i socket hget)⟩

/-! ## Entries of the history -/

theorem plain_relay (i : Nat) (options : JsonObject) (payload : Bytes) :
    Plain (.control (.relay i) options payload) :=
  ⟨fun _ _ h => (nomatch h), fun _ h => (nomatch h), fun _ h => h⟩

theorem plain_data (channel : CStr) (payload : Bytes) : Plain (.data channel payload) :=
  ⟨fun _ _ h => (nomatch h), fun _ h => (nomatch h), fun _ _ => rfl⟩

theorem plain_closed (channel : String) : Plain (.closed channel) :=
  ⟨fun _ _ h => (nomatch h), fun _ h => (nomatch h), fun _ _ => rfl⟩

variable {e : Entry} {channel : String}

/-- What is live after a plain entry was live before it, with as many "close"s. -/
theorem live_of_plain (he : Plain e)
    {between : List Entry} (h : Live (s.log ++ [e]) i channel between) :
    closedBySide channel e = false ∧ ∃ since, Live s.log i channel since ∧
      between.countP (closes channel) = since.countP (closes channel) := by
  rcases h.snoc with ⟨-, rfl⟩ | ⟨since, rfl, hlive, hside⟩
  · exact absurd rfl (he.opened i channel)
  · refine ⟨hside, since, hlive, ?_⟩
    rw [countP_append, countP_singleton, he.closes channel hside]
    rfl

theorem record (h : Tidy s) (he : Plain e) : Tidy (s.record e) := { h with
  closed := channelsClosed_snoc h.closed fun i hi => absurd hi (he.destroyed i)
  held hopen i channel between hlive := by
    obtain ⟨-, since, hsince, hcount⟩ := live_of_plain he hlive
    obtain ⟨socket, hget, hheld⟩ := h.held hopen i channel since hsince
    refine ⟨socket, hget, fun htrack => ?_⟩
    obtain ⟨hmem, hby, hother, hn, hdone, hsent⟩ := hheld htrack
    exact ⟨hmem, hby, hother, hcount.trans hn, hdone, hsent⟩ }

theorem relay (h : Tidy s) (i : Nat) (options : JsonObject) (payload : Bytes) :
    Tidy (s.relay i options payload) := by
  unfold WebService.relay
  split
  · exact h
  · exact h.record (plain_relay i options payload)

/-- A channel is taken out of the tables with the entry that closes it. -/
theorem removeChannel (h : Tidy s) (i : Nat) (he : Plain e)
    (hside : closedBySide channel e) : Tidy ((s.removeChannel i channel).record e) := by
  have hquiet : ∀ (j : Nat) (socket : Socket),
      ((s.removeChannel i channel).record e).sockets[j]? = some socket →
      ∃ old, s.sockets[j]? = some old ∧ socket.connection = old.connection ∧
        socket.tracked = old.tracked ∧ ∀ other, other ∈ socket.channels →
          other ∈ old.channels := by
    intro j socket hget
    obtain ⟨old, hold, ⟨-, rfl⟩ | ⟨-, rfl⟩⟩ := modify_cases hget
    · exact ⟨old, hold, rfl, rfl, fun other hmem => (mem_erase.mp hmem).2⟩
    · exact ⟨socket, hold, rfl, rfl, fun _ hmem => hmem⟩
  refine ⟨fun j socket hget => ?_, fun j socket hget => ?_, h.standing,
    channelsClosed_snoc h.closed fun j hj => absurd hj (he.destroyed j),
    fun hopen j other between hlive => ?_⟩
  · obtain ⟨old, hold, hsame, -⟩ := hquiet j socket hget
    rw [hsame]
    exact h.quiet j old hold
  · obtain ⟨old, hold, hsame, -⟩ := hquiet j socket hget
    rw [hsame]
    exact h.stream j old hold
  obtain ⟨hnot, since, hsince, hcount⟩ := live_of_plain he hlive
  -- the channel itself is not live any more
  have hne : other ≠ channel := by
    rintro rfl
    exact nomatch (hside.symm.trans hnot)
  obtain ⟨socket, hget, hheld⟩ := h.held hopen j other since hsince
  have hothers : socket.tracked → ∀ k socket',
      ((s.removeChannel i channel).record e).sockets[k]? = some socket' →
        socket'.tracked → other ∈ socket'.channels → k = j := by
    intro htracked k socket' hget' htrack' hmem'
    obtain ⟨old, hold, -, htrack, hchans⟩ := hquiet k socket' hget'
    exact (hheld htracked).others k old hold (htrack.symm.trans htrack')
      (hchans other hmem')
  have hby : s.byChannel.lookup other = some j →
      (s.byChannel.erase channel).lookup other = some j := by
    intro hlook
    rw [lookup_erase_ne hne]
    exact hlook
  by_cases hij : i = j
  · subst hij
    refine ⟨{ socket with channels := socket.channels.erase channel }, ?_, fun htracked => ?_⟩
    · show (s.sockets.modify i _)[i]? = _
      rw [getElem?_modify_eq, hget]
      rfl
    · have hheld' := hheld htracked
      exact ⟨mem_erase.mpr ⟨hne, hheld'.mem⟩, hby hheld'.byChannel, hothers htracked,
        hcount.trans hheld'.count, hheld'.handshake, hheld'.sent⟩
  refine ⟨socket, (getElem?_modify_ne _ _ hij).trans hget, fun htracked => ?_⟩
  have hheld' := hheld htracked
  exact ⟨hheld'.mem, hby hheld'.byChannel, hothers htracked, hcount.trans hheld'.count,
    hheld'.handshake, hheld'.sent⟩

/-! ## "closing" and errors -/

variable {socket : Socket} {c : Connection}

/-- The handlers of "closing" and the close frame after them. -/
theorem closing (h : Tidy s) (hget : s.sockets[i]? = some socket)
    (htrack : socket.tracked) (hlater : Later socket.connection c) (hidle : c.pending = [])
    (hbef : socket.connection.closeSent = false)
    (hafter : socket.connection.handshakeDone → c.closeSent) :
    Tidy ((s.onWebSocketClosing S i socket).onConnection i fun _ => c) := by
  have hlog : ∃ es, ((s.onWebSocketClosing S i socket).onConnection i fun _ => c).log =
      s.log ++ es ∧ (∀ e ∈ es, (∀ j other, e ≠ .opened j other) ∧ ∀ j, e ≠ .destroyed j true) ∧
        (s.sentDone = false → es = socket.channels.keys.map (disconnected S)) := by
    unfold onWebSocketClosing
    dsimp only
    split
    · rename_i hsent
      exact ⟨[], (append_nil _).symm, fun e he => (nomatch he),
        fun hnot => nomatch (hnot.symm.trans hsent)⟩
    · refine ⟨_, rfl, fun e he => ?_, fun _ => rfl⟩
      obtain ⟨channel, -, rfl⟩ := mem_map.mp he
      exact ⟨fun _ _ hj => (nomatch hj), fun _ hj => (nomatch hj)⟩
  have hsockets : ((s.onWebSocketClosing S i socket).onConnection i fun _ => c).sockets =
      s.sockets.modify i fun socket =>
        { socket with closingEmitted := true, connection := c } := by
    unfold onWebSocketClosing
    dsimp only
    split <;> exact modify_modify_eq ..
  have hfields : ((s.onWebSocketClosing S i socket).onConnection i fun _ => c).closing =
      s.closing ∧ ((s.onWebSocketClosing S i socket).onConnection i fun _ => c).sentDone =
        s.sentDone ∧ ((s.onWebSocketClosing S i socket).onConnection i fun _ => c).transportOpen =
          s.transportOpen ∧ ((s.onWebSocketClosing S i socket).onConnection i fun _ =>
            c).byChannel = s.byChannel := by
    unfold onWebSocketClosing
    dsimp only
    split <;> exact ⟨rfl, rfl, rfl, rfl⟩
  generalize (s.onWebSocketClosing S i socket).onConnection i (fun _ => c) = s' at *
  obtain ⟨es, hlog, hes, hdone⟩ := hlog
  obtain ⟨hclsg, hsent, hopens, htable⟩ := hfields
  refine ⟨fun j other hother => ?_, fun j other hother => ?_, ?_, ?_, ?_⟩
  · rw [hsockets] at hother
    obtain ⟨old, hold, ⟨-, rfl⟩ | ⟨-, rfl⟩⟩ := modify_cases hother
    · exact hidle
    · exact h.quiet j other hold
  · rw [hsockets] at hother
    obtain ⟨old, hold, ⟨-, rfl⟩ | ⟨-, rfl⟩⟩ := modify_cases hother
    · exact hlater.ioStream (h.stream i socket hget)
    · exact h.stream j other hold
  · rw [hclsg, hsent, hopens]
    exact h.standing
  · rw [hlog]
    exact channelsClosed_append h.closed fun e he => (hes e he).2
  intro hopen j channel between hlive
  rw [hlog] at hlive
  rw [hopens] at hopen
  obtain ⟨since, rfl, hsince⟩ := hlive.append fun e he => (hes e he).1
  obtain ⟨socket', hget', hheld⟩ := h.held hopen j channel since hsince
  have hcount := hdone (h.standing hopen).2
  have hothers : socket'.tracked → ∀ k other,
      s'.sockets[k]? = some other → other.tracked → channel ∈ other.channels →
        k = j := by
    intro htrack k other hother htrack' hmem
    rw [hsockets] at hother
    obtain ⟨old, hold, ⟨-, rfl⟩ | ⟨-, rfl⟩⟩ := modify_cases hother
    · exact (hheld htrack).others k old hold htrack' hmem
    · exact (hheld htrack).others k other hold htrack' hmem
  by_cases hij : i = j
  · subst hij
    obtain rfl := mem_unique hget hget'
    refine ⟨{ socket with closingEmitted := true, connection := c }, ?_, fun _ => ?_⟩
    · rw [hsockets, getElem?_modify_eq, hget]
      rfl
    have hheld' := hheld htrack
    -- "closing" was not emitted before, or the close frame would have been sent
    have hfirst : socket.closingEmitted = false := by
      by_contra hclos
      rw [Bool.not_eq_false] at hclos
      exact absurd (hbef.symm.trans (hheld'.sent hclos)) Bool.false_ne_true
    refine ⟨hheld'.mem, htable ▸ hheld'.byChannel, hothers htrack, ?_,
      hlater.handshakeDone hheld'.handshake,
      fun _ => hafter hheld'.handshake⟩
    rw [countP_append, hcount, countP_disconnected, if_pos hheld'.mem, hheld'.count, hfirst]
    rfl
  refine ⟨socket', ?_, fun htrack' => ?_⟩
  · rw [hsockets, getElem?_modify_ne _ _ hij]
    exact hget'
  have hheld' := hheld htrack'
  -- the channels of another socket are not closed
  have hnot : channel ∉ socket.channels := fun hmem =>
    hij (hheld'.others i socket hget htrack hmem)
  refine ⟨hheld'.mem, htable ▸ hheld'.byChannel, hothers htrack', ?_, hheld'.handshake, hheld'.sent⟩
  rw [countP_append, hcount, countP_disconnected, if_neg hnot]
  exact hheld'.count

/-- The handlers of "closing" look at the channels of the socket, not at its connection. -/
theorem onWebSocketClosing_onConnection (s : WebService) (i : Nat) (socket : Socket)
    (c : Connection) (f : Connection → Connection) :
    ((s.onConnection i fun _ => c).onWebSocketClosing S i
      { socket with connection := c }).onConnection i f =
        (s.onWebSocketClosing S i socket).onConnection i fun _ => f c := by
  unfold onWebSocketClosing WebService.onConnection onSocket
  dsimp only
  split
  all_goals
    simp only [modify_modify_eq]
    rfl

theorem getElem?_onConnection (hget : s.sockets[i]? = some socket) (f : Connection → Connection) :
    (s.onConnection i f).sockets[i]? = some { socket with connection := f socket.connection } := by
  show (s.sockets.modify i _)[i]? = _
  rw [getElem?_modify_eq, hget]
  rfl

section

variable (h : Tidy s)

include h

/-- The second half of the function that emitted a signal, for a connection that went on from the
    one of the socket. -/
theorem settle (hget : s.sockets[i]? = some socket) (hlater : Later socket.connection c) (hemit : Emitted socket.connection c) :
    Tidy ((s.onConnection i fun _ => c).settle S i) := by
  have hget' := getElem?_onConnection hget fun _ => c
  have hconst : ∀ f,
      (s.onConnection i fun _ => c).onConnection i f = s.onConnection i fun _ => f c := by
    intro f
    unfold WebService.onConnection onSocket
    rw [modify_modify_eq]
    rfl
  have honly : ∀ {d}, Later c d → d.pending = [] →
      Tidy (s.onConnection i fun _ => d) := fun hd hidle => h.onConnection fun socket' hget' => by
    obtain rfl := mem_unique hget hget'
    exact ⟨hlater.trans hd, hidle⟩
  unfold WebService.settle
  rw [hget']
  dsimp only
  cases hemit with
  | nothing hidle =>
    rw [hidle]
    exact honly ⟨id, id, id⟩ hidle
  | closing code data hpend hunsnt _ =>
    rw [hpend]
    dsimp only
    obtain ⟨honward, hidle, hsent⟩ := WebSocket.Connection.onward_closingHandled
      { c with pending := [] } code data socket.tracked
    have hpast : Later c (({ c with pending := [] } : Connection).closingHandled code data
        socket.tracked) :=
      ⟨honward.closeSent, honward.handshakeDone, honward.ioStream⟩
    split
    · rename_i htrack
      have hbef : socket.connection.closeSent = false := by
        by_contra hclos
        rw [Bool.not_eq_false] at hclos
        exact absurd (hunsnt.symm.trans (hlater.closeSent hclos)) Bool.false_ne_true
      have hclsg : Tidy ((s.onWebSocketClosing S i socket).onConnection i fun _ =>
          ({ c with pending := [] } : Connection).closingHandled code data socket.tracked) :=
        h.closing hget htrack (hlater.trans hpast) hidle hbef fun hdone =>
          hsent htrack (hlater.handshakeDone hdone)
      rw [onWebSocketClosing_onConnection]
      exact hclsg
    · rw [hconst]
      exact honly hpast hidle
  | error err prejudice stop hpend _ =>
    rw [hpend]
    dsimp only
    obtain ⟨honward, hidle⟩ := WebSocket.Connection.onward_errorHandled
      { c with pending := [] } err prejudice stop
    rw [hconst]
    exact honly ⟨honward.closeSent, honward.handshakeDone, honward.ioStream⟩ hidle

theorem closeConnection (i : Nat) (code : UInt16) (data : String) :
    Tidy (s.closeConnection S i code data) := by
  unfold WebService.closeConnection
  cases hget : s.sockets[i]? with
  | none =>
    have hsame : (s.onConnection i (·.close code (some data.toUTF8.data.toList))) = s := by
      unfold WebService.onConnection onSocket
      rw [modify_eq_self (List.getElem?_eq_none_iff.mp hget)]
    rw [hsame]
    unfold WebService.settle
    rw [hget]
    exact h
  | some socket =>
    obtain ⟨honward, hemit⟩ := socket.connection.emits_close (h.quiet i socket hget) code
      (some data.toUTF8.data.toList)
    have hsame : (s.onConnection i (·.close code (some data.toUTF8.data.toList))) =
        s.onConnection i fun _ => socket.connection.close code (some data.toUTF8.data.toList) := by
      unfold WebService.onConnection onSocket
      congr 1
      apply ext_getElem?
      intro j
      rw [getElem?_modify, getElem?_modify]
      by_cases hij : i = j
      · subst hij
        rw [hget]
        rfl
      · simp only [if_neg hij]
    rw [hsame]
    exact h.settle hget honward.toLater hemit

theorem closeSockets (problem : Option String) :
    Tidy (s.closeSockets S problem) := by
  have hone : ∀ s i, Tidy s →
      Tidy (closeSocket S (problem.getD "terminated") s i) := by
    intro s i h
    unfold closeSocket
    split
    · exact h
    · split
      · exact h.closeConnection i 1001 _
      · exact h
  unfold WebService.closeSockets
  generalize List.range s.sockets.length = is
  induction is generalizing s with
  | nil => exact h
  | cons i is ih => exact ih (hone s i h)

theorem dispose : Tidy (s.dispose S) := by
  unfold WebService.dispose
  dsimp only
  apply closeSockets
  split
  · rename_i hsent
    refine h.shut rfl rfl ?_
    show s.transportOpen = false
    by_contra hopen
    rw [Bool.not_eq_false] at hopen
    exact absurd ((h.standing hopen).2.symm.trans hsent) Bool.false_ne_true
  · exact h.shut rfl rfl rfl

theorem inboundProtocolError (i : Nat) (problem : String) :
    Tidy (s.inboundProtocolError S i problem) := by
  unfold WebService.inboundProtocolError
  split
  · exact h
  · split
    · exact (h.sendTo i .text controlPrefix _).closeConnection i 1011 problem
    · exact h

/-! ## Opening a channel -/

theorem addChannel (hget : s.sockets[i]? = some socket) (hdone : socket.connection.handshakeDone)
    (hfree : s.byChannel.lookup channel = none)
    (hfresh : s.transportOpen → Fresh s i socket channel) (type : DataType) :
    Tidy (s.addChannel i channel type) := by
  have hold : ∀ {j socket'}, (s.addChannel i channel type).sockets[j]? = some socket' →
      ∃ old, s.sockets[j]? = some old ∧ socket'.connection = old.connection ∧
        socket'.tracked = old.tracked ∧ ∀ other, other ∈ socket'.channels →
          (j = i ∧ other = channel) ∨ other ∈ old.channels := by
    intro j socket' hget'
    obtain ⟨old, hold, ⟨rfl, rfl⟩ | ⟨-, rfl⟩⟩ := modify_cases hget'
    · refine ⟨old, hold, rfl, rfl, fun other hmem => ?_⟩
      rcases (mem_insert _).mp hmem with heq | hmem
      · exact .inl ⟨rfl, heq⟩
      · exact .inr hmem
    · exact ⟨socket', hold, rfl, rfl, fun _ hmem => .inr hmem⟩
  refine ⟨fun j socket' hget' => ?_, fun j socket' hget' => ?_, h.standing,
    channelsClosed_snoc h.closed fun j hj => (by cases hj), fun hopen j other between hlive => ?_⟩
  · obtain ⟨old, hget, hsame, -⟩ := hold hget'
    rw [hsame]
    exact h.quiet j old hget
  · obtain ⟨old, hget, hsame, -⟩ := hold hget'
    rw [hsame]
    exact h.stream j old hget
  have hi : (s.addChannel i channel type).sockets[i]? =
      some { socket with channels := socket.channels.insert channel type } := by
    show (s.sockets.modify i _)[i]? = _
    rw [getElem?_modify_eq, hget]
    rfl
  rcases hlive.snoc with ⟨rfl, heq⟩ | ⟨since, rfl, hsince, -⟩
  · -- the channel that is opened
    obtain ⟨rfl, rfl⟩ := Entry.opened.inj heq
    have hnew := hfresh hopen
    refine ⟨_, hi, fun _ => ⟨(mem_insert _).mpr (.inl rfl), lookup_insert _, ?_, ?_,
      hdone, fun hclsg => ?_⟩⟩
    · intro k socket' hget' htrack' hmem'
      obtain ⟨old, hget, -, htrack, hchans⟩ := hold hget'
      rcases hchans channel hmem' with ⟨hk, -⟩ | hmem
      · exact hk
      · exact hnew.others k old hget (htrack.symm.trans htrack') hmem
    · show (0 : Nat) = if socket.closingEmitted then 1 else 0
      rw [hnew.before]
      rfl
    · cases (hnew.before.symm.trans hclsg)
  -- a channel that was live before
  obtain ⟨socket', hget', hheld⟩ := h.held hopen j other since hsince
  have hkeep : ∀ {socket₂}, (s.addChannel i channel type).sockets[j]? =
      some socket₂ → socket'.tracked → socket'.closingEmitted =
        socket₂.closingEmitted → socket'.connection = socket₂.connection →
          (∀ other, other ∈ socket'.channels → other ∈ socket₂.channels) →
    Held (s.addChannel i channel type) j other
      ((since ++ [Entry.opened i channel]).countP (closes other)) socket₂ := by
    intro socket₂ _ htracked hemit hconn hchans
    obtain ⟨hmem, hby, hother, hcount, hdone, hsent⟩ := hheld htracked
    have hne : other ≠ channel := by
      rintro rfl
      cases hfree.symm.trans hby
    refine ⟨hchans other hmem, ?_, ?_, ?_, hconn ▸ hdone, ?_⟩
    · show (s.byChannel.insert channel i).lookup other = some j
      rw [lookup_insert_ne hne]
      exact hby
    · intro k socket' hget' htrack' hmem'
      obtain ⟨old, hget, -, htrack, hchans⟩ := hold hget'
      rcases hchans other hmem' with ⟨-, heq⟩ | hmem
      · exact absurd heq hne
      · exact hother k old hget (htrack.symm.trans htrack') hmem
    · rw [countP_append, hcount, hemit]
      rfl
    · rw [← hemit, ← hconn]
      exact hsent
  by_cases hij : i = j
  · subst hij
    obtain rfl := mem_unique hget hget'
    exact ⟨_, hi, fun htracked => hkeep hi htracked rfl rfl fun _ hmem =>
      (mem_insert _).mpr (.inr hmem)⟩
  · have hj : (s.addChannel i channel type).sockets[j]? = some socket' :=
      (getElem?_modify_ne _ _ hij).trans hget'
    exact ⟨socket', hj, fun htracked => hkeep hj htracked rfl rfl fun _ hmem => hmem⟩

end

end Tidy

/-! ## Messages of a socket -/

variable {options : JsonObject} {command : String} {payload : Bytes}

/-- The options of a command are where it was read from. -/
theorem parseCommand_options {S : Setup}
    {channel : Option String}
    (h : parseCommand S payload = some (command, channel, options)) :
    getString options "command" none = some (some command) ∧
      getString options "channel" none = some channel := by
  unfold parseCommand at h
  split at h
  · exact nomatch h
  split at h
  · rename_i command' hcmd
    split at h
    · exact nomatch h
    split at h
    · exact nomatch h
    · rename_i hchan
      simp only [some.injEq, Prod.mk.injEq] at h
      obtain ⟨rfl, rfl, rfl⟩ := h
      exact ⟨hcmd, hchan⟩
    rename_i channel' hchan
    split at h
    · exact nomatch h
    · simp only [some.injEq, Prod.mk.injEq] at h
      obtain ⟨rfl, rfl, rfl⟩ := h
      exact ⟨hcmd, hchan⟩
  · exact nomatch h

/-- The channel that a message of a socket opens, if it does. -/
def opens (S : Setup) (s : WebService) (socket : Socket) (message : Bytes) : Option String :=
  match Frame.parseFrame message with
  | some (none, payload) =>
    match parseCommand S payload with
    | some ("open", some channel, options) =>
      if socket.initReceived && !s.closing && (s.byChannel.lookup channel).isNone &&
          (parseBinary options).isSome then some channel
      else none
    | _ => none
  | _ => none

namespace Tidy

variable {S : Setup} {s : WebService} {i : Nat} {socket : Socket}

theorem dispatchCommand (h : Tidy s)
    (hget : s.sockets[i]? = some socket) (hdone : socket.connection.handshakeDone)
    {channel : Option String}
    (hopts : getString options "command" none = some (some command) ∧
      getString options "channel" none = some channel)
    (hfresh : ∀ other, command = "open" → channel = some other → s.closing = false →
      s.byChannel.lookup other = none → (parseBinary options).isSome →
        s.transportOpen → Fresh s i socket other) :
    Tidy (s.dispatchCommand S i command channel options payload).1 := by
  unfold WebService.dispatchCommand
  split
  · rename_i hopen
    unfold processAndRelayOpen
    split
    · exact h
    rename_i hclsg
    cases channel with
    | none => exact h.same rfl rfl rfl rfl rfl rfl
    | some other =>
      dsimp only
      split
      · exact h
      rename_i hfree
      have hnone : s.byChannel.lookup other = none := by simpa using hfree
      split
      · exact h
      rename_i type hbin
      refine (h.addChannel hget hdone hnone (fun htrans => ?_) type).relay i options _
      exact hfresh other (by simpa using hopen) rfl (by simpa using hclsg) hnone
        (by rw [hbin]; rfl) htrans
  split
  · exact h
  split
  · unfold processLogout
    split
    · exact h
    · split
      · exact (h.dispose).relay i options payload
      · exact h.relay i options payload
  split
  · rename_i hclose
    cases channel with
    | none => exact h
    | some channel =>
      dsimp only
      have hside : closedBySide channel (.control (.relay i) options payload) := by
        show closes channel (.control (.relay i) options payload)
        show (getString options "command" none == _ &&
          getString options "channel" none == _)
        rw [hopts.1, hopts.2, show command = "close" from by simpa using hclose]
        simp
      unfold WebService.relay
      split
      · rename_i hsent
        have hrem := h.removeChannel i (plain_relay i options payload) hside
        -- the transport is closed, and nothing is asked of the channels
        have hshut : s.transportOpen → False := fun hopen =>
          absurd ((h.standing hopen).2.symm.trans hsent) Bool.false_ne_true
        exact ⟨hrem.quiet, hrem.stream, h.standing, h.closed,
          fun hopen => (hshut hopen).elim⟩
      · exact h.removeChannel i (plain_relay i options payload) hside
  split
  · exact h.relay i options payload
  · split
    · exact h.relay i options payload
    · exact h

/-- The "init" message of a socket. -/
theorem greeted (h : Tidy s) (i : Nat) :
    Tidy (s.onSocket i fun socket => { socket with initReceived := true }) := by
  have hold : ∀ {j : Nat} {socket : Socket},
      (s.onSocket i fun socket => { socket with initReceived := true }).sockets[j]? =
        some socket → ∃ old, s.sockets[j]? = some old ∧ socket.connection = old.connection ∧
          socket.tracked = old.tracked ∧ socket.channels = old.channels := by
    intro j socket hget
    obtain ⟨old, hold, ⟨-, rfl⟩ | ⟨-, rfl⟩⟩ := modify_cases hget
    · exact ⟨old, hold, rfl, rfl, rfl⟩
    · exact ⟨socket, hold, rfl, rfl, rfl⟩
  refine ⟨fun j socket hget => ?_, fun j socket hget => ?_, h.standing, h.closed,
    fun hopen j channel between hlive => ?_⟩
  · obtain ⟨old, hget, hsame, -⟩ := hold hget
    rw [hsame]
    exact h.quiet j old hget
  · obtain ⟨old, hget, hsame, -⟩ := hold hget
    rw [hsame]
    exact h.stream j old hget
  obtain ⟨socket, hget, hheld⟩ := h.held hopen j channel between hlive
  have hothers : socket.tracked → ∀ k other,
      (s.onSocket i fun socket => { socket with initReceived := true }).sockets[k]? =
        some other → other.tracked → channel ∈ other.channels → k = j := by
    intro htracked k other hother htrack' hmem
    obtain ⟨old, hget, -, htrack, hchans⟩ := hold hother
    exact (hheld htracked).others k old hget (htrack.symm.trans htrack') (hchans ▸ hmem)
  by_cases hij : i = j
  · subst hij
    refine ⟨{ socket with initReceived := true }, ?_, fun htracked => ?_⟩
    · show (s.sockets.modify i _)[i]? = _
      rw [getElem?_modify_eq, hget]
      rfl
    · have hheld' := hheld htracked
      exact { hheld' with others := hothers htracked }
  refine ⟨socket, (getElem?_modify_ne _ _ hij).trans hget, fun htracked => ?_⟩
  have hheld' := hheld htracked
  exact { hheld' with others := hothers htracked }

/-- A message of a socket; a channel that it opens must be fresh. -/
theorem onWebSocketMessage (h : Tidy s)
    (hget : s.sockets[i]? = some socket) (hdone : socket.connection.handshakeDone)
    {message : Bytes} (hfresh : s.transportOpen → ∀ channel,
      opens S s socket message = some channel → Fresh s i socket channel) :
    Tidy (s.onWebSocketMessage S i message) := by
  unfold WebService.onWebSocketMessage
  rw [hget]
  dsimp only
  split
  · exact h
  split
  · exact h
  · rename_i payload hframe
    unfold dispatchInboundCommand
    split
    · exact h.inboundProtocolError i _
    rename_i command channel options hparse
    split
    · split
      · exact h.greeted i
      · exact h.inboundProtocolError i _
    split
    · exact h.inboundProtocolError i _
    rename_i hinit
    have hdisp : Tidy (s.dispatchCommand S i command channel options payload).1 :=
      h.dispatchCommand hget hdone (parseCommand_options hparse)
        fun other hopen hchan hclsg hfree hbin htrans => by
        refine hfresh htrans other ?_
        unfold opens
        rw [hframe]
        dsimp only
        rw [hparse, hopen, hchan]
        refine if_pos ?_
        simpa [hclsg, hfree, hbin] using hinit
    split
    · rename_i s' heq
      rw [heq] at hdisp
      exact hdisp
    · rename_i s' heq
      rw [heq] at hdisp
      exact hdisp.inboundProtocolError i _
  · split
    · exact h
    · exact h.record (plain_data _ _)

/-! ## Destroying a socket -/

/-- Erasing the channels of a socket leaves the other channels alone. -/
theorem lookup_foldl_erase {channel : String} {channels : List String}
    (hnot : channel ∉ channels) (table : AList (fun _ : String => Nat)) :
    (channels.foldl (fun table channel => table.erase channel) table).lookup channel =
      table.lookup channel := by
  induction channels generalizing table with
  | nil => rfl
  | cons other channels ih =>
    rw [foldl_cons, ih fun hmem => hnot (mem_cons_of_mem _ hmem)]
    apply lookup_erase_ne
    rintro rfl
    exact hnot (mem_cons_self ..)

/-- "close" of a socket that has emitted "closing", or that has no channels. -/
theorem onWebSocketClose (h : Tidy s) (hended : ∀ socket : Socket,
    s.sockets[i]? = some socket → s.transportOpen → socket.tracked →
      socket.closingEmitted ∨ ∀ channel, s.byChannel.lookup channel ≠ some i) :
    Tidy (s.onWebSocketClose i) := by
  unfold WebService.onWebSocketClose
  split
  · exact h
  rename_i socket hget
  split
  · exact h
  rename_i htrack
  have htrack' : socket.tracked := by simpa using htrack
  have hold : ∀ {j socket'}, (s.destroySocket i socket).sockets[j]? = some socket' →
      ∃ old, s.sockets[j]? = some old ∧ socket'.connection = old.connection ∧
        (socket'.tracked → socket' = old ∧ i ≠ j) := by
    intro j socket' hget'
    obtain ⟨old, hold, ⟨-, rfl⟩ | ⟨hne, rfl⟩⟩ := modify_cases hget'
    · exact ⟨old, hold, rfl, nofun⟩
    · exact ⟨socket', hold, rfl, fun _ => ⟨rfl, hne⟩⟩
  refine ⟨fun j socket' hget' => ?_, fun j socket' hget' => ?_, h.standing, ?_,
    fun hopen j channel between hlive => ?_⟩
  · obtain ⟨old, hget', hsame, -⟩ := hold hget'
    rw [hsame]
    exact h.quiet j old hget'
  · obtain ⟨old, hget', hsame, -⟩ := hold hget'
    rw [hsame]
    exact h.stream j old hget'
  · refine channelsClosed_snoc h.closed fun j hj channel between hlive => ?_
    obtain ⟨rfl, hopen⟩ := Entry.destroyed.inj hj
    obtain ⟨socket', hget', hheld⟩ := h.held hopen i channel between hlive
    obtain rfl := mem_unique hget hget'
    have hheld' := hheld htrack'
    rcases hended socket hget hopen htrack' with hclsg | hnone
    · rw [hheld'.count, hclsg]
      rfl
    · exact absurd hheld'.byChannel (hnone channel)
  rcases hlive.snoc with ⟨-, heq⟩ | ⟨since, rfl, hsince, -⟩
  · exact nomatch heq
  obtain ⟨socket', hget', hheld⟩ := h.held hopen j channel since hsince
  by_cases hij : i = j
  · subst hij
    refine ⟨{ socket' with channels := ∅, tracked := false }, ?_, nofun⟩
    show (s.sockets.modify i _)[i]? = _
    rw [getElem?_modify_eq, hget']
    rfl
  refine ⟨socket', (getElem?_modify_ne _ _ hij).trans hget', fun htrue => ?_⟩
  have hheld' := hheld htrue
  have hnot : channel ∉ socket.channels.keys := fun hmem =>
    hij (hheld'.others i socket hget htrack' (AList.mem_keys.mpr hmem))
  refine ⟨hheld'.mem, ?_, fun k other hother htrue' hmem => ?_, ?_, hheld'.handshake, hheld'.sent⟩
  · show (socket.channels.keys.foldl _ s.byChannel).lookup channel = some j
    rw [lookup_foldl_erase hnot]
    exact hheld'.byChannel
  · obtain ⟨old, hold₂, -, hsame⟩ := hold hother
    obtain ⟨rfl, -⟩ := hsame htrue'
    exact hheld'.others k other hold₂ htrue' hmem
  · rw [countP_append, hheld'.count]
    rfl

end Tidy

end Cockpit.Ws.WebService
