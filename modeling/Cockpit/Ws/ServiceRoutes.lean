import Cockpit.Ws.ServiceClosed

namespace Cockpit.Ws.WebService

open Lib List Option AList Json
open WebSocket (Connection DataType)

/-!
# Where the messages of the bridge go

Which socket has a channel is kept twice: `by_channel` is for all channels, and each socket has a
table of its own.  A "close" of a WebSocket edits the first table and the table of the socket that
it came from, which need not be the one that has the channel.

* `Routes` — the invariant: both tables agree, with each other and with the history;
* `run_routed` — both tables agree in every run in which no socket closes a channel of another.
-/

/-! ## The open channels of a history -/

/-- What an entry does to the socket that has a channel open. -/
def openerStep (channel : String) (current : Option Nat) : Entry → Option Nat
  | .opened i other => if other = channel then some i else current
  | .destroyed i _ => if current = some i then none else current
  | e => if closedBySide channel e then none else current

/-- The socket that opened a channel, as long as neither side closed the channel and the socket
    was not destroyed. -/
def opener (log : List Entry) (channel : String) : Option Nat :=
  log.foldl (openerStep channel) none

theorem opener_snoc (log : List Entry) (e : Entry) (channel : String) :
    opener (log ++ [e]) channel = openerStep channel (opener log channel) e := by
  unfold opener
  rw [foldl_append]
  rfl

/-- An entry that opens, closes and destroys nothing. -/
def Idle (e : Entry) : Prop := ∀ channel current, openerStep channel current e = current

theorem opener_append {log es : List Entry} (hes : ∀ e ∈ es, Idle e) (channel : String) :
    opener (log ++ es) channel = opener log channel := by
  induction es using List.reverseRecOn with
  | nil => rw [append_nil]
  | append_singleton es e ih =>
    rw [← append_assoc, opener_snoc, hes e (mem_append_right _ (mem_singleton_self e))]
    exact ih fun x hx => hes x (mem_append_left _ hx)

theorem idle_service (options : JsonObject) (payload : Bytes) :
    Idle (.control .service options payload) := fun _ _ => rfl

theorem idle_data (channel : CStr) (payload : Bytes) : Idle (.data channel payload) :=
  fun _ _ => rfl

variable {options : JsonObject} {command : String}

/-- A message of a socket that is no "close". -/
theorem idle_relay (i : Nat) (payload : Bytes)
    (hcmd : getString options "command" none = some (some command))
    (hne : command ≠ "close") : Idle (.control (.relay i) options payload) := by
  intro channel current
  have hnot : closedBySide channel (.control (.relay i) options payload) = false := by
    show (getString options "command" none == some (some "close") && _) = false
    rw [hcmd]
    simp [hne]
  show (if closedBySide channel _ = true then none else current) = current
  rw [if_neg (by rw [hnot]; exact Bool.false_ne_true)]

/-! ## Statements -/

variable (s : WebService)

/-- `by_channel` maps a channel to a socket iff the socket has the channel. -/
def Consistent : Prop :=
  ∀ (channel : String) (i : Nat), s.byChannel.lookup channel = some i ↔
    ∃ socket, s.sockets[i]? = some socket ∧ channel ∈ socket.channels

/-- A message goes to one socket, or to none. -/
def SendsOnly (s' : WebService) (target : Option Nat) (type : DataType) (pref message : Bytes) :
    Prop :=
  s'.sockets.map (·.connection) =
    match target with
    | some i => (s.sockets.map (·.connection)).modify i (·.send type pref message)
    | none => s.sockets.map (·.connection)

/-- The tables agree, and what the bridge says on an open channel goes to the socket that opened
    it and to no other. -/
structure Routed (S : Setup) (s : WebService) : Prop where
  tables : Consistent s
  payloads : s.crashed = false → s.closing = false → ∀ (channel : String) (payload : Bytes),
    ∃ type, SendsOnly s (step S s (.recv (some channel) payload)) (opener s.log channel) type
      (channel ++ "\n").toUTF8.data.toList payload ∧
      ∀ i, opener s.log channel = some i → ∃ socket, s.sockets[i]? = some socket ∧
        socket.channels.lookup channel = some type
  controls : s.crashed = false → s.closing = false →
    ∀ (command channel : String) (options : JsonObject) (payload : Bytes),
      SendsOnly s (step S s (.control command (some channel) options payload))
        (opener s.log channel) .text controlPrefix payload

/-- The channel of a "close" message. -/
def closeCommand (S : Setup) (message : Bytes) : Option String :=
  match Frame.parseFrame message with
  | some (none, payload) =>
    match parseCommand S payload with
    | some ("close", some channel, _) => some channel
    | _ => none
  | _ => none

/-- The socket and the channel of a "close" message that is dispatched. -/
def closeInStep (S : Setup) (s : WebService) : Event → Option (Nat × String)
  | .socket i e =>
    match s.sockets[i]? with
    | none => none
    | some socket =>
      if !s.crashed && socket.tracked && socket.connection.handshakeDone &&
          socket.initReceived then
        match socket.messages e with
        | (_, message) :: _ => (closeCommand S message).map fun channel => (i, channel)
        | [] => none
      else none
  | _ => none

/-- No WebSocket closes a channel of another one. -/
def Owned (S : Setup) (s : WebService) (e : Event) : Prop :=
  ∀ i channel, closeInStep S s e = some (i, channel) →
    ∀ j, s.byChannel.lookup channel = some j → j = i

/-! ## What leaves the tables alone -/

/-- Neither the tables nor the open channels change. -/
structure Untouched (s s' : WebService) : Prop where
  byChannel : s'.byChannel = s.byChannel
  channels : s'.sockets.map (·.channels) = s.sockets.map (·.channels)
  opener : ∀ channel, opener s'.log channel = opener s.log channel
  closing : s'.closing = false → s.closing = false
  standing : (s.sentDone → s.closing) → s'.sentDone → s'.closing

namespace Untouched

variable {S : Setup} {s s' t : WebService}

theorem refl (s : WebService) : Untouched s s := ⟨rfl, rfl, fun _ => rfl, id, id⟩

theorem trans (h : Untouched s s') (h' : Untouched s' t) : Untouched s t :=
  ⟨h'.byChannel.trans h.byChannel, h'.channels.trans h.channels,
    fun channel => (h'.opener channel).trans (h.opener channel), h.closing ∘ h'.closing,
    h'.standing ∘ h.standing⟩

section

variable (s : WebService)

/-- A socket keeps its channels. -/
theorem onSocket (i : Nat) {f : Socket → Socket}
    (hf : ∀ socket, (f socket).channels = socket.channels) : Untouched s (s.onSocket i f) :=
  ⟨rfl, map_modify_of_eq hf s.sockets i, fun _ => rfl, id, id⟩

theorem onConnection (i : Nat) (f : Connection → Connection) :
    Untouched s (s.onConnection i f) := onSocket s i fun _ => rfl

theorem sendTo (i : Nat) (type : DataType) (pref message : Bytes) :
    Untouched s (s.sendTo i type pref message) := onConnection s i _

theorem record {e : Entry} (he : Idle e) : Untouched s (s.record e) :=
  ⟨rfl, rfl, fun channel => (opener_snoc s.log e channel).trans (he channel _), id, id⟩

theorem relay (i : Nat) {payload : Bytes}
    (he : Idle (.control (.relay i) options payload)) :
    Untouched s (s.relay i options payload) := by
  unfold WebService.relay
  split
  · exact refl s
  · exact record s he

theorem onWebSocketClosing (i : Nat) (socket : Socket) :
    Untouched s (s.onWebSocketClosing S i socket) := by
  unfold WebService.onWebSocketClosing
  have hsocket : Untouched s (s.onSocket i fun socket => { socket with closingEmitted := true }) :=
    onSocket s i fun _ => rfl
  dsimp only
  split
  · exact hsocket
  · refine hsocket.trans ⟨rfl, rfl, fun channel => opener_append (fun e he => ?_) channel, id, id⟩
    obtain ⟨channel, -, rfl⟩ := mem_map.mp he
    exact idle_service _ _

theorem settle (i : Nat) : Untouched s (s.settle S i) := by
  unfold WebService.settle
  split
  · exact refl s
  rename_i socket hget
  split
  · exact refl s
  · refine trans ?_ (onConnection _ i _)
    split
    · exact onWebSocketClosing s i socket
    · exact refl s
  · exact onConnection s i _

theorem closeConnection (i : Nat) (code : UInt16) (data : String) :
    Untouched s (s.closeConnection S i code data) := (onConnection s i _).trans (settle _ i)

theorem closeSockets (problem : Option String) :
    Untouched s (s.closeSockets S problem) := by
  unfold WebService.closeSockets
  generalize List.range s.sockets.length = is
  induction is generalizing s with
  | nil => exact refl s
  | cons i is ih =>
    have hone : Untouched s (closeSocket S (problem.getD "terminated") s i) := by
      unfold closeSocket
      split
      · exact refl s
      · split
        · exact closeConnection s i 1001 _
        · exact refl s
    exact hone.trans (ih _)

theorem dispose : Untouched s (s.dispose S) := by
  unfold WebService.dispose
  dsimp only
  refine trans ?_ (closeSockets _ none)
  split <;> exact ⟨rfl, rfl, fun _ => rfl, fun h => (nomatch h), fun _ _ => rfl⟩

theorem inboundProtocolError (i : Nat) (problem : String) :
    Untouched s (s.inboundProtocolError S i problem) := by
  unfold WebService.inboundProtocolError
  split
  · exact refl s
  · split
    · exact (sendTo s i .text controlPrefix _).trans (closeConnection _ i 1011 problem)
    · exact refl s

theorem onPingTime : Untouched s (s.onPingTime S) := by
  unfold WebService.onPingTime
  generalize List.range s.sockets.length = is
  induction is generalizing s with
  | nil => exact refl s
  | cons i is ih => exact (sendTo s i .text controlPrefix _).trans (ih _)

end

end Untouched

/-! ## The invariant -/

/-- Erasing the channels of a socket erases each of them. -/
theorem lookup_foldl_erase_mem {channel : String} {channels : List String}
    (hmem : channel ∈ channels) (table : AList (fun _ : String => Nat)) :
    (channels.foldl (fun table channel => table.erase channel) table).lookup channel = none := by
  induction channels generalizing table with
  | nil => exact nomatch hmem
  | cons other channels ih =>
    rw [foldl_cons]
    by_cases hrest : channel ∈ channels
    · exact ih hrest _
    rw [Tidy.lookup_foldl_erase hrest]
    obtain rfl | htail := mem_cons.mp hmem
    · exact lookup_erase channel table
    · exact absurd htail hrest

/-- The tables agree with each other, and with the history until the service closes. -/
structure Routes (s : WebService) : Prop where
  tables : Consistent s
  history : s.closing = false → ∀ channel, s.byChannel.lookup channel = opener s.log channel
  standing : s.sentDone → s.closing

/-- The channels of a socket, as the list of the tables has them. -/
theorem getElem_channels (i : Nat) (channel : String) :
    (∃ socket, s.sockets[i]? = some socket ∧ channel ∈ socket.channels) ↔
      ∃ channels, (s.sockets.map (·.channels))[i]? = some channels ∧ channel ∈ channels := by
  rw [getElem?_map]
  constructor
  · rintro ⟨socket, hget, hmem⟩
    exact ⟨socket.channels, by rw [hget]; rfl, hmem⟩
  · rintro ⟨channels, hget, hmem⟩
    obtain ⟨socket, hsocket, rfl⟩ := map_eq_some_iff.mp hget
    exact ⟨socket, hsocket, hmem⟩

theorem Untouched.consistent {s s' : WebService} (h : Untouched s s') :
    Consistent s' ↔ Consistent s := by
  unfold Consistent
  rw [h.byChannel]
  apply forall_congr'
  intro channel
  apply forall_congr'
  intro i
  rw [getElem_channels, getElem_channels, h.channels]

/-- What is passed on to the bridge does not change the tables. -/
theorem Untouched.relayed (i : Nat) (options : JsonObject) (payload : Bytes) :
    Consistent (s.relay i options payload) ↔ Consistent s := by
  unfold WebService.relay
  split <;> exact Iff.rfl

namespace Routes

variable {S : Setup} {s s' : WebService}

theorem untouched (h : Routes s) (hs : Untouched s s') : Routes s' where
  tables := hs.consistent.mpr h.tables
  history hclsg channel := by
    rw [hs.byChannel, hs.opener]
    exact h.history (hs.closing hclsg) channel
  standing := hs.standing h.standing

/-! ## Channels that are opened and closed -/

variable {i : Nat} {channel : String} {socket : Socket}

/-- A channel that no socket has is added to one. -/
theorem addChannel (h : Routes s) (hget : s.sockets[i]? = some socket) (hfree : s.byChannel.lookup channel = none) (type : DataType) :
    Routes (s.addChannel i channel type) where
  tables other j := by
    show (s.byChannel.insert channel i).lookup other = some j ↔
      ∃ socket', (s.sockets.modify i _)[j]? = some socket' ∧ other ∈ socket'.channels
    by_cases heq : other = channel
    · subst heq
      rw [lookup_insert]
      constructor
      · rintro ⟨⟩
        refine ⟨{ socket with channels := socket.channels.insert other type }, ?_,
          (mem_insert _).mpr (.inl rfl)⟩
        rw [getElem?_modify_eq, hget]
        rfl
      rintro ⟨socket', hget', hmem⟩
      obtain ⟨old, hold, ⟨rfl, -⟩ | ⟨-, rfl⟩⟩ := modify_cases hget'
      · rfl
      · -- the channel is free, so no other socket has it
        have hhas := (h.tables other j).mpr ⟨socket', hold, hmem⟩
        cases hfree.symm.trans hhas
    rw [lookup_insert_ne heq, h.tables other j]
    constructor
    · rintro ⟨old, hold, hmem⟩
      by_cases hij : i = j
      · subst hij
        refine ⟨{ old with channels := old.channels.insert channel type }, ?_,
          (mem_insert _).mpr (.inr hmem)⟩
        rw [getElem?_modify_eq, hold]
        rfl
      · exact ⟨old, (getElem?_modify_ne _ _ hij).trans hold, hmem⟩
    rintro ⟨socket', hget', hmem⟩
    obtain ⟨old, hold, ⟨-, rfl⟩ | ⟨-, rfl⟩⟩ := modify_cases hget'
    · exact ⟨old, hold, ((mem_insert _).mp hmem).resolve_left heq⟩
    · exact ⟨socket', hold, hmem⟩
  history hclsg other := by
    show (s.byChannel.insert channel i).lookup other = opener (s.log ++ [.opened i channel]) other
    rw [opener_snoc]
    show _ = if channel = other then some i else opener s.log other
    split
    · rename_i heq
      rw [← heq, lookup_insert]
    · rename_i hne
      rw [lookup_insert_ne (Ne.symm hne)]
      exact h.history hclsg other
  standing := h.standing

/-- A channel that no other socket has is taken out of both tables. -/
theorem tables_removeChannel (h : Consistent s)
    (hown : ∀ j, s.byChannel.lookup channel = some j → j = i) :
    Consistent (s.removeChannel i channel) := by
  intro other j
  show (s.byChannel.erase channel).lookup other = some j ↔
    ∃ socket, (s.sockets.modify i _)[j]? = some socket ∧ other ∈ socket.channels
  by_cases heq : other = channel
  · subst heq
    rw [lookup_erase]
    constructor
    · intro hnone
      cases hnone
    rintro ⟨socket, hget, hmem⟩
    obtain ⟨old, hold, ⟨-, rfl⟩ | ⟨hne, rfl⟩⟩ := modify_cases hget
    · exact absurd rfl (mem_erase.mp hmem).1
    · exact absurd (hown j ((h other j).mpr ⟨socket, hold, hmem⟩)).symm hne
  rw [lookup_erase_ne heq, h other j]
  constructor
  · rintro ⟨old, hold, hmem⟩
    by_cases hij : i = j
    · subst hij
      refine ⟨{ old with channels := old.channels.erase channel }, ?_, mem_erase.mpr ⟨heq, hmem⟩⟩
      rw [getElem?_modify_eq, hold]
      rfl
    · exact ⟨old, (getElem?_modify_ne _ _ hij).trans hold, hmem⟩
  rintro ⟨socket, hget, hmem⟩
  obtain ⟨old, hold, ⟨-, rfl⟩ | ⟨-, rfl⟩⟩ := modify_cases hget
  · exact ⟨old, hold, (mem_erase.mp hmem).2⟩
  · exact ⟨socket, hold, hmem⟩

section

variable (h : Routes s)

include h

/-- The channel of a closing entry is no longer open. -/
theorem lookup_erase_opener (hclsg : s.closing = false)
    {e : Entry} (he : ∀ other current, openerStep other current e =
      if channel = other then none else current) (other : String) :
    (s.byChannel.erase channel).lookup other = opener (s.log ++ [e]) other := by
  rw [opener_snoc, he]
  split
  · rename_i heq
    rw [← heq, lookup_erase]
  · rename_i hne
    rw [lookup_erase_ne (Ne.symm hne)]
    exact h.history hclsg other

/-- A WebSocket closes a channel that no other one has. -/
theorem closeOfSocket
    (payload : Bytes)
    (hcmd : getString options "command" none = some (some "close"))
    (hchan : getString options "channel" none = some (some channel))
    (hown : ∀ j, s.byChannel.lookup channel = some j → j = i) :
    Routes ((s.removeChannel i channel).relay i options payload) := by
  have he : ∀ other current, openerStep other current (.control (.relay i) options payload) =
      if channel = other then none else current := by
    intro other current
    have hcloses : closedBySide other (.control (.relay i) options payload) =
        (some (some channel) == some (some other)) := by
      show (getString options "command" none == some (some "close") &&
        getString options "channel" none == some (some other)) = _
      rw [hcmd, hchan, beq_self_eq_true, Bool.true_and]
    show (if closedBySide other _ = true then none else current) = _
    rw [hcloses]
    simp
  have htables := tables_removeChannel h.tables hown
  unfold relay
  split
  · rename_i hsent
    -- the service is closing, and the history is not asked any more
    have hclsg : s.closing := h.standing hsent
    exact ⟨htables, fun hopen => absurd (hopen.symm.trans hclsg) Bool.false_ne_true, h.standing⟩
  · exact ⟨htables, fun hclsg => h.lookup_erase_opener hclsg he, h.standing⟩

/-- A "close" from the bridge. -/
theorem processClose (channel : String) : Routes (s.processClose channel) := by
  have he : ∀ other current, openerStep other current (.closed channel) =
      if channel = other then none else current := by
    intro other current
    show (if (channel == other) = true then none else current) = _
    simp
  unfold WebService.processClose
  split
  · rename_i hnone
    refine ⟨h.tables, fun hclsg other => ?_, h.standing⟩
    refine Eq.trans ?_ (h.lookup_erase_opener hclsg he other)
    by_cases heq : other = channel
    · rw [heq, lookup_erase]
      exact hnone
    · exact (lookup_erase_ne heq).symm
  rename_i i hsome
  refine ⟨tables_removeChannel h.tables fun j hj => ?_,
    fun hclsg => h.lookup_erase_opener hclsg he, h.standing⟩
  exact mem_unique hj hsome

section

variable (hget : s.sockets[i]? = some socket)

include hget

/-- A socket is destroyed with the channels that it has. -/
theorem destroySocket
    : Routes (s.destroySocket i socket) := by
  have hlook : ∀ channel, (s.destroySocket i socket).byChannel.lookup channel =
      if s.byChannel.lookup channel = some i then none else s.byChannel.lookup channel := by
    intro channel
    show (socket.channels.keys.foldl _ s.byChannel).lookup channel = _
    by_cases hmem : channel ∈ socket.channels
    · rw [if_pos ((h.tables channel i).mpr ⟨socket, hget, hmem⟩)]
      exact lookup_foldl_erase_mem (AList.mem_keys.mp hmem) s.byChannel
    have hnot : s.byChannel.lookup channel ≠ some i := by
      intro hhas
      obtain ⟨socket', hget', hmem'⟩ := (h.tables channel i).mp hhas
      obtain rfl := mem_unique hget hget'
      exact hmem hmem'
    rw [if_neg hnot]
    exact Tidy.lookup_foldl_erase (fun hkey => hmem (AList.mem_keys.mpr hkey)) s.byChannel
  refine ⟨fun channel j => ?_, fun hclsg channel => ?_, h.standing⟩
  · rw [hlook]
    show _ ↔ ∃ socket', (s.sockets.modify i _)[j]? = some socket' ∧ channel ∈ socket'.channels
    constructor
    · intro hhas
      split at hhas
      · cases hhas
      rename_i hne
      obtain ⟨old, hold, hmem⟩ := (h.tables channel j).mp hhas
      have hij : i ≠ j := by
        rintro rfl
        exact hne hhas
      exact ⟨old, (getElem?_modify_ne _ _ hij).trans hold, hmem⟩
    rintro ⟨socket', hget', hmem⟩
    obtain ⟨old, hold, ⟨-, rfl⟩ | ⟨hij, rfl⟩⟩ := modify_cases hget'
    · exact absurd hmem (notMem_empty channel)
    · have hhas := (h.tables channel j).mpr ⟨socket', hold, hmem⟩
      rw [hhas, if_neg fun heq => hij (some.inj heq).symm]
  rw [hlook]
  show _ = opener (s.log ++ [.destroyed i s.transportOpen]) channel
  rw [opener_snoc]
  show _ = if opener s.log channel = some i then none else opener s.log channel
  rw [h.history hclsg]

/-! ## Messages of a socket -/

/-- A command of a socket; the channel that it closes must be its own. -/
theorem dispatchCommand
    {channel : Option String}
    {payload : Bytes}
    (hopts : getString options "command" none = some (some command) ∧
      getString options "channel" none = some channel)
    (hown : ∀ other, command = "close" → channel = some other →
      ∀ j, s.byChannel.lookup other = some j → j = i) :
    Routes (s.dispatchCommand S i command channel options payload).1 := by
  have hrelay : ∀ {t} payload, command ≠ "close" → Routes t →
      Routes (t.relay i options payload) := fun payload hne ht =>
    ht.untouched (.relay _ i (idle_relay i payload hopts.1 hne))
  unfold WebService.dispatchCommand
  split
  · rename_i hopen
    have hne : command ≠ "close" := by
      rw [show command = "open" from by simpa using hopen]
      decide
    unfold processAndRelayOpen
    split
    · exact h
    split
    · exact h.untouched ⟨rfl, rfl, fun _ => rfl, id, id⟩
    rename_i other
    split
    · exact h
    rename_i hfree
    split
    · exact h
    · exact hrelay _ hne (h.addChannel hget (by simpa using hfree) _)
  split
  · exact h
  split
  · rename_i hlogout
    have hne : command ≠ "close" := by
      rw [show command = "logout" from by simpa using hlogout]
      decide
    unfold processLogout
    split
    · exact h
    apply hrelay payload hne
    split
    · exact h.untouched (.dispose s)
    · exact h
  split
  · rename_i hclose
    have heq : command = "close" := by simpa using hclose
    cases channel with
    | none => exact h
    | some other =>
      exact h.closeOfSocket payload (heq ▸ hopts.1) hopts.2 (hown other heq rfl)
  rename_i hclose
  have hne : command ≠ "close" := by simpa using hclose
  split
  · exact hrelay payload hne h
  · split
    · exact hrelay payload hne h
    · exact h

/-- A message of a socket. -/
theorem onWebSocketMessage
    {message : Bytes}
    (hown : socket.tracked → socket.initReceived → ∀ channel,
      closeCommand S message = some channel → ∀ j, s.byChannel.lookup channel = some j → j = i) :
    Routes (s.onWebSocketMessage S i message) := by
  unfold WebService.onWebSocketMessage
  rw [hget]
  dsimp only
  split
  · exact h
  rename_i htrack
  split
  · exact h
  · rename_i payload hframe
    unfold dispatchInboundCommand
    split
    · exact h.untouched (.inboundProtocolError s i _)
    rename_i command channel options hparse
    split
    · split
      · exact h.untouched (.onSocket s i fun _ => rfl)
      · exact h.untouched (.inboundProtocolError s i _)
    split
    · exact h.untouched (.inboundProtocolError s i _)
    rename_i hinit
    have hdisp : Routes (s.dispatchCommand S i command channel options payload).1 :=
      h.dispatchCommand hget (parseCommand_options hparse)
        fun other hclose hchan => by
        refine hown (by simpa using htrack) (by simpa using hinit) other ?_
        unfold closeCommand
        rw [hframe]
        dsimp only
        rw [hparse, hclose, hchan]
        rfl
    split
    · rename_i s' heq
      rw [heq] at hdisp
      exact hdisp
    · rename_i s' heq
      rw [heq] at hdisp
      exact hdisp.untouched (.inboundProtocolError s' i _)
  · split
    · exact h
    · exact h.untouched (.record s (idle_data _ _))

end

/-- Whatever the main loop does with the connection of a socket. -/
theorem onEvent {e : Connection.Event}
    (hcrash : s.crashed = false) (hown : Owned S s (.socket i e)) :
    Routes (s.onEvent S i e) := by
  unfold WebService.onEvent
  split
  · exact h
  rename_i socket hget
  have hown' : ∀ opcode message rest, socket.messages e = (opcode, message) :: rest →
      socket.connection.handshakeDone → socket.tracked →
      socket.initReceived → ∀ channel, closeCommand S message = some channel →
        ∀ j, s.byChannel.lookup channel = some j → j = i := by
    intro opcode message rest hmsgs hdone htrack hinit channel hclose
    refine hown i channel ?_
    unfold closeInStep
    dsimp only
    rw [hget]
    dsimp only
    rw [if_pos (by simp [hcrash, hdone, htrack, hinit]), hmsgs]
    dsimp only
    rw [hclose]
    rfl
  unfold Socket.messages at hown'
  generalize socket.connection.mainStep e = c at hown' ⊢
  have hs : Routes (s.onConnection i fun _ => c) := h.untouched (.onConnection s i _)
  have hget' := Tidy.getElem?_onConnection hget fun _ => c
  unfold onSignals
  split
  · split
    · exact hs.untouched (.sendTo _ i .text controlPrefix _)
    · exact hs
  split
  · rename_i opcode message rest hmsgs
    split
    · rename_i hdone
      refine hs.onWebSocketMessage hget' fun htrack hinit channel hclose => ?_
      exact hown' opcode message rest hmsgs hdone htrack hinit channel hclose
    · exact hs
  split
  · unfold onWebSocketClose
    rw [hget']
    dsimp only
    split
    · exact hs
    · exact hs.destroySocket hget'
  · exact hs.untouched (.settle _ i)

/-! ## Runs -/

theorem onTransportControl (command : String) (channel : Option String)
    (options : JsonObject) (payload : Bytes) :
    Routes (s.onTransportControl S command channel options payload) := by
  have hshut : Routes s.outboundProtocolError := h.untouched ⟨rfl, rfl, fun _ => rfl, id, id⟩
  unfold WebService.onTransportControl
  split
  · split
    · split
      · exact hshut
      · have hinit : Routes { s with initReceived := true } :=
          h.untouched ⟨rfl, rfl, fun _ => rfl, id, id⟩
        exact hinit.untouched (.record _ (idle_service _ _))
    split
    · exact hshut
    split
    · split
      · exact h
      · exact hshut
    · exact h
  rename_i channel
  have hclos : Routes (if command == "close" then s.processClose channel else s) := by
    split
    · exact h.processClose channel
    · exact h
  dsimp only
  split
  · exact hclos
  · exact hclos.untouched (.sendTo _ _ .text controlPrefix payload)

theorem onTransportRecv (channel : Option String) (payload : Bytes) :
    Routes (s.onTransportRecv channel payload) := by
  unfold WebService.onTransportRecv
  split
  · exact h
  · split
    · exact h
    · exact h.untouched (.sendTo s _ _ _ payload)

/-- A new socket has no channels. -/
theorem newSocket (random : Nat → UInt32) : Routes (s.newSocket random) := { h with
  tables channel i := by
    rw [show (s.newSocket random).byChannel = s.byChannel from rfl, h.tables channel i]
    constructor
    · rintro ⟨socket, hget, hmem⟩
      have hlt := (List.getElem?_eq_some_iff.mp hget).1
      exact ⟨socket, (getElem?_append_left hlt).trans hget, hmem⟩
    rintro ⟨socket, hget, hmem⟩
    rcases append_singleton_cases hget with hold | ⟨-, rfl⟩
    · exact ⟨socket, hold, hmem⟩
    · exact absurd hmem (notMem_empty channel) }

/-- **Step.**  The tables keep agreeing when no socket closes a channel of another one. -/
theorem step {e : Event} (hown : Owned S s e) : Routes (s.step S e) := by
  unfold WebService.step
  split
  · exact h
  rename_i hcrash
  cases e with
  | newSocket random => exact h.newSocket random
  | socket i e => exact h.onEvent (by simpa using hcrash) hown
  | control command channel options payload =>
    dsimp only
    split
    · exact h
    · exact h.onTransportControl command channel options payload
  | recv channel payload =>
    dsimp only
    split
    · exact h
    · exact h.onTransportRecv channel payload
  | transportClosed problem =>
    dsimp only
    split
    · exact h
    · have hshut : Untouched s { s with transportOpen := false } :=
        ⟨rfl, rfl, fun _ => rfl, id, id⟩
      exact h.untouched ((hshut.trans (.closeSockets _ problem)).trans (.dispose _))
  | pingTime => exact h.untouched (.onPingTime s)
  | disconnect => exact h.untouched (.dispose s)

end

/-- A new web service. -/
theorem new : Routes {} where
  tables channel i := by
    constructor
    · intro hhas
      have hnone : (∅ : AList (fun _ : String => Nat)).lookup channel = none :=
        lookup_empty channel
      cases hnone.symm.trans hhas
    · rintro ⟨socket, hget, -⟩
      cases hget
  history _ channel := lookup_empty channel
  standing hsent := by cases hsent

end Routes

/-! ## Statements for runs -/

variable {S : Setup} {s : WebService}

theorem sendsOnly_sendTo (s : WebService) (i : Nat) (type : DataType) (pref message : Bytes) :
    SendsOnly s (s.sendTo i type pref message) (some i) type pref message := by
  show (s.sockets.modify i _).map (·.connection) = (s.sockets.map (·.connection)).modify i _
  apply ext_getElem?
  intro j
  rw [getElem?_map, getElem?_modify, getElem?_modify, getElem?_map]
  cases s.sockets[j]? with
  | none => rfl
  | some socket =>
    show some (if i = j then _ else socket).connection = some (if i = j then _ else _)
    split <;> rfl

/-- Payloads of the bridge go where the tables say. -/
theorem Routes.routed (h : Routes s) : Routed S s where
  tables := h.tables
  payloads hcrash hclsg channel payload := by
    have hstep : s.step S (.recv (some channel) payload) =
        s.onTransportRecv (some channel) payload := by
      unfold WebService.step
      rw [hcrash, hclsg]
      rfl
    rw [hstep]
    unfold WebService.onTransportRecv
    dsimp only
    rw [← h.history hclsg channel]
    cases hlook : s.byChannel.lookup channel with
    | none => exact ⟨.text, rfl, fun i hi => by cases hi⟩
    | some i =>
      obtain ⟨socket, hget, hmem⟩ := (h.tables channel i).mp hlook
      obtain ⟨type, htype⟩ := isSome_iff_exists.mp (lookup_isSome.mpr hmem)
      refine ⟨type, ?_, fun j hj => ?_⟩
      · dsimp only
        rw [hget, bind_some, htype]
        exact sendsOnly_sendTo s i type _ payload
      · obtain rfl := some.inj hj
        exact ⟨socket, hget, htype⟩
  controls hcrash hclsg command channel options payload := by
    have hstep : s.step S (.control command (some channel) options payload) =
        s.onTransportControl S command (some channel) options payload := by
      unfold WebService.step
      rw [hcrash, hclsg]
      rfl
    rw [hstep, ← h.history hclsg channel]
    unfold WebService.onTransportControl
    dsimp only
    -- the "close" of the bridge takes the channel out of the tables, and is passed on all the same
    have hsame : ∀ t : WebService, t = (if command == "close" then s.processClose channel else s) →
        t.sockets.map (·.connection) = s.sockets.map (·.connection) := by
      rintro t rfl
      split
      · unfold WebService.processClose
        split
        · rfl
        have hkept : ∀ socket : Socket, ({ socket with
            channels := socket.channels.erase channel } : Socket).connection =
              socket.connection := fun _ => rfl
        exact map_modify_of_eq hkept s.sockets _
      · rfl
    generalize (if command == "close" then s.processClose channel else s) = t at hsame ⊢
    have hconnections := hsame t rfl
    cases s.byChannel.lookup channel with
    | none => exact hconnections
    | some i =>
      have hsent := sendsOnly_sendTo t i .text controlPrefix payload
      unfold SendsOnly at hsent ⊢
      rw [hconnections] at hsent
      exact hsent

/-- A "close" message of a socket that has said "init". -/
theorem onWebSocketMessage_close {i : Nat} {socket : Socket} (hget : s.sockets[i]? = some socket)
    (htrack : socket.tracked) (hinit : socket.initReceived) {message : Bytes}
    {channel : String} (hclose : closeCommand S message = some channel) :
    ∃ options payload, s.onWebSocketMessage S i message =
      (s.removeChannel i channel).relay i options payload := by
  unfold closeCommand at hclose
  split at hclose
  · rename_i payload hframe
    split at hclose
    · rename_i other options hparse
      obtain rfl := some.inj hclose
      refine ⟨options, payload, ?_⟩
      unfold onWebSocketMessage
      rw [hget]
      dsimp only
      rw [htrack, hframe]
      unfold dispatchInboundCommand
      dsimp only [Bool.not_true]
      rw [hparse]
      dsimp only
      rw [hinit]
      rfl
    · exact nomatch hclose
  · exact nomatch hclose

variable {e : Event}

/-- A "close" for a channel of another WebSocket leaves the channel in the table of its owner
    alone. -/
theorem inconsistent_of_foreign (h : Consistent s) (he : ¬ Owned S s e) :
    ¬ Consistent (s.step S e) := by
  unfold Owned at he
  push Not at he
  obtain ⟨i, channel, hclose, j, hj, hne⟩ := he
  -- the event is a message of a socket that is dispatched
  unfold closeInStep at hclose
  split at hclose
  · rename_i i' e
    split at hclose
    · cases hclose
    rename_i socket hget
    split at hclose
    · rename_i hready
      simp only [Bool.and_eq_true, Bool.not_eq_true'] at hready
      obtain ⟨⟨⟨hcrash, htrack⟩, hdone⟩, hinit⟩ := hready
      split at hclose
      · rename_i opcode message rest hmsgs
        obtain ⟨channel', hcmd, heq⟩ := map_eq_some_iff.mp hclose
        obtain ⟨rfl, rfl⟩ := Prod.mk.inj heq
        have hmsg : s.step S (.socket i' e) =
            (s.onConnection i' fun _ => socket.connection.mainStep e).onWebSocketMessage S i'
              message := by
          have hevent : s.step S (.socket i' e) = s.onEvent S i' e := by
            unfold step
            rw [hcrash]
            rfl
          rw [hevent]
          unfold onEvent onSignals
          rw [hget]
          dsimp only
          rw [hdone]
          unfold Socket.messages at hmsgs
          rw [hmsgs]
          simp
        have hget' : (s.onConnection i' fun _ => socket.connection.mainStep e).sockets[i']? =
            some { socket with connection := socket.connection.mainStep e } := by
          show (s.sockets.modify i' _)[i']? = _
          rw [getElem?_modify_eq, hget]
          rfl
        obtain ⟨options, payload, hrem⟩ :=
          onWebSocketMessage_close hget' htrack hinit hcmd
        rw [hmsg, hrem]
        intro hafter
        -- the owner still has the channel, and `by_channel` does not
        have htables := (Untouched.relayed _ i' options payload).mp hafter
        obtain ⟨owner, howner, hmem⟩ := (h channel' j).mp hj
        have hstill : ((s.onConnection i' fun _ => socket.connection.mainStep e).removeChannel i'
            channel').sockets[j]? = some owner := by
          show ((s.sockets.modify i' _).modify i' _)[j]? = _
          rw [getElem?_modify_ne _ _ (Ne.symm hne), getElem?_modify_ne _ _ (Ne.symm hne)]
          exact howner
        have hhas := (htables channel' j).mpr ⟨owner, hstill, hmem⟩
        have hnone : (s.byChannel.erase channel').lookup channel' = none :=
          lookup_erase channel' s.byChannel
        cases hnone.symm.trans hhas
      · cases hclose
    · cases hclose
  · cases hclose

/-- **Routing tables.**  In a run in which no WebSocket closes a channel of another one, both
    tables agree and the messages of the bridge go to the socket that opened their channel.  The
    first "close" for a channel of another WebSocket ends that. -/
theorem run_routed (S : Setup) {es : List Event} (hok : RunOk (step S) (Owned S) {} es) :
    Routed S (run (step S) {} es) ∧
      ∀ e, Consistent (step S (run (step S) {} es) e) ↔ Owned S (run (step S) {} es) e := by
  have hroutes : Routes (run (step S) {} es) :=
    run_invariant Routes (fun _ _ h he => h.step he) .new hok
  refine ⟨hroutes.routed, fun e => ⟨fun hafter => ?_, fun hown => (hroutes.step hown).tables⟩⟩
  by_contra hforeign
  exact inconsistent_of_foreign hroutes.tables hforeign hafter

/-! ### One socket, and two -/

/-- A check of `Owned`. -/
def checkOwned (S : Setup) (s : WebService) (e : Event) : Bool :=
  match closeInStep S s e with
  | none => true
  | some (i, channel) => (s.byChannel.lookup channel).all (· == i)

theorem owned_of_check (h : checkOwned S s e) : Owned S s e := by
  intro i channel hclose j hj
  unfold checkOwned at h
  rw [hclose] at h
  dsimp only at h
  rw [hj] at h
  simpa using h

def closeText : Bytes := "\x7b\"command\":\"close\",\"channel\":\"a\"\x7d".toUTF8.data.toList

/-- JSON with "close" as well. -/
def closingSetup : Setup where
  parse text :=
    if text = closeText then some [("command", .string "close"), ("channel", .string "a")]
    else plainSetup.parse text
  write := plainSetup.write
  csrfToken := "token"
  version := "0"
  build := "0"

/-- A socket closes the channel that it opened, and opens it again. -/
def ownRun : List Event :=
  openingRun ++ [.socket 0 (.input (controlFrame closeText)), .socket 0 .frame,
    .socket 0 (.input (controlFrame openText)), .socket 0 .frame]

/-- A second socket closes the channel of the first one. -/
def foreignRun : List Event :=
  openingRun ++ [.newSocket fun _ => 0, .socket 1 (.handshakeDone none 0),
    .socket 1 (.input (controlFrame helloText ++ controlFrame closeText)), .socket 1 .frame,
    .socket 1 .frame]

theorem run_routed_own : Routed closingSetup (run (step closingSetup) {} ownRun) ∧
    opener (run (step closingSetup) {} ownRun).log "a" = some 0 := by
  have hok : RunOk (step closingSetup) (fun s e => checkOwned closingSetup s e = true) {}
      ownRun := by
    decide +kernel
  refine ⟨(run_routed closingSetup (hok.mono fun _ _ => owned_of_check)).1, ?_⟩
  decide +kernel

/-- Afterwards the first socket still has the channel in its table. -/
theorem not_routed_foreign :
    ¬ Routed closingSetup (run (step closingSetup) {} foreignRun) := by
  intro h
  have hmem : (match (run (step closingSetup) {} foreignRun).sockets[0]? with
      | some socket => decide ("a" ∈ socket.channels)
      | none => false) = true := by
    decide +kernel
  have hnone : (run (step closingSetup) {} foreignRun).byChannel.lookup "a" = none := by
    decide +kernel
  split at hmem
  · rename_i socket hget
    have hhas := (h.tables "a" 0).mpr ⟨socket, hget, of_decide_eq_true hmem⟩
    exact nomatch hnone.symm.trans hhas
  · exact nomatch hmem

end Cockpit.Ws.WebService
