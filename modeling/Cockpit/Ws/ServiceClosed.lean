import Cockpit.Ws.ServiceChannels

namespace Cockpit.Ws.WebService

open Lib List Bool
open WebSocket (Connection Later Onward Emitted)

/-!
# Runs of a web service

A socket ends when `on_iostream_closed` runs, and "close" follows from that alone.  `EndsWell`
asks that "closing" came first where the socket has channels: it does not when the stream ends
or fails, or when the library answers a protocol error with a close frame of its own.
-/

/-- The messages that the main loop makes the connection of a socket emit. -/
def Socket.messages (socket : Socket) (e : Connection.Event) : List (UInt8 × Bytes) :=
  (socket.connection.mainStep e).delivered.drop socket.connection.delivered.length

/-- While the transport is open, a socket is destroyed after "closing" or without channels, and
    what a message opens is fresh. -/
def EndsWell (S : Setup) (s : WebService) : Event → Prop
  | .socket i (.iostreamClosed _) => ∀ socket : Socket, s.sockets[i]? = some socket →
    s.transportOpen → socket.tracked → socket.connection.closeAsync →
      socket.closingEmitted ∨ ∀ channel, s.byChannel.lookup channel ≠ some i
  | .socket i e => ∀ socket : Socket, s.sockets[i]? = some socket → s.transportOpen →
    ∀ message ∈ socket.messages e, ∀ channel, opens S s socket message.2 = some channel →
      Fresh s i socket channel
  | _ => True

theorem EndsWell.fresh {S : Setup} {s : WebService} {i : Nat} {e : Connection.Event}
    (he : ∀ failed, e ≠ .iostreamClosed failed) (h : EndsWell S s (.socket i e))
    {socket : Socket} (hget : s.sockets[i]? = some socket) (hopen : s.transportOpen) :
    ∀ message ∈ socket.messages e, ∀ channel, opens S s socket message.2 = some channel →
      Fresh s i socket channel := by
  cases e with
  | iostreamClosed failed => exact absurd rfl (he failed)
  | connected | connectError _ | startInput | handshakeRequest _ | handshakeDone _ _
  | handshakeBad _ | handshakeFail _ _ | input _ | inputError _ | inputEnd | frame | output _
  | timeout | dispose | send _ _ _ | close _ _ | closingHandled _ | errorHandled =>
    exact h socket hget hopen

namespace Tidy

variable {S : Setup} {s : WebService}

/-! ## The main loop of a connection -/

section

variable (h : Tidy s)

include h

variable {i : Nat}

/-- The stream of a socket is closed. -/
theorem onIostreamClosed {failed : Bool} (hok : EndsWell S s (.socket i (.iostreamClosed failed))) :
    Tidy (s.onEvent S i (.iostreamClosed failed)) := by
  unfold onEvent
  split
  · exact h
  rename_i socket hget
  have hidle := h.quiet i socket hget
  show Tidy ((s.onConnection i fun _ =>
    if socket.connection.closeAsync then socket.connection.onIostreamClosed failed
      else socket.connection).onSignals S i socket.connection
        (if socket.connection.closeAsync then socket.connection.onIostreamClosed failed
          else socket.connection) socket.tracked)
  split
  · rename_i hasync
    have hgone : Tidy (s.onConnection i fun _ => socket.connection.onIostreamClosed failed) :=
      h.onConnection fun socket' hget' => by
        obtain rfl := Option.mem_unique hget hget'
        exact ⟨⟨id, id, id⟩, hidle⟩
    unfold onSignals
    rw [if_neg (by
      show ¬ (socket.connection.handshakeDone && !socket.connection.handshakeDone)
      simp)]
    rw [show (socket.connection.onIostreamClosed failed).delivered.drop
      socket.connection.delivered.length = [] from drop_length]
    dsimp only
    rw [if_pos (show socket.connection.closeSignals <
      (socket.connection.onIostreamClosed failed).closeSignals from Nat.lt_succ_self _)]
    refine hgone.onWebSocketClose fun socket' hget' hopen htrack => ?_
    obtain ⟨old, hold, ⟨-, rfl⟩ | ⟨hne, -⟩⟩ := modify_cases hget'
    · obtain rfl := Option.mem_unique hold hget
      exact hok old hold hopen htrack hasync
    · exact absurd rfl hne
  unfold onSignals
  rw [if_neg (by simp), drop_length]
  dsimp only
  rw [if_neg (Nat.lt_irrefl _)]
  exact h.settle hget ⟨id, id, id⟩ (.nothing hidle)

/-- Whatever else the main loop does with the connection of a socket. -/
theorem onEvent {e : Connection.Event}
    (hok : EndsWell S s (.socket i e)) : Tidy (s.onEvent S i e) := by
  by_cases hlast : ∃ failed, e = .iostreamClosed failed
  · obtain ⟨failed, rfl⟩ := hlast
    exact h.onIostreamClosed hok
  have he : ∀ failed, e ≠ .iostreamClosed failed := fun failed heq => hlast ⟨failed, heq⟩
  unfold WebService.onEvent
  split
  · exact h
  rename_i socket hget
  have hidle := h.quiet i socket hget
  obtain ⟨honward, hemit⟩ := socket.connection.mainStep_emits hidle he
  have hfresh := fun hopen => hok.fresh he hget hopen
  unfold Socket.messages at hfresh
  generalize socket.connection.mainStep e = c at honward hemit hfresh ⊢
  -- "open" and "message" leave no function waiting
  have hgone : ¬ WebSocket.Unheard socket.connection c →
      Tidy (s.onConnection i fun _ => c) := fun hheard =>
    h.onConnection fun socket' hget' => by
      obtain rfl := Option.mem_unique hget hget'
      refine ⟨honward.toLater, ?_⟩
      cases hemit with
      | nothing hnone => exact hnone
      | closing _ _ _ _ hunh | error _ _ _ _ hunh => exact absurd hunh hheard
  unfold onSignals
  split
  · rename_i hopened
    simp only [and_eq_true, not_eq_true'] at hopened
    have htidy := hgone fun hunh => absurd
      (hopened.1.symm.trans (hunh.handshakeDone.trans hopened.2)) (by decide)
    split
    · exact htidy.sendTo i .text controlPrefix _
    · exact htidy
  split
  · rename_i opcode message rest hmsgs
    have htidy := hgone fun hunh => by
      rw [hunh.delivered, drop_length] at hmsgs
      exact nomatch hmsgs
    split
    · rename_i hdone
      have hget' := getElem?_onConnection hget fun _ => c
      refine htidy.onWebSocketMessage hget' (honward.handshakeDone hdone)
        fun hopen channel hopens => ?_
      have hnew := hfresh hopen (opcode, message) (hmsgs ▸ mem_cons_self ..)
        channel hopens
      refine ⟨hnew.before, fun j other hother htrack hmem => ?_⟩
      obtain ⟨old, hold, ⟨-, rfl⟩ | ⟨-, rfl⟩⟩ := modify_cases hother
      · exact hnew.others j old hold htrack hmem
      · exact hnew.others j other hold htrack hmem
    · exact htidy
  rw [if_neg]
  · exact h.settle hget honward.toLater hemit
  · rw [honward.signals (h.stream i socket hget)]
    exact Nat.lt_irrefl _

/-! ## Messages from the bridge -/

theorem onTransportControl (command : String) (channel : Option String)
    (options : JsonObject) (payload : Bytes) :
    Tidy (s.onTransportControl S command channel options payload) := by
  unfold WebService.onTransportControl
  cases channel with
  | none =>
    dsimp only
    split
    · split
      · exact h.shut rfl rfl rfl
      · have hinit : Tidy { s with initReceived := true } := h.same rfl rfl rfl rfl rfl rfl
        refine hinit.record ⟨fun _ _ he => (nomatch he), fun _ he => (nomatch he), fun _ _ => rfl⟩
    split
    · exact h.shut rfl rfl rfl
    split
    · split
      · exact h
      · exact h.shut rfl rfl rfl
    · exact h
  | some channel =>
    dsimp only
    have hclos : Tidy (if command == "close" then s.processClose channel else s) := by
      split
      · unfold processClose
        split
        · exact h.record (plain_closed channel)
        · exact h.removeChannel _ (plain_closed channel) (beq_self_eq_true channel)
      · exact h
    split
    · exact hclos
    · exact hclos.sendTo _ .text controlPrefix payload

theorem onTransportRecv (channel : Option String) (payload : Bytes) :
    Tidy (s.onTransportRecv channel payload) := by
  unfold WebService.onTransportRecv
  split
  · exact h
  · split
    · exact h
    · exact h.sendTo _ _ _ payload

theorem onTransportClosed (problem : Option String) :
    Tidy (s.onTransportClosed S problem) := by
  have hshut : Tidy { s with transportOpen := false } := h.shut rfl rfl rfl
  exact (hshut.closeSockets problem).dispose

/-! ## Whole runs -/

theorem onPingTime : Tidy (s.onPingTime S) := by
  unfold WebService.onPingTime
  generalize List.range s.sockets.length = is
  induction is generalizing s with
  | nil => exact h
  | cons i is ih => exact ih (h.sendTo i .text controlPrefix _)

/-- A new socket has no channels. -/
theorem newSocket (random : Nat → UInt32) : Tidy (s.newSocket random) := { h with
  quiet i socket hget := by
    rcases append_singleton_cases hget with hold | ⟨-, rfl⟩
    · exact h.quiet i socket hold
    · rfl
  stream i socket hget := by
    rcases append_singleton_cases hget with hold | ⟨-, rfl⟩
    · exact h.stream i socket hold
    · rfl
  held hopen i channel between hlive := by
    obtain ⟨socket, hget, hheld⟩ := h.held hopen i channel between hlive
    have hlt := (List.getElem?_eq_some_iff.mp hget).1
    refine ⟨socket, (getElem?_append_left hlt).trans hget, fun htrack => ?_⟩
    obtain ⟨hmem, hby, hother, hcount, hdone, hsent⟩ := hheld htrack
    refine ⟨hmem, hby, fun j other hget' htrack' hmem' => ?_, hcount, hdone, hsent⟩
    rcases append_singleton_cases hget' with hold | ⟨-, rfl⟩
    · exact hother j other hold htrack' hmem'
    · exact absurd hmem' (AList.notMem_empty channel) }

theorem step {e : Event} (hok : EndsWell S s e) : Tidy (s.step S e) := by
  unfold WebService.step
  split
  · exact h
  cases e with
  | newSocket random => exact h.newSocket random
  | socket i e => exact h.onEvent hok
  | control command channel options payload =>
    dsimp only
    split
    · exact h
    · exact h.onTransportControl command channel options payload
  | recv channel payload =>
    dsimp only
    split
    · exact h
    · exact h.onTransportRecv channel payload
  | transportClosed problem =>
    dsimp only
    split
    · exact h
    · exact h.onTransportClosed problem
  | pingTime => exact h.onPingTime
  | disconnect => exact h.dispose

end

/-- A new web service. -/
theorem new : Tidy {} where
  quiet _ _ hget := nomatch hget
  stream _ _ hget := nomatch hget
  standing _ := ⟨rfl, rfl⟩
  closed before between after i channel hlog := by
    exact absurd hlog.symm (by simp)
  held _ _ _ _ hlive := by
    obtain ⟨before, hlog⟩ := hlive.since
    exact absurd hlog.symm (by simp)

end Tidy

/-- **Channels do not outlive their WebSocket.**  In a run in which sockets end well, when a
    socket is destroyed while the transport is open, each channel that was opened through it and
    not closed by either side has had one "close" sent to the bridge. -/
theorem run_channels_closed (S : Setup) {es : List Event}
    (hok : RunOk (step S) (EndsWell S) {} es) : ChannelsClosed (run (step S) {} es).log :=
  (run_invariant Tidy (fun _ _ h he => h.step he) .new hok).closed

/-! ### A conversation with one socket -/

/-- A check of `EndsWell` for a service with one socket. -/
def checkOne (s : WebService) : Event → Bool
  | .socket _ (.iostreamClosed _) => s.sockets.all (·.closingEmitted)
  | .socket _ e => decide (s.sockets.length ≤ 1) &&
    s.sockets.all fun socket => !socket.closingEmitted || (socket.messages e).isEmpty
  | _ => true

/-- With one socket, what a message opens is fresh as long as "closing" was not emitted. -/
theorem endsWell_of_check {S : Setup} {s : WebService} {e : Event} (h : checkOne s e) :
    EndsWell S s e := by
  have hfresh : ∀ i e, (decide (s.sockets.length ≤ 1) &&
      s.sockets.all fun socket => !socket.closingEmitted || (socket.messages e).isEmpty) = true →
      ∀ socket : Socket, s.sockets[i]? = some socket → s.transportOpen →
        ∀ message ∈ socket.messages e, ∀ channel,
          opens S s socket message.2 = some channel → Fresh s i socket channel := by
    intro i e h socket hget _ message hmsg channel _
    obtain ⟨hone, hall⟩ := and_eq_true_iff.mp h
    have hi := (List.getElem?_eq_some_iff.mp hget).1
    have hlen := of_decide_eq_true hone
    refine ⟨?_, fun j other hother _ _ => ?_⟩
    · have hsocket := all_eq_true.mp hall socket (mem_of_getElem? hget)
      rcases or_eq_true_iff.mp hsocket with hbef | hempty
      · simpa using hbef
      · rw [List.isEmpty_iff.mp hempty] at hmsg
        exact nomatch hmsg
    · have hj := (List.getElem?_eq_some_iff.mp hother).1
      omega
  cases e with
  | socket i e =>
    cases e with
    | iostreamClosed failed =>
      intro socket hget _ _ _
      exact .inl (all_eq_true.mp h socket (mem_of_getElem? hget))
    | connected | connectError _ | startInput | handshakeRequest _ | handshakeDone _ _
    | handshakeBad _ | handshakeFail _ _ | input _ | inputError _ | inputEnd | frame | output _
    | timeout | dispose | send _ _ _ | close _ _ | closingHandled _ | errorHandled =>
      exact hfresh i _ h
  | newSocket _ | control _ _ _ _ | recv _ _ | transportClosed _ | pingTime | disconnect =>
    trivial

def helloText : Bytes := "\x7b\"command\":\"init\",\"version\":1\x7d".toUTF8.data.toList

def openText : Bytes := "\x7b\"command\":\"open\",\"channel\":\"a\"\x7d".toUTF8.data.toList

/-- JSON, as far as the conversation needs it. -/
def plainSetup : Setup where
  parse text :=
    if text = helloText then some [("command", .string "init"), ("version", .int 1)]
    else if text = openText then some [("command", .string "open"), ("channel", .string "a")]
    else none
  write object :=
    match Json.getString object "command" none with
    | some (some "open") => openText
    | some (some "close") => ("\x7b\"command\":\"close\",\"channel\":\"a\"," ++
        "\"problem\":\"disconnected\"\x7d").toUTF8.data.toList
    | _ => ("\x7b\"command\":\"init\",\"version\":1,\"channel-seed\":\"1:\"," ++
        "\"host\":\"localhost\",\"csrf-token\":\"token\"," ++
        "\"capabilities\":[\"multi\",\"credentials\",\"binary\"]," ++
        "\"system\":\x7b\"version\":\"0\",\"build\":\"0\"\x7d\x7d").toUTF8.data.toList
  csrfToken := "token"
  version := "0"
  build := "0"

/-- A frame of the client around a control message. -/
def controlFrame (text : Bytes) : Bytes := (WebSocket.RawFrame.mk 2 none (newline :: text)).encode

/-- A socket that opens a channel. -/
def openingRun : List Event :=
  [.newSocket fun _ => 0, .socket 0 (.handshakeDone none 0),
    .socket 0 (.input (controlFrame helloText ++ controlFrame openText)), .socket 0 .frame,
    .socket 0 .frame]

/-- The client closes the socket in an orderly way. -/
def orderlyRun : List Event :=
  openingRun ++ [.socket 0 (.input [0x88, 0]), .socket 0 .frame, .socket 0 (.output (some 1000)),
    .socket 0 (.output (some 1000)), .socket 0 (.iostreamClosed false)]

/-- The stream ends without a close frame. -/
def abruptRun : List Event :=
  openingRun ++ [.socket 0 .inputEnd, .socket 0 (.iostreamClosed false)]

theorem run_channels_closed_orderly :
    ChannelsClosed (run (step plainSetup) {} orderlyRun).log ∧
      (run (step plainSetup) {} orderlyRun).log.countP (closes "a") = 1 := by
  have hok : RunOk (step plainSetup) (fun s e => checkOne s e = true) {} orderlyRun := by
    decide +kernel
  refine ⟨run_channels_closed plainSetup (hok.mono fun _ _ => endsWell_of_check), ?_⟩
  decide +kernel

/-- A socket comes to its end between the "open" of its channel and any "close" of it. -/
def leavesOpen : List Entry → Bool
  | [.opened 0 channel, e, .destroyed 0 true] =>
    channel == "a" && !closedBySide "a" e && !closes "a" e
  | _ => false

/-- The channel of a socket whose stream ends stays open in the bridge. -/
theorem not_channels_closed_abrupt :
    ¬ ChannelsClosed (run (step plainSetup) {} abruptRun).log := by
  have hlog : leavesOpen (run (step plainSetup) {} abruptRun).log := by decide +kernel
  intro h
  unfold leavesOpen at hlog
  split at hlog
  · rename_i channel e heq
    simp only [and_eq_true, beq_iff_eq, not_eq_true'] at hlog
    obtain ⟨⟨rfl, hside⟩, hcloses⟩ := hlog
    have hone := h [] [e] [] 0 "a" heq fun x hx => mem_singleton.mp hx ▸ hside
    rw [countP_singleton, hcloses] at hone
    cases hone
  · cases hlog

end Cockpit.Ws.WebService
