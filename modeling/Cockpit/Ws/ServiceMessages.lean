import Cockpit.Common.Authorize
import Cockpit.Ws.Service

namespace Cockpit.Ws

open WebSocket (Connection)
open Authorize (Heap)

/-!
# Messages from a WebSocket

A `ServiceSession` is a web service with its credentials, which the hints to the sockets are about.

* `WebService.refused` — what is invalid is answered, and the socket closed;
* `ServiceSession.answered_iff` — every message has an answer but an "open" without a channel, or an
  "authorize" that is too long to decode.
-/

/-- `CockpitCreds`, as far as messages change it. -/
structure Creds where
  user : Option CStr
  password : Option CStr
  poisoned : Bool

/-- `cockpit_creds_get_password` -/
def Creds.getPassword (creds : Creds) : Option CStr :=
  if creds.poisoned then none else creds.password

/-- `cockpit_creds_poison` -/
def Creds.poison (creds : Creds) : Creds := { creds with poisoned := true, password := none }

/-- A service with its credentials. -/
structure ServiceSession where
  service : WebService
  creds : Creds
  credentialRequests : Nat
  /-- An assertion fails, or an `int` overflows. -/
  stopped : Bool

namespace ServiceSession

variable (S : WebService.Setup) (heap : Heap)

/-- `send_socket_hints`, for one socket -/
def sendSocketHint (name value : String) (s : WebService) (i : Nat) : WebService :=
  match s.sockets[i]? with
  | none => s
  | some socket =>
    if socket.tracked && socket.connection.readyState == .opened then
      s.sendTo i .text WebService.controlPrefix
        (S.write [("command", .string "hint"), (name, .string value)])
    else s

/-- `send_socket_hints` -/
def sendSocketHints (s : WebService) (name value : String) : WebService :=
  (List.range s.sockets.length).foldl (sendSocketHint S name value) s

variable (s : ServiceSession)

/-- Hints about the credentials. -/
def hint (value : String) : ServiceSession :=
  { s with service := sendSocketHints S s.service "credential" value }

/-- `process_socket_authorize` -/
def processSocketAuthorize (options : JsonObject) : ServiceSession × Bool :=
  match Json.getString options "response" none with
  | none => (s, false)
  | some none =>
    let s := s.hint S (if s.creds.getPassword.isSome then "password" else "none")
    (if s.credentialRequests ≠ 0 then s.hint S "request" else s, true)
  | some (some response) =>
    let response := Authorize.ofBuffer response.toUTF8.data.toList
    match Authorize.authorizeType response.bytes with
    | none => (s, true)
    | some (type, _) =>
      if type ≠ Authorize.basicType then (s, true)
      else
        match Authorize.parseBasic heap response with
        | .error .assertion | .error .overflow => ({ s with stopped := true }, true)
        | .ok (some user, password) =>
          let s := s.hint S "password"
          ({ s with creds := { s.creds with user := some user, password := some password } }, true)
        -- no password, or one without a user
        | .ok (none, _) | .error .null =>
          let s := s.hint S "none"
          ({ s with
              credentialRequests := 0
              creds := { s.creds with user := none, password := none } }, true)

variable (i : Nat)

/-- `process_logout`, and the broadcast after it. -/
def processLogout (options : JsonObject) (payload : Bytes) :
    ServiceSession × Bool :=
  match Json.getBool options "disconnect" false with
  | none => (s, false)
  | some disconnect =>
    let s := { s with creds := s.creds.poison }
    let s := if disconnect then { s with service := s.service.dispose S } else s
    let s := s.hint S "none"
    ({ s with service := s.service.relay i options payload }, true)

/-- The commands of `dispatch_inbound_command` after "init", and whether they are valid. -/
def dispatchCommand (command : String) (channel : Option String)
    (options : JsonObject) (payload : Bytes) : ServiceSession × Bool :=
  if command == "authorize" then s.processSocketAuthorize S heap options
  else if command == "logout" then s.processLogout S i options payload
  else
    -- the credentials do not matter
    let result := s.service.dispatchCommand S i command channel options payload
    ({ s with service := result.1 }, result.2)

/-- `inbound_protocol_error` -/
def inboundProtocolError (problem : String) : ServiceSession :=
  { s with service := s.service.inboundProtocolError S i problem }

/-- `dispatch_inbound_command` -/
def dispatchInboundCommand (socket : WebService.Socket)
    (payload : Bytes) : ServiceSession :=
  match WebService.parseCommand S payload with
  | none => s.inboundProtocolError S i "protocol-error"
  | some (command, channel, options) =>
    if command == "init" then
      match WebService.initProblem options with
      | none =>
        { s with
          service := s.service.onSocket i fun socket => { socket with initReceived := true } }
      | some problem => s.inboundProtocolError S i problem
    else if !socket.initReceived then s.inboundProtocolError S i "protocol-error"
    else match s.dispatchCommand S heap i command channel options payload with
      | (s, true) => s
      | (s, false) => s.inboundProtocolError S i "protocol-error"

/-- `on_web_socket_message` -/
def onWebSocketMessage (message : Bytes) : ServiceSession :=
  match s.service.sockets[i]? with
  | none => s
  | some socket =>
    if !socket.tracked then s
    else match Frame.parseFrame message with
      | none => s
      | some (none, payload) => s.dispatchInboundCommand S heap i socket payload
      | some (some channel, payload) =>
        if s.service.closing || s.service.sentDone then s
        else { s with service := s.service.record (.data channel payload) }

end ServiceSession

/-! ### What closing a socket leaves alone -/

namespace WebService

variable {S : Setup} (s : WebService)

theorem crashed_settle (i : Nat) : (s.settle S i).crashed = s.crashed := by
  unfold settle
  split
  · rfl
  split
  · rfl
  · dsimp only
    split
    · unfold onWebSocketClosing
      dsimp only
      split <;> rfl
    · rfl
  · rfl

theorem crashed_closeConnection (i : Nat) (code : UInt16) (data : String) :
    (s.closeConnection S i code data).crashed = s.crashed := by
  rw [closeConnection, crashed_settle]
  rfl

theorem crashed_closeSocket (problem : String) (s : WebService) (i : Nat) :
    (closeSocket S problem s i).crashed = s.crashed := by
  unfold closeSocket
  split
  · rfl
  · split
    · exact crashed_closeConnection _ _ _ _
    · rfl

theorem crashed_dispose : (s.dispose S).crashed = s.crashed := by
  have hfold : ∀ (is : List Nat) (s : WebService),
      (is.foldl (closeSocket S "terminated") s).crashed = s.crashed := by
    intro is
    induction is with
    | nil => exact fun _ => rfl
    | cons i is ih => exact fun s => (ih _).trans (crashed_closeSocket _ _ _)
  unfold dispose closeSockets
  refine (hfold _ _).trans ?_
  dsimp only
  split <;> rfl

theorem send_kept (c : Connection) (type : WebSocket.DataType) (pref message : Bytes) :
    (c.send type pref message).closeSent = c.closeSent ∧
      (c.send type pref message).handshakeDone = c.handshakeDone := by
  have hqueue : ∀ opcode,
      (c.sendPrefixedMessage false false opcode pref message).closeSent = c.closeSent ∧
        (c.sendPrefixedMessage false false opcode pref message).handshakeDone =
          c.handshakeDone := by
    intro opcode
    unfold Connection.sendPrefixedMessage Connection.queue
    dsimp only
    split <;> exact ⟨rfl, rfl⟩
  unfold Connection.send
  split
  · exact ⟨rfl, rfl⟩
  split
  · split
    · exact ⟨rfl, rfl⟩
    · exact hqueue 0x01
  · exact hqueue 0x02

section

variable {s : WebService} {i : Nat} {socket : Socket} (hget : s.sockets[i]? = some socket)

include hget

theorem getElem?_onConnection (f : Connection → Connection) :
    (s.onConnection i f).sockets[i]? = some { socket with connection := f socket.connection } := by
  show (s.sockets.modify i _)[i]? = _
  rw [List.getElem?_modify_eq, hget]
  rfl

/-- Closing a socket that has not sent a close frame sends one. -/
theorem closeConnection_sent (htrack : socket.tracked)
    (hsent : socket.connection.closeSent = false) (hdone : socket.connection.handshakeDone)
    (code : UInt16) (data : String) :
    ∃ socket', (s.closeConnection S i code data).sockets[i]? = some socket' ∧
      socket'.connection.closeSent := by
  have hclose : socket.connection.close code (some data.toUTF8.data.toList) =
      { socket.connection with
        pending := .closing code (some data.toUTF8.data.toList) :: socket.connection.pending } := by
    rw [Connection.close, if_neg (by rw [hsent]; exact Bool.false_ne_true)]
  have hget' := getElem?_onConnection hget (·.close code (some data.toUTF8.data.toList))
  unfold closeConnection settle
  rw [hget', hclose]
  dsimp only
  rw [if_pos htrack]
  -- the handlers of "closing" do not take the socket away
  have hkept : ∀ s' : WebService, s'.sockets[i]? = some { socket with
        connection := socket.connection.close code (some data.toUTF8.data.toList) } →
      ∃ socket', (s'.onWebSocketClosing S i { socket with
          connection := socket.connection.close code (some data.toUTF8.data.toList) }).sockets[i]? =
        some socket' ∧ socket'.connection =
          socket.connection.close code (some data.toUTF8.data.toList) := by
    intro s' hs'
    have hmodify : (s'.sockets.modify i fun socket => { socket with closingEmitted := true })[i]? =
        some { socket with
          connection := socket.connection.close code (some data.toUTF8.data.toList)
          closingEmitted := true } := by
      rw [List.getElem?_modify_eq, hs']
      rfl
    unfold onWebSocketClosing
    dsimp only
    split <;> exact ⟨_, hmodify, rfl⟩
  obtain ⟨socket', hsocket', hconn⟩ := hkept _ hget'
  rw [hclose] at hsocket' hconn
  refine ⟨_, getElem?_onConnection hsocket' _, ?_⟩
  dsimp only
  rw [hconn, htrack]
  simp [Connection.closingHandled, hdone, Connection.sendClose]

end

/-- A "close" with the problem is sent to an open socket, and the socket closed; one that is not
    open is closing already. -/
def Refused (S : Setup) (s : WebService) (i : Nat) (problem : String) (s' : WebService) : Prop :=
  ∃ socket, s.sockets[i]? = some socket ∧ ((socket.connection.readyState ≠ .opened ∧ s' = s) ∨
      (s' = (s.sendTo i .text controlPrefix
          (S.write [("command", .string "close"), ("problem", .string problem)])).closeConnection S
            i 1011 problem ∧
        ∃ socket', s'.sockets[i]? = some socket' ∧ socket'.connection.closeSent ∧
          socket'.connection.readyState ≠ .opened))

/-- **What is invalid is answered**, and the socket closed. -/
theorem refused {s : WebService} {i : Nat} {socket : Socket} (hget : s.sockets[i]? = some socket)
    (htrack : socket.tracked) (problem : String) :
    Refused S s i problem (s.inboundProtocolError S i problem) := by
  unfold inboundProtocolError
  rw [hget]
  dsimp only
  by_cases hopen : socket.connection.readyState = .opened
  · rw [if_pos (beq_iff_eq.mpr hopen)]
    have hparts : socket.connection.closeSent = false ∧ socket.connection.handshakeDone := by
      unfold Connection.readyState at hopen
      split at hopen
      · cases hopen
      split at hopen
      · cases hopen
      rename_i hsent
      split at hopen
      · rename_i hdone
        refine ⟨?_, hdone⟩
        cases hclose : socket.connection.closeSent with
        | false => rfl
        | true => simp [hclose] at hsent
      · cases hopen
    obtain ⟨hsent, hdone⟩ := send_kept socket.connection .text controlPrefix
      (S.write [("command", .string "close"), ("problem", .string problem)])
    have hget' := getElem?_onConnection hget fun c => c.send .text controlPrefix
      (S.write [("command", .string "close"), ("problem", .string problem)])
    obtain ⟨socket', hsocket', hclos⟩ := @closeConnection_sent S _ i _ hget' htrack
      (hsent.trans hparts.1) (hdone.trans hparts.2) 1011 problem
    refine ⟨socket, hget, .inr ⟨rfl, socket', hsocket', hclos, ?_⟩⟩
    unfold Connection.readyState
    rw [hclos, Bool.or_true]
    split <;> exact nofun
  · rw [if_neg (by simpa using hopen)]
    exact ⟨socket, hget, .inl ⟨hopen, rfl⟩⟩

/-! ### What the credentials leave alone -/

/-- The service without its sockets. -/
def others : WebService := { s with sockets := [] }

section

variable {s s' : WebService} {i : Nat} {command : String} {channel : Option String}
    {options : JsonObject} {payload : Bytes}

/-- What is invalid has done nothing yet. -/
theorem dispatchCommand_invalid
    (h : s.dispatchCommand S i command channel options payload = (s', false)) : s' = s := by
  unfold dispatchCommand at h
  split at h
  · unfold processAndRelayOpen at h
    split at h
    · cases h
    split at h
    · cases h
    split at h
    · exact (Prod.mk.inj h).1.symm
    · split at h
      · exact (Prod.mk.inj h).1.symm
      · cases h
  split at h
  · exact (Prod.mk.inj h).1.symm
  split at h
  · unfold processLogout at h
    split at h
    · exact (Prod.mk.inj h).1.symm
    · cases h
  split at h
  · split at h
    · exact (Prod.mk.inj h).1.symm
    · cases h
  · split at h <;> cases h

/-- What the commands of the channels do. -/
theorem dispatchCommand_cases
    (h : s.dispatchCommand S i command channel options payload = (s', true))
    (hauth : command ≠ "authorize") (hlogout : command ≠ "logout") :
    s' = s ∨ s' = s.relay i options payload ∨
      (∃ channel, s' = (s.removeChannel i channel).relay i options payload) ∨
      (command = "open" ∧ ((channel = none ∧ s.closing = false ∧ s' = { s with crashed := true }) ∨
          ∃ channel type,
            s' = (s.addChannel i channel type).relay i options (S.write options))) := by
  unfold dispatchCommand at h
  split at h
  · rename_i hopen
    unfold processAndRelayOpen at h
    split at h
    · exact .inl (Prod.mk.inj h).1.symm
    rename_i hclsg
    refine .inr (.inr (.inr ⟨beq_iff_eq.mp hopen, ?_⟩))
    split at h
    · exact .inl ⟨rfl, by simpa using hclsg, (Prod.mk.inj h).1.symm⟩
    rename_i channel
    split at h
    · cases h
    · split at h
      · cases h
      · exact .inr ⟨channel, _, (Prod.mk.inj h).1.symm⟩
  rw [if_neg (by simpa using hauth), if_neg (by simpa using hlogout)] at h
  split at h
  · split at h
    · cases h
    · rename_i channel
      exact .inr (.inr (.inl ⟨channel, (Prod.mk.inj h).1.symm⟩))
  split at h
  · exact .inr (.inl (Prod.mk.inj h).1.symm)
  obtain ⟨rfl, -⟩ := Prod.mk.inj h
  split
  · exact .inr (.inl rfl)
  · exact .inl rfl

end

end WebService

namespace ServiceSession

open WebService (others)

variable {S : WebService.Setup} {heap : Heap}

theorem others_sendSocketHints (s : WebService) (name value : String) :
    (sendSocketHints S s name value).others = s.others := by
  have hone : ∀ (s : WebService) (i : Nat),
      (sendSocketHint S name value s i).others = s.others := by
    intro s i
    unfold sendSocketHint
    split
    · rfl
    · split <;> rfl
  have hfold : ∀ (is : List Nat) (s : WebService),
      (is.foldl (sendSocketHint S name value) s).others = s.others := by
    intro is
    induction is with
    | nil => exact fun _ => rfl
    | cons i is ih => exact fun s => (ih _).trans (hone s i)
  exact hfold _ s

@[simp] theorem others_hint (s : ServiceSession) (value : String) :
    (s.hint S value).service.others = s.service.others :=
  others_sendSocketHints s.service "credential" value

@[simp] theorem crashed_hint (s : ServiceSession) (value : String) :
    (s.hint S value).service.crashed = s.service.crashed := by
  show (s.hint S value).service.others.crashed = s.service.others.crashed
  rw [others_hint]

variable {s s' : ServiceSession} {options : JsonObject}

/-- What is invalid has done nothing yet. -/
theorem processSocketAuthorize_invalid
    (h : s.processSocketAuthorize S heap options = (s', false)) : s' = s := by
  unfold processSocketAuthorize at h
  split at h
  · exact (Prod.mk.inj h).1.symm
  · cases h
  dsimp only at h
  split at h
  · cases h
  · split at h
    · cases h
    · split at h <;> cases h

variable {i : Nat} {payload : Bytes} {command : String} {channel : Option String}

/-- What is invalid has done nothing yet. -/
theorem dispatchCommand_invalid
    (h : s.dispatchCommand S heap i command channel options payload = (s', false)) : s' = s := by
  unfold dispatchCommand at h
  split at h
  · exact processSocketAuthorize_invalid h
  split at h
  · unfold processLogout at h
    split at h
    · exact (Prod.mk.inj h).1.symm
    · cases h
  obtain ⟨rfl, hvalid⟩ := Prod.mk.inj h
  have hsame : (s.service.dispatchCommand S i command channel options payload).1 = s.service :=
    WebService.dispatchCommand_invalid (Prod.ext rfl hvalid)
  rw [hsame]

/-! ### Every message has an answer -/

/-- What a message says to the bridge. -/
inductive Passed (S : WebService.Setup) (message : Bytes) (i : Nat) : WebService.Entry → Prop
  | data {channel : CStr} {payload : Bytes} :
      Frame.parseFrame message = some (some channel, payload) →
        Passed S message i (.data channel payload)
  | control {command : String} {channel : Option String} {options : JsonObject} {payload : Bytes} :
      Frame.parseFrame message = some (none, payload) →
        WebService.parseCommand S payload = some (command, channel, options) →
          Passed S message i (.control (.relay i) options payload)
  /-- The options of an "open" are written again. -/
  | opening {channel : Option String} {options : JsonObject} {payload : Bytes} :
      Frame.parseFrame message = some (none, payload) →
        WebService.parseCommand S payload = some ("open", channel, options) →
          Passed S message i (.control (.relay i) options (S.write options))

/-- What the service does itself with a message. -/
inductive Handled (S : WebService.Setup) (s : ServiceSession) (i : Nat) : ServiceSession → Prop
  | ready : Handled S s i
      { s with service := s.service.onSocket i fun socket => { socket with initReceived := true } }
  | opened (channel : String) (type : WebSocket.DataType) :
      Handled S s i { s with service := s.service.addChannel i channel type }
  | closed (channel : String) :
      Handled S s i { s with service := s.service.removeChannel i channel }
  | hinted (values : List String) (creds : Creds) (credentialRequests : Nat) :
      Handled S s i { values.foldl (hint S) s with creds, credentialRequests }
  | loggedOut (disconnect : Bool) :
      Handled S s i (hint S { s with
        creds := s.creds.poison
        service := if disconnect then s.service.dispose S else s.service } "none")

/-- A message is ignored, handled, passed on or refused. -/
inductive Answer (S : WebService.Setup) (s : ServiceSession) (i : Nat) (message : Bytes) :
    ServiceSession → Prop
  | ignored : Answer S s i message s
  | handled {s' : ServiceSession} : Handled S s i s' → Answer S s i message s'
  | relayed {s' : ServiceSession} {entry : WebService.Entry} : s' = s ∨ Handled S s i s' →
      Passed S message i entry → Answer S s i message { s' with service := s'.service.record entry }
  | refused {problem : String} {service : WebService} :
      problem = "protocol-error" ∨ problem = "not-supported" →
        WebService.Refused S s.service i problem service → Answer S s i message { s with service }

/-- An "open" without a channel, or an "authorize" that is too long for `cockpit_base64_pton`. -/
def Fatal (S : WebService.Setup) (heap : Heap) (s : ServiceSession) (i : Nat) (message : Bytes) :
    Prop :=
  ∃ socket payload command channel options, s.service.sockets[i]? = some socket ∧
    socket.tracked ∧ socket.initReceived ∧
    Frame.parseFrame message = some (none, payload) ∧
    WebService.parseCommand S payload = some (command, channel, options) ∧
    ((command = "open" ∧ channel = none ∧ s.service.closing = false) ∨
      (command = "authorize" ∧ ∃ response, Json.getString options "response" none =
        some (some response) ∧
          Authorize.parseBasic heap (Authorize.ofBuffer response.toUTF8.data.toList) =
            .error .overflow))

theorem Handled.alive (h : Handled S s i s') :
    s'.service.crashed = s.service.crashed ∧ s'.stopped = s.stopped := by
  cases h with
  | ready | opened channel type | closed channel => exact ⟨rfl, rfl⟩
  | hinted values creds credentialRequests =>
    induction values generalizing s with
    | nil => exact ⟨rfl, rfl⟩
    | cons value values ih =>
      obtain ⟨hcrash, hstop⟩ := @ih (s.hint S value)
      exact ⟨hcrash.trans (crashed_hint s value), hstop⟩
  | loggedOut disconnect =>
    refine ⟨(crashed_hint _ _).trans ?_, rfl⟩
    dsimp only
    split
    · exact WebService.crashed_dispose _
    · rfl

variable {message : Bytes}

theorem Answer.alive
    (h : Answer S s i message s') :
    s'.service.crashed = s.service.crashed ∧ s'.stopped = s.stopped := by
  cases h with
  | ignored => exact ⟨rfl, rfl⟩
  | handled hhand => exact hhand.alive
  | relayed hs' _ =>
    rcases hs' with rfl | hhand
    · exact ⟨rfl, rfl⟩
    · exact hhand.alive
  | refused _ hrefu =>
    obtain ⟨_, _, ⟨_, rfl⟩ | ⟨rfl, _⟩⟩ := hrefu
    · exact ⟨rfl, rfl⟩
    · exact ⟨WebService.crashed_closeConnection _ _ _ _, rfl⟩

/-- Nothing is passed on once the service is disposed of. -/
theorem Answer.relay (hs' : s' = s ∨ Handled S s i s')
    (hpass : Passed S message i (.control (.relay i) options payload)) :
    Answer S s i message { s' with service := s'.service.relay i options payload } := by
  unfold WebService.relay
  split
  · rcases hs' with rfl | hhand
    · exact .ignored
    · exact .handled hhand
  · exact .relayed hs' hpass

theorem answer_processSocketAuthorize (h : s.processSocketAuthorize S heap options = (s', true))
    (hfits : ∀ response, Json.getString options "response" none = some (some response) →
      Authorize.parseBasic heap (Authorize.ofBuffer response.toUTF8.data.toList) ≠
        .error .overflow) :
    Answer S s i message s' := by
  unfold processSocketAuthorize at h
  split at h
  · cases h
  · dsimp only at h
    obtain ⟨rfl, -⟩ := Prod.mk.inj h
    generalize (if s.creds.getPassword.isSome = true then "password" else "none") = value
    split
    · exact .handled (.hinted [value, "request"] s.creds s.credentialRequests)
    · exact .handled (.hinted [value] s.creds s.credentialRequests)
  rename_i response hresp
  dsimp only at h
  split at h
  · obtain ⟨rfl, -⟩ := Prod.mk.inj h
    exact .ignored
  split at h
  · obtain ⟨rfl, -⟩ := Prod.mk.inj h
    exact .ignored
  split at h
  · rename_i hassertion
    exact absurd hassertion (Authorize.parseBasic_ne_assertion heap _)
  · rename_i hoverflow
    exact absurd hoverflow (hfits response hresp)
  · obtain ⟨rfl, -⟩ := Prod.mk.inj h
    exact .handled (.hinted ["password"] _ s.credentialRequests)
  · obtain ⟨rfl, -⟩ := Prod.mk.inj h
    exact .handled (.hinted ["none"] _ 0)
  · obtain ⟨rfl, -⟩ := Prod.mk.inj h
    exact .handled (.hinted ["none"] _ 0)

theorem answer_dispatchCommand (hframe : Frame.parseFrame message = some (none, payload))
    (hparse : WebService.parseCommand S payload = some (command, channel, options))
    (hopen : ¬ (command = "open" ∧ channel = none ∧ s.service.closing = false))
    (hfits : command = "authorize" → ∀ response,
      Json.getString options "response" none = some (some response) →
        Authorize.parseBasic heap (Authorize.ofBuffer response.toUTF8.data.toList) ≠
          .error .overflow)
    (h : s.dispatchCommand S heap i command channel options payload = (s', true)) :
    Answer S s i message s' := by
  have hpass : Passed S message i (.control (.relay i) options payload) := .control hframe hparse
  unfold dispatchCommand at h
  split at h
  · rename_i hcmd
    exact answer_processSocketAuthorize h (hfits (beq_iff_eq.mp hcmd))
  split at h
  · unfold processLogout at h
    split at h
    · cases h
    rename_i disconnect hdisconnect
    obtain ⟨rfl, -⟩ := Prod.mk.inj h
    have hhand := @Handled.loggedOut S s i disconnect
    cases disconnect <;> exact .relay (.inr hhand) hpass
  rename_i hauth hlogout
  generalize hres : s.service.dispatchCommand S i command channel options payload = result
    at h
  obtain ⟨service, valid⟩ := result
  obtain ⟨rfl, rfl⟩ := Prod.mk.inj h
  rcases WebService.dispatchCommand_cases hres (by simpa using hauth)
    (by simpa using hlogout) with rfl | rfl | ⟨channel, rfl⟩ | ⟨rfl, hopened⟩
  · exact .ignored
  · exact .relay (.inl rfl) hpass
  · exact .relay (.inr (.closed channel)) hpass
  · rcases hopened with ⟨hnone, hclsg, _⟩ | ⟨channel, type, rfl⟩
    · exact absurd ⟨rfl, hnone, hclsg⟩ hopen
    · exact .relay (.inr (.opened channel type)) (.opening hframe hparse)

/-- **Only an "open" without a channel, or an "authorize" that is too long, is not answered.** -/
theorem answer_onWebSocketMessage (hfatal : ¬ Fatal S heap s i message) :
    Answer S s i message (s.onWebSocketMessage S heap i message) := by
  unfold onWebSocketMessage
  split
  · exact .ignored
  rename_i socket hget
  split
  · exact .ignored
  rename_i htrack
  have htrack : socket.tracked := by simpa using htrack
  have hrefu : ∀ problem, problem = "protocol-error" ∨ problem = "not-supported" →
      Answer S s i message (s.inboundProtocolError S i problem) := fun problem hprob =>
    .refused hprob (WebService.refused hget htrack problem)
  split
  · exact .ignored
  · rename_i payload hframe
    unfold dispatchInboundCommand
    split
    · exact hrefu _ (.inl rfl)
    rename_i command channel options hparse
    split
    · split
      · exact .handled .ready
      rename_i problem hprob
      refine hrefu problem ?_
      unfold WebService.initProblem at hprob
      split at hprob
      · exact .inl (Option.some.inj hprob).symm
      · split at hprob
        · exact nomatch hprob
        · exact .inr (Option.some.inj hprob).symm
    split
    · exact hrefu _ (.inl rfl)
    rename_i hready
    have hready : socket.initReceived := by simpa using hready
    split
    · rename_i s' hdispatch
      refine answer_dispatchCommand hframe hparse (fun hopen => hfatal ?_)
        (fun hcmd response hresp hoverflow => hfatal ?_) hdispatch
      · exact ⟨socket, payload, command, channel, options, hget, htrack, hready, hframe,
          hparse, .inl hopen⟩
      · exact ⟨socket, payload, command, channel, options, hget, htrack, hready, hframe,
          hparse, .inr ⟨hcmd, response, hresp, hoverflow⟩⟩
    · rename_i s' hdispatch
      rw [dispatchCommand_invalid hdispatch]
      exact hrefu _ (.inl rfl)
  rename_i channel payload hframe
  split
  · exact .ignored
  · exact .relayed (.inl rfl) (.data hframe)

/-- The challenge of a basic response that was decoded is a basic one. -/
theorem authorizeType_of_overflow {challenge : CStr}
    (h : Authorize.parseBasic heap challenge = .error .overflow) :
    ∃ rest, Authorize.authorizeType challenge.bytes = some (Authorize.basicType, rest) := by
  unfold Authorize.parseBasic at h
  split at h
  · exact nomatch h
  rename_i type rest htype
  split at h
  · exact nomatch h
  · rename_i hbasic
    rw [not_not.mp hbasic] at htype
    exact ⟨rest, htype⟩

theorem processSocketAuthorize_overflow {response : String}
    (hresp : Json.getString options "response" none = some (some response))
    (hoverflow : Authorize.parseBasic heap (Authorize.ofBuffer response.toUTF8.data.toList) =
      .error .overflow) :
    s.processSocketAuthorize S heap options = ({ s with stopped := true }, true) := by
  obtain ⟨rest, htype⟩ := authorizeType_of_overflow hoverflow
  unfold processSocketAuthorize
  rw [hresp]
  dsimp only
  rw [htype]
  dsimp only
  rw [if_neg (not_not.mpr rfl), hoverflow]

/-- A fatal message stops the service. -/
theorem Fatal.stops (h : Fatal S heap s i message) :
    (s.onWebSocketMessage S heap i message).service.crashed ∨
      (s.onWebSocketMessage S heap i message).stopped := by
  obtain ⟨socket, payload, command, channel, options, hget, htrack, hready, hframe, hparse, h⟩ :=
    h
  unfold onWebSocketMessage
  rw [hget, hframe]
  dsimp only
  rw [htrack]
  unfold dispatchInboundCommand
  rw [hparse]
  dsimp only
  rw [hready]
  rcases h with ⟨rfl, rfl, hclsg⟩ | ⟨rfl, response, hresp, hoverflow⟩
  · -- the lookup hashes the channel
    left
    simp [dispatchCommand, WebService.dispatchCommand, WebService.processAndRelayOpen, hclsg]
  · right
    simp [dispatchCommand, processSocketAuthorize_overflow hresp hoverflow]

/-- **A message is answered, and not fatal**, unless it is an "open" without a channel or an
    "authorize" that is too long. -/
theorem answered_iff (s : ServiceSession) (i : Nat) (message : Bytes)
    (halive : s.service.crashed = false) (hrunning : s.stopped = false) :
    ((s.onWebSocketMessage S heap i message).service.crashed = false ∧
      (s.onWebSocketMessage S heap i message).stopped = false ∧
        Answer S s i message (s.onWebSocketMessage S heap i message)) ↔
      ¬ Fatal S heap s i message := by
  constructor
  · rintro ⟨hcrashed, hstopped, _⟩ hfatal
    rcases hfatal.stops with hstops | hstops
    · exact nomatch (hcrashed.symm.trans hstops)
    · exact nomatch (hstopped.symm.trans hstops)
  · intro hfatal
    have hanswer := answer_onWebSocketMessage hfatal
    exact ⟨hanswer.alive.1.trans halive, hanswer.alive.2.trans hrunning, hanswer⟩

/-- The text of an "open" without a channel. -/
def bareOpenText : Bytes := "\x7b\"command\":\"open\"\x7d".toUTF8.data.toList

/-- JSON, as far as this text needs it. -/
def bareSetup : WebService.Setup where
  parse text := if text = bareOpenText then some [("command", .string "open")] else none
  write _ := bareOpenText
  csrfToken := "token"
  version := "0"
  build := "0"

def emptyHeap : Heap := Authorize.zeroHeap

/-- A service with a socket that has sent its "init". -/
def readySession : ServiceSession where
  service :=
    { sockets := [
        { connection := { WebSocket.Connection.new true true fun _ => 0 with handshakeDone := true }
          initReceived := true }] }
  creds := { user := none, password := none, poisoned := false }
  credentialRequests := 0
  stopped := false

/-- Text that is not JSON is answered. -/
theorem answered_garbage :
    (readySession.onWebSocketMessage bareSetup emptyHeap 0 [newline]).service.crashed = false ∧
      (readySession.onWebSocketMessage bareSetup emptyHeap 0 [newline]).stopped = false ∧
        Answer bareSetup readySession 0 [newline]
          (readySession.onWebSocketMessage bareSetup emptyHeap 0 [newline]) := by
  refine (answered_iff readySession 0 [newline] rfl rfl).mpr ?_
  rintro ⟨socket, payload, command, channel, options, _, _, _, hframe, hparse, _⟩
  have hpayload : payload = [] := by
    have hempty : Frame.parseFrame [newline] = some (none, []) := by decide
    rw [hempty] at hframe
    exact (Prod.mk.inj (Option.some.inj hframe)).2.symm
  rw [hpayload] at hparse
  exact nomatch hparse

/-- An "open" without a channel is fatal: the service is alive before it, and not after. -/
theorem not_answered_bare_open :
    readySession.service.crashed = false ∧ readySession.stopped = false ∧
      ¬ ((readySession.onWebSocketMessage bareSetup emptyHeap 0
          (newline :: bareOpenText)).service.crashed = false ∧
        (readySession.onWebSocketMessage bareSetup emptyHeap 0
          (newline :: bareOpenText)).stopped = false ∧
        Answer bareSetup readySession 0 (newline :: bareOpenText)
          (readySession.onWebSocketMessage bareSetup emptyHeap 0 (newline :: bareOpenText))) := by
  refine ⟨rfl, rfl, fun h => ?_⟩
  have hframe : Frame.parseFrame (newline :: bareOpenText) = some (none, bareOpenText) := by decide
  have hparse : WebService.parseCommand bareSetup bareOpenText =
      some ("open", none, [("command", .string "open")]) := by
    have htext : bareSetup.parse bareOpenText = some [("command", .string "open")] := by
      simp [bareSetup]
    unfold WebService.parseCommand
    rw [htext]
    rfl
  have hfatal : Fatal bareSetup emptyHeap readySession 0 (newline :: bareOpenText) :=
    ⟨_, _, _, _, _, rfl, rfl, rfl, hframe, hparse, .inl ⟨rfl, rfl, rfl⟩⟩
  rcases hfatal.stops with hcrashed | hstopped
  · exact nomatch (h.1.symm.trans hcrashed)
  · exact nomatch (h.2.1.symm.trans hstopped)

end ServiceSession

end Cockpit.Ws
