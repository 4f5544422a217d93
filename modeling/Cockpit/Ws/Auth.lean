import Cockpit.Common.Json
import Cockpit.Lib.Run

namespace Cockpit.Ws

/-!
# `src/ws/cockpitauth.c`: login

Sessions and the results of `/login` requests are numbered in the order in which they are made.
The callback of a request calls `cockpit_auth_login_finish` at once, as `on_login_complete` does.
Closing a transport with a child process only signals `closed` later on, so that is an event of
its own.  Reference counts are left out: a session that is freed gets no more events, and here
it may get any.  `nonce` is `cockpit_auth_nonce` as a function of the seed.
-/

/-! ## Values -/

/-- The codes of `COCKPIT_ERROR` that a login fails with. -/
inductive ErrorCode where
  | failed
  | authenticationFailed
  | permissionDenied
  deriving DecidableEq

structure AuthError where
  code : ErrorCode
  message : String
  deriving DecidableEq

/-- What runs when `timeout_tag` expires. -/
inductive Timeout where
  | authorize
  | session
  deriving DecidableEq

structure Session where
  cookie : Option String := none
  /-- Whether `service` is not `NULL`. -/
  service : Bool := true
  initialized : Bool := false
  timeout : Option Timeout := none
  controlSig : Bool := true
  closeSig : Bool := true
  result : Option Nat := none
  authorization : Option String := none
  authorize : Option JsonObject := none
  conversation : Option String := none
  /-- The `authorize` messages that went to the process: cookie and response. -/
  replies : List (String × String) := []
  /-- History: whether the process has sent an `init` whose `problem` is no text. -/
  cleanInit : Bool := false

/-- A `GSimpleAsyncResult` of `cockpit_auth_login_async`. -/
structure LoginResult where
  session : Option Nat := none
  failed : Bool := false
  error : Option AuthError := none
  /-- History: how often the callback was invoked. -/
  callbacks : Nat := 0

/-- From where a result is completed. -/
inductive Cause where
  | idle
  | init
  | control
  | closed
  | reset
  deriving DecidableEq

inductive Body where
  | authorize (object : JsonObject)
  | creds (session : Nat)

/-- What `cockpit_auth_login_finish` returned. -/
structure Outcome where
  result : Nat
  session : Option Nat
  cause : Cause
  body : Option Body := none
  error : Option AuthError := none
  /-- `WWW-Authenticate` -/
  challenge : Option String := none
  /-- The cookie in `Set-Cookie`. -/
  setCookie : Option String := none
  /-- Whether the process of the session had sent such an `init` by then. -/
  cleanInit : Bool := false

structure Auth where
  maxStartups : Nat
  maxStartupsBegin : Nat
  maxStartupsRate : Nat
  /-- A `guint`. -/
  startups : Nat := 0
  nonceSeed : Nat := 0
  allSessions : List Session := []
  results : List LoginResult := []
  /-- The results of `g_simple_async_result_complete_in_idle`. -/
  idle : List Nat := []
  /-- By cookie. -/
  sessions : AList (fun _ : String => Nat) := ∅
  /-- By conversation. -/
  conversations : AList (fun _ : String => Nat) := ∅
  /-- History: what the calls of `cockpit_auth_login_finish` returned. -/
  outcomes : List Outcome := []

/-! ## Authorize messages -/

/-- The characters that end a word: `strcspn (challenge, ": ")`. -/
def isDelimiter (c : Char) : Bool := c == ':' || c == ' '

/-- `cockpit_authorize_type`, the type. -/
def authorizeType (challenge : Option String) : Option String :=
  match (challenge.getD "").toList.takeWhile (!isDelimiter ·) with
  | [] => none
  | c :: word => some (String.ofList ((c :: word).map Char.toLower))

/-- `cockpit_authorize_type`, the rest. -/
def authorizeRest (challenge : String) : List Char :=
  ((challenge.toList.dropWhile (!isDelimiter ·)).drop 1).dropWhile (· == ' ')

/-- `cockpit_authorize_subject` -/
def authorizeSubject (challenge : String) : Option String :=
  match authorizeType (some challenge) with
  | none => none
  | some _ =>
    match (authorizeRest challenge).takeWhile (!isDelimiter ·) with
    | [] => none
    | c :: word => some (String.ofList (c :: word))

/-- What `reply_authorize_challenge` does when it returns `TRUE`. -/
inductive Reply where
  /-- It keeps a response without a cookie for later. -/
  | keep (response : String)
  /-- It takes login data over. -/
  | loginData
  /-- It sends the authorization to the process. -/
  | send (cookie authorization : String)

/-- `reply_authorize_challenge`; `none` for `FALSE`. -/
def challengeReply (authorize : Option JsonObject) (authorization : Option String) :
    Option Reply :=
  match authorize with
  | none => none
  | some authorize =>
    match Json.getString authorize "cookie" none, Json.getString authorize "challenge" none,
      Json.getString authorize "response" none with
    | some cookie, some challenge, some response =>
      match response, cookie with
      | some response, none => some (.keep response)
      | _, none => none
      | _, some cookie =>
        match challenge with
        | none => none
        | some challenge =>
          match authorizeType (some challenge) with
          | none => none
          | some type =>
            if type == "x-login-data" then some .loginData
            else match authorization with
              | none => none
              | some authorization =>
                match authorizeType (some authorization) with
                | none => none
                | some authorizationType =>
                  if type == "*" || type == authorizationType then
                    some (.send cookie authorization)
                  else none
    | _, _, _ => none

/-- The effect of `reply_authorize_challenge` on the session. -/
def Session.answer (session : Session) : Reply → Session
  | .keep response => { session with authorization := some response }
  | .loginData => session
  | .send cookie authorization =>
    { session with
      replies := session.replies ++ [(cookie, authorization)]
      authorization := none }

/-- `propagate_problem_to_error` -/
def problemError (authorization : Option String) (options : JsonObject) (problem : String)
    (message : Option String) : AuthError :=
  if problem == "authentication-unavailable" && authorizeType authorization == some "negotiate" then
    ⟨.authenticationFailed, "Negotiate authentication not available"⟩
  else if problem == "authentication-failed" || problem == "authentication-unavailable" then
    match options.getMember "auth-method-results" with
    | some (.object results) =>
      match Json.getString results "password" none with
      | some (some password) =>
        if password == "no-server-support" then
          ⟨.authenticationFailed, "Authentication failed: authentication-not-supported"⟩
        else ⟨.authenticationFailed, "Authentication failed"⟩
      | _ => ⟨.authenticationFailed, "Authentication failed: authentication-not-supported"⟩
    | _ => ⟨.authenticationFailed, "Authentication failed"⟩
  else if problem == "no-host" || problem == "invalid-hostkey" || problem == "unknown-hostkey" ||
      problem == "unknown-host" || problem == "terminated" then
    ⟨.authenticationFailed, "Authentication failed: " ++ problem⟩
  else if problem == "access-denied" then
    ⟨.permissionDenied, message.getD "Permission denied"⟩
  else match message with
    | some message => ⟨.failed, "Authentication failed: " ++ problem ++ ": " ++ message⟩
    | none => ⟨.failed, "Authentication failed: " ++ problem⟩

/-! ## Completing a login -/

namespace Auth

variable (nonce : Nat → String) (s : Auth) (k : Nat)

def onSession (f : Session → Session) : Auth :=
  { s with allSessions := s.allSessions.modify k f }

variable (r : Nat)

def onResult (f : LoginResult → LoginResult) : Auth :=
  { s with results := s.results.modify r f }

/-- `self->startups++` -/
def countStartup : Auth := { s with startups := (s.startups + 1) % 2 ^ 32 }

/-- `self->startups--` -/
def uncountStartup : Auth := { s with startups := (s.startups + (2 ^ 32 - 1)) % 2 ^ 32 }

def note (outcome : Outcome) : Auth := { s with outcomes := s.outcomes ++ [outcome] }

/-- `cockpit_session_reset` after it has completed the result. -/
def resetRest : Auth :=
  match s.allSessions[k]? with
  | none => s
  | some session =>
    let s := s.onSession k fun session =>
      { session with authorization := none, conversation := none, cookie := none }
    { s with
      sessions := match session.cookie with
        | some cookie => s.sessions.erase cookie
        | none => s.sessions
      conversations := match session.conversation with
        | some conversation => s.conversations.erase conversation
        | none => s.conversations }

/-- What `build_authorize_challenge` takes from an `authorize` message: the challenge, its type
    and the members that are passed on; `none` for `FALSE`. -/
def challengeOf (authorize : JsonObject) : Option (String × String × JsonObject) :=
  match Json.getString authorize "challenge" none with
  | some (some challenge) =>
    match authorizeType (some challenge) with
    | some type => some (challenge, type,
        authorize.filter fun member => member.1 != "challenge" && member.1 != "cookie")
    | none => none
  | _ => none

/-- The conversation that `build_authorize_challenge` starts. -/
def startConversation (challenge type : String) : Auth × Option String :=
  if type == "negotiate" then
    ({ s with nonceSeed := s.nonceSeed + 1 }, some (nonce s.nonceSeed))
  else if type == "x-conversation" then (s, authorizeSubject challenge)
  else (s, none)

/-- The part of `cockpit_auth_login_finish` that passes a challenge on. -/
def passChallenge (authorize : Option JsonObject) :
    Auth × Option Body × Option String :=
  match authorize.bind challengeOf with
  | none => (s, none, none)
  | some (challenge, type, object) =>
    let (s, conversation) := s.startConversation nonce challenge type
    let s := s.onSession k fun session => { session with conversation }
    match conversation with
    | none => (s, some (.authorize object), some challenge)
    | some conversation =>
      let s := s.onSession k fun session => { session with timeout := some .authorize }
      ({ s with conversations := s.conversations.insert conversation k },
        some (.authorize object), some challenge)

/-- The part of `cockpit_auth_login_finish` for a session that was initialized. -/
def startSession : Auth × String :=
  let cookie := "v=2;k=" ++ nonce s.nonceSeed
  let s := { s with nonceSeed := s.nonceSeed + 1 }
  let s := s.onSession k fun session =>
    { session with timeout := some .session, cookie := some cookie }
  ({ s with sessions := s.sessions.insert cookie k }, cookie)

/-- `cockpit_auth_login_finish` without an error in the result. -/
def finishLogin (k : Nat) (cause : Cause) : Auth :=
  match s.allSessions[k]? with
  | none => s
  | some session =>
    -- the second `g_return_val_if_fail`
    if session.result.isSome then s.note { result := r, session := some k, cause }
    else
      let s := s.resetRest k
      let (s, body, challenge) := s.passChallenge nonce k session.authorize
      if session.initialized then
        let (s, cookie) := s.startSession nonce k
        (s.note { result := r, session := some k, cause, challenge, body := some (.creds k),
                  setCookie := some cookie, cleanInit := session.cleanInit }).uncountStartup
      else
        (s.note { result := r, session := some k, cause, challenge, body,
                  error := some ⟨.authenticationFailed, "Authentication failed"⟩,
                  cleanInit := session.cleanInit }).uncountStartup

variable (cause : Cause)

/-- `cockpit_auth_login_finish` -/
def loginFinish : Auth :=
  match s.results[r]? with
  | none => s
  | some result =>
    if result.failed then
      -- the error is moved, and the result stays a failure
      ((s.onResult r fun result => { result with error := none }).note
        { result := r, session := result.session, cause, error := result.error }).uncountStartup
    else match result.session with
      -- the first `g_return_val_if_fail`
      | none => s.note { result := r, session := none, cause }
      | some k => s.finishLogin nonce r k cause

/-- `g_simple_async_result_complete` -/
def complete : Auth :=
  (s.onResult r fun result => { result with callbacks := result.callbacks + 1 }).loginFinish
    nonce r cause

/-- Complete the result of a session, if it has one. -/
def completeSession : Auth :=
  match s.allSessions[k]?.bind (·.result) with
  | none => s
  | some r => (s.onSession k fun session => { session with result := none }).complete nonce r cause

/-- `cockpit_session_reset` -/
def sessionReset : Auth := (s.completeSession nonce k .reset).resetRest k

/-- `g_simple_async_result_take_error` -/
def takeError (error : AuthError) : Auth :=
  s.onResult r fun result => { result with failed := true, error := some error }

/-- `g_simple_async_result_take_error` on the result of a session, if it has one. -/
def failSession (error : AuthError) : Auth :=
  match s.allSessions[k]?.bind (·.result) with
  | none => s
  | some r => s.takeError r error

/-! ## What the process of a session says -/

/-- `on_transport_control` for `init`. -/
def onInit (session : Session) (options : JsonObject) : Auth :=
  let s := s.onSession k fun session =>
    { session with controlSig := false, closeSig := false, initialized := true }
  match Json.getString options "problem" none with
  | some (some problem) =>
    let message := (Json.getString options "message" none).getD none
    let s := s.failSession k (problemError session.authorization options problem message)
    s.completeSession nonce k .init
  | _ =>
    let s := s.onSession k fun session => { session with cleanInit := true }
    s.completeSession nonce k .init

/-- `on_transport_control` -/
def onTransportControl (command : String) (options : JsonObject) : Auth :=
  match s.allSessions[k]? with
  | none => s
  | some session =>
    if !session.controlSig then s
    else if command == "init" then s.onInit nonce k session options
    else if command == "authorize" then
      let s := s.onSession k fun session => { session with authorize := some options }
      match challengeReply (some options) session.authorization with
      | some reply => s.onSession k (·.answer reply)
      | none => s.completeSession nonce k .control
    else s.completeSession nonce k .control

/-- The error of `on_transport_closed`. -/
def closedError (session : Session) (problem : Option String) : AuthError :=
  if problem == some "timeout" then ⟨.failed, "Authentication failed: Timeout"⟩
  else if !session.initialized then
    if problem.isSome then ⟨.failed, "Internal error in login process"⟩
    else ⟨.authenticationFailed, "Authentication failed"⟩
  else ⟨.failed, "Authentication internal error"⟩

/-- `on_transport_closed` -/
def onTransportClosed (problem : Option String) : Auth :=
  match s.allSessions[k]? with
  | none => s
  | some session =>
    if !session.closeSig then s
    else match session.result with
      | some _ =>
        (s.failSession k (closedError session problem)).completeSession nonce k .closed
      | none => s.sessionReset nonce k

/-! ## Services and timeouts -/

/-- `on_web_service_idling` -/
def onWebServiceIdling : Auth :=
  s.onSession k fun session => { session with timeout := some .session }

/-- `on_web_service_destroy` -/
def onWebServiceDestroy : Auth :=
  (s.onWebServiceIdling k).sessionReset nonce k

/-- `on_web_service_gone` -/
def onWebServiceGone : Auth :=
  (s.onSession k fun session => { session with service := false }).sessionReset nonce k

/-- `on_authorize_timeout` or `on_session_timeout`; the first only closes the transport. -/
def onTimeout (idling : Bool) : Auth :=
  match s.allSessions[k]? with
  | none => s
  | some session =>
    let s' := s.onSession k fun session => { session with timeout := none }
    match session.timeout with
    | none => s
    | some .authorize => s'
    | some .session => if !session.service || idling then s'.sessionReset nonce k else s'

end Auth

/-! ## Starting a login -/

/-- What a `/login` request comes with. -/
structure Request where
  /-- Whether its path has an application. -/
  application : Bool
  /-- The result of `cockpit_auth_steal_authorization`, and its conversation. -/
  authorization : Option String
  conversation : Option String := none
  /-- The error of `cockpit_session_create`, if it fails. -/
  createError : Option AuthError := none
  /-- The number that `g_random_int_range (0, 100)` returns. -/
  random : Nat := 0

namespace Auth

variable (nonce : Nat → String) (s : Auth)

/-- The percentage `p` of `can_start_auth`: an operand that is a `guint` makes every step unsigned,
    and the sum is an `int` again. -/
def refusalPercentage : Int :=
  let p : UInt32 := 100 - .ofNat s.maxStartupsRate
  let p := p * (.ofNat s.startups - .ofNat s.maxStartupsBegin)
  let p := p / (.ofNat s.maxStartups - .ofNat s.maxStartupsBegin)
  (p + .ofNat s.maxStartupsRate).toInt32.toInt

/-- `can_start_auth` -/
def canStartAuth (random : Nat) : Bool :=
  if s.maxStartups == 0 then true
  else if s.startups ≤ s.maxStartupsBegin then true
  else if s.startups > s.maxStartups then false
  else if s.maxStartupsRate == 100 then false
  else !decide (random < s.refusalPercentage)

/-- An error that is reported from the main loop. -/
def failInIdle (r : Nat) (error : AuthError) : Auth :=
  { s.takeError r error with idle := s.idle ++ [r] }

/-- The rest of `cockpit_auth_login_async`, once the request has a session. -/
def startLogin (r k : Nat) (authorization : String) (resumes : Bool) : Auth :=
  let s := s.onResult r fun result => { result with session := some k }
  let s := s.sessionReset nonce k
  let s := s.onSession k fun session =>
    { session with result := some r, authorization := some authorization }
  if resumes then
    match s.allSessions[k]?.bind fun session =>
        challengeReply session.authorize session.authorization with
    | none => s.failInIdle r ⟨.authenticationFailed, "Invalid conversation reply"⟩
    | some reply =>
      s.onSession k fun session => { session.answer reply with timeout := some .authorize }
  else s.onSession k fun session => { session with timeout := some .authorize }

/-- The session that a request goes on with, if it gets that far. -/
def resumes (request : Request) : Option Nat :=
  if s.countStartup.canStartAuth request.random && request.application &&
      request.authorization.isSome then
    request.conversation.bind (s.conversations.lookup ·)
  else none

/-- `cockpit_auth_login_async` -/
def loginAsync (request : Request) : Auth :=
  let r := s.results.length
  let s' := { s.countStartup with results := s.results ++ [({} : LoginResult)] }
  if !s.countStartup.canStartAuth request.random then
    s'.failInIdle r ⟨.failed, "Connection closed by host"⟩
  else match request.application, request.authorization with
    | true, some authorization =>
      match request.conversation with
      | some conversation =>
        match s.conversations.lookup conversation with
        | none => s'.failInIdle r ⟨.authenticationFailed, "Invalid conversation token"⟩
        | some k => s'.startLogin nonce r k authorization true
      | none =>
        match request.createError with
        | some error => s'.failInIdle r error
        | none =>
          { s' with allSessions := s.allSessions ++ [({} : Session)] }.startLogin nonce r
            s.allSessions.length authorization false
    | _, _ => s'.failInIdle r ⟨.authenticationFailed, "Authentication required"⟩

/-- The main loop runs the first idle source. -/
def runIdle : Auth :=
  match s.idle with
  | [] => s
  | r :: idle => { s with idle }.complete nonce r .idle

end Auth

/-! ## Runs -/

/-- What happens to a `CockpitAuth`; `k` is a session. -/
inductive Event where
  | login (request : Request)
  | idle
  | control (k : Nat) (command : String) (options : JsonObject)
  | closed (k : Nat) (problem : Option String)
  | timeout (k : Nat) (idling : Bool)
  | serviceIdling (k : Nat)
  | serviceDestroy (k : Nat)
  | serviceGone (k : Nat)

def step (nonce : Nat → String) (s : Auth) : Event → Auth
  | .login request => s.loginAsync nonce request
  | .idle => s.runIdle nonce
  | .control k command options => s.onTransportControl nonce k command options
  | .closed k problem => s.onTransportClosed nonce k problem
  | .timeout k idling => s.onTimeout nonce k idling
  | .serviceIdling k => s.onWebServiceIdling k
  | .serviceDestroy k => s.onWebServiceDestroy nonce k
  | .serviceGone k => s.onWebServiceGone nonce k

/-- `cockpit_auth_new` -/
def Auth.new (maxStartups maxStartupsBegin maxStartupsRate : Nat) : Auth :=
  { maxStartups, maxStartupsBegin, maxStartupsRate }

end Cockpit.Ws
