import Cockpit.WebSocket.RequestHead

namespace Cockpit

open Lib

/-!
# `src/common/cockpitwebserver.c`: the requests on a connection

A connection has a request that reads its input, or a response that is not done.  When the
response is done and can be followed by another one, a new request with a buffer of its own is
started on the connection.  The peer's certificate and the looking for TLS are left out; what they
leave in a first request is its `delayed_reply`.
-/

/-- What `parse_and_process_request` finds in a buffer. -/
structure ParsedRequest where
  method : CStr
  path : CStr
  headers : Headers
  length : Nat
  deriving DecidableEq

/-- What is sent for a request: what a handler of the path makes of it, or a reply of the server's
    own. -/
inductive Answer where
  | handled (originalPath path method : CStr) (headers : Headers)
  | moved (location : Bytes)
  | error (code : Nat)
  deriving DecidableEq

/-- The fields of `CockpitWebServer` that a request looks at. -/
structure WebServer where
  urlRoot : CStr
  sslExceptionPrefix : CStr

/-- `CockpitRequest` -/
structure WebRequest where
  buffer : Bytes
  delayedReply : Nat
  eofOkay : Bool

/-- A request that was answered: the bytes that were taken off the buffer for it, and what is
    sent. -/
structure Answered where
  bytes : Bytes
  answer : Answer
  deriving DecidableEq

/-- A connection. -/
structure WebConnection where
  request : Option WebRequest
  /-- Whether the response that is not done keeps the connection alive. -/
  response : Option Bool
  /-- Whether `close_io_stream` was called. -/
  closed : Bool
  /-- History: the requests that were answered. -/
  answered : List Answered

namespace CStr

/-- A string from an offset on. -/
def drop (s : CStr) (n : Nat) : CStr :=
  ⟨s.bytes.drop n, fun h => s.noNul (List.mem_of_mem_drop h)⟩

end CStr

namespace WebServer

/-- `cockpit_webserver_request_maximum` -/
def requestMaximum : Nat := 4096

/-! ### Parsing -/

/-- The blanks that `g_ascii_strtoull` skips. -/
def isStrtoullSpace (b : UInt8) : Bool := isSpace b || b = 11

/-- `g_ascii_strtoull` in base ten: the number, and what is behind it.  Without a digit that is
    the whole string. -/
def strtoull (s : CStr) : Nat × Bytes :=
  match s.bytes.dropWhile isStrtoullSpace with
  | [] => (0, s.bytes)
  | sign :: digits =>
    let number := if sign = 43 || sign = 45 then digits else sign :: digits
    if number.takeWhile isDigit = [] then (0, s.bytes)
    else
      let value := min (digitsValue 0 (number.takeWhile isDigit)) (2 ^ 64 - 1)
      (if sign = 45 then (2 ^ 64 - value) % 2 ^ 64 else value, number.dropWhile isDigit)

/-- The check of `Content-Length` in `parse_and_process_request` -/
def contentLength (headers : Headers) : Option Nat :=
  match lookupHeader headers "Content-Length" with
  | none => some 0
  | some value => if (strtoull value).2 ≠ [] then none else some (strtoull value).1

/-- The calls of the parsers in `parse_and_process_request`, with the check of `Content-Length`:
    the request at the front of a buffer -/
def parseRequest (buffer : Bytes) : Scan ParsedRequest :=
  match parseReqLine buffer with
  | .more => .more
  | .fail => .fail
  | .item off1 (method, path) =>
    match parseHeaders (buffer.drop off1) with
    | .more => .more
    | .fail => .fail
    | .item off2 headers =>
      match contentLength headers with
      | none => .fail
      | some length => .item (off1 + off2) ⟨method, path, headers, length⟩

/-! ### Answering -/

/-- `path_has_prefix` -/
def pathHasPrefix (path pref : CStr) : Bool :=
  !pref.bytes.isEmpty && pref.bytes.isPrefixOf path.bytes &&
    ((path.drop pref.length).bytes = [] || (path.drop pref.length).bytes.head? = some 47)

variable (delayedReply : Nat)

/-- `process_delayed_reply` -/
def processDelayedReply (path : CStr) (headers : Headers) : Answer :=
  if delayedReply = 301 then
    .moved (ascii "https://" ++ ((lookupHeader headers "Host").map CStr.bytes).getD [] ++
      path.bytes)
  else .error delayedReply

variable (self : WebServer)

/-- `process_request` -/
def processRequest (delayedReply : Nat) (method path : CStr)
    (headers : Headers) : Answer :=
  let outside := self.urlRoot.bytes ≠ [] && !pathHasPrefix path self.urlRoot
  let delayedReply := if outside then 404 else delayedReply
  let delayedReply :=
    if delayedReply = 301 && pathHasPrefix path self.sslExceptionPrefix then 0 else delayedReply
  if delayedReply ≠ 0 then processDelayedReply delayedReply path headers
  else .handled path (path.drop self.urlRoot.length) method headers

/-- The checks in `parse_and_process_request` behind those of the length. -/
def checkRequest (parsed : ParsedRequest) : Nat :=
  let delayedReply :=
    if parsed.method.bytes ≠ ascii "GET" && parsed.method.bytes ≠ ascii "HEAD" then 405
    else delayedReply
  match lookupHeader parsed.headers "Host" with
  | none => 400
  | some host => if host.bytes = [] then 400 else delayedReply

/-- What is sent for a request that was parsed. -/
def answer (delayedReply : Nat) (parsed : ParsedRequest) : Answer :=
  self.processRequest
    (checkRequest (if parsed.length ≠ 0 then 413 else delayedReply) parsed)
    parsed.method parsed.path parsed.headers

/-- Whether `cockpit_web_response_new` keeps the connection alive. -/
def keepAlive (headers : Headers) : Bool :=
  match lookupHeader headers "Connection" with
  | none => true
  | some connection => connection.bytes = ascii "keep-alive"

variable (conn : WebConnection)

/-- `parse_and_process_request` -/
def parseAndProcessRequest (request : WebRequest) :
    WebConnection :=
  if requestMaximum * 2 < request.buffer.length then { conn with request := none }
  else
    match parseRequest request.buffer with
    | .more => { conn with request := some request }
    -- the 400 that is noted in the request is lost with it
    | .fail => { conn with request := none }
    | .item off parsed =>
      if request.buffer.length < (off + parsed.length) % 2 ^ 64 then
        { conn with
          request := some { request with
            delayedReply := if parsed.length ≠ 0 then 413 else request.delayedReply } }
      else
        { conn with
          request := none
          response := some (keepAlive parsed.headers)
          answered := conn.answered ++
            [⟨request.buffer.take off, self.answer request.delayedReply parsed⟩] }

/-- `cockpit_request_start` -/
def requestStart : WebRequest where
  buffer := []
  delayedReply := 0
  eofOkay := true

/-- A connection whose first request has a reply that is delayed, or none. -/
def connect : WebConnection where
  request := some { requestStart with delayedReply := delayedReply }
  response := none
  closed := false
  answered := []

/-- What happens on a connection. -/
inductive WebEvent where
  | read (chunk : Bytes)
  | readError
  | eof
  | timeout
  | done (complete : Bool)

/-- `on_request_input` -/
def onRequestInput (request : WebRequest)
    (chunk : Bytes) : WebConnection :=
  self.parseAndProcessRequest conn
    { request with buffer := request.buffer ++ chunk, eofOkay := false }

/-- `on_web_response_done` -/
def onWebResponseDone (reusable : Bool) : WebConnection :=
  if reusable then { conn with response := none, request := some requestStart }
  else { conn with response := none, closed := true }

/-- One step of a connection. -/
def step (e : WebEvent) : WebConnection :=
  match conn.request, conn.response, e with
  | some request, _, .read chunk => self.onRequestInput conn request chunk
  | some request, _, .eof => { conn with request := none, closed := conn.closed || request.eofOkay }
  | some _, _, .readError => { conn with request := none }
  | some _, _, .timeout => { conn with request := none }
  | _, some keepAlive, .done complete => onWebResponseDone conn (complete && keepAlive)
  | _, _, _ => conn

end WebServer

end Cockpit
