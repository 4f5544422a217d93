import Cockpit.Common.Json
import Cockpit.Common.WebResponse
import Cockpit.WebSocket.RequestHead

namespace Cockpit.Ws

open Lib

/-!
# `src/ws/cockpitchannelresponse.c`

A channel whose messages become an HTTP response.  The response is a `WebResponse`; its output
goes on in the main loop while messages arrive.  `log` is the history of what was done to it, each
time with the response before.  What the checksum header tells the service is left out.
-/

/-- `CockpitWebResponding` -/
inductive WebResponding where
  | ready
  | queuing
  | complete
  | sent
  deriving DecidableEq

/-- `cockpit_web_response_get_state` -/
def getState (response : WebResponse) : WebResponding :=
  if response.done then .sent
  else if response.complete then .complete
  else if response.count = 0 then .ready
  else .queuing

namespace ChannelResponse

/-- The functions that a response is made with. -/
structure Setup where
  /-- `cockpit_json_parse_bytes` -/
  parse : Bytes → Option JsonObject
  /-- `cockpit_template_expand` of the page for failures, for a message. -/
  template : CStr → List Bytes

/-- `CockpitChannelInject` -/
structure Inject where
  /-- Whether the service is still there. -/
  service : Bool
  /-- The filter of `cockpit_channel_inject_perform`, if there is a base path. -/
  filter : Option WebFilter

/-- What was done to the response, and the response before that. -/
structure Entry where
  event : WebResponse.Event
  before : WebResponse

end ChannelResponse

/-- `CockpitChannelResponse` -/
structure ChannelResponse where
  channel : String
  response : WebResponse
  headers : Headers
  inject : Option ChannelResponse.Inject
  /-- Whether `on_httpstream_recv` is connected, and not `on_transport_recv`. -/
  httpstreamRecv : Bool
  /-- Whether `on_httpstream_control` is connected, and not `on_transport_control`. -/
  httpstreamControl : Bool
  /-- The problem that the channel closed with, once it is closed. -/
  closed : Option (Option String) := none
  log : List ChannelResponse.Entry := []

namespace ChannelResponse

variable (S : Setup) (s : ChannelResponse)

/-- Something happens to the response. -/
def onResponse (event : WebResponse.Event) : ChannelResponse :=
  { s with response := s.response.step event, log := s.log ++ [⟨event, s.response⟩] }

/-- A call on the response. -/
def call (s : ChannelResponse) (c : WebResponse.Call) : ChannelResponse := s.onResponse (.call c)

/-- A string of the source. -/
def literal (s : String) : CStr := strndup (ascii s)

/-! ### Replies -/

/-- `cockpit_channel_inject_update_checksum` and `cockpit_channel_inject_perform` -/
def performInject (inject : Inject) : ChannelResponse :=
  { s with
    headers := s.headers.filter fun header =>
      !sameName (ascii "X-Cockpit-Pkg-Checksum") header.1.bytes
    response := { s.response with filters := s.response.filters ++ inject.filter.toList } }

/-- The injection in `ensure_headers`. -/
def injected : ChannelResponse :=
  match s.inject with
  | some inject => if inject.service then s.performInject inject else s
  | none => s

/-- `ensure_headers` -/
def ensureHeaders (status : UInt32) (reason : CStr) :
    ChannelResponse × Bool :=
  if getState s.response = .ready then
    let s := s.injected
    (s.call (.headersFull status reason (-1)
      (some (s.headers.map fun header => (header.1, some header.2)))), true)
  else (s, false)

/-- The messages of `cockpit_web_response_error` for the codes that are used here. -/
def errorMessage (code : UInt32) : CStr :=
  if code = 404 then literal "Not Found"
  else if code = 502 then literal "Remote Page is Unavailable"
  else literal "Internal Server Error"

/-- The loop of `cockpit_web_response_error`. -/
def queueBlocks (s : ChannelResponse) : List Bytes → ChannelResponse
  | [] => s.call .complete
  | block :: blocks =>
    if (s.response.queueData block).2 then (s.call (.queue block)).queueBlocks blocks
    else s.call (.queue block)

/-- `cockpit_web_response_error`, without headers and without a format. -/
def responseError (code : UInt32) : ChannelResponse :=
  (s.call (.headers code (errorMessage code) (-1)
    [(literal "Content-Type", some (literal "text/html; charset=utf8"))])).queueBlocks
      (S.template (errorMessage code))

/-- The code for a problem, in `cockpit_channel_response_close`. -/
def problemCode (problem : String) : UInt32 :=
  if problem = "not-found" then 404
  else if ["no-host", "no-cockpit", "unknown-hostkey", "authentication-failed",
      "disconnected"].contains problem then 502
  else 500

/-- `cockpit_channel_response_close` -/
def close (problem : Option String) : ChannelResponse :=
  let state := getState s.response
  let s := { s with closed := some problem }
  match problem with
  | none =>
    if state = .ready then (s.ensureHeaders 204 (literal "OK")).1.call .complete
    else if state = .queuing then s.call .abort
    else s
  | some problem =>
    if state = .ready then s.responseError S (problemCode problem) else s.call .abort

/-! ### Messages -/

/-- `on_transport_recv` -/
def onTransportRecv (payload : Bytes) : ChannelResponse :=
  (s.ensureHeaders 200 (literal "OK")).1.call (.queue payload)

/-- `object_to_headers` -/
def objectToHeaders (headers : Headers) (member : String × Json) : Headers :=
  match Json.asString member.2 with
  | none => headers
  | some value =>
    let header := strndup member.1.toUTF8.data.toList
    if sameName (ascii "Content-Length") header.bytes ||
        sameName (ascii "Connection") header.bytes then headers
    else insertHeader headers header (strndup value.toUTF8.data.toList)

/-- `parse_httpstream_response`, with the status and the reason if they are valid. -/
def parseHttpstreamResponse (object : JsonObject) :
    ChannelResponse × Option (Int × Option String) :=
  match Json.getInt object "status" 200, Json.getString object "reason" none with
  | some status, some reason =>
    match object.getMember "headers" with
    | none => (s, some (status, reason))
    | some (.object members) =>
      ({ s with headers := members.foldl objectToHeaders s.headers }, some (status, reason))
    | some _ => (s, none)
  | _, _ => (s, none)

/-- A `gint64` passed for a `guint`. -/
def toGuint (status : Int) : UInt32 := UInt32.ofNat (status % 2 ^ 32).toNat

/-- What `printf` makes of a string that may be `NULL`. -/
def printReason (reason : Option String) : CStr :=
  match reason with
  | none => literal "(null)"
  | some reason => strndup reason.toUTF8.data.toList

/-- The headers of an http-stream, or an error. -/
def httpstreamResponse (object : JsonObject) : ChannelResponse :=
  match s.parseHttpstreamResponse object with
  | (s, some (status, reason)) => (s.ensureHeaders (toGuint status) (printReason reason)).1
  | (s, none) => s.responseError S 500

/-- `on_httpstream_recv` -/
def onHttpstreamRecv (payload : Bytes) : ChannelResponse :=
  if getState s.response ≠ .ready then s
  else
    let s := { s with httpstreamRecv := false }
    match S.parse payload with
    | none => s.responseError S 500
    | some object => s.httpstreamResponse S object

/-- `on_transport_control`, for the channel. -/
def onTransportControl (command : String) (options : JsonObject) :
    ChannelResponse :=
  if command = "done" then (s.ensureHeaders 200 (literal "OK")).1.call .complete
  else if command = "close" then
    match Json.getString options "problem" none with
    | none => s.close S (some "disconnected")
    | some problem => s.close S problem
  else s

/-- `on_httpstream_control`, for the channel. -/
def onHttpstreamControl (command : String) (options : JsonObject) :
    ChannelResponse :=
  if command = "response" then s.httpstreamResponse S options
  else s.onTransportControl S command options

/-- `on_transport_closed` -/
def onTransportClosed (problem : Option String) : ChannelResponse :=
  s.close S (some (problem.getD "disconnected"))

/-! ### Runs -/

/-- `cockpit_channel_response_create`, for the "payload" of the channel. -/
def create (channel payload : String) (response : WebResponse) (headers : Headers)
    (inject : Option Inject) : ChannelResponse where
  channel := channel
  response := response
  headers := headers
  inject := inject
  httpstreamRecv := payload == "http-stream1"
  httpstreamControl := payload == "http-stream2"

/-- What happens: messages of the transport and its end, the end of the service, and what the main
    loop does with the response. -/
inductive Event where
  | recv (channel : Option String) (payload : Bytes)
  | control (command : String) (channel : Option String) (options : JsonObject)
  | transportClosed (problem : Option String)
  | serviceGone
  | output (result : WriteResult)
  | flushed (success : Bool)

/-- A handler of the transport's signals, as long as it is connected. -/
def handle : Event → ChannelResponse
  | .recv channel payload =>
    if channel ≠ some s.channel then s
    else if s.httpstreamRecv then s.onHttpstreamRecv S payload
    else s.onTransportRecv payload
  | .control command channel options =>
    if channel ≠ some s.channel then s
    else if s.httpstreamControl then s.onHttpstreamControl S command options
    else s.onTransportControl S command options
  | .transportClosed problem => s.onTransportClosed S problem
  | _ => s

def step (e : Event) : ChannelResponse :=
  match e with
  | .output result => s.onResponse (.output result)
  | .flushed success => s.onResponse (.flushed success)
  | .serviceGone => { s with inject := s.inject.map fun inject => { inject with service := false } }
  | e => if s.closed.isSome then s else s.handle S e

end ChannelResponse

end Cockpit.Ws
