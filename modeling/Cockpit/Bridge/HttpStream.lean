import Cockpit.Bridge.Channel
import Cockpit.Common.WebResponse
import Cockpit.Common.WebServer
import Cockpit.WebSocket.ResponseHead

namespace Cockpit

open Lib WebResponse Json

/-!
# `src/bridge/cockpithttpstream.c` — an HTTP request on a channel

`HttpStream` is a `CockpitHttpStream` with the `Channel` that it derives from, and with the
input buffer of its `CockpitStream`.  Its `close` chains up to `cockpit_channel_real_close`
at once, so a close with a problem is the one of `Channel` and a change of the state.

What comes from elsewhere is an argument: the connectable that the named client has, what
`cockpit_channel_parse_stream` makes of the options, the input left in a stream that is used
again, what memory holds behind the input buffer, and how `cockpit_json_write_bytes` writes
(`writeBytes`).  A header is text in JSON with one character for each byte.
-/

/-- The values of `state`. -/
inductive HttpState where
  | bufferRequest
  | relayRequest
  | relayData
  | finished
  deriving DecidableEq, Repr

/-- The fields of a `CockpitConnectable` that are looked at. -/
structure Connectable where
  tls : Bool
  name : String

/-- `CockpitHttpStream`, with the bytes that were written to its stream.  The last three fields
    are history: the values that `state` was given, whether the body has ended where its framing
    says, and how often the stream was checked in. -/
structure HttpStream where
  channel : Channel
  name : String
  connectable : Option Connectable
  /-- Whether there is a stream, with its signals connected. -/
  stream : Bool
  sigOpen : Bool
  state : HttpState
  failed : Bool
  binary : Bool
  keepAlive : Bool
  headersInline : Bool
  /-- The request that is held back, the last message first. -/
  request : List Bytes
  responseChunked : Bool
  responseLength : Int
  buffer : Bytes
  written : List Bytes
  /-- Whether the process has come to an end. -/
  aborted : Bool
  states : List HttpState
  framed : Bool
  checkins : Nat

/-- The bytes of a string. -/
def utf8 (s : String) : Bytes := s.toList.flatMap String.utf8EncodeChar

/-- A string as C code gets it. -/
def cstr (s : String) : CStr := strndup (utf8 s)

/-- Bytes as text, one character for each of them. -/
def CStr.text (s : CStr) : String := String.ofList (s.bytes.map fun b => Char.ofNat b.toNat)

/-- `strstr`, as a test. -/
def strstr (haystack needle : Bytes) : Bool := haystack.tails.any fun tail => needle.isPrefixOf tail

/-- `G_MAXSSIZE` -/
def maxSsize : Nat := 2 ^ 63 - 1

/-- The headers without those of a name. -/
def removeHeader (headers : Headers) (name : String) : Headers :=
  headers.filter fun header => !sameName (ascii name) header.1.bytes

namespace HttpStream

/-- `cockpit_http_stream_init` and `cockpit_http_stream_constructed` -/
def new (id : String) (options : JsonObject) : HttpStream where
  channel := Channel.new id options (some ["tls-certificates", "address"]) false
  name := ""
  connectable := none
  stream := false
  sigOpen := false
  state := .bufferRequest
  failed := false
  binary := false
  keepAlive := false
  headersInline := false
  request := []
  responseChunked := false
  responseLength := -1
  buffer := []
  written := []
  aborted := false
  states := [.bufferRequest]
  framed := false
  checkins := 0

variable (s : HttpStream)

/-- An assignment to `state`. -/
def setState (state : HttpState) : HttpStream :=
  { s with state := state, states := s.states ++ [state] }

/-! ### Closing -/

/-- Disconnect from the stream, and `cockpit_http_client_checkin`. -/
def checkin : HttpStream := { s with stream := false, checkins := s.checkins + 1 }

variable (problem : Option String)

/-- `cockpit_channel_close`, with `cockpit_http_stream_close` -/
def close : HttpStream :=
  match problem with
  | some problem =>
    ({ s with failed := true, channel := s.channel.close problem true } : HttpStream).setState
      .finished
  | none =>
    let s := { s with channel := s.channel.close none false }
    match s.state with
    | .relayData =>
      let s := s.setState .finished
      let s := { s with channel := s.channel.control "done" none true }
      let s := if s.keepAlive then s.checkin else s
      { s with channel := s.channel.realClose none }
    | .finished => s
    | .bufferRequest | .relayRequest =>
      ({ s with failed := true, channel := s.channel.realClose "internal-error" } :
        HttpStream).setState .finished

/-- `cockpit_channel_fail`, with `cockpit_http_stream_close` -/
def fail (problem message : String) : HttpStream :=
  ({ s with failed := true, channel := s.channel.fail problem message true } : HttpStream).setState
    .finished

/-- `cockpit_channel_fail` with a message that has the nickname first. -/
def protocolError (message : String) : HttpStream :=
  s.fail "protocol-error" (s.name ++ message)

/-! ### The head of a response -/

/-- `parse_content_length` -/
def parseContentLength (status : Nat) (headers : Headers) : HttpStream × Bool :=
  if status = 204 then ({ s with responseLength := 0 }, true)
  else
    match lookupHeader headers "Content-Length" with
    | none => ({ s with responseLength := -1 }, true)
    | some header =>
      let value := WebServer.strtoull header
      if value.2 ≠ [] then
        (s.protocolError ": received invalid Content-Length in HTTP stream response", false)
      else if maxSsize < value.1 then
        (s.protocolError ": received Content-Length that was too big", false)
      else ({ s with responseLength := value.1 }, true)

/-- `parse_transfer_encoding` -/
def parseTransferEncoding (headers : Headers) : HttpStream × Bool :=
  match lookupHeader headers "Transfer-Encoding" with
  | none => ({ s with responseChunked := false }, true)
  | some header =>
    if header.bytes ≠ ascii "chunked" then
      (s.protocolError
        (": received unsupported Transfer-Encoding in HTTP response: " ++ header.text), false)
    else ({ s with responseChunked := true }, true)

/-- `cockpit_http_stream_parse_keep_alive` -/
def parseKeepAlive (version : CStr) (headers : Headers) : Bool :=
  let header := (lookupHeader headers "Connection").map CStr.bytes
  let header :=
    if header.isNone && sameName version.bytes (ascii "HTTP/1.1") then some (ascii "keep-alive")
    else header
  match header with
  | none => false
  | some header => strstr header (ascii "keep-alive")

/-- The message about a response. -/
def responseObject (line : StatusLine) (headers : Headers) : JsonObject :=
  let heads := headers.foldl (fun heads header =>
    JsonObject.setStringMember heads header.1.text header.2.text) []
  [("status", .int line.status), ("reason", .string line.reason.text), ("headers", .object heads)]

variable (writeBytes : JsonObject → Bytes)

/-- The end of `relay_headers`, when everything was parsed. -/
def relayResponse (s : HttpStream) (line : StatusLine)
    (headers : Headers) : HttpStream :=
  let headers :=
    if s.binary then headers else removeHeader (removeHeader headers "Content-Length") "Range"
  let headers := removeHeader (removeHeader headers "Connection") "Transfer-Encoding"
  let object := responseObject line headers
  if s.headersInline then { s with channel := s.channel.send (writeBytes object) true }
  else { s with channel := s.channel.control "response" (some object) true }

/-- `relay_headers` -/
def relayHeaders (s : HttpStream) (beyond : Bytes) :
    HttpStream × Bool :=
  match parseStatusLine s.buffer beyond with
  | none => ({ s with aborted := true }, true)
  | some .more => (s, false)
  | some .fail => (s.protocolError ": received response with bad HTTP status line", true)
  | some (.item offset line) =>
    match parseHeaders (s.buffer.drop offset) with
    | .more => (s, false)
    | .fail => (s.protocolError ": received response with bad HTTP headers", true)
    | .item offset2 headers =>
      match s.parseTransferEncoding headers with
      | (s, false) => (s, true)
      | (s, true) =>
        match s.parseContentLength line.status headers with
        | (s, false) => (s, true)
        | (s, true) =>
          let s := { s with
            keepAlive := parseKeepAlive line.version headers
            buffer := s.buffer.drop (offset + offset2) }
          (relayResponse writeBytes s line headers, true)

/-! ### The body of a response -/

/-- The blocks of 4096 bytes that `relay_data` cuts. -/
def blocks (data : Bytes) : List Bytes :=
  if data = [] then [] else data.take 4096 :: blocks (data.drop 4096)
  termination_by data.length
  decreasing_by
    have := List.length_pos_iff.mpr ‹data ≠ []›
    rw [List.length_drop]
    omega

/-- `relay_data` -/
def relayData (data : Bytes) : HttpStream :=
  if data.length < 8192 then { s with channel := s.channel.send data false }
  else { s with channel := (blocks data).foldl (fun c block => c.send block false) s.channel }

/-- `relay_chunked` -/
def relayChunked (beyond : Bytes) : HttpStream × Bool :=
  if 13 ∉ s.buffer then (s, false)
  else
    let pos := (s.buffer.takeWhile (· ≠ 13)).length
    let beg := pos + 2
    if s.buffer.length < beg then (s, false)
    else
      let size := strtoull .sixteen (s.buffer ++ beyond)
      if (s.buffer.drop (pos + 1)).head? ≠ some 10 ∨
          pos + size.2.length ≠ (s.buffer ++ beyond).length then
        (s.protocolError ": received invalid HTTP chunk", true)
      else if maxSsize < size.1 then
        (s.protocolError ": received extremely large HTTP chunk", true)
      else if s.buffer.length < beg + size.1 + 2 then (s, false)
      else if (s.buffer.drop (beg + size.1)).take 2 ≠ crlf then
        (s.protocolError ": received invalid HTTP chunk data", true)
      else if size.1 = 0 then
        (({ s with buffer := s.buffer.drop (beg + 2), framed := true } : HttpStream).close none,
          true)
      else
        (({ s with buffer := s.buffer.drop (beg + size.1 + 2) } : HttpStream).relayData
          ((s.buffer.drop beg).take size.1), true)

/-- `relay_length` -/
def relayLength : HttpStream × Bool :=
  if s.responseLength = 0 then (({ s with framed := true } : HttpStream).close none, true)
  else if s.buffer = [] then (s, false)
  else
    let block := min s.buffer.length s.responseLength.toNat
    (({ s with responseLength := s.responseLength - block, buffer := s.buffer.drop block } :
      HttpStream).relayData (s.buffer.take block), true)

/-- `relay_all` -/
def relayAll : HttpStream × Bool :=
  if s.buffer = [] then (s, false)
  else (({ s with buffer := [] } : HttpStream).relayData s.buffer, true)

/-- The body of the loop in `on_stream_read`. -/
def relay (beyond : Bytes) : HttpStream × Bool :=
  if s.responseChunked then s.relayChunked beyond
  else if 0 ≤ s.responseLength then s.relayLength
  else s.relayAll

/-- The loop in `on_stream_read`; every turn has memory of its own behind the buffer. -/
def relayLoop (beyond : Nat → Bytes) : Nat → HttpStream → HttpStream
  | 0, s => s
  | n + 1, s =>
    if s.state = .relayData then
      match s.relay (beyond n) with
      | (s, true) => relayLoop beyond n s
      | (s, false) => s
    else s

/-- The loop, with more turns than it takes (`relayLoop_ends`). -/
def relayBody (beyond : Nat → Bytes) : HttpStream :=
  relayLoop beyond (s.buffer.length + 2) s

/-! ### The signals of the stream -/

/-- `on_stream_open` -/
def onStreamOpen : HttpStream :=
  if s.stream && s.sigOpen then { s with channel := s.channel.step (.ready none) } else s

/-- `on_stream_read`, with the bytes that are new in the buffer. -/
def onStreamRead (s : HttpStream) (data : Bytes)
    (beyond : Nat → Bytes) (endOfData : Bool) : HttpStream :=
  if s.stream then
    let s := { s with buffer := s.buffer ++ data }
    match s.state with
    | .bufferRequest =>
      if s.buffer = [] then s
      else s.protocolError ": received data before HTTP request was sent"
    | .relayRequest =>
      match relayHeaders writeBytes s (beyond 0) with
      | (s, true) => if s.aborted then s else (s.setState .relayData).relayBody beyond
      | (s, false) =>
        if endOfData then s.protocolError ": received truncated HTTP response" else s
    | .relayData => s.relayBody beyond
    | .finished => s
  else s

/-- `on_stream_close` -/
def onStreamClose : HttpStream :=
  if s.stream then
    let s := { s with keepAlive := false }
    if s.state = .finished then s
    else if problem.isSome then s.close problem
    else if s.state = .relayData ∧ s.responseChunked = false ∧ s.responseLength ≤ 0 then s.close none
    else s.protocolError ": received truncated HTTP response"
  else s

/-- `on_rejected_cert` -/
def onRejectedCert (pemData : String) : HttpStream :=
  if s.stream = true ∧ s.state ≠ .finished then
    let options := (s.channel.closeOptions.getD []).setStringMember "rejected-certificate" pemData
    { s with channel := { s.channel with closeOptions := some options } }
  else s

/-! ### The request -/

/-- `disallowed_header` -/
def disallowedHeader (name value : String) (binary : Bool) : Bool :=
  (["Content-Length", "Content-MD5", "TE", "Trailer", "Transfer-Encoding", "Upgrade"].any
      fun bad => sameName (ascii bad) (cstr name).bytes) ||
    (!binary && ["Accept-Encoding", "Content-Encoding", "Accept-Charset", "Accept-Ranges",
        "Content-Range", "Range"].any fun bad => sameName (ascii bad) (cstr name).bytes) ||
    (sameName (ascii "Connection") (cstr name).bytes && (cstr value).bytes == ascii "close")

/-- The loop over the headers in `send_http_request`: their text, or the message of an error. -/
def headersText (binary : Bool) : List (String × Json) → Except String Bytes
  | [] => .ok []
  | (header, node) :: rest =>
    if !isSimpleToken (cstr header) then
      .error (": invalid header in HTTP stream request: " ++ header)
    else
      match node with
      | .string value =>
        if disallowedHeader header value binary then
          .error (": disallowed header in HTTP stream request: " ++ header)
        else if !WebResponse.isHeaderValue (cstr value) then
          .error (": invalid header value in HTTP stream request: " ++ header)
        else
          (headersText binary rest).map
            ((cstr header).bytes ++ ascii ": " ++ (cstr value).bytes ++ crlf ++ ·)
      | _ => .error (": invalid header value in HTTP stream request: " ++ header)

/-- Whether a byte stays as it is in the text of a host. -/
def isUriPlain (b : UInt8) : Bool :=
  (48 ≤ b && b ≤ 57) || (65 ≤ b && b ≤ 90) || (97 ≤ b && b ≤ 122) ||
    (ascii "-._~[]!%$&()*+,-.:;=\\_~").contains b

/-- An upper-case hexadecimal digit. -/
def upperHexDigit (d : Nat) : UInt8 := if d < 10 then UInt8.ofNat (48 + d) else UInt8.ofNat (55 + d)

/-- `g_string_append_uri_escaped` -/
def uriEscaped (bytes : Bytes) : Bytes :=
  bytes.flatMap fun b =>
    if isUriPlain b then [b] else [37, upperHexDigit (b.toNat / 16), upperHexDigit (b.toNat % 16)]

/-- A field of the request that must be there, or the message of an error. -/
def requestField (options : JsonObject) (field : String) : Except String CStr :=
  match getString options field none with
  | none => .error (": bad \"" ++ field ++ "\" field in HTTP stream request")
  | some none => .error (": missing \"" ++ field ++ "\" field in HTTP stream request")
  | some (some value) =>
    if isSimpleToken (cstr value) then .ok (cstr value)
    else .error (": invalid \"" ++ field ++ "\" field in HTTP stream request")

/-- The headers that the request is given, or the message of an error. -/
def requestHeaders (options : JsonObject) : Except String (List (String × Json)) :=
  match options.getMember "headers" with
  | none => .ok []
  | some (.object headers) => .ok headers
  | some _ => .error ": invalid \"headers\" field in HTTP stream request"

/-- `send_http_request`: the request up to its body, or the message of an error. -/
def requestText : Except String Bytes := do
  let options := s.channel.openOptions
  let path ← requestField options "path"
  let method ← requestField options "method"
  let headers ← requestHeaders options
  let text ← headersText s.binary headers
  let had (name : String) := headers.any fun header => sameName (ascii name) (cstr header.1).bytes
  let host := uriEscaped (utf8 ((s.connectable.map Connectable.name).getD ""))
  let total := (s.request.map List.length).sum
  return method.bytes ++ ascii " " ++ path.bytes ++ ascii " HTTP/1.1\r\n" ++ text ++
    (if had "Host" then [] else ascii "Host: " ++ host ++ crlf) ++
    (if had "Accept-Encoding" then [] else ascii "Accept-Encoding: identity\r\n") ++
    (if s.binary then [] else ascii "Accept-Charset: UTF-8\r\n") ++
    (if !s.request.isEmpty || sameName method.bytes (ascii "POST") then
      ascii "Content-Length: " ++ decimal total ++ crlf
    else []) ++ crlf

/-- `send_http_request` -/
def sendHttpRequest : HttpStream :=
  match s.requestText with
  | .error message => s.protocolError message
  | .ok text => { s with request := [], written := s.written ++ text :: s.request.reverse }

/-! ### Messages on the channel -/

/-- `cockpit_http_stream_control`, for the command that it knows -/
def done : HttpStream :=
  if s.state = .bufferRequest then (s.setState .relayRequest).sendHttpRequest else s

/-- `process_control` -/
def processControl (command : String) (options : JsonObject) : HttpStream :=
  if command = "close" then s.close ((getString options "problem" none).getD none)
  else if command = "done" then
    if s.channel.receivedDone then
      (s.fail "protocol-error" "channel received second done").done
    else ({ s with channel := { s.channel with receivedDone := true } } : HttpStream).done
  else s

/-- `process_recv`, with `cockpit_http_stream_recv` -/
def processRecv (payload : Bytes) : HttpStream :=
  if s.channel.receivedDone then s.fail "protocol-error" "channel received message after done"
  else { s with request := payload :: s.request }

/-- `on_transport_recv` and `on_transport_control`, while they are connected -/
def deliver : Incoming → HttpStream
  | .recv payload => if s.channel.recvSig then s.processRecv payload else s
  | .control command options => if s.channel.controlSig then s.processControl command options else s

/-- `on_transport_closed`, while it is connected -/
def onTransportClosed : HttpStream :=
  if s.channel.closeSig then
    let s := { s with channel := { s.channel with transportClosed := true } }
    if s.channel.emittedClose then s else s.close (problem.getD "disconnected")
  else s

/-! ### Preparing and disposing -/

/-- `cockpit_channel_ready` up to the messages that were frozen. -/
def ready : HttpStream := { s with channel := s.channel.step (.ready none) }

/-- The members that say where to connect to. -/
def addressMembers : List String := ["unix", "port", "internal", "tls", "address"]

variable (client : Option Connectable) (parsed : Except (String × String) Connectable)

/-- `cockpit_http_stream_prepare`, behind the call of its parent -/
def realPrepare
 (checkout : Option Bytes) : HttpStream :=
  let options := s.channel.openOptions
  match getString options "connection" none with
  | none => s.fail "protocol-error" "bad \"connection\" field in HTTP stream request"
  | some _ =>
    match getString options "path" (some "/") with
    | none => s.fail "protocol-error" "bad \"path\" field in HTTP stream request"
    | some path =>
      let s := { s with
        headersInline := (getString options "payload" none).join == some "http-stream1" }
      let connectable :=
        match client with
        | none => parsed
        | some client => if addressMembers.any options.hasMember then parsed else .ok client
      match connectable with
      | .error (problem, message) => s.fail problem message
      | .ok connectable =>
        let s := { s with
          connectable := some connectable
          name := (if connectable.tls then "https" else "http") ++ "://" ++ connectable.name ++
            path.getD ""
          binary := options.hasMember "binary"
          stream := true
          sigOpen := checkout.isNone
          buffer := checkout.getD [] }
        if checkout.isSome then s.ready else s

/-- `cockpit_channel_prepare` -/
def prepare
 (checkout : Option Bytes) : HttpStream :=
  if s.channel.prepared then s
  else
    let s := { s with channel := { s.channel with prepareTag := false, prepared := true } }
    if s.channel.emittedClose then s
    else
      let c := s.channel.realPrepare true
      -- the parent closes with a problem or not at all
      if c.emittedClose then
        ({ s with failed := true, channel := c } : HttpStream).setState .finished
      else ({ s with channel := c } : HttpStream).realPrepare client parsed checkout

/-- `cockpit_http_stream_dispose` -/
def dispose : HttpStream :=
  let s := { s with stream := false, request := [] }
  if s.channel.emittedClose then { s with channel := s.channel.dispose true }
  else
    ({ s with failed := true, channel := s.channel.dispose true } : HttpStream).setState .finished

/-! ### Events -/

/-- What can happen to an HTTP stream. -/
inductive Event where
  | prepare (client : Option Connectable) (parsed : Except (String × String) Connectable)
      (checkout : Option Bytes)
  | streamOpen
  /-- The thaw of `cockpit_channel_ready` delivers the next message that was frozen. -/
  | thawed
  /-- `cockpit_channel_ready` sends its message. -/
  | readyDone
  | incoming (m : Incoming)
  | streamRead (data : Bytes) (beyond : Nat → Bytes) (endOfData : Bool)
  | streamClose (problem : Option String)
  | rejectedCert (pemData : String)
  | close (problem : Option String)
  | timeout (source : Nat)
  | transportClosed (problem : Option String)
  | dispose

/-- One event. -/
def step (s : HttpStream) (e : Event) : HttpStream :=
  if s.aborted then s
  else
    match e with
    | .prepare client parsed checkout => s.prepare client parsed checkout
    | .streamOpen => s.onStreamOpen
    | .thawed =>
      match s.channel.readying with
      | (message, m :: rest) :: outer =>
        ({ s with channel := { s.channel with readying := (message, rest) :: outer } } :
          HttpStream).deliver m
      | _ => s
    | .readyDone => { s with channel := s.channel.step .readyDone }
    | .incoming m =>
      if s.channel.frozen then { s with channel := { s.channel with held := s.channel.held ++ [m] } }
      else s.deliver m
    | .streamRead data beyond endOfData => onStreamRead writeBytes s data beyond endOfData
    | .streamClose problem => s.onStreamClose problem
    | .rejectedCert pemData => s.onRejectedCert pemData
    | .close problem => s.close problem
    | .timeout source => { s with channel := s.channel.step (.timeout source) }
    | .transportClosed problem => s.onTransportClosed problem
    | .dispose => s.dispose

end HttpStream

end Cockpit
