import Cockpit.Common.GLib
import Cockpit.Lib.HttpMessage
import Cockpit.Lib.Transducer

namespace Cockpit

open Lib

/-!
# `src/common/cockpitwebresponse.c`: queueing and writing a response

The output stream is what was written to it.  The main loop enters by `on_response_output` and
`on_output_flushed`.
-/

/-- `CockpitCacheType` -/
inductive CacheType where
  | unset
  | noCache
  | forever
  | private_
  deriving DecidableEq

/-- The `HEADER_` flags. -/
inductive SeenHeader where
  | contentType
  | contentEncoding
  | vary
  | cacheControl
  | dnsPrefetchControl
  | referrerPolicy
  deriving DecidableEq

/-- A `CockpitWebFilter`: what it passes on for a block, behind the blocks that were pushed into
    it before. -/
abbrev WebFilter := List Bytes → Bytes → List Bytes

/-- `CockpitWebResponse` -/
structure WebResponse where
  fullPath : Option CStr
  method : Option CStr
  cacheType : CacheType
  queue : List Bytes
  partialOffset : Nat
  source : Bool
  count : UInt32
  complete : Bool
  failed : Bool
  done : Bool
  chunked : Bool
  keepAlive : Bool
  filters : List WebFilter
  /-- The blocks that were pushed into each filter. -/
  pushed : List (List Bytes)
  /-- Whether `on_output_flushed` is waited for. -/
  flushing : Bool
  /-- What the `done` signal said. -/
  reusable : Option Bool
  /-- The bytes the output stream took. -/
  written : Bytes

/-- What a write on the output stream comes to. -/
inductive WriteResult where
  | wrote (room : Nat)
  | wouldBlock
  | error

namespace WebResponse

/-- `cockpit_web_response_new`, with the method, the cache type and the filters that are set
    before the first call -/
def new (fullPath method : Option CStr) (cacheType : CacheType) (keepAlive : Bool)
    (filters : List WebFilter) : WebResponse where
  fullPath := fullPath
  method := method
  cacheType := cacheType
  queue := []
  partialOffset := 0
  source := false
  count := 0
  complete := false
  failed := false
  done := false
  chunked := false
  keepAlive := keepAlive
  filters := filters
  pushed := []
  flushing := false
  reusable := none
  written := []

/-! ### Headers -/

/-- `cockpit_web_response_is_simple_token` -/
def isSimpleToken (string : CStr) : Bool :=
  string.bytes.all fun b => !(ascii " \t\r\n" ++ [11]).contains b

/-- `cockpit_web_response_is_header_value` -/
def isHeaderValue (string : CStr) : Bool :=
  string.bytes.all fun b => !(ascii "\r\n" ++ [11]).contains b

/-- `%d` -/
def printInt (n : Int) : Bytes :=
  if n < 0 then 45 :: decimal n.natAbs else decimal n.natAbs

/-- A `guint` passed for a `gint`. -/
def toGint (n : UInt32) : Int := if n.toNat < 2 ^ 31 then n.toNat else (n.toNat : Int) - 2 ^ 32

/-- `begin_headers` -/
def beginHeaders (status : UInt32) (reason : CStr) : Bytes :=
  ascii "HTTP/1.1 " ++ printInt (toGint status) ++ ascii " " ++ reason.bytes ++ crlf

/-- The flag of a header that was seen. -/
def seenHeader (name : CStr) : Option SeenHeader :=
  if sameName (ascii "Content-Type") name.bytes then some .contentType
  else if sameName (ascii "Cache-Control") name.bytes then some .cacheControl
  else if sameName (ascii "Vary") name.bytes then some .vary
  else if sameName (ascii "Content-Encoding") name.bytes then some .contentEncoding
  else if sameName (ascii "X-DNS-Prefetch-Control") name.bytes then some .dnsPrefetchControl
  else if sameName (ascii "Referrer-Policy") name.bytes then some .referrerPolicy
  else none

/-- `append_header`: the text that is appended, and the flag -/
def appendHeader (name : CStr) : Option CStr → Bytes × Option SeenHeader
  | none => ([], seenHeader name)
  | some value =>
    if isSimpleToken name && isHeaderValue value then
      (name.bytes ++ ascii ": " ++ value.bytes ++ crlf, seenHeader name)
    else ([], none)

/-- The loop of `append_table` and `append_va`. -/
def appendHeaders : List (CStr × Option CStr) → Bytes × List SeenHeader
  | [] => ([], [])
  | (name, value) :: headers =>
    ((appendHeader name value).1 ++ (appendHeaders headers).1,
      (appendHeader name value).2.toList ++ (appendHeaders headers).2)

/-- `append_table` -/
def appendTable : Option (List (CStr × Option CStr)) → Bytes × List SeenHeader
  | none => ([], [])
  | some headers => appendHeaders headers

/-- `append_va` -/
def appendVa (headers : List (CStr × Option CStr)) : Bytes × List SeenHeader :=
  appendHeaders headers

/-- The table in `cockpit_web_response_content_type`. -/
def contentTypes : List (String × String) :=
  [(".css", "text/css"), (".gif", "image/gif"), (".eot", "application/vnd.ms-fontobject"),
    (".html", "text/html"),
    (".jpg", "image/jpg"),
    (".js", "application/javascript"),
    (".json", "application/json"),
    (".otf", "font/opentype"),
    (".png", "image/png"),
    (".svg", "image/svg+xml"),
    (".ttf", "application/octet-stream"),
    (".txt", "text/plain"),
    (".woff", "application/font-woff"),
    (".xml", "text/xml")]

/-- `cockpit_web_response_content_type` -/
def contentType (path : CStr) : Option String :=
  (contentTypes.find? fun entry => (ascii entry.1).isSuffixOf path.bytes).map Prod.snd

variable (self : WebResponse)

/-- Whether `finish_headers` chooses the chunked encoding. -/
def choosesChunked (length : Int) (seen : List SeenHeader) : Bool :=
  length < 0 || seen.contains .contentEncoding || !self.filters.isEmpty

/-- `finish_headers`: the text of the header block, and `self->chunked` -/
def finishHeaders (string : Bytes) (length : Int) (status : Int)
    (seen : List SeenHeader) : Bytes × Bool :=
  let success := 200 ≤ status && status ≤ 299
  let type :=
    if !seen.contains .contentType && success then
      match self.fullPath.bind contentType with
      | some type => ascii "Content-Type: " ++ ascii type ++ crlf
      | none => []
    else []
  let framing :=
    if status ≠ 304 then
      (if 0 ≤ length && self.filters.isEmpty then
        ascii "Content-Length: " ++ printInt length ++ crlf else []) ++
      (if self.choosesChunked length seen then ascii "Transfer-Encoding: chunked\r\n" else [])
    else []
  let cache :=
    if !seen.contains .cacheControl && success then
      match self.cacheType with
      | .forever => ascii "Cache-Control: max-age=31556926, public\r\n"
      | .noCache => ascii "Cache-Control: no-cache, no-store\r\n"
      | .private_ => ascii "Cache-Control: max-age=86400, private\r\n"
      | .unset => []
    else []
  let vary :=
    if !seen.contains .vary && success && self.cacheType = .private_ then
      ascii "Vary: Cookie\r\n"
    else []
  let connection := if self.keepAlive then [] else ascii "Connection: close\r\n"
  let dns :=
    if seen.contains .dnsPrefetchControl then [] else ascii "X-DNS-Prefetch-Control: off\r\n"
  let referrer :=
    if seen.contains .referrerPolicy then [] else ascii "Referrer-Policy: no-referrer\r\n"
  (string ++ type ++ framing ++ cache ++ vary ++ connection ++ dns ++ referrer ++ crlf,
    if status ≠ 304 then self.choosesChunked length seen else self.chunked)

/-! ### Queueing -/

variable (block : Bytes)

/-- `queue_bytes` -/
def queueBytes : WebResponse :=
  { self with
    queue := self.queue ++ [block]
    count := self.count + 1
    -- no source can be made for the stream of a response that is done
    source := self.source || !self.done }

/-- `queue_block` -/
def queueBlock : WebResponse :=
  if block.length = 0 then self
  else if !self.chunked then self.queueBytes block
  else
    ((self.queueBytes (hexadecimal (block.length % 2 ^ 32) ++ crlf)).queueBytes block).queueBytes
      crlf

/-- `cockpit_web_filter_push` -/
def filterPush (filter : WebFilter) (pushed : List Bytes) (block : Bytes) :
    List Bytes × List Bytes :=
  (pushed ++ [block], filter pushed block)

/-- `queue_filter`: push a block into the first filter, and each block that comes out of it into
    the others.  The blocks behind the last filter are those that are queued. -/
def queueFilter : List WebFilter → List (List Bytes) → Bytes → List (List Bytes) × List Bytes
  | [], pushed, block => (pushed, [block])
  | filter :: filters, pushed, block =>
    let first := filterPush filter (pushed.headD []) block
    let others := feed (queueFilter filters) pushed.tail first.2
    (first.1 :: others.1, others.2)

/-- `cockpit_web_response_queue`, and whether queueing more makes sense -/
def queueData : WebResponse × Bool :=
  if self.complete then (self, false)
  else if self.failed then (self, false)
  else if self.method.map CStr.bytes = some (ascii "HEAD") then (self, true)
  else
    let passed := queueFilter self.filters self.pushed block
    (passed.2.foldl queueBlock { self with pushed := passed.1 }, true)

variable (status : UInt32) (reason : CStr)

/-- `cockpit_web_response_headers` and `cockpit_web_response_headers_full`, behind the loop
    over the headers -/
def headersSeen (length : Int)
    (appended : Bytes × List SeenHeader) : WebResponse :=
  if 0 < self.count then self
  else
    let block := self.finishHeaders (beginHeaders status reason ++ appended.1) length
      (toGint status) appended.2
    { self with chunked := block.2 }.queueBytes block.1

/-- `cockpit_web_response_headers` -/
def headers (length : Int)
    (va : List (CStr × Option CStr)) : WebResponse :=
  self.headersSeen status reason length (appendVa va)

/-- `cockpit_web_response_headers_full` -/
def headersFull (length : Int)
    (table : Option (List (CStr × Option CStr))) : WebResponse :=
  self.headersSeen status reason length (appendTable table)

/-- `cockpit_web_response_done` -/
def finish : WebResponse :=
  { self with
    done := true
    source := false
    reusable := some (self.complete && !self.failed && self.keepAlive) }

/-- `cockpit_web_response_complete` -/
def completeData : WebResponse :=
  if self.complete then self
  else if self.failed then self
  else
    let ended :=
      if self.chunked then { self with complete := true }.queueBytes lastChunk
      else { self with complete := true }
    if ended.source then ended else { ended with flushing := true }

/-- `cockpit_web_response_abort` -/
def abort : WebResponse :=
  if self.complete then self
  else if self.failed then self
  else { self with complete := true, failed := true }.finish

/-! ### Writing -/

/-- `on_response_output`, when the stream took `count` bytes of the head of the queue -/
def tookBytes (blocks : List Bytes) (count : Nat) :
    WebResponse :=
  let data := block.drop self.partialOffset
  if count = data.length then
    { self with partialOffset := 0, queue := blocks, written := self.written ++ data }
  else
    { self with
      partialOffset := self.partialOffset + count
      written := self.written ++ data.take count }

/-- `on_response_output` -/
def onResponseOutput (result : WriteResult) : WebResponse :=
  match self.queue with
  | [] => { self with source := false, flushing := self.flushing || self.complete }
  | block :: blocks =>
    let len := (block.drop self.partialOffset).length
    if len = 0 then self.tookBytes block blocks 0
    else
      match result with
      | .wouldBlock => self
      | .error => { self with failed := true }.finish
      | .wrote room => self.tookBytes block blocks (min room len)

/-- `on_output_flushed` -/
def onOutputFlushed (success : Bool) : WebResponse :=
  { self with flushing := false, failed := self.failed || !success }.finish

/-- The calls on a response. -/
inductive Call where
  | headers (status : UInt32) (reason : CStr) (length : Int) (va : List (CStr × Option CStr))
  | headersFull (status : UInt32) (reason : CStr) (length : Int)
      (table : Option (List (CStr × Option CStr)))
  | queue (block : Bytes)
  | complete
  | abort

/-- What happens to a response: a call, the stream being writable, or the flush being done. -/
inductive Event where
  | call (call : Call)
  | output (result : WriteResult)
  | flushed (success : Bool)

/-- A call on a response. -/
def perform : Call → WebResponse
  | .headers status reason length va => self.headers status reason length va
  | .headersFull status reason length table => self.headersFull status reason length table
  | .queue block => (self.queueData block).1
  | .complete => self.completeData
  | .abort => self.abort

/-- One step of a response. -/
def step : Event → WebResponse
  | .call call => self.perform call
  | .output result => if self.source then self.onResponseOutput result else self
  | .flushed success => if self.flushing then self.onOutputFlushed success else self

end WebResponse

end Cockpit
