import Cockpit.Common.WebResponseHeaders
import Cockpit.Common.WebResponseOutput

namespace Cockpit

open Lib List Option Field

/-!
# A response is one HTTP/1.1 message

What the calls queue is a header block and a framed body, and the reader of such messages gets
the blocks behind the filters back, with nothing left over.
-/

namespace WebResponse

/-- What a response starts with. -/
structure Head where
  status : UInt32
  reason : CStr
  length : Int
  headers : List (CStr × Option CStr)

/-- A call that starts a response. -/
def Call.head? : Call → Option Head
  | .headers status reason length va => some ⟨status, reason, length, va⟩
  | .headersFull status reason length table => some ⟨status, reason, length, table.getD []⟩
  | _ => none

namespace Head

variable (head : Head) (filters : List WebFilter)

/-- Whether `finish_headers` finds that the length is not known, that a header names a content
    encoding, or that there are filters. -/
def chunks : Bool :=
  head.length < 0 || (appendHeaders head.headers).2.contains .contentEncoding ||
    !filters.isEmpty

/-- The body is framed in chunks. -/
def chunked : Bool := head.status ≠ 304 && head.chunks filters

/-- The length of the body is sent. -/
def sized : Bool := head.status ≠ 304 && (0 ≤ head.length && filters.isEmpty)

/-- A status of three digits, a reason of one line, and headers that are tokens and do not tell
    the end of the body. -/
structure Ok : Prop where
  low : 100 ≤ head.status.toNat
  high : head.status.toNat < 1000
  reason : OneLine head.reason.bytes
  names : ∀ header ∈ head.headers, ∀ f, headerField header = some f → isToken f.name ∧
    sameName (ascii "Content-Length") f.name = false ∧
    sameName (ascii "Transfer-Encoding") f.name = false

/-- The blocks are those that were announced: of the length that was given, of sizes that a
    chunk can tell, and none for a status that has no body. -/
structure BodyOk (blocks : List Bytes) : Prop where
  sized : 0 ≤ head.length → filters = [] → ((blocks.map List.length).sum : Int) = head.length
  small : head.chunked filters → ∀ block ∈ filtered filters blocks, block.length < 2 ^ 32
  bodiless : Bodiless head.status.toNat →
    (filtered filters blocks).flatten = [] ∧ head.chunked filters = false

end Head

variable {head : Head} {filters : List WebFilter} {blocks : List Bytes}

/-! ### The body -/

theorem flatMap_framed_false (blocks : List Bytes) :
    blocks.flatMap (framed false) = blocks.flatten := by
  induction blocks with
  | nil => rfl
  | cons block blocks ih =>
    rw [flatMap_cons, flatten_cons, ih]
    cases block <;> simp [framed]

/-- Blocks in chunks, without the empty ones. -/
theorem flatMap_framed_true (hsmall : ∀ block ∈ blocks, block.length < 2 ^ 32) :
    blocks.flatMap (framed true) = (blocks.filter (· ≠ [])).flatMap chunk := by
  induction blocks with
  | nil => rfl
  | cons block blocks ih =>
    have hlt := hsmall block mem_cons_self
    rw [flatMap_cons, ih fun b hb => hsmall b (mem_cons_of_mem block hb)]
    cases block with
    | nil => rfl
    | cons b bs =>
      have hsize : (bs.length + 1) % 2 ^ 32 = bs.length + 1 := Nat.mod_eq_of_lt hlt
      simpa [framed, chunk] using congrArg hexadecimal hsize

theorem flatten_filter_ne_nil (blocks : List Bytes) :
    (blocks.filter (· ≠ [])).flatten = blocks.flatten := by
  induction blocks with
  | nil => rfl
  | cons block blocks ih => cases block <;> simp_all

/-- The body as it is queued. -/
def bodyText (chunked : Bool) (blocks : List Bytes) : Bytes :=
  blocks.flatMap (framed chunked) ++ if chunked then lastChunk else []

/-- **A body in chunks reads back.** -/
theorem readBody_bodyText_true (hsmall : ∀ block ∈ blocks, block.length < 2 ^ 32) :
    readBody .chunked (bodyText true blocks) = some (blocks.flatten, []) := by
  have hread := @readBody_chunked (blocks.filter (· ≠ []))
    (fun b hb => of_decide_eq_true (mem_filter.mp hb).2) []
  rw [flatten_filter_ne_nil, append_nil] at hread
  rw [bodyText, flatMap_framed_true hsmall]
  exact hread

/-- **A body of the announced length reads back.** -/
theorem readBody_bodyText_false (blocks : List Bytes) :
    readBody (.sized blocks.flatten.length) (bodyText false blocks) =
      some (blocks.flatten, []) := by
  have hread := readBody_sized blocks.flatten []
  have htext : bodyText false blocks = blocks.flatten ++ [] := by
    rw [bodyText, flatMap_framed_false]
    rfl
  rw [htext]
  exact hread

/-! ### The header block -/

/-- The header fields of a response. -/
def Head.fields (head : Head) (self : WebResponse) : List Field :=
  head.headers.filterMap headerField ++
    (self.typeFields (toGint head.status) (appendHeaders head.headers).2 ++
      (self.framingFields head.length (toGint head.status) (appendHeaders head.headers).2 ++
        self.blanketFields (toGint head.status) (appendHeaders head.headers).2))

theorem Head.fields_ok (h : head.Ok) (self : WebResponse) : ∀ f ∈ head.fields self, f.Ok := by
  intro f hf
  simp only [Head.fields, mem_append] at hf
  rcases hf with hf | hf | hf | hf
  · obtain ⟨⟨name, value⟩, hmem, hfield⟩ := mem_filterMap.mp hf
    have htoken := (h.names _ hmem f hfield).1
    cases value with
    | none => exact absurd hfield (by simp [headerField])
    | some value =>
      simp only [headerField] at hfield
      split at hfield
      · rename_i hvalid
        rw [Bool.and_eq_true] at hvalid
        obtain rfl := some.inj hfield
        exact ⟨htoken, oneLine_of_isHeaderValue hvalid.2⟩
      · cases hfield
  · exact self.typeFields_ok _ _ f hf
  · exact self.framingFields_ok _ _ _ f hf
  · exact self.blanketFields_ok _ _ f hf

/-- No header of the caller tells the end of the body. -/
theorem Head.valuesOf_fields (h : head.Ok) (self : WebResponse) {name : Bytes}
    (hname : name = ascii "Content-Length" ∨ name = ascii "Transfer-Encoding") :
    valuesOf name (head.fields self) = valuesOf name
      (self.framingFields head.length (toGint head.status) (appendHeaders head.headers).2) := by
  have hcaller : valuesOf name (head.headers.filterMap headerField) = [] := by
    apply valuesOf_eq_nil
    intro f hf
    obtain ⟨header, hmem, hfield⟩ := mem_filterMap.mp hf
    have hnames := (h.names header hmem f hfield).2
    rcases hname with rfl | rfl
    · exact hnames.1
    · exact hnames.2
  rw [Head.fields, valuesOf_append, hcaller, nil_append]
  apply valuesOf_finishFields <;> (rcases hname with rfl | rfl <;> decide)

variable {status : UInt32}

theorem toGint_of_lt (h : status.toNat < 1000) :
    toGint status = (status.toNat : Int) := by
  rw [toGint, if_pos (by omega)]

theorem toGint_ne_304 (h : status.toNat < 1000) : (toGint status ≠ 304) ↔ status ≠ 304 := by
  rw [toGint_of_lt h, not_iff_not, UInt32.ext_iff]
  have h304 : (304 : UInt32).toNat = 304 := rfl
  omega

theorem valuesOf_framingFields (h : head.Ok) (self : WebResponse)
    (hfilters : self.filters = filters) :
    valuesOf (ascii "Content-Length") (self.framingFields head.length (toGint head.status)
        (appendHeaders head.headers).2) =
      (if head.sized filters then [printInt head.length] else []) ∧
    valuesOf (ascii "Transfer-Encoding") (self.framingFields head.length (toGint head.status)
        (appendHeaders head.headers).2) =
      if head.chunked filters then [ascii "chunked"] else [] := by
  have hlen : valuesOf (ascii "Content-Length")
      [⟨ascii "Content-Length", printInt head.length⟩] = [printInt head.length] := by
    simp [valuesOf, sameName_refl]
  have hcode : valuesOf (ascii "Transfer-Encoding")
      [⟨ascii "Content-Length", printInt head.length⟩] = [] :=
    valuesOf_eq_nil fun f hf => by
      rw [mem_singleton.mp hf]
      exact (by decide : sameName (ascii "Transfer-Encoding") (ascii "Content-Length") = false)
  have hlength' : valuesOf (ascii "Content-Length")
      [⟨ascii "Transfer-Encoding", ascii "chunked"⟩] = [] := by decide
  have hcoding' : valuesOf (ascii "Transfer-Encoding")
      [⟨ascii "Transfer-Encoding", ascii "chunked"⟩] = [ascii "chunked"] := by decide
  have hstat := toGint_ne_304 h.high
  have hchooses : self.choosesChunked head.length (appendHeaders head.headers).2 =
      head.chunks filters := by
    rw [choosesChunked, hfilters, Head.chunks]
  unfold framingFields Head.sized Head.chunked
  rw [hchooses, hfilters]
  by_cases h304 : head.status = 304
  · rw [if_neg (by rw [hstat]; exact fun hne => hne h304)]
    simp [h304, valuesOf]
  rw [if_pos (hstat.mpr h304), valuesOf_append, valuesOf_append,
    apply_ite (valuesOf (ascii "Content-Length")), apply_ite (valuesOf (ascii "Content-Length")),
    apply_ite (valuesOf (ascii "Transfer-Encoding")),
    apply_ite (valuesOf (ascii "Transfer-Encoding")), hlen, hcode, hlength', hcoding']
  constructor <;> (cases head.chunks filters <;> simp [h304, valuesOf])

variable {self : WebResponse}

/-- The choice of `finish_headers`, for a response that was not started before. -/
theorem finishHeaders_chunked (h : head.Ok) (hfilters : self.filters = filters)
    (hchunk : self.chunked = false) (string : Bytes) :
    (self.finishHeaders string head.length (toGint head.status)
      (appendHeaders head.headers).2).2 = head.chunked filters := by
  have hchooses : self.choosesChunked head.length (appendHeaders head.headers).2 =
      head.chunks filters := by
    rw [choosesChunked, hfilters, Head.chunks]
  change (if toGint head.status ≠ 304 then _ else _) = _
  rw [hchooses, hchunk, Head.chunked]
  by_cases h304 : head.status = 304
  · rw [if_neg (by rw [toGint_ne_304 h.high]; exact fun hne => hne h304)]
    simp [h304]
  · rw [if_pos ((toGint_ne_304 h.high).mpr h304)]
    simp [h304]

/-- The text of the header block. -/
def Head.text (head : Head) (self : WebResponse) : Bytes :=
  (ascii "HTTP/1.1 " ++ (decimal head.status.toNat ++ (32 :: head.reason.bytes))) ++
    (crlf ++ ((head.fields self).flatMap fieldLine ++ crlf))

theorem finishHeaders_eq_text (h : head.Ok) (self : WebResponse) :
    (self.finishHeaders (beginHeaders head.status head.reason ++ (appendHeaders head.headers).1)
      head.length (toGint head.status) (appendHeaders head.headers).2).1 = head.text self := by
  have hstat : printInt (toGint head.status) = decimal head.status.toNat := by
    rw [toGint_of_lt h.high, printInt, if_neg (by omega)]
    rfl
  have hspace : ascii " " = [32] := by decide
  rw [finishHeaders_text, beginHeaders, appendHeaders_text, hstat, hspace, Head.text,
    Head.fields, flatMap_append]
  simp only [append_assoc, cons_append, nil_append, flatMap_append]

theorem perform_first {first : Call} (hfirst : first.head? = some head) (self : WebResponse) :
    self.perform first = self.headersSeen head.status head.reason head.length
      (appendHeaders head.headers) := by
  cases first with
  | headers status reason length va =>
    obtain rfl := some.inj hfirst
    rfl
  | headersFull status reason length table =>
    obtain rfl := some.inj hfirst
    cases table <;> rfl
  | queue block | complete | abort => exact absurd hfirst (by simp [Call.head?])

/-- The events of a whole response, by its calls. -/
theorem exists_calls {first last : Call} {es : List Event}
    (hcalls : callsOf es = first :: (blocks.map .queue ++ [last])) :
    ∃ quiet queueing after, es = quiet ++ .call first :: (queueing ++ .call last :: after) ∧
      callsOf quiet = [] ∧ callsOf queueing = blocks.map .queue ∧ callsOf after = [] := by
  obtain ⟨quiet, others, rfl, hquiet, hothers⟩ := exists_call hcalls
  obtain ⟨queueing, closing, rfl, hqueueing, hclsg⟩ := filterMap_eq_append_iff.mp hothers
  obtain ⟨idle, after, rfl, hidle, hafter⟩ := exists_call hclsg
  refine ⟨quiet, queueing ++ idle, after, by rw [append_assoc], hquiet, ?_, hafter⟩
  rw [callsOf, filterMap_append, hqueueing]
  exact (congrArg _ hidle).trans (append_nil _)

/-- **What a whole run queues**: the header block and the framed body. -/
theorem run_text {fullPath method : Option CStr} {cacheType : CacheType} {keepAlive : Bool}
    (hmeth : method.map CStr.bytes ≠ some (ascii "HEAD")) (h : head.Ok) {first : Call}
    (hfirst : first.head? = some head) {es : List Event}
    (hcalls : callsOf es = first :: (blocks.map .queue ++ [.complete]))
    (hes : ∀ e ∈ es, e.Writes) :
    let s := run step (new fullPath method cacheType keepAlive filters) es
    OutInv s ∧ ∃ self : WebResponse, self.filters = filters ∧
      s.text = head.text self ++ bodyText (head.chunked filters) (filtered filters blocks) := by
  intro s
  obtain ⟨quiet, queueing, after, rfl, hquiet, hqueueing, hafter⟩ := exists_calls hcalls
  simp only [forall_mem_append, forall_mem_cons] at hes
  obtain ⟨hbefore, -, hmid, -, hbehind⟩ := hes
  -- until the first call
  obtain ⟨hout, hsame⟩ := (outInv_new fullPath method cacheType keepAlive filters).run hquiet
    hbefore
  generalize hself : run step (new fullPath method cacheType keepAlive filters) quiet = self
    at hout hsame
  -- the first call
  obtain ⟨hstarted, hhead⟩ := hout.headersSeen hsame.count hsame.complete head.status head.reason
    head.length (appendHeaders head.headers)
  rw [finishHeaders_eq_text h, finishHeaders_chunked h hsame.filters hsame.chunked] at hhead
  generalize hstart : self.headersSeen head.status head.reason head.length
    (appendHeaders head.headers) = start at hstarted hhead
  have hstart' : step self (.call first) = start := by
    rw [← hstart]
    exact perform_first hfirst self
  have htext : start.text = head.text self := by
    rw [hhead.text]
    change self.text ++ _ = _
    rw [hsame.text]
    rfl
  have hqueue : Queueing start filters (head.chunked filters) := by
    refine ⟨hstarted, hhead.complete.trans hsame.complete,
      hhead.failed.trans (hsame.failed rfl), ?_, hhead.filters.trans hsame.filters, hhead.chunked⟩
    rw [hhead.method]
    change self.method.map CStr.bytes ≠ _
    rw [hsame.method]
    exact hmeth
  have hpushed : start.pushed = [] := hhead.pushed.trans hsame.pushed
  -- the blocks, and what is written before the last call
  obtain ⟨hfull, hblocks⟩ := hqueue.run hqueueing hmid
  rw [hpushed, feed_queueFilter, htext] at hblocks
  -- the last call, and what is written behind it
  obtain ⟨hclos, -, hend⟩ := hfull.completeData
  obtain ⟨hfinal, hkept⟩ := hclos.run hafter hbehind
  have hrun : s = run step (run step start queueing).completeData after := by
    change run step (new fullPath method cacheType keepAlive filters) _ = _
    simp only [run_append, run_cons, hself, hstart']
    rfl
  rw [hrun]
  refine ⟨hfinal, self, hsame.filters, ?_⟩
  rw [hkept.text, hend, hblocks, bodyText, append_assoc]

/-- A value without blanks. -/
theorem trim_printInt (n : Int) : trim (printInt n) = printInt n := by
  refine trim_eq_self fun b hb => ?_
  unfold printInt at hb
  split at hb
  · rcases mem_cons.mp hb with rfl | hb
    · decide
    · exact isBlank_of_mem_decimal b hb
  · exact isBlank_of_mem_decimal b hb

/-- The announced length, for blocks that pass no filter. -/
theorem Head.BodyOk.length (hbody : head.BodyOk filters blocks)
    (hsized : head.sized filters) :
    printInt head.length = decimal (filtered filters blocks).flatten.length := by
  have hparts := hsized
  simp only [Head.sized, Bool.and_eq_true, decide_eq_true_eq, List.isEmpty_iff] at hparts
  obtain ⟨-, hlen, rfl⟩ := hparts
  have hsum := hbody.sized hlen rfl
  change printInt head.length = decimal blocks.flatten.length
  rw [length_flatten, printInt, if_neg (by omega), ← hsum]
  rfl

/-- There is always something that tells the end of the body. -/
theorem Head.sized_or_chunked (head : Head) (filters : List WebFilter)
    (h304 : head.status ≠ 304) : head.sized filters ∨ head.chunked filters := by
  by_cases hlen : 0 ≤ head.length
  · cases filters with
    | nil => exact Or.inl (by simp [Head.sized, h304, hlen])
    | cons filter filters => exact Or.inr (by simp [Head.chunked, Head.chunks, h304])
  · refine Or.inr ?_
    have hneg : head.length < 0 := by omega
    simp [Head.chunked, Head.chunks, h304, hneg]

/-- What the reader finds to tell the end of the body. -/
theorem valuesOf_trimmed (h : head.Ok) (hfilters : self.filters = filters) :
    valuesOf (ascii "Content-Length") ((head.fields self).map trimmed) =
      (if head.sized filters then [printInt head.length] else []) ∧
    valuesOf (ascii "Transfer-Encoding") ((head.fields self).map trimmed) =
      if head.chunked filters then [ascii "chunked"] else [] := by
  have hframing := valuesOf_framingFields h self hfilters
  constructor
  · rw [valuesOf_map_trimmed, head.valuesOf_fields h self (Or.inl rfl), hframing.1]
    cases head.sized filters <;> simp [trim_printInt]
  · rw [valuesOf_map_trimmed, head.valuesOf_fields h self (Or.inr rfl), hframing.2]
    cases head.chunked filters <;> decide

/-- What the reader finds is enough to read the body. -/
theorem readBody_response (h : head.Ok) (hbody : head.BodyOk filters blocks)
    (hfilters : self.filters = filters) :
    ∃ ends, bodyEnd head.status.toNat ((head.fields self).map trimmed) = some ends ∧
      readBody ends (bodyText (head.chunked filters) (filtered filters blocks)) =
        some ((filtered filters blocks).flatten, []) := by
  obtain ⟨hlen, hcode⟩ := valuesOf_trimmed h hfilters
  unfold bodyEnd
  rw [hlen, hcode]
  by_cases hnobody : Bodiless head.status.toNat
  · -- nothing is queued behind the header block
    obtain ⟨hempty, hplain⟩ := hbody.bodiless hnobody
    refine ⟨.absent, if_pos hnobody, ?_⟩
    rw [hplain, hempty, bodyText, flatMap_framed_false, hempty]
    rfl
  rw [if_neg hnobody]
  cases hchunk : head.chunked filters with
  | true =>
    refine ⟨.chunked, ?_, readBody_bodyText_true (hbody.small hchunk)⟩
    exact if_pos (sameName_refl _)
  | false =>
    have h304 : head.status ≠ 304 := by
      rintro heq
      exact hnobody (Or.inr (Or.inr (by rw [heq]; rfl)))
    have hsized : head.sized filters := by
      rcases head.sized_or_chunked filters h304 with hsized | htrue
      · exact hsized
      · exact nomatch (hchunk.symm.trans htrue)
    refine ⟨.sized (filtered filters blocks).flatten.length, ?_, readBody_bodyText_false _⟩
    have hdigs : (decimal (filtered filters blocks).flatten.length).all isDigit :=
      all_eq_true.mpr isDigit_of_mem_decimal
    have hne : decimal (filtered filters blocks).flatten.length ≠ [] := fun hnil => by
      have := length_decimal_pos (filtered filters blocks).flatten.length
      rw [hnil] at this
      exact Nat.lt_irrefl 0 this
    rw [hsized, hbody.length hsized]
    refine (if_pos ⟨hne, hdigs, rfl⟩).trans ?_
    rw [digitsValue_decimal]

/-- The header block of a response is read. -/
theorem readResponse_text (h : head.Ok) (self : WebResponse) (body : Bytes) :
    readResponse (head.text self ++ body) =
      (bodyEnd head.status.toNat ((head.fields self).map trimmed)).bind fun ends =>
        (readBody ends body).map fun p =>
          (⟨head.status.toNat, (head.fields self).map trimmed, p.1⟩, p.2) := by
  have hline : OneLine (ascii "HTTP/1.1 " ++
      (decimal head.status.toNat ++ (32 :: head.reason.bytes))) := by
    apply OneLine.append (by decide)
    apply OneLine.append (oneLine_decimal head.status.toNat)
    exact OneLine.append (by decide : OneLine [32]) h.reason
  have hhead := readResponse_head hline (readStatusLine_decimal h.low h.high head.reason.bytes)
    (head.fields_ok h self) body
  rw [Head.text]
  simp only [append_assoc] at hhead ⊢
  exact hhead

/-- **Framing.** The bytes of a response are one message.  It tells the end of its body by a
    length or by chunks, but for the status 304; its body is what the filters made of the blocks;
    and a stream that goes on taking bytes gets all of them. -/
theorem run_response {fullPath method : Option CStr} {cacheType : CacheType} {keepAlive : Bool}
    (hmethod : method.map CStr.bytes ≠ some (ascii "HEAD")) (h : head.Ok)
    (hbody : head.BodyOk filters blocks) {first : Call} (hfirst : first.head? = some head)
    {es : List Event} (hcalls : callsOf es = first :: (blocks.map .queue ++ [.complete]))
    (hes : ∀ e ∈ es, e.Writes) :
    let s := run step (new fullPath method cacheType keepAlive filters) es
    (∃ reply, readResponse s.text = some (reply, []) ∧
      reply.status = head.status.toNat ∧ reply.body = (filtered filters blocks).flatten ∧
      valuesOf (ascii "Content-Length") reply.fields =
        (if head.sized filters then [printInt head.length] else []) ∧
      valuesOf (ascii "Transfer-Encoding") reply.fields =
        (if head.chunked filters then [ascii "chunked"] else [])) ∧
    (head.status ≠ 304 → head.sized filters ∨ head.chunked filters) ∧
    (s.flushing ∨ s.done → s.written = s.text) ∧
    ∀ rooms : List Nat, (∀ room ∈ rooms, 0 < room) →
      s.pending.length + s.queue.length ≤ rooms.length →
      (run step s (rooms.map fun room => .output (.wrote room))).written = s.text := by
  intro s
  obtain ⟨hout, self, hfilters, htext⟩ := run_text hmethod h hfirst hcalls hes
  obtain ⟨ends, hends, hread⟩ := readBody_response h hbody hfilters
  refine ⟨⟨⟨head.status.toNat, (head.fields self).map trimmed, _⟩, ?_, rfl, rfl,
    valuesOf_trimmed h hfilters⟩, head.sized_or_chunked filters, hout.written_of_ended,
    fun rooms hrooms hlong => hout.written_run hrooms hlong⟩
  rw [htext, readResponse_text h, hends, bind_some, hread]
  rfl

/-- A filter that puts a mark before each block. -/
def markFilter : WebFilter := fun _ block => [[60], block]

/-- A head with a content encoding. -/
def gzipHead : Head where
  status := 200
  reason := ⟨ascii "OK", by decide⟩
  length := 3
  headers := [(⟨ascii "Content-Encoding", by decide⟩, some ⟨ascii "gzip", by decide⟩)]

/-- Two blocks, with writes of a few bytes between the calls. -/
def gzipEvents : List Event :=
  [.call (.headers gzipHead.status gzipHead.reason gzipHead.length gzipHead.headers),
    .output (.wrote 7), .call (.queue [1, 2]), .output .wouldBlock, .output (.wrote 400),
    .call (.queue [3]), .output (.wrote 1), .call .complete, .output (.wrote 2)]

theorem run_response_gzip : ∃ reply,
    readResponse (run step (new none none .noCache false [markFilter]) gzipEvents).text =
      some (reply, []) ∧ reply.body = [60, 1, 2, 60, 3] := by
  have hmethod : (none : Option CStr).map CStr.bytes ≠ some (ascii "HEAD") := by decide
  have hok : gzipHead.Ok := by
    refine ⟨by decide, by decide, by decide, ?_⟩
    intro header hmem f hfield
    rw [mem_singleton.mp hmem] at hfield
    obtain rfl : Lib.Field.mk (ascii "Content-Encoding") (ascii "gzip") = f :=
      some.inj hfield
    decide
  have hbody : gzipHead.BodyOk [markFilter] [[1, 2], [3]] :=
    ⟨fun _ hnil => absurd hnil (by simp), fun _ => by decide, fun hnobody =>
      absurd hnobody (by decide)⟩
  have hwrites : ∀ e ∈ gzipEvents, e.Writes := by
    simp [gzipEvents, Event.Writes]
  obtain ⟨⟨reply, hread, -, hblocks, -⟩, -⟩ := @run_response gzipHead [markFilter] [[1, 2], [3]]
    none none .noCache false hmethod hok hbody _ rfl gzipEvents rfl hwrites
  exact ⟨reply, hread, hblocks⟩

/-! ### Responses that are not framed so -/

/-- A text is one message with the body, and exactly one header field tells the end of the body,
    or none for the status 304. -/
def SelfDelimiting (text : Bytes) (status : Nat) (body : Bytes) : Prop :=
  match readResponse text with
  | some (reply, []) => reply.body = body ∧
      (valuesOf (ascii "Content-Length") reply.fields).length +
        (valuesOf (ascii "Transfer-Encoding") reply.fields).length = if status = 304 then 0 else 1
  | _ => False

instance (text : Bytes) (status : Nat) (body : Bytes) :
    Decidable (SelfDelimiting text status body) := by
  unfold SelfDelimiting
  split <;> infer_instance

/-- A response with a head and some blocks, and a stream that takes everything. -/
def sent (head : Head) (blocks : List Bytes) : WebResponse :=
  run step (new none none .unset true [])
    (.call (.headers head.status head.reason head.length head.headers) ::
      ((blocks.map fun block => .call (.queue block)) ++
        .call .complete :: List.replicate 16 (.output (.wrote 1000))))

/-- The calls alone. -/
def queued (head : Head) (blocks : List Bytes) : WebResponse :=
  run step (new none none .unset true [])
    (.call (.headers head.status head.reason head.length head.headers) ::
      ((blocks.map fun block => .call (.queue block)) ++ [.call .complete]))

/-- The reason `OK`. -/
def okReason : CStr := ⟨ascii "OK", by decide⟩

variable {block : Bytes}

/-- A size of `2 ^ 32` is sent as the empty chunk, and what follows is no trailer. -/
theorem readBody_wrapped (hsize : block.length = 2 ^ 32)
    (hbytes : ∀ b ∈ block, b = 0) : readBody .chunked (bodyText true [block]) = none := by
  have hline : OneLine block := by
    constructor <;> exact fun hmem => nomatch (hbytes _ hmem)
  have hfield : readField block = none := by
    have hdrop : block.dropWhile (· ≠ 58) = [] := by
      apply dropWhile_eq_nil_iff.mpr
      intro b hb
      rw [hbytes b hb]
      rfl
    simp only [readField, hdrop]
  have htext : bodyText true [block] =
      ascii "0" ++ (crlf ++ (block ++ (crlf ++ lastChunk))) := by
    have hzero : hexadecimal 0 = ascii "0" := by decide +kernel
    have hne : (2 : Nat) ^ 32 ≠ 0 := by decide
    simp only [bodyText, flatMap_cons, flatMap_nil, framed, hsize, if_neg hne,
      Nat.mod_self, hzero, Bool.not_true, Bool.false_eq_true, if_false, if_true,
      append_assoc, append_nil]
  have hsize0 : readChunkSize (ascii "0") = some 0 := by decide
  cases hblock : block with
  | nil => rw [hblock] at hsize; exact nomatch hsize
  | cons b bs =>
    rw [hblock] at htext hline hfield
    rw [htext, readBody, readChunks, takeLine_line (by decide : OneLine (ascii "0"))]
    simp only [hsize0, readFields, takeLine_line hline, hfield, map_none]

/-- A block of `2 ^ 32` zero bytes. -/
theorem not_selfDelimiting_wrapped (hsize : block.length = 2 ^ 32)
    (hbytes : ∀ b ∈ block, b = 0) (body : Bytes) :
    ¬ SelfDelimiting (queued ⟨200, okReason, -1, []⟩ [block]).text 200 body := by
  have hok : Head.Ok ⟨200, okReason, -1, []⟩ :=
    ⟨by decide, by decide, by decide, nofun⟩
  have hmeth : (none : Option CStr).map CStr.bytes ≠ some (ascii "HEAD") := by decide
  obtain ⟨-, self, hfilters, htext⟩ := @run_text ⟨200, okReason, -1, []⟩ [] [block] none none
    .unset true hmeth hok (.headers 200 okReason (-1) []) rfl
    [.call (.headers 200 okReason (-1) []), .call (.queue block), .call .complete] rfl
    (by simp [Event.Writes])
  have hends : bodyEnd 200 ((Head.fields ⟨200, okReason, -1, []⟩ self).map trimmed) =
      some .chunked := by
    obtain ⟨hlen, hcode⟩ := valuesOf_trimmed hok hfilters
    rw [bodyEnd, hcode]
    rfl
  have hnone : readResponse (queued ⟨200, okReason, -1, []⟩ [block]).text = none := by
    have hqueue : (queued ⟨200, okReason, -1, []⟩ [block]).text =
        Head.text ⟨200, okReason, -1, []⟩ self ++ bodyText true [block] := htext
    rw [hqueue, readResponse_text hok]
    change (bodyEnd 200 _).bind _ = none
    rw [hends, bind_some]
    rw [readBody_wrapped hsize hbytes]
    rfl
  rw [SelfDelimiting, hnone]
  exact id

/-- A content encoding makes a response tell the end of its body twice; and there are statuses,
    reasons, headers and blocks for which the bytes are no message at all. -/
theorem not_selfDelimiting_encoded :
    ¬ SelfDelimiting (sent ⟨200, okReason, 3,
      [(⟨ascii "Content-Encoding", by decide⟩, some ⟨ascii "gzip", by decide⟩)]⟩
      [[1, 2, 3]]).written 200 [1, 2, 3] ∧
    ¬ SelfDelimiting (sent ⟨204, okReason, -1, []⟩ []).written 204 [] ∧
    ¬ SelfDelimiting (sent ⟨304, okReason, 1, []⟩ [[1]]).written 304 [1] ∧
    ¬ SelfDelimiting (sent ⟨42, okReason, 1, []⟩ [[1]]).written 42 [1] ∧
    ¬ SelfDelimiting (sent ⟨200, ⟨ascii "OK\n", by decide⟩, 1, []⟩ [[1]]).written 200 [1] ∧
    ¬ SelfDelimiting (sent ⟨200, okReason, 1,
      [(⟨ascii "Content-Length", by decide⟩, some ⟨ascii "2", by decide⟩)]⟩ [[1]]).written
      200 [1] ∧
    ¬ SelfDelimiting (sent ⟨200, okReason, 1,
      [(⟨ascii "Transfer-Encoding", by decide⟩, some ⟨ascii "gzip", by decide⟩)]⟩ [[1]]).written
      200 [1] ∧
    ¬ SelfDelimiting (sent ⟨200, okReason, 1,
      [(⟨ascii "(", by decide⟩, some ⟨ascii "x", by decide⟩)]⟩ [[1]]).written 200 [1] ∧
    ¬ SelfDelimiting (queued ⟨200, okReason, -1, []⟩ [List.replicate 4294967296 0]).text 200
      (List.replicate 4294967296 0) := by
  refine ⟨by decide +kernel, by decide +kernel, by decide +kernel, by decide +kernel,
    by decide +kernel, by decide +kernel, by decide +kernel, by decide +kernel, ?_⟩
  apply not_selfDelimiting_wrapped
  · exact length_replicate
  · exact fun b hb => eq_of_mem_replicate hb

end WebResponse

end Cockpit
