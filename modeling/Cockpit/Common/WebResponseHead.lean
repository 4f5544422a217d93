import Cockpit.Common.WebResponseFraming

namespace Cockpit

open Lib List SeenHeader

/-!
# Responses to `HEAD`

No block is queued for them.  What is written behind the header block is the end of a chunked body,
of a body that is not there.

* `run_head_text` — what a whole run queues;
* `run_head` — which responses end with their header block.
-/

namespace WebResponse

variable {head : Head} {filters : List WebFilter} {blocks : List Bytes} {s : WebResponse}

/-- The header block. -/
def Head.block (head : Head) (self : WebResponse) : Bytes :=
  (self.finishHeaders (beginHeaders head.status head.reason ++ (appendHeaders head.headers).1)
    head.length (toGint head.status) (appendHeaders head.headers).2).1

/-- The header block tells that the body is in chunks. -/
def Head.framed (head : Head) (filters : List WebFilter) : Bool :=
  toGint head.status ≠ 304 && head.chunks filters

/-- What is queued for `HEAD` stays what it is. -/
theorem queueHead_run (h : OutInv s) (hmeth : s.method.map CStr.bytes = some (ascii "HEAD"))
    {es : List Event} (hcalls : callsOf es = blocks.map .queue) (hes : ∀ e ∈ es, e.Writes) :
    OutInv (run step s es) ∧ Same s (run step s es) := by
  induction blocks generalizing s es with
  | nil => exact h.run hcalls hes
  | cons block blocks ih =>
    obtain ⟨quiet, others, rfl, hquiet, hothers⟩ := exists_call hcalls
    obtain ⟨hout, hsame⟩ := h.run hquiet fun e he => hes e (mem_append_left _ he)
    have hhead : (run step s quiet).method.map CStr.bytes = some (ascii "HEAD") := by
      rw [hsame.method]
      exact hmeth
    -- the block is ignored
    have hignored : step (run step s quiet) (.call (.queue block)) = run step s quiet := by
      change ((run step s quiet).queueData block).1 = _
      unfold WebResponse.queueData
      split
      · rfl
      · split <;> rfl
    rw [run_append, run_cons, hignored]
    obtain ⟨hlast, hkept⟩ := ih hout hhead hothers fun e he =>
      hes e (mem_append_right _ (mem_cons_of_mem _ he))
    exact ⟨hlast, hsame.trans hkept⟩

/-- A header block is made from what is known of a response before its first call. -/
theorem Same.block {t : WebResponse} (h : Same s t) (head : Head) : head.block t = head.block s := by
  unfold Head.block finishHeaders choosesChunked
  rw [h.fullPath, h.filters, h.cacheType, h.keepAlive]

/-- **What a whole run queues** for `HEAD`. -/
theorem run_head_text {fullPath method : Option CStr} {cacheType : CacheType} {keepAlive : Bool}
    (hmeth : method.map CStr.bytes = some (ascii "HEAD")) {first : Call}
    (hfirst : first.head? = some head) {es : List Event}
    (hcalls : callsOf es = first :: (blocks.map .queue ++ [.complete]))
    (hes : ∀ e ∈ es, e.Writes) :
    let self := new fullPath method cacheType keepAlive filters
    OutInv (run step self es) ∧ (run step self es).text =
      head.block self ++ (if head.framed filters then lastChunk else []) := by
  intro self
  obtain ⟨quiet, queueing, after, rfl, hquiet, hqueueing, hafter⟩ := exists_calls hcalls
  simp only [forall_mem_append, forall_mem_cons] at hes
  obtain ⟨hbefore, -, hmid, -, hbehind⟩ := hes
  -- until the first call
  obtain ⟨hout, hsame⟩ := (outInv_new fullPath method cacheType keepAlive filters).run hquiet
    hbefore
  -- the first call
  obtain ⟨hstarted, hhead⟩ := hout.headersSeen hsame.count hsame.complete head.status head.reason
    head.length (appendHeaders head.headers)
  have hperform : step (run step self quiet) (.call first) =
      (run step self quiet).headersSeen head.status head.reason head.length
        (appendHeaders head.headers) := perform_first hfirst _
  rw [← hperform] at hstarted hhead
  have hblock : (step (run step self quiet) (.call first)).text = head.block self := by
    rw [hhead.text, ← hsame.block head]
    change (run step self quiet).text ++ _ = _
    rw [hsame.text]
    rfl
  have hchunk : (step (run step self quiet) (.call first)).chunked = head.framed filters := by
    rw [hhead.chunked]
    change (if toGint head.status ≠ 304 then
      (run step self quiet).choosesChunked head.length (appendHeaders head.headers).2
      else (run step self quiet).chunked) = _
    rw [hsame.chunked]
    unfold choosesChunked Head.framed Head.chunks
    rw [hsame.filters]
    by_cases h304 : toGint head.status = 304 <;> simp [h304, new]
  have hcompl : (step (run step self quiet) (.call first)).complete = false :=
    hhead.complete.trans hsame.complete
  have hfail : (step (run step self quiet) (.call first)).failed = false :=
    hhead.failed.trans (hsame.failed rfl)
  have hmethod' : (step (run step self quiet) (.call first)).method.map CStr.bytes =
      some (ascii "HEAD") := by
    rw [hhead.method]
    change (run step self quiet).method.map CStr.bytes = _
    rw [hsame.method]
    exact hmeth
  generalize hstart : step (run step self quiet) (.call first) = start at *
  -- the blocks, and what is written before the last call
  obtain ⟨hfull, hkept⟩ := queueHead_run hstarted hmethod' hqueueing hmid
  -- the last call, and what is written behind it
  obtain ⟨hclos, -, hend⟩ := hfull.completeData (hkept.complete.trans hcompl)
    ((hkept.failed hcompl).trans hfail)
  obtain ⟨hfinal, hlast⟩ := hclos.run hafter hbehind
  simp only [run_append, run_cons, hstart] at hfinal hlast hkept hend ⊢
  refine ⟨hfinal, ?_⟩
  refine hlast.text.trans ?_
  rw [hend, hkept.text, hkept.chunked, hblock, hchunk]

/-- The bytes of a response are a header block: those that are queued, those that were written when
    the output is flushed, and those that a stream gets that goes on taking bytes. -/
structure HeadOnly (s : WebResponse) (block : Bytes) : Prop where
  text : s.text = block
  flushed : s.flushing ∨ s.done → s.written = block
  written : ∀ rooms : List Nat, (∀ room ∈ rooms, 0 < room) →
    s.pending.length + s.queue.length ≤ rooms.length →
    (run step s (rooms.map fun room => .output (.wrote room))).written = block

/-- **A response to `HEAD` has no body** unless the header block tells that it is in chunks. -/
theorem run_head {fullPath method : Option CStr} {cacheType : CacheType} {keepAlive : Bool}
    (hmethod : method.map CStr.bytes = some (ascii "HEAD")) {first : Call}
    (hfirst : first.head? = some head) {es : List Event}
    (hcalls : callsOf es = first :: (blocks.map .queue ++ [.complete]))
    (hes : ∀ e ∈ es, e.Writes) :
    HeadOnly (run step (new fullPath method cacheType keepAlive filters) es)
        (head.block (new fullPath method cacheType keepAlive filters)) ↔
      toGint head.status = 304 ∨ (0 ≤ head.length ∧
        contentEncoding ∉ (appendHeaders head.headers).2 ∧ filters = []) := by
  obtain ⟨hout, htext⟩ := @run_head_text head filters blocks fullPath method cacheType keepAlive
    hmethod first hfirst es hcalls hes
  have hframed : head.framed filters = false ↔ toGint head.status = 304 ∨ (0 ≤ head.length ∧
      contentEncoding ∉ (appendHeaders head.headers).2 ∧ filters = []) := by
    unfold Head.framed Head.chunks
    simp only [ne_eq, decide_not, Bool.and_eq_false_iff, Bool.not_eq_false', decide_eq_true_eq,
      Bool.or_eq_false_iff, decide_eq_false_iff_not, Int.not_lt, contains_eq_mem,
      List.isEmpty_iff, and_assoc]
  rw [← hframed]
  constructor
  · intro h
    -- the end of a chunked body would be left over
    cases hchunked : head.framed filters with
    | false => rfl
    | true =>
      have hall := h.text
      rw [htext, hchunked, if_pos rfl] at hall
      have hlength := congrArg List.length hall
      rw [List.length_append] at hlength
      have hlast : lastChunk.length = 5 := by decide
      omega
  intro h
  rw [h, if_neg Bool.false_ne_true, append_nil] at htext
  refine ⟨htext, ?_, ?_⟩
  · intro hended
    exact (hout.written_of_ended hended).trans htext
  · intro rooms hrooms hlong
    exact (hout.written_run hrooms hlong).trans htext

/-- The method `HEAD`. -/
def headMethod : CStr := ⟨ascii "HEAD", by decide⟩

/-- Calls for a response with some bytes, which goes on after the first write. -/
def headEvents (head : Head) : List Event :=
  [.call (.headers head.status head.reason head.length head.headers), .output (.wrote 7),
    .call (.queue [1, 2, 3]), .call .complete, .output (.wrote 400)]

theorem run_head_sized : HeadOnly
    (run step (new none (some headMethod) .unset true []) (headEvents ⟨200, okReason, 3, []⟩))
    (Head.block ⟨200, okReason, 3, []⟩ (new none (some headMethod) .unset true [])) := by
  have hwrites : ∀ e ∈ headEvents ⟨200, okReason, 3, []⟩, e.Writes := by
    simp [headEvents, Event.Writes]
  exact (@run_head ⟨200, okReason, 3, []⟩ [] [[1, 2, 3]] none (some headMethod) .unset true rfl _ rfl
    (headEvents ⟨200, okReason, 3, []⟩) rfl hwrites).mpr
      (.inr ⟨by decide, not_mem_nil, rfl⟩)

/-- **The end of a chunked body is left over** when the length is not known. -/
theorem not_headOnly_unsized : ¬ HeadOnly
    (run step (new none (some headMethod) .unset true []) (headEvents ⟨200, okReason, -1, []⟩))
    (Head.block ⟨200, okReason, -1, []⟩ (new none (some headMethod) .unset true [])) := by
  intro h
  have htext := h.text
  revert htext
  decide +kernel

end WebResponse

end Cockpit
