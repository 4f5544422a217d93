import Cockpit.Bridge.ChannelWire

namespace Cockpit

open Lib List Unicode GLib

/-!
# The text that a channel without "binary" puts on the wire

`cockpit_channel_send` decides with `has_incomplete_ending` whether to hold bytes back, and
`cockpit_channel_actual_send` repairs with `force_utf8` what it passes on.  The two agree:
bytes are only passed on at a place where the repair can start anew (`forceUtf8_append`).

* `Channel.TextInv` — what was passed on is the repair of the bytes so far, less the ones held
  back.
* `Channel.send_chunks_text` — so the payload of a closed channel is the repair of everything
  sent, for every cut into chunks.
-/

namespace Wire

/-- The bytes of a payload message. -/
def payload? : Wire → Option Bytes
  | .payload data => some data
  | .control _ _ => none

end Wire

namespace Unicode

/-- Appending bytes with a complete ending to bytes with a complete ending. -/
theorem hasIncompleteEnding_append (xs ys : Bytes) (hx : hasIncompleteEnding xs = false)
    (hy : hasIncompleteEnding ys = false) : hasIncompleteEnding (xs ++ ys) = false := by
  rw [hasIncompleteEnding_eq] at hx hy ⊢
  exact utf8.endsDamaged_append xs ys hx hy

end Unicode

namespace Channel

/-- The payload messages on the wire. -/
def payloads (c : Channel) : List Bytes := c.sent.filterMap Wire.payload?

/-- An open channel without "binary" that holds nothing back. -/
structure TextIdle (c : Channel) : Prop where
  notBinary : c.binaryOk = false
  noBuffer : c.outBuffer = none
  notClosed : c.sentClose = false
  transport : c.transportClosed = false

/-- After the bytes `input` on a channel that had put `before` on the wire: `input` is what was
    passed on, with a complete ending, and what is held back. -/
structure TextInv (before : List Bytes) (input : Bytes) (c : Channel) : Prop where
  notBinary : c.binaryOk = false
  notClosed : c.sentClose = false
  transport : c.transportClosed = false
  passed : ∃ (ps : List Bytes) (done : Bytes),
    c.payloads = before ++ ps ∧ ps.flatten = forceUtf8 done ∧
    (∀ p ∈ ps, utf8Validate p = p.length) ∧
    hasIncompleteEnding done = false ∧ input = done ++ c.outBuffer.getD []

/-- An idle channel has passed on all of nothing. -/
theorem TextIdle.textInv {c : Channel} (h : c.TextIdle) : TextInv c.payloads [] c := by
  refine ⟨h.notBinary, h.notClosed, h.transport, [], [], ?_⟩
  rw [h.noBuffer]
  exact ⟨by simp, forceUtf8_nil.symm, by simp, hasIncompleteEnding_nil, rfl⟩

section

variable {before : List Bytes} {input : Bytes} {c : Channel} (h : TextInv before input c)

include h

/-- One chunk: it is held back with the bytes before it, or passed on with them. -/
theorem TextInv.send (chunk : Bytes) :
    TextInv before (input ++ chunk) (c.send chunk false) := by
  obtain ⟨hbin, hclose, htrans, ps, done, hps, hflat, hvalid, hend, hinput⟩ := h
  cases hh : c.holdsBack chunk false with
  | true =>
    rw [send_of_holdsBack hh]
    refine ⟨hbin, hclose, htrans, ps, done, hps, hflat, hvalid, hend, ?_⟩
    simp [hinput]
  | false =>
    rw [send_of_not_holdsBack hh]
    have hcompl : hasIncompleteEnding (c.outBuffer.getD [] ++ chunk) = false := by
      simpa [holdsBack, hbin] using hh
    refine ⟨hbin, hclose, htrans, ps ++ [forceUtf8 (c.outBuffer.getD [] ++ chunk)],
      input ++ chunk, ?_, ?_, ?_, ?_, ?_⟩
    · rw [← append_assoc, ← hps]
      simp [payloads, Wire.payload?, hbin]
    · rw [hinput, append_assoc, forceUtf8_append done _ hend, ← hflat]
      simp
    · intro p hp
      rcases mem_append.mp hp with hp | hp
      · exact hvalid p hp
      · rw [mem_singleton.mp hp]
        exact utf8Validate_forceUtf8 _
    · rw [hinput, append_assoc]
      exact hasIncompleteEnding_append done _ hend hcompl
    · simp

/-- Any number of chunks. -/
theorem TextInv.send_chunks (chunks : List Bytes) :
    TextInv before (input ++ chunks.flatten)
      (run step c (chunks.map (fun chunk => .send chunk false))) := by
  induction chunks generalizing input c with
  | nil => simpa using h
  | cons chunk chunks ih =>
    rw [map_cons, run_cons, flatten_cons, ← append_assoc]
    exact ih (h.send chunk)

/-- Closing passes on what is held back. -/
theorem TextInv.close (problem : Option String) :
    ∃ ps, (c.close problem true).payloads = before ++ ps ∧
      ps.flatten = forceUtf8 input ∧ ∀ p ∈ ps, utf8Validate p = p.length := by
  obtain ⟨hbin, hclose, htrans, ps, done, hps, hflat, hvalid, hend, hinput⟩ := h
  have hsent : ∃ message, (c.close problem true).sent =
      c.sent ++ c.flushed ++ [.control "close" message] := by
    simp [Channel.close, realClose, hclose, htrans, flushed]
  obtain ⟨message, hsent⟩ := hsent
  have hpayloads : (c.close problem true).payloads =
      before ++ (ps ++ c.flushed.filterMap Wire.payload?) := by
    rw [← append_assoc, ← hps]
    simp [payloads, hsent, Wire.payload?]
  refine ⟨_, hpayloads, ?_, ?_⟩
  · rw [hinput, forceUtf8_append done _ hend, flatten_append, hflat]
    congr 1
    unfold flushed
    cases c.outBuffer with
    | none => simp
    | some held => simp [Wire.payload?, hbin]
  intro p hp
  rcases mem_append.mp hp with hp | hp
  · exact hvalid p hp
  unfold flushed at hp
  cases hbuf : c.outBuffer with
  | none => simp [hbuf] at hp
  | some held =>
    obtain rfl : p = forceUtf8 held := by simpa [hbuf, hbin, Wire.payload?] using hp
    exact utf8Validate_forceUtf8 held

end

/-- **Text is independent of its chunking.** Chunks sent on an idle channel without "binary"
    that is then closed: the payload messages joined are `force_utf8` of the joined chunks, and
    each of them is valid UTF-8 by itself. -/
theorem send_chunks_text (c : Channel) (h : c.TextIdle) (chunks : List Bytes)
    (problem : Option String) :
    ∃ ps, (run Channel.step c
        (chunks.map (fun chunk => .send chunk false) ++ [.close problem true])).payloads =
          c.payloads ++ ps ∧
      ps.flatten = forceUtf8 chunks.flatten ∧
      ∀ p ∈ ps, utf8Validate p = p.length := by
  rw [run_append]
  have hsent := h.textInv.send_chunks chunks
  rw [nil_append] at hsent
  exact hsent.close problem

/-- "ä" in two chunks and a lone lead byte at the end. -/
theorem send_chunks_text_split_character :
    TextIdle (Channel.new "c1" [] none false) ∧
      ∃ ps, (run Channel.step (Channel.new "c1" [] none false)
          ([[0xC3], [0xA4, 0xC3]].map (fun chunk => .send chunk false) ++
            [.close none true])).payloads = (Channel.new "c1" [] none false).payloads ++ ps ∧
        ps.flatten = forceUtf8 [[0xC3], [0xA4, 0xC3]].flatten ∧
        ∀ p ∈ ps, utf8Validate p = p.length := by
  have hidle : TextIdle (Channel.new "c1" [] none false) := ⟨rfl, rfl, rfl, rfl⟩
  exact ⟨hidle, send_chunks_text _ hidle [[0xC3], [0xA4, 0xC3]] none⟩

end Channel

end Cockpit
