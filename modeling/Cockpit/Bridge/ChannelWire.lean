import Cockpit.Lib.Run
import Cockpit.Bridge.Channel

namespace Cockpit

open Lib List Bool Unicode

/-!
# What a channel puts on the wire

No payload follows "done" and nothing follows "close" (`Channel.run_wireOrder`).
`doc/protocol.md` demands this, but the code only arranges for it in part: bytes held back
in `out_buffer` are not flushed by "done", `cockpit_channel_send` and
`cockpit_channel_control` do not look at `sent_done` and `sent_close`, and
`cockpit_channel_ready` sends its control message even when the thaw before it has closed
the channel.  `Channel.WireOk` names the calls for which the law is kept.

* `Channel.Inv.step` — one admitted event keeps it.
* `Channel.run_wireOrder` — so every admitted run is in order.
-/

namespace Wire

/-- A payload message. -/
def isPayload : Wire → Bool
  | .payload _ => true
  | .control _ _ => false

/-- The control message "done". -/
def isDone : Wire → Bool
  | .payload _ => false
  | .control command _ => command == "done"

/-- The control message "close". -/
def isClose : Wire → Bool
  | .payload _ => false
  | .control command _ => command == "close"

end Wire

/-- The law of `doc/protocol.md`, for every message and every later one: after "done" no
    payload, after "close" nothing. -/
def WireOrder (sent : List Wire) : Prop :=
  sent.Pairwise (fun m w => (m.isDone = true → w.isPayload = false) ∧ m.isClose = false)

instance (sent : List Wire) : Decidable (WireOrder sent) :=
  inferInstanceAs (Decidable (sent.Pairwise _))

/-- One more message keeps the order if no "close" was sent before it, and for payload no
    "done" either. -/
theorem WireOrder.snoc {sent : List Wire} (h : WireOrder sent) {w : Wire}
    (hclose : sent.any Wire.isClose = false)
    (hdone : w.isPayload → sent.any Wire.isDone = false) : WireOrder (sent ++ [w]) := by
  refine pairwise_append.mpr ⟨h, pairwise_singleton _ _, ?_⟩
  intro m hm x hx
  rw [mem_singleton] at hx
  subst hx
  constructor
  · intro hd
    by_contra hp
    rw [not_eq_false] at hp
    exact absurd hd (any_eq_false.mp (hdone hp) m hm)
  · exact eq_false_iff.mpr (any_eq_false.mp hclose m hm)

/-- The invariant behind the order: a "close" on the wire is remembered in `sent_close`, and
    no bytes are held back behind "done" or "close". -/
structure WireInv (sent : List Wire) (sentClose : Bool) (outBuffer : Option Bytes) : Prop where
  order : WireOrder sent
  closeFlag : sent.any Wire.isClose → sentClose
  bufferDone : sent.any Wire.isDone → outBuffer = none
  bufferClose : sent.any Wire.isClose → outBuffer = none

namespace WireInv

variable {sent : List Wire} {sentClose : Bool} {outBuffer : Option Bytes}

/-- A payload may follow as long as neither "done" nor "close" was sent. -/
theorem snoc_payload (h : WireInv sent sentClose outBuffer)
    (hdone : sent.any Wire.isDone = false) (hclose : sent.any Wire.isClose = false)
    (data : Bytes) (outBuffer' : Option Bytes) :
    WireInv (sent ++ [.payload data]) sentClose outBuffer' := by
  refine ⟨h.order.snoc hclose (fun _ => hdone), ?_, ?_, ?_⟩ <;>
    simp [any_append, hdone, hclose, Wire.isDone, Wire.isClose]

/-- A control message other than "close" may follow as long as no "close" was sent; "done" only
    when nothing is held back. -/
theorem snoc_control (h : WireInv sent sentClose outBuffer)
    (hclose : sent.any Wire.isClose = false) {command : String} (hne : command ≠ "close")
    (hbuf : command = "done" → outBuffer = none) (message : JsonObject) :
    WireInv (sent ++ [.control command message]) sentClose outBuffer := by
  have hnot : Wire.isClose (.control command message) = false := by simp [Wire.isClose, hne]
  refine ⟨h.order.snoc hclose (fun hp => absurd hp (by simp [Wire.isPayload])), ?_, ?_, ?_⟩
  · simp [any_append, hclose, hnot]
  · intro hd
    rw [any_append, or_eq_true] at hd
    rcases hd with hd | hd
    · exact h.bufferDone hd
    · exact hbuf (by simpa [Wire.isDone] using hd)
  · simp [any_append, hclose, hnot]

/-- The "close" message itself may follow once nothing is held back. -/
theorem snoc_close (h : WireInv sent sentClose none) (hclose : sent.any Wire.isClose = false)
    (message : JsonObject) : WireInv (sent ++ [.control "close" message]) true none :=
  ⟨h.order.snoc hclose (fun hp => absurd hp (by simp [Wire.isPayload])), fun _ => rfl,
    fun _ => rfl, fun _ => rfl⟩

end WireInv

namespace Channel

variable (c : Channel)

/-- `WireInv` of a channel. -/
def Inv : Prop := WireInv c.sent c.sentClose c.outBuffer

/-- Whether "done" is on the wire. -/
def doneSent : Bool := c.sent.any Wire.isDone

/-- Whether "close" is on the wire. -/
def closeSent : Bool := c.sent.any Wire.isClose

/-! ### What flushing and closing do to the wire -/

/-- What a flush sends: the held-back bytes, as one payload message. -/
def flushed : List Wire :=
  match c.outBuffer with
  | none => []
  | some payload => [.payload (if !c.binaryOk then forceUtf8 payload else payload)]

@[simp] theorem flushBuffer_sent : c.flushBuffer.sent = c.sent ++ c.flushed := by
  unfold flushBuffer flushed
  cases h : c.outBuffer <;> simp [actualSend]

@[simp] theorem flushBuffer_outBuffer : c.flushBuffer.outBuffer = none := by
  unfold flushBuffer
  cases h : c.outBuffer <;> simp [actualSend, h]

@[simp] theorem flushBuffer_sentClose : c.flushBuffer.sentClose = c.sentClose := by
  unfold flushBuffer
  cases h : c.outBuffer <;> simp [actualSend]

/-- The three outcomes of `cockpit_channel_real_close`: already closed, closed with the
    transport, or flushed and closed on the wire. -/
theorem realClose_cases (problem : Option String) :
    (c.sentClose ∧ c.realClose problem = c) ∨
    (c.sentClose = false ∧ c.transportClosed ∧ (c.realClose problem).sent = c.sent ∧
      (c.realClose problem).sentClose ∧ (c.realClose problem).outBuffer = c.outBuffer) ∨
    (c.sentClose = false ∧ c.transportClosed = false ∧ (c.realClose problem).sentClose ∧
      (c.realClose problem).outBuffer = none ∧
      ∃ message, (c.realClose problem).sent = c.sent ++ c.flushed ++ [.control "close" message]) := by
  cases hs : c.sentClose with
  | true => exact .inl ⟨rfl, by simp [realClose, hs]⟩
  | false =>
    cases ht : c.transportClosed with
    | true => exact .inr (.inl ⟨rfl, rfl, by simp [realClose, hs, ht]⟩)
    | false =>
      refine .inr (.inr ⟨rfl, rfl, ?_⟩)
      simp [realClose, hs, ht, flushed]

variable {c : Channel}

theorem Inv.flush (h : c.Inv) : WireInv (c.sent ++ c.flushed) c.sentClose none := by
  unfold flushed
  cases hbuf : c.outBuffer with
  | none =>
    unfold Inv at h
    rw [hbuf] at h
    simpa using h
  | some payload =>
    have hdone : c.sent.any Wire.isDone = false := by
      by_contra hd
      rw [not_eq_false] at hd
      exact absurd (h.bufferDone hd) (by simp [hbuf])
    have hclose : c.sent.any Wire.isClose = false := by
      by_contra hc
      rw [not_eq_false] at hc
      exact absurd (h.bufferClose hc) (by simp [hbuf])
    exact h.snoc_payload hdone hclose _ none

/-- Flushing sends no control message. -/
theorem flushed_any_isClose (c : Channel) : c.flushed.any Wire.isClose = false := by
  unfold flushed
  cases c.outBuffer <;> simp [Wire.isClose]

section

variable (h : c.Inv)

include h

variable (problem : Option String)

theorem Inv.realClose :
    (c.realClose problem).Inv := by
  rcases c.realClose_cases problem with ⟨-, heq⟩ | ⟨-, -, hsent, hclose, hbuf⟩ |
    ⟨hopen, -, hclose, hbuf, message, hsent⟩
  · rw [heq]; exact h
  · unfold Inv
    rw [hsent, hclose, hbuf]
    exact { h with closeFlag := fun _ => rfl }
  have hnone : (c.sent ++ c.flushed).any Wire.isClose = false := by
    rw [any_append, flushed_any_isClose, Bool.or_false]
    by_contra hc
    rw [not_eq_false] at hc
    rw [h.closeFlag hc] at hopen
    exact Bool.noConfusion hopen
  unfold Inv
  rw [hsent, hclose, hbuf]
  exact h.flush.snoc_close hnone message

theorem Inv.close (chain : Bool) :
    (c.close problem chain).Inv := by
  unfold Channel.close
  cases chain with
  | true =>
    refine Inv.realClose ?_ problem
    exact h
  | false => exact h

theorem Inv.fail (problem message : String) (chain : Bool) :
    (c.fail problem message chain).Inv := by
  unfold Channel.fail
  refine Inv.close ?_ problem chain
  exact h

/-! ### The other calls -/

theorem Inv.control {command : String} (options : Option JsonObject)
    (chain : Bool)
    (hok : command ≠ "close" → ¬ (command = "done" ∧ c.sentDone) →
      c.closeSent = false ∧ (command = "done" → c.outBuffer = none)) :
    (c.control command options chain).Inv := by
  unfold Channel.control
  split
  · refine Inv.close ?_ _ chain
    exact h
  rename_i hne
  split
  · exact h
  · rename_i hdone
    obtain ⟨hclose, hbuf⟩ := hok hne (by simpa using hdone)
    exact WireInv.snoc_control h hclose hne hbuf _

theorem Inv.deliver (m : Incoming) (chain : Bool) :
    (c.deliver m chain).Inv := by
  unfold Channel.deliver
  split
  · split
    · unfold processRecv
      split
      · exact h.fail _ _ chain
      · exact h
    · exact h
  split
  · unfold processControl
    split
    · exact h.close _ chain
    split
    · split
      · exact h.fail _ _ chain
      · exact h
    · exact h
  · exact h

theorem Inv.onTransportClosed (chain : Bool) :
    (c.onTransportClosed problem chain).Inv := by
  simp only [Channel.onTransportClosed]
  split
  · exact h
  split
  · exact h
  · refine Inv.close ?_ _ chain
    exact h

variable (chain : Bool)

theorem Inv.ensureCapable :
    (c.ensureCapable chain).1.Inv := by
  simp only [Channel.ensureCapable]
  split
  · exact h.fail _ _ chain
  · exact h
  split
  · exact h
  · refine Inv.close ?_ _ chain
    exact h

theorem Inv.realPrepare : (c.realPrepare chain).Inv := by
  have hcap := h.ensureCapable chain
  simp only [Channel.realPrepare]
  split
  · exact hcap
  split
  · exact hcap.close _ chain
  split
  · exact hcap.fail _ _ chain
  · exact hcap
  split
  · exact hcap
  · refine Inv.fail ?_ _ _ chain
    exact hcap

theorem Inv.prepare : (c.prepare chain).Inv := by
  simp only [Channel.prepare]
  split
  · exact h
  split
  · exact h
  · refine Inv.realPrepare ?_ chain
    exact h

/-- Throwing the held-back bytes away harms no order. -/
theorem Inv.dropBuffer : WireInv c.sent c.sentClose none :=
  ⟨h.order, h.closeFlag, fun _ => rfl, fun _ => rfl⟩

theorem Inv.dispose : (c.dispose chain).Inv := by
  have hdrop : ∀ d : Channel, d.Inv → Inv { d.removeTimeout with outBuffer := none } :=
    fun d hd => hd.dropBuffer
  unfold Channel.dispose
  refine hdrop _ ?_
  show Inv (if c.emittedClose then _ else _)
  split
  · exact h
  · refine Inv.close ?_ _ chain
    exact h

end

/-- Whether a send holds its bytes back: they join the ones held back before, and the joined
    bytes have an incomplete ending. -/
def holdsBack (c : Channel) (payload : Bytes) (trust : Bool) : Bool :=
  !(trust && c.outBuffer.isNone) && !c.binaryOk &&
    hasIncompleteEnding (c.outBuffer.getD [] ++ payload)

variable {payload : Bytes} {trust : Bool}

/-- A send that holds its bytes back. -/
theorem send_of_holdsBack (h : c.holdsBack payload trust) :
    c.send payload trust = { c.removeTimeout with
        outBuffer := some (c.outBuffer.getD [] ++ payload)
        bufferTimeout := c.lastSource + 1
        lastSource := c.lastSource + 1
        sources := c.removeTimeout.sources ++ [c.lastSource + 1] } := by
  unfold holdsBack at h
  unfold send removeTimeout
  simp only [h, if_true, Nat.succ_ne_zero, if_false]

/-- A send that passes its bytes on, with the ones held back before. -/
theorem send_of_not_holdsBack (h : c.holdsBack payload trust = false) :
    c.send payload trust = { c.removeTimeout with
        outBuffer := none
        sent := c.sent ++ [.payload
          (if !(trust && c.outBuffer.isNone) && !c.binaryOk then
            forceUtf8 (c.outBuffer.getD [] ++ payload)
          else c.outBuffer.getD [] ++ payload)] } := by
  unfold holdsBack at h
  unfold send removeTimeout
  simp only [h, false_eq_true, if_false, if_true, actualSend, Option.isSome_none, bne_self_eq_false,
    Bool.or_self]

theorem Inv.send (h : c.Inv) (payload : Bytes) (trust : Bool)
    (hdone : c.doneSent = false) (hclose : c.closeSent = false) : (c.send payload trust).Inv := by
  cases hh : c.holdsBack payload trust with
  | true =>
    rw [send_of_holdsBack hh]
    refine ⟨h.order, h.closeFlag, fun hd => ?_, fun hc => ?_⟩
    · exact nomatch (hdone.symm.trans hd)
    · exact nomatch (hclose.symm.trans hc)
  | false =>
    rw [send_of_not_holdsBack hh]
    exact h.snoc_payload hdone hclose _ none

/-! ### Runs -/

/-- The calls for which the order is kept: payload is only sent before "done" and "close",
    "done" only while no bytes are held back, and no other control message (that of
    `cockpit_channel_ready` included) once "close" is on the wire. -/
def WireOk (c : Channel) : Event → Prop
  | .send _ _ => c.doneSent = false ∧ c.closeSent = false
  | .control command _ _ =>
    command ≠ "close" → ¬ (command = "done" ∧ c.sentDone) →
      c.closeSent = false ∧ (command = "done" → c.outBuffer = none)
  | .readyDone => c.closeSent = false
  | _ => True

instance WireOk.decidable (c : Channel) : ∀ e, Decidable (c.WireOk e)
  | .send _ _ => inferInstanceAs (Decidable (_ ∧ _))
  | .control _ _ _ => inferInstanceAs (Decidable (_ → _ → _ ∧ (_ → _)))
  | .readyDone => inferInstanceAs (Decidable (_ = _))
  | .prepare _ | .incoming _ _ | .ready _ | .thawed _ | .close _ _ | .chainUp _ | .fail _ _ _
  | .timeout _ | .transportClosed _ _ | .dispose _ => inferInstanceAs (Decidable True)

/-- One admitted event keeps the invariant. -/
theorem Inv.step (h : c.Inv) (e : Event) (hok : c.WireOk e) : (c.step e).Inv := by
  cases e with
  | prepare chain => exact h.prepare chain
  | incoming m chain =>
    simp only [Channel.step]
    split
    · exact h
    · exact h.deliver m chain
  | ready message => exact h
  | thawed chain =>
    simp only [Channel.step]
    split
    · refine Inv.deliver ?_ _ chain
      exact h
    · exact h
  | readyDone =>
    simp only [Channel.step]
    split
    · refine Inv.control ?_ _ true fun _ _ => ⟨hok, nofun⟩
      exact h
    · exact h
  | send payload trust => exact h.send payload trust hok.1 hok.2
  | control command options chain => exact h.control options chain hok
  | close problem chain => exact h.close problem chain
  | chainUp problem => exact h.realClose problem
  | fail problem message chain => exact h.fail problem message chain
  | timeout source =>
    simp only [Channel.step]
    split
    · unfold Inv
      rw [flushBuffer_sent, flushBuffer_sentClose, flushBuffer_outBuffer]
      exact h.flush
    · exact h
  | transportClosed problem chain => exact h.onTransportClosed problem chain
  | dispose chain => exact h.dispose chain

/-- A new channel has sent nothing. -/
theorem inv_new (id : String) (options : JsonObject) (capabilities : Option (List String))
    (isBaseType : Bool) : (new id options capabilities isBaseType).Inv :=
  ⟨List.Pairwise.nil, fun h => absurd h (by simp [new]), fun _ => rfl, fun _ => rfl⟩

/-- **Wire order.** In every run whose calls are admitted by `WireOk`, no payload follows
    "done" and nothing follows "close". -/
theorem run_wireOrder (id : String) (options : JsonObject) (capabilities : Option (List String))
    (isBaseType : Bool) (events : List Event)
    (hok : RunOk Channel.step WireOk (Channel.new id options capabilities isBaseType) events) :
    WireOrder (run Channel.step (Channel.new id options capabilities isBaseType) events).sent :=
  (run_invariant Channel.Inv (fun _ e h he => Inv.step h e he)
    (inv_new id options capabilities isBaseType) hok).order

/-- A channel that sends a character in two parts with "done" after the second one, and closes. -/
theorem run_wireOrder_split_character :
    RunOk Channel.step WireOk (Channel.new "c1" [] none false)
        [.ready none, .readyDone, .send [0xC3] false, .send [0xA4] false,
          .control "done" none true, .close none true] ∧
      WireOrder (run Channel.step (Channel.new "c1" [] none false)
        [.ready none, .readyDone, .send [0xC3] false, .send [0xA4] false,
          .control "done" none true, .close none true]).sent := by
  have hok : RunOk Channel.step WireOk (Channel.new "c1" [] none false)
      [.ready none, .readyDone, .send [0xC3] false, .send [0xA4] false,
        .control "done" none true, .close none true] := by decide +kernel
  exact ⟨hok, run_wireOrder "c1" [] none false _ hok⟩

/-- The order fails without `WireOk`: half a character is held back, "done" overtakes it, and
    the timeout sends it as payload after "done". -/
theorem not_wireOrder_done_overtakes :
    ¬ WireOrder (run Channel.step (Channel.new "c1" [] none false)
      [.ready none, .readyDone, .send [0xC3] false, .control "done" none true,
        .timeout 1]).sent := by
  decide +kernel

end Channel

end Cockpit
