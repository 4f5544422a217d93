import Cockpit.Bridge.ChannelWire

namespace Cockpit

open Lib Channel

/-!
# The timer of held-back output

Bytes with an incomplete ending are held back in `out_buffer`, for as long as the timer runs whose
source is in `buffer_timeout`.

* `TimerOk` — the timer, the buffer and the source agree, and nothing runs after the end;
* `Lifetime.run_timerOk` — for all runs in which nothing is held back when the channel closes.
-/

namespace Channel

/-! ### What leaves the timer alone -/

structure SameTimer (c d : Channel) : Prop where
  sources : d.sources = c.sources
  outBuffer : d.outBuffer = c.outBuffer
  bufferTimeout : d.bufferTimeout = c.bufferTimeout

/-- The channel closes while output is held back; or else the timer stays as it is. -/
structure Quiet (c d : Channel) : Prop where
  closed : c.sentClose → d.sentClose
  timer : SameTimer c d ∨ c.outBuffer ≠ none ∧ c.sentClose = false ∧ d.sentClose

variable {c d e : Channel}

theorem Quiet.same (h : (d.sources, d.outBuffer, d.bufferTimeout, d.sentClose) =
    (c.sources, c.outBuffer, c.bufferTimeout, c.sentClose)) : Quiet c d := by
  simp only [Prod.mk.injEq] at h
  obtain ⟨hsources, hbuf, htime, hclos⟩ := h
  exact ⟨fun hc => hclos ▸ hc, .inl ⟨hsources, hbuf, htime⟩⟩

theorem Quiet.refl (c : Channel) : Quiet c c := same rfl

theorem Quiet.trans (h : Quiet c d) (h' : Quiet d e) : Quiet c e where
  closed hc := h'.closed (h.closed hc)
  timer := by
    rcases h.timer with hsame | ⟨hheld, hopen, hclos⟩
    · rcases h'.timer with hsame' | ⟨hheld, hopen, hclos⟩
      · exact .inl ⟨hsame'.sources.trans hsame.sources, hsame'.outBuffer.trans hsame.outBuffer,
          hsame'.bufferTimeout.trans hsame.bufferTimeout⟩
      refine .inr ⟨by rwa [← hsame.outBuffer], ?_, hclos⟩
      -- it was open before, too
      cases hc : c.sentClose with
      | false => rfl
      | true => exact absurd (h.closed hc) (by rw [hopen]; exact Bool.false_ne_true)
    · exact .inr ⟨hheld, hopen, h'.closed hclos⟩

section

variable (c : Channel)

theorem quiet_realClose (problem : Option String) : Quiet c (c.realClose problem) := by
  cases hclose : c.sentClose with
  | true =>
    rw [realClose, if_pos hclose]
    exact Quiet.refl c
  | false =>
    have hafter : (c.realClose problem).sentClose := by
      rcases c.realClose_cases problem with ⟨hc, -⟩ | ⟨-, -, -, hc, -⟩ | ⟨-, -, hc, -⟩
      · rw [hclose] at hc
        cases hc
      · exact hc
      · exact hc
    refine ⟨fun _ => hafter, ?_⟩
    cases hbuf : c.outBuffer with
    | some held => exact .inr ⟨Option.some_ne_none held, hclose, hafter⟩
    | none =>
      -- there is nothing to flush
      left
      by_cases ht : c.transportClosed
      · constructor <;> simp [realClose, hclose, ht]
      constructor
      · simp [realClose, hclose, ht, flushBuffer, hbuf]
      · simp [realClose, hclose, ht, hbuf]
      · simp [realClose, hclose, ht, flushBuffer, hbuf]

theorem quiet_close (problem : Option String) (chain : Bool) :
    Quiet c (c.close problem chain) := by
  unfold close
  dsimp only
  split
  · refine Quiet.trans ?_ (quiet_realClose _ problem)
    exact .same rfl
  · exact .same rfl

theorem quiet_fail (problem message : String) (chain : Bool) :
    Quiet c (c.fail problem message chain) := by
  unfold fail
  dsimp only
  refine Quiet.trans ?_ (quiet_close _ problem chain)
  exact .same rfl

theorem quiet_control (command : String) (options : Option JsonObject)
    (chain : Bool) : Quiet c (c.control command options chain) := by
  unfold control
  dsimp only
  split
  · refine Quiet.trans ?_ (quiet_close _ _ chain)
    exact .same rfl
  · split
    · exact Quiet.refl c
    · exact .same rfl

theorem quiet_deliver (m : Incoming) (chain : Bool) : Quiet c (c.deliver m chain) := by
  unfold deliver
  split
  · split
    · unfold processRecv
      split
      · exact quiet_fail c _ _ chain
      · exact Quiet.refl c
    · exact Quiet.refl c
  split
  · unfold processControl
    split
    · exact quiet_close c _ chain
    split
    · split
      · exact quiet_fail c _ _ chain
      · exact .same rfl
    · exact Quiet.refl c
  · exact Quiet.refl c

theorem quiet_onTransportClosed (problem : Option String) (chain : Bool) :
    Quiet c (c.onTransportClosed problem chain) := by
  unfold onTransportClosed
  split
  · exact Quiet.refl c
  dsimp only
  split
  · exact .same rfl
  · refine Quiet.trans ?_ (quiet_close _ _ chain)
    exact .same rfl

theorem quiet_ensureCapable (chain : Bool) : Quiet c (c.ensureCapable chain).1 := by
  unfold ensureCapable
  split
  · exact quiet_fail c _ _ chain
  · exact Quiet.refl c
  split
  · exact Quiet.refl c
  · refine Quiet.trans ?_ (quiet_close _ _ chain)
    exact .same rfl

theorem quiet_realPrepare (chain : Bool) : Quiet c (c.realPrepare chain) := by
  have hcap := quiet_ensureCapable c chain
  unfold realPrepare
  dsimp only
  split
  · exact hcap
  split
  · exact hcap.trans (quiet_close _ _ chain)
  split
  · exact hcap.trans (quiet_fail _ _ _ chain)
  · exact hcap
  split
  · exact hcap.trans (.same rfl)
  · refine hcap.trans (Quiet.trans ?_ (quiet_fail _ _ _ chain))
    exact .same rfl

theorem quiet_prepare (chain : Bool) : Quiet c (c.prepare chain) := by
  unfold prepare
  split
  · exact Quiet.refl c
  dsimp only
  split
  · exact .same rfl
  · refine Quiet.trans ?_ (quiet_realPrepare _ chain)
    exact .same rfl

/-- Events that are neither a send, nor a timeout, nor the end. -/
theorem quiet_step {e : Event} (hsend : ∀ payload trust, e ≠ .send payload trust)
    (htime : ∀ source, e ≠ .timeout source) (hdispose : ∀ chain, e ≠ .dispose chain) :
    Quiet c (c.step e) := by
  cases e with
  | prepare chain => exact quiet_prepare c chain
  | incoming m chain =>
    dsimp only [step]
    split
    · exact .same rfl
    · exact quiet_deliver c m chain
  | ready message => exact .same rfl
  | thawed chain =>
    dsimp only [step]
    split
    · refine Quiet.trans ?_ (quiet_deliver _ _ chain)
      exact .same rfl
    · exact Quiet.refl c
  | readyDone =>
    dsimp only [step]
    split
    · refine Quiet.trans ?_ (quiet_control _ "ready" _ true)
      exact .same rfl
    · exact Quiet.refl c
  | send payload trust => exact absurd rfl (hsend payload trust)
  | control command options chain => exact quiet_control c command options chain
  | close problem chain => exact quiet_close c problem chain
  | chainUp problem => exact quiet_realClose c problem
  | fail problem message chain => exact quiet_fail c problem message chain
  | timeout source => exact absurd rfl (htime source)
  | transportClosed problem chain => exact quiet_onTransportClosed c problem chain
  | dispose chain => exact absurd rfl (hdispose chain)

end

end Channel

/-! ### Runs -/

/-- A channel, and whether it was disposed of. -/
structure Lifetime where
  channel : Channel
  disposed : Bool

/-- **The timer is in step**: a source is armed when output is held back, which is when
    `buffer_timeout` is not zero; at most one is; and none is once the channel is closed or disposed
    of. -/
structure TimerOk (l : Lifetime) : Prop where
  armed : l.channel.sources ≠ [] ↔ l.channel.outBuffer.isSome
  held : l.channel.outBuffer.isSome ↔ l.channel.bufferTimeout ≠ 0
  single : l.channel.sources.length ≤ 1
  ended : l.channel.sentClose ∨ l.disposed → l.channel.sources = []

namespace Lifetime

def new (id : String) (options : JsonObject) (capabilities : Option (List String))
    (isBaseType : Bool) : Lifetime := ⟨.new id options capabilities isBaseType, false⟩

/-- The event is `dispose`. -/
def disposes : Channel.Event → Bool
  | .dispose _ => true
  | _ => false

variable (l : Lifetime)

def step (e : Channel.Event) : Lifetime :=
  ⟨l.channel.step e, l.disposed || disposes e⟩

/-- What is sent after the end is not held back. -/
def LateOk : Channel.Event → Prop
  | .send payload trust => l.channel.sentClose ∨ l.disposed →
    l.channel.holdsBack payload trust = false
  | _ => True

instance LateOk.decidable (l : Lifetime) : ∀ e, Decidable (l.LateOk e)
  | .send _ _ => inferInstanceAs (Decidable (_ → _))
  | .prepare _ | .incoming _ _ | .ready _ | .thawed _ | .readyDone | .control _ _ _ | .close _ _
  | .chainUp _ | .fail _ _ _ | .timeout _ | .transportClosed _ _ | .dispose _ =>
    inferInstanceAs (Decidable True)

/-- Nothing is held back when the channel closes, nor by what is sent after its end. -/
def StepOk (e : Channel.Event) : Prop :=
  (l.channel.sentClose = false → (l.channel.step e).sentClose →
    l.channel.outBuffer = none) ∧ l.LateOk e

instance (l : Lifetime) (e : Channel.Event) : Decidable (StepOk l e) :=
  inferInstanceAs (Decidable (_ ∧ _))

/-- The invariant: the armed source is the one in `buffer_timeout`. -/
structure Inv (l : Lifetime) : Prop where
  sources : l.channel.sources =
    if l.channel.outBuffer.isSome then [l.channel.bufferTimeout] else []
  held : l.channel.outBuffer.isSome ↔ l.channel.bufferTimeout ≠ 0
  ended : l.channel.sentClose ∨ l.disposed → l.channel.outBuffer = none

variable {l : Lifetime}

theorem Inv.timerOk (h : Inv l) : TimerOk l := by
  have hsources := h.sources
  refine ⟨?_, h.held, ?_, fun hended => ?_⟩
  · rw [hsources]
    split
    · rename_i hsome
      simp [hsome]
    · rename_i hnone
      simp [hnone]
  · rw [hsources]
    split
    · exact Nat.le_refl 1
    · exact Nat.zero_le 1
  · rw [hsources, h.ended hended]
    rfl

theorem inv_new (id : String) (options : JsonObject) (capabilities : Option (List String))
    (isBaseType : Bool) : Inv (new id options capabilities isBaseType) where
  sources := rfl
  held := by simp [new, Channel.new]
  ended _ := rfl

section

variable (h : Inv l)

include h

/-- The timer stays as it is. -/
theorem Inv.same {d : Channel} (hsame : SameTimer l.channel d)
    (hended : d.sentClose → l.channel.sentClose ∨ l.channel.outBuffer = none) :
    Inv ⟨d, l.disposed⟩ where
  sources := by
    dsimp only
    rw [hsame.sources, hsame.outBuffer, hsame.bufferTimeout]
    exact h.sources
  held := by
    dsimp only
    rw [hsame.outBuffer, hsame.bufferTimeout]
    exact h.held
  ended hd := by
    dsimp only at hd ⊢
    rw [hsame.outBuffer]
    rcases hd with hclos | hdisposed
    · rcases hended hclos with hbef | hnone
      · exact h.ended (.inl hbef)
      · exact hnone
    · exact h.ended (.inr hdisposed)

/-- Under the condition a quiet step leaves the timer alone. -/
theorem Inv.quiet {d : Channel} (hquiet : Channel.Quiet l.channel d)
    (hclsg : l.channel.sentClose = false → d.sentClose → l.channel.outBuffer = none) :
    Inv ⟨d, l.disposed⟩ := by
  rcases hquiet.timer with hsame | ⟨hheld, hopen, hclos⟩
  · apply h.same hsame
    intro hclos
    cases hopen : l.channel.sentClose with
    | true => exact .inl rfl
    | false => exact .inr (hclsg hopen hclos)
  · exact absurd (hclsg hopen hclos) hheld

/-- The source is gone, and the buffer. -/
theorem Inv.removeTimeout :
    l.channel.removeTimeout.sources = [] ∧ l.channel.removeTimeout.bufferTimeout = 0 := by
  refine ⟨?_, rfl⟩
  unfold Channel.removeTimeout
  dsimp only
  rw [h.sources]
  by_cases hsome : l.channel.outBuffer.isSome
  · rw [if_neg (h.held.mp hsome), if_pos hsome]
    simp
  rw [if_neg hsome]
  split <;> rfl

theorem Inv.send (payload : Bytes) (trust : Bool)
    (hlate : l.channel.sentClose ∨ l.disposed → l.channel.holdsBack payload trust = false) :
    Inv ⟨l.channel.send payload trust, l.disposed⟩ := by
  obtain ⟨hsources, htime⟩ := h.removeTimeout
  cases hholds : l.channel.holdsBack payload trust with
  | true =>
    rw [send_of_holdsBack hholds]
    constructor
    · show l.channel.removeTimeout.sources ++ [l.channel.lastSource + 1] = _
      rw [hsources]
      rfl
    · simp
    · intro hended
      exact absurd (hholds.symm.trans (hlate hended)) (by decide)
  | false =>
    rw [send_of_not_holdsBack hholds]
    constructor
    · exact hsources
    · simp [htime]
    · exact fun _ => rfl

/-- The timer runs out. -/
theorem Inv.timeout (source : Nat) :
    Inv ⟨l.channel.step (.timeout source), l.disposed⟩ := by
  dsimp only [Channel.step]
  split
  · rename_i hcontains
    -- the source that is armed is this one
    have hmem := List.contains_iff_mem.mp hcontains
    rw [h.sources] at hmem
    split at hmem
    · rename_i hsome
      obtain rfl := List.mem_singleton.mp hmem
      obtain ⟨payload, hbuf⟩ := Option.isSome_iff_exists.mp hsome
      have herased : l.channel.sources.erase l.channel.bufferTimeout = [] := by
        rw [h.sources, if_pos hsome]
        simp
      constructor
      · simp [Channel.flushBuffer, hbuf, Channel.actualSend, herased]
      · simp [Channel.flushBuffer, hbuf, Channel.actualSend]
      · intro _
        simp
    · exact absurd hmem List.not_mem_nil
  · exact h

theorem Inv.dispose (chain : Bool)
    (hclsg : l.channel.sentClose = false → (l.channel.dispose chain).sentClose →
      l.channel.outBuffer = none) : Inv ⟨l.channel.dispose chain, true⟩ := by
  -- the channel as it is when the timer is removed
  have hbef : ∃ d : Channel, Channel.Quiet l.channel d ∧
      l.channel.dispose chain = { d.removeTimeout with outBuffer := none } := by
    unfold Channel.dispose
    dsimp only
    refine ⟨_, ?_, rfl⟩
    split
    · exact .same rfl
    · refine Channel.Quiet.trans ?_ (quiet_close _ _ chain)
      exact .same rfl
  obtain ⟨d, hquiet, hdispose⟩ := hbef
  rw [hdispose] at hclsg ⊢
  obtain ⟨hsources, htime⟩ := (h.quiet hquiet hclsg).removeTimeout
  exact ⟨hsources, by simp [htime], fun _ => rfl⟩

/-- One event. -/
theorem Inv.step {e : Channel.Event} (hok : StepOk l e) :
    Inv (l.step e) := by
  have hquiet : (∀ payload trust, e ≠ .send payload trust) → (∀ source, e ≠ .timeout source) →
      (∀ chain, e ≠ .dispose chain) → Inv (l.step e) := by
    intro hsend htime hdispose
    have hlast : disposes e = false := by
      cases e with
      | dispose chain => exact absurd rfl (hdispose chain)
      | _ => rfl
    unfold Lifetime.step
    rw [hlast, Bool.or_false]
    exact h.quiet (quiet_step l.channel hsend htime hdispose) hok.1
  cases e with
  | send payload trust =>
    have hsame := Bool.or_false l.disposed
    unfold Lifetime.step
    rw [show disposes (.send payload trust) = false from rfl, hsame]
    exact h.send payload trust hok.2
  | timeout source =>
    have hsame := Bool.or_false l.disposed
    unfold Lifetime.step
    rw [show disposes (.timeout source) = false from rfl, hsame]
    exact h.timeout source
  | dispose chain =>
    unfold Lifetime.step
    rw [disposes, Bool.or_true]
    exact h.dispose chain hok.1
  | _ => exact hquiet (by simp) (by simp) (by simp)

end

/-- **The timer is in step** in every run in which nothing is held back when the channel closes. -/
theorem run_timerOk (id : String) (options : JsonObject) (capabilities : Option (List String))
    (isBaseType : Bool) (es : List Channel.Event)
    (hok : RunOk step StepOk (new id options capabilities isBaseType) es) :
    TimerOk (run step (new id options capabilities isBaseType) es) :=
  (run_invariant Inv (fun _ _ h hok => h.step hok)
    (inv_new id options capabilities isBaseType) hok).timerOk

/-- A character in two parts, and half of one that the timer flushes, before the channel closes. -/
theorem run_timerOk_flushed :
    TimerOk (run step (new "c1" [] none false)
      [.send [0xC3] false, .send [0xA4] false, .send [0xC3] false, .timeout 2, .close none true,
        .dispose true]) := by
  apply run_timerOk
  decide +kernel

/-- **The timer outlives the channel** that closes while half a character is held back: the buffer is
    flushed, but the source stays. -/
theorem not_timerOk_closed :
    ¬ TimerOk (run step (new "c1" [] none false) [.send [0xC3] false, .close none true]) := by
  intro h
  have hended := h.ended (.inl (by decide +kernel))
  revert hended
  decide +kernel

end Lifetime

end Cockpit
