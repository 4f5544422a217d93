import Cockpit.Common.Frame
import Cockpit.Ssh.Relay

namespace Cockpit.Ssh

open Lib List Relay Cockpit.Frame

/-!
# The first frame of a bridge

`on_channel_data` of `src/ssh/cockpitsshrelay.c` against `cockpit_frame_parse`.  libssh presents the
bytes that were not taken again, in front of new ones.

* `parse_split` — what both make of the digits in front;
* `recognises_iff` — when they come to the same decision all along.
-/

/-! ### Presenting data -/

/-- What `on_channel_data` returns for standard output: the number of bytes it took. -/
def Relay.taken (s : Relay) (data : Bytes) : Nat :=
  if s.receivedFrame = false ∧ skipSize 0 data = [] then 0 else data.length

/-- What was written to the pipe. -/
def Relay.relayedBytes (s : Relay) : Bytes :=
  s.log.flatMap fun
    | .relayed data => data
    | _ => []

/-- A relay, and what libssh has for it. -/
structure Presented where
  relay : Relay
  /-- The bytes of standard output that were not taken. -/
  pending : Bytes := []
  /-- History: standard output. -/
  output : Bytes := []

/-- New bytes of a stream. -/
structure Arrival where
  bytes : Bytes
  isStderr : Bool := false

namespace Presented

/-- libssh calls `on_channel_data`. -/
def present (s : Presented) (arrival : Arrival) : Presented :=
  if arrival.isStderr then { s with relay := s.relay.onChannelData arrival.bytes true }
  else
    let data := s.pending ++ arrival.bytes
    { relay := s.relay.onChannelData data false
      pending := data.drop (s.relay.taken data)
      output := s.output ++ arrival.bytes }

/-- A relay whose channel was opened. -/
def start (data : SshData) : Presented := { relay := { sshData := some data } }

/-- The relay comes to the decision of `cockpit_frame_parse`. -/
structure Recognises (s : Presented) : Prop where
  frame : s.relay.receivedFrame ↔ ∃ size i, Frame.parse s.output = .size size i
  noCockpit : s.relay.exitCode = noCockpit ↔ Frame.parse s.output = .failure
  relayed : (∃ size i, Frame.parse s.output = .size size i) → s.relay.relayedBytes = s.output
  more : Frame.parse s.output = .wantMore → s.pending = s.output

/-- A newline behind at most eight digits is taken for the end of a header, although all of them are
    zero, or the output was found not to be a bridge's before. -/
def Misread (s : Presented) (arrival : Arrival) : Prop :=
  arrival.isStderr = false ∧ s.relay.receivedFrame = false ∧
    ∃ digits rest, s.pending ++ arrival.bytes = digits ++ newline :: rest ∧ digits.length ≤ 8 ∧
      (∀ b ∈ digits, isDigit b) ∧
      (s.relay.exitCode = noCockpit ∨ ∀ b ∈ digits, b = 48)

end Presented

/-! ### Headers -/

/-- What stops both loops. -/
def Stops (digits tail : Bytes) : Prop :=
  ∀ b ∈ tail.head?, 8 ≤ digits.length ∨ isDigit b = false

theorem isDigit_eq_false {b : UInt8} : isDigit b = false ↔ b < 48 ∨ b > 57 := by
  rw [← Bool.not_eq_true, isDigit]
  simp only [Bool.and_eq_true, decide_eq_true_eq, UInt8.le_iff_toNat_le, gt_iff_lt,
    UInt8.lt_iff_toNat_lt]
  omega

variable {digits tail : Bytes}

theorem skipSize_split {i : Nat} (hdigs : ∀ b ∈ digits, isDigit b) (hlen : i + digits.length ≤ 8)
    (hstops : ∀ b ∈ tail.head?, 8 ≤ i + digits.length ∨ isDigit b = false) :
    skipSize i (digits ++ tail) = tail := by
  induction digits generalizing i with
  | nil =>
    cases tail with
    | nil => rfl
    | cons b tail =>
      have hb : i > 7 ∨ b < 48 ∨ b > 57 :=
        (hstops b rfl).imp (fun h => Nat.lt_of_succ_le (by simpa using h)) isDigit_eq_false.mp
      rw [nil_append, skipSize, if_pos hb]
  | cons d digits ih =>
    have hd := hdigs d mem_cons_self
    rw [length_cons] at hlen hstops
    have hgo : ¬ (i > 7 ∨ d < 48 ∨ d > 57) := by
      rintro (h | h)
      · omega
      · exact absurd hd (Bool.eq_false_iff.mp (isDigit_eq_false.mpr h))
    rw [cons_append, skipSize, if_neg hgo]
    exact ih (fun b hb => hdigs b (mem_cons_of_mem _ hb)) (by omega)
      fun b hb => (hstops b hb).imp_left fun h => by omega

theorem exists_split (i : Nat) (data : Bytes) (hi : i ≤ 8) :
    ∃ digits tail, data = digits ++ tail ∧ i + digits.length ≤ 8 ∧ (∀ b ∈ digits, isDigit b) ∧
      ∀ b ∈ tail.head?, 8 ≤ i + digits.length ∨ isDigit b = false := by
  induction data generalizing i with
  | nil => exact ⟨[], [], rfl, hi, by simp, by simp⟩
  | cons b data ih =>
    by_cases hgo : i < 8 ∧ isDigit b
    · obtain ⟨digits, tail, rfl, hlen, hdigs, hstops⟩ := ih (i + 1) hgo.1
      refine ⟨b :: digits, tail, rfl, ?_, ?_, ?_⟩
      · rw [length_cons]
        omega
      · rintro d (_ | ⟨_, hd⟩)
        · exact hgo.2
        · exact hdigs d hd
      · intro d hd
        rw [length_cons]
        exact (hstops d hd).imp_left fun h => by omega
    refine ⟨[], b :: data, rfl, hi, by simp, ?_⟩
    rintro d ⟨rfl⟩
    rw [not_and_or] at hgo
    exact hgo.imp (fun h => by simpa using h) fun h => by simpa using h

theorem parse_split (hdigs : ∀ b ∈ digits, isDigit b)
    (hlen : digits.length ≤ 8) (hstops : Stops digits tail) :
    Frame.parse (digits ++ tail) =
      match tail with
      | [] => .wantMore
      | b :: _ =>
        if digitsValue 0 digits = 0 || b != newline then .failure
        else .size (digitsValue 0 digits) (digits.length + 1) := by
  have hloop := parseLoop_digits 0 0 digits tail hdigs
    (by unfold maxFrameSizeBytes; omega)
  rw [Nat.zero_add] at hloop
  have hstop : parseLoop digits.length (digitsValue 0 digits) tail =
      (digits.length, digitsValue 0 digits) := by
    cases tail with
    | nil => rfl
    | cons b tail =>
      rw [parseLoop, if_pos]
      have := hstops b rfl
      simpa [maxFrameSizeBytes, Nat.lt_iff_add_one_le] using this
  unfold Frame.parse
  dsimp only
  rw [hloop, hstop]
  dsimp only
  rw [drop_left]
  cases tail <;> rfl

theorem digitsValue_eq_zero (h : ∀ b ∈ digits, isDigit b) (acc : Nat) :
    digitsValue acc digits = 0 ↔ acc = 0 ∧ ∀ b ∈ digits, b = 48 := by
  induction digits generalizing acc with
  | nil => simp [digitsValue]
  | cons d digits ih =>
    have hd := h d mem_cons_self
    simp only [isDigit, Bool.and_eq_true, decide_eq_true_eq, UInt8.le_iff_toNat_le] at hd
    have h48 : (48 : UInt8).toNat = 48 := rfl
    have hzero : digitValue d = 0 ↔ d = 48 := by
      rw [digitValue, ← UInt8.toNat_inj]
      omega
    rw [forall_mem_cons, ← hzero]
    refine (ih (fun b hb => h b (mem_cons_of_mem _ hb)) (acc * 10 + digitValue d)).trans ?_
    constructor
    · rintro ⟨hsum, hall⟩
      exact ⟨by omega, by omega, hall⟩
    · rintro ⟨rfl, hvalue, hall⟩
      exact ⟨by omega, hall⟩

/-! ### Decisions -/

namespace Presented

/-- What is known of a relay that recognised all output. -/
inductive Inv (s : Presented) : Prop where
  | more (data : SshData) (hrelay : s.relay = { sshData := some data })
    (hpending : s.pending = s.output) (hparse : Frame.parse s.output = .wantMore)
  | bridge (hframe : s.relay.receivedFrame) (hcode : s.relay.exitCode = 0)
    (hpipe : s.relay.pipeClosed = false) (hpending : s.pending = [])
    (hrelayed : s.relay.relayedBytes = s.output)
    (hparse : ∃ size i, Frame.parse s.output = .size size i)
  | other (hframe : s.relay.receivedFrame = false) (hcode : s.relay.exitCode = noCockpit)
    (hparse : Frame.parse s.output = .failure)

theorem inv_start (data : SshData) : (start data).Inv :=
  .more data rfl rfl rfl

theorem Inv.recognises {s : Presented} (h : s.Inv) : s.Recognises := by
  cases h with
  | more data hrelay hpend hparse =>
    exact ⟨by simp [hrelay, hparse], by simp [hrelay, hparse, noCockpit], by simp [hparse],
      fun _ => hpend⟩
  | bridge hframe hcode hpipe hpend hrelayed hparse =>
    obtain ⟨size, i, hparse⟩ := hparse
    exact ⟨by simp [hframe, hparse], by simp [hcode, hparse, noCockpit], fun _ => hrelayed,
      by simp [hparse]⟩
  | other hframe hcode hparse =>
    exact ⟨by simp [hframe, hparse], by simp [hcode, hparse], by simp [hparse], by simp [hparse]⟩

variable {s : Presented} {arrival : Arrival}

theorem present_stderr (h : arrival.isStderr) : s.present arrival = s := by
  simp [present, h, Relay.onChannelData, Relay.relayData]

section

variable (hstdout : arrival.isStderr = false)

include hstdout

/-- Without a decision, nothing is taken. -/
theorem present_more (hframe : s.relay.receivedFrame = false)
    (hskip : skipSize 0 (s.pending ++ arrival.bytes) = []) :
    s.present arrival = { s with
      pending := s.pending ++ arrival.bytes, output := s.output ++ arrival.bytes } := by
  simp [present, hstdout, hframe, Relay.onChannelData, Relay.taken, hskip]

theorem present_other (hframe : s.relay.receivedFrame = false)
    {b : UInt8} {tail : Bytes} (hskip : skipSize 0 (s.pending ++ arrival.bytes) = b :: tail)
    (hb : b ≠ 10) :
    s.present arrival =
      { relay := { s.relay with exitCode := noCockpit }
        pending := []
        output := s.output ++ arrival.bytes } := by
  simp [present, hstdout, hframe, Relay.onChannelData, Relay.taken, Relay.relayData, hskip, hb]

theorem present_bridge (hframe : s.relay.receivedFrame)
    (hcode : s.relay.exitCode = 0) (hpipe : s.relay.pipeClosed = false) :
    s.present arrival =
      { relay := s.relay.record (.relayed (s.pending ++ arrival.bytes))
        pending := []
        output := s.output ++ arrival.bytes } := by
  simp [present, hstdout, hframe, hcode, hpipe, noCockpit, Relay.onChannelData, Relay.taken,
    Relay.relayData]

end

theorem receivedFrame_andThen {r : Relay} {f : Relay → Relay} (hr : r.receivedFrame)
    (hf : (f r).receivedFrame) : (r.andThen f).receivedFrame := by
  unfold Relay.andThen
  split <;> assumption

theorem receivedFrame_relayData (r : Relay) (data : Bytes) (isStderr : Bool) :
    (r.relayData data isStderr).receivedFrame = r.receivedFrame := by
  unfold Relay.relayData
  split_ifs <;> rfl

/-- Behind a newline the relay has its frame. -/
theorem receivedFrame_present (hstdout : arrival.isStderr = false)
    (hframe : s.relay.receivedFrame = false) {tail : Bytes}
    (hskip : skipSize 0 (s.pending ++ arrival.bytes) = 10 :: tail) :
    (s.present arrival).relay.receivedFrame := by
  have hfree : ∀ r : Relay, r.freeSshData.receivedFrame = r.receivedFrame := fun r => by
    unfold freeSshData
    split <;> rfl
  simp only [present, hstdout, Bool.false_eq_true, if_false, Relay.onChannelData, hframe,
    not_false_eq_true, and_self, if_true, hskip, ne_eq, not_true_eq_false]
  exact receivedFrame_andThen (hfree _) ((receivedFrame_relayData _ _ _).trans (hfree _))

theorem present_frame (hstdout : arrival.isStderr = false) {data : SshData}
    (hrelay : s.relay = { sshData := some data }) {tail : Bytes}
    (hskip : skipSize 0 (s.pending ++ arrival.bytes) = 10 :: tail) :
    (s.present arrival).relay.exitCode = 0 ∧ (s.present arrival).relay.pipeClosed = false ∧
      (s.present arrival).pending = [] ∧
      (s.present arrival).relay.relayedBytes = s.pending ++ arrival.bytes := by
  simp [present, hstdout, hrelay, Relay.onChannelData, hskip, freeSshData, Relay.record,
    Relay.andThen, Relay.relayData, noCockpit, Relay.taken, relayedBytes]

/-- A step without a misread header. -/
theorem inv_present (h : s.Inv) (hok : ¬ s.Misread arrival) : (s.present arrival).Inv := by
  by_cases hstderr : arrival.isStderr
  · rw [present_stderr hstderr]
    exact h
  have hstdout : arrival.isStderr = false := by simpa using hstderr
  obtain ⟨digits, tail, hsplit, hlen, hdigs, hstops⟩ :=
    exists_split 0 (s.pending ++ arrival.bytes) (by omega)
  rw [Nat.zero_add] at hlen hstops
  have hskip := skipSize_split (i := 0) hdigs (by omega) (by rwa [Nat.zero_add])
  have hparse := parse_split hdigs hlen hstops
  rw [← hsplit] at hskip hparse
  cases h with
  | more data hrelay hpend hmore =>
    have hframe : s.relay.receivedFrame = false := by rw [hrelay]
    rw [hpend] at hparse
    cases tail with
    | nil =>
      rw [present_more hstdout hframe hskip]
      exact .more data hrelay (by rw [hpend]) hparse
    | cons b tail =>
      by_cases hb : b = 10
      · subst hb
        have hvalue : digitsValue 0 digits ≠ 0 := fun hzero => hok ⟨hstdout, hframe, digits, tail,
          hsplit, hlen, hdigs, .inr ((digitsValue_eq_zero hdigs 0).mp hzero).2⟩
        obtain ⟨hcode, hpipe, hpending', hrelayed⟩ := present_frame hstdout hrelay hskip
        refine .bridge (receivedFrame_present hstdout hframe hskip) hcode hpipe hpending' ?_ ?_
        · rw [hrelayed, hpend]
          simp [present, hstdout]
        · refine ⟨_, _, Eq.trans ?_ (hparse.trans (if_neg (by simpa [newline] using hvalue)))⟩
          simp [present, hstdout]
      · rw [present_other hstdout hframe hskip hb]
        exact .other hframe rfl (hparse.trans (if_pos (by simp [newline, hb])))
  | bridge hframe hcode hpipe hpend hrelayed hsize =>
    obtain ⟨size, i, hsize⟩ := hsize
    rw [present_bridge hstdout hframe hcode hpipe]
    refine .bridge hframe hcode hpipe rfl ?_ ⟨size, i, ?_⟩
    · simp [relayedBytes, Relay.record, hpend] at hrelayed ⊢
      exact hrelayed
    · exact (parse_append _ (by simp [hsize])).trans hsize
  | other hframe hcode hfailure =>
    have hfailure' := (parse_append arrival.bytes (by simp [hfailure])).trans hfailure
    cases tail with
    | nil =>
      rw [present_more hstdout hframe hskip]
      exact .other hframe hcode hfailure'
    | cons b tail =>
      have hb : b ≠ 10 := by
        rintro rfl
        exact hok ⟨hstdout, hframe, digits, tail, hsplit, hlen, hdigs, .inl hcode⟩
      rw [present_other hstdout hframe hskip hb]
      exact .other hframe rfl hfailure'

/-- A misread header. -/
theorem not_recognises_present (h : s.Inv) (hmisread : s.Misread arrival) :
    ¬ (s.present arrival).Recognises := by
  obtain ⟨hstdout, hframe, digits, rest, hsplit, hlen, hdigs, hwrong⟩ := hmisread
  have hnewline : ∀ b ∈ (newline :: rest).head?, isDigit b = false := by
    rintro b ⟨rfl⟩
    decide
  have hskip := skipSize_split (i := 0) hdigs (by omega) fun b hb => .inr (hnewline b hb)
  have hparse := parse_split hdigs hlen fun b hb => .inr (hnewline b hb)
  rw [← hsplit] at hskip hparse
  have hfailure : Frame.parse (s.output ++ arrival.bytes) = .failure := by
    cases h with
    | more _ hrelay hpend _ =>
      have hzero := hwrong.resolve_left (by simp [hrelay, noCockpit])
      rw [hpend] at hparse
      rw [hparse]
      simp [(digitsValue_eq_zero hdigs 0).mpr ⟨rfl, hzero⟩]
    | bridge hframe' => exact nomatch (hframe'.symm.trans hframe)
    | other _ _ hfailure => exact (parse_append _ (by simp [hfailure])).trans hfailure
  intro hgood
  obtain ⟨size, i, hsize⟩ := hgood.frame.mp (receivedFrame_present hstdout hframe hskip)
  have houtput : (s.present arrival).output = s.output ++ arrival.bytes := by
    simp [present, hstdout]
  rw [houtput, hfailure] at hsize
  exact nomatch hsize

/-- An empty line is taken for a frame, which `cockpit_frame_parse` rejects. -/
theorem not_recognises_line : ¬ ((start {}).present ⟨[10], false⟩).Recognises :=
  not_recognises_present (inv_start {})
    ⟨rfl, rfl, [], [], rfl, by decide, by simp, .inr (by simp)⟩

/-- **When the relay recognises a bridge**: as long as no header is misread. -/
theorem recognises_iff (data : SshData) (arrivals : List Arrival) :
    (∀ before, before <+: arrivals → (run present (start data) before).Recognises) ↔
      RunOk present (fun s arrival => ¬ s.Misread arrival) (start data) arrivals :=
  run_good_iff Inv Recognises (fun _ h => h.recognises) (fun _ _ h hok => inv_present h hok)
    (fun _ _ h hbad => not_recognises_present h (not_not.mp hbad)) (inv_start data) arrivals

end Presented

end Cockpit.Ssh
