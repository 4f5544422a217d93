import Cockpit.Base1.File

namespace Cockpit.Page.File

open Fs Lib

/-!
# Conflicts of a replacement

One `fsreplace1` channel of `src/bridge/cockpitfsreplace.c`, and somebody else who changes the file
at any time.  The tag that is expected is compared when the channel is prepared and when it is done.

* `Replacement.reported_iff` — when every conflict is reported so that `modify` tries again.
-/

/-- A conflict that a channel found: what it sent, and the file before and after. -/
structure Conflict where
  sent : List Sent
  before : Version
  after : Version

/-- A channel, and the file that it is to replace. -/
structure Replacement where
  disk : Disk
  channel : Fs.State := .opened
  /-- History: the conflicts that were found. -/
  conflicts : List Conflict := []

namespace Replacement

/-- What happens. -/
inductive Event where
  /-- Somebody else replaces, changes or removes the file. -/
  | other (version : Version)
  | prepare (io : Io)
  | receive (message : Received) (io : Io)

/-- The disk after a change by somebody else. -/
def change (d : Disk) : Version → Disk
  | none => { d with path := none }
  | some node => ⟨d.nodes ++ [node], some d.nodes.length⟩

/-- `self->expected_tag && g_strcmp0 (self->expected_tag, actual_tag)` -/
def Stale (tag : Option String) (d : Disk) : Prop := tag.isSome ∧ tag ≠ some d.getFileTag

instance (tag : Option String) (d : Disk) : Decidable (Stale tag d) :=
  inferInstanceAs (Decidable (_ ∧ _))

/-- Whether a "done" comes to a file that changed since the channel was prepared. -/
def late (s : Replacement) : Event → Bool
  | .receive .done io =>
    match s.channel with
    | .fsreplace _ tag _ => io.error.isNone && decide (Stale tag s.disk)
    | _ => false
  | _ => false

/-- What the channel makes of an event, with the conflict that it finds. -/
def serve (s : Replacement) (found : Bool) (result : Disk × Fs.State × List Sent) : Replacement where
  disk := result.1
  channel := result.2.1
  conflicts := s.conflicts ++
    if found then [⟨result.2.2, s.disk.version, result.1.version⟩] else []

def step (tag : Option String) (s : Replacement) (e : Event) : Replacement :=
  match e with
  | .other version => { s with disk := change s.disk version }
  | .prepare io =>
    if s.channel = .opened then
      s.serve (Stale tag s.disk) (Fs.prepare s.disk (.fsreplace tag) io)
    else s
  | .receive message io => s.serve (s.late e) (Fs.receive s.disk s.channel message io)

/-- A conflict is reported as one, the file is untouched, and `modify` tries again. -/
structure Reported (conflict : Conflict) : Prop where
  problem : conflict.sent = [.close (some "change-conflict") none]
  untouched : conflict.after = conflict.before
  retried : ∀ (w : World) (ws : WebSocket) (result : World.CallbackResult) (h call : Nat)
    (problem : String) (tag : Option String), .close (some problem) tag ∈ conflict.sent →
    w.runTask ws result (.replaceFailed h call problem) = w.read h [call]

theorem reported_of_problem {conflict : Conflict}
    (hprob : conflict.sent = [.close (some "change-conflict") none])
    (hunt : conflict.after = conflict.before) : Reported conflict where
  problem := hprob
  untouched := hunt
  retried w ws result h call problem tag hmem := by
    rw [hprob, List.mem_singleton, Sent.close.injEq] at hmem
    rw [Option.some.inj hmem.1, World.runTask, if_pos rfl]

variable {tag : Option String} {s : Replacement} {e : Event}

/-- So is every conflict that the channel found. -/
def AllReported (s : Replacement) : Prop := ∀ conflict ∈ s.conflicts, Reported conflict

/-- Every conflict that is found on time is reported. -/
theorem reported_step (h : s.AllReported) (hok : s.late e = false) :
    (step tag s e).AllReported := by
  cases e with
  | other version => exact h
  | receive message io =>
    simpa [AllReported, step, serve, hok] using h
  | prepare io =>
    unfold step
    dsimp only
    split_ifs
    · intro conflict hmem
      rcases List.mem_append.mp hmem with hmem | hmem
      · exact h conflict hmem
      by_cases hstale : Stale tag s.disk
      · have hprepare : Fs.prepare s.disk (.fsreplace tag) io =
            (s.disk, .closed, [.close (some "change-conflict") none]) := if_pos hstale
        rw [if_pos (by simpa using hstale), List.mem_singleton, hprepare] at hmem
        subst hmem
        exact reported_of_problem rfl rfl
      · simp [hstale] at hmem
    · exact h

/-- A late one is not: the channel is "out-of-date". -/
theorem not_reported_step (hlate : s.late e) : ¬ (step tag s e).AllReported := by
  cases e with
  | other version | prepare io => exact nomatch hlate
  | receive message io =>
    cases message with
    | payload data | close problem => exact nomatch hlate
    | done =>
      have hfound := hlate
      unfold late at hlate
      cases hchan : s.channel with
      | fsreplace fd expectedTag gotContent =>
        simp only [hchan, Bool.and_eq_true, Option.isNone_iff_eq_none, decide_eq_true_eq] at hlate
        have hdone : Fs.receive s.disk (.fsreplace fd expectedTag gotContent) .done io =
            (s.disk, .closed, [.close (some "out-of-date") none]) := by
          show fsreplaceDone s.disk fd expectedTag gotContent io = _
          rw [fsreplaceDone, hlate.1]
          exact if_pos hlate.2
        intro hall
        have hprob := (hall ⟨[.close (some "out-of-date") none], s.disk.version,
          s.disk.version⟩ (by simp [step, serve, hfound, hchan, hdone])).problem
        exact absurd hprob (by simp)
      | _ => simp [hchan] at hlate

/-- **When conflicts are reported**: as long as the file has not changed since the channel was
    prepared. -/
theorem reported_iff (tag : Option String) (first : Disk) (es : List Event) :
    (∀ before, before <+: es → (run (step tag) { disk := first } before).AllReported) ↔
      RunOk (step tag) (fun s e => s.late e = false) { disk := first } es :=
  run_good_iff AllReported AllReported (fun _ h => h) (fun _ _ h hok => reported_step h hok)
    (fun _ _ _ hlate => not_reported_step (Bool.not_eq_false _ ▸ hlate)) (by simp [AllReported]) es

/-- A file that goes away while its new content is on the way. -/
theorem not_reported_removed :
    ¬ (run (step (some "1:1-0.0")) { disk := ⟨[⟨[], ⟨1, 0, 0⟩⟩], some 0⟩ }
      [.prepare { stat := ⟨2, 0, 0⟩ }, .other none,
        .receive .done { stat := ⟨2, 0, 0⟩ }]).AllReported :=
  @not_reported_step (some "1:1-0.0")
    (run (step (some "1:1-0.0")) { disk := ⟨[⟨[], ⟨1, 0, 0⟩⟩], some 0⟩ }
      [.prepare { stat := ⟨2, 0, 0⟩ }, .other none])
    (.receive .done { stat := ⟨2, 0, 0⟩ }) (by decide)

end Replacement

end Cockpit.Page.File
