import Mathlib

namespace Cockpit.Lib

/-!
# Runs of a deterministic machine

A machine is a step function on states and events; its runs are event lists.  `RunOk` says
that every step of a run meets a condition on the event and on the state before the step.
The induction rules below turn step lemmas into statements about whole runs:

* `runOk_congr` — where two conditions admit the same runs;
* `run_good_iff` — a property that exactly the admitted steps keep holds in all states of exactly
  the admitted runs.
-/

variable {σ ε : Type}

/-- The state after the events `es`. -/
def run (step : σ → ε → σ) (s : σ) (es : List ε) : σ := es.foldl step s

/-- Every step of the run meets `ok` in the state before it. -/
def RunOk (step : σ → ε → σ) (ok : σ → ε → Prop) : σ → List ε → Prop
  | _, [] => True
  | s, e :: es => ok s e ∧ RunOk step ok (step s e) es

instance RunOk.decidable (step : σ → ε → σ) (ok : σ → ε → Prop) [∀ s e, Decidable (ok s e)] :
    ∀ (s : σ) (es : List ε), Decidable (RunOk step ok s es)
  | _, [] => inferInstanceAs (Decidable True)
  | s, e :: es =>
    have := RunOk.decidable step ok (step s e) es
    inferInstanceAs (Decidable (ok s e ∧ RunOk step ok (step s e) es))

variable {step : σ → ε → σ} {ok : σ → ε → Prop}

@[simp] theorem run_nil (s : σ) : run step s [] = s := rfl

@[simp] theorem run_cons (s : σ) (e : ε) (es : List ε) :
    run step s (e :: es) = run step (step s e) es := rfl

theorem run_append (s : σ) (es fs : List ε) :
    run step s (es ++ fs) = run step (run step s es) fs := List.foldl_append

/-- A run is admitted when its first part is and its second part is from there on. -/
theorem runOk_append (s : σ) (es fs : List ε) :
    RunOk step ok s (es ++ fs) ↔ RunOk step ok s es ∧ RunOk step ok (run step s es) fs := by
  induction es generalizing s with
  | nil => simp [RunOk]
  | cons e es ih => simp only [List.cons_append, RunOk, ih, run_cons, and_assoc]

variable {s : σ} {es : List ε} {ok' : σ → ε → Prop}

/-- A run that meets a condition meets a weaker one. -/
theorem RunOk.mono (h : ∀ s e, ok s e → ok' s e)
    (hok : RunOk step ok s es) : RunOk step ok' s es := by
  induction es generalizing s with
  | nil => trivial
  | cons e es ih => exact ⟨h s e hok.1, ih hok.2⟩

/-- Two conditions that come to the same where an invariant holds admit the same runs. -/
theorem runOk_congr (Inv : σ → Prop) (hstep : ∀ s e, Inv s → ok s e → Inv (step s e))
    (hiff : ∀ s e, Inv s → (ok s e ↔ ok' s e)) (h0 : Inv s) (es : List ε) :
    RunOk step ok s es ↔ RunOk step ok' s es := by
  induction es generalizing s with
  | nil => exact Iff.rfl
  | cons e es ih =>
    rw [RunOk, RunOk, ← hiff s e h0]
    exact and_congr_right fun hok => ih (hstep s e h0 hok)

/-- **Invariant rule.** What every admitted step keeps holds after every admitted run. -/
theorem run_invariant (Inv : σ → Prop) (hstep : ∀ s e, Inv s → ok s e → Inv (step s e)) (h0 : Inv s) (hok : RunOk step ok s es) : Inv (run step s es) := by
  induction es generalizing s with
  | nil => exact h0
  | cons e es ih => exact ih (hstep s e h0 hok.1) hok.2

/-- **History rule.** The invariant may speak of the events taken so far. -/
theorem run_history (Inv : List ε → σ → Prop) (h0 : Inv [] s)
    (hstep : ∀ es s e, Inv es s → ok s e → Inv (es ++ [e]) (step s e)) (hok : RunOk step ok s es) : Inv es (run step s es) := by
  induction es using List.reverseRecOn with
  | nil => exact h0
  | append_singleton es e ih =>
    rw [runOk_append] at hok
    rw [run_append]
    exact hstep es _ e (ih hok.1) hok.2.1

/-- What holds of all first parts of a list. -/
theorem forall_prefix_cons_iff {p : List ε → Prop} {e : ε} :
    (∀ before, before <+: e :: es → p before) ↔
      p [] ∧ ∀ before, before <+: es → p (e :: before) := by
  constructor
  · exact fun h => ⟨h [] List.nil_prefix,
      fun before hbef => h _ (List.cons_prefix_cons.mpr ⟨rfl, hbef⟩)⟩
  rintro ⟨hnil, hcons⟩ before hbef
  rcases List.prefix_cons_iff.mp hbef with rfl | ⟨rest, rfl, hrest⟩
  · exact hnil
  · exact hcons rest hrest

/-- **Exact runs.** An admitted step keeps the invariant, and any other ends in a state that is
    not good. -/
theorem run_good_iff (Inv Good : σ → Prop) (hgood : ∀ s, Inv s → Good s)
    (hstep : ∀ s e, Inv s → ok s e → Inv (step s e))
    (hbreak : ∀ s e, Inv s → ¬ ok s e → ¬ Good (step s e)) (h0 : Inv s) (es : List ε) :
    (∀ before, before <+: es → Good (run step s before)) ↔ RunOk step ok s es := by
  induction es generalizing s with
  | nil =>
    refine ⟨fun _ => trivial, fun _ before hbef => ?_⟩
    rw [List.prefix_nil.mp hbef]
    exact hgood s h0
  | cons e es ih =>
    rw [forall_prefix_cons_iff, RunOk]
    by_cases hok : ok s e
    · rw [← ih (hstep s e h0 hok)]
      exact ⟨fun h => ⟨hok, h.2⟩, fun h => ⟨hgood s h0, h.2⟩⟩
    · refine ⟨fun h => ?_, fun h => absurd h.1 hok⟩
      exact absurd (h.2 [] List.nil_prefix) (hbreak s e h0 hok)

end Cockpit.Lib
