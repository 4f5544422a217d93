import Mathlib

namespace Cockpit.Lib

/-!
# Transducers

A transducer takes a symbol in a state, goes to another state and puts out some symbols.

* `feed_append` — what a transducer puts out for a cut word;
* `feed_pipe` — a transducer behind another one reads what the first one puts out.
-/

variable {σ τ α β γ : Type}

/-- Feed a word to a transducer: the state after it, and what was put out. -/
def feed (step : σ → α → σ × List β) : σ → List α → σ × List β
  | s, [] => (s, [])
  | s, a :: as =>
    ((feed step (step s a).1 as).1, (step s a).2 ++ (feed step (step s a).1 as).2)

theorem feed_append (step : σ → α → σ × List β) (s : σ) (as bs : List α) :
    feed step s (as ++ bs) = ((feed step (feed step s as).1 bs).1,
        (feed step s as).2 ++ (feed step (feed step s as).1 bs).2) := by
  induction as generalizing s with
  | nil => rfl
  | cons a as ih => simp only [List.cons_append, feed, ih, List.append_assoc]

variable (first : σ → α → σ × List β) (second : τ → β → τ × List γ)

/-- What the first transducer puts out goes through the second one at once. -/
def pipe :
    σ × τ → α → (σ × τ) × List γ := fun s a =>
  (((first s.1 a).1, (feed second s.2 (first s.1 a).2).1), (feed second s.2 (first s.1 a).2).2)

/-- **A pipe is as good as two passes**: the word through the first transducer, and all that it
    puts out through the second one. -/
theorem feed_pipe (s : σ) (t : τ)
    (as : List α) :
    feed (pipe first second) (s, t) as =
      (((feed first s as).1, (feed second t (feed first s as).2).1),
        (feed second t (feed first s as).2).2) := by
  induction as generalizing s t with
  | nil => rfl
  | cons a as ih => simp only [feed, pipe, ih, feed_append]

end Cockpit.Lib
