import Mathlib.Tactic

/-!
# Runs as indexed traces

`stateAfter step s es n` is the state after the first `n` events of a run that starts in `s`. What
every event preserves holds at every index, and what every event does from one state to the next
leads from each index to the later ones.
-/

namespace EquationSheet

variable {State Event : Type*}

/-- The state after the first `n` events. -/
def stateAfter (step : State → Event → State) (s : State) (es : List Event) (n : ℕ) : State :=
  (es.take n).foldl step s

variable {step : State → Event → State} {s : State} {es : List Event} {n : ℕ}

theorem stateAfter_zero : stateAfter step s es 0 = s := by simp [stateAfter]

theorem stateAfter_succ {e : Event} (h : es[n]? = some e) :
    stateAfter step s es (n + 1) = step (stateAfter step s es n) e := by
  unfold stateAfter
  rw [List.take_add_one, h, Option.toList_some, List.foldl_append]
  rfl

theorem stateAfter_succ_none (h : es[n]? = none) :
    stateAfter step s es (n + 1) = stateAfter step s es n := by
  unfold stateAfter
  rw [List.take_add_one, h, Option.toList_none, List.append_nil]

theorem stateAfter_of_length_le (h : es.length ≤ n) :
    stateAfter step s es n = stateAfter step s es es.length := by
  unfold stateAfter
  rw [List.take_of_length_le h, List.take_length]

/-- **What holds first and is preserved by every event of a run** holds after all of them. -/
theorem stateAfter_induction {P : State → Prop} (hfirst : P s)
    (hstep : ∀ n e, es[n]? = some e → P (stateAfter step s es n) → P (step (stateAfter step s es n) e))
    (n : ℕ) : P (stateAfter step s es n) := by
  induction n with
  | zero =>
    rw [stateAfter_zero]
    exact hfirst
  | succ n ih =>
    cases he : es[n]? with
    | none =>
      rw [stateAfter_succ_none he]
      exact ih
    | some e =>
      rw [stateAfter_succ he]
      exact hstep n e he ih

/-- **What every event of a run does** leads from each state to the later ones. -/
theorem stateAfter_le {R : State → State → Prop} (hrefl : ∀ s, R s s)
    (htrans : ∀ {s₁ s₂ s₃}, R s₁ s₂ → R s₂ s₃ → R s₁ s₃)
    (hstep : ∀ n e, es[n]? = some e → R (stateAfter step s es n) (step (stateAfter step s es n) e))
    {m n : ℕ} (hmn : m ≤ n) : R (stateAfter step s es m) (stateAfter step s es n) := by
  induction n, hmn using Nat.le_induction with
  | base => exact hrefl _
  | succ n _ ih =>
    cases he : es[n]? with
    | none =>
      rw [stateAfter_succ_none he]
      exact ih
    | some e =>
      rw [stateAfter_succ he]
      exact htrans ih (hstep n e he)

end EquationSheet
