import Mathlib.Data.List.Basic

/-!
A caller's `while (next(&output))` loop over a deterministic step.

`step` answers whether to go on, the output the caller reads in that round, and
the next state. `whileTrue step fuel state` is what the caller sees in its first
`fuel` rounds: the outputs of the rounds that answered true, up to the first that
did not.

Owns: the loop, its invariant rule (a property that every continuing step keeps,
together with a property of its output, holds of every output seen) and its
divergence rule (a set of states that every step keeps and on which every step
goes on makes the loop run every round it is given).
-/

namespace StrongSwan.Foundations

variable {State Output : Type}

def whileTrue (step : State → Bool × Output × State) : Nat → State → List Output
  | 0, _ => []
  | fuel + 1, state =>
    if (step state).1 then (step state).2.1 :: whileTrue step fuel (step state).2.2 else []

/-- The invariant rule: every output the loop hands out has the property. -/
theorem forall_mem_whileTrue (step : State → Bool × Output × State) (invariant : State → Prop)
    (property : Output → Prop)
    (preserved : ∀ state, invariant state → (step state).1 = true →
      invariant (step state).2.2 ∧ property (step state).2.1) :
    ∀ fuel state, invariant state → ∀ output ∈ whileTrue step fuel state, property output := by
  intro fuel
  induction fuel with
  | zero => simp [whileTrue]
  | succ fuel inductionHypothesis =>
    intro state holds output member
    simp only [whileTrue] at member
    split at member
    · obtain ⟨next, current⟩ := preserved state holds ‹_›
      rcases List.mem_cons.mp member with rfl | later
      · exact current
      · exact inductionHypothesis _ next output later
    · cases member

/-- The divergence rule: from a state of a set that every step stays in and goes
on from, the loop never stops by itself. -/
theorem length_whileTrue_of_closed (step : State → Bool × Output × State) (states : State → Prop)
    (closed : ∀ state, states state → states (step state).2.2)
    (goesOn : ∀ state, states state → (step state).1 = true) :
    ∀ fuel state, states state → (whileTrue step fuel state).length = fuel := by
  intro fuel
  induction fuel with
  | zero => simp [whileTrue]
  | succ fuel inductionHypothesis =>
    intro state member
    simp [whileTrue, goesOn state member, inductionHypothesis _ (closed state member)]

end StrongSwan.Foundations
