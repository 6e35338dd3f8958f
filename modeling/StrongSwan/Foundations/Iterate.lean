import Mathlib

/-!
Loops given by a partial step function `step : State → Option State`, where `none`
is the loop's exit.

`iterateFor step fuel state` takes at most `fuel` steps. `Steps step` is the
reflexive-transitive closure of one step: the states a run from `state` meets.

Owns: the invariant rule (what every step preserves holds of every state a run
meets) and the exit rule (a potential that every step lowers, below the fuel,
makes `iterateFor` stop at the loop's exit and not for want of fuel).
-/

namespace StrongSwan.Foundations

variable {State : Type} (step : State → Option State)

/-- Run at most `fuel` steps, stopping where the loop exits. -/
def iterateFor : Nat → State → State
  | 0, state => state
  | fuel + 1, state =>
    match step state with
    | none => state
    | some next => iterateFor fuel next

/-- The states a run from the first one meets. -/
def Steps : State → State → Prop := Relation.ReflTransGen fun state next => step state = some next

variable {step}

theorem steps_head {state next final : State} (first : step state = some next) (rest : Steps step next final) :
    Steps step state final :=
  Relation.ReflTransGen.head first rest

/-- Invariant rule. -/
theorem invariant_of_steps (invariant : State → Prop)
    (preserved : ∀ state next, invariant state → step state = some next → invariant next)
    {state final : State} (run : Steps step state final) (initial : invariant state) : invariant final := by
  induction run with
  | refl => exact initial
  | tail _ last inductionHypothesis => exact preserved _ _ inductionHypothesis last

/-- Exit rule: with an invariant under which every step lowers a potential, fuel above the
potential brings the run to the loop's exit. -/
theorem iterateFor_exits (invariant : State → Prop) (potential : State → Nat)
    (preserved : ∀ state next, invariant state → step state = some next → invariant next)
    (lowers : ∀ state next, invariant state → step state = some next → potential next < potential state)
    {fuel : Nat} {state : State} (initial : invariant state) (enough : potential state < fuel) :
    Steps step state (iterateFor step fuel state) ∧ step (iterateFor step fuel state) = none := by
  induction fuel generalizing state with
  | zero => exact absurd enough (Nat.not_lt_zero _)
  | succ fuel inductionHypothesis =>
    rw [iterateFor]
    cases stepped : step state with
    | none => exact ⟨Relation.ReflTransGen.refl, stepped⟩
    | some next =>
      have lower := lowers state next initial stepped
      obtain ⟨run, exits⟩ := inductionHypothesis (preserved state next initial stepped) (by omega)
      exact ⟨steps_head stepped run, exits⟩

end StrongSwan.Foundations
