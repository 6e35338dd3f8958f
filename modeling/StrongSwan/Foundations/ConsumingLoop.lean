import Mathlib.Data.List.Basic

/-!
Loops that consume their input.

A reader loop runs a body while input remains; each pass either stops the
loop with a result or hands on a new state and a strictly shorter rest of the
input, so the loop terminates by the length of the input.

Owns: `Pass`, `consumeLoop` and its two unfolding equations.
-/

namespace StrongSwan.Foundations

/-- What one pass of a loop over `input` does. -/
inductive Pass (State Result Token : Type) (input : List Token) where
  | stop (result : Result)
  | next (following : State) (rest : List Token) (shorter : rest.length < input.length)

variable {State Result Token : Type}

/-- While the input is not empty, run the body; at the end of the input the
loop gives `finish` of its last state. -/
def consumeLoop (body : State → (input : List Token) → input ≠ [] → Pass State Result Token input)
    (finish : State → Result) (state : State) (input : List Token) : Result :=
  if empty : input = [] then finish state
  else
    match body state input empty with
    | .stop result => result
    | .next following rest _ => consumeLoop body finish following rest
termination_by input.length

section Laws

variable (body : State → (input : List Token) → input ≠ [] → Pass State Result Token input)
  (finish : State → Result)

@[simp] theorem consumeLoop_nil (state : State) : consumeLoop body finish state [] = finish state := by
  rw [consumeLoop]
  simp

theorem consumeLoop_of_ne_nil {state : State} {input : List Token} (hasData : input ≠ []) :
    consumeLoop body finish state input =
      match body state input hasData with
      | .stop result => result
      | .next following rest _ => consumeLoop body finish following rest := by
  rw [consumeLoop, dif_neg hasData]

end Laws

end StrongSwan.Foundations
