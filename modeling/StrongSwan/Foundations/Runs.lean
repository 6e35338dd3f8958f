import Mathlib

/-!
Runs of a deterministic step function with outputs.

A component is a function `step : State → Input → State × Output`. A run
feeds it a list of inputs and collects the final state and one output per
input. A protocol restricts which input may come in which state; a run is
admissible when every input is allowed in the state it meets.

Owns: `runSteps`, `statesMet` and `Admissible` with their append laws; the
invariant rule (an invariant of every allowed step holds after every admissible
run); the output rules (a property of every allowed step's output holds of
every output of the run); the step rule (a relation of every allowed step to
the state it starts from holds of every step of the run); and the simulation
rule (two components related by a relation that every allowed step preserves
produce the same outputs); and `runPartial`, the run of a step that can fail, with its
invariant and simulation rules.
-/

namespace StrongSwan.Foundations

variable {State Abstract Input Output : Type}

/-- Final state and outputs of a run. -/
def runSteps (step : State → Input → State × Output) :
    State → List Input → State × List Output
  | state, [] => (state, [])
  | state, input :: rest =>
      ((runSteps step (step state input).1 rest).1,
        (step state input).2 :: (runSteps step (step state input).1 rest).2)

/-- Every input of the run is allowed in the state it meets. -/
def Admissible (step : State → Input → State × Output) (allowed : State → Input → Prop) :
    State → List Input → Prop
  | _, [] => True
  | state, input :: rest => allowed state input ∧ Admissible step allowed (step state input).1 rest

/-- The state each input of the run meets, paired with that input. -/
def statesMet (step : State → Input → State × Output) : State → List Input → List (State × Input)
  | _, [] => []
  | state, input :: rest => (state, input) :: statesMet step (step state input).1 rest

section Laws

variable (step : State → Input → State × Output) (allowed : State → Input → Prop)

@[simp] theorem runSteps_nil (state : State) : runSteps step state [] = (state, []) := rfl

@[simp] theorem runSteps_cons (state : State) (input : Input) (rest : List Input) :
    runSteps step state (input :: rest) =
      ((runSteps step (step state input).1 rest).1,
        (step state input).2 :: (runSteps step (step state input).1 rest).2) := rfl

@[simp] theorem admissible_nil (state : State) : Admissible step allowed state [] := trivial

@[simp] theorem admissible_cons (state : State) (input : Input) (rest : List Input) :
    Admissible step allowed state (input :: rest) ↔
      allowed state input ∧ Admissible step allowed (step state input).1 rest := Iff.rfl

@[simp] theorem length_runSteps (state : State) (inputs : List Input) :
    (runSteps step state inputs).2.length = inputs.length := by
  induction inputs generalizing state with
  | nil => rfl
  | cons input rest inductionHypothesis => simp [inductionHypothesis]

theorem runSteps_append (state : State) (first second : List Input) :
    runSteps step state (first ++ second) =
      ((runSteps step (runSteps step state first).1 second).1,
        (runSteps step state first).2 ++ (runSteps step (runSteps step state first).1 second).2) := by
  induction first generalizing state with
  | nil => rfl
  | cons input rest inductionHypothesis =>
      simp only [List.cons_append, runSteps_cons, inductionHypothesis]

theorem admissible_append (state : State) (first second : List Input) :
    Admissible step allowed state (first ++ second) ↔
      Admissible step allowed state first ∧
        Admissible step allowed (runSteps step state first).1 second := by
  induction first generalizing state with
  | nil => simp
  | cons input rest inductionHypothesis =>
      simp only [List.cons_append, admissible_cons, inductionHypothesis, runSteps_cons, and_assoc]

theorem admissible_of_forall_mem {inputs : List Input}
    (everyInput : ∀ state, ∀ input ∈ inputs, allowed state input) (state : State) :
    Admissible step allowed state inputs := by
  induction inputs generalizing state with
  | nil => trivial
  | cons input rest inductionHypothesis =>
      constructor
      · exact everyInput state input List.mem_cons_self
      · apply inductionHypothesis
        intro state other member
        exact everyInput state other (List.mem_cons_of_mem input member)

end Laws

section Rules

variable {step : State → Input → State × Output} {allowed : State → Input → Prop}

/-- Invariant rule: what every allowed step preserves holds after every admissible run. -/
theorem invariant_runSteps (invariant : State → Prop)
    (preserved : ∀ state input, invariant state → allowed state input →
      invariant (step state input).1)
    {state : State} {inputs : List Input} (initial : invariant state)
    (admissible : Admissible step allowed state inputs) :
    invariant (runSteps step state inputs).1 := by
  induction inputs generalizing state with
  | nil => exact initial
  | cons input rest inductionHypothesis =>
      exact inductionHypothesis (preserved state input initial admissible.1) admissible.2

/-- Output rule: a property that the output of every allowed step has, in a
state satisfying an invariant, holds of every output of an admissible run. -/
theorem outputs_runSteps (invariant : State → Prop) (property : Input → Output → Prop)
    (preserved : ∀ state input, invariant state → allowed state input →
      invariant (step state input).1)
    (produces : ∀ state input, invariant state → allowed state input →
      property input (step state input).2)
    {state : State} {inputs : List Input} (initial : invariant state)
    (admissible : Admissible step allowed state inputs) :
    ∀ pair ∈ inputs.zip (runSteps step state inputs).2, property pair.1 pair.2 := by
  induction inputs generalizing state with
  | nil => simp
  | cons input rest inductionHypothesis =>
      intro pair member
      simp only [runSteps_cons, List.zip_cons_cons, List.mem_cons] at member
      rcases member with head | tail
      · subst head
        exact produces state input initial admissible.1
      · exact inductionHypothesis (preserved state input initial admissible.1) admissible.2
          pair tail

/-- Step rule: a relation that every allowed step bears to the state it starts
from, holds of every step of an admissible run. -/
theorem forall_mem_statesMet (invariant : State → Prop)
    (relation : State → Input → State × Output → Prop)
    (preserved : ∀ state input, invariant state → allowed state input →
      invariant (step state input).1)
    (related : ∀ state input, invariant state → allowed state input →
      relation state input (step state input))
    {state : State} {inputs : List Input} (initial : invariant state)
    (admissible : Admissible step allowed state inputs) :
    ∀ met ∈ statesMet step state inputs, relation met.1 met.2 (step met.1 met.2) := by
  induction inputs generalizing state with
  | nil => simp [statesMet]
  | cons input rest inductionHypothesis =>
      intro met member
      simp only [statesMet, List.mem_cons] at member
      rcases member with head | tail
      · rw [head]
        exact related state input initial admissible.1
      · exact inductionHypothesis (preserved state input initial admissible.1) admissible.2
          met tail

/-- Simulation rule: a relation that every allowed step preserves, with equal
outputs, relates the final states of the two runs and makes their outputs equal. -/
theorem simulation_runSteps (abstractStep : Abstract → Input → Abstract × Output)
    (related : State → Abstract → Prop)
    (preserved : ∀ state abstract input, related state abstract → allowed state input →
      related (step state input).1 (abstractStep abstract input).1)
    (sameOutput : ∀ state abstract input, related state abstract → allowed state input →
      (step state input).2 = (abstractStep abstract input).2)
    {state : State} {abstract : Abstract} {inputs : List Input}
    (initial : related state abstract) (admissible : Admissible step allowed state inputs) :
    related (runSteps step state inputs).1 (runSteps abstractStep abstract inputs).1 ∧
      (runSteps step state inputs).2 = (runSteps abstractStep abstract inputs).2 := by
  induction inputs generalizing state abstract with
  | nil => exact ⟨initial, rfl⟩
  | cons input rest inductionHypothesis =>
      obtain ⟨finalRelated, outputsEqual⟩ :=
        inductionHypothesis (preserved state abstract input initial admissible.1) admissible.2
      refine ⟨finalRelated, ?_⟩
      simp only [runSteps_cons, outputsEqual, sameOutput state abstract input initial admissible.1]

end Rules

/-! ## Runs of steps that can fail -/

section Partial

/-- Final state and outputs of a run of a step that can fail; `none` once a step fails. -/
def runPartial (step : State → Input → Option (State × Output)) :
    State → List Input → Option (State × List Output)
  | state, [] => some (state, [])
  | state, input :: rest =>
    (step state input).bind fun stepped =>
      (runPartial step stepped.1 rest).map fun ran => (ran.1, stepped.2 :: ran.2)

/-- Two computations that fail together or succeed related, each followed by steps that do
the same from related results, fail together or succeed related. -/
theorem optionRel_bind {A B C D : Type} {related : A → B → Prop} {next : C → D → Prop} {first : Option A}
    {second : Option B} (both : Option.Rel related first second) {continueFirst : A → Option C}
    {continueSecond : B → Option D}
    (continues : ∀ a b, related a b → Option.Rel next (continueFirst a) (continueSecond b)) :
    Option.Rel next (first.bind continueFirst) (second.bind continueSecond) := by
  cases both with
  | none => exact .none
  | some relatedResults => exact continues _ _ relatedResults

theorem optionRel_map {A B C D : Type} {related : A → B → Prop} {next : C → D → Prop} {first : Option A}
    {second : Option B} (both : Option.Rel related first second) {mapFirst : A → C} {mapSecond : B → D}
    (maps : ∀ a b, related a b → next (mapFirst a) (mapSecond b)) :
    Option.Rel next (first.map mapFirst) (second.map mapSecond) := by
  cases both with
  | none => exact .none
  | some relatedResults => exact .some (maps _ _ relatedResults)

variable (step : State → Input → Option (State × Output))

@[simp] theorem runPartial_nil (state : State) : runPartial step state [] = some (state, []) := rfl

theorem runPartial_cons (state : State) (input : Input) (rest : List Input) :
    runPartial step state (input :: rest) =
      (step state input).bind fun stepped =>
        (runPartial step stepped.1 rest).map fun ran => (ran.1, stepped.2 :: ran.2) := rfl

/-- Simulation rule for steps that can fail: when related states make the two steps fail
together or succeed with equal outputs in related states, the two runs do the same. -/
theorem simulation_runPartial (abstractStep : Abstract → Input → Option (Abstract × Output))
    (related : State → Abstract → Prop)
    (simulates : ∀ state abstract input, related state abstract →
      Option.Rel (fun next abstractNext => next.2 = abstractNext.2 ∧ related next.1 abstractNext.1)
        (step state input) (abstractStep abstract input))
    {state : State} {abstract : Abstract} (initial : related state abstract) (inputs : List Input) :
    Option.Rel (fun final abstractFinal => final.2 = abstractFinal.2 ∧ related final.1 abstractFinal.1)
      (runPartial step state inputs) (runPartial abstractStep abstract inputs) := by
  induction inputs generalizing state abstract with
  | nil => exact .some ⟨rfl, initial⟩
  | cons input rest inductionHypothesis =>
    rw [runPartial_cons, runPartial_cons]
    refine optionRel_bind (simulates state abstract input initial) fun stepped abstractStepped steps => ?_
    exact optionRel_map (inductionHypothesis steps.2) fun _ _ runs =>
      ⟨congrArg₂ List.cons steps.1 runs.1, runs.2⟩

/-- Invariant rule for steps that can fail: what every step preserves where it does not fail
holds at the end of every run that does not fail. -/
theorem invariant_runPartial (invariant : State → Prop)
    (preserved : ∀ state input, invariant state → ∀ next ∈ step state input, invariant next.1)
    {state : State} (initial : invariant state) {inputs : List Input} {final : State × List Output}
    (ran : runPartial step state inputs = some final) : invariant final.1 := by
  induction inputs generalizing state final with
  | nil =>
    cases ran
    exact initial
  | cons input rest inductionHypothesis =>
    rw [runPartial_cons, Option.bind_eq_some_iff] at ran
    obtain ⟨stepped, steps, continued⟩ := ran
    obtain ⟨ranRest, restRan, rfl⟩ := Option.map_eq_some_iff.mp continued
    have restHolds := inductionHypothesis (preserved state input initial stepped steps) restRan
    exact restHolds

end Partial

end StrongSwan.Foundations
