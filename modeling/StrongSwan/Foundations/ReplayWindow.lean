import Mathlib

/-!
Abstract sliding anti-replay window of a fixed width.

The state is the highest authenticated number `H` and the authenticated
numbers that still lie in `(H - width, H]`. A number is accepted when it lies
beyond `H`, or when it is nonzero, inside the window and not yet
authenticated. Authenticating a number moves `H` to the maximum and forgets
every authenticated number that falls out of the window.

Owns: the state with its window invariant as a field, the acceptance test,
the update, and the fact that rejection is stable under every later update,
so that no number is ever accepted twice once it has been authenticated.

Does not own: any bitmap representation of the authenticated set.
-/

namespace StrongSwan.Foundations

/-- Anti-replay state: every authenticated number lies in `(highest - width, highest]`. -/
structure ReplayWindow (width : Nat) where
  highest : Nat
  authenticated : Finset Nat
  inside : ∀ number ∈ authenticated, number ≤ highest ∧ highest < number + width

namespace ReplayWindow

variable {width : Nat}

/-- Nothing authenticated yet. -/
def initial : ReplayWindow width := ⟨0, ∅, by simp⟩

/-- The acceptance test of the window. -/
def accepts (window : ReplayWindow width) (number : Nat) : Bool :=
  decide (window.highest < number ∨
    (0 < number ∧ window.highest - number < width ∧ number ∉ window.authenticated))

/-- Record `number` as authenticated and slide the window up to it. -/
def authenticate (window : ReplayWindow width) (number : Nat) : ReplayWindow width where
  highest := max window.highest number
  authenticated := (insert number window.authenticated).filter
    (fun member => max window.highest number < member + width)
  inside := by
    intro member member_in
    rw [Finset.mem_filter, Finset.mem_insert] at member_in
    obtain ⟨member_in | member_in, fresh⟩ := member_in
    · subst member_in
      exact ⟨le_max_right _ _, fresh⟩
    · exact ⟨le_trans (window.inside member member_in).1 (le_max_left _ _), fresh⟩

@[simp] theorem highest_authenticate (window : ReplayWindow width) (number : Nat) :
    (window.authenticate number).highest = max window.highest number := rfl

theorem mem_authenticate (window : ReplayWindow width) (number member : Nat) :
    member ∈ (window.authenticate number).authenticated ↔
      (member = number ∨ member ∈ window.authenticated) ∧
        max window.highest number < member + width := by
  simp [authenticate]

theorem accepts_eq_true (window : ReplayWindow width) (number : Nat) :
    window.accepts number = true ↔ window.highest < number ∨
      (0 < number ∧ window.highest - number < width ∧ number ∉ window.authenticated) := by
  simp [accepts]

/-- A rejected number is rejected because it was seen: it is zero, it fell
out of the window, or it is authenticated. -/
theorem accepts_eq_false (window : ReplayWindow width) (number : Nat) :
    window.accepts number = false ↔ number ≤ window.highest ∧
      (number = 0 ∨ width ≤ window.highest - number ∨ number ∈ window.authenticated) := by
  simp only [accepts, decide_eq_false_iff_not, not_or, not_and, not_lt, not_not]
  constructor
  · rintro ⟨below, seen⟩
    refine ⟨below, ?_⟩
    by_cases zero : number = 0
    · exact Or.inl zero
    · by_cases farBehind : width ≤ window.highest - number
      · exact Or.inr (Or.inl farBehind)
      · exact Or.inr (Or.inr (seen (Nat.pos_of_ne_zero zero) (by omega)))
  · rintro ⟨below, zero | farBehind | member⟩
    · exact ⟨below, fun positive => absurd zero (Nat.pos_iff_ne_zero.mp positive)⟩
    · exact ⟨below, fun _ inWindow => absurd farBehind (by omega)⟩
    · exact ⟨below, fun _ _ => member⟩

/-- Rejection is stable: no later update makes a rejected number acceptable. -/
theorem accepts_authenticate_of_rejected {window : ReplayWindow width} {number : Nat}
    (rejected : window.accepts number = false) (other : Nat) :
    (window.authenticate other).accepts number = false := by
  rw [accepts_eq_false] at rejected ⊢
  obtain ⟨below, zero | farBehind | member⟩ := rejected
  · exact ⟨le_trans below (le_max_left _ _), Or.inl zero⟩
  · refine ⟨le_trans below (le_max_left _ _), Or.inr (Or.inl ?_)⟩
    simp only [highest_authenticate]
    omega
  · refine ⟨le_trans below (le_max_left _ _), ?_⟩
    by_cases stays : max window.highest other < number + width
    · exact Or.inr (Or.inr ((mem_authenticate _ _ _).mpr ⟨Or.inr member, stays⟩))
    · refine Or.inr (Or.inl ?_)
      simp only [highest_authenticate]
      omega

/-- A number that was accepted and then authenticated is rejected from then on. -/
theorem accepts_authenticate_self {window : ReplayWindow width} {number : Nat}
    (widthPositive : 0 < width) (accepted : window.accepts number = true) :
    (window.authenticate number).accepts number = false := by
  rw [accepts_eq_true] at accepted
  rw [accepts_eq_false]
  refine ⟨le_max_right _ _, Or.inr (Or.inr ((mem_authenticate _ _ _).mpr ⟨Or.inl rfl, ?_⟩))⟩
  rcases accepted with beyond | ⟨_, inWindow, _⟩
  · rw [max_eq_right (Nat.le_of_lt beyond)]
    omega
  · omega

end ReplayWindow

end StrongSwan.Foundations
