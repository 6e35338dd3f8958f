import Mathlib.Data.List.Basic

/-!
Subtrees given by lists of constraints.

A constraint stands for the names that lie within it, for a relation
`within constraint name`, and a list of constraints for the union of those
subtrees; `inside outer inner` says that one constraint lies within another.
Narrowing a list by a new one keeps the new constraints inside an old one;
widening drops the old constraints inside a new one and adds every new one.
When the two relations nest (a name within a constraint inside another lies
within that one), a name covered by a narrowed list is covered by both lists,
and a name covered by either list is covered by the widened one.

Owns: `Covers`, `Nested`, `narrow`, `widen`, their membership and congruence
laws and their covering laws.
-/

namespace StrongSwan.Foundations.Subtrees

variable {Constraint Name : Type}

/-- A name lies within one of the constraints of a list. -/
def Covers (within : Constraint → Name → Bool) (constraints : List Constraint) (name : Name) : Prop :=
  ∃ constraint ∈ constraints, within constraint name = true

instance (within : Constraint → Name → Bool) (constraints : List Constraint) (name : Name) :
    Decidable (Covers within constraints name) :=
  inferInstanceAs (Decidable (∃ constraint ∈ constraints, within constraint name = true))

/-- A name within a constraint inside another lies within that one. -/
def Nested (inside : Constraint → Constraint → Bool) (within : Constraint → Name → Bool) : Prop :=
  ∀ outer inner name, inside outer inner = true → within inner name = true → within outer name = true

/-- For each old constraint in turn, the new constraints inside it are taken
out of the new list; what is left of the new list at the end is dropped. -/
def narrow (inside : Constraint → Constraint → Bool) : List Constraint → List Constraint → List Constraint
  | [], _ => []
  | existing :: rest, new =>
    new.filter (inside existing) ++ narrow inside rest (new.filter fun constraint => !inside existing constraint)

/-- The old constraints inside no new one, then every new one. -/
def widen (inside : Constraint → Constraint → Bool) (existing new : List Constraint) : List Constraint :=
  existing.filter (fun constraint => !new.any fun wider => inside wider constraint) ++ new

variable {inside inside' : Constraint → Constraint → Bool} {within : Constraint → Name → Bool}

theorem covers_iff_any {constraints : List Constraint} {name : Name} :
    Covers within constraints name ↔ constraints.any (fun constraint => within constraint name) = true := by
  simp [Covers]

/-- A narrowed constraint is a new one inside an old one. -/
theorem mem_narrow {existing new : List Constraint} {constraint : Constraint}
    (member : constraint ∈ narrow inside existing new) :
    constraint ∈ new ∧ ∃ outer ∈ existing, inside outer constraint = true := by
  induction existing generalizing new with
  | nil => simp [narrow] at member
  | cons first rest inductionHypothesis =>
    rw [narrow, List.mem_append] at member
    rcases member with taken | later
    · obtain ⟨inNew, isInside⟩ := List.mem_filter.mp taken
      exact ⟨inNew, first, by simp, isInside⟩
    · obtain ⟨inLeft, outer, inRest, isInside⟩ := inductionHypothesis later
      exact ⟨(List.mem_filter.mp inLeft).1, outer, by simp [inRest], isInside⟩

theorem mem_widen {existing new : List Constraint} {constraint : Constraint}
    (member : constraint ∈ widen inside existing new) : constraint ∈ existing ∨ constraint ∈ new := by
  rcases List.mem_append.mp member with kept | added
  · exact .inl (List.mem_filter.mp kept).1
  · exact .inr added

/-- Narrowing reads the relation only with an old constraint outside. -/
theorem narrow_congr {existing new : List Constraint}
    (agree : ∀ outer ∈ existing, ∀ inner, inside outer inner = inside' outer inner) :
    narrow inside existing new = narrow inside' existing new := by
  induction existing generalizing new with
  | nil => rfl
  | cons first rest inductionHypothesis =>
    have firstAgrees : inside first = inside' first := funext (agree first (by simp))
    rw [narrow, narrow, firstAgrees, inductionHypothesis fun outer member => agree outer (by simp [member])]

/-- Widening reads the relation only with an old constraint inside. -/
theorem widen_congr {existing new : List Constraint}
    (agree : ∀ wider, ∀ inner ∈ existing, inside wider inner = inside' wider inner) :
    widen inside existing new = widen inside' existing new := by
  unfold widen
  congr 1
  apply List.filter_congr
  intro inner member
  simp only [agree _ inner member]

section Nested

variable (nested : Nested inside within)
include nested

/-- A name a narrowed list covers lies within both lists. -/
theorem covers_of_covers_narrow {existing new : List Constraint} {name : Name}
    (covered : Covers within (narrow inside existing new) name) :
    Covers within existing name ∧ Covers within new name := by
  obtain ⟨constraint, member, isWithin⟩ := covered
  obtain ⟨inNew, outer, inExisting, isInside⟩ := mem_narrow member
  exact ⟨⟨outer, inExisting, nested outer constraint name isInside isWithin⟩, ⟨constraint, inNew, isWithin⟩⟩

/-- Widening loses no name of either list. -/
theorem covers_widen {existing new : List Constraint} {name : Name}
    (covered : Covers within existing name ∨ Covers within new name) :
    Covers within (widen inside existing new) name := by
  rcases covered with ⟨constraint, inExisting, isWithin⟩ | ⟨constraint, inNew, isWithin⟩
  · -- an old constraint is kept, or dropped for a new one that contains it
    by_cases dropped : new.any (fun wider => inside wider constraint) = true
    case pos =>
      obtain ⟨wider, inNew, isInside⟩ := List.any_eq_true.mp dropped
      exact ⟨wider, List.mem_append_right _ inNew, nested wider constraint name isInside isWithin⟩
    case neg =>
      exact ⟨constraint, List.mem_append_left _ (List.mem_filter.mpr ⟨inExisting, by simpa using dropped⟩),
        isWithin⟩
  · exact ⟨constraint, List.mem_append_right _ inNew, isWithin⟩

end Nested

end StrongSwan.Foundations.Subtrees
