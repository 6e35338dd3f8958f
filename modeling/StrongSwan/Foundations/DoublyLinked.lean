import Mathlib

/-!
Doubly linked cells in a heap. A cell holds a value and the addresses of its
two neighbours, `none` standing for a null pointer; the heap maps an address to
the cell allocated there, `none` where nothing is.

A segment is a list of addresses whose cells hold given values and link to one
another in order, with given outer neighbours: the `previous` of its first cell
and the `next` of its last. A whole doubly linked list is a segment with null
outer neighbours. The code that relinks cells does it by single pointer writes,
and what one write does to a segment is what the lemmas here say.

Owns: `Cell`, the pointer writes `setNext` and `setPrevious` (which fail on an
address with no cell) and `release`; `Segment` with its frame rule, its
decomposition where it is cut in two, and the writes that relink either end of
a segment; the walks along `next` and `previous`, and that a segment with null
ends is walked either way.
-/

namespace StrongSwan.Foundations.DoublyLinked

/-- A cell: a value and its neighbours' addresses. -/
structure Cell (α : Type) where
  value : α
  previous : Option Nat
  next : Option Nat

variable {α : Type}

/-- `cell->next = next`; `none` where no cell is at the address. -/
def setNext (heap : Nat → Option (Cell α)) (address : Nat) (next : Option Nat) :
    Option (Nat → Option (Cell α)) :=
  (heap address).map fun cell => Function.update heap address (some { cell with next })

/-- `cell->previous = previous`; `none` where no cell is at the address. -/
def setPrevious (heap : Nat → Option (Cell α)) (address : Nat) (previous : Option Nat) :
    Option (Nat → Option (Cell α)) :=
  (heap address).map fun cell => Function.update heap address (some { cell with previous })

/-- `free(cell)`. -/
def release (heap : Nat → Option (Cell α)) (address : Nat) : Nat → Option (Cell α) :=
  Function.update heap address none

/-- The cells at `addresses` hold `values` in order, each linked to its
neighbours, with `previous` before the first and `next` after the last. -/
def Segment (heap : Nat → Option (Cell α)) : Option Nat → List Nat → List α → Option Nat → Prop
  | _, [], [], _ => True
  | previous, address :: addresses, value :: values, next =>
    heap address = some ⟨value, previous, addresses.head?.or next⟩ ∧ Segment heap (some address) addresses values next
  | _, _, _, _ => False

section Writes

variable {heap heap' : Nat → Option (Cell α)} {address : Nat}

theorem setNext_of_cell {cell : Cell α} (cellAt : heap address = some cell) (next : Option Nat) :
    setNext heap address next = some (Function.update heap address (some { cell with next })) := by
  rw [setNext, cellAt, Option.map_some]

theorem setPrevious_of_cell {cell : Cell α} (cellAt : heap address = some cell) (previous : Option Nat) :
    setPrevious heap address previous = some (Function.update heap address (some { cell with previous })) := by
  rw [setPrevious, cellAt, Option.map_some]

theorem cell_of_setNext {cell : Cell α} (cellAt : heap address = some cell) {next : Option Nat}
    (written : setNext heap address next = some heap') : heap' address = some { cell with next } := by
  rw [setNext_of_cell cellAt] at written
  obtain rfl := Option.some.inj written
  exact Function.update_self _ _ _

theorem cell_of_setPrevious {cell : Cell α} (cellAt : heap address = some cell) {previous : Option Nat}
    (written : setPrevious heap address previous = some heap') : heap' address = some { cell with previous } := by
  rw [setPrevious_of_cell cellAt] at written
  obtain rfl := Option.some.inj written
  exact Function.update_self _ _ _

/-- A pointer write allocates and frees nothing. -/
theorem isSome_of_setNext {next : Option Nat} (written : setNext heap address next = some heap') (other : Nat) :
    (heap' other).isSome = (heap other).isSome := by
  obtain ⟨cell, cellAt, rfl⟩ := Option.map_eq_some_iff.mp written
  by_cases same : other = address
  · rw [same, Function.update_self, cellAt]
    rfl
  · rw [Function.update_of_ne same]

theorem isSome_of_setPrevious {previous : Option Nat} (written : setPrevious heap address previous = some heap')
    (other : Nat) : (heap' other).isSome = (heap other).isSome := by
  obtain ⟨cell, cellAt, rfl⟩ := Option.map_eq_some_iff.mp written
  by_cases same : other = address
  · rw [same, Function.update_self, cellAt]
    rfl
  · rw [Function.update_of_ne same]

/-- A pointer write changes no other cell. -/
theorem setNext_of_ne {next : Option Nat} (written : setNext heap address next = some heap') {other : Nat}
    (different : other ≠ address) : heap' other = heap other := by
  obtain ⟨cell, -, rfl⟩ := Option.map_eq_some_iff.mp written
  exact Function.update_of_ne different _ _

theorem setPrevious_of_ne {previous : Option Nat} (written : setPrevious heap address previous = some heap')
    {other : Nat} (different : other ≠ address) : heap' other = heap other := by
  obtain ⟨cell, -, rfl⟩ := Option.map_eq_some_iff.mp written
  exact Function.update_of_ne different _ _

theorem isSome_update_some (cell : Cell α) (other : Nat) :
    (Function.update heap address (some cell) other).isSome = (decide (other = address) || (heap other).isSome) := by
  by_cases same : other = address <;> simp [same]

theorem isSome_release (other : Nat) :
    (release heap address other).isSome = (decide (other ≠ address) && (heap other).isSome) := by
  by_cases same : other = address <;> simp [release, same]

end Writes

section Segments

variable {heap : Nat → Option (Cell α)}

@[simp] theorem segment_nil (previous next : Option Nat) : Segment heap previous [] ([] : List α) next := trivial

theorem segment_cons {previous next : Option Nat} {address : Nat} {addresses : List Nat} {value : α} {values : List α} :
    Segment heap previous (address :: addresses) (value :: values) next ↔
      heap address = some ⟨value, previous, addresses.head?.or next⟩ ∧ Segment heap (some address) addresses values next :=
  Iff.rfl

theorem Segment.length_eq : ∀ {previous next : Option Nat} {addresses : List Nat} {values : List α},
    Segment heap previous addresses values next → addresses.length = values.length
  | _, _, [], [], _ => rfl
  | _, _, _ :: _, _ :: _, ⟨_, rest⟩ => by rw [List.length_cons, List.length_cons, rest.length_eq]
  | _, _, [], _ :: _, impossible => impossible.elim
  | _, _, _ :: _, [], impossible => impossible.elim

/-- A segment reads only the cells at its own addresses. -/
theorem segment_congr {heap' : Nat → Option (Cell α)} :
    ∀ {previous next : Option Nat} {addresses : List Nat} {values : List α},
      (∀ address ∈ addresses, heap' address = heap address) →
      (Segment heap' previous addresses values next ↔ Segment heap previous addresses values next)
  | _, _, [], [], _ => Iff.rfl
  | _, _, first :: rest, _ :: _, same => by
    rw [segment_cons, segment_cons, same first List.mem_cons_self,
      segment_congr (fun address inside => same address (List.mem_cons_of_mem _ inside))]
  | _, _, [], _ :: _, _ => Iff.rfl
  | _, _, _ :: _, [], _ => Iff.rfl

/-- A write at an address outside a segment leaves it. -/
theorem segment_congr_of_ne {heap' : Nat → Option (Cell α)} {address : Nat}
    (unchanged : ∀ other, other ≠ address → heap' other = heap other) {previous next : Option Nat}
    {addresses : List Nat} {values : List α} (outside : address ∉ addresses) :
    Segment heap' previous addresses values next ↔ Segment heap previous addresses values next :=
  segment_congr fun other inside => unchanged other fun same => outside (same ▸ inside)

theorem segment_update_of_not_mem {address : Nat} (cell : Option (Cell α)) {previous next : Option Nat}
    {addresses : List Nat} {values : List α} (outside : address ∉ addresses) :
    Segment (Function.update heap address cell) previous addresses values next ↔
      Segment heap previous addresses values next :=
  segment_congr_of_ne (fun _ different => Function.update_of_ne different _ _) outside

/-- A segment cut in two: the first part ends at the second's first cell, the
second starts after the first's last cell. -/
theorem segment_append {front back : List Nat} {frontValues backValues : List α}
    (lengths : front.length = frontValues.length) :
    ∀ {previous next : Option Nat},
      Segment heap previous (front ++ back) (frontValues ++ backValues) next ↔
        Segment heap previous front frontValues (back.head?.or next) ∧
          Segment heap (front.getLast?.or previous) back backValues next := by
  induction front generalizing frontValues with
  | nil =>
    obtain rfl := List.eq_nil_of_length_eq_zero lengths.symm
    intro previous next
    simp
  | cons address addresses inductionHypothesis =>
    obtain ⟨value, values, rfl⟩ := List.exists_cons_of_length_eq_add_one lengths.symm
    intro previous next
    have rest := @inductionHypothesis values (by simpa using lengths)
    rw [List.cons_append, List.cons_append, segment_cons, segment_cons, rest]
    -- the first cell's `next` is the same on both sides, and so is the cell
    -- the back part starts after once the front has more than one
    cases addresses with
    | nil => simp [and_assoc]
    | cons second others =>
      have last : (second :: others).getLast? = some ((second :: others).getLast (List.cons_ne_nil _ _)) :=
        List.getLast?_eq_some_getLast _
      simp [and_assoc, last]

/-- A segment cut at one of its cells: the part before ends at it, the part after starts
after it, and the cell links the two. -/
theorem segment_middle {front back : List Nat} {address : Nat} {frontValues backValues : List α} {value : α}
    (lengths : front.length = frontValues.length) {previous next : Option Nat} :
    Segment heap previous (front ++ address :: back) (frontValues ++ value :: backValues) next ↔
      Segment heap previous front frontValues (some address) ∧
        heap address = some ⟨value, front.getLast?.or previous, back.head?.or next⟩ ∧
          Segment heap (some address) back backValues next := by
  rw [segment_append lengths, segment_cons]
  rfl

/-- Writing the last cell's `next` moves the segment's outer neighbour after it. -/
theorem segment_setNext_last {previous next : Option Nat} {front : List Nat} {last : Nat} {values : List α}
    {value : α} (outside : last ∉ front) (segment : Segment heap previous (front ++ [last]) (values ++ [value]) next)
    (next' : Option Nat) {heap' : Nat → Option (Cell α)} (written : setNext heap last next' = some heap') :
    Segment heap' previous (front ++ [last]) (values ++ [value]) next' := by
  have frontLengths : front.length = values.length := by
    simpa using Segment.length_eq segment
  obtain ⟨frontSegment, lastSegment⟩ := (segment_append frontLengths).mp segment
  obtain ⟨cellAt, -⟩ := segment_cons.mp lastSegment
  rw [setNext, cellAt, Option.map_some] at written
  cases written
  refine (segment_append frontLengths).mpr ⟨?_, ?_⟩
  · exact (segment_update_of_not_mem _ outside).mpr frontSegment
  · exact segment_cons.mpr ⟨by simp, trivial⟩

/-- Writing the first cell's `previous` moves the segment's outer neighbour before it. -/
theorem segment_setPrevious_first {previous next : Option Nat} {first : Nat} {rest : List Nat} {value : α}
    {values : List α} (outside : first ∉ rest) (segment : Segment heap previous (first :: rest) (value :: values) next)
    (previous' : Option Nat) {heap' : Nat → Option (Cell α)} (written : setPrevious heap first previous' = some heap') :
    Segment heap' previous' (first :: rest) (value :: values) next := by
  obtain ⟨cellAt, restSegment⟩ := segment_cons.mp segment
  rw [setPrevious, cellAt, Option.map_some] at written
  cases written
  exact segment_cons.mpr ⟨by simp, (segment_update_of_not_mem _ outside).mpr restSegment⟩

end Segments

/-! ## Walks -/

/-- The addresses met from `start` following `next`, at most `fuel` of them; `none` where a
pointer leads to no cell, or where the fuel ends before a null pointer. -/
def walkNext (heap : Nat → Option (Cell α)) : Nat → Option Nat → Option (List Nat)
  | _, none => some []
  | 0, some _ => none
  | fuel + 1, some address => (heap address).bind fun cell => (walkNext heap fuel cell.next).map (address :: ·)

/-- The addresses met from `start` following `previous`. -/
def walkPrevious (heap : Nat → Option (Cell α)) : Nat → Option Nat → Option (List Nat)
  | _, none => some []
  | 0, some _ => none
  | fuel + 1, some address => (heap address).bind fun cell => (walkPrevious heap fuel cell.previous).map (address :: ·)

section Walks

variable {heap : Nat → Option (Cell α)}

/-- From its first cell, a segment that ends in a null pointer is walked forwards. -/
theorem walkNext_of_segment : ∀ {previous : Option Nat} {addresses : List Nat} {values : List α} {fuel : Nat},
    Segment heap previous addresses values none → addresses.length ≤ fuel →
      walkNext heap fuel addresses.head? = some addresses
  | _, [], [], fuel, _, _ => by cases fuel <;> rfl
  | _, address :: rest, _ :: _, fuel + 1, ⟨cellAt, restSegment⟩, enough => by
    rw [List.head?_cons, walkNext, cellAt, Option.bind_some, Option.or_none,
      walkNext_of_segment restSegment (Nat.le_of_succ_le_succ enough), Option.map_some]
  | _, _ :: _, _ :: _, 0, _, enough => absurd enough (Nat.not_succ_le_zero _)
  | _, [], _ :: _, _, impossible, _ => impossible.elim
  | _, _ :: _, [], _, impossible, _ => impossible.elim

/-- From its last cell, a segment that starts after a null pointer is walked backwards. -/
theorem walkPrevious_of_segment (addresses : List Nat) :
    ∀ {next : Option Nat} {values : List α} {fuel : Nat}, Segment heap none addresses values next →
      addresses.length ≤ fuel →
      walkPrevious heap fuel addresses.getLast? = some addresses.reverse := by
  induction addresses using List.reverseRecOn with
  | nil => intro next values fuel _ _; cases fuel <;> rfl
  | append_singleton front last inductionHypothesis =>
    intro next values fuel segment enough
    rcases List.eq_nil_or_concat' values with rfl | ⟨frontValues, value, rfl⟩
    · exact absurd segment.length_eq (by simp)
    have lengths : front.length = frontValues.length := by simpa using segment.length_eq
    obtain ⟨frontSegment, lastSegment⟩ := (segment_append lengths).mp segment
    obtain ⟨fuel, rfl⟩ : ∃ rest, fuel = rest + 1 := ⟨fuel - 1, by simp at enough; omega⟩
    rw [List.getLast?_concat, walkPrevious, (segment_cons.mp lastSegment).1, Option.bind_some, Option.or_none,
      inductionHypothesis frontSegment (by simpa using enough), Option.map_some, List.reverse_concat]

end Walks

end StrongSwan.Foundations.DoublyLinked
