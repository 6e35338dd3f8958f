import Mathlib
import StrongSwan.Foundations.DoublyLinked
import StrongSwan.Foundations.Runs

/-!
Contract: the doubly linked list of `linked_list.c`, with its enumerators.

The elements (`element_t`) are `Cell`s in a heap, `none` standing for a null
pointer. `element_create` allocates at an address no allocation has used
before, so the address of a freed element stays free: a read or a write through
a pointer to it fails (`none`), which is how a use after free shows here, as
does a null pointer that the code dereferences. The list has the fields
`count`, `first` and `last`; an enumerator has `current` and the method its
`venumerate` points to, `enumerate_current` before it has handed out the
element it stands on and `enumerate_next` after.

Values are compared with `=`, standing for the pointer comparison of `remove`
and `find_first`; `compare` and `match` are functions of the value, the
further arguments `match` reads being closed over. The loops of `remove` and
`find_first` run on the fuel `count`: a list that keeps its invariant has that
many elements, and one that does not fails instead of looping. Each call that
takes an item pointer is given one, except `find_first`, whose item may be
`NULL` (`none`).

Owns: `Holds`, which ties a list to the addresses of its elements and their
values; one lemma per method for what it does to them; and `step`, the calls a
caller makes on one list and its enumerators, which the refinement module
relates to a list with positions.
-/

namespace StrongSwan.Libstrongswan.Collections.LinkedList

open StrongSwan.Foundations.DoublyLinked

/-- `private_linked_list_t`, with the heap its elements live in and the address the next
`element_create` allocates. -/
structure LinkedListT (α : Type) where
  count : Nat
  first : Option Nat
  last : Option Nat
  heap : Nat → Option (Cell α)
  fresh : Nat

/-- The method an enumerator's `venumerate` points to. -/
inductive Venumerate where
  | enumerateCurrent
  | enumerateNext
deriving DecidableEq, Repr

/-- `private_enumerator_t`; its `list` field is the list the calls are made on. -/
structure Enumerator where
  current : Option Nat
  venumerate : Venumerate
deriving DecidableEq, Repr

variable {α : Type}

/-- `linked_list_create`. -/
def linkedListCreate : LinkedListT α := ⟨0, none, none, fun _ => none, 0⟩

/-- `element_create`: a cell with null links, and its address. -/
def elementCreate (list : LinkedListT α) (value : α) : LinkedListT α × Nat :=
  ({ list with
    heap := Function.update list.heap list.fresh (some ⟨value, none, none⟩)
    fresh := list.fresh + 1 }, list.fresh)

/-! ## Enumerators -/

/-- `do_enumerate`: `some none` for `FALSE`. -/
def doEnumerate (list : LinkedListT α) (enumerator : Enumerator) : Option (Option α) :=
  match enumerator.current with
  | none => some none
  | some current => (list.heap current).map fun cell => some cell.value

def enumerateNext (list : LinkedListT α) (enumerator : Enumerator) : Option (Enumerator × Option α) := do
  let enumerator ← match enumerator.current with
    | some current => (list.heap current).map fun cell => { enumerator with current := cell.next }
    | none => some enumerator
  (doEnumerate list enumerator).map (enumerator, ·)

def enumerateCurrent (list : LinkedListT α) (enumerator : Enumerator) : Option (Enumerator × Option α) :=
  let enumerator := { enumerator with venumerate := .enumerateNext }
  (doEnumerate list enumerator).map (enumerator, ·)

/-- `enumerator->venumerate`. -/
def venumerate (list : LinkedListT α) (enumerator : Enumerator) : Option (Enumerator × Option α) :=
  match enumerator.venumerate with
  | .enumerateCurrent => enumerateCurrent list enumerator
  | .enumerateNext => enumerateNext list enumerator

def createEnumerator (list : LinkedListT α) : Enumerator :=
  ⟨list.first, .enumerateCurrent⟩

def resetEnumerator (list : LinkedListT α) (enumerator : Enumerator) : Enumerator :=
  { enumerator with current := list.first, venumerate := .enumerateCurrent }

/-! ## Methods -/

def getCount (list : LinkedListT α) : Nat := list.count

def insertFirst (list : LinkedListT α) (item : α) : Option (LinkedListT α) :=
  let (list, element) := elementCreate list item
  if list.count = 0 then
    some { list with first := some element, last := some element, count := list.count + 1 }
  else do
    let heap ← setNext list.heap element list.first
    let first ← list.first
    let heap ← setPrevious heap first (some element)
    some { list with heap := heap, first := some element, count := list.count + 1 }

/-- The `if (next)` of `remove_element`, for the removed element's `cell`: the element after
it points back to the one before it, or the one before it becomes the last. -/
def unlinkNext (list : LinkedListT α) (cell : Cell α) : Option (LinkedListT α) :=
  match cell.next with
  | some next => (setPrevious list.heap next cell.previous).map fun heap => { list with heap := heap }
  | none => some { list with last := cell.previous }

/-- The `if (previous)` of `remove_element`: the element before the removed one points on to
the one after it, or the one after it becomes the first. -/
def unlinkPrevious (list : LinkedListT α) (cell : Cell α) : Option (LinkedListT α) :=
  match cell.previous with
  | some previous => (setNext list.heap previous cell.next).map fun heap => { list with heap := heap }
  | none => some { list with first := cell.next }

/-- `remove_element`: unlinks and frees an element, and returns the one after it. -/
def removeElement (list : LinkedListT α) (element : Nat) : Option (LinkedListT α × Option Nat) := do
  let cell ← list.heap element
  let list ← unlinkNext { list with heap := release list.heap element } cell
  let list ← unlinkPrevious list cell
  if list.count - 1 = 0 then
    some ({ list with count := 0, first := none, last := none }, cell.next)
  else
    some ({ list with count := list.count - 1 }, cell.next)

/-- `get_first`: `some none` for `NOT_FOUND`. -/
def getFirst (list : LinkedListT α) : Option (Option α) :=
  if list.count = 0 then some none
  else do
    let first ← list.first
    let cell ← list.heap first
    some (some cell.value)

def removeFirst (list : LinkedListT α) : Option (LinkedListT α × Option α) := do
  match ← getFirst list with
  | some item =>
    let first ← list.first
    let removed ← removeElement list first
    some (removed.1, some item)
  | none => some (list, none)

def insertLast (list : LinkedListT α) (item : α) : Option (LinkedListT α) :=
  let (list, element) := elementCreate list item
  if list.count = 0 then
    some { list with first := some element, last := some element, count := list.count + 1 }
  else do
    let heap ← setPrevious list.heap element list.last
    let last ← list.last
    let heap ← setNext heap last (some element)
    some { list with heap := heap, last := some element, count := list.count + 1 }

def insertBefore (list : LinkedListT α) (enumerator : Enumerator) (item : α) : Option (LinkedListT α) :=
  match enumerator.current with
  | none => insertLast list item
  | some current => do
    let (list, element) := elementCreate list item
    let cell ← list.heap current
    match cell.previous with
    | some previous =>
      let heap ← setNext list.heap previous (some element)
      let heap ← setPrevious heap element (some previous)
      let heap ← setPrevious heap current (some element)
      let heap ← setNext heap element (some current)
      some { list with heap := heap, count := list.count + 1 }
    | none =>
      let heap ← setPrevious list.heap current (some element)
      let heap ← setNext heap element (some current)
      some { list with heap := heap, first := some element, count := list.count + 1 }

/-- `get_last`: `some none` for `NOT_FOUND`. -/
def getLast (list : LinkedListT α) : Option (Option α) :=
  if list.count = 0 then some none
  else do
    let last ← list.last
    let cell ← list.heap last
    some (some cell.value)

def removeLast (list : LinkedListT α) : Option (LinkedListT α × Option α) := do
  match ← getLast list with
  | some item =>
    let last ← list.last
    let removed ← removeElement list last
    some (removed.1, some item)
  | none => some (list, none)

section Compare

variable [DecidableEq α]

/-- The test of `remove`'s loop: `compare` where there is one, pointer equality otherwise. -/
def removeMatches (item : α) (compare : Option (α → α → Bool)) (value : α) : Bool :=
  match compare with
  | some compare => compare value item
  | none => decide (value = item)

/-- The loop of `remove` from `current`, having removed `removed` elements. -/
def removeLoop (item : α) (compare : Option (α → α → Bool)) :
    Nat → LinkedListT α → Option Nat → Nat → Option (LinkedListT α × Nat)
  | _, list, none, removed => some (list, removed)
  | 0, _, some _, _ => none
  | fuel + 1, list, some current, removed => do
    let cell ← list.heap current
    if removeMatches item compare cell.value then
      let (list, next) ← removeElement list current
      removeLoop item compare fuel list next (removed + 1)
    else
      removeLoop item compare fuel list cell.next removed

/-- `remove`: the list without the matching elements, and how many there were. -/
def remove (list : LinkedListT α) (item : α) (compare : Option (α → α → Bool)) :
    Option (LinkedListT α × Nat) :=
  removeLoop item compare list.count list list.first 0

/-- The test of `find_first`'s loop: `match` where there is one, and `current->value == *item`
otherwise, which fails on a `NULL` item. -/
def findMatched (matcher : Option (α → Bool)) (item : Option α) (value : α) : Option Bool :=
  match matcher with
  | some matcher => some (matcher value)
  | none => item.map fun item => decide (value = item)

/-- The loop of `find_first` from `current`: whether an element matched, and `*item` after. -/
def findLoop (matcher : Option (α → Bool)) (item : Option α) :
    Nat → LinkedListT α → Option Nat → Option (Bool × Option α)
  | _, _, none => some (false, item)
  | 0, _, some _ => none
  | fuel + 1, list, some current => do
    let cell ← list.heap current
    let matched ← findMatched matcher item cell.value
    if matched then some (true, item.map fun _ => cell.value)
    else findLoop matcher item fuel list cell.next

/-- `find_first` with `match` and a possibly `NULL` item pointer. -/
def findFirst (list : LinkedListT α) (matcher : Option (α → Bool)) (item : Option α) :
    Option (Bool × Option α) :=
  if matcher.isNone && item.isNone then some (false, item)
  else findLoop matcher item list.count list list.first

end Compare

def removeAt (list : LinkedListT α) (enumerator : Enumerator) : Option (LinkedListT α × Enumerator) :=
  match enumerator.current with
  | none => some (list, enumerator)
  | some current => do
    let cell ← list.heap current
    let enumerator := { enumerator with current := cell.next, venumerate := .enumerateCurrent }
    let removed ← removeElement list current
    some (removed.1, enumerator)

/-! ## Calls -/

/-- The calls a caller makes on one list and the enumerators it created, these by their
number. -/
inductive ListCall (α : Type) where
  | insertFirst (item : α)
  | insertLast (item : α)
  | getFirst
  | removeFirst
  | getLast
  | removeLast
  | getCount
  | remove (item : α) (compare : Option (α → α → Bool))
  | findFirst (matcher : Option (α → Bool)) (item : Option α)
  | createEnumerator
  | resetEnumerator (enumerator : Nat)
  | enumerate (enumerator : Nat)
  | insertBefore (enumerator : Nat) (item : α)
  | removeAt (enumerator : Nat)

/-- What a call hands back. -/
inductive Reply (α : Type) where
  /-- A `void` method. -/
  | nothing
  /-- `SUCCESS` with `*item`, or `NOT_FOUND` (`none`). -/
  | status (item : Option α)
  | count (count : Nat)
  /-- `TRUE` with `*item`, or `FALSE` (`none`). -/
  | enumerated (item : Option α)
  /-- What `find_first` returns, and `*item` after it (`none` for a `NULL` item). -/
  | found (matched : Bool) (item : Option α)
  /-- The number of the enumerator `create_enumerator` made. -/
  | enumerator (enumerator : Nat)
deriving DecidableEq, Repr

/-- One call: the list and the enumerators after it, and its reply; `none` where the call
dereferences a null or freed pointer, or names no enumerator. -/
def step [DecidableEq α] :
    LinkedListT α × List Enumerator → ListCall α → Option ((LinkedListT α × List Enumerator) × Reply α)
  | (list, enumerators), .insertFirst item =>
    (insertFirst list item).map fun list => ((list, enumerators), .nothing)
  | (list, enumerators), .insertLast item =>
    (insertLast list item).map fun list => ((list, enumerators), .nothing)
  | (list, enumerators), .getFirst => (getFirst list).map fun item => ((list, enumerators), .status item)
  | (list, enumerators), .removeFirst =>
    (removeFirst list).map fun removed => ((removed.1, enumerators), .status removed.2)
  | (list, enumerators), .getLast => (getLast list).map fun item => ((list, enumerators), .status item)
  | (list, enumerators), .removeLast =>
    (removeLast list).map fun removed => ((removed.1, enumerators), .status removed.2)
  | (list, enumerators), .getCount => some ((list, enumerators), .count (getCount list))
  | (list, enumerators), .remove item compare =>
    (remove list item compare).map fun removed => ((removed.1, enumerators), .count removed.2)
  | (list, enumerators), .findFirst matcher item =>
    (findFirst list matcher item).map fun found => ((list, enumerators), .found found.1 found.2)
  | (list, enumerators), .createEnumerator =>
    some ((list, enumerators ++ [createEnumerator list]), .enumerator enumerators.length)
  | (list, enumerators), .resetEnumerator index =>
    enumerators[index]?.map fun enumerator =>
      ((list, enumerators.set index (resetEnumerator list enumerator)), .nothing)
  | (list, enumerators), .enumerate index => do
    let enumerator ← enumerators[index]?
    let (enumerator, item) ← venumerate list enumerator
    some ((list, enumerators.set index enumerator), .enumerated item)
  | (list, enumerators), .insertBefore index item => do
    let enumerator ← enumerators[index]?
    let list ← insertBefore list enumerator item
    some ((list, enumerators), .nothing)
  | (list, enumerators), .removeAt index => do
    let enumerator ← enumerators[index]?
    let (list, enumerator) ← removeAt list enumerator
    some ((list, enumerators.set index enumerator), .nothing)

/-! ## The invariant -/

/-- The list holds `values` in the cells at `addresses`, first to last; the heap holds no
other cell, and `element_create` has not yet reached any of the addresses. -/
structure Holds (list : LinkedListT α) (addresses : List Nat) (values : List α) : Prop where
  segment : Segment list.heap none addresses values none
  nodup : addresses.Nodup
  first_eq : list.first = addresses.head?
  last_eq : list.last = addresses.getLast?
  count_eq : list.count = addresses.length
  allocated : ∀ address, (list.heap address).isSome ↔ address ∈ addresses
  below_fresh : ∀ address ∈ addresses, address < list.fresh

section Invariant

variable {list : LinkedListT α} {addresses : List Nat} {values : List α}

theorem Holds.length_eq (holds : Holds list addresses values) : addresses.length = values.length :=
  holds.segment.length_eq

theorem Holds.fresh_not_mem (holds : Holds list addresses values) : list.fresh ∉ addresses :=
  fun inside => Nat.lt_irrefl _ (holds.below_fresh _ inside)

theorem Holds.heap_eq_none (holds : Holds list addresses values) {address : Nat} (outside : address ∉ addresses) :
    list.heap address = none :=
  Option.not_isSome_iff_eq_none.mp fun allocated => outside ((holds.allocated address).mp allocated)

theorem holds_linkedListCreate : Holds (linkedListCreate : LinkedListT α) [] [] where
  segment := trivial
  nodup := List.nodup_nil
  first_eq := rfl
  last_eq := rfl
  count_eq := rfl
  allocated _ := by simp [linkedListCreate]
  below_fresh _ absent := absurd absent List.not_mem_nil

/-- A doubly linked list: from `first` along `next`, and from `last` along `previous`, the
same `count` cells in opposite orders, and the heap holds no other cell. -/
structure DoublyLinked (list : LinkedListT α) (addresses : List Nat) : Prop where
  forward : walkNext list.heap list.count list.first = some addresses
  backward : walkPrevious list.heap list.count list.last = some addresses.reverse
  count_eq : list.count = addresses.length
  nodup : addresses.Nodup
  allocated : ∀ address, (list.heap address).isSome ↔ address ∈ addresses

theorem Holds.doublyLinked (holds : Holds list addresses values) : DoublyLinked list addresses where
  forward := by
    rw [holds.first_eq, holds.count_eq]
    exact walkNext_of_segment holds.segment (Nat.le_refl _)
  backward := by
    rw [holds.last_eq, holds.count_eq]
    exact walkPrevious_of_segment addresses holds.segment (Nat.le_refl _)
  count_eq := holds.count_eq
  nodup := holds.nodup
  allocated := holds.allocated

@[simp] theorem heap_elementCreate (item : α) :
    (elementCreate list item).1.heap = Function.update list.heap list.fresh (some ⟨item, none, none⟩) := rfl

@[simp] theorem fresh_elementCreate (item : α) : (elementCreate list item).1.fresh = list.fresh + 1 := rfl

@[simp] theorem count_elementCreate (item : α) : (elementCreate list item).1.count = list.count := rfl

@[simp] theorem first_elementCreate (item : α) : (elementCreate list item).1.first = list.first := rfl

@[simp] theorem last_elementCreate (item : α) : (elementCreate list item).1.last = list.last := rfl

@[simp] theorem snd_elementCreate (item : α) : (elementCreate list item).2 = list.fresh := rfl

theorem isSome_elementCreate (item : α) (address : Nat) :
    ((elementCreate list item).1.heap address).isSome =
      (decide (address = list.fresh) || (list.heap address).isSome) :=
  isSome_update_some _ address

/-- `element_create` leaves the list's cells as they are. -/
theorem Holds.segment_elementCreate (holds : Holds list addresses values) (item : α) :
    Segment (elementCreate list item).1.heap none addresses values none := by
  rw [heap_elementCreate, segment_update_of_not_mem _ holds.fresh_not_mem]
  exact holds.segment

theorem not_mem_of_nodup_concat {front : List Nat} {last : Nat} (nodup : (front ++ [last]).Nodup) : last ∉ front :=
  ((List.nodup_concat front last).mp (by rwa [List.concat_eq_append])).1

theorem exists_concat_of_length_eq {front : List Nat} {last : Nat} {values : List α}
    (lengths : (front ++ [last]).length = values.length) :
    ∃ frontValues value, values = frontValues ++ [value] ∧ front.length = frontValues.length := by
  rcases List.eq_nil_or_concat' values with rfl | ⟨frontValues, value, rfl⟩
  · exact absurd lengths (by simp)
  · exact ⟨frontValues, value, rfl, by simpa using lengths⟩

/-- What an insertion has to show once it has linked the cell `element_create` made in
between `front` and `back`. -/
theorem Holds.of_linked {inserted : LinkedListT α} {front back : List Nat} {frontValues backValues : List α}
    {item : α} (holds : Holds list (front ++ back) (frontValues ++ backValues))
    (segment : Segment inserted.heap none (front ++ list.fresh :: back) (frontValues ++ item :: backValues) none)
    (first_eq : inserted.first = (front ++ list.fresh :: back).head?)
    (last_eq : inserted.last = (front ++ list.fresh :: back).getLast?)
    (count_eq : inserted.count = list.count + 1)
    (cells : ∀ address, (inserted.heap address).isSome = (decide (address = list.fresh) || (list.heap address).isSome))
    (fresh_eq : inserted.fresh = list.fresh + 1) :
    Holds inserted (front ++ list.fresh :: back) (frontValues ++ item :: backValues) where
  segment := segment
  nodup := List.nodup_middle.mpr (List.nodup_cons.mpr ⟨holds.fresh_not_mem, holds.nodup⟩)
  first_eq := first_eq
  last_eq := last_eq
  count_eq := by rw [count_eq, holds.count_eq, List.length_append, List.length_append, List.length_cons]; omega
  allocated address := by
    rw [cells, Bool.or_eq_true, decide_eq_true_iff, holds.allocated]
    simp only [List.mem_append, List.mem_cons, or_left_comm]
  below_fresh address inside := by
    rw [fresh_eq]
    rw [List.mem_append, List.mem_cons, or_left_comm, ← List.mem_append] at inside
    rcases inside with rfl | old
    · exact Nat.lt_succ_self _
    · exact Nat.lt_succ_of_lt (holds.below_fresh address old)

/-- On an empty list, `insert_first` and `insert_last` make the new cell the whole list. -/
theorem Holds.created_alone (holds : Holds list [] []) (item : α) :
    Holds { (elementCreate list item).1 with first := some list.fresh, last := some list.fresh, count := list.count + 1 }
      [list.fresh] [item] :=
  @Holds.of_linked _ _ _ [] [] [] [] item holds (segment_cons.mpr ⟨Function.update_self _ _ _, trivial⟩) rfl rfl rfl
    (isSome_elementCreate item) rfl

/-- The new cell is linked in first. -/
theorem insertFirst_holds (holds : Holds list addresses values) (item : α) :
    ∃ inserted, insertFirst list item = some inserted ∧
      Holds inserted (list.fresh :: addresses) (item :: values) ∧ inserted.fresh = list.fresh + 1 := by
  have created := holds.segment_elementCreate item
  have cell : (elementCreate list item).1.heap list.fresh = some ⟨item, none, none⟩ := Function.update_self _ _ _
  cases addresses with
  | nil =>
    obtain rfl : values = [] := List.eq_nil_of_length_eq_zero holds.length_eq.symm
    have empty : list.count = 0 := holds.count_eq
    exact ⟨_, by simp only [insertFirst, count_elementCreate, snd_elementCreate, empty, ↓reduceIte],
      holds.created_alone item, rfl⟩
  | cons first rest =>
    obtain ⟨value, rest', rfl⟩ := List.exists_cons_of_length_eq_add_one holds.length_eq.symm
    have occupied : list.count ≠ 0 := by rw [holds.count_eq]; exact Nat.succ_ne_zero _
    have other : first ≠ list.fresh := fun same => holds.fresh_not_mem (same ▸ List.mem_cons_self)
    have cellFirst := (segment_cons.mp created).1
    -- `element->next = this->first`, then `this->first->previous = element`
    obtain ⟨linked, linkedNext⟩ : ∃ heap, setNext (elementCreate list item).1.heap list.fresh (some first) = some heap :=
      ⟨_, setNext_of_cell cell _⟩
    obtain ⟨relinked, relinkedPrevious⟩ : ∃ heap, setPrevious linked first (some list.fresh) = some heap :=
      ⟨_, setPrevious_of_cell (by rw [setNext_of_ne linkedNext other, cellFirst]) _⟩
    refine ⟨{ (elementCreate list item).1 with heap := relinked, first := some list.fresh, count := list.count + 1 },
      ?_, ?_, rfl⟩
    · simp only [insertFirst, count_elementCreate, first_elementCreate, snd_elementCreate, if_neg occupied,
        holds.first_eq, List.head?_cons, linkedNext, Option.bind_eq_bind, Option.bind_some, relinkedPrevious]
    · have oldSegment : Segment linked none (first :: rest) (value :: rest') none :=
        (segment_congr_of_ne (fun _ => setNext_of_ne linkedNext) holds.fresh_not_mem).mpr created
      refine @Holds.of_linked _ _ _ [] (first :: rest) [] (value :: rest') item holds ?_ rfl ?_ rfl ?_ rfl
      · refine segment_cons.mpr ⟨?_, segment_setPrevious_first holds.nodup.notMem oldSegment _ relinkedPrevious⟩
        show relinked list.fresh = _
        rw [setPrevious_of_ne relinkedPrevious other.symm, cell_of_setNext cell linkedNext]
        rfl
      · simp [holds.last_eq]
      · intro address
        rw [isSome_of_setPrevious relinkedPrevious, isSome_of_setNext linkedNext, isSome_elementCreate]

/-- The new cell is linked in last. -/
theorem insertLast_holds (holds : Holds list addresses values) (item : α) :
    ∃ inserted, insertLast list item = some inserted ∧
      Holds inserted (addresses ++ [list.fresh]) (values ++ [item]) ∧ inserted.fresh = list.fresh + 1 := by
  have created := holds.segment_elementCreate item
  have cell : (elementCreate list item).1.heap list.fresh = some ⟨item, none, none⟩ := Function.update_self _ _ _
  rcases List.eq_nil_or_concat' addresses with rfl | ⟨front, last, rfl⟩
  · obtain rfl : values = [] := List.eq_nil_of_length_eq_zero holds.length_eq.symm
    have empty : list.count = 0 := holds.count_eq
    exact ⟨_, by simp only [insertLast, count_elementCreate, snd_elementCreate, empty, ↓reduceIte],
      holds.created_alone item, rfl⟩
  · obtain ⟨frontValues, value, rfl, frontLengths⟩ := exists_concat_of_length_eq holds.length_eq
    have occupied : list.count ≠ 0 := by rw [holds.count_eq]; simp
    have outside := not_mem_of_nodup_concat holds.nodup
    have other : last ≠ list.fresh := fun same => holds.fresh_not_mem (same ▸ List.mem_append_right _ List.mem_cons_self)
    have cellLast := (segment_cons.mp ((segment_append frontLengths).mp created).2).1
    -- `element->previous = this->last`, then `this->last->next = element`
    obtain ⟨linked, linkedPrevious⟩ :
        ∃ heap, setPrevious (elementCreate list item).1.heap list.fresh (some last) = some heap :=
      ⟨_, setPrevious_of_cell cell _⟩
    obtain ⟨relinked, relinkedNext⟩ : ∃ heap, setNext linked last (some list.fresh) = some heap :=
      ⟨_, setNext_of_cell (by rw [setPrevious_of_ne linkedPrevious other, cellLast]) _⟩
    refine ⟨{ (elementCreate list item).1 with heap := relinked, last := some list.fresh, count := list.count + 1 },
      ?_, ?_, rfl⟩
    · simp only [insertLast, count_elementCreate, last_elementCreate, snd_elementCreate, if_neg occupied,
        holds.last_eq, List.getLast?_concat, linkedPrevious, Option.bind_eq_bind, Option.bind_some, relinkedNext]
    · have oldSegment : Segment linked none (front ++ [last]) (frontValues ++ [value]) none :=
        (segment_congr_of_ne (fun _ => setPrevious_of_ne linkedPrevious) holds.fresh_not_mem).mpr created
      have holds' : Holds list ((front ++ [last]) ++ []) ((frontValues ++ [value]) ++ []) := by
        simpa only [List.append_nil] using holds
      refine @Holds.of_linked _ _ _ (front ++ [last]) [] (frontValues ++ [value]) [] item holds' ?_ ?_ ?_ rfl ?_ rfl
      · refine (segment_append (by simpa using frontLengths)).mpr
          ⟨segment_setNext_last outside oldSegment _ relinkedNext, segment_cons.mpr ⟨?_, trivial⟩⟩
        show relinked list.fresh = _
        rw [setNext_of_ne relinkedNext other.symm, cell_of_setPrevious cell linkedPrevious, List.getLast?_concat]
        rfl
      · show list.first = _
        simp [holds.first_eq]
      · simp
      · intro address
        rw [isSome_of_setNext relinkedNext, isSome_of_setPrevious linkedPrevious, isSome_elementCreate]

/-- The `if (next)` half unlinks the removed cell from the part of the list after it, whose
first cell now points back to `before`. -/
theorem unlinkNext_spec (list : LinkedListT α) (value : α) (before : Option Nat) {removed : Nat}
    {back : List Nat} {backValues : List α} (segment : Segment list.heap (some removed) back backValues none)
    (nodup : back.Nodup) :
    ∃ heap, unlinkNext list ⟨value, before, back.head?⟩ =
        some { list with heap := heap, last := if back = [] then before else list.last } ∧
      Segment heap before back backValues none ∧ (∀ address ∉ back, heap address = list.heap address) ∧
      ∀ address, (heap address).isSome = (list.heap address).isSome := by
  cases back with
  | nil =>
    obtain rfl := List.eq_nil_of_length_eq_zero segment.length_eq.symm
    exact ⟨list.heap, rfl, trivial, fun _ _ => rfl, fun _ => rfl⟩
  | cons next rest =>
    obtain ⟨nextValue, restValues, rfl⟩ := List.exists_cons_of_length_eq_add_one segment.length_eq.symm
    obtain ⟨heap, written⟩ : ∃ heap, setPrevious list.heap next before = some heap :=
      ⟨_, setPrevious_of_cell (segment_cons.mp segment).1 _⟩
    refine ⟨heap, ?_, segment_setPrevious_first (List.nodup_cons.mp nodup).1 segment _ written,
      fun address outside => setPrevious_of_ne written fun same => outside (same ▸ List.mem_cons_self),
      isSome_of_setPrevious written⟩
    simp only [unlinkNext, List.head?_cons, written, Option.map_some, reduceCtorEq, ↓reduceIte]

/-- The `if (previous)` half unlinks the removed cell from the part of the list before it,
whose last cell now points on to `after`. -/
theorem unlinkPrevious_spec (list : LinkedListT α) (value : α) (after : Option Nat) {removed : Nat}
    {front : List Nat} {frontValues : List α} (segment : Segment list.heap none front frontValues (some removed))
    (nodup : front.Nodup) :
    ∃ heap, unlinkPrevious list ⟨value, front.getLast?, after⟩ =
        some { list with heap := heap, first := if front = [] then after else list.first } ∧
      Segment heap none front frontValues after ∧ (∀ address ∉ front, heap address = list.heap address) ∧
      ∀ address, (heap address).isSome = (list.heap address).isSome := by
  rcases List.eq_nil_or_concat' front with rfl | ⟨init, previous, rfl⟩
  · obtain rfl := List.eq_nil_of_length_eq_zero segment.length_eq.symm
    exact ⟨list.heap, rfl, trivial, fun _ _ => rfl, fun _ => rfl⟩
  · obtain ⟨initValues, previousValue, rfl, lengths⟩ := exists_concat_of_length_eq segment.length_eq
    obtain ⟨heap, written⟩ : ∃ heap, setNext list.heap previous after = some heap :=
      ⟨_, setNext_of_cell (segment_cons.mp ((segment_append lengths).mp segment).2).1 _⟩
    refine ⟨heap, ?_, segment_setNext_last (not_mem_of_nodup_concat nodup) segment _ written,
      fun address outside => setNext_of_ne written fun same => outside (same ▸ List.mem_append_right _ List.mem_cons_self),
      isSome_of_setNext written⟩
    simp only [unlinkPrevious, List.getLast?_concat, written, Option.map_some, List.append_eq_nil_iff,
      List.cons_ne_nil, and_false, ↓reduceIte]

theorem head?_unlinked {front back : List Nat} {address : Nat} :
    (if front = [] then back.head? else (front ++ address :: back).head?) = (front ++ back).head? := by
  cases front <;> simp

theorem getLast?_unlinked {front back : List Nat} {address : Nat} :
    (if back = [] then front.getLast? else (front ++ address :: back).getLast?) = (front ++ back).getLast? := by
  cases back <;> simp

/-- With its one copy of `address` gone, a list keeps exactly the other addresses. -/
theorem mem_unlinked_iff {front back : List Nat} {address other : Nat} (outside : address ∉ front ++ back) :
    (other ≠ address ∧ other ∈ front ++ address :: back) ↔ other ∈ front ++ back := by
  rw [List.mem_append, List.mem_cons, List.mem_append]
  constructor
  · rintro ⟨different, inFront | same | inBack⟩
    exacts [.inl inFront, absurd same different, .inr inBack]
  · rintro (inFront | inBack)
    exacts [⟨fun same => outside (same ▸ List.mem_append_left _ inFront), .inl inFront⟩,
      ⟨fun same => outside (same ▸ List.mem_append_right _ inBack), .inr (.inr inBack)⟩]

/-- `remove_element` on a cell of the list unlinks and frees it, and returns the cell after it. -/
theorem removeElement_holds {front back : List Nat} {address : Nat} {frontValues backValues : List α} {value : α}
    (holds : Holds list (front ++ address :: back) (frontValues ++ value :: backValues))
    (lengths : front.length = frontValues.length) :
    ∃ removed, removeElement list address = some (removed, back.head?) ∧
      Holds removed (front ++ back) (frontValues ++ backValues) ∧ removed.fresh = list.fresh := by
  obtain ⟨frontSegment, cellAt, backSegment⟩ := (segment_middle lengths).mp holds.segment
  rw [Option.or_none, Option.or_none] at cellAt
  obtain ⟨outside, nodup⟩ := List.nodup_cons.mp (List.nodup_middle.mp holds.nodup)
  obtain ⟨frontNodup, backNodup, disjoint⟩ := List.nodup_append.mp nodup
  have released (other : Nat) (different : other ≠ address) : release list.heap address other = list.heap other :=
    Function.update_of_ne different _ _
  -- `free(element)`, then the `if (next)` half
  obtain ⟨nextHeap, unlinkedNext, backUnlinked, nextFrame, nextCells⟩ :=
    unlinkNext_spec { list with heap := release list.heap address } value front.getLast?
      ((segment_congr_of_ne released fun inside => outside (List.mem_append_right _ inside)).mpr backSegment) backNodup
  have frontReleased : Segment nextHeap none front frontValues (some address) :=
    (segment_congr fun other inside => (nextFrame other fun inBack => disjoint other inside other inBack rfl).trans
      (released other fun same => outside (same ▸ List.mem_append_left _ inside))).mpr frontSegment
  -- the `if (previous)` half
  obtain ⟨previousHeap, unlinkedPrevious, frontUnlinked, previousFrame, previousCells⟩ :=
    unlinkPrevious_spec { list with heap := nextHeap, last := if back = [] then front.getLast? else list.last }
      value back.head? frontReleased frontNodup
  have backRelinked : Segment previousHeap front.getLast? back backValues none :=
    (segment_congr fun other inside => previousFrame other fun inFront => disjoint other inFront other inside rfl).mpr
      backUnlinked
  have segment : Segment previousHeap none (front ++ back) (frontValues ++ backValues) none :=
    (segment_append lengths).mpr ⟨by rwa [Option.or_none], by rwa [Option.or_none]⟩
  have count : list.count - 1 = (front ++ back).length := by
    rw [holds.count_eq, List.length_append, List.length_append, List.length_cons]
    omega
  have allocated (other : Nat) : (previousHeap other).isSome ↔ other ∈ front ++ back := by
    rw [previousCells, nextCells, isSome_release, Bool.and_eq_true, decide_eq_true_iff, holds.allocated]
    exact mem_unlinked_iff outside
  have below (other : Nat) (inside : other ∈ front ++ back) : other < list.fresh :=
    holds.below_fresh other ((mem_unlinked_iff outside).mpr inside).2
  by_cases empty : list.count - 1 = 0
  · -- the list is empty now: `this->first = this->last = NULL`
    have nothing : front ++ back = [] := List.eq_nil_of_length_eq_zero (count ▸ empty)
    simp only [removeElement, cellAt, Option.bind_eq_bind, Option.bind_some, unlinkedNext, unlinkedPrevious,
      empty, ↓reduceIte]
    refine ⟨_, rfl, ⟨segment, nodup, ?_, ?_, ?_, allocated, below⟩, rfl⟩ <;> rw [nothing] <;> rfl
  · simp only [removeElement, cellAt, Option.bind_eq_bind, Option.bind_some, unlinkedNext, unlinkedPrevious,
      empty, ↓reduceIte]
    refine ⟨_, rfl, ⟨segment, nodup, ?_, ?_, count, allocated, below⟩, rfl⟩
    · show (if front = [] then back.head? else list.first) = _
      rw [holds.first_eq, head?_unlinked]
    · show (if back = [] then front.getLast? else list.last) = _
      rw [holds.last_eq, getLast?_unlinked]

theorem Holds.ne_fresh (holds : Holds list addresses values) {address : Nat} (inside : address ∈ addresses) :
    address ≠ list.fresh :=
  Nat.ne_of_lt (holds.below_fresh address inside)

theorem exists_middle_of_getElem? {β : Type} {list : List β} {i : Nat} {a : β} (found : list[i]? = some a) :
    ∃ front back, list = front ++ a :: back ∧ front.length = i := by
  obtain ⟨inside, rfl⟩ := List.getElem?_eq_some_iff.mp found
  exact ⟨list.take i, list.drop (i + 1), by rw [← List.drop_eq_getElem_cons inside, List.take_append_drop],
    List.length_take_of_le inside.le⟩

theorem getElem?_middle {β : Type} (front back : List β) (a : β) : (front ++ a :: back)[front.length]? = some a := by
  rw [List.getElem?_append_right (Nat.le_refl _), Nat.sub_self, List.getElem?_cons_zero]

theorem getElem?_succ_middle {β : Type} (front back : List β) (a : β) :
    (front ++ a :: back)[front.length + 1]? = back.head? := by
  rw [List.getElem?_append_right (by omega), Nat.add_sub_cancel_left, List.getElem?_cons_succ,
    List.head?_eq_getElem?]

/-- The list cut at its `i`-th cell. -/
theorem Holds.split (holds : Holds list addresses values) {i address : Nat} (found : addresses[i]? = some address) :
    ∃ front back frontValues value backValues, addresses = front ++ address :: back ∧
      values = frontValues ++ value :: backValues ∧ front.length = i ∧ frontValues.length = i := by
  have inside : i < values.length := holds.length_eq ▸ (List.getElem?_eq_some_iff.mp found).1
  obtain ⟨value, foundValue⟩ : ∃ value, values[i]? = some value := ⟨_, List.getElem?_eq_getElem inside⟩
  obtain ⟨front, back, rfl, frontLength⟩ := exists_middle_of_getElem? found
  obtain ⟨frontValues, backValues, rfl, valuesLength⟩ := exists_middle_of_getElem? foundValue
  exact ⟨front, back, frontValues, value, backValues, rfl, rfl, frontLength, valuesLength⟩

/-- The `i`-th cell holds the `i`-th value and points on to the next address. -/
theorem Holds.cell_of_getElem? (holds : Holds list addresses values) {i address : Nat}
    (found : addresses[i]? = some address) :
    ∃ value previous, values[i]? = some value ∧ list.heap address = some ⟨value, previous, addresses[i + 1]?⟩ := by
  obtain ⟨front, back, frontValues, value, backValues, rfl, rfl, frontLength, valuesLength⟩ := holds.split found
  have cellAt := ((segment_middle (frontLength.trans valuesLength.symm)).mp holds.segment).2.1
  subst frontLength
  refine ⟨value, front.getLast?, by rw [← valuesLength, getElem?_middle], ?_⟩
  rw [cellAt, Option.or_none, Option.or_none, getElem?_succ_middle]

theorem getFirst_holds (holds : Holds list addresses values) : getFirst list = some values.head? := by
  cases addresses with
  | nil =>
    obtain rfl := List.eq_nil_of_length_eq_zero holds.length_eq.symm
    simp [getFirst, holds.count_eq]
  | cons first rest =>
    obtain ⟨value, rest', rfl⟩ := List.exists_cons_of_length_eq_add_one holds.length_eq.symm
    simp [getFirst, holds.count_eq, holds.first_eq, (segment_cons.mp holds.segment).1]

theorem getLast_holds (holds : Holds list addresses values) : getLast list = some values.getLast? := by
  rcases List.eq_nil_or_concat' addresses with rfl | ⟨front, last, rfl⟩
  · obtain rfl := List.eq_nil_of_length_eq_zero holds.length_eq.symm
    simp [getLast, holds.count_eq]
  · obtain ⟨frontValues, value, rfl, lengths⟩ := exists_concat_of_length_eq holds.length_eq
    have cellLast := (segment_cons.mp ((segment_append lengths).mp holds.segment).2).1
    simp [getLast, holds.count_eq, holds.last_eq, cellLast]

theorem removeFirst_holds (holds : Holds list addresses values) :
    ∃ removed, removeFirst list = some (removed, values.head?) ∧ Holds removed addresses.tail values.tail ∧
      removed.fresh = list.fresh := by
  cases addresses with
  | nil =>
    obtain rfl := List.eq_nil_of_length_eq_zero holds.length_eq.symm
    exact ⟨list, by simp [removeFirst, getFirst_holds holds], holds, rfl⟩
  | cons first rest =>
    obtain ⟨value, rest', rfl⟩ := List.exists_cons_of_length_eq_add_one holds.length_eq.symm
    obtain ⟨removed, removes, removedHolds, fresh⟩ := @removeElement_holds _ _ [] rest first [] rest' value holds rfl
    exact ⟨removed, by simp [removeFirst, getFirst_holds holds, holds.first_eq, removes], removedHolds, fresh⟩

theorem removeLast_holds (holds : Holds list addresses values) :
    ∃ removed, removeLast list = some (removed, values.getLast?) ∧ Holds removed addresses.dropLast values.dropLast ∧
      removed.fresh = list.fresh := by
  rcases List.eq_nil_or_concat' addresses with rfl | ⟨front, last, rfl⟩
  · obtain rfl := List.eq_nil_of_length_eq_zero holds.length_eq.symm
    exact ⟨list, by simp [removeLast, getLast_holds holds], holds, rfl⟩
  · obtain ⟨frontValues, value, rfl, lengths⟩ := exists_concat_of_length_eq holds.length_eq
    obtain ⟨removed, removes, removedHolds, fresh⟩ :=
      @removeElement_holds _ _ front [] last frontValues [] value holds lengths
    refine ⟨removed, by simp [removeLast, getLast_holds holds, holds.last_eq, removes], ?_, fresh⟩
    simpa only [List.dropLast_concat, List.append_nil] using removedHolds

/-! ### Enumerators -/

/-- An enumerator standing on the `j`-th address hands out the `j`-th value, and `FALSE` past
the end. -/
theorem doEnumerate_holds (holds : Holds list addresses values) {j : Nat} {enumerator : Enumerator}
    (current : enumerator.current = addresses[j]?) : doEnumerate list enumerator = some values[j]? := by
  cases found : addresses[j]? with
  | none =>
    have beyond : values[j]? = none := by
      rw [List.getElem?_eq_none_iff, ← holds.length_eq]
      exact List.getElem?_eq_none_iff.mp found
    simp [doEnumerate, current, found, beyond]
  | some address =>
    obtain ⟨value, previous, foundValue, cellAt⟩ := holds.cell_of_getElem? found
    simp [doEnumerate, current, found, cellAt, foundValue]

theorem enumerateCurrent_holds (holds : Holds list addresses values) {j : Nat} {enumerator : Enumerator}
    (current : enumerator.current = addresses[j]?) :
    enumerateCurrent list enumerator = some (⟨enumerator.current, .enumerateNext⟩, values[j]?) := by
  have current' : ({ enumerator with venumerate := .enumerateNext } : Enumerator).current = addresses[j]? := current
  rw [enumerateCurrent, doEnumerate_holds holds current', Option.map_some]

theorem enumerateNext_holds (holds : Holds list addresses values) {i address : Nat}
    (found : addresses[i]? = some address) (venumerate : Venumerate) :
    enumerateNext list ⟨some address, venumerate⟩ = some (⟨addresses[i + 1]?, venumerate⟩, values[i + 1]?) := by
  obtain ⟨value, previous, -, cellAt⟩ := holds.cell_of_getElem? found
  have advanced : (⟨addresses[i + 1]?, venumerate⟩ : Enumerator).current = addresses[i + 1]? := rfl
  simp only [enumerateNext, cellAt, Option.map_some, Option.bind_eq_bind, Option.bind_some,
    doEnumerate_holds holds advanced]

/-- An enumerator on a freed element fails, whichever method it is at. -/
theorem venumerate_of_not_mem (holds : Holds list addresses values) {address : Nat} (outside : address ∉ addresses)
    (venumerate' : Venumerate) : venumerate list ⟨some address, venumerate'⟩ = none := by
  cases venumerate' <;>
    simp [venumerate, enumerateCurrent, enumerateNext, doEnumerate, holds.heap_eq_none outside]

theorem insertBefore_of_not_mem (holds : Holds list addresses values) {address : Nat} (outside : address ∉ addresses)
    (below : address < list.fresh) (venumerate : Venumerate) (item : α) :
    insertBefore list ⟨some address, venumerate⟩ item = none := by
  have freed : (elementCreate list item).1.heap address = none := by
    rw [heap_elementCreate, Function.update_of_ne (Nat.ne_of_lt below), holds.heap_eq_none outside]
  simp only [insertBefore, freed, Option.bind_eq_bind, Option.bind_none]

theorem removeAt_of_not_mem (holds : Holds list addresses values) {address : Nat} (outside : address ∉ addresses)
    (venumerate : Venumerate) : removeAt list ⟨some address, venumerate⟩ = none := by
  simp [removeAt, holds.heap_eq_none outside]

/-- `insert_before` an enumerator's element links the new cell in before it. -/
theorem insertBefore_holds {front back : List Nat} {address : Nat} {frontValues backValues : List α} {value : α}
    (holds : Holds list (front ++ address :: back) (frontValues ++ value :: backValues))
    (lengths : front.length = frontValues.length) (venumerate : Venumerate) (item : α) :
    ∃ inserted, insertBefore list ⟨some address, venumerate⟩ item = some inserted ∧
      Holds inserted (front ++ list.fresh :: address :: back) (frontValues ++ item :: value :: backValues) ∧
      inserted.fresh = list.fresh + 1 := by
  have created := holds.segment_elementCreate item
  have cell : (elementCreate list item).1.heap list.fresh = some ⟨item, none, none⟩ := Function.update_self _ _ _
  have fresh (other : Nat) (inside : other ∈ front ++ address :: back) : other ≠ list.fresh := holds.ne_fresh inside
  have freshBack (other : Nat) (inside : other ∈ address :: back) : other ≠ list.fresh :=
    fresh other (List.mem_append_right _ inside)
  obtain ⟨outside, nodup⟩ := List.nodup_cons.mp (List.nodup_middle.mp holds.nodup)
  obtain ⟨frontNodup, -, disjoint⟩ := List.nodup_append.mp nodup
  have notBack : address ∉ back := fun inside => outside (List.mem_append_right _ inside)
  have other : address ≠ list.fresh := freshBack address List.mem_cons_self
  obtain ⟨frontSegment, backSegment⟩ := (segment_append lengths).mp created
  have cellAt := (segment_cons.mp backSegment).1
  rcases List.eq_nil_or_concat' front with rfl | ⟨init, previous, rfl⟩
  · -- `current->previous` is NULL: the new cell becomes the first
    obtain rfl := List.eq_nil_of_length_eq_zero lengths.symm
    obtain ⟨linked, linkedPrevious⟩ :
        ∃ heap, setPrevious (elementCreate list item).1.heap address (some list.fresh) = some heap :=
      ⟨_, setPrevious_of_cell cellAt _⟩
    have cellLinked : linked list.fresh = some ⟨item, none, none⟩ := by
      rw [setPrevious_of_ne linkedPrevious other.symm, cell]
    obtain ⟨relinked, relinkedNext⟩ : ∃ heap, setNext linked list.fresh (some address) = some heap :=
      ⟨_, setNext_of_cell cellLinked _⟩
    refine ⟨{ (elementCreate list item).1 with heap := relinked, first := some list.fresh, count := list.count + 1 },
      ?_, ?_, rfl⟩
    · simp only [insertBefore, snd_elementCreate, count_elementCreate, cellAt, Option.bind_eq_bind, Option.bind_some,
        List.getLast?_nil, Option.or_none, linkedPrevious, relinkedNext]
    · refine @Holds.of_linked _ _ _ [] (address :: back) [] (value :: backValues) item holds ?_ rfl ?_ rfl ?_ rfl
      · refine segment_cons.mpr ⟨cell_of_setNext cellLinked relinkedNext, ?_⟩
        exact (segment_congr fun other inside => setNext_of_ne relinkedNext (freshBack other inside)).mpr
          (segment_setPrevious_first notBack backSegment _ linkedPrevious)
      · show list.last = _
        simp [holds.last_eq]
      · intro other
        rw [isSome_of_setNext relinkedNext, isSome_of_setPrevious linkedPrevious, isSome_elementCreate]
  · -- `current->previous->next = element`, `element->previous = current->previous`,
    -- `current->previous = element`, `element->next = current`
    obtain ⟨initValues, previousValue, rfl, initLengths⟩ := exists_concat_of_length_eq lengths
    rw [List.getLast?_concat, Option.some_or] at cellAt backSegment
    have cellPrevious := (segment_cons.mp ((segment_append initLengths).mp frontSegment).2).1
    have previousFresh : previous ≠ list.fresh := fresh previous (by simp)
    have previousAddress : previous ≠ address := fun same => outside (List.mem_append_left _ (by simp [same]))
    have notAddress (other : Nat) (inside : other ∈ init ++ [previous]) : other ≠ address :=
      fun same => outside (List.mem_append_left _ (same ▸ inside))
    have notPrevious (other : Nat) (inside : other ∈ address :: back) : other ≠ previous := by
      rcases List.mem_cons.mp inside with rfl | inBack
      · exact previousAddress.symm
      · exact (disjoint previous (by simp) other inBack).symm
    obtain ⟨heap₁, written₁⟩ : ∃ heap, setNext (elementCreate list item).1.heap previous (some list.fresh) = some heap :=
      ⟨_, setNext_of_cell cellPrevious _⟩
    have cell₁ : heap₁ list.fresh = some ⟨item, none, none⟩ := by rw [setNext_of_ne written₁ previousFresh.symm, cell]
    obtain ⟨heap₂, written₂⟩ : ∃ heap, setPrevious heap₁ list.fresh (some previous) = some heap :=
      ⟨_, setPrevious_of_cell cell₁ _⟩
    obtain ⟨heap₃, written₃⟩ : ∃ heap, setPrevious heap₂ address (some list.fresh) = some heap :=
      ⟨_, setPrevious_of_cell (by rw [setPrevious_of_ne written₂ other, setNext_of_ne written₁ previousAddress.symm,
        cellAt]) _⟩
    have cell₃ : heap₃ list.fresh = some ⟨item, some previous, none⟩ := by
      rw [setPrevious_of_ne written₃ other.symm, cell_of_setPrevious cell₁ written₂]
    obtain ⟨heap₄, written₄⟩ : ∃ heap, setNext heap₃ list.fresh (some address) = some heap :=
      ⟨_, setNext_of_cell cell₃ _⟩
    refine ⟨{ (elementCreate list item).1 with heap := heap₄, count := list.count + 1 }, ?_, ?_, rfl⟩
    · simp only [insertBefore, snd_elementCreate, count_elementCreate, cellAt, Option.bind_eq_bind, Option.bind_some,
        written₁, written₂, written₃, written₄]
    · refine @Holds.of_linked _ _ _ (init ++ [previous]) (address :: back) (initValues ++ [previousValue])
        (value :: backValues) item holds ?_ ?_ ?_ rfl ?_ rfl
      · refine (segment_middle lengths).mpr ⟨?_, ?_, ?_⟩
        · refine (segment_congr fun other inside => ?_).mpr (segment_setNext_last
            (not_mem_of_nodup_concat frontNodup) frontSegment _ written₁)
          show heap₄ other = heap₁ other
          rw [setNext_of_ne written₄ (fresh other (List.mem_append_left _ inside)),
            setPrevious_of_ne written₃ (notAddress other inside),
            setPrevious_of_ne written₂ (fresh other (List.mem_append_left _ inside))]
        · show heap₄ list.fresh = _
          rw [cell_of_setNext cell₃ written₄, List.getLast?_concat]
          rfl
        · refine (segment_congr fun other inside => setNext_of_ne written₄ (freshBack other inside)).mpr
            (segment_setPrevious_first notBack ((segment_congr fun other inside => ?_).mpr backSegment) _ written₃)
          rw [setPrevious_of_ne written₂ (freshBack other inside), setNext_of_ne written₁ (notPrevious other inside)]
      · show list.first = _
        simp [holds.first_eq]
      · show list.last = _
        simp [holds.last_eq]
      · intro other
        rw [isSome_of_setNext written₄, isSome_of_setPrevious written₃, isSome_of_setPrevious written₂,
          isSome_of_setNext written₁, isSome_elementCreate]

/-- `remove_at` on the enumerator's element removes it and leaves the enumerator on the next
one, to be handed out by `enumerate_current`. -/
theorem removeAt_holds {front back : List Nat} {address : Nat} {frontValues backValues : List α} {value : α}
    (holds : Holds list (front ++ address :: back) (frontValues ++ value :: backValues))
    (lengths : front.length = frontValues.length) (venumerate : Venumerate) :
    ∃ removed, removeAt list ⟨some address, venumerate⟩ = some (removed, ⟨back.head?, .enumerateCurrent⟩) ∧
      Holds removed (front ++ back) (frontValues ++ backValues) ∧ removed.fresh = list.fresh := by
  have cellAt := ((segment_middle lengths).mp holds.segment).2.1
  rw [Option.or_none, Option.or_none] at cellAt
  obtain ⟨removed, removes, removedHolds, fresh⟩ := removeElement_holds holds lengths
  exact ⟨removed, by simp [removeAt, cellAt, removes], removedHolds, fresh⟩

/-! ### The loops -/

/-- The addresses of the cells whose values `keep` keeps. -/
def keptAddresses (keep : α → Bool) (addresses : List Nat) (values : List α) : List Nat :=
  ((addresses.zip values).filter fun cell => keep cell.2).map Prod.fst

theorem keptAddresses_cons (keep : α → Bool) (address : Nat) (addresses : List Nat) (value : α) (values : List α) :
    keptAddresses keep (address :: addresses) (value :: values) =
      if keep value then address :: keptAddresses keep addresses values else keptAddresses keep addresses values := by
  simp only [keptAddresses, List.zip_cons_cons, List.filter_cons]
  split <;> rfl

section Loops

variable [DecidableEq α]

/-- The loop of `remove`, from the first of the `rest` cells after the `kept` ones, removes the
matching cells of `rest` and counts them. -/
theorem removeLoop_holds (item : α) (compare : Option (α → α → Bool)) (rest : List Nat) :
    ∀ {kept : List Nat} {keptValues restValues : List α} {list : LinkedListT α} {fuel : Nat} (removed : Nat),
      Holds list (kept ++ rest) (keptValues ++ restValues) → kept.length = keptValues.length → rest.length ≤ fuel →
      ∃ final, removeLoop item compare fuel list rest.head? removed =
          some (final, removed + restValues.countP (removeMatches item compare)) ∧
        Holds final (kept ++ keptAddresses (fun value => !removeMatches item compare value) rest restValues)
          (keptValues ++ restValues.filter fun value => !removeMatches item compare value) ∧
        final.fresh = list.fresh := by
  induction rest with
  | nil =>
    intro kept keptValues restValues list fuel removed holds lengths _
    obtain rfl : restValues = [] := List.eq_nil_of_length_eq_zero (by simpa [lengths] using holds.length_eq.symm)
    exact ⟨list, by simp [removeLoop], by simpa [keptAddresses] using holds, rfl⟩
  | cons address rest inductionHypothesis =>
    intro kept keptValues restValues list fuel removed holds lengths enough
    obtain ⟨value, restValues, rfl⟩ := List.exists_cons_of_length_eq_add_one (by simpa [lengths] using holds.length_eq.symm)
    obtain ⟨fuel, rfl⟩ : ∃ fuel', fuel = fuel' + 1 := ⟨fuel - 1, by simp at enough; omega⟩
    have cellAt := ((segment_middle lengths).mp holds.segment).2.1
    have enough' : rest.length ≤ fuel := by simpa using enough
    by_cases matched : removeMatches item compare value = true
    · -- `current = remove_element(this, current)`
      obtain ⟨removedList, removes, removedHolds, fresh⟩ := removeElement_holds holds lengths
      obtain ⟨final, loops, finalHolds, finalFresh⟩ := inductionHypothesis (removed + 1) removedHolds lengths enough'
      refine ⟨final, ?_, ?_, finalFresh.trans fresh⟩
      · simp only [removeLoop, List.head?_cons, cellAt, Option.bind_eq_bind, Option.bind_some, matched, ↓reduceIte,
          removes, loops, List.countP_cons_of_pos matched]
        rw [Nat.add_right_comm, Nat.add_assoc]
      · simpa [keptAddresses_cons, matched] using finalHolds
    · -- `current = current->next`
      have holds' : Holds list ((kept ++ [address]) ++ rest) ((keptValues ++ [value]) ++ restValues) := by
        simpa using holds
      obtain ⟨final, loops, finalHolds, finalFresh⟩ := inductionHypothesis removed holds' (by simp [lengths]) enough'
      refine ⟨final, ?_, ?_, finalFresh⟩
      · simp only [removeLoop, List.head?_cons, cellAt, Option.bind_eq_bind, Option.bind_some, matched,
          Bool.false_eq_true, ↓reduceIte, Option.or_none, loops, List.countP_cons_of_neg matched]
      · simpa [keptAddresses_cons, matched] using finalHolds

/-- `remove` leaves the cells whose values do not match, and counts the others. -/
theorem remove_holds (holds : Holds list addresses values) (item : α) (compare : Option (α → α → Bool)) :
    ∃ removed, remove list item compare = some (removed, values.countP (removeMatches item compare)) ∧
      Holds removed (keptAddresses (fun value => !removeMatches item compare value) addresses values)
        (values.filter fun value => !removeMatches item compare value) ∧ removed.fresh = list.fresh := by
  obtain ⟨removed, loops, removedHolds, fresh⟩ :=
    @removeLoop_holds _ _ item compare addresses [] [] values list list.count 0 holds rfl holds.count_eq.ge
  rw [Nat.zero_add] at loops
  exact ⟨removed, by rw [remove, holds.first_eq, loops], removedHolds, fresh⟩

/-- The test `find_first` makes of each value, once `match` or `item` is given. -/
def findMatches (matcher : Option (α → Bool)) (item : Option α) (value : α) : Bool :=
  match matcher with
  | some matcher => matcher value
  | none => item.any fun item => decide (value = item)

/-- What `find_first` returns, and `*item` after it, for the value it finds. -/
def foundItem (item : Option α) : Option α → Bool × Option α
  | some value => (true, item.map fun _ => value)
  | none => (false, item)

theorem findMatched_eq {matcher : Option (α → Bool)} {item : Option α} (given : matcher.isSome ∨ item.isSome)
    (value : α) : findMatched matcher item value = some (findMatches matcher item value) := by
  cases matcher with
  | some matcher => rfl
  | none =>
    obtain ⟨item, rfl⟩ := Option.isSome_iff_exists.mp (given.resolve_left Bool.false_ne_true)
    rfl

/-- The loop of `find_first`, from the first of the `rest` cells, finds the first value there
that matches. -/
theorem findLoop_holds {matcher : Option (α → Bool)} {item : Option α} (given : matcher.isSome ∨ item.isSome)
    (rest : List Nat) :
    ∀ {front : List Nat} {frontValues restValues : List α} {fuel : Nat},
      Holds list (front ++ rest) (frontValues ++ restValues) → front.length = frontValues.length → rest.length ≤ fuel →
      findLoop matcher item fuel list rest.head? = some (foundItem item (restValues.find? (findMatches matcher item))) := by
  induction rest with
  | nil =>
    intro front frontValues restValues fuel holds lengths _
    obtain rfl : restValues = [] := List.eq_nil_of_length_eq_zero (by simpa [lengths] using holds.length_eq.symm)
    simp [findLoop, foundItem]
  | cons address rest inductionHypothesis =>
    intro front frontValues restValues fuel holds lengths enough
    obtain ⟨value, restValues, rfl⟩ := List.exists_cons_of_length_eq_add_one (by simpa [lengths] using holds.length_eq.symm)
    obtain ⟨fuel, rfl⟩ : ∃ fuel', fuel = fuel' + 1 := ⟨fuel - 1, by simp at enough; omega⟩
    have cellAt := ((segment_middle lengths).mp holds.segment).2.1
    by_cases matched : findMatches matcher item value = true
    · simp [findLoop, cellAt, findMatched_eq given, matched, List.find?_cons_of_pos matched, foundItem]
    · have holds' : Holds list ((front ++ [address]) ++ rest) ((frontValues ++ [value]) ++ restValues) := by
        simpa using holds
      have loops := inductionHypothesis holds' (by simp [lengths]) (by simpa using enough)
      simp only [findLoop, List.head?_cons, cellAt, Option.bind_eq_bind, Option.bind_some, findMatched_eq given,
        matched, Bool.false_eq_true, ↓reduceIte, Option.or_none, loops, List.find?_cons_of_neg matched]

theorem findFirst_holds (holds : Holds list addresses values) (matcher : Option (α → Bool)) (item : Option α) :
    findFirst list matcher item =
      some (if matcher.isNone && item.isNone then (false, item)
        else foundItem item (values.find? (findMatches matcher item))) := by
  rw [findFirst]
  split
  · rfl
  · rename_i given
    have given' : matcher.isSome ∨ item.isSome := by
      cases matcher <;> cases item <;> simp_all
    rw [holds.first_eq, @findLoop_holds _ _ _ _ _ given' addresses [] [] values list.count holds rfl holds.count_eq.ge]

end Loops

end Invariant

end StrongSwan.Libstrongswan.Collections.LinkedList
