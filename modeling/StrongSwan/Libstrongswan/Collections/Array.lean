import Mathlib
import StrongSwan.Foundations.Memory

/-!
Contract: the `array_t` of `array.c` refines a list.

An `array_t` keeps its `count` elements in one allocated block, after `head` unused slots and
before `tail` unused ones, both `uint8_t`. The block is a list of slots here: `get_size` only
scales every offset and length by the element size, so one block of slots stands for the bytes
of a value-based array and of a pointer-based one alike. Slots that were never written are
`none`; a read of one, or a `memmove` that leaves the block, is what the model could report and
never does.

`array_insert` opens the slot with `insert_head` or `insert_tail`, chosen by which room exists
and then by the index against half the count; `array_remove` closes it with `remove_head` or
`remove_tail`, chosen by the index alone, and compresses once more than `ARRAY_MAX_UNUSED`
slots are unused. An enumerator is its index; `array_remove_at` steps it back and removes
there. `array_insert_enumerator` is given the values its enumerator yields. The enumerator of
a value-based array hands out pointers into the block; `array_insert` given one of them
(`arrayInsertFromSlot`) copies through it only after it opened the new slot, so it reads what
`insert_head` moved there, and freed memory where opening the slot reallocated the block.

`count` is a natural number here: `array_count` hands it out as an `int`, which the counts of
arrays that fit in memory stay below.

Owns: `Refines`, which ties an `array_t` to the list it holds and bounds its unused slots; one
lemma per helper of `array.c` for what it does to the block; and that every run of operations
from `array_create` answers as the list does, with the block laid out as `Refines` says.
-/

namespace StrongSwan.Libstrongswan.Collections.Array

open StrongSwan.Foundations.Memory

/-- `ARRAY_MAX_UNUSED`: the most unused slots `array_remove` leaves before it compresses. -/
def arrayMaxUnused : Nat := 32

/-- `array_t`, with the block as slots. -/
structure ArrayT (α : Type) where
  count : Nat
  head : UInt8
  tail : UInt8
  data : List (Option α)
deriving DecidableEq

variable {α : Type}

/-! ## The helpers of `array.c` -/

def makeTailRoom (array : ArrayT α) (room : UInt8) : ArrayT α :=
  if array.tail < room then
    { array with data := realloc array.data (array.count + array.head.toNat + room.toNat), tail := room }
  else array

def makeHeadRoom (array : ArrayT α) (room : UInt8) : Option (ArrayT α) :=
  if array.head < room then
    let increase := room - array.head
    let data := realloc array.data (array.count + array.tail.toNat + room.toNat)
    (memmove data increase.toNat 0 (array.count + array.tail.toNat + array.head.toNat)).map fun data =>
      { array with data, head := room }
  else some array

def insertTail (array : ArrayT α) (idx : Nat) : Option (ArrayT α) :=
  let array := makeTailRoom array 1
  (memmove array.data (array.head.toNat + idx + 1) (array.head.toNat + idx) (array.count - idx)).map fun data =>
    { array with data, tail := array.tail - 1, count := array.count + 1 }

def insertHead (array : ArrayT α) (idx : Nat) : Option (ArrayT α) :=
  (makeHeadRoom array 1).bind fun array =>
    (memmove array.data (array.head.toNat - 1) array.head.toNat idx).map fun data =>
      { array with data, head := array.head - 1, count := array.count + 1 }

def removeTail (array : ArrayT α) (idx : Nat) : Option (ArrayT α) :=
  (memmove array.data (idx + array.head.toNat) (idx + array.head.toNat + 1) (array.count - 1 - idx)).map
    fun data => { array with data, count := array.count - 1, tail := array.tail + 1 }

def removeHead (array : ArrayT α) (idx : Nat) : Option (ArrayT α) :=
  (memmove array.data (array.head.toNat + 1) array.head.toNat idx).map fun data =>
    { array with data, count := array.count - 1, head := array.head + 1 }

def arrayCreate (reserve : UInt8) : ArrayT α :=
  { count := 0, head := 0, tail := reserve, data := if reserve ≠ 0 then List.replicate reserve.toNat none else [] }

/-- The second half of `array_compress`: with `tail` unused slots behind the elements, the
block is cut after them. -/
def releaseTail (array : ArrayT α) (tail : Nat) : ArrayT α :=
  if tail ≠ 0 then
    { array with data := if array.count ≠ 0 then realloc array.data array.count else [], tail := 0 }
  else array

def arrayCompress (array : ArrayT α) : Option (ArrayT α) :=
  if array.head ≠ 0 then
    (memmove array.data 0 array.head.toNat (array.count + array.tail.toNat)).map fun data =>
      releaseTail { array with data, head := 0 } (array.tail.toNat + array.head.toNat)
  else some (releaseTail array array.tail.toNat)

theorem makeTailRoom_def (array : ArrayT α) (room : UInt8) :
    makeTailRoom array room =
      if array.tail < room then
        { array with data := realloc array.data (array.count + array.head.toNat + room.toNat), tail := room }
      else array := rfl

theorem makeHeadRoom_def (array : ArrayT α) (room : UInt8) :
    makeHeadRoom array room =
      if array.head < room then
        (memmove (realloc array.data (array.count + array.tail.toNat + room.toNat)) (room - array.head).toNat 0
          (array.count + array.tail.toNat + array.head.toNat)).map fun data => { array with data, head := room }
      else some array := rfl

theorem insertTail_def (array : ArrayT α) (idx : Nat) :
    insertTail array idx =
      (memmove (makeTailRoom array 1).data ((makeTailRoom array 1).head.toNat + idx + 1)
        ((makeTailRoom array 1).head.toNat + idx) ((makeTailRoom array 1).count - idx)).map fun data =>
        { (makeTailRoom array 1) with
          data, tail := (makeTailRoom array 1).tail - 1, count := (makeTailRoom array 1).count + 1 } := rfl

theorem insertHead_def (array : ArrayT α) (idx : Nat) :
    insertHead array idx =
      (makeHeadRoom array 1).bind fun array =>
        (memmove array.data (array.head.toNat - 1) array.head.toNat idx).map fun data =>
          { array with data, head := array.head - 1, count := array.count + 1 } := rfl

theorem removeTail_def (array : ArrayT α) (idx : Nat) :
    removeTail array idx =
      (memmove array.data (idx + array.head.toNat) (idx + array.head.toNat + 1) (array.count - 1 - idx)).map
        fun data => { array with data, count := array.count - 1, tail := array.tail + 1 } := rfl

theorem removeHead_def (array : ArrayT α) (idx : Nat) :
    removeHead array idx =
      (memmove array.data (array.head.toNat + 1) array.head.toNat idx).map fun data =>
        { array with data, count := array.count - 1, head := array.head + 1 } := rfl

theorem releaseTail_def (array : ArrayT α) (tail : Nat) :
    releaseTail array tail =
      if tail ≠ 0 then
        { array with data := if array.count ≠ 0 then realloc array.data array.count else [], tail := 0 }
      else array := rfl

theorem arrayCompress_def (array : ArrayT α) :
    arrayCompress array =
      if array.head ≠ 0 then
        (memmove array.data 0 array.head.toNat (array.count + array.tail.toNat)).map fun data =>
          releaseTail { array with data, head := 0 } (array.tail.toNat + array.head.toNat)
      else some (releaseTail array array.tail.toNat) := rfl

/-! ## The operations -/

def arrayInsert (array : ArrayT α) (idx : Int) (value : α) : Option (ArrayT α) :=
  if idx < 0 ∨ idx ≤ array.count then
    let idx := if idx < 0 then array.count else idx.toNat
    let opened :=
      if array.head ≠ 0 ∧ array.tail = 0 then insertHead array idx
      else if array.tail ≠ 0 ∧ array.head = 0 then insertTail array idx
      else if idx > array.count / 2 then insertTail array idx
      else insertHead array idx
    opened.bind fun array =>
      (store array.data (array.head.toNat + idx) (some value)).map fun data => { array with data }
  else some array

/-- `array_insert` where `data` points at the slot `slot` of the array's own block, as the
pointer an enumerator of a value-based array hands out. The slot is opened first and `*data`
copied after, so that it reads what `insert_head` moved there. Where the side that opens the
slot has no room, `make_tail_room` or `make_head_room` reallocates the block, which frees what
`data` points into: `none`. -/
def arrayInsertFromSlot (array : ArrayT α) (idx : Int) (slot : Nat) : Option (ArrayT α) :=
  if idx < 0 ∨ idx ≤ array.count then
    let idx := if idx < 0 then array.count else idx.toNat
    let copy := fun opened : ArrayT α => (opened.data[slot]?).bind fun value =>
      (store opened.data (opened.head.toNat + idx) value).map fun data => { opened with data }
    if array.head ≠ 0 ∧ array.tail = 0 then (insertHead array idx).bind copy
    else if array.tail ≠ 0 ∧ array.head = 0 then (insertTail array idx).bind copy
    else if idx > array.count / 2 then
      if array.tail < 1 then none else (insertTail array idx).bind copy
    else if array.head < 1 then none else (insertHead array idx).bind copy
  else some array

/-- The elements an array holds: the live slots of its window. -/
def ArrayT.elements (array : ArrayT α) : List α :=
  ((array.data.drop array.head.toNat).take array.count).filterMap id

/-- `array_get`: `none` where it returns `FALSE`, else the slot it copies out. -/
def arrayGet (array : ArrayT α) (idx : Int) : Option (Option α) :=
  if 0 ≤ idx ∧ array.count ≤ idx then none
  else if idx < 0 then
    if array.count = 0 then none
    else some (array.data[array.head.toNat + (array.count - 1)]?).join
  else some (array.data[array.head.toNat + idx.toNat]?).join

/-- `array_remove`: the array after it, and what `array_get` gave. -/
def arrayRemove (array : ArrayT α) (idx : Int) : Option (ArrayT α × Option (Option α)) :=
  match arrayGet array idx with
  | none => some (array, none)
  | some element =>
    let idx := if idx < 0 then array.count - 1 else idx.toNat
    let closed := if idx > array.count / 2 then removeTail array idx else removeHead array idx
    closed.bind fun array =>
      if array.head.toNat + array.tail.toNat > arrayMaxUnused then
        (arrayCompress array).map fun array => (array, some element)
      else some (array, some element)

/-- `enumerate` of an enumerator at `idx`: the slot it hands out, `none` where it returns
`FALSE`, and the index after it. -/
def enumerate (array : ArrayT α) (idx : Nat) : Option (Option α) × Nat :=
  if idx ≥ array.count then (none, idx)
  else (some (array.data[idx + array.head.toNat]?).join, idx + 1)

/-- `array_remove_at`: the array and the enumerator's index after it. -/
def arrayRemoveAt (array : ArrayT α) (idx : Nat) : Option (ArrayT α × Nat) :=
  if idx ≠ 0 then (arrayRemove array (idx - 1 : Nat)).map fun removed => (removed.1, idx - 1)
  else some (array, idx)

/-- `array_insert_enumerator`, given the values the enumerator yields. -/
def arrayInsertEnumerator (array : ArrayT α) (idx : Int) : List α → Option (ArrayT α)
  | [] => some array
  | value :: values => (arrayInsert array idx value).bind fun array => arrayInsertEnumerator array idx values

theorem arrayInsert_def (array : ArrayT α) (idx : Int) (value : α) :
    arrayInsert array idx value =
      if idx < 0 ∨ idx ≤ array.count then
        ((if array.head ≠ 0 ∧ array.tail = 0 then insertHead array (if idx < 0 then array.count else idx.toNat)
          else if array.tail ≠ 0 ∧ array.head = 0 then insertTail array (if idx < 0 then array.count else idx.toNat)
          else if (if idx < 0 then array.count else idx.toNat) > array.count / 2 then
            insertTail array (if idx < 0 then array.count else idx.toNat)
          else insertHead array (if idx < 0 then array.count else idx.toNat)).bind fun opened =>
          (store opened.data (opened.head.toNat + (if idx < 0 then array.count else idx.toNat)) (some value)).map
            fun data => { opened with data })
      else some array := rfl

theorem arrayInsertFromSlot_tail (array : ArrayT α) (slot : Nat) :
    arrayInsertFromSlot array (-1) slot =
      let copy := fun opened : ArrayT α => (opened.data[slot]?).bind fun value =>
        (store opened.data (opened.head.toNat + array.count) value).map fun data => { opened with data }
      if array.head ≠ 0 ∧ array.tail = 0 then (insertHead array array.count).bind copy
      else if array.tail ≠ 0 ∧ array.head = 0 then (insertTail array array.count).bind copy
      else if array.count > array.count / 2 then
        if array.tail < 1 then none else (insertTail array array.count).bind copy
      else if array.head < 1 then none else (insertHead array array.count).bind copy := by
  have negative : (-1 : Int) < 0 := by decide
  delta arrayInsertFromSlot
  simp only [negative, true_or, if_true]

theorem arrayGet_def (array : ArrayT α) (idx : Int) :
    arrayGet array idx =
      if 0 ≤ idx ∧ array.count ≤ idx then none
      else if idx < 0 then
        if array.count = 0 then none
        else some (array.data[array.head.toNat + (array.count - 1)]?).join
      else some (array.data[array.head.toNat + idx.toNat]?).join := rfl

theorem enumerate_def (array : ArrayT α) (idx : Nat) :
    enumerate array idx =
      if idx ≥ array.count then (none, idx) else (some (array.data[idx + array.head.toNat]?).join, idx + 1) := rfl

theorem arrayRemoveAt_def (array : ArrayT α) (idx : Nat) :
    arrayRemoveAt array idx =
      if idx ≠ 0 then (arrayRemove array (idx - 1 : Nat)).map fun removed => (removed.1, idx - 1)
      else some (array, idx) := rfl

theorem arrayInsertEnumerator_nil (array : ArrayT α) (idx : Int) : arrayInsertEnumerator array idx [] = some array :=
  rfl

theorem arrayInsertEnumerator_cons (array : ArrayT α) (idx : Int) (value : α) (values : List α) :
    arrayInsertEnumerator array idx (value :: values) =
      (arrayInsert array idx value).bind fun array => arrayInsertEnumerator array idx values := rfl

/-! ## Runs of operations -/

/-- The calls a caller makes on one array and one enumerator of it. -/
inductive Operation (α : Type) where
  | insert (idx : Int) (value : α)
  | remove (idx : Int)
  | get (idx : Int)
  | compress
  | createEnumerator
  | enumerate
  | removeAt
  | insertEnumerator (idx : Int) (values : List α)

/-- One call on the array and the enumerator's index: the state after it and what it hands
back, `none` for a call that hands back nothing; `none` overall for a `memmove` that leaves the
block. -/
def step : ArrayT α × Nat → Operation α → Option ((ArrayT α × Nat) × Option (Option α))
  | (array, cursor), .insert idx value => (arrayInsert array idx value).map fun array => ((array, cursor), none)
  | (array, cursor), .remove idx => (arrayRemove array idx).map fun removed => ((removed.1, cursor), removed.2)
  | (array, cursor), .get idx => some ((array, cursor), arrayGet array idx)
  | (array, cursor), .compress => (arrayCompress array).map fun array => ((array, cursor), none)
  | (array, _), .createEnumerator => some ((array, 0), none)
  | (array, cursor), .enumerate => some ((array, (enumerate array cursor).2), (enumerate array cursor).1)
  | (array, cursor), .removeAt => (arrayRemoveAt array cursor).map fun state => (state, none)
  | (array, cursor), .insertEnumerator idx values =>
    (arrayInsertEnumerator array idx values).map fun array => ((array, cursor), none)

def run (state : ArrayT α × Nat) : List (Operation α) → Option ((ArrayT α × Nat) × List (Option (Option α)))
  | [] => some (state, [])
  | operation :: operations =>
    (step state operation).bind fun stepped =>
      (run stepped.1 operations).map fun ran => (ran.1, stepped.2 :: ran.2)

/-- Every slot the enumerator hands out from `idx` on, within `fuel` calls. -/
def enumerated (array : ArrayT α) : Nat → Nat → List (Option α)
  | 0, _ => []
  | fuel + 1, idx =>
    match enumerate array idx with
    | (some slot, idx) => slot :: enumerated array fuel idx
    | (none, _) => []

theorem enumerated_succ (array : ArrayT α) (fuel idx : Nat) :
    enumerated array (fuel + 1) idx =
      match enumerate array idx with
      | (some slot, idx) => slot :: enumerated array fuel idx
      | (none, _) => [] := rfl

theorem run_cons (state : ArrayT α × Nat) (operation : Operation α) (operations : List (Operation α)) :
    run state (operation :: operations) =
      (step state operation).bind fun stepped =>
        (run stepped.1 operations).map fun ran => (ran.1, stepped.2 :: ran.2) := rfl

/-! ## The list an array stands for -/

/-- `array_insert` on a list: a negative index appends, one past the end is ignored. -/
def listInsert (elements : List α) (idx : Int) (value : α) : List α :=
  if idx < 0 then elements ++ [value] else elements.insertIdx idx.toNat value

/-- `array_get` on a list: a negative index names the last element. -/
def listGet (elements : List α) (idx : Int) : Option α :=
  if idx < 0 then elements.getLast? else elements[idx.toNat]?

def listRemove (elements : List α) (idx : Int) : List α :=
  if idx < 0 then elements.dropLast else elements.eraseIdx idx.toNat

def listStep : List α × Nat → Operation α → (List α × Nat) × Option α
  | (elements, cursor), .insert idx value => ((listInsert elements idx value, cursor), none)
  | (elements, cursor), .remove idx => ((listRemove elements idx, cursor), listGet elements idx)
  | (elements, cursor), .get idx => ((elements, cursor), listGet elements idx)
  | (elements, cursor), .compress => ((elements, cursor), none)
  | (elements, _), .createEnumerator => ((elements, 0), none)
  | (elements, cursor), .enumerate =>
    ((elements, if cursor < elements.length then cursor + 1 else cursor), elements[cursor]?)
  | (elements, cursor), .removeAt =>
    if cursor ≠ 0 then ((listRemove elements (cursor - 1 : Nat), cursor - 1), none) else ((elements, cursor), none)
  | (elements, cursor), .insertEnumerator idx values =>
    ((values.foldl (fun elements value => listInsert elements idx value) elements, cursor), none)

def listRun (state : List α × Nat) : List (Operation α) → (List α × Nat) × List (Option α)
  | [] => (state, [])
  | operation :: operations =>
    ((listRun (listStep state operation).1 operations).1,
      (listStep state operation).2 :: (listRun (listStep state operation).1 operations).2)

theorem listInsert_def (elements : List α) (idx : Int) (value : α) :
    listInsert elements idx value = if idx < 0 then elements ++ [value] else elements.insertIdx idx.toNat value := rfl

/-- `listGet` reads at the index `array_get` resolves a negative one to. -/
theorem listGet_eq_getElem? (elements : List α) (idx : Int) :
    listGet elements idx = elements[if idx < 0 then elements.length - 1 else idx.toNat]? := by
  by_cases negative : idx < 0
  · rw [listGet, if_pos negative, if_pos negative, List.getLast?_eq_getElem?]
  · rw [listGet, if_neg negative, if_neg negative]

/-- `listRemove` erases at the index `array_remove` resolves a negative one to. -/
theorem listRemove_eq_eraseIdx (elements : List α) (idx : Int) :
    listRemove elements idx = elements.eraseIdx (if idx < 0 then elements.length - 1 else idx.toNat) := by
  by_cases negative : idx < 0
  · rw [listRemove, if_pos negative, if_pos negative, List.eraseIdx_length_sub_one]
  · rw [listRemove, if_neg negative, if_neg negative]

/-! ## The invariant -/

/-- The bound on unused slots that keeps `head` and `tail` in a byte: at most
`ARRAY_MAX_UNUSED` of them, or none at the head and a tail that leaves the count room below
256. -/
def UnusedBound (head tail count : Nat) : Prop :=
  head + tail ≤ arrayMaxUnused ∨ (head = 0 ∧ tail + count ≤ 255)

theorem unusedBound_def (head tail count : Nat) :
    UnusedBound head tail count = (head + tail ≤ 32 ∨ (head = 0 ∧ tail + count ≤ 255)) := rfl

/-- The block of `array` holds `slots` between its unused head and tail. -/
structure Shape (array : ArrayT α) (slots : List (Option α)) : Prop where
  count_eq : array.count = slots.length
  holds : Holds array.data array.head.toNat slots array.tail.toNat

/-- An `array_t` that holds `elements`. -/
structure Refines (array : ArrayT α) (elements : List α) : Prop extends Shape array (elements.map some) where
  unused : UnusedBound array.head.toNat array.tail.toNat array.count

section Bound

variable {head tail count : Nat}

theorem UnusedBound.insert_tail (bound : UnusedBound head tail count) : UnusedBound head (tail - 1) (count + 1) := by
  rw [unusedBound_def] at *
  omega

/-- `insert_head` is chosen with an empty head only when the tail is empty too. -/
theorem UnusedBound.insert_head (bound : UnusedBound head tail count) (balanced : head = 0 → tail = 0) :
    UnusedBound (head - 1) tail (count + 1) := by
  rw [unusedBound_def] at *
  omega

theorem UnusedBound.head_lt (bound : UnusedBound head tail count) : head < 255 := by
  rw [unusedBound_def] at bound
  omega

theorem UnusedBound.tail_lt (bound : UnusedBound head tail count) (nonempty : 0 < count) : tail < 255 := by
  rw [unusedBound_def] at bound
  omega

end Bound

theorem toNat_sub_one_of_pos {x : UInt8} (positive : 0 < x.toNat) : (x - 1).toNat = x.toNat - 1 :=
  UInt8.toNat_sub_of_le x 1 (UInt8.le_iff_toNat_le.mpr positive)

theorem toNat_add_one_of_lt {x : UInt8} (small : x.toNat < 255) : (x + 1).toNat = x.toNat + 1 := by
  rw [UInt8.toNat_add]
  exact Nat.mod_eq_of_lt (by change x.toNat + 1 < 256; omega)

theorem lt_one_iff {x : UInt8} : x < 1 ↔ x.toNat = 0 := by
  rw [UInt8.lt_iff_toNat_lt]
  exact Nat.lt_one_iff

theorem eq_zero_iff {x : UInt8} : x = 0 ↔ x.toNat = 0 := by
  rw [← UInt8.toNat_inj]
  rfl

/-! ## What each helper does to the block -/

section Helpers

variable {array : ArrayT α} {slots : List (Option α)}

theorem Shape.getElem?_eq (shape : Shape array slots) {i : Nat} (inside : i < slots.length) :
    array.data[array.head.toNat + i]? = slots[i]? :=
  shape.holds.getElem?_eq i inside

theorem Shape.makeTailRoom_one (shape : Shape array slots) :
    Shape (makeTailRoom array 1) slots ∧ (makeTailRoom array 1).head = array.head ∧
      (makeTailRoom array 1).tail.toNat = max array.tail.toNat 1 := by
  rw [makeTailRoom_def]
  split
  case isTrue empty =>
    have zero := lt_one_iff.mp empty
    have holds := shape.holds
    rw [zero] at holds
    obtain ⟨grown, grownHolds⟩ := holds.grow_back
    refine ⟨⟨shape.count_eq, ?_⟩, rfl, by rw [zero]; rfl⟩
    show Holds (realloc array.data (array.count + array.head.toNat + 1)) array.head.toNat slots 1
    rwa [shape.count_eq, grown]
  case isFalse roomy =>
    have nonzero : array.tail.toNat ≠ 0 := fun zero => roomy (lt_one_iff.mpr zero)
    exact ⟨shape, rfl, by omega⟩

theorem Shape.makeHeadRoom_one (shape : Shape array slots) :
    ∃ room, makeHeadRoom array 1 = some room ∧ Shape room slots ∧ room.head.toNat = max array.head.toNat 1 ∧
      room.tail = array.tail := by
  rw [makeHeadRoom_def]
  split
  case isTrue empty =>
    have zero := lt_one_iff.mp empty
    have holds := shape.holds
    rw [zero] at holds
    obtain ⟨moved, memmoved, movedHolds⟩ := holds.grow_front
    have increase : ((1 : UInt8) - array.head).toNat = 1 := by rw [eq_zero_iff.mpr zero]; rfl
    rw [increase, zero, shape.count_eq]
    rw [show slots.length + array.tail.toNat + (1 : UInt8).toNat = slots.length + array.tail.toNat + 1 from rfl,
      memmoved, Option.map_some]
    exact ⟨_, rfl, ⟨rfl, movedHolds⟩, rfl, rfl⟩
  case isFalse roomy =>
    have nonzero : array.head.toNat ≠ 0 := fun zero => roomy (lt_one_iff.mpr zero)
    exact ⟨array, rfl, shape, by omega, rfl⟩

/-- `insert_tail` opens a slot at `idx` and takes it from the tail. -/
theorem Shape.insertTail_opens (shape : Shape array slots) {idx : Nat} (le : idx ≤ slots.length) :
    ∃ hole opened, insertTail array idx = some opened ∧ Shape opened (slots.take idx ++ hole :: slots.drop idx) ∧
      opened.count = array.count + 1 ∧ opened.head = array.head ∧ opened.tail.toNat = array.tail.toNat - 1 := by
  obtain ⟨roomShape, roomHead, roomTail⟩ := shape.makeTailRoom_one
  obtain ⟨hole, moved, memmoved, movedHolds⟩ := roomShape.holds.shift_up (by omega) le
  have opened : insertTail array idx = some { makeTailRoom array 1 with
      data := moved, tail := (makeTailRoom array 1).tail - 1, count := (makeTailRoom array 1).count + 1 } := by
    rw [insertTail_def, roomShape.count_eq, memmoved]
    rfl
  have tail : ((makeTailRoom array 1).tail - 1).toNat = array.tail.toNat - 1 := by
    rw [toNat_sub_one_of_pos (by omega), roomTail]
    omega
  refine ⟨hole, _, opened, ⟨?_, ?_⟩, by rw [roomShape.count_eq, shape.count_eq], roomHead, tail⟩
  · simp only [roomShape.count_eq, List.length_append, List.length_take, List.length_cons, List.length_drop]
    omega
  · show Holds moved (makeTailRoom array 1).head.toNat _ ((makeTailRoom array 1).tail - 1).toNat
    rwa [toNat_sub_one_of_pos (by omega)]

/-- `insert_head` opens a slot at `idx` and takes it from the head. -/
theorem Shape.insertHead_opens (shape : Shape array slots) {idx : Nat} (le : idx ≤ slots.length) :
    ∃ hole opened, insertHead array idx = some opened ∧ Shape opened (slots.take idx ++ hole :: slots.drop idx) ∧
      opened.count = array.count + 1 ∧ opened.head.toNat = array.head.toNat - 1 ∧ opened.tail = array.tail := by
  obtain ⟨room, roomEq, roomShape, roomHead, roomTail⟩ := shape.makeHeadRoom_one
  obtain ⟨hole, moved, memmoved, movedHolds⟩ := roomShape.holds.shift_down (by omega) le
  have head : (room.head - 1).toNat = room.head.toNat - 1 := toNat_sub_one_of_pos (by omega)
  have opened : insertHead array idx =
      some { room with data := moved, head := room.head - 1, count := room.count + 1 } := by
    rw [insertHead_def, roomEq, Option.bind_some, memmoved]
    rfl
  refine ⟨hole, _, opened, ⟨?_, ?_⟩, by rw [roomShape.count_eq, shape.count_eq], ?_, roomTail⟩
  · simp only [roomShape.count_eq, List.length_append, List.length_take, List.length_cons, List.length_drop]
    omega
  · show Holds moved (room.head - 1).toNat _ room.tail.toNat
    rwa [head]
  · show (room.head - 1).toNat = _
    rw [head, roomHead]
    omega

/-- `remove_tail` closes the slot at `idx` and gives it to the tail. -/
theorem Shape.removeTail_closes (shape : Shape array slots) {idx : Nat} (inside : idx < slots.length)
    (room : array.tail.toNat < 255) :
    ∃ closed, removeTail array idx = some closed ∧ Shape closed (slots.eraseIdx idx) ∧
      closed.head = array.head ∧ closed.tail.toNat = array.tail.toNat + 1 := by
  obtain ⟨moved, memmoved, movedHolds⟩ := shape.holds.close_down inside
  have closed : removeTail array idx =
      some { array with data := moved, count := array.count - 1, tail := array.tail + 1 } := by
    rw [removeTail_def, shape.count_eq, memmoved]
    rfl
  refine ⟨_, closed, ⟨?_, ?_⟩, rfl, toNat_add_one_of_lt room⟩
  · show array.count - 1 = (slots.eraseIdx idx).length
    rw [List.length_eraseIdx_of_lt inside, shape.count_eq]
  · show Holds moved array.head.toNat _ (array.tail + 1).toNat
    rwa [toNat_add_one_of_lt room]

/-- `remove_head` closes the slot at `idx` and gives it to the head. -/
theorem Shape.removeHead_closes (shape : Shape array slots) {idx : Nat} (inside : idx < slots.length)
    (room : array.head.toNat < 255) :
    ∃ closed, removeHead array idx = some closed ∧ Shape closed (slots.eraseIdx idx) ∧
      closed.head.toNat = array.head.toNat + 1 ∧ closed.tail = array.tail := by
  obtain ⟨moved, memmoved, movedHolds⟩ := shape.holds.close_up inside
  have closed : removeHead array idx =
      some { array with data := moved, count := array.count - 1, head := array.head + 1 } := by
    rw [removeHead_def, memmoved]
    rfl
  refine ⟨_, closed, ⟨?_, ?_⟩, toNat_add_one_of_lt room, rfl⟩
  · show array.count - 1 = (slots.eraseIdx idx).length
    rw [List.length_eraseIdx_of_lt inside, shape.count_eq]
  · show Holds moved (array.head + 1).toNat _ array.tail.toNat
    rwa [toNat_add_one_of_lt room]

theorem releaseTail_of_holds {back tail : Nat} (count : array.count = slots.length) (holds : Holds array.data 0 slots back)
    (nonzero : tail ≠ 0) : releaseTail array tail = { array with data := slots, tail := 0 } := by
  rw [releaseTail_def, if_pos nonzero]
  by_cases empty : array.count = 0
  · have none : slots = [] := List.length_eq_zero_iff.mp (count ▸ empty)
    rw [if_neg (not_not_intro empty), none]
  · rw [if_pos empty, count, holds.realloc_window]

/-- `array_compress` moves the elements to the start of the block and cuts it after them. -/
theorem Shape.arrayCompress_eq (shape : Shape array slots) :
    arrayCompress array = some { array with data := slots, head := 0, tail := 0 } := by
  rw [arrayCompress_def]
  split
  case isTrue moving =>
    obtain ⟨moved, memmoved, movedHolds⟩ := shape.holds.to_start
    have nonzero : array.tail.toNat + array.head.toNat ≠ 0 := by
      have := eq_zero_iff.not.mp moving
      omega
    rw [shape.count_eq, memmoved, Option.map_some]
    exact congrArg some (releaseTail_of_holds rfl movedHolds nonzero)
  case isFalse resting =>
    have zero : array.head = 0 := not_not.mp resting
    have holds := shape.holds
    rw [zero] at holds
    by_cases empty : array.tail.toNat = 0
    · rw [empty] at holds
      rw [releaseTail_def, if_neg (not_not_intro empty)]
      obtain ⟨count, head, tail, data⟩ := array
      simp only at zero empty holds ⊢
      rw [zero, eq_zero_iff.mpr empty, holds.eq_window]
    · rw [releaseTail_of_holds shape.count_eq holds empty, zero]

/-- Writing a slot of the elements. -/
theorem Shape.store_eq {before after : List (Option α)} {old : Option α} (shape : Shape array (before ++ old :: after))
    (new : Option α) :
    ∃ data, store array.data (array.head.toNat + before.length) new = some data ∧
      Shape { array with data } (before ++ new :: after) := by
  obtain ⟨data, stored, storedHolds⟩ := shape.holds.store new
  refine ⟨data, stored, ?_, storedHolds⟩
  show array.count = _
  rw [shape.count_eq]
  simp

/-- `insert_head` after the last element, with room at the head: every slot moves down by one,
and the opened slot keeps a copy of the last element. -/
theorem Shape.insertHead_end (shape : Shape array slots) (room : array.head ≠ 0) (nonempty : slots ≠ []) :
    ∃ opened, insertHead array slots.length = some opened ∧
      Shape opened (slots ++ [slots.getLast nonempty]) ∧ opened.head.toNat = array.head.toNat - 1 ∧
      opened.tail = array.tail := by
  have positive : 0 < array.head.toNat := Nat.pos_of_ne_zero fun zero => room (eq_zero_iff.mpr zero)
  have noRealloc : makeHeadRoom array 1 = some array := by
    rw [makeHeadRoom_def, if_neg fun small => room (eq_zero_iff.mpr (lt_one_iff.mp small))]
  obtain ⟨moved, memmoved, movedHolds⟩ := shape.holds.shift_down_end positive nonempty
  refine ⟨{ array with data := moved, head := array.head - 1, count := array.count + 1 }, ?_, ⟨?_, ?_⟩,
    toNat_sub_one_of_pos positive, rfl⟩
  · rw [insertHead_def, noRealloc, Option.bind_some, memmoved]
    rfl
  · show array.count + 1 = _
    rw [shape.count_eq, List.length_append, List.length_singleton]
  · show Holds moved (array.head - 1).toNat _ array.tail.toNat
    rwa [toNat_sub_one_of_pos positive]

end Helpers

theorem Shape.compressIfCrowded {closed : ArrayT α} {slots : List (Option α)} (shape : Shape closed slots)
    (element : Option α) :
    ∃ final, (if closed.head.toNat + closed.tail.toNat > arrayMaxUnused then
        (arrayCompress closed).map fun compressed => (compressed, some element)
      else some (closed, some element)) = some (final, some element) ∧
      Shape final slots ∧ final.head.toNat + final.tail.toNat ≤ arrayMaxUnused := by
  split
  case isTrue crowded =>
    rw [shape.arrayCompress_eq, Option.map_some]
    exact ⟨_, rfl, ⟨shape.count_eq, holds_self slots⟩, Nat.zero_le _⟩
  case isFalse roomy => exact ⟨closed, rfl, shape, Nat.le_of_not_lt roomy⟩

/-! ## Each operation against the list -/

section Operations

variable {array : ArrayT α} {elements : List α}

theorem Refines.count_eq_length (refines : Refines array elements) : array.count = elements.length := by
  rw [refines.count_eq, List.length_map]

/-- The slot of the `i`-th element holds it. -/
theorem Refines.slot (refines : Refines array elements) {i : Nat} (inside : i < elements.length) :
    (array.data[array.head.toNat + i]?).join = some elements[i] := by
  rw [refines.getElem?_eq (by rwa [List.length_map]), List.getElem?_map, List.getElem?_eq_getElem inside]
  rfl

theorem arrayGet_refines (refines : Refines array elements) (idx : Int) :
    arrayGet array idx = (listGet elements idx).map some := by
  have count := refines.count_eq_length
  rw [arrayGet_def, listGet_eq_getElem?]
  by_cases beyond : 0 ≤ idx ∧ (array.count : Int) ≤ idx
  · rw [if_pos beyond, if_neg (by omega), List.getElem?_eq_none (by omega)]
    rfl
  rw [if_neg beyond]
  by_cases negative : idx < 0
  · rw [if_pos negative, if_pos negative]
    by_cases empty : array.count = 0
    · rw [if_pos empty, List.getElem?_eq_none (by omega)]
      rfl
    · rw [if_neg empty, count, refines.slot (by omega), List.getElem?_eq_getElem (by omega)]
      rfl
  · rw [if_neg negative, if_neg negative, refines.slot (by omega), List.getElem?_eq_getElem (by omega)]
    rfl

/-- Whichever way `array_insert` opens the slot at `idx`, the bound on unused slots is kept. -/
theorem Refines.opens (refines : Refines array elements) {idx : Nat} (le : idx ≤ elements.length) :
    ∃ hole opened,
      (if array.head ≠ 0 ∧ array.tail = 0 then insertHead array idx
        else if array.tail ≠ 0 ∧ array.head = 0 then insertTail array idx
        else if idx > array.count / 2 then insertTail array idx
        else insertHead array idx) = some opened ∧
      Shape opened ((elements.map some).take idx ++ hole :: (elements.map some).drop idx) ∧
      UnusedBound opened.head.toNat opened.tail.toNat opened.count := by
  have fits : idx ≤ (elements.map some).length := by rwa [List.length_map]
  have tailOpens : ∃ hole opened, insertTail array idx = some opened ∧
      Shape opened ((elements.map some).take idx ++ hole :: (elements.map some).drop idx) ∧
      UnusedBound opened.head.toNat opened.tail.toNat opened.count := by
    obtain ⟨hole, opened, opens, shape, count, head, tail⟩ := refines.insertTail_opens fits
    refine ⟨hole, opened, opens, shape, ?_⟩
    rw [count, head, tail]
    exact refines.unused.insert_tail
  have headOpens (balanced : array.head = 0 → array.tail = 0) : ∃ hole opened, insertHead array idx = some opened ∧
      Shape opened ((elements.map some).take idx ++ hole :: (elements.map some).drop idx) ∧
      UnusedBound opened.head.toNat opened.tail.toNat opened.count := by
    obtain ⟨hole, opened, opens, shape, count, head, tail⟩ := refines.insertHead_opens fits
    refine ⟨hole, opened, opens, shape, ?_⟩
    rw [count, head, tail]
    exact refines.unused.insert_head fun zero => eq_zero_iff.mp (balanced (eq_zero_iff.mpr zero))
  split_ifs with headOnly tailOnly
  · exact headOpens fun zero => absurd zero headOnly.1
  · exact tailOpens
  · exact tailOpens
  · -- neither side alone has room: both have, or neither has
    exact headOpens fun zero => Classical.byContradiction fun nonzero => tailOnly ⟨nonzero, zero⟩

theorem arrayInsert_refines (refines : Refines array elements) (idx : Int) (value : α) :
    ∃ inserted, arrayInsert array idx value = some inserted ∧ Refines inserted (listInsert elements idx value) := by
  have count := refines.count_eq_length
  rw [arrayInsert_def]
  by_cases valid : idx < 0 ∨ idx ≤ array.count
  case neg =>
    -- past the end: `array_insert` ignores the call and the list keeps its elements
    rw [if_neg valid, listInsert_def, if_neg (by omega), List.insertIdx_of_length_lt (by omega)]
    exact ⟨array, rfl, refines⟩
  case pos =>
    have listed : listInsert elements idx value =
        elements.insertIdx (if idx < 0 then array.count else idx.toNat) value := by
      rw [listInsert_def]
      by_cases negative : idx < 0
      · rw [if_pos negative, if_pos negative, count, List.insertIdx_length_self]
      · rw [if_neg negative, if_neg negative]
    have le : (if idx < 0 then array.count else idx.toNat) ≤ elements.length := by
      split <;> omega
    rw [if_pos valid, listed]
    generalize (if idx < 0 then array.count else idx.toNat) = i at le ⊢
    obtain ⟨hole, opened, opens, shape, bound⟩ := refines.opens le
    obtain ⟨data, stored, storedShape⟩ := shape.store_eq (some value)
    rw [List.length_take_of_le (by rwa [List.length_map])] at stored
    rw [opens, Option.bind_some, stored, Option.map_some]
    refine ⟨_, rfl, ⟨?_, bound⟩⟩
    rwa [List.map_insertIdx, insertIdx_eq_take_cons_drop _ (by rwa [List.length_map])]

/-- The elements of an array that holds `elements` are those. -/
theorem Refines.elements_eq (refines : Refines array elements) : array.elements = elements := by
  obtain ⟨before, after, block, frontLength, -⟩ := refines.holds
  rw [ArrayT.elements, block, refines.count_eq_length, ← frontLength, List.append_assoc, List.drop_left,
    List.take_left' (by simp)]
  simp

/-- With room at the head only, `array_insert` at the tail through a pointer to the slot of the
`i`-th element appends the element after it, which `insert_head` moved there, or the `i`-th
itself when it is the last. -/
theorem Refines.insertFromSlot_headRoom (refines : Refines array elements) (room : array.head ≠ 0)
    (noTail : array.tail = 0) {i : Nat} (inside : i < elements.length) :
    ∃ inserted, arrayInsertFromSlot array (-1) (array.head.toNat + i) = some inserted ∧
      Refines inserted (elements ++ [elements[i + 1]?.getD elements[i]]) := by
  have count := refines.count_eq_length
  have nonempty : elements.map some ≠ [] := by
    simpa using List.ne_nil_of_length_pos (Nat.lt_of_le_of_lt (Nat.zero_le i) inside)
  obtain ⟨opened, opens, shape, head, tail⟩ := refines.insertHead_end room nonempty
  rw [List.length_map] at opens
  -- the pointer now names the slot after the one of its element
  have read : opened.data[array.head.toNat + i]? = some (some (elements[i + 1]?.getD elements[i])) := by
    have shifted : array.head.toNat + i = opened.head.toNat + (i + 1) := by
      have positive : 0 < array.head.toNat := Nat.pos_of_ne_zero fun zero => room (eq_zero_iff.mpr zero)
      omega
    rw [shifted, shape.getElem?_eq (by simp; omega)]
    by_cases next : i + 1 < elements.length
    · rw [List.getElem?_append_left (by simpa using next), List.getElem?_map, List.getElem?_eq_getElem next]
      rfl
    · have last : i + 1 = elements.length := by omega
      have index : elements.length - 1 = i := by omega
      rw [List.getElem?_append_right (by rw [List.length_map]; omega), List.length_map, last, Nat.sub_self,
        List.getElem?_eq_none (Nat.le_refl _)]
      simp [List.getLast_eq_getElem, index]
  obtain ⟨data, stored, storedShape⟩ := shape.store_eq (some (elements[i + 1]?.getD elements[i]))
  rw [List.length_map] at stored
  rw [arrayInsertFromSlot_tail, if_pos ⟨room, noTail⟩, count, opens, Option.bind_some, read, Option.bind_some,
    stored, Option.map_some]
  refine ⟨_, rfl, ⟨?_, ?_⟩⟩
  · simpa using storedShape
  · show UnusedBound opened.head.toNat opened.tail.toNat opened.count
    rw [head, tail, shape.count_eq, List.length_append, List.length_map, List.length_singleton, ← count]
    exact refines.unused.insert_head fun _ => eq_zero_iff.mp noTail

/-- With room at the tail, `array_insert` at the tail through a pointer to the slot of the `i`-th
element appends that element: `insert_tail` moves nothing before the new slot. -/
theorem Refines.insertFromSlot_tailRoom (refines : Refines array elements) (room : array.tail ≠ 0)
    {i : Nat} (inside : i < elements.length) :
    ∃ inserted, arrayInsertFromSlot array (-1) (array.head.toNat + i) = some inserted ∧
      Refines inserted (elements ++ [elements[i]]) := by
  have count := refines.count_eq_length
  obtain ⟨hole, opened, opens, shape, openedCount, head, tail⟩ :=
    refines.insertTail_opens (Nat.le_refl (elements.map some).length)
  rw [List.take_length, List.drop_length, List.length_map] at *
  have read : opened.data[array.head.toNat + i]? = some (some elements[i]) := by
    rw [← head, shape.getElem?_eq (by simp; omega), List.getElem?_append_left (by simpa using inside),
      List.getElem?_map, List.getElem?_eq_getElem inside]
    rfl
  obtain ⟨data, stored, storedShape⟩ := shape.store_eq (some elements[i])
  rw [List.length_map] at stored
  -- either side alone or both have room: the slot comes from the tail without a `realloc`
  have opensTail : arrayInsertFromSlot array (-1) (array.head.toNat + i) =
      (insertTail array elements.length).bind fun opened =>
        (opened.data[array.head.toNat + i]?).bind fun value =>
          (store opened.data (opened.head.toNat + elements.length) value).map fun data => { opened with data } := by
    rw [arrayInsertFromSlot_tail, count, if_neg fun headOnly => room headOnly.2]
    split
    · rfl
    · rw [if_pos (by omega), if_neg fun small => room (eq_zero_iff.mpr (lt_one_iff.mp small))]
  rw [opensTail, opens, Option.bind_some, read, Option.bind_some, stored, Option.map_some]
  refine ⟨_, rfl, ⟨?_, ?_⟩⟩
  · simpa using storedShape
  · show UnusedBound opened.head.toNat opened.tail.toNat opened.count
    rw [head, tail, openedCount]
    exact refines.unused.insert_tail

/-- With no room on either side, `make_tail_room` reallocates the block before `*data` is
copied: the copy reads freed memory. -/
theorem arrayInsertFromSlot_of_no_room (noHead : array.head = 0) (noTail : array.tail = 0)
    (nonempty : array.count ≠ 0) (slot : Nat) : arrayInsertFromSlot array (-1) slot = none := by
  rw [arrayInsertFromSlot_tail, if_neg fun headOnly => headOnly.1 noHead, if_neg fun tailOnly => tailOnly.1 noTail,
    if_pos (by omega), if_pos (lt_one_iff.mpr (eq_zero_iff.mp noTail))]

/-- Where it does not read freed memory, `array_insert` at the tail through a pointer to the slot
of an element appends one of the elements. -/
theorem Refines.insertFromSlot_copy (refines : Refines array elements) {i : Nat} (inside : i < elements.length)
    {inserted : ArrayT α} (copied : arrayInsertFromSlot array (-1) (array.head.toNat + i) = some inserted) :
    ∃ value ∈ elements, Refines inserted (elements ++ [value]) := by
  by_cases tailRoom : array.tail ≠ 0
  · obtain ⟨result, same, refinesResult⟩ := refines.insertFromSlot_tailRoom tailRoom inside
    rw [same, Option.some.injEq] at copied
    exact ⟨elements[i], List.getElem_mem inside, copied ▸ refinesResult⟩
  by_cases headRoom : array.head ≠ 0
  · obtain ⟨result, same, refinesResult⟩ := refines.insertFromSlot_headRoom headRoom (not_not.mp tailRoom) inside
    rw [same, Option.some.injEq] at copied
    refine ⟨elements[i + 1]?.getD elements[i], ?_, copied ▸ refinesResult⟩
    -- the element after the found one, or the found one where it is the last
    cases next : elements[i + 1]? with
    | none => exact List.getElem_mem inside
    | some value => exact List.mem_of_getElem? next
  · have nonempty : array.count ≠ 0 := by
      rw [refines.count_eq_length]
      omega
    rw [arrayInsertFromSlot_of_no_room (not_not.mp headRoom) (not_not.mp tailRoom) nonempty] at copied
    cases copied

theorem arrayRemove_of_arrayGet_none {idx : Int} (missing : arrayGet array idx = none) :
    arrayRemove array idx = some (array, none) := by
  delta arrayRemove
  rw [missing]

theorem arrayRemove_of_arrayGet_some {idx : Int} {element : Option α} (found : arrayGet array idx = some element) :
    arrayRemove array idx =
      (if (if idx < 0 then array.count - 1 else idx.toNat) > array.count / 2 then
          removeTail array (if idx < 0 then array.count - 1 else idx.toNat)
        else removeHead array (if idx < 0 then array.count - 1 else idx.toNat)).bind fun closed =>
        if closed.head.toNat + closed.tail.toNat > arrayMaxUnused then
          (arrayCompress closed).map fun compressed => (compressed, some element)
        else some (closed, some element) := by
  delta arrayRemove
  rw [found]

/-- `array_remove` removes what the list removes, and leaves at most `ARRAY_MAX_UNUSED` unused
slots once it removed something. -/
theorem arrayRemove_refines (refines : Refines array elements) (idx : Int) :
    ∃ removed, arrayRemove array idx = some (removed, (listGet elements idx).map some) ∧
      Refines removed (listRemove elements idx) ∧
      ((listGet elements idx).isSome → removed.head.toNat + removed.tail.toNat ≤ arrayMaxUnused) := by
  have count := refines.count_eq_length
  have got := arrayGet_refines refines idx
  rw [listRemove_eq_eraseIdx]
  cases found : listGet elements idx with
  | none =>
    rw [found, Option.map_none] at got
    rw [listGet_eq_getElem?, List.getElem?_eq_none_iff] at found
    rw [List.eraseIdx_of_length_le found]
    exact ⟨array, arrayRemove_of_arrayGet_none got, refines, by simp⟩
  | some element =>
    rw [found, Option.map_some] at got
    rw [listGet_eq_getElem?] at found
    have inside := (List.getElem?_eq_some_iff.mp found).1
    rw [arrayRemove_of_arrayGet_some got, count]
    generalize (if idx < 0 then elements.length - 1 else idx.toNat) = i at inside ⊢
    have fits : i < (elements.map some).length := by rwa [List.length_map]
    -- `remove_tail` for the back half, `remove_head` for the front half
    obtain ⟨closed, closes, closedShape⟩ : ∃ closed,
        (if i > elements.length / 2 then removeTail array i else removeHead array i) = some closed ∧
          Shape closed ((elements.map some).eraseIdx i) := by
      split
      · obtain ⟨closed, closes, shape, -, -⟩ := refines.removeTail_closes fits (refines.unused.tail_lt (by omega))
        exact ⟨closed, closes, shape⟩
      · obtain ⟨closed, closes, shape, -, -⟩ := refines.removeHead_closes fits refines.unused.head_lt
        exact ⟨closed, closes, shape⟩
    obtain ⟨final, compressed, finalShape, finalBound⟩ := closedShape.compressIfCrowded (some element)
    rw [closes, Option.bind_some, compressed]
    rw [List.eraseIdx_map] at finalShape
    exact ⟨final, rfl, ⟨finalShape, Or.inl finalBound⟩, fun _ => finalBound⟩

theorem arrayCompress_refines (refines : Refines array elements) :
    arrayCompress array = some { array with data := elements.map some, head := 0, tail := 0 } ∧
      Refines { array with data := elements.map some, head := 0, tail := 0 } elements :=
  ⟨refines.arrayCompress_eq, ⟨refines.count_eq, holds_self _⟩, Or.inl (Nat.zero_le _)⟩

theorem enumerate_refines (refines : Refines array elements) (idx : Nat) :
    enumerate array idx = (elements[idx]?.map some, if idx < elements.length then idx + 1 else idx) := by
  rw [enumerate_def, refines.count_eq_length]
  split
  case isTrue past =>
    rw [List.getElem?_eq_none past, if_neg (Nat.not_lt.mpr past)]
    rfl
  case isFalse inside =>
    have inside := Nat.lt_of_not_le inside
    rw [Nat.add_comm, refines.slot inside, List.getElem?_eq_getElem inside, if_pos inside]
    rfl

/-- `array_insert` at `ARRAY_TAIL` appends. -/
theorem Refines.insert_tail (refines : Refines array elements) (value : α) :
    ∃ inserted, arrayInsert array (-1) value = some inserted ∧ Refines inserted (elements ++ [value]) := by
  obtain ⟨inserted, same, holds⟩ := arrayInsert_refines refines (-1) value
  rw [listInsert_def, if_pos (by decide)] at holds
  exact ⟨inserted, same, holds⟩

/-- `array_remove` at `ARRAY_HEAD` takes the first element out. -/
theorem Refines.remove_head (refines : Refines array elements) :
    ∃ removed, arrayRemove array 0 = some (removed, elements.head?.map some) ∧ Refines removed elements.tail := by
  obtain ⟨removed, same, holds, -⟩ := arrayRemove_refines refines 0
  rw [listGet_eq_getElem?, if_neg (by decide), Int.toNat_zero, ← List.head?_eq_getElem?] at same
  rw [listRemove_eq_eraseIdx, if_neg (by decide), Int.toNat_zero, List.eraseIdx_zero] at holds
  exact ⟨removed, same, holds⟩

/-- `array_remove_at` on an enumerator that just handed out the element at `idx` removes it and
steps the enumerator back to `idx`. -/
theorem Refines.removeAt (refines : Refines array elements) (idx : Nat) :
    ∃ removed, arrayRemoveAt array (idx + 1) = some (removed, idx) ∧ Refines removed (elements.eraseIdx idx) := by
  obtain ⟨removed, same, holds, -⟩ := arrayRemove_refines refines idx
  rw [listRemove_eq_eraseIdx, if_neg (Int.not_lt.mpr (Int.natCast_nonneg idx)), Int.toNat_natCast] at holds
  refine ⟨removed, ?_, holds⟩
  rw [arrayRemoveAt_def, if_pos (Nat.succ_ne_zero idx), Nat.add_sub_cancel, same]
  rfl

theorem arrayInsertEnumerator_refines (refines : Refines array elements) (idx : Int) (values : List α) :
    ∃ inserted, arrayInsertEnumerator array idx values = some inserted ∧
      Refines inserted (values.foldl (fun elements value => listInsert elements idx value) elements) := by
  induction values generalizing array elements with
  | nil => exact ⟨array, arrayInsertEnumerator_nil array idx, refines⟩
  | cons value values inductionHypothesis =>
    obtain ⟨inserted, inserts, insertedRefines⟩ := arrayInsert_refines refines idx value
    rw [arrayInsertEnumerator_cons, inserts, Option.bind_some, List.foldl_cons]
    exact inductionHypothesis insertedRefines

end Operations

/-! ## Runs -/

section Runs

variable {array : ArrayT α} {elements : List α}

theorem arrayCreate_refines (reserve : UInt8) : Refines (arrayCreate reserve : ArrayT α) [] := by
  have block : (arrayCreate reserve : ArrayT α).data = [] ++ [].map some ++ List.replicate reserve.toNat none := by
    show (if reserve ≠ 0 then List.replicate reserve.toNat none else []) = _
    split
    case isTrue => rfl
    case isFalse empty => rw [eq_zero_iff.mp (not_not.mp empty)]; rfl
  refine ⟨⟨rfl, [], _, block, rfl, List.length_replicate⟩, Or.inr ⟨rfl, ?_⟩⟩
  show reserve.toNat + 0 ≤ 255
  have := UInt8.toNat_lt reserve
  omega

/-- One call answers as the list does and keeps the invariant. -/
theorem step_refines (refines : Refines array elements) (cursor : Nat) (operation : Operation α) :
    ∃ next, step (array, cursor) operation =
        some ((next, (listStep (elements, cursor) operation).1.2), (listStep (elements, cursor) operation).2.map some) ∧
      Refines next (listStep (elements, cursor) operation).1.1 := by
  cases operation with
  | insert idx value =>
    obtain ⟨inserted, inserts, insertedRefines⟩ := arrayInsert_refines refines idx value
    exact ⟨inserted, by rw [step, inserts]; rfl, insertedRefines⟩
  | remove idx =>
    obtain ⟨removed, removes, removedRefines, -⟩ := arrayRemove_refines refines idx
    exact ⟨removed, by rw [step, removes]; rfl, removedRefines⟩
  | get idx => exact ⟨array, by rw [step, arrayGet_refines refines]; rfl, refines⟩
  | compress =>
    obtain ⟨compresses, compressedRefines⟩ := arrayCompress_refines refines
    exact ⟨_, by rw [step, compresses]; rfl, compressedRefines⟩
  | createEnumerator => exact ⟨array, rfl, refines⟩
  | enumerate => exact ⟨array, by rw [step, enumerate_refines refines]; rfl, refines⟩
  | removeAt =>
    by_cases zero : cursor = 0
    · subst zero
      exact ⟨array, rfl, refines⟩
    · -- the enumerator steps back onto the element it handed out last and removes it
      obtain ⟨removed, removes, removedRefines, -⟩ := arrayRemove_refines refines (cursor - 1 : Nat)
      refine ⟨removed, ?_, ?_⟩
      · rw [step, arrayRemoveAt_def, if_pos zero, removes, listStep, if_pos zero]
        rfl
      · rw [listStep, if_pos zero]
        exact removedRefines
  | insertEnumerator idx values =>
    obtain ⟨inserted, inserts, insertedRefines⟩ := arrayInsertEnumerator_refines refines idx values
    exact ⟨inserted, by rw [step, inserts]; rfl, insertedRefines⟩

/-- A run of calls answers as the list does and keeps the invariant. -/
theorem run_refines (refines : Refines array elements) (cursor : Nat) (operations : List (Operation α)) :
    ∃ final, run (array, cursor) operations =
        some ((final, (listRun (elements, cursor) operations).1.2),
          (listRun (elements, cursor) operations).2.map (Option.map some)) ∧
      Refines final (listRun (elements, cursor) operations).1.1 := by
  induction operations generalizing array elements cursor with
  | nil => exact ⟨array, rfl, refines⟩
  | cons operation operations inductionHypothesis =>
    obtain ⟨next, stepped, nextRefines⟩ := step_refines refines cursor operation
    obtain ⟨final, ran, finalRefines⟩ := inductionHypothesis nextRefines (listStep (elements, cursor) operation).1.2
    refine ⟨final, ?_, finalRefines⟩
    rw [run_cons, stepped, Option.bind_some, ran, Option.map_some]
    rfl

example :
    (run (arrayCreate 0, 0) [.insert 0 1, .insert 0 2, .insert (-1) 3, .remove 1, .get (-1), .createEnumerator,
      .enumerate, .enumerate, .removeAt, .enumerate]).map Prod.snd =
      some [none, none, none, some (some 1), some (some 3), none, some (some 2), some (some 3), none, none] := by
  decide

/-- A fresh enumerator hands out the elements in order, and then returns `FALSE`. -/
theorem enumerated_refines (refines : Refines array elements) :
    ∀ (fuel idx : Nat), elements.length - idx < fuel → enumerated array fuel idx = (elements.drop idx).map some
  | 0, _, enough => absurd enough (Nat.not_lt_zero _)
  | fuel + 1, idx, enough => by
    rw [enumerated_succ, enumerate_refines refines]
    by_cases inside : idx < elements.length
    · rw [List.getElem?_eq_getElem inside, if_pos inside, Option.map_some]
      show some elements[idx] :: enumerated array fuel (idx + 1) = _
      rw [enumerated_refines refines fuel (idx + 1) (by omega), List.drop_eq_getElem_cons inside, List.map_cons]
    · rw [List.getElem?_eq_none (Nat.le_of_not_lt inside), List.drop_of_length_le (Nat.le_of_not_lt inside)]
      rfl

theorem arrayGet_range (refines : Refines array elements) :
    (List.range array.count).map (fun i : Nat => arrayGet array i) = elements.map fun element => some (some element) := by
  rw [refines.count_eq_length]
  apply List.ext_getElem (by simp)
  intro i inRange inElements
  rw [List.getElem_map, List.getElem_map, List.getElem_range, arrayGet_refines refines, listGet_eq_getElem?,
    if_neg (by omega), Int.toNat_natCast, List.getElem?_eq_getElem (by simpa using inRange)]
  rfl

end Runs

/-- Every run of calls on an array from `array_create` answers as the same calls on a list, and
leaves an array whose elements, read with `array_get` at `0 .. count - 1` or with a fresh
enumerator, are the list's; its block holds `head + count + tail` slots and the bound on unused
slots holds. A removal that finds its element leaves at most `ARRAY_MAX_UNUSED` unused slots. -/
theorem array_refines_list (reserve : UInt8) (operations : List (Operation α)) :
    (∃ final, run (arrayCreate reserve, 0) operations =
        some (final, (listRun ([], 0) operations).2.map (Option.map some)) ∧
      final.2 = (listRun ([], 0) operations).1.2 ∧
      Refines final.1 (listRun ([], 0) operations).1.1 ∧
      (List.range final.1.count).map (fun i : Nat => arrayGet final.1 i) =
        (listRun ([], 0) operations).1.1.map (fun element => some (some element)) ∧
      enumerated final.1 (final.1.count + 1) 0 = (listRun ([], 0) operations).1.1.map some ∧
      final.1.data.length = final.1.head.toNat + final.1.count + final.1.tail.toNat) ∧
    ∀ (array : ArrayT α) (elements : List α), Refines array elements →
      ∀ idx removed element, arrayRemove array idx = some (removed, some element) →
        removed.head.toNat + removed.tail.toNat ≤ arrayMaxUnused := by
  constructor
  · obtain ⟨final, ran, finalRefines⟩ := run_refines (arrayCreate_refines reserve) 0 operations
    have count := finalRefines.count_eq_length
    refine ⟨(final, _), ran, rfl, finalRefines, arrayGet_range finalRefines, ?_, ?_⟩
    · exact enumerated_refines finalRefines _ 0 (by show _ < final.count + 1; omega)
    · rw [finalRefines.holds.length_eq, List.length_map, count]
  · intro array elements refines idx removed element removes
    obtain ⟨removed', removes', -, compacted⟩ := arrayRemove_refines refines idx
    rw [removes'] at removes
    obtain ⟨same, found⟩ := Prod.mk.inj (Option.some.inj removes)
    rw [← same]
    apply compacted
    have isSome := congrArg Option.isSome found
    rwa [Option.isSome_map] at isSome

theorem array_refines_list_remove_last :
    arrayRemove (⟨1, 0, 0, [some 5]⟩ : ArrayT Nat) 0 = some (⟨0, 1, 0, [some 5]⟩, some (some 5)) ∧
      (⟨0, 1, 0, [some 5]⟩ : ArrayT Nat).head.toNat + (⟨0, 1, 0, [some 5]⟩ : ArrayT Nat).tail.toNat ≤
        arrayMaxUnused :=
  have removes : arrayRemove (⟨1, 0, 0, [some 5]⟩ : ArrayT Nat) 0 = some (⟨0, 1, 0, [some 5]⟩, some (some 5)) := by
    decide
  ⟨removes, (array_refines_list (0 : UInt8) ([] : List (Operation Nat))).2 ⟨1, 0, 0, [some 5]⟩ [5]
    ⟨⟨rfl, holds_self _⟩, Or.inl (Nat.zero_le _)⟩ 0 _ (some 5) removes⟩

end StrongSwan.Libstrongswan.Collections.Array
