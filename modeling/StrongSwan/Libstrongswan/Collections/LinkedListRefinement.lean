import Mathlib
import StrongSwan.Libstrongswan.Collections.LinkedList

/-!
Contract: the lists of `linked_list.c`, with their enumerators, refine lists of values with
positions.

On the list side an enumerator is a position: on the `i`-th value, past the end (`done`, a
`NULL` `current`), or on a value that was removed (`dangling`), with the method its
`venumerate` points to. Every call is a function of the values and the positions:
`insert_first` and `insert_before` move up the positions from the new value on, a removal
makes the positions on the removed values dangle and moves back those after them, and a call
through a dangling enumerator is an error, as the read of a freed element is for the code.
`remove_at` leaves its own enumerator on the value after the removed one.

Owns: `Position` and how each call moves it, `specStep`, the relation `Represents` of a list
and its enumerators to the list side, and that every run of calls from `linked_list_create`
answers as the list side does and fails where it does.
-/

namespace StrongSwan.Libstrongswan.Collections.LinkedList

open StrongSwan.Foundations StrongSwan.Foundations.DoublyLinked

/-- Where an enumerator stands among the values. -/
inductive Position where
  | on (index : Nat)
  | done
  | dangling
deriving DecidableEq, Repr

variable {α : Type}

namespace Position

/-- A value inserted at `index`: the positions from there on move up. -/
def insertedAt (index : Nat) : Position → Position
  | .on i => if index ≤ i then .on (i + 1) else .on i
  | position => position

/-- The value at `index` removed: a position on it dangles, those after it move back. -/
def erasedAt (index : Nat) : Position → Position
  | .on i => if i = index then .dangling else if index < i then .on (i - 1) else .on i
  | position => position

/-- The values `keep` rejects removed: a position on one of them dangles, one on a kept value
moves back past the removed values before it. -/
def filtered (keep : α → Bool) (values : List α) : Position → Position
  | .on i => if values[i]?.all keep then .on ((values.take i).countP keep) else .dangling
  | position => position

/-- Where `create_enumerator` and `reset_enumerator` leave an enumerator. -/
def start (values : List α) : Position := if values = [] then .done else .on 0

end Position

/-- The list side: the values in order, and each enumerator's position and method. -/
structure ListSpec (α : Type) where
  values : List α
  enumerators : List (Position × Venumerate)

/-- `venumerate` on the list side. -/
def specVenumerate (values : List α) : Position × Venumerate → Option ((Position × Venumerate) × Option α)
  | (.dangling, _) => none
  | (.done, _) => some ((.done, .enumerateNext), none)
  | (.on i, .enumerateCurrent) => some ((.on i, .enumerateNext), values[i]?)
  | (.on i, .enumerateNext) =>
    some ((if i + 1 < values.length then .on (i + 1) else .done, .enumerateNext), values[i + 1]?)

/-- One call on the list side; `none` for a call through a dangling enumerator or through one
that was never created. -/
def specStep [DecidableEq α] : ListSpec α → ListCall α → Option (ListSpec α × Reply α)
  | ⟨values, enumerators⟩, .insertFirst item =>
    some (⟨item :: values, enumerators.map fun e => (e.1.insertedAt 0, e.2)⟩, .nothing)
  | ⟨values, enumerators⟩, .insertLast item => some (⟨values ++ [item], enumerators⟩, .nothing)
  | ⟨values, enumerators⟩, .getFirst => some (⟨values, enumerators⟩, .status values.head?)
  | ⟨values, enumerators⟩, .removeFirst =>
    some (⟨values.tail, enumerators.map fun e => (e.1.erasedAt 0, e.2)⟩, .status values.head?)
  | ⟨values, enumerators⟩, .getLast => some (⟨values, enumerators⟩, .status values.getLast?)
  | ⟨values, enumerators⟩, .removeLast =>
    some (⟨values.dropLast, enumerators.map fun e => (e.1.erasedAt (values.length - 1), e.2)⟩,
      .status values.getLast?)
  | ⟨values, enumerators⟩, .getCount => some (⟨values, enumerators⟩, .count values.length)
  | ⟨values, enumerators⟩, .remove item compare =>
    some (⟨values.filter (fun value => !removeMatches item compare value),
      enumerators.map fun e => (e.1.filtered (fun value => !removeMatches item compare value) values, e.2)⟩,
      .count (values.countP (removeMatches item compare)))
  | ⟨values, enumerators⟩, .findFirst matcher item =>
    let found :=
      if matcher.isNone && item.isNone then (false, item) else foundItem item (values.find? (findMatches matcher item))
    some (⟨values, enumerators⟩, .found found.1 found.2)
  | ⟨values, enumerators⟩, .createEnumerator =>
    some (⟨values, enumerators ++ [(Position.start values, .enumerateCurrent)]⟩, .enumerator enumerators.length)
  | ⟨values, enumerators⟩, .resetEnumerator index =>
    enumerators[index]?.map fun _ =>
      (⟨values, enumerators.set index (Position.start values, .enumerateCurrent)⟩, .nothing)
  | ⟨values, enumerators⟩, .enumerate index => do
    let enumerator ← enumerators[index]?
    let (enumerator, item) ← specVenumerate values enumerator
    some (⟨values, enumerators.set index enumerator⟩, .enumerated item)
  | ⟨values, enumerators⟩, .insertBefore index item => do
    let enumerator ← enumerators[index]?
    match enumerator.1 with
    | .on i => some (⟨values.insertIdx i item, enumerators.map fun e => (e.1.insertedAt i, e.2)⟩, .nothing)
    | .done => some (⟨values ++ [item], enumerators⟩, .nothing)
    | .dangling => none
  | ⟨values, enumerators⟩, .removeAt index => do
    let enumerator ← enumerators[index]?
    match enumerator.1 with
    | .on i =>
      some (⟨values.eraseIdx i, (enumerators.map fun e => (e.1.erasedAt i, e.2)).set index
        (if i + 1 < values.length then .on i else .done, .enumerateCurrent)⟩, .nothing)
    | .done => some (⟨values, enumerators⟩, .nothing)
    | .dangling => none

/-! ## The relation -/

/-- Where an enumerator's `current` stands among the list's addresses; a dangling one points
to an address that was allocated once and is not in the list. -/
def Points (addresses : List Nat) (fresh : Nat) (current : Option Nat) : Position → Prop
  | .on i => ∃ address, addresses[i]? = some address ∧ current = some address
  | .done => current = none
  | .dangling => ∃ address, current = some address ∧ address ∉ addresses ∧ address < fresh

/-- An enumerator of the code, and the position and method it stands for. -/
def EnumeratorAt (addresses : List Nat) (fresh : Nat) (enumerator : Enumerator) (spec : Position × Venumerate) :
    Prop :=
  Points addresses fresh enumerator.current spec.1 ∧ enumerator.venumerate = spec.2

/-- A list with its enumerators, and the list side they stand for. -/
def Represents (state : LinkedListT α × List Enumerator) (spec : ListSpec α) : Prop :=
  ∃ addresses, Holds state.1 addresses spec.values ∧
    List.Forall₂ (EnumeratorAt addresses state.1.fresh) state.2 spec.enumerators

/-! ## Lists -/

section Lists

variable {β γ : Type}

theorem forall₂_getElem? {related : β → γ → Prop} :
    ∀ {first : List β} {second : List γ}, List.Forall₂ related first second →
      ∀ i : Nat, Option.Rel related first[i]? second[i]?
  | [], [], .nil, _ => .none
  | _ :: _, _ :: _, .cons head _, 0 => .some head
  | _ :: _, _ :: _, .cons _ tail, i + 1 => forall₂_getElem? tail i

theorem forall₂_set {related : β → γ → Prop} {a : β} {b : γ} (pair : related a b) :
    ∀ {first : List β} {second : List γ}, List.Forall₂ related first second →
      ∀ i : Nat, List.Forall₂ related (first.set i a) (second.set i b)
  | [], [], .nil, _ => .nil
  | _ :: _, _ :: _, .cons _ tail, 0 => .cons pair tail
  | _ :: _, _ :: _, .cons head tail, i + 1 => .cons head (forall₂_set pair tail i)

/-- Looking up the same index on two related lists finds nothing on both or related elements. -/
theorem forall₂_getElem?_cases {related : β → γ → Prop} {first : List β} {second : List γ}
    (both : List.Forall₂ related first second) (i : Nat) :
    (first[i]? = none ∧ second[i]? = none) ∨ ∃ a b, first[i]? = some a ∧ second[i]? = some b ∧ related a b :=
  match first[i]?, second[i]?, forall₂_getElem? both i with
  | none, none, .none => .inl ⟨rfl, rfl⟩
  | some a, some b, .some pair => .inr ⟨a, b, rfl, rfl, pair⟩

theorem set_of_getElem? {list : List β} {i : Nat} {a : β} (found : list[i]? = some a) : list.set i a = list := by
  obtain ⟨inside, rfl⟩ := List.getElem?_eq_some_iff.mp found
  exact List.set_getElem_self inside

theorem insertIdx_middle (front back : List β) (x : β) : (front ++ back).insertIdx front.length x = front ++ x :: back := by
  induction front with
  | nil => exact List.insertIdx_zero
  | cons a front inductionHypothesis => rw [List.cons_append, List.length_cons, List.insertIdx_succ_cons,
      inductionHypothesis, List.cons_append]

theorem eraseIdx_middle (front back : List β) (x : β) : (front ++ x :: back).eraseIdx front.length = front ++ back := by
  rw [List.eraseIdx_append_of_length_le (Nat.le_refl _), Nat.sub_self, List.eraseIdx_zero, List.tail_cons]

end Lists

/-! ## How the calls move the positions -/

section Points

variable {addresses : List Nat} {fresh : Nat} {current : Option Nat}

/-- A cell allocated at `fresh` and linked in at `index`. -/
theorem points_insertedAt {index : Nat} (within : index ≤ addresses.length) :
    ∀ position, Points addresses fresh current position →
      Points (addresses.insertIdx index fresh) (fresh + 1) current (position.insertedAt index)
  | .on i, ⟨address, found, standing⟩ => by
    by_cases after : index ≤ i
    · rw [Position.insertedAt, if_pos after]
      exact ⟨address, by rw [List.getElem?_insertIdx_of_gt (by omega), Nat.add_sub_cancel, found], standing⟩
    · rw [Position.insertedAt, if_neg after]
      exact ⟨address, by rw [List.getElem?_insertIdx_of_lt (by omega), found], standing⟩
  | .done, points => points
  | .dangling, ⟨address, standing, outside, below⟩ =>
    ⟨address, standing, fun inside => ((List.mem_insertIdx within).mp inside).elim (fun same => by omega) outside,
      Nat.lt_succ_of_lt below⟩

/-- A cell allocated at `fresh` and linked in last: no position moves, not even one past the end. -/
theorem points_append :
    ∀ position, Points addresses fresh current position → Points (addresses ++ [fresh]) (fresh + 1) current position
  | .on i, ⟨address, found, standing⟩ =>
    ⟨address, by rw [List.getElem?_append_left (List.getElem?_eq_some_iff.mp found).1, found], standing⟩
  | .done, points => points
  | .dangling, ⟨address, standing, outside, below⟩ =>
    ⟨address, standing, fun inside => (List.mem_append.mp inside).elim outside fun last => by
      rw [List.mem_singleton] at last
      omega, Nat.lt_succ_of_lt below⟩

/-- The cell at `index` unlinked and freed. -/
theorem points_erasedAt (nodup : addresses.Nodup) (below : ∀ address ∈ addresses, address < fresh) (index : Nat) :
    ∀ position, Points addresses fresh current position →
      Points (addresses.eraseIdx index) fresh current (position.erasedAt index)
  | .on i, ⟨address, found, standing⟩ => by
    by_cases removed : i = index
    · -- the enumerator's own cell is freed under it
      subst removed
      rw [Position.erasedAt, if_pos rfl]
      obtain ⟨front, back, rfl, rfl⟩ := exists_middle_of_getElem? found
      rw [eraseIdx_middle]
      exact ⟨address, standing, (List.nodup_cons.mp (List.nodup_middle.mp nodup)).1,
        below address (List.mem_append_right _ List.mem_cons_self)⟩
    · rw [Position.erasedAt, if_neg removed]
      by_cases after : index < i
      · rw [if_pos after]
        exact ⟨address, by rw [List.getElem?_eraseIdx_of_ge (by omega), Nat.sub_add_cancel (by omega), found],
          standing⟩
      · rw [if_neg after]
        exact ⟨address, by rw [List.getElem?_eraseIdx_of_lt (by omega), found], standing⟩
  | .done, points => points
  | .dangling, ⟨address, standing, outside, before⟩ =>
    ⟨address, standing, fun inside => outside (List.mem_of_mem_eraseIdx inside), before⟩

theorem mem_of_mem_keptAddresses {keep : α → Bool} {values : List α} {address : Nat}
    (inside : address ∈ keptAddresses keep addresses values) : address ∈ addresses := by
  obtain ⟨cell, kept, rfl⟩ := List.mem_map.mp inside
  exact (List.of_mem_zip (List.mem_filter.mp kept).1).1

/-- A kept cell's address, among the kept ones, is at the count of the kept values before it. -/
theorem getElem?_keptAddresses (keep : α → Bool) :
    ∀ {addresses : List Nat} {values : List α} {i address : Nat} {value : α},
      addresses.length = values.length → addresses[i]? = some address → values[i]? = some value →
      keep value = true → (keptAddresses keep addresses values)[(values.take i).countP keep]? = some address
  | first :: addresses, head :: values, 0, _, _, _, found, foundValue, keeps => by
    obtain rfl := Option.some.inj found
    obtain rfl := Option.some.inj foundValue
    rw [keptAddresses_cons, if_pos keeps]
    rfl
  | first :: addresses, head :: values, i + 1, _, _, lengths, found, foundValue, keeps => by
    have rest := getElem?_keptAddresses keep (Nat.succ.inj lengths) found foundValue keeps
    rw [keptAddresses_cons, List.take_succ_cons, List.countP_cons]
    by_cases keepsHead : keep head = true
    · rw [if_pos keepsHead, if_pos keepsHead]
      exact rest
    · rw [if_neg keepsHead, if_neg keepsHead, Nat.add_zero]
      exact rest

/-- A removed cell's address is not among the kept ones. -/
theorem not_mem_keptAddresses (keep : α → Bool) :
    ∀ {addresses : List Nat} {values : List α} {i address : Nat} {value : α}, addresses.Nodup →
      addresses[i]? = some address → values[i]? = some value → keep value = false →
      address ∉ keptAddresses keep addresses values
  | first :: addresses, head :: values, 0, _, _, nodup, found, foundValue, rejects => by
    obtain rfl := Option.some.inj found
    obtain rfl := Option.some.inj foundValue
    rw [keptAddresses_cons, if_neg (by rw [rejects]; exact Bool.false_ne_true)]
    exact fun inside => (List.nodup_cons.mp nodup).1 (mem_of_mem_keptAddresses inside)
  | first :: addresses, head :: values, i + 1, address, _, nodup, found, foundValue, rejects => by
    have rest := not_mem_keptAddresses keep (List.nodup_cons.mp nodup).2 found foundValue rejects
    have other : address ≠ first := fun same =>
      (List.nodup_cons.mp nodup).1 (same ▸ List.mem_of_getElem? found)
    rw [keptAddresses_cons]
    split
    · exact fun inside => (List.mem_cons.mp inside).elim other rest
    · exact rest

/-- The cells `keep` rejects unlinked and freed. -/
theorem points_filtered (keep : α → Bool) {values : List α} (lengths : addresses.length = values.length)
    (nodup : addresses.Nodup) (below : ∀ address ∈ addresses, address < fresh) :
    ∀ position, Points addresses fresh current position →
      Points (keptAddresses keep addresses values) fresh current (position.filtered keep values)
  | .on i, ⟨address, found, standing⟩ => by
    have inside : i < values.length := lengths ▸ (List.getElem?_eq_some_iff.mp found).1
    obtain ⟨value, foundValue⟩ : ∃ value, values[i]? = some value := ⟨values[i], List.getElem?_eq_getElem inside⟩
    rw [Position.filtered, foundValue, Option.all_some]
    by_cases keeps : keep value = true
    · rw [if_pos keeps]
      exact ⟨address, getElem?_keptAddresses keep lengths found foundValue keeps, standing⟩
    · rw [if_neg keeps]
      exact ⟨address, standing, not_mem_keptAddresses keep nodup found foundValue (by simpa using keeps),
        below address (List.mem_of_getElem? found)⟩
  | .done, points => points
  | .dangling, ⟨address, standing, outside, before⟩ =>
    ⟨address, standing, fun inside => outside (mem_of_mem_keptAddresses inside), before⟩

/-- `create_enumerator` and `reset_enumerator` start at `first`. -/
theorem points_start {values : List α} (lengths : addresses.length = values.length) :
    Points addresses fresh addresses.head? (Position.start values) := by
  cases addresses with
  | nil =>
    obtain rfl := List.eq_nil_of_length_eq_zero lengths.symm
    rfl
  | cons first rest =>
    obtain ⟨value, values, rfl⟩ := List.exists_cons_of_length_eq_add_one lengths.symm
    exact ⟨first, rfl, rfl⟩

/-- A call that moves every position by `move` and no enumerator of the code. -/
theorem forall₂_moved {addresses' : List Nat} {fresh' : Nat} {move : Position → Position}
    (moves : ∀ {current : Option Nat} (position : Position), Points addresses fresh current position →
      Points addresses' fresh' current (move position))
    {enumerators : List Enumerator} {positions : List (Position × Venumerate)}
    (related : List.Forall₂ (EnumeratorAt addresses fresh) enumerators positions) :
    List.Forall₂ (EnumeratorAt addresses' fresh') enumerators (positions.map fun e => (move e.1, e.2)) :=
  List.forall₂_map_right_iff.mpr (related.imp fun _ _ pair => ⟨moves _ pair.1, pair.2⟩)

/-- Once the value at `i` is removed, the cell that followed it stands at `i`, or there is
none and the enumerator is past the end. -/
theorem points_removedAt {front back : List Nat} {frontValues backValues : List α} {value : α} {i : Nat}
    (fresh : Nat) (frontLength : front.length = i) (valuesLength : frontValues.length = i)
    (lengths : back.length = backValues.length) :
    Points (front ++ back) fresh back.head? (if i + 1 < (frontValues ++ value :: backValues).length then .on i else .done) := by
  cases back with
  | nil =>
    obtain rfl := List.eq_nil_of_length_eq_zero lengths.symm
    rw [if_neg (by simp [valuesLength])]
    rfl
  | cons next rest =>
    rw [if_pos (by simp only [List.length_append, List.length_cons] at lengths ⊢; omega)]
    exact ⟨next, by rw [← frontLength, getElem?_middle], rfl⟩

end Points

/-! ## One call -/

section Calls

variable {list : LinkedListT α} {addresses : List Nat} {values : List α}

/-- `venumerate` answers as on the list side, and fails on a freed element. -/
theorem venumerate_refines (holds : Holds list addresses values) :
    ∀ (enumerator : Enumerator) (position : Position × Venumerate), EnumeratorAt addresses list.fresh enumerator position →
      Option.Rel (fun next nextSpec => next.2 = nextSpec.2 ∧ EnumeratorAt addresses list.fresh next.1 nextSpec.1)
        (venumerate list enumerator) (specVenumerate values position)
  | ⟨_, .enumerateCurrent⟩, (.on i, _), ⟨⟨address, found, rfl⟩, rfl⟩ => by
    have current : (⟨some address, .enumerateCurrent⟩ : Enumerator).current = addresses[i]? := found.symm
    rw [venumerate, enumerateCurrent_holds holds current]
    exact .some ⟨rfl, ⟨address, found, rfl⟩, rfl⟩
  | ⟨_, .enumerateNext⟩, (.on i, _), ⟨⟨address, found, rfl⟩, rfl⟩ => by
    rw [venumerate, enumerateNext_holds holds found]
    refine .some ⟨rfl, ?_, rfl⟩
    show Points addresses list.fresh addresses[i + 1]? (if i + 1 < values.length then .on (i + 1) else .done)
    by_cases more : i + 1 < values.length
    · rw [if_pos more, List.getElem?_eq_getElem (holds.length_eq ▸ more)]
      exact ⟨_, List.getElem?_eq_getElem _, rfl⟩
    · rw [if_neg more]
      exact List.getElem?_eq_none (by rw [holds.length_eq]; omega)
  | ⟨_, .enumerateCurrent⟩, (.done, _), ⟨rfl, rfl⟩ => .some ⟨rfl, rfl, rfl⟩
  | ⟨_, .enumerateNext⟩, (.done, _), ⟨rfl, rfl⟩ => .some ⟨rfl, rfl, rfl⟩
  | ⟨_, venumerate'⟩, (.dangling, _), ⟨⟨address, rfl, outside, _⟩, rfl⟩ => by
    rw [venumerate_of_not_mem holds outside]
    exact .none

/-- A new or reset enumerator stands where the list side's `start` does. -/
theorem Holds.points_first (holds : Holds list addresses values) :
    Points addresses list.fresh list.first (Position.start values) := by
  rw [holds.first_eq]
  exact points_start holds.length_eq

variable {enumerators : List Enumerator} {positions : List (Position × Venumerate)}

/-- `insert_first` puts the value in front and moves every position up. -/
theorem insertFirst_refines (holds : Holds list addresses values)
    (related : List.Forall₂ (EnumeratorAt addresses list.fresh) enumerators positions) (item : α) :
    ∃ inserted, insertFirst list item = some inserted ∧
      Represents (inserted, enumerators) ⟨item :: values, positions.map fun e => (e.1.insertedAt 0, e.2)⟩ := by
  obtain ⟨inserted, inserts, insertedHolds, fresh⟩ := insertFirst_holds holds item
  refine ⟨inserted, inserts, list.fresh :: addresses, insertedHolds, ?_⟩
  rw [fresh, ← List.insertIdx_zero]
  exact forall₂_moved (points_insertedAt (Nat.zero_le _)) related

/-- `insert_last` puts the value at the end and moves no position. -/
theorem insertLast_refines (holds : Holds list addresses values)
    (related : List.Forall₂ (EnumeratorAt addresses list.fresh) enumerators positions) (item : α) :
    ∃ inserted, insertLast list item = some inserted ∧ Represents (inserted, enumerators) ⟨values ++ [item], positions⟩ := by
  obtain ⟨inserted, inserts, insertedHolds, fresh⟩ := insertLast_holds holds item
  refine ⟨inserted, inserts, addresses ++ [list.fresh], insertedHolds, ?_⟩
  rw [fresh]
  exact related.imp fun _ position pair => ⟨points_append position.1 pair.1, pair.2⟩

/-- `remove_first` drops the first value; a position on it dangles. -/
theorem removeFirst_refines (holds : Holds list addresses values)
    (related : List.Forall₂ (EnumeratorAt addresses list.fresh) enumerators positions) :
    ∃ removed, removeFirst list = some (removed, values.head?) ∧
      Represents (removed, enumerators) ⟨values.tail, positions.map fun e => (e.1.erasedAt 0, e.2)⟩ := by
  obtain ⟨removed, removes, removedHolds, fresh⟩ := removeFirst_holds holds
  refine ⟨removed, removes, addresses.tail, removedHolds, ?_⟩
  rw [fresh, ← List.eraseIdx_zero]
  exact forall₂_moved (points_erasedAt holds.nodup holds.below_fresh 0) related

/-- `remove_last` drops the last value; a position on it dangles. -/
theorem removeLast_refines (holds : Holds list addresses values)
    (related : List.Forall₂ (EnumeratorAt addresses list.fresh) enumerators positions) :
    ∃ removed, removeLast list = some (removed, values.getLast?) ∧
      Represents (removed, enumerators)
        ⟨values.dropLast, positions.map fun e => (e.1.erasedAt (values.length - 1), e.2)⟩ := by
  obtain ⟨removed, removes, removedHolds, fresh⟩ := removeLast_holds holds
  refine ⟨removed, removes, addresses.dropLast, removedHolds, ?_⟩
  rw [fresh, ← List.eraseIdx_length_sub_one, holds.length_eq]
  exact forall₂_moved (points_erasedAt holds.nodup holds.below_fresh _) related

/-- `remove` keeps the values that do not match; positions on removed ones dangle. -/
theorem remove_refines [DecidableEq α] (holds : Holds list addresses values)
    (related : List.Forall₂ (EnumeratorAt addresses list.fresh) enumerators positions) (item : α)
    (compare : Option (α → α → Bool)) :
    ∃ removed, remove list item compare = some (removed, values.countP (removeMatches item compare)) ∧
      Represents (removed, enumerators) ⟨values.filter (fun value => !removeMatches item compare value),
        positions.map fun e => (e.1.filtered (fun value => !removeMatches item compare value) values, e.2)⟩ := by
  obtain ⟨removed, removes, removedHolds, fresh⟩ := remove_holds holds item compare
  refine ⟨removed, removes, _, removedHolds, ?_⟩
  rw [fresh]
  exact forall₂_moved (points_filtered _ holds.length_eq holds.nodup holds.below_fresh) related

/-- `insert_before` through an enumerator on the `i`-th value inserts at `i`. -/
theorem insertBefore_refines (holds : Holds list addresses values)
    (related : List.Forall₂ (EnumeratorAt addresses list.fresh) enumerators positions) {i address : Nat}
    (found : addresses[i]? = some address) (venumerate : Venumerate) (item : α) :
    ∃ inserted, insertBefore list ⟨some address, venumerate⟩ item = some inserted ∧
      Represents (inserted, enumerators) ⟨values.insertIdx i item, positions.map fun e => (e.1.insertedAt i, e.2)⟩ := by
  obtain ⟨front, back, frontValues, value, backValues, rfl, rfl, frontLength, valuesLength⟩ := holds.split found
  obtain ⟨inserted, inserts, insertedHolds, fresh⟩ :=
    insertBefore_holds holds (frontLength.trans valuesLength.symm) venumerate item
  have addressesEq : (front ++ address :: back).insertIdx i list.fresh = front ++ list.fresh :: address :: back := by
    rw [← frontLength, insertIdx_middle]
  have valuesEq : (frontValues ++ value :: backValues).insertIdx i item = frontValues ++ item :: value :: backValues := by
    rw [← valuesLength, insertIdx_middle]
  refine ⟨inserted, inserts, (front ++ address :: back).insertIdx i list.fresh,
    by rw [addressesEq, valuesEq]; exact insertedHolds, ?_⟩
  rw [fresh]
  exact forall₂_moved (points_insertedAt (by rw [List.length_append]; omega)) related

/-- `remove_at` through the enumerator at `index`, on the `i`-th value, erases it; that
enumerator moves on to the value after it. -/
theorem removeAt_refines (holds : Holds list addresses values)
    (related : List.Forall₂ (EnumeratorAt addresses list.fresh) enumerators positions) {i address : Nat}
    (found : addresses[i]? = some address) (venumerate : Venumerate) (index : Nat) :
    ∃ removed enumerator, removeAt list ⟨some address, venumerate⟩ = some (removed, enumerator) ∧
      Represents (removed, enumerators.set index enumerator) ⟨values.eraseIdx i,
        (positions.map fun e => (e.1.erasedAt i, e.2)).set index
          (if i + 1 < values.length then .on i else .done, .enumerateCurrent)⟩ := by
  obtain ⟨front, back, frontValues, value, backValues, rfl, rfl, frontLength, valuesLength⟩ := holds.split found
  obtain ⟨removed, removes, removedHolds, fresh⟩ :=
    removeAt_holds holds (frontLength.trans valuesLength.symm) venumerate
  have addressesEq : (front ++ address :: back).eraseIdx i = front ++ back := by rw [← frontLength, eraseIdx_middle]
  have valuesEq : (frontValues ++ value :: backValues).eraseIdx i = frontValues ++ backValues := by
    rw [← valuesLength, eraseIdx_middle]
  have lengths : back.length = backValues.length := by
    have total := holds.length_eq
    simp only [List.length_append, List.length_cons] at total
    omega
  refine ⟨removed, _, removes, (front ++ address :: back).eraseIdx i,
    by rw [addressesEq, valuesEq]; exact removedHolds, ?_⟩
  rw [fresh]
  refine forall₂_set ⟨?_, rfl⟩ (forall₂_moved (points_erasedAt holds.nodup holds.below_fresh i) related) index
  show Points ((front ++ address :: back).eraseIdx i) list.fresh back.head?
    (if i + 1 < (frontValues ++ value :: backValues).length then .on i else .done)
  rw [addressesEq]
  exact points_removedAt list.fresh frontLength valuesLength lengths

/-- One call answers as on the list side, and fails where it does. -/
theorem step_refines [DecidableEq α] {state : LinkedListT α × List Enumerator} {spec : ListSpec α}
    (represents : Represents state spec) (call : ListCall α) :
    Option.Rel (fun next nextSpec => next.2 = nextSpec.2 ∧ Represents next.1 nextSpec.1)
      (step state call) (specStep spec call) := by
  obtain ⟨list, enumerators⟩ := state
  obtain ⟨values, positions⟩ := spec
  obtain ⟨addresses, holds, related⟩ : ∃ addresses, Holds list addresses values ∧
      List.Forall₂ (EnumeratorAt addresses list.fresh) enumerators positions := represents
  cases call with
  | insertFirst item =>
    obtain ⟨inserted, inserts, represents⟩ := insertFirst_refines holds related item
    rw [step, inserts, Option.map_some]
    exact .some ⟨rfl, represents⟩
  | insertLast item =>
    obtain ⟨inserted, inserts, represents⟩ := insertLast_refines holds related item
    rw [step, inserts, Option.map_some]
    exact .some ⟨rfl, represents⟩
  | getFirst =>
    rw [step, getFirst_holds holds, Option.map_some]
    exact .some ⟨rfl, addresses, holds, related⟩
  | removeFirst =>
    obtain ⟨removed, removes, represents⟩ := removeFirst_refines holds related
    rw [step, removes, Option.map_some]
    exact .some ⟨rfl, represents⟩
  | getLast =>
    rw [step, getLast_holds holds, Option.map_some]
    exact .some ⟨rfl, addresses, holds, related⟩
  | removeLast =>
    obtain ⟨removed, removes, represents⟩ := removeLast_refines holds related
    rw [step, removes, Option.map_some]
    exact .some ⟨rfl, represents⟩
  | getCount =>
    exact .some ⟨congrArg Reply.count (holds.count_eq.trans holds.length_eq), addresses, holds, related⟩
  | remove item compare =>
    obtain ⟨removed, removes, represents⟩ := remove_refines holds related item compare
    rw [step, removes, Option.map_some]
    exact .some ⟨rfl, represents⟩
  | findFirst matcher item =>
    rw [step, findFirst_holds holds, Option.map_some]
    exact .some ⟨rfl, addresses, holds, related⟩
  | createEnumerator =>
    exact .some ⟨congrArg Reply.enumerator related.length_eq, addresses, holds,
      List.rel_append related (.cons ⟨holds.points_first, rfl⟩ .nil)⟩
  | resetEnumerator index =>
    rcases forall₂_getElem?_cases related index with ⟨missing, missingSpec⟩ | ⟨enumerator, position, found, foundSpec, -⟩
    · simp only [step, specStep, missing, missingSpec, Option.map_none]
      exact .none
    · simp only [step, specStep, found, foundSpec, Option.map_some]
      exact .some ⟨rfl, addresses, holds, forall₂_set ⟨holds.points_first, rfl⟩ related index⟩
  | enumerate index =>
    rcases forall₂_getElem?_cases related index with ⟨missing, missingSpec⟩ | ⟨enumerator, position, found, foundSpec, pair⟩
    · simp only [step, specStep, missing, missingSpec, Option.bind_eq_bind, Option.bind_none]
      exact .none
    · simp only [step, specStep, found, foundSpec, Option.bind_eq_bind, Option.bind_some]
      refine optionRel_bind (venumerate_refines holds enumerator position pair) fun next nextSpec nextPair => ?_
      obtain ⟨⟨enumerator', item⟩, ⟨position', item'⟩⟩ := (next, nextSpec)
      exact .some ⟨congrArg Reply.enumerated nextPair.1, addresses, holds, forall₂_set nextPair.2 related index⟩
  | insertBefore index item =>
    rcases forall₂_getElem?_cases related index with
      ⟨missing, missingSpec⟩ | ⟨⟨current, venumerate⟩, ⟨position, venumerate'⟩, found, foundSpec, points, -⟩
    · simp only [step, specStep, missing, missingSpec, Option.bind_eq_bind, Option.bind_none]
      exact .none
    simp only [step, specStep, found, foundSpec, Option.bind_eq_bind, Option.bind_some]
    cases position with
    | on i =>
      obtain ⟨address, foundAddress, rfl⟩ := points
      obtain ⟨inserted, inserts, represents⟩ := insertBefore_refines holds related foundAddress venumerate item
      rw [inserts, Option.bind_some]
      exact .some ⟨rfl, represents⟩
    | done =>
      -- a `NULL` `current`: `insert_last`
      obtain rfl : current = none := points
      obtain ⟨inserted, inserts, represents⟩ := insertLast_refines holds related item
      have last : insertBefore list ⟨none, venumerate⟩ item = insertLast list item := rfl
      rw [last, inserts, Option.bind_some]
      exact .some ⟨rfl, represents⟩
    | dangling =>
      obtain ⟨address, rfl, outside, below⟩ := points
      rw [insertBefore_of_not_mem holds outside below, Option.bind_none]
      exact .none
  | removeAt index =>
    rcases forall₂_getElem?_cases related index with
      ⟨missing, missingSpec⟩ | ⟨⟨current, venumerate⟩, ⟨position, venumerate'⟩, found, foundSpec, points, -⟩
    · simp only [step, specStep, missing, missingSpec, Option.bind_eq_bind, Option.bind_none]
      exact .none
    simp only [step, specStep, found, foundSpec, Option.bind_eq_bind, Option.bind_some]
    cases position with
    | on i =>
      obtain ⟨address, foundAddress, rfl⟩ := points
      obtain ⟨removed, enumerator, removes, represents⟩ :=
        removeAt_refines holds related foundAddress venumerate index
      rw [removes, Option.bind_some]
      exact .some ⟨rfl, represents⟩
    | done =>
      -- a `NULL` `current`: nothing happens
      obtain rfl : current = none := points
      have nothing : removeAt list ⟨none, venumerate⟩ = some (list, ⟨none, venumerate⟩) := rfl
      rw [nothing, Option.bind_some]
      refine .some ⟨rfl, addresses, holds, ?_⟩
      rw [set_of_getElem? found]
      exact related
    | dangling =>
      obtain ⟨address, rfl, outside, -⟩ := points
      rw [removeAt_of_not_mem holds outside, Option.bind_none]
      exact .none

end Calls

/-! ## Runs -/

/-- Every run of calls on a list from `linked_list_create` answers as the same calls on the
list side: both fail at the same call, one through a dangling enumerator or through one never
created, or both succeed with the same replies, the list's cells holding the list side's
values, first to last, and each enumerator standing where the list side's does. -/
theorem linkedList_refines [DecidableEq α] (calls : List (ListCall α)) :
    Option.Rel (fun final finalSpec => final.2 = finalSpec.2 ∧ Represents final.1 finalSpec.1)
      (runPartial step (linkedListCreate, []) calls) (runPartial specStep ⟨[], []⟩ calls) :=
  simulation_runPartial step specStep Represents (fun _ _ call represents => step_refines represents call)
    ⟨[], holds_linkedListCreate, .nil⟩ calls

example : (runPartial step ((linkedListCreate : LinkedListT Nat), []) [.insertLast 1, .insertLast 2,
    .createEnumerator, .enumerate 0, .removeFirst, .enumerate 0]) = none := by
  decide

/-- Every run of calls from `linked_list_create` that does not fail leaves the list doubly
linked. -/
theorem linkedList_doublyLinked [DecidableEq α] (calls : List (ListCall α)) {final : (LinkedListT α × List Enumerator) × List (Reply α)}
    (ran : runPartial step (linkedListCreate, []) calls = some final) : ∃ addresses, DoublyLinked final.1.1 addresses := by
  have created : Represents ((linkedListCreate : LinkedListT α), ([] : List Enumerator)) ⟨[], []⟩ :=
    ⟨[], holds_linkedListCreate, .nil⟩
  have related := simulation_runPartial step specStep Represents
    (fun _ _ call represents => step_refines represents call) created calls
  rw [ran] at related
  match runPartial specStep ⟨[], []⟩ calls, related with
  | some _, .some ⟨_, addresses, holds, _⟩ => exact ⟨addresses, holds.doublyLinked⟩

theorem linkedList_doublyLinked_insert :
    ∃ final, runPartial step ((linkedListCreate : LinkedListT Nat), []) [.insertLast 1, .insertFirst 0] = some final ∧
      ∃ addresses, DoublyLinked final.1.1 addresses :=
  ⟨_, rfl, linkedList_doublyLinked [.insertLast 1, .insertFirst 0] rfl⟩

end StrongSwan.Libstrongswan.Collections.LinkedList
