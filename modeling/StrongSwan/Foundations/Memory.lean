import Mathlib

/-!
A block of memory as a list of slots, with the three C library calls that move slots around in
it: `memmove`, `realloc` and a store of one slot.

`memmove` copies from a snapshot of the source, so overlapping ranges behave as if copied
through a buffer; it is partial, `none`, when either range leaves the block. `realloc` keeps the
first slots and leaves new ones uninitialised (`none`).

A block that keeps a window of live slots between unused ones is described by `Holds`. The
lemmas here are the moves a container makes on such a block: open a slot inside the window by
shifting its tail up into the unused back or its front down into the unused front, close a slot
the same two ways, grow the unused back or front by one slot, and move the window to the start
of the block and cut the block after it. Opening the slot after the whole window by moving it
down leaves a copy of the window's last slot in the opened one (`Holds.shift_down_end`), which is
what a pointer into the old window then reads.

Owns: `memmove`, `realloc`, `store`, `Holds` and one lemma per move.
-/

namespace StrongSwan.Foundations.Memory

variable {β α : Type}

/-- Copy `n` slots from `src` to `dst`, reading the source before anything is written. -/
def memmove (block : List β) (dst src n : Nat) : Option (List β) :=
  if src + n ≤ block.length ∧ dst + n ≤ block.length then
    some (block.take dst ++ (block.drop src).take n ++ block.drop (dst + n))
  else none

/-- Resize a block to `size` slots; slots past the old end are uninitialised. -/
def realloc (block : List (Option α)) (size : Nat) : List (Option α) :=
  block.take size ++ List.replicate (size - block.length) none

/-- Write one slot. -/
def store (block : List β) (pos : Nat) (value : β) : Option (List β) :=
  if pos < block.length then some (block.set pos value) else none

theorem memmove_def (block : List β) (dst src n : Nat) :
    memmove block dst src n =
      if src + n ≤ block.length ∧ dst + n ≤ block.length then
        some (block.take dst ++ (block.drop src).take n ++ block.drop (dst + n))
      else none := rfl

theorem realloc_def (block : List (Option α)) (size : Nat) :
    realloc block size = block.take size ++ List.replicate (size - block.length) none := rfl

theorem store_def (block : List β) (pos : Nat) (value : β) :
    store block pos value = if pos < block.length then some (block.set pos value) else none := rfl

/-- Inserting into a list is cutting it at the index. -/
theorem insertIdx_eq_take_cons_drop (x : β) :
    ∀ {slots : List β} {i : Nat}, i ≤ slots.length → slots.insertIdx i x = slots.take i ++ x :: slots.drop i
  | _, 0, _ => by rw [List.insertIdx_zero, List.take_zero, List.drop_zero, List.nil_append]
  | [], _ + 1, le => absurd le (by simp)
  | slot :: rest, i + 1, le => by
    rw [List.insertIdx_succ_cons, insertIdx_eq_take_cons_drop x (by simpa using le)]
    rfl

/-! ## Three moves of `memmove` -/

/-- Moving `middle` up by one slot: the slot it leaves keeps its first element. -/
theorem memmove_shift_up (front middle back : List β) (next : β) :
    memmove (front ++ middle ++ next :: back) (front.length + 1) front.length middle.length =
      some (front ++ middle.headD next :: (middle ++ back)) := by
  have fits : front.length + middle.length ≤ (front ++ middle ++ next :: back).length ∧
      front.length + 1 + middle.length ≤ (front ++ middle ++ next :: back).length := by
    simp only [List.length_append, List.length_cons]
    omega
  have opened : (front ++ middle ++ next :: back).take (front.length + 1) = front ++ [middle.headD next] := by
    rw [List.append_assoc, List.take_append, List.take_of_length_le (by omega), Nat.add_sub_cancel_left]
    cases middle <;> rfl
  have moved : ((front ++ middle ++ next :: back).drop front.length).take middle.length = middle := by
    simp
  have rest : (front ++ middle ++ next :: back).drop (front.length + 1 + middle.length) = back := by
    rw [List.append_assoc, List.drop_append, List.drop_append]
    simp only [List.drop_eq_nil_of_le (show front.length ≤ front.length + 1 + middle.length by omega)]
    rw [show front.length + 1 + middle.length - front.length - middle.length = 1 by omega]
    simp only [List.nil_append, List.drop_one, List.tail_cons]
    rw [List.drop_eq_nil_of_le (by omega), List.nil_append]
  rw [memmove_def, if_pos fits, opened, moved, rest]
  simp

/-- What is left one slot past the end of a list after dropping as many slots as it holds,
behind a first one. -/
theorem drop_length_cons_append (first : β) :
    ∀ (middle back : List β), (first :: (middle ++ back)).drop middle.length = middle.getLastD first :: back
  | [], _ => rfl
  | slot :: rest, back => by
    rw [List.length_cons, List.cons_append, List.drop_succ_cons, drop_length_cons_append slot rest back,
      List.getLastD_cons]

/-- Moving `middle` down by one slot: the slot it leaves keeps its last element. -/
theorem memmove_shift_down (front middle back : List β) (previous : β) :
    memmove (front ++ previous :: (middle ++ back)) front.length (front.length + 1) middle.length =
      some (front ++ middle ++ middle.getLastD previous :: back) := by
  have fits : front.length + 1 + middle.length ≤ (front ++ previous :: (middle ++ back)).length ∧
      front.length + middle.length ≤ (front ++ previous :: (middle ++ back)).length := by
    simp only [List.length_append, List.length_cons]
    omega
  have moved : ((front ++ previous :: (middle ++ back)).drop (front.length + 1)).take middle.length = middle := by
    rw [List.drop_append, List.drop_eq_nil_of_le (by omega), List.nil_append,
      show front.length + 1 - front.length = 1 by omega]
    simp
  have rest : (front ++ previous :: (middle ++ back)).drop (front.length + middle.length) =
      middle.getLastD previous :: back := by
    rw [List.drop_append, List.drop_eq_nil_of_le (by omega), List.nil_append,
      show front.length + middle.length - front.length = middle.length by omega, drop_length_cons_append]
  rw [memmove_def, if_pos fits, List.take_left, moved, rest, List.append_assoc]

/-- Moving what follows `front` to the start of the block. -/
theorem memmove_to_start (front rest : List β) :
    memmove (front ++ rest) 0 front.length rest.length = some (rest ++ (front ++ rest).drop rest.length) := by
  have fits : front.length + rest.length ≤ (front ++ rest).length ∧ 0 + rest.length ≤ (front ++ rest).length := by
    simp only [List.length_append]
    omega
  rw [memmove_def, if_pos fits, List.take_zero, List.drop_left, List.take_length, List.nil_append, Nat.zero_add]

/-! ## A window of live slots -/

/-- `block` holds `window` after `front` unused slots and before `back` unused ones. -/
def Holds (block : List β) (front : Nat) (window : List β) (back : Nat) : Prop :=
  ∃ before after, block = before ++ window ++ after ∧ before.length = front ∧ after.length = back

theorem holds_self (window : List β) : Holds window 0 window 0 :=
  ⟨[], [], by rw [List.nil_append, List.append_nil], rfl, rfl⟩

theorem Holds.length_eq {block window : List β} {front back : Nat} (holds : Holds block front window back) :
    block.length = front + window.length + back := by
  obtain ⟨before, after, rfl, rfl, rfl⟩ := holds
  simp only [List.length_append]

theorem Holds.getElem?_eq {block window : List β} {front back : Nat} (holds : Holds block front window back)
    (i : Nat) (inside : i < window.length) : block[front + i]? = window[i]? := by
  obtain ⟨before, after, rfl, rfl, rfl⟩ := holds
  rw [List.append_assoc, List.getElem?_append_right (by omega), Nat.add_sub_cancel_left,
    List.getElem?_append_left inside]

theorem Holds.eq_window {block window : List β} (holds : Holds block 0 window 0) : block = window := by
  obtain ⟨before, after, rfl, empty, emptyAfter⟩ := holds
  rw [List.length_eq_zero_iff.mp empty, List.length_eq_zero_iff.mp emptyAfter, List.nil_append, List.append_nil]

/-- Writing a slot of the window. -/
theorem Holds.store {block : List β} {front back : Nat} {before after : List β} {old : β}
    (holds : Holds block front (before ++ old :: after) back) (new : β) :
    ∃ stored, store block (front + before.length) new = some stored ∧
      Holds stored front (before ++ new :: after) back := by
  obtain ⟨unusedFront, unusedBack, rfl, rfl, rfl⟩ := holds
  refine ⟨unusedFront ++ (before ++ new :: after) ++ unusedBack, ?_, unusedFront, unusedBack, rfl, rfl, rfl⟩
  rw [store_def, if_pos (by simp only [List.length_append, List.length_cons]; omega)]
  simp [List.set_append_right]

/-- Opening a slot at `i` by moving the window's slots from `i` on up into the back. -/
theorem Holds.shift_up {block window : List β} {front back : Nat} (holds : Holds block front window back)
    (room : 0 < back) {i : Nat} (le : i ≤ window.length) :
    ∃ hole moved, memmove block (front + i + 1) (front + i) (window.length - i) = some moved ∧
      Holds moved front (window.take i ++ hole :: window.drop i) (back - 1) := by
  obtain ⟨before, after, rfl, rfl, rfl⟩ := holds
  obtain ⟨next, rest, rfl⟩ := List.exists_cons_of_length_pos room
  have shifted := memmove_shift_up (before ++ window.take i) (window.drop i) rest next
  rw [List.append_assoc before, List.take_append_drop, List.length_append, List.length_take_of_le le,
    List.length_drop] at shifted
  refine ⟨(window.drop i).headD next, _, shifted, before, rest, ?_, rfl, rfl⟩
  simp

/-- Opening a slot at `i` by moving the window's first `i` slots down into the front. -/
theorem Holds.shift_down {block window : List β} {front back : Nat} (holds : Holds block front window back)
    (room : 0 < front) {i : Nat} (le : i ≤ window.length) :
    ∃ hole moved, memmove block (front - 1) front i = some moved ∧
      Holds moved (front - 1) (window.take i ++ hole :: window.drop i) back := by
  obtain ⟨before, after, rfl, rfl, rfl⟩ := holds
  obtain ⟨start, previous, rfl⟩ : ∃ start previous, before = start ++ [previous] :=
    ⟨before.dropLast, before.getLast (List.ne_nil_of_length_pos room), (List.dropLast_append_getLast _).symm⟩
  have shifted := memmove_shift_down start (window.take i) (window.drop i ++ after) previous
  rw [← List.append_assoc (window.take i), List.take_append_drop, List.length_take_of_le le] at shifted
  refine ⟨(window.take i).getLastD previous,
    start ++ window.take i ++ (window.take i).getLastD previous :: (window.drop i ++ after), ?_, start, after, ?_,
    by simp, rfl⟩
  · simpa using shifted
  · simp

/-- Opening the slot after the whole window by moving the window down into the front: the
opened slot still holds a copy of the window's last slot. -/
theorem Holds.shift_down_end {block window : List β} {front back : Nat} (holds : Holds block front window back)
    (room : 0 < front) (nonempty : window ≠ []) :
    ∃ moved, memmove block (front - 1) front window.length = some moved ∧
      Holds moved (front - 1) (window ++ [window.getLast nonempty]) back := by
  obtain ⟨before, after, rfl, rfl, rfl⟩ := holds
  obtain ⟨start, previous, rfl⟩ : ∃ start previous, before = start ++ [previous] :=
    ⟨before.dropLast, before.getLast (List.ne_nil_of_length_pos room), (List.dropLast_append_getLast _).symm⟩
  have shifted := memmove_shift_down start window after previous
  rw [List.getLastD_eq_getLast?, List.getLast?_eq_some_getLast nonempty, Option.getD_some] at shifted
  refine ⟨start ++ window ++ window.getLast nonempty :: after, ?_, start, after, by simp, by simp, rfl⟩
  simpa using shifted

/-- Closing the slot at `i` by moving the window's slots after it down; the back grows. -/
theorem Holds.close_down {block window : List β} {front back : Nat} (holds : Holds block front window back)
    {i : Nat} (inside : i < window.length) :
    ∃ moved, memmove block (i + front) (i + front + 1) (window.length - 1 - i) = some moved ∧
      Holds moved front (window.eraseIdx i) (back + 1) := by
  obtain ⟨before, after, rfl, rfl, rfl⟩ := holds
  obtain ⟨removed, rest, split⟩ : ∃ removed rest, window.drop i = removed :: rest :=
    List.exists_cons_of_length_pos (by simp; omega)
  have shifted := memmove_shift_down (before ++ window.take i) rest after removed
  have whole : window = window.take i ++ removed :: rest := by rw [← split, List.take_append_drop]
  have restLength : rest.length = window.length - 1 - i := by
    have := congrArg List.length split
    simp only [List.length_drop, List.length_cons] at this
    omega
  rw [List.length_append, List.length_take_of_le inside.le, List.append_assoc, ← List.cons_append,
    ← List.append_assoc (window.take i), ← whole, ← List.append_assoc, restLength] at shifted
  refine ⟨_, by rw [Nat.add_comm i]; exact shifted, before, rest.getLastD removed :: after, ?_, rfl, by simp⟩
  rw [List.eraseIdx_eq_take_drop_succ, List.drop_add_one_eq_tail_drop, split]
  simp

/-- Closing the slot at `i` by moving the window's first `i` slots up; the front grows. -/
theorem Holds.close_up {block window : List β} {front back : Nat} (holds : Holds block front window back)
    {i : Nat} (inside : i < window.length) :
    ∃ moved, memmove block (front + 1) front i = some moved ∧ Holds moved (front + 1) (window.eraseIdx i) back := by
  obtain ⟨before, after, rfl, rfl, rfl⟩ := holds
  obtain ⟨removed, rest, split⟩ : ∃ removed rest, window.drop i = removed :: rest :=
    List.exists_cons_of_length_pos (by simp; omega)
  have shifted := memmove_shift_up before (window.take i) (rest ++ after) removed
  have whole : window = window.take i ++ removed :: rest := by rw [← split, List.take_append_drop]
  rw [List.length_take_of_le inside.le, List.append_assoc before, ← List.cons_append,
    ← List.append_assoc (window.take i), ← whole, ← List.append_assoc] at shifted
  refine ⟨_, shifted, before ++ [(window.take i).headD removed], after, ?_, by simp, rfl⟩
  rw [List.eraseIdx_eq_take_drop_succ, List.drop_add_one_eq_tail_drop, split]
  simp

/-- Growing an empty back by one uninitialised slot. -/
theorem Holds.grow_back {block : List (Option α)} {window : List (Option α)} {front : Nat}
    (holds : Holds block front window 0) :
    realloc block (window.length + front + 1) = block ++ [none] ∧ Holds (block ++ [none]) front window 1 := by
  have length := holds.length_eq
  obtain ⟨before, after, rfl, rfl, empty⟩ := holds
  rw [List.length_eq_zero_iff.mp empty, List.append_nil]
  refine ⟨?_, before, [none], rfl, rfl, rfl⟩
  rw [realloc_def, List.take_of_length_le (by simp; omega)]
  simp only [List.length_append]
  rw [show window.length + before.length + 1 - (before.length + window.length) = 1 by omega]
  rfl

/-- Growing an empty front by one slot: the block grows at its end and everything moves up. -/
theorem Holds.grow_front {block : List (Option α)} {window : List (Option α)} {back : Nat}
    (holds : Holds block 0 window back) :
    ∃ moved, memmove (realloc block (window.length + back + 1)) 1 0 (window.length + back + 0) = some moved ∧
      Holds moved 1 window back := by
  have length := holds.length_eq
  have grown : realloc block (window.length + back + 1) = [] ++ block ++ none :: [] := by
    rw [realloc_def, List.take_of_length_le (by omega), length,
      show window.length + back + 1 - (0 + window.length + back) = 1 by omega]
    rfl
  have shifted := memmove_shift_up [] block [] none
  rw [← grown, List.length_nil, Nat.zero_add, length, Nat.zero_add] at shifted
  obtain ⟨before, after, rfl, empty, rfl⟩ := holds
  rw [List.length_eq_zero_iff.mp empty] at shifted ⊢
  refine ⟨_, shifted, [([] ++ window ++ after).headD none], after, ?_, rfl, rfl⟩
  simp

/-- Moving the window to the start of the block; its front joins its back. -/
theorem Holds.to_start {block window : List β} {front back : Nat} (holds : Holds block front window back) :
    ∃ moved, memmove block 0 front (window.length + back) = some moved ∧ Holds moved 0 window (back + front) := by
  have length := holds.length_eq
  obtain ⟨before, after, rfl, rfl, rfl⟩ := holds
  have moved := memmove_to_start before (window ++ after)
  rw [List.length_append, ← List.append_assoc] at moved
  refine ⟨_, moved, [], after ++ (before ++ window ++ after).drop (window.length + after.length), ?_, rfl, ?_⟩
  · simp
  · simp only [List.length_append, List.length_drop]
    omega

/-- Cutting the block after a window at its start. -/
theorem Holds.realloc_window {block window : List (Option α)} {back : Nat} (holds : Holds block 0 window back) :
    realloc block window.length = window := by
  obtain ⟨before, after, rfl, empty, rfl⟩ := holds
  rw [List.length_eq_zero_iff.mp empty, realloc_def, List.nil_append, List.take_left,
    Nat.sub_eq_zero_of_le (by simp), List.replicate_zero, List.append_nil]

end StrongSwan.Foundations.Memory
