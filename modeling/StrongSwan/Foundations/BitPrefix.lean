import Mathlib

/-!
The value of a string of bits, most significant first, and what its prefixes say about it.

Of `width` bits, the first `count` are the value divided by `2 ^ (width - count)`
(`bitsValue_take`) and the others the remainder (`bitsValue_drop`), which is zero for trailing
zeros and `2 ^ _ - 1` for trailing ones. Where two strings of one length first differ, after
their `commonPrefixLength` bits, the smaller has the zero (`bitsValue_lt_of_split`), and every
value between the two shares that prefix (`take_eq_of_between`).
-/

namespace StrongSwan.Foundations.BitPrefix

/-- The number the bits write, most significant first. -/
def bitsValue : List Bool → Nat
  | [] => 0
  | bit :: rest => bit.toNat * 2 ^ rest.length + bitsValue rest

/-- The length of the longest common prefix of two lists. -/
def commonPrefixLength {α : Type} [DecidableEq α] : List α → List α → Nat
  | first :: rest, other :: others => if first = other then commonPrefixLength rest others + 1 else 0
  | _, _ => 0

/-! ## Values -/

@[simp] theorem bitsValue_nil : bitsValue [] = 0 := rfl

@[simp] theorem bitsValue_cons (bit : Bool) (rest : List Bool) :
    bitsValue (bit :: rest) = bit.toNat * 2 ^ rest.length + bitsValue rest := rfl

theorem bitsValue_lt (bits : List Bool) : bitsValue bits < 2 ^ bits.length := by
  induction bits with
  | nil => decide
  | cons bit rest inductionHypothesis =>
    rw [bitsValue_cons, List.length_cons, Nat.pow_succ]
    cases bit <;> simp <;> omega

theorem bitsValue_append (first second : List Bool) :
    bitsValue (first ++ second) = bitsValue first * 2 ^ second.length + bitsValue second := by
  induction first with
  | nil => simp
  | cons bit rest inductionHypothesis =>
    rw [List.cons_append, bitsValue_cons, bitsValue_cons, inductionHypothesis, List.length_append,
      Nat.pow_add]
    ring

/-- The first `count` bits are the value without its low `width - count` bits. -/
theorem bitsValue_take (bits : List Bool) (count : Nat) :
    bitsValue (bits.take count) = bitsValue bits / 2 ^ (bits.length - count) := by
  have split := bitsValue_append (bits.take count) (bits.drop count)
  rw [List.take_append_drop, List.length_drop] at split
  have low := bitsValue_lt (bits.drop count)
  rw [List.length_drop] at low
  rw [split, Nat.mul_comm, Nat.mul_add_div (Nat.two_pow_pos _), Nat.div_eq_of_lt low, Nat.add_zero]

/-- The bits after the first `count` are the low `width - count` bits of the value. -/
theorem bitsValue_drop (bits : List Bool) (count : Nat) :
    bitsValue (bits.drop count) = bitsValue bits % 2 ^ (bits.length - count) := by
  have split := bitsValue_append (bits.take count) (bits.drop count)
  rw [List.take_append_drop, List.length_drop] at split
  have low := bitsValue_lt (bits.drop count)
  rw [List.length_drop] at low
  rw [split, Nat.mul_comm, Nat.mul_add_mod, Nat.mod_eq_of_lt low]

theorem bitsValue_eq_zero_iff (bits : List Bool) : bitsValue bits = 0 ↔ ∀ bit ∈ bits, bit = false := by
  induction bits with
  | nil => simp
  | cons bit rest inductionHypothesis =>
    rw [bitsValue_cons, List.forall_mem_cons, ← inductionHypothesis]
    cases bit <;> simp

theorem bitsValue_eq_max_iff (bits : List Bool) :
    bitsValue bits = 2 ^ bits.length - 1 ↔ ∀ bit ∈ bits, bit = true := by
  induction bits with
  | nil => simp
  | cons bit rest inductionHypothesis =>
    rw [bitsValue_cons, List.forall_mem_cons, ← inductionHypothesis, List.length_cons, Nat.pow_succ]
    have below := bitsValue_lt rest
    cases bit <;> simp <;> omega

@[simp] theorem bitsValue_replicate (count : Nat) (fill : Bool) :
    bitsValue (List.replicate count fill) = fill.toNat * (2 ^ count - 1) := by
  cases fill
  · simpa using (bitsValue_eq_zero_iff (List.replicate count false)).mpr (by simp)
  · simpa using (bitsValue_eq_max_iff (List.replicate count true)).mpr (by simp)

/-- Strings of one length are equal when their values are. -/
theorem eq_of_bitsValue_eq {first second : List Bool} (sameLength : first.length = second.length)
    (sameValue : bitsValue first = bitsValue second) : first = second := by
  induction first generalizing second with
  | nil => exact (List.length_eq_zero_iff.mp sameLength.symm).symm
  | cons bit rest inductionHypothesis =>
    cases second with
    | nil => cases sameLength
    | cons other others =>
      have restLength : rest.length = others.length := Nat.succ.inj sameLength
      have restBelow := bitsValue_lt rest
      have othersBelow := bitsValue_lt others
      rw [bitsValue_cons, bitsValue_cons, restLength] at sameValue
      rw [restLength] at restBelow
      -- the leading bits weigh more than all the others together
      have sameBit : bit = other := by
        cases bit <;> cases other <;> simp at sameValue ⊢ <;> omega
      subst sameBit
      rw [inductionHypothesis restLength (by omega)]

/-- Two strings of one width agree on their first `count` bits exactly where their values do
above the low `width - count` bits. -/
theorem take_eq_take_iff {first second : List Bool} (sameLength : first.length = second.length)
    (count : Nat) :
    first.take count = second.take count ↔
      bitsValue first / 2 ^ (first.length - count) = bitsValue second / 2 ^ (first.length - count) := by
  rw [← bitsValue_take, sameLength, ← bitsValue_take]
  constructor
  · intro same
    rw [same]
  · apply eq_of_bitsValue_eq
    simp [sameLength]

/-! ## The common prefix -/

section CommonPrefix

variable {α : Type} [DecidableEq α]

theorem commonPrefixLength_le (first second : List α) : commonPrefixLength first second ≤ first.length := by
  induction first generalizing second with
  | nil => exact Nat.zero_le _
  | cons head rest inductionHypothesis =>
    cases second with
    | nil => exact Nat.zero_le _
    | cons other others =>
      rw [commonPrefixLength, List.length_cons]
      split
      · exact Nat.succ_le_succ (inductionHypothesis others)
      · exact Nat.zero_le _

@[simp] theorem commonPrefixLength_self (list : List α) : commonPrefixLength list list = list.length := by
  induction list with
  | nil => rfl
  | cons head rest inductionHypothesis => simp [commonPrefixLength, inductionHypothesis]

theorem take_commonPrefixLength (first second : List α) :
    first.take (commonPrefixLength first second) = second.take (commonPrefixLength first second) := by
  induction first generalizing second with
  | nil => rfl
  | cons head rest inductionHypothesis =>
    cases second with
    | nil => rfl
    | cons other others =>
      rw [commonPrefixLength]
      split
      · rename_i same
        rw [List.take_succ_cons, List.take_succ_cons, same, inductionHypothesis]
      · rfl

/-- Lists that go on differently after a shared prefix have that prefix in common. -/
theorem commonPrefixLength_split (pre : List α) {head other : α} (rest others : List α)
    (differ : head ≠ other) : commonPrefixLength (pre ++ head :: rest) (pre ++ other :: others) = pre.length := by
  induction pre with
  | nil => simp [commonPrefixLength, differ]
  | cons first pre inductionHypothesis => simp [commonPrefixLength, inductionHypothesis]

/-- Short of the end of two lists of one length, the common prefix ends in two different
elements. -/
theorem exists_split_of_commonPrefixLength_lt {first second : List α} (sameLength : first.length = second.length)
    (short : commonPrefixLength first second < first.length) :
    ∃ head other rest others, head ≠ other ∧
      first.drop (commonPrefixLength first second) = head :: rest ∧
      second.drop (commonPrefixLength first second) = other :: others := by
  induction first generalizing second with
  | nil => exact absurd short (Nat.not_lt_zero _)
  | cons head rest inductionHypothesis =>
    cases second with
    | nil => cases sameLength
    | cons other others =>
      rw [commonPrefixLength] at short ⊢
      split
      · rename_i same
        rw [if_pos same, List.length_cons] at short
        exact inductionHypothesis (Nat.succ.inj sameLength) (by omega)
      · rename_i differ
        exact ⟨head, other, rest, others, differ, rfl, rfl⟩

end CommonPrefix

/-- The first and the last string of the block of a prefix differ right after it. -/
@[simp] theorem commonPrefixLength_block (pre : List Bool) (spare : Nat) :
    commonPrefixLength (pre ++ List.replicate spare false) (pre ++ List.replicate spare true) = pre.length := by
  cases spare with
  | zero => simp
  | succ spare =>
    rw [List.replicate_succ, List.replicate_succ]
    exact commonPrefixLength_split pre _ _ Bool.false_ne_true

/-! ## Order -/

/-- After a shared prefix, the string that goes on with a zero is the smaller. -/
theorem bitsValue_lt_of_split (pre : List Bool) {rest others : List Bool} (sameLength : rest.length = others.length) :
    bitsValue (pre ++ false :: rest) < bitsValue (pre ++ true :: others) := by
  have restBelow := bitsValue_lt rest
  rw [bitsValue_append, bitsValue_append, bitsValue_cons, bitsValue_cons, List.length_cons, List.length_cons,
    sameLength]
  rw [sameLength] at restBelow
  simp only [Bool.toNat_false, Bool.toNat_true, Nat.zero_mul, Nat.zero_add, Nat.one_mul]
  omega

/-- Every string whose value lies between those of two others of its width shares their
prefix. -/
theorem take_eq_of_between {low middle high : List Bool} (middleLength : middle.length = low.length)
    (highLength : high.length = low.length) {count : Nat} (common : low.take count = high.take count)
    (atLeast : bitsValue low ≤ bitsValue middle) (atMost : bitsValue middle ≤ bitsValue high) :
    middle.take count = low.take count := by
  rw [take_eq_take_iff highLength.symm] at common
  rw [take_eq_take_iff middleLength, middleLength]
  have above : bitsValue low / 2 ^ (low.length - count) ≤ bitsValue middle / 2 ^ (low.length - count) :=
    Nat.div_le_div_right atLeast
  have below : bitsValue middle / 2 ^ (low.length - count) ≤ bitsValue high / 2 ^ (low.length - count) :=
    Nat.div_le_div_right atMost
  omega

/-! ## The bits of a number -/

/-- The `width` low bits of `value`, most significant first, are `value` modulo `2 ^ width`. -/
theorem bitsValue_testBit (value width : Nat) :
    bitsValue ((List.range width).reverse.map value.testBit) = value % 2 ^ width := by
  induction width with
  | zero => simp [Nat.mod_one]
  | succ width inductionHypothesis =>
    rw [List.range_succ, List.reverse_append, List.reverse_singleton, List.singleton_append, List.map_cons,
      bitsValue_cons, inductionHypothesis, List.length_map, List.length_reverse, List.length_range,
      Nat.toNat_testBit, Nat.mod_pow_succ]
    ring

end StrongSwan.Foundations.BitPrefix
