import Mathlib

/-!
Lists of natural keys in strictly increasing order.

Owns: strictly increasing keys between `1` and `n`, `n` of them, are exactly
`1, ..., n`.
-/

namespace StrongSwan.Foundations.SortedKeys

theorem eq_range'_of_pairwise_lt {keys : List Nat} {count : Nat}
    (increasing : keys.Pairwise (· < ·)) (inRange : ∀ key ∈ keys, 1 ≤ key ∧ key ≤ count)
    (length : keys.length = count) :
    keys = List.range' 1 count := by
  have noDuplicates : keys.Nodup := increasing.imp (fun less => Nat.ne_of_lt less)
  have inside : keys ⊆ List.range' 1 count := by
    intro key member
    rw [List.mem_range'_1]
    have := inRange key member
    omega
  have permuted := (noDuplicates.subperm inside).perm_of_length_le (by simp [length])
  apply permuted.eq_of_pairwise _ increasing List.pairwise_lt_range'
  intro first second _ _ firstLess secondLess
  omega

end StrongSwan.Foundations.SortedKeys
