import Mathlib

/-!
One's-complement arithmetic modulo `m`, as RFC 1071 uses it with `m = 2 ^ 16 - 1`.

A one's-complement sum of words at most `m` is fixed by two facts about the plain sum: its
residue modulo `m` and whether it is zero. `endAround m x` is the value in `[0, m]` with both;
zero is reached only by a sum of zeros, and a non-zero multiple of `m` gives `m`, the negative
zero.

Owns: that adding words with end-around carry (`onesAdd`) gives the representative of their
plain sum (`foldl_onesAdd`), that the representative of a sum does not change when a part of it
is replaced by its own representative (`endAround_add_endAround`), and that folding the carries
of a wide accumulator back into its low part (`carryStep`) keeps the representative.
-/

namespace StrongSwan.Foundations.OnesComplement

/-- The one's-complement representative of `x`: zero for zero, otherwise the residue modulo
`m` taken in `[1, m]`. -/
def endAround (m x : Nat) : Nat := if x = 0 then 0 else (x - 1) % m + 1

/-- One's-complement addition of two words at most `m`: a carry out of the word is added back
at its low end. -/
def onesAdd (m a b : Nat) : Nat := if a + b ≤ m then a + b else a + b - m

/-- One round of folding a wide accumulator: what lies above the word is added to the word. -/
def carryStep (m x : Nat) : Nat := x % (m + 1) + x / (m + 1)

theorem endAround_def (m x : Nat) : endAround m x = if x = 0 then 0 else (x - 1) % m + 1 := rfl

theorem onesAdd_def (m a b : Nat) : onesAdd m a b = if a + b ≤ m then a + b else a + b - m := rfl

theorem carryStep_def (m x : Nat) : carryStep m x = x % (m + 1) + x / (m + 1) := rfl

variable {m : Nat}

/-! ## The representative -/

theorem endAround_eq_zero_iff {x : Nat} : endAround m x = 0 ↔ x = 0 := by
  rw [endAround_def]
  by_cases zero : x = 0 <;> simp [zero]

theorem endAround_mod (x : Nat) : endAround m x % m = x % m := by
  rw [endAround_def]
  split
  case isTrue zero => rw [zero]
  case isFalse nonzero =>
    rw [Nat.add_mod, Nat.mod_mod, ← Nat.add_mod, Nat.sub_add_cancel (Nat.pos_of_ne_zero nonzero)]

theorem endAround_le (positive : 0 < m) (x : Nat) : endAround m x ≤ m := by
  rw [endAround_def]
  split
  · exact Nat.zero_le m
  · exact Nat.mod_lt _ positive

/-- A word is its own representative. -/
theorem endAround_of_le {x : Nat} (small : x ≤ m) : endAround m x = x := by
  rw [endAround_def]
  split
  case isTrue zero => exact zero.symm
  case isFalse nonzero => rw [Nat.mod_eq_of_lt (by omega), Nat.sub_add_cancel (Nat.pos_of_ne_zero nonzero)]

/-- Two sums with one residue that are zero together have one representative. -/
theorem endAround_congr {x y : Nat} (zero : x = 0 ↔ y = 0) (residue : x % m = y % m) :
    endAround m x = endAround m y := by
  rw [endAround_def, endAround_def]
  by_cases xZero : x = 0
  · rw [if_pos xZero, if_pos (zero.mp xZero)]
  · have yZero : ¬y = 0 := fun isZero => xZero (zero.mpr isZero)
    rw [if_neg xZero, if_neg yZero]
    -- the residues of `x - 1` and `y - 1` agree because those of `x` and `y` do
    have shifted : (x - 1 + 1) % m = (y - 1 + 1) % m := by
      rwa [Nat.sub_add_cancel (Nat.pos_of_ne_zero xZero), Nat.sub_add_cancel (Nat.pos_of_ne_zero yZero)]
    have lowered : (x - 1) % m = (y - 1) % m := Nat.ModEq.add_right_cancel' 1 shifted
    rw [lowered]

theorem endAround_add_endAround (x y : Nat) : endAround m (endAround m x + y) = endAround m (x + y) := by
  apply endAround_congr
  · rw [Nat.add_eq_zero_iff, Nat.add_eq_zero_iff, endAround_eq_zero_iff]
  · rw [Nat.add_mod, endAround_mod, ← Nat.add_mod]

/-! ## Addition with end-around carry -/

theorem onesAdd_eq_endAround {a b : Nat} (aLe : a ≤ m) (bLe : b ≤ m) : onesAdd m a b = endAround m (a + b) := by
  rw [onesAdd_def]
  split
  case isTrue fits => exact (endAround_of_le fits).symm
  case isFalse carry =>
    -- the sum lies in `(m, 2m]`: less `m` it keeps its residue and is a word other than zero
    rw [← endAround_of_le (show a + b - m ≤ m by omega)]
    apply endAround_congr (by omega)
    calc (a + b - m) % m = (a + b - m + m) % m := (Nat.add_mod_right _ _).symm
      _ = (a + b) % m := by rw [Nat.sub_add_cancel (by omega)]

/-- Adding words one by one with end-around carry gives the representative of their plain
sum. -/
theorem foldl_onesAdd (positive : 0 < m) :
    ∀ {words : List Nat} {start : Nat}, (∀ word ∈ words, word ≤ m) → start ≤ m →
      words.foldl (onesAdd m) start = endAround m (start + words.sum)
  | [], start, _, startLe => by
    rw [List.foldl_nil, List.sum_nil, Nat.add_zero, endAround_of_le startLe]
  | word :: rest, start, wordsLe, startLe => by
    have wordLe := wordsLe word List.mem_cons_self
    have added := onesAdd_eq_endAround startLe wordLe
    rw [List.foldl_cons, foldl_onesAdd positive (fun other mem => wordsLe other (List.mem_cons_of_mem _ mem))
      (added ▸ endAround_le positive _), added, endAround_add_endAround, List.sum_cons, Nat.add_assoc]

/-! ## Folding the carries of a wide accumulator -/

theorem carryStep_mod (x : Nat) : carryStep m x % m = x % m := by
  -- `x = r + (m + 1) q`, and `m + 1` leaves the residue 1
  have parts : x = x % (m + 1) + x / (m + 1) + m * (x / (m + 1)) := by
    conv_lhs => rw [← Nat.mod_add_div x (m + 1)]
    rw [Nat.add_one_mul, Nat.add_assoc, Nat.add_comm (m * _)]
  rw [carryStep_def]
  conv_rhs => rw [parts, Nat.add_mul_mod_self_left]

theorem carryStep_eq_zero_iff {x : Nat} : carryStep m x = 0 ↔ x = 0 := by
  rw [carryStep_def]
  constructor
  · intro zero
    obtain ⟨low, high⟩ := Nat.add_eq_zero_iff.mp zero
    rw [← Nat.mod_add_div x (m + 1), low, high, Nat.mul_zero]
  · rintro rfl
    rw [Nat.zero_mod, Nat.zero_div]

/-- Folding the carries back keeps the representative. -/
theorem endAround_carryStep (x : Nat) : endAround m (carryStep m x) = endAround m x :=
  endAround_congr carryStep_eq_zero_iff (carryStep_mod x)

end StrongSwan.Foundations.OnesComplement
