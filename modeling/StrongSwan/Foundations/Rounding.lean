import Mathlib

/-!
Rounding a quotient to the nearest integer, and how fixed-width code computes it without a
division.

`roundDiv a b` is the integer nearest to `a / b`, a half rounded up, written `(2a + b) / (2b)`.
For an odd `b` no quotient `a / b` lies halfway, so the rounding has room on both sides; code
that multiplies by an approximation `m` of `2 ^ (p + d) / b` and shifts right by `p` lands in
that room as long as the error of `m`, scaled by the input, stays below `2 ^ p`.

Owns:
- the bounds that pin `roundDiv` down, strict on both sides for an odd divisor;
- `div_eq_roundDiv`, the reciprocal multiplication with an added constant;
- `roundDiv_two_pow`, rounding a quotient by `2 ^ d` as a shift with half of `2 ^ d` added;
- scaling by `2 ^ d / b` and back, the round trip of a compression, within
  `(b + 2 ^ d) / 2 ^ (d + 1)` of where it started, modulo `b` when the scaled value is taken
  modulo `2 ^ d`.
-/

namespace StrongSwan.Foundations.Rounding

/-- `⌈a / b⌋`: the integer nearest to `a / b`, a half rounded up. -/
def roundDiv (a b : Nat) : Nat := (2 * a + b) / (2 * b)

theorem roundDiv_def (a b : Nat) : roundDiv a b = (2 * a + b) / (2 * b) := rfl

/-! ## The bounds of the nearest integer -/

theorem roundDiv_bounds {b : Nat} (positive : 0 < b) (a : Nat) :
    2 * b * roundDiv a b ≤ 2 * a + b ∧ 2 * a + b < 2 * b * (roundDiv a b + 1) := by
  rw [roundDiv_def]
  exact ⟨Nat.mul_div_le _ _, Nat.lt_mul_div_succ _ (by omega)⟩

/-- For an odd divisor `2a + b` is odd, so it is strictly inside the interval of its
quotient by `2b`. -/
theorem roundDiv_bounds_of_odd {b : Nat} (odd : b % 2 = 1) (a : Nat) :
    2 * b * roundDiv a b + 1 ≤ 2 * a + b ∧ 2 * a + b + 1 ≤ 2 * b * (roundDiv a b + 1) := by
  obtain ⟨lower, upper⟩ := @roundDiv_bounds b (by omega) a
  -- both ends of the interval are even
  have evenLower : (2 * b * roundDiv a b) % 2 = 0 := by rw [Nat.mul_assoc]; exact Nat.mul_mod_right 2 _
  have evenUpper : (2 * b * (roundDiv a b + 1)) % 2 = 0 := by rw [Nat.mul_assoc]; exact Nat.mul_mod_right 2 _
  omega

/-! ## Division-free rounding -/

/-- Multiplying by `m`, adding `c` and shifting right by `p` rounds `2 ^ d * x / b` to the
nearest integer when `m` is close enough to `2 ^ (p + d) / b`: the error `δ` that `m` and `c`
make in `2 b (x m + c)`, against `2 ^ p (2 ^ (d + 1) x + b)`, stays below `2 ^ p`. -/
theorem div_eq_roundDiv {b m p d x c : Nat} (odd : b % 2 = 1)
    (close : |2 * (x : ℤ) * (m * b - 2 ^ (p + d)) + 2 * b * c - b * 2 ^ p| < 2 ^ p) :
    (x * m + c) / 2 ^ p = roundDiv (2 ^ d * x) b := by
  obtain ⟨lower, upper⟩ := roundDiv_bounds_of_odd odd (2 ^ d * x)
  set r := roundDiv (2 ^ d * x) b
  set δ : ℤ := 2 * (x : ℤ) * (m * b - 2 ^ (p + d)) + 2 * b * c - b * 2 ^ p
  obtain ⟨deltaLower, deltaUpper⟩ := abs_lt.mp close
  have powerPositive : (0 : ℤ) < 2 ^ p := by positivity
  -- the product against which the two bounds are compared
  have product : (2 * b * (x * m + c) : ℤ) = 2 ^ p * (2 * (2 ^ d * x) + b) + δ := by
    simp only [δ, pow_add]
    ring
  have lowerInt : (2 * b * r + 1 : ℤ) ≤ 2 * (2 ^ d * x) + b := by exact_mod_cast lower
  have upperInt : (2 * (2 ^ d * x) + b + 1 : ℤ) ≤ 2 * b * (r + 1) := by exact_mod_cast upper
  have scaledLower := mul_le_mul_of_nonneg_left lowerInt powerPositive.le
  have scaledUpper := mul_le_mul_of_nonneg_left upperInt powerPositive.le
  have twiceB : (0 : ℤ) < 2 * b := by
    have positive : 0 < b := by omega
    positivity
  apply Nat.div_eq_of_lt_le
  · -- `r 2 ^ p ≤ x m + c`, multiplied through by `2 b`
    have : (2 * b : ℤ) * (r * 2 ^ p) ≤ 2 * b * (x * m + c) := by
      rw [product]
      nlinarith
    exact_mod_cast le_of_mul_le_mul_left this twiceB
  · -- `x m + c < (r + 1) 2 ^ p`, multiplied through by `2 b`
    have : (2 * b : ℤ) * (x * m + c) < 2 * b * ((r + 1) * 2 ^ p) := by
      rw [← Int.mul_assoc, product]
      nlinarith
    exact_mod_cast lt_of_mul_lt_mul_left this twiceB.le

/-- A quotient by `2 ^ d` rounded to the nearest integer is a right shift by `d` after adding
`2 ^ (d - 1)`. -/
theorem roundDiv_two_pow {d : Nat} (positive : 0 < d) (a : Nat) :
    roundDiv a (2 ^ d) = (a + 2 ^ (d - 1)) / 2 ^ d := by
  have half : 2 ^ d = 2 * 2 ^ (d - 1) := by
    rw [← Nat.pow_succ']
    congr 1
    omega
  rw [roundDiv_def, show 2 * a + 2 ^ d = 2 * (a + 2 ^ (d - 1)) by omega, Nat.mul_div_mul_left _ _ (by decide)]

/-! ## Scaling by `2 ^ d / b` and back -/

section Scaling

variable {b d x : Nat} (odd : b % 2 = 1)
include odd

/-- The scaled value is at most `2 ^ d`, reached only near `b`. -/
theorem roundDiv_scale_le (below : x ≤ b) : roundDiv (2 ^ d * x) b ≤ 2 ^ d := by
  obtain ⟨lower, -⟩ := @roundDiv_bounds b (by omega) (2 ^ d * x)
  have scaled : 2 ^ d * x ≤ 2 ^ d * b := Nat.mul_le_mul_left _ below
  -- `2 b z ≤ 2 ^ (d + 1) x + b < 2 b (2 ^ d + 1)`
  have : 2 * b * roundDiv (2 ^ d * x) b < 2 * b * (2 ^ d + 1) := by
    calc 2 * b * roundDiv (2 ^ d * x) b ≤ 2 * (2 ^ d * x) + b := lower
      _ ≤ 2 * (2 ^ d * b) + b := by omega
      _ < 2 * b * (2 ^ d + 1) := by ring_nf; omega
  have := Nat.lt_of_mul_lt_mul_left this
  omega

/-- Scaling `x ≤ b` by `2 ^ d / b` and back, each time to the nearest integer, moves it by at
most `(b + 2 ^ d) / 2 ^ (d + 1)`. -/
theorem abs_roundDiv_scale_sub_le :
    |(roundDiv (b * roundDiv (2 ^ d * x) b) (2 ^ d) : ℤ) - x| ≤ ((b + 2 ^ d) / 2 ^ (d + 1) : Nat) := by
  set z := roundDiv (2 ^ d * x) b
  set x' := roundDiv (b * z) (2 ^ d)
  obtain ⟨zLower, zUpper⟩ := @roundDiv_bounds b (by omega) (2 ^ d * x)
  obtain ⟨xLower, xUpper⟩ := @roundDiv_bounds (2 ^ d) (by positivity) (b * z)
  have zLowerInt : (2 * b * z : ℤ) ≤ 2 * (2 ^ d * x) + b := by exact_mod_cast zLower
  have zUpperInt : (2 * (2 ^ d * x) + b : ℤ) < 2 * b * (z + 1) := by exact_mod_cast zUpper
  have xLowerInt : (2 * 2 ^ d * x' : ℤ) ≤ 2 * (b * z) + 2 ^ d := by exact_mod_cast xLower
  have xUpperInt : (2 * (b * z) + 2 ^ d : ℤ) < 2 * 2 ^ d * (x' + 1) := by exact_mod_cast xUpper
  -- the two roundings add up: `2 ^ (d + 1) |x' - x| ≤ b + 2 ^ d`
  have upper : 2 ^ (d + 1) * ((x' : ℤ) - x) ≤ b + 2 ^ d := by rw [pow_succ]; linarith
  have lower : -((b : ℤ) + 2 ^ d) ≤ 2 ^ (d + 1) * ((x' : ℤ) - x) := by rw [pow_succ]; linarith
  have twice : |(x' : ℤ) - x| * 2 ^ (d + 1) ≤ b + 2 ^ d := by
    have bounded := abs_le.mpr ⟨lower, upper⟩
    rwa [abs_mul, abs_of_pos (by positivity), mul_comm] at bounded
  rw [Int.natCast_div, Int.le_ediv_iff_mul_le (by positivity)]
  push_cast
  exact twice

/-- Taking the scaled value modulo `2 ^ d` changes the value scaled back only by a multiple of
`b`: the one scaled value it changes, `2 ^ d`, comes back as `b` and as `0`. -/
theorem natCast_roundDiv_scale_mod (below : x ≤ b) :
    ((roundDiv (b * (roundDiv (2 ^ d * x) b % 2 ^ d)) (2 ^ d) : Nat) : ZMod b) =
      (roundDiv (b * roundDiv (2 ^ d * x) b) (2 ^ d) : Nat) := by
  rcases Nat.lt_or_eq_of_le (roundDiv_scale_le odd below) with inside | top
  · rw [Nat.mod_eq_of_lt inside]
  · rw [top, Nat.mod_self, Nat.mul_zero]
    have zero : roundDiv 0 (2 ^ d) = 0 := by
      have positive : 0 < 2 ^ d := by positivity
      rw [roundDiv_def, Nat.mul_zero, Nat.zero_add]
      exact Nat.div_eq_of_lt (by omega)
    have whole : roundDiv (b * 2 ^ d) (2 ^ d) = b := by
      rw [roundDiv_def, show 2 * (b * 2 ^ d) + 2 ^ d = (2 * b + 1) * 2 ^ d by ring,
        Nat.mul_comm 2 (2 ^ d), ← Nat.div_div_eq_div_mul, Nat.mul_div_cancel _ (Nat.two_pow_pos d)]
      omega
    rw [zero, whole, ZMod.natCast_self, Nat.cast_zero]

/-- The round trip of a compression: `x ≤ b` scaled by `2 ^ d / b` to the nearest integer,
taken modulo `2 ^ d` and scaled back to the nearest integer is `x` plus an error of at most
`(b + 2 ^ d) / 2 ^ (d + 1)`, modulo `b`. -/
theorem exists_roundDiv_scale_mod (below : x ≤ b) :
    ∃ e : ℤ, |e| ≤ ((b + 2 ^ d) / 2 ^ (d + 1) : Nat) ∧
      ((roundDiv (b * (roundDiv (2 ^ d * x) b % 2 ^ d)) (2 ^ d) : Nat) : ZMod b) = x + e := by
  refine ⟨(roundDiv (b * roundDiv (2 ^ d * x) b) (2 ^ d) : ℤ) - x, abs_roundDiv_scale_sub_le odd, ?_⟩
  rw [natCast_roundDiv_scale_mod odd below]
  push_cast
  ring

end Scaling

end StrongSwan.Foundations.Rounding
