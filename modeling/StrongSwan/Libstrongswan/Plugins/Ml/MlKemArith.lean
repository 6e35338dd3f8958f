import Mathlib
import StrongSwan.Foundations.NegacyclicNtt
import StrongSwan.Libstrongswan.Plugins.Ml.MlKemNtt

/-!
Contract: the polynomial arithmetic of `ml_poly.c` and the accumulated products
`multiply_poly_arr` of `ml_kem.c`, read in the ring `R_q = Z_q[X] / (X ^ 256 + 1)`.

`ml_poly_add` and `ml_poly_sub` reduce `a + b` and `a - b + q` coefficient by
coefficient; `multiply_poly_arr` multiplies `k` pairs of transformed
polynomials, the left ones `f` apart, and adds the products up.

Owns: that all three keep every coefficient at most `q`; that on such
coefficients addition and subtraction are those of `R_q`, in the normal domain
and in the transformed one alike; that `multiply_poly_arr` represents the sum of
the products of what its operands represent; that every transformed polynomial
represents some polynomial, which is how a matrix sampled directly in the
transformed domain is read in `R_q`; and the class in `R_q` of the output of
`ntt_inv`.

Does not own: the transforms themselves, which `MlKemNtt` models.
-/

namespace StrongSwan.Libstrongswan.Plugins.Ml.MlKemArith

open Polynomial
open StrongSwan.Foundations.NegacyclicNtt
open StrongSwan.Libstrongswan.Plugins.Ml.MlKem StrongSwan.Libstrongswan.Plugins.Ml.MlKemNtt

/-- `ml_poly_add`: the `int` sum of two coefficients, passed to the `uint16_t`
parameter of `ml_reduce_modq`. -/
def mlPolyAdd (a b : MlPoly) : MlPoly where
  f := (List.range mlKemN).map fun i => mlReduceModq (a.f.getD i 0 + b.f.getD i 0)
  length_f := by rw [List.length_map, List.length_range]

/-- `ml_poly_sub`: `a - b + ML_KEM_Q` in `int`, passed as a `uint16_t`. -/
def mlPolySub (a b : MlPoly) : MlPoly where
  f := (List.range mlKemN).map fun i => mlReduceModq (a.f.getD i 0 - b.f.getD i 0 + 3329)
  length_f := by rw [List.length_map, List.length_range]

/-- `ml_poly_add_arr`: the `k` sums, which the code computes from the last one
to the first; they are independent. -/
def mlPolyAddArr (k : Nat) (a b : List MlPoly) : List MlPoly :=
  (List.range k).map fun i => mlPolyAdd (a.getD i zeroPoly) (b.getD i zeroPoly)

/-- The accumulator of `multiply_poly_arr` after the loop has added the products
`1, …, n`: `c = a[0] b[0] + a[f] b[1] + … + a[n f] b[n]`. -/
def multiplyPolyAcc (a b : List MlPoly) (f : Nat) : Nat → MlPoly
  | 0 => multiplyPoly (a.getD 0 zeroPoly) (b.getD 0 zeroPoly)
  | n + 1 => mlPolyAdd (multiplyPolyAcc a b f n) (multiplyPoly (a.getD ((n + 1) * f) zeroPoly) (b.getD (n + 1) zeroPoly))

/-- `multiply_poly_arr(k, a, b, c, transposed)`: the left polynomials are read
`k` apart, down a column of the matrix, when `transposed` is set. -/
def multiplyPolyArr (k : Nat) (a b : List MlPoly) (transposed : Bool) : MlPoly :=
  multiplyPolyAcc a b (if transposed then k else 1) (k - 1)

/-! ## Coefficients -/

theorem mlPolyAdd_f (a b : MlPoly) :
    (mlPolyAdd a b).f = (List.range mlKemN).map fun i => mlReduceModq (a.f.getD i 0 + b.f.getD i 0) := rfl

theorem mlPolySub_f (a b : MlPoly) :
    (mlPolySub a b).f = (List.range mlKemN).map fun i => mlReduceModq (a.f.getD i 0 - b.f.getD i 0 + 3329) :=
  rfl

theorem getD_range_map {α : Type*} (g : Nat → α) (d : α) {n j : Nat} (within : j < n) :
    ((List.range n).map g).getD j d = g j := by
  rw [List.getD_eq_getElem _ _ (by simpa using within), List.getElem_map, List.getElem_range]

theorem getD_mlPolyAdd (a b : MlPoly) {j : Nat} (within : j < mlKemN) :
    (mlPolyAdd a b).f.getD j 0 = mlReduceModq (a.f.getD j 0 + b.f.getD j 0) := by
  rw [mlPolyAdd_f, getD_range_map _ _ within]

theorem getD_mlPolySub (a b : MlPoly) {j : Nat} (within : j < mlKemN) :
    (mlPolySub a b).f.getD j 0 = mlReduceModq (a.f.getD j 0 - b.f.getD j 0 + 3329) := by
  rw [mlPolySub_f, getD_range_map _ _ within]

/-- Every coefficient of a polynomial, read with the default, keeps the bound. -/
theorem bounded_getD {p : MlPoly} (bounded : ∀ x ∈ p.f, Bounded x) (j : Nat) :
    Bounded (p.f.getD j 0) := by
  rw [List.getD_eq_getElem?_getD]
  cases lookup : p.f[j]? with
  | none => exact bounded_zero
  | some x => exact bounded x (List.mem_of_getElem? lookup)

/-- A polynomial whose coefficients are all produced by one map over the
indices keeps a bound that every value of the map has. -/
theorem bounded_range_map {g : Nat → UInt16} (each : ∀ i, Bounded (g i)) :
    ∀ x ∈ (List.range mlKemN).map g, Bounded x := by
  intro x member
  obtain ⟨i, -, rfl⟩ := List.mem_map.mp member
  exact each i

section Reduced

variable {a b : MlPoly} (boundedA : ∀ x ∈ a.f, Bounded x) (boundedB : ∀ x ∈ b.f, Bounded x)
include boundedA boundedB

/-- The sum of two coefficients at most `q` is at most `2 q`, which
`ml_reduce_modq` takes back to at most `q`. -/
theorem bounded_mlPolyAdd : ∀ x ∈ (mlPolyAdd a b).f, Bounded x := by
  rw [mlPolyAdd_f]
  exact bounded_range_map fun i => by
    have left := bounded_getD boundedA i
    have right := bounded_getD boundedB i
    apply bounded_mlReduceModq
    rw [toNat_add_of_bounded left right]
    unfold Bounded mlKemQ at left right
    omega

theorem residue_getD_mlPolyAdd {j : Nat} (within : j < mlKemN) :
    residue ((mlPolyAdd a b).f.getD j 0) = residue (a.f.getD j 0) + residue (b.f.getD j 0) := by
  rw [getD_mlPolyAdd a b within, residue_mlReduceModq,
    residue_add_of_bounded (bounded_getD boundedA j) (bounded_getD boundedB j)]

theorem residue_getD_mlPolySub {j : Nat} (within : j < mlKemN) :
    residue ((mlPolySub a b).f.getD j 0) = residue (a.f.getD j 0) - residue (b.f.getD j 0) := by
  rw [getD_mlPolySub a b within, residue_mlReduceModq,
    residue_sub_add_q (bounded_getD boundedA j) (bounded_getD boundedB j)]

theorem polyOf_mlPolyAdd : polyOf (mlPolyAdd a b) = polyOf a + polyOf b := by
  have sum : blockPoly ((mlPolyAdd a b).f.map residue) 0 mlKemN
      = C 1 * blockPoly (a.f.map residue) 0 mlKemN + C 1 * blockPoly (b.f.map residue) 0 mlKemN :=
    blockPoly_of_combination 1 1 fun m within => by
      simp only [getD_map_residue, Nat.zero_add, one_mul]
      exact residue_getD_mlPolyAdd boundedA boundedB within
  rw [polyOf, sum, C_1, one_mul, one_mul]
  rfl

theorem polyOf_mlPolySub : polyOf (mlPolySub a b) = polyOf a - polyOf b := by
  have difference : blockPoly ((mlPolySub a b).f.map residue) 0 mlKemN
      = C 1 * blockPoly (a.f.map residue) 0 mlKemN + C (-1) * blockPoly (b.f.map residue) 0 mlKemN :=
    blockPoly_of_combination 1 (-1) fun m within => by
      simp only [getD_map_residue, Nat.zero_add, one_mul, neg_one_mul, ← sub_eq_add_neg]
      exact residue_getD_mlPolySub boundedA boundedB within
  rw [polyOf, difference, C_1, one_mul, C_neg, C_1, neg_one_mul, ← sub_eq_add_neg]
  rfl

/-- Adding transformed polynomials adds what they represent. -/
theorem represents_mlPolyAdd {A B : (ZMod mlKemQ)[X]}
    (left : Represents zetaRoot A 7 2 (a.f.map residue)) (right : Represents zetaRoot B 7 2 (b.f.map residue)) :
    Represents zetaRoot (A + B) 7 2 ((mlPolyAdd a b).f.map residue) := by
  have combined : Represents zetaRoot (C 1 * A + C 1 * B) 7 2 ((mlPolyAdd a b).f.map residue) :=
    represents_combination 1 1 left right fun m within => by
      simp only [getD_map_residue, one_mul]
      exact residue_getD_mlPolyAdd boundedA boundedB within
  rwa [C_1, one_mul, one_mul] at combined

end Reduced

/-! ## Sums of products in the transformed domain -/

theorem bounded_multiplyPolyAcc (a b : List MlPoly) (f : Nat) :
    ∀ n, ∀ x ∈ (multiplyPolyAcc a b f n).f, Bounded x
  | 0 => by
    rw [multiplyPolyAcc]
    exact bounded_multiplyPoly _ _
  | n + 1 => by
    rw [multiplyPolyAcc]
    exact bounded_mlPolyAdd (bounded_multiplyPolyAcc a b f n) (bounded_multiplyPoly _ _)

theorem bounded_multiplyPolyArr (k : Nat) (a b : List MlPoly) (transposed : Bool) :
    ∀ x ∈ (multiplyPolyArr k a b transposed).f, Bounded x :=
  bounded_multiplyPolyAcc _ _ _ _

section Products

variable {a b : List MlPoly} {k : Nat} {P Q : Nat → (ZMod mlKemQ)[X]}

/-- The loop of `multiply_poly_arr` keeps the invariant that the accumulator
represents the sum of the products added so far. -/
theorem represents_multiplyPolyAcc {f : Nat}
    (left : ∀ i < k, Represents zetaRoot (P i) 7 2 ((a.getD (i * f) zeroPoly).f.map residue))
    (right : ∀ i < k, Represents zetaRoot (Q i) 7 2 ((b.getD i zeroPoly).f.map residue)) :
    ∀ n < k, Represents zetaRoot (∑ i ∈ Finset.range (n + 1), P i * Q i) 7 2
      ((multiplyPolyAcc a b f n).f.map residue)
  | 0, inside => by
    have first := left 0 inside
    rw [Nat.zero_mul] at first
    rw [multiplyPolyAcc, Finset.sum_range_one]
    exact represents_multiplyPoly first (right 0 inside)
  | n + 1, inside => by
    rw [multiplyPolyAcc, Finset.sum_range_succ]
    exact represents_mlPolyAdd (bounded_multiplyPolyAcc a b f n) (bounded_multiplyPoly _ _)
      (represents_multiplyPolyAcc left right n (by omega))
      (represents_multiplyPoly (left _ inside) (right _ inside))

/-- `multiply_poly_arr` represents `∑ P_i Q_i` when its `i`-th left operand,
`f` apart, represents `P_i` and its `i`-th right one `Q_i`. -/
theorem represents_multiplyPolyArr (positive : 0 < k) {transposed : Bool}
    (left : ∀ i < k, Represents zetaRoot (P i) 7 2
      ((a.getD (i * if transposed then k else 1) zeroPoly).f.map residue))
    (right : ∀ i < k, Represents zetaRoot (Q i) 7 2 ((b.getD i zeroPoly).f.map residue)) :
    Represents zetaRoot (∑ i ∈ Finset.range k, P i * Q i) 7 2
      ((multiplyPolyArr k a b transposed).f.map residue) := by
  have whole := represents_multiplyPolyAcc left right (k - 1) (by omega)
  rwa [Nat.sub_add_cancel positive] at whole

end Products

/-- Every transformed polynomial represents some polynomial: the forward
transform is onto. -/
theorem exists_represents_leaves (p : MlPoly) : ∃ A, Represents zetaRoot A 7 2 (p.f.map residue) :=
  exists_represents isUnit_two (by norm_num) (fun i positive below => zetas_squares i below positive)
    zetas_inverses (by rw [List.length_map, p.length_f]; rfl)

/-- A polynomial that a transformed polynomial represents. -/
noncomputable def leafPoly (p : MlPoly) : (ZMod mlKemQ)[X] := Classical.choose (exists_represents_leaves p)

theorem represents_leafPoly (p : MlPoly) : Represents zetaRoot (leafPoly p) 7 2 (p.f.map residue) :=
  Classical.choose_spec (exists_represents_leaves p)

/-! ## The ring `R_q` -/

theorem degree_polyOf_lt (p : MlPoly) : (polyOf p).degree < mlKemN := degree_blockPoly_lt _ _ _

/-- `R_q = Z_q[X] / (X ^ 256 + 1)`. -/
abbrev Rq := AdjoinRoot (X ^ mlKemN + 1 : (ZMod mlKemQ)[X])

/-- The element of `R_q` that the coefficients of a polynomial stand for. -/
noncomputable def toRq (p : MlPoly) : Rq := AdjoinRoot.mk _ (polyOf p)

theorem toRq_def (p : MlPoly) : toRq p = AdjoinRoot.mk _ (polyOf p) := rfl

section Reduced

variable {a b : MlPoly} (boundedA : ∀ x ∈ a.f, Bounded x) (boundedB : ∀ x ∈ b.f, Bounded x)
include boundedA boundedB

theorem toRq_mlPolyAdd : toRq (mlPolyAdd a b) = toRq a + toRq b := by
  rw [toRq_def, polyOf_mlPolyAdd boundedA boundedB, map_add, toRq_def, toRq_def]

theorem toRq_mlPolySub : toRq (mlPolySub a b) = toRq a - toRq b := by
  rw [toRq_def, polyOf_mlPolySub boundedA boundedB, map_sub, toRq_def, toRq_def]

end Reduced

/-- `ntt_inv` leaves every coefficient at most `q`, whatever it is given: the
last step is a `mul_modq`. -/
theorem bounded_nttInv (p : MlPoly) : ∀ x ∈ (nttInv p).f, Bounded x := by
  rw [nttInv_f]
  intro x member
  obtain ⟨y, -, rfl⟩ := List.mem_map.mp member
  exact bounded_mulModq _ _

/-- `ntt_inv` of leaves that represent `A` stands for `A` in `R_q`. -/
theorem toRq_nttInv {p : MlPoly} {A : (ZMod mlKemQ)[X]} (bounded : ∀ x ∈ p.f, Bounded x)
    (leaves : Represents zetaRoot A 7 2 (p.f.map residue)) :
    toRq (nttInv p) = AdjoinRoot.mk _ A := by
  rw [toRq_def, polyOf_nttInv bounded leaves, mk_modByMonic]

end StrongSwan.Libstrongswan.Plugins.Ml.MlKemArith
