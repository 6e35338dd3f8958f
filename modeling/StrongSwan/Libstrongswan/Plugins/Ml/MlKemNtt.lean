import Mathlib.Data.ZMod.Basic
import StrongSwan.Foundations.NegacyclicNtt
import StrongSwan.Libstrongswan.Plugins.Ml.MlKem

/-!
Contract: the number-theoretic transform of `ml_kem.c` on `uint16_t`
coefficients: `mul_modq`, `ml_reduce_modq` of `ml_utils.h`, `ntt`, `ntt_inv`,
`base_case_multiply` and `multiply_poly`, with the table `ml_kem_zetas` of
`ml_params.c`.

The transform is the butterfly network of `ButterflyNetwork` under the
butterflies of the two loop bodies. The bridge to `NegacyclicNtt` is that
every coefficient stays at most `q`: `mul_modq` returns at most `q` for every
pair of inputs, because the Barrett constant `2 ^ 40 / q` is exact to better
than one part in `2 ^ 32`, and `ml_reduce_modq` brings every sum of two such
values back to at most `q`. While that holds no `uint16_t` sum wraps, so the
residues modulo `q` follow the butterflies over `ZMod q`.

Owns: the model of the six functions; the residue and the bound of each; that
`ntt`, `multiply_poly` and `ntt_inv` keep the bound and act on residues as
the forward layers, the products modulo `X ^ 2 - γ` and the inverse layers do;
the three facts of the table (each entry squares to the root of its node,
the entries `ntt_inv` pairs multiply to `-1`, and `3303 = 128⁻¹`); the product
theorem and the round trip.

Does not own: `multiply_poly_arr` and `ml_poly_add`, which sum such products;
the sampling, compression and hashing of the key exchange.
-/

namespace StrongSwan.Libstrongswan.Plugins.Ml.MlKemNtt

open Polynomial
open StrongSwan.Foundations.ButterflyNetwork StrongSwan.Foundations.NegacyclicNtt
open StrongSwan.Libstrongswan.Plugins.Ml.MlKem

/-- `ml_kem_zetas`: `17 ^ BitRev_7 (i) mod q` for `i < 128`. -/
def mlKemZetas : List UInt16 :=
  [   1, 1729, 2580, 3289, 2642,  630, 1897,  848,
   1062, 1919,  193,  797, 2786, 3260,  569, 1746,
    296, 2447, 1339, 1476, 3046,   56, 2240, 1333,
   1426, 2094,  535, 2882, 2393, 2879, 1974,  821,
    289,  331, 3253, 1756, 1197, 2304, 2277, 2055,
    650, 1977, 2513,  632, 2865,   33, 1320, 1915,
   2319, 1435,  807,  452, 1438, 2868, 1534, 2402,
   2647, 2617, 1481,  648, 2474, 3110, 1227,  910,
     17, 2761,  583, 2649, 1637,  723, 2288, 1100,
   1409, 2662, 3281,  233,  756, 2156, 3015, 3050,
   1703, 1651, 2789, 1789, 1847,  952, 1461, 2687,
    939, 2308, 2437, 2388,  733, 2337,  268,  641,
   1584, 2298, 2037, 3220,  375, 2549, 2090, 1645,
   1063,  319, 2773,  757, 2099,  561, 2466, 2594,
   2804, 1092,  403, 1026, 1143, 2150, 2775,  886,
   1722, 1212, 1874, 1029, 2110, 2935,  885, 2154]

/-- `ml_kem_zetas[i]`; every index the code reads is below 128. -/
def zetaAt (i : Nat) : UInt16 := mlKemZetas.getD i 0

/-- `mul_modq`: the product with a Barrett reduction by `m = 2 ^ 40 / q` and
no final correction. -/
def mulModq (a b : UInt16) : UInt16 :=
  let m : UInt64 := ((1 : UInt64) <<< 40) / 3329
  let prod : UInt32 := a.toUInt32 * b.toUInt32
  let t : UInt32 := ((prod.toUInt64 * m) >>> 40).toUInt32
  (prod - t * 3329).toUInt16

/-- `ml_reduce_modq`: `a - q` when that difference has its top bit clear,
selected by a mask. -/
def mlReduceModq (a : UInt16) : UInt16 :=
  let diff := a - 3329
  let mask : UInt16 := (0 : UInt16) - (diff >>> 15)
  (mask &&& a) ||| (~~~mask &&& diff)

/-- The body of the innermost loop of `ntt` on `p->f[j]` and `p->f[j + len]`.
The C sums are `int`s passed to `ml_reduce_modq`'s `uint16_t` parameter. -/
def nttButterfly (zeta fj fjLen : UInt16) : UInt16 × UInt16 :=
  let t := mulModq zeta fjLen
  (mlReduceModq (fj + t), mlReduceModq (fj - t + 3329))

/-- The body of the innermost loop of `ntt_inv` on `p->f[j]` and `p->f[j + len]`. -/
def nttInvButterfly (zeta fj fjLen : UInt16) : UInt16 × UInt16 :=
  let t := fj
  (mlReduceModq (t + fjLen), mulModq zeta (fjLen - t + 3329))

/-- `ntt`: `len` from `ML_KEM_N / 2` halving while at least 2 (seven layers),
`zeta = ml_kem_zetas[i++]` from `i = 1`. -/
def ntt (p : MlPoly) : MlPoly where
  f := network nttButterfly zetaAt Nat.succ (· / 2) mlKemN 7 (mlKemN / 2) 1 p.f
  length_f := by rw [length_network, p.length_f]

/-- `ntt_inv`: `len` from 2 doubling while at most 128 (seven layers),
`zeta = ml_kem_zetas[i--]` from `i = 127`, then every coefficient times
`f = 3303`. -/
def nttInv (p : MlPoly) : MlPoly where
  f := (network nttInvButterfly zetaAt Nat.pred (· * 2) mlKemN 7 2 127 p.f).map (mulModq · 3303)
  length_f := by rw [List.length_map, length_network, p.length_f]

/-- `base_case_multiply`: `c[0]` and `c[1]` of `(a0 + a1 X) (b0 + b1 X)` modulo
`X ^ 2 - gamma`. -/
def baseCaseMultiply (a0 a1 b0 b1 gamma : UInt16) : UInt16 × UInt16 :=
  let c0 := mulModq a1 b1
  let c0 := mlReduceModq (mulModq c0 gamma + mulModq a0 b0)
  (c0, mlReduceModq (mulModq a0 b1 + mulModq a1 b0))

/-- Round `i` of `multiply_poly`: coefficients `4 i` to `4 i + 3`, with
`gamma = ml_kem_zetas[i + 64]` for the first pair and `q - ml_kem_zetas[i + 64]`
for the second. -/
def multiplyRound (a b : MlPoly) (i : Nat) : List UInt16 :=
  let c := baseCaseMultiply (a.f.getD (4 * i) 0) (a.f.getD (4 * i + 1) 0)
    (b.f.getD (4 * i) 0) (b.f.getD (4 * i + 1) 0) (zetaAt (i + 64))
  let c' := baseCaseMultiply (a.f.getD (4 * i + 2) 0) (a.f.getD (4 * i + 3) 0)
    (b.f.getD (4 * i + 2) 0) (b.f.getD (4 * i + 3) 0) (3329 - zetaAt (i + 64))
  [c.1, c.2, c'.1, c'.2]

/-- Concatenating `n` blocks of `w` entries gives `w * n` entries. -/
theorem length_flatMap_range {α : Type*} {g : Nat → List α} {w : Nat}
    (widths : ∀ i, (g i).length = w) (n : Nat) : ((List.range n).flatMap g).length = w * n := by
  induction n with
  | zero => rfl
  | succ n ih =>
    rw [List.range_succ, List.flatMap_append, List.length_append, ih, List.flatMap_singleton,
      widths, Nat.mul_succ]

theorem length_multiplyRound (a b : MlPoly) (i : Nat) : (multiplyRound a b i).length = 4 := rfl

/-- `multiply_poly`: `ML_KEM_N / 4` rounds of four coefficients. -/
def multiplyPoly (a b : MlPoly) : MlPoly where
  f := (List.range (mlKemN / 4)).flatMap (multiplyRound a b)
  length_f := by
    rw [length_flatMap_range (length_multiplyRound a b)]
    rfl

/-! ## Residues and the bound `q` -/

/-- The residue modulo `q` of a coefficient. -/
def residue (x : UInt16) : ZMod mlKemQ := x.toNat

/-- The invariant of the transform: a coefficient is at most `q`. -/
def Bounded (x : UInt16) : Prop := x.toNat ≤ mlKemQ

/-- The coefficients of a polynomial as a polynomial over `ZMod q`. -/
noncomputable def polyOf (p : MlPoly) : (ZMod mlKemQ)[X] := blockPoly (p.f.map residue) 0 mlKemN

@[simp]
theorem residue_zero : residue 0 = 0 := by
  simp [residue]

@[simp]
theorem getD_map_residue (f : List UInt16) (k : Nat) :
    (f.map residue).getD k 0 = residue (f.getD k 0) := by
  rw [← residue_zero, List.getD_map]

/-- Coefficient `k` of `polyOf p` is the residue of `p->f[k]`. -/
theorem coeff_polyOf (p : MlPoly) (k : Nat) :
    (polyOf p).coeff k = if k < mlKemN then residue (p.f.getD k 0) else 0 := by
  simp only [polyOf, blockPoly, getD_map_residue, finsetSum_coeff, coeff_C_mul_X_pow, zero_add,
    Finset.sum_ite_eq, Finset.mem_range]

theorem bounded_zero : Bounded 0 := by
  simp [Bounded]

theorem natCast_q : ((3329 : Nat) : ZMod mlKemQ) = 0 := ZMod.natCast_self mlKemQ

/-- The quotient `mul_modq` computes for the exact product. -/
def barrettQuotient (product : Nat) : Nat := product * 330282856 / 2 ^ 40

/-- `m = 2 ^ 40 / q` undershoots `2 ^ 40 / q` by less than `1 / 2 ^ 32`, so for
every 32-bit product the quotient is the true one or one less. -/
theorem barrettQuotient_bounds {product : Nat} (small : product < 2 ^ 32) :
    barrettQuotient product * 3329 ≤ product ∧
      product - barrettQuotient product * 3329 ≤ 3329 := by
  unfold barrettQuotient
  omega

theorem toNat_mulModq (a b : UInt16) :
    (mulModq a b).toNat = a.toNat * b.toNat - barrettQuotient (a.toNat * b.toNat) * 3329 := by
  have small : a.toNat * b.toNat < 2 ^ 32 := by
    have := Nat.mul_lt_mul'' a.toNat_lt b.toNat_lt
    omega
  obtain ⟨below, remainder⟩ := barrettQuotient_bounds small
  have prod : (a.toUInt32 * b.toUInt32).toNat = a.toNat * b.toNat := by
    rw [UInt32.toNat_mul, UInt16.toNat_toUInt32, UInt16.toNat_toUInt32, Nat.mod_eq_of_lt small]
  -- none of the `uint64_t` product, the shift and the `uint32_t` cast wraps
  have quotient :
      (((a.toUInt32 * b.toUInt32).toUInt64 * (((1 : UInt64) <<< 40) / 3329)) >>> 40).toUInt32.toNat
        = barrettQuotient (a.toNat * b.toNat) := by
    have m : ((1 : UInt64) <<< 40) / 3329 = 330282856 := by decide
    rw [m, UInt64.toNat_toUInt32, UInt64.toNat_shiftRight, UInt64.toNat_mul,
      UInt32.toNat_toUInt64, prod]
    have literal : UInt64.toNat 330282856 = 330282856 := rfl
    have shift : UInt64.toNat 40 % 64 = 40 := rfl
    have noWrap : a.toNat * b.toNat * 330282856 < 2 ^ 64 := by omega
    have fits : a.toNat * b.toNat * 330282856 / 2 ^ 40 < 2 ^ 32 := by omega
    rw [literal, shift, Nat.shiftRight_eq_div_pow, Nat.mod_eq_of_lt noWrap, Nat.mod_eq_of_lt fits,
      barrettQuotient]
  set t := (((a.toUInt32 * b.toUInt32).toUInt64 * (((1 : UInt64) <<< 40) / 3329)) >>> 40).toUInt32
  have multiple : (t * 3329).toNat = barrettQuotient (a.toNat * b.toNat) * 3329 := by
    have literal : (3329 : UInt32).toNat = 3329 := rfl
    rw [UInt32.toNat_mul, quotient, literal, Nat.mod_eq_of_lt (by omega)]
  have difference : (a.toUInt32 * b.toUInt32 - t * 3329).toNat
      = a.toNat * b.toNat - barrettQuotient (a.toNat * b.toNat) * 3329 := by
    rw [UInt32.toNat_sub_of_le _ _ (by rw [UInt32.le_iff_toNat_le, multiple, prod]; exact below),
      prod, multiple]
  show (a.toUInt32 * b.toUInt32 - t * 3329).toUInt16.toNat = _
  rw [UInt32.toNat_toUInt16, difference, Nat.mod_eq_of_lt (by omega)]

/-- `mul_modq` returns at most `q` for every pair of inputs. -/
theorem bounded_mulModq (a b : UInt16) : Bounded (mulModq a b) := by
  have small : a.toNat * b.toNat < 2 ^ 32 := by
    have := Nat.mul_lt_mul'' a.toNat_lt b.toNat_lt
    omega
  rw [Bounded, toNat_mulModq]
  exact (barrettQuotient_bounds small).2

theorem residue_mulModq (a b : UInt16) : residue (mulModq a b) = residue a * residue b := by
  have small : a.toNat * b.toNat < 2 ^ 32 := by
    have := Nat.mul_lt_mul'' a.toNat_lt b.toNat_lt
    omega
  rw [residue, toNat_mulModq, Nat.cast_sub (barrettQuotient_bounds small).1, Nat.cast_mul,
    Nat.cast_mul, natCast_q, mul_zero, sub_zero]
  rfl

theorem toNat_mlReduceModq (a : UInt16) :
    (mlReduceModq a).toNat
      = if 3329 ≤ a.toNat ∧ a.toNat < 3329 + 2 ^ 15 then a.toNat - 3329 else a.toNat := by
  have difference : (a - 3329).toNat = (2 ^ 16 - 3329 + a.toNat) % 2 ^ 16 := by
    rw [UInt16.toNat_sub]; rfl
  have top : ((a - 3329) >>> 15).toNat = (a - 3329).toNat / 2 ^ 15 := by
    rw [UInt16.toNat_shiftRight, Nat.shiftRight_eq_div_pow]; rfl
  have bound := a.toNat_lt
  by_cases reduces : 3329 ≤ a.toNat ∧ a.toNat < 3329 + 2 ^ 15
  · -- the difference has its top bit clear: the mask is zero and selects the difference
    have clear : (a - 3329) >>> 15 = 0 := UInt16.toNat_inj.mp (by
      rw [top, difference, UInt16.toNat_zero]
      omega)
    simp only [mlReduceModq, clear, if_pos reduces]
    have allOnes : ~~~(0 : UInt16) &&& (a - 3329) = a - 3329 := by simp
    rw [UInt16.sub_zero, UInt16.zero_and, UInt16.zero_or, allOnes, difference]
    omega
  · -- otherwise the mask is all ones and selects `a`
    have set : (a - 3329) >>> 15 = 1 := UInt16.toNat_inj.mp (by
      rw [top, difference, UInt16.toNat_one]
      omega)
    simp only [mlReduceModq, set, if_neg reduces]
    simp

theorem bounded_mlReduceModq {a : UInt16} (small : a.toNat ≤ 2 * 3329) : Bounded (mlReduceModq a) := by
  rw [Bounded, toNat_mlReduceModq]
  split <;> unfold mlKemQ <;> omega

theorem residue_mlReduceModq (a : UInt16) : residue (mlReduceModq a) = residue a := by
  rw [residue, residue, toNat_mlReduceModq]
  split
  case isTrue reduces => rw [Nat.cast_sub reduces.1, natCast_q, sub_zero]
  case isFalse => rfl

/-! ## Sums of bounded words do not wrap -/

section Words

variable {a b : UInt16} (boundedA : Bounded a) (boundedB : Bounded b)
include boundedA boundedB

theorem toNat_add_of_bounded : (a + b).toNat = a.toNat + b.toNat := by
  unfold Bounded mlKemQ at boundedA boundedB
  rw [UInt16.toNat_add, Nat.mod_eq_of_lt (by omega)]

theorem toNat_sub_add_q : (a - b + 3329).toNat = a.toNat + 3329 - b.toNat := by
  unfold Bounded mlKemQ at boundedA boundedB
  have literal : (3329 : UInt16).toNat = 3329 := rfl
  rw [UInt16.toNat_add, UInt16.toNat_sub, literal]
  omega

theorem residue_add_of_bounded : residue (a + b) = residue a + residue b := by
  rw [residue, toNat_add_of_bounded boundedA boundedB, Nat.cast_add]
  rfl

theorem residue_sub_add_q : residue (a - b + 3329) = residue a - residue b := by
  have below : b.toNat ≤ a.toNat + 3329 := by unfold Bounded mlKemQ at boundedB; omega
  rw [residue, toNat_sub_add_q boundedA boundedB, Nat.cast_sub below, Nat.cast_add, natCast_q,
    add_zero]
  rfl

end Words

/-! ## The two butterflies -/

section Butterflies

variable {z a b : UInt16} (boundedA : Bounded a)
include boundedA

theorem bounded_nttButterfly : Bounded (nttButterfly z a b).1 ∧ Bounded (nttButterfly z a b).2 := by
  have boundedT := bounded_mulModq z b
  constructor
  · apply bounded_mlReduceModq
    rw [toNat_add_of_bounded boundedA boundedT]
    unfold Bounded mlKemQ at boundedA boundedT
    omega
  · apply bounded_mlReduceModq
    rw [toNat_sub_add_q boundedA boundedT]
    unfold Bounded mlKemQ at boundedA boundedT
    omega

theorem residue_nttButterfly :
    ctButterfly (residue z) (residue a) (residue b)
      = (residue (nttButterfly z a b).1, residue (nttButterfly z a b).2) := by
  have boundedT := bounded_mulModq z b
  simp only [nttButterfly, residue_mlReduceModq, residue_add_of_bounded boundedA boundedT,
    residue_sub_add_q boundedA boundedT, residue_mulModq, ctButterfly]

variable (boundedB : Bounded b)
include boundedB

theorem bounded_nttInvButterfly :
    Bounded (nttInvButterfly z a b).1 ∧ Bounded (nttInvButterfly z a b).2 := by
  refine ⟨bounded_mlReduceModq ?_, bounded_mulModq _ _⟩
  rw [toNat_add_of_bounded boundedA boundedB]
  unfold Bounded mlKemQ at boundedA boundedB
  omega

theorem residue_nttInvButterfly :
    gsButterfly (residue z) (residue a) (residue b)
      = (residue (nttInvButterfly z a b).1, residue (nttInvButterfly z a b).2) := by
  simp only [nttInvButterfly, residue_mlReduceModq, residue_add_of_bounded boundedA boundedB,
    residue_sub_add_q boundedB boundedA, residue_mulModq, gsButterfly]

end Butterflies

/-! ## The table -/

/-- The roots of the tree of moduli the transform follows: `-1` for
`X ^ 256 + 1` at node `1`, then `±ml_kem_zetas[i / 2]`. -/
def zetaRoot : Nat → ZMod mlKemQ := nodeRoot (-1) (residue ∘ zetaAt)

theorem zetas_reduced : ∀ x ∈ mlKemZetas, x.toNat < mlKemQ := by
  have checked : mlKemZetas.all (fun x => decide (x.toNat < mlKemQ)) = true := rfl
  simpa using checked

theorem bounded_zetaAt (i : Nat) : Bounded (zetaAt i) := by
  have reduced : ∀ x ∈ mlKemZetas, Bounded x := fun x member =>
    Nat.le_of_lt (zetas_reduced x member)
  exact getD_of_forall bounded_zero reduced i

/-- Every entry squares to the root of its node: `ζ ^ (2 BitRev_7 (i))` is
`ζ ^ BitRev_7 (i / 2)` up to the sign of `ζ ^ 128 = -1`. -/
theorem zetas_squares : ∀ i < 2 ^ 7, 0 < i →
    residue (zetaAt i) * residue (zetaAt i) = zetaRoot i := by
  decide

/-- The entry `ntt_inv` reads for node `2 ^ l + k` times that node's entry is
`-1`. -/
theorem zetas_inverses : ∀ l < 7, ∀ k < 2 ^ l,
    residue (zetaAt (2 ^ (l + 1) - 1 - k)) * residue (zetaAt (2 ^ l + k)) = -1 := by
  decide

theorem isUnit_two : IsUnit (2 : ZMod mlKemQ) := IsUnit.of_mul_eq_one 1665 (by decide)

/-- `f = 3303` is `128⁻¹` modulo `q`. -/
theorem scale_inverse : residue 3303 * 2 ^ 7 = 1 := by decide

instance : Fact (1 < mlKemQ) := ⟨by decide⟩

/-! ## The transforms on residues -/

theorem forall_bounded_map {f : List UInt16} (reduced : ∀ x ∈ f, x.toNat < mlKemQ) :
    ∀ x ∈ f, Bounded x := fun x member => Nat.le_of_lt (reduced x member)

theorem ntt_f (p : MlPoly) :
    (ntt p).f = network nttButterfly zetaAt Nat.succ (· / 2) mlKemN 7 (mlKemN / 2) 1 p.f := by
  simp only [ntt]

theorem nttInv_f (p : MlPoly) :
    (nttInv p).f
      = (network nttInvButterfly zetaAt Nat.pred (· * 2) mlKemN 7 2 127 p.f).map (mulModq · 3303) := by
  simp only [nttInv]

/-- `ntt` keeps the bound and computes the forward network over `ZMod q`. -/
theorem ntt_residues (p : MlPoly) (bounded : ∀ x ∈ p.f, Bounded x) :
    (∀ x ∈ (ntt p).f, Bounded x) ∧
      (ntt p).f.map residue
        = network ctButterfly (residue ∘ zetaAt) Nat.succ (· / 2) mlKemN 7 (mlKemN / 2) 1
          (p.f.map residue) := by
  rw [ntt_f]
  exact map_network bounded_zero residue_zero
      (fun _ _ _ _ boundedA _ => bounded_nttButterfly boundedA)
      (fun _ _ _ _ boundedA _ => residue_nttButterfly boundedA)
      bounded_zetaAt Nat.succ (· / 2) mlKemN 7 (mlKemN / 2) 1 bounded

/-- The network of `ntt_inv` keeps the bound and computes the inverse network
over `ZMod q`. -/
theorem nttInv_network_residues (p : MlPoly) (bounded : ∀ x ∈ p.f, Bounded x) :
    (∀ x ∈ network nttInvButterfly zetaAt Nat.pred (· * 2) mlKemN 7 2 127 p.f, Bounded x) ∧
      (network nttInvButterfly zetaAt Nat.pred (· * 2) mlKemN 7 2 127 p.f).map residue
        = network gsButterfly (residue ∘ zetaAt) Nat.pred (· * 2) mlKemN 7 2 127
          (p.f.map residue) :=
  map_network bounded_zero residue_zero
    (fun _ _ _ _ boundedA boundedB => bounded_nttInvButterfly boundedA boundedB)
    (fun _ _ _ _ boundedA boundedB => residue_nttInvButterfly boundedA boundedB)
    bounded_zetaAt Nat.pred (· * 2) mlKemN 7 2 127 bounded

/-- After `ntt`, block `k` of two coefficients is the residue of the input
modulo `X ^ 2 - zetaRoot (128 + k)`. -/
theorem represents_ntt (p : MlPoly) (bounded : ∀ x ∈ p.f, Bounded x) :
    Represents zetaRoot (polyOf p) 7 2 ((ntt p).f.map residue) := by
  have start : Represents zetaRoot (polyOf p) 0 (2 * 2 ^ 7) (p.f.map residue) :=
    represents_start (polyOf p) rfl
  have leaves := represents_ctNetwork (by norm_num)
    (fun i positive below => zetas_squares i below positive) 7 0 (p.f.map residue)
    (le_refl _) (by simp [p.length_f]; rfl) rfl start
  rw [(ntt_residues p bounded).2]
  exact leaves

/-! ## The product in the transformed domain -/

theorem getD_flatMap_range {α : Type*} (d : α) {g : Nat → List α} {w : Nat}
    (widths : ∀ i, (g i).length = w) {n i r : Nat} (block : i < n) (within : r < w) :
    ((List.range n).flatMap g).getD (w * i + r) d = (g i).getD r d := by
  induction n with
  | zero => omega
  | succ n ih =>
    have prefixLength := length_flatMap_range widths n
    rw [List.range_succ, List.flatMap_append, List.flatMap_singleton]
    by_cases last : i = n
    · subst last
      have after : ((List.range i).flatMap g).length ≤ w * i + r := by rw [prefixLength]; omega
      rw [List.getD_append_right _ _ d _ after, prefixLength, Nat.add_sub_cancel_left]
    · have earlier : ((List.range n).flatMap g).length > w * i + r := by
        rw [prefixLength]
        calc w * i + r < w * (i + 1) := by rw [Nat.mul_succ]; omega
          _ ≤ w * n := Nat.mul_le_mul_left _ (by omega)
      rw [List.getD_append _ _ d _ earlier]
      exact ih (by omega)

theorem getD_multiplyPoly (a b : MlPoly) {i r : Nat} (round : i < 64) (within : r < 4) :
    (multiplyPoly a b).f.getD (4 * i + r) 0 = (multiplyRound a b i).getD r 0 :=
  getD_flatMap_range 0 (length_multiplyRound a b) round within

theorem residue_add_mulModq (a b c d : UInt16) :
    residue (mulModq a b + mulModq c d) = residue a * residue b + residue c * residue d := by
  rw [residue_add_of_bounded (bounded_mulModq a b) (bounded_mulModq c d), residue_mulModq,
    residue_mulModq]

theorem residue_baseCaseMultiply (a0 a1 b0 b1 gamma : UInt16) :
    residue (baseCaseMultiply a0 a1 b0 b1 gamma).1
        = residue a0 * residue b0 + residue a1 * residue b1 * residue gamma ∧
      residue (baseCaseMultiply a0 a1 b0 b1 gamma).2
        = residue a0 * residue b1 + residue a1 * residue b0 := by
  constructor
  · simp only [baseCaseMultiply, residue_mlReduceModq, residue_add_mulModq, residue_mulModq]
    ring
  · simp only [baseCaseMultiply, residue_mlReduceModq, residue_add_mulModq]

theorem bounded_baseCaseMultiply (a0 a1 b0 b1 gamma : UInt16) :
    Bounded (baseCaseMultiply a0 a1 b0 b1 gamma).1 ∧
      Bounded (baseCaseMultiply a0 a1 b0 b1 gamma).2 := by
  have sum : ∀ a b c d : UInt16, (mulModq a b + mulModq c d).toNat ≤ 2 * 3329 := by
    intro a b c d
    have first := bounded_mulModq a b
    have second := bounded_mulModq c d
    rw [toNat_add_of_bounded first second]
    unfold Bounded mlKemQ at first second
    omega
  exact ⟨bounded_mlReduceModq (sum _ _ _ _), bounded_mlReduceModq (sum _ _ _ _)⟩

/-- `multiply_poly` leaves every coefficient at most `q`, whatever it is given. -/
theorem bounded_multiplyPoly (a b : MlPoly) : ∀ x ∈ (multiplyPoly a b).f, Bounded x := by
  intro x member
  obtain ⟨i, -, inRound⟩ := List.mem_flatMap.mp member
  simp only [multiplyRound, List.mem_cons, List.not_mem_nil, or_false] at inRound
  rcases inRound with rfl | rfl | rfl | rfl
  · exact (bounded_baseCaseMultiply _ _ _ _ _).1
  · exact (bounded_baseCaseMultiply _ _ _ _ _).2
  · exact (bounded_baseCaseMultiply _ _ _ _ _).1
  · exact (bounded_baseCaseMultiply _ _ _ _ _).2

theorem residue_q_sub_zetaAt (i : Nat) : residue (3329 - zetaAt i) = -residue (zetaAt i) := by
  have bounded := bounded_zetaAt i
  unfold Bounded mlKemQ at bounded
  have literal : (3329 : UInt16).toNat = 3329 := rfl
  rw [residue, UInt16.toNat_sub_of_le _ _ (by rw [UInt16.le_iff_toNat_le, literal]; exact bounded),
    literal, Nat.cast_sub bounded, natCast_q, zero_sub]
  rfl

/-- Leaf `k` of a transformed polynomial, as the polynomial of its two
coefficients. -/
theorem leaf_dvd {A : (ZMod mlKemQ)[X]} {p : MlPoly}
    (leaves : Represents zetaRoot A 7 2 (p.f.map residue)) {k : Nat} (below : k < 2 ^ 7) :
    X ^ 2 - C (zetaRoot (2 ^ 7 + k))
      ∣ A - (C (residue (p.f.getD (2 * k) 0)) + C (residue (p.f.getD (2 * k + 1) 0)) * X) := by
  have leaf := leaves k below
  rwa [blockPoly_two, getD_map_residue, getD_map_residue, Nat.mul_comm k 2] at leaf

/-- `multiply_poly` multiplies every pair of leaves modulo its own
`X ^ 2 - γ`: round `i` takes leaves `2 i` and `2 i + 1`, whose roots are
`ζ_{64 + i}` and `-ζ_{64 + i}`. -/
theorem represents_multiplyPoly {A B : (ZMod mlKemQ)[X]} {a b : MlPoly}
    (left : Represents zetaRoot A 7 2 (a.f.map residue))
    (right : Represents zetaRoot B 7 2 (b.f.map residue)) :
    Represents zetaRoot (A * B) 7 2 ((multiplyPoly a b).f.map residue) := by
  intro k below
  have leftLeaf := leaf_dvd left below
  have rightLeaf := leaf_dvd right below
  rw [blockPoly_two, getD_map_residue, getD_map_residue]
  obtain ⟨i, round, rfl | rfl⟩ : ∃ i < 64, k = 2 * i ∨ k = 2 * i + 1 := ⟨k / 2, by omega, by omega⟩
  · have root : zetaRoot (2 ^ 7 + 2 * i) = residue (zetaAt (i + 64)) := by
      rw [zetaRoot, show 2 ^ 7 + 2 * i = 2 * (i + 64) by omega, nodeRoot_even _ (by omega)]
      rfl
    rw [show 2 * (2 * i) = 4 * i + 0 by ring, show 4 * i + 0 + 1 = 4 * i + 1 by ring, root]
      at leftLeaf rightLeaf
    rw [show 2 * i * 2 = 4 * i + 0 by ring, getD_multiplyPoly a b round (by norm_num),
      show 4 * i + 0 + 1 = 4 * i + 1 by ring, getD_multiplyPoly a b round (by norm_num), root]
    obtain ⟨first, second⟩ := residue_baseCaseMultiply (a.f.getD (4 * i) 0) (a.f.getD (4 * i + 1) 0)
      (b.f.getD (4 * i) 0) (b.f.getD (4 * i + 1) 0) (zetaAt (i + 64))
    simp only [multiplyRound, List.getD_cons_zero, List.getD_cons_succ]
    rw [first, second]
    exact dvd_baseMul leftLeaf rightLeaf
  · have root : zetaRoot (2 ^ 7 + (2 * i + 1)) = residue (3329 - zetaAt (i + 64)) := by
      rw [zetaRoot, show 2 ^ 7 + (2 * i + 1) = 2 * (i + 64) + 1 by omega,
        nodeRoot_odd _ (by omega), residue_q_sub_zetaAt]
      rfl
    rw [show 2 * (2 * i + 1) = 4 * i + 2 by ring, show 4 * i + 2 + 1 = 4 * i + 3 by ring, root]
      at leftLeaf rightLeaf
    rw [show (2 * i + 1) * 2 = 4 * i + 2 by ring, getD_multiplyPoly a b round (by norm_num),
      show 4 * i + 2 + 1 = 4 * i + 3 by ring, getD_multiplyPoly a b round (by norm_num), root]
    obtain ⟨first, second⟩ := residue_baseCaseMultiply (a.f.getD (4 * i + 2) 0)
      (a.f.getD (4 * i + 3) 0) (b.f.getD (4 * i + 2) 0) (b.f.getD (4 * i + 3) 0)
      (3329 - zetaAt (i + 64))
    simp only [multiplyRound, List.getD_cons_zero, List.getD_cons_succ]
    rw [first, second]
    exact dvd_baseMul leftLeaf rightLeaf

/-! ## The inverse transform -/

/-- `ntt_inv` of coefficients whose leaves are congruent to `A` is the
remainder of `A` modulo `X ^ 256 + 1`: the seven inverse layers give `128 A`
and the final `mul_modq` by `3303` divides by 128. -/
theorem polyOf_nttInv {A : (ZMod mlKemQ)[X]} {p : MlPoly} (bounded : ∀ x ∈ p.f, Bounded x)
    (leaves : Represents zetaRoot A 7 2 (p.f.map residue)) :
    polyOf (nttInv p) = A %ₘ (X ^ mlKemN + 1) := by
  set merged := network gsButterfly (residue ∘ zetaAt) Nat.pred (· * 2) mlKemN 7 2 127
    (p.f.map residue)
  have root : Represents zetaRoot (C (2 ^ 7) * A) 0 (2 * 2 ^ 7) merged :=
    represents_gsNetwork isUnit_two (fun i positive below => zetas_squares i below positive)
      zetas_inverses 7 2 A (p.f.map residue) (by norm_num) (le_refl _)
      (by simp [p.length_f]) rfl leaves
  have scaled : (nttInv p).f.map residue = merged.map (· * residue 3303) := by
    have product : residue ∘ (mulModq · 3303) = (· * residue 3303) ∘ residue :=
      funext fun x => residue_mulModq x 3303
    rw [nttInv_f, List.map_map, product, ← List.map_map, (nttInv_network_residues p bounded).2]
  have whole := root 0 (by norm_num)
  have rootOne : zetaRoot (2 ^ 0 + 0) = -1 := by simp [zetaRoot, nodeRoot]
  rw [rootOne, Nat.zero_mul] at whole
  have unscaled : C (residue 3303) * C (2 ^ 7) = (1 : (ZMod mlKemQ)[X]) := by
    rw [← C_mul, scale_inverse, C_1]
  apply blockPoly_eq_modByMonic (by decide : 0 < mlKemN)
  rw [scaled, blockPoly_map_mul, show mlKemN = 2 * 2 ^ 7 from rfl]
  have rescaled : A - blockPoly merged 0 (2 * 2 ^ 7) * C (residue 3303)
      = (C (2 ^ 7) * A - blockPoly merged 0 (2 * 2 ^ 7)) * C (residue 3303) := by
    linear_combination (-A) * unscaled
  rw [rescaled]
  exact dvd_mul_of_dvd_left whole _

/-! ## The product theorem -/

theorem polyOf_modByMonic (p : MlPoly) : polyOf p %ₘ (X ^ mlKemN + 1) = polyOf p :=
  blockPoly_modByMonic (by decide) _

/-- For polynomials with coefficients in `[0, q)`, the product computed in the
transformed domain is the product in `Z_q[X] / (X ^ 256 + 1)`, coefficient by
coefficient, and the inverse transform undoes the forward one. -/
theorem nttInv_multiplyPoly_ntt (a b : MlPoly) (aReduced : ∀ x ∈ a.f, x.toNat < mlKemQ)
    (bReduced : ∀ x ∈ b.f, x.toNat < mlKemQ) :
    polyOf (nttInv (multiplyPoly (ntt a) (ntt b))) = (polyOf a * polyOf b) %ₘ (X ^ mlKemN + 1) ∧
      polyOf (nttInv (ntt a)) = polyOf a := by
  have boundedA := forall_bounded_map aReduced
  have boundedB := forall_bounded_map bReduced
  constructor
  · exact polyOf_nttInv (bounded_multiplyPoly _ _)
      (represents_multiplyPoly (represents_ntt a boundedA) (represents_ntt b boundedB))
  · rw [polyOf_nttInv (ntt_residues a boundedA).1 (represents_ntt a boundedA)]
    exact polyOf_modByMonic a

set_option maxRecDepth 8192 in
theorem nttInv_multiplyPoly_ntt_decoded :
    (∀ x ∈ (decodePoly (List.replicate mlKemPolyLen 1)).f, x.toNat < mlKemQ) ∧
      (∀ x ∈ (decodePoly (List.replicate mlKemPolyLen 2)).f, x.toNat < mlKemQ) ∧
      (polyOf (nttInv (multiplyPoly (ntt (decodePoly (List.replicate mlKemPolyLen 1)))
          (ntt (decodePoly (List.replicate mlKemPolyLen 2)))))
        = (polyOf (decodePoly (List.replicate mlKemPolyLen 1))
            * polyOf (decodePoly (List.replicate mlKemPolyLen 2))) %ₘ (X ^ mlKemN + 1) ∧
        polyOf (nttInv (ntt (decodePoly (List.replicate mlKemPolyLen 1))))
          = polyOf (decodePoly (List.replicate mlKemPolyLen 1))) := by
  have ones : ∀ x ∈ (decodePoly (List.replicate mlKemPolyLen 1)).f, x.toNat < mlKemQ := by
    have checked : (decodePoly (List.replicate mlKemPolyLen 1)).f.all
        (fun x => decide (x.toNat < mlKemQ)) = true := rfl
    simpa using checked
  have twos : ∀ x ∈ (decodePoly (List.replicate mlKemPolyLen 2)).f, x.toNat < mlKemQ := by
    have checked : (decodePoly (List.replicate mlKemPolyLen 2)).f.all
        (fun x => decide (x.toNat < mlKemQ)) = true := rfl
    simpa using checked
  exact ⟨ones, twos, nttInv_multiplyPoly_ntt _ _ ones twos⟩

/-! ## The inverse of the zero transform

`mul_modq` is exact only up to a multiple of `q`: for `0 < ζ < q` the Barrett
quotient of `ζ q` is `ζ - 1`, so `mul_modq (ζ, q)` is `q` and not `0`. The
inverse butterfly passes it `f[j + len] - f[j] + q`, which is `q` whenever the
two entries agree, and every later layer and the scaling by `3303` keep the
`q`s. -/

/-- The zero polynomial. -/
def zeroPoly : MlPoly := ⟨List.replicate mlKemN 0, List.length_replicate⟩

/-- What the inverse layers up to pairs `len / 2` apart make of `len` zeros:
the first pair stays `0`, every later entry is `q`. -/
def zeroImage (len : Nat) : List UInt16 := [0, 0] ++ List.replicate (len - 2) 3329

theorem mulModq_zero (z : UInt16) : mulModq z 0 = 0 :=
  UInt16.toNat_inj.mp (by rw [toNat_mulModq]; simp [barrettQuotient])

theorem mulModq_q {z : UInt16} (positive : 0 < z.toNat) (reduced : z.toNat < mlKemQ) :
    mulModq z 3329 = 3329 := by
  have below : z.toNat < 3329 := reduced
  have quotient : barrettQuotient (z.toNat * 3329) = z.toNat - 1 := by
    unfold barrettQuotient
    omega
  have literal : (3329 : UInt16).toNat = 3329 := rfl
  apply UInt16.toNat_inj.mp
  rw [toNat_mulModq, literal, quotient]
  omega

theorem nttButterfly_zero (z : UInt16) : nttButterfly z 0 0 = (0, 0) := by
  simp only [nttButterfly, mulModq_zero]
  decide

/-- On two equal entries `x ∈ {0, q}` the inverse butterfly gives `(x, q)`. -/
theorem nttInvButterfly_twin {z x : UInt16} (positive : 0 < z.toNat) (reduced : z.toNat < mlKemQ)
    (zeroOrQ : x = 0 ∨ x = 3329) : nttInvButterfly z x x = (x, 3329) := by
  have difference : x - x + 3329 = 3329 := by simp
  simp only [nttInvButterfly, difference, mulModq_q positive reduced]
  rcases zeroOrQ with rfl | rfl <;> decide

theorem zetas_positive : ∀ x ∈ mlKemZetas, 0 < x.toNat := by
  have checked : mlKemZetas.all (fun x => decide (0 < x.toNat)) = true := rfl
  simpa using checked

theorem zetaAt_mem {i : Nat} (index : i < 128) : zetaAt i ∈ mlKemZetas := by
  have length : mlKemZetas.length = 128 := rfl
  rw [zetaAt, List.getD_eq_getElem _ _ (by omega)]
  exact List.getElem_mem _

theorem zeroImage_length {len : Nat} (two : 2 ≤ len) : (zeroImage len).length = len := by
  simp only [zeroImage, List.length_append, List.length_cons, List.length_nil,
    List.length_replicate]
  omega

theorem zeroImage_mem {len : Nat} {x : UInt16} (member : x ∈ zeroImage len) :
    x = 0 ∨ x = 3329 := by
  simp only [zeroImage, List.mem_append, List.mem_cons, List.not_mem_nil, List.mem_replicate]
    at member
  rcases member with (zero | zero | nil) | ⟨-, q⟩
  · exact .inl zero
  · exact .inl zero
  · exact nil.elim
  · exact .inr q

/-- One more inverse layer keeps the first halves of the blocks and fills the
second halves with `q`. -/
theorem zeroImage_double {len : Nat} (two : 2 ≤ len) :
    (zeroImage len).map (fun x => ((x, (3329 : UInt16)) : UInt16 × UInt16).1)
        ++ (zeroImage len).map (fun x => ((x, (3329 : UInt16)) : UInt16 × UInt16).2)
      = zeroImage (len * 2) := by
  have sized := zeroImage_length two
  rw [List.map_id', List.map_const', sized, zeroImage, List.append_assoc, List.replicate_append_replicate,
    zeroImage]
  congr 2
  omega

/-- The inverse layers from pairs `len` apart on take `2 ^ n` images of `len`
zeros to the image of all `len * 2 ^ n`. Induction on the layers; the table
index only decreases from below `128`, so every entry read is positive and
reduced. -/
theorem network_zeroImage (n : Nat) : ∀ len i, 2 ≤ len → i < 128 →
    network nttInvButterfly zetaAt Nat.pred (· * 2) (len * 2 ^ n) n len i
        (List.replicate (2 ^ n) (zeroImage len)).flatten = zeroImage (len * 2 ^ n) := by
  induction n with
  | zero =>
    intro len i _ _
    simp [network]
  | succ n ih =>
    intro len i two index
    have uniform : ∀ b < 2 ^ n, ∀ x ∈ zeroImage len,
        nttInvButterfly (zetaAt (Nat.pred^[b] i)) x x = (x, 3329) := by
      intro b _ x member
      have read : Nat.pred^[b] i < 128 := by rw [Nat.pred_iterate]; omega
      exact nttInvButterfly_twin (zetas_positive _ (zetaAt_mem read))
        (zetas_reduced _ (zetaAt_mem read)) (zeroImage_mem member)
    have count : len * 2 * 2 ^ n / (2 * len) = 2 ^ n := by
      rw [Nat.mul_comm len 2]
      exact Nat.mul_div_cancel_left _ (by omega)
    rw [show len * 2 ^ (n + 1) = len * 2 * 2 ^ n by ring]
    simp only [network]
    rw [count, pow_succ', layer_twin_blocks (zeroImage_length two) i uniform, layer_index,
      zeroImage_double two]
    have read : Nat.pred^[2 ^ n] i ≤ i := by
      rw [Nat.pred_iterate]
      exact Nat.sub_le _ _
    exact ih (len * 2) _ (by omega) (by omega)

theorem ntt_zeroPoly : (ntt zeroPoly).f = List.replicate mlKemN 0 := by
  rw [ntt_f]
  exact network_replicate_zero nttButterfly_zero _ _ _ _ _ _

theorem nttInv_f_ntt_zeroPoly : (nttInv (ntt zeroPoly)).f = [0, 0] ++ List.replicate 254 3329 := by
  have zeros : List.replicate mlKemN (0 : UInt16) = (List.replicate (2 ^ 7) (zeroImage 2)).flatten := by
    rw [show zeroImage 2 = List.replicate 2 0 from rfl, List.flatten_replicate_replicate]
    rfl
  have keepsZero : mulModq 0 3303 = 0 := by decide
  have keepsQ : mulModq 3329 3303 = 3329 := by decide
  rw [nttInv_f, ntt_zeroPoly, zeros, show mlKemN = 2 * 2 ^ 7 from rfl,
    network_zeroImage 7 2 127 (le_refl 2) (by norm_num)]
  simp only [zeroImage, List.map_append, List.map_cons, List.map_nil, List.map_replicate, keepsZero,
    keepsQ]
  rfl

/-- The zero polynomial has reduced coefficients, but `ntt_inv (ntt (0))` has
`q` in every coefficient from the third on: not reduced, and not `0`. -/
theorem nttInv_ntt_zeroPoly :
    (∀ x ∈ zeroPoly.f, x.toNat < mlKemQ) ∧
      (nttInv (ntt zeroPoly)).f = [0, 0] ++ List.replicate 254 3329 ∧
      ¬ (∀ x ∈ (nttInv (ntt zeroPoly)).f, x.toNat < mlKemQ) ∧
      nttInv (ntt zeroPoly) ≠ zeroPoly := by
  have output := nttInv_f_ntt_zeroPoly
  have withQ : (3329 : UInt16) ∈ (nttInv (ntt zeroPoly)).f := by
    rw [output]
    exact List.mem_append.mpr (.inr (List.mem_replicate.mpr ⟨by decide, rfl⟩))
  refine ⟨?_, output, ?_, ?_⟩
  · intro x member
    rw [(List.mem_replicate.mp member).2]
    decide
  · intro reduced
    exact absurd (reduced _ withQ) (by decide)
  · intro same
    rw [same] at withQ
    exact absurd (List.mem_replicate.mp withQ).2 (by decide)

end StrongSwan.Libstrongswan.Plugins.Ml.MlKemNtt
