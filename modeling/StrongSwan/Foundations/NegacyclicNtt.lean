import Mathlib.Algebra.Polynomial.Div
import Mathlib.RingTheory.Coprime.Basic
import Mathlib.Tactic.LinearCombination
import Mathlib.RingTheory.AdjoinRoot
import StrongSwan.Foundations.ButterflyNetwork

/-!
Contract: the algebra of the incomplete negacyclic number-theoretic transform
over a commutative ring, as a butterfly network computes it.

A list of coefficients is read block by block as polynomials
(`blockPoly`). The transform follows a binary tree of moduli: node `1` is
`X ^ N - C ω`, and the children of node `i` split its modulus
`X ^ (2 * len) - C (ζ_i * ζ_i)` into `X ^ len - C ζ_i` and
`X ^ len - C (-ζ_i)` (`nodeRoot`). `Represents` says that after `l` layers
every block is congruent to the transformed polynomial modulo the modulus of
its node.

Owns: the Cooley–Tukey and Gentleman–Sande butterflies; that one forward layer
takes `Represents` from the parents to the children, and one inverse layer
from the children back to the parents at twice the polynomial; the run lemmas
over any number of layers; the product of two blocks modulo `X ^ 2 - C γ`; and
the final reading of one block of `N` coefficients as the remainder modulo
`X ^ N + 1`. Representations combine linearly, and over a finite ring every
list of leaves represents some polynomial: the forward network is injective,
since the inverse network undoes it up to the unit `2 ^ depth`. Congruences
modulo `X ^ N + 1` are read as equalities in `AdjoinRoot (X ^ N + 1)`.

The forward step is a divisibility by a factor, so it holds in every
commutative ring; the inverse step needs the two children's moduli coprime,
which is where `2` must be a unit and `ζ'` the negated inverse of `ζ`.

Does not own: the machine words a transform is computed in, and the table of
twiddle factors; both are parameters here.
-/

namespace StrongSwan.Foundations.NegacyclicNtt

open Polynomial ButterflyNetwork

variable {R : Type*} [CommRing R]

/-- The polynomial `f[start] + f[start + 1] X + … + f[start + n - 1] X ^ (n - 1)`
of a block. -/
noncomputable def blockPoly (f : List R) (start n : Nat) : R[X] :=
  ∑ m ∈ Finset.range n, C (f.getD (start + m) 0) * X ^ m

/-- The Cooley–Tukey butterfly of the forward transform. -/
def ctButterfly (ζ a b : R) : R × R := (a + ζ * b, a - ζ * b)

/-- The Gentleman–Sande butterfly of the inverse transform. -/
def gsButterfly (ζ a b : R) : R × R := (a + b, ζ * (b - a))

/-- The root of the modulus at node `i` of the tree: `ω` at node `1`, and
`zetas i` and `-zetas i` at the two children of node `i`. -/
def nodeRoot (ω : R) (zetas : Nat → R) (i : Nat) : R :=
  if i ≤ 1 then ω else if i % 2 = 0 then zetas (i / 2) else -zetas (i / 2)

/-- After `l` layers, block `k` of `n` coefficients is congruent to `A`
modulo the modulus of node `2 ^ l + k`. -/
def Represents (root : Nat → R) (A : R[X]) (l n : Nat) (f : List R) : Prop :=
  ∀ k < 2 ^ l, X ^ n - C (root (2 ^ l + k)) ∣ A - blockPoly f (k * n) n

/-! ## Blocks as polynomials -/

theorem blockPoly_double (f : List R) (start len : Nat) :
    blockPoly f start (2 * len)
      = blockPoly f start len + X ^ len * blockPoly f (start + len) len := by
  unfold blockPoly
  rw [two_mul, Finset.sum_range_add, Finset.mul_sum]
  congr 1
  apply Finset.sum_congr rfl
  intro m _
  rw [pow_add, Nat.add_assoc]
  ring

/-- A block each of whose entries is `u` times the entry of one block plus `v`
times the entry of another. -/
theorem blockPoly_of_linear {f g : List R} {s t t' n : Nat} (u v : R)
    (entries : ∀ m < n, g.getD (s + m) 0 = u * f.getD (t + m) 0 + v * f.getD (t' + m) 0) :
    blockPoly g s n = C u * blockPoly f t n + C v * blockPoly f t' n := by
  unfold blockPoly
  rw [Finset.mul_sum, Finset.mul_sum, ← Finset.sum_add_distrib]
  apply Finset.sum_congr rfl
  intro m member
  rw [entries m (Finset.mem_range.mp member), C_add, C_mul, C_mul]
  ring

theorem blockPoly_map_mul (f : List R) (c : R) (start n : Nat) :
    blockPoly (f.map (· * c)) start n = blockPoly f start n * C c := by
  unfold blockPoly
  rw [Finset.sum_mul]
  apply Finset.sum_congr rfl
  intro m _
  have scaled : (f.map (· * c)).getD (start + m) 0 = f.getD (start + m) 0 * c := by
    rw [List.getD_eq_getElem?_getD, List.getD_eq_getElem?_getD, List.getElem?_map]
    cases f[start + m]? <;> simp
  rw [scaled, C_mul]
  ring

theorem blockPoly_two (f : List R) (start : Nat) :
    blockPoly f start 2 = C (f.getD start 0) + C (f.getD (start + 1) 0) * X := by
  simp [blockPoly, Finset.sum_range_succ]

theorem degree_blockPoly_lt (f : List R) (start n : Nat) : (blockPoly f start n).degree < n := by
  rw [blockPoly, Finset.sum_range (fun m => C (f.getD (start + m) 0) * X ^ m)]
  exact degree_sum_fin_lt _

theorem coeff_blockPoly (f : List R) (start n k : Nat) :
    (blockPoly f start n).coeff k = if k < n then f.getD (start + k) 0 else 0 := by
  simp only [blockPoly, finsetSum_coeff, coeff_C_mul_X_pow, Finset.sum_ite_eq, Finset.mem_range]

/-- Two lists of `n` entries with the same block are equal. -/
theorem eq_of_blockPoly_eq {f g : List R} {n : Nat} (lengthF : f.length = n) (lengthG : g.length = n)
    (same : blockPoly f 0 n = blockPoly g 0 n) : f = g := by
  apply List.ext_getElem (lengthF.trans lengthG.symm)
  intro k inF inG
  have coefficient := congrArg (·.coeff k) same
  simp only [coeff_blockPoly, if_pos (show k < n by omega), Nat.zero_add] at coefficient
  rwa [List.getD_eq_getElem _ _ inF, List.getD_eq_getElem _ _ inG] at coefficient

/-- A block each of whose entries is `u` times the entry of one list plus `v`
times the entry of another. -/
theorem blockPoly_of_combination {f g h : List R} {s n : Nat} (u v : R)
    (entries : ∀ m < n, h.getD (s + m) 0 = u * f.getD (s + m) 0 + v * g.getD (s + m) 0) :
    blockPoly h s n = C u * blockPoly f s n + C v * blockPoly g s n := by
  unfold blockPoly
  rw [Finset.mul_sum, Finset.mul_sum, ← Finset.sum_add_distrib]
  apply Finset.sum_congr rfl
  intro m member
  rw [entries m (Finset.mem_range.mp member), C_add, C_mul, C_mul]
  ring

/-- Both halves of block `b` of a layer that starts at position `0`, for a
butterfly that is linear in the pair it reads. -/
theorem blockPoly_layer (bf : R → R → R → R × R) (zetas : Nat → R) (next : Nat → Nat)
    {len count : Nat} {f : List R} (fits : 2 * len * count ≤ f.length) (i : Nat) {b : Nat}
    (block : b < count) (u v u' v' : R)
    (first : ∀ x y, (bf (zetas (next^[b] i)) x y).1 = u * x + v * y)
    (second : ∀ x y, (bf (zetas (next^[b] i)) x y).2 = u' * x + v' * y) :
    blockPoly (layer bf zetas next len count 0 i f).2 (b * (2 * len)) len
        = C u * blockPoly f (b * (2 * len)) len + C v * blockPoly f (b * (2 * len) + len) len ∧
      blockPoly (layer bf zetas next len count 0 i f).2 (b * (2 * len) + len) len
        = C u' * blockPoly f (b * (2 * len)) len
          + C v' * blockPoly f (b * (2 * len) + len) len := by
  have position : ∀ m, b * (2 * len) + m = 0 + 2 * len * b + m := fun m => by ring
  have fits' : 0 + 2 * len * count ≤ f.length := by omega
  constructor
  · apply blockPoly_of_linear
    intro m within
    rw [position, (getD_layer fits' i block within).1, first,
      show 0 + 2 * len * b + m + len = b * (2 * len) + len + m by ring]
  · apply blockPoly_of_linear
    intro m within
    rw [show b * (2 * len) + len + m = 0 + 2 * len * b + m + len by ring,
      (getD_layer fits' i block within).2, second, ← position]

/-! ## Splitting and merging moduli -/

/-- A block congruent to `A` modulo `X ^ (2 * len) - C ω` gives the block
`P + ζ Q` congruent to `A` modulo `X ^ len - C ζ`, for a square root `ζ` of
`ω`. -/
theorem dvd_half {ζ ω : R} (square : ζ * ζ = ω) {len : Nat} {A P Q : R[X]}
    (whole : X ^ (2 * len) - C ω ∣ A - (P + X ^ len * Q)) :
    X ^ len - C ζ ∣ A - (P + C ζ * Q) := by
  have factor : (X ^ len - C ζ) * (X ^ len + C ζ) = X ^ (2 * len) - C ω := by
    rw [← square, C_mul, two_mul, pow_add]
    ring
  have shifted : A - (P + C ζ * Q) = (A - (P + X ^ len * Q)) + (X ^ len - C ζ) * Q := by ring
  rw [shifted]
  exact dvd_add (dvd_trans (Dvd.intro _ factor) whole) (dvd_mul_right _ _)

/-- The two moduli `X ^ len - C ζ` and `X ^ len - C (-ζ)` are coprime when
`2 ζ` is a unit. -/
theorem isCoprime_halves (two : IsUnit (2 : R)) {ζ ζ' : R} (inverse : ζ' * ζ = -1) (len : Nat) :
    IsCoprime (X ^ len - C ζ : R[X]) (X ^ len - C (-ζ)) := by
  obtain ⟨half, halves⟩ : ∃ half : R, half * 2 = 1 := ⟨_, two.val_inv_mul⟩
  have halvesC : C half * 2 = (1 : R[X]) := by
    rw [← C_ofNat, ← C_mul, halves, C_1]
  have inverseC : C ζ' * C ζ = (-1 : R[X]) := by
    rw [← C_mul, inverse, C_neg, C_1]
  refine ⟨C half * C ζ', -(C half * C ζ'), ?_⟩
  rw [C_neg]
  linear_combination (-2 * C half) * inverseC + halvesC

/-- The Gentleman–Sande butterfly merges the blocks of the two children of a
node into a block of the node at twice the polynomial. -/
theorem dvd_merge (two : IsUnit (2 : R)) {ζ ζ' : R} (inverse : ζ' * ζ = -1) {len : Nat}
    {A U V : R[X]} (left : X ^ len - C ζ ∣ A - U) (right : X ^ len - C (-ζ) ∣ A - V) :
    X ^ (2 * len) - C (ζ * ζ) ∣ C 2 * A - ((U + V) + X ^ len * (C ζ' * (V - U))) := by
  have factor : X ^ (2 * len) - C (ζ * ζ) = (X ^ len - C ζ) * (X ^ len - C (-ζ)) := by
    rw [C_mul, C_neg, two_mul, pow_add]
    ring
  have inverseC : C ζ' * C ζ = (-1 : R[X]) := by
    rw [← C_mul, inverse, C_neg, C_1]
  have two' : (C 2 : R[X]) = 2 := C_ofNat 2
  rw [factor]
  apply (isCoprime_halves two inverse len).mul_dvd
  · -- modulo `X ^ len - C ζ` the merged block is `2 U`
    have rewritten : C 2 * A - ((U + V) + X ^ len * (C ζ' * (V - U)))
        = C 2 * (A - U) - (X ^ len - C ζ) * (C ζ' * (V - U)) := by
      rw [two']
      linear_combination (U - V) * inverseC
    rw [rewritten]
    exact dvd_sub (dvd_mul_of_dvd_right left _) (dvd_mul_right _ _)
  · -- modulo `X ^ len - C (-ζ)` it is `2 V`
    have rewritten : C 2 * A - ((U + V) + X ^ len * (C ζ' * (V - U)))
        = C 2 * (A - V) - (X ^ len - C (-ζ)) * (C ζ' * (V - U)) := by
      rw [two', C_neg]
      linear_combination (V - U) * inverseC
    rw [rewritten]
    exact dvd_sub (dvd_mul_of_dvd_right right _) (dvd_mul_right _ _)

/-- The product of two blocks of two coefficients modulo `X ^ 2 - C γ`. -/
theorem dvd_baseMul {γ a0 a1 b0 b1 : R} {A B : R[X]} (left : X ^ 2 - C γ ∣ A - (C a0 + C a1 * X))
    (right : X ^ 2 - C γ ∣ B - (C b0 + C b1 * X)) :
    X ^ 2 - C γ ∣ A * B - (C (a0 * b0 + a1 * b1 * γ) + C (a0 * b1 + a1 * b0) * X) := by
  have split : A * B - (C (a0 * b0 + a1 * b1 * γ) + C (a0 * b1 + a1 * b0) * X)
      = (A - (C a0 + C a1 * X)) * B + (C a0 + C a1 * X) * (B - (C b0 + C b1 * X))
        + (X ^ 2 - C γ) * C (a1 * b1) := by
    simp only [C_add, C_mul]
    ring
  rw [split]
  exact dvd_add (dvd_add (dvd_mul_of_dvd_left left B) (dvd_mul_of_dvd_right right _))
    (dvd_mul_right _ _)

/-! ## The tree of moduli -/

/-- Leaves that combine two lists entry by entry represent the same combination
of what the two lists represent: the transformed domain is linear. -/
theorem represents_combination {root : Nat → R} {A B : R[X]} {l n : Nat} {f g h : List R}
    (u v : R) (left : Represents root A l n f) (right : Represents root B l n g)
    (entries : ∀ m < 2 ^ l * n, h.getD m 0 = u * f.getD m 0 + v * g.getD m 0) :
    Represents root (C u * A + C v * B) l n h := by
  intro k below
  have inside : ∀ m < n, k * n + m < 2 ^ l * n := fun m within =>
    calc k * n + m < (k + 1) * n := by rw [Nat.succ_mul]; omega
      _ ≤ 2 ^ l * n := Nat.mul_le_mul_right _ below
  rw [blockPoly_of_combination u v fun m within => entries _ (inside m within),
    show C u * A + C v * B - (C u * blockPoly f (k * n) n + C v * blockPoly g (k * n) n)
      = C u * (A - blockPoly f (k * n) n) + C v * (B - blockPoly g (k * n) n) by ring]
  exact dvd_add (dvd_mul_of_dvd_right (left k below) _) (dvd_mul_of_dvd_right (right k below) _)

section Tree

variable {ω : R} {zetas : Nat → R}

theorem nodeRoot_even (i : Nat) (positive : 0 < i) :
    nodeRoot ω zetas (2 * i) = zetas i := by
  rw [nodeRoot, if_neg (by omega), if_pos (by omega), Nat.mul_div_cancel_left i (by omega)]

theorem nodeRoot_odd (i : Nat) (positive : 0 < i) :
    nodeRoot ω zetas (2 * i + 1) = -zetas i := by
  rw [nodeRoot, if_neg (by omega), if_neg (by omega),
    show (2 * i + 1) / 2 = i by omega]

theorem represents_start (A : R[X]) {n : Nat} {f : List R} (whole : blockPoly f 0 n = A) :
    Represents (nodeRoot ω zetas) A 0 n f := by
  intro k below
  rw [show k = 0 by simpa using below, Nat.zero_mul, whole, sub_self]
  exact dvd_zero _

/-- The children of node `2 ^ l + k` are the nodes `2 ^ (l + 1) + 2 k` and
`2 ^ (l + 1) + 2 k + 1`. -/
theorem children_of_node {l k' : Nat} (below : k' < 2 ^ (l + 1)) :
    ∃ k < 2 ^ l, (k' = 2 * k ∧ 2 ^ (l + 1) + k' = 2 * (2 ^ l + k)) ∨
      (k' = 2 * k + 1 ∧ 2 ^ (l + 1) + k' = 2 * (2 ^ l + k) + 1) := by
  rw [Nat.pow_succ] at below ⊢
  exact ⟨k' / 2, by omega, by omega⟩

/-- One forward layer: blocks of the parents at depth `l` to blocks of the
children at depth `l + 1`. -/
theorem represents_ctLayer {A : R[X]} {l len : Nat} {f : List R}
    (fits : 2 ^ l * (2 * len) ≤ f.length)
    (squares : ∀ k < 2 ^ l, zetas (2 ^ l + k) * zetas (2 ^ l + k) = nodeRoot ω zetas (2 ^ l + k))
    (parents : Represents (nodeRoot ω zetas) A l (2 * len) f) :
    Represents (nodeRoot ω zetas) A (l + 1) len
      (layer ctButterfly zetas Nat.succ len (2 ^ l) 0 (2 ^ l) f).2 := by
  intro k' below
  have fits' : 2 * len * 2 ^ l ≤ f.length := by rw [Nat.mul_comm]; exact fits
  obtain ⟨k, within, ⟨rfl, node⟩ | ⟨rfl, node⟩⟩ := children_of_node below
  all_goals
    have factor : Nat.succ^[k] (2 ^ l) = 2 ^ l + k := Nat.succ_iterate _ _
    have halves := blockPoly_layer ctButterfly zetas Nat.succ fits' (2 ^ l) within
      1 (zetas (2 ^ l + k)) 1 (-zetas (2 ^ l + k))
      (fun x y => by rw [factor, ctButterfly, one_mul])
      (fun x y => by rw [factor, ctButterfly, one_mul, neg_mul, sub_eq_add_neg])
    have parent := parents k within
    rw [blockPoly_double] at parent
    rw [node]
  · rw [nodeRoot_even _ (by positivity), show 2 * k * len = k * (2 * len) by ring, halves.1,
      C_1, one_mul]
    exact dvd_half (squares k within) parent
  · rw [nodeRoot_odd _ (by positivity), show (2 * k + 1) * len = k * (2 * len) + len by ring,
      halves.2, C_1, one_mul]
    exact dvd_half (by rw [neg_mul_neg]; exact squares k within) parent

/-- One inverse layer: blocks of the children at depth `l + 1` to blocks of
the parents at depth `l`, at twice the polynomial. -/
theorem represents_gsLayer (two : IsUnit (2 : R)) {A : R[X]} {l len : Nat} {f : List R}
    (fits : 2 ^ l * (2 * len) ≤ f.length)
    (squares : ∀ k < 2 ^ l, zetas (2 ^ l + k) * zetas (2 ^ l + k) = nodeRoot ω zetas (2 ^ l + k))
    (inverses : ∀ k < 2 ^ l, zetas (2 ^ (l + 1) - 1 - k) * zetas (2 ^ l + k) = -1)
    (children : Represents (nodeRoot ω zetas) A (l + 1) len f) :
    Represents (nodeRoot ω zetas) (C 2 * A) l (2 * len)
      (layer gsButterfly zetas Nat.pred len (2 ^ l) 0 (2 ^ (l + 1) - 1) f).2 := by
  intro k within
  have factor : Nat.pred^[k] (2 ^ (l + 1) - 1) = 2 ^ (l + 1) - 1 - k := Nat.pred_iterate _ _
  set ζ' := zetas (2 ^ (l + 1) - 1 - k)
  have fits' : 2 * len * 2 ^ l ≤ f.length := by rw [Nat.mul_comm]; exact fits
  have halves := blockPoly_layer gsButterfly zetas Nat.pred fits' (2 ^ (l + 1) - 1) within
    1 1 (-ζ') ζ'
    (fun x y => by rw [factor, gsButterfly, one_mul, one_mul])
    (fun x y => by rw [factor, gsButterfly]; ring)
  have twice : 2 ^ (l + 1) = 2 * 2 ^ l := Nat.pow_succ'
  have left := children (2 * k) (by omega)
  have right := children (2 * k + 1) (by omega)
  rw [show 2 ^ (l + 1) + 2 * k = 2 * (2 ^ l + k) by omega,
    nodeRoot_even _ (by positivity), show 2 * k * len = k * (2 * len) by ring] at left
  rw [show 2 ^ (l + 1) + (2 * k + 1) = 2 * (2 ^ l + k) + 1 by omega,
    nodeRoot_odd _ (by positivity), show (2 * k + 1) * len = k * (2 * len) + len by ring] at right
  rw [blockPoly_double, halves.1, halves.2, ← squares k within]
  have merged := dvd_merge two (inverses k within) left right
  convert merged using 2
  simp only [C_1, C_neg]
  ring

/-- Every forward layer from depth `l` on, `layers` of them, starting with
pairs `w * 2 ^ layers / 2` apart and the table index at `2 ^ l`. -/
theorem represents_ctNetwork {A : R[X]} {w depth size : Nat} (positive : 0 < w)
    (squares : ∀ i, 0 < i → i < 2 ^ depth → zetas i * zetas i = nodeRoot ω zetas i) :
    ∀ (layers l : Nat) (f : List R), l + layers ≤ depth →
      f.length = size → size = 2 ^ (l + layers) * w →
      Represents (nodeRoot ω zetas) A l (w * 2 ^ layers) f →
      Represents (nodeRoot ω zetas) A (l + layers) w
        (network ctButterfly zetas Nat.succ (· / 2) size layers (w * 2 ^ layers / 2) (2 ^ l) f)
  | 0, l, f, _, _, _, parents => by simpa [network] using parents
  | layers + 1, l, f, deep, length, sized, parents => by
    have len : w * 2 ^ (layers + 1) / 2 = w * 2 ^ layers := by
      rw [Nat.pow_succ, ← Nat.mul_assoc, Nat.mul_div_cancel _ (by norm_num)]
    have blocks : size / (2 * (w * 2 ^ layers)) = 2 ^ l := by
      rw [sized, show l + (layers + 1) = l + layers + 1 by omega, Nat.pow_succ, Nat.pow_add,
        show 2 ^ l * 2 ^ layers * 2 * w = 2 ^ l * (2 * (w * 2 ^ layers)) by ring,
        Nat.mul_div_cancel _ (by positivity)]
    have fits : 2 ^ l * (2 * (w * 2 ^ layers)) ≤ f.length := by
      rw [length, sized, Nat.pow_add, Nat.pow_succ]
      apply le_of_eq
      ring
    have nodes : ∀ k < 2 ^ l, 0 < 2 ^ l + k ∧ 2 ^ l + k < 2 ^ depth := by
      intro k below
      refine ⟨by positivity, ?_⟩
      calc 2 ^ l + k < 2 ^ (l + 1) := by rw [Nat.pow_succ]; omega
        _ ≤ 2 ^ depth := Nat.pow_le_pow_right (by norm_num) (by omega)
    have stepped : Represents (nodeRoot ω zetas) A (l + 1) (w * 2 ^ layers)
        (layer ctButterfly zetas Nat.succ (w * 2 ^ layers) (2 ^ l) 0 (2 ^ l) f).2 :=
      represents_ctLayer fits
        (fun k below => squares _ (nodes k below).1 (nodes k below).2)
        (by rw [show 2 * (w * 2 ^ layers) = w * 2 ^ (layers + 1) by ring]; exact parents)
    rw [network, len, blocks, layer_index, Nat.succ_iterate, ← Nat.two_mul, ← Nat.pow_succ',
      show l + (layers + 1) = l + 1 + layers by omega]
    exact represents_ctNetwork positive squares layers (l + 1) _ (by omega) (by simp [length])
      (by rw [sized]; congr 2; omega) stepped

/-- Every inverse layer from depth `d + layers` up to depth `d`, starting with
pairs `w` apart and the table index at `2 ^ (d + layers) - 1`; each layer
doubles the polynomial. -/
theorem represents_gsNetwork (two : IsUnit (2 : R)) {d depth size : Nat}
    (squares : ∀ i, 0 < i → i < 2 ^ depth → zetas i * zetas i = nodeRoot ω zetas i)
    (inverses : ∀ l < depth, ∀ k < 2 ^ l,
      zetas (2 ^ (l + 1) - 1 - k) * zetas (2 ^ l + k) = -1) :
    ∀ (layers w : Nat) (A : R[X]) (f : List R), 0 < w → d + layers ≤ depth →
      f.length = size → size = 2 ^ (d + layers) * w →
      Represents (nodeRoot ω zetas) A (d + layers) w f →
      Represents (nodeRoot ω zetas) (C (2 ^ layers) * A) d (w * 2 ^ layers)
        (network gsButterfly zetas Nat.pred (· * 2) size layers w (2 ^ (d + layers) - 1) f)
  | 0, w, A, f, _, _, _, _, leaves => by simpa [network] using leaves
  | layers + 1, w, A, f, positive, deep, length, sized, children => by
    have depthNext : d + (layers + 1) = d + layers + 1 := by omega
    have blocks : size / (2 * w) = 2 ^ (d + layers) := by
      rw [sized, depthNext, Nat.pow_succ,
        show 2 ^ (d + layers) * 2 * w = 2 ^ (d + layers) * (2 * w) by ring,
        Nat.mul_div_cancel _ (by omega)]
    have fits : 2 ^ (d + layers) * (2 * w) ≤ f.length := by
      rw [length, sized, depthNext, Nat.pow_succ]
      apply le_of_eq
      ring
    have nodes : ∀ k < 2 ^ (d + layers),
        0 < 2 ^ (d + layers) + k ∧ 2 ^ (d + layers) + k < 2 ^ depth := by
      intro k below
      refine ⟨by positivity, ?_⟩
      calc 2 ^ (d + layers) + k < 2 ^ (d + layers + 1) := by rw [Nat.pow_succ]; omega
        _ ≤ 2 ^ depth := Nat.pow_le_pow_right (by norm_num) (by omega)
    have stepped : Represents (nodeRoot ω zetas) (C 2 * A) (d + layers) (2 * w)
        (layer gsButterfly zetas Nat.pred w (2 ^ (d + layers)) 0 (2 ^ (d + layers + 1) - 1) f).2 :=
      represents_gsLayer two fits (fun k below => squares _ (nodes k below).1 (nodes k below).2)
        (inverses _ (by omega)) (by rw [← depthNext]; exact children)
    have lastIndex : 2 ^ (d + layers + 1) - 1 - 2 ^ (d + layers) = 2 ^ (d + layers) - 1 := by
      rw [Nat.pow_succ]
      omega
    rw [network, blocks, depthNext, layer_index, Nat.pred_iterate, lastIndex,
      show C (2 ^ (layers + 1)) * A = C (2 ^ layers) * (C 2 * A) by rw [pow_succ, C_mul]; ring,
      show w * 2 ^ (layers + 1) = w * 2 * 2 ^ layers by ring]
    exact represents_gsNetwork two squares inverses layers (w * 2) (C 2 * A) _
      (by omega) (by omega) (by simp [length])
      (by rw [sized, depthNext, Nat.pow_succ]; ring) (by rw [Nat.mul_comm]; exact stepped)

end Tree

/-! ## Every list of leaves is a transform -/

/-- A monic polynomial divides no nonzero polynomial of smaller degree. -/
theorem eq_zero_of_monic_dvd {P Q : R[X]} (monic : P.Monic) (divides : P ∣ Q)
    (low : Q.degree < P.degree) : Q = 0 := by
  by_contra nonzero
  exact monic.not_dvd_of_degree_lt nonzero low divides

section Onto

variable {ω : R} {zetas : Nat → R} {depth w : Nat}

/-- All `depth` forward layers of a list of `2 ^ depth * w` entries represent
the polynomial of the whole list. -/
theorem represents_forward (positive : 0 < w)
    (squares : ∀ i, 0 < i → i < 2 ^ depth → zetas i * zetas i = nodeRoot ω zetas i)
    {f : List R} (length : f.length = 2 ^ depth * w) :
    Represents (nodeRoot ω zetas) (blockPoly f 0 (w * 2 ^ depth)) depth w
      (network ctButterfly zetas Nat.succ (· / 2) (2 ^ depth * w) depth (w * 2 ^ depth / 2) 1 f) := by
  have leaves := represents_ctNetwork positive squares depth 0 f (by omega) length
    (by rw [Nat.zero_add]) (represents_start _ rfl)
  rwa [Nat.zero_add, Nat.pow_zero] at leaves

variable [Nontrivial R] (two : IsUnit (2 : R)) (positive : 0 < w)
  (squares : ∀ i, 0 < i → i < 2 ^ depth → zetas i * zetas i = nodeRoot ω zetas i)
  (inverses : ∀ l < depth, ∀ k < 2 ^ l, zetas (2 ^ (l + 1) - 1 - k) * zetas (2 ^ l + k) = -1)
include two positive squares inverses

/-- The forward network is injective on lists of `2 ^ depth * w` entries: the
inverse network takes the leaves back to `2 ^ depth` times the polynomial of
the list, and `2 ^ depth` is a unit. -/
theorem eq_of_forward_eq {f g : List R} (lengthF : f.length = 2 ^ depth * w)
    (lengthG : g.length = 2 ^ depth * w)
    (same : network ctButterfly zetas Nat.succ (· / 2) (2 ^ depth * w) depth (w * 2 ^ depth / 2) 1 f
      = network ctButterfly zetas Nat.succ (· / 2) (2 ^ depth * w) depth (w * 2 ^ depth / 2) 1 g) :
    f = g := by
  set leaves := network ctButterfly zetas Nat.succ (· / 2) (2 ^ depth * w) depth (w * 2 ^ depth / 2) 1 g
  have leavesLength : leaves.length = 2 ^ depth * w := by rw [length_network, lengthG]
  -- both lists go back through the inverse network to the same block
  have back : ∀ {h : List R}, Represents (nodeRoot ω zetas) (blockPoly h 0 (w * 2 ^ depth)) depth w leaves →
      X ^ (w * 2 ^ depth) - C (nodeRoot ω zetas 1) ∣ C (2 ^ depth) * blockPoly h 0 (w * 2 ^ depth)
        - blockPoly (network gsButterfly zetas Nat.pred (· * 2) (2 ^ depth * w) depth w
          (2 ^ depth - 1) leaves) 0 (w * 2 ^ depth) := by
    intro h represented
    have root := @represents_gsNetwork R _ ω zetas two 0 depth (2 ^ depth * w) squares inverses
      depth w _ leaves positive (by omega) leavesLength (by rw [Nat.zero_add])
      (by rwa [Nat.zero_add]) 0 (by norm_num)
    rwa [Nat.zero_add, Nat.zero_mul, Nat.pow_zero] at root
  have left := back (by rw [← same]; exact represents_forward positive squares lengthF)
  have right := back (represents_forward positive squares lengthG)
  have difference := dvd_sub left right
  rw [sub_sub_sub_cancel_right, ← mul_sub, ((two.pow depth).map C).dvd_mul_left] at difference
  have positiveN : 0 < w * 2 ^ depth := by positivity
  have low : (blockPoly f 0 (w * 2 ^ depth) - blockPoly g 0 (w * 2 ^ depth)).degree
      < (X ^ (w * 2 ^ depth) - C (nodeRoot ω zetas 1)).degree := by
    rw [degree_X_pow_sub_C positiveN]
    exact lt_of_le_of_lt (degree_sub_le _ _)
      (max_lt (degree_blockPoly_lt _ _ _) (degree_blockPoly_lt _ _ _))
  have zero := eq_zero_of_monic_dvd (monic_X_pow_sub_C _ (by omega)) difference low
  exact eq_of_blockPoly_eq (by rw [lengthF, Nat.mul_comm]) (by rw [lengthG, Nat.mul_comm])
    (sub_eq_zero.mp zero)

/-- Over a finite ring every list of `2 ^ depth * w` leaves represents some
polynomial: an injective map of the finite set of such lists to itself is onto. -/
theorem exists_represents [Finite R] {leaves : List R} (length : leaves.length = 2 ^ depth * w) :
    ∃ A, Represents (nodeRoot ω zetas) A depth w leaves := by
  let forward : List.Vector R (2 ^ depth * w) → List.Vector R (2 ^ depth * w) := fun v =>
    ⟨network ctButterfly zetas Nat.succ (· / 2) (2 ^ depth * w) depth (w * 2 ^ depth / 2) 1 v.1,
      by rw [length_network, v.2]⟩
  have injective : Function.Injective forward := fun v v' same =>
    Subtype.ext (eq_of_forward_eq two positive squares inverses v.2 v'.2 (congrArg Subtype.val same))
  obtain ⟨v, image⟩ := Finite.injective_iff_surjective.mp injective ⟨leaves, length⟩
  have transformed : network ctButterfly zetas Nat.succ (· / 2) (2 ^ depth * w) depth
      (w * 2 ^ depth / 2) 1 v.1 = leaves := congrArg Subtype.val image
  have represented := represents_forward positive squares v.2
  rw [transformed] at represented
  exact ⟨_, represented⟩

end Onto

/-! ## Reading the result -/

/-- Taking the remainder keeps the class modulo the divisor. -/
theorem mk_modByMonic (P A : R[X]) : AdjoinRoot.mk P (A %ₘ P) = AdjoinRoot.mk P A := by
  rw [AdjoinRoot.mk_eq_mk]
  have split := modByMonic_add_div A P
  exact ⟨-(A /ₘ P), by linear_combination split⟩

section Remainder

variable {N : Nat} (positive : 0 < N)
include positive

theorem monic_X_pow_add_one : (X ^ N + 1 : R[X]).Monic := by
  simpa using monic_X_pow_add_C (1 : R) (show N ≠ 0 by omega)

variable [Nontrivial R]

/-- A block of `N` coefficients is its own remainder modulo `X ^ N + 1`. -/
theorem blockPoly_modByMonic (f : List R) : blockPoly f 0 N %ₘ (X ^ N + 1) = blockPoly f 0 N := by
  have degree : (X ^ N + 1 : R[X]).degree = N := by
    simpa using degree_X_pow_add_C positive (1 : R)
  rw [(modByMonic_eq_self_iff (monic_X_pow_add_one positive)).mpr]
  rw [degree]
  exact degree_blockPoly_lt f 0 N

/-- A block of `N` coefficients congruent to `A` modulo `X ^ N + 1` is the
remainder of `A`. -/
theorem blockPoly_eq_modByMonic {A : R[X]} {f : List R}
    (congruent : X ^ N - C (-1) ∣ A - blockPoly f 0 N) :
    blockPoly f 0 N = A %ₘ (X ^ N + 1) := by
  rw [C_neg, C_1, sub_neg_eq_add] at congruent
  rw [modByMonic_eq_of_dvd_sub (monic_X_pow_add_one positive) congruent,
    blockPoly_modByMonic positive]

/-- A polynomial of degree below `N` is the remainder of every polynomial in
its class modulo `X ^ N + 1`. -/
theorem eq_modByMonic_of_mk_eq {A B : R[X]} (low : A.degree < N)
    (same : AdjoinRoot.mk (X ^ N + 1) A = AdjoinRoot.mk (X ^ N + 1) B) :
    A = B %ₘ (X ^ N + 1) := by
  have degree : (X ^ N + 1 : R[X]).degree = N := by
    simpa using degree_X_pow_add_C positive (1 : R)
  rw [← modByMonic_eq_of_dvd_sub (monic_X_pow_add_one positive) (AdjoinRoot.mk_eq_mk.mp same)]
  exact ((modByMonic_eq_self_iff (monic_X_pow_add_one positive)).mpr (degree ▸ low)).symm

end Remainder

end StrongSwan.Foundations.NegacyclicNtt
