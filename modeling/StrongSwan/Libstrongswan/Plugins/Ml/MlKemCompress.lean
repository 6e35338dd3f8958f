import Mathlib
import StrongSwan.Foundations.Rounding
import StrongSwan.Libstrongswan.Plugins.Ml.MlKemNtt
import StrongSwan.Libstrongswan.Plugins.Ml.MlBitpacker

/-!
Contract: the compression of `ml_kem.c` and its message codec: `compress_polys_arr` and
`decompress_poly_arr` around the bit packer, `message_to_poly` with `ml_assign_cond_int16` of
`ml_utils.c`, and `poly_to_message`.

FIPS 203 rounds `2 ^ d x / q` and `q y / 2 ^ d` to the nearest integer (`Compress_d`,
`Decompress_d`). The code avoids the division by `q`: `compress_polys_arr` multiplies by
`m = [2 ^ 63 / q]` and shifts right by `63 - d`, and `poly_to_message` multiplies by
`n = [2 ^ 31 / q]` and shifts right by 30. Both land on the rounding of `Rounding` for every
coefficient at most `q`, the bound the arithmetic of `MlKemNtt` keeps.

`n` is computed in `int`, where `1 << 31` does not fit: the compilers the code is built with
wrap it to `INT_MIN`, so the quotient is negative and `n` is `2 ^ 32 - 645083` rather than
`645084`. The product by `n` is then the negated product modulo `2 ^ 32`, and the bit it
yields is still the rounded one, since negating the product turns rounding into rounding the
other way, which keeps the parity when no quotient lies halfway.

Owns: the model of the five functions; that each computes its FIPS 203 counterpart on
coefficients at most `q`; that decompressing what was compressed moves every coefficient by at
most `(q + 2 ^ d) / 2 ^ (d + 1)` modulo `q`; and that decoding a message is robust to noise of
centred size below `832` in every coefficient.

Does not own: the encryption that adds the noise, in `MlKemPke`.
-/

namespace StrongSwan.Libstrongswan.Plugins.Ml.MlKemCompress

open StrongSwan.Foundations.Rounding StrongSwan.Foundations.Bytes StrongSwan.Foundations.BitFields
open StrongSwan.Libstrongswan.Plugins.Ml.MlKem StrongSwan.Libstrongswan.Plugins.Ml.MlKemNtt
open StrongSwan.Libstrongswan.Plugins.Ml.MlBitpacker

/-! ## FIPS 203 -/

/-- FIPS 203 (4.7), `Compress_d(x) = ⌈(2 ^ d / q) x⌋ mod 2 ^ d`. -/
def compressSpec (d x : Nat) : Nat := roundDiv (2 ^ d * x) mlKemQ % 2 ^ d

/-- FIPS 203 (4.8), `Decompress_d(y) = ⌈(q / 2 ^ d) y⌋`. -/
def decompressSpec (d y : Nat) : Nat := roundDiv (mlKemQ * y) (2 ^ d)

theorem compressSpec_lt (d x : Nat) : compressSpec d x < 2 ^ d := Nat.mod_lt _ (Nat.two_pow_pos d)

/-! ## Compression -/

/-- The inner loop body of `compress_polys_arr` on one coefficient: `p = 63 - d`,
`m = ((1ULL << (p + d)) + ML_KEM_Q / 2) / ML_KEM_Q` and `((f * m + (1ULL << (p - 1))) >> p) & mask`
in `uint64_t`. The `int` mask `(1 << d) - 1` is taken in `uint64_t`, where it has the same value
for every `d` below 31. -/
def compressCoefficient (d : Nat) (coefficient : UInt16) : UInt64 :=
  let p := 63 - d
  let m : UInt64 := (((1 : UInt64) <<< (p + d).toUInt64) + 3329 / 2) / 3329
  let mask : UInt64 := ((1 : UInt64) <<< d.toUInt64) - 1
  ((coefficient.toUInt64 * m + ((1 : UInt64) <<< (p - 1).toUInt64)) >>> p.toUInt64) &&& mask

/-- The fields `compress_polys_arr(k, d, a, out)` hands `write_bits`, polynomial by polynomial:
each compressed coefficient, cut to the `uint32_t` parameter, with width `d`. -/
def compressFields (k d : Nat) (a : List MlPoly) : List (UInt32 × Nat) :=
  (List.range k).flatMap fun i =>
    (List.range mlKemN).map fun j => ((compressCoefficient d ((a.getD i zeroPoly).f.getD j 0)).toUInt32, d)

/-- `compress_polys_arr(k, d, a, out)`: the packer over the `k * d * ML_KEM_N / 8` bytes at
`out`, which held `out` before. -/
def compressPolysArr (k d : Nat) (a : List MlPoly) (out : List UInt8) : List UInt8 :=
  (pack out (compressFields k d a)).2

/-! ## Decompression -/

/-- The inner loop body of `decompress_poly_arr`: `(f * ML_KEM_Q + rounding) >> d` in `uint32_t`
with `rounding = 1 << (d - 1)`, stored into a `uint16_t` coefficient. -/
def decompressCoefficient (d : Nat) (f : UInt32) : UInt16 :=
  let rounding : UInt16 := 1 <<< (d - 1).toUInt16
  ((f * 3329 + rounding.toUInt32) >>> d.toUInt32).toUInt16

/-- `decompress_poly_arr(k, d, in, a)` over the `k * d * ML_KEM_N / 8` bytes `input`: coefficient
`j` of polynomial `i` comes from read number `ML_KEM_N * i + j`. -/
def decompressPolyArr (k d : Nat) (input : List UInt8) : List MlPoly :=
  (List.range k).map fun i =>
    ⟨(List.range mlKemN).map fun j =>
        decompressCoefficient d (((createFromData input).readAll (List.replicate (k * mlKemN) d)).getD
          (mlKemN * i + j) (false, 0)).2,
      by rw [List.length_map, List.length_range]⟩

/-! ## The message codec -/

/-- `ml_assign_cond_int16`: `dst ^ (-cond & (val ^ dst))`, `val` where `cond` is 1 and `dst`
where it is 0. The coefficient is passed as the `int16_t` it has the bits of. -/
def mlAssignCondInt16 (dst val cond : UInt16) : UInt16 :=
  let cond := 0 - cond
  dst ^^^ (cond &&& (val ^^^ dst))

/-- `message_to_poly`: bit `j` of byte `i` of the message selects `(ML_KEM_Q + 1) / 2` for
coefficient `8 i + j`. -/
def messageToPoly (m : List UInt8) : MlPoly where
  f := (List.range mlKemSeedLen).flatMap fun i =>
    (List.range 8).map fun j => mlAssignCondInt16 0 ((3329 + 1) / 2) ((m.getD i 0 >>> j.toUInt8) &&& 1).toUInt16
  length_f := by
    rw [length_flatMap_range (fun _ => by rw [List.length_map, List.length_range])]
    rfl

/-- `n = ((1 << (k + 1)) + ML_KEM_Q / 2) / ML_KEM_Q` of `poly_to_message` with `k = 30`, in `int`
as the code computes it, then converted to `uint32_t`. -/
def messageFactor : UInt32 := ((((1 : Int32) <<< (30 + 1)) + 3329 / 2) / 3329).toUInt32

/-- The compression `((f * n + (1 << (k - 1))) >> k) & 0x1` of `poly_to_message` in `uint32_t`. -/
def messageBit (coefficient : UInt16) : UInt32 :=
  ((coefficient.toUInt32 * messageFactor + ((1 : Int32) <<< (30 - 1)).toUInt32) >>> (30 : UInt32)) &&& 1

/-- `poly_to_message`: byte `i` ors in the bit of coefficient `8 i + j` at bit `j`. -/
def polyToMessage (p : MlPoly) : List UInt8 :=
  (List.range mlKemSeedLen).map fun i =>
    (List.range 8).foldl (fun mi j => mi ||| (messageBit (p.f.getD (8 * i + j) 0) <<< j.toUInt32).toUInt8) 0

theorem messageToPoly_f (m : List UInt8) :
    (messageToPoly m).f = (List.range mlKemSeedLen).flatMap fun i =>
      (List.range 8).map fun j => mlAssignCondInt16 0 ((3329 + 1) / 2) ((m.getD i 0 >>> j.toUInt8) &&& 1).toUInt16 :=
  rfl

theorem polyToMessage_def (p : MlPoly) :
    polyToMessage p = (List.range mlKemSeedLen).map fun i =>
      (List.range 8).foldl (fun mi j => mi ||| (messageBit (p.f.getD (8 * i + j) 0) <<< j.toUInt32).toUInt8) 0 :=
  rfl

/-! ## One coefficient compressed -/

theorem toNat_one_shiftLeft {count : Nat} (below : count < 64) : ((1 : UInt64) <<< count.toUInt64).toNat = 2 ^ count := by
  have fits : 2 ^ count < 2 ^ 64 := Nat.pow_lt_pow_right (by decide) below
  rw [UInt64.toNat_shiftLeft, UInt64.toNat_one, UInt64.toNat_ofNat', Nat.mod_eq_of_lt (by omega : count < 2 ^ 64),
    Nat.mod_eq_of_lt below, Nat.one_shiftLeft, Nat.mod_eq_of_lt fits]

/-- `m = [2 ^ 63 / q]`, whatever `d` is: `p + d` is 63. -/
theorem compressFactor {d : Nat} (narrow : d ≤ 63) :
    (((1 : UInt64) <<< (63 - d + d).toUInt64) + 3329 / 2) / 3329 = 2770613408487466 := by
  rw [Nat.sub_add_cancel narrow]
  decide

/-- `compress_polys_arr` computes `Compress_d` on every coefficient at most `q`, for `d` from
1 to 11: `m` undershoots `2 ^ 63 / q` by `1494 / q`, which moves no product across a rounding
boundary. -/
theorem toNat_compressCoefficient {d : Nat} (positive : 0 < d) (narrow : d ≤ 11) {coefficient : UInt16}
    (bounded : Bounded coefficient) : (compressCoefficient d coefficient).toNat = compressSpec d coefficient.toNat := by
  unfold Bounded mlKemQ at bounded
  set f := coefficient.toNat
  have wide : 52 ≤ 63 - d := by omega
  have half : 2 ^ (63 - d - 1) * 2 = 2 ^ (63 - d) := by
    rw [← Nat.pow_succ]
    congr 1
    omega
  have bigHalf : 2 ^ 51 ≤ 2 ^ (63 - d - 1) := Nat.pow_le_pow_right (by decide) (by omega)
  have rounding := @toNat_one_shiftLeft (63 - d - 1) (by omega)
  -- the product and the sum stay below `2 ^ 64`
  have product : (coefficient.toUInt64 * 2770613408487466).toNat = f * 2770613408487466 := by
    rw [UInt64.toNat_mul, UInt16.toNat_toUInt64]
    exact Nat.mod_eq_of_lt (by change f * 2770613408487466 < 2 ^ 64; omega)
  have sum : (coefficient.toUInt64 * 2770613408487466 + (1 : UInt64) <<< (63 - d - 1).toUInt64).toNat =
      f * 2770613408487466 + 2 ^ (63 - d - 1) := by
    have room : 2 ^ (63 - d - 1) ≤ 2 ^ 62 := Nat.pow_le_pow_right (by decide) (by omega)
    rw [UInt64.toNat_add, product, rounding]
    exact Nat.mod_eq_of_lt (by omega)
  have mask : (((1 : UInt64) <<< d.toUInt64) - 1).toNat = 2 ^ d - 1 := by
    have power := @toNat_one_shiftLeft d (by omega)
    rw [UInt64.toNat_sub_of_le _ _ (by rw [UInt64.le_iff_toNat_le, power, UInt64.toNat_one]; exact Nat.one_le_two_pow),
      power, UInt64.toNat_one]
  have shift : ((63 - d).toUInt64.toNat % 64) = 63 - d := by
    rw [UInt64.toNat_ofNat', Nat.mod_eq_of_lt (by omega : 63 - d < 2 ^ 64), Nat.mod_eq_of_lt (by omega)]
  -- the error of `m` against `2 ^ 63 / q`, scaled by the coefficient, is far below `2 ^ (63 - d)`
  have close : |2 * (f : ℤ) * (2770613408487466 * 3329 - 2 ^ (63 - d + d)) + 2 * 3329 * ((2 ^ (63 - d - 1) : ℕ) : ℤ)
      - 3329 * 2 ^ (63 - d)| < 2 ^ (63 - d) := by
    rw [Nat.sub_add_cancel (by omega : d ≤ 63)]
    have halfInt : (2 : ℤ) * ((2 ^ (63 - d - 1) : ℕ) : ℤ) = 2 ^ (63 - d) := by exact_mod_cast (by omega : 2 * 2 ^ (63 - d - 1) = 2 ^ (63 - d))
    have bigInt : (2 : ℤ) ^ 52 ≤ 2 ^ (63 - d) := pow_le_pow_right₀ (by norm_num) wide
    have fInt : (f : ℤ) ≤ 3329 := by exact_mod_cast bounded
    rw [abs_lt]
    constructor <;> nlinarith
  simp only [compressCoefficient]
  rw [compressFactor (by omega), UInt64.toNat_and, UInt64.toNat_shiftRight, sum, shift, mask,
    Nat.and_two_pow_sub_one_eq_mod, Nat.shiftRight_eq_div_pow, div_eq_roundDiv (by decide) close]
  rfl

/-! ## One coefficient decompressed -/

section Decompress

variable {d : Nat} (positive : 0 < d) (narrow : d ≤ 11)
include positive narrow

/-- `Decompress_d` stays below `q`: the largest value `2 ^ d - 1` comes back below `q` by more
than the half that `rounding` adds. -/
theorem decompressSpec_lt {y : Nat} (below : y < 2 ^ d) : decompressSpec d y < mlKemQ := by
  have half : 2 ^ (d - 1) ≤ 2 ^ 10 := Nat.pow_le_pow_right (by decide) (by omega)
  have whole : 2 ^ d = 2 * 2 ^ (d - 1) := by
    rw [← Nat.pow_succ']
    congr 1
    omega
  rw [decompressSpec, roundDiv_two_pow positive, Nat.div_lt_iff_lt_mul (Nat.two_pow_pos d)]
  unfold mlKemQ
  have : 3329 * y + 3329 ≤ 3329 * 2 ^ d := by rw [← Nat.mul_succ]; exact Nat.mul_le_mul_left _ below
  omega

theorem toNat_decompressCoefficient {y : UInt32} (below : y.toNat < 2 ^ d) :
    (decompressCoefficient d y).toNat = decompressSpec d y.toNat := by
  have small : 2 ^ d ≤ 2 ^ 11 := Nat.pow_le_pow_right (by decide) narrow
  have half : 2 ^ (d - 1) ≤ 2 ^ 10 := Nat.pow_le_pow_right (by decide) (by omega)
  have rounding : ((1 : UInt16) <<< (d - 1).toUInt16).toUInt32.toNat = 2 ^ (d - 1) := by
    rw [UInt16.toNat_toUInt32, UInt16.toNat_shiftLeft, UInt16.toNat_one, UInt16.toNat_ofNat',
      Nat.mod_eq_of_lt (by omega : d - 1 < 2 ^ 16), Nat.mod_eq_of_lt (by omega : d - 1 < 16), Nat.one_shiftLeft,
      Nat.mod_eq_of_lt (by omega)]
  have product : (y * 3329).toNat = y.toNat * 3329 := by
    have literal : (3329 : UInt32).toNat = 3329 := rfl
    rw [UInt32.toNat_mul, literal]
    exact Nat.mod_eq_of_lt (by omega)
  have sum : (y * 3329 + ((1 : UInt16) <<< (d - 1).toUInt16).toUInt32).toNat = y.toNat * 3329 + 2 ^ (d - 1) := by
    rw [UInt32.toNat_add, product, rounding]
    exact Nat.mod_eq_of_lt (by omega)
  have value := decompressSpec_lt positive narrow below
  rw [decompressSpec, roundDiv_two_pow positive] at value ⊢
  simp only [decompressCoefficient]
  rw [UInt32.toNat_toUInt16, UInt32.toNat_shiftRight, sum, toNat_toUInt32, Nat.mod_eq_of_lt (by omega : d < 2 ^ 32),
    Nat.mod_eq_of_lt (by omega : d < 32), Nat.shiftRight_eq_div_pow, Nat.mul_comm y.toNat 3329]
  exact Nat.mod_eq_of_lt (by unfold mlKemQ at value; omega)

/-- A coefficient at most `q`, compressed to `d` bits and decompressed, is itself plus an error
of at most `(q + 2 ^ d) / 2 ^ (d + 1)`, modulo `q`. -/
theorem exists_residue_decompress_compress {coefficient : UInt16} (bounded : Bounded coefficient) :
    ∃ e : ℤ, |e| ≤ ((mlKemQ + 2 ^ d) / 2 ^ (d + 1) : Nat) ∧
      residue (decompressCoefficient d (compressCoefficient d coefficient).toUInt32) = residue coefficient + e := by
  have fits : (compressCoefficient d coefficient).toUInt32.toNat = compressSpec d coefficient.toNat := by
    have below := compressSpec_lt d coefficient.toNat
    have small : 2 ^ d ≤ 2 ^ 11 := Nat.pow_le_pow_right (by decide) narrow
    rw [UInt64.toNat_toUInt32, toNat_compressCoefficient positive narrow bounded, Nat.mod_eq_of_lt (by omega)]
  obtain ⟨e, small, close⟩ := exists_roundDiv_scale_mod (d := d) (by decide : mlKemQ % 2 = 1) bounded
  refine ⟨e, small, ?_⟩
  rw [residue, toNat_decompressCoefficient positive narrow (by rw [fits]; exact compressSpec_lt d _), fits]
  exact close

end Decompress

/-! ## Polynomials through the packer -/

/-- A polynomial compressed and decompressed coefficient by coefficient. -/
def compressRoundTrip (d : Nat) (p : MlPoly) : MlPoly where
  f := p.f.map fun x => decompressCoefficient d (compressCoefficient d x).toUInt32
  length_f := by rw [List.length_map, p.length_f]

theorem getD_compressRoundTrip (d : Nat) (p : MlPoly) {j : Nat} (inside : j < mlKemN) :
    (compressRoundTrip d p).f.getD j 0 = decompressCoefficient d (compressCoefficient d (p.f.getD j 0)).toUInt32 := by
  rw [List.getD_eq_getElem (compressRoundTrip d p).f 0 (by rw [MlPoly.length_f]; exact inside),
    List.getD_eq_getElem p.f 0 (by rw [MlPoly.length_f]; exact inside)]
  exact List.getElem_map _

theorem toNat_compressMask {d : Nat} (narrow : d < 64) : (((1 : UInt64) <<< d.toUInt64) - 1).toNat = 2 ^ d - 1 := by
  have power := toNat_one_shiftLeft narrow
  rw [UInt64.toNat_sub_of_le _ _ (by rw [UInt64.le_iff_toNat_le, power, UInt64.toNat_one]; exact Nat.one_le_two_pow),
    power, UInt64.toNat_one]

/-- The mask keeps every compressed coefficient below `2 ^ d`, whatever the coefficient. -/
theorem toNat_compressCoefficient_lt {d : Nat} (narrow : d ≤ 11) (coefficient : UInt16) :
    (compressCoefficient d coefficient).toUInt32.toNat < 2 ^ d := by
  have small : 2 ^ d ≤ 2 ^ 11 := Nat.pow_le_pow_right (by decide) narrow
  simp only [compressCoefficient]
  rw [UInt64.toNat_toUInt32, UInt64.toNat_and, toNat_compressMask (by omega), Nat.and_two_pow_sub_one_eq_mod]
  have := Nat.mod_lt (((coefficient.toUInt64 * ((((1 : UInt64) <<< (63 - d + d).toUInt64) + 3329 / 2) / 3329) +
      (1 : UInt64) <<< (63 - d - 1).toUInt64) >>> (63 - d).toUInt64).toNat) (Nat.two_pow_pos d)
  rw [Nat.mod_eq_of_lt (by omega)]
  exact this

/-- Decompression lands at most at `q`, whatever was compressed. -/
theorem bounded_compressRoundTrip {d : Nat} (positive : 0 < d) (narrow : d ≤ 11) (p : MlPoly) :
    ∀ x ∈ (compressRoundTrip d p).f, Bounded x := by
  intro x member
  obtain ⟨c, -, rfl⟩ := List.mem_map.mp member
  have below := toNat_compressCoefficient_lt narrow c
  rw [Bounded, toNat_decompressCoefficient positive narrow below]
  exact Nat.le_of_lt (decompressSpec_lt positive narrow below)

theorem validWidths_replicate {d : Nat} (positive : 0 < d) (narrow : d < 32) :
    ∀ (offset count : Nat), validWidths offset (List.replicate count d) = true
  | _, 0 => rfl
  | offset, count + 1 => by
    rw [List.replicate_succ, validWidths_cons]
    exact ⟨⟨positive, by omega, Or.inl narrow⟩, validWidths_replicate positive narrow (offset + d) count⟩

theorem length_compressFields (k d : Nat) (a : List MlPoly) : (compressFields k d a).length = mlKemN * k :=
  length_flatMap_range (fun _ => by rw [List.length_map, List.length_range]) k

/-- Every field has width `d`. -/
theorem compressFields_widths (k d : Nat) (a : List MlPoly) :
    (compressFields k d a).map Prod.snd = List.replicate (k * mlKemN) d := by
  rw [List.eq_replicate_iff, List.length_map, length_compressFields, Nat.mul_comm]
  refine ⟨rfl, fun width member => ?_⟩
  obtain ⟨field, inFields, rfl⟩ := List.mem_map.mp member
  obtain ⟨i, -, inPolynomial⟩ := List.mem_flatMap.mp inFields
  obtain ⟨j, -, rfl⟩ := List.mem_map.mp inPolynomial
  rfl

/-- Field `ML_KEM_N * i + j` is coefficient `j` of polynomial `i`. -/
theorem getD_compressFields (k d : Nat) (a : List MlPoly) {i j : Nat} (polynomial : i < k) (coefficient : j < mlKemN)
    (default : UInt32 × Nat) :
    (compressFields k d a).getD (mlKemN * i + j) default =
      ((compressCoefficient d ((a.getD i zeroPoly).f.getD j 0)).toUInt32, d) := by
  rw [compressFields, getD_flatMap_range default (fun _ => by rw [List.length_map, List.length_range]) polynomial
    coefficient, List.getD_eq_getElem _ _ (by rw [List.length_map, List.length_range]; exact coefficient),
    List.getElem_map, List.getElem_range]

section Packed

variable {k d : Nat} (positive : 0 < d) (narrow : d ≤ 11) (a : List MlPoly) {out : List UInt8}
  (exact : out.length = k * d * mlKemN / 8)
include positive narrow exact

omit positive narrow in
theorem sum_compressFields_widths : ((compressFields k d a).map Prod.snd).sum = 8 * out.length := by
  rw [compressFields_widths, List.sum_replicate, exact, smul_eq_mul]
  unfold mlKemN
  rw [show k * d * 256 = 8 * (k * d * 32) by ring, Nat.mul_div_cancel_left _ (by decide)]
  ring

/-- `compress_polys_arr` fills its `k * d * 32` bytes with the compressed coefficients, `d` bits
each from the lowest bits of the first byte on. -/
theorem compressPolysArr_eq_leBytes :
    compressPolysArr k d a out = leBytes out.length (packedValue (fieldsValue (compressFields k d a))) := by
  have valid := validWidths_replicate positive (by omega) 0 (k * mlKemN)
  rw [← compressFields_widths k d a] at valid
  have fits := sum_compressFields_widths a exact
  -- the staging word reaches the end of the destination
  have whole : loaded out.length ((compressFields k d a).map Prod.snd).sum = out.length := by
    rw [loaded_def, fits]
    omega
  rw [compressPolysArr, pack_dst valid (by omega), whole, List.drop_length, List.append_nil]

theorem length_compressPolysArr : (compressPolysArr k d a out).length = out.length := by
  rw [compressPolysArr_eq_leBytes positive narrow a exact, length_leBytes]

/-- Reading the bytes back with `d` bits a field returns every compressed coefficient. -/
theorem decompressPolyArr_compressPolysArr :
    decompressPolyArr k d (compressPolysArr k d a out) = (List.range k).map fun i => compressRoundTrip d (a.getD i zeroPoly) := by
  have valid := validWidths_replicate positive (by omega) 0 (k * mlKemN)
  rw [← compressFields_widths k d a] at valid
  have reads := unpack_pack valid (by rw [sum_compressFields_widths a exact])
  rw [compressFields_widths] at reads
  refine List.map_congr_left fun i inRange => ?_
  have polynomial := List.mem_range.mp inRange
  apply MlPoly.ext
  dsimp only [compressRoundTrip]
  apply List.ext_getElem (by rw [List.length_map, List.length_map, List.length_range, (a.getD i zeroPoly).length_f])
  intro j inLeft inRight
  have coefficient : j < mlKemN := by rwa [List.length_map, List.length_range] at inLeft
  rw [List.getElem_map, List.getElem_map, List.getElem_range]
  -- read number `ML_KEM_N * i + j` is the field written there, which the mask keeps whole
  have index : mlKemN * i + j < (compressFields k d a).length := by
    rw [length_compressFields]
    calc mlKemN * i + j < mlKemN * i + mlKemN := by omega
      _ ≤ mlKemN * k := by rw [← Nat.mul_succ]; exact Nat.mul_le_mul_left _ polynomial
  have sameLength := congrArg List.length reads
  rw [List.length_map, List.length_map] at sameLength
  have entry := congrArg (fun reads => reads[mlKemN * i + j]?) reads
  simp only [List.getElem?_map, List.getElem?_eq_getElem index, List.getElem?_eq_getElem (sameLength ▸ index),
    Option.map_some, Option.some.injEq, Prod.mk.injEq] at entry
  have field := getD_compressFields k d a polynomial coefficient (0, 0)
  rw [List.getD_eq_getElem _ _ index] at field
  rw [field, Nat.mod_eq_of_lt (toNat_compressCoefficient_lt narrow _)] at entry
  have value : (((createFromData (compressPolysArr k d a out)).readAll (List.replicate (k * mlKemN) d)).getD
      (mlKemN * i + j) (false, 0)).2 = (compressCoefficient d ((a.getD i zeroPoly).f.getD j 0)).toUInt32 := by
    rw [List.getD_eq_getElem _ _ (sameLength ▸ index)]
    exact UInt32.toNat_inj.mp entry.2
  rw [value, List.getD_eq_getElem _ _ (by rw [(a.getD i zeroPoly).length_f]; exact coefficient)]

/-- The round trip of the packed format: every coefficient at most `q` of the `k`
polynomials comes back from the bytes as itself plus an error of at most
`(q + 2 ^ d) / 2 ^ (d + 1)`, modulo `q`. -/
theorem decompressPolyArr_compressPolysArr_close
    (reduced : ∀ i < k, ∀ j < mlKemN, Bounded ((a.getD i zeroPoly).f.getD j 0)) :
    ∀ i < k, ∀ j < mlKemN, ∃ e : ℤ, |e| ≤ ((mlKemQ + 2 ^ d) / 2 ^ (d + 1) : Nat) ∧
      residue (((decompressPolyArr k d (compressPolysArr k d a out)).getD i zeroPoly).f.getD j 0)
        = residue ((a.getD i zeroPoly).f.getD j 0) + e := by
  intro i polynomial j coefficient
  have entry : (decompressPolyArr k d (compressPolysArr k d a out)).getD i zeroPoly
      = compressRoundTrip d (a.getD i zeroPoly) := by
    rw [decompressPolyArr_compressPolysArr positive narrow a exact,
      List.getD_eq_getElem _ _ (by rw [List.length_map, List.length_range]; exact polynomial),
      List.getElem_map, List.getElem_range]
  rw [entry, getD_compressRoundTrip d _ coefficient]
  exact exists_residue_decompress_compress positive narrow (reduced i polynomial j coefficient)

end Packed

/-- The ramp `0, 13, 26, …, 3315`, spread over `[0, q)`. -/
def rampPoly : MlPoly := ⟨(List.range mlKemN).map fun j => (13 * j).toUInt16, by rw [List.length_map, List.length_range]⟩

theorem decompressPolyArr_compressPolysArr_close_ramp :
    (0 < 10 ∧ 10 ≤ 11 ∧ (List.replicate (1 * 10 * mlKemN / 8) (0 : UInt8)).length = 1 * 10 * mlKemN / 8 ∧
      ∀ i < 1, ∀ j < mlKemN, Bounded (([rampPoly].getD i zeroPoly).f.getD j 0)) ∧
    ∀ i < 1, ∀ j < mlKemN, ∃ e : ℤ, |e| ≤ ((mlKemQ + 2 ^ 10) / 2 ^ (10 + 1) : Nat) ∧
      residue (((decompressPolyArr 1 10 (compressPolysArr 1 10 [rampPoly]
          (List.replicate (1 * 10 * mlKemN / 8) 0))).getD i zeroPoly).f.getD j 0)
        = residue (([rampPoly].getD i zeroPoly).f.getD j 0) + e := by
  have reduced : ∀ i < 1, ∀ j < mlKemN, Bounded (([rampPoly].getD i zeroPoly).f.getD j 0) := by
    intro i first j coefficient
    rcases Nat.lt_one_iff.mp first with rfl
    have value : ([rampPoly].getD 0 zeroPoly).f.getD j 0 = (13 * j).toUInt16 := by
      show ((List.range mlKemN).map fun j => (13 * j).toUInt16).getD j 0 = _
      rw [List.getD_eq_getElem _ _ (by rw [List.length_map, List.length_range]; exact coefficient), List.getElem_map,
        List.getElem_range]
    unfold mlKemN at coefficient
    rw [value, Bounded, Nat.toUInt16, UInt16.toNat_ofNat', Nat.mod_eq_of_lt (by omega)]
    unfold mlKemQ
    omega
  exact ⟨⟨by decide, by decide, List.length_replicate, reduced⟩,
    decompressPolyArr_compressPolysArr_close (by decide) (by decide) [rampPoly] List.length_replicate reduced⟩

/-! ## The message codec -/

theorem toNat_byteBit (byte : UInt8) {j : Nat} (below : j < 8) :
    ((byte >>> j.toUInt8) &&& 1).toNat = byte.toNat / 2 ^ j % 2 := by
  rw [UInt8.toNat_and, UInt8.toNat_shiftRight, UInt8.toNat_one, Nat.and_one_is_mod, Nat.shiftRight_eq_div_pow,
    UInt8.toNat_ofNat', Nat.mod_eq_of_lt (by omega : j < 2 ^ 8), Nat.mod_eq_of_lt below]

/-- Coefficient `8 i + j` of `message_to_poly` is `Decompress_1` of bit `j` of byte `i`:
`(q + 1) / 2` times the bit. -/
theorem toNat_messageToPoly (m : List UInt8) {i j : Nat} (byte : i < mlKemSeedLen) (bit : j < 8) :
    ((messageToPoly m).f.getD (8 * i + j) 0).toNat = 1665 * ((m.getD i 0).toNat / 2 ^ j % 2) := by
  have entry : (messageToPoly m).f.getD (8 * i + j) 0 =
      mlAssignCondInt16 0 ((3329 + 1) / 2) ((m.getD i 0 >>> j.toUInt8) &&& 1).toUInt16 := by
    rw [messageToPoly_f, getD_flatMap_range 0 (fun _ => by rw [List.length_map, List.length_range]) byte bit,
      List.getD_eq_getElem _ _ (by rw [List.length_map, List.length_range]; exact bit), List.getElem_map,
      List.getElem_range]
  have value := toNat_byteBit (m.getD i 0) bit
  -- the condition is 0 or 1, and selects `0` or `1665`
  rcases Nat.mod_two_eq_zero_or_one ((m.getD i 0).toNat / 2 ^ j) with clear | set
  · have zero : ((m.getD i 0 >>> j.toUInt8) &&& 1) = 0 := UInt8.toNat_inj.mp (by rw [value, clear]; rfl)
    rw [entry, zero, clear]
    rfl
  · have one : ((m.getD i 0 >>> j.toUInt8) &&& 1) = 1 := UInt8.toNat_inj.mp (by rw [value, set]; rfl)
    rw [entry, one, set]
    rfl

theorem messageFactor_eq : messageFactor = 4294322213 := by decide

/-- The bit `poly_to_message` computes with the negative `n`: modulo `2 ^ 32` the product is
`2 ^ 32 f - 645083 f`, so the shift by 30 counts down from `4 f` by the quotient that the true
multiplier `645083` gives, less one in the rounding term, and the parity is that quotient's. -/
theorem toNat_messageBit_eq_div (coefficient : UInt16) :
    (messageBit coefficient).toNat = (coefficient.toNat * 645083 + 536870911) / 1073741824 % 2 := by
  set f := coefficient.toNat
  have rounding : ((1 : Int32) <<< (30 - 1)).toUInt32.toNat = 536870912 := by decide
  have literal : UInt32.toNat 4294322213 = 4294322213 := rfl
  simp only [messageBit]
  rw [messageFactor_eq, UInt32.toNat_and, UInt32.toNat_one, Nat.and_one_is_mod, UInt32.toNat_shiftRight,
    UInt32.toNat_add, UInt32.toNat_mul, UInt16.toNat_toUInt32, literal, rounding, Nat.mod_add_mod,
    show UInt32.toNat 30 % 32 = 30 from rfl, Nat.shiftRight_eq_div_pow,
    show (2 : Nat) ^ 32 = 1073741824 * 4 by norm_num, show (2 : Nat) ^ 30 = 1073741824 by norm_num,
    Nat.mod_mul_right_div_self]
  obtain ⟨a, quotientDef⟩ : ∃ a, a = (f * 645083 + 536870911) / 1073741824 := ⟨_, rfl⟩
  obtain ⟨r, remainderDef⟩ : ∃ r, r = (f * 645083 + 536870911) % 1073741824 := ⟨_, rfl⟩
  have decomposition : f * 645083 + 536870911 = 1073741824 * a + r := by
    rw [quotientDef, remainderDef]
    exact (Nat.div_add_mod _ _).symm
  have remainder : r < 1073741824 := by
    rw [remainderDef]
    exact Nat.mod_lt _ (by norm_num)
  rw [← quotientDef]
  -- the product before the wrap is `2 ^ 30 (4 f - a)` plus `2 ^ 30 - 1 - r`
  have split : f * 4294322213 + 536870912 + 1073741824 * a + r = 1073741824 * (4 * f) + 1073741823 := by linarith
  have below : a ≤ 4 * f := by
    have : 1073741824 * a < 1073741824 * (4 * f + 1) := by linarith
    exact Nat.lt_succ_iff.mp (Nat.lt_of_mul_lt_mul_left this)
  have back : (4 * f - a) * 1073741824 + a * 1073741824 = 4 * f * 1073741824 := by
    rw [← Nat.add_mul, Nat.sub_add_cancel below]
  have quotient : (f * 4294322213 + 536870912) / 1073741824 = 4 * f - a := by
    apply Nat.div_eq_of_lt_le
    · linarith
    · rw [Nat.add_mul, Nat.one_mul]
      linarith
  rw [quotient]
  omega

/-- `poly_to_message` computes `Compress_1` on every coefficient: the rounding of `2 f / q`,
taken modulo 2. -/
theorem toNat_messageBit (coefficient : UInt16) : (messageBit coefficient).toNat = compressSpec 1 coefficient.toNat := by
  have small := coefficient.toNat_lt
  have close : |2 * (coefficient.toNat : ℤ) * (645083 * 3329 - 2 ^ (30 + 1)) + 2 * 3329 * ((536870911 : ℕ) : ℤ)
      - 3329 * 2 ^ 30| < 2 ^ 30 := by
    have fInt : (coefficient.toNat : ℤ) < 2 ^ 16 := by exact_mod_cast small
    have value : 2 * (coefficient.toNat : ℤ) * (645083 * 3329 - 2 ^ (30 + 1)) + 2 * 3329 * ((536870911 : ℕ) : ℤ)
        - 3329 * 2 ^ 30 = -4682 * coefficient.toNat - 6658 := by
      push_cast
      ring
    rw [value, abs_lt]
    constructor <;> omega
  rw [toNat_messageBit_eq_div, show (1073741824 : Nat) = 2 ^ 30 by norm_num, div_eq_roundDiv (by decide) close]
  rfl

/-- `Compress_1` is robust: a residue within 831 of `Decompress_1(b)` compresses back to `b`. -/
theorem compressSpec_one_of_close {f b : Nat} (bit : b < 2) {e : ℤ} (small : |e| < 832)
    (congruent : (f : ZMod mlKemQ) = ((1665 * b : ℕ) : ZMod mlKemQ) + e) : compressSpec 1 f = b := by
  have intCongruent : ((f : ℤ) : ZMod mlKemQ) = ((1665 * b : ℕ) + e : ℤ) := by
    push_cast at congruent ⊢
    exact congruent
  obtain ⟨t, multiple⟩ := (ZMod.intCast_eq_intCast_iff_dvd_sub _ _ mlKemQ).mp intCongruent
  obtain ⟨eLower, eUpper⟩ := abs_lt.mp small
  unfold mlKemQ at multiple
  push_cast at multiple
  rw [compressSpec, roundDiv_def, show (2 : Nat) ^ 1 = 2 from rfl]
  unfold mlKemQ
  -- `4 f + q = 2 q (b - 2 t) + (2 b + 4 e + q)`, the last part inside `[0, 2 q)`
  have quotient : (((2 * (2 * f) + 3329) / (2 * 3329) : ℕ) : ℤ) = b - 2 * t := by
    rw [Int.natCast_div]
    push_cast
    exact ((@Int.ediv_emod_unique _ _ (2 * b + 4 * e + 3329) _ (by norm_num)).mpr
      ⟨by linarith, by omega, by omega⟩).1
  omega

set_option maxRecDepth 8000 in
/-- Or-ing the eight bits of a byte back at their places gives the byte. -/
theorem foldl_or_bits (byte : UInt8) :
    (List.range 8).foldl (fun mi j => mi ||| ((((byte >>> j.toUInt8) &&& 1).toUInt32) <<< j.toUInt32).toUInt8) 0 =
      byte := by
  revert byte
  decide

/-- Decoding a message is robust to noise: a polynomial whose every coefficient is that of
`message_to_poly(m)` plus an error of centred size below `⌈q / 4⌋ = 832` decodes to `m`. -/
theorem polyToMessage_of_close {m : List UInt8} (length : m.length = mlKemSeedLen) {w : MlPoly}
    (close : ∀ j < mlKemN, (residue (w.f.getD j 0) - residue ((messageToPoly m).f.getD j 0)).valMinAbs.natAbs < 832) :
    polyToMessage w = m := by
  apply List.ext_getElem (by rw [polyToMessage_def, List.length_map, List.length_range, length])
  intro i inLeft inRight
  have byte : i < mlKemSeedLen := by rwa [polyToMessage_def, List.length_map, List.length_range] at inLeft
  simp only [polyToMessage_def, List.getElem_map, List.getElem_range]
  rw [← List.getD_eq_getElem _ 0 inRight]
  conv_rhs => rw [← foldl_or_bits (m.getD i 0)]
  -- every bit comes back: coefficient `8 i + j` is within 832 of `1665` times bit `j`
  apply List.foldl_ext
  intro mi j inByte
  have bit := List.mem_range.mp inByte
  have coefficient : 8 * i + j < mlKemN := by unfold mlKemSeedLen at byte; unfold mlKemN; omega
  obtain ⟨e, shifted, small⟩ : ∃ e : ℤ, (e : ZMod mlKemQ) =
      residue (w.f.getD (8 * i + j) 0) - residue ((messageToPoly m).f.getD (8 * i + j) 0) ∧ |e| < 832 :=
    ⟨_, ZMod.coe_valMinAbs _, by rw [Int.abs_eq_natAbs]; exact_mod_cast close _ coefficient⟩
  have message : residue ((messageToPoly m).f.getD (8 * i + j) 0) =
      ((1665 * ((m.getD i 0).toNat / 2 ^ j % 2) : ℕ) : ZMod mlKemQ) := by
    rw [residue, toNat_messageToPoly m byte bit]
  have congruent : ((w.f.getD (8 * i + j) 0).toNat : ZMod mlKemQ) =
      ((1665 * ((m.getD i 0).toNat / 2 ^ j % 2) : ℕ) : ZMod mlKemQ) + e := by
    rw [shifted, ← message, add_sub_cancel]
    rfl
  have decoded := compressSpec_one_of_close (Nat.mod_lt _ (by decide)) small congruent
  have same : messageBit (w.f.getD (8 * i + j) 0) = ((m.getD i 0 >>> j.toUInt8) &&& 1).toUInt32 := by
    apply UInt32.toNat_inj.mp
    rw [toNat_messageBit, decoded, UInt8.toNat_toUInt32, toNat_byteBit _ bit]
  rw [same]

end StrongSwan.Libstrongswan.Plugins.Ml.MlKemCompress
