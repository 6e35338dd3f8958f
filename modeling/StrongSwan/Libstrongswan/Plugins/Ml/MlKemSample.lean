import Mathlib
import StrongSwan.Libstrongswan.Plugins.Ml.MlKemNtt
import StrongSwan.Libstrongswan.Plugins.Ml.MlBitpacker

/-!
Contract: `sample_poly_cbd` of `ml_kem.c` on the bytes of its PRF output,
against FIPS 203 Algorithm 8 (`SamplePolyCBD`), and `sample_ntt` on the output
stream of SHAKE-128, against FIPS 203 Algorithm 7 (`SampleNTT`).

The code adds `η` bits of the stream at a time. It loads `fetch` bytes into a
word `t`, adds the shifts of `t` by `0, …, η - 1` under the mask `add_mask`,
which has the lowest bit of every field of `η` bits set, and cuts the sum `b`
into fields of `η` bits, two per coefficient. The sum is a sliced sum of
`BitFields`: since `η < 2 ^ η` no field carries into the next, so field `m`
of `b` counts the set bits of field `m` of `t`, and those are bits `2 i η`
onwards of the stream.

`sample_ntt` reads three bytes a round and keeps each of the two 12-bit numbers
they hold that is below `q`, the second only while fewer than 256 are set. Its
loop has no bound; the model runs it on fuel.

Owns: the model of the sampling loop for both values of `η`, the shape of its
constants for each (`CbdShape`), and that it computes Algorithm 8 coefficient
by coefficient, as the canonical residue modulo `q`; the rejection loop of
`sample_ntt`, that it ends once its rounds hold 256 candidates below `q`, and
that it returns the first 256 of them, in order.

Does not own: the SHAKE-256 and SHAKE-128 calls that produce the bytes, and
their failures; the model takes the PRF output and the XOF stream as input.
-/

namespace StrongSwan.Libstrongswan.Plugins.Ml.MlKemSample

open StrongSwan.Foundations.BitFields
open StrongSwan.Libstrongswan.Plugins.Ml.MlKem StrongSwan.Libstrongswan.Plugins.Ml.MlKemNtt
open StrongSwan.Libstrongswan.Plugins.Ml.MlBitpacker

/-! ## The sampling loop -/

/-- `coeffs`: the coefficients one word gives. -/
def cbdCoeffs (eta : Nat) : Nat := if eta = 2 then 8 else 4

/-- `fetch`: the bytes loaded into one word. -/
def cbdFetch (eta : Nat) : Nat := 2 * cbdCoeffs eta * eta / 8

/-- `add_mask`: every second or third bit set. -/
def cbdAddMask (eta : Nat) : UInt32 := if eta = 2 then 0x55555555 else 0x00249249

/-- `mask`: one field of `η` bits. -/
def cbdMask (eta : Nat) : UInt32 := if eta = 2 then 0x3 else 0x7

/-- `b`: the word's shifts by `0, …, η - 1` under `add_mask`, added. -/
def cbdSum (eta : Nat) (t : UInt32) : UInt32 :=
  if eta = 3 then (t &&& cbdAddMask eta) + ((t >>> 1) &&& cbdAddMask eta) + ((t >>> 2) &&& cbdAddMask eta)
  else (t &&& cbdAddMask eta) + ((t >>> 1) &&& cbdAddMask eta)

/-- `x` or `y`: the field of `b` at `offset`, as a `uint16_t`. -/
def cbdField (eta : Nat) (b : UInt32) (offset : Nat) : UInt16 := ((b >>> offset.toUInt32) &&& cbdMask eta).toUInt16

/-- Coefficient `j` of the word: `ml_reduce_modq(x - y + ML_KEM_Q)`, the `int` sum passed to
the `uint16_t` parameter. -/
def cbdCoefficient (eta : Nat) (b : UInt32) (j : Nat) : UInt16 :=
  mlReduceModq (cbdField eta b (2 * j * eta) - cbdField eta b (2 * j * eta + eta) + 3329)

/-- `sample_poly_cbd` on the PRF output `sampleSeed`: the coefficients `p->f[coeffs * i + j]`
in order, word by word. -/
def samplePolyCbd (eta : Nat) (sampleSeed : List UInt8) : List UInt16 :=
  (List.range (mlKemN / cbdCoeffs eta)).flatMap fun i =>
    (List.range (cbdCoeffs eta)).map
      (cbdCoefficient eta (cbdSum eta (mlReadBytesLe (sampleSeed.drop (cbdFetch eta * i)) (cbdFetch eta))))

/-! ## FIPS 203 -/

/-- FIPS 203 Algorithm 4, `BytesToBits`: the bits of each byte, least significant first. -/
def bytesToBits (bytes : List UInt8) : List Nat :=
  bytes.flatMap fun byte => (List.range 8).map fun r => byte.toNat / 2 ^ r % 2

/-- FIPS 203 Algorithm 8, `SamplePolyCBD_η(B)`: coefficient `i` is the number of set bits
among `b[2iη], …, b[2iη + η - 1]` less the number among the next `η`, modulo `q`. -/
def samplePolyCbdSpec (eta : Nat) (bytes : List UInt8) : List Int :=
  (List.range mlKemN).map fun i =>
    ((∑ j ∈ Finset.range eta, ((bytesToBits bytes).getD (2 * i * eta + j) 0 : Int)) -
      ∑ j ∈ Finset.range eta, ((bytesToBits bytes).getD (2 * i * eta + eta + j) 0 : Int)) % mlKemQ

/-- Bit `index` of the stream is the bit of the bytes' little-endian value there. -/
theorem bytesToBits_getD (bytes : List UInt8) (index : Nat) :
    (bytesToBits bytes).getD index 0 = ofLittleEndian bytes / 2 ^ index % 2 := by
  induction bytes generalizing index with
  | nil => simp [bytesToBits]
  | cons byte rest inductionHypothesis =>
    have split : bytesToBits (byte :: rest) = (List.range 8).map (fun r => byte.toNat / 2 ^ r % 2) ++
        bytesToBits rest := List.flatMap_cons
    rw [split, ofLittleEndian_cons]
    by_cases inByte : index < 8
    · -- a bit of the first byte: the rest lies above bit 8
      rw [List.getD_append _ _ _ _ (by simpa using inByte), List.getD_eq_getElem _ _ (by simpa using inByte),
        List.getElem_map, List.getElem_range, ← Nat.pow_one 2, show 256 = 2 ^ 8 from rfl,
        add_two_pow_mul_div_mod _ (by omega)]
    · -- a bit of the rest: the first byte lies below bit 8
      obtain ⟨beyond, rfl⟩ : ∃ beyond, index = 8 + beyond := ⟨index - 8, by omega⟩
      rw [List.getD_append_right _ _ _ _ (by simp), List.length_map, List.length_range, Nat.add_sub_cancel_left,
        inductionHypothesis, Nat.pow_add, ← Nat.div_div_eq_div_mul, show (2 : Nat) ^ 8 = 256 from rfl,
        Nat.add_mul_div_left _ _ (by decide : 0 < 256), Nat.div_eq_of_lt byte.toNat_lt, Nat.zero_add]

/-! ## The shape of the constants -/

/-- What the loop needs of its constants for one `η`: `coeffs` coefficients of two fields each
fill the `fetch` bytes of a word, and `add_mask` has the lowest bit of each of `fields` fields
of `η` bits set, within the 32 bits of the word. -/
structure CbdShape (eta fields : Nat) : Prop where
  eta_pos : 0 < eta
  eta_le : eta ≤ 3
  fetch_le : cbdFetch eta ≤ 4
  fetch_bits : 8 * cbdFetch eta = 2 * cbdCoeffs eta * eta
  fields_enough : 2 * cbdCoeffs eta ≤ fields
  fields_fit : eta * fields ≤ 32
  addMask : (cbdAddMask eta).toNat = lowBits eta fields
  mask : (cbdMask eta).toNat = 2 ^ eta - 1
  blocks : mlKemN / cbdCoeffs eta * cbdCoeffs eta = mlKemN

/-- `η = 2`: eight coefficients from four bytes, sixteen fields of two bits. -/
theorem cbdShape_two : CbdShape 2 16 := ⟨by decide, by decide, by decide, by decide, by decide, by decide,
  by decide, by decide, by decide⟩

/-- `η = 3`: four coefficients from three bytes, eight fields of three bits. -/
theorem cbdShape_three : CbdShape 3 8 := ⟨by decide, by decide, by decide, by decide, by decide, by decide,
  by decide, by decide, by decide⟩

section Shape

variable {eta fields : Nat} (shape : CbdShape eta fields)
include shape

/-- One shift of the word under `add_mask`. -/
theorem toNat_shift_and_addMask (t shift : UInt32) (small : shift.toNat < 32) :
    ((t >>> shift) &&& cbdAddMask eta).toNat = t.toNat >>> shift.toNat &&& lowBits eta fields := by
  rw [UInt32.toNat_and, UInt32.toNat_shiftRight, Nat.mod_eq_of_lt small, shape.addMask]

/-- `b` is the sliced sum of the word: the additions do not wrap. -/
theorem toNat_cbdSum (eta23 : eta = 2 ∨ eta = 3) (t : UInt32) :
    (cbdSum eta t).toNat = slicedSum eta fields t.toNat eta := by
  have noWrap : ∀ shifts ≤ eta, slicedSum eta fields t.toNat shifts < 2 ^ 32 := fun shifts fewer =>
    calc slicedSum eta fields t.toNat shifts
        < 2 ^ (eta * fields) := slicedSum_lt shape.eta_pos (by have := shape.eta_le; interval_cases eta <;> omega) _ _
      _ ≤ 2 ^ 32 := Nat.pow_le_pow_right (by decide) shape.fields_fit
  have first : (t &&& cbdAddMask eta).toNat = slicedSum eta fields t.toNat 1 := by
    rw [UInt32.toNat_and, shape.addMask, slicedSum_succ, slicedSum_zero, Nat.zero_add, Nat.shiftRight_zero]
  have second : ((t &&& cbdAddMask eta) + ((t >>> 1) &&& cbdAddMask eta)).toNat = slicedSum eta fields t.toNat 2 := by
    rw [UInt32.toNat_add, first, toNat_shift_and_addMask shape t 1 (by decide), UInt32.toNat_one, ← slicedSum_succ,
      Nat.mod_eq_of_lt (noWrap 2 (by omega))]
  rcases eta23 with rfl | rfl
  · rw [cbdSum, if_neg (by decide), second]
  · rw [cbdSum, if_pos rfl, UInt32.toNat_add, second, toNat_shift_and_addMask shape t 2 (by decide),
      show (2 : UInt32).toNat = 2 from rfl, ← slicedSum_succ, Nat.mod_eq_of_lt (noWrap 3 le_rfl)]

/-- `x` and `y` are fields of `b`. -/
theorem toNat_cbdField (b : UInt32) {offset : Nat} (inside : offset < 32) :
    (cbdField eta b offset).toNat = b.toNat / 2 ^ offset % 2 ^ eta := by
  have small : b.toNat / 2 ^ offset % 2 ^ eta < 2 ^ 16 :=
    lt_of_lt_of_le (Nat.mod_lt _ (Nat.two_pow_pos _)) (Nat.pow_le_pow_right (by decide) (by have := shape.eta_le; omega))
  rw [cbdField, UInt32.toNat_toUInt16, UInt32.toNat_and, toNat_shiftRight_of_lt b inside, shape.mask,
    Nat.and_two_pow_sub_one_eq_mod, Nat.mod_eq_of_lt small]

/-- Field `m` of `b` counts the set bits of field `m` of the word. -/
theorem toNat_cbdField_cbdSum (eta23 : eta = 2 ∨ eta = 3) (t : UInt32) {index : Nat} (inside : index < fields) :
    (cbdField eta (cbdSum eta t) (eta * index)).toNat = bitCount (t.toNat / 2 ^ (eta * index)) eta := by
  have below : eta * index < 32 :=
    lt_of_lt_of_le (Nat.mul_lt_mul_of_pos_left inside shape.eta_pos) shape.fields_fit
  have noCarry : eta < 2 ^ eta := by have := shape.eta_le; interval_cases eta <;> omega
  rw [toNat_cbdField shape _ below, toNat_cbdSum shape eta23, ← fieldAt,
    fieldAt_slicedSum shape.eta_pos noCarry inside]

end Shape

/-- The reduction of `x - y + q` for counts of at most three bits is the canonical residue of
`x - y`. -/
theorem toNat_mlReduceModq_difference {x y : UInt16} (xSmall : x.toNat ≤ 3) (ySmall : y.toNat ≤ 3) :
    ((mlReduceModq (x - y + 3329)).toNat : Int) = ((x.toNat : Int) - y.toNat) % mlKemQ := by
  have sum : (x - y + 3329).toNat = x.toNat + 3329 - y.toNat := by
    rw [UInt16.toNat_add, UInt16.toNat_sub, show (3329 : UInt16).toNat = 3329 from rfl]
    omega
  rw [toNat_mlReduceModq, sum]
  split <;> unfold mlKemQ <;> omega

/-- Splitting `blocks * size` indices into `blocks` runs of `size`. -/
theorem range_mul_eq_flatMap (blocks size : Nat) :
    List.range (blocks * size) = (List.range blocks).flatMap fun i => (List.range size).map (size * i + ·) := by
  induction blocks with
  | zero => simp
  | succ blocks inductionHypothesis =>
    rw [Nat.succ_mul, List.range_add, inductionHypothesis, List.range_succ, List.flatMap_append,
      List.flatMap_singleton, Nat.mul_comm blocks size]

/-- One coefficient of the loop is the coefficient of Algorithm 8 at its index. -/
theorem cbdCoefficient_eq_spec {eta fields : Nat} (shape : CbdShape eta fields) (eta23 : eta = 2 ∨ eta = 3)
    (bytes : List UInt8) (i : Nat) {j : Nat} (inWord : j < cbdCoeffs eta) :
    ((cbdCoefficient eta (cbdSum eta (mlReadBytesLe (bytes.drop (cbdFetch eta * i)) (cbdFetch eta))) j).toNat : Int) =
      ((∑ r ∈ Finset.range eta, ((bytesToBits bytes).getD (2 * (cbdCoeffs eta * i + j) * eta + r) 0 : Int)) -
        ∑ r ∈ Finset.range eta, ((bytesToBits bytes).getD (2 * (cbdCoeffs eta * i + j) * eta + eta + r) 0 : Int)) %
        mlKemQ := by
  have fieldsEnough := shape.fields_enough
  have fetchBits := shape.fetch_bits
  have word : (mlReadBytesLe (bytes.drop (cbdFetch eta * i)) (cbdFetch eta)).toNat =
      ofLittleEndian ((bytes.drop (cbdFetch eta * i)).take (cbdFetch eta)) :=
    toNat_mlReadBytesLe _ shape.fetch_le
  -- field `m` of the word holds the stream's bits from `2 (coeffs i + j) η` on
  have count : ∀ index, index < 2 * cbdCoeffs eta →
      (cbdField eta (cbdSum eta (mlReadBytesLe (bytes.drop (cbdFetch eta * i)) (cbdFetch eta))) (eta * index)).toNat =
        ∑ r ∈ Finset.range eta, ofLittleEndian bytes / 2 ^ (2 * cbdCoeffs eta * eta * i + eta * index + r) % 2 := by
    intro index inside
    have within : eta * index + eta ≤ 8 * cbdFetch eta := by
      rw [fetchBits, show eta * index + eta = eta * (index + 1) by ring, Nat.mul_comm _ eta]
      exact Nat.mul_le_mul_left _ inside
    rw [toNat_cbdField_cbdSum shape eta23 _ (by omega), word, bitCount_window _ _ _ _ _ within, ← Nat.mul_assoc,
      fetchBits]
  have small : ∀ index, index < 2 * cbdCoeffs eta →
      (cbdField eta (cbdSum eta (mlReadBytesLe (bytes.drop (cbdFetch eta * i)) (cbdFetch eta))) (eta * index)).toNat ≤ 3 := by
    intro index inside
    rw [toNat_cbdField_cbdSum shape eta23 _ (by omega)]
    exact le_trans (bitCount_le _ _) shape.eta_le
  have xOffset : 2 * j * eta = eta * (2 * j) := by ring
  have yOffset : 2 * j * eta + eta = eta * (2 * j + 1) := by ring
  have position : ∀ r, 2 * cbdCoeffs eta * eta * i + eta * (2 * j) + r = 2 * (cbdCoeffs eta * i + j) * eta + r := by
    intro r
    ring
  have positionNext : ∀ r, 2 * cbdCoeffs eta * eta * i + eta * (2 * j + 1) + r =
      2 * (cbdCoeffs eta * i + j) * eta + eta + r := by
    intro r
    ring
  rw [cbdCoefficient, yOffset, xOffset,
    toNat_mlReduceModq_difference (small _ (by omega)) (small _ (by omega)), count _ (by omega), count _ (by omega)]
  simp only [bytesToBits_getD, position, positionNext, Nat.cast_sum]

/-- `sample_poly_cbd` computes FIPS 203 Algorithm 8 on every PRF output, for both values of `η`:
each of the 256 coefficients is the canonical residue modulo `q` of the difference of the two
counts of `η` bits of the stream. -/
theorem samplePolyCbd_eq_spec {eta : Nat} (eta23 : eta = 2 ∨ eta = 3) (bytes : List UInt8) :
    (samplePolyCbd eta bytes).map (fun coefficient => (coefficient.toNat : Int)) = samplePolyCbdSpec eta bytes := by
  obtain ⟨fields, shape⟩ : ∃ fields, CbdShape eta fields := by
    rcases eta23 with rfl | rfl
    exacts [⟨16, cbdShape_two⟩, ⟨8, cbdShape_three⟩]
  -- both sides run over the coefficients word by word
  rw [samplePolyCbd, samplePolyCbdSpec,
    show List.range mlKemN = List.range (mlKemN / cbdCoeffs eta * cbdCoeffs eta) by rw [shape.blocks],
    range_mul_eq_flatMap, List.map_flatMap, List.map_flatMap]
  refine List.flatMap_congr fun i _ => ?_
  rw [List.map_map, List.map_map]
  refine List.map_congr_left fun j inWord => ?_
  exact cbdCoefficient_eq_spec shape eta23 bytes i (List.mem_range.mp inWord)

/-- ML-KEM-512's `η₁ = 3` on a stream of 192 bytes of `0xA5`. -/
theorem samplePolyCbd_eq_spec_three :
    (3 = 2 ∨ 3 = 3) ∧
      (samplePolyCbd 3 (List.replicate 192 0xA5)).map (fun coefficient => (coefficient.toNat : Int)) =
        samplePolyCbdSpec 3 (List.replicate 192 0xA5) :=
  ⟨Or.inr rfl, samplePolyCbd_eq_spec (Or.inr rfl) _⟩

/-! ## Rejection sampling

`sample_ntt` reads three bytes of the SHAKE-128 stream a round, cuts them into two
12-bit numbers `d1` and `d2`, and keeps those below `q` until it has 256. -/

/-- One round of the loop of `sample_ntt` on the three bytes `C` it reads: `d1` where it is
below `q`, then `d2` where it is below `q` and fewer than `ML_KEM_N` coefficients are set. -/
def sampleNttRound (coeffs : List UInt16) (c0 c1 c2 : UInt8) : List UInt16 :=
  let d1 : UInt16 := c0.toUInt16 + ((c1 &&& 0xf).toUInt16 <<< 8)
  let d2 : UInt16 := (c1 >>> 4).toUInt16 + (c2.toUInt16 <<< 4)
  let coeffs := if d1.toNat < mlKemQ then coeffs ++ [d1] else coeffs
  if d2.toNat < mlKemQ && coeffs.length < mlKemN then coeffs ++ [d2] else coeffs

/-- The loop `while (j < ML_KEM_N)` of `sample_ntt` from round `round` on, on the output
stream `xof` of SHAKE-128: round `r` reads its bytes `3 r`, `3 r + 1` and `3 r + 2`. The code
has no bound on the rounds; the model runs at most `fuel` of them and answers `none` where
they run out first. -/
def sampleNttLoop (xof : Nat → UInt8) : Nat → Nat → List UInt16 → Option (List UInt16)
  | 0, _, coeffs => if coeffs.length < mlKemN then none else some coeffs
  | fuel + 1, round, coeffs =>
    if coeffs.length < mlKemN then
      sampleNttLoop xof fuel (round + 1)
        (sampleNttRound coeffs (xof (3 * round)) (xof (3 * round + 1)) (xof (3 * round + 2)))
    else some coeffs

theorem sampleNttLoop_zero (xof : Nat → UInt8) (round : Nat) (coeffs : List UInt16) :
    sampleNttLoop xof 0 round coeffs = if coeffs.length < mlKemN then none else some coeffs := rfl

theorem sampleNttLoop_succ (xof : Nat → UInt8) (fuel round : Nat) (coeffs : List UInt16) :
    sampleNttLoop xof (fuel + 1) round coeffs =
      if coeffs.length < mlKemN then
        sampleNttLoop xof fuel (round + 1)
          (sampleNttRound coeffs (xof (3 * round)) (xof (3 * round + 1)) (xof (3 * round + 2)))
      else some coeffs := rfl

/-- The two numbers FIPS 203 Algorithm 7 (`SampleNTT`) takes from three bytes `C`:
`C[0] + 256 (C[1] mod 16)` and `⌊C[1] / 16⌋ + 16 C[2]`. -/
def nttCandidates (c0 c1 c2 : UInt8) : List Nat :=
  [c0.toNat + 256 * (c1.toNat % 16), c1.toNat / 16 + 16 * c2.toNat]

/-- The candidates of rounds `round, …, round + rounds - 1` that are below `q`, in order. -/
def acceptedFrom (xof : Nat → UInt8) (round rounds : Nat) : List Nat :=
  ((List.range' round rounds).flatMap fun r => nttCandidates (xof (3 * r)) (xof (3 * r + 1)) (xof (3 * r + 2))).filter
    (· < mlKemQ)

/-- FIPS 203 Algorithm 7 on a stream that gives 256 candidates below `q` within `rounds`
rounds: those 256, in order. -/
def sampleNttSpec (xof : Nat → UInt8) (rounds : Nat) : List Nat := (acceptedFrom xof 0 rounds).take mlKemN

theorem toNat_sampleNtt_d1 (c0 c1 : UInt8) :
    (c0.toUInt16 + ((c1 &&& 0xf).toUInt16 <<< 8)).toNat = c0.toNat + 256 * (c1.toNat % 16) := by
  have low := c0.toNat_lt
  have nibble : (c1 &&& 0xf).toNat = c1.toNat % 16 := by
    rw [UInt8.toNat_and, show (0xf : UInt8).toNat = 2 ^ 4 - 1 from rfl, Nat.and_two_pow_sub_one_eq_mod]
  have small : c1.toNat % 16 < 16 := Nat.mod_lt _ (by decide)
  rw [UInt16.toNat_add, UInt16.toNat_shiftLeft, UInt8.toNat_toUInt16, UInt8.toNat_toUInt16, nibble,
    show (8 : UInt16).toNat % 16 = 8 from rfl, Nat.shiftLeft_eq]
  omega

theorem toNat_sampleNtt_d2 (c1 c2 : UInt8) :
    ((c1 >>> 4).toUInt16 + (c2.toUInt16 <<< 4)).toNat = c1.toNat / 16 + 16 * c2.toNat := by
  have high := c1.toNat_lt
  have next := c2.toNat_lt
  rw [UInt16.toNat_add, UInt16.toNat_shiftLeft, UInt8.toNat_toUInt16, UInt8.toNat_toUInt16, UInt8.toNat_shiftRight,
    show (4 : UInt8).toNat % 8 = 4 from rfl, show (4 : UInt16).toNat % 16 = 4 from rfl, Nat.shiftLeft_eq,
    Nat.shiftRight_eq_div_pow]
  omega

/-- Taking `n` from a list cut to `n` and extended is taking `n` from the whole. -/
theorem take_append_take_self {α : Type*} (n : Nat) (front back : List α) :
    (front.take n ++ back).take n = (front ++ back).take n := by
  rw [List.take_append, List.take_append, List.take_take, Nat.min_self, List.length_take]
  by_cases short : front.length ≤ n
  · rw [Nat.min_eq_right short]
  · rw [Nat.min_eq_left (by omega), Nat.sub_self, Nat.sub_eq_zero_of_le (by omega)]

/-- What each half of a round does: append the number where it is below `q` and fewer
than 256 coefficients are set. -/
def keepCandidate (coeffs : List UInt16) (d : UInt16) : List UInt16 :=
  if d.toNat < mlKemQ && coeffs.length < mlKemN then coeffs ++ [d] else coeffs

/-- The first half of a round skips the room check: the loop only starts a round with room. -/
theorem sampleNttRound_eq {coeffs : List UInt16} (fewer : coeffs.length < mlKemN) (c0 c1 c2 : UInt8) :
    sampleNttRound coeffs c0 c1 c2 =
      keepCandidate (keepCandidate coeffs (c0.toUInt16 + ((c1 &&& 0xf).toUInt16 <<< 8)))
        ((c1 >>> 4).toUInt16 + (c2.toUInt16 <<< 4)) := by
  simp only [sampleNttRound, keepCandidate, fewer, decide_true, Bool.and_true, decide_eq_true_eq]

theorem length_keepCandidate_le {coeffs : List UInt16} (fewer : coeffs.length ≤ mlKemN) (d : UInt16) :
    (keepCandidate coeffs d).length ≤ mlKemN := by
  unfold keepCandidate
  split
  · rename_i room
    simp only [Bool.and_eq_true, decide_eq_true_eq] at room
    rw [List.length_append, List.length_singleton]
    omega
  · exact fewer

theorem toNat_keepCandidate {coeffs : List UInt16} (fewer : coeffs.length ≤ mlKemN) (d : UInt16) :
    (keepCandidate coeffs d).map UInt16.toNat =
      (coeffs.map UInt16.toNat ++ [d.toNat].filter (· < mlKemQ)).take mlKemN := by
  have whole : (coeffs.map UInt16.toNat).take mlKemN = coeffs.map UInt16.toNat :=
    List.take_of_length_le (by rw [List.length_map]; exact fewer)
  unfold keepCandidate
  by_cases below : d.toNat < mlKemQ
  · rw [List.filter_singleton, decide_eq_true below]
    by_cases room : coeffs.length < mlKemN
    · -- there is room: the number is appended
      rw [if_pos (by simp [room]), List.map_append, List.map_singleton, cond_true,
        List.take_of_length_le (by simp; omega)]
    · -- 256 coefficients are set: the number is dropped
      rw [if_neg (by simp [room]), cond_true, List.take_append_of_le_length (by simp; omega), whole]
  · rw [if_neg (by simp [below]), List.filter_singleton, decide_eq_false below, cond_false, List.append_nil, whole]

/-- A round adds its candidates below `q`, in order, up to 256 coefficients. -/
theorem toNat_sampleNttRound {coeffs : List UInt16} (fewer : coeffs.length < mlKemN) (c0 c1 c2 : UInt8) :
    (sampleNttRound coeffs c0 c1 c2).map UInt16.toNat =
      (coeffs.map UInt16.toNat ++ (nttCandidates c0 c1 c2).filter (· < mlKemQ)).take mlKemN := by
  have first := toNat_keepCandidate fewer.le (c0.toUInt16 + ((c1 &&& 0xf).toUInt16 <<< 8))
  rw [sampleNttRound_eq fewer, toNat_keepCandidate (length_keepCandidate_le fewer.le _), first,
    take_append_take_self, toNat_sampleNtt_d1, toNat_sampleNtt_d2, nttCandidates, List.append_assoc,
    ← List.filter_append]
  rfl

theorem length_sampleNttRound_le {coeffs : List UInt16} (fewer : coeffs.length < mlKemN) (c0 c1 c2 : UInt8) :
    (sampleNttRound coeffs c0 c1 c2).length ≤ mlKemN := by
  rw [sampleNttRound_eq fewer]
  exact length_keepCandidate_le (length_keepCandidate_le fewer.le _) _

theorem acceptedFrom_zero (xof : Nat → UInt8) (round : Nat) : acceptedFrom xof round 0 = [] := rfl

theorem acceptedFrom_succ (xof : Nat → UInt8) (round rounds : Nat) :
    acceptedFrom xof round (rounds + 1) =
      (nttCandidates (xof (3 * round)) (xof (3 * round + 1)) (xof (3 * round + 2))).filter (· < mlKemQ) ++
        acceptedFrom xof (round + 1) rounds := by
  rw [acceptedFrom, List.range'_succ, List.flatMap_cons, List.filter_append, ← acceptedFrom]

/-- The loop from coefficients with room: what it returns, if anything, is 256 coefficients,
those it started with followed by the candidates below `q` of its rounds. -/
theorem toNat_sampleNttLoop {xof : Nat → UInt8} :
    ∀ {fuel round : Nat} {coeffs out : List UInt16}, coeffs.length ≤ mlKemN →
      sampleNttLoop xof fuel round coeffs = some out →
      out.length = mlKemN ∧ out.map UInt16.toNat = (coeffs.map UInt16.toNat ++ acceptedFrom xof round fuel).take mlKemN
  | fuel, round, coeffs, out, fewer, ran => by
    -- a loop that stops returns its coefficients, which fill the polynomial
    have stopped : ¬coeffs.length < mlKemN → some coeffs = some out →
        out.length = mlKemN ∧ out.map UInt16.toNat = (coeffs.map UInt16.toNat ++ acceptedFrom xof round fuel).take mlKemN := by
      intro full returned
      cases returned
      exact ⟨by omega, by rw [List.take_append_of_le_length (by simp; omega), List.take_of_length_le (by simp; omega)]⟩
    cases fuel with
    | zero =>
      rw [sampleNttLoop_zero] at ran
      split at ran
      · cases ran
      · exact stopped ‹_› ran
    | succ fuel =>
      rw [sampleNttLoop_succ] at ran
      split at ran
      · rename_i room
        obtain ⟨length, values⟩ := toNat_sampleNttLoop (length_sampleNttRound_le room _ _ _) ran
        refine ⟨length, ?_⟩
        rw [values, toNat_sampleNttRound room, take_append_take_self, List.append_assoc, acceptedFrom_succ]
      · exact stopped ‹_› ran

/-- The loop ends within its rounds once they hold enough candidates below `q`. -/
theorem isSome_sampleNttLoop {xof : Nat → UInt8} :
    ∀ {fuel round : Nat} {coeffs : List UInt16}, coeffs.length ≤ mlKemN →
      mlKemN ≤ coeffs.length + (acceptedFrom xof round fuel).length → (sampleNttLoop xof fuel round coeffs).isSome
  | fuel, round, coeffs, fewer, enough => by
    cases fuel with
    | zero =>
      rw [sampleNttLoop_zero, if_neg (by rw [acceptedFrom_zero, List.length_nil] at enough; omega)]
      rfl
    | succ fuel =>
      rw [sampleNttLoop_succ]
      split
      · rename_i room
        -- the round keeps as many of its candidates as there is room for
        have kept := congrArg List.length (toNat_sampleNttRound room (xof (3 * round)) (xof (3 * round + 1))
          (xof (3 * round + 2)))
        rw [List.length_map, List.length_take, List.length_append, List.length_map] at kept
        rw [acceptedFrom_succ, List.length_append] at enough
        exact isSome_sampleNttLoop (length_sampleNttRound_le room _ _ _) (by omega)
      · rfl

/-- From no coefficients, the loop ends within rounds that give 256 candidates below `q`. -/
theorem isSome_sampleNttLoop_of_enough {xof : Nat → UInt8} {rounds : Nat}
    (enough : mlKemN ≤ (acceptedFrom xof 0 rounds).length) : (sampleNttLoop xof rounds 0 []).isSome :=
  isSome_sampleNttLoop (Nat.zero_le _) (by rw [List.length_nil, Nat.zero_add]; exact enough)

/-- A stream whose every first number is below `q` gives at least one candidate a round. -/
theorem length_acceptedFrom_of_first {xof : Nat → UInt8}
    (first : ∀ r, (xof (3 * r)).toNat + 256 * ((xof (3 * r + 1)).toNat % 16) < mlKemQ) :
    ∀ round rounds, rounds ≤ (acceptedFrom xof round rounds).length
  | _, 0 => Nat.zero_le _
  | round, rounds + 1 => by
    have rest := length_acceptedFrom_of_first first (round + 1) rounds
    rw [acceptedFrom_succ, nttCandidates, List.filter_cons_of_pos (by simpa using first round), List.cons_append,
      List.length_cons, List.length_append]
    omega

/-- Rounds beyond the first ones that give 256 candidates below `q` change nothing. -/
theorem sampleNttSpec_eq_of_enough {xof : Nat → UInt8} {rounds rounds' : Nat}
    (enough : mlKemN ≤ (acceptedFrom xof 0 rounds).length) (enough' : mlKemN ≤ (acceptedFrom xof 0 rounds').length) :
    sampleNttSpec xof rounds = sampleNttSpec xof rounds' := by
  -- the candidates of fewer rounds are a prefix of those of more
  have grows : ∀ {fewer more : Nat}, fewer ≤ more → mlKemN ≤ (acceptedFrom xof 0 fewer).length →
      sampleNttSpec xof fewer = sampleNttSpec xof more := by
    intro fewer more le full
    obtain ⟨extra, rfl⟩ := Nat.exists_eq_add_of_le le
    rw [sampleNttSpec, sampleNttSpec, acceptedFrom, acceptedFrom, ← List.range'_append_1, List.flatMap_append,
      List.filter_append, ← acceptedFrom, List.take_append_of_le_length full]
  rcases le_total rounds rounds' with le | le
  · exact grows le enough
  · exact (grows le enough').symm

/-- `sample_ntt` computes FIPS 203 Algorithm 7: whenever its loop ends, within `fuel` rounds,
the stream held 256 candidates below `q` in those rounds and it returns the first 256 of them. -/
theorem sampleNttLoop_spec {xof : Nat → UInt8} {fuel : Nat} {out : List UInt16}
    (ran : sampleNttLoop xof fuel 0 [] = some out) :
    out.length = mlKemN ∧ mlKemN ≤ (acceptedFrom xof 0 fuel).length ∧ out.map UInt16.toNat = sampleNttSpec xof fuel := by
  obtain ⟨length, values⟩ := toNat_sampleNttLoop (Nat.zero_le _) ran
  rw [List.map_nil, List.nil_append] at values
  have full := congrArg List.length values
  rw [List.length_map, length, List.length_take] at full
  exact ⟨length, by omega, values⟩

end StrongSwan.Libstrongswan.Plugins.Ml.MlKemSample
