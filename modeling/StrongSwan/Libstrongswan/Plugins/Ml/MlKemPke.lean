import Mathlib
import StrongSwan.Libstrongswan.Plugins.Ml.MlKemArith
import StrongSwan.Libstrongswan.Plugins.Ml.MlKemCompress
import StrongSwan.Libstrongswan.Plugins.Ml.MlKemSample

/-!
Contract: K-PKE of FIPS 203 as `ml_kem.c` computes it: `pke_keygen`,
`pke_encrypt` and `pke_decrypt`, with `generate_a` and `sample_poly_cbd` as
they call the hash functions and XOFs.

The initiator keeps `t` and the matrix `A` after key generation; the responder
decodes `t` from the encapsulation key and generates `A` again from the seed
`ρ` that follows it. Decryption computes `w = v' - NTT^-1(s ∘ NTT(u'))` from
the decompressed ciphertext and rounds each coefficient to a bit.

Owns: the parameter sets, with what the proofs need of them as fields;
`sample_ntt` on the SHAKE-128 stream of a seed and that its entries are FIPS
203's `SampleNTT`; that every polynomial of the three functions keeps its
coefficients at most `q`; the element of `R_q` each stage stands for; the
decryption identity, `w = μ + n` with a noise `n` made only of the small
polynomials and the compression errors, the matrix cancelling; that decryption
returns the message whenever every coefficient of `n` is below `832` in centred
size; and primitives for worked runs, under which `n` stays below `110`.

Does not own: SHA3-256, SHA3-512, SHAKE-256 and SHAKE-128, which are
parameters (`MlKemPrimitives`); the failures of those plugins, which the code
reports and the model leaves out.
-/

namespace StrongSwan.Libstrongswan.Plugins.Ml.MlKemPke

open Polynomial
open StrongSwan.Foundations.NegacyclicNtt
open StrongSwan.Libstrongswan.Plugins.Ml.MlKem StrongSwan.Libstrongswan.Plugins.Ml.MlKemNtt
open StrongSwan.Libstrongswan.Plugins.Ml.MlKemArith StrongSwan.Libstrongswan.Plugins.Ml.MlKemCompress
open StrongSwan.Libstrongswan.Plugins.Ml.MlKemSample

/-! ## Parameters and primitives -/

/-- `ml_kem_params_t` with all its fields. The three sets of `ml_params.c` have
`k > 0`, compression widths of 1 to 11 bits, and ciphertexts of `k du` bits and
`dv` bits a coefficient. -/
structure MlKemSet extends MlKemParams where
  eta1 : Nat
  eta2 : Nat
  du : Nat
  dv : Nat
  k_pos : 0 < k
  du_pos : 0 < du
  du_le : du ≤ 11
  dv_pos : 0 < dv
  dv_le : dv ≤ 11
  ctLen_eq : ctLen = k * du * mlKemN / 8 + 1 * dv * mlKemN / 8

def mlKemSet512 : MlKemSet :=
  ⟨mlKem512, 3, 2, 10, 4, by decide, by decide, by decide, by decide, by decide, by decide⟩

def mlKemSet768 : MlKemSet :=
  ⟨mlKem768, 2, 2, 10, 4, by decide, by decide, by decide, by decide, by decide, by decide⟩

def mlKemSet1024 : MlKemSet :=
  ⟨mlKem1024, 2, 2, 11, 5, by decide, by decide, by decide, by decide, by decide, by decide⟩

/-- What `ml_kem.c` obtains from other plugins, as functions of their input:
`G` (SHA3-512) and `H` (SHA3-256) with the lengths of their digests, SHAKE-256
seeded with its first argument and read for as many bytes as the second says,
and the output stream of SHAKE-128 seeded with its argument, byte by byte. The
code runs the loop of `sample_ntt` on that stream with no bound, taking for
granted that every seed gives 256 candidates below `q` in some number of rounds. -/
structure MlKemPrimitives where
  g : List UInt8 → List UInt8
  h : List UInt8 → List UInt8
  shake256 : List UInt8 → Nat → List UInt8
  shake128 : List UInt8 → Nat → UInt8
  length_g : ∀ input, (g input).length = 2 * mlKemSeedLen
  length_h : ∀ input, (h input).length = mlKemSeedLen
  length_shake256 : ∀ seed count, (shake256 seed count).length = count
  shake128_enough : ∀ seed, ∃ rounds, mlKemN ≤ (acceptedFrom (shake128 seed) 0 rounds).length

/-- The SHAKE-128 stream of the worked runs: bytes below 12, so that `sample_ntt` keeps
both numbers of every round. -/
def unitStream (seed : List UInt8) (n : Nat) : UInt8 := (((seed.map UInt8.toNat).sum + n) % 12).toUInt8

theorem length_acceptedFrom_unitStream (seed : List UInt8) :
    mlKemN ≤ (acceptedFrom (unitStream seed) 0 mlKemN).length := by
  refine length_acceptedFrom_of_first (fun r => ?_) 0 mlKemN
  have small : ∀ n, (unitStream seed n).toNat < 12 := fun n => by
    rw [unitStream, Nat.toUInt8, UInt8.toNat_ofNat', Nat.mod_eq_of_lt (by omega)]
    exact Nat.mod_lt _ (by decide)
  have low := small (3 * r)
  have high := small (3 * r + 1)
  unfold mlKemQ
  omega

/-- Primitives for worked runs: the PRF outputs start with a single set bit, so that
every sampled polynomial is `1`; SHAKE-128 gives `unitStream`; the digests count up
from the length of their input. -/
def unitPrimitives : MlKemPrimitives where
  g input := (List.range (2 * mlKemSeedLen)).map fun i => (i + input.length).toUInt8
  h input := (List.range mlKemSeedLen).map fun i => (7 * i + input.length).toUInt8
  shake256 _ count := (List.replicate count 0).set 0 1
  shake128 := unitStream
  length_g _ := by rw [List.length_map, List.length_range]
  length_h _ := by rw [List.length_map, List.length_range]
  length_shake256 _ _ := by rw [List.length_set, List.length_replicate]
  shake128_enough seed := ⟨mlKemN, length_acceptedFrom_unitStream seed⟩

/-! ## The model -/

theorem length_samplePolyCbd (eta : Nat) (bytes : List UInt8) : (samplePolyCbd eta bytes).length = mlKemN := by
  rw [samplePolyCbd, length_flatMap_range fun _ => by rw [List.length_map, List.length_range]]
  unfold cbdCoeffs
  split <;> rfl

variable (prims : MlKemPrimitives)

/-- `sample_ntt(this, ahat)` after `set_seed(B)`: the loop runs on the stream of the seed
for as many rounds as it takes. -/
def MlKemPrimitives.sampleNtt (seed : List UInt8) : MlPoly :=
  have ends : ∃ rounds, (sampleNttLoop (prims.shake128 seed) rounds 0 []).isSome :=
    (prims.shake128_enough seed).imp fun _ enough => isSome_sampleNttLoop_of_enough enough
  ⟨(sampleNttLoop (prims.shake128 seed) (Nat.find ends) 0 []).get (Nat.find_spec ends),
    (sampleNttLoop_spec (Option.some_get (Nat.find_spec ends)).symm).1⟩

/-- The matrix entries are FIPS 203's `SampleNTT`: the first 256 numbers below `q` that the
SHAKE-128 stream of the seed gives, however many rounds are read beyond those that give them. -/
theorem sampleNtt_eq_spec (seed : List UInt8) {rounds : Nat}
    (enough : mlKemN ≤ (acceptedFrom (prims.shake128 seed) 0 rounds).length) :
    (prims.sampleNtt seed).f.map UInt16.toNat = sampleNttSpec (prims.shake128 seed) rounds := by
  have ends : ∃ rounds, (sampleNttLoop (prims.shake128 seed) rounds 0 []).isSome :=
    (prims.shake128_enough seed).imp fun _ enough => isSome_sampleNttLoop_of_enough enough
  obtain ⟨-, found, values⟩ := sampleNttLoop_spec (Option.some_get (Nat.find_spec ends)).symm
  rw [← sampleNttSpec_eq_of_enough found enough]
  exact values

theorem sampleNtt_eq_spec_unit :
    mlKemN ≤ (acceptedFrom (unitPrimitives.shake128 ((List.range 34).map Nat.toUInt8)) 0 mlKemN).length ∧
      (unitPrimitives.sampleNtt ((List.range 34).map Nat.toUInt8)).f.map UInt16.toNat =
        sampleNttSpec (unitPrimitives.shake128 ((List.range 34).map Nat.toUInt8)) mlKemN :=
  ⟨length_acceptedFrom_unitStream _,
    sampleNtt_eq_spec unitPrimitives _ (length_acceptedFrom_unitStream ((List.range 34).map Nat.toUInt8))⟩

/-- `sample_poly_cbd(this, eta, s, N, p)`: `PRF_η(s, N)`, the first `64 η` bytes
of SHAKE-256 seeded with the 32 bytes of `s` and the byte `N`, sampled. -/
def samplePoly (eta : Nat) (s : List UInt8) (nonce : Nat) : MlPoly :=
  ⟨samplePolyCbd eta (prims.shake256 (s.take mlKemSeedLen ++ [nonce.toUInt8]) (64 * eta)),
    length_samplePolyCbd _ _⟩

/-- `k` calls of `sample_poly_cbd` with the nonces `N, …, N + k - 1`. -/
def sampleVector (eta : Nat) (s : List UInt8) (nonce k : Nat) : List MlPoly :=
  (List.range k).map fun i => samplePoly prims eta s (nonce + i)

/-- `generate_a`: entry `(i, j)`, at `a[i * k + j]`, is sampled from `ρ || j || i`. -/
def generateA (k : Nat) (rho : List UInt8) : List MlPoly :=
  (List.range k).flatMap fun i =>
    (List.range k).map fun j => prims.sampleNtt (rho.take mlKemSeedLen ++ [j.toUInt8, i.toUInt8])

/-- `t = A ∘ s + e` of `pke_keygen`: row `i` of the matrix starts at `a[i * k]`. -/
def keygenT (k : Nat) (a s e : List MlPoly) : List MlPoly :=
  mlPolyAddArr k ((List.range k).map fun i => multiplyPolyArr k (a.drop (i * k)) s false) e

/-- What `pke_keygen` leaves behind: `this->public_key` holds `t` and then the
matrix, `this->private_key` the transformed secret, and `ek` is returned. -/
structure PkeKeys where
  publicKey : List MlPoly
  privateKey : List MlPoly
  ek : List UInt8

/-- `pke_keygen(this, d, ek)`: `(ρ, σ) = G(d || k)`. -/
def pkeKeygen (params : MlKemSet) (d : List UInt8) : PkeKeys :=
  let seeds := prims.g (d ++ [params.k.toUInt8])
  let rho := seeds.take mlKemSeedLen
  let sigma := seeds.drop mlKemSeedLen
  let a := generateA prims params.k rho
  let s := (sampleVector prims params.eta1 sigma 0 params.k).map ntt
  let e := (sampleVector prims params.eta1 sigma params.k params.k).map ntt
  let t := keygenT params.k a s e
  ⟨t ++ a, s, encodePolyArr t ++ rho⟩

/-- `u = NTT^-1(A^T ∘ y) + e_1` of `pke_encrypt`: column `i` of the matrix
starts at `a[i]`. -/
def encryptU (k : Nat) (a y e1 : List MlPoly) : List MlPoly :=
  mlPolyAddArr k ((List.range k).map fun i => nttInv (multiplyPolyArr k (a.drop i) y true)) e1

/-- `v = NTT^-1(t^T ∘ y) + e_2 + μ` of `pke_encrypt`. -/
def encryptV (k : Nat) (t y : List MlPoly) (e2 mu : MlPoly) : MlPoly :=
  mlPolyAdd (mlPolyAdd (nttInv (multiplyPolyArr k t y false)) e2) mu

/-- The `t` and the matrix of `pke_encrypt`: decoded from `ek` and generated
from the seed after it when `this->public_key` is not set, read from it when
it is. -/
def encryptionKey (k : Nat) (publicKey : Option (List MlPoly)) (ek : List UInt8) :
    List MlPoly × List MlPoly :=
  match publicKey with
  | none => (decodePolyArr k ek, generateA prims k ((ek.drop (k * mlKemPolyLen)).take mlKemSeedLen))
  | some key => (key.take k, key.drop k)

/-- `pke_encrypt(this, ek, m, r, ciphertext)`, with the nonces `0, …, 2k` of
`y`, `e_1` and `e_2` drawn from `r`. The code allocates the ciphertext
uninitialized; both parts are written whole. -/
def pkeEncrypt (params : MlKemSet) (publicKey : Option (List MlPoly)) (ek m r : List UInt8) :
    List UInt8 :=
  let key := encryptionKey prims params.k publicKey ek
  let y := (sampleVector prims params.eta1 r 0 params.k).map ntt
  let e1 := sampleVector prims params.eta2 r params.k params.k
  let e2 := samplePoly prims params.eta2 r (2 * params.k)
  let u := encryptU params.k key.2 y e1
  let v := encryptV params.k key.1 y e2 (messageToPoly m)
  compressPolysArr params.k params.du u (List.replicate (params.k * params.du * mlKemN / 8) 0) ++
    compressPolysArr 1 params.dv [v] (List.replicate (1 * params.dv * mlKemN / 8) 0)

/-- `w = v - NTT^-1(s ∘ NTT(u))` of `pke_decrypt`, given `NTT(u)`. -/
def decryptW (k : Nat) (s u : List MlPoly) (v : MlPoly) : MlPoly :=
  mlPolySub v (nttInv (multiplyPolyArr k s u false))

/-- `pke_decrypt(this, ciphertext, m)` with the stored private key: `u` from the
first `k du 32` bytes, `v` from the `dv 32` after them. -/
def pkeDecrypt (params : MlKemSet) (privateKey : List MlPoly) (ciphertext : List UInt8) :
    List UInt8 :=
  let split := params.k * params.du * mlKemN / 8
  let u := decompressPolyArr params.k params.du (ciphertext.take split)
  let v := (decompressPolyArr 1 params.dv ((ciphertext.drop split).take (1 * params.dv * mlKemN / 8))).getD 0
    zeroPoly
  polyToMessage (decryptW params.k privateKey (u.map ntt) v)

/-! ## The noise -/

/-- The noise of a decryption, `eᵀ y + e_2 + c_v - sᵀ (e_1 + c_u)` reduced modulo
`X ^ 256 + 1`, where `c_u` and `c_v` are what compressing and decompressing
adds to `u` and `v`. -/
noncomputable def decryptionNoise (k du dv : Nat) (s e y e1 u : List MlPoly) (e2 v : MlPoly) :
    (ZMod mlKemQ)[X] :=
  (∑ i ∈ Finset.range k, polyOf (e.getD i zeroPoly) * polyOf (y.getD i zeroPoly) + polyOf e2
      + (polyOf (compressRoundTrip dv v) - polyOf v)
      - ∑ i ∈ Finset.range k, polyOf (s.getD i zeroPoly)
          * (polyOf (e1.getD i zeroPoly)
            + (polyOf (compressRoundTrip du (u.getD i zeroPoly)) - polyOf (u.getD i zeroPoly))))
    %ₘ (X ^ mlKemN + 1)

/-- The noise of decrypting what `pke_encrypt` makes of `m` with the randomness
`r`, under the key that `pke_keygen` makes from `d`. -/
noncomputable def pkeNoise (params : MlKemSet) (d m r : List UInt8) : (ZMod mlKemQ)[X] :=
  let seeds := prims.g (d ++ [params.k.toUInt8])
  let a := generateA prims params.k (seeds.take mlKemSeedLen)
  let s := sampleVector prims params.eta1 (seeds.drop mlKemSeedLen) 0 params.k
  let e := sampleVector prims params.eta1 (seeds.drop mlKemSeedLen) params.k params.k
  let y := sampleVector prims params.eta1 r 0 params.k
  let e1 := sampleVector prims params.eta2 r params.k params.k
  let e2 := samplePoly prims params.eta2 r (2 * params.k)
  decryptionNoise params.k params.du params.dv s e y e1 (encryptU params.k a (y.map ntt) e1) e2
    (encryptV params.k (keygenT params.k a (s.map ntt) (e.map ntt)) (y.map ntt) e2 (messageToPoly m))

/-! ## Bounds -/

theorem getD_drop {α : Type*} (l : List α) (n j : Nat) (d : α) : (l.drop n).getD j d = l.getD (n + j) d := by
  rw [List.getD_eq_getElem?_getD, List.getElem?_drop, ← List.getD_eq_getElem?_getD]

theorem getD_mlPolyAddArr {k i : Nat} (a b : List MlPoly) (within : i < k) :
    (mlPolyAddArr k a b).getD i zeroPoly = mlPolyAdd (a.getD i zeroPoly) (b.getD i zeroPoly) := by
  rw [mlPolyAddArr, getD_range_map _ _ within]

theorem ntt_zeroPoly_eq : ntt zeroPoly = zeroPoly := MlPoly.ext ntt_zeroPoly

theorem getD_map_ntt (l : List MlPoly) (i : Nat) : (l.map ntt).getD i zeroPoly = ntt (l.getD i zeroPoly) := by
  rw [← List.getD_map l zeroPoly ntt, ntt_zeroPoly_eq]

theorem bounded_zeroPoly : ∀ x ∈ zeroPoly.f, Bounded x := fun _ member =>
  (List.eq_of_mem_replicate member) ▸ bounded_zero

/-- The output of `ml_reduce_modq` on `x - y + q` for fields `x` and `y` of at most
three bits is at most `q`. -/
theorem bounded_cbdCoefficient (eta : Nat) (b : UInt32) (j : Nat) : Bounded (cbdCoefficient eta b j) := by
  have field : ∀ offset, (cbdField eta b offset).toNat ≤ 7 := by
    intro offset
    have masked : (cbdMask eta).toNat ≤ 7 := by unfold cbdMask; split <;> decide
    rw [cbdField, UInt32.toNat_toUInt16, UInt32.toNat_and]
    exact le_trans (Nat.mod_le _ _) (le_trans Nat.and_le_right masked)
  have x := field (2 * j * eta)
  have y := field (2 * j * eta + eta)
  apply bounded_mlReduceModq
  rw [toNat_sub_add_q (by unfold Bounded mlKemQ; omega) (by unfold Bounded mlKemQ; omega)]
  omega

theorem bounded_samplePoly (eta : Nat) (s : List UInt8) (nonce : Nat) :
    ∀ x ∈ (samplePoly prims eta s nonce).f, Bounded x := by
  intro x member
  obtain ⟨i, -, inWord⟩ := List.mem_flatMap.mp member
  obtain ⟨j, -, rfl⟩ := List.mem_map.mp inWord
  exact bounded_cbdCoefficient _ _ _

theorem bounded_sampleVector (eta : Nat) (s : List UInt8) (nonce k i : Nat) :
    ∀ x ∈ ((sampleVector prims eta s nonce k).getD i zeroPoly).f, Bounded x := by
  rw [sampleVector, List.getD_eq_getElem?_getD, List.getElem?_map]
  cases (List.range k)[i]? with
  | none => exact bounded_zeroPoly
  | some n => exact bounded_samplePoly prims eta s (nonce + n)

/-- `message_to_poly` selects `0` or `(q + 1) / 2` under a mask, at most `q`. -/
theorem bounded_messageToPoly (m : List UInt8) : ∀ x ∈ (messageToPoly m).f, Bounded x := by
  rw [messageToPoly_f]
  intro x member
  obtain ⟨i, -, inByte⟩ := List.mem_flatMap.mp member
  obtain ⟨j, -, rfl⟩ := List.mem_map.mp inByte
  rw [Bounded, mlAssignCondInt16, UInt16.toNat_xor, UInt16.toNat_and, UInt16.toNat_xor]
  have selected := @Nat.and_le_right (0 - ((m.getD i 0 >>> j.toUInt8) &&& 1).toUInt16).toNat
    (((3329 + 1) / 2 : UInt16).toNat ^^^ (0 : UInt16).toNat)
  simp only [UInt16.toNat_zero, Nat.zero_xor, Nat.xor_zero] at selected ⊢
  exact le_trans selected (by decide)

/-! ## Each stage in `R_q`

Every stage is read through `Represents` in the transformed domain and
through `toRq` in the normal one. The matrix, sampled in the transformed
domain, is read through `leafPoly`. -/

section Stages

variable {k : Nat} (positive : 0 < k)
include positive

/-- Row `i` of `t = A ∘ s + e` represents `∑ A_ij S_j + E_i`. -/
theorem represents_keygenT {a s e : List MlPoly} {S E : Nat → (ZMod mlKemQ)[X]}
    (secret : ∀ j < k, Represents zetaRoot (S j) 7 2 ((s.getD j zeroPoly).f.map residue))
    (error : ∀ i < k, Represents zetaRoot (E i) 7 2 ((e.getD i zeroPoly).f.map residue))
    (errorBounded : ∀ i < k, ∀ x ∈ (e.getD i zeroPoly).f, Bounded x) {i : Nat} (row : i < k) :
    Represents zetaRoot (∑ j ∈ Finset.range k, leafPoly (a.getD (i * k + j) zeroPoly) * S j + E i) 7 2
      (((keygenT k a s e).getD i zeroPoly).f.map residue) := by
  rw [keygenT, getD_mlPolyAddArr _ _ row, getD_range_map _ _ row]
  refine represents_mlPolyAdd (bounded_multiplyPolyArr _ _ _ _) (errorBounded i row) ?_ (error i row)
  refine represents_multiplyPolyArr positive (fun j _ => ?_) secret
  rw [if_neg Bool.false_ne_true, Nat.mul_one, getD_drop]
  exact represents_leafPoly _

/-- Entry `i` of `u = NTT^-1(A^T ∘ y) + e_1` stands for `∑ A_ji Y_j + e_1i`. -/
theorem toRq_encryptU {a y e1 : List MlPoly} {Y : Nat → (ZMod mlKemQ)[X]}
    (random : ∀ j < k, Represents zetaRoot (Y j) 7 2 ((y.getD j zeroPoly).f.map residue))
    (errorBounded : ∀ i < k, ∀ x ∈ (e1.getD i zeroPoly).f, Bounded x) {i : Nat} (column : i < k) :
    toRq ((encryptU k a y e1).getD i zeroPoly)
      = AdjoinRoot.mk _ (∑ j ∈ Finset.range k, leafPoly (a.getD (j * k + i) zeroPoly) * Y j)
        + toRq (e1.getD i zeroPoly) := by
  have product : toRq (nttInv (multiplyPolyArr k (a.drop i) y true))
      = AdjoinRoot.mk _ (∑ j ∈ Finset.range k, leafPoly (a.getD (j * k + i) zeroPoly) * Y j) := by
    apply toRq_nttInv (bounded_multiplyPolyArr _ _ _ _)
    refine represents_multiplyPolyArr positive (fun j _ => ?_) random
    rw [if_pos rfl, getD_drop, Nat.add_comm]
    exact represents_leafPoly _
  rw [encryptU, getD_mlPolyAddArr _ _ column, getD_range_map _ _ column,
    toRq_mlPolyAdd (bounded_nttInv _) (errorBounded i column), product]

omit positive in
theorem bounded_encryptU {a y e1 : List MlPoly}
    (errorBounded : ∀ i < k, ∀ x ∈ (e1.getD i zeroPoly).f, Bounded x) {i : Nat} (column : i < k) :
    ∀ x ∈ ((encryptU k a y e1).getD i zeroPoly).f, Bounded x := by
  rw [encryptU, getD_mlPolyAddArr _ _ column, getD_range_map _ _ column]
  exact bounded_mlPolyAdd (bounded_nttInv _) (errorBounded i column)

section Message

variable {t y : List MlPoly} {e2 mu : MlPoly} (errorBounded : ∀ x ∈ e2.f, Bounded x)
  (messageBounded : ∀ x ∈ mu.f, Bounded x)
include errorBounded messageBounded

/-- `v = NTT^-1(t^T ∘ y) + e_2 + μ` stands for `∑ T_i Y_i + e_2 + μ`. -/
theorem toRq_encryptV {T Y : Nat → (ZMod mlKemQ)[X]}
    (key : ∀ i < k, Represents zetaRoot (T i) 7 2 ((t.getD i zeroPoly).f.map residue))
    (random : ∀ i < k, Represents zetaRoot (Y i) 7 2 ((y.getD i zeroPoly).f.map residue)) :
    toRq (encryptV k t y e2 mu) = AdjoinRoot.mk _ (∑ i ∈ Finset.range k, T i * Y i) + toRq e2 + toRq mu := by
  have product : toRq (nttInv (multiplyPolyArr k t y false))
      = AdjoinRoot.mk _ (∑ i ∈ Finset.range k, T i * Y i) := by
    apply toRq_nttInv (bounded_multiplyPolyArr _ _ _ _)
    refine represents_multiplyPolyArr positive (fun i row => ?_) random
    rw [if_neg Bool.false_ne_true, Nat.mul_one]
    exact key i row
  rw [encryptV, toRq_mlPolyAdd (bounded_mlPolyAdd (bounded_nttInv _) errorBounded) messageBounded,
    toRq_mlPolyAdd (bounded_nttInv _) errorBounded, product]

omit positive in
theorem bounded_encryptV : ∀ x ∈ (encryptV k t y e2 mu).f, Bounded x :=
  bounded_mlPolyAdd (bounded_mlPolyAdd (bounded_nttInv _) errorBounded) messageBounded

end Message

/-- `w = v - NTT^-1(s ∘ NTT(u))` stands for `v - ∑ S_i U_i`. -/
theorem toRq_decryptW {s u : List MlPoly} {v : MlPoly} {S U : Nat → (ZMod mlKemQ)[X]}
    (secret : ∀ i < k, Represents zetaRoot (S i) 7 2 ((s.getD i zeroPoly).f.map residue))
    (cipher : ∀ i < k, Represents zetaRoot (U i) 7 2 ((u.getD i zeroPoly).f.map residue))
    (bounded : ∀ x ∈ v.f, Bounded x) :
    toRq (decryptW k s u v) = toRq v - AdjoinRoot.mk _ (∑ i ∈ Finset.range k, S i * U i) := by
  have product : toRq (nttInv (multiplyPolyArr k s u false))
      = AdjoinRoot.mk _ (∑ i ∈ Finset.range k, S i * U i) := by
    apply toRq_nttInv (bounded_multiplyPolyArr _ _ _ _)
    refine represents_multiplyPolyArr positive (fun i row => ?_) cipher
    rw [if_neg Bool.false_ne_true, Nat.mul_one]
    exact secret i row
  rw [decryptW, toRq_mlPolySub bounded (bounded_nttInv _), product]

end Stages

/-! ## The decryption identity -/

/-- The algebra of decryption in a commutative ring: with `t = A s + e`,
`u = Aᵀ y + e_1` and `v = tᵀ y + e_2 + μ`, taking `sᵀ (u + c_u)` from
`v + c_v` leaves `μ` and the noise; the matrix cancels. -/
theorem decrypt_identity {S : Type*} [CommRing S] (k : Nat) (A : Nat → Nat → S) (s e y e1 cu : Nat → S)
    (e2 μ cv : S) :
    (∑ i ∈ Finset.range k, (∑ j ∈ Finset.range k, A i j * s j + e i) * y i) + e2 + μ + cv
        - ∑ i ∈ Finset.range k, s i * ((∑ j ∈ Finset.range k, A j i * y j) + e1 i + cu i)
      = μ + ((∑ i ∈ Finset.range k, e i * y i) + e2 + cv - ∑ i ∈ Finset.range k, s i * (e1 i + cu i)) := by
  -- the two matrix terms agree once the double sum is exchanged
  have swap : ∑ i ∈ Finset.range k, (∑ j ∈ Finset.range k, A i j * s j) * y i
      = ∑ i ∈ Finset.range k, s i * ∑ j ∈ Finset.range k, A j i * y j := by
    simp only [Finset.sum_mul, Finset.mul_sum]
    rw [Finset.sum_comm]
    exact Finset.sum_congr rfl fun i _ => Finset.sum_congr rfl fun j _ => by ring
  simp only [add_mul, mul_add, Finset.sum_add_distrib]
  rw [swap]
  ring

section Run

variable {k du dv : Nat} {a s e y e1 : List MlPoly} {e2 : MlPoly}
  (positive : 0 < k) (duPositive : 0 < du) (duNarrow : du ≤ 11) (dvPositive : 0 < dv) (dvNarrow : dv ≤ 11)
  (secretBounded : ∀ i < k, ∀ x ∈ (s.getD i zeroPoly).f, Bounded x)
  (errorBounded : ∀ i < k, ∀ x ∈ (e.getD i zeroPoly).f, Bounded x)
  (randomBounded : ∀ i < k, ∀ x ∈ (y.getD i zeroPoly).f, Bounded x)
  (error1Bounded : ∀ i < k, ∀ x ∈ (e1.getD i zeroPoly).f, Bounded x)
  (error2Bounded : ∀ x ∈ e2.f, Bounded x)

/-- Transformed polynomials with coefficients at most `q` represent their own polynomials. -/
theorem represents_map_ntt {l : List MlPoly} (bounded : ∀ i < k, ∀ x ∈ (l.getD i zeroPoly).f, Bounded x) :
    ∀ i < k, Represents zetaRoot (polyOf (l.getD i zeroPoly)) 7 2 (((l.map ntt).getD i zeroPoly).f.map residue) :=
  fun i row => by
    rw [getD_map_ntt]
    exact represents_ntt _ (bounded i row)

include positive duPositive duNarrow dvPositive dvNarrow secretBounded errorBounded randomBounded error1Bounded error2Bounded

/-- The decryption identity: the `w` that `pke_decrypt` computes from what
`pke_encrypt` made of `m` under the key of `pke_keygen` is `μ` plus the noise,
coefficient by coefficient. -/
theorem polyOf_decryptW (m : List UInt8) :
    polyOf (decryptW k (s.map ntt)
        (((List.range k).map fun i => compressRoundTrip du ((encryptU k a (y.map ntt) e1).getD i zeroPoly)).map ntt)
        (compressRoundTrip dv (encryptV k (keygenT k a (s.map ntt) (e.map ntt)) (y.map ntt) e2 (messageToPoly m))))
      = polyOf (messageToPoly m)
        + decryptionNoise k du dv s e y e1 (encryptU k a (y.map ntt) e1) e2
          (encryptV k (keygenT k a (s.map ntt) (e.map ntt)) (y.map ntt) e2 (messageToPoly m)) := by
  set u := encryptU k a (y.map ntt) e1
  set t := keygenT k a (s.map ntt) (e.map ntt)
  set v := encryptV k t (y.map ntt) e2 (messageToPoly m)
  have eHat : ∀ i < k, ∀ x ∈ ((e.map ntt).getD i zeroPoly).f, Bounded x := fun i row => by
    rw [getD_map_ntt]
    exact (ntt_residues _ (errorBounded i row)).1
  have key : ∀ i < k, Represents zetaRoot (∑ j ∈ Finset.range k, leafPoly (a.getD (i * k + j) zeroPoly)
      * polyOf (s.getD j zeroPoly) + polyOf (e.getD i zeroPoly)) 7 2 ((t.getD i zeroPoly).f.map residue) :=
    fun i row => represents_keygenT positive (represents_map_ntt secretBounded) (represents_map_ntt errorBounded)
      eHat row
  -- `v` and every entry of `u` in `R_q`
  have vRq := toRq_encryptV positive error2Bounded (bounded_messageToPoly m) key (represents_map_ntt randomBounded)
  have uRq : ∀ i < k, toRq (u.getD i zeroPoly) = ∑ j ∈ Finset.range k,
      AdjoinRoot.mk _ (leafPoly (a.getD (j * k + i) zeroPoly)) * toRq (y.getD j zeroPoly) + toRq (e1.getD i zeroPoly) := by
    intro i column
    rw [toRq_encryptU positive (represents_map_ntt randomBounded) error1Bounded column]
    simp only [map_sum, map_mul, ← toRq_def]
  simp only [map_sum, map_add, map_mul, ← toRq_def] at vRq
  -- the decompressed `u` represents itself once transformed
  set u' := (List.range k).map fun i => compressRoundTrip du (u.getD i zeroPoly)
  have cipher : ∀ i < k, Represents zetaRoot (polyOf (compressRoundTrip du (u.getD i zeroPoly))) 7 2
      (((u'.map ntt).getD i zeroPoly).f.map residue) := by
    intro i column
    have bounded : ∀ i < k, ∀ x ∈ (u'.getD i zeroPoly).f, Bounded x := fun i column => by
      rw [getD_range_map _ _ column]
      exact bounded_compressRoundTrip duPositive duNarrow _
    have decompressed := represents_map_ntt bounded i column
    rwa [getD_range_map _ _ column] at decompressed
  have wRq := toRq_decryptW positive (represents_map_ntt secretBounded) cipher
    (bounded_compressRoundTrip dvPositive dvNarrow v)
  -- the decompressed `u` is `u` plus its compression error
  have uSum : ∑ i ∈ Finset.range k, toRq (s.getD i zeroPoly) * toRq (compressRoundTrip du (u.getD i zeroPoly))
      = ∑ i ∈ Finset.range k, toRq (s.getD i zeroPoly) * ((∑ j ∈ Finset.range k,
          AdjoinRoot.mk _ (leafPoly (a.getD (j * k + i) zeroPoly)) * toRq (y.getD j zeroPoly))
        + toRq (e1.getD i zeroPoly)
        + (toRq (compressRoundTrip du (u.getD i zeroPoly)) - toRq (u.getD i zeroPoly))) := by
    refine Finset.sum_congr rfl fun i member => ?_
    rw [← uRq i (Finset.mem_range.mp member)]
    ring
  have identity := decrypt_identity k
    (fun i j => AdjoinRoot.mk (X ^ mlKemN + 1) (leafPoly (a.getD (i * k + j) zeroPoly)))
    (fun i => toRq (s.getD i zeroPoly)) (fun i => toRq (e.getD i zeroPoly)) (fun i => toRq (y.getD i zeroPoly))
    (fun i => toRq (e1.getD i zeroPoly))
    (fun i => toRq (compressRoundTrip du (u.getD i zeroPoly)) - toRq (u.getD i zeroPoly))
    (toRq e2) (toRq (messageToPoly m)) (toRq (compressRoundTrip dv v) - toRq v)
  beta_reduce at identity
  -- read the identity of `R_q` back as one of polynomials of degree below 256
  rw [decryptionNoise, ← polyOf_modByMonic (messageToPoly m), ← add_modByMonic]
  refine eq_modByMonic_of_mk_eq (by decide : 0 < mlKemN) (degree_polyOf_lt _) ?_
  rw [← toRq_def, wRq]
  simp only [map_add, map_sub, map_mul, map_sum, ← toRq_def]
  linear_combination identity + vRq - uSum

end Run

/-! ## The key as each side reads it -/

theorem length_keygenT (k : Nat) (a s e : List MlPoly) : (keygenT k a s e).length = k := by
  rw [keygenT, mlPolyAddArr, List.length_map, List.length_range]

theorem length_encodePolyArr (polys : List MlPoly) : (encodePolyArr polys).length = mlKemPolyLen * polys.length := by
  induction polys with
  | nil => rfl
  | cons poly others inductionHypothesis =>
    rw [encodePolyArr, List.flatMap_cons, List.length_append, ← encodePolyArr, inductionHypothesis,
      length_encodePoly, List.length_cons, Nat.mul_succ, Nat.add_comm]

theorem length_generateA (k : Nat) (rho : List UInt8) : (generateA prims k rho).length = k * k :=
  length_flatMap_range (fun _ => by rw [List.length_map, List.length_range]) k

/-! A key pair holds the `k` polynomials of `s`, the `k` of `t` followed by the `k²`
of the matrix, and an `ek` of `pk_len` bytes. -/

theorem length_pkeKeygen_privateKey (params : MlKemSet) (d : List UInt8) :
    (pkeKeygen prims params d).privateKey.length = params.k := by
  simp only [pkeKeygen, sampleVector, List.length_map, List.length_range]

theorem length_pkeKeygen_publicKey (params : MlKemSet) (d : List UInt8) :
    (pkeKeygen prims params d).publicKey.length = (params.k + 1) * params.k := by
  simp only [pkeKeygen]
  rw [List.length_append, length_keygenT, length_generateA]
  ring

theorem length_pkeKeygen_ek (params : MlKemSet) (d : List UInt8) :
    (pkeKeygen prims params d).ek.length = params.pkLen := by
  simp only [pkeKeygen]
  rw [List.length_append, length_encodePolyArr, length_keygenT, List.length_take, prims.length_g,
    params.pkLen_eq, Nat.mul_comm]
  rfl

/-- Every coefficient of `t` is at most `q`, hence of 12 bits, once `e` keeps the bound. -/
theorem bounded_of_mem_keygenT {k : Nat} {a s e : List MlPoly}
    (errorBounded : ∀ i < k, ∀ x ∈ (e.getD i zeroPoly).f, Bounded x) :
    ∀ poly ∈ keygenT k a s e, ∀ x ∈ poly.f, Bounded x := by
  intro poly member
  obtain ⟨i, inRange, rfl⟩ := List.mem_map.mp (by rw [keygenT, mlPolyAddArr] at member; exact member)
  have row := List.mem_range.mp inRange
  rw [getD_range_map _ _ row]
  exact bounded_mlPolyAdd (bounded_multiplyPolyArr _ _ _ _) (errorBounded i row)

/-- The responder decodes `t` from the encapsulation key and generates the
matrix from the seed after it; both are what the initiator keeps. -/
theorem encryptionKey_pkeKeygen (params : MlKemSet) (d ek : List UInt8) :
    encryptionKey prims params.k none (pkeKeygen prims params d).ek
      = encryptionKey prims params.k (some (pkeKeygen prims params d).publicKey) ek := by
  set seeds := prims.g (d ++ [params.k.toUInt8])
  set t := keygenT params.k (generateA prims params.k (seeds.take mlKemSeedLen))
    ((sampleVector prims params.eta1 (seeds.drop mlKemSeedLen) 0 params.k).map ntt)
    ((sampleVector prims params.eta1 (seeds.drop mlKemSeedLen) params.k params.k).map ntt)
  have length : t.length = params.k := length_keygenT _ _ _ _
  have below : ∀ poly ∈ t, ∀ coefficient ∈ poly.f, coefficient.toNat < 2 ^ 12 := by
    intro poly member coefficient inPoly
    have bounded := bounded_of_mem_keygenT (fun i _ => by
      rw [getD_map_ntt]
      exact (ntt_residues _ (bounded_sampleVector prims _ _ _ _ i)).1) poly member coefficient inPoly
    unfold Bounded mlKemQ at bounded
    omega
  -- the seed `ρ` follows the `k` encoded polynomials
  have seed : (encodePolyArr t ++ seeds.take mlKemSeedLen).drop (params.k * mlKemPolyLen)
      = seeds.take mlKemSeedLen := by
    rw [List.drop_left']
    rw [length_encodePolyArr, length, Nat.mul_comm]
  show (decodePolyArr params.k (encodePolyArr t ++ seeds.take mlKemSeedLen),
      generateA prims params.k (((encodePolyArr t ++ seeds.take mlKemSeedLen).drop (params.k * mlKemPolyLen)).take
        mlKemSeedLen))
    = ((t ++ generateA prims params.k (seeds.take mlKemSeedLen)).take params.k,
      (t ++ generateA prims params.k (seeds.take mlKemSeedLen)).drop params.k)
  rw [seed, List.take_take, Nat.min_self, List.take_left' length, List.drop_left' length, ← length,
    decodePolyArr_encodePolyArr_append t below]

/-! ## A run with noise

With `unitPrimitives` every sampled polynomial is `1`. The noise of a run is then
`1` plus the compression error of `v` less the sum of those of the entries of `u`,
whatever the matrix, and stays far below the bound of decryption. -/

/-- The polynomial `1`. -/
def onePoly : MlPoly := ⟨1 :: List.replicate (mlKemN - 1) 0, by rw [List.length_cons, List.length_replicate]; rfl⟩

theorem polyOf_onePoly : polyOf onePoly = 1 := by
  ext j
  rw [coeff_polyOf, coeff_one]
  rcases j with _ | j
  · rw [if_pos (by decide), if_pos rfl]
    show residue 1 = 1
    rw [residue, UInt16.toNat_one, Nat.cast_one]
  · have zero : onePoly.f.getD (j + 1) 0 = 0 := StrongSwan.Foundations.ButterflyNetwork.getD_replicate_zero _ _
    rw [zero, residue_zero, ite_self, if_neg (Nat.succ_ne_zero j)]

set_option maxRecDepth 8000 in
/-- A PRF output that starts with one set bit samples `1`. -/
theorem samplePoly_unitPrimitives {eta : Nat} (eta23 : eta = 2 ∨ eta = 3) (s : List UInt8) (nonce : Nat) :
    samplePoly unitPrimitives eta s nonce = onePoly := by
  apply MlPoly.ext
  show samplePolyCbd eta ((List.replicate (64 * eta) 0).set 0 1) = onePoly.f
  rcases eta23 with rfl | rfl <;> decide

theorem getD_sampleVector_unitPrimitives {eta : Nat} (eta23 : eta = 2 ∨ eta = 3) (s : List UInt8)
    (nonce k : Nat) {i : Nat} (row : i < k) :
    (sampleVector unitPrimitives eta s nonce k).getD i zeroPoly = onePoly := by
  rw [sampleVector, getD_range_map _ _ row]
  exact samplePoly_unitPrimitives eta23 s (nonce + i)

/-- The centred size of an integer modulo `q` is at most its own size. -/
theorem natAbs_valMinAbs_intCast_le (z : ℤ) : ((z : ZMod mlKemQ).valMinAbs).natAbs ≤ z.natAbs :=
  ZMod.natAbs_min_of_le_div_two mlKemQ _ z (ZMod.coe_valMinAbs _) (ZMod.natAbs_valMinAbs_le _)

theorem natAbs_valMinAbs_add_le_add (a b : ZMod mlKemQ) :
    (a + b).valMinAbs.natAbs ≤ a.valMinAbs.natAbs + b.valMinAbs.natAbs :=
  le_trans (ZMod.natAbs_valMinAbs_add_le a b) (Int.natAbs_add_le _ _)

theorem natAbs_valMinAbs_sub_le_add (a b : ZMod mlKemQ) :
    (a - b).valMinAbs.natAbs ≤ a.valMinAbs.natAbs + b.valMinAbs.natAbs := by
  rw [sub_eq_add_neg, ← ZMod.natAbs_valMinAbs_neg b]
  exact natAbs_valMinAbs_add_le_add a (-b)

theorem natAbs_valMinAbs_sum_le (f : Nat → ZMod mlKemQ) (k : Nat) :
    (∑ i ∈ Finset.range k, f i).valMinAbs.natAbs ≤ ∑ i ∈ Finset.range k, (f i).valMinAbs.natAbs := by
  induction k with
  | zero => simp
  | succ k inductionHypothesis =>
    rw [Finset.sum_range_succ, Finset.sum_range_succ]
    exact le_trans (natAbs_valMinAbs_add_le_add _ _) (Nat.add_le_add_right inductionHypothesis _)

/-- What compressing a polynomial to `d` bits and decompressing it adds to it. -/
noncomputable def compressionError (d : Nat) (p : MlPoly) : (ZMod mlKemQ)[X] :=
  polyOf (compressRoundTrip d p) - polyOf p

theorem compressionError_def (d : Nat) (p : MlPoly) :
    compressionError d p = polyOf (compressRoundTrip d p) - polyOf p := by
  unfold compressionError
  rfl

/-- Every coefficient of the compression error of a polynomial at most `q` is at most
`(q + 2 ^ d) / 2 ^ (d + 1)` in centred size. -/
theorem natAbs_coeff_compressionError_le {d : Nat} (positive : 0 < d) (narrow : d ≤ 11) {p : MlPoly}
    (bounded : ∀ x ∈ p.f, Bounded x) (j : Nat) :
    ((compressionError d p).coeff j).valMinAbs.natAbs ≤ (mlKemQ + 2 ^ d) / 2 ^ (d + 1) := by
  by_cases inside : j < mlKemN
  · have member : p.f.getD j 0 ∈ p.f := by
      rw [List.getD_eq_getElem _ _ (by rw [p.length_f]; exact inside)]
      exact List.getElem_mem _
    obtain ⟨e, small, close⟩ := exists_residue_decompress_compress positive narrow (bounded _ member)
    have error : (compressionError d p).coeff j = e := by
      rw [compressionError_def, coeff_sub, coeff_polyOf, coeff_polyOf, if_pos inside, if_pos inside, getD_compressRoundTrip d p inside,
        close]
      ring
    have size := abs_le.mp small
    rw [error]
    exact le_trans (natAbs_valMinAbs_intCast_le e) (by omega)
  · rw [compressionError_def, coeff_sub, coeff_polyOf, coeff_polyOf, if_neg inside, if_neg inside, sub_zero,
      ZMod.valMinAbs_zero]
    exact Nat.zero_le _

/-- With every sampled polynomial `1` the products cancel: the noise is `1` plus the
compression error of `v` less the sum of those of the entries of `u`. -/
theorem decryptionNoise_of_ones {k du dv : Nat} {s e y e1 u : List MlPoly} {e2 v : MlPoly}
    (ones : ∀ i < k, s.getD i zeroPoly = onePoly ∧ e.getD i zeroPoly = onePoly ∧
      y.getD i zeroPoly = onePoly ∧ e1.getD i zeroPoly = onePoly) (error2 : e2 = onePoly) :
    decryptionNoise k du dv s e y e1 u e2 v =
      1 + compressionError dv v - ∑ i ∈ Finset.range k, compressionError du (u.getD i zeroPoly) := by
  have products : ∑ i ∈ Finset.range k, polyOf (e.getD i zeroPoly) * polyOf (y.getD i zeroPoly) = k := by
    rw [Finset.sum_congr rfl fun i member => by
      rw [(ones i (Finset.mem_range.mp member)).2.1, (ones i (Finset.mem_range.mp member)).2.2.1, polyOf_onePoly,
        one_mul]]
    simp
  have errors : ∑ i ∈ Finset.range k, polyOf (s.getD i zeroPoly) * (polyOf (e1.getD i zeroPoly) +
        (polyOf (compressRoundTrip du (u.getD i zeroPoly)) - polyOf (u.getD i zeroPoly)))
      = k + ∑ i ∈ Finset.range k, compressionError du (u.getD i zeroPoly) := by
    rw [Finset.sum_congr rfl fun i member => by
      rw [(ones i (Finset.mem_range.mp member)).1, (ones i (Finset.mem_range.mp member)).2.2.2, polyOf_onePoly,
        one_mul, ← compressionError_def]]
    rw [Finset.sum_add_distrib]
    simp
  -- what is left has degree below 256, so it is its own remainder
  have block : ∀ p : MlPoly, polyOf p ∈ degreeLT (ZMod mlKemQ) mlKemN := fun p => mem_degreeLT.mpr (degree_polyOf_lt p)
  have error : ∀ d p, compressionError d p ∈ degreeLT (ZMod mlKemQ) mlKemN := fun d p => by
    rw [compressionError_def]
    exact sub_mem (block (compressRoundTrip d p)) (block p)
  have one : (1 : (ZMod mlKemQ)[X]) ∈ degreeLT (ZMod mlKemQ) mlKemN :=
    mem_degreeLT.mpr (by rw [degree_one]; exact_mod_cast (by decide : 0 < mlKemN))
  have low : (1 + compressionError dv v - ∑ i ∈ Finset.range k, compressionError du (u.getD i zeroPoly)).degree
      < mlKemN :=
    mem_degreeLT.mp (sub_mem (add_mem one (error dv v)) (Submodule.sum_mem _ fun i _ => error du _))
  rw [decryptionNoise, products, errors, error2, polyOf_onePoly, ← compressionError_def]
  exact (eq_modByMonic_of_mk_eq (by decide : 0 < mlKemN) low (congrArg _ (by ring))).symm

/-- Every coefficient of `1` plus the compression error of `v` less those of the entries
of `u` is at most `1 + (q + 2 ^ dv) / 2 ^ (dv + 1) + k (q + 2 ^ du) / 2 ^ (du + 1)` in
centred size. -/
theorem natAbs_coeff_compressionErrors_le {k du dv : Nat} (duPositive : 0 < du) (duNarrow : du ≤ 11)
    (dvPositive : 0 < dv) (dvNarrow : dv ≤ 11) {u : List MlPoly} {v : MlPoly}
    (uBounded : ∀ i < k, ∀ x ∈ (u.getD i zeroPoly).f, Bounded x) (vBounded : ∀ x ∈ v.f, Bounded x) (j : Nat) :
    ((1 + compressionError dv v - ∑ i ∈ Finset.range k, compressionError du (u.getD i zeroPoly)).coeff j).valMinAbs.natAbs ≤
      1 + (mlKemQ + 2 ^ dv) / 2 ^ (dv + 1) + k * ((mlKemQ + 2 ^ du) / 2 ^ (du + 1)) := by
  have unit : ((1 : (ZMod mlKemQ)[X]).coeff j).valMinAbs.natAbs ≤ 1 := by
    rw [coeff_one]
    split
    · exact le_trans (natAbs_valMinAbs_intCast_le 1) (by simp)
    · simp
  have vError := natAbs_coeff_compressionError_le dvPositive dvNarrow vBounded j
  have uErrors : ∑ i ∈ Finset.range k, ((compressionError du (u.getD i zeroPoly)).coeff j).valMinAbs.natAbs ≤
      k * ((mlKemQ + 2 ^ du) / 2 ^ (du + 1)) := by
    refine le_trans (Finset.sum_le_card_nsmul _ _ _ fun i member =>
      natAbs_coeff_compressionError_le duPositive duNarrow (uBounded i (Finset.mem_range.mp member)) j) ?_
    rw [Finset.card_range, smul_eq_mul]
  rw [coeff_sub, coeff_add, finsetSum_coeff]
  -- the centred size of a sum or a difference is at most the sum of the sizes
  refine le_trans (natAbs_valMinAbs_sub_le_add _ _) ?_
  refine le_trans (add_le_add (natAbs_valMinAbs_add_le_add _ _) (natAbs_valMinAbs_sum_le _ _)) ?_
  omega

/-- With `unitPrimitives` every coefficient of the noise of a run is at most
`1 + (q + 2 ^ dv) / 2 ^ (dv + 1) + k (q + 2 ^ du) / 2 ^ (du + 1)` in centred size:
`109` for ML-KEM-512, whatever the matrix. -/
theorem natAbs_coeff_pkeNoise_unitPrimitives (params : MlKemSet) (eta1 : params.eta1 = 2 ∨ params.eta1 = 3)
    (eta2 : params.eta2 = 2 ∨ params.eta2 = 3) (d m r : List UInt8) (j : Nat) :
    ((pkeNoise unitPrimitives params d m r).coeff j).valMinAbs.natAbs ≤
      1 + (mlKemQ + 2 ^ params.dv) / 2 ^ (params.dv + 1) + params.k * ((mlKemQ + 2 ^ params.du) / 2 ^ (params.du + 1)) := by
  set seeds := unitPrimitives.g (d ++ [params.k.toUInt8])
  have ones : ∀ i < params.k,
      (sampleVector unitPrimitives params.eta1 (seeds.drop mlKemSeedLen) 0 params.k).getD i zeroPoly = onePoly ∧
      (sampleVector unitPrimitives params.eta1 (seeds.drop mlKemSeedLen) params.k params.k).getD i zeroPoly = onePoly ∧
      (sampleVector unitPrimitives params.eta1 r 0 params.k).getD i zeroPoly = onePoly ∧
      (sampleVector unitPrimitives params.eta2 r params.k params.k).getD i zeroPoly = onePoly := fun i row =>
    ⟨getD_sampleVector_unitPrimitives eta1 _ _ _ row, getD_sampleVector_unitPrimitives eta1 _ _ _ row,
      getD_sampleVector_unitPrimitives eta1 r 0 _ row, getD_sampleVector_unitPrimitives eta2 r params.k _ row⟩
  simp only [pkeNoise]
  rw [decryptionNoise_of_ones ones (samplePoly_unitPrimitives eta2 r _)]
  exact natAbs_coeff_compressionErrors_le params.du_pos params.du_le params.dv_pos params.dv_le
    (fun i column => bounded_encryptU (fun i _ => bounded_sampleVector unitPrimitives _ _ _ _ i) column)
    (bounded_encryptV (bounded_samplePoly unitPrimitives _ _ _) (bounded_messageToPoly m)) j

/-- `pke_encrypt` reads the key only through `t` and the matrix. -/
theorem pkeEncrypt_congr (params : MlKemSet) {publicKey publicKey' : Option (List MlPoly)} {ek ek' : List UInt8}
    (same : encryptionKey prims params.k publicKey ek = encryptionKey prims params.k publicKey' ek')
    (m r : List UInt8) :
    pkeEncrypt prims params publicKey ek m r = pkeEncrypt prims params publicKey' ek' m r := by
  simp only [pkeEncrypt, same]

/-- Both parts of a ciphertext are written whole: `ct_len` bytes. -/
theorem length_pkeEncrypt (params : MlKemSet) (publicKey : Option (List MlPoly)) (ek m r : List UInt8) :
    (pkeEncrypt prims params publicKey ek m r).length = params.ctLen := by
  simp only [pkeEncrypt]
  rw [List.length_append, length_compressPolysArr params.du_pos params.du_le _ List.length_replicate,
    length_compressPolysArr params.dv_pos params.dv_le _ List.length_replicate, List.length_replicate,
    List.length_replicate, params.ctLen_eq]

/-! ## Correctness -/

/-- `pke_decrypt` reads back, through the bit packer, the decompressed `u` and
`v` of a ciphertext that `pke_encrypt` wrote. -/
theorem pkeDecrypt_compressPolysArr (params : MlKemSet) (privateKey u : List MlPoly) (v : MlPoly) :
    pkeDecrypt params privateKey
        (compressPolysArr params.k params.du u (List.replicate (params.k * params.du * mlKemN / 8) 0) ++
          compressPolysArr 1 params.dv [v] (List.replicate (1 * params.dv * mlKemN / 8) 0))
      = polyToMessage (decryptW params.k privateKey
          (((List.range params.k).map fun i => compressRoundTrip params.du (u.getD i zeroPoly)).map ntt)
          (compressRoundTrip params.dv v)) := by
  have length1 : (compressPolysArr params.k params.du u
      (List.replicate (params.k * params.du * mlKemN / 8) 0)).length = params.k * params.du * mlKemN / 8 := by
    rw [length_compressPolysArr params.du_pos params.du_le u List.length_replicate, List.length_replicate]
  have length2 : (compressPolysArr 1 params.dv [v]
      (List.replicate (1 * params.dv * mlKemN / 8) 0)).length = 1 * params.dv * mlKemN / 8 := by
    rw [length_compressPolysArr params.dv_pos params.dv_le [v] List.length_replicate, List.length_replicate]
  set c1 := compressPolysArr params.k params.du u (List.replicate (params.k * params.du * mlKemN / 8) 0)
  set c2 := compressPolysArr 1 params.dv [v] (List.replicate (1 * params.dv * mlKemN / 8) 0)
  have first : decompressPolyArr params.k params.du c1
      = (List.range params.k).map fun i => compressRoundTrip params.du (u.getD i zeroPoly) :=
    decompressPolyArr_compressPolysArr params.du_pos params.du_le u List.length_replicate
  have second : decompressPolyArr 1 params.dv c2 = [compressRoundTrip params.dv v] :=
    decompressPolyArr_compressPolysArr params.dv_pos params.dv_le [v] List.length_replicate
  -- the two parts are split where the first one ends
  have split : (c1 ++ c2).take (params.k * params.du * mlKemN / 8) = c1 ∧
      ((c1 ++ c2).drop (params.k * params.du * mlKemN / 8)).take (1 * params.dv * mlKemN / 8) = c2 := by
    rw [← length1, List.take_left' rfl, List.drop_left' rfl, ← length2, List.take_length]
    exact ⟨rfl, rfl⟩
  show polyToMessage (decryptW params.k privateKey
      ((decompressPolyArr params.k params.du ((c1 ++ c2).take (params.k * params.du * mlKemN / 8))).map ntt)
      ((decompressPolyArr 1 params.dv
        (((c1 ++ c2).drop (params.k * params.du * mlKemN / 8)).take (1 * params.dv * mlKemN / 8))).getD 0
          zeroPoly)) = _
  rw [split.1, split.2, first, second]
  rfl

/-- What `pke_decrypt` computes from what `pke_encrypt` made of `m` under the
key of `pke_keygen` is the message of a polynomial whose every coefficient is
that of `μ` plus that of the noise. -/
theorem pkeDecrypt_pkeEncrypt_noise (params : MlKemSet) (d m r : List UInt8) :
    ∃ w : MlPoly, pkeDecrypt params (pkeKeygen prims params d).privateKey
        (pkeEncrypt prims params none (pkeKeygen prims params d).ek m r) = polyToMessage w ∧
      ∀ j < mlKemN, residue (w.f.getD j 0)
        = residue ((messageToPoly m).f.getD j 0) + (pkeNoise prims params d m r).coeff j := by
  rw [pkeEncrypt_congr prims params (encryptionKey_pkeKeygen prims params d []) m r]
  simp only [pkeEncrypt, encryptionKey, pkeKeygen]
  rw [List.take_left' (length_keygenT _ _ _ _), List.drop_left' (length_keygenT _ _ _ _),
    pkeDecrypt_compressPolysArr]
  refine ⟨_, rfl, fun j row => ?_⟩
  have read : ∀ p : MlPoly, residue (p.f.getD j 0) = (polyOf p).coeff j := fun p => by
    rw [coeff_polyOf, if_pos row]
  rw [read, read, ← coeff_add, polyOf_decryptW params.k_pos params.du_pos params.du_le
    params.dv_pos params.dv_le (fun i _ => bounded_sampleVector prims _ _ _ _ i)
    (fun i _ => bounded_sampleVector prims _ _ _ _ i) (fun i _ => bounded_sampleVector prims _ _ _ _ i)
    (fun i _ => bounded_sampleVector prims _ _ _ _ i) (bounded_samplePoly prims _ _ _) m]
  rfl

/-- K-PKE is correct: decrypting, with the key of `pke_keygen`, what
`pke_encrypt` made of a 32-byte message returns the message whenever every
coefficient of the noise is below `832` in centred size. -/
theorem pkeDecrypt_pkeEncrypt (params : MlKemSet) (d m r : List UInt8) (length : m.length = mlKemSeedLen)
    (small : ∀ j < mlKemN, ((pkeNoise prims params d m r).coeff j).valMinAbs.natAbs < 832) :
    pkeDecrypt params (pkeKeygen prims params d).privateKey
      (pkeEncrypt prims params none (pkeKeygen prims params d).ek m r) = m := by
  obtain ⟨w, decrypted, noisy⟩ := pkeDecrypt_pkeEncrypt_noise prims params d m r
  rw [decrypted]
  apply polyToMessage_of_close length
  intro j row
  rw [noisy j row, add_sub_cancel_left]
  exact small j row

end StrongSwan.Libstrongswan.Plugins.Ml.MlKemPke
