import StrongSwan.Foundations.Bytes

/-!
Contract: the 12-bit polynomial codec of `ml_kem.c` and the responder's check
of a peer's encapsulation key in `set_public_key`.

`decode_poly_arr` unpacks every three bytes into two coefficients, masking each
to 12 bits; `encode_poly_arr` packs two coefficients into three bytes.
`validate_public_key` decodes the first `k * ML_KEM_POLY_LEN` bytes, encodes
the result again and compares.

Owns: both codecs, their two round trips (bytes to coefficients to bytes for
every byte string, coefficients to bytes to coefficients for 12-bit
coefficients), the modulus check, and the branches of `set_public_key`.

Does not own: `encaps_shared_secret` and `decaps_shared_secret`, whose outcome
depends on the RNG, hash and XOF plugins; they are parameters of
`setPublicKey`. The other parameters of a set (`eta1`, `eta2`, `du`, `dv`) are
not read by the functions modelled here.
-/

namespace StrongSwan.Libstrongswan.Plugins.Ml.MlKem

open StrongSwan.Foundations

/-- `ML_KEM_N`. -/
def mlKemN : Nat := 256

/-- `ML_KEM_Q`. -/
def mlKemQ : Nat := 3329

/-- `ML_KEM_SEED_LEN`. -/
def mlKemSeedLen : Nat := 32

/-- `ML_KEM_POLY_LEN`. -/
def mlKemPolyLen : Nat := 384

/-- The fields of `ml_kem_params_t` that the key checks read, with the length
of the public key as its header documents it. -/
structure MlKemParams where
  k : Nat
  pkLen : Nat
  ctLen : Nat
  pkLen_eq : pkLen = k * mlKemPolyLen + mlKemSeedLen

def mlKem512 : MlKemParams := ⟨2, 800, 768, rfl⟩

def mlKem768 : MlKemParams := ⟨3, 1184, 1088, rfl⟩

def mlKem1024 : MlKemParams := ⟨4, 1568, 1568, rfl⟩

/-- `ml_poly_t`: `ML_KEM_N` coefficients. -/
@[ext]
structure MlPoly where
  f : List UInt16
  length_f : f.length = mlKemN

/-- The loop body of `decode_poly_arr`: bytes `3j`, `3j+1`, `3j+2` give
coefficients `2j` and `2j+1`. -/
def decodePair (b0 b1 b2 : UInt8) : UInt16 × UInt16 :=
  ((b0.toUInt16 ||| b1.toUInt16 <<< 8) &&& 0xfff,
    ((b1 >>> 4).toUInt16 ||| b2.toUInt16 <<< 4) &&& 0xfff)

/-- The loop body of `encode_poly_arr`. The shifts are computed on `uint16_t`;
the C code shifts the promoted `int`, which only differs above the byte that
the cast keeps. -/
def encodePair (f0 f1 : UInt16) : List UInt8 :=
  [f0.toUInt8, (f0 >>> 8 ||| f1 <<< 4).toUInt8, (f1 >>> 4).toUInt8]

/-- `count` iterations of the inner loop of `decode_poly_arr`. Every caller
passes at least `3 * count` bytes; the default byte is never read then. -/
def decodePairs : Nat → List UInt8 → List UInt16
  | 0, _ => []
  | count + 1, input =>
      let pair := decodePair (input.getD 0 0) (input.getD 1 0) (input.getD 2 0)
      pair.1 :: pair.2 :: decodePairs count (input.drop 3)

/-- The inner loop of `encode_poly_arr`, two coefficients at a time. -/
def encodePairs : List UInt16 → List UInt8
  | f0 :: f1 :: rest => encodePair f0 f1 ++ encodePairs rest
  | _ => []

theorem length_decodePairs (count : Nat) (input : List UInt8) :
    (decodePairs count input).length = 2 * count := by
  induction count generalizing input with
  | zero => rfl
  | succ count inductionHypothesis =>
      simp only [decodePairs, List.length_cons, inductionHypothesis]
      omega

/-- One polynomial of `decode_poly_arr`. -/
def decodePoly (input : List UInt8) : MlPoly :=
  ⟨decodePairs (mlKemN / 2) input, length_decodePairs _ _⟩

/-- One polynomial of `encode_poly_arr`. -/
def encodePoly (poly : MlPoly) : List UInt8 := encodePairs poly.f

/-- `decode_poly_arr(k, in, a)`: polynomial `i` is read from the bytes at
`in + i * ML_KEM_POLY_LEN`. -/
def decodePolyArr : Nat → List UInt8 → List MlPoly
  | 0, _ => []
  | k + 1, input => decodePoly input :: decodePolyArr k (input.drop mlKemPolyLen)

/-- `encode_poly_arr(k, a, out)` for the `k` polynomials of `a`. -/
def encodePolyArr (polys : List MlPoly) : List UInt8 := polys.flatMap encodePoly

/-- `validate_public_key`: the modulus check of section 7.2 of FIPS 203 as the
code phrases it, comparing the first `k * ML_KEM_POLY_LEN` bytes. -/
def validatePublicKey (params : MlKemParams) (publicKey : List UInt8) : Bool :=
  encodePolyArr (decodePolyArr params.k publicKey) == publicKey.take (params.k * mlKemPolyLen)

/-- `set_public_key`. `hasPrivateKey` says whether `this->private_key.ptr` is
set, that is whether this side is the initiator. -/
def setPublicKey (params : MlKemParams) (hasPrivateKey : Bool)
    (decapsSharedSecret encapsSharedSecret : List UInt8 → Bool) (value : List UInt8) : Bool :=
  if hasPrivateKey then
    if value.length ≠ params.ctLen then false else decapsSharedSecret value
  else if value.length ≠ params.pkLen then false
  else if !validatePublicKey params value then false
  else encapsSharedSecret value

/-! ## One group of three bytes -/

theorem decodePair_fst_toNat (b0 b1 b2 : UInt8) :
    (decodePair b0 b1 b2).1.toNat = b0.toNat + 256 * (b1.toNat % 16) := by
  have lowBelow : b0.toNat < 2 ^ 8 := b0.toNat_lt
  have highBelow := b1.toNat_lt
  simp only [decodePair, UInt16.toNat_and, UInt16.toNat_or, UInt16.toNat_shiftLeft,
    UInt8.toNat_toUInt16]
  rw [show (0xfff : UInt16).toNat = 2 ^ 12 - 1 from rfl, Nat.and_two_pow_sub_one_eq_mod,
    show (8 : UInt16).toNat % 16 = 8 from rfl, Nat.shiftLeft_eq,
    Nat.mod_eq_of_lt (by omega : b1.toNat * 2 ^ 8 < 2 ^ 16),
    Bytes.lor_mul_two_pow_eq_add _ 8 lowBelow]
  omega

theorem decodePair_snd_toNat (b0 b1 b2 : UInt8) :
    (decodePair b0 b1 b2).2.toNat = b1.toNat / 16 + 16 * b2.toNat := by
  have lowBelow : b1.toNat / 16 < 2 ^ 4 := by
    have := b1.toNat_lt
    omega
  have highBelow := b2.toNat_lt
  simp only [decodePair, UInt16.toNat_and, UInt16.toNat_or, UInt16.toNat_shiftLeft,
    UInt8.toNat_toUInt16, UInt8.toNat_shiftRight]
  rw [show (0xfff : UInt16).toNat = 2 ^ 12 - 1 from rfl, Nat.and_two_pow_sub_one_eq_mod,
    show (4 : UInt16).toNat % 16 = 4 from rfl, show (4 : UInt8).toNat % 8 = 4 from rfl,
    Nat.shiftLeft_eq, Nat.shiftRight_eq_div_pow,
    Nat.mod_eq_of_lt (by omega : b2.toNat * 2 ^ 4 < 2 ^ 16),
    Bytes.lor_mul_two_pow_eq_add _ 4 lowBelow]
  omega

/-- The three bytes of two 12-bit coefficients, as numbers. -/
theorem encodePair_toNat {f0 f1 : UInt16} (f0Below : f0.toNat < 2 ^ 12)
    (f1Below : f1.toNat < 2 ^ 12) :
    (encodePair f0 f1).map UInt8.toNat =
      [f0.toNat % 256, f0.toNat / 256 + 16 * (f1.toNat % 16), f1.toNat / 16] := by
  have lowNibble : f0.toNat >>> 8 < 2 ^ 4 := by
    rw [Nat.shiftRight_eq_div_pow]
    omega
  simp only [encodePair, List.map_cons, List.map_nil, UInt16.toNat_toUInt8, UInt16.toNat_or,
    UInt16.toNat_shiftLeft, UInt16.toNat_shiftRight]
  rw [show (4 : UInt16).toNat % 16 = 4 from rfl, show (8 : UInt16).toNat % 16 = 8 from rfl,
    Nat.shiftLeft_eq, Nat.mod_eq_of_lt (by omega : f1.toNat * 2 ^ 4 < 2 ^ 16),
    Bytes.lor_mul_two_pow_eq_add _ 4 lowNibble, Nat.shiftRight_eq_div_pow,
    Nat.shiftRight_eq_div_pow]
  simp only [List.cons.injEq, and_true, true_and]
  constructor <;> omega

theorem encodePair_decodePair (b0 b1 b2 : UInt8) :
    encodePair (decodePair b0 b1 b2).1 (decodePair b0 b1 b2).2 = [b0, b1, b2] := by
  have first := decodePair_fst_toNat b0 b1 b2
  have second := decodePair_snd_toNat b0 b1 b2
  have b0Below := b0.toNat_lt
  have b1Below := b1.toNat_lt
  have b2Below := b2.toNat_lt
  have bytes := encodePair_toNat (by omega : (decodePair b0 b1 b2).1.toNat < 2 ^ 12)
    (by omega : (decodePair b0 b1 b2).2.toNat < 2 ^ 12)
  rw [first, second] at bytes
  apply List.map_injective_iff.mpr (fun _ _ same => UInt8.toNat_inj.mp same)
  rw [bytes]
  simp only [List.map_cons, List.map_nil, List.cons.injEq, and_true]
  refine ⟨?_, ?_, ?_⟩ <;> omega

theorem decodePair_encodePair {f0 f1 : UInt16} (f0Below : f0.toNat < 2 ^ 12)
    (f1Below : f1.toNat < 2 ^ 12) :
    ∃ b0 b1 b2, encodePair f0 f1 = [b0, b1, b2] ∧ decodePair b0 b1 b2 = (f0, f1) := by
  have bytes := encodePair_toNat f0Below f1Below
  refine ⟨_, _, _, rfl, ?_⟩
  simp only [encodePair, List.map_cons, List.map_nil, List.cons.injEq, and_true] at bytes
  obtain ⟨byte0, byte1, byte2⟩ := bytes
  apply Prod.ext
  · apply UInt16.toNat_inj.mp
    rw [decodePair_fst_toNat, byte0, byte1]
    dsimp only
    omega
  · apply UInt16.toNat_inj.mp
    rw [decodePair_snd_toNat, byte1, byte2]
    dsimp only
    omega

/-! ## Whole polynomials -/

theorem encodePairs_decodePairs (count : Nat) {input : List UInt8}
    (long : 3 * count ≤ input.length) :
    encodePairs (decodePairs count input) = input.take (3 * count) := by
  induction count generalizing input with
  | zero => rfl
  | succ count inductionHypothesis =>
      rcases input with _ | ⟨b0, _ | ⟨b1, _ | ⟨b2, rest⟩⟩⟩
      all_goals simp only [List.length_cons, List.length_nil] at long
      any_goals omega
      have restLong : 3 * count ≤ rest.length := by omega
      rw [decodePairs, show 3 * (count + 1) = 3 * count + 1 + 1 + 1 by omega]
      simp only [encodePairs, List.getD_cons_zero, List.getD_cons_succ, List.drop_succ_cons,
        List.drop_zero, encodePair_decodePair, inductionHypothesis restLong, List.take_succ_cons,
        List.cons_append, List.nil_append]

theorem length_encodePairs (count : Nat) {coefficients : List UInt16}
    (evenLength : coefficients.length = 2 * count) :
    (encodePairs coefficients).length = 3 * count := by
  induction count generalizing coefficients with
  | zero => rw [List.length_eq_zero_iff.mp evenLength]; rfl
  | succ count inductionHypothesis =>
      rcases coefficients with _ | ⟨f0, _ | ⟨f1, rest⟩⟩
      all_goals simp only [List.length_cons, List.length_nil] at evenLength
      any_goals omega
      simp only [encodePairs, encodePair, List.length_append, List.length_cons, List.length_nil,
        inductionHypothesis (by omega : rest.length = 2 * count)]
      omega

theorem decodePairs_encodePairs_append (count : Nat) {coefficients : List UInt16}
    (evenLength : coefficients.length = 2 * count)
    (below : ∀ coefficient ∈ coefficients, coefficient.toNat < 2 ^ 12) (rest : List UInt8) :
    decodePairs count (encodePairs coefficients ++ rest) = coefficients := by
  induction count generalizing coefficients with
  | zero => rw [List.length_eq_zero_iff.mp evenLength]; rfl
  | succ count inductionHypothesis =>
      rcases coefficients with _ | ⟨f0, _ | ⟨f1, more⟩⟩
      all_goals simp only [List.length_cons, List.length_nil] at evenLength
      any_goals omega
      obtain ⟨b0, b1, b2, encoded, decoded⟩ := decodePair_encodePair
        (below f0 List.mem_cons_self) (below f1 (by simp))
      have moreBelow : ∀ coefficient ∈ more, coefficient.toNat < 2 ^ 12 :=
        fun coefficient member => below coefficient (by simp [member])
      rw [encodePairs, encoded, decodePairs]
      simp only [List.cons_append, List.nil_append, List.getD_cons_zero, List.getD_cons_succ,
        List.drop_succ_cons, List.drop_zero, decoded,
        inductionHypothesis (by omega : more.length = 2 * count) moreBelow]

theorem encodePoly_decodePoly {input : List UInt8} (long : mlKemPolyLen ≤ input.length) :
    encodePoly (decodePoly input) = input.take mlKemPolyLen :=
  encodePairs_decodePairs (mlKemN / 2) long

theorem length_encodePoly (poly : MlPoly) : (encodePoly poly).length = mlKemPolyLen := by
  rw [encodePoly, length_encodePairs (mlKemN / 2) poly.length_f]
  rfl

theorem decodePoly_encodePoly_append {poly : MlPoly}
    (below : ∀ coefficient ∈ poly.f, coefficient.toNat < 2 ^ 12) (rest : List UInt8) :
    decodePoly (encodePoly poly ++ rest) = poly := by
  ext1
  exact decodePairs_encodePairs_append (mlKemN / 2) poly.length_f below rest

/-- Decoding and encoding again gives back the first `k * ML_KEM_POLY_LEN`
bytes of every byte string that has them: the decoder only masks to 12 bits. -/
theorem encodePolyArr_decodePolyArr (k : Nat) {input : List UInt8}
    (long : k * mlKemPolyLen ≤ input.length) :
    encodePolyArr (decodePolyArr k input) = input.take (k * mlKemPolyLen) := by
  induction k generalizing input with
  | zero => rfl
  | succ k inductionHypothesis =>
      have restLong : k * mlKemPolyLen ≤ (input.drop mlKemPolyLen).length := by
        rw [List.length_drop]
        rw [Nat.succ_mul] at long
        omega
      rw [decodePolyArr, encodePolyArr, List.flatMap_cons, ← encodePolyArr,
        encodePoly_decodePoly (by rw [Nat.succ_mul] at long; omega),
        inductionHypothesis restLong, Nat.succ_mul, Nat.add_comm, List.take_add]

/-- The decoder reads encoded polynomials back whatever bytes follow them, as
the seed `ρ` follows them in an encapsulation key. -/
theorem decodePolyArr_encodePolyArr_append (polys : List MlPoly)
    (below : ∀ poly ∈ polys, ∀ coefficient ∈ poly.f, coefficient.toNat < 2 ^ 12) (rest : List UInt8) :
    decodePolyArr polys.length (encodePolyArr polys ++ rest) = polys := by
  induction polys with
  | nil => rfl
  | cons poly others inductionHypothesis =>
      have othersBelow : ∀ poly ∈ others, ∀ coefficient ∈ poly.f, coefficient.toNat < 2 ^ 12 :=
        fun other member => below other (List.mem_cons_of_mem _ member)
      rw [List.length_cons, decodePolyArr, encodePolyArr, List.flatMap_cons, List.append_assoc,
        ← encodePolyArr, decodePoly_encodePoly_append (below poly List.mem_cons_self),
        List.drop_left' (length_encodePoly poly), inductionHypothesis othersBelow]

/-- Encoding polynomials with 12-bit coefficients and decoding the bytes gives
them back, as `pke_encrypt` decodes the key that `pke_keygen` encoded. -/
theorem decodePolyArr_encodePolyArr (polys : List MlPoly)
    (below : ∀ poly ∈ polys, ∀ coefficient ∈ poly.f, coefficient.toNat < 2 ^ 12) :
    decodePolyArr polys.length (encodePolyArr polys) = polys := by
  simpa using decodePolyArr_encodePolyArr_append polys below []

theorem decodePolyArr_encodePolyArr_reduced :
    (∀ poly ∈ [(⟨List.replicate mlKemN 3328, List.length_replicate⟩ : MlPoly)],
        ∀ coefficient ∈ poly.f, coefficient.toNat < 2 ^ 12) ∧
      decodePolyArr 1 (encodePolyArr [⟨List.replicate mlKemN 3328, List.length_replicate⟩]) =
        [⟨List.replicate mlKemN 3328, List.length_replicate⟩] :=
  ⟨by simp, decodePolyArr_encodePolyArr [⟨List.replicate mlKemN 3328, List.length_replicate⟩]
    (by simp)⟩

/-! ## The modulus check -/

/-- The modulus check passes on every byte string of at least
`k * ML_KEM_POLY_LEN` bytes. -/
theorem validatePublicKey_eq_true (params : MlKemParams) {publicKey : List UInt8}
    (long : params.k * mlKemPolyLen ≤ publicKey.length) :
    validatePublicKey params publicKey = true := by
  rw [validatePublicKey, encodePolyArr_decodePolyArr params.k long, beq_self_eq_true]

/-- As responder, `set_public_key` on a key of the right length returns what
`encaps_shared_secret` returns. -/
theorem setPublicKey_of_responder (params : MlKemParams)
    (decapsSharedSecret encapsSharedSecret : List UInt8 → Bool) {value : List UInt8}
    (rightLength : value.length = params.pkLen) :
    setPublicKey params false decapsSharedSecret encapsSharedSecret value =
      encapsSharedSecret value := by
  have long : params.k * mlKemPolyLen ≤ value.length := by
    rw [rightLength, params.pkLen_eq]
    omega
  simp [setPublicKey, rightLength, validatePublicKey_eq_true params long]

/-- An ML-KEM-768 key of 1184 bytes `0xff` decodes to coefficients `0xfff`,
above `q`, and is passed on to `encaps_shared_secret` all the same. -/
theorem setPublicKey_accepts_unreduced_key
    (decapsSharedSecret encapsSharedSecret : List UInt8 → Bool) :
    (∃ poly ∈ decodePolyArr mlKem768.k (List.replicate 1184 0xff),
        ∃ coefficient ∈ poly.f, mlKemQ ≤ coefficient.toNat) ∧
      setPublicKey mlKem768 false decapsSharedSecret encapsSharedSecret
          (List.replicate 1184 0xff) =
        encapsSharedSecret (List.replicate 1184 0xff) := by
  refine ⟨⟨decodePoly (List.replicate 1184 0xff), List.mem_cons_self, 0xfff, ?_, by decide⟩,
    setPublicKey_of_responder mlKem768 _ _ List.length_replicate⟩
  show 0xfff ∈ decodePairs (127 + 1) (List.replicate 1184 0xff)
  rw [decodePairs]
  exact List.mem_cons_self

end StrongSwan.Libstrongswan.Plugins.Ml.MlKem
