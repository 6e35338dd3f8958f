import Mathlib
import StrongSwan.Libstrongswan.Plugins.Ml.MlKemPke

/-!
Contract: the key exchange object of `ml_kem.c`, the fields of
`private_key_exchange_t` its methods read and write, `get_public_key`,
`set_public_key` and `get_shared_secret` with `generate_keypair`,
`encaps_shared_secret` and `decaps_shared_secret` under them, and the
constant-time comparison and copy of `utils/memory.c` and `chunk.h` that
decapsulation relies on.

The object takes its role from the first call. `get_public_key` on a fresh
object makes it the initiator: it generates a key pair, and `set_public_key`
later decapsulates the ciphertext it is given. `set_public_key` on a fresh
object makes it the responder: it encapsulates a secret to the key it is given,
and `get_public_key` returns the ciphertext. The random bytes a method draws
are part of the call: the 64 bytes `d || z` of `generate_keypair` and the 32
bytes `m` of `encaps_shared_secret`.

Owns:
- `Consistent`, what every state reached from `ml_kem_create` by any sequence
  of calls keeps: one role at a time, the key pair and the key data `H(ek) || z`
  of 64 bytes together, a ciphertext of `ct_len` bytes, a shared secret of 32
  bytes or none;
- that the role, once taken, is kept by every later call;
- agreement: an initiator and a responder that exchange their values end with
  the same secret `K` whenever the noise of the decryption is small;
- implicit rejection: the initiator's secret is `J(z || c)` unless `c` is the
  encryption of what it decrypts to.

Does not own: the failures of the RNG, hash and XOF plugins, which the code
reports with `FALSE` and the model leaves out, and the wiping of buffers.
-/

namespace StrongSwan.Libstrongswan.Plugins.Ml.MlKemExchange

open Polynomial
open StrongSwan.Libstrongswan.Plugins.Ml.MlKem (mlKemN mlKemQ mlKemSeedLen MlPoly validatePublicKey
  validatePublicKey_eq_true)
open StrongSwan.Libstrongswan.Plugins.Ml.MlKemPke

/-! ## Constant-time helpers -/

/-- `memeq_const(x, y, len)`: the differences of all `len` bytes or-ed together. -/
def memeqConst (x y : List UInt8) (len : Nat) : Bool :=
  !((List.range len).foldl (fun bad i => bad || x.getD i 0 != y.getD i 0) false)

/-- `chunk_equals_const(a, b)` on two chunks that are set. -/
def chunkEqualsConst (a b : List UInt8) : Bool :=
  a.length == b.length && memeqConst a b a.length

/-- `memcpy_cond(dst, src, n, cond)` over the `n` bytes of `dst`: with `cond`
negated to `0xff` or `0`, byte `i` becomes `dst[i] ^ (cond & (dst[i] ^ src[i]))`. -/
def memcpyCond (dst src : List UInt8) (cond : UInt8) : List UInt8 :=
  let cond := -cond
  (List.range dst.length).map fun i => dst.getD i 0 ^^^ (cond &&& (dst.getD i 0 ^^^ src.getD i 0))

theorem foldl_or_eq_any (p : Nat → Bool) (l : List Nat) (bad : Bool) :
    l.foldl (fun bad i => bad || p i) bad = (bad || l.any p) := by
  induction l generalizing bad with
  | nil => simp
  | cons head tail inductionHypothesis => simp [inductionHypothesis, Bool.or_assoc]

theorem memeqConst_eq_true {x y : List UInt8} {len : Nat} :
    memeqConst x y len = true ↔ ∀ i < len, x.getD i 0 = y.getD i 0 := by
  simp [memeqConst, foldl_or_eq_any]

/-- The comparison is equality of the two byte strings. -/
theorem chunkEqualsConst_eq_true {a b : List UInt8} : chunkEqualsConst a b = true ↔ a = b := by
  rw [chunkEqualsConst, Bool.and_eq_true, beq_iff_eq, memeqConst_eq_true]
  constructor
  · rintro ⟨sameLength, bytes⟩
    apply List.ext_getElem sameLength
    intro i inA inB
    have byte := bytes i inA
    rwa [List.getD_eq_getElem _ _ inA, List.getD_eq_getElem _ _ inB] at byte
  · rintro rfl
    exact ⟨rfl, fun _ _ => rfl⟩

theorem length_memcpyCond (dst src : List UInt8) (cond : UInt8) :
    (memcpyCond dst src cond).length = dst.length := by
  rw [memcpyCond, List.length_map, List.length_range]

/-- With the condition unset every byte keeps its value. -/
theorem memcpyCond_false (dst src : List UInt8) : memcpyCond dst src false.toUInt8 = dst := by
  have zero : -false.toUInt8 = 0 := rfl
  apply List.ext_getElem (length_memcpyCond _ _ _)
  intro i inCopy inDst
  simp only [memcpyCond, List.getElem_map, List.getElem_range, zero, UInt8.zero_and, UInt8.xor_zero]
  rw [List.getD_eq_getElem _ _ inDst]

/-- With the condition set every byte takes the value of the source. -/
theorem memcpyCond_true {dst src : List UInt8} (long : dst.length ≤ src.length) :
    memcpyCond dst src true.toUInt8 = src.take dst.length := by
  have byte : ∀ x y : UInt8, x ^^^ (-true.toUInt8 &&& (x ^^^ y)) = y := by
    intro x y
    have allOnes : (-true.toUInt8).toBitVec = BitVec.allOnes 8 := by decide
    apply UInt8.toBitVec_inj.mp
    rw [UInt8.toBitVec_xor, UInt8.toBitVec_and, UInt8.toBitVec_xor, allOnes, BitVec.allOnes_and,
      ← BitVec.xor_assoc, BitVec.xor_self, BitVec.zero_xor]
  apply List.ext_getElem (by rw [length_memcpyCond, List.length_take]; omega)
  intro i inCopy inTake
  have inSrc : i < src.length := by rw [List.length_take] at inTake; omega
  simp only [memcpyCond, List.getElem_map, List.getElem_range, List.getElem_take]
  rw [byte, List.getD_eq_getElem _ _ inSrc]

/-! ## The object -/

/-- The fields of `private_key_exchange_t` the methods read and write: the key
pair and the ciphertext as set or not, the key data and the shared secret as
their bytes, empty when not set. -/
structure MlKemState where
  privateKey : Option (List MlPoly)
  publicKey : Option (List MlPoly)
  keyData : List UInt8
  ciphertext : Option (List UInt8)
  sharedSecret : List UInt8

/-- What `ml_kem_create` leaves: nothing set. -/
def mlKemCreate : MlKemState := ⟨none, none, [], none, []⟩

variable (prims : MlKemPrimitives) (params : MlKemSet)

/-- `generate_keypair(this, ek)` on the 64 random bytes `d || z`: the key pair of
`pke_keygen` from `d`, and `H(ek) || z` kept as key data. -/
def generateKeypair (dz : List.Vector UInt8 (2 * mlKemSeedLen)) (state : MlKemState) :
    MlKemState × List UInt8 :=
  let keys := pkeKeygen prims params (dz.toList.take mlKemSeedLen)
  ({ state with
      privateKey := some keys.privateKey
      publicKey := some keys.publicKey
      keyData := prims.h keys.ek ++ dz.toList.drop mlKemSeedLen }, keys.ek)

/-- `get_public_key(this, value)`: the ciphertext as responder, `ek` of a new key
pair otherwise. -/
def getPublicKey (dz : List.Vector UInt8 (2 * mlKemSeedLen)) (state : MlKemState) :
    MlKemState × List UInt8 :=
  match state.ciphertext with
  | some ciphertext => (state, ciphertext)
  | none => generateKeypair prims params dz state

/-- `decaps_shared_secret(this, ciphertext)` with the private key of the state:
`m' = Decrypt(s, c)`, `(K', r') = G(m' || H(ek))`, and `K'` where `c` is the
encryption of `m'` under `r'`, `J(z || c)` otherwise. -/
def decapsSharedSecret (privateKey : List MlPoly) (state : MlKemState) (ciphertext : List UInt8) :
    MlKemState :=
  let hek := state.keyData.take mlKemSeedLen
  let z := (state.keyData.drop mlKemSeedLen).take mlKemSeedLen
  let m := pkeDecrypt params privateKey ciphertext
  let kr := prims.g (m ++ hek)
  -- `pke_encrypt` is given `chunk_empty` and reads the stored key
  let c := pkeEncrypt prims params state.publicKey [] m (kr.drop mlKemSeedLen)
  let rejection := prims.shake256 (z ++ ciphertext) mlKemSeedLen
  { state with sharedSecret := memcpyCond rejection kr (chunkEqualsConst ciphertext c).toUInt8 }

/-- `encaps_shared_secret(this, ek)` on the 32 random bytes `m`:
`(K, r) = G(m || H(ek))`, the ciphertext of `m` under `r`, and `K`. -/
def encapsSharedSecret (m : List.Vector UInt8 mlKemSeedLen) (state : MlKemState) (ek : List UInt8) :
    MlKemState :=
  let kr := prims.g (m.toList ++ prims.h ek)
  { state with
    ciphertext := some (pkeEncrypt prims params state.publicKey ek m.toList (kr.drop mlKemSeedLen))
    sharedSecret := kr.take mlKemSeedLen }

/-- `set_public_key(this, value)`; `none` where the code returns `FALSE`, which it
does before it writes anything. -/
def setPublicKey (m : List.Vector UInt8 mlKemSeedLen) (state : MlKemState) (value : List UInt8) :
    Option MlKemState :=
  match state.privateKey with
  | some privateKey =>
    if value.length ≠ params.ctLen then none
    else some (decapsSharedSecret prims params privateKey state value)
  | none =>
    if value.length ≠ params.pkLen then none
    else if !validatePublicKey params.toMlKemParams value then none
    else some (encapsSharedSecret prims params m state value)

/-! What each method writes; the fields it leaves are kept. -/

section Fields

variable {prims params} (state : MlKemState)

@[simp] theorem generateKeypair_privateKey (dz : List.Vector UInt8 (2 * mlKemSeedLen)) :
    (generateKeypair prims params dz state).1.privateKey
      = some (pkeKeygen prims params (dz.toList.take mlKemSeedLen)).privateKey := rfl

@[simp] theorem generateKeypair_ciphertext (dz : List.Vector UInt8 (2 * mlKemSeedLen)) :
    (generateKeypair prims params dz state).1.ciphertext = state.ciphertext := rfl

@[simp] theorem decapsSharedSecret_privateKey (privateKey : List MlPoly) (ciphertext : List UInt8) :
    (decapsSharedSecret prims params privateKey state ciphertext).privateKey = state.privateKey := rfl

@[simp] theorem decapsSharedSecret_ciphertext (privateKey : List MlPoly) (ciphertext : List UInt8) :
    (decapsSharedSecret prims params privateKey state ciphertext).ciphertext = state.ciphertext := rfl

@[simp] theorem encapsSharedSecret_privateKey (m : List.Vector UInt8 mlKemSeedLen) (ek : List UInt8) :
    (encapsSharedSecret prims params m state ek).privateKey = state.privateKey := rfl

@[simp] theorem encapsSharedSecret_ciphertext (m : List.Vector UInt8 mlKemSeedLen) (ek : List UInt8) :
    (encapsSharedSecret prims params m state ek).ciphertext
      = some (pkeEncrypt prims params state.publicKey ek m.toList
          ((prims.g (m.toList ++ prims.h ek)).drop mlKemSeedLen)) := rfl

end Fields

/-- `get_shared_secret(this, secret)`. -/
def getSharedSecret (state : MlKemState) : List UInt8 := state.sharedSecret

/-- Whether `set_public_key` succeeds is what the branch model of
`MlKem.setPublicKey` says, the two secret computations always succeeding. -/
theorem isSome_setPublicKey (m : List.Vector UInt8 mlKemSeedLen) (state : MlKemState) (value : List UInt8) :
    (setPublicKey prims params m state value).isSome
      = MlKem.setPublicKey params.toMlKemParams state.privateKey.isSome (fun _ => true) (fun _ => true) value := by
  unfold setPublicKey MlKem.setPublicKey
  cases state.privateKey with
  | some privateKey => by_cases length : value.length = params.ctLen <;> simp [length]
  | none =>
    by_cases length : value.length = params.pkLen
    · by_cases valid : validatePublicKey params.toMlKemParams value <;> simp [length, valid]
    · simp [length]

/-! ## Decapsulation and agreement -/

theorem getPublicKey_mlKemCreate (dz : List.Vector UInt8 (2 * mlKemSeedLen)) :
    getPublicKey prims params dz mlKemCreate = generateKeypair prims params dz mlKemCreate := rfl

theorem setPublicKey_decaps {state : MlKemState} {privateKey : List MlPoly}
    (stored : state.privateKey = some privateKey) (m : List.Vector UInt8 mlKemSeedLen) {value : List UInt8}
    (length : value.length = params.ctLen) :
    setPublicKey prims params m state value = some (decapsSharedSecret prims params privateKey state value) := by
  simp [setPublicKey, stored, length]

theorem setPublicKey_encaps {state : MlKemState} (noPrivateKey : state.privateKey = none)
    (m : List.Vector UInt8 mlKemSeedLen) {value : List UInt8} (length : value.length = params.pkLen) :
    setPublicKey prims params m state value = some (encapsSharedSecret prims params m state value) := by
  have long : params.k * MlKem.mlKemPolyLen ≤ value.length := by
    rw [length, params.pkLen_eq]
    omega
  simp [setPublicKey, noPrivateKey, length, validatePublicKey_eq_true _ long]

/-- The secret `decaps_shared_secret` leaves: `K'` where the ciphertext is the
encryption of what it decrypts to, `J(z || c)` otherwise. -/
theorem sharedSecret_decapsSharedSecret (privateKey : List MlPoly) (state : MlKemState) (ciphertext : List UInt8) :
    (decapsSharedSecret prims params privateKey state ciphertext).sharedSecret =
      if ciphertext = pkeEncrypt prims params state.publicKey [] (pkeDecrypt params privateKey ciphertext)
          ((prims.g (pkeDecrypt params privateKey ciphertext ++ state.keyData.take mlKemSeedLen)).drop mlKemSeedLen)
      then (prims.g (pkeDecrypt params privateKey ciphertext ++ state.keyData.take mlKemSeedLen)).take mlKemSeedLen
      else prims.shake256 ((state.keyData.drop mlKemSeedLen).take mlKemSeedLen ++ ciphertext) mlKemSeedLen := by
  simp only [decapsSharedSecret]
  split
  · rename_i same
    -- `J(z || c)` is 32 bytes and `G` gives 64, of which the copy takes the first 32
    have long : (prims.shake256 ((state.keyData.drop mlKemSeedLen).take mlKemSeedLen ++ ciphertext)
        mlKemSeedLen).length ≤ (prims.g (pkeDecrypt params privateKey ciphertext ++
          state.keyData.take mlKemSeedLen)).length := by
      rw [prims.length_shake256, prims.length_g]
      omega
    rw [chunkEqualsConst_eq_true.mpr same, memcpyCond_true long, prims.length_shake256]
  · rename_i differs
    have unequal : chunkEqualsConst ciphertext _ = false := Bool.eq_false_iff.mpr (differs ∘ chunkEqualsConst_eq_true.mp)
    rw [unequal, memcpyCond_false]

section Generated

variable (dz : List.Vector UInt8 (2 * mlKemSeedLen)) (state : MlKemState)

/-- After `generate_keypair` the key data splits into `H(ek)` and `z`. -/
theorem keyData_take_generateKeypair :
    (generateKeypair prims params dz state).1.keyData.take mlKemSeedLen
      = prims.h (pkeKeygen prims params (dz.toList.take mlKemSeedLen)).ek :=
  List.take_left' (prims.length_h _)

theorem keyData_drop_generateKeypair :
    ((generateKeypair prims params dz state).1.keyData.drop mlKemSeedLen).take mlKemSeedLen
      = dz.toList.drop mlKemSeedLen := by
  show ((prims.h _ ++ _).drop _).take _ = _
  rw [List.drop_left' (prims.length_h _), List.take_of_length_le (by rw [List.length_drop, dz.toList_length]; omega)]

/-- The stored `t` and matrix encrypt as `ek` does. -/
theorem pkeEncrypt_generateKeypair (m r : List UInt8) :
    pkeEncrypt prims params (generateKeypair prims params dz state).1.publicKey [] m r
      = pkeEncrypt prims params none (pkeKeygen prims params (dz.toList.take mlKemSeedLen)).ek m r :=
  (pkeEncrypt_congr prims params (encryptionKey_pkeKeygen prims params _ []) m r).symm

/-- The initiator's decapsulation in the terms of FIPS 203: `(K', r') = G(m' || H(ek))`
for the `m'` that `c` decrypts to, `K'` where `c` is the encryption of `m'` under
`ek` and `r'`, `J(z || c)` otherwise. -/
theorem sharedSecret_decaps_generateKeypair (ciphertext : List UInt8) :
    (decapsSharedSecret prims params (pkeKeygen prims params (dz.toList.take mlKemSeedLen)).privateKey
        (generateKeypair prims params dz state).1 ciphertext).sharedSecret =
      let keys := pkeKeygen prims params (dz.toList.take mlKemSeedLen)
      let decrypted := pkeDecrypt params keys.privateKey ciphertext
      let kr := prims.g (decrypted ++ prims.h keys.ek)
      if ciphertext = pkeEncrypt prims params none keys.ek decrypted (kr.drop mlKemSeedLen) then kr.take mlKemSeedLen
      else prims.shake256 (dz.toList.drop mlKemSeedLen ++ ciphertext) mlKemSeedLen := by
  rw [sharedSecret_decapsSharedSecret, keyData_take_generateKeypair, keyData_drop_generateKeypair,
    pkeEncrypt_generateKeypair]

end Generated

/-- Implicit rejection as the initiator meets it: after `get_public_key` drew
`d || z`, `set_public_key` accepts every ciphertext `c` of `ct_len` bytes, and
the secret is `K'` of `(K', r') = G(m' || H(ek))`, `m'` what `c` decrypts to,
when `c` is the encryption of `m'` under `ek` and `r'`, and `J(z || c)` otherwise. -/
theorem setPublicKey_decapsulates (dz : List.Vector UInt8 (2 * mlKemSeedLen)) (m : List.Vector UInt8 mlKemSeedLen)
    {ciphertext : List UInt8} (length : ciphertext.length = params.ctLen) :
    let keys := pkeKeygen prims params (dz.toList.take mlKemSeedLen)
    let decrypted := pkeDecrypt params keys.privateKey ciphertext
    let kr := prims.g (decrypted ++ prims.h keys.ek)
    ∃ initiator, setPublicKey prims params m (getPublicKey prims params dz mlKemCreate).1 ciphertext = some initiator ∧
      getSharedSecret initiator =
        if ciphertext = pkeEncrypt prims params none keys.ek decrypted (kr.drop mlKemSeedLen) then kr.take mlKemSeedLen
        else prims.shake256 (dz.toList.drop mlKemSeedLen ++ ciphertext) mlKemSeedLen := by
  intro keys decrypted kr
  rw [getPublicKey_mlKemCreate]
  exact ⟨_, setPublicKey_decaps prims params rfl m length, sharedSecret_decaps_generateKeypair prims params dz _ _⟩

/-- The 64 bytes `0, 1, …, 63` an initiator draws in the worked runs. -/
def countingKeySeed : List.Vector UInt8 (2 * mlKemSeedLen) :=
  ⟨(List.range (2 * mlKemSeedLen)).map Nat.toUInt8, by rw [List.length_map, List.length_range]⟩

/-- The 32 bytes `1, 4, 7, …` a responder draws in the worked runs. -/
def countingMessage : List.Vector UInt8 mlKemSeedLen :=
  ⟨(List.range mlKemSeedLen).map fun i => (3 * i + 1).toUInt8, by rw [List.length_map, List.length_range]⟩

theorem setPublicKey_decapsulates_unit :
    (List.replicate mlKemSet512.ctLen (0x5a : UInt8)).length = mlKemSet512.ctLen ∧
      let keys := pkeKeygen unitPrimitives mlKemSet512 (countingKeySeed.toList.take mlKemSeedLen)
      let decrypted := pkeDecrypt mlKemSet512 keys.privateKey (List.replicate mlKemSet512.ctLen 0x5a)
      let kr := unitPrimitives.g (decrypted ++ unitPrimitives.h keys.ek)
      ∃ initiator, setPublicKey unitPrimitives mlKemSet512 countingMessage
          (getPublicKey unitPrimitives mlKemSet512 countingKeySeed mlKemCreate).1
          (List.replicate mlKemSet512.ctLen 0x5a) = some initiator ∧
        getSharedSecret initiator =
          if List.replicate mlKemSet512.ctLen 0x5a
              = pkeEncrypt unitPrimitives mlKemSet512 none keys.ek decrypted (kr.drop mlKemSeedLen)
          then kr.take mlKemSeedLen
          else unitPrimitives.shake256 (countingKeySeed.toList.drop mlKemSeedLen ++ List.replicate mlKemSet512.ctLen 0x5a)
            mlKemSeedLen :=
  ⟨List.length_replicate, setPublicKey_decapsulates unitPrimitives mlKemSet512 _ _ List.length_replicate⟩

/-- The noise of the decryption in the exchange where the initiator draws `d || z`
and the responder `m`: `r` is the second half of `G(m || H(ek))`. -/
noncomputable def exchangeNoise (dz : List.Vector UInt8 (2 * mlKemSeedLen)) (m : List.Vector UInt8 mlKemSeedLen) :
    (ZMod mlKemQ)[X] :=
  let d := dz.toList.take mlKemSeedLen
  pkeNoise prims params d m.toList ((prims.g (m.toList ++ prims.h (pkeKeygen prims params d).ek)).drop mlKemSeedLen)

/-- Agreement: an initiator that sends its `ek` and a responder that sends back its
ciphertext both succeed and end with the same secret, the `K` of
`(K, r) = G(m || H(ek))`, whenever every coefficient of the noise of the
decryption is below `832` in centred size. The random bytes of the calls that
draw none are arbitrary. -/
theorem exchange_agrees (dz dz' : List.Vector UInt8 (2 * mlKemSeedLen)) (m m' : List.Vector UInt8 mlKemSeedLen)
    (small : ∀ j < mlKemN, ((exchangeNoise prims params dz m).coeff j).valMinAbs.natAbs < 832) :
    let initiator := getPublicKey prims params dz mlKemCreate
    ∃ responder initiator', setPublicKey prims params m mlKemCreate initiator.2 = some responder ∧
      setPublicKey prims params m' initiator.1 (getPublicKey prims params dz' responder).2 = some initiator' ∧
      getSharedSecret initiator' = getSharedSecret (getPublicKey prims params dz' responder).1 ∧
      getSharedSecret initiator' = (prims.g (m.toList ++ prims.h initiator.2)).take mlKemSeedLen := by
  intro initiator
  set keys := pkeKeygen prims params (dz.toList.take mlKemSeedLen) with keysDef
  set r := (prims.g (m.toList ++ prims.h keys.ek)).drop mlKemSeedLen
  set c := pkeEncrypt prims params none keys.ek m.toList r
  -- the responder accepts `ek`, encapsulates and returns `c`
  have accepted : setPublicKey prims params m mlKemCreate keys.ek
      = some (encapsSharedSecret prims params m mlKemCreate keys.ek) :=
    setPublicKey_encaps prims params rfl m (length_pkeKeygen_ek prims params _)
  have returned : getPublicKey prims params dz' (encapsSharedSecret prims params m mlKemCreate keys.ek)
      = (encapsSharedSecret prims params m mlKemCreate keys.ek, c) := rfl
  -- the initiator accepts `c`, decrypts `m` and re-encrypts it to `c`
  have decapsulated : setPublicKey prims params m' initiator.1 c
      = some (decapsSharedSecret prims params keys.privateKey initiator.1 c) :=
    setPublicKey_decaps prims params rfl m' (length_pkeEncrypt prims params _ _ _ _)
  have decrypted : pkeDecrypt params keys.privateKey c = m.toList :=
    pkeDecrypt_pkeEncrypt prims params _ _ r m.toList_length small
  have secret : (decapsSharedSecret prims params keys.privateKey initiator.1 c).sharedSecret
      = (prims.g (m.toList ++ prims.h keys.ek)).take mlKemSeedLen := by
    have generated := sharedSecret_decaps_generateKeypair prims params dz mlKemCreate c
    simp only [← keysDef] at generated
    rw [decrypted, if_pos rfl] at generated
    exact generated
  exact ⟨_, _, accepted, returned ▸ decapsulated, returned ▸ secret, secret⟩

theorem exchange_agrees_unit :
    (∀ j < mlKemN, ((exchangeNoise unitPrimitives mlKemSet512 countingKeySeed countingMessage).coeff j).valMinAbs.natAbs
        < 832) ∧
      let initiator := getPublicKey unitPrimitives mlKemSet512 countingKeySeed mlKemCreate
      ∃ responder initiator', setPublicKey unitPrimitives mlKemSet512 countingMessage mlKemCreate initiator.2
          = some responder ∧
        setPublicKey unitPrimitives mlKemSet512 countingMessage initiator.1
          (getPublicKey unitPrimitives mlKemSet512 countingKeySeed responder).2 = some initiator' ∧
        getSharedSecret initiator'
          = getSharedSecret (getPublicKey unitPrimitives mlKemSet512 countingKeySeed responder).1 ∧
        getSharedSecret initiator'
          = (unitPrimitives.g (countingMessage.toList ++ unitPrimitives.h initiator.2)).take mlKemSeedLen := by
  -- every sampled polynomial is `1`: the noise is at most `109` in centred size
  have small : ∀ j < mlKemN,
      ((exchangeNoise unitPrimitives mlKemSet512 countingKeySeed countingMessage).coeff j).valMinAbs.natAbs < 832 :=
    fun j _ => lt_of_le_of_lt (natAbs_coeff_pkeNoise_unitPrimitives mlKemSet512 (.inr rfl) (.inl rfl) _ _ _ j)
      (by decide)
  exact ⟨small, exchange_agrees unitPrimitives mlKemSet512 _ _ _ _ small⟩

/-! ## Runs -/

/-- A call on the object, with the random bytes it draws. -/
inductive MlKemCall where
  | getPublicKey (dz : List.Vector UInt8 (2 * mlKemSeedLen))
  | setPublicKey (m : List.Vector UInt8 mlKemSeedLen) (value : List UInt8)
  | getSharedSecret

/-- The state after a call; a call that fails leaves it as it was. -/
def afterCall (state : MlKemState) : MlKemCall → MlKemState
  | .getPublicKey dz => (getPublicKey prims params dz state).1
  | .setPublicKey m value => (setPublicKey prims params m state value).getD state
  | .getSharedSecret => state

/-- The state after a sequence of calls. -/
def run (state : MlKemState) (calls : List MlKemCall) : MlKemState :=
  calls.foldl (afterCall prims params) state

theorem run_cons (state : MlKemState) (call : MlKemCall) (calls : List MlKemCall) :
    run prims params state (call :: calls) = run prims params (afterCall prims params state call) calls := rfl

/-- Every state reached from `state` by a run has a property that `state` has
and that every call keeps. -/
theorem run_induction {P : MlKemState → Prop}
    (step : ∀ state call, P state → P (afterCall prims params state call)) :
    ∀ (calls : List MlKemCall) {state : MlKemState}, P state → P (run prims params state calls)
  | [], _, holds => holds
  | call :: calls, state, holds => by
    rw [run_cons]
    exact run_induction step calls (step state call holds)

/-! ## What every reachable state keeps -/

/-- The invariant of the object. -/
structure Consistent (state : MlKemState) : Prop where
  /-- never a private key and a ciphertext at once -/
  exclusive : state.privateKey = none ∨ state.ciphertext = none
  /-- the key pair is stored whole or not at all -/
  keys_together : state.publicKey.isSome = state.privateKey.isSome
  privateKey_length : ∀ s, state.privateKey = some s → s.length = params.k
  publicKey_length : ∀ key, state.publicKey = some key → key.length = (params.k + 1) * params.k
  /-- `H(ek) || z` -/
  keyData_length : state.privateKey.isSome → state.keyData.length = 2 * mlKemSeedLen
  ciphertext_length : ∀ c, state.ciphertext = some c → c.length = params.ctLen
  sharedSecret_length : state.sharedSecret = [] ∨ state.sharedSecret.length = mlKemSeedLen

theorem consistent_mlKemCreate : Consistent params mlKemCreate where
  exclusive := .inl rfl
  keys_together := rfl
  privateKey_length _ stored := by cases stored
  publicKey_length _ stored := by cases stored
  keyData_length stored := by cases stored
  ciphertext_length _ stored := by cases stored
  sharedSecret_length := .inl rfl

section Steps

variable {prims params} {state : MlKemState} (consistent : Consistent params state)
include consistent

theorem consistent_generateKeypair (dz : List.Vector UInt8 (2 * mlKemSeedLen))
    (noCiphertext : state.ciphertext = none) :
    Consistent params (generateKeypair prims params dz state).1 where
  exclusive := .inr noCiphertext
  keys_together := rfl
  privateKey_length _ stored := by
    cases stored
    exact length_pkeKeygen_privateKey prims params _
  publicKey_length _ stored := by
    cases stored
    exact length_pkeKeygen_publicKey prims params _
  keyData_length _ := by
    show (prims.h _ ++ dz.toList.drop mlKemSeedLen).length = _
    rw [List.length_append, prims.length_h, List.length_drop, dz.toList_length]
    rfl
  ciphertext_length c stored := by
    rw [generateKeypair_ciphertext, noCiphertext] at stored
    cases stored
  sharedSecret_length := consistent.sharedSecret_length

theorem consistent_getPublicKey (dz : List.Vector UInt8 (2 * mlKemSeedLen)) :
    Consistent params (getPublicKey prims params dz state).1 := by
  unfold getPublicKey
  split
  · exact consistent
  · exact consistent_generateKeypair consistent dz ‹_›

theorem consistent_decapsSharedSecret (privateKey : List MlPoly) (ciphertext : List UInt8) :
    Consistent params (decapsSharedSecret prims params privateKey state ciphertext) where
  exclusive := consistent.exclusive
  keys_together := consistent.keys_together
  privateKey_length := consistent.privateKey_length
  publicKey_length := consistent.publicKey_length
  keyData_length := consistent.keyData_length
  ciphertext_length := consistent.ciphertext_length
  sharedSecret_length := by
    -- the rejection value `J(z || c)` is 32 bytes, and the copy keeps its length
    right
    show (memcpyCond _ _ _).length = _
    rw [length_memcpyCond, prims.length_shake256]

theorem consistent_encapsSharedSecret (noPrivateKey : state.privateKey = none)
    (m : List.Vector UInt8 mlKemSeedLen) (ek : List UInt8) :
    Consistent params (encapsSharedSecret prims params m state ek) where
  exclusive := .inl noPrivateKey
  keys_together := consistent.keys_together
  privateKey_length := consistent.privateKey_length
  publicKey_length := consistent.publicKey_length
  keyData_length := consistent.keyData_length
  ciphertext_length c stored := by
    cases stored
    exact length_pkeEncrypt prims params _ _ _ _
  sharedSecret_length := by
    right
    show (List.take mlKemSeedLen _).length = _
    rw [List.length_take, prims.length_g]
    rfl

theorem consistent_setPublicKey (m : List.Vector UInt8 mlKemSeedLen) (value : List UInt8) :
    Consistent params ((setPublicKey prims params m state value).getD state) := by
  unfold setPublicKey
  split
  · -- as initiator
    split
    · exact consistent
    · exact consistent_decapsSharedSecret consistent _ value
  · -- as responder
    split
    · exact consistent
    · split
      · exact consistent
      · exact consistent_encapsSharedSecret consistent ‹_› m value

theorem consistent_afterCall (call : MlKemCall) : Consistent params (afterCall prims params state call) := by
  cases call with
  | getPublicKey dz => exact consistent_getPublicKey consistent dz
  | setPublicKey m value => exact consistent_setPublicKey consistent m value
  | getSharedSecret => exact consistent

end Steps

/-- Every state that a sequence of calls reaches from `ml_kem_create` keeps the
invariant: one role at a time, the key pair stored whole with its key data, a
ciphertext of `ct_len` bytes and a shared secret of 32 bytes or none. -/
theorem consistent_run_mlKemCreate (calls : List MlKemCall) :
    Consistent params (run prims params mlKemCreate calls) :=
  @run_induction prims params (Consistent params) (fun _ call consistent => consistent_afterCall consistent call)
    calls mlKemCreate (consistent_mlKemCreate params)

/-! ## Roles -/

/-- The role of the object: the initiator holds a private key, the responder a
ciphertext. -/
inductive MlKemRole where
  | fresh
  | initiator
  | responder
deriving DecidableEq, Repr

def role (state : MlKemState) : MlKemRole :=
  if state.privateKey.isSome then .initiator
  else if state.ciphertext.isSome then .responder
  else .fresh

theorem role_afterCall {state : MlKemState} (taken : role state ≠ .fresh) (call : MlKemCall) :
    role (afterCall prims params state call) = role state := by
  cases call with
  | getSharedSecret => rfl
  | getPublicKey dz =>
    simp only [afterCall, getPublicKey]
    split
    · rfl
    · -- without a ciphertext the role taken is the initiator's, which a new key pair keeps
      rename_i noCiphertext
      simp [role, noCiphertext] at taken ⊢
      exact taken
  | setPublicKey m value =>
    simp only [afterCall, setPublicKey]
    split
    · -- the initiator decapsulates and keeps its private key
      rename_i privateKey stored
      split
      · rfl
      · simp [role, stored]
    · -- the responder encapsulates again and writes a new ciphertext
      rename_i noPrivateKey
      split
      · rfl
      · split
        · rfl
        · simp [role, noPrivateKey] at taken ⊢
          exact taken

/-- The role an object has taken is kept by every later sequence of calls. -/
theorem role_run {state : MlKemState} (taken : role state ≠ .fresh) (calls : List MlKemCall) :
    role (run prims params state calls) = role state := by
  exact @run_induction prims params (fun later => role later = role state)
    (fun later call same => by rw [role_afterCall prims params (same ▸ taken) call, same]) calls state rfl

theorem role_run_initiator :
    role (getPublicKey unitPrimitives mlKemSet512 countingKeySeed mlKemCreate).1 ≠ .fresh ∧
      role (run unitPrimitives mlKemSet512 (getPublicKey unitPrimitives mlKemSet512 countingKeySeed mlKemCreate).1
          [.setPublicKey countingMessage [], .getPublicKey countingKeySeed])
        = role (getPublicKey unitPrimitives mlKemSet512 countingKeySeed mlKemCreate).1 := by
  have taken : role (getPublicKey unitPrimitives mlKemSet512 countingKeySeed mlKemCreate).1 ≠ .fresh := by
    simp [getPublicKey_mlKemCreate, role]
  exact ⟨taken, role_run unitPrimitives mlKemSet512 taken _⟩

end StrongSwan.Libstrongswan.Plugins.Ml.MlKemExchange
