import StrongSwan.Libstrongswan.Plugins.Kdf.KdfKdf
import StrongSwan.Libstrongswan.Crypto.Proposal

/-!
Contract: the IKE key derivation of `keymat_v2.c`.

`derive_ike_keys` takes the PRF, the encryption and, for a classic cipher, the
integrity algorithm of the selected proposal, asks the crypto factory for the key
sizes they need, and computes

  SKEYSEED = prf (Ni' | Nr', SK(0))                        (first derivation)
  SKEYSEED = prf (SK_d old, SK(0) | Ni | Nr | SK(1) | ...)  (rekeying, old PRF)
  SK_d | SK_ai | SK_ar | SK_ei | SK_er | SK_pi | SK_pr = prf+ (SKEYSEED, Ni | Nr | SPIi | SPIr)

where the nonces are cut to half the PRF key for the fixed-key PRFs. The
initiator keys its outbound AEAD with `SK_ai | SK_ei` and builds its AUTH with
`SK_pi`; the responder the other way round. `deriveIkeKeys_contract` states all of it.

The crypto factory is any `CryptoFactory`; both objects of a direction pair come
from one call, so their key sizes agree. A failed derivation is `none`; the
updates `derive_ike_keys` makes before failing are not modelled.

Does not own: `derive_child_keys`, the PPK functions, `get_auth_octets`, the hash
algorithm set, and the logging and the `ike_derived_keys` bus hook beyond the
keys it is given.
-/

namespace StrongSwan.Libcharon.Sa.Ikev2

open StrongSwan.Foundations
open StrongSwan.Libstrongswan.Crypto
open StrongSwan.Libstrongswan.Plugins.KdfKdf

def prfAes128Xcbc : Nat := 4
def prfAes128Cmac : Nat := 8
def prfCamellia128Xcbc : Nat := 1028
def prfUndefined : Nat := 1024

/-- What `lib->crypto` answers, as the key sizes of the objects it creates. -/
structure CryptoFactory where
  createPrf : Nat → Option Prf
  /-- `create_signer`, then `get_key_size`. -/
  signerKeySize : Nat → Option Nat
  /-- `create_crypter` with a key size in bytes, then `get_key_size`. -/
  crypterKeySize : Nat → Nat → Option Nat
  /-- `create_aead` with key and salt sizes in bytes, then `get_key_size`. -/
  aeadKeySize : Nat → Nat → Nat → Option Nat
  /-- `iv_gen_create_for_alg` finds an IV generator. -/
  ivGenSupported : Nat → Bool

structure KeymatV2 where
  initiator : Bool
  prfAlg : Nat
  prf : Option Prf
  skd : List UInt8
  skpBuild : List UInt8
  skpVerify : List UInt8
  /-- The keys set on the inbound and outbound AEAD. -/
  aeadIn : Option (List UInt8)
  aeadOut : Option (List UInt8)

/-- The keys `derive_ike_keys` hands to the `ike_derived_keys` hook. -/
structure IkeKeys where
  skD : List UInt8
  skAi : List UInt8
  skAr : List UInt8
  skEi : List UInt8
  skEr : List UInt8
  skPi : List UInt8
  skPr : List UInt8
deriving DecidableEq, Repr

/-- The salt sizes of `create_ike_aead` (RFC 4106, 4309, 5529, 7634). -/
def aeadSaltSize (alg : Nat) : Option Nat :=
  if alg ∈ [18, 19, 20, 28] then some 4
  else if alg ∈ [14, 15, 16, 25, 26, 27] then some 3
  else none

/-- `create_ike_traditional` and `create_ike_aead`: the lengths of `SK_a` and `SK_e`. -/
def keyLengths (factory : CryptoFactory) (proposal : Proposal) (encAlg encSize : Nat) :
    Option (Nat × Nat) :=
  if !encryptionAlgorithmIsAead encAlg then do
    let (intAlg, _) ← proposal.getAlgorithm integrityAlgorithm
    let integrity ← factory.signerKeySize intAlg
    let encryption ← factory.crypterKeySize encAlg (encSize / 8)
    if factory.ivGenSupported encAlg then some (integrity, encryption) else none
  else do
    let salt ← aeadSaltSize encAlg
    let encryption ← factory.aeadKeySize encAlg (encSize / 8) salt
    some (0, encryption)

/-- `key_exchange_concat_secrets`: the first secret and the others concatenated. -/
def keyExchangeConcatSecrets : List (Option (List UInt8)) → Option (List UInt8 × List UInt8)
  | [] => none
  | first :: others => do
    let first ← first
    let others ← others.mapM id
    some (first, others.flatten)

/-- The PRFs with fixed key semantics, for which only the first bytes of the nonces key
SKEYSEED. -/
def fixedKeyPrfs : List Nat := [prfAes128Cmac, prfAes128Xcbc, prfCamellia128Xcbc]

def fixedNonce (prfAlg keySize : Nat) (nonceI nonceR : List UInt8) : List UInt8 :=
  if prfAlg ∈ fixedKeyPrfs then nonceI.take (keySize / 2) ++ nonceR.take (keySize / 2)
  else nonceI ++ nonceR

/-- `chunk_split(keymat, "ammmmaa", ...)`: each key takes its bytes from the front of
what the keys before it left. -/
def splitKeymat (keymat : List UInt8) (keySize integrityLength encryptionLength : Nat) : IkeKeys :=
  let afterD := keymat.drop keySize
  let afterAi := afterD.drop integrityLength
  let afterAr := afterAi.drop integrityLength
  let afterEi := afterAr.drop encryptionLength
  let afterEr := afterEi.drop encryptionLength
  let afterPi := afterEr.drop keySize
  ⟨keymat.take keySize, afterD.take integrityLength, afterAi.take integrityLength,
    afterAr.take encryptionLength, afterEi.take encryptionLength, afterEr.take keySize,
    afterPi.take keySize⟩

/-- SKEYSEED and the PRF of `prf+`: the new one at first, the old SA's when rekeying. -/
def skeyseedOf (factory : CryptoFactory) (prf : Prf) (prfAlg : Nat) (secret addSecret nonceI nonceR : List UInt8)
    (rekeyFunction : Nat) (rekeySkd : List UInt8) : Option (List UInt8 × Prf) :=
  if rekeyFunction = prfUndefined then do
    -- SKEYSEED = prf(Ni | Nr, g^ir)
    let kdf := ((kdfKdfCreate .kdfPrf prf).setParam .kdfParamKey secret).setParam .kdfParamSalt
      (fixedNonce prfAlg prf.keySize nonceI nonceR)
    let skeyseed ← kdf.allocateBytes 0
    some (skeyseed, prf)
  else do
    -- SKEYSEED = prf(SK_d (old), [g^ir (new)] | Ni | Nr), the old SA's PRF for prf+ as well
    let old ← factory.createPrf rekeyFunction
    let kdf := ((kdfKdfCreate .kdfPrf old).setParam .kdfParamKey (secret ++ (nonceI ++ nonceR) ++ addSecret)).setParam
      .kdfParamSalt rekeySkd
    let skeyseed ← kdf.allocateBytes 0
    some (skeyseed, old)

/-- `set_aead_keys` and the choice of `skp_build` and `skp_verify`. -/
def KeymatV2.setKeys (this : KeymatV2) (prfAlg : Nat) (prf : Prf) (keys : IkeKeys) : KeymatV2 :=
  let keysI := keys.skAi ++ keys.skEi
  let keysR := keys.skAr ++ keys.skEr
  { this with
    prfAlg, prf := some prf, skd := keys.skD
    aeadIn := some (if this.initiator then keysR else keysI)
    aeadOut := some (if this.initiator then keysI else keysR)
    skpBuild := if this.initiator then keys.skPi else keys.skPr
    skpVerify := if this.initiator then keys.skPr else keys.skPi }

/-- The computation of `derive_ike_keys`: the PRF algorithm and PRF the SA keeps, and the
keys. Nothing here reads the keymat. -/
def deriveKeys (factory : CryptoFactory) (proposal : Proposal) (kes : List (Option (List UInt8)))
    (nonceI nonceR spiI spiR : List UInt8) (rekeyFunction : Nat) (rekeySkd : List UInt8) :
    Option (Nat × Prf × IkeKeys) := do
  let (prfAlg, _) ← proposal.getAlgorithm pseudoRandomFunction
  let prf ← factory.createPrf prfAlg
  let (encAlg, encSize) ← proposal.getAlgorithm encryptionAlgorithm
  let (integrityLength, encryptionLength) ← keyLengths factory proposal encAlg encSize
  let (secret, addSecret) ← keyExchangeConcatSecrets kes
  let (skeyseed, prfPlusPrf) ← skeyseedOf factory prf prfAlg secret addSecret nonceI nonceR rekeyFunction rekeySkd
  -- KEYMAT = prf+ (SKEYSEED, Ni | Nr | SPIi | SPIr)
  let prfPlus := ((kdfKdfCreate .kdfPrfPlus prfPlusPrf).setParam .kdfParamKey skeyseed).setParam .kdfParamSalt
    (nonceI ++ nonceR ++ spiI ++ spiR)
  let keymat ← prfPlus.allocateBytes (3 * prf.keySize + 2 * integrityLength + 2 * encryptionLength)
  some (prfAlg, prf, splitKeymat keymat prf.keySize integrityLength encryptionLength)

def KeymatV2.deriveIkeKeys (this : KeymatV2) (factory : CryptoFactory) (proposal : Proposal)
    (kes : List (Option (List UInt8))) (nonceI nonceR spiI spiR : List UInt8) (rekeyFunction : Nat)
    (rekeySkd : List UInt8) : Option (KeymatV2 × IkeKeys) :=
  (deriveKeys factory proposal kes nonceI nonceR spiI spiR rekeyFunction rekeySkd).map
    fun (prfAlg, prf, keys) => (this.setKeys prfAlg prf keys, keys)

/-! ## The pieces of the derivation -/

theorem mapM_id_eq_some_iff {α : Type} (options : List (Option α)) (values : List α) :
    options.mapM id = some values ↔ options = values.map some := by
  induction options generalizing values with
  | nil => cases values <;> simp
  | cons head tail inductionHypothesis =>
    cases head with
    | none => cases values <;> simp [List.mapM_cons]
    | some value =>
      have step : (some value :: tail).mapM id = (tail.mapM id).map (value :: ·) := by
        cases results : tail.mapM id <;> simp [List.mapM_cons, results]
      rw [step]
      cases values with
      | nil => simp
      | cons first rest => simp [inductionHypothesis, eq_comm, and_comm]

/-- The secrets are `SK(0)` and the concatenation of `SK(1) ... SK(m)`, and only when every
key exchange has its secret. -/
theorem keyExchangeConcatSecrets_eq_some_iff (kes : List (Option (List UInt8))) (secret addSecret : List UInt8) :
    keyExchangeConcatSecrets kes = some (secret, addSecret) ↔
      ∃ others : List (List UInt8), kes = some secret :: others.map some ∧ addSecret = others.flatten := by
  cases kes with
  | nil => simp [keyExchangeConcatSecrets]
  | cons first others =>
    cases first with
    | none => simp [keyExchangeConcatSecrets]
    | some first =>
      simp only [keyExchangeConcatSecrets, Option.bind_eq_bind, Option.bind_some, Option.bind_eq_some_iff,
        mapM_id_eq_some_iff, Option.some.injEq, Prod.mk.injEq, List.cons.injEq]
      constructor
      · rintro ⟨values, listed, rfl, rfl⟩
        exact ⟨values, ⟨rfl, listed⟩, rfl⟩
      · rintro ⟨values, ⟨rfl, rfl⟩, rfl⟩
        exact ⟨values, rfl, rfl, rfl⟩

theorem skeyseedOf_initial (factory : CryptoFactory) (prf : Prf) (prfAlg : Nat)
    (secret addSecret nonceI nonceR rekeySkd : List UInt8) :
    skeyseedOf factory prf prfAlg secret addSecret nonceI nonceR prfUndefined rekeySkd =
      some (prf.apply (fixedNonce prfAlg prf.keySize nonceI nonceR) secret, prf) := by
  simp [skeyseedOf, allocateBytes_kdfPrf]

theorem skeyseedOf_rekey (factory : CryptoFactory) (prf : Prf) (prfAlg : Nat)
    (secret addSecret nonceI nonceR : List UInt8) (rekeyFunction : Nat) (rekeySkd : List UInt8)
    (rekeying : rekeyFunction ≠ prfUndefined) :
    skeyseedOf factory prf prfAlg secret addSecret nonceI nonceR rekeyFunction rekeySkd =
      (factory.createPrf rekeyFunction).map fun old =>
        (old.apply rekeySkd (secret ++ (nonceI ++ nonceR) ++ addSecret), old) := by
  cases old : factory.createPrf rekeyFunction <;> simp [skeyseedOf, rekeying, old, allocateBytes_kdfPrf]

/-- Seven keys cut one after another from the front of `stream`: `SK_d`, `SK_pi` and `SK_pr`
of the PRF key size, `SK_ai` and `SK_ar` of the integrity and `SK_ei` and `SK_er` of the
encryption key length. -/
structure ConsecutiveSlices (keys : IkeKeys) (stream : List UInt8)
    (keySize integrityLength encryptionLength : Nat) : Prop where
  length_skD : keys.skD.length = keySize
  length_skAi : keys.skAi.length = integrityLength
  length_skAr : keys.skAr.length = integrityLength
  length_skEi : keys.skEi.length = encryptionLength
  length_skEr : keys.skEr.length = encryptionLength
  length_skPi : keys.skPi.length = keySize
  length_skPr : keys.skPr.length = keySize
  slices : keys.skD ++ keys.skAi ++ keys.skAr ++ keys.skEi ++ keys.skEr ++ keys.skPi ++ keys.skPr =
    stream.take (3 * keySize + 2 * integrityLength + 2 * encryptionLength)

/-- Splitting the first bytes of a long enough stream cuts it into consecutive slices. -/
theorem consecutiveSlices_splitKeymat (stream : List UInt8) (keySize integrityLength encryptionLength : Nat)
    (fits : 3 * keySize + 2 * integrityLength + 2 * encryptionLength ≤ stream.length) :
    ConsecutiveSlices
      (splitKeymat (stream.take (3 * keySize + 2 * integrityLength + 2 * encryptionLength))
        keySize integrityLength encryptionLength)
      stream keySize integrityLength encryptionLength := by
  have length := List.length_take_of_le fits
  constructor
  case slices =>
    generalize stream.take (3 * keySize + 2 * integrityLength + 2 * encryptionLength) = keymat at length ⊢
    -- the seven slices, each taken where the one before ends, reassemble what they were cut from
    have whole : keymat.take
        (keySize + (integrityLength + (integrityLength + (encryptionLength + (encryptionLength + (keySize + keySize)))))) =
        keymat :=
      List.take_of_length_le (by omega)
    conv_rhs => rw [← whole]
    simp only [splitKeymat, List.take_add, List.append_assoc]
  all_goals
    simp only [splitKeymat, List.length_take, List.length_drop, length]
    omega

/-- What a successful derivation computed, stage by stage. -/
theorem deriveKeys_eq_some {factory : CryptoFactory} {proposal : Proposal} {kes : List (Option (List UInt8))}
    {nonceI nonceR spiI spiR : List UInt8} {rekeyFunction : Nat} {rekeySkd : List UInt8}
    {prfAlg : Nat} {prf : Prf} {keys : IkeKeys}
    (derived : deriveKeys factory proposal kes nonceI nonceR spiI spiR rekeyFunction rekeySkd = some (prfAlg, prf, keys)) :
    ∃ prfSize encAlg encSize integrityLength encryptionLength secret addSecret skeyseed prfPlusPrf,
      proposal.getAlgorithm pseudoRandomFunction = some (prfAlg, prfSize) ∧
      factory.createPrf prfAlg = some prf ∧
      proposal.getAlgorithm encryptionAlgorithm = some (encAlg, encSize) ∧
      keyLengths factory proposal encAlg encSize = some (integrityLength, encryptionLength) ∧
      keyExchangeConcatSecrets kes = some (secret, addSecret) ∧
      skeyseedOf factory prf prfAlg secret addSecret nonceI nonceR rekeyFunction rekeySkd = some (skeyseed, prfPlusPrf) ∧
      3 * prf.keySize + 2 * integrityLength + 2 * encryptionLength ≤ prfPlusPrf.blockSize * 255 ∧
      keys = splitKeymat ((prfPlusPrf.prfPlus skeyseed (nonceI ++ nonceR ++ spiI ++ spiR)).take
        (3 * prf.keySize + 2 * integrityLength + 2 * encryptionLength)) prf.keySize integrityLength encryptionLength := by
  simp only [deriveKeys, Option.bind_eq_bind, Option.bind_eq_some_iff, Prod.exists, allocateBytes_kdfPrfPlus] at derived
  obtain ⟨prfAlg, prfSize, foundPrf, prf, created, encAlg, encSize, foundEnc, integrityLength, encryptionLength,
    lengths, secret, addSecret, concatenated, skeyseed, prfPlusPrf, seeded, keymat, allocated, result⟩ := derived
  simp only [Option.some.injEq, Prod.mk.injEq] at result
  obtain ⟨rfl, rfl, rfl⟩ := result
  -- prf+ gave the keymat, so its length was within 255 blocks
  split_ifs at allocated with tooLong
  cases allocated
  exact ⟨prfSize, encAlg, encSize, integrityLength, encryptionLength, secret, addSecret, skeyseed, prfPlusPrf,
    foundPrf, created, foundEnc, lengths, concatenated, seeded, by omega, rfl⟩

theorem deriveIkeKeys_eq_some_iff (this : KeymatV2) (factory : CryptoFactory) (proposal : Proposal)
    (kes : List (Option (List UInt8))) (nonceI nonceR spiI spiR : List UInt8) (rekeyFunction : Nat)
    (rekeySkd : List UInt8) (next : KeymatV2) (keys : IkeKeys) :
    this.deriveIkeKeys factory proposal kes nonceI nonceR spiI spiR rekeyFunction rekeySkd = some (next, keys) ↔
      ∃ prfAlg prf, deriveKeys factory proposal kes nonceI nonceR spiI spiR rekeyFunction rekeySkd =
        some (prfAlg, prf, keys) ∧ this.setKeys prfAlg prf keys = next := by
  cases derived : deriveKeys factory proposal kes nonceI nonceR spiI spiR rekeyFunction rekeySkd with
  | none => simp [KeymatV2.deriveIkeKeys, derived]
  | some result =>
    obtain ⟨prfAlg, prf, derivedKeys⟩ := result
    simp only [KeymatV2.deriveIkeKeys, derived, Option.map_some, Option.some.injEq, Prod.mk.injEq]
    constructor
    · rintro ⟨rfl, rfl⟩
      exact ⟨prfAlg, prf, ⟨rfl, rfl, rfl⟩, rfl⟩
    · rintro ⟨_, _, ⟨rfl, rfl, rfl⟩, rfl⟩
      exact ⟨rfl, rfl⟩

/-! ## Who uses which key -/

section Roles

variable (this : KeymatV2) (prfAlg : Nat) (prf : Prf) (keys : IkeKeys)

/-- The initiator sends with `SK_ai | SK_ei` and builds its AUTH with `SK_pi`. -/
theorem setKeys_of_initiator (initiator : this.initiator = true) :
    (this.setKeys prfAlg prf keys).aeadOut = some (keys.skAi ++ keys.skEi) ∧
      (this.setKeys prfAlg prf keys).aeadIn = some (keys.skAr ++ keys.skEr) ∧
      (this.setKeys prfAlg prf keys).skpBuild = keys.skPi ∧ (this.setKeys prfAlg prf keys).skpVerify = keys.skPr := by
  simp [KeymatV2.setKeys, initiator]

/-- The responder sends with `SK_ar | SK_er` and builds its AUTH with `SK_pr`. -/
theorem setKeys_of_responder (responder : this.initiator = false) :
    (this.setKeys prfAlg prf keys).aeadOut = some (keys.skAr ++ keys.skEr) ∧
      (this.setKeys prfAlg prf keys).aeadIn = some (keys.skAi ++ keys.skEi) ∧
      (this.setKeys prfAlg prf keys).skpBuild = keys.skPr ∧ (this.setKeys prfAlg prf keys).skpVerify = keys.skPi := by
  simp [KeymatV2.setKeys, responder]

@[simp] theorem skd_setKeys : (this.setKeys prfAlg prf keys).skd = keys.skD := rfl

end Roles

/-- Both ends derive the same keys, and what one sends with the other receives with. -/
theorem setKeys_pair (initiator responder : KeymatV2) (prfAlg : Nat) (prf : Prf) (keys : IkeKeys)
    (isInitiator : initiator.initiator = true) (isResponder : responder.initiator = false) :
    (initiator.setKeys prfAlg prf keys).aeadOut = (responder.setKeys prfAlg prf keys).aeadIn ∧
      (initiator.setKeys prfAlg prf keys).aeadIn = (responder.setKeys prfAlg prf keys).aeadOut ∧
      (initiator.setKeys prfAlg prf keys).skpBuild = (responder.setKeys prfAlg prf keys).skpVerify ∧
      (initiator.setKeys prfAlg prf keys).skpVerify = (responder.setKeys prfAlg prf keys).skpBuild := by
  obtain ⟨outI, inI, buildI, verifyI⟩ := setKeys_of_initiator initiator prfAlg prf keys isInitiator
  obtain ⟨outR, inR, buildR, verifyR⟩ := setKeys_of_responder responder prfAlg prf keys isResponder
  rw [outI, inI, buildI, verifyI, outR, inR, buildR, verifyR]
  exact ⟨rfl, rfl, rfl, rfl⟩

/-! ## The contract of `derive_ike_keys` -/

/-- What a successful derivation sets, read back through the stages that computed it. -/
theorem derivedKeys_spec (this : KeymatV2) (factory : CryptoFactory) (proposal : Proposal)
    (kes : List (Option (List UInt8))) (nonceI nonceR spiI spiR : List UInt8) (rekeyFunction : Nat)
    (rekeySkd : List UInt8) (next : KeymatV2) (keys : IkeKeys)
    (derived : this.deriveIkeKeys factory proposal kes nonceI nonceR spiI spiR rekeyFunction rekeySkd =
      some (next, keys)) :
    ∃ (prfAlg prfSize : Nat) (prf : Prf) (encAlg encSize integrityLength encryptionLength : Nat)
      (sk0 : List UInt8) (others : List (List UInt8)) (skeyseed : List UInt8) (prfPlusPrf : Prf),
      proposal.getAlgorithm pseudoRandomFunction = some (prfAlg, prfSize) ∧ factory.createPrf prfAlg = some prf ∧
      proposal.getAlgorithm encryptionAlgorithm = some (encAlg, encSize) ∧
      keyLengths factory proposal encAlg encSize = some (integrityLength, encryptionLength) ∧
      kes = some sk0 :: others.map some ∧
      (rekeyFunction = prfUndefined → prfPlusPrf = prf ∧
        skeyseed = prf.apply
          (if prfAlg ∈ [prfAes128Cmac, prfAes128Xcbc, prfCamellia128Xcbc]
            then nonceI.take (prf.keySize / 2) ++ nonceR.take (prf.keySize / 2) else nonceI ++ nonceR) sk0) ∧
      (rekeyFunction ≠ prfUndefined → factory.createPrf rekeyFunction = some prfPlusPrf ∧
        skeyseed = prfPlusPrf.apply rekeySkd (sk0 ++ nonceI ++ nonceR ++ others.flatten)) ∧
      ConsecutiveSlices keys (prfPlusPrf.prfPlus skeyseed (nonceI ++ nonceR ++ spiI ++ spiR))
        prf.keySize integrityLength encryptionLength ∧
      next = this.setKeys prfAlg prf keys := by
  obtain ⟨prfAlg, prf, derivedKeys, rfl⟩ :=
    (deriveIkeKeys_eq_some_iff this factory proposal kes nonceI nonceR spiI spiR rekeyFunction rekeySkd next keys).mp
      derived
  obtain ⟨prfSize, encAlg, encSize, integrityLength, encryptionLength, secret, addSecret, skeyseed, prfPlusPrf,
    foundPrf, created, foundEnc, lengths, concatenated, seeded, fits, rfl⟩ := deriveKeys_eq_some derivedKeys
  obtain ⟨others, rfl, rfl⟩ := (keyExchangeConcatSecrets_eq_some_iff kes secret addSecret).mp concatenated
  refine ⟨prfAlg, prfSize, prf, encAlg, encSize, integrityLength, encryptionLength, secret, others, skeyseed,
    prfPlusPrf, foundPrf, created, foundEnc, lengths, rfl, ?initial, ?rekey, ?slices, rfl⟩
  case initial =>
    rintro rfl
    rw [skeyseedOf_initial, Option.some.injEq, Prod.mk.injEq] at seeded
    exact ⟨seeded.2.symm, seeded.1.symm⟩
  case rekey =>
    intro rekeying
    rw [skeyseedOf_rekey _ _ _ _ _ _ _ _ _ rekeying, Option.map_eq_some_iff] at seeded
    obtain ⟨old, createdOld, same⟩ := seeded
    rw [Prod.mk.injEq] at same
    obtain ⟨rfl, rfl⟩ := same
    exact ⟨createdOld, by simp only [List.append_assoc]⟩
  case slices =>
    exact consecutiveSlices_splitKeymat _ _ _ _ (by rw [Prf.length_prfPlus]; omega)

/-- `KDF_PRF_PLUS` returns the first bytes of `prf+` and fails beyond 255 blocks;
`derive_ike_keys` cuts its seven keys one after another from `prf+ (SKEYSEED, Ni | Nr | SPIi
| SPIr)` with SKEYSEED as RFC 7296 defines it, and an initiator and a responder given the
same inputs key their directions crosswise. -/
theorem deriveIkeKeys_contract :
    (∀ (prf : Prf) (key salt : List UInt8) (outLen : Nat),
      (((kdfKdfCreate .kdfPrfPlus prf).setParam .kdfParamKey key).setParam .kdfParamSalt salt).getBytes outLen =
        if prf.blockSize * 255 < outLen then none else some ((prf.prfPlus key salt).take outLen)) ∧
    (∀ (this : KeymatV2) (factory : CryptoFactory) (proposal : Proposal) (kes : List (Option (List UInt8)))
        (nonceI nonceR spiI spiR : List UInt8) (rekeyFunction : Nat) (rekeySkd : List UInt8)
        (next : KeymatV2) (keys : IkeKeys),
      this.deriveIkeKeys factory proposal kes nonceI nonceR spiI spiR rekeyFunction rekeySkd = some (next, keys) →
      ∃ (prfAlg prfSize : Nat) (prf : Prf) (encAlg encSize integrityLength encryptionLength : Nat)
        (sk0 : List UInt8) (others : List (List UInt8)) (skeyseed : List UInt8) (prfPlusPrf : Prf),
        proposal.getAlgorithm pseudoRandomFunction = some (prfAlg, prfSize) ∧ factory.createPrf prfAlg = some prf ∧
        proposal.getAlgorithm encryptionAlgorithm = some (encAlg, encSize) ∧
        keyLengths factory proposal encAlg encSize = some (integrityLength, encryptionLength) ∧
        kes = some sk0 :: others.map some ∧
        (rekeyFunction = prfUndefined → prfPlusPrf = prf ∧
          skeyseed = prf.apply
            (if prfAlg ∈ [prfAes128Cmac, prfAes128Xcbc, prfCamellia128Xcbc]
              then nonceI.take (prf.keySize / 2) ++ nonceR.take (prf.keySize / 2) else nonceI ++ nonceR) sk0) ∧
        (rekeyFunction ≠ prfUndefined → factory.createPrf rekeyFunction = some prfPlusPrf ∧
          skeyseed = prfPlusPrf.apply rekeySkd (sk0 ++ nonceI ++ nonceR ++ others.flatten)) ∧
        ConsecutiveSlices keys (prfPlusPrf.prfPlus skeyseed (nonceI ++ nonceR ++ spiI ++ spiR))
          prf.keySize integrityLength encryptionLength ∧
        next.skd = keys.skD ∧
        (this.initiator = true → next.aeadOut = some (keys.skAi ++ keys.skEi) ∧
          next.aeadIn = some (keys.skAr ++ keys.skEr) ∧ next.skpBuild = keys.skPi ∧ next.skpVerify = keys.skPr) ∧
        (this.initiator = false → next.aeadOut = some (keys.skAr ++ keys.skEr) ∧
          next.aeadIn = some (keys.skAi ++ keys.skEi) ∧ next.skpBuild = keys.skPr ∧ next.skpVerify = keys.skPi)) ∧
    (∀ (initiator responder : KeymatV2) (factory : CryptoFactory) (proposal : Proposal)
        (kes : List (Option (List UInt8))) (nonceI nonceR spiI spiR : List UInt8) (rekeyFunction : Nat)
        (rekeySkd : List UInt8) (initiatorNext responderNext : KeymatV2) (keysI keysR : IkeKeys),
      initiator.initiator = true → responder.initiator = false →
      initiator.deriveIkeKeys factory proposal kes nonceI nonceR spiI spiR rekeyFunction rekeySkd =
        some (initiatorNext, keysI) →
      responder.deriveIkeKeys factory proposal kes nonceI nonceR spiI spiR rekeyFunction rekeySkd =
        some (responderNext, keysR) →
      keysI = keysR ∧ initiatorNext.skd = responderNext.skd ∧
        initiatorNext.aeadOut = responderNext.aeadIn ∧ initiatorNext.aeadIn = responderNext.aeadOut ∧
        initiatorNext.skpBuild = responderNext.skpVerify ∧ initiatorNext.skpVerify = responderNext.skpBuild) := by
  refine ⟨getBytes_kdfPrfPlus, ?derivation, ?pair⟩
  case derivation =>
    intro this factory proposal kes nonceI nonceR spiI spiR rekeyFunction rekeySkd next keys derived
    obtain ⟨prfAlg, prfSize, prf, encAlg, encSize, integrityLength, encryptionLength, sk0, others, skeyseed,
      prfPlusPrf, foundPrf, created, foundEnc, lengths, listed, initial, rekey, slices, rfl⟩ :=
      derivedKeys_spec this factory proposal kes nonceI nonceR spiI spiR rekeyFunction rekeySkd next keys derived
    exact ⟨prfAlg, prfSize, prf, encAlg, encSize, integrityLength, encryptionLength, sk0, others, skeyseed,
      prfPlusPrf, foundPrf, created, foundEnc, lengths, listed, initial, rekey, slices, rfl,
      setKeys_of_initiator this prfAlg prf keys, setKeys_of_responder this prfAlg prf keys⟩
  case pair =>
    intro initiator responder factory proposal kes nonceI nonceR spiI spiR rekeyFunction rekeySkd
      initiatorNext responderNext keysI keysR isInitiator isResponder derivedI derivedR
    obtain ⟨prfAlg, prf, keysOfI, rfl⟩ := (deriveIkeKeys_eq_some_iff initiator factory proposal kes nonceI nonceR
      spiI spiR rekeyFunction rekeySkd initiatorNext keysI).mp derivedI
    obtain ⟨prfAlgR, prfR, keysOfR, rfl⟩ := (deriveIkeKeys_eq_some_iff responder factory proposal kes nonceI nonceR
      spiI spiR rekeyFunction rekeySkd responderNext keysR).mp derivedR
    -- the computation does not read the keymat, so both ends get one result
    rw [keysOfI, Option.some.injEq, Prod.mk.injEq, Prod.mk.injEq] at keysOfR
    obtain ⟨rfl, rfl, rfl⟩ := keysOfR
    exact ⟨rfl, rfl, setKeys_pair initiator responder prfAlg prf keysI isInitiator isResponder⟩

/-- A four-byte PRF to run the derivation with: the sums and the lengths of key and data. -/
def sumPrf : Prf where
  blockSize := 4
  keySize := 2
  apply key data := [key.foldl (· + ·) 0, data.foldl (· + ·) 0, UInt8.ofNat key.length, UInt8.ofNat data.length]
  length_apply _ _ := rfl

/-- A factory that knows `sumPrf` as PRF_HMAC_SHA2_256, with one-byte integrity and
two-byte encryption keys. -/
def sumFactory : CryptoFactory where
  createPrf alg := if alg = 5 then some sumPrf else none
  signerKeySize _ := some 1
  crypterKeySize _ _ := some 2
  aeadKeySize _ _ _ := some 3
  ivGenSupported _ := true

def initiatorKeymat : KeymatV2 := ⟨true, 0, none, [], [], [], none, none⟩

def responderKeymat : KeymatV2 := ⟨false, 0, none, [], [], [], none, none⟩

/-- SKEYSEED is `[18, 3, 4, 2]`, and the keys are the twelve bytes of `T1 | T2 | T3`. -/
def sumKeys : IkeKeys := ⟨[27, 34], [4], [7], [27, 107], [4, 11], [27, 185], [4, 11]⟩

theorem deriveIkeKeys_contract_sumPrf :
    initiatorKeymat.deriveIkeKeys sumFactory (ikeProposal []) [some [1, 2]] [3, 4] [5, 6] [7] [8] prfUndefined [] =
      some (initiatorKeymat.setKeys 5 sumPrf sumKeys, sumKeys) ∧
    (initiatorKeymat.setKeys 5 sumPrf sumKeys).aeadOut = (responderKeymat.setKeys 5 sumPrf sumKeys).aeadIn :=
  have derivedI : initiatorKeymat.deriveIkeKeys sumFactory (ikeProposal []) [some [1, 2]] [3, 4] [5, 6] [7] [8]
      prfUndefined [] = some (initiatorKeymat.setKeys 5 sumPrf sumKeys, sumKeys) := rfl
  have derivedR : responderKeymat.deriveIkeKeys sumFactory (ikeProposal []) [some [1, 2]] [3, 4] [5, 6] [7] [8]
      prfUndefined [] = some (responderKeymat.setKeys 5 sumPrf sumKeys, sumKeys) := rfl
  ⟨derivedI, (deriveIkeKeys_contract.2.2 initiatorKeymat responderKeymat sumFactory (ikeProposal []) [some [1, 2]]
    [3, 4] [5, 6] [7] [8] prfUndefined [] _ _ sumKeys sumKeys rfl rfl derivedI derivedR).2.2.1⟩

end StrongSwan.Libcharon.Sa.Ikev2
