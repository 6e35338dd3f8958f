import Mathlib
import StrongSwan.Foundations.PrfPlus

/-!
Contract: the PRF-based key derivation functions of `kdf_kdf.c`.

`KDF_PRF` gives one PRF output; its parameters are swapped, as IKEv2 passes the
nonces as salt and the Diffie-Hellman secret as key, so that the PRF is keyed with
the salt. `KDF_PRF_PLUS` is `prf+` of RFC 7296 keyed with the key and seeded with
the salt. `getBytesPrfPlus_eq` says that `get_bytes_prf_plus` returns a prefix of
`prf+` of any length up to 255 blocks and fails beyond.

The PRF is any `Prf`; `set_key` and `get_bytes` of a `prf_t` always succeed here.

Does not own: `kdf_kdf_create`'s lookup of the PRF algorithm, `get_type`, and the
wiping of buffers.
-/

namespace StrongSwan.Libstrongswan.Plugins.KdfKdf

open StrongSwan.Foundations

inductive KeyDerivationFunction where
  | kdfPrf
  | kdfPrfPlus
deriving DecidableEq, Repr

inductive KdfParam where
  | kdfParamKey
  | kdfParamSalt
deriving DecidableEq, Repr

structure Kdf where
  type : KeyDerivationFunction
  prf : Prf
  /-- The key last set on the PRF. -/
  key : List UInt8
  salt : List UInt8

def sizeMax : Nat := 2 ^ 64 - 1

def kdfKdfCreate (type : KeyDerivationFunction) (prf : Prf) : Kdf := ⟨type, prf, [], []⟩

def Kdf.getLength (this : Kdf) : Nat :=
  match this.type with
  | .kdfPrfPlus => sizeMax
  | .kdfPrf => this.prf.blockSize

def Kdf.setParam (this : Kdf) (param : KdfParam) (value : List UInt8) : Kdf :=
  -- IKEv2 passes the nonces, received as salt, as PRF key and the DH secret as salt
  let param : KdfParam := match this.type, param with
    | .kdfPrf, .kdfParamKey => .kdfParamSalt
    | .kdfPrf, .kdfParamSalt => .kdfParamKey
    | .kdfPrfPlus, param => param
  match param with
  | .kdfParamKey => { this with key := value }
  | .kdfParamSalt => { this with salt := value }

/-- The loop of `get_bytes_prf_plus`: `remaining` bytes still to write after the block
`previous`, the counter of the next block. Its guard bounds the rounds by 255. -/
def prfPlusLoop (prf : Prf) (key salt : List UInt8) : Nat → Nat → List UInt8 → UInt8 → List UInt8
  | 0, _, _, _ => []
  | fuel + 1, remaining, previous, counter =>
    if remaining = 0 then []
    else
      let block := prf.apply key (previous ++ salt ++ [counter])
      let len := min remaining prf.blockSize
      -- `previous` points at the output just written, the whole block when a round follows
      block.take len ++ prfPlusLoop prf key salt fuel (remaining - len) block (counter + 1)

def Kdf.getBytesPrfPlus (this : Kdf) (outLen : Nat) : Option (List UInt8) :=
  if outLen > this.prf.blockSize * 255 then none
  else some (prfPlusLoop this.prf this.key this.salt 255 outLen [] 1)

def Kdf.getBytes (this : Kdf) (outLen : Nat) : Option (List UInt8) :=
  match this.type with
  | .kdfPrfPlus => this.getBytesPrfPlus outLen
  | .kdfPrf => if outLen ≠ this.getLength then none else some (this.prf.apply this.key this.salt)

def Kdf.allocateBytes (this : Kdf) (outLen : Nat) : Option (List UInt8) :=
  let outLen := if this.type = .kdfPrf ∧ outLen = 0 then this.getLength else outLen
  this.getBytes outLen

/-! ## `KDF_PRF_PLUS` is `prf+` -/

/-- Round by round the loop writes the blocks of `prf+`: from block `index` and the
counter after it, it writes a prefix of the blocks that follow. -/
theorem prfPlusLoop_eq_take_blocks (prf : Prf) (key salt : List UInt8) (fuel : Nat) :
    ∀ index remaining, remaining ≤ fuel * prf.blockSize →
      prfPlusLoop prf key salt fuel remaining (prf.block key salt index) (UInt8.ofNat (index + 1)) =
        (prf.blocks key salt (index + 1) fuel).take remaining := by
  induction fuel with
  | zero =>
    intro index remaining bounded
    have none : remaining = 0 := by simpa using bounded
    simp [prfPlusLoop, none]
  | succ fuel inductionHypothesis =>
    intro index remaining bounded
    by_cases done : remaining = 0
    · simp [prfPlusLoop, done]
    -- the block of this round is `T (index + 1)`, and the next counter belongs to `T (index + 2)`
    have counter : UInt8.ofNat (index + 1) + 1 = UInt8.ofNat (index + 1 + 1) := by
      simp only [UInt8.ofNat_add]
      rfl
    have rest := inductionHypothesis (index + 1) (remaining - min remaining prf.blockSize)
      (by rw [Nat.succ_mul] at bounded; omega)
    rw [Prf.take_blocks_succ]
    simp only [prfPlusLoop, done, if_false]
    rw [← Prf.block_succ, counter, rest]
    by_cases short : remaining ≤ prf.blockSize
    · -- the last round writes part of its block and nothing follows
      rw [Nat.min_eq_left short, Nat.sub_self, Nat.sub_eq_zero_of_le short]
    · -- a whole block, and more to come
      have whole : (prf.block key salt (index + 1)).take prf.blockSize = prf.block key salt (index + 1) :=
        List.take_of_length_le (Nat.le_of_eq (prf.length_block_succ key salt index))
      have all : (prf.block key salt (index + 1)).take remaining = prf.block key salt (index + 1) :=
        List.take_of_length_le (by rw [Prf.length_block_succ]; omega)
      rw [Nat.min_eq_right (by omega), whole, all]

theorem getBytesPrfPlus_eq (this : Kdf) (outLen : Nat) :
    this.getBytesPrfPlus outLen =
      if this.prf.blockSize * 255 < outLen then none
      else some ((this.prf.prfPlus this.key this.salt).take outLen) := by
  unfold Kdf.getBytesPrfPlus
  split_ifs with tooLong
  · rfl
  · have loop := prfPlusLoop_eq_take_blocks this.prf this.key this.salt 255 0 outLen
      (by rw [Nat.mul_comm]; omega)
    exact congrArg some loop

/-- `KDF_PRF_PLUS` keyed with `key` and seeded with `salt`. -/
theorem getBytes_kdfPrfPlus (prf : Prf) (key salt : List UInt8) (outLen : Nat) :
    (((kdfKdfCreate .kdfPrfPlus prf).setParam .kdfParamKey key).setParam .kdfParamSalt salt).getBytes outLen =
      if prf.blockSize * 255 < outLen then none else some ((prf.prfPlus key salt).take outLen) :=
  getBytesPrfPlus_eq _ outLen

theorem allocateBytes_kdfPrfPlus (prf : Prf) (key salt : List UInt8) (outLen : Nat) :
    (((kdfKdfCreate .kdfPrfPlus prf).setParam .kdfParamKey key).setParam .kdfParamSalt salt).allocateBytes outLen =
      if prf.blockSize * 255 < outLen then none else some ((prf.prfPlus key salt).take outLen) :=
  getBytes_kdfPrfPlus prf key salt outLen

/-- `KDF_PRF` given the secret as key and the nonces as salt is the PRF keyed with the
nonces, applied to the secret. -/
theorem allocateBytes_kdfPrf (prf : Prf) (secret nonces : List UInt8) :
    (((kdfKdfCreate .kdfPrf prf).setParam .kdfParamKey secret).setParam .kdfParamSalt nonces).allocateBytes 0 =
      some (prf.apply nonces secret) := by
  simp [Kdf.allocateBytes, Kdf.getBytes, Kdf.setParam, kdfKdfCreate, Kdf.getLength]

end StrongSwan.Libstrongswan.Plugins.KdfKdf
