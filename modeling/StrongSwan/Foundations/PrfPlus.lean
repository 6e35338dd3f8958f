import Mathlib.Data.List.Basic

/-!
A keyed pseudo-random function with a fixed output length, and the `prf+`
construction of RFC 7296, section 2.13, over it:

  prf+ (K, S) = T1 | T2 | T3 | ...
  T1 = prf (K, S | 0x01),  Ti = prf (K, T(i-1) | S | i)

Owns: `Prf`, its blocks `T i` and runs of consecutive blocks, with their lengths
and the rule that takes a prefix of a run block by block.
-/

namespace StrongSwan.Foundations

/-- A pseudo-random function of a key and data, each output `blockSize` bytes long. -/
structure Prf where
  blockSize : Nat
  keySize : Nat
  apply : List UInt8 → List UInt8 → List UInt8
  length_apply : ∀ key data, (apply key data).length = blockSize

namespace Prf

variable (prf : Prf) (key seed : List UInt8)

/-- `T index`; `T 0` is the empty string that `T 1` starts from. -/
def block : Nat → List UInt8
  | 0 => []
  | index + 1 => prf.apply key (block index ++ seed ++ [UInt8.ofNat (index + 1)])

/-- `T first | T (first + 1) | ...`, `count` blocks. -/
def blocks (first : Nat) : Nat → List UInt8
  | 0 => []
  | count + 1 => prf.block key seed first ++ blocks (first + 1) count

/-- `prf+ (K, S)` as far as its one-byte counter reaches. -/
def prfPlus : List UInt8 := prf.blocks key seed 1 255

@[simp] theorem block_succ (index : Nat) :
    prf.block key seed (index + 1) =
      prf.apply key (prf.block key seed index ++ seed ++ [UInt8.ofNat (index + 1)]) := rfl

theorem length_block_succ (index : Nat) : (prf.block key seed (index + 1)).length = prf.blockSize :=
  prf.length_apply _ _

theorem length_blocks_succ (first count : Nat) :
    (prf.blocks key seed (first + 1) count).length = count * prf.blockSize := by
  induction count generalizing first with
  | zero => rw [blocks, List.length_nil, Nat.zero_mul]
  | succ count inductionHypothesis =>
    rw [blocks, List.length_append, length_block_succ, inductionHypothesis, Nat.succ_mul, Nat.add_comm]

theorem length_prfPlus : (prf.prfPlus key seed).length = 255 * prf.blockSize :=
  prf.length_blocks_succ key seed 0 255

/-- A prefix of a run of blocks is a prefix of its first block, then of the rest. -/
theorem take_blocks_succ (first count remaining : Nat) :
    (prf.blocks key seed (first + 1) (count + 1)).take remaining =
      (prf.block key seed (first + 1)).take remaining ++
        (prf.blocks key seed (first + 1 + 1) count).take (remaining - prf.blockSize) := by
  rw [blocks, List.take_append, length_block_succ]

end Prf

end StrongSwan.Foundations
