import Mathlib

/-!
Bit arrays packed into bytes, least significant bit first.

Bit `index` of a byte string lives in byte `index / 8` at position
`index % 8`. Setting or clearing it is an `|||` or an `&&& ~~~` with the
one-bit mask `1 <<< (index % 8)`, reading it is an `&&&` with the same mask.

Owns: the one-bit mask laws for `UInt8` and the read-after-write law of the
packed array, which is all that later proofs need to know about it.
-/

namespace StrongSwan.Foundations.PackedBits

/-- One-bit mask of position `position` in a byte. -/
def byteMask (position : Nat) : UInt8 := (1 : UInt8) <<< position.toUInt8

/-- Set (`set = true`) or clear one bit of a byte. -/
def byteWithBit (byte : UInt8) (position : Nat) (set : Bool) : UInt8 :=
  if set then byte ||| byteMask position else byte &&& ~~~byteMask position

/-- Test one bit of a byte. -/
def byteBit (byte : UInt8) (position : Nat) : Bool := byte &&& byteMask position != 0

theorem byteMask_toBitVec {position : Nat} (small : position < 8) :
    (byteMask position).toBitVec = BitVec.twoPow 8 position := by
  interval_cases position <;> rfl

/-- Reading a byte through its mask is the bit of its bit vector. -/
theorem byteBit_eq_getLsbD (byte : UInt8) {position : Nat} (small : position < 8) :
    byteBit byte position = byte.toBitVec.getLsbD position := by
  have masked : (byte &&& byteMask position).toBitVec =
      if byte.toBitVec.getLsbD position then BitVec.twoPow 8 position else 0 := by
    rw [UInt8.toBitVec_and, byteMask_toBitVec small, BitVec.and_twoPow]
    rfl
  have twoPowNonzero : BitVec.twoPow 8 position ≠ 0#8 := by
    intro isZero
    have bitOf := congrArg (fun vector => vector.getLsbD position) isZero
    simp [small] at bitOf
  cases bit : byte.toBitVec.getLsbD position
  · simp [byteBit, ← UInt8.toBitVec_inj, masked, bit]
  · simpa [byteBit, ← UInt8.toBitVec_inj, masked, bit] using twoPowNonzero

/-- Read-after-write inside one byte. -/
theorem byteBit_byteWithBit (byte : UInt8) {written read : Nat} (writtenSmall : written < 8)
    (readSmall : read < 8) (set : Bool) :
    byteBit (byteWithBit byte written set) read =
      if read = written then set else byteBit byte read := by
  rw [byteBit_eq_getLsbD _ readSmall, byteBit_eq_getLsbD _ readSmall]
  unfold byteWithBit
  by_cases same : read = written
  · subst same
    cases set <;> simp [byteMask_toBitVec writtenSmall, readSmall]
  · cases set <;> simp [byteMask_toBitVec writtenSmall, readSmall, same]

/-- Bit `index` of a packed byte string; bytes past the end read as zero. -/
def getBit (bytes : List UInt8) (index : Nat) : Bool :=
  byteBit (bytes.getD (index / 8) 0) (index % 8)

/-- Set or clear bit `index` of a packed byte string. -/
def setBit (bytes : List UInt8) (index : Nat) (set : Bool) : List UInt8 :=
  bytes.modify (index / 8) (fun byte => byteWithBit byte (index % 8) set)

@[simp] theorem length_setBit (bytes : List UInt8) (index : Nat) (set : Bool) :
    (setBit bytes index set).length = bytes.length := by
  simp [setBit]

/-- Read-after-write of a packed byte string, for a write inside it. -/
theorem getBit_setBit (bytes : List UInt8) {written : Nat} (read : Nat)
    (inside : written < 8 * bytes.length) (set : Bool) :
    getBit (setBit bytes written set) read =
      if read = written then set else getBit bytes read := by
  have byteInside : written / 8 < bytes.length := by omega
  unfold getBit setBit
  rw [List.getD_eq_getElem?_getD, List.getD_eq_getElem?_getD, List.getElem?_modify]
  by_cases sameByte : written / 8 = read / 8
  · have readInside : read / 8 < bytes.length := sameByte ▸ byteInside
    simp only [sameByte, if_true, List.getElem?_eq_getElem readInside, Option.map_eq_map,
      Option.map_some, Option.getD_some]
    rw [byteBit_byteWithBit _ (Nat.mod_lt _ (by decide)) (Nat.mod_lt _ (by decide))]
    by_cases same : read = written
    · simp [same]
    · have otherPosition : read % 8 ≠ written % 8 := by omega
      simp [same, otherPosition]
  · have differentIndex : read ≠ written := by
      intro same
      exact sameByte (by rw [same])
    simp [sameByte, differentIndex]

theorem getBit_replicate_zero (count index : Nat) :
    getBit (List.replicate count 0) index = false := by
  unfold getBit
  rw [List.getD_eq_getElem?_getD, List.getElem?_replicate]
  split <;> simp [byteBit]

end StrongSwan.Foundations.PackedBits
