import Mathlib
import StrongSwan.Foundations.Bytes

/-!
Contract: the encoding rules of transform attributes and how `generator.c` writes them.

A rule names an encoding type and, by its offset, a field of the payload struct; here the
offset is the field itself, with the type the C struct gives it. The rules modelled are those of
attributes: `ATTRIBUTE_FORMAT`, a flag the generator also keeps in its context;
`ATTRIBUTE_TYPE`, 15 bits after that flag; `ATTRIBUTE_LENGTH_OR_VALUE`, 16 bits; and
`ATTRIBUTE_VALUE`, a chunk written only when the kept flag is clear.

The generator writes bits into the byte at `out_position` and counts them in `current_bit`;
`buffer` holds the bytes before that position, which `get_chunk` hands out. The buffer grows as
needed, so `make_space_available` leaves nothing to model. A rule that finds the bit position
wrong is logged and skipped, as in the source.

Owns: `EncodingRule`, the generator's state and `generate_payload` over attribute rules, with
one lemma for each write at the bit position the attribute rules reach it.
-/

namespace StrongSwan.Libcharon.Encoding

open StrongSwan.Foundations.Bytes

/-- A field of a payload struct `σ` holding a `τ`: what a rule's offset points at. -/
structure Field (σ τ : Type) where
  get : σ → τ
  set : σ → τ → σ

/-- The encoding rules of attributes (`encodings.h`), each with the field it reads or fills. -/
inductive EncodingRule (σ : Type) where
  | attributeFormat (offset : Field σ Bool)
  | attributeType (offset : Field σ UInt16)
  | attributeLengthOrValue (offset : Field σ UInt16)
  | attributeValue (offset : Field σ (List UInt8))

/-- `private_generator_t`. -/
structure Generator where
  /-- The bytes before `out_position`. -/
  buffer : List UInt8
  /-- The byte at `out_position`, while `current_bit` of its bits are written. -/
  current : UInt8
  currentBit : Nat
  attributeFormat : Bool
  attributeLength : UInt16

/-- `generator_create`; the byte at `out_position` is not read before it is first written. -/
def generatorCreate : Generator :=
  { buffer := [], current := 0, currentBit := 0, attributeFormat := false, attributeLength := 0 }

/-- The integer encoding types `generate_u_int_type` writes for attribute rules. -/
inductive UIntType where
  | uInt16
  | attributeType

def generateUIntType (this : Generator) (intType : UIntType) (value : UInt16) : Generator :=
  match intType with
  | .uInt16 =>
    if this.currentBit ≠ 0 then this
    else { this with buffer := this.buffer ++ bigEndian 2 value.toNat }
  | .attributeType =>
    if this.currentBit ≠ 1 then this
    else
      let attributeFormatFlag := this.current &&& 0x80
      let val := (value &&& 0x7FFF) ||| (if attributeFormatFlag ≠ 0 then 0x8000 else 0)
      -- the two bytes overwrite the byte that holds the flag
      { this with buffer := this.buffer ++ bigEndian 2 val.toNat, currentBit := 0 }

def generateFlag (this : Generator) (flagValue : Bool) : Generator :=
  let flag : UInt8 := (if flagValue then 1 else 0) <<< (7 - this.currentBit).toUInt8
  let current := (if this.currentBit = 0 then 0 else this.current) ||| flag
  if this.currentBit + 1 ≥ 8 then
    { this with buffer := this.buffer ++ [current], current, currentBit := (this.currentBit + 1) % 8 }
  else { this with current, currentBit := this.currentBit + 1 }

def generateFromChunk (this : Generator) (value : List UInt8) : Generator :=
  if this.currentBit ≠ 0 then this else { this with buffer := this.buffer ++ value }

/-- One rule of `generate_payload`. -/
def generateRule {σ : Type} (payload : σ) (this : Generator) : EncodingRule σ → Generator
  | .attributeFormat offset =>
    { generateFlag this (offset.get payload) with attributeFormat := offset.get payload }
  | .attributeType offset => generateUIntType this .attributeType (offset.get payload)
  | .attributeLengthOrValue offset =>
    if this.attributeFormat then generateUIntType this .uInt16 (offset.get payload)
    else { generateUIntType this .uInt16 (offset.get payload) with attributeLength := offset.get payload }
  | .attributeValue offset => if !this.attributeFormat then generateFromChunk this (offset.get payload) else this

def generatePayload {σ : Type} (this : Generator) (rules : List (EncodingRule σ)) (payload : σ) : Generator :=
  rules.foldl (generateRule payload) this

/-- `get_chunk`. -/
def getChunk (this : Generator) : List UInt8 := this.buffer

theorem generatePayload_nil {σ : Type} (this : Generator) (payload : σ) : generatePayload this [] payload = this :=
  rfl

theorem generatePayload_cons {σ : Type} (this : Generator) (rule : EncodingRule σ) (rules : List (EncodingRule σ))
    (payload : σ) :
    generatePayload this (rule :: rules) payload = generatePayload (generateRule payload this rule) rules payload :=
  rfl

/-! ## The writes at the positions attribute rules reach them -/

section Writes

variable {this : Generator}

/-- A flag at a byte boundary starts a fresh byte with it as the top bit. -/
theorem generateFlag_aligned (aligned : this.currentBit = 0) (flagValue : Bool) :
    generateFlag this flagValue = { this with current := if flagValue then 0x80 else 0, currentBit := 1 } := by
  have top : ((0 : UInt8) ||| 1 <<< (7 - 0 : Nat).toUInt8) = 0x80 := by decide
  have none : ((0 : UInt8) ||| 0 <<< (7 - 0 : Nat).toUInt8) = 0 := by decide
  rw [generateFlag, aligned, if_neg (by decide), if_pos rfl]
  cases flagValue
  · rw [if_neg Bool.false_ne_true, none, if_neg Bool.false_ne_true]
  · rw [if_pos rfl, top, if_pos rfl]

theorem generateUIntType_uInt16 (aligned : this.currentBit = 0) (value : UInt16) :
    generateUIntType this .uInt16 value = { this with buffer := this.buffer ++ bigEndian 2 value.toNat } := by
  rw [generateUIntType, if_neg (not_not_intro aligned)]

/-- The attribute type after the flag: the flag becomes the top bit of the 16-bit word. -/
theorem generateUIntType_attributeType (afterFlag : this.currentBit = 1) (flagValue : Bool)
    (flagged : this.current = if flagValue then 0x80 else 0) (value : UInt16) :
    generateUIntType this .attributeType value =
      { this with
        buffer := this.buffer ++ bigEndian 2 ((value &&& 0x7FFF) ||| (if flagValue then 0x8000 else 0)).toNat
        currentBit := 0 } := by
  rw [generateUIntType, if_neg (not_not_intro afterFlag), flagged]
  cases flagValue <;> rfl

theorem generateFromChunk_aligned (aligned : this.currentBit = 0) (value : List UInt8) :
    generateFromChunk this value = { this with buffer := this.buffer ++ value } := by
  rw [generateFromChunk, if_neg (not_not_intro aligned)]

end Writes

/-! ## The attribute rules in the order an attribute's encodings give them -/

section Rules

variable {σ : Type} (payload : σ) {this : Generator}

theorem generateRule_attributeFormat (aligned : this.currentBit = 0) (offset : Field σ Bool) :
    generateRule payload this (.attributeFormat offset) =
      { this with
        current := if offset.get payload then 0x80 else 0
        currentBit := 1
        attributeFormat := offset.get payload } := by
  rw [generateRule, generateFlag_aligned aligned]

theorem generateRule_attributeType (afterFlag : this.currentBit = 1)
    (flagged : this.current = if this.attributeFormat then 0x80 else 0) (offset : Field σ UInt16) :
    generateRule payload this (.attributeType offset) =
      { this with
        buffer := this.buffer ++
          bigEndian 2 ((offset.get payload &&& 0x7FFF) ||| (if this.attributeFormat then 0x8000 else 0)).toNat
        currentBit := 0 } := by
  rw [generateRule, generateUIntType_attributeType afterFlag this.attributeFormat flagged]

/-- The length or value field; only a length is kept for the value chunk. -/
theorem generateRule_attributeLengthOrValue (aligned : this.currentBit = 0) (offset : Field σ UInt16) :
    generateRule payload this (.attributeLengthOrValue offset) =
      { this with
        buffer := this.buffer ++ bigEndian 2 (offset.get payload).toNat
        attributeLength := if this.attributeFormat then this.attributeLength else offset.get payload } := by
  rw [generateRule, generateUIntType_uInt16 aligned]
  cases this.attributeFormat <;> rfl

theorem generateRule_attributeValue (aligned : this.currentBit = 0) (offset : Field σ (List UInt8)) :
    generateRule payload this (.attributeValue offset) =
      if this.attributeFormat then this else { this with buffer := this.buffer ++ offset.get payload } := by
  rw [generateRule, generateFromChunk_aligned aligned]
  cases this.attributeFormat <;> rfl

end Rules

end StrongSwan.Libcharon.Encoding
