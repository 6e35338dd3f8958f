import Mathlib
import StrongSwan.Libcharon.Encoding.Parser
import StrongSwan.Foundations.BitBlocks

/-!
Contract: a transform attribute created from a value survives generation and parsing.

`transform_attribute_create_value` keeps a value up to `UINT16_MAX` in the 16-bit
length-or-value field and sets the format flag (TV); a larger value goes into a chunk of 4
bytes, or of 8 above `UINT32_MAX`, in network order, with that length in the field (TLV).
`get_value` reads the field back, or the chunk right-aligned in eight bytes.

Owns: the attribute with its `encodings`, the bytes `generate_payload` writes for any attribute,
that `parse_payload` reads back every attribute whose chunk is as long as its length field says,
with the type cut to 15 bits, and that a created attribute comes back with its kind and value.
-/

namespace StrongSwan.Libcharon.Encoding.Payloads

open StrongSwan.Foundations.Bytes
open StrongSwan.Libcharon.Encoding

inductive PayloadType where
  | plv2TransformAttribute
  | plv1TransformAttribute
deriving DecidableEq

/-- `private_transform_attribute_t`. -/
structure TransformAttribute where
  attributeFormat : Bool
  attributeType : UInt16
  attributeLengthOrValue : UInt16
  attributeValue : List UInt8
  type : PayloadType
deriving DecidableEq

def encodings : List (EncodingRule TransformAttribute) :=
  [.attributeFormat ⟨TransformAttribute.attributeFormat, fun this value => { this with attributeFormat := value }⟩,
   .attributeType ⟨TransformAttribute.attributeType, fun this value => { this with attributeType := value }⟩,
   .attributeLengthOrValue
     ⟨TransformAttribute.attributeLengthOrValue, fun this value => { this with attributeLengthOrValue := value }⟩,
   .attributeValue ⟨TransformAttribute.attributeValue, fun this value => { this with attributeValue := value }⟩]

def getLength (this : TransformAttribute) : Nat :=
  if this.attributeFormat then 4 else this.attributeLengthOrValue.toNat + 4

def getValue (this : TransformAttribute) : UInt64 :=
  if this.attributeFormat then this.attributeLengthOrValue.toUInt64
  else if this.attributeValue.length > 8 then 0xFFFFFFFFFFFFFFFF
  else (ofBigEndian (List.replicate (8 - this.attributeValue.length) 0 ++ this.attributeValue)).toUInt64

def getAttributeType (this : TransformAttribute) : UInt16 := this.attributeType

def transformAttributeCreate (type : PayloadType) : TransformAttribute :=
  { attributeFormat := false, attributeType := 0, attributeLengthOrValue := 0, attributeValue := [], type }

def transformAttributeCreateValue (type : PayloadType) (kind : Nat) (value : UInt64) : TransformAttribute :=
  let this := { transformAttributeCreate type with attributeType := (kind &&& 0x7FFF).toUInt16 }
  if value ≤ 0xFFFF then { this with attributeLengthOrValue := value.toUInt16, attributeFormat := true }
  else if value ≤ 0xFFFFFFFF then { this with attributeValue := bigEndian 4 value.toNat, attributeLengthOrValue := 4 }
  else { this with attributeValue := bigEndian 8 value.toNat, attributeLengthOrValue := 8 }

/-- The first two bytes on the wire: the format flag on top of the type. -/
def formatAndType (this : TransformAttribute) : UInt16 :=
  (this.attributeType &&& 0x7FFF) ||| (if this.attributeFormat then 0x8000 else 0)

theorem generatePayload_encodings (this : TransformAttribute) {generator : Generator} (aligned : generator.currentBit = 0) :
    (generatePayload generator encodings this).buffer =
      generator.buffer ++ bigEndian 2 (formatAndType this).toNat ++ bigEndian 2 this.attributeLengthOrValue.toNat ++
        (if this.attributeFormat then [] else this.attributeValue) := by
  rw [encodings, generatePayload_cons, generateRule_attributeFormat this aligned, generatePayload_cons,
    generateRule_attributeType this rfl rfl, generatePayload_cons, generateRule_attributeLengthOrValue this rfl,
    generatePayload_cons, generateRule_attributeValue this rfl, generatePayload_nil]
  dsimp only
  rw [formatAndType]
  by_cases format : this.attributeFormat = true
  · simp only [format, ↓reduceIte, List.append_nil]
  · simp only [format, Bool.false_eq_true, ↓reduceIte]

example : getChunk (generatePayload generatorCreate encodings (transformAttributeCreateValue .plv2TransformAttribute 14 256)) =
    [0x80, 0x0e, 0x01, 0x00] := by
  decide

example : getChunk (generatePayload generatorCreate encodings (transformAttributeCreateValue .plv1TransformAttribute 12 86400)) =
    [0x00, 0x0c, 0x00, 0x04, 0x00, 0x01, 0x51, 0x80] := by
  decide

/-- An attribute whose chunk is as long as its length field says. -/
def WellFormed (this : TransformAttribute) : Prop :=
  this.attributeFormat = false → this.attributeValue.length = this.attributeLengthOrValue.toNat

/-- What the parser hands back of an attribute: the type cut to 15 bits, and no chunk in TV
format. -/
def onWire (this : TransformAttribute) : TransformAttribute :=
  { this with
    attributeType := this.attributeType &&& 0x7FFF
    attributeValue := if this.attributeFormat then [] else this.attributeValue }

theorem toNat_formatAndType (this : TransformAttribute) :
    (formatAndType this).toNat = this.attributeType.toNat % 32768 + (if this.attributeFormat then 32768 else 0) := by
  have typeBits : (this.attributeType &&& 0x7FFF).toNat = this.attributeType.toNat % 2 ^ 15 := by
    rw [UInt16.toNat_and]
    exact Nat.and_two_pow_sub_one_eq_mod _ 15
  rw [formatAndType, UInt16.toNat_or, typeBits]
  cases this.attributeFormat
  · exact Nat.or_zero _
  · exact lor_mul_two_pow_eq_add 1 15 (Nat.mod_lt _ (by decide))

/-- The flag the parser reads off the first word is the format flag. -/
theorem flag_formatAndType (this : TransformAttribute) :
    decide (32768 ≤ (formatAndType this).toNat % 65536) = this.attributeFormat := by
  rw [toNat_formatAndType]
  cases this.attributeFormat
  · rw [if_neg Bool.false_ne_true]
    exact decide_eq_false (by omega)
  · rw [if_pos rfl]
    exact decide_eq_true (by omega)

/-- The type the parser reads off the first word is the type cut to 15 bits. -/
theorem type_formatAndType (this : TransformAttribute) :
    (formatAndType this).toNat.toUInt16 &&& ~~~0x8000 = this.attributeType &&& 0x7FFF := by
  have low : ∀ word : UInt16, (word &&& ~~~0x8000).toNat = word.toNat % 2 ^ 15 := fun word => by
    rw [UInt16.toNat_and]
    exact Nat.and_two_pow_sub_one_eq_mod _ 15
  apply UInt16.toNat_inj.mp
  rw [low, show (0x7FFF : UInt16) = ~~~0x8000 from rfl, low, UInt16.toNat_ofNat', toNat_formatAndType]
  cases this.attributeFormat
  · rw [if_neg Bool.false_ne_true]
    omega
  · rw [if_pos rfl]
    omega

/-- `parse_payload` reads back what `generate_payload` wrote for a well-formed attribute, and
stops where the attribute ends. -/
theorem parsePayload_generatePayload (this : TransformAttribute) (wellFormed : WellFormed this)
    (rest : List UInt8) :
    parsePayload ⟨getChunk (generatePayload generatorCreate encodings this) ++ rest, 0⟩ encodings
        (transformAttributeCreate this.type) = some (onWire this, ⟨rest, 0⟩) := by
  rw [getChunk, generatePayload_encodings this rfl, show generatorCreate.buffer = [] from rfl, List.nil_append,
    List.append_assoc, List.append_assoc,
    parsePayload, encodings, parseRules_cons, parseRule_attributeFormat, Option.bind_some, flag_formatAndType,
    parseRules_cons, parseRule_attributeType, Option.bind_some, type_formatAndType, parseRules_cons,
    parseRule_attributeLengthOrValue, Option.bind_some, parseRules_cons]
  by_cases format : this.attributeFormat = true
  · rw [parseRule_attributeValue_of_set _ _ format, Option.bind_some, parseRules_nil, Option.map_some]
    simp only [onWire, format, ↓reduceIte, List.nil_append]
    rfl
  · have clear : this.attributeFormat = false := Bool.eq_false_iff.mpr format
    rw [if_neg format, parseRule_attributeValue_of_clear _ _ _ clear _ (wellFormed clear).symm, Option.bind_some,
      parseRules_nil, Option.map_some]
    simp only [onWire, format]
    rfl

/-! ## Attributes created from a value -/

section Created

variable (type : PayloadType) (kind : Nat) {value : UInt64}

theorem transformAttributeCreateValue_of_le_uint16 (small : value ≤ 0xFFFF) :
    transformAttributeCreateValue type kind value =
      ⟨true, (kind &&& 0x7FFF).toUInt16, value.toUInt16, [], type⟩ := by
  rw [transformAttributeCreateValue, if_pos small]
  rfl

theorem transformAttributeCreateValue_of_le_uint32 (large : ¬value ≤ 0xFFFF) (medium : value ≤ 0xFFFFFFFF) :
    transformAttributeCreateValue type kind value =
      ⟨false, (kind &&& 0x7FFF).toUInt16, 4, bigEndian 4 value.toNat, type⟩ := by
  rw [transformAttributeCreateValue, if_neg large, if_pos medium]
  rfl

theorem transformAttributeCreateValue_of_gt_uint32 (large : ¬value ≤ 0xFFFFFFFF) :
    transformAttributeCreateValue type kind value =
      ⟨false, (kind &&& 0x7FFF).toUInt16, 8, bigEndian 8 value.toNat, type⟩ := by
  have notSmall : ¬value ≤ 0xFFFF := fun small => large (UInt64.le_trans small (by decide))
  rw [transformAttributeCreateValue, if_neg notSmall, if_neg large]
  rfl

theorem wellFormed_transformAttributeCreateValue (value : UInt64) :
    WellFormed (transformAttributeCreateValue type kind value) := by
  by_cases small : value ≤ 0xFFFF
  · rw [transformAttributeCreateValue_of_le_uint16 type kind small]
    exact fun clear => absurd clear Bool.true_eq_false.mp
  by_cases medium : value ≤ 0xFFFFFFFF
  · rw [transformAttributeCreateValue_of_le_uint32 type kind small medium]
    exact fun _ => length_bigEndian 4 value.toNat
  · rw [transformAttributeCreateValue_of_gt_uint32 type kind medium]
    exact fun _ => length_bigEndian 8 value.toNat

/-- The 15-bit kind survives the parser's own cut to 15 bits. -/
theorem getAttributeType_onWire (kind : Nat) (format : Bool) (lengthOrValue : UInt16) (chunk : List UInt8) :
    getAttributeType (onWire ⟨format, (kind &&& 0x7FFF).toUInt16, lengthOrValue, chunk, type⟩) =
      (kind &&& 0x7FFF).toUInt16 := by
  have low : ∀ word : UInt16, (word &&& 0x7FFF).toNat = word.toNat % 2 ^ 15 := fun word => by
    rw [UInt16.toNat_and]
    exact Nat.and_two_pow_sub_one_eq_mod _ 15
  apply UInt16.toNat_inj.mp
  show ((kind &&& 0x7FFF).toUInt16 &&& 0x7FFF).toNat = _
  rw [low, UInt16.toNat_ofNat', show (0x7FFF : Nat) = 2 ^ 15 - 1 from rfl, Nat.and_two_pow_sub_one_eq_mod]
  omega

/-- A chunk of at most eight bytes reads back as its big-endian value. -/
theorem getValue_of_chunk (kind : Nat) (lengthOrValue : UInt16) (width : Nat) (fits : width ≤ 8) (value : UInt64)
    (below : value.toNat < 256 ^ width) :
    getValue (onWire ⟨false, (kind &&& 0x7FFF).toUInt16, lengthOrValue, bigEndian width value.toNat, type⟩) = value := by
  have length := length_bigEndian width value.toNat
  show (if false = true then _ else if (bigEndian width value.toNat).length > 8 then _
    else (ofBigEndian (List.replicate (8 - (bigEndian width value.toNat).length) 0 ++
      bigEndian width value.toNat)).toUInt64) = value
  rw [if_neg Bool.false_ne_true, if_neg (by omega), ofBigEndian_append, ofBigEndian_replicate_zero, Nat.zero_mul,
    Nat.zero_add, ofBigEndian_bigEndian, Nat.mod_eq_of_lt below]
  exact UInt64.ofNat_toNat

end Created

/-- An attribute created from a kind and a 64-bit value, generated and parsed again with any
further input behind it, comes back with the kind cut to 15 bits and with the value, in TV
format exactly when the value fits in 16 bits and with a 4- or 8-byte chunk otherwise. -/
theorem transformAttributeCreateValue_round_trip (type : PayloadType) (kind : Nat) (value : UInt64)
    (rest : List UInt8) :
    ∃ parsed, parsePayload ⟨getChunk (generatePayload generatorCreate encodings
          (transformAttributeCreateValue type kind value)) ++ rest, 0⟩ encodings (transformAttributeCreate type) =
        some (parsed, ⟨rest, 0⟩) ∧
      getAttributeType parsed = (kind &&& 0x7FFF).toUInt16 ∧ getValue parsed = value ∧
      parsed.attributeFormat = decide (value ≤ 0xFFFF) ∧
      parsed.attributeValue.length = (if value ≤ 0xFFFF then 0 else if value ≤ 0xFFFFFFFF then 4 else 8) := by
  have parses := parsePayload_generatePayload _ (wellFormed_transformAttributeCreateValue type kind value) rest
  refine ⟨onWire (transformAttributeCreateValue type kind value), ?_, ?_⟩
  · by_cases small : value ≤ 0xFFFF
    · rwa [transformAttributeCreateValue_of_le_uint16 type kind small] at parses ⊢
    by_cases medium : value ≤ 0xFFFFFFFF
    · rwa [transformAttributeCreateValue_of_le_uint32 type kind small medium] at parses ⊢
    · rwa [transformAttributeCreateValue_of_gt_uint32 type kind medium] at parses ⊢
  by_cases small : value ≤ 0xFFFF
  · rw [transformAttributeCreateValue_of_le_uint16 type kind small, getAttributeType_onWire, if_pos small,
      decide_eq_true small]
    refine ⟨rfl, ?_, rfl, rfl⟩
    -- TV: the value is the 16-bit field
    apply UInt64.toNat_inj.mp
    show value.toUInt16.toUInt64.toNat = value.toNat
    rw [UInt16.toNat_toUInt64, UInt64.toNat_toUInt16]
    exact Nat.mod_eq_of_lt (Nat.lt_succ_of_le (UInt64.le_iff_toNat_le.mp small))
  by_cases medium : value ≤ 0xFFFFFFFF
  · rw [transformAttributeCreateValue_of_le_uint32 type kind small medium, getAttributeType_onWire, if_neg small,
      if_pos medium, decide_eq_false small, getValue_of_chunk type kind 4 4 (by decide) value
        (Nat.lt_succ_of_le (UInt64.le_iff_toNat_le.mp medium))]
    exact ⟨rfl, rfl, rfl, length_bigEndian 4 value.toNat⟩
  · rw [transformAttributeCreateValue_of_gt_uint32 type kind medium, getAttributeType_onWire, if_neg small,
      if_neg medium, decide_eq_false small, getValue_of_chunk type kind 8 8 (le_refl 8) value (UInt64.toNat_lt value)]
    exact ⟨rfl, rfl, rfl, length_bigEndian 8 value.toNat⟩

end StrongSwan.Libcharon.Encoding.Payloads
