import Mathlib
import StrongSwan.Libcharon.Encoding.Generator

/-!
Contract: how `parser.c` reads the attribute rules of `Generator`.

The parser reads from `byte_pos` up to `input_roof`, `input` here, and counts the bits of the
byte at `byte_pos` it has read in `bit_pos`. Each read checks first that enough input is left
and then that the bit position suits it, and fails with `PARSE_ERROR` otherwise; `none` here.
`parse_payload` keeps the format flag and the length it read last in two locals, and reads an
`ATTRIBUTE_VALUE` chunk of that length only when the flag is clear.

Owns: the parser's state and `parse_payload` over attribute rules, with one lemma for each read
of bytes the generator wrote, followed by any further input.
-/

namespace StrongSwan.Libcharon.Encoding

open StrongSwan.Foundations.Bytes

/-- `private_parser_t`: the input from `byte_pos` to `input_roof`, and `bit_pos`. -/
structure Parser where
  input : List UInt8
  bitPos : Nat

def parseBit (this : Parser) : Option (Bool × Parser) :=
  match this.input with
  | [] => none
  | byte :: rest =>
    let mask : UInt8 := 1 <<< (7 - this.bitPos).toUInt8
    let bitPos := (this.bitPos + 1) % 8
    some (byte &&& mask ≠ 0, { input := if bitPos = 0 then rest else byte :: rest, bitPos })

def parseUint15 (this : Parser) : Option (UInt16 × Parser) :=
  if this.input.length < 2 then none
  else if this.bitPos ≠ 1 then none
  else some ((ofBigEndian (this.input.take 2)).toUInt16 &&& ~~~0x8000, { input := this.input.drop 2, bitPos := 0 })

def parseUint16 (this : Parser) : Option (UInt16 × Parser) :=
  if this.input.length < 2 then none
  else if this.bitPos ≠ 0 then none
  else some ((ofBigEndian (this.input.take 2)).toUInt16, { this with input := this.input.drop 2 })

def parseChunk (this : Parser) (length : Nat) : Option (List UInt8 × Parser) :=
  if this.input.length < length then none
  else if this.bitPos ≠ 0 then none
  else some (this.input.take length, { this with input := this.input.drop length })

/-- The locals `parse_payload` carries from rule to rule. -/
structure ParseContext where
  attributeFormat : Bool
  attributeLength : Nat

/-- One rule of `parse_payload`, filling the field its offset names. -/
def parseRule {σ : Type} (state : Parser × ParseContext × σ) : EncodingRule σ → Option (Parser × ParseContext × σ)
  | .attributeFormat offset =>
    (parseBit state.1).map fun read =>
      (read.2, { state.2.1 with attributeFormat := read.1 }, offset.set state.2.2 read.1)
  | .attributeType offset =>
    (parseUint15 state.1).map fun read => (read.2, state.2.1, offset.set state.2.2 read.1)
  | .attributeLengthOrValue offset =>
    (parseUint16 state.1).map fun read =>
      (read.2, { state.2.1 with attributeLength := read.1.toNat }, offset.set state.2.2 read.1)
  | .attributeValue offset =>
    if state.2.1.attributeFormat = false then
      (parseChunk state.1 state.2.1.attributeLength).map fun read => (read.2, state.2.1, offset.set state.2.2 read.1)
    else some state

/-- The loop of `parse_payload` over the rules, stopping at the first that fails. -/
def parseRules {σ : Type} (state : Parser × ParseContext × σ) : List (EncodingRule σ) → Option (Parser × ParseContext × σ)
  | [] => some state
  | rule :: rules => (parseRule state rule).bind fun state => parseRules state rules

/-- `parse_payload` on a payload that `payload_create` gave: the filled payload and the parser
after it. -/
def parsePayload {σ : Type} (this : Parser) (rules : List (EncodingRule σ)) (payload : σ) : Option (σ × Parser) :=
  (parseRules (this, { attributeFormat := false, attributeLength := 0 }, payload) rules).map fun parsed =>
    (parsed.2.2, parsed.1)

theorem parseRules_nil {σ : Type} (state : Parser × ParseContext × σ) : parseRules state [] = some state := rfl

theorem parseRules_cons {σ : Type} (state : Parser × ParseContext × σ) (rule : EncodingRule σ)
    (rules : List (EncodingRule σ)) :
    parseRules state (rule :: rules) = (parseRule state rule).bind fun state => parseRules state rules := rfl

/-! ## Reading what the generator wrote -/

variable (rest : List UInt8)

/-- The format flag is the top bit of the first byte. -/
theorem parseBit_aligned (byte : UInt8) :
    parseBit ⟨byte :: rest, 0⟩ = some (decide (byte &&& 0x80 ≠ 0), ⟨byte :: rest, 1⟩) :=
  rfl

theorem parseUint15_bigEndian (value : Nat) :
    parseUint15 ⟨bigEndian 2 value ++ rest, 1⟩ = some (value.toUInt16 &&& ~~~0x8000, ⟨rest, 0⟩) := by
  have length : (bigEndian 2 value).length = 2 := length_bigEndian 2 value
  have reduced : (value % 256 ^ 2).toUInt16 = value.toUInt16 := by
    apply UInt16.toNat_inj.mp
    simp
  rw [parseUint15, if_neg (by simp only [List.length_append]; omega), if_neg (not_not_intro rfl),
    List.take_left' length, List.drop_left' length, ofBigEndian_bigEndian, reduced]

theorem parseUint16_bigEndian (value : UInt16) :
    parseUint16 ⟨bigEndian 2 value.toNat ++ rest, 0⟩ = some (value, ⟨rest, 0⟩) := by
  have length : (bigEndian 2 value.toNat).length = 2 := length_bigEndian 2 value.toNat
  rw [parseUint16, if_neg (by simp only [List.length_append]; omega), if_neg (not_not_intro rfl),
    List.take_left' length, List.drop_left' length, ofBigEndian_bigEndian,
    Nat.mod_eq_of_lt (show value.toNat < 256 ^ 2 from UInt16.toNat_lt value)]
  exact congrArg (fun word => some (word, (⟨rest, 0⟩ : Parser))) UInt16.ofNat_toNat

theorem parseChunk_aligned (chunk : List UInt8) :
    parseChunk ⟨chunk ++ rest, 0⟩ chunk.length = some (chunk, ⟨rest, 0⟩) := by
  rw [parseChunk, if_neg (by simp only [List.length_append]; omega), if_neg (not_not_intro rfl),
    List.take_left, List.drop_left]

/-- The top bit of a byte is set exactly when the byte is at least 128. -/
theorem topBit_ne_zero_iff (byte : UInt8) : byte &&& 0x80 ≠ 0 ↔ 128 ≤ byte.toNat := by
  have below := UInt8.toNat_lt byte
  rw [Ne, ← UInt8.toNat_inj, UInt8.toNat_and]
  show byte.toNat &&& 2 ^ 7 ≠ 0 ↔ _
  rw [Nat.and_two_pow, Nat.testBit_eq_decide_div_mod_eq]
  by_cases high : 128 ≤ byte.toNat
  · have bit : byte.toNat / 128 % 2 = 1 := by omega
    simp [bit, high]
  · have bit : byte.toNat / 128 % 2 = 0 := by omega
    simp [bit, high]

/-! ## The attribute rules on what the generator wrote for them -/

section Rules

variable {σ : Type} (context : ParseContext) (payload : σ)

/-- The format flag is bit 15 of the word the attribute starts with. -/
theorem parseRule_attributeFormat (word : Nat) (offset : Field σ Bool) :
    parseRule (⟨bigEndian 2 word ++ rest, 0⟩, context, payload) (.attributeFormat offset) =
      some (⟨bigEndian 2 word ++ rest, 1⟩, { context with attributeFormat := decide (32768 ≤ word % 65536) },
        offset.set payload (decide (32768 ≤ word % 65536))) := by
  have top : decide (UInt8.ofNat (word / 256) &&& 0x80 ≠ 0) = decide (32768 ≤ word % 65536) := by
    apply decide_eq_decide.mpr
    rw [topBit_ne_zero_iff]
    show 128 ≤ word / 256 % 256 ↔ _
    omega
  rw [parseRule]
  show (parseBit ⟨UInt8.ofNat (word / 256) :: ([UInt8.ofNat word] ++ rest), 0⟩).map _ = _
  rw [parseBit_aligned, Option.map_some, top]
  rfl

theorem parseRule_attributeType (word : Nat) (offset : Field σ UInt16) :
    parseRule (⟨bigEndian 2 word ++ rest, 1⟩, context, payload) (.attributeType offset) =
      some (⟨rest, 0⟩, context, offset.set payload (word.toUInt16 &&& ~~~0x8000)) := by
  rw [parseRule, parseUint15_bigEndian, Option.map_some]

theorem parseRule_attributeLengthOrValue (value : UInt16) (offset : Field σ UInt16) :
    parseRule (⟨bigEndian 2 value.toNat ++ rest, 0⟩, context, payload) (.attributeLengthOrValue offset) =
      some (⟨rest, 0⟩, { context with attributeLength := value.toNat }, offset.set payload value) := by
  rw [parseRule, parseUint16_bigEndian, Option.map_some]

/-- With the flag clear, the chunk as long as the length read before it. -/
theorem parseRule_attributeValue_of_clear (clear : context.attributeFormat = false) (chunk : List UInt8)
    (sized : context.attributeLength = chunk.length) (offset : Field σ (List UInt8)) :
    parseRule (⟨chunk ++ rest, 0⟩, context, payload) (.attributeValue offset) =
      some (⟨rest, 0⟩, context, offset.set payload chunk) := by
  rw [parseRule, if_pos clear]
  show (parseChunk ⟨chunk ++ rest, 0⟩ context.attributeLength).map _ = _
  rw [sized, parseChunk_aligned, Option.map_some]

/-- With the flag set, no chunk follows. -/
theorem parseRule_attributeValue_of_set (set : context.attributeFormat = true) (state : Parser)
    (offset : Field σ (List UInt8)) :
    parseRule (state, context, payload) (.attributeValue offset) = some (state, context, payload) := by
  rw [parseRule, if_neg (by rw [set]; exact Bool.true_eq_false.mp)]

end Rules

end StrongSwan.Libcharon.Encoding
