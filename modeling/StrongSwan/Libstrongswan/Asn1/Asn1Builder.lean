import StrongSwan.Foundations.BitBlocks
import StrongSwan.Libstrongswan.Asn1.Asn1

/-!
Contract: the DER builders of `asn1.c`, and what the two length readers make of
what they build.

`asn1_code_length` writes a length in one of four forms, by the thresholds 128,
256 and 65536; `asn1_build_object` puts a tag in front of it, and
`asn1_simple_object` and `asn1_wrap` write the content after it. For every
length below `2 ^ 24` the octets are length octets in the sense of
`LengthOctets`, so `asn1_unwrap` and `asn1_length` read every such object back
(`asn1Unwrap_asn1SimpleObject`, `asn1Length_asn1SimpleObject`).

`asn1_integer_from_uint64` writes the bytes of a 64-bit value without leading
zero bytes, `asn1_integer` puts a zero byte in front of a content whose first
bit is set, and `asn1_parse_integer_uint64` shifts the content bytes into a
64-bit value. Together they write the DER integer of the value (`DerMinimal`,
`twosComplement`) and read it back.

Does not own: the memory the builders allocate and free (the mode strings of
`asn1_wrap` and `asn1_integer` only choose which chunks are freed), and the
other object builders of `asn1.c`.
-/

namespace StrongSwan.Libstrongswan.Asn1

open StrongSwan.Foundations.Bytes

/-- `asn1_code_length`: the length octets of a content of `length` bytes. Lengths from
`2 ^ 24` on keep only their low 24 bits, as the C code writes them. -/
def asn1CodeLength (length : Nat) : List UInt8 :=
  if length < 128 then [UInt8.ofNat length]
  else if length < 256 then [0x81, UInt8.ofNat length]
  else if length < 65536 then [0x82, UInt8.ofNat (length >>> 8), UInt8.ofNat (length &&& 0xff)]
  else [0x83, UInt8.ofNat (length >>> 16), UInt8.ofNat ((length >>> 8) &&& 0xff), UInt8.ofNat (length &&& 0xff)]

/-- `asn1_build_object`: the tag and the length octets of an object of `datalen` content
bytes, which the caller writes after them. -/
def asn1BuildObject (type : UInt8) (datalen : Nat) : List UInt8 :=
  type :: asn1CodeLength datalen

def asn1SimpleObject (tag : UInt8) (content : List UInt8) : List UInt8 :=
  asn1BuildObject tag content.length ++ content

/-- `asn1_wrap`: one object around as many chunks as the mode string has letters, in order. -/
def asn1Wrap (type : UInt8) (mode : List Char) (chunks : List (List UInt8)) : List UInt8 :=
  let chunks := chunks.take mode.length
  asn1BuildObject type (chunks.map List.length).sum ++ chunks.flatten

/-- `asn1_integer`: an INTEGER object around `content`; an empty content is the zero byte,
and a content whose first bit is set gets a zero byte in front. -/
def asn1IntegerObject (content : List UInt8) : List UInt8 :=
  let content := if content = [] then [0x00] else content
  let len := content.length + if content.headD 0 &&& 0x80 ≠ 0 then 1 else 0
  asn1BuildObject asn1Integer len ++ if len > content.length then 0x00 :: content else content

/-- The loop of `asn1_integer_from_uint64`: the low byte of `val` goes in front of what the
buffer holds, until `val` is zero; `sizeof(val)` rounds suffice (`fillFromEnd_spec`). -/
def fillFromEnd : Nat → UInt64 → List UInt8 → List UInt8
  | 0, _, enc => enc
  | rounds + 1, val, enc =>
    if val = 0 then enc else fillFromEnd rounds (val >>> 8) ((val &&& 0xff).toUInt8 :: enc)

def asn1IntegerFromUint64 (val : UInt64) : List UInt8 :=
  if val < 0x100 then [val.toUInt8] else fillFromEnd 8 val []

/-- `asn1_parse_integer_uint64`: of a content longer than eight bytes the last eight stay. -/
def asn1ParseIntegerUint64 (blob : List UInt8) : UInt64 :=
  blob.foldl (fun val byte => (val <<< 8) ||| byte.toUInt64) 0

/-! ## The length octets -/

theorem toNat_ofNat_of_lt {length : Nat} (below : length < 256) : (UInt8.ofNat length).toNat = length := by
  simp [Nat.mod_eq_of_lt below]

theorem toNat_low_byte (length : Nat) : (UInt8.ofNat (length &&& 0xff)).toNat = length % 256 := by
  have low : length &&& 0xff = length % 2 ^ 8 := Nat.and_two_pow_sub_one_eq_mod length 8
  simp [low]

/-- Every length below `2 ^ 24` is coded as length octets that announce it. -/
theorem lengthOctets_asn1CodeLength {length : Nat} (below : length < 2 ^ 24) :
    LengthOctets (asn1CodeLength length) length := by
  have shifted : length >>> 8 = length / 256 := Nat.shiftRight_eq_div_pow length 8
  unfold asn1CodeLength
  split_ifs with short oneOctet twoOctets
  · have value := toNat_ofNat_of_lt (show length < 256 by omega)
    simp only [LengthOctets, (and_highBit_eq_zero_iff (UInt8.ofNat length)).mpr (by omega), if_true,
      value, true_and]
  · simp only [LengthOctets, show ¬((0x81 : UInt8) &&& 0x80 = 0) by decide, if_false,
      show ((0x81 : UInt8) &&& 0x7f).toNat = 1 from rfl, ofBigEndian_cons, ofBigEndian_nil,
      toNat_ofNat_of_lt (show length < 256 by omega), List.length_cons, List.length_nil, true_and,
      Nat.pow_zero, Nat.mul_one, Nat.add_zero]
    decide
  · have high : (UInt8.ofNat (length >>> 8)).toNat = length / 256 := by
      rw [shifted, toNat_ofNat_of_lt (by omega)]
    simp only [LengthOctets, show ¬((0x82 : UInt8) &&& 0x80 = 0) by decide, if_false,
      show ((0x82 : UInt8) &&& 0x7f).toNat = 2 from rfl, ofBigEndian_cons, ofBigEndian_nil, high,
      toNat_low_byte, List.length_cons, List.length_nil, true_and, Nat.pow_zero, Nat.mul_one,
      Nat.add_zero]
    omega
  · have high : (UInt8.ofNat (length >>> 16)).toNat = length / 65536 := by
      rw [Nat.shiftRight_eq_div_pow, toNat_ofNat_of_lt (by omega)]
    simp only [LengthOctets, show ¬((0x83 : UInt8) &&& 0x80 = 0) by decide, if_false,
      show ((0x83 : UInt8) &&& 0x7f).toNat = 3 from rfl, ofBigEndian_cons, ofBigEndian_nil, high,
      toNat_low_byte, shifted, List.length_cons, List.length_nil, true_and, Nat.pow_zero, Nat.mul_one,
      Nat.add_zero]
    omega

example : asn1CodeLength 300 = [0x82, 0x01, 0x2c] := by decide

/-! ## Objects read back -/

section Objects

variable {tag : UInt8} {content : List UInt8}

theorem asn1Unwrap_asn1SimpleObject (below : content.length < 2 ^ 24) (rest : List UInt8) :
    asn1Unwrap (asn1SimpleObject tag content ++ rest) = some (tag, content, rest) :=
  asn1Unwrap_eq_some_iff.mpr ⟨_, lengthOctets_asn1CodeLength below, by simp [asn1SimpleObject, asn1BuildObject]⟩

theorem asn1Length_asn1SimpleObject (below : content.length < 2 ^ 24) :
    asn1Length (asn1SimpleObject tag content) ⟨0, (asn1SimpleObject tag content).length⟩ =
      (content.length, ⟨1 + (asn1CodeLength content.length).length, content.length⟩) := by
  have read := @asn1Length_of_lengthOctets [] (asn1CodeLength content.length) content [] tag
    (lengthOctets_asn1CodeLength below)
  simpa [asn1SimpleObject, asn1BuildObject, Nat.add_comm, Nat.add_left_comm] using read

/-- `asn1_wrap` builds the simple object of the chunks' concatenation. -/
theorem asn1Wrap_eq (type : UInt8) (mode : List Char) (chunks : List (List UInt8))
    (counted : mode.length = chunks.length) :
    asn1Wrap type mode chunks = asn1SimpleObject type chunks.flatten := by
  simp [asn1Wrap, asn1SimpleObject, counted, List.length_flatten]

end Objects

/-! ## Integers -/

/-- The value of INTEGER content octets in two's complement. -/
def twosComplement (content : List UInt8) : Int :=
  ofBigEndian content - if content.headD 0 &&& 0x80 = 0 then 0 else 2 ^ (8 * content.length)

/-- X.690 8.3.2: INTEGER content octets are not empty, and when there are more than one, the
first nine bits are neither all zeros nor all ones. -/
def DerMinimal : List UInt8 → Prop
  | [] => False
  | [_] => True
  | first :: second :: _ => ¬(first = 0x00 ∧ second &&& 0x80 = 0) ∧ ¬(first = 0xff ∧ second &&& 0x80 ≠ 0)

instance instDecidableDerMinimal : (content : List UInt8) → Decidable (DerMinimal content)
  | [] => isFalse fun minimal => minimal
  | [_] => isTrue trivial
  | _ :: _ :: _ => inferInstanceAs (Decidable (¬_ ∧ ¬_))

/-- The bytes of a value with no leading zero byte. -/
def Unpadded (bytes : List UInt8) (value : Nat) : Prop :=
  ofBigEndian bytes = value ∧ bytes.head? ≠ some 0

theorem fillFromEnd_spec (rounds : Nat) :
    ∀ (val : UInt64) (enc : List UInt8), val.toNat < 2 ^ (8 * rounds) →
      ∃ bytes, fillFromEnd rounds val enc = bytes ++ enc ∧ Unpadded bytes val.toNat ∧
        bytes.length ≤ rounds := by
  induction rounds with
  | zero =>
    intro val enc below
    refine ⟨[], rfl, ⟨?_, by simp⟩, le_refl _⟩
    simp only [Nat.mul_zero, Nat.pow_zero] at below
    simp [ofBigEndian]
    omega
  | succ rounds inductionHypothesis =>
    intro val enc below
    by_cases zero : val = 0
    · exact ⟨[], by simp [fillFromEnd, zero], ⟨by simp [ofBigEndian, zero], by simp⟩, Nat.zero_le _⟩
    have shifted : (val >>> 8).toNat = val.toNat / 256 := by simp [Nat.shiftRight_eq_div_pow]
    have lowByte : (val &&& 0xff).toUInt8.toNat = val.toNat % 256 := by
      rw [UInt64.toNat_toUInt8, UInt64.toNat_and, show (0xff : UInt64).toNat = 2 ^ 8 - 1 from rfl,
        Nat.and_two_pow_sub_one_eq_mod]
      omega
    have positive : 0 < val.toNat := by
      rw [Nat.pos_iff_ne_zero, Ne, ← UInt64.toNat_zero, UInt64.toNat_inj]
      exact zero
    obtain ⟨bytes, filled, ⟨value, noZero⟩, short⟩ := inductionHypothesis (val >>> 8)
      ((val &&& 0xff).toUInt8 :: enc) (by rw [shifted, Nat.mul_succ, Nat.pow_add] at *; omega)
    refine ⟨bytes ++ [(val &&& 0xff).toUInt8], ?_, ⟨?_, ?_⟩, by simp; omega⟩
    · rw [fillFromEnd, if_neg zero, filled, List.append_assoc, List.singleton_append]
    · rw [ofBigEndian_append_singleton, value, shifted, lowByte]
      omega
    · -- the new byte leads only when nothing above it is left, and then it is the whole value
      cases bytes with
      | nil =>
        rw [ofBigEndian_nil, shifted] at value
        simp only [List.nil_append, List.head?_cons, Ne, Option.some.injEq, ← UInt8.toNat_inj,
          lowByte, UInt8.toNat_zero]
        omega
      | cons first rest => simpa using noZero

theorem asn1IntegerFromUint64_spec (val : UInt64) :
    asn1IntegerFromUint64 val ≠ [] ∧ (asn1IntegerFromUint64 val).length ≤ 8 ∧
      ofBigEndian (asn1IntegerFromUint64 val) = val.toNat ∧
      ((asn1IntegerFromUint64 val).length = 1 ∨ (asn1IntegerFromUint64 val).head? ≠ some 0) := by
  unfold asn1IntegerFromUint64
  split_ifs with small
  · have single : (val.toUInt8).toNat = val.toNat := by
      have below : val.toNat < 256 := UInt64.lt_iff_toNat_lt.mp small
      rw [UInt64.toNat_toUInt8]
      omega
    exact ⟨by simp, by simp, by simp [ofBigEndian, single], Or.inl rfl⟩
  · obtain ⟨bytes, filled, ⟨value, noZero⟩, short⟩ := fillFromEnd_spec 8 val [] val.toNat_lt
    rw [List.append_nil] at filled
    rw [filled]
    have notSmall : 0x100 ≤ val.toNat := by
      rw [UInt64.lt_iff_toNat_lt] at small
      exact Nat.le_of_not_lt small
    refine ⟨?_, short, value, Or.inr noZero⟩
    rintro rfl
    simp [ofBigEndian] at value
    omega

/-- Shifting bytes into a 64-bit value keeps the value of the last eight. -/
theorem toNat_foldl_shift (bytes : List UInt8) :
    ∀ val : UInt64, (bytes.foldl (fun (val : UInt64) byte => (val <<< 8) ||| byte.toUInt64) val).toNat =
      (val.toNat * 256 ^ bytes.length + ofBigEndian bytes) % 2 ^ 64 := by
  induction bytes with
  | nil => intro val; simp [ofBigEndian, Nat.mod_eq_of_lt val.toNat_lt]
  | cons byte rest inductionHypothesis =>
    intro val
    have step : ((val <<< 8) ||| byte.toUInt64).toNat = (val.toNat * 256 + byte.toNat) % 2 ^ 64 := by
      have shiftedBelow : (val <<< 8).toNat = val.toNat % 2 ^ 56 * 2 ^ 8 := by
        rw [UInt64.toNat_shiftLeft, Nat.shiftLeft_eq, show (8 : UInt64).toNat % 64 = 8 from rfl,
          show 2 ^ 64 = 2 ^ 56 * 2 ^ 8 from rfl, Nat.mul_mod_mul_right]
      have byteBelow := byte.toNat_lt
      rw [UInt64.toNat_or, shiftedBelow, UInt8.toNat_toUInt64, Nat.lor_comm,
        lor_mul_two_pow_eq_add _ _ byte.toNat_lt]
      omega
    rw [List.foldl_cons, inductionHypothesis, step, ofBigEndian_cons, List.length_cons, Nat.pow_succ]
    have restBelow := ofBigEndian_lt rest
    rw [Nat.add_mod, Nat.mul_mod, Nat.mod_mod, ← Nat.mul_mod, ← Nat.add_mod]
    congr 1
    ring

/-- `asn1_integer` on a content that is not empty is the simple INTEGER object of the
content, with a zero byte in front when its first bit is set. -/
theorem asn1IntegerObject_eq {content : List UInt8} (notEmpty : content ≠ []) :
    asn1IntegerObject content =
      asn1SimpleObject asn1Integer (if content.headD 0 &&& 0x80 ≠ 0 then 0x00 :: content else content) := by
  unfold asn1IntegerObject asn1SimpleObject
  simp only [notEmpty, if_false]
  split_ifs <;> simp_all

/-- A zero byte in front of unpadded bytes whose first bit is set gives DER content octets of
the same value, with the sign bit clear. -/
theorem signPadded_spec {bytes : List UInt8} (notEmpty : bytes ≠ [])
    (unpadded : bytes.length = 1 ∨ bytes.head? ≠ some 0) :
    DerMinimal (if bytes.headD 0 &&& 0x80 ≠ 0 then 0x00 :: bytes else bytes) ∧
      (if bytes.headD 0 &&& 0x80 ≠ 0 then 0x00 :: bytes else bytes).headD 0 &&& 0x80 = 0 ∧
      ofBigEndian (if bytes.headD 0 &&& 0x80 ≠ 0 then 0x00 :: bytes else bytes) = ofBigEndian bytes ∧
      (if bytes.headD 0 &&& 0x80 ≠ 0 then 0x00 :: bytes else bytes).length ≤ bytes.length + 1 := by
  obtain ⟨first, rest, rfl⟩ := List.exists_cons_of_ne_nil notEmpty
  by_cases signBit : first &&& 0x80 = 0
  · rw [if_neg (show ¬((first :: rest).headD 0 &&& 0x80 ≠ 0) from not_not.mpr signBit)]
    refine ⟨?_, signBit, rfl, by omega⟩
    cases rest with
    | nil => trivial
    | cons second _ =>
      have nonZero : first ≠ 0 := by simpa using unpadded
      have notAllOnes : first ≠ 0xff := fun allOnes => by rw [allOnes] at signBit; exact absurd signBit (by decide)
      exact ⟨fun zero => nonZero zero.1, fun allOnes => notAllOnes allOnes.1⟩
  · rw [if_pos (show (first :: rest).headD 0 &&& 0x80 ≠ 0 from signBit)]
    refine ⟨⟨fun zero => signBit zero.2, fun allOnes => absurd allOnes.1 (by decide)⟩,
      (by decide : (0 : UInt8) &&& 0x80 = 0), ?_, by simp⟩
    rw [ofBigEndian_cons, UInt8.toNat_zero, Nat.zero_mul, Nat.zero_add]

/-- `asn1_integer` of `asn1_integer_from_uint64` writes the DER integer of every 64-bit
value, in the short length form, and `asn1_unwrap` and `asn1_parse_integer_uint64` read the
value back. -/
theorem asn1Integer_asn1IntegerFromUint64 (value : UInt64) :
    ∃ content, asn1IntegerObject (asn1IntegerFromUint64 value) = asn1SimpleObject asn1Integer content ∧
      content.length ≤ 9 ∧ DerMinimal content ∧ twosComplement content = value.toNat ∧
      (value = 0 → content = [0x00]) ∧
      asn1Unwrap (asn1IntegerObject (asn1IntegerFromUint64 value)) = some (asn1Integer, content, []) ∧
      asn1ParseIntegerUint64 content = value := by
  obtain ⟨notEmpty, short, bytesValue, unpadded⟩ := asn1IntegerFromUint64_spec value
  obtain ⟨minimal, signClear, paddedValue, paddedLength⟩ := signPadded_spec notEmpty unpadded
  have zero : value = 0 → (if (asn1IntegerFromUint64 value).headD 0 &&& 0x80 ≠ 0 then
      0x00 :: asn1IntegerFromUint64 value else asn1IntegerFromUint64 value) = [0x00] := by
    rintro rfl
    decide
  rw [asn1IntegerObject_eq notEmpty]
  generalize (if (asn1IntegerFromUint64 value).headD 0 &&& 0x80 ≠ 0 then 0x00 :: asn1IntegerFromUint64 value
    else asn1IntegerFromUint64 value) = content at minimal signClear paddedValue paddedLength zero ⊢
  refine ⟨content, rfl, by omega, minimal, ?_, zero, ?_, ?_⟩
  · rw [twosComplement, if_pos signClear, paddedValue, bytesValue]
    simp
  · have unwrapped := @asn1Unwrap_asn1SimpleObject asn1Integer content (by omega) []
    rwa [List.append_nil] at unwrapped
  · rw [← UInt64.toNat_inj, asn1ParseIntegerUint64, toNat_foldl_shift, UInt64.toNat_zero, Nat.zero_mul,
      Nat.zero_add, paddedValue, bytesValue]
    exact Nat.mod_eq_of_lt value.toNat_lt

example : asn1IntegerObject (asn1IntegerFromUint64 0x80) = [0x02, 0x02, 0x00, 0x80] := by decide

example : asn1IntegerObject (asn1IntegerFromUint64 0x0100) = [0x02, 0x02, 0x01, 0x00] := by decide

/-- `asn1_unwrap` and `asn1_length` read back every simple object and every wrapped object
of fewer than `2 ^ 24` content bytes; and `asn1_unwrap` succeeds exactly on a tag, length
octets and as many bytes as they announce, which are then the content. -/
theorem asn1Unwrap_asn1SimpleObject_asn1Wrap :
    (∀ (tag : UInt8) (content : List UInt8), content.length < 2 ^ 24 →
      asn1Unwrap (asn1SimpleObject tag content) = some (tag, content, []) ∧
        asn1Length (asn1SimpleObject tag content) ⟨0, (asn1SimpleObject tag content).length⟩ =
          (content.length, ⟨1 + (asn1CodeLength content.length).length, content.length⟩)) ∧
    (∀ (type : UInt8) (mode : List Char) (chunks : List (List UInt8)), mode.length = chunks.length →
      (chunks.map List.length).sum < 2 ^ 24 →
      asn1Unwrap (asn1Wrap type mode chunks) = some (type, chunks.flatten, []) ∧
        asn1Length (asn1Wrap type mode chunks) ⟨0, (asn1Wrap type mode chunks).length⟩ =
          (chunks.flatten.length, ⟨1 + (asn1CodeLength chunks.flatten.length).length, chunks.flatten.length⟩)) ∧
    (∀ blob : List UInt8,
      (asn1Unwrap blob ≠ none ↔ ∃ tag header length remaining, LengthOctets header length ∧
        length ≤ remaining.length ∧ blob = tag :: header ++ remaining) ∧
      ∀ tag inner rest, asn1Unwrap blob = some (tag, inner, rest) →
        ∃ header, LengthOctets header inner.length ∧ blob = tag :: header ++ inner ++ rest) := by
  have simple : ∀ (tag : UInt8) (content : List UInt8), content.length < 2 ^ 24 →
      asn1Unwrap (asn1SimpleObject tag content) = some (tag, content, []) ∧
        asn1Length (asn1SimpleObject tag content) ⟨0, (asn1SimpleObject tag content).length⟩ =
          (content.length, ⟨1 + (asn1CodeLength content.length).length, content.length⟩) :=
    fun tag content below =>
      ⟨by simpa using @asn1Unwrap_asn1SimpleObject tag content below [], asn1Length_asn1SimpleObject below⟩
  refine ⟨simple, fun type mode chunks counted below => ?_, fun blob => ⟨⟨?_, ?_⟩, ?_⟩⟩
  · rw [asn1Wrap_eq type mode chunks counted]
    exact simple type chunks.flatten (by rwa [List.length_flatten])
  · intro succeeded
    obtain ⟨⟨tag, inner, rest⟩, unwrapped⟩ := Option.ne_none_iff_exists'.mp succeeded
    obtain ⟨header, announced, split⟩ := asn1Unwrap_eq_some_iff.mp unwrapped
    exact ⟨tag, header, inner.length, inner ++ rest, announced, by simp, by simpa using split⟩
  · rintro ⟨tag, header, length, remaining, announced, fits, rfl⟩
    have taken : (remaining.take length).length = length := List.length_take_of_le fits
    rw [← List.take_append_drop length remaining, ← List.append_assoc,
      asn1Unwrap_eq_some_iff.mpr ⟨header, by rwa [taken], rfl⟩]
    exact Option.some_ne_none _
  · exact fun tag inner rest unwrapped => asn1Unwrap_eq_some_iff.mp unwrapped

end StrongSwan.Libstrongswan.Asn1
