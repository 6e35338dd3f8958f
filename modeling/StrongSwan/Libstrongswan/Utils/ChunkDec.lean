import Mathlib
import StrongSwan.Foundations.Bytes

/-!
Contract: `chunk_to_dec` of `chunk.c`, the decimal string of the big-endian
number a chunk holds.

It divides a copy of the number by 10 in place, a byte at a time from the
first byte not yet zero (`i_bin`), and writes each remainder into the buffer
from its end while there is room (`i_buf > 0`). A pass is a long division of
the big-endian value whose partial remainders stay below 10; a byte whose
partial remainder is below 10 becomes zero, and `i_bin` moves past the bytes
that do so at the front of the pass. The passes end with the one that leaves
every byte zero, so there is one pass per digit.

The buffer has `(int)(2.4083 * (double)chunk.len) + 1` bytes. The double
nearest 2.4083 is `5423009491298183 / 2 ^ 51`, slightly above it, and the
model takes the floor of its exact product with the length; the rounded
product the code truncates can only be larger, by at most one, so the room
proved here is room in the buffer the code allocates. Since `log10 256 <
2.4083` (`256 ^ 10000 < 10 ^ 24083`), a number of `n` bytes has at most
`⌊2.4083 n⌋ + 1` digits.

Owns: the passes as long division, the digit bound, and the result for every
chunk: the shortest decimal representation of its value, or the empty string
for the empty chunk.

Does not own: the `int` range of the length. `(int)(2.4083 * (double)chunk.len)`
leaves it once the product passes `2 ^ 31 - 1`, for chunks of more than about
891.7 million bytes; the model describes the chunks below that, whose product the
`double` holds exactly enough for the bound above.
-/

namespace StrongSwan.Libstrongswan.Utils.ChunkDec

open StrongSwan.Foundations.Bytes

/-! ## The model -/

/-- The inner loop of `chunk_to_dec` over `bin.ptr[i..]`: every byte is replaced by the
quotient by 10 of its partial remainder. A byte whose partial remainder is below 10 becomes
zero, and `i_bin` moves past it while it is the first byte of the pass (`leading`). The new
bytes, the remainder, and how far `i_bin` moved. -/
def divideLoop : List UInt8 → UInt16 → Bool → List UInt8 × UInt16 × Nat
  | [], remainder, _ => ([], remainder, 0)
  | byte :: rest, remainder, leading =>
    if byte.toUInt16 + (remainder <<< 8) < 10 then
      ((0 : UInt8) :: (divideLoop rest byte.toUInt16 leading).1, (divideLoop rest byte.toUInt16 leading).2.1,
        if leading then (divideLoop rest byte.toUInt16 leading).2.2 + 1 else (divideLoop rest byte.toUInt16 leading).2.2)
    else
      (((byte.toUInt16 + (remainder <<< 8)) / 10).toUInt8 ::
          (divideLoop rest ((byte.toUInt16 + (remainder <<< 8)) % 10) false).1,
        (divideLoop rest ((byte.toUInt16 + (remainder <<< 8)) % 10) false).2.1,
        (divideLoop rest ((byte.toUInt16 + (remainder <<< 8)) % 10) false).2.2)

/-- The outer loop of `chunk_to_dec` over `bin.ptr[i_bin..]`, on fuel for its passes: a pass
writes its remainder as a digit before those written so far, while `i_buf` (`room`) is not
zero. -/
def decLoop : Nat → List UInt8 → Nat → List UInt8 → List UInt8
  | 0, _, _, written => written
  | _ + 1, [], _, written => written
  | fuel + 1, byte :: rest, room, written =>
    decLoop fuel ((divideLoop (byte :: rest) 0 true).1.drop (divideLoop (byte :: rest) 0 true).2.2) (room - 1)
      (if room > 0 then (0x30 + (divideLoop (byte :: rest) 0 true).2.1.toUInt8) :: written else written)

/-- `len = (int)(2.4083 * (double)chunk.len) + 1`, with the double nearest 2.4083. -/
def decimalLength (len : Nat) : Nat := 5423009491298183 * len / 2 ^ 51 + 1

/-- `chunk_to_dec(chunk, buf)`: the digits of the returned chunk. -/
def chunkToDec (chunk : List UInt8) : List UInt8 :=
  decLoop (3 * chunk.length + 1) chunk (decimalLength chunk.length) []

/-- The shortest decimal representation of `value`, most significant digit first. -/
def decimalDigits (value : Nat) : List Nat := if value = 0 then [0] else (Nat.digits 10 value).reverse

theorem decimalDigits_def (value : Nat) :
    decimalDigits value = if value = 0 then [0] else (Nat.digits 10 value).reverse := rfl

/-- Digits as ASCII characters. -/
def digitChars (digits : List Nat) : List UInt8 := digits.map fun digit => 0x30 + UInt8.ofNat digit

theorem divideLoop_nil (remainder : UInt16) (leading : Bool) : divideLoop [] remainder leading = ([], remainder, 0) :=
  rfl

theorem divideLoop_small {byte : UInt8} {remainder : UInt16} (small : byte.toUInt16 + (remainder <<< 8) < 10)
    (rest : List UInt8) (leading : Bool) :
    divideLoop (byte :: rest) remainder leading =
      ((0 : UInt8) :: (divideLoop rest byte.toUInt16 leading).1, (divideLoop rest byte.toUInt16 leading).2.1,
        if leading then (divideLoop rest byte.toUInt16 leading).2.2 + 1 else (divideLoop rest byte.toUInt16 leading).2.2) :=
  if_pos small

theorem divideLoop_large {byte : UInt8} {remainder : UInt16} (large : ¬byte.toUInt16 + (remainder <<< 8) < 10)
    (rest : List UInt8) (leading : Bool) :
    divideLoop (byte :: rest) remainder leading =
      (((byte.toUInt16 + (remainder <<< 8)) / 10).toUInt8 ::
          (divideLoop rest ((byte.toUInt16 + (remainder <<< 8)) % 10) false).1,
        (divideLoop rest ((byte.toUInt16 + (remainder <<< 8)) % 10) false).2.1,
        (divideLoop rest ((byte.toUInt16 + (remainder <<< 8)) % 10) false).2.2) :=
  if_neg large

theorem decLoop_nil (fuel room : Nat) (written : List UInt8) : decLoop fuel [] room written = written := by
  cases fuel <;> rfl

theorem decLoop_cons (fuel : Nat) (byte : UInt8) (rest : List UInt8) (room : Nat) (written : List UInt8) :
    decLoop (fuel + 1) (byte :: rest) room written =
      decLoop fuel ((divideLoop (byte :: rest) 0 true).1.drop (divideLoop (byte :: rest) 0 true).2.2) (room - 1)
        (if room > 0 then (0x30 + (divideLoop (byte :: rest) 0 true).2.1.toUInt8) :: written else written) := rfl

/-! ## A pass is a long division by 10 -/

/-- The partial remainder: the byte below the remainder so far, without a wrap. -/
theorem toNat_partialRemainder (byte : UInt8) {remainder : UInt16} (small : remainder.toNat < 10) :
    (byte.toUInt16 + (remainder <<< 8)).toNat = byte.toNat + 256 * remainder.toNat := by
  have byteBelow := byte.toNat_lt
  rw [UInt16.toNat_add, UInt16.toNat_shiftLeft, UInt8.toNat_toUInt16]
  show (byte.toNat + remainder.toNat <<< 8 % 2 ^ 16) % 2 ^ 16 = _
  rw [Nat.shiftLeft_eq]
  omega

/-- Bytes that go to zero at the front of a pass add nothing to its value. -/
theorem ofBigEndian_replicate_append (count : Nat) (bytes : List UInt8) :
    ofBigEndian (List.replicate count 0 ++ bytes) = ofBigEndian bytes := by
  induction count with
  | zero => rfl
  | succ count inductionHypothesis =>
    rw [List.replicate_succ, List.cons_append, ofBigEndian_cons, inductionHypothesis, UInt8.toNat_zero,
      Nat.zero_mul, Nat.zero_add]

/-- A pass divides the remainder so far, followed by the bytes, by 10. -/
theorem divideLoop_divides : ∀ (bytes : List UInt8) (remainder : UInt16) (leading : Bool), remainder.toNat < 10 →
    (divideLoop bytes remainder leading).1.length = bytes.length ∧
      ofBigEndian (divideLoop bytes remainder leading).1 =
        (remainder.toNat * 256 ^ bytes.length + ofBigEndian bytes) / 10 ∧
      (divideLoop bytes remainder leading).2.1.toNat = (remainder.toNat * 256 ^ bytes.length + ofBigEndian bytes) % 10
  | [], remainder, leading, small => by
    rw [divideLoop_nil]
    refine ⟨rfl, ?_, ?_⟩ <;> simp only [List.length_nil, Nat.pow_zero, Nat.mul_one, ofBigEndian_nil, Nat.add_zero]
    · exact (Nat.div_eq_of_lt small).symm
    · exact (Nat.mod_eq_of_lt small).symm
  | byte :: rest, remainder, leading, small => by
    have byteBelow := byte.toNat_lt
    have partialValue := toNat_partialRemainder byte small
    rw [ofBigEndian_cons, List.length_cons]
    by_cases below : byte.toUInt16 + (remainder <<< 8) < 10
    · -- the byte goes to zero and becomes the remainder
      have lt : (byte.toUInt16 + (remainder <<< 8)).toNat < 10 := below
      have noRemainder : remainder.toNat = 0 := by omega
      obtain ⟨length, value, rest'⟩ :=
        divideLoop_divides rest byte.toUInt16 leading (by rw [UInt8.toNat_toUInt16]; omega)
      rw [divideLoop_small below]
      refine ⟨by rw [List.length_cons, length], ?_, ?_⟩
      · rw [ofBigEndian_cons, value, UInt8.toNat_toUInt16, noRemainder, length]
        simp
      · rw [rest', UInt8.toNat_toUInt16, noRemainder]
        simp
    · -- the byte takes the quotient of its partial remainder
      have ge : 10 ≤ (byte.toUInt16 + (remainder <<< 8)).toNat := Nat.le_of_not_lt below
      have quotientBelow : (byte.toNat + 256 * remainder.toNat) / 10 < 256 := by omega
      obtain ⟨length, value, rest'⟩ :=
        divideLoop_divides rest ((byte.toUInt16 + (remainder <<< 8)) % 10) false
          (by rw [UInt16.toNat_mod]; exact Nat.mod_lt _ (by decide))
      rw [divideLoop_large below]
      have quotientByte : (((byte.toUInt16 + (remainder <<< 8)) / 10).toUInt8).toNat =
          (byte.toNat + 256 * remainder.toNat) / 10 := by
        rw [UInt16.toNat_toUInt8, UInt16.toNat_div, partialValue]
        exact Nat.mod_eq_of_lt quotientBelow
      have remainderValue : ((byte.toUInt16 + (remainder <<< 8)) % 10).toNat = (byte.toNat + 256 * remainder.toNat) % 10 := by
        rw [UInt16.toNat_mod, partialValue]
        rfl
      -- the partial remainder is ten times the new byte plus the new remainder
      have split : remainder.toNat * 256 ^ (rest.length + 1) + (byte.toNat * 256 ^ rest.length + ofBigEndian rest) =
          10 * ((byte.toNat + 256 * remainder.toNat) / 10 * 256 ^ rest.length) +
            ((byte.toNat + 256 * remainder.toNat) % 10 * 256 ^ rest.length + ofBigEndian rest) := by
        have divMod := Nat.div_add_mod (byte.toNat + 256 * remainder.toNat) 10
        calc remainder.toNat * 256 ^ (rest.length + 1) + (byte.toNat * 256 ^ rest.length + ofBigEndian rest)
            = (byte.toNat + 256 * remainder.toNat) * 256 ^ rest.length + ofBigEndian rest := by
              rw [Nat.pow_succ]
              ring
          _ = (10 * ((byte.toNat + 256 * remainder.toNat) / 10) + (byte.toNat + 256 * remainder.toNat) % 10) *
                256 ^ rest.length + ofBigEndian rest := by rw [divMod]
          _ = _ := by ring
      refine ⟨by rw [List.length_cons, length], ?_, ?_⟩
      · rw [ofBigEndian_cons, value, quotientByte, remainderValue, length, split,
          Nat.mul_add_div (by decide : 0 < 10)]
      · rw [rest', remainderValue, split, Nat.mul_add_mod]

/-- What a pass moves `i_bin` past: zeros at its front, and none once a byte has taken a
quotient; when the pass starts at `i_bin`, the byte after them is not zero. -/
theorem divideLoop_skips : ∀ (bytes : List UInt8) (remainder : UInt16) (leading : Bool), remainder.toNat < 10 →
    (divideLoop bytes remainder leading).1 =
        List.replicate (divideLoop bytes remainder leading).2.2 0 ++
          (divideLoop bytes remainder leading).1.drop (divideLoop bytes remainder leading).2.2 ∧
      (leading = false → (divideLoop bytes remainder leading).2.2 = 0) ∧
      (leading = true → ∀ first rest,
        (divideLoop bytes remainder leading).1.drop (divideLoop bytes remainder leading).2.2 = first :: rest →
          first ≠ 0)
  | [], _, _, _ => ⟨rfl, fun _ => rfl, fun _ _ _ empty => by simp [divideLoop_nil] at empty⟩
  | byte :: rest, remainder, leading, small => by
    have partialValue := toNat_partialRemainder byte small
    by_cases below : byte.toUInt16 + (remainder <<< 8) < 10
    · have lt : (byte.toUInt16 + (remainder <<< 8)).toNat < 10 := below
      obtain ⟨zeros, notLeading, nonzero⟩ :=
        divideLoop_skips rest byte.toUInt16 leading (by rw [UInt8.toNat_toUInt16]; omega)
      rw [divideLoop_small below]
      cases leading with
      | false =>
        have none := notLeading rfl
        refine ⟨?_, fun _ => none, fun absurd => by cases absurd⟩
        simp only [Bool.false_eq_true, if_false, none, List.replicate_zero, List.drop_zero, List.nil_append]
      | true =>
        refine ⟨?_, fun absurd => (by cases absurd), fun _ first after dropped => nonzero rfl first after dropped⟩
        simp only [if_true, List.replicate_succ, List.drop_succ_cons, List.cons_append]
        exact congrArg _ zeros
    · have ge : 10 ≤ (byte.toUInt16 + (remainder <<< 8)).toNat := Nat.le_of_not_lt below
      obtain ⟨_, notLeading, _⟩ :=
        divideLoop_skips rest ((byte.toUInt16 + (remainder <<< 8)) % 10) false
          (by rw [UInt16.toNat_mod]; exact Nat.mod_lt _ (by decide))
      have none := notLeading rfl
      rw [divideLoop_large below]
      refine ⟨by simp only [none, List.replicate_zero, List.drop_zero, List.nil_append], fun _ => none, ?_⟩
      intro _ first after dropped
      simp only [none, List.drop_zero, List.cons.injEq] at dropped
      rw [← dropped.1]
      -- a partial remainder of at least 10 leaves a quotient of at least 1
      intro zero
      have quotient := congrArg UInt8.toNat zero
      rw [UInt16.toNat_toUInt8, UInt16.toNat_div, partialValue] at quotient
      have ten : (10 : UInt16).toNat = 10 := rfl
      have byteBelow := byte.toNat_lt
      rw [ten, UInt8.toNat_zero] at quotient
      omega

/-- A pass from `i_bin` leaves the value divided by 10 behind the new `i_bin`, and nothing
behind it exactly when the quotient is zero. -/
theorem divideLoop_next (bytes : List UInt8) :
    ofBigEndian ((divideLoop bytes 0 true).1.drop (divideLoop bytes 0 true).2.2) = ofBigEndian bytes / 10 ∧
      (divideLoop bytes 0 true).2.1.toNat = ofBigEndian bytes % 10 ∧
      ((divideLoop bytes 0 true).1.drop (divideLoop bytes 0 true).2.2 = [] ↔ ofBigEndian bytes / 10 = 0) := by
  obtain ⟨_, value, remainder⟩ := divideLoop_divides bytes 0 true (by decide)
  obtain ⟨zeros, _, nonzero⟩ := divideLoop_skips bytes 0 true (by decide)
  have kept : ofBigEndian ((divideLoop bytes 0 true).1.drop (divideLoop bytes 0 true).2.2) =
      ofBigEndian bytes / 10 := by
    rw [← ofBigEndian_replicate_append, ← zeros, value]
    simp
  refine ⟨kept, by rw [remainder]; simp, ⟨fun empty => by rw [← kept, empty]; rfl, fun zero => ?_⟩⟩
  -- a suffix that starts with a byte other than zero has a value other than zero
  cases dropped : (divideLoop bytes 0 true).1.drop (divideLoop bytes 0 true).2.2 with
  | nil => rfl
  | cons first rest =>
    have firstNonzero := nonzero rfl first rest dropped
    rw [dropped, ofBigEndian_cons] at kept
    have : 0 < first.toNat := by
      rcases Nat.eq_zero_or_pos first.toNat with isZero | positive
      · exact absurd (UInt8.toNat.inj (isZero.trans UInt8.toNat_zero.symm)) firstNonzero
      · exact positive
    have weight := Nat.one_le_pow rest.length 256 (by decide)
    rw [zero] at kept
    nlinarith

/-! ## Digits -/

theorem decimalDigits_of_lt_ten {value : Nat} (small : value < 10) : decimalDigits value = [value] := by
  rw [decimalDigits_def]
  split
  case isTrue zero => rw [zero]
  case isFalse nonzero => rw [Nat.digits_of_lt 10 value nonzero small, List.reverse_singleton]

theorem decimalDigits_of_ten_le {value : Nat} (large : 10 ≤ value) :
    decimalDigits value = decimalDigits (value / 10) ++ [value % 10] := by
  have positive : value / 10 ≠ 0 := by omega
  rw [decimalDigits_def, if_neg (by omega), decimalDigits_def, if_neg positive,
    Nat.digits_def' (by decide) (by omega), List.reverse_cons]

theorem decimalDigits_ne_nil (value : Nat) : decimalDigits value ≠ [] := by
  rw [decimalDigits_def]
  split
  case isTrue => exact List.cons_ne_nil 0 []
  case isFalse nonzero => exact List.reverse_ne_nil_iff.mpr (Nat.digits_ne_nil_iff_ne_zero.mpr nonzero)

theorem length_decimalDigits_le {value digits : Nat} (below : value < 10 ^ digits) (some : 1 ≤ digits) :
    (decimalDigits value).length ≤ digits := by
  rw [decimalDigits_def]
  split
  case isTrue => exact some
  case isFalse => rw [List.length_reverse]; exact (Nat.digits_length_le_iff (by decide) value).mpr below

/-- Digit counts from one comparison of powers: if `a ^ q < b ^ p`, a number below `a ^ n` is
below `b ^ (⌊p n / q⌋ + 1)`. -/
theorem pow_lt_pow_div_succ {a b p q : Nat} (positive : 0 < q) (one : 1 < b) (base : a ^ q < b ^ p) (n : Nat) :
    a ^ n < b ^ (p * n / q + 1) := by
  rcases Nat.eq_zero_or_pos n with rfl | nonzero
  · simpa using one
  by_contra notBelow
  have above : b ^ (p * n / q + 1) ≤ a ^ n := Nat.le_of_not_lt notBelow
  -- raised to the `q`th power, the two sides compare as `b ^ p` and `a ^ q`
  have raised : b ^ ((p * n / q + 1) * q) < b ^ (p * n) :=
    calc b ^ ((p * n / q + 1) * q)
        = (b ^ (p * n / q + 1)) ^ q := Nat.pow_mul _ _ _
      _ ≤ (a ^ n) ^ q := Nat.pow_le_pow_left above _
      _ = (a ^ q) ^ n := by rw [← Nat.pow_mul, ← Nat.pow_mul, Nat.mul_comm n q]
      _ < (b ^ p) ^ n := Nat.pow_lt_pow_left base nonzero.ne'
      _ = b ^ (p * n) := (Nat.pow_mul _ _ _).symm
  have exponents := (Nat.pow_lt_pow_iff_right one).mp raised
  have rounded := Nat.lt_mul_div_succ (p * n) positive
  rw [Nat.mul_comm q] at rounded
  exact Nat.lt_asymm exponents rounded

/-- `log10 256 < 2.4083`: a number below `256 ^ n` has fewer than `⌊2.4083 n⌋ + 1` digits. -/
theorem two_fifty_six_pow_lt (n : Nat) : 256 ^ n < 10 ^ (24083 * n / 10000 + 1) :=
  pow_lt_pow_div_succ (by decide) (by decide) (by decide +kernel) n

/-- The double is above 2.4083, so the floor of its product is at least `⌊2.4083 len⌋`. -/
theorem floor_le_decimalLength (len : Nat) : 24083 * len / 10000 + 1 ≤ decimalLength len := by
  refine Nat.add_le_add_right ?_ 1
  rw [Nat.le_div_iff_mul_le (Nat.two_pow_pos 51)]
  have below := Nat.div_mul_le_self (24083 * len) 10000
  have constants : 24083 * 2 ^ 51 ≤ 5423009491298183 * 10000 := by norm_num
  refine Nat.le_of_mul_le_mul_right ?_ (by decide : 0 < 10000)
  calc 24083 * len / 10000 * 2 ^ 51 * 10000
      = 24083 * len / 10000 * 10000 * 2 ^ 51 := by ring
    _ ≤ 24083 * len * 2 ^ 51 := Nat.mul_le_mul_right _ below
    _ = 24083 * 2 ^ 51 * len := by ring
    _ ≤ 5423009491298183 * 10000 * len := Nat.mul_le_mul_right len constants
    _ = 5423009491298183 * len * 10000 := by ring

/-- The double is below 3, so there are at most `3 len + 1` passes to make. -/
theorem decimalLength_le (len : Nat) : decimalLength len ≤ 3 * len + 1 := by
  refine Nat.add_le_add_right (Nat.div_le_of_le_mul ?_) 1
  have constants : 5423009491298183 ≤ 2 ^ 51 * 3 := by norm_num
  calc 5423009491298183 * len ≤ 2 ^ 51 * 3 * len := Nat.mul_le_mul_right len constants
    _ = 2 ^ 51 * (3 * len) := Nat.mul_assoc _ _ _

/-- The buffer has room for every digit of a number of `len` bytes. -/
theorem length_decimal_le (bytes : List UInt8) :
    (decimalDigits (ofBigEndian bytes)).length ≤ decimalLength bytes.length :=
  le_trans
    (length_decimalDigits_le (lt_trans (ofBigEndian_lt bytes) (two_fifty_six_pow_lt bytes.length))
      (Nat.le_add_left 1 _))
    (floor_le_decimalLength bytes.length)

/-- The passes write the digits of the value, most significant first, when the fuel and the
room suffice. -/
theorem decLoop_digits : ∀ (fuel : Nat) {bin : List UInt8} {room : Nat} (written : List UInt8), bin ≠ [] →
    (decimalDigits (ofBigEndian bin)).length ≤ fuel → (decimalDigits (ofBigEndian bin)).length ≤ room →
    decLoop fuel bin room written = digitChars (decimalDigits (ofBigEndian bin)) ++ written
  | 0, bin, _, _, _, enough, _ => by
    have := List.length_pos_of_ne_nil (decimalDigits_ne_nil (ofBigEndian bin))
    omega
  | _ + 1, [], _, _, nonempty, _, _ => absurd rfl nonempty
  | fuel + 1, byte :: rest, room, written, _, enough, roomy => by
    obtain ⟨value, remainder, empty⟩ := divideLoop_next (byte :: rest)
    have positive := List.length_pos_of_ne_nil (decimalDigits_ne_nil (ofBigEndian (byte :: rest)))
    rw [decLoop_cons, if_pos (by omega)]
    have digit : 0x30 + (divideLoop (byte :: rest) 0 true).2.1.toUInt8 =
        0x30 + UInt8.ofNat (ofBigEndian (byte :: rest) % 10) := by
      rw [← remainder]
      rfl
    rw [digit]
    by_cases small : ofBigEndian (byte :: rest) < 10
    · -- the last pass: nothing is left behind `i_bin`
      rw [(empty.mpr (Nat.div_eq_of_lt small)), decLoop_nil, decimalDigits_of_lt_ten small, Nat.mod_eq_of_lt small]
      rfl
    · have large : 10 ≤ ofBigEndian (byte :: rest) := Nat.le_of_not_lt small
      have shorter := decimalDigits_of_ten_le large
      rw [shorter, List.length_append, List.length_singleton] at enough roomy
      have nonempty : (divideLoop (byte :: rest) 0 true).1.drop (divideLoop (byte :: rest) 0 true).2.2 ≠ [] :=
        fun isEmpty => by have := empty.mp isEmpty; omega
      rw [decLoop_digits fuel _ nonempty (by rw [value]; omega) (by rw [value]; omega), value, shorter]
      simp [digitChars]

/-- `chunk_to_dec` writes the shortest decimal representation of the chunk's big-endian value,
the empty string for the empty chunk, and the buffer it allocates has room for every digit. -/
theorem chunkToDec_eq_decimal (chunk : List UInt8) :
    chunkToDec chunk = (if chunk = [] then [] else digitChars (decimalDigits (ofBigEndian chunk))) ∧
      (decimalDigits (ofBigEndian chunk)).length ≤ decimalLength chunk.length := by
  refine ⟨?_, length_decimal_le chunk⟩
  split
  case isTrue empty => rw [empty]; rfl
  case isFalse nonempty =>
    have room := length_decimal_le chunk
    have fuel := decimalLength_le chunk.length
    rw [chunkToDec, decLoop_digits _ _ nonempty (le_trans room fuel) room, List.append_nil]

/-- The empty chunk holds the number zero, whose shortest decimal representation is "0", but
no pass runs on it and the string returned is empty. -/
theorem chunkToDec_empty : chunkToDec [] = [] ∧ digitChars (decimalDigits (ofBigEndian [])) = [0x30] :=
  ⟨rfl, rfl⟩

example : chunkToDec [0x01, 0x00] = [0x32, 0x35, 0x36] := by decide

end StrongSwan.Libstrongswan.Utils.ChunkDec
