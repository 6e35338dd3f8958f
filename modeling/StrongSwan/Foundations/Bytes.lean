import Mathlib

/-!
Byte strings as lists of `UInt8`: fixed-width big-endian integers and
byte-wise exclusive or.

`bigEndian width value` writes the low `8 * width` bits of `value`, most
significant byte first, as the network byte order conversions (`htons`,
`htonl`, `htoun64`) followed by a copy of the bytes do. `ofBigEndian` reads
such a string back.

`memcmp first second count` compares the first `count` bytes as unsigned
values, as C's `memcmp` does; past the end of a list a byte counts as smaller
than any other, which no caller of `memcmp` within its bounds reaches.

Owns: the length and round-trip laws of the big-endian codec, injectivity
below `256 ^ width`, the involution law of `xorBytes`, or-ing of disjoint bit
fields as addition, the antisymmetry of `memcmp`, and that `memcmp` within
its bounds orders byte strings as their big-endian values, which tell strings
of one length apart.
-/

namespace StrongSwan.Foundations.Bytes

/-- Big-endian encoding of `value` modulo `256 ^ width` in `width` bytes. -/
def bigEndian : Nat → Nat → List UInt8
  | 0, _ => []
  | width + 1, value => bigEndian width (value / 256) ++ [UInt8.ofNat value]

/-- Value of a big-endian byte string. -/
def ofBigEndian (bytes : List UInt8) : Nat :=
  bytes.foldl (fun value byte => value * 256 + byte.toNat) 0

@[simp] theorem length_bigEndian (width value : Nat) :
    (bigEndian width value).length = width := by
  induction width generalizing value with
  | zero => rfl
  | succ width inductionHypothesis => simp [bigEndian, inductionHypothesis]

theorem ofBigEndian_append_singleton (bytes : List UInt8) (byte : UInt8) :
    ofBigEndian (bytes ++ [byte]) = ofBigEndian bytes * 256 + byte.toNat := by
  simp [ofBigEndian, List.foldl_append]

/-- Reading back a big-endian encoding gives the value modulo `256 ^ width`. -/
theorem ofBigEndian_bigEndian (width value : Nat) :
    ofBigEndian (bigEndian width value) = value % 256 ^ width := by
  induction width generalizing value with
  | zero => simp [bigEndian, ofBigEndian, Nat.mod_one]
  | succ width inductionHypothesis =>
      have lowByte : (UInt8.ofNat value).toNat = value % 256 := by simp
      rw [bigEndian, ofBigEndian_append_singleton, inductionHypothesis, lowByte]
      -- `value % 256 ^ (width + 1)` splits into the high part and the low byte
      rw [Nat.pow_succ, Nat.mul_comm (256 ^ width) 256, Nat.mod_mul]
      omega

/-- The encoding sees a value only modulo `256 ^ width`. -/
theorem bigEndian_congr {width first second : Nat}
    (sameLowBytes : first % 256 ^ width = second % 256 ^ width) :
    bigEndian width first = bigEndian width second := by
  induction width generalizing first second with
  | zero => rfl
  | succ width inductionHypothesis =>
      rw [Nat.pow_succ, Nat.mul_comm] at sameLowBytes
      have sameHigh : first / 256 % 256 ^ width = second / 256 % 256 ^ width := by
        rw [← Nat.mod_mul_right_div_self, ← Nat.mod_mul_right_div_self, sameLowBytes]
      have sameLow : first % 256 = second % 256 := by
        rw [← Nat.mod_mul_right_mod first 256 (256 ^ width),
          ← Nat.mod_mul_right_mod second 256 (256 ^ width), sameLowBytes]
      rw [bigEndian, bigEndian, inductionHypothesis sameHigh,
        (UInt8.ofNat_eq_iff_mod_eq_toNat first (UInt8.ofNat second)).mpr (by simpa using sameLow)]

/-- Reducing a value modulo a multiple of `256 ^ width` first changes nothing. -/
@[simp] theorem bigEndian_mod_of_dvd {width value modulus : Nat} (multiple : 256 ^ width ∣ modulus) :
    bigEndian width (value % modulus) = bigEndian width value :=
  bigEndian_congr (Nat.mod_mod_of_dvd value multiple)

/-- Big-endian encodings of two values below `256 ^ width` agree only if the values do. -/
theorem bigEndian_injective {width first second : Nat} (firstBelow : first < 256 ^ width)
    (secondBelow : second < 256 ^ width)
    (sameBytes : bigEndian width first = bigEndian width second) : first = second := by
  have readBack := congrArg ofBigEndian sameBytes
  rwa [ofBigEndian_bigEndian, ofBigEndian_bigEndian, Nat.mod_eq_of_lt firstBelow,
    Nat.mod_eq_of_lt secondBelow] at readBack

/-- Byte-wise exclusive or, as `memxor` computes it over the common length. -/
def xorBytes (bytes mask : List UInt8) : List UInt8 := List.zipWith (· ^^^ ·) bytes mask

@[simp] theorem length_xorBytes (bytes mask : List UInt8) :
    (xorBytes bytes mask).length = min bytes.length mask.length := by
  simp [xorBytes]

/-- Masking twice with the same mask gives the bytes back. -/
theorem xorBytes_xorBytes {bytes mask : List UInt8} (sameLength : bytes.length = mask.length) :
    xorBytes (xorBytes bytes mask) mask = bytes := by
  induction bytes generalizing mask with
  | nil => rfl
  | cons byte rest inductionHypothesis =>
      cases mask with
      | nil => simp at sameLength
      | cons maskByte maskRest =>
          simp only [xorBytes, List.zipWith_cons_cons] at inductionHypothesis ⊢
          rw [inductionHypothesis (by simpa using sameLength), UInt8.xor_assoc, UInt8.xor_self,
            UInt8.xor_zero]

/-- Masking with a fixed mask is injective on strings of the mask's length. -/
theorem xorBytes_injective {first second mask : List UInt8}
    (firstLength : first.length = mask.length) (secondLength : second.length = mask.length)
    (sameMasked : xorBytes first mask = xorBytes second mask) : first = second := by
  rw [← xorBytes_xorBytes firstLength, ← xorBytes_xorBytes secondLength, sameMasked]

/-- Or-ing a value below `2 ^ shift` into a multiple of `2 ^ shift` adds it. -/
theorem lor_mul_two_pow_eq_add {low : Nat} (high shift : Nat) (lowBelow : low < 2 ^ shift) :
    low ||| high * 2 ^ shift = low + high * 2 ^ shift := by
  rw [Nat.lor_comm, ← Nat.shiftLeft_eq, ← Nat.shiftLeft_add_eq_or_of_lt lowBelow, Nat.shiftLeft_eq]
  omega

/-- Or-ing a value below `2 ^ shift` into a value whose low `shift` bits are clear adds it. -/
theorem lor_eq_add_of_mod {high low : Nat} (shift : Nat) (free : high % 2 ^ shift = 0)
    (lowBelow : low < 2 ^ shift) : high ||| low = high + low := by
  obtain ⟨quotient, rfl⟩ := Nat.dvd_of_mod_eq_zero free
  rw [Nat.lor_comm, Nat.mul_comm, lor_mul_two_pow_eq_add _ _ lowBelow, Nat.add_comm]

/-- `memcmp` over `count` bytes, its sign as an `Ordering`. -/
def memcmp : List UInt8 → List UInt8 → Nat → Ordering
  | _, _, 0 => .eq
  | first :: firstRest, second :: secondRest, count + 1 =>
    if first < second then .lt else if second < first then .gt else memcmp firstRest secondRest count
  | [], [], _ + 1 => .eq
  | [], _ :: _, _ + 1 => .lt
  | _ :: _, [], _ + 1 => .gt

/-- Comparing the other way round swaps the answer. -/
theorem memcmp_swap (first second : List UInt8) (count : Nat) :
    memcmp second first count = (memcmp first second count).swap := by
  induction count generalizing first second with
  | zero => cases first <;> cases second <;> rfl
  | succ count inductionHypothesis =>
    cases first with
    | nil => cases second <;> rfl
    | cons firstByte firstRest =>
      cases second with
      | nil => rfl
      | cons secondByte secondRest =>
        simp only [memcmp]
        -- the first differing byte decides, the same byte from either side
        by_cases below : firstByte < secondByte
        · rw [if_neg (UInt8.lt_asymm below), if_pos below, if_pos below]
          rfl
        · by_cases above : secondByte < firstByte
          · rw [if_pos above, if_neg below, if_pos above]
            rfl
          · rw [if_neg above, if_neg below, if_neg below, if_neg above, inductionHypothesis]

@[simp] theorem ofBigEndian_nil : ofBigEndian [] = 0 := rfl

theorem ofBigEndian_cons (byte : UInt8) (rest : List UInt8) :
    ofBigEndian (byte :: rest) = byte.toNat * 256 ^ rest.length + ofBigEndian rest := by
  induction rest using List.reverseRecOn with
  | nil => simp [ofBigEndian]
  | append_singleton rest last inductionHypothesis =>
    rw [← List.cons_append, ofBigEndian_append_singleton, ofBigEndian_append_singleton,
      inductionHypothesis, List.length_append, List.length_singleton, Nat.pow_succ]
    ring

theorem ofBigEndian_lt (bytes : List UInt8) : ofBigEndian bytes < 256 ^ bytes.length := by
  induction bytes with
  | nil => simp [ofBigEndian]
  | cons byte rest inductionHypothesis =>
    rw [ofBigEndian_cons, List.length_cons, Nat.pow_succ]
    have byteBelow : byte.toNat < 256 := byte.toNat_lt
    -- the leading byte's weight leaves room below it for the rest
    calc byte.toNat * 256 ^ rest.length + ofBigEndian rest
        < byte.toNat * 256 ^ rest.length + 256 ^ rest.length := by omega
      _ = (byte.toNat + 1) * 256 ^ rest.length := by ring
      _ ≤ 256 * 256 ^ rest.length := Nat.mul_le_mul_right _ byteBelow
      _ = 256 ^ rest.length * 256 := Nat.mul_comm _ _

/-- Within the bounds of both strings, `memcmp` compares their big-endian values. -/
theorem memcmp_eq_compare {first second : List UInt8} {count : Nat}
    (firstLength : first.length = count) (secondLength : second.length = count) :
    memcmp first second count = compare (ofBigEndian first) (ofBigEndian second) := by
  induction count generalizing first second with
  | zero =>
    rw [List.length_eq_zero_iff.mp firstLength, List.length_eq_zero_iff.mp secondLength]
    cases first <;> cases second <;> rfl
  | succ count inductionHypothesis =>
    obtain ⟨firstByte, firstRest, rfl⟩ := List.exists_cons_of_length_eq_add_one firstLength
    obtain ⟨secondByte, secondRest, rfl⟩ := List.exists_cons_of_length_eq_add_one secondLength
    have firstRestLength : firstRest.length = count := by simpa using firstLength
    have secondRestLength : secondRest.length = count := by simpa using secondLength
    have firstBelow := ofBigEndian_lt firstRest
    have secondBelow := ofBigEndian_lt secondRest
    rw [firstRestLength] at firstBelow
    rw [secondRestLength] at secondBelow
    simp only [memcmp, ofBigEndian_cons, firstRestLength, secondRestLength]
    -- the leading bytes decide unless they are equal, the rests then decide
    by_cases below : firstByte < secondByte
    · have weighted : firstByte.toNat * 256 ^ count + ofBigEndian firstRest <
          secondByte.toNat * 256 ^ count + ofBigEndian secondRest := by
        have : firstByte.toNat + 1 ≤ secondByte.toNat := below
        nlinarith
      rw [if_pos below, compare_lt_iff_lt.mpr weighted]
    · by_cases above : secondByte < firstByte
      · have weighted : secondByte.toNat * 256 ^ count + ofBigEndian secondRest <
            firstByte.toNat * 256 ^ count + ofBigEndian firstRest := by
          have : secondByte.toNat + 1 ≤ firstByte.toNat := above
          nlinarith
        rw [if_neg below, if_pos above, compare_gt_iff_gt.mpr weighted]
      · have same : firstByte = secondByte := by
          apply UInt8.toNat_inj.mp
          have notBelow : ¬firstByte.toNat < secondByte.toNat := below
          have notAbove : ¬secondByte.toNat < firstByte.toNat := above
          omega
        rw [if_neg below, if_neg above, inductionHypothesis firstRestLength secondRestLength, same]
        -- the same leading byte leaves the comparison of the rests
        rw [← cmp_eq_compare, ← cmp_eq_compare, cmp_add_left]

/-- Byte strings of one length with one big-endian value are the same. -/
theorem ofBigEndian_injective {first second : List UInt8} (sameLength : first.length = second.length)
    (sameValue : ofBigEndian first = ofBigEndian second) : first = second := by
  induction first generalizing second with
  | nil => exact (List.length_eq_zero_iff.mp sameLength.symm).symm
  | cons firstByte firstRest inductionHypothesis =>
    obtain ⟨secondByte, secondRest, rfl⟩ := List.exists_cons_of_length_eq_add_one sameLength.symm
    have restLength : firstRest.length = secondRest.length := by simpa using sameLength
    rw [ofBigEndian_cons, ofBigEndian_cons, ← restLength] at sameValue
    have firstBelow := ofBigEndian_lt firstRest
    have secondBelow := ofBigEndian_lt secondRest
    rw [← restLength] at secondBelow
    -- the leading byte is the quotient by the weight of the rest, the rest its remainder
    have weight : 0 < 256 ^ firstRest.length := Nat.pow_pos (by decide)
    have sameByte : firstByte.toNat = secondByte.toNat := by
      have quotient := congrArg (· / 256 ^ firstRest.length) sameValue
      simp only [Nat.add_comm (_ * _), Nat.add_mul_div_right _ _ weight, Nat.div_eq_of_lt firstBelow,
        Nat.div_eq_of_lt secondBelow, Nat.zero_add] at quotient
      exact quotient
    rw [sameByte] at sameValue
    rw [UInt8.toNat_inj.mp sameByte, inductionHypothesis restLength (by omega)]

/-- Within the bounds of both strings, `memcmp` finds them equal only if they are. -/
theorem memcmp_eq_eq_iff {first second : List UInt8} {count : Nat}
    (firstLength : first.length = count) (secondLength : second.length = count) :
    memcmp first second count = .eq ↔ first = second := by
  rw [memcmp_eq_compare firstLength secondLength, compare_eq_iff_eq]
  constructor
  · exact ofBigEndian_injective (firstLength.trans secondLength.symm)
  · exact congrArg ofBigEndian

end StrongSwan.Foundations.Bytes
