import StrongSwan.Foundations.Bytes

/-!
Contract: what byte-wise masking does to the big-endian value of a byte string, and the
aligned blocks of values that a prefix of bits fixes.

A byte-wise `and`, `or` or `xor` of two strings of one length is the same operation on
their values (`ofBigEndian_zipWith`). And-ing a value below `2 ^ width` with the mask of
the bits from `low` up to `width` clears the bits below `low`; or-ing with the mask below
`low` sets them. Together these give the first and the last value of the block of values
that agree with a given one above bit `low`.

Owns: those value laws, and the values of concatenated, all-zero, all-one and complemented
strings.

Does not own: how a program builds its masks.
-/

namespace StrongSwan.Foundations.Bytes

theorem ofBigEndian_append (first second : List UInt8) :
    ofBigEndian (first ++ second) = ofBigEndian first * 256 ^ second.length + ofBigEndian second := by
  induction first with
  | nil => simp [ofBigEndian]
  | cons byte rest inductionHypothesis =>
    rw [List.cons_append, ofBigEndian_cons, ofBigEndian_cons, inductionHypothesis, List.length_append,
      Nat.pow_add]
    ring

@[simp] theorem ofBigEndian_replicate_zero (count : Nat) : ofBigEndian (List.replicate count 0) = 0 := by
  induction count with
  | zero => rfl
  | succ count inductionHypothesis => simp [List.replicate_succ, ofBigEndian_cons, inductionHypothesis]

theorem ofBigEndian_eq_zero_iff (bytes : List UInt8) : ofBigEndian bytes = 0 ↔ ∀ byte ∈ bytes, byte = 0 := by
  induction bytes with
  | nil => simp [ofBigEndian]
  | cons byte rest inductionHypothesis =>
    rw [ofBigEndian_cons, Nat.add_eq_zero_iff, Nat.mul_eq_zero, inductionHypothesis, List.forall_mem_cons,
      ← UInt8.toNat_inj, UInt8.toNat_zero]
    simp

/-- Complementing every byte complements the value within its width. -/
theorem ofBigEndian_map_not (bytes : List UInt8) :
    ofBigEndian (bytes.map (~~~·)) = 256 ^ bytes.length - 1 - ofBigEndian bytes := by
  induction bytes with
  | nil => simp [ofBigEndian]
  | cons byte rest inductionHypothesis =>
    rw [List.map_cons, ofBigEndian_cons, ofBigEndian_cons, inductionHypothesis, List.length_map,
      UInt8.toNat_not, List.length_cons, Nat.pow_succ]
    have byteBelow : byte.toNat < 256 := byte.toNat_lt
    have restBelow := ofBigEndian_lt rest
    have weighted : byte.toNat * 256 ^ rest.length ≤ 255 * 256 ^ rest.length :=
      Nat.mul_le_mul_right _ (by omega)
    rw [UInt8.size, Nat.sub_mul]
    omega

theorem ofBigEndian_replicate_max (count : Nat) :
    ofBigEndian (List.replicate count 0xff) = 256 ^ count - 1 := by
  have complemented := ofBigEndian_map_not (List.replicate count 0)
  rw [List.map_replicate, List.length_replicate, ofBigEndian_replicate_zero] at complemented
  exact complemented

/-- Combining a string with a constant string of its length maps each byte. -/
theorem zipWith_replicate_length {α β γ : Type} (f : α → β → γ) (first : List α) (constant : β) :
    List.zipWith f first (List.replicate first.length constant) = first.map (f · constant) := by
  induction first with
  | nil => rfl
  | cons head rest inductionHypothesis => simp [List.replicate_succ, inductionHypothesis]

/-- A bit-wise operation works on the bits above and below `shift` apart. -/
theorem bitwise_two_pow_mul_add {f : Bool → Bool → Bool} (falseFalse : f false false = false)
    (shift high otherHigh : Nat) {low otherLow : Nat} (lowBelow : low < 2 ^ shift)
    (otherLowBelow : otherLow < 2 ^ shift) :
    Nat.bitwise f (2 ^ shift * high + low) (2 ^ shift * otherHigh + otherLow) =
      2 ^ shift * Nat.bitwise f high otherHigh + Nat.bitwise f low otherLow := by
  apply Nat.eq_of_testBit_eq
  intro index
  rw [Nat.testBit_bitwise falseFalse, Nat.testBit_two_pow_mul_add _ lowBelow,
    Nat.testBit_two_pow_mul_add _ otherLowBelow,
    Nat.testBit_two_pow_mul_add _ (Nat.bitwise_lt_two_pow lowBelow otherLowBelow),
    Nat.testBit_bitwise falseFalse, Nat.testBit_bitwise falseFalse]
  split <;> rfl

/-- A byte-wise operation that works bit by bit is the same operation on the values. -/
theorem ofBigEndian_zipWith {op : UInt8 → UInt8 → UInt8} {f : Bool → Bool → Bool}
    (falseFalse : f false false = false)
    (onBytes : ∀ first second : UInt8, (op first second).toNat = Nat.bitwise f first.toNat second.toNat)
    {first second : List UInt8} (sameLength : first.length = second.length) :
    ofBigEndian (List.zipWith op first second) = Nat.bitwise f (ofBigEndian first) (ofBigEndian second) := by
  induction first generalizing second with
  | nil =>
    rw [List.length_eq_zero_iff.mp sameLength.symm]
    simp [ofBigEndian]
  | cons byte rest inductionHypothesis =>
    obtain ⟨otherByte, otherRest, rfl⟩ := List.exists_cons_of_length_eq_add_one sameLength.symm
    have restLength : rest.length = otherRest.length := by simpa using sameLength
    have weight : 256 ^ rest.length = 2 ^ (8 * rest.length) := by rw [Nat.pow_mul]
    have restBelow := ofBigEndian_lt rest
    have otherRestBelow := ofBigEndian_lt otherRest
    rw [← restLength, weight] at otherRestBelow
    rw [weight] at restBelow
    -- the leading bytes sit above the bits of the rests, so the operation splits there
    rw [List.zipWith_cons_cons, ofBigEndian_cons, ofBigEndian_cons, ofBigEndian_cons, List.length_zipWith,
      ← restLength, Nat.min_self, inductionHypothesis restLength, onBytes, weight, Nat.mul_comm byte.toNat,
      Nat.mul_comm otherByte.toNat, Nat.mul_comm (Nat.bitwise f _ _),
      bitwise_two_pow_mul_add falseFalse _ _ _ restBelow otherRestBelow]

theorem ofBigEndian_zipWith_and {first second : List UInt8} (sameLength : first.length = second.length) :
    ofBigEndian (List.zipWith (· &&& ·) first second) = ofBigEndian first &&& ofBigEndian second :=
  ofBigEndian_zipWith rfl UInt8.toNat_and sameLength

theorem ofBigEndian_zipWith_or {first second : List UInt8} (sameLength : first.length = second.length) :
    ofBigEndian (List.zipWith (· ||| ·) first second) = ofBigEndian first ||| ofBigEndian second :=
  ofBigEndian_zipWith rfl UInt8.toNat_or sameLength

theorem ofBigEndian_zipWith_xor {first second : List UInt8} (sameLength : first.length = second.length) :
    ofBigEndian (List.zipWith (· ^^^ ·) first second) = ofBigEndian first ^^^ ofBigEndian second :=
  ofBigEndian_zipWith rfl UInt8.toNat_xor sameLength

/-- And-ing with the bits from `low` up to `width` keeps the start of the block of `2 ^ low`
values around a value below `2 ^ width`. -/
theorem and_two_pow_sub_two_pow {value width low : Nat} (below : value < 2 ^ width) (lowLe : low ≤ width) :
    value &&& (2 ^ width - 2 ^ low) = value / 2 ^ low * 2 ^ low := by
  have mask : 2 ^ width - 2 ^ low = (2 ^ (width - low) - 1) * 2 ^ low := by
    rw [Nat.sub_mul, ← Nat.pow_add, Nat.sub_add_cancel lowLe, Nat.one_mul]
  rw [mask]
  apply Nat.eq_of_testBit_eq
  intro index
  rw [Nat.testBit_land, Nat.testBit_mul_two_pow, Nat.testBit_mul_two_pow, Nat.testBit_two_pow_sub_one,
    Nat.testBit_div_two_pow]
  by_cases above : low ≤ index
  · rw [Nat.sub_add_cancel above]
    by_cases inside : index < width
    · simp [above, Nat.sub_lt_sub_right above inside]
    · -- the value has no bit at or above its width
      have noBit : value.testBit index = false :=
        Nat.testBit_lt_two_pow (lt_of_lt_of_le below (Nat.pow_le_pow_right (by decide) (by omega)))
      simp [noBit]
  · simp [above]

/-- Or-ing with the bits below `low` gives the end of the block of `2 ^ low` values. -/
theorem or_two_pow_sub_one (value low : Nat) :
    value ||| (2 ^ low - 1) = value / 2 ^ low * 2 ^ low + (2 ^ low - 1) := by
  have maskBelow : 2 ^ low - 1 < 2 ^ low := Nat.sub_lt (Nat.two_pow_pos low) Nat.one_pos
  apply Nat.eq_of_testBit_eq
  intro index
  rw [Nat.testBit_lor, Nat.mul_comm, Nat.testBit_two_pow_mul_add _ maskBelow, Nat.testBit_two_pow_sub_one,
    Nat.testBit_div_two_pow]
  by_cases below : index < low
  · simp [below]
  · simp [below, Nat.sub_add_cancel (Nat.le_of_not_lt below)]

/-- Between two multiples of `step`, the smaller is at least `step` below the larger. -/
theorem add_le_of_dvd_of_lt {step value bound : Nat} (valueMultiple : step ∣ value) (boundMultiple : step ∣ bound)
    (below : value < bound) : value + step ≤ bound := by
  obtain ⟨valueSteps, rfl⟩ := valueMultiple
  obtain ⟨boundSteps, rfl⟩ := boundMultiple
  have fewer : valueSteps < boundSteps := Nat.lt_of_mul_lt_mul_left below
  calc step * valueSteps + step = step * (valueSteps + 1) := by ring
    _ ≤ step * boundSteps := Nat.mul_le_mul_left _ fewer

/-- Below `2 ^ width`, the values that the mask of the bits from `low` up maps onto an
aligned `value` are the `2 ^ low` values from `value` on. -/
theorem and_two_pow_sub_two_pow_eq_iff {value address width low : Nat} (aligned : 2 ^ low ∣ value)
    (below : value < 2 ^ width) (lowLe : low ≤ width) :
    address < 2 ^ width ∧ address &&& (2 ^ width - 2 ^ low) = value ↔
      value ≤ address ∧ address ≤ value + 2 ^ low - 1 := by
  have blockEnd : value + 2 ^ low ≤ 2 ^ width :=
    add_le_of_dvd_of_lt aligned (Nat.pow_dvd_pow 2 lowLe) below
  have positive := Nat.two_pow_pos low
  constructor
  · rintro ⟨addressBelow, masked⟩
    rw [and_two_pow_sub_two_pow addressBelow lowLe] at masked
    -- the masked address is the start of the block the address lies in
    have start := Nat.div_mul_le_self address (2 ^ low)
    have stop := Nat.lt_div_mul_add (a := address) positive
    omega
  · rintro ⟨atLeast, atMost⟩
    have addressBelow : address < 2 ^ width := by omega
    refine ⟨addressBelow, ?_⟩
    rw [and_two_pow_sub_two_pow addressBelow lowLe]
    have sameBlock : address / 2 ^ low = value / 2 ^ low := by
      rw [Nat.div_eq_iff positive, Nat.div_mul_cancel aligned]
      omega
    rw [sameBlock, Nat.div_mul_cancel aligned]

/-- An aligned block of `small` values lies within the aligned block of `large` values at
`other`, for `small` dividing `large`, exactly where both start in one block of `large`. -/
theorem div_eq_div_iff_le_of_dvd {value other small large : Nat} (largePositive : 0 < large)
    (smallDivides : small ∣ large) (aligned : small ∣ value) (otherAligned : large ∣ other) :
    value / large = other / large ↔ other ≤ value ∧ value + small ≤ other + large := by
  have smallPositive : 0 < small := Nat.pos_of_dvd_of_pos smallDivides largePositive
  rw [Nat.div_eq_iff largePositive, Nat.div_mul_cancel otherAligned]
  constructor
  · rintro ⟨atLeast, atMost⟩
    have endAligned : small ∣ other + large := Nat.dvd_add (Nat.dvd_trans smallDivides otherAligned) smallDivides
    exact ⟨atLeast, add_le_of_dvd_of_lt aligned endAligned (by omega)⟩
  · rintro ⟨atLeast, fits⟩
    omega

/-- The high bit of a byte is clear exactly below `0x80`. -/
theorem and_highBit_eq_zero_iff (byte : UInt8) : byte &&& 0x80 = 0 ↔ byte.toNat < 0x80 := by
  have mask : byte.toNat &&& 0x80 = byte.toNat / 2 ^ 7 * 2 ^ 7 :=
    @and_two_pow_sub_two_pow byte.toNat 8 7 byte.toNat_lt (by decide)
  rw [← UInt8.toNat_inj, UInt8.toNat_and, UInt8.toNat_zero]
  show byte.toNat &&& 0x80 = 0 ↔ _
  omega

/-- Within the values below `bound`, the interval from `low` to `high` is the aligned block of
`step` values around them exactly where `low` starts that block and `high` ends it. -/
theorem between_iff_div_eq_iff {low high step bound : Nat} (positive : 0 < step) (boundMultiple : step ∣ bound)
    (highBelow : high < bound) (sameBlock : low / step = high / step) :
    (∀ value < bound, (low ≤ value ∧ value ≤ high ↔ value / step = low / step)) ↔
      low % step = 0 ∧ high % step = step - 1 := by
  have lowSplit := Nat.mod_add_div' low step
  have highSplit := Nat.mod_add_div' high step
  have highInBlock := (Nat.div_eq_iff positive).mp sameBlock.symm
  rw [← sameBlock] at highSplit
  constructor
  · intro block
    -- the first and the last value of the block lie between `low` and `high`
    have startBelow : low / step * step < bound := by omega
    have blockEnd : low / step * step + step ≤ bound :=
      add_le_of_dvd_of_lt (Nat.dvd_mul_left _ _) boundMultiple startBelow
    have start := (block (low / step * step) startBelow).mpr (Nat.mul_div_cancel _ positive)
    have finish := (block (low / step * step + step - 1) (by omega)).mpr
      ((Nat.div_eq_iff positive).mpr (by omega))
    omega
  · rintro ⟨lowAligned, highLast⟩ value _
    rw [Nat.div_eq_iff positive]
    omega

/-- A property of the values of all strings of `width` bytes is one of all values below
`256 ^ width`. -/
theorem forall_length_eq_iff (width : Nat) (property : Nat → Prop) :
    (∀ bytes : List UInt8, bytes.length = width → property (ofBigEndian bytes)) ↔
      ∀ value < 256 ^ width, property value := by
  constructor
  · intro holds value below
    have encoded := holds (bigEndian width value) (length_bigEndian width value)
    rwa [ofBigEndian_bigEndian, Nat.mod_eq_of_lt below] at encoded
  · intro holds bytes length
    exact holds _ (length ▸ ofBigEndian_lt bytes)

theorem modify_length_append {α : Type} (before : List α) (element : α) (after : List α) (f : α → α) :
    (before ++ element :: after).modify before.length f = before ++ f element :: after := by
  rw [List.modify_eq_take_cons_drop (by simp), List.take_left' rfl]
  simp

/-- Keeping the first `count` bytes of a string, masking the last of them to its high
`8 - spare` bits and filling up to the length clears the low `8 * (length - count) + spare`
bits of its value, or sets them all where the mask and the fill set the bits they cover. -/
theorem ofBigEndian_maskedPrefix {bytes : List UInt8} {count spare : Nat} (positive : 0 < count)
    (within : count ≤ bytes.length) (spareLe : spare ≤ 8) (fill : Bool) {f : UInt8 → UInt8}
    (masked : ∀ byte : UInt8, (f byte).toNat = byte.toNat / 2 ^ spare * 2 ^ spare + fill.toNat * (2 ^ spare - 1))
    {fillByte : UInt8} (fillValue : fillByte.toNat = fill.toNat * 255) :
    ofBigEndian ((bytes.take count ++ List.replicate (bytes.length - count) fillByte).modify (count - 1) f) =
      ofBigEndian bytes / 2 ^ (8 * (bytes.length - count) + spare) * 2 ^ (8 * (bytes.length - count) + spare) +
        fill.toNat * (2 ^ (8 * (bytes.length - count) + spare) - 1) := by
  obtain ⟨pre, byte, post, rfl, preLength, -⟩ := List.exists_of_modify f (by omega : count - 1 < bytes.length)
  have postLength : (pre ++ byte :: post).length - count = post.length := by simp; omega
  have kept : (pre ++ byte :: post).take count = pre ++ [byte] := by
    rw [List.take_append, List.take_of_length_le (by omega), preLength, show count - (count - 1) = 1 by omega]
    rfl
  rw [kept, postLength, List.append_assoc, List.singleton_append, ← preLength, modify_length_append]
  have fillRun : ofBigEndian (List.replicate post.length fillByte) = fill.toNat * (256 ^ post.length - 1) := by
    cases fill
    · rw [show fillByte = 0 from UInt8.toNat_inj.mp fillValue, ofBigEndian_replicate_zero]
      simp
    · rw [show fillByte = 0xff from UInt8.toNat_inj.mp fillValue, ofBigEndian_replicate_max]
      simp
  -- the value in units of the `256 ^ post.length` weight of the masked byte
  set weight := 256 ^ post.length with weightDef
  have weightPositive : 0 < weight := by positivity
  have postBelow : ofBigEndian post < weight := ofBigEndian_lt post
  have unit : 2 ^ (8 * post.length + spare) = weight * 2 ^ spare := by
    rw [Nat.pow_add, Nat.pow_mul]
  have byteUnit : 256 = 2 ^ (8 - spare) * 2 ^ spare := by
    rw [← Nat.pow_add, Nat.sub_add_cancel spareLe]
  have high : ofBigEndian (pre ++ byte :: post) / weight = ofBigEndian pre * 256 + byte.toNat := by
    rw [ofBigEndian_append, ofBigEndian_cons, List.length_cons, Nat.pow_succ, ← weightDef]
    rw [show ofBigEndian pre * (weight * 256) + (byte.toNat * weight + ofBigEndian post) =
      weight * (ofBigEndian pre * 256 + byte.toNat) + ofBigEndian post by ring]
    rw [Nat.mul_add_div weightPositive, Nat.div_eq_of_lt postBelow, Nat.add_zero]
  have highBits : (ofBigEndian pre * 256 + byte.toNat) / 2 ^ spare =
      ofBigEndian pre * 2 ^ (8 - spare) + byte.toNat / 2 ^ spare := by
    rw [byteUnit, show ofBigEndian pre * (2 ^ (8 - spare) * 2 ^ spare) + byte.toNat =
      2 ^ spare * (ofBigEndian pre * 2 ^ (8 - spare)) + byte.toNat by ring, Nat.mul_add_div (Nat.two_pow_pos _)]
  rw [unit, ← Nat.div_div_eq_div_mul, high, highBits, ofBigEndian_append, ofBigEndian_cons, fillRun, masked,
    List.length_cons, List.length_replicate, Nat.pow_succ, ← weightDef]
  have spareUnits : 1 ≤ 2 ^ spare := Nat.one_le_two_pow
  have whole : weight ≤ weight * 2 ^ spare := Nat.le_mul_of_pos_right _ (Nat.two_pow_pos _)
  cases fill
  · simp only [Bool.toNat_false, Nat.zero_mul, Nat.add_zero]
    rw [byteUnit]
    ring
  · simp only [Bool.toNat_true, Nat.one_mul]
    -- the set bits of the masked byte and of the fill together are the low bits of the block
    have lowBits : (2 ^ spare - 1) * weight + (weight - 1) = weight * 2 ^ spare - 1 := by
      rw [Nat.sub_mul, Nat.one_mul, Nat.mul_comm]
      omega
    calc ofBigEndian pre * (weight * 256) + ((byte.toNat / 2 ^ spare * 2 ^ spare + (2 ^ spare - 1)) * weight +
          (weight - 1))
        = ofBigEndian pre * (weight * 256) + byte.toNat / 2 ^ spare * 2 ^ spare * weight +
          ((2 ^ spare - 1) * weight + (weight - 1)) := by ring
      _ = (ofBigEndian pre * 2 ^ (8 - spare) + byte.toNat / 2 ^ spare) * (weight * 2 ^ spare) +
          (weight * 2 ^ spare - 1) := by rw [lowBits, byteUnit]; ring

end StrongSwan.Foundations.Bytes
