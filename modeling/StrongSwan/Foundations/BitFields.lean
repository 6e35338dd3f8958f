import Mathlib
import StrongSwan.Foundations.Bytes

/-!
Contract: bit fields of natural numbers, little-endian byte strings, fields
laid out from the low bits up, and sliced sums of a word.

`ofLittleEndian` reads a byte string least significant byte first and
`leBytes count value` writes the low `count` bytes of `value` that way.
`packedValue` lays a list of `(value, width)` fields out from the low bits up,
the first field lowest, each cut to its width.

A sliced sum adds the shifts of a word by `0, …, shifts - 1`, each under the
mask `lowBits width count` that keeps the lowest bit of each of `count` fields
of `width` bits. While `shifts < 2 ^ width` no field carries into the next, so
field `m` of the sum counts the set bits among the lowest `shifts` bits of
field `m` of the word.

Owns:
- the round trip of `leBytes` through `ofLittleEndian`, and how both split at
  a byte boundary;
- the window of `packedValue` at a field's offset, which is the field;
- the field-by-field reading of a sliced sum, and its bound.

Does not own: any program's staging words or masks; the ML-KEM bit packer and
its noise sampler instantiate these laws.
-/

namespace StrongSwan.Foundations.BitFields

open StrongSwan.Foundations.Bytes

/-! ## Windows of a number -/

/-- Cutting a number below a power of two and shifting it down reads the window between. -/
theorem mod_two_pow_div_two_pow (value low high : Nat) :
    value % 2 ^ (low + high) / 2 ^ low = value / 2 ^ low % 2 ^ high := by
  rw [Nat.pow_add, Nat.mod_mul_right_div_self]

/-- The low `low + high` bits are the low `low` bits and the next `high` above them. -/
theorem mod_two_pow_add (value low high : Nat) :
    value % 2 ^ (low + high) = value % 2 ^ low + 2 ^ low * (value / 2 ^ low % 2 ^ high) := by
  rw [Nat.pow_add, Nat.mod_mul]

/-- A window below `bound` does not see what lies above `2 ^ bound`. -/
theorem add_two_pow_mul_div_mod {low : Nat} (high : Nat) {start width bound : Nat}
    (below : start + width ≤ bound) :
    (low + 2 ^ bound * high) / 2 ^ start % 2 ^ width = low / 2 ^ start % 2 ^ width := by
  have split : 2 ^ bound = 2 ^ start * (2 ^ width * 2 ^ (bound - start - width)) := by
    rw [← Nat.pow_add, ← Nat.pow_add]
    congr 1
    omega
  rw [split, Nat.mul_assoc, Nat.add_mul_div_left _ _ (Nat.two_pow_pos start), Nat.mul_assoc,
    Nat.add_mul_mod_self_left]

/-! ## Little-endian byte strings -/

/-- Value of a little-endian byte string. -/
def ofLittleEndian : List UInt8 → Nat
  | [] => 0
  | byte :: rest => byte.toNat + 256 * ofLittleEndian rest

/-- The low `count` bytes of `value`, least significant first. -/
def leBytes : Nat → Nat → List UInt8
  | 0, _ => []
  | count + 1, value => UInt8.ofNat value :: leBytes count (value / 256)

@[simp] theorem ofLittleEndian_nil : ofLittleEndian [] = 0 := rfl

theorem ofLittleEndian_cons (byte : UInt8) (rest : List UInt8) :
    ofLittleEndian (byte :: rest) = byte.toNat + 256 * ofLittleEndian rest := rfl

@[simp] theorem leBytes_zero (value : Nat) : leBytes 0 value = [] := rfl

theorem leBytes_succ (count value : Nat) :
    leBytes (count + 1) value = UInt8.ofNat value :: leBytes count (value / 256) := rfl

@[simp] theorem length_leBytes (count value : Nat) : (leBytes count value).length = count := by
  induction count generalizing value with
  | zero => rfl
  | succ count inductionHypothesis => rw [leBytes_succ, List.length_cons, inductionHypothesis]

theorem ofLittleEndian_append (front back : List UInt8) :
    ofLittleEndian (front ++ back) = ofLittleEndian front + 256 ^ front.length * ofLittleEndian back := by
  induction front with
  | nil => simp
  | cons byte front inductionHypothesis =>
    rw [List.cons_append, ofLittleEndian_cons, ofLittleEndian_cons, inductionHypothesis,
      List.length_cons, Nat.pow_succ]
    ring

theorem ofLittleEndian_lt (bytes : List UInt8) : ofLittleEndian bytes < 256 ^ bytes.length := by
  induction bytes with
  | nil => simp
  | cons byte rest inductionHypothesis =>
    rw [ofLittleEndian_cons, List.length_cons, Nat.pow_succ]
    have byteBelow : byte.toNat < 256 := byte.toNat_lt
    -- the rest's weight leaves room below it for the first byte
    calc byte.toNat + 256 * ofLittleEndian rest
        < 256 + 256 * ofLittleEndian rest := by omega
      _ = 256 * (ofLittleEndian rest + 1) := by ring
      _ ≤ 256 * 256 ^ rest.length := Nat.mul_le_mul_left _ inductionHypothesis
      _ = 256 ^ rest.length * 256 := Nat.mul_comm _ _

theorem ofLittleEndian_leBytes (count value : Nat) :
    ofLittleEndian (leBytes count value) = value % 256 ^ count := by
  induction count generalizing value with
  | zero => simp [Nat.mod_one]
  | succ count inductionHypothesis =>
    have split : value % 256 ^ (count + 1) = value % 256 + 256 * (value / 256 % 256 ^ count) := by
      rw [Nat.pow_succ', Nat.mod_mul]
    rw [leBytes_succ, ofLittleEndian_cons, inductionHypothesis, UInt8.toNat_ofNat', split]

/-- `leBytes` only reads the low `count` bytes of its value. -/
theorem leBytes_mod (count value : Nat) : leBytes count (value % 256 ^ count) = leBytes count value := by
  induction count generalizing value with
  | zero => rfl
  | succ count inductionHypothesis =>
    have lowByte : UInt8.ofNat (value % 256 ^ (count + 1)) = UInt8.ofNat value := by
      apply UInt8.toNat.inj
      rw [UInt8.toNat_ofNat', UInt8.toNat_ofNat']
      exact Nat.mod_mod_of_dvd _ (dvd_pow_self 256 (Nat.succ_ne_zero count))
    rw [leBytes_succ, leBytes_succ, lowByte, Nat.pow_succ', Nat.mod_mul_right_div_self,
      inductionHypothesis]

theorem leBytes_congr {count first second : Nat} (same : first % 256 ^ count = second % 256 ^ count) :
    leBytes count first = leBytes count second := by
  rw [← leBytes_mod, same, leBytes_mod]

/-- Writing `front + back` bytes is writing `front` and then the rest of the value. -/
theorem leBytes_add (front back value : Nat) :
    leBytes (front + back) value = leBytes front value ++ leBytes back (value / 256 ^ front) := by
  induction front generalizing value with
  | zero => simp
  | succ front inductionHypothesis =>
    rw [Nat.add_right_comm, leBytes_succ, leBytes_succ, inductionHypothesis, List.cons_append,
      Nat.div_div_eq_div_mul, Nat.pow_succ']

theorem ofLittleEndian_take (bytes : List UInt8) (count : Nat) :
    ofLittleEndian (bytes.take count) = ofLittleEndian bytes % 256 ^ count := by
  induction bytes generalizing count with
  | nil => simp
  | cons byte rest inductionHypothesis =>
    cases count with
    | zero => simp [Nat.mod_one]
    | succ count =>
      rw [List.take_succ_cons, ofLittleEndian_cons, ofLittleEndian_cons, inductionHypothesis,
        Nat.pow_succ', Nat.mod_mul, Nat.add_mul_div_left _ _ (by decide : 0 < 256),
        Nat.div_eq_of_lt byte.toNat_lt, Nat.zero_add, Nat.add_mul_mod_self_left,
        Nat.mod_eq_of_lt byte.toNat_lt]

theorem ofLittleEndian_drop (bytes : List UInt8) (count : Nat) :
    ofLittleEndian (bytes.drop count) = ofLittleEndian bytes / 256 ^ count := by
  induction bytes generalizing count with
  | nil => simp
  | cons byte rest inductionHypothesis =>
    cases count with
    | zero => simp
    | succ count =>
      rw [List.drop_succ_cons, inductionHypothesis, ofLittleEndian_cons, Nat.pow_succ',
        ← Nat.div_div_eq_div_mul, Nat.add_mul_div_left _ _ (by decide : 0 < 256),
        Nat.div_eq_of_lt byte.toNat_lt, Nat.zero_add]

/-- Byte `index` of a string is the digit of its value at `256 ^ index`. -/
theorem ofLittleEndian_div_mod (bytes : List UInt8) (index : Nat) :
    ofLittleEndian bytes / 256 ^ index % 256 = (bytes.getD index 0).toNat := by
  induction bytes generalizing index with
  | nil => simp
  | cons byte rest inductionHypothesis =>
    cases index with
    | zero => rw [ofLittleEndian_cons, Nat.pow_zero, Nat.div_one, Nat.add_mul_mod_self_left,
        Nat.mod_eq_of_lt byte.toNat_lt, List.getD_cons_zero]
    | succ index =>
      rw [ofLittleEndian_cons, Nat.pow_succ', ← Nat.div_div_eq_div_mul,
        Nat.add_mul_div_left _ _ (by decide : 0 < 256), Nat.div_eq_of_lt byte.toNat_lt, Nat.zero_add,
        inductionHypothesis, List.getD_cons_succ]

theorem ofLittleEndian_take_succ (bytes : List UInt8) (count : Nat) :
    ofLittleEndian (bytes.take (count + 1)) =
      ofLittleEndian (bytes.take count) + 256 ^ count * (bytes.getD count 0).toNat := by
  rw [ofLittleEndian_take, ofLittleEndian_take, Nat.pow_succ, Nat.mod_mul, ofLittleEndian_div_mod]

/-- The bytes from `start` on, `count` of them, as bits of the whole string. -/
theorem ofLittleEndian_window (bytes : List UInt8) (start count : Nat) :
    ofLittleEndian ((bytes.drop start).take count) = ofLittleEndian bytes / 2 ^ (8 * start) % 2 ^ (8 * count) := by
  rw [ofLittleEndian_take, ofLittleEndian_drop, Nat.pow_mul, Nat.pow_mul]

/-! ## Fields packed from the low bits up -/

/-- Fields laid out least significant first, each cut to its width. -/
def packedValue : List (Nat × Nat) → Nat
  | [] => 0
  | (value, width) :: rest => value % 2 ^ width + 2 ^ width * packedValue rest

/-- The sum of the widths of the fields. -/
def totalWidth (fields : List (Nat × Nat)) : Nat := (fields.map Prod.snd).sum

@[simp] theorem packedValue_nil : packedValue [] = 0 := rfl

theorem packedValue_cons (value width : Nat) (rest : List (Nat × Nat)) :
    packedValue ((value, width) :: rest) = value % 2 ^ width + 2 ^ width * packedValue rest := rfl

@[simp] theorem totalWidth_nil : totalWidth [] = 0 := rfl

@[simp] theorem totalWidth_cons (field : Nat × Nat) (rest : List (Nat × Nat)) :
    totalWidth (field :: rest) = field.2 + totalWidth rest := by
  simp [totalWidth]

theorem packedValue_lt (fields : List (Nat × Nat)) : packedValue fields < 2 ^ totalWidth fields := by
  induction fields with
  | nil => simp
  | cons field rest inductionHypothesis =>
    obtain ⟨value, width⟩ := field
    rw [packedValue_cons, totalWidth_cons, Nat.pow_add]
    have low : value % 2 ^ width < 2 ^ width := Nat.mod_lt _ (Nat.two_pow_pos width)
    calc value % 2 ^ width + 2 ^ width * packedValue rest
        < 2 ^ width + 2 ^ width * packedValue rest := by omega
      _ = 2 ^ width * (packedValue rest + 1) := by ring
      _ ≤ 2 ^ width * 2 ^ totalWidth rest := Nat.mul_le_mul_left _ inductionHypothesis

/-- The fields of `widths` of `value`, read from bit `offset` up. -/
def windows (value : Nat) : Nat → List Nat → List Nat
  | _, [] => []
  | offset, width :: rest => value / 2 ^ offset % 2 ^ width :: windows value (offset + width) rest

theorem windows_cons (value offset width : Nat) (rest : List Nat) :
    windows value offset (width :: rest) = value / 2 ^ offset % 2 ^ width :: windows value (offset + width) rest :=
  rfl

/-- Windows above `offset` of a number with `low` below `2 ^ offset` are windows of the rest. -/
theorem windows_shift {low : Nat} {offset : Nat} (lowBelow : low < 2 ^ offset) (high skip : Nat)
    (widths : List Nat) : windows (low + 2 ^ offset * high) (offset + skip) widths = windows high skip widths := by
  induction widths generalizing skip with
  | nil => rfl
  | cons width rest inductionHypothesis =>
    rw [windows_cons, windows_cons, Nat.add_assoc, inductionHypothesis, Nat.pow_add, ← Nat.div_div_eq_div_mul,
      Nat.add_mul_div_left _ _ (Nat.two_pow_pos offset), Nat.div_eq_of_lt lowBelow, Nat.zero_add]

/-- Windows that end below `bound` do not see what lies above `2 ^ bound`. -/
theorem windows_add_two_pow_mul {low bound : Nat} (high : Nat) {offset : Nat} {widths : List Nat}
    (below : offset + widths.sum ≤ bound) :
    windows (low + 2 ^ bound * high) offset widths = windows low offset widths := by
  induction widths generalizing offset with
  | nil => rfl
  | cons width rest inductionHypothesis =>
    rw [List.sum_cons] at below
    rw [windows_cons, windows_cons, add_two_pow_mul_div_mod high (by omega), inductionHypothesis (by omega)]

/-- Reading the fields back from their packed value gives each field cut to its width. -/
theorem windows_packedValue (fields : List (Nat × Nat)) :
    windows (packedValue fields) 0 (fields.map Prod.snd) = fields.map fun field => field.1 % 2 ^ field.2 := by
  induction fields with
  | nil => rfl
  | cons field rest inductionHypothesis =>
    obtain ⟨value, width⟩ := field
    have low : value % 2 ^ width < 2 ^ width := Nat.mod_lt _ (Nat.two_pow_pos width)
    have shifted := windows_shift low (packedValue rest) 0 (rest.map Prod.snd)
    rw [Nat.add_zero] at shifted
    show windows (value % 2 ^ width + 2 ^ width * packedValue rest) 0 (width :: rest.map Prod.snd) =
      value % 2 ^ width :: rest.map fun field => field.1 % 2 ^ field.2
    rw [windows_cons, Nat.zero_add, Nat.pow_zero, Nat.div_one, Nat.add_mul_mod_self_left, Nat.mod_mod,
      shifted, inductionHypothesis]

/-! ## Sliced sums -/

/-- The mask with the lowest bit of each of `count` fields of `width` bits set. -/
def lowBits (width : Nat) : Nat → Nat
  | 0 => 0
  | count + 1 => 1 + 2 ^ width * lowBits width count

/-- The sum of the shifts of `word` by `0, …, shifts - 1`, each under `lowBits width count`. -/
def slicedSum (width count word : Nat) : Nat → Nat
  | 0 => 0
  | shifts + 1 => slicedSum width count word shifts + (word >>> shifts &&& lowBits width count)

/-- The number of set bits among the lowest `shifts` bits of `word`. -/
def bitCount (word shifts : Nat) : Nat := ∑ r ∈ Finset.range shifts, word / 2 ^ r % 2

/-- Field `index` of `width` bits of `value`. -/
def fieldAt (width index value : Nat) : Nat := value / 2 ^ (width * index) % 2 ^ width

theorem lowBits_succ (width count : Nat) :
    lowBits width (count + 1) = 1 + 2 ^ width * lowBits width count := rfl

theorem slicedSum_zero (width count word : Nat) : slicedSum width count word 0 = 0 := rfl

theorem slicedSum_succ (width count word shifts : Nat) :
    slicedSum width count word (shifts + 1) =
      slicedSum width count word shifts + (word >>> shifts &&& lowBits width count) := rfl

theorem bitCount_succ (word shifts : Nat) :
    bitCount word (shifts + 1) = bitCount word shifts + word / 2 ^ shifts % 2 :=
  Finset.sum_range_succ _ _

theorem bitCount_le (word shifts : Nat) : bitCount word shifts ≤ shifts := by
  induction shifts with
  | zero => simp [bitCount]
  | succ shifts inductionHypothesis =>
    rw [bitCount_succ]
    have bit : word / 2 ^ shifts % 2 < 2 := Nat.mod_lt _ (by decide)
    omega

/-- A conjunction splits at bit `width` into the low fields and the high ones. -/
theorem land_split (width first second : Nat) :
    first &&& second =
      (first % 2 ^ width &&& second % 2 ^ width) + 2 ^ width * (first / 2 ^ width &&& second / 2 ^ width) := by
  rw [← Nat.and_mod_two_pow, ← Nat.and_div_two_pow, Nat.mod_add_div]

/-- Under the mask, the lowest field keeps its lowest bit and the others go on. -/
theorem land_lowBits_succ {width : Nat} (positive : 0 < width) (word count : Nat) :
    word &&& lowBits width (count + 1) = word % 2 + 2 ^ width * (word / 2 ^ width &&& lowBits width count) := by
  have lowField : lowBits width (count + 1) % 2 ^ width = 1 := by
    rw [lowBits_succ, Nat.add_mul_mod_self_left]
    exact Nat.mod_eq_of_lt (Nat.one_lt_two_pow positive.ne')
  have highFields : lowBits width (count + 1) / 2 ^ width = lowBits width count := by
    rw [lowBits_succ, Nat.add_mul_div_left _ _ (Nat.two_pow_pos width),
      Nat.div_eq_of_lt (Nat.one_lt_two_pow positive.ne'), Nat.zero_add]
  have lowBit : word % 2 ^ width % 2 = word % 2 :=
    Nat.mod_mod_of_dvd _ (dvd_pow_self 2 positive.ne')
  rw [land_split width, lowField, highFields, Nat.and_one_is_mod, lowBit]

@[simp] theorem slicedSum_count_zero (width word shifts : Nat) : slicedSum width 0 word shifts = 0 := by
  induction shifts with
  | zero => rfl
  | succ shifts inductionHypothesis =>
    rw [slicedSum_succ, inductionHypothesis, lowBits, Nat.and_zero]

/-- A sliced sum over `count + 1` fields is the lowest field's count and the sum over the rest. -/
theorem slicedSum_count_succ {width : Nat} (positive : 0 < width) (count word shifts : Nat) :
    slicedSum width (count + 1) word shifts =
      bitCount word shifts + 2 ^ width * slicedSum width count (word / 2 ^ width) shifts := by
  induction shifts with
  | zero => rfl
  | succ shifts inductionHypothesis =>
    have shifted : word >>> shifts / 2 ^ width = (word / 2 ^ width) >>> shifts := by
      rw [Nat.shiftRight_eq_div_pow, Nat.shiftRight_eq_div_pow, Nat.div_div_eq_div_mul,
        Nat.div_div_eq_div_mul, Nat.mul_comm]
    have lowestBit : word >>> shifts % 2 = word / 2 ^ shifts % 2 := by
      rw [Nat.shiftRight_eq_div_pow]
    rw [slicedSum_succ, slicedSum_succ, inductionHypothesis, land_lowBits_succ positive, shifted,
      lowestBit, bitCount_succ]
    ring

theorem slicedSum_lt {width : Nat} (positive : 0 < width) {shifts : Nat} (noCarry : shifts < 2 ^ width)
    (count word : Nat) : slicedSum width count word shifts < 2 ^ (width * count) := by
  induction count generalizing word with
  | zero => simp
  | succ count inductionHypothesis =>
    rw [slicedSum_count_succ positive, Nat.mul_succ, Nat.pow_add, Nat.mul_comm (2 ^ (width * count))]
    have low : bitCount word shifts < 2 ^ width := lt_of_le_of_lt (bitCount_le word shifts) noCarry
    have high := inductionHypothesis (word / 2 ^ width)
    calc bitCount word shifts + 2 ^ width * slicedSum width count (word / 2 ^ width) shifts
        < 2 ^ width + 2 ^ width * slicedSum width count (word / 2 ^ width) shifts := by omega
      _ = 2 ^ width * (slicedSum width count (word / 2 ^ width) shifts + 1) := by ring
      _ ≤ 2 ^ width * 2 ^ (width * count) := Nat.mul_le_mul_left _ high

theorem fieldAt_zero (width value : Nat) : fieldAt width 0 value = value % 2 ^ width := by
  simp [fieldAt]

theorem fieldAt_succ (width index value : Nat) :
    fieldAt width (index + 1) value = fieldAt width index (value / 2 ^ width) := by
  rw [fieldAt, fieldAt, Nat.div_div_eq_div_mul, ← Nat.pow_add, Nat.mul_succ, Nat.add_comm]

/-- While no field carries, field `index` of a sliced sum counts the lowest `shifts` bits of
field `index` of the word. -/
theorem fieldAt_slicedSum {width : Nat} (positive : 0 < width) {shifts : Nat}
    (noCarry : shifts < 2 ^ width) {index count : Nat} (inside : index < count) (word : Nat) :
    fieldAt width index (slicedSum width count word shifts) = bitCount (word / 2 ^ (width * index)) shifts := by
  induction index generalizing count word with
  | zero =>
    obtain ⟨count, rfl⟩ := Nat.exists_eq_add_of_lt inside
    rw [fieldAt_zero, Nat.zero_add, slicedSum_count_succ positive, Nat.add_mul_mod_self_left,
      Nat.mod_eq_of_lt (lt_of_le_of_lt (bitCount_le word shifts) noCarry), Nat.mul_zero, Nat.pow_zero,
      Nat.div_one]
  | succ index inductionHypothesis =>
    obtain ⟨count, rfl⟩ := Nat.exists_eq_add_of_lt (Nat.lt_of_succ_lt inside)
    have lowCount : bitCount word shifts < 2 ^ width := lt_of_le_of_lt (bitCount_le word shifts) noCarry
    rw [fieldAt_succ, slicedSum_count_succ positive, Nat.add_mul_div_left _ _ (Nat.two_pow_pos width),
      Nat.div_eq_of_lt lowCount, Nat.zero_add, inductionHypothesis (by omega), Nat.div_div_eq_div_mul,
      ← Nat.pow_add, Nat.mul_succ, Nat.add_comm (width * index)]

/-- The set bits counted in a field are the bits of the word at the field's offset. -/
theorem bitCount_div_two_pow (word offset shifts : Nat) :
    bitCount (word / 2 ^ offset) shifts = ∑ r ∈ Finset.range shifts, word / 2 ^ (offset + r) % 2 := by
  unfold bitCount
  refine Finset.sum_congr rfl fun r _ => ?_
  rw [Nat.div_div_eq_div_mul, ← Nat.pow_add]

/-- A bit inside a window of a number is the bit of the number at the window's offset. -/
theorem window_bit (value start width : Nat) {index : Nat} (inside : index < width) :
    value / 2 ^ start % 2 ^ width / 2 ^ index % 2 = value / 2 ^ (start + index) % 2 := by
  obtain ⟨rest, rfl⟩ : ∃ rest, width = index + (rest + 1) := ⟨width - index - 1, by omega⟩
  rw [mod_two_pow_div_two_pow, Nat.mod_mod_of_dvd _ (dvd_pow_self 2 (Nat.succ_ne_zero rest)),
    Nat.div_div_eq_div_mul, ← Nat.pow_add]

/-- The set bits counted in a field of the bytes `start .. start + count` of a string are
bits of the whole string. -/
theorem bitCount_window (bytes : List UInt8) (start count offset shifts : Nat)
    (inside : offset + shifts ≤ 8 * count) :
    bitCount (ofLittleEndian ((bytes.drop start).take count) / 2 ^ offset) shifts =
      ∑ r ∈ Finset.range shifts, ofLittleEndian bytes / 2 ^ (8 * start + offset + r) % 2 := by
  rw [bitCount_div_two_pow, ofLittleEndian_window]
  refine Finset.sum_congr rfl fun r within => ?_
  rw [window_bit _ _ _ (by rw [Finset.mem_range] at within; omega), Nat.add_assoc]

end StrongSwan.Foundations.BitFields
