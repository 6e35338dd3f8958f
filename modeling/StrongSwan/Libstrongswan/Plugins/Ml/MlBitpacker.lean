import Mathlib
import StrongSwan.Foundations.BitFields

/-!
Contract: the bit packer of `ml_bitpacker.c`, with the word loads and stores
`ml_read_bytes_le` and `ml_write_bytes_le` of `ml_utils.c`.

A writer made by `ml_bitpacker_create` stages bits, lowest first, in the
32-bit word `bits_buf` with `bits_left` free bits, and flushes the word into
the destination four bytes at a time; `destroy` flushes what is staged. A
reader made by `ml_bitpacker_create_from_data` loads up to four bytes into the
word when it is empty and hands its bits out. The shifts are `UInt32` shifts,
which take their count modulo 32 as x86 does for the shifts by 32 that C
leaves undefined.

The writer's state after any fields is a function of their total width and
packed value (`Writer.Holds`), the reader's after any bits read a function of
their number (`Reader.Holds`); one call keeps each. A width of 32 at a word
boundary is the one write neither keeps.

Owns:
- that the fuel of both loops, one more than the bits asked for, never runs
  out;
- the step lemmas of `write_bits`, `read_bits` and `destroy` on those states,
  and their runs over a sequence of fields;
- the round trip: for widths from 1 to 32 that fit the destination, none of
  32 at a word boundary, the destination holds the packed value of the fields,
  each read returns its field, and a write returns `FALSE` exactly when it
  fills a destination whose length is a multiple of four;
- both divergences at their inputs: that `FALSE`, and a width of 32 at a word
  boundary, which reads back as 0 and is written into the next word again.

Does not own: the compression and decompression of `ml_kem.c` around the
packer.
-/

namespace StrongSwan.Libstrongswan.Plugins.Ml.MlBitpacker

open StrongSwan.Foundations.Bytes StrongSwan.Foundations.BitFields

/-! ## Words and bytes -/

/-- `ml_read_bytes_le`: the first `len` bytes of `buf` as a little-endian word. -/
def mlReadBytesLe (buf : List UInt8) (len : Nat) : UInt32 :=
  (List.range len).foldl (fun x i => x ||| (buf.getD i 0).toUInt32 <<< (8 * i).toUInt32) 0

/-- `ml_write_bytes_le`: the `len` bytes it stores, least significant first. -/
def mlWriteBytesLe : Nat → UInt32 → List UInt8
  | 0, _ => []
  | len + 1, val => val.toUInt8 :: mlWriteBytesLe len (val >>> 8)

theorem toNat_toUInt32 (count : Nat) : count.toUInt32.toNat = count % 2 ^ 32 := UInt32.toNat_ofNat'

/-- A shift by less than 32 is a multiplication, cut to 32 bits. -/
theorem toNat_shiftLeft_of_lt (word : UInt32) {count : Nat} (below : count < 32) :
    (word <<< count.toUInt32).toNat = 2 ^ count * (word.toNat % 2 ^ (32 - count)) := by
  have split : 2 ^ 32 = 2 ^ count * 2 ^ (32 - count) := by
    rw [← Nat.pow_add]
    congr 1
    omega
  rw [UInt32.toNat_shiftLeft, toNat_toUInt32, Nat.mod_eq_of_lt (by omega : count < 2 ^ 32),
    Nat.mod_eq_of_lt below, Nat.shiftLeft_eq, split, Nat.mul_comm, Nat.mul_mod_mul_left]

theorem toNat_shiftRight_of_lt (word : UInt32) {count : Nat} (below : count < 32) :
    (word >>> count.toUInt32).toNat = word.toNat / 2 ^ count := by
  rw [UInt32.toNat_shiftRight, toNat_toUInt32, Nat.mod_eq_of_lt (by omega : count < 2 ^ 32),
    Nat.mod_eq_of_lt below, Nat.shiftRight_eq_div_pow]

/-- The mask `(1 << bits) - 1` keeps the low `bits` bits, for `bits < 32`. -/
theorem toNat_and_mask (word : UInt32) {bits : Nat} (below : bits < 32) :
    (word &&& (((1 : UInt32) <<< bits.toUInt32) - 1)).toNat = word.toNat % 2 ^ bits := by
  have power : ((1 : UInt32) <<< bits.toUInt32).toNat = 2 ^ bits := by
    rw [toNat_shiftLeft_of_lt 1 below, UInt32.toNat_one,
      Nat.mod_eq_of_lt (Nat.one_lt_two_pow (by omega)), Nat.mul_one]
  have positive : 0 < 2 ^ bits := Nat.two_pow_pos bits
  have fits : 2 ^ bits < 2 ^ 32 := Nat.pow_lt_pow_right (by decide) below
  have mask : (((1 : UInt32) <<< bits.toUInt32) - 1).toNat = 2 ^ bits - 1 := by
    rw [UInt32.toNat_sub, power, UInt32.toNat_one]
    omega
  rw [UInt32.toNat_and, mask, Nat.and_two_pow_sub_one_eq_mod]

/-- Or-ing a word shifted by `offset` into one below `2 ^ offset` adds the bits it keeps. -/
theorem toNat_or_shiftLeft {low : UInt32} {offset : Nat} (below : offset < 32)
    (lowBelow : low.toNat < 2 ^ offset) (high : UInt32) :
    (low ||| high <<< offset.toUInt32).toNat = low.toNat + 2 ^ offset * (high.toNat % 2 ^ (32 - offset)) := by
  rw [UInt32.toNat_or, toNat_shiftLeft_of_lt high below, Nat.mul_comm, lor_mul_two_pow_eq_add _ _ lowBelow,
    Nat.mul_comm]

theorem mlReadBytesLe_succ (buf : List UInt8) (len : Nat) :
    mlReadBytesLe buf (len + 1) = mlReadBytesLe buf len ||| (buf.getD len 0).toUInt32 <<< (8 * len).toUInt32 := by
  rw [mlReadBytesLe, mlReadBytesLe, List.range_succ, List.foldl_append, List.foldl_cons, List.foldl_nil]

/-- Up to four bytes load as their little-endian value. -/
theorem toNat_mlReadBytesLe (buf : List UInt8) {len : Nat} (short : len ≤ 4) :
    (mlReadBytesLe buf len).toNat = ofLittleEndian (buf.take len) := by
  induction len with
  | zero => rfl
  | succ len inductionHypothesis =>
    have weight : 2 ^ (8 * len) = 256 ^ len := by rw [Nat.pow_mul]
    have lowBelow : (mlReadBytesLe buf len).toNat < 2 ^ (8 * len) := by
      rw [inductionHypothesis (by omega), weight]
      calc ofLittleEndian (buf.take len) < 256 ^ (buf.take len).length := ofLittleEndian_lt _
        _ ≤ 256 ^ len := Nat.pow_le_pow_right (by decide) (List.length_take_le _ _)
    have byteFits : (buf.getD len 0).toNat < 2 ^ (32 - 8 * len) :=
      calc (buf.getD len 0).toNat < 2 ^ 8 := (buf.getD len 0).toNat_lt
        _ ≤ 2 ^ (32 - 8 * len) := Nat.pow_le_pow_right (by decide) (by omega)
    rw [mlReadBytesLe_succ, toNat_or_shiftLeft (by omega) lowBelow, UInt8.toNat_toUInt32,
      Nat.mod_eq_of_lt byteFits, inductionHypothesis (by omega), ofLittleEndian_take_succ, weight]

theorem mlWriteBytesLe_succ (len : Nat) (val : UInt32) :
    mlWriteBytesLe (len + 1) val = val.toUInt8 :: mlWriteBytesLe len (val >>> 8) := rfl

/-- The bytes stored are the low `len` bytes of the word's value. -/
theorem mlWriteBytesLe_eq_leBytes (len : Nat) (val : UInt32) : mlWriteBytesLe len val = leBytes len val.toNat := by
  induction len generalizing val with
  | zero => rfl
  | succ len inductionHypothesis =>
    have shifted : (val >>> 8).toNat = val.toNat / 256 := by
      rw [UInt32.toNat_shiftRight, Nat.shiftRight_eq_div_pow]
      rfl
    rw [mlWriteBytesLe_succ, leBytes_succ, inductionHypothesis, shifted]
    rfl

/-! ## The writer -/

/-- A packer made by `ml_bitpacker_create`: the staging word `bits_buf`, its free bits
`bits_left`, the room `pos.len` left in the destination, and the bytes flushed into the
destination so far. A writer keeps `bits_left` between 1 and 32. -/
structure Writer where
  bitsBuf : UInt32
  bitsLeft : Nat
  room : Nat
  flushed : List UInt8
  bitsLeft_pos : 0 < bitsLeft
  bitsLeft_le : bitsLeft ≤ 32

/-- `ml_bitpacker_create(dst)`. -/
def create (dst : List UInt8) : Writer where
  bitsBuf := 0
  bitsLeft := 32
  room := dst.length
  flushed := []
  bitsLeft_pos := by decide
  bitsLeft_le := le_refl 32

/-- `flush_buffer`: the low `min(4, pos.len)` bytes of the word go to the destination. -/
def Writer.flushBuffer (this : Writer) : Writer :=
  { this with
    room := this.room - min 4 this.room
    flushed := this.flushed ++ mlWriteBytesLe (min 4 this.room) this.bitsBuf }

/-- `this->bits_buf |= value << (32 - this->bits_left)`. -/
def Writer.stage (this : Writer) (value : UInt32) : Writer :=
  { this with bitsBuf := this.bitsBuf ||| value <<< (32 - this.bitsLeft).toUInt32 }

/-- `this->bits_left -= bits`, when the bits fit the word. -/
def Writer.consume (this : Writer) (bits : Nat) (fit : bits < this.bitsLeft) : Writer :=
  { this with
    bitsLeft := this.bitsLeft - bits
    bitsLeft_pos := by omega
    bitsLeft_le := by have := this.bitsLeft_le; omega }

/-- `this->bits_buf = 0; this->bits_left = 32;` after a flush. -/
def Writer.restart (this : Writer) : Writer :=
  { this with bitsBuf := 0, bitsLeft := 32, bitsLeft_pos := by decide, bitsLeft_le := le_refl 32 }

/-- The loop of `write_bits` with `bits` of `value` still to write, on fuel for its
iterations. -/
def Writer.writeLoop : Nat → Writer → UInt32 → Nat → Bool × Writer
  | 0, this, _, _ => (false, this)
  | fuel + 1, this, value, bits =>
    if this.room = 0 then (false, this)
    else if fit : bits < this.bitsLeft then (true, (this.stage value).consume bits fit)
    else
      writeLoop fuel (this.stage value).flushBuffer.restart (value >>> this.bitsLeft.toUInt32)
        (bits - this.bitsLeft)

/-- `write_bits`: its result and the packer after it. -/
def Writer.writeBits (this : Writer) (value : UInt32) (bits : Nat) : Bool × Writer :=
  if bits = 0 then (true, this)
  else if bits > 32 then (false, this)
  else
    this.writeLoop (bits + 1) (if bits < 32 then value &&& (((1 : UInt32) <<< bits.toUInt32) - 1) else value)
      bits

/-- `destroy` of a writer: the bytes it has flushed into the destination when it is freed. -/
def Writer.destroy (this : Writer) : List UInt8 :=
  if this.bitsLeft < 32 then this.flushBuffer.flushed else this.flushed

/-- `write_bits` for each `(value, bits)` in turn: the results and the packer after them. -/
def Writer.writeAll (this : Writer) : List (UInt32 × Nat) → List Bool × Writer
  | [] => ([], this)
  | (value, bits) :: rest =>
    ((this.writeBits value bits).1 :: ((this.writeBits value bits).2.writeAll rest).1,
      ((this.writeBits value bits).2.writeAll rest).2)

/-- `ml_bitpacker_create(dst)`, the writes and `destroy`: the results of the writes and the
destination after them. -/
def pack (dst : List UInt8) (fields : List (UInt32 × Nat)) : List Bool × List UInt8 :=
  (((create dst).writeAll fields).1,
    ((create dst).writeAll fields).2.destroy ++ dst.drop ((create dst).writeAll fields).2.destroy.length)

@[simp] theorem flushBuffer_bitsBuf (this : Writer) : this.flushBuffer.bitsBuf = this.bitsBuf := rfl
@[simp] theorem flushBuffer_bitsLeft (this : Writer) : this.flushBuffer.bitsLeft = this.bitsLeft := rfl
@[simp] theorem flushBuffer_room (this : Writer) : this.flushBuffer.room = this.room - min 4 this.room := rfl
@[simp] theorem flushBuffer_flushed (this : Writer) :
    this.flushBuffer.flushed = this.flushed ++ mlWriteBytesLe (min 4 this.room) this.bitsBuf := rfl
@[simp] theorem stage_bitsBuf (this : Writer) (value : UInt32) :
    (this.stage value).bitsBuf = this.bitsBuf ||| value <<< (32 - this.bitsLeft).toUInt32 := rfl
@[simp] theorem stage_bitsLeft (this : Writer) (value : UInt32) : (this.stage value).bitsLeft = this.bitsLeft := rfl
@[simp] theorem stage_room (this : Writer) (value : UInt32) : (this.stage value).room = this.room := rfl
@[simp] theorem stage_flushed (this : Writer) (value : UInt32) : (this.stage value).flushed = this.flushed := rfl
-- the loop consumes bits of the staged word, whose `bits_left` is that of the writer before
@[simp] theorem stage_consume_bitsBuf (this : Writer) (value : UInt32) (bits : Nat) (fit : bits < this.bitsLeft) :
    ((this.stage value).consume bits fit).bitsBuf = this.bitsBuf ||| value <<< (32 - this.bitsLeft).toUInt32 := rfl
@[simp] theorem stage_consume_bitsLeft (this : Writer) (value : UInt32) (bits : Nat) (fit : bits < this.bitsLeft) :
    ((this.stage value).consume bits fit).bitsLeft = this.bitsLeft - bits := rfl
@[simp] theorem stage_consume_room (this : Writer) (value : UInt32) (bits : Nat) (fit : bits < this.bitsLeft) :
    ((this.stage value).consume bits fit).room = this.room := rfl
@[simp] theorem stage_consume_flushed (this : Writer) (value : UInt32) (bits : Nat) (fit : bits < this.bitsLeft) :
    ((this.stage value).consume bits fit).flushed = this.flushed := rfl
@[simp] theorem restart_bitsBuf (this : Writer) : this.restart.bitsBuf = 0 := rfl
@[simp] theorem restart_bitsLeft (this : Writer) : this.restart.bitsLeft = 32 := rfl
@[simp] theorem restart_room (this : Writer) : this.restart.room = this.room := rfl
@[simp] theorem restart_flushed (this : Writer) : this.restart.flushed = this.flushed := rfl

theorem writeLoop_succ (fuel : Nat) (this : Writer) (value : UInt32) (bits : Nat) :
    this.writeLoop (fuel + 1) value bits =
      if this.room = 0 then (false, this)
      else if fit : bits < this.bitsLeft then (true, (this.stage value).consume bits fit)
      else
        (this.stage value).flushBuffer.restart.writeLoop fuel (value >>> this.bitsLeft.toUInt32)
          (bits - this.bitsLeft) := rfl

theorem writeAll_cons (this : Writer) (value : UInt32) (bits : Nat) (rest : List (UInt32 × Nat)) :
    this.writeAll ((value, bits) :: rest) =
      ((this.writeBits value bits).1 :: ((this.writeBits value bits).2.writeAll rest).1,
        ((this.writeBits value bits).2.writeAll rest).2) := rfl

/-- The fuel `write_bits` gives its loop never runs out: every pass that does not return
writes at least one bit, since `bits_left` is at least 1. -/
theorem writeLoop_fuel (fuel : Nat) : ∀ (this : Writer) (value : UInt32) (bits : Nat), bits < fuel →
    this.writeLoop fuel value bits = this.writeLoop (bits + 1) value bits := by
  induction fuel using Nat.strong_induction_on with
  | _ fuel inductionHypothesis =>
    intro this value bits enough
    obtain ⟨fuel, rfl⟩ : ∃ rest, fuel = rest + 1 := ⟨fuel - 1, by omega⟩
    have positive := this.bitsLeft_pos
    rw [writeLoop_succ, writeLoop_succ]
    by_cases full : this.room = 0
    · rw [if_pos full, if_pos full]
    · rw [if_neg full, if_neg full]
      by_cases fit : bits < this.bitsLeft
      · rw [dif_pos fit, dif_pos fit]
      · -- both fuels outlast the rest of the value
        rw [dif_neg fit, dif_neg fit, inductionHypothesis fuel (by omega), inductionHypothesis bits (by omega)]
        all_goals omega

/-! ## The writer's state after a sequence of fields -/

/-- The writer after fields of total width `total` whose packed value is `packed`, in a
destination of `size` bytes: the whole words are flushed and the rest is staged. -/
structure Writer.Holds (this : Writer) (size total packed : Nat) : Prop where
  flushed : this.flushed = leBytes (4 * (total / 32)) packed
  room : this.room = size - 4 * (total / 32)
  bitsBuf : this.bitsBuf.toNat = packed / 2 ^ (32 * (total / 32))
  bitsLeft : this.bitsLeft = 32 - total % 32
  packed_lt : packed < 2 ^ total
  fits : total ≤ 8 * size

theorem create_holds (dst : List UInt8) : (create dst).Holds dst.length 0 0 where
  flushed := rfl
  room := rfl
  bitsBuf := rfl
  bitsLeft := rfl
  packed_lt := by decide
  fits := Nat.zero_le _

theorem two_pow_word (words : Nat) : 2 ^ (32 * words) = 256 ^ (4 * words) := by
  rw [Nat.pow_mul, Nat.pow_mul]

/-- What is written above the flushed words leaves them as they are. -/
theorem leBytes_add_above (total packed extra : Nat) :
    leBytes (4 * (total / 32)) (packed + 2 ^ total * extra) = leBytes (4 * (total / 32)) packed := by
  apply leBytes_congr
  have split : 2 ^ total = 256 ^ (4 * (total / 32)) * 2 ^ (total % 32) := by
    rw [← two_pow_word, ← Nat.pow_add, Nat.div_add_mod]
  rw [split, Nat.mul_assoc, Nat.add_mul_mod_self_left]

section Holds

variable {this : Writer} {size total packed : Nat}

theorem Writer.Holds.bitsBuf_lt (holds : this.Holds size total packed) :
    this.bitsBuf.toNat < 2 ^ (total % 32) := by
  rw [holds.bitsBuf, Nat.div_lt_iff_lt_mul (Nat.two_pow_pos _), ← Nat.pow_add, Nat.mod_add_div]
  exact holds.packed_lt

/-- Adding a value of `bits` bits at bit `total` keeps the packed value below `2 ^ (total + bits)`. -/
theorem packed_add_lt {total packed : Nat} (packedBelow : packed < 2 ^ total) {bits value : Nat}
    (valueBelow : value < 2 ^ bits) : packed + 2 ^ total * value < 2 ^ (total + bits) :=
  calc packed + 2 ^ total * value
      < 2 ^ total + 2 ^ total * value := by omega
    _ = 2 ^ total * (value + 1) := by ring
    _ ≤ 2 ^ total * 2 ^ bits := Nat.mul_le_mul_left _ valueBelow
    _ = 2 ^ (total + bits) := (Nat.pow_add _ _ _).symm

/-- The bits fit the staged word: they are or-ed in and counted. -/
theorem Writer.Holds.consume (holds : this.Holds size total packed) {value : UInt32} {bits : Nat}
    (fit : bits < this.bitsLeft) (valueBelow : value.toNat < 2 ^ bits) (fits : total + bits ≤ 8 * size) :
    ((this.stage value).consume bits fit).Holds size (total + bits) (packed + 2 ^ total * value.toNat) := by
  have left := holds.bitsLeft
  have sameWord : (total + bits) / 32 = total / 32 := by omega
  have offset : 32 - this.bitsLeft = total % 32 := by omega
  have valueFits : value.toNat < 2 ^ (32 - total % 32) :=
    lt_of_lt_of_le valueBelow (Nat.pow_le_pow_right (by decide) (by omega))
  have staged : (this.stage value).bitsBuf.toNat = this.bitsBuf.toNat + 2 ^ (total % 32) * value.toNat := by
    rw [stage_bitsBuf, offset, toNat_or_shiftLeft (by omega) holds.bitsBuf_lt, Nat.mod_eq_of_lt valueFits]
  have split : 2 ^ total = 2 ^ (32 * (total / 32)) * 2 ^ (total % 32) := by
    rw [← Nat.pow_add, Nat.div_add_mod]
  refine ⟨?_, ?_, ?_, ?_, packed_add_lt holds.packed_lt valueBelow, fits⟩
  · rw [stage_consume_flushed, sameWord, leBytes_add_above, holds.flushed]
  · rw [stage_consume_room, sameWord, holds.room]
  · rw [stage_consume_bitsBuf, ← stage_bitsBuf, staged, sameWord, holds.bitsBuf, split, Nat.mul_assoc,
      Nat.add_mul_div_left _ _ (Nat.two_pow_pos _)]
  · rw [stage_consume_bitsLeft]
    omega

/-- The bits fill the staged word: it is flushed whole and the writer starts a new one. -/
theorem Writer.Holds.flush (holds : this.Holds size total packed) {value : UInt32} {bits : Nat}
    (spill : this.bitsLeft ≤ bits) (inWord : 0 < total % 32) (fits : total + bits ≤ 8 * size) :
    (this.stage value).flushBuffer.restart.Holds size (32 * (total / 32 + 1))
      (packed + 2 ^ total * (value.toNat % 2 ^ this.bitsLeft)) := by
  have left := holds.bitsLeft
  have offset : 32 - this.bitsLeft = total % 32 := by omega
  have wholeRoom : min 4 this.room = 4 := by rw [holds.room]; omega
  have low : value.toNat % 2 ^ this.bitsLeft < 2 ^ this.bitsLeft := Nat.mod_lt _ (Nat.two_pow_pos _)
  have staged : (this.stage value).bitsBuf.toNat =
      this.bitsBuf.toNat + 2 ^ (total % 32) * (value.toNat % 2 ^ this.bitsLeft) := by
    rw [stage_bitsBuf, offset, toNat_or_shiftLeft (by omega) holds.bitsBuf_lt, ← offset, Nat.sub_sub_self this.bitsLeft_le]
  have split : 2 ^ total = 2 ^ (32 * (total / 32)) * 2 ^ (total % 32) := by
    rw [← Nat.pow_add, Nat.div_add_mod]
  have wordBits : total + this.bitsLeft = 32 * (total / 32 + 1) := by omega
  have below : packed + 2 ^ total * (value.toNat % 2 ^ this.bitsLeft) < 2 ^ (32 * (total / 32 + 1)) := by
    rw [← wordBits]
    exact packed_add_lt holds.packed_lt low
  have nextWord : 32 * (total / 32 + 1) / 32 = total / 32 + 1 := by omega
  refine ⟨?_, ?_, ?_, ?_, below, by omega⟩
  · rw [restart_flushed, flushBuffer_flushed, stage_flushed, stage_room, wholeRoom, nextWord, Nat.mul_succ,
      leBytes_add, leBytes_add_above, holds.flushed, mlWriteBytesLe_eq_leBytes, staged, holds.bitsBuf,
      ← two_pow_word, split, Nat.mul_assoc, Nat.add_mul_div_left _ _ (Nat.two_pow_pos _)]
  · rw [restart_room, flushBuffer_room, stage_room, wholeRoom, holds.room, nextWord]
    omega
  · rw [restart_bitsBuf, UInt32.toNat_zero, nextWord, Nat.div_eq_of_lt below]
  · rw [restart_bitsLeft]
    omega

/-- A destination with no room left is full: the fields filled it and its length is a
multiple of four. -/
theorem Writer.Holds.full (holds : this.Holds size total packed) (full : this.room = 0) {bits : Nat}
    (fits : total + bits ≤ 8 * size) : bits = 0 ∧ total + bits = 8 * size ∧ size % 4 = 0 := by
  have room := holds.room
  have filled := holds.fits
  omega

/-- One pass of the loop of `write_bits` at a time: the loop writes the value's bits at bit
`total`, and fails exactly when it has filled a destination whose length is a multiple of
four. -/
theorem Writer.Holds.writeLoop (fuel : Nat) : ∀ {this : Writer} {total packed bits : Nat} {value : UInt32},
    this.Holds size total packed → bits < fuel → bits ≤ 32 → (bits < 32 ∨ total % 32 ≠ 0) →
    total + bits ≤ 8 * size → value.toNat < 2 ^ bits →
    ((this.writeLoop fuel value bits).1 = true ↔ ¬(total + bits = 8 * size ∧ size % 4 = 0)) ∧
      (this.writeLoop fuel value bits).2.Holds size (total + bits) (packed + 2 ^ total * value.toNat) := by
  -- one pass per unit of fuel; a pass that flushes leaves fewer bits to the next
  induction fuel with
  | zero => exact fun _ enough => absurd enough (Nat.not_lt_zero _)
  | succ fuel inductionHypothesis =>
    intro this total packed bits value holds enough wide aligned fits valueBelow
    rw [writeLoop_succ]
    by_cases full : this.room = 0
    · -- `pos.len` is zero: nothing is written, which only happens once the fields fill the buffer
      obtain ⟨noBits, filled, multiple⟩ := holds.full full fits
      subst noBits
      have noValue : value.toNat = 0 := by simpa using valueBelow
      rw [if_pos full, noValue, Nat.mul_zero, Nat.add_zero, Nat.add_zero]
      exact ⟨by simpa [multiple] using filled, holds⟩
    · rw [if_neg full]
      by_cases fit : bits < this.bitsLeft
      · rw [dif_pos fit]
        refine ⟨?_, holds.consume fit valueBelow fits⟩
        have left := holds.bitsLeft
        have room := holds.room
        simp only [true_iff]
        omega
      · -- the word fills: flush it and write the rest of the value into a new one
        rw [dif_neg fit]
        have left := holds.bitsLeft
        have inWord : 0 < total % 32 := by omega
        have shiftBelow : this.bitsLeft < 32 := by omega
        have next : (this.stage value).flushBuffer.restart.Holds size (32 * (total / 32 + 1))
            (packed + 2 ^ total * (value.toNat % 2 ^ this.bitsLeft)) := holds.flush (by omega) inWord fits
        have restBelow : (value >>> this.bitsLeft.toUInt32).toNat < 2 ^ (bits - this.bitsLeft) := by
          rw [toNat_shiftRight_of_lt value shiftBelow, Nat.div_lt_iff_lt_mul (Nat.two_pow_pos _), ← Nat.pow_add,
            Nat.sub_add_cancel (by omega)]
          exact valueBelow
        have wordBits : 32 * (total / 32 + 1) + (bits - this.bitsLeft) = total + bits := by omega
        obtain ⟨result, state⟩ := inductionHypothesis next (by omega) (by omega) (Or.inl (by omega))
          (by omega) restBelow
        rw [wordBits] at result state
        refine ⟨result, ?_⟩
        -- the two parts of the value are its low `bits_left` bits and the rest
        have recombined : packed + 2 ^ total * (value.toNat % 2 ^ this.bitsLeft) +
            2 ^ (32 * (total / 32 + 1)) * (value >>> this.bitsLeft.toUInt32).toNat =
              packed + 2 ^ total * value.toNat := by
          have weight : 2 ^ (32 * (total / 32 + 1)) = 2 ^ total * 2 ^ this.bitsLeft := by
            rw [← Nat.pow_add]
            congr 1
            omega
          rw [toNat_shiftRight_of_lt value shiftBelow, weight, Nat.mul_assoc, Nat.add_assoc, ← Nat.mul_add,
            Nat.mod_add_div]
        rw [recombined] at state
        exact state

/-- `write_bits` with a width from 1 to 32, not 32 at a word boundary, that fits the
destination. -/
theorem Writer.Holds.writeBits (holds : this.Holds size total packed) {bits : Nat} (positive : 0 < bits)
    (wide : bits ≤ 32) (aligned : bits < 32 ∨ total % 32 ≠ 0) (fits : total + bits ≤ 8 * size) (value : UInt32) :
    ((this.writeBits value bits).1 = true ↔ ¬(total + bits = 8 * size ∧ size % 4 = 0)) ∧
      (this.writeBits value bits).2.Holds size (total + bits) (packed + 2 ^ total * (value.toNat % 2 ^ bits)) := by
  have masked : (if bits < 32 then value &&& (((1 : UInt32) <<< bits.toUInt32) - 1) else value).toNat =
      value.toNat % 2 ^ bits := by
    split
    case isTrue narrow => exact toNat_and_mask value narrow
    case isFalse full =>
      have : bits = 32 := by omega
      subst this
      exact (Nat.mod_eq_of_lt value.toNat_lt).symm
  have call : this.writeBits value bits =
      this.writeLoop (bits + 1) (if bits < 32 then value &&& (((1 : UInt32) <<< bits.toUInt32) - 1) else value)
        bits := by
    rw [Writer.writeBits, if_neg (by omega), if_neg (by omega)]
  have maskedBelow : (if bits < 32 then value &&& (((1 : UInt32) <<< bits.toUInt32) - 1) else value).toNat <
      2 ^ bits := by
    rw [masked]
    exact Nat.mod_lt _ (Nat.two_pow_pos bits)
  rw [call, ← masked]
  exact holds.writeLoop (bits + 1) (by omega) wide aligned fits maskedBelow

/-- Bytes of a buffer of `size` bytes that a staging word has reached after `total` bits: whole
words, the last one cut at the end of the buffer. -/
def loaded (size total : Nat) : Nat := min (4 * ((total + 31) / 32)) size

theorem loaded_def (size total : Nat) : loaded size total = min (4 * ((total + 31) / 32)) size := rfl

/-- `destroy` flushes the staged word as far as the destination goes. -/
theorem Writer.Holds.destroy (holds : this.Holds size total packed) :
    this.destroy = leBytes (loaded size total) packed := by
  have left := holds.bitsLeft
  have fits := holds.fits
  rw [Writer.destroy]
  split
  case isTrue staged =>
    -- a partial word is staged: the flush writes it up to four bytes, cut at the end
    have partWord : loaded size total = 4 * (total / 32) + min 4 this.room := by
      rw [loaded_def, holds.room]
      omega
    rw [flushBuffer_flushed, holds.flushed, mlWriteBytesLe_eq_leBytes, partWord, leBytes_add,
      holds.bitsBuf, ← two_pow_word]
  case isFalse whole =>
    have wholeWords : loaded size total = 4 * (total / 32) := by
      rw [loaded_def]
      omega
    rw [holds.flushed, wholeWords]

end Holds

/-! ## The reader -/

/-- A packer made by `ml_bitpacker_create_from_data`: the staging word `bits_buf`, its unread
bits `bits_left`, and the data `pos` not yet loaded into it. -/
structure Reader where
  bitsBuf : UInt32
  bitsLeft : Nat
  pos : List UInt8

/-- `ml_bitpacker_create_from_data(data)`. -/
def createFromData (data : List UInt8) : Reader := ⟨0, 0, data⟩

/-- The top of the loop of `read_bits`: an empty word is loaded with the next `min(4, pos.len)`
bytes, and with none left the read fails. -/
def Reader.load (this : Reader) : Option Reader :=
  if this.bitsLeft = 0 then
    if this.pos.length = 0 then none
    else
      some ⟨mlReadBytesLe this.pos (min 4 this.pos.length), 8 * min 4 this.pos.length,
        this.pos.drop (min 4 this.pos.length)⟩
  else some this

theorem Reader.load_def (this : Reader) :
    this.load =
      if this.bitsLeft = 0 then
        if this.pos.length = 0 then none
        else
          some ⟨mlReadBytesLe this.pos (min 4 this.pos.length), 8 * min 4 this.pos.length,
            this.pos.drop (min 4 this.pos.length)⟩
      else some this := rfl

/-- `this->bits_buf >>= bits; this->bits_left -= bits;` after the last bits of a read. -/
def Reader.take (this : Reader) (bits : Nat) : Reader :=
  ⟨this.bitsBuf >>> bits.toUInt32, this.bitsLeft - bits, this.pos⟩

/-- `this->bits_left = 0;` once the whole word has gone into the value. -/
def Reader.drain (this : Reader) : Reader := ⟨this.bitsBuf, 0, this.pos⟩

/-- The loop of `read_bits`: `value` holds the `written` bits read so far and `bits` are
still to read, on fuel for its iterations. -/
def Reader.readLoop : Nat → Reader → UInt32 → Nat → Nat → Bool × UInt32 × Reader
  | 0, this, value, _, _ => (false, value, this)
  | fuel + 1, this, value, written, bits =>
    match this.load with
    | none => (false, value, this)
    | some next =>
      if bits ≤ next.bitsLeft then
        (true, value ||| (next.bitsBuf &&& (((1 : UInt32) <<< bits.toUInt32) - 1)) <<< written.toUInt32,
          next.take bits)
      else next.drain.readLoop fuel (value ||| next.bitsBuf) next.bitsLeft (bits - next.bitsLeft)

/-- `read_bits`, given what the caller's variable held: the result, the value read and the
packer after it. -/
def Reader.readBits (this : Reader) (value : UInt32) (bits : Nat) : Bool × UInt32 × Reader :=
  if bits > 32 then (false, value, this) else this.readLoop (bits + 1) 0 0 bits

/-- `read_bits` for each width in turn: the results and the values read. -/
def Reader.readAll (this : Reader) : List Nat → List (Bool × UInt32)
  | [] => []
  | bits :: rest =>
    ((this.readBits 0 bits).1, (this.readBits 0 bits).2.1) :: (this.readBits 0 bits).2.2.readAll rest

@[simp] theorem take_bitsBuf (this : Reader) (bits : Nat) : (this.take bits).bitsBuf = this.bitsBuf >>> bits.toUInt32 :=
  rfl
@[simp] theorem take_bitsLeft (this : Reader) (bits : Nat) : (this.take bits).bitsLeft = this.bitsLeft - bits := rfl
@[simp] theorem take_pos (this : Reader) (bits : Nat) : (this.take bits).pos = this.pos := rfl
@[simp] theorem drain_bitsLeft (this : Reader) : this.drain.bitsLeft = 0 := rfl
@[simp] theorem drain_pos (this : Reader) : this.drain.pos = this.pos := rfl

theorem readLoop_succ (fuel : Nat) (this : Reader) (value : UInt32) (written bits : Nat) :
    this.readLoop (fuel + 1) value written bits =
      match this.load with
      | none => (false, value, this)
      | some next =>
        if bits ≤ next.bitsLeft then
          (true, value ||| (next.bitsBuf &&& (((1 : UInt32) <<< bits.toUInt32) - 1)) <<< written.toUInt32,
            next.take bits)
        else next.drain.readLoop fuel (value ||| next.bitsBuf) next.bitsLeft (bits - next.bitsLeft) := rfl

theorem readAll_cons (this : Reader) (bits : Nat) (rest : List Nat) :
    this.readAll (bits :: rest) =
      ((this.readBits 0 bits).1, (this.readBits 0 bits).2.1) :: (this.readBits 0 bits).2.2.readAll rest := rfl

/-- A loaded word has bits in it. -/
theorem load_bitsLeft_pos {this next : Reader} (loaded : this.load = some next) : 0 < next.bitsLeft := by
  rw [Reader.load_def] at loaded
  split at loaded
  case isTrue empty =>
    split at loaded
    case isTrue => cases loaded
    case isFalse nonempty =>
      rw [Option.some.injEq] at loaded
      rw [← loaded]
      show 0 < 8 * min 4 this.pos.length
      omega
  case isFalse nonempty =>
    rw [Option.some.injEq] at loaded
    rw [← loaded]
    exact Nat.pos_of_ne_zero nonempty

/-- The loaded word holds the bits still to read. -/
theorem readLoop_take {this next : Reader} (loaded : this.load = some next) {bits : Nat} (fit : bits ≤ next.bitsLeft)
    {fuel : Nat} (enough : 0 < fuel) (value : UInt32) (written : Nat) :
    this.readLoop fuel value written bits =
      (true, value ||| (next.bitsBuf &&& (((1 : UInt32) <<< bits.toUInt32) - 1)) <<< written.toUInt32,
        next.take bits) := by
  obtain ⟨fuel, rfl⟩ := Nat.exists_eq_add_of_lt enough
  rw [Nat.zero_add, readLoop_succ, loaded]
  exact if_pos fit

/-- The loaded word runs out: all of it goes into the value and the loop goes on. -/
theorem readLoop_carry {this next : Reader} (loaded : this.load = some next) {bits : Nat}
    (spill : ¬bits ≤ next.bitsLeft) (fuel : Nat) (value : UInt32) (written : Nat) :
    this.readLoop (fuel + 1) value written bits =
      next.drain.readLoop fuel (value ||| next.bitsBuf) next.bitsLeft (bits - next.bitsLeft) := by
  rw [readLoop_succ, loaded]
  exact if_neg spill

/-- The fuel `read_bits` gives its loop never runs out: every pass that does not return
reads the whole loaded word, which has at least one bit. -/
theorem readLoop_fuel (fuel : Nat) : ∀ (this : Reader) (value : UInt32) (written bits : Nat), bits < fuel →
    this.readLoop fuel value written bits = this.readLoop (bits + 1) value written bits := by
  induction fuel using Nat.strong_induction_on with
  | _ fuel inductionHypothesis =>
    intro this value written bits enough
    obtain ⟨fuel, rfl⟩ : ∃ rest, fuel = rest + 1 := ⟨fuel - 1, by omega⟩
    rw [readLoop_succ, readLoop_succ]
    cases loaded : this.load with
    | none => rfl
    | some next =>
      have positive := load_bitsLeft_pos loaded
      by_cases fit : bits ≤ next.bitsLeft
      · simp only [if_pos fit]
      · -- both fuels outlast the rest of the value
        simp only [if_neg fit]
        rw [inductionHypothesis fuel (by omega), inductionHypothesis bits (by omega)]
        all_goals omega

/-! ## The reader's state after a number of bits -/

/-- The reader after `total` bits of `data`, with its first `bytes` loaded: the word holds
the loaded bits not yet read. -/
structure Reader.Window (this : Reader) (data : List UInt8) (total bytes : Nat) : Prop where
  pos : this.pos = data.drop bytes
  bitsLeft : this.bitsLeft + total = 8 * bytes
  bitsBuf : 0 < this.bitsLeft → this.bitsBuf.toNat = ofLittleEndian data / 2 ^ total % 2 ^ this.bitsLeft
  bytes_le : bytes ≤ data.length

/-- The reader between two calls of `read_bits`: the bytes loaded are those the bits read
have reached. -/
def Reader.Holds (this : Reader) (data : List UInt8) (total : Nat) : Prop :=
  this.Window data total (loaded data.length total)

theorem createFromData_holds (data : List UInt8) : (createFromData data).Holds data 0 where
  pos := by simp [createFromData, loaded_def]
  bitsLeft := by simp [createFromData, loaded_def]
  bitsBuf := fun empty => absurd empty (Nat.lt_irrefl 0)
  bytes_le := by simp [loaded_def]

section Window

variable {this : Reader} {data : List UInt8} {total : Nat}

/-- With bits left to read, the loop's load succeeds: an empty word takes the next bytes, up
to the word boundary the next bit reaches. -/
theorem Reader.Holds.load (holds : this.Holds data total) (more : total < 8 * data.length) :
    ∃ next, this.load = some next ∧ next.Window data total (loaded data.length (total + 1)) ∧
      0 < next.bitsLeft := by
  have window : this.Window data total (loaded data.length total) := holds
  have left := window.bitsLeft
  by_cases empty : this.bitsLeft = 0
  · -- the word is used up: the next bytes are loaded into it
    have posLength : this.pos.length = data.length - loaded data.length total := by
      rw [window.pos, List.length_drop]
    have nonempty : this.pos.length ≠ 0 := by
      rw [posLength]
      simp only [loaded_def] at left ⊢
      omega
    obtain ⟨count, countEq⟩ : ∃ count, min 4 this.pos.length = count := ⟨_, rfl⟩
    have short : count ≤ 4 := countEq ▸ Nat.min_le_left _ _
    have nextBytes : loaded data.length (total + 1) = loaded data.length total + count := by
      rw [← countEq, posLength]
      simp only [loaded_def] at left ⊢
      omega
    have word : (mlReadBytesLe this.pos count).toNat = ofLittleEndian data / 2 ^ total % 2 ^ (8 * count) := by
      rw [toNat_mlReadBytesLe _ short, window.pos, ofLittleEndian_window, ← left, empty, Nat.zero_add]
    refine ⟨⟨mlReadBytesLe this.pos count, 8 * count, this.pos.drop count⟩,
      by rw [Reader.load_def, if_pos empty, if_neg nonempty, countEq], ⟨?_, ?_, fun _ => word, ?_⟩,
      by show 0 < 8 * count; omega⟩
    · show this.pos.drop count = _
      rw [window.pos, List.drop_drop, nextBytes]
    · show 8 * count + total = _
      omega
    · rw [nextBytes, ← countEq, posLength]
      omega
  · -- bits are left in the word: the load keeps it, within the same word
    have sameWord : loaded data.length (total + 1) = loaded data.length total := by
      simp only [loaded_def] at left ⊢
      omega
    refine ⟨this, by rw [Reader.load_def, if_neg empty], ?_, Nat.pos_of_ne_zero empty⟩
    rw [sameWord]
    exact window

end Window

section Take

variable {this : Reader} {data : List UInt8} {total bytes : Nat}

/-- The last bits of a read come from the low bits of the word, which the shift drops. -/
theorem Reader.Window.take (window : this.Window data total bytes) (positive : 0 < this.bitsLeft) {bits : Nat}
    (fit : bits ≤ this.bitsLeft) (narrow : bits < 32) :
    (this.bitsBuf &&& (((1 : UInt32) <<< bits.toUInt32) - 1)).toNat = ofLittleEndian data / 2 ^ total % 2 ^ bits ∧
      (this.take bits).Window data (total + bits) bytes := by
  have word := window.bitsBuf positive
  have left := window.bitsLeft
  obtain ⟨rest, split⟩ : ∃ rest, this.bitsLeft = bits + rest := ⟨this.bitsLeft - bits, by omega⟩
  rw [split] at word
  refine ⟨?_, window.pos, ?_, fun _ => ?_, window.bytes_le⟩
  · rw [toNat_and_mask _ narrow, word, Nat.mod_mod_of_dvd _ (Nat.pow_dvd_pow 2 (Nat.le_add_right bits rest))]
  · rw [take_bitsLeft]
    omega
  · rw [take_bitsBuf, take_bitsLeft, toNat_shiftRight_of_lt _ narrow, word, split, Nat.add_sub_cancel_left,
      mod_two_pow_div_two_pow, Nat.div_div_eq_div_mul, ← Nat.pow_add]

/-- A word that runs out leaves the reader empty at the bits after it. -/
theorem Reader.Window.drain (window : this.Window data total bytes) :
    this.drain.Window data (total + this.bitsLeft) bytes where
  pos := window.pos
  bitsLeft := by rw [drain_bitsLeft, Nat.zero_add, Nat.add_comm, window.bitsLeft]
  bitsBuf := fun empty => absurd empty (Nat.lt_irrefl 0)
  bytes_le := window.bytes_le

end Take

/-- `read_bits` with a width from 1 to 32, not 32 at a word boundary, within the data: it
returns the next `bits` bits of the data. -/
theorem Reader.Holds.readBits {this : Reader} {data : List UInt8} {total : Nat} (holds : this.Holds data total)
    {bits : Nat} (positive : 0 < bits) (wide : bits ≤ 32) (aligned : bits < 32 ∨ total % 32 ≠ 0)
    (fits : total + bits ≤ 8 * data.length) (old : UInt32) :
    (this.readBits old bits).1 = true ∧
      (this.readBits old bits).2.1.toNat = ofLittleEndian data / 2 ^ total % 2 ^ bits ∧
      (this.readBits old bits).2.2.Holds data (total + bits) := by
  have call : this.readBits old bits = this.readLoop (bits + 1) 0 0 bits := by
    rw [Reader.readBits, if_neg (by omega)]
  obtain ⟨next, loadedNext, window, nextPositive⟩ := holds.load (by omega)
  have nextLeft := window.bitsLeft
  have nextBytes := window.bytes_le
  rw [call]
  by_cases fit : bits ≤ next.bitsLeft
  · -- the loaded word holds all the bits
    have narrow : bits < 32 := by
      simp only [loaded_def] at nextLeft
      omega
    obtain ⟨value, state⟩ := window.take nextPositive fit narrow
    have sameWord : loaded data.length (total + bits) = loaded data.length (total + 1) := by
      simp only [loaded_def] at nextLeft ⊢
      omega
    rw [readLoop_take loadedNext fit (Nat.succ_pos bits)]
    refine ⟨rfl, ?_, ?_⟩
    · show ((0 : UInt32) ||| _ <<< (0 : Nat).toUInt32).toNat = _
      rw [toNat_or_shiftLeft (by decide) (by simp), UInt32.toNat_zero, Nat.zero_add, Nat.pow_zero, Nat.one_mul,
        Nat.mod_eq_of_lt (UInt32.toNat_lt _), value]
    · show (next.take bits).Window data (total + bits) (loaded data.length (total + bits))
      rw [sameWord]
      exact state
  · -- the word runs out: its bits are the low part of the value, the next word's the rest
    have drained : next.drain.Holds data (total + next.bitsLeft) := by
      have sameWord : loaded data.length (total + next.bitsLeft) = loaded data.length (total + 1) := by
        simp only [loaded_def] at nextLeft nextBytes ⊢
        omega
      show next.drain.Window data (total + next.bitsLeft) (loaded data.length (total + next.bitsLeft))
      rw [sameWord]
      exact window.drain
    obtain ⟨after, loadedAfter, windowAfter, afterPositive⟩ := drained.load (by omega)
    have afterLeft := windowAfter.bitsLeft
    have fitAfter : bits - next.bitsLeft ≤ after.bitsLeft := by
      simp only [loaded_def] at nextLeft afterLeft
      omega
    obtain ⟨high, state⟩ := windowAfter.take afterPositive fitAfter (by omega)
    have lowWord := window.bitsBuf nextPositive
    have lowBelow : ((0 : UInt32) ||| next.bitsBuf).toNat < 2 ^ next.bitsLeft := by
      rw [UInt32.toNat_or, UInt32.toNat_zero, Nat.zero_or, lowWord]
      exact Nat.mod_lt _ (Nat.two_pow_pos _)
    have sameWord : loaded data.length (total + bits) = loaded data.length (total + next.bitsLeft + 1) := by
      simp only [loaded_def] at nextLeft nextBytes afterLeft ⊢
      omega
    rw [readLoop_carry loadedNext fit, readLoop_take loadedAfter fitAfter (by omega)]
    refine ⟨rfl, ?_, ?_⟩
    · show (((0 : UInt32) ||| next.bitsBuf) ||| _ <<< next.bitsLeft.toUInt32).toNat = _
      have highFits : ofLittleEndian data / 2 ^ (total + next.bitsLeft) % 2 ^ (bits - next.bitsLeft) <
          2 ^ (32 - next.bitsLeft) :=
        lt_of_lt_of_le (Nat.mod_lt _ (Nat.two_pow_pos _)) (Nat.pow_le_pow_right (by decide) (by omega))
      have split := mod_two_pow_add (ofLittleEndian data / 2 ^ total) next.bitsLeft (bits - next.bitsLeft)
      rw [Nat.add_sub_cancel' (by omega : next.bitsLeft ≤ bits), Nat.div_div_eq_div_mul, ← Nat.pow_add] at split
      rw [toNat_or_shiftLeft (by omega) lowBelow, high, Nat.mod_eq_of_lt highFits, UInt32.toNat_or,
        UInt32.toNat_zero, Nat.zero_or, lowWord, split]
    · show (after.take (bits - next.bitsLeft)).Window data (total + bits) (loaded data.length (total + bits))
      rw [sameWord, show total + bits = total + next.bitsLeft + (bits - next.bitsLeft) by omega]
      exact state

/-! ## Runs over a sequence of fields -/

/-- Widths `write_bits` and `read_bits` take from bit `offset` on: each from 1 to 32, and 32
only off a word boundary. -/
def validWidths : Nat → List Nat → Bool
  | _, [] => true
  | offset, bits :: rest =>
    (0 < bits && bits ≤ 32 && (bits < 32 || offset % 32 != 0)) && validWidths (offset + bits) rest

/-- The fields as numbers: each value and its width. -/
def fieldsValue (fields : List (UInt32 × Nat)) : List (Nat × Nat) :=
  fields.map fun field => (field.1.toNat, field.2)

theorem totalWidth_fieldsValue (fields : List (UInt32 × Nat)) :
    totalWidth (fieldsValue fields) = (fields.map Prod.snd).sum := by
  rw [totalWidth, fieldsValue, List.map_map]
  rfl

/-- What the writes of `widths` from bit `offset` on return in a destination of `size` bytes:
`FALSE` for a write that ends on the last byte of a destination whose length is a multiple of
four. -/
def fillResults (size : Nat) : Nat → List Nat → List Bool
  | _, [] => []
  | offset, bits :: rest =>
    (!decide (offset + bits = 8 * size ∧ size % 4 = 0)) :: fillResults size (offset + bits) rest

theorem validWidths_cons {offset bits : Nat} {rest : List Nat} :
    validWidths offset (bits :: rest) = true ↔
      (0 < bits ∧ bits ≤ 32 ∧ (bits < 32 ∨ offset % 32 ≠ 0)) ∧ validWidths (offset + bits) rest = true := by
  simp [validWidths, and_assoc]

theorem eq_not_decide_of_iff {result : Bool} {fills : Prop} [Decidable fills] (iff : result = true ↔ ¬fills) :
    result = !decide fills := by
  cases result <;> by_cases filled : fills <;> simp_all

/-- The writes of a sequence of fields, one `write_bits` at a time. -/
theorem Writer.Holds.writeAll {size : Nat} : ∀ {this : Writer} {total packed : Nat} (fields : List (UInt32 × Nat)),
    this.Holds size total packed → validWidths total (fields.map Prod.snd) = true →
    total + (fields.map Prod.snd).sum ≤ 8 * size →
    (this.writeAll fields).1 = fillResults size total (fields.map Prod.snd) ∧
      (this.writeAll fields).2.Holds size (total + (fields.map Prod.snd).sum)
        (packed + 2 ^ total * packedValue (fieldsValue fields))
  | this, total, packed, [], holds, _, _ => by
    refine ⟨rfl, ?_⟩
    show this.Holds size (total + 0) (packed + 2 ^ total * 0)
    rw [Nat.add_zero, Nat.mul_zero, Nat.add_zero]
    exact holds
  | this, total, packed, (value, bits) :: rest, holds, valid, fits => by
    have validCons : validWidths total (bits :: rest.map Prod.snd) = true := valid
    have fitsCons : total + (bits + (rest.map Prod.snd).sum) ≤ 8 * size := fits
    rw [validWidths_cons] at validCons
    obtain ⟨⟨positive, wide, aligned⟩, validRest⟩ := validCons
    obtain ⟨result, next⟩ := holds.writeBits positive wide aligned (by omega) value
    obtain ⟨results, last⟩ := next.writeAll rest validRest (by omega)
    rw [writeAll_cons]
    refine ⟨?_, ?_⟩
    · show (this.writeBits value bits).1 :: ((this.writeBits value bits).2.writeAll rest).1 =
        fillResults size total (bits :: rest.map Prod.snd)
      rw [results, eq_not_decide_of_iff result]
      rfl
    · -- the field goes at bit `total`, the rest above it
      have packedSplit : packed + 2 ^ total * (value.toNat % 2 ^ bits) +
          2 ^ (total + bits) * packedValue (fieldsValue rest) =
            packed + 2 ^ total * packedValue (fieldsValue ((value, bits) :: rest)) := by
        show _ = packed + 2 ^ total * (value.toNat % 2 ^ bits + 2 ^ bits * packedValue (fieldsValue rest))
        rw [Nat.pow_add]
        ring
      show ((this.writeBits value bits).2.writeAll rest).2.Holds size (total + (bits + (rest.map Prod.snd).sum))
        (packed + 2 ^ total * packedValue (fieldsValue ((value, bits) :: rest)))
      rw [← Nat.add_assoc, ← packedSplit]
      exact last

/-- The reads of a sequence of widths, one `read_bits` at a time. -/
theorem Reader.Holds.readAll {data : List UInt8} : ∀ {this : Reader} {total : Nat} (widths : List Nat),
    this.Holds data total → validWidths total widths = true → total + widths.sum ≤ 8 * data.length →
    (this.readAll widths).map (fun read => (read.1, read.2.toNat)) =
      (windows (ofLittleEndian data) total widths).map fun window => (true, window)
  | _, _, [], _, _, _ => rfl
  | this, total, bits :: rest, holds, valid, fits => by
    rw [validWidths_cons] at valid
    rw [List.sum_cons] at fits
    obtain ⟨⟨positive, wide, aligned⟩, validRest⟩ := valid
    obtain ⟨result, value, next⟩ := holds.readBits positive wide aligned (by omega) 0
    rw [readAll_cons, List.map_cons, windows_cons, List.map_cons, result, value,
      next.readAll rest validRest (by omega)]

/-- Only the last of a sequence of writes can reach the end of the destination. -/
theorem fillResults_eq {size : Nat} : ∀ {offset : Nat} (widths : List Nat), (∀ bits ∈ widths, 0 < bits) →
    offset + widths.sum ≤ 8 * size →
    fillResults size offset widths =
      (List.replicate widths.length true).set (widths.length - 1)
        (!decide (offset + widths.sum = 8 * size ∧ size % 4 = 0))
  | _, [], _, _ => rfl
  | offset, [bits], _, _ => rfl
  | offset, bits :: next :: rest, positive, fits => by
    have nextPositive := positive next (by simp)
    rw [List.sum_cons, List.sum_cons] at fits
    have notLast : decide (offset + bits = 8 * size ∧ size % 4 = 0) = false := by
      simp only [decide_eq_false_iff_not]
      omega
    rw [fillResults, notLast, fillResults_eq (next :: rest) (fun w within => positive w (by simp [within]))
      (by rw [List.sum_cons]; omega), List.sum_cons, Nat.add_assoc]
    rfl

/-! ## The round trip -/

section RoundTrip

variable {dst : List UInt8} {fields : List (UInt32 × Nat)}

theorem pack_holds (valid : validWidths 0 (fields.map Prod.snd) = true)
    (fits : (fields.map Prod.snd).sum ≤ 8 * dst.length) :
    (pack dst fields).1 = fillResults dst.length 0 (fields.map Prod.snd) ∧
      ((create dst).writeAll fields).2.Holds dst.length (fields.map Prod.snd).sum (packedValue (fieldsValue fields)) := by
  obtain ⟨results, state⟩ := (create_holds dst).writeAll fields valid (by omega)
  rw [Nat.zero_add, Nat.zero_add, Nat.pow_zero, Nat.one_mul] at state
  exact ⟨results, state⟩

/-- The destination after the writes and `destroy`: the packed value of the fields in the
bytes the staging word reached, the rest of the destination as it was. -/
theorem pack_dst (valid : validWidths 0 (fields.map Prod.snd) = true)
    (fits : (fields.map Prod.snd).sum ≤ 8 * dst.length) :
    (pack dst fields).2 =
      leBytes (loaded dst.length (fields.map Prod.snd).sum) (packedValue (fieldsValue fields)) ++
        dst.drop (loaded dst.length (fields.map Prod.snd).sum) := by
  show ((create dst).writeAll fields).2.destroy ++ dst.drop ((create dst).writeAll fields).2.destroy.length = _
  rw [(pack_holds valid fits).2.destroy, length_leBytes]

/-- Reading the destination back with the same widths returns every field. -/
theorem unpack_pack (valid : validWidths 0 (fields.map Prod.snd) = true)
    (fits : (fields.map Prod.snd).sum ≤ 8 * dst.length) :
    ((createFromData (pack dst fields).2).readAll (fields.map Prod.snd)).map (fun read => (read.1, read.2.toNat)) =
      fields.map fun field => (true, field.1.toNat % 2 ^ field.2) := by
  have state := (pack_holds valid fits).2
  have reached : (fields.map Prod.snd).sum ≤ 8 * loaded dst.length (fields.map Prod.snd).sum := by
    rw [loaded_def]
    omega
  have length : (pack dst fields).2.length = dst.length := by
    rw [pack_dst valid fits, List.length_append, length_leBytes, List.length_drop]
    rw [loaded_def]
    omega
  -- the bytes after the packed value do not reach the windows the reads see
  have content : ofLittleEndian (pack dst fields).2 =
      packedValue (fieldsValue fields) + 2 ^ (8 * loaded dst.length (fields.map Prod.snd).sum) *
        ofLittleEndian (dst.drop (loaded dst.length (fields.map Prod.snd).sum)) := by
    have packedBelow : packedValue (fieldsValue fields) < 256 ^ loaded dst.length (fields.map Prod.snd).sum :=
      calc packedValue (fieldsValue fields) < 2 ^ totalWidth (fieldsValue fields) := packedValue_lt _
        _ ≤ 2 ^ (8 * loaded dst.length (fields.map Prod.snd).sum) := by
          rw [totalWidth_fieldsValue]
          exact Nat.pow_le_pow_right (by decide) reached
        _ = 256 ^ loaded dst.length (fields.map Prod.snd).sum := by rw [Nat.pow_mul]
    rw [pack_dst valid fits, ofLittleEndian_append, ofLittleEndian_leBytes, length_leBytes,
      Nat.mod_eq_of_lt packedBelow, Nat.pow_mul]
  have widths : fields.map Prod.snd = (fieldsValue fields).map Prod.snd := by
    rw [fieldsValue, List.map_map]
    rfl
  rw [(createFromData_holds _).readAll _ valid (by omega), content,
    windows_add_two_pow_mul _ (by omega), widths, windows_packedValue]
  simp [fieldsValue]

/-- The contract of the packer, for widths from 1 to 32 that fit the destination and no width
of 32 at a word boundary: the destination holds the packed value of the fields, every write
but the last returns `TRUE` and the last returns `FALSE` exactly when it fills a destination
whose length is a multiple of four, and reading the destination back with the same widths
returns every value cut to its width. -/
theorem bitpacker_roundTrip (valid : validWidths 0 (fields.map Prod.snd) = true)
    (fits : (fields.map Prod.snd).sum ≤ 8 * dst.length) :
    (pack dst fields).2 =
        leBytes (loaded dst.length (fields.map Prod.snd).sum) (packedValue (fieldsValue fields)) ++
          dst.drop (loaded dst.length (fields.map Prod.snd).sum) ∧
      (pack dst fields).1 = (List.replicate fields.length true).set (fields.length - 1)
        (!decide ((fields.map Prod.snd).sum = 8 * dst.length ∧ dst.length % 4 = 0)) ∧
      ((createFromData (pack dst fields).2).readAll (fields.map Prod.snd)).map (fun read => (read.1, read.2.toNat)) =
        fields.map fun field => (true, field.1.toNat % 2 ^ field.2) := by
  have positive : ∀ bits ∈ fields.map Prod.snd, 0 < bits := by
    have widthsPositive : ∀ {offset : Nat} (widths : List Nat), validWidths offset widths = true →
        ∀ bits ∈ widths, 0 < bits := by
      intro offset widths
      induction widths generalizing offset with
      | nil => simp
      | cons width rest inductionHypothesis =>
        intro valid bits within
        rw [validWidths_cons] at valid
        rcases List.mem_cons.mp within with rfl | inRest
        · exact valid.1.1
        · exact inductionHypothesis valid.2 bits inRest
    exact widthsPositive _ valid
  refine ⟨pack_dst valid fits, ?_, unpack_pack valid fits⟩
  rw [(pack_holds valid fits).1, fillResults_eq _ positive (by omega), List.length_map, Nat.zero_add]

end RoundTrip

/-- Three fields of the widths `ml_kem.c` uses, packed into five bytes and read back. -/
theorem bitpacker_roundTrip_tenTwelve :
    validWidths 0 [10, 12, 11] = true ∧ [10, 12, 11].sum ≤ 8 * 5 ∧
      (pack (List.replicate 5 0xFF) [(0x3FF, 10), (0xABC, 12), (5, 11)]).2 =
          leBytes (loaded 5 33) (packedValue (fieldsValue [(0x3FF, 10), (0xABC, 12), (5, 11)])) ++
            (List.replicate 5 0xFF).drop (loaded 5 33) ∧
        (pack (List.replicate 5 0xFF) [(0x3FF, 10), (0xABC, 12), (5, 11)]).1 =
          (List.replicate 3 true).set 2 (!decide (33 = 8 * 5 ∧ 5 % 4 = 0)) ∧
        ((createFromData (pack (List.replicate 5 0xFF) [(0x3FF, 10), (0xABC, 12), (5, 11)]).2).readAll
            [10, 12, 11]).map (fun read => (read.1, read.2.toNat)) =
          [(true, 0x3FF % 2 ^ 10), (true, 0xABC % 2 ^ 12), (true, 5 % 2 ^ 11)] :=
  ⟨by decide, by decide,
    @bitpacker_roundTrip (List.replicate 5 0xFF) [(0x3FF, 10), (0xABC, 12), (5, 11)] (by decide) (by decide)⟩

/-- The packer diverges from its contract at the two corners. Four bytes filled by two
16-bit writes: the second write returns `FALSE`, though its bits are in the destination. A
32-bit write at a word boundary: the next write puts it into the next word again, and a read
of it returns 0, since `(1 << 32) - 1` is 0 on x86. -/
theorem bitpacker_fill_and_full_width :
    pack (List.replicate 4 0) [(0x1234, 16), (0x5678, 16)] = ([true, false], [0x34, 0x12, 0x78, 0x56]) ∧
      pack (List.replicate 8 0) [(0xDEADBEEF, 32), (0, 1)] =
        ([true, true], [0xEF, 0xBE, 0xAD, 0xDE, 0xEF, 0xBE, 0xAD, 0xDE]) ∧
      (createFromData [0xEF, 0xBE, 0xAD, 0xDE]).readAll [32] = [(true, 0)] := by
  decide

end StrongSwan.Libstrongswan.Plugins.Ml.MlBitpacker
