import Mathlib
import StrongSwan.Foundations.Bytes
import StrongSwan.Foundations.OnesComplement

/-!
Contract: `chunk_internet_checksum_inc` and `chunk_internet_checksum` of `chunk.c`, the
Internet Checksum of RFC 1071.

The code adds the 16-bit words of the data in network order, an odd last byte as the high
byte of a word, to a `uint32_t` that starts from the previous checksum, folds the carries
above 16 bits back until none is left, and returns the complement in network order. The
host's byte order enters through `ntohs`, `htons` and the `memcpy` of `untoh16`; the model
takes it as a parameter and every result holds for both orders.

The one's-complement sum of RFC 1071 is `endAround 0xffff` of the plain sum of the words
(`foldl_onesAdd`), and the carry fold computes the same representative of the accumulator
(`toNat_foldCarries`). So the code computes RFC 1071 exactly when the accumulator does not
wrap: for every chunk of at most 131074 bytes. Chaining through a previous checksum is exact
because the previous sum enters as its representative (`endAround_add_endAround`).

Owns: the value of every call in terms of the plain word sum modulo `2 ^ 32`, the chaining
law for an even first part, equality with RFC 1071 up to 131074 bytes, and the wrap of the
accumulator beyond that (`chunkInternetChecksum_wraps`).
-/

namespace StrongSwan.Libstrongswan.Utils.ChunkChecksum

open StrongSwan.Foundations.Bytes StrongSwan.Foundations.OnesComplement

/-! ## The model -/

/-- The byte order of the host. -/
inductive ByteOrder
  | littleEndian
  | bigEndian
  deriving DecidableEq, Repr

/-- The `uint16_t` a host reads from two bytes of memory, in the order they lie. -/
def load16 : ByteOrder → UInt8 → UInt8 → UInt16
  | .littleEndian, first, second => first.toUInt16 ||| (second.toUInt16 <<< 8)
  | .bigEndian, first, second => (first.toUInt16 <<< 8) ||| second.toUInt16

/-- `ntohs`: a byte swap on a little-endian host, nothing on a big-endian one. -/
def ntohs : ByteOrder → UInt16 → UInt16
  | .littleEndian, value => (value <<< 8) ||| (value >>> 8)
  | .bigEndian, value => value

/-- `htons`, the same conversion the other way. -/
def htons (host : ByteOrder) (value : UInt16) : UInt16 := ntohs host value

/-- `untoh16(network)`: the `memcpy` of two bytes into a `uint16_t`, then `ntohs`. -/
def untoh16 (host : ByteOrder) (first second : UInt8) : UInt16 := ntohs host (load16 host first second)

/-- The first loop of `chunk_internet_checksum_inc`, two bytes at a time while more than one
is left, and the odd last byte shifted into the high byte of a word (the shift of the
promoted `uint16_t` does not overflow). -/
def sumWords (host : ByteOrder) : List UInt8 → UInt32 → UInt32
  | first :: second :: rest, sum => sumWords host rest (sum + (untoh16 host first second).toUInt32)
  | [last], sum => sum + (last.toUInt32 <<< 8)
  | [], sum => sum

/-- The second loop, `while (sum >> 16) sum = (sum & 0xffff) + (sum >> 16);`, on fuel. Two
rounds end it from every `uint32_t` (`foldCarries_exits`). -/
def foldCarries : Nat → UInt32 → UInt32
  | 0, sum => sum
  | fuel + 1, sum => if sum >>> 16 ≠ 0 then foldCarries fuel ((sum &&& (0xffff : UInt32)) + (sum >>> 16)) else sum

/-- `chunk_internet_checksum_inc(data, checksum)`: `~sum` is a `uint32_t` that `htons` cuts to
16 bits. -/
def chunkInternetChecksumInc (host : ByteOrder) (data : List UInt8) (checksum : UInt16) : UInt16 :=
  htons host (~~~(foldCarries 2 (sumWords host data (ntohs host (~~~checksum)).toUInt32))).toUInt16

/-- `chunk_internet_checksum(data)`. -/
def chunkInternetChecksum (host : ByteOrder) (data : List UInt8) : UInt16 :=
  chunkInternetChecksumInc host data 0xffff

/-! ## RFC 1071 -/

/-- The 16-bit words RFC 1071 sums: pairs of bytes in network order, an odd last byte padded
with a zero low byte. -/
def rfcWords : List UInt8 → List Nat
  | first :: second :: rest => (256 * first.toNat + second.toNat) :: rfcWords rest
  | [last] => [256 * last.toNat]
  | [] => []

/-- The one's complement of the one's-complement sum of the words. -/
def rfc1071Checksum (data : List UInt8) : Nat := 0xffff - (rfcWords data).foldl (onesAdd 0xffff) 0

theorem sumWords_pair (host : ByteOrder) (first second : UInt8) (rest : List UInt8) (sum : UInt32) :
    sumWords host (first :: second :: rest) sum = sumWords host rest (sum + (untoh16 host first second).toUInt32) :=
  rfl

theorem sumWords_last (host : ByteOrder) (last : UInt8) (sum : UInt32) :
    sumWords host [last] sum = sum + (last.toUInt32 <<< 8) := rfl

theorem sumWords_nil (host : ByteOrder) (sum : UInt32) : sumWords host [] sum = sum := rfl

theorem foldCarries_zero (sum : UInt32) : foldCarries 0 sum = sum := rfl

theorem foldCarries_succ (fuel : Nat) (sum : UInt32) :
    foldCarries (fuel + 1) sum =
      if sum >>> 16 ≠ 0 then foldCarries fuel ((sum &&& (0xffff : UInt32)) + (sum >>> 16)) else sum := rfl

theorem rfcWords_pair (first second : UInt8) (rest : List UInt8) :
    rfcWords (first :: second :: rest) = (256 * first.toNat + second.toNat) :: rfcWords rest := rfl

theorem rfcWords_last (last : UInt8) : rfcWords [last] = [256 * last.toNat] := rfl

theorem rfcWords_nil : rfcWords [] = [] := rfl

/-! ## Byte order -/

theorem toNat_ntohs_littleEndian (value : UInt16) :
    (ntohs .littleEndian value).toNat = value.toNat % 256 * 256 + value.toNat / 256 := by
  have below := value.toNat_lt
  rw [ntohs, UInt16.toNat_or, UInt16.toNat_shiftLeft, UInt16.toNat_shiftRight]
  show value.toNat <<< 8 % 2 ^ 16 ||| value.toNat >>> 8 = _
  rw [Nat.shiftLeft_eq, Nat.shiftRight_eq_div_pow,
    lor_eq_add_of_mod 8 (by omega) (by omega)]
  omega

theorem toNat_ntohs_bigEndian (value : UInt16) : (ntohs .bigEndian value).toNat = value.toNat := rfl

theorem ntohs_ntohs (host : ByteOrder) (value : UInt16) : ntohs host (ntohs host value) = value := by
  apply UInt16.toNat_inj.mp
  cases host with
  | littleEndian =>
    have below := value.toNat_lt
    rw [toNat_ntohs_littleEndian, toNat_ntohs_littleEndian]
    omega
  | bigEndian => rfl

theorem htons_injective (host : ByteOrder) {first second : UInt16} (same : htons host first = htons host second) :
    first = second := by
  rw [← ntohs_ntohs host first, ← ntohs_ntohs host second]
  exact congrArg (ntohs host) same

/-- A byte swap commutes with the complement. -/
theorem ntohs_not (host : ByteOrder) (value : UInt16) : ntohs host (~~~value) = ~~~(ntohs host value) := by
  apply UInt16.toNat_inj.mp
  have size : UInt16.size = 65536 := rfl
  cases host with
  | littleEndian =>
    have below := value.toNat_lt
    rw [toNat_ntohs_littleEndian, UInt16.toNat_not, UInt16.toNat_not, toNat_ntohs_littleEndian, size]
    omega
  | bigEndian => rfl

/-- A byte shifted into the high byte of a `uint16_t`. -/
theorem toNat_toUInt16_shiftLeft (byte : UInt8) : (byte.toUInt16 <<< 8).toNat = byte.toNat * 2 ^ 8 := by
  have below := byte.toNat_lt
  rw [UInt16.toNat_shiftLeft, UInt8.toNat_toUInt16]
  show byte.toNat <<< 8 % 2 ^ 16 = _
  rw [Nat.shiftLeft_eq]
  omega

/-- Two bytes in network order read as a host value, whatever the host. -/
theorem toNat_untoh16 (host : ByteOrder) (first second : UInt8) :
    (untoh16 host first second).toNat = 256 * first.toNat + second.toNat := by
  have firstBelow := first.toNat_lt
  have secondBelow := second.toNat_lt
  cases host with
  | littleEndian =>
    rw [untoh16, toNat_ntohs_littleEndian, load16, UInt16.toNat_or, UInt8.toNat_toUInt16,
      toNat_toUInt16_shiftLeft, lor_mul_two_pow_eq_add _ _ firstBelow]
    omega
  | bigEndian =>
    rw [untoh16, toNat_ntohs_bigEndian, load16, UInt16.toNat_or, UInt8.toNat_toUInt16, toNat_toUInt16_shiftLeft,
      lor_eq_add_of_mod 8 (by omega) secondBelow]
    omega

/-! ## The words -/

theorem rfcWords_le : ∀ (data : List UInt8), ∀ word ∈ rfcWords data, word ≤ 0xffff
  | first :: second :: rest, word, mem => by
    rw [rfcWords_pair, List.mem_cons] at mem
    rcases mem with rfl | mem
    · have firstBelow := first.toNat_lt
      have secondBelow := second.toNat_lt
      omega
    · exact rfcWords_le rest word mem
  | [last], word, mem => by
    rw [rfcWords_last, List.mem_singleton] at mem
    have lastBelow := last.toNat_lt
    omega
  | [], word, mem => absurd mem List.not_mem_nil

theorem length_rfcWords : ∀ (data : List UInt8), (rfcWords data).length = (data.length + 1) / 2
  | _ :: _ :: rest => by
    rw [rfcWords_pair, List.length_cons, length_rfcWords rest, List.length_cons, List.length_cons]
    omega
  | [last] => by rw [rfcWords_last, List.length_singleton, List.length_singleton]
  | [] => rfl

theorem sum_rfcWords_le (data : List UInt8) : (rfcWords data).sum ≤ 0xffff * ((data.length + 1) / 2) := by
  have bound := List.sum_le_card_nsmul (rfcWords data) 0xffff (rfcWords_le data)
  rwa [length_rfcWords, smul_eq_mul, Nat.mul_comm] at bound

/-- After an even number of bytes the words of what follows start a new word. -/
theorem rfcWords_append : ∀ {front : List UInt8} (back : List UInt8), front.length % 2 = 0 →
    rfcWords (front ++ back) = rfcWords front ++ rfcWords back
  | first :: second :: rest, back, even => by
    rw [List.cons_append, List.cons_append, rfcWords_pair, rfcWords_pair, List.cons_append,
      rfcWords_append back (by simp only [List.length_cons] at even; omega)]
  | [_], _, odd => by simp at odd
  | [], _, _ => rfl

theorem rfcWords_replicate (byte : UInt8) :
    ∀ count : Nat, rfcWords (List.replicate (2 * count) byte) = List.replicate count (257 * byte.toNat)
  | 0 => rfl
  | count + 1 => by
    rw [show 2 * (count + 1) = 2 * count + 1 + 1 by omega, List.replicate_succ, List.replicate_succ,
      rfcWords_pair, rfcWords_replicate byte count, List.replicate_succ]
    congr 1
    omega

/-! ## The accumulator -/

/-- The code's first loop adds the words modulo `2 ^ 32`. -/
theorem toNat_sumWords (host : ByteOrder) :
    ∀ (data : List UInt8) (sum : UInt32), (sumWords host data sum).toNat = (sum.toNat + (rfcWords data).sum) % 2 ^ 32
  | first :: second :: rest, sum => by
    rw [sumWords_pair, toNat_sumWords host rest, rfcWords_pair, List.sum_cons, UInt32.toNat_add,
      UInt16.toNat_toUInt32, toNat_untoh16]
    omega
  | [last], sum => by
    have lastBelow := last.toNat_lt
    rw [sumWords_last, rfcWords_last, List.sum_singleton, UInt32.toNat_add, UInt32.toNat_shiftLeft,
      UInt8.toNat_toUInt32]
    show (sum.toNat + last.toNat <<< 8 % 2 ^ 32) % 2 ^ 32 = _
    rw [Nat.shiftLeft_eq]
    omega
  | [], sum => by
    rw [sumWords_nil, rfcWords_nil, List.sum_nil, Nat.add_zero, Nat.mod_eq_of_lt sum.toNat_lt]

/-- One round of the second loop is `carryStep`, without a wrap. -/
theorem toNat_carry (sum : UInt32) : ((sum &&& (0xffff : UInt32)) + (sum >>> 16)).toNat = carryStep 0xffff sum.toNat := by
  have below := sum.toNat_lt
  rw [UInt32.toNat_add, UInt32.toNat_and, UInt32.toNat_shiftRight]
  show ((sum.toNat &&& 2 ^ 16 - 1) + sum.toNat >>> 16) % 2 ^ 32 = _
  rw [Nat.and_two_pow_sub_one_eq_mod, Nat.shiftRight_eq_div_pow, carryStep_def]
  omega

theorem shiftRight_ne_zero_iff (sum : UInt32) : sum >>> 16 ≠ 0 ↔ 0xffff < sum.toNat := by
  have asNat : (sum >>> 16 = 0) ↔ sum.toNat / 2 ^ 16 = 0 := by
    rw [← UInt32.toNat_inj, UInt32.toNat_shiftRight]
    show sum.toNat >>> 16 = 0 ↔ _
    rw [Nat.shiftRight_eq_div_pow]
  rw [Ne, asNat]
  omega

/-- Every round of the second loop keeps the representative of the accumulator. -/
theorem endAround_foldCarries :
    ∀ (fuel : Nat) (sum : UInt32), endAround 0xffff (foldCarries fuel sum).toNat = endAround 0xffff sum.toNat
  | 0, _ => rfl
  | fuel + 1, sum => by
    rw [foldCarries_succ]
    split
    case isTrue => rw [endAround_foldCarries fuel, toNat_carry, endAround_carryStep]
    case isFalse => rfl

/-- Two rounds of the second loop leave no carry above 16 bits, so the loop has ended. -/
theorem foldCarries_exits (sum : UInt32) : (foldCarries 2 sum).toNat ≤ 0xffff := by
  have below := sum.toNat_lt
  rw [foldCarries_succ, foldCarries_succ, foldCarries_zero]
  by_cases wide : 0xffff < sum.toNat
  · rw [if_pos ((shiftRight_ne_zero_iff sum).mpr wide)]
    -- one round leaves at most `2 * 0xffff`, and a second round at most `0xffff`
    have once := toNat_carry sum
    rw [carryStep_def] at once
    split
    case isTrue =>
      rw [toNat_carry, carryStep_def, once]
      omega
    case isFalse still => exact Nat.le_of_not_lt fun carry => still ((shiftRight_ne_zero_iff _).mpr carry)
  · rw [if_neg (fun carry => wide ((shiftRight_ne_zero_iff sum).mp carry))]
    omega

/-- The second loop computes the one's-complement representative of the accumulator. -/
theorem toNat_foldCarries (sum : UInt32) : (foldCarries 2 sum).toNat = endAround 0xffff sum.toNat := by
  rw [← endAround_foldCarries 2 sum, endAround_of_le (foldCarries_exits sum)]

/-! ## The checksum -/

/-- What `chunk_internet_checksum_inc` returns, in host order: the complement of the
representative of the previous sum and the words added modulo `2 ^ 32`. -/
theorem ntohs_chunkInternetChecksumInc (host : ByteOrder) (data : List UInt8) (checksum : UInt16) :
    (ntohs host (chunkInternetChecksumInc host data checksum)).toNat =
      0xffff - endAround 0xffff (((ntohs host (~~~checksum)).toNat + (rfcWords data).sum) % 2 ^ 32) := by
  have size : UInt32.size = 4294967296 := rfl
  have fits := foldCarries_exits (sumWords host data (ntohs host (~~~checksum)).toUInt32)
  rw [chunkInternetChecksumInc, htons, ntohs_ntohs, UInt32.toNat_toUInt16, UInt32.toNat_not, size]
  rw [toNat_foldCarries, toNat_sumWords, UInt16.toNat_toUInt32] at fits ⊢
  omega

/-- What `chunk_internet_checksum` returns, in host order. -/
theorem ntohs_chunkInternetChecksum (host : ByteOrder) (data : List UInt8) :
    (ntohs host (chunkInternetChecksum host data)).toNat = 0xffff - endAround 0xffff ((rfcWords data).sum % 2 ^ 32) := by
  have start : (ntohs host (~~~(0xffff : UInt16))).toNat = 0 := by cases host <;> rfl
  rw [chunkInternetChecksum, ntohs_chunkInternetChecksumInc, start, Nat.zero_add]

example : (ntohs .littleEndian (chunkInternetChecksum .littleEndian
    [0x45, 0x00, 0x00, 0x30, 0x44, 0x22, 0x40, 0x00, 0x80, 0x06,
      0x00, 0x00, 0x8c, 0x7c, 0x19, 0xac, 0xae, 0x24, 0x1e, 0x2b])).toNat = 0x442e := by decide

/-- The previous checksum enters the next call as the representative of its sum. -/
theorem ntohs_not_chunkInternetChecksum (host : ByteOrder) (data : List UInt8) :
    (ntohs host (~~~(chunkInternetChecksum host data))).toNat = endAround 0xffff ((rfcWords data).sum % 2 ^ 32) := by
  have size : UInt16.size = 65536 := rfl
  have representative := endAround_le (by decide : 0 < 0xffff) ((rfcWords data).sum % 2 ^ 32)
  rw [ntohs_not, UInt16.toNat_not, ntohs_chunkInternetChecksum, size]
  omega

theorem rfc1071Checksum_eq (data : List UInt8) : rfc1071Checksum data = 0xffff - endAround 0xffff (rfcWords data).sum := by
  rw [rfc1071Checksum, foldl_onesAdd (by decide) (rfcWords_le data) (Nat.zero_le _), Nat.zero_add]

/-- Chaining through the checksum of an even first part is the checksum of the whole, and the
checksum of up to 131074 bytes is the one of RFC 1071, in network order. -/
theorem chunkInternetChecksum_contract (host : ByteOrder) :
    (∀ first second : List UInt8, first.length % 2 = 0 → first.length + second.length ≤ 65535 →
      chunkInternetChecksumInc host second (chunkInternetChecksum host first) =
        chunkInternetChecksum host (first ++ second)) ∧
    (∀ data : List UInt8, data.length ≤ 131074 →
      (ntohs host (chunkInternetChecksum host data)).toNat = rfc1071Checksum data) := by
  constructor
  · intro first second even short
    have firstBound := sum_rfcWords_le first
    have secondBound := sum_rfcWords_le second
    have representative := endAround_le (by decide : 0 < 0xffff) ((rfcWords first).sum % 2 ^ 32)
    -- no sum wraps the accumulator, and the first part's sum enters as its representative
    have firstFits : (rfcWords first).sum % 2 ^ 32 = (rfcWords first).sum := Nat.mod_eq_of_lt (by omega)
    have chained : endAround 0xffff ((endAround 0xffff ((rfcWords first).sum % 2 ^ 32) + (rfcWords second).sum) % 2 ^ 32) =
        endAround 0xffff ((rfcWords (first ++ second)).sum % 2 ^ 32) := by
      rw [rfcWords_append second even, List.sum_append, Nat.mod_eq_of_lt (by omega), firstFits,
        endAround_add_endAround, Nat.mod_eq_of_lt (by omega)]
    apply htons_injective host
    apply UInt16.toNat_inj.mp
    rw [htons, htons, ntohs_chunkInternetChecksumInc, ntohs_not_chunkInternetChecksum, chained,
      ntohs_chunkInternetChecksum]
  · intro data short
    have bound := sum_rfcWords_le data
    rw [ntohs_chunkInternetChecksum, rfc1071Checksum_eq, Nat.mod_eq_of_lt (by omega)]

/-- The IPv4 header of the code's test, checksummed in two halves and whole. -/
theorem chunkInternetChecksum_contract_header :
    chunkInternetChecksumInc .littleEndian [0x00, 0x00, 0x8c, 0x7c, 0x19, 0xac, 0xae, 0x24, 0x1e, 0x2b]
        (chunkInternetChecksum .littleEndian [0x45, 0x00, 0x00, 0x30, 0x44, 0x22, 0x40, 0x00, 0x80, 0x06]) =
      chunkInternetChecksum .littleEndian
        ([0x45, 0x00, 0x00, 0x30, 0x44, 0x22, 0x40, 0x00, 0x80, 0x06] ++
          [0x00, 0x00, 0x8c, 0x7c, 0x19, 0xac, 0xae, 0x24, 0x1e, 0x2b]) ∧
    (ntohs .littleEndian (chunkInternetChecksum .littleEndian
        ([0x45, 0x00, 0x00, 0x30, 0x44, 0x22, 0x40, 0x00, 0x80, 0x06] ++
          [0x00, 0x00, 0x8c, 0x7c, 0x19, 0xac, 0xae, 0x24, 0x1e, 0x2b]))).toNat =
      rfc1071Checksum
        ([0x45, 0x00, 0x00, 0x30, 0x44, 0x22, 0x40, 0x00, 0x80, 0x06] ++
          [0x00, 0x00, 0x8c, 0x7c, 0x19, 0xac, 0xae, 0x24, 0x1e, 0x2b]) :=
  ⟨(chunkInternetChecksum_contract .littleEndian).1 _ _ (by decide) (by decide),
    (chunkInternetChecksum_contract .littleEndian).2 _ (by decide)⟩

/-- Beyond 131074 bytes the accumulator wraps: for 65538 words `0xffff` RFC 1071 gives 0, the
code 1. -/
theorem chunkInternetChecksum_wraps :
    (ntohs .littleEndian (chunkInternetChecksum .littleEndian (List.replicate 131076 0xff))).toNat = 1 ∧
      (ntohs .bigEndian (chunkInternetChecksum .bigEndian (List.replicate 131076 0xff))).toNat = 1 ∧
      rfc1071Checksum (List.replicate 131076 0xff) = 0 := by
  have words : rfcWords (List.replicate 131076 0xff) = List.replicate 65538 0xffff := rfcWords_replicate 0xff 65538
  rw [ntohs_chunkInternetChecksum, ntohs_chunkInternetChecksum, rfc1071Checksum_eq, words, List.sum_replicate,
    smul_eq_mul]
  exact ⟨by decide, by decide, by decide⟩

end StrongSwan.Libstrongswan.Utils.ChunkChecksum
