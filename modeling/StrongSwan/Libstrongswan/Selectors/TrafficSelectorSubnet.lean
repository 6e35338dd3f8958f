import StrongSwan.Libstrongswan.Selectors.TrafficSelector
import StrongSwan.Foundations.BitBlocks
import StrongSwan.Foundations.BitPrefix

/-!
Contract: the prefix of a traffic selector: `calc_netbits`, `calc_range`, `to_subnet` and the
constructors that store a prefix length.

`calc_netbits` returns the common prefix of `from` and `to` and stores it where the range is
the whole block of that prefix, `NON_SUBNET_ADDRESS_RANGE` elsewhere (`calcNetbits_eq`).
`calc_range` builds the block of a prefix, on which `calc_netbits` finds the prefix again.
`to_subnet` reads the stored value and scans only a range stored as no subnet, so its answer
is right where the stored value is the verdict of `calc_netbits` (`NetbitsCalculated`), as
for every selector the constructors and operations build (`netbitsCalculated_of_reachable`).

Does not own: the RFC 3779 and string constructors, and printing.
-/

namespace StrongSwan.Libstrongswan.Selectors

open StrongSwan.Foundations.Bytes
open StrongSwan.Foundations.BitPrefix
open StrongSwan.Libstrongswan.Networking

/-- `traffic_selector_create_from_bytes`: `none` unless both addresses have the length of the
type. -/
def trafficSelectorCreateFromBytes (protocol : UInt8) (type : TsType) (fromAddr : List UInt8) (fromPort : UInt16)
    (toAddr : List UInt8) (toPort : UInt16) : Option TrafficSelector :=
  if sized : fromAddr.length = toAddr.length ∧ fromAddr.length = type.ipLen then
    some ({ trafficSelectorCreate protocol type fromPort toPort with
      fromAddr := fromAddr
      toAddr := toAddr
      fromLength := sized.2
      toLength := sized.1.symm.trans sized.2 } : TrafficSelector).calcNetbits.1
  else none

def TsType.family : TsType → Family
  | .tsIpv4AddrRange => .afInet
  | .tsIpv6AddrRange => .afInet6

@[simp] theorem addressLength_family (type : TsType) : type.family.addressLength = type.ipLen := by
  cases type <;> rfl

/-- The `net_chunk` of `to_subnet`: the bytes of `from` that the first `mask` bits touch, the
last of them cut to its share of the prefix, then zeros. -/
def netChunk (fromAddr : List UInt8) (len mask : Nat) : List UInt8 :=
  if mask ≠ 0 then
    let nonZeroBytes := (mask + 7) / 8
    (fromAddr.take nonZeroBytes ++ List.replicate (len - nonZeroBytes) 0).modify (nonZeroBytes - 1)
      (· &&& UInt8.ofNat (0xff <<< (8 * nonZeroBytes - mask)))
  else List.replicate len 0

theorem length_netChunk {fromAddr : List UInt8} {len : Nat} (fromLength : fromAddr.length = len) (mask : Nat) :
    (netChunk fromAddr len mask).length = len := by
  unfold netChunk
  split
  · simp [List.length_modify, fromLength]
    omega
  · simp

/-- What `to_subnet` hands back: the network through `net` with the port of a single-port
selector, the prefix length through `mask`, whether the range is that subnet, and the selector
with what `calc_netbits` may have stored. -/
structure SubnetResult where
  selector : TrafficSelector
  net : Host
  port : UInt16
  mask : UInt8
  isSubnet : Bool

def TrafficSelector.toSubnet (this : TrafficSelector) : SubnetResult :=
  -- only a range stored as no subnet is scanned again, and the scan stores its verdict
  let calculate := this.netbits = nonSubnetAddressRange
  let selector := if calculate then this.calcNetbits.1 else this
  let mask := if calculate then UInt8.ofNat this.calcNetbits.2 else this.netbits
  { selector := selector
    net := ⟨this.type.family, netChunk this.fromAddr this.type.ipLen mask.toNat, by
      rw [length_netChunk this.fromLength, addressLength_family]⟩
    port := if this.toPort = this.fromPort then this.toPort else 0
    mask := mask
    isSubnet := selector.netbits != nonSubnetAddressRange }

/-- The stored `netbits` are what `calc_netbits` stores for the range. -/
def TrafficSelector.NetbitsCalculated (this : TrafficSelector) : Prop :=
  this.netbits = this.calcNetbits.1.netbits

instance (this : TrafficSelector) : Decidable this.NetbitsCalculated := inferInstanceAs (Decidable (_ = _))

/-- The addresses of the block `net/mask`: those of the length of `net` whose first `mask` bits
are those of `net`. -/
def InCidrBlock (net : List UInt8) (mask : Nat) (address : List UInt8) : Prop :=
  address.length = net.length ∧ (addressBits address).take mask = (addressBits net).take mask

/-- After the first `count` bits, `fromAddr` has only zeros and `toAddr` only ones. -/
def SpansBlock (fromAddr toAddr : List UInt8) (count : Nat) : Prop :=
  (∀ bit ∈ (addressBits fromAddr).drop count, bit = false) ∧ ∀ bit ∈ (addressBits toAddr).drop count, bit = true

instance (fromAddr toAddr : List UInt8) (count : Nat) : Decidable (SpansBlock fromAddr toAddr count) :=
  inferInstanceAs (Decidable (_ ∧ _))

/-! ## Addresses as bits -/

@[simp] theorem length_addressBits (address : List UInt8) : (addressBits address).length = address.length * 8 := by
  induction address with
  | nil => rfl
  | cons byte rest inductionHypothesis =>
    rw [addressBits, List.flatMap_cons, List.length_append, ← addressBits, inductionHypothesis]
    simp
    omega

theorem bitsValue_addressBits (address : List UInt8) : bitsValue (addressBits address) = ofBigEndian address := by
  induction address with
  | nil => rfl
  | cons byte rest inductionHypothesis =>
    rw [addressBits, List.flatMap_cons, ← addressBits, bitsValue_append, inductionHypothesis, bitsValue_testBit,
      Nat.mod_eq_of_lt byte.toNat_lt, length_addressBits, ofBigEndian_cons, Nat.mul_comm rest.length 8, Nat.pow_mul]

/-- An address of the length of `address` whose value is that of `address` with its bits after
the first `count` cleared, or set, has those bits. -/
theorem addressBits_eq_take_append {address result : List UInt8} {count : Nat}
    (sameLength : result.length = address.length) (countLe : count ≤ address.length * 8) (fill : Bool)
    (value : ofBigEndian result = ofBigEndian address / 2 ^ (address.length * 8 - count) *
      2 ^ (address.length * 8 - count) + fill.toNat * (2 ^ (address.length * 8 - count) - 1)) :
    addressBits result = (addressBits address).take count ++ List.replicate (address.length * 8 - count) fill := by
  apply eq_of_bitsValue_eq
  · simp [sameLength]
    omega
  · rw [bitsValue_addressBits, value, bitsValue_append, bitsValue_take, bitsValue_addressBits, bitsValue_replicate,
      length_addressBits, List.length_replicate]

/-! ## `calc_netbits` -/

/-- Past the common prefix, the loop asks that every bit of `from` be a zero under a one of
`to`. -/
theorem calcNetbitsLoop_past_prefix (fromBits : List Bool) :
    ∀ (toBits : List Bool), fromBits.length = toBits.length → ∀ (index netbits : Nat),
      calcNetbitsLoop (fromBits.zip toBits) index false netbits =
        ((if (∀ bit ∈ fromBits, bit = false) ∧ ∀ bit ∈ toBits, bit = true then UInt8.ofNat netbits
          else nonSubnetAddressRange), netbits) := by
  induction fromBits with
  | nil =>
    intro toBits sameLength index netbits
    rw [List.length_nil, eq_comm, List.length_eq_zero_iff] at sameLength
    subst sameLength
    simp [calcNetbitsLoop]
  | cons fromBit fromBits inductionHypothesis =>
    intro toBits sameLength index netbits
    cases toBits with
    | nil => cases sameLength
    | cons toBit toBits =>
      rw [List.zip_cons_cons, calcNetbitsLoop, inductionHypothesis toBits (Nat.succ.inj sameLength)]
      cases fromBit <;> cases toBit <;> simp

/-- Within the common prefix the loop only counts; where `from` and `to` first differ it notes
the prefix and goes on past it. -/
theorem calcNetbitsLoop_prefix (fromBits : List Bool) :
    ∀ (toBits : List Bool), fromBits.length = toBits.length → ∀ (index netbits : Nat),
      calcNetbitsLoop (fromBits.zip toBits) index true netbits =
        if commonPrefixLength fromBits toBits = fromBits.length then (UInt8.ofNat netbits, netbits)
        else
          ((if (∀ bit ∈ fromBits.drop (commonPrefixLength fromBits toBits + 1), bit = false) ∧
              ∀ bit ∈ toBits.drop (commonPrefixLength fromBits toBits + 1), bit = true
            then UInt8.ofNat (index + commonPrefixLength fromBits toBits) else nonSubnetAddressRange),
            index + commonPrefixLength fromBits toBits) := by
  induction fromBits with
  | nil =>
    intro toBits sameLength index netbits
    rw [List.length_nil, eq_comm, List.length_eq_zero_iff] at sameLength
    subst sameLength
    rfl
  | cons fromBit fromBits inductionHypothesis =>
    intro toBits sameLength index netbits
    cases toBits with
    | nil => cases sameLength
    | cons toBit toBits =>
      have restLength := Nat.succ.inj sameLength
      rw [List.zip_cons_cons, calcNetbitsLoop, commonPrefixLength]
      by_cases same : fromBit = toBit
      · have shift : index + 1 + commonPrefixLength fromBits toBits = index + (commonPrefixLength fromBits toBits + 1) := by
          omega
        rw [if_neg (not_not.mpr same), if_pos same, inductionHypothesis toBits restLength, shift]
        simp only [List.length_cons, Nat.add_right_cancel_iff, List.drop_succ_cons]
      · have notWhole : ¬0 = (fromBit :: fromBits).length := by simp
        rw [if_pos same, if_neg same, calcNetbitsLoop_past_prefix fromBits toBits restLength, if_neg notWhole]
        simp only [Nat.zero_add, List.drop_succ_cons, List.drop_zero, Nat.add_zero]

@[simp] theorem calcNetbits_type (this : TrafficSelector) : this.calcNetbits.1.type = this.type := rfl

@[simp] theorem calcNetbits_fromAddr (this : TrafficSelector) : this.calcNetbits.1.fromAddr = this.fromAddr := rfl

@[simp] theorem calcNetbits_toAddr (this : TrafficSelector) : this.calcNetbits.1.toAddr = this.toAddr := rfl

/-- Scanning again finds what the first scan stored. -/
@[simp] theorem calcNetbits_calcNetbits (this : TrafficSelector) : this.calcNetbits.1.calcNetbits = this.calcNetbits :=
  rfl

theorem ipLen_le (type : TsType) : type.ipLen ≤ 16 := by
  cases type <;> decide

theorem toNat_ofNat_of_le_addressBits {this : TrafficSelector} {count : Nat}
    (within : count ≤ (addressBits this.fromAddr).length) : (UInt8.ofNat count).toNat = count := by
  rw [length_addressBits, this.fromLength] at within
  have small := ipLen_le this.type
  rw [UInt8.toNat_ofNat']
  omega

/-- For an ordered range, the common prefix ends in a zero bit of `from` under a one bit of
`to`. -/
theorem drop_commonPrefixLength_of_le {fromBits toBits : List Bool} (sameLength : fromBits.length = toBits.length)
    (ordered : bitsValue fromBits ≤ bitsValue toBits) (short : commonPrefixLength fromBits toBits < fromBits.length) :
    fromBits.drop (commonPrefixLength fromBits toBits) = false :: fromBits.drop (commonPrefixLength fromBits toBits + 1) ∧
      toBits.drop (commonPrefixLength fromBits toBits) = true :: toBits.drop (commonPrefixLength fromBits toBits + 1) := by
  obtain ⟨fromBit, toBit, fromRest, toRest, differ, fromSplit, toSplit⟩ :=
    exists_split_of_commonPrefixLength_lt sameLength short
  have restLength : fromRest.length = toRest.length := by
    have lengths := congrArg List.length fromSplit
    have otherLengths := congrArg List.length toSplit
    simp only [List.length_drop, List.length_cons] at lengths otherLengths
    omega
  have fromWhole := List.take_append_drop (commonPrefixLength fromBits toBits) fromBits
  have toWhole := List.take_append_drop (commonPrefixLength fromBits toBits) toBits
  rw [fromSplit] at fromWhole
  rw [toSplit, ← take_commonPrefixLength] at toWhole
  -- a one in `from` over a zero in `to` would put `from` above `to`
  have fromZero : fromBit = false := by
    cases fromBit <;> cases toBit
    · rfl
    · rfl
    · have above := bitsValue_lt_of_split (fromBits.take (commonPrefixLength fromBits toBits)) restLength.symm
      rw [fromWhole, toWhole] at above
      omega
    · exact absurd rfl differ
  have toOne : toBit = true := by
    cases toBit
    · exact absurd (fromZero.trans rfl) differ
    · rfl
  subst fromZero toOne
  refine ⟨?_, ?_⟩
  · rw [fromSplit, ← List.drop_drop, fromSplit]
    rfl
  · rw [toSplit, ← List.drop_drop, toSplit]
    rfl

/-- `calc_netbits` on an ordered range: it returns the common prefix length of `from` and `to`,
and stores it where the range spans the prefix's block. -/
theorem calcNetbits_eq {this : TrafficSelector} (ordered : ofBigEndian this.fromAddr ≤ ofBigEndian this.toAddr) :
    this.calcNetbits.2 = commonPrefixLength (addressBits this.fromAddr) (addressBits this.toAddr) ∧
      this.calcNetbits.1.netbits =
        if SpansBlock this.fromAddr this.toAddr (commonPrefixLength (addressBits this.fromAddr) (addressBits this.toAddr))
        then UInt8.ofNat (commonPrefixLength (addressBits this.fromAddr) (addressBits this.toAddr))
        else nonSubnetAddressRange := by
  have sameLength : (addressBits this.fromAddr).length = (addressBits this.toAddr).length := by
    simp [this.fromLength, this.toLength]
  have width : (addressBits this.fromAddr).length = this.type.ipLen * 8 := by simp [this.fromLength]
  have loop := calcNetbitsLoop_prefix (addressBits this.fromAddr) (addressBits this.toAddr) sameLength 0
    (this.type.ipLen * 8)
  unfold TrafficSelector.calcNetbits
  dsimp only
  rw [loop]
  by_cases whole : commonPrefixLength (addressBits this.fromAddr) (addressBits this.toAddr) =
    (addressBits this.fromAddr).length
  · -- the addresses are equal, one address is the block of the full prefix
    have spans : SpansBlock this.fromAddr this.toAddr (addressBits this.fromAddr).length := by
      rw [SpansBlock, List.drop_length, sameLength, List.drop_length]
      simp
    rw [if_pos whole, whole, if_pos spans, width]
    exact ⟨rfl, rfl⟩
  · have split := drop_commonPrefixLength_of_le sameLength
      (by rwa [bitsValue_addressBits, bitsValue_addressBits]) (lt_of_le_of_ne (commonPrefixLength_le _ _) whole)
    have spansIff : SpansBlock this.fromAddr this.toAddr (commonPrefixLength (addressBits this.fromAddr)
        (addressBits this.toAddr)) ↔
        (∀ bit ∈ (addressBits this.fromAddr).drop
          (commonPrefixLength (addressBits this.fromAddr) (addressBits this.toAddr) + 1), bit = false) ∧
        ∀ bit ∈ (addressBits this.toAddr).drop
          (commonPrefixLength (addressBits this.fromAddr) (addressBits this.toAddr) + 1), bit = true := by
      rw [SpansBlock, split.1, split.2]
      simp
    rw [if_neg whole, Nat.zero_add]
    exact ⟨rfl, by simp only [spansIff]⟩

/-! ## The block of a prefix -/

theorem toNat_and_highBits {mask : UInt8} {spare : Nat} (spareLe : spare ≤ 8)
    (maskValue : mask.toNat = 2 ^ 8 - 2 ^ spare) (byte : UInt8) :
    (byte &&& mask).toNat = byte.toNat / 2 ^ spare * 2 ^ spare := by
  rw [UInt8.toNat_and, maskValue]
  exact and_two_pow_sub_two_pow byte.toNat_lt spareLe

theorem toNat_or_lowBits {mask : UInt8} {spare : Nat} (maskValue : mask.toNat = 2 ^ spare - 1) (byte : UInt8) :
    (byte ||| mask).toNat = byte.toNat / 2 ^ spare * 2 ^ spare + (2 ^ spare - 1) := by
  rw [UInt8.toNat_or, maskValue]
  exact or_two_pow_sub_one byte.toNat spare

/-- The `mask` of `calc_range` covers the `bits` low bits of the partial byte. -/
theorem toNat_calcRangeMask {spare : Nat} (spareLt : spare < 8) :
    (~~~(if spare ≠ 0 then (1 <<< UInt8.ofNat spare) - 1 else 0 : UInt8)).toNat = 2 ^ 8 - 2 ^ spare ∧
      (if spare ≠ 0 then (1 <<< UInt8.ofNat spare) - 1 else 0 : UInt8).toNat = 2 ^ spare - 1 := by
  revert spare
  decide

/-- The `u_char` of `0xFF << shift` in `to_subnet` keeps the high `8 - shift` bits. -/
theorem toNat_netChunkMask {shift : Nat} (shiftLt : shift < 8) : (UInt8.ofNat (0xff <<< shift)).toNat = 2 ^ 8 - 2 ^ shift := by
  revert shift
  decide

theorem ofBigEndian_lt_two_pow (address : List UInt8) : ofBigEndian address < 2 ^ (address.length * 8) := by
  rw [Nat.mul_comm, Nat.pow_mul]
  exact ofBigEndian_lt address

/-- `calc_range` keeps the first `netbits` bits of the address and clears, or sets, the
others. -/
theorem ofBigEndian_calcRange {address : List UInt8} {netbits : Nat} (fits : netbits ≤ address.length * 8) :
    ofBigEndian (calcRange address netbits).1 =
        ofBigEndian address / 2 ^ (address.length * 8 - netbits) * 2 ^ (address.length * 8 - netbits) ∧
      ofBigEndian (calcRange address netbits).2 =
        ofBigEndian address / 2 ^ (address.length * 8 - netbits) * 2 ^ (address.length * 8 - netbits) +
          (2 ^ (address.length * 8 - netbits) - 1) := by
  unfold calcRange
  dsimp only
  split
  · rename_i partialByte
    have width : address.length * 8 - netbits =
        8 * (address.length - (netbits + 7) / 8) + ((netbits + 7) / 8 * 8 - netbits) := by
      omega
    have spareLt : (netbits + 7) / 8 * 8 - netbits < 8 := by omega
    have masks := toNat_calcRangeMask spareLt
    generalize (if (netbits + 7) / 8 * 8 - netbits ≠ 0 then (1 <<< UInt8.ofNat ((netbits + 7) / 8 * 8 - netbits)) - 1
      else 0 : UInt8) = mask at masks ⊢
    rw [width]
    constructor
    · have low := @ofBigEndian_maskedPrefix address ((netbits + 7) / 8) ((netbits + 7) / 8 * 8 - netbits)
        (Nat.pos_of_ne_zero partialByte) (by omega) spareLt.le false (· &&& ~~~mask)
        (fun byte => by simp only [toNat_and_highBits spareLt.le masks.1, Bool.toNat_false, Nat.zero_mul, Nat.add_zero])
        0 rfl
      rwa [Bool.toNat_false, Nat.zero_mul, Nat.add_zero] at low
    · have high := @ofBigEndian_maskedPrefix address ((netbits + 7) / 8) ((netbits + 7) / 8 * 8 - netbits)
        (Nat.pos_of_ne_zero partialByte) (by omega) spareLt.le true (· ||| mask)
        (fun byte => by rw [toNat_or_lowBits masks.2, Bool.toNat_true, Nat.one_mul]) 0xff rfl
      rwa [Bool.toNat_true, Nat.one_mul] at high
  · rename_i noByte
    have noBits : netbits = 0 := by omega
    have below := ofBigEndian_lt_two_pow address
    subst noBits
    simp only [Nat.zero_add, Nat.reduceDiv, List.take_zero, List.nil_append, Nat.sub_zero, Nat.div_eq_of_lt below,
      ofBigEndian_replicate_zero, ofBigEndian_replicate_max, Nat.zero_mul, true_and]
    rw [Nat.mul_comm, Nat.pow_mul]

/-- The `net_chunk` of `to_subnet` is `from` with its bits after the first `mask` cleared. -/
theorem ofBigEndian_netChunk {fromAddr : List UInt8} {mask : Nat} (fits : mask ≤ fromAddr.length * 8) :
    ofBigEndian (netChunk fromAddr fromAddr.length mask) =
      ofBigEndian fromAddr / 2 ^ (fromAddr.length * 8 - mask) * 2 ^ (fromAddr.length * 8 - mask) := by
  unfold netChunk
  split
  · rename_i someBits
    have width : fromAddr.length * 8 - mask = 8 * (fromAddr.length - (mask + 7) / 8) + (8 * ((mask + 7) / 8) - mask) := by
      omega
    have shiftLt : 8 * ((mask + 7) / 8) - mask < 8 := by omega
    have cut := @ofBigEndian_maskedPrefix fromAddr ((mask + 7) / 8) (8 * ((mask + 7) / 8) - mask) (by omega) (by omega)
      shiftLt.le false (· &&& UInt8.ofNat (0xff <<< (8 * ((mask + 7) / 8) - mask)))
      (fun byte => by
        simp only [toNat_and_highBits shiftLt.le (toNat_netChunkMask shiftLt), Bool.toNat_false, Nat.zero_mul,
          Nat.add_zero])
      0 rfl
    rw [Bool.toNat_false, Nat.zero_mul, Nat.add_zero, ← width] at cut
    exact cut
  · rename_i noBits
    have below := ofBigEndian_lt_two_pow fromAddr
    rw [not_not] at noBits
    rw [noBits, Nat.sub_zero, Nat.div_eq_of_lt below, ofBigEndian_replicate_zero, Nat.zero_mul]

theorem addressBits_calcRange {address : List UInt8} {netbits : Nat} (fits : netbits ≤ address.length * 8) :
    addressBits (calcRange address netbits).1 =
        (addressBits address).take netbits ++ List.replicate (address.length * 8 - netbits) false ∧
      addressBits (calcRange address netbits).2 =
        (addressBits address).take netbits ++ List.replicate (address.length * 8 - netbits) true := by
  have lengths := length_calcRange address (by omega : netbits ≤ address.length * 8)
  have values := ofBigEndian_calcRange fits
  constructor
  · exact addressBits_eq_take_append lengths.1 fits false (by rw [values.1, Bool.toNat_false, Nat.zero_mul, Nat.add_zero])
  · exact addressBits_eq_take_append lengths.2 fits true (by rw [values.2, Bool.toNat_true, Nat.one_mul])

theorem addressBits_netChunk {fromAddr : List UInt8} {mask : Nat} (fits : mask ≤ fromAddr.length * 8) :
    addressBits (netChunk fromAddr fromAddr.length mask) =
      (addressBits fromAddr).take mask ++ List.replicate (fromAddr.length * 8 - mask) false :=
  addressBits_eq_take_append (length_netChunk rfl mask) fits false
    (by rw [ofBigEndian_netChunk fits, Bool.toNat_false, Nat.zero_mul, Nat.add_zero])

/-! ## Blocks as values -/

/-- Membership in a block compares the values above the bits after the prefix. -/
theorem inCidrBlock_iff {net address : List UInt8} {mask : Nat} :
    InCidrBlock net mask address ↔ address.length = net.length ∧
      ofBigEndian address / 2 ^ (net.length * 8 - mask) = ofBigEndian net / 2 ^ (net.length * 8 - mask) := by
  unfold InCidrBlock
  apply and_congr_right
  intro sameLength
  rw [take_eq_take_iff (by simp [sameLength]), bitsValue_addressBits, bitsValue_addressBits, length_addressBits,
    sameLength]

/-- A range spans the block of a prefix where `from` is the block's first value and `to` its
last. -/
theorem spansBlock_iff {fromAddr toAddr : List UInt8} (sameLength : toAddr.length = fromAddr.length) (count : Nat) :
    SpansBlock fromAddr toAddr count ↔ ofBigEndian fromAddr % 2 ^ (fromAddr.length * 8 - count) = 0 ∧
      ofBigEndian toAddr % 2 ^ (fromAddr.length * 8 - count) = 2 ^ (fromAddr.length * 8 - count) - 1 := by
  unfold SpansBlock
  rw [← bitsValue_eq_zero_iff, ← bitsValue_eq_max_iff, bitsValue_drop, bitsValue_drop, bitsValue_addressBits,
    bitsValue_addressBits, List.length_drop, length_addressBits, length_addressBits, sameLength]

/-! ## `to_subnet` -/

theorem ofNat_ne_nonSubnetAddressRange {this : TrafficSelector} {count : Nat}
    (within : count ≤ (addressBits this.fromAddr).length) : UInt8.ofNat count ≠ nonSubnetAddressRange := by
  intro isMarker
  have value := congrArg UInt8.toNat isMarker
  rw [toNat_ofNat_of_le_addressBits within] at value
  rw [length_addressBits, this.fromLength] at within
  have small := ipLen_le this.type
  simp only [nonSubnetAddressRange, UInt8.reduceToNat] at value
  omega

/-- What `to_subnet` reports, for stored `netbits` that are the verdict of `calc_netbits`: the
common prefix as the mask, and whether the range spans its block, which is then what the
selector stores. -/
theorem toSubnet_verdict {this : TrafficSelector} (calculated : this.NetbitsCalculated)
    (ordered : ofBigEndian this.fromAddr ≤ ofBigEndian this.toAddr) :
    this.toSubnet.mask = UInt8.ofNat (commonPrefixLength (addressBits this.fromAddr) (addressBits this.toAddr)) ∧
      (this.toSubnet.isSubnet = true ↔
        SpansBlock this.fromAddr this.toAddr (commonPrefixLength (addressBits this.fromAddr) (addressBits this.toAddr))) ∧
      this.toSubnet.selector.netbits =
        if SpansBlock this.fromAddr this.toAddr (commonPrefixLength (addressBits this.fromAddr) (addressBits this.toAddr))
        then UInt8.ofNat (commonPrefixLength (addressBits this.fromAddr) (addressBits this.toAddr))
        else nonSubnetAddressRange := by
  obtain ⟨returned, stored⟩ := calcNetbits_eq ordered
  have distinct := ofNat_ne_nonSubnetAddressRange (commonPrefixLength_le (addressBits this.fromAddr)
    (addressBits this.toAddr))
  unfold TrafficSelector.toSubnet
  dsimp only
  by_cases scanned : this.netbits = nonSubnetAddressRange
  · -- the range was stored as no subnet and is scanned again
    simp only [if_pos scanned, returned, stored, true_and]
    split <;> simp_all
  · -- the stored value is a prefix length, so the scan that stored it found a subnet
    have spans : SpansBlock this.fromAddr this.toAddr
        (commonPrefixLength (addressBits this.fromAddr) (addressBits this.toAddr)) := by
      by_contra notSpans
      rw [calculated, stored, if_neg notSpans] at scanned
      exact scanned rfl
    have storedPrefix : this.netbits =
        UInt8.ofNat (commonPrefixLength (addressBits this.fromAddr) (addressBits this.toAddr)) := by
      rw [calculated, stored, if_pos spans]
    simp only [↓reduceIte, storedPrefix, bne_iff_ne, ne_eq, distinct, not_false_eq_true, spans, and_self]

theorem length_toSubnet_net (this : TrafficSelector) : this.toSubnet.net.address.length = this.fromAddr.length :=
  this.toSubnet.net.addressLength.trans ((addressLength_family this.type).trans this.fromLength.symm)

/-- The network of `to_subnet` is `from` cut to the mask. -/
theorem addressBits_toSubnet_net {this : TrafficSelector} (maskLe : this.toSubnet.mask.toNat ≤ this.fromAddr.length * 8) :
    addressBits this.toSubnet.net.address =
      (addressBits this.fromAddr).take this.toSubnet.mask.toNat ++
        List.replicate (this.fromAddr.length * 8 - this.toSubnet.mask.toNat) false := by
  show addressBits (netChunk this.fromAddr this.type.ipLen this.toSubnet.mask.toNat) = _
  rw [← this.fromLength]
  exact addressBits_netChunk maskLe

/-- The values of `from` and `to` agree above the bits after their common prefix. -/
theorem div_eq_div_of_commonPrefixLength (this : TrafficSelector) :
    ofBigEndian this.fromAddr / 2 ^ (this.fromAddr.length * 8 -
        commonPrefixLength (addressBits this.fromAddr) (addressBits this.toAddr)) =
      ofBigEndian this.toAddr / 2 ^ (this.fromAddr.length * 8 -
        commonPrefixLength (addressBits this.fromAddr) (addressBits this.toAddr)) := by
  have common := take_commonPrefixLength (addressBits this.fromAddr) (addressBits this.toAddr)
  rwa [take_eq_take_iff (by simp [this.fromLength, this.toLength]), bitsValue_addressBits, bitsValue_addressBits,
    length_addressBits] at common

/-- `to_subnet` on an ordered range whose stored `netbits` are the verdict of `calc_netbits`:
the mask is the common prefix of `from` and `to`, the network `from` cut to it, and its block
holds the range; the answer, which the selector then stores, is whether the range is that
block. -/
theorem toSubnet_commonPrefixLength {this : TrafficSelector} (calculated : this.NetbitsCalculated)
    (ordered : ofBigEndian this.fromAddr ≤ ofBigEndian this.toAddr) :
    this.toSubnet.mask.toNat = commonPrefixLength (addressBits this.fromAddr) (addressBits this.toAddr) ∧
      addressBits this.toSubnet.net.address =
        (addressBits this.fromAddr).take this.toSubnet.mask.toNat ++
          List.replicate (this.type.ipLen * 8 - this.toSubnet.mask.toNat) false ∧
      (∀ address : List UInt8, address.length = this.type.ipLen →
        ofBigEndian this.fromAddr ≤ ofBigEndian address → ofBigEndian address ≤ ofBigEndian this.toAddr →
          InCidrBlock this.toSubnet.net.address this.toSubnet.mask.toNat address) ∧
      (this.toSubnet.isSubnet = true ↔ SpansBlock this.fromAddr this.toAddr this.toSubnet.mask.toNat) ∧
      (this.toSubnet.isSubnet = true ↔ ∀ address : List UInt8, address.length = this.type.ipLen →
        (ofBigEndian this.fromAddr ≤ ofBigEndian address ∧ ofBigEndian address ≤ ofBigEndian this.toAddr ↔
          InCidrBlock this.toSubnet.net.address this.toSubnet.mask.toNat address)) ∧
      this.toSubnet.selector.netbits =
        if this.toSubnet.isSubnet then this.toSubnet.mask else nonSubnetAddressRange := by
  obtain ⟨maskIs, subnetIff, storedIs⟩ := toSubnet_verdict calculated ordered
  have commonLe := commonPrefixLength_le (addressBits this.fromAddr) (addressBits this.toAddr)
  have maskValue : this.toSubnet.mask.toNat = commonPrefixLength (addressBits this.fromAddr) (addressBits this.toAddr) := by
    rw [maskIs]
    exact toNat_ofNat_of_le_addressBits commonLe
  rw [length_addressBits] at commonLe
  have netBits := addressBits_toSubnet_net (by rwa [maskValue])
  rw [maskValue] at netBits ⊢
  set common := commonPrefixLength (addressBits this.fromAddr) (addressBits this.toAddr) with commonDef
  set unit := 2 ^ (this.fromAddr.length * 8 - common) with unitDef
  have netLength := length_toSubnet_net this
  -- an address is in the block exactly where its value agrees with `from` above the low bits
  have blockIff : ∀ address : List UInt8, address.length = this.type.ipLen →
      (InCidrBlock this.toSubnet.net.address common address ↔
        ofBigEndian address / unit = ofBigEndian this.fromAddr / unit) := by
    intro address length
    have netValue := congrArg bitsValue netBits
    rw [bitsValue_addressBits, bitsValue_append, bitsValue_take, bitsValue_addressBits, bitsValue_replicate,
      length_addressBits, List.length_replicate, Bool.toNat_false, Nat.zero_mul, Nat.add_zero] at netValue
    rw [inCidrBlock_iff, netLength, netValue, Nat.mul_div_cancel _ (Nat.two_pow_pos _), length, ← this.fromLength]
    exact and_iff_right rfl
  have rangeIsBlock : (∀ address : List UInt8, address.length = this.type.ipLen →
      (ofBigEndian this.fromAddr ≤ ofBigEndian address ∧ ofBigEndian address ≤ ofBigEndian this.toAddr ↔
        InCidrBlock this.toSubnet.net.address common address)) ↔
      ofBigEndian this.fromAddr % unit = 0 ∧ ofBigEndian this.toAddr % unit = unit - 1 := by
    have whole : 256 ^ this.type.ipLen = 2 ^ (this.fromAddr.length * 8) := by
      rw [this.fromLength, Nat.mul_comm, Nat.pow_mul]
    have toBelow := ofBigEndian_lt this.toAddr
    rw [this.toLength] at toBelow
    calc _ ↔ ∀ address : List UInt8, address.length = this.type.ipLen →
          (ofBigEndian this.fromAddr ≤ ofBigEndian address ∧ ofBigEndian address ≤ ofBigEndian this.toAddr ↔
            ofBigEndian address / unit = ofBigEndian this.fromAddr / unit) := by
          apply forall_congr'
          intro address
          apply forall_congr'
          intro length
          rw [blockIff address length]
      _ ↔ ∀ value < 256 ^ this.type.ipLen,
          (ofBigEndian this.fromAddr ≤ value ∧ value ≤ ofBigEndian this.toAddr ↔
            value / unit = ofBigEndian this.fromAddr / unit) :=
          forall_length_eq_iff this.type.ipLen fun value =>
            ofBigEndian this.fromAddr ≤ value ∧ value ≤ ofBigEndian this.toAddr ↔
              value / unit = ofBigEndian this.fromAddr / unit
      _ ↔ _ := between_iff_div_eq_iff (Nat.two_pow_pos _) (by rw [whole]; exact Nat.pow_dvd_pow 2 (Nat.sub_le _ _))
          toBelow (div_eq_div_of_commonPrefixLength this)
  refine ⟨rfl, ?_, ?_, subnetIff, ?_, ?_⟩
  · rw [netBits, this.fromLength]
  · intro address length atLeast atMost
    refine ⟨by rw [netLength, length, this.fromLength], ?_⟩
    rw [netBits, List.take_left' (by simp; omega)]
    exact take_eq_of_between (by simp [length, this.fromLength]) (by simp [this.fromLength, this.toLength])
      (take_commonPrefixLength _ _) (by rwa [bitsValue_addressBits, bitsValue_addressBits])
      (by rwa [bitsValue_addressBits, bitsValue_addressBits])
  · rw [subnetIff, spansBlock_iff (this.toLength.trans this.fromLength.symm), rangeIsBlock]
  · by_cases spans : SpansBlock this.fromAddr this.toAddr common
    · rw [storedIs, if_pos spans, if_pos (subnetIff.mpr spans), maskIs]
    · have notSubnet : this.toSubnet.isSubnet = false := by
        rw [← Bool.not_eq_true, subnetIff]
        exact spans
      rw [storedIs, if_neg spans, notSubnet]
      rfl

/-- A range of an example: 10.0.0.1 to 10.0.0.6, which no prefix spans, stored as no subnet. -/
def tenOneToSix : TrafficSelector :=
  { trafficSelectorCreate 0 .tsIpv4AddrRange 0 65535 with
    netbits := nonSubnetAddressRange
    fromAddr := [10, 0, 0, 1]
    toAddr := [10, 0, 0, 6]
    fromLength := rfl
    toLength := rfl }

theorem toSubnet_commonPrefixLength_tenOneToSix :
    tenOneToSix.NetbitsCalculated ∧ ofBigEndian tenOneToSix.fromAddr ≤ ofBigEndian tenOneToSix.toAddr ∧
      (tenOneToSix.toSubnet.mask.toNat =
          commonPrefixLength (addressBits tenOneToSix.fromAddr) (addressBits tenOneToSix.toAddr) ∧
        addressBits tenOneToSix.toSubnet.net.address =
          (addressBits tenOneToSix.fromAddr).take tenOneToSix.toSubnet.mask.toNat ++
            List.replicate (tenOneToSix.type.ipLen * 8 - tenOneToSix.toSubnet.mask.toNat) false ∧
        (∀ address : List UInt8, address.length = tenOneToSix.type.ipLen →
          ofBigEndian tenOneToSix.fromAddr ≤ ofBigEndian address → ofBigEndian address ≤ ofBigEndian tenOneToSix.toAddr →
            InCidrBlock tenOneToSix.toSubnet.net.address tenOneToSix.toSubnet.mask.toNat address) ∧
        (tenOneToSix.toSubnet.isSubnet = true ↔
          SpansBlock tenOneToSix.fromAddr tenOneToSix.toAddr tenOneToSix.toSubnet.mask.toNat) ∧
        (tenOneToSix.toSubnet.isSubnet = true ↔ ∀ address : List UInt8, address.length = tenOneToSix.type.ipLen →
          (ofBigEndian tenOneToSix.fromAddr ≤ ofBigEndian address ∧
              ofBigEndian address ≤ ofBigEndian tenOneToSix.toAddr ↔
            InCidrBlock tenOneToSix.toSubnet.net.address tenOneToSix.toSubnet.mask.toNat address)) ∧
        tenOneToSix.toSubnet.selector.netbits =
          if tenOneToSix.toSubnet.isSubnet then tenOneToSix.toSubnet.mask else nonSubnetAddressRange) :=
  ⟨by decide, by decide, toSubnet_commonPrefixLength (by decide) (by decide)⟩

example : tenOneToSix.toSubnet.mask = 29 ∧ tenOneToSix.toSubnet.net.address = [10, 0, 0, 0] ∧
    tenOneToSix.toSubnet.isSubnet = false := by
  decide

/-! ## The block of a prefix, scanned -/

theorem addressBits_replicate_zero (count : Nat) :
    addressBits (List.replicate count 0) = List.replicate (count * 8) false := by
  apply eq_of_bitsValue_eq (by simp)
  rw [bitsValue_addressBits, ofBigEndian_replicate_zero, bitsValue_replicate, Bool.toNat_false, Nat.zero_mul]

theorem addressBits_replicate_max (count : Nat) :
    addressBits (List.replicate count 0xff) = List.replicate (count * 8) true := by
  apply eq_of_bitsValue_eq (by simp)
  rw [bitsValue_addressBits, ofBigEndian_replicate_max, bitsValue_replicate, Bool.toNat_true, Nat.one_mul,
    Nat.mul_comm, Nat.pow_mul]

section Block

variable {this : TrafficSelector} {pre : List Bool} {spare : Nat}
  (fromBits : addressBits this.fromAddr = pre ++ List.replicate spare false)
  (toBits : addressBits this.toAddr = pre ++ List.replicate spare true)
include fromBits toBits

theorem le_of_block : ofBigEndian this.fromAddr ≤ ofBigEndian this.toAddr := by
  rw [← bitsValue_addressBits, ← bitsValue_addressBits, fromBits, toBits, bitsValue_append, bitsValue_append,
    bitsValue_replicate, bitsValue_replicate]
  simp

theorem spansBlock_of_block : SpansBlock this.fromAddr this.toAddr pre.length := by
  unfold SpansBlock
  rw [fromBits, toBits, List.drop_left, List.drop_left]
  simp

/-- On the block of a prefix, `calc_netbits` returns the prefix length and stores it. -/
theorem calcNetbits_of_block : this.calcNetbits.2 = pre.length ∧ this.calcNetbits.1.netbits = UInt8.ofNat pre.length := by
  obtain ⟨returned, stored⟩ := calcNetbits_eq (le_of_block fromBits toBits)
  rw [fromBits, toBits, commonPrefixLength_block, if_pos (spansBlock_of_block fromBits toBits)] at stored
  rw [fromBits, toBits, commonPrefixLength_block] at returned
  exact ⟨returned, stored⟩

/-- On the block of a prefix whose length is stored, `to_subnet` reports a subnet of that
length with the prefix as its network. -/
theorem toSubnet_of_block (calculated : this.NetbitsCalculated) :
    this.toSubnet.isSubnet = true ∧ this.toSubnet.mask.toNat = pre.length ∧
      addressBits this.toSubnet.net.address = pre ++ List.replicate spare false := by
  obtain ⟨maskIs, subnetIff, -⟩ := toSubnet_verdict calculated (le_of_block fromBits toBits)
  have common : commonPrefixLength (addressBits this.fromAddr) (addressBits this.toAddr) = pre.length := by
    rw [fromBits, toBits, commonPrefixLength_block]
  have preLe : pre.length ≤ (addressBits this.fromAddr).length := by
    rw [fromBits, List.length_append]
    exact Nat.le_add_right _ _
  have width : this.fromAddr.length * 8 - pre.length = spare := by
    have lengths := congrArg List.length fromBits
    simp only [length_addressBits, List.length_append, List.length_replicate] at lengths
    omega
  rw [common] at maskIs subnetIff
  have maskValue : this.toSubnet.mask.toNat = pre.length := by
    rw [maskIs]
    exact toNat_ofNat_of_le_addressBits preLe
  refine ⟨subnetIff.mpr (spansBlock_of_block fromBits toBits), maskValue, ?_⟩
  rw [addressBits_toSubnet_net (by rw [maskValue, ← length_addressBits]; exact preLe), maskValue, fromBits,
    List.take_left' rfl, width]

end Block

theorem length_take_addressBits {address : List UInt8} {count : Nat} (countLe : count ≤ address.length * 8) :
    ((addressBits address).take count).length = count := by
  simp
  omega

section CreateFromSubnet

variable (net : Host) (netbits protocol : UInt8) (fromPort toPort : UInt16)

theorem prefixLength_le : min netbits.toNat (net.family.addressLength * 8) ≤ net.address.length * 8 := by
  rw [net.addressLength]
  exact Nat.min_le_right _ _

/-- The fields `traffic_selector_create_from_subnet` sets, with the prefix length cut to the
address. -/
theorem createFromSubnet_eq :
    (trafficSelectorCreateFromSubnet net netbits protocol fromPort toPort).fromAddr =
        (calcRange net.address (min netbits.toNat (net.family.addressLength * 8))).1 ∧
      (trafficSelectorCreateFromSubnet net netbits protocol fromPort toPort).toAddr =
        (calcRange net.address (min netbits.toNat (net.family.addressLength * 8))).2 ∧
      (trafficSelectorCreateFromSubnet net netbits protocol fromPort toPort).netbits =
        UInt8.ofNat (min netbits.toNat (net.family.addressLength * 8)) := by
  unfold trafficSelectorCreateFromSubnet
  dsimp only
  rw [ipLen_ofFamily]
  exact ⟨rfl, rfl, rfl⟩

/-- `traffic_selector_create_from_subnet` stores the block of the cut prefix length. -/
theorem addressBits_createFromSubnet :
    addressBits (trafficSelectorCreateFromSubnet net netbits protocol fromPort toPort).fromAddr =
        (addressBits net.address).take (min netbits.toNat (net.family.addressLength * 8)) ++
          List.replicate (net.family.addressLength * 8 - min netbits.toNat (net.family.addressLength * 8)) false ∧
      addressBits (trafficSelectorCreateFromSubnet net netbits protocol fromPort toPort).toAddr =
        (addressBits net.address).take (min netbits.toNat (net.family.addressLength * 8)) ++
          List.replicate (net.family.addressLength * 8 - min netbits.toNat (net.family.addressLength * 8)) true := by
  have range := addressBits_calcRange (prefixLength_le net netbits)
  obtain ⟨fromIs, toIs, -⟩ := createFromSubnet_eq net netbits protocol fromPort toPort
  rw [net.addressLength] at range
  rw [fromIs, toIs]
  exact range

theorem calcNetbits_createFromSubnet :
    (trafficSelectorCreateFromSubnet net netbits protocol fromPort toPort).calcNetbits.2 =
        min netbits.toNat (net.family.addressLength * 8) ∧
      (trafficSelectorCreateFromSubnet net netbits protocol fromPort toPort).calcNetbits.1.netbits =
        (trafficSelectorCreateFromSubnet net netbits protocol fromPort toPort).netbits := by
  have scanned := calcNetbits_of_block (addressBits_createFromSubnet net netbits protocol fromPort toPort).1
    (addressBits_createFromSubnet net netbits protocol fromPort toPort).2
  have prefixFits := prefixLength_le net netbits
  rw [length_take_addressBits prefixFits] at scanned
  rw [(createFromSubnet_eq net netbits protocol fromPort toPort).2.2]
  exact scanned

end CreateFromSubnet

/-- `traffic_selector_create_from_subnet` builds the block of the prefix length cut to the
address; `calc_netbits` finds that length again and stores it, and `to_subnet` reports the
block as the subnet of that length with the network cut to it. -/
theorem toSubnet_trafficSelectorCreateFromSubnet (net : Host) (netbits protocol : UInt8) (fromPort toPort : UInt16) :
    let created := trafficSelectorCreateFromSubnet net netbits protocol fromPort toPort
    let prefixLength := min netbits.toNat (net.family.addressLength * 8)
    addressBits created.fromAddr = (addressBits net.address).take prefixLength ++
        List.replicate (net.family.addressLength * 8 - prefixLength) false ∧
      addressBits created.toAddr = (addressBits net.address).take prefixLength ++
        List.replicate (net.family.addressLength * 8 - prefixLength) true ∧
      created.calcNetbits.2 = prefixLength ∧ created.calcNetbits.1.netbits = created.netbits ∧
      created.netbits.toNat = prefixLength ∧
      created.toSubnet.isSubnet = true ∧ created.toSubnet.mask.toNat = prefixLength ∧
      addressBits created.toSubnet.net.address = (addressBits net.address).take prefixLength ++
        List.replicate (net.family.addressLength * 8 - prefixLength) false := by
  intro created prefixLength
  obtain ⟨fromBits, toBits⟩ := addressBits_createFromSubnet net netbits protocol fromPort toPort
  obtain ⟨returned, stored⟩ := calcNetbits_createFromSubnet net netbits protocol fromPort toPort
  have prefixFits := prefixLength_le net netbits
  obtain ⟨isSubnet, maskValue, netBits⟩ := toSubnet_of_block fromBits toBits stored.symm
  rw [length_take_addressBits prefixFits] at maskValue
  refine ⟨fromBits, toBits, returned, stored, ?_, isSubnet, maskValue, netBits⟩
  -- the cut length is at most the 128 bits of an IPv6 address
  have familySmall : net.family.addressLength ≤ 16 := by
    cases net.family <;> decide
  have small : min netbits.toNat (net.family.addressLength * 8) ≤ 128 := by
    have atMost := Nat.min_le_right netbits.toNat (net.family.addressLength * 8)
    omega
  show (trafficSelectorCreateFromSubnet net netbits protocol fromPort toPort).netbits.toNat =
    min netbits.toNat (net.family.addressLength * 8)
  rw [(createFromSubnet_eq net netbits protocol fromPort toPort).2.2, UInt8.toNat_ofNat']
  omega

/-! ## Every selector the library builds stores the verdict -/

theorem netbitsCalculated_calcNetbits (this : TrafficSelector) : this.calcNetbits.1.NetbitsCalculated := rfl

theorem netbitsCalculated_setAddress (this : TrafficSelector) (host : Host) : (this.setAddress host).NetbitsCalculated := by
  unfold TrafficSelector.setAddress
  split
  · -- every address: zeros up to ones, the block of the empty prefix
    exact (@calcNetbits_of_block _ [] _ (addressBits_replicate_zero _) (addressBits_replicate_max _)).2.symm
  · -- one address: the block of the full prefix
    have scanned := @calcNetbits_of_block { this with
        type := TsType.ofFamily host.family
        fromAddr := host.address
        toAddr := host.address
        netbits := UInt8.ofNat (host.address.length * 8)
        dynamic := false
        fromLength := by rw [host.addressLength, ipLen_ofFamily]
        toLength := by rw [host.addressLength, ipLen_ofFamily] } (addressBits host.address) 0
      (List.append_nil _).symm (List.append_nil _).symm
    rw [length_addressBits] at scanned
    exact scanned.2.symm

theorem netbitsCalculated_createDynamic (protocol : UInt8) (fromPort toPort : UInt16) :
    (trafficSelectorCreateDynamic protocol fromPort toPort).NetbitsCalculated := by
  have fromBits : addressBits (trafficSelectorCreateDynamic protocol fromPort toPort).fromAddr =
      [] ++ List.replicate (4 * 8) false := addressBits_replicate_zero 4
  have toBits : addressBits (trafficSelectorCreateDynamic protocol fromPort toPort).toAddr =
      [] ++ List.replicate (4 * 8) true := addressBits_replicate_max 4
  exact (calcNetbits_of_block fromBits toBits).2.symm

theorem netbitsCalculated_toSubnet {this : TrafficSelector} (calculated : this.NetbitsCalculated) :
    this.toSubnet.selector.NetbitsCalculated := by
  unfold TrafficSelector.toSubnet
  dsimp only
  split
  · exact netbitsCalculated_calcNetbits this
  · exact calculated

/-- The selectors the constructors build, and those the operations derive from built ones. -/
inductive Reachable : TrafficSelector → Prop
  | fromBytes {protocol : UInt8} {type : TsType} {fromAddr toAddr : List UInt8} {fromPort toPort : UInt16}
      {selector : TrafficSelector} :
      trafficSelectorCreateFromBytes protocol type fromAddr fromPort toAddr toPort = some selector → Reachable selector
  | fromSubnet (net : Host) (netbits protocol : UInt8) (fromPort toPort : UInt16) :
      Reachable (trafficSelectorCreateFromSubnet net netbits protocol fromPort toPort)
  | dynamic (protocol : UInt8) (fromPort toPort : UInt16) : Reachable (trafficSelectorCreateDynamic protocol fromPort toPort)
  | setAddress {this : TrafficSelector} (host : Host) : Reachable this → Reachable (this.setAddress host)
  | clone {this : TrafficSelector} : Reachable this → Reachable this.clone
  | subset {this other subset : TrafficSelector} :
      Reachable this → Reachable other → this.getSubset other = some subset → Reachable subset
  | toSubnet {this : TrafficSelector} : Reachable this → Reachable this.toSubnet.selector

/-- Every selector the library builds stores the verdict of `calc_netbits`, so `to_subnet`
answers for it from the stored value as a scan would. -/
theorem netbitsCalculated_of_reachable {this : TrafficSelector} (reachable : Reachable this) :
    this.NetbitsCalculated := by
  induction reachable with
  | fromBytes created =>
    unfold trafficSelectorCreateFromBytes at created
    split at created
    · cases created
      exact netbitsCalculated_calcNetbits _
    · cases created
  | fromSubnet net netbits protocol fromPort toPort =>
    exact (calcNetbits_createFromSubnet net netbits protocol fromPort toPort).2.symm
  | dynamic protocol fromPort toPort => exact netbitsCalculated_createDynamic protocol fromPort toPort
  | setAddress host _ _ => exact netbitsCalculated_setAddress _ host
  | clone _ calculated => exact calculated
  | subset _ _ found _ _ =>
    rw [getSubset_eq_some_iff] at found
    obtain ⟨-, -, _, -, _, _, -, -, rfl⟩ := found
    exact netbitsCalculated_calcNetbits _
  | toSubnet _ calculated => exact netbitsCalculated_toSubnet calculated

theorem netbitsCalculated_of_reachable_setAddress :
    Reachable ((trafficSelectorCreateDynamic 0 0 65535).setAddress tenNet) ∧
      ((trafficSelectorCreateDynamic 0 0 65535).setAddress tenNet).NetbitsCalculated :=
  ⟨.setAddress tenNet (.dynamic 0 0 65535), netbitsCalculated_of_reachable (.setAddress tenNet (.dynamic 0 0 65535))⟩

end StrongSwan.Libstrongswan.Selectors
