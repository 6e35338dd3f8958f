import StrongSwan.Libstrongswan.Networking.Host
import StrongSwan.Foundations.Bytes

/-!
Contract: the traffic selectors of `traffic_selector.c`, and what they admit.

A selector admits the packets whose protocol, address and port it covers:
protocol 0 covers every protocol, the address lies between `from` and `to` as
big-endian values, and the port between `from_port` and `to_port`, where
`(0xffff, 0)` is the single OPAQUE port and `(0, 0xffff)` every port and OPAQUE.
`get_subset` computes the intersection of two selectors from five choices
(protocol, the OPAQUE cases, ports, `from`, `to`) and builds the result with
`traffic_selector_create`, which moves an ICMP port below 256 into the high
byte. `is_contained_in` asks whether the intersection compares equal to the
selector under `traffic_selector_cmp`.

`getSubset_eq_none_iff`: `get_subset` fails exactly for disjoint selectors.
`admits_getSubset`: its result admits exactly the intersection, unless the
ICMP move changes the ports (`ShiftFree`). `admits_of_isContainedIn`: under the
same condition a selector found contained admits only what the other admits.
`getSubset_icmp_moves_ports` and `isContainedIn_icmp_moved_port` are inputs
where the move breaks both.

Does not own: security label selectors, printing, hashing and the RFC 3779 forms;
`TrafficSelectorSubnet` owns what `calc_netbits` computes, `traffic_selector_create_from_bytes`
and `to_subnet`.
-/

namespace StrongSwan.Libstrongswan.Selectors

open StrongSwan.Foundations.Bytes
open StrongSwan.Foundations.Libc
open StrongSwan.Libstrongswan.Networking

inductive TsType where
  | tsIpv4AddrRange
  | tsIpv6AddrRange
deriving DecidableEq, Repr

/-- The value of `ts_type_t`, by which `traffic_selector_cmp` puts IPv4 first. -/
def TsType.value : TsType → Nat
  | .tsIpv4AddrRange => 7
  | .tsIpv6AddrRange => 8

/-- `TS_IP_LEN`. -/
def TsType.ipLen : TsType → Nat
  | .tsIpv4AddrRange => 4
  | .tsIpv6AddrRange => 16

def TsType.ofFamily : Family → TsType
  | .afInet => .tsIpv4AddrRange
  | .afInet6 => .tsIpv6AddrRange

@[simp] theorem ipLen_ofFamily (family : Family) : (TsType.ofFamily family).ipLen = family.addressLength := by
  cases family <;> rfl

def ipprotoIcmp : UInt8 := 1
def ipprotoIcmpv6 : UInt8 := 58
def nonSubnetAddressRange : UInt8 := 255

/-- A traffic selector. `from` and `to` are the `TS_IP_LEN` bytes of the range that are
ever read of the 16 the structure holds. -/
structure TrafficSelector where
  type : TsType
  protocol : UInt8
  dynamic : Bool
  netbits : UInt8
  fromAddr : List UInt8
  toAddr : List UInt8
  fromPort : UInt16
  toPort : UInt16
  fromLength : fromAddr.length = type.ipLen
  toLength : toAddr.length = type.ipLen
deriving DecidableEq

def TrafficSelector.isOpaque (this : TrafficSelector) : Bool := this.fromPort == 0xffff && this.toPort == 0

def TrafficSelector.isAny (this : TrafficSelector) : Bool := this.fromPort == 0 && this.toPort == 0xffff

def isIcmp (protocol : UInt8) : Bool := protocol == ipprotoIcmp || protocol == ipprotoIcmpv6

/-- An ICMP port below 256 is a message type, which ICMP selectors keep in the high byte. -/
def icmpPort (port : UInt16) : UInt16 := if port < 256 then port <<< 8 else port

/-- The internal `traffic_selector_create`. -/
def trafficSelectorCreate (protocol : UInt8) (type : TsType) (fromPort toPort : UInt16) : TrafficSelector where
  type := type
  protocol := protocol
  dynamic := false
  netbits := 0
  fromAddr := List.replicate type.ipLen 0
  toAddr := List.replicate type.ipLen 0
  fromPort := if isIcmp protocol then icmpPort fromPort else fromPort
  toPort := if isIcmp protocol then icmpPort toPort else toPort
  fromLength := List.length_replicate
  toLength := List.length_replicate

/-- The bits of an address, most significant first. -/
def addressBits (address : List UInt8) : List Bool :=
  address.flatMap fun byte => (List.range 8).reverse.map fun bit => byte.toNat.testBit bit

/-- The loop of `calc_netbits` over the bit pairs from position `index` on, `prefixEqual`
while all bits so far agreed: the `netbits` stored and the one returned. -/
def calcNetbitsLoop : List (Bool × Bool) → Nat → Bool → Nat → UInt8 × Nat
  | [], _, _, netbits => (UInt8.ofNat netbits, netbits)
  | (fromBit, toBit) :: rest, index, true, netbits =>
    -- the common prefix ends here, which might be a true subnet
    if fromBit ≠ toBit then calcNetbitsLoop rest (index + 1) false index
    else calcNetbitsLoop rest (index + 1) true netbits
  | (fromBit, toBit) :: rest, index, false, netbits =>
    -- past the prefix a subnet has `from` all zero and `to` all one
    if fromBit || !toBit then (nonSubnetAddressRange, netbits)
    else calcNetbitsLoop rest (index + 1) false netbits

def TrafficSelector.calcNetbits (this : TrafficSelector) : TrafficSelector × Nat :=
  let result := calcNetbitsLoop ((addressBits this.fromAddr).zip (addressBits this.toAddr)) 0 true
    (this.type.ipLen * 8)
  ({ this with netbits := result.1 }, result.2)

/-- The ports of `get_subset`: OPAQUE in its three cases, else the common range or
`none` for an empty one. -/
def subsetPorts (this other : TrafficSelector) : Option (UInt16 × UInt16) :=
  if (this.isOpaque && other.isOpaque) || (this.isOpaque && other.isAny) || (other.isOpaque && this.isAny) then
    some (0xffff, 0)
  else
    let fromPort := max this.fromPort other.fromPort
    let toPort := min this.toPort other.toPort
    if fromPort > toPort then none else some (fromPort, toPort)

/-- The `from` address of `get_subset`: the higher one. -/
def higherFrom (this other : TrafficSelector) : List UInt8 :=
  if memcmp this.fromAddr other.fromAddr this.type.ipLen = .gt then this.fromAddr else other.fromAddr

/-- The `to` address of `get_subset`: the lower one. -/
def lowerTo (this other : TrafficSelector) : List UInt8 :=
  if memcmp this.toAddr other.toAddr this.type.ipLen = .gt then other.toAddr else this.toAddr

theorem length_higherFrom {this other : TrafficSelector} (sameType : this.type = other.type) :
    (higherFrom this other).length = this.type.ipLen := by
  unfold higherFrom
  split
  · exact this.fromLength
  · rw [other.fromLength, sameType]

theorem length_lowerTo {this other : TrafficSelector} (sameType : this.type = other.type) :
    (lowerTo this other).length = this.type.ipLen := by
  unfold lowerTo
  split
  · rw [other.toLength, sameType]
  · exact this.toLength

/-- The selector `get_subset` returns once it has chosen protocol, ports and addresses. -/
def buildSubset (this other : TrafficSelector) (sameType : this.type = other.type) (fromPort toPort : UInt16) :
    TrafficSelector :=
  ({ trafficSelectorCreate (max this.protocol other.protocol) this.type fromPort toPort with
    fromAddr := higherFrom this other
    toAddr := lowerTo this other
    fromLength := length_higherFrom sameType
    toLength := length_lowerTo sameType } : TrafficSelector).calcNetbits.1

def TrafficSelector.getSubset (this other : TrafficSelector) : Option TrafficSelector :=
  -- a dynamic selector has no addresses until `set_address`
  if this.dynamic || other.dynamic then none
  else if sameType : this.type = other.type then
    if this.protocol ≠ other.protocol ∧ this.protocol ≠ 0 ∧ other.protocol ≠ 0 then none
    else
      match subsetPorts this other with
      | none => none
      | some (fromPort, toPort) =>
        if memcmp (higherFrom this other) (lowerTo this other) this.type.ipLen = .gt then none
        else some (buildSubset this other sameType fromPort toPort)
  else none

def trafficSelectorCmp (a b : TrafficSelector) : Ordering :=
  (compare a.type.value b.type.value).then <|
    (memcmp a.fromAddr b.fromAddr a.type.ipLen).then <|
    (memcmp b.toAddr a.toAddr a.type.ipLen).then <|
    (compare a.protocol b.protocol).then <|
    (compare a.fromPort b.fromPort).then (compare b.toPort a.toPort)

def TrafficSelector.equals (this other : TrafficSelector) : Bool := trafficSelectorCmp this other == .eq

def TrafficSelector.isContainedIn (this other : TrafficSelector) : Bool :=
  match this.getSubset other with
  | none => false
  | some subset => subset.equals this

def TrafficSelector.includes (this : TrafficSelector) (host : Host) : Bool :=
  if TsType.ofFamily host.family = this.type then
    memcmp this.fromAddr host.address host.address.length != .gt &&
      memcmp this.toAddr host.address host.address.length != .lt
  else false

def TrafficSelector.setAddress (this : TrafficSelector) (host : Host) : TrafficSelector :=
  if host.isAnyaddr then
    { this with
      type := TsType.ofFamily host.family
      fromAddr := List.replicate (TsType.ofFamily host.family).ipLen 0
      toAddr := List.replicate (TsType.ofFamily host.family).ipLen 0xff
      netbits := 0
      dynamic := false
      fromLength := List.length_replicate
      toLength := List.length_replicate }
  else
    { this with
      type := TsType.ofFamily host.family
      fromAddr := host.address
      toAddr := host.address
      netbits := UInt8.ofNat (host.address.length * 8)
      dynamic := false
      fromLength := by rw [host.addressLength, ipLen_ofFamily]
      toLength := by rw [host.addressLength, ipLen_ofFamily] }

/-- `calc_range`: the first `netbits` bits of `from`, then zeros in `from` and ones in `to`. -/
def calcRange (fromAddr : List UInt8) (netbits : Nat) : List UInt8 × List UInt8 :=
  let bytes := (netbits + 7) / 8
  let bits := bytes * 8 - netbits
  let mask : UInt8 := if bits ≠ 0 then (1 <<< UInt8.ofNat bits) - 1 else 0
  let low := fromAddr.take bytes ++ List.replicate (fromAddr.length - bytes) 0
  let high := fromAddr.take bytes ++ List.replicate (fromAddr.length - bytes) 0xff
  if bytes ≠ 0 then (low.modify (bytes - 1) (· &&& ~~~mask), high.modify (bytes - 1) (· ||| mask))
  else (low, high)

theorem length_calcRange (fromAddr : List UInt8) {netbits : Nat} (fits : netbits ≤ fromAddr.length * 8) :
    (calcRange fromAddr netbits).1.length = fromAddr.length ∧
      (calcRange fromAddr netbits).2.length = fromAddr.length := by
  have bytesFit : (netbits + 7) / 8 ≤ fromAddr.length := by omega
  unfold calcRange
  dsimp only
  split <;> simp [List.length_modify, bytesFit]

/-- `traffic_selector_create_from_subnet`: the prefix length is cut to the address. -/
def trafficSelectorCreateFromSubnet (net : Host) (netbits protocol : UInt8) (fromPort toPort : UInt16) :
    TrafficSelector :=
  let type := TsType.ofFamily net.family
  let this := trafficSelectorCreate protocol type fromPort toPort
  let netbits := min netbits.toNat (type.ipLen * 8)
  have fits : netbits ≤ net.address.length * 8 := by
    rw [net.addressLength, ← ipLen_ofFamily]
    exact Nat.min_le_right _ _
  { this with
    netbits := UInt8.ofNat netbits
    fromAddr := (calcRange net.address netbits).1
    toAddr := (calcRange net.address netbits).2
    fromLength := by
      rw [(length_calcRange net.address fits).1, net.addressLength]
      exact (ipLen_ofFamily net.family).symm
    toLength := by
      rw [(length_calcRange net.address fits).2, net.addressLength]
      exact (ipLen_ofFamily net.family).symm }

/-- `traffic_selector_create_from_cidr`. The `int` prefix length is passed as a
`uint8_t`, that is modulo 256. -/
def trafficSelectorCreateFromCidr (inetPton : InetPton) (string : List Char) (protocol : UInt8)
    (fromPort toPort : UInt16) : Option TrafficSelector :=
  (hostCreateFromSubnet inetPton string).map fun (net, bits) =>
    trafficSelectorCreateFromSubnet net (UInt8.ofNat (bits % 256).toNat) protocol fromPort toPort

/-! ## What a selector admits -/

/-- The port of a packet: a number, or OPAQUE where the packet has no port the selector may
look at, as for a fragment. -/
inductive Port where
  | unavailable
  | number (value : UInt16)
deriving DecidableEq

/-- The ports `from_port` to `to_port` admit: `(0xffff, 0)` only OPAQUE, `(0, 0xffff)`
OPAQUE and every number, other pairs the numbers between them. -/
def PortsAdmit (fromPort toPort : UInt16) : Port → Prop
  | .unavailable => (fromPort.toNat = 0xffff ∧ toPort.toNat = 0) ∨ (fromPort.toNat = 0 ∧ toPort.toNat = 0xffff)
  | .number value => fromPort.toNat ≤ value.toNat ∧ value.toNat ≤ toPort.toNat

instance (fromPort toPort : UInt16) : DecidablePred (PortsAdmit fromPort toPort)
  | .unavailable => inferInstanceAs (Decidable (_ ∨ _))
  | .number _ => inferInstanceAs (Decidable (_ ∧ _))

structure Packet where
  type : TsType
  protocol : UInt8
  address : List UInt8
  port : Port
deriving DecidableEq

/-- The packets a selector admits. A dynamic selector has no address yet and admits none. -/
def TrafficSelector.Admits (this : TrafficSelector) (packet : Packet) : Prop :=
  this.dynamic = false ∧ packet.type = this.type ∧ packet.address.length = this.type.ipLen ∧
    (this.protocol = 0 ∨ packet.protocol = this.protocol) ∧
    ofBigEndian this.fromAddr ≤ ofBigEndian packet.address ∧
    ofBigEndian packet.address ≤ ofBigEndian this.toAddr ∧
    PortsAdmit this.fromPort this.toPort packet.port

instance (this : TrafficSelector) (packet : Packet) : Decidable (this.Admits packet) :=
  inferInstanceAs (Decidable (_ ∧ _ ∧ _ ∧ _ ∧ _ ∧ _ ∧ _))

/-! ## The ports of `get_subset` -/

theorem toNat_max (a b : UInt16) : (max a b).toNat = max a.toNat b.toNat := by
  show (if a ≤ b then b else a).toNat = _
  split
  next below => rw [UInt16.le_iff_toNat_le] at below; omega
  next above => rw [UInt16.le_iff_toNat_le] at above; omega

theorem toNat_min (a b : UInt16) : (min a b).toNat = min a.toNat b.toNat := by
  show (if a ≤ b then a else b).toNat = _
  split
  next below => rw [UInt16.le_iff_toNat_le] at below; omega
  next above => rw [UInt16.le_iff_toNat_le] at above; omega

theorem toNat_le_maxPort (port : UInt16) : port.toNat ≤ 0xffff :=
  Nat.le_of_lt_succ port.toNat_lt_size

theorem portsAdmit_of_subsetPorts {this other : TrafficSelector} {fromPort toPort : UInt16}
    (chosen : subsetPorts this other = some (fromPort, toPort)) (port : Port) :
    PortsAdmit fromPort toPort port ↔
      PortsAdmit this.fromPort this.toPort port ∧ PortsAdmit other.fromPort other.toPort port := by
  unfold subsetPorts TrafficSelector.isOpaque TrafficSelector.isAny at chosen
  simp only [Bool.or_eq_true, Bool.and_eq_true, beq_iff_eq, ← UInt16.toNat_inj, UInt16.reduceToNat,
    gt_iff_lt, UInt16.lt_iff_toNat_lt, toNat_max, toNat_min] at chosen
  have thisTo := toNat_le_maxPort this.toPort
  have otherTo := toNat_le_maxPort other.toPort
  split_ifs at chosen with caseOpaque ordered
  · cases chosen
    cases port <;> simp [PortsAdmit] <;> omega
  · cases chosen
    cases port <;> simp [PortsAdmit, toNat_max, toNat_min] <;> omega

theorem exists_portsAdmit_of_subsetPorts {this other : TrafficSelector} {fromPort toPort : UInt16}
    (chosen : subsetPorts this other = some (fromPort, toPort)) : ∃ port, PortsAdmit fromPort toPort port := by
  unfold subsetPorts at chosen
  dsimp only at chosen
  split_ifs at chosen with caseOpaque ordered
  · cases chosen
    exact ⟨.unavailable, Or.inl ⟨rfl, rfl⟩⟩
  · cases chosen
    refine ⟨.number (max this.fromPort other.fromPort), le_refl _, ?_⟩
    simpa [UInt16.lt_iff_toNat_lt] using ordered

/-- `get_subset` finds no ports exactly when no port is admitted by both. -/
theorem subsetPorts_eq_none_iff {this other : TrafficSelector} :
    subsetPorts this other = none ↔
      ∀ port, ¬(PortsAdmit this.fromPort this.toPort port ∧ PortsAdmit other.fromPort other.toPort port) := by
  constructor
  · rintro empty port ⟨inThis, inOther⟩
    unfold subsetPorts TrafficSelector.isOpaque TrafficSelector.isAny at empty
    simp only [Bool.or_eq_true, Bool.and_eq_true, beq_iff_eq, ← UInt16.toNat_inj, UInt16.reduceToNat,
      gt_iff_lt, UInt16.lt_iff_toNat_lt, toNat_max, toNat_min] at empty
    have thisTo := toNat_le_maxPort this.toPort
    have otherTo := toNat_le_maxPort other.toPort
    split_ifs at empty with caseOpaque ordered
    cases port <;> simp only [PortsAdmit] at inThis inOther <;> omega
  · intro disjoint
    rcases chosen : subsetPorts this other with _ | ⟨fromPort, toPort⟩
    · rfl
    · obtain ⟨port, admitted⟩ := exists_portsAdmit_of_subsetPorts chosen
      exact absurd ((portsAdmit_of_subsetPorts chosen port).mp admitted) (disjoint port)

/-! ## The addresses and protocol of `get_subset` -/

section SameType

variable {this other : TrafficSelector}

theorem length_fromAddr_of_sameType (sameType : this.type = other.type) :
    other.fromAddr.length = this.type.ipLen := by
  rw [other.fromLength, sameType]

theorem length_toAddr_of_sameType (sameType : this.type = other.type) :
    other.toAddr.length = this.type.ipLen := by
  rw [other.toLength, sameType]

theorem ofBigEndian_higherFrom (sameType : this.type = other.type) :
    ofBigEndian (higherFrom this other) = max (ofBigEndian this.fromAddr) (ofBigEndian other.fromAddr) := by
  unfold higherFrom
  rw [memcmp_eq_compare this.fromLength (length_fromAddr_of_sameType sameType)]
  split_ifs with above
  · exact (max_eq_left (compare_gt_iff_gt.mp above).le).symm
  · exact (max_eq_right (not_lt.mp (mt compare_gt_iff_gt.mpr above))).symm

theorem ofBigEndian_lowerTo (sameType : this.type = other.type) :
    ofBigEndian (lowerTo this other) = min (ofBigEndian this.toAddr) (ofBigEndian other.toAddr) := by
  unfold lowerTo
  rw [memcmp_eq_compare this.toLength (length_toAddr_of_sameType sameType)]
  split_ifs with above
  · exact (min_eq_right (compare_gt_iff_gt.mp above).le).symm
  · exact (min_eq_left (not_lt.mp (mt compare_gt_iff_gt.mpr above))).symm

/-- The check that `from` is not above `to`, on values. -/
theorem memcmp_higherFrom_lowerTo_ne_gt_iff (sameType : this.type = other.type) :
    memcmp (higherFrom this other) (lowerTo this other) this.type.ipLen ≠ .gt ↔
      max (ofBigEndian this.fromAddr) (ofBigEndian other.fromAddr) ≤
        min (ofBigEndian this.toAddr) (ofBigEndian other.toAddr) := by
  rw [memcmp_eq_compare (length_higherFrom sameType) (length_lowerTo sameType), ne_eq, compare_gt_iff_gt,
    not_lt, ofBigEndian_higherFrom sameType, ofBigEndian_lowerTo sameType]

end SameType

theorem toNat_maxProtocol (a b : UInt8) : (max a b).toNat = max a.toNat b.toNat := by
  show (if a ≤ b then b else a).toNat = _
  split
  next below => rw [UInt8.le_iff_toNat_le] at below; omega
  next above => rw [UInt8.le_iff_toNat_le] at above; omega

theorem protocolAdmits_max {first second : UInt8}
    (compatible : ¬(first ≠ second ∧ first ≠ 0 ∧ second ≠ 0)) (protocol : UInt8) :
    (max first second = 0 ∨ protocol = max first second) ↔
      (first = 0 ∨ protocol = first) ∧ (second = 0 ∨ protocol = second) := by
  simp only [ne_eq, ← UInt8.toNat_inj, UInt8.reduceToNat, toNat_maxProtocol] at compatible ⊢
  omega

/-! ## `get_subset` -/

section BuildSubset

variable {this other : TrafficSelector} {sameType : this.type = other.type} {fromPort toPort : UInt16}

@[simp] theorem buildSubset_dynamic : (buildSubset this other sameType fromPort toPort).dynamic = false := rfl

@[simp] theorem buildSubset_type : (buildSubset this other sameType fromPort toPort).type = this.type := rfl

@[simp] theorem buildSubset_protocol :
    (buildSubset this other sameType fromPort toPort).protocol = max this.protocol other.protocol := rfl

@[simp] theorem buildSubset_fromAddr :
    (buildSubset this other sameType fromPort toPort).fromAddr = higherFrom this other := rfl

@[simp] theorem buildSubset_toAddr :
    (buildSubset this other sameType fromPort toPort).toAddr = lowerTo this other := rfl

@[simp] theorem buildSubset_fromPort :
    (buildSubset this other sameType fromPort toPort).fromPort =
      if isIcmp (max this.protocol other.protocol) then icmpPort fromPort else fromPort := rfl

@[simp] theorem buildSubset_toPort :
    (buildSubset this other sameType fromPort toPort).toPort =
      if isIcmp (max this.protocol other.protocol) then icmpPort toPort else toPort := rfl

end BuildSubset

/-- Everything `get_subset` checks before it returns a selector, and the one it returns. -/
theorem getSubset_eq_some_iff {this other subset : TrafficSelector} :
    this.getSubset other = some subset ↔
      this.dynamic = false ∧ other.dynamic = false ∧ ∃ sameType : this.type = other.type,
        ¬(this.protocol ≠ other.protocol ∧ this.protocol ≠ 0 ∧ other.protocol ≠ 0) ∧
        ∃ fromPort toPort, subsetPorts this other = some (fromPort, toPort) ∧
          memcmp (higherFrom this other) (lowerTo this other) this.type.ipLen ≠ .gt ∧
          buildSubset this other sameType fromPort toPort = subset := by
  constructor
  · intro found
    unfold TrafficSelector.getSubset at found
    -- the address check does not depend on the ports, so it splits off first
    split_ifs at found with anyDynamic sameType clash above <;>
      rcases chosen : subsetPorts this other with _ | ⟨fromPort, toPort⟩ <;> rw [chosen] at found <;>
      cases found
    simp only [Bool.or_eq_true, not_or, Bool.not_eq_true] at anyDynamic
    exact ⟨anyDynamic.1, anyDynamic.2, sameType, clash, fromPort, toPort, rfl, above, rfl⟩
  · rintro ⟨thisStatic, otherStatic, sameType, compatible, fromPort, toPort, chosen, ordered, rfl⟩
    rw [TrafficSelector.getSubset, if_neg (by simp [thisStatic, otherStatic]), dif_pos sameType,
      if_neg compatible]
    simp only [chosen]
    rw [if_neg ordered]

/-- Where protocols do not clash, each is 0 or the larger one, which the subset takes. -/
theorem protocol_zero_or_max {first second : UInt8}
    (compatible : ¬(first ≠ second ∧ first ≠ 0 ∧ second ≠ 0)) :
    (first = 0 ∨ first = max first second) ∧ (second = 0 ∨ second = max first second) := by
  simp only [ne_eq, ← UInt8.toNat_inj, UInt8.reduceToNat, toNat_maxProtocol] at compatible ⊢
  omega

/-- Some packet lies in both selectors whenever `get_subset` finds a subset: one at the higher
`from` address, with the larger protocol and a port of the chosen range. -/
theorem exists_admits_of_getSubset {this other subset : TrafficSelector}
    (found : this.getSubset other = some subset) : ∃ packet, this.Admits packet ∧ other.Admits packet := by
  obtain ⟨thisStatic, otherStatic, sameType, compatible, fromPort, toPort, chosen, ordered, -⟩ :=
    getSubset_eq_some_iff.mp found
  obtain ⟨port, admitted⟩ := exists_portsAdmit_of_subsetPorts chosen
  obtain ⟨thisPorts, otherPorts⟩ := (portsAdmit_of_subsetPorts chosen port).mp admitted
  obtain ⟨thisProtocol, otherProtocol⟩ :=
    (protocolAdmits_max compatible (max this.protocol other.protocol)).mp (Or.inr rfl)
  have addresses := (memcmp_higherFrom_lowerTo_ne_gt_iff sameType).mp ordered
  have higher := ofBigEndian_higherFrom sameType
  refine ⟨⟨this.type, max this.protocol other.protocol, higherFrom this other, port⟩,
    ⟨thisStatic, rfl, length_higherFrom sameType, thisProtocol, ?_, ?_, thisPorts⟩,
    ⟨otherStatic, sameType, sameType ▸ length_higherFrom sameType, otherProtocol, ?_, ?_, otherPorts⟩⟩ <;>
    simp only [higher] <;> omega

/-- `get_subset` finds nothing exactly for disjoint selectors. -/
theorem getSubset_eq_none_iff {this other : TrafficSelector} (thisStatic : this.dynamic = false)
    (otherStatic : other.dynamic = false) :
    this.getSubset other = none ↔ ∀ packet, ¬(this.Admits packet ∧ other.Admits packet) := by
  constructor
  · rintro empty packet ⟨⟨-, thisType, thisLength, thisProtocol, thisFrom, thisTo, thisPorts⟩,
      ⟨-, otherType, -, otherProtocol, otherFrom, otherTo, otherPorts⟩⟩
    have sameType : this.type = other.type := thisType.symm.trans otherType
    -- a common packet passes each check of the source in turn
    have compatible : ¬(this.protocol ≠ other.protocol ∧ this.protocol ≠ 0 ∧ other.protocol ≠ 0) := by
      rintro ⟨differ, thisNonzero, otherNonzero⟩
      exact differ ((thisProtocol.resolve_left thisNonzero).symm.trans (otherProtocol.resolve_left otherNonzero))
    obtain ⟨⟨fromPort, toPort⟩, chosen⟩ := Option.ne_none_iff_exists'.mp
      (mt subsetPorts_eq_none_iff.mp (not_forall_not.mpr ⟨packet.port, thisPorts, otherPorts⟩))
    have ordered : memcmp (higherFrom this other) (lowerTo this other) this.type.ipLen ≠ .gt := by
      rw [memcmp_higherFrom_lowerTo_ne_gt_iff sameType]
      omega
    have found := getSubset_eq_some_iff.mpr
      ⟨thisStatic, otherStatic, sameType, compatible, fromPort, toPort, chosen, ordered, rfl⟩
    rw [empty] at found
    cases found
  · intro disjoint
    rcases found : this.getSubset other with _ | subset
    · rfl
    · obtain ⟨packet, both⟩ := exists_admits_of_getSubset found
      exact absurd both (disjoint packet)

/-! ## The ICMP move -/

/-- A port the ICMP move keeps: 0, or with a message type in its high byte. -/
def IcmpNormal (port : UInt16) : Prop := port.toNat = 0 ∨ 256 ≤ port.toNat

theorem icmpPort_of_icmpNormal {port : UInt16} (normal : IcmpNormal port) : icmpPort port = port := by
  unfold icmpPort
  rcases normal with zero | high
  · rw [UInt16.toNat_inj.mp (zero.trans UInt16.toNat_zero.symm)]
    rfl
  · rw [if_neg (by rw [UInt16.lt_iff_toNat_lt]; simpa using high)]

/-- A selector whose protocol an intersection may turn into ICMP, 0 or ICMP itself, with its
ports in ICMP form. -/
def TrafficSelector.IcmpReady (this : TrafficSelector) : Prop :=
  this.protocol = 0 ∨ isIcmp this.protocol = true → IcmpNormal this.fromPort ∧ IcmpNormal this.toPort

/-- Two selectors whose intersection is ICMP only if both are ready for it: then
`traffic_selector_create` keeps the ports `get_subset` chose. -/
def ShiftFree (this other : TrafficSelector) : Prop :=
  isIcmp (max this.protocol other.protocol) = true → this.IcmpReady ∧ other.IcmpReady

theorem shiftFree_of_icmpReady {this other : TrafficSelector} (thisReady : this.IcmpReady)
    (otherReady : other.IcmpReady) : ShiftFree this other :=
  fun _ => ⟨thisReady, otherReady⟩

theorem icmpNormal_of_subsetPorts {this other : TrafficSelector} {fromPort toPort : UInt16}
    (chosen : subsetPorts this other = some (fromPort, toPort))
    (thisNormal : IcmpNormal this.fromPort ∧ IcmpNormal this.toPort)
    (otherNormal : IcmpNormal other.fromPort ∧ IcmpNormal other.toPort) :
    IcmpNormal fromPort ∧ IcmpNormal toPort := by
  unfold subsetPorts at chosen
  dsimp only at chosen
  split_ifs at chosen
  · cases chosen
    exact ⟨Or.inr (by decide), Or.inl rfl⟩
  · cases chosen
    simp only [IcmpNormal, toNat_max, toNat_min] at thisNormal otherNormal ⊢
    omega

/-- Under `ShiftFree` the subset keeps the ports `get_subset` chose. -/
theorem subsetPorts_kept {this other : TrafficSelector} {fromPort toPort : UInt16}
    (shiftFree : ShiftFree this other) (compatible : ¬(this.protocol ≠ other.protocol ∧ this.protocol ≠ 0 ∧ other.protocol ≠ 0))
    (chosen : subsetPorts this other = some (fromPort, toPort)) :
    (if isIcmp (max this.protocol other.protocol) then icmpPort fromPort else fromPort) = fromPort ∧
      (if isIcmp (max this.protocol other.protocol) then icmpPort toPort else toPort) = toPort := by
  by_cases icmp : isIcmp (max this.protocol other.protocol) = true
  · obtain ⟨thisReady, otherReady⟩ := shiftFree icmp
    -- each protocol is 0 or the ICMP protocol of the subset, so both selectors are in ICMP form
    obtain ⟨thisProtocol, otherProtocol⟩ := protocol_zero_or_max compatible
    have thisNormal := thisReady (thisProtocol.imp_right fun larger => by rw [larger]; exact icmp)
    have otherNormal := otherReady (otherProtocol.imp_right fun larger => by rw [larger]; exact icmp)
    obtain ⟨fromNormal, toNormal⟩ := icmpNormal_of_subsetPorts chosen thisNormal otherNormal
    rw [if_pos icmp, if_pos icmp, icmpPort_of_icmpNormal fromNormal, icmpPort_of_icmpNormal toNormal]
    exact ⟨rfl, rfl⟩
  · rw [if_neg icmp, if_neg icmp]
    exact ⟨rfl, rfl⟩

/-- What the selector `get_subset` builds admits is what both selectors admit, unless the
ICMP move shifts its ports. -/
theorem admits_buildSubset {this other : TrafficSelector} {sameType : this.type = other.type}
    {fromPort toPort : UInt16} (thisStatic : this.dynamic = false) (otherStatic : other.dynamic = false)
    (compatible : ¬(this.protocol ≠ other.protocol ∧ this.protocol ≠ 0 ∧ other.protocol ≠ 0))
    (chosen : subsetPorts this other = some (fromPort, toPort)) (shiftFree : ShiftFree this other)
    (packet : Packet) :
    (buildSubset this other sameType fromPort toPort).Admits packet ↔ this.Admits packet ∧ other.Admits packet := by
  obtain ⟨keptFrom, keptTo⟩ := subsetPorts_kept shiftFree compatible chosen
  simp only [TrafficSelector.Admits, buildSubset_dynamic, buildSubset_type, buildSubset_protocol,
    buildSubset_fromAddr, buildSubset_toAddr, buildSubset_fromPort, buildSubset_toPort, keptFrom, keptTo,
    ofBigEndian_higherFrom sameType, ofBigEndian_lowerTo sameType, portsAdmit_of_subsetPorts chosen,
    protocolAdmits_max compatible, max_le_iff, le_min_iff, thisStatic, otherStatic, ← sameType]
  constructor
  · rintro ⟨-, typed, sized, ⟨thisProtocol, otherProtocol⟩, ⟨thisFrom, otherFrom⟩, ⟨thisTo, otherTo⟩,
      thisPorts, otherPorts⟩
    exact ⟨⟨trivial, typed, sized, thisProtocol, thisFrom, thisTo, thisPorts⟩,
      ⟨trivial, typed, sized, otherProtocol, otherFrom, otherTo, otherPorts⟩⟩
  · rintro ⟨⟨-, typed, sized, thisProtocol, thisFrom, thisTo, thisPorts⟩,
      ⟨-, -, -, otherProtocol, otherFrom, otherTo, otherPorts⟩⟩
    exact ⟨trivial, typed, sized, ⟨thisProtocol, otherProtocol⟩, ⟨thisFrom, otherFrom⟩, ⟨thisTo, otherTo⟩,
      thisPorts, otherPorts⟩

/-- The selector `get_subset` returns admits exactly the packets both admit, unless the ICMP
move shifts its ports. -/
theorem admits_getSubset {this other subset : TrafficSelector} (shiftFree : ShiftFree this other)
    (found : this.getSubset other = some subset) (packet : Packet) :
    subset.Admits packet ↔ this.Admits packet ∧ other.Admits packet := by
  obtain ⟨thisStatic, otherStatic, sameType, compatible, fromPort, toPort, chosen, -, rfl⟩ :=
    getSubset_eq_some_iff.mp found
  exact admits_buildSubset thisStatic otherStatic compatible chosen shiftFree packet

/-! ## `traffic_selector_cmp` and `is_contained_in` -/

theorem value_inj {first second : TsType} : first.value = second.value ↔ first = second := by
  cases first <;> cases second <;> decide

/-- `traffic_selector_cmp` finds two selectors equal exactly when type, addresses, protocol
and ports agree; `netbits` and `dynamic` it does not look at. -/
theorem trafficSelectorCmp_eq_eq_iff {first second : TrafficSelector} :
    trafficSelectorCmp first second = .eq ↔
      first.type = second.type ∧ first.fromAddr = second.fromAddr ∧ first.toAddr = second.toAddr ∧
        first.protocol = second.protocol ∧ first.fromPort = second.fromPort ∧ first.toPort = second.toPort := by
  simp only [trafficSelectorCmp, Ordering.then_eq_eq, Std.compare_eq_iff_eq, value_inj]
  constructor
  · rintro ⟨sameType, sameFrom, sameTo, sameProtocol, sameFromPort, sameToPort⟩
    exact ⟨sameType, (memcmp_eq_eq_iff first.fromLength (length_fromAddr_of_sameType sameType)).mp sameFrom,
      ((memcmp_eq_eq_iff (length_toAddr_of_sameType sameType) first.toLength).mp sameTo).symm,
      sameProtocol, sameFromPort, sameToPort.symm⟩
  · rintro ⟨sameType, sameFrom, sameTo, sameProtocol, sameFromPort, sameToPort⟩
    exact ⟨sameType, (memcmp_eq_eq_iff first.fromLength (length_fromAddr_of_sameType sameType)).mpr sameFrom,
      (memcmp_eq_eq_iff (length_toAddr_of_sameType sameType) first.toLength).mpr sameTo.symm,
      sameProtocol, sameFromPort, sameToPort.symm⟩

/-- Selectors `traffic_selector_cmp` finds equal admit the same packets. -/
theorem admits_congr {first second : TrafficSelector} (same : trafficSelectorCmp first second = .eq)
    (sameDynamic : first.dynamic = second.dynamic) (packet : Packet) :
    first.Admits packet ↔ second.Admits packet := by
  obtain ⟨sameType, sameFrom, sameTo, sameProtocol, sameFromPort, sameToPort⟩ :=
    trafficSelectorCmp_eq_eq_iff.mp same
  simp only [TrafficSelector.Admits, sameDynamic, sameType, sameFrom, sameTo, sameProtocol, sameFromPort,
    sameToPort]

theorem dynamic_of_getSubset {this other subset : TrafficSelector} (found : this.getSubset other = some subset) :
    subset.dynamic = false := by
  obtain ⟨-, -, -, -, -, -, -, -, rfl⟩ := getSubset_eq_some_iff.mp found
  rfl

section SameType

variable {this other : TrafficSelector}

end SameType

/-- What `is_contained_in` accepts lies within the other selector, unless the ICMP move shifts
the ports of the subset. -/
theorem admits_of_isContainedIn {this other : TrafficSelector} (shiftFree : ShiftFree this other)
    (thisStatic : this.dynamic = false) (contained : this.isContainedIn other = true) (packet : Packet)
    (admitted : this.Admits packet) : other.Admits packet := by
  unfold TrafficSelector.isContainedIn at contained
  split at contained
  next => cases contained
  next subset found =>
    have same : trafficSelectorCmp subset this = .eq := by
      simpa only [TrafficSelector.equals, beq_iff_eq] using contained
    have inSubset := (admits_congr same ((dynamic_of_getSubset found).trans thisStatic.symm) packet).mpr admitted
    exact ((admits_getSubset shiftFree found packet).mp inSubset).2

/-! ## Copies, dynamic selectors and selectors in ICMP form -/

/-- `clone`: a copy made through `traffic_selector_create`, which moves ICMP ports again. -/
def TrafficSelector.clone (this : TrafficSelector) : TrafficSelector :=
  { trafficSelectorCreate this.protocol this.type this.fromPort this.toPort with
    netbits := this.netbits
    dynamic := this.dynamic
    fromAddr := this.fromAddr
    toAddr := this.toAddr
    fromLength := this.fromLength
    toLength := this.toLength }

/-- `traffic_selector_create_dynamic`: an IPv4 selector of every address, to be replaced by
`set_address`. -/
def trafficSelectorCreateDynamic (protocol : UInt8) (fromPort toPort : UInt16) : TrafficSelector :=
  { trafficSelectorCreate protocol .tsIpv4AddrRange fromPort toPort with
    fromAddr := List.replicate 4 0
    toAddr := List.replicate 4 0xff
    netbits := 0
    dynamic := true
    fromLength := List.length_replicate
    toLength := List.length_replicate }

theorem icmpNormal_of_icmpReady {this : TrafficSelector} (ready : this.IcmpReady) (icmp : isIcmp this.protocol) :
    IcmpNormal this.fromPort ∧ IcmpNormal this.toPort :=
  ready (Or.inr icmp)

/-- A selector in ICMP form is its own copy. -/
theorem clone_eq_of_icmpReady {this : TrafficSelector} (ready : this.IcmpReady) : this.clone = this := by
  unfold TrafficSelector.clone trafficSelectorCreate
  by_cases icmp : isIcmp this.protocol = true
  · obtain ⟨fromNormal, toNormal⟩ := icmpNormal_of_icmpReady ready icmp
    simp only [icmp, if_true, icmpPort_of_icmpNormal fromNormal, icmpPort_of_icmpNormal toNormal]
  · simp only [icmp, Bool.false_eq_true, if_false]

theorem icmpReady_setAddress {this : TrafficSelector} (ready : this.IcmpReady) (host : Host) :
    (this.setAddress host).IcmpReady := by
  unfold TrafficSelector.setAddress
  split <;> exact ready

/-- An intersection of selectors in ICMP form is in ICMP form. -/
theorem icmpReady_of_getSubset {this other subset : TrafficSelector} (thisReady : this.IcmpReady)
    (otherReady : other.IcmpReady) (found : this.getSubset other = some subset) : subset.IcmpReady := by
  obtain ⟨-, -, sameType, compatible, fromPort, toPort, chosen, -, rfl⟩ := getSubset_eq_some_iff.mp found
  intro candidate
  simp only [buildSubset_protocol] at candidate
  -- the subset's protocol is 0 or ICMP, and so is each of the two
  obtain ⟨thisProtocol, otherProtocol⟩ := protocol_zero_or_max compatible
  have eitherCandidate : ∀ protocol : UInt8, protocol = 0 ∨ protocol = max this.protocol other.protocol →
      protocol = 0 ∨ isIcmp protocol = true := by
    rintro protocol (zero | larger)
    · exact Or.inl zero
    · rw [larger]
      exact candidate
  obtain ⟨fromNormal, toNormal⟩ := icmpNormal_of_subsetPorts chosen
    (thisReady (eitherCandidate _ thisProtocol)) (otherReady (eitherCandidate _ otherProtocol))
  simp only [buildSubset_fromPort, buildSubset_toPort]
  split
  · rw [icmpPort_of_icmpNormal fromNormal, icmpPort_of_icmpNormal toNormal]
    exact ⟨fromNormal, toNormal⟩
  · exact ⟨fromNormal, toNormal⟩

/-! ## Prefix lengths `traffic_selector_create_from_cidr` rewrites -/

/-- The addresses of the selector read from a CIDR string, any protocol and port. -/
def cidrRange (string : String) : Option (List UInt8 × List UInt8) :=
  (trafficSelectorCreateFromCidr glibcInet4Only string.toList 0 0 0xffff).map fun ts => (ts.fromAddr, ts.toAddr)

/-- `atoi` reads the prefix length without complaint and the conversion to `uint8_t` and the
cut to 32 bits change it: a prefix of 264 is read as 8, one of -1 as 32 and one of `abc` as 0,
each a selector and none `NULL`. -/
theorem trafficSelectorCreateFromCidr_rewrites_prefix :
    cidrRange "10.1.2.3/264" = some ([10, 0, 0, 0], [10, 255, 255, 255]) ∧
      cidrRange "10.1.2.3/-1" = some ([10, 1, 2, 3], [10, 1, 2, 3]) ∧
      cidrRange "10.1.2.3/abc" = some ([0, 0, 0, 0], [255, 255, 255, 255]) := by
  decide

/-! ## Where the ICMP move breaks the intersection -/

def tenNet : Host := ⟨.afInet, [10, 0, 0, 0], rfl⟩

/-- `10.0.0.0/8`, any protocol, ports 1 to 5. -/
def lowPortRange : TrafficSelector := trafficSelectorCreateFromSubnet tenNet 8 0 1 5

/-- `10.0.0.0/8`, ICMP, every port. -/
def icmpAnyPort : TrafficSelector := trafficSelectorCreateFromSubnet tenNet 8 ipprotoIcmp 0 0xffff

/-- An ICMP packet with port 3, admitted by both selectors. -/
def icmpPortThree : Packet := ⟨.tsIpv4AddrRange, ipprotoIcmp, [10, 1, 2, 3], .number 3⟩

/-- An ICMP packet with port 256, admitted by neither of the first. -/
def icmpPortHigh : Packet := ⟨.tsIpv4AddrRange, ipprotoIcmp, [10, 1, 2, 3], .number 256⟩

/-- The intersection of ports 1 to 5 of any protocol with ICMP comes back as ports 256 to
1280: `traffic_selector_create` moves the chosen ports into the high byte. It misses a packet
both selectors admit and admits one the first does not. -/
theorem getSubset_icmp_moves_ports :
    ∃ subset, lowPortRange.getSubset icmpAnyPort = some subset ∧
      subset.fromPort = 256 ∧ subset.toPort = 1280 ∧
      lowPortRange.Admits icmpPortThree ∧ icmpAnyPort.Admits icmpPortThree ∧ ¬subset.Admits icmpPortThree ∧
      subset.Admits icmpPortHigh ∧ ¬lowPortRange.Admits icmpPortHigh := by
  refine ⟨_, rfl, ?_⟩
  decide

/-- `10.0.0.0/8`, ICMP, ports 0 to 1, stored as 0 to 256. -/
def icmpLowTypes : TrafficSelector := trafficSelectorCreateFromSubnet tenNet 8 ipprotoIcmp 0 1

/-- `10.0.0.0/8`, any protocol, ports 0 to 1. -/
def anyLowPorts : TrafficSelector := trafficSelectorCreateFromSubnet tenNet 8 0 0 1

/-- An ICMP packet with port 2. -/
def icmpPortTwo : Packet := ⟨.tsIpv4AddrRange, ipprotoIcmp, [10, 1, 2, 3], .number 2⟩

/-- `is_contained_in` finds the ICMP selector within ports 0 to 1 of any protocol: the
subset's ports 0 to 1 are moved back to 0 to 256, its own. Yet it admits port 2, which the
other does not. -/
theorem isContainedIn_icmp_moved_port :
    icmpLowTypes.isContainedIn anyLowPorts = true ∧ icmpLowTypes.Admits icmpPortTwo ∧
      ¬anyLowPorts.Admits icmpPortTwo := by
  decide

end StrongSwan.Libstrongswan.Selectors
