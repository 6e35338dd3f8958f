import StrongSwan.Foundations.BitBlocks
import StrongSwan.Foundations.Libc
import StrongSwan.Libstrongswan.Networking.Host
import StrongSwan.Libstrongswan.Utils.IdentificationDn

/-!
Contract: how `matches_range` ranks an IP identity against another, and the identities
`create_ip_address_from_string` builds.

An IP identity is an address, a subnet (network and netmask) or a range (first and last
address), of 4 or 16 bytes each. `matches_range` answers `ID_MATCH_ANY` for `%any` and
`ID_MATCH_PERFECT` for an identical identity; otherwise it dispatches on the two types to
`match_subnets`, which compares prefix lengths and the bytes the shorter netmask covers,
or to `match_ranges`, which compares first and last addresses, after `subnet_to_range`
where a subnet meets a range.

Read as sets of big-endian values, every well-formed IP identity is an interval
(`addresses_eq_Icc`), and each of the eight comparisons ranks the two intervals the same
way (`matchesKinds_eq_rankRanges`). `matchesRange_iff_subset`: the answer is not
`ID_MATCH_NONE` exactly where the first identity's addresses lie within the other's, of
the same family.

Does not own: the string and DN identities, `%any` parsing, printing, and the malformed
encodings the length checks refuse.
-/

namespace StrongSwan.Libstrongswan.Utils

open StrongSwan.Foundations.Bytes StrongSwan.Foundations.Libc StrongSwan.Libstrongswan.Networking

/-- The inner loop of `netmask_to_cidr`, `while (byte & 0x80) { netbits++; byte <<= 1; }`:
a `uint8_t` has no bit left after eight shifts, so eight rounds are all the loop runs. -/
def countLeadingOnes : Nat → UInt8 → Nat → Nat
  | 0, _, netbits => netbits
  | fuel + 1, byte, netbits =>
    if byte &&& 0x80 ≠ 0 then countLeadingOnes fuel (byte <<< 1) (netbits + 1) else netbits

/-- Eight shifts leave no bit of a byte. -/
theorem shift_eight (byte : UInt8) : (· <<< (1 : UInt8))^[8] byte = 0 := by
  apply UInt8.toNat_inj.mp
  have below := byte.toNat_lt
  simp only [Function.iterate_succ, Function.iterate_zero, Function.comp_apply, id_eq, UInt8.toNat_shiftLeft,
    UInt8.reduceToNat, Nat.reduceMod, Nat.shiftLeft_eq, pow_one]
  omega

/-- Once the shifts have cleared the byte, more rounds change nothing. -/
theorem countLeadingOnes_add_of_shifted (fuel : Nat) :
    ∀ (rounds : Nat) (byte : UInt8) (netbits : Nat), (· <<< (1 : UInt8))^[rounds] byte = 0 →
      countLeadingOnes (fuel + rounds) byte netbits = countLeadingOnes rounds byte netbits := by
  intro rounds
  induction rounds with
  | zero =>
    intro byte netbits cleared
    rw [Function.iterate_zero, id_eq] at cleared
    subst cleared
    cases fuel <;> simp [countLeadingOnes]
  | succ rounds inductionHypothesis =>
    intro byte netbits cleared
    rw [Function.iterate_succ, Function.comp_apply] at cleared
    rw [← Nat.add_assoc, countLeadingOnes, countLeadingOnes, inductionHypothesis _ _ cleared]

/-- Eight rounds are all the loop of `netmask_to_cidr` runs: more fuel gives the same count. -/
theorem countLeadingOnes_add_eight (fuel : Nat) (byte : UInt8) (netbits : Nat) :
    countLeadingOnes (fuel + 8) byte netbits = countLeadingOnes 8 byte netbits :=
  countLeadingOnes_add_of_shifted fuel 8 byte netbits (shift_eight byte)

/-- The loop of `netmask_to_cidr` over the netmask's bytes. `netbits` is a `uint8_t`; it
stays below 129 for netmasks of at most 16 bytes, so it never wraps. -/
def netmaskToCidrLoop : List UInt8 → Nat → Nat
  | [], netbits => netbits
  | byte :: rest, netbits =>
    if byte = 0x00 then netbits
    else if byte = 0xff then netmaskToCidrLoop rest (netbits + 8)
    else netmaskToCidrLoop rest (countLeadingOnes 8 byte netbits)

theorem netmaskToCidrLoop_nil (netbits : Nat) : netmaskToCidrLoop [] netbits = netbits := rfl

theorem netmaskToCidrLoop_cons (byte : UInt8) (rest : List UInt8) (netbits : Nat) :
    netmaskToCidrLoop (byte :: rest) netbits =
      if byte = 0x00 then netbits
      else if byte = 0xff then netmaskToCidrLoop rest (netbits + 8)
      else netmaskToCidrLoop rest (countLeadingOnes 8 byte netbits) := rfl

def netmaskToCidr (netmask : List UInt8) (addressSize : Nat) : Nat :=
  netmaskToCidrLoop (netmask.take addressSize) 0

/-- `subnet_to_range`: the network with the bits after the prefix cleared, and set. -/
def subnetToRange (encoding : List UInt8) (addressSize : Nat) : List UInt8 × List UInt8 :=
  let network := encoding.take addressSize
  let netbits := netmaskToCidr (encoding.drop addressSize) addressSize
  let i := netbits / 8
  if i < addressSize then
    -- an `int` shift stored in a `uint8_t`: no bit is left where `netbits % 8 = 0`
    let mask := UInt8.ofNat (0xff <<< (8 - netbits % 8))
    ((network.modify i (· &&& mask)).take (i + 1) ++ List.replicate (addressSize - i - 1) 0,
      (network.modify i (· ||| ~~~mask)).take (i + 1) ++ List.replicate (addressSize - i - 1) 0xff)
  else (network, network)

/-- The loop of `match_subnets` over the bytes the other netmask covers. -/
def prefixAgrees (network otherNetwork otherNetmask : List UInt8) (count : Nat) : Bool :=
  (List.range count).all fun i =>
    (network.getD i 0 ^^^ otherNetwork.getD i 0) &&& otherNetmask.getD i 0 = 0

/-- `match_subnets`; a missing netmask is an address, a prefix of all its bits. -/
def matchSubnets (network : List UInt8) (netmask : Option (List UInt8)) (otherNetwork : List UInt8)
    (otherNetmask : Option (List UInt8)) (addressSize : Nat) : Nat :=
  let otherNetbits := (otherNetmask.map (netmaskToCidr · addressSize)).getD (8 * addressSize)
  if otherNetbits = 0 then idMatchMaxWildcards
  else
    let netbits := (netmask.map (netmaskToCidr · addressSize)).getD (8 * addressSize)
    if netbits = otherNetbits then
      if network.take addressSize = otherNetwork.take addressSize then idMatchPerfect else idMatchNone
    else if netbits < otherNetbits then idMatchNone
    -- the loop runs only below a netmask: without one `other_netbits` is the largest prefix
    else if prefixAgrees network otherNetwork (otherNetmask.getD []) ((otherNetbits + 7) / 8) then
      idMatchOneWildcard
    else idMatchNone

/-- `match_ranges`. -/
def matchRanges (fromAddr toAddr otherFrom otherTo : List UInt8) (addressSize : Nat) : Nat :=
  if memcmp toAddr fromAddr addressSize = .lt ∨ memcmp otherTo otherFrom addressSize = .lt then idMatchNone
  else if otherFrom.take addressSize = List.replicate addressSize 0 ∧
      otherTo.take addressSize = List.replicate addressSize 0xff then idMatchMaxWildcards
  else
    let matchFrom := memcmp fromAddr otherFrom addressSize
    let matchTo := memcmp toAddr otherTo addressSize
    if matchFrom = .eq ∧ matchTo = .eq then idMatchPerfect
    else if matchFrom ≠ .lt ∧ matchTo ≠ .gt then idMatchOneWildcard
    else idMatchNone

/-- The `matches_*_to_*` functions: both encodings must hold `thisCount` and `otherCount`
addresses, which `compare` then reads. -/
def matchesChecked (thisCount otherCount : Nat) (compare : List UInt8 → List UInt8 → Nat)
    (this other : Identification) (addressSize : Nat) : Nat :=
  if this.encoded.length ≠ thisCount * addressSize ∨ other.encoded.length ≠ otherCount * addressSize then
    idMatchNone
  else compare this.encoded other.encoded

theorem matchesChecked_def (thisCount otherCount : Nat) (compare : List UInt8 → List UInt8 → Nat)
    (this other : Identification) (addressSize : Nat) :
    matchesChecked thisCount otherCount compare this other addressSize =
      if this.encoded.length ≠ thisCount * addressSize ∨ other.encoded.length ≠ otherCount * addressSize then
        idMatchNone
      else compare this.encoded other.encoded := rfl

def matchesSubnetToAddr (this other : Identification) (addressSize : Nat) : Nat :=
  matchesChecked 2 1 (fun encoded otherEncoded =>
    matchSubnets (encoded.take addressSize) (some (encoded.drop addressSize)) otherEncoded none addressSize)
    this other addressSize

def matchesRangeToAddr (this other : Identification) (addressSize : Nat) : Nat :=
  matchesChecked 2 1 (fun encoded otherEncoded =>
    matchRanges (encoded.take addressSize) (encoded.drop addressSize) otherEncoded otherEncoded addressSize)
    this other addressSize

def matchesAddrToSubnet (this other : Identification) (addressSize : Nat) : Nat :=
  matchesChecked 1 2 (fun encoded otherEncoded =>
    matchSubnets encoded none (otherEncoded.take addressSize) (some (otherEncoded.drop addressSize))
      addressSize)
    this other addressSize

def matchesSubnetToSubnet (this other : Identification) (addressSize : Nat) : Nat :=
  matchesChecked 2 2 (fun encoded otherEncoded =>
    matchSubnets (encoded.take addressSize) (some (encoded.drop addressSize))
      (otherEncoded.take addressSize) (some (otherEncoded.drop addressSize)) addressSize)
    this other addressSize

def matchesRangeToSubnet (this other : Identification) (addressSize : Nat) : Nat :=
  matchesChecked 2 2 (fun encoded otherEncoded =>
    matchRanges (encoded.take addressSize) (encoded.drop addressSize)
      (subnetToRange otherEncoded addressSize).1 (subnetToRange otherEncoded addressSize).2 addressSize)
    this other addressSize

def matchesAddrToRange (this other : Identification) (addressSize : Nat) : Nat :=
  matchesChecked 1 2 (fun encoded otherEncoded =>
    matchRanges encoded encoded (otherEncoded.take addressSize) (otherEncoded.drop addressSize) addressSize)
    this other addressSize

def matchesSubnetToRange (this other : Identification) (addressSize : Nat) : Nat :=
  matchesChecked 2 2 (fun encoded otherEncoded =>
    matchRanges (subnetToRange encoded addressSize).1 (subnetToRange encoded addressSize).2
      (otherEncoded.take addressSize) (otherEncoded.drop addressSize) addressSize)
    this other addressSize

def matchesRangeToRange (this other : Identification) (addressSize : Nat) : Nat :=
  matchesChecked 2 2 (fun encoded otherEncoded =>
    matchRanges (encoded.take addressSize) (encoded.drop addressSize)
      (otherEncoded.take addressSize) (otherEncoded.drop addressSize) addressSize)
    this other addressSize

/-- `matches_range`: `sizeof (struct in_addr)` is 4 and `sizeof (struct in6_addr)` 16. -/
def matchesRange (this other : Identification) : Nat :=
  if other.type = .any then idMatchAny
  else if this.type = other.type ∧ this.encoded = other.encoded then idMatchPerfect
  else
    let toAddr :=
      if other.type = .ipv4Addr ∧ (this.type = .ipv4AddrSubnet ∨ this.type = .ipv4AddrRange) then 4
      else if other.type = .ipv6Addr ∧ (this.type = .ipv6AddrSubnet ∨ this.type = .ipv6AddrRange) then 16
      else 0
    if toAddr ≠ 0 then
      if this.type = .ipv4AddrSubnet ∨ this.type = .ipv6AddrSubnet then matchesSubnetToAddr this other toAddr
      else matchesRangeToAddr this other toAddr
    else
      let toSubnet :=
        if other.type = .ipv4AddrSubnet ∧
            (this.type = .ipv4Addr ∨ this.type = .ipv4AddrSubnet ∨ this.type = .ipv4AddrRange) then 4
        else if other.type = .ipv6AddrSubnet ∧
            (this.type = .ipv6Addr ∨ this.type = .ipv6AddrSubnet ∨ this.type = .ipv6AddrRange) then 16
        else 0
      if toSubnet ≠ 0 then
        if this.type = .ipv4Addr ∨ this.type = .ipv6Addr then matchesAddrToSubnet this other toSubnet
        else if this.type = .ipv4AddrSubnet ∨ this.type = .ipv6AddrSubnet then
          matchesSubnetToSubnet this other toSubnet
        else matchesRangeToSubnet this other toSubnet
      else
        let toRange :=
          if other.type = .ipv4AddrRange ∧
              (this.type = .ipv4Addr ∨ this.type = .ipv4AddrSubnet ∨ this.type = .ipv4AddrRange) then 4
          else if other.type = .ipv6AddrRange ∧
              (this.type = .ipv6Addr ∨ this.type = .ipv6AddrSubnet ∨ this.type = .ipv6AddrRange) then 16
          else 0
        if toRange ≠ 0 then
          if this.type = .ipv4Addr ∨ this.type = .ipv6Addr then matchesAddrToRange this other toRange
          else if this.type = .ipv4AddrSubnet ∨ this.type = .ipv6AddrSubnet then
            matchesSubnetToRange this other toRange
          else matchesRangeToRange this other toRange
        else idMatchNone

/-- The netmask loop of `create_ip_address_from_string`: `bytes` bytes of ones, then
`bits` leading ones, then zeros, over `count` bytes. -/
def netmaskBytes : Nat → Nat → Nat → List UInt8
  | 0, _, _ => []
  | count + 1, bytes + 1, bits => 0xff :: netmaskBytes count bytes bits
  | count + 1, 0, bits + 1 => UInt8.ofNat (0xff <<< (8 - (bits + 1))) :: netmaskBytes count 0 0
  | count + 1, 0, 0 => 0x00 :: netmaskBytes count 0 0

theorem netmaskBytes_ones (count bytes bits : Nat) :
    netmaskBytes (count + 1) (bytes + 1) bits = 0xff :: netmaskBytes count bytes bits := rfl

theorem netmaskBytes_partByte (count bits : Nat) :
    netmaskBytes (count + 1) 0 (bits + 1) = UInt8.ofNat (0xff <<< (8 - (bits + 1))) :: netmaskBytes count 0 0 := rfl

theorem netmaskBytes_zeros (count : Nat) : netmaskBytes (count + 1) 0 0 = 0x00 :: netmaskBytes count 0 0 := rfl

/-- `create_ip_address_from_string`: `A/P` is a subnet, `A-B` a range and `A` an address;
`P` is read with `atoi` and compared with the address size in bits as a `size_t`, so a
negative prefix is refused. -/
def createIpAddressFromString (inetPton : InetPton) (string : List Char) (isIpv4 : Bool) :
    Option Identification :=
  let addressSize : Nat := if isIpv4 then 4 else 16
  let convert := if isIpv4 then inetPton.inet else inetPton.inet6
  match string.span (· ≠ '/') with
  | (address, _ :: suffix) => do
    let address ← convert address
    let bits := atoi suffix
    if bits < 0 ∨ bits > 8 * (addressSize : Int) then none
    else
      let netmask := netmaskBytes addressSize (bits.toNat / 8) (bits.toNat % 8)
      some ⟨if isIpv4 then .ipv4AddrSubnet else .ipv6AddrSubnet,
        List.zipWith (· &&& ·) address netmask ++ netmask⟩
  | (_, []) =>
    match string.span (· ≠ '-') with
    | (address, _ :: upper) => do
      let address ← convert address
      let toAddress ← convert upper
      -- the first differing byte must not be larger in the lower address
      if memcmp address toAddress addressSize = .gt then none
      else some ⟨if isIpv4 then .ipv4AddrRange else .ipv6AddrRange, address ++ toAddress⟩
    | (_, []) => do
      let address ← convert string
      some ⟨if isIpv4 then .ipv4Addr else .ipv6Addr, address⟩

/-! ## The netmask of a prefix -/

section Netmask

/-- The partial byte of a netmask, `0xff << (8 - bits)` stored in a `uint8_t`, for `bits ≤ 8`. -/
theorem toNat_partialMask {bits : Nat} (bitsLe : bits ≤ 8) :
    (UInt8.ofNat (0xff <<< (8 - bits))).toNat = 256 - 2 ^ (8 - bits) := by
  have table : ∀ bits < 9, (UInt8.ofNat (0xff <<< (8 - bits))).toNat = 256 - 2 ^ (8 - bits) := by
    decide
  exact table bits (by omega)

@[simp] theorem length_netmaskBytes (count bytes bits : Nat) : (netmaskBytes count bytes bits).length = count := by
  induction count generalizing bytes bits with
  | zero => rfl
  | succ count inductionHypothesis =>
    rcases bytes with _ | bytes <;> rcases bits with _ | bits <;>
      simp [netmaskBytes_ones, netmaskBytes_partByte, netmaskBytes_zeros, inductionHypothesis]

/-- The netmask of a prefix of `8 * bytes + bits` bits has the value of that many leading ones. -/
theorem ofBigEndian_netmaskBytes (count : Nat) :
    ∀ (bytes bits : Nat), bits < 8 → 8 * bytes + bits ≤ 8 * count →
      ofBigEndian (netmaskBytes count bytes bits) = 2 ^ (8 * count) - 2 ^ (8 * count - (8 * bytes + bits)) := by
  induction count with
  | zero =>
    intro bytes bits _ fits
    obtain ⟨rfl, rfl⟩ : bytes = 0 ∧ bits = 0 := by omega
    rfl
  | succ count inductionHypothesis =>
    intro bytes bits bitsBelow fits
    have weight : 256 ^ count = 2 ^ (8 * count) := by rw [Nat.pow_mul]
    rcases bytes with _ | bytes
    · rcases bits with _ | bits
      · -- no bit of the prefix is left: the netmask is zero from here on
        have rest := inductionHypothesis 0 0 (by omega) (by omega)
        simp only [Nat.mul_zero, Nat.add_zero, Nat.sub_zero, Nat.sub_self] at rest
        simp [netmaskBytes_zeros, ofBigEndian_cons, rest]
      · have rest := inductionHypothesis 0 0 (by omega) (by omega)
        simp only [Nat.mul_zero, Nat.add_zero, Nat.sub_zero, Nat.sub_self] at rest
        rw [netmaskBytes_partByte, ofBigEndian_cons, rest, toNat_partialMask (by omega), length_netmaskBytes,
          weight, Nat.add_zero, Nat.sub_mul, ← Nat.pow_add, Nat.mul_add, Nat.mul_one, Nat.mul_zero,
          Nat.zero_add]
        have split : 8 * count + 8 - (bits + 1) = 8 - (bits + 1) + 8 * count := by omega
        rw [split, show 256 = 2 ^ 8 from rfl, ← Nat.pow_add, Nat.add_comm 8]
    · rw [netmaskBytes_ones, ofBigEndian_cons, inductionHypothesis bytes bits bitsBelow (by omega),
        length_netmaskBytes, weight]
      have split : 8 * (count + 1) - (8 * (bytes + 1) + bits) = 8 * count - (8 * bytes + bits) := by omega
      have lower : 2 ^ (8 * count - (8 * bytes + bits)) ≤ 2 ^ (8 * count) :=
        Nat.pow_le_pow_right (by decide) (Nat.sub_le _ _)
      rw [split, Nat.mul_succ, Nat.pow_add]
      show 255 * 2 ^ (8 * count) + _ = _
      omega

theorem netmaskBytes_zero (count : Nat) : netmaskBytes count 0 0 = List.replicate count 0 := by
  induction count with
  | zero => rfl
  | succ count inductionHypothesis => rw [netmaskBytes_zeros, inductionHypothesis, List.replicate_succ]

theorem netmaskBytes_full (count : Nat) : netmaskBytes count count 0 = List.replicate count 0xff := by
  induction count with
  | zero => rfl
  | succ count inductionHypothesis => rw [netmaskBytes_ones, inductionHypothesis, List.replicate_succ]

/-- The netmask of a prefix is `bytes` bytes of ones, the partial byte, and zeros. -/
theorem netmaskBytes_eq {count bytes : Nat} (bits : Nat) (bytesBelow : bytes < count) :
    netmaskBytes count bytes bits =
      List.replicate bytes (0xff : UInt8) ++ UInt8.ofNat (0xff <<< (8 - bits)) :: List.replicate (count - bytes - 1) 0 := by
  induction bytes generalizing count with
  | zero =>
    obtain ⟨count, rfl⟩ := Nat.exists_eq_add_one_of_ne_zero (Nat.pos_iff_ne_zero.mp bytesBelow)
    rcases bits with _ | bits
    · -- without partial bits the shifted mask leaves the byte empty
      rw [netmaskBytes_zeros, netmaskBytes_zero]
      simp
    · rw [netmaskBytes_partByte, netmaskBytes_zero]
      simp
  | succ bytes inductionHypothesis =>
    obtain ⟨count, rfl⟩ := Nat.exists_eq_add_one_of_ne_zero (Nat.ne_zero_of_lt bytesBelow)
    rw [netmaskBytes_ones, inductionHypothesis (by omega), List.replicate_succ, List.cons_append,
      show count + 1 - (bytes + 1) - 1 = count - bytes - 1 by omega]

/-- A netmask of one length is the netmask of the prefix its value has. -/
theorem eq_netmaskBytes_of_ofBigEndian {netmask : List UInt8} {size bits : Nat} (length : netmask.length = size)
    (bitsLe : bits ≤ 8 * size) (value : ofBigEndian netmask = 2 ^ (8 * size) - 2 ^ (8 * size - bits)) :
    netmask = netmaskBytes size (bits / 8) (bits % 8) := by
  apply ofBigEndian_injective (by rw [length, length_netmaskBytes])
  rw [value, ofBigEndian_netmaskBytes size _ _ (Nat.mod_lt _ (by decide)) (by omega), Nat.div_add_mod]

theorem countLeadingOnes_add (fuel : Nat) (byte : UInt8) (netbits : Nat) :
    countLeadingOnes fuel byte netbits = netbits + countLeadingOnes fuel byte 0 := by
  induction fuel generalizing byte netbits with
  | zero => rfl
  | succ fuel inductionHypothesis =>
    simp only [countLeadingOnes]
    split_ifs
    · rw [inductionHypothesis _ (netbits + 1), inductionHypothesis _ (0 + 1)]
      omega
    · rfl

/-- The partial byte of `bits` bits is zero for none, all ones for eight, and has `bits`
leading ones. -/
theorem partialMask_table : ∀ bits < 9,
    (UInt8.ofNat (0xff <<< (8 - bits)) = 0 ↔ bits = 0) ∧
      (UInt8.ofNat (0xff <<< (8 - bits)) = 0xff ↔ bits = 8) ∧
      countLeadingOnes 8 (UInt8.ofNat (0xff <<< (8 - bits))) 0 = bits := by
  decide

theorem netmaskToCidrLoop_replicate_zero (count netbits : Nat) :
    netmaskToCidrLoop (List.replicate count 0) netbits = netbits := by
  cases count <;> simp [List.replicate_succ, netmaskToCidrLoop_nil, netmaskToCidrLoop_cons]

/-- `netmask_to_cidr` counts the bits of the prefix a netmask was built for. -/
theorem netmaskToCidrLoop_netmaskBytes (count : Nat) :
    ∀ (bytes bits netbits : Nat), bits < 8 → 8 * bytes + bits ≤ 8 * count →
      netmaskToCidrLoop (netmaskBytes count bytes bits) netbits = netbits + (8 * bytes + bits) := by
  induction count with
  | zero =>
    intro bytes bits netbits _ fits
    obtain ⟨rfl, rfl⟩ : bytes = 0 ∧ bits = 0 := by omega
    rfl
  | succ count inductionHypothesis =>
    intro bytes bits netbits bitsBelow fits
    rcases bytes with _ | bytes
    · -- the partial byte, then zeros, which end the count
      obtain ⟨noBits, noOnes, ones⟩ := partialMask_table bits (by omega)
      rw [netmaskBytes_eq bits (Nat.succ_pos count), List.replicate_zero, List.nil_append, netmaskToCidrLoop_cons]
      by_cases empty : bits = 0
      · rw [if_pos (noBits.mpr empty), empty]
        rfl
      · rw [if_neg (mt noBits.mp empty), if_neg (mt noOnes.mp (by omega)), netmaskToCidrLoop_replicate_zero,
          countLeadingOnes_add, ones]
        omega
    · rw [netmaskBytes_ones, netmaskToCidrLoop_cons, if_neg (by decide), if_pos rfl,
        inductionHypothesis bytes bits (netbits + 8) bitsBelow (by omega)]
      omega

theorem netmaskToCidr_netmaskBytes {size bits : Nat} (bitsLe : bits ≤ 8 * size) :
    netmaskToCidr (netmaskBytes size (bits / 8) (bits % 8)) size = bits := by
  rw [netmaskToCidr, List.take_of_length_le (by rw [length_netmaskBytes]),
    netmaskToCidrLoop_netmaskBytes size _ _ 0 (Nat.mod_lt _ (by decide)) (by omega), Nat.zero_add,
    Nat.div_add_mod]

end Netmask

/-! ## Addresses as intervals of values -/

/-- What an IP identity names: one address, a subnet or a range. -/
inductive IpKind where
  | address
  | subnet
  | range
deriving DecidableEq, Repr

def ipType : Family → IpKind → IdType
  | .afInet, .address => .ipv4Addr
  | .afInet, .subnet => .ipv4AddrSubnet
  | .afInet, .range => .ipv4AddrRange
  | .afInet6, .address => .ipv6Addr
  | .afInet6, .subnet => .ipv6AddrSubnet
  | .afInet6, .range => .ipv6AddrRange

/-- The family and the kind of an IP identity type. -/
def IdType.ipClass : IdType → Option (Family × IpKind)
  | .ipv4Addr => some (.afInet, .address)
  | .ipv4AddrSubnet => some (.afInet, .subnet)
  | .ipv4AddrRange => some (.afInet, .range)
  | .ipv6Addr => some (.afInet6, .address)
  | .ipv6AddrSubnet => some (.afInet6, .subnet)
  | .ipv6AddrRange => some (.afInet6, .range)
  | _ => none

theorem ipClass_eq_some_iff {type : IdType} {family : Family} {kind : IpKind} :
    type.ipClass = some (family, kind) ↔ type = ipType family kind := by
  constructor
  · intro classified
    cases type <;> simp only [IdType.ipClass, Option.some.injEq, Prod.mk.injEq, reduceCtorEq] at classified <;>
      obtain ⟨rfl, rfl⟩ := classified <;> rfl
  · rintro rfl
    cases family <;> cases kind <;> rfl

/-- The addresses an IP identity stands for, as big-endian values: its address, the
addresses the netmask maps onto the network, or those from the first to the last. -/
def Identification.addresses (this : Identification) : Set Nat :=
  match this.type.ipClass with
  | some (_, .address) => {ofBigEndian this.encoded}
  | some (family, .subnet) =>
    {address | address < 2 ^ (8 * family.addressLength) ∧
      address &&& ofBigEndian (this.encoded.drop family.addressLength) =
        ofBigEndian (this.encoded.take family.addressLength)}
  | some (family, .range) =>
    Set.Icc (ofBigEndian (this.encoded.take family.addressLength))
      (ofBigEndian (this.encoded.drop family.addressLength))
  | none => ∅

/-- An IP identity as `create_ip_address_from_string` builds it: an address of the family's
length; a network and the netmask of a prefix, with no network bit after the prefix; or a
first address no larger than the last. Other identities carry no condition. -/
def Identification.WellFormed (this : Identification) : Prop :=
  match this.type.ipClass with
  | some (family, .address) => this.encoded.length = family.addressLength
  | some (family, .subnet) =>
    this.encoded.length = 2 * family.addressLength ∧
      ∃ bits ≤ 8 * family.addressLength,
        ofBigEndian (this.encoded.drop family.addressLength) =
            2 ^ (8 * family.addressLength) - 2 ^ (8 * family.addressLength - bits) ∧
          2 ^ (8 * family.addressLength - bits) ∣ ofBigEndian (this.encoded.take family.addressLength)
  | some (family, .range) =>
    this.encoded.length = 2 * family.addressLength ∧
      ofBigEndian (this.encoded.take family.addressLength) ≤ ofBigEndian (this.encoded.drop family.addressLength)
  | none => True

/-- The first and the last address of an IP identity of a kind, in a family of `size` bytes. -/
def Identification.bounds (this : Identification) (size : Nat) : IpKind → Nat × Nat
  | .address => (ofBigEndian this.encoded, ofBigEndian this.encoded)
  | .subnet =>
    (ofBigEndian (this.encoded.take size),
      ofBigEndian (this.encoded.take size) + (2 ^ (8 * size) - 1 - ofBigEndian (this.encoded.drop size)))
  | .range => (ofBigEndian (this.encoded.take size), ofBigEndian (this.encoded.drop size))

theorem Identification.bounds_address (this : Identification) (size : Nat) :
    this.bounds size .address = (ofBigEndian this.encoded, ofBigEndian this.encoded) := rfl

theorem Identification.bounds_subnet (this : Identification) (size : Nat) :
    this.bounds size .subnet =
      (ofBigEndian (this.encoded.take size),
        ofBigEndian (this.encoded.take size) + (2 ^ (8 * size) - 1 - ofBigEndian (this.encoded.drop size))) := rfl

theorem Identification.bounds_range (this : Identification) (size : Nat) :
    this.bounds size .range = (ofBigEndian (this.encoded.take size), ofBigEndian (this.encoded.drop size)) := rfl

/-- How `match_ranges` ranks an interval of values against another, in a space of `width` bits. -/
def rankRanges (width lowest highest otherLowest otherHighest : Nat) : Nat :=
  if otherLowest = 0 ∧ otherHighest = 2 ^ width - 1 then idMatchMaxWildcards
  else if lowest = otherLowest ∧ highest = otherHighest then idMatchPerfect
  else if otherLowest ≤ lowest ∧ highest ≤ otherHighest then idMatchOneWildcard
  else idMatchNone

theorem rankRanges_def (width lowest highest otherLowest otherHighest : Nat) :
    rankRanges width lowest highest otherLowest otherHighest =
      if otherLowest = 0 ∧ otherHighest = 2 ^ width - 1 then idMatchMaxWildcards
      else if lowest = otherLowest ∧ highest = otherHighest then idMatchPerfect
      else if otherLowest ≤ lowest ∧ highest ≤ otherHighest then idMatchOneWildcard
      else idMatchNone := rfl

section Ranking

variable {width lowest highest otherLowest otherHighest : Nat}

theorem rankRanges_ne_none_iff (nonempty : lowest ≤ highest) (below : highest < 2 ^ width) :
    rankRanges width lowest highest otherLowest otherHighest ≠ idMatchNone ↔
      Set.Icc lowest highest ⊆ Set.Icc otherLowest otherHighest := by
  rw [Set.Icc_subset_Icc_iff nonempty]
  rw [rankRanges_def]
  split_ifs with whole equal within <;> simp only [idMatchNone, idMatchMaxWildcards, idMatchPerfect,
    idMatchOneWildcard] <;> omega

theorem rankRanges_eq_perfect
    (perfect : rankRanges width lowest highest otherLowest otherHighest = idMatchPerfect) :
    Set.Icc lowest highest = Set.Icc otherLowest otherHighest := by
  rw [rankRanges_def] at perfect
  split_ifs at perfect with whole equal
  · cases perfect
  · obtain ⟨rfl, rfl⟩ := equal
    rfl
  all_goals cases perfect

theorem rankRanges_eq_oneWildcard (nonempty : lowest ≤ highest)
    (oneWildcard : rankRanges width lowest highest otherLowest otherHighest = idMatchOneWildcard) :
    Set.Icc lowest highest ⊂ Set.Icc otherLowest otherHighest := by
  rw [rankRanges_def] at oneWildcard
  split_ifs at oneWildcard with whole equal within
  · cases oneWildcard
  · cases oneWildcard
  · -- a proper part: the intervals differ at one of their ends
    refine Set.ssubset_iff_subset_ne.mpr ⟨(Set.Icc_subset_Icc_iff nonempty).mpr within, fun same => equal ?_⟩
    exact (Set.Icc_eq_Icc_iff nonempty).mp same
  · cases oneWildcard

theorem rankRanges_eq_maxWildcards
    (maxWildcards : rankRanges width lowest highest otherLowest otherHighest = idMatchMaxWildcards) :
    Set.Icc otherLowest otherHighest = Set.Iio (2 ^ width) := by
  rw [rankRanges_def] at maxWildcards
  split_ifs at maxWildcards with whole
  · obtain ⟨rfl, rfl⟩ := whole
    ext address
    simp only [Set.mem_Icc, Set.mem_Iio, Nat.zero_le, true_and]
    have positive := Nat.two_pow_pos width
    omega
  all_goals cases maxWildcards

end Ranking

/-! ## The comparisons on values -/

section Prefixes

/-- One side of `match_subnets`: a network of `size` bytes with no bit after a prefix of
`bits` bits, and the netmask of that prefix, or none for an address, a prefix of all bits. -/
def PrefixOperand (network : List UInt8) (netmask : Option (List UInt8)) (size bits : Nat) : Prop :=
  network.length = size ∧ bits ≤ 8 * size ∧ 2 ^ (8 * size - bits) ∣ ofBigEndian network ∧
    match netmask with
    | some mask => mask = netmaskBytes size (bits / 8) (bits % 8)
    | none => bits = 8 * size

theorem netbits_of_prefixOperand {network : List UInt8} {netmask : Option (List UInt8)} {size bits : Nat}
    (operand : PrefixOperand network netmask size bits) :
    (netmask.map (netmaskToCidr · size)).getD (8 * size) = bits := by
  obtain ⟨-, bitsLe, -, mask⟩ := operand
  cases netmask with
  | none => exact mask.symm
  | some netmask =>
    rw [mask] at *
    exact netmaskToCidr_netmaskBytes bitsLe

/-- Past the bytes a prefix covers, its netmask is zero. -/
theorem getD_netmaskBytes_of_le {size bits index : Nat} (bitsLe : bits ≤ 8 * size) (past : (bits + 7) / 8 ≤ index) :
    (netmaskBytes size (bits / 8) (bits % 8)).getD index 0 = 0 := by
  by_cases partialByte : bits / 8 < size
  · rw [netmaskBytes_eq (bits % 8) partialByte]
    by_cases within : index < size
    · rw [List.getD_eq_getElem _ _ (by simp; omega), List.getElem_append_right (by simp; omega)]
      by_cases atPartial : index - bits / 8 = 0
      · -- the partial byte is covered unless the prefix ends on a byte boundary
        have boundary : bits % 8 = 0 := by omega
        simp [atPartial, boundary]
      · simp [List.getElem_cons, atPartial]
    · exact List.getD_eq_default _ _ (by simp; omega)
  · exact List.getD_eq_default _ _ (by simp; omega)

/-- The loop of `match_subnets` finds the bytes the prefix covers equal exactly where both
networks lie in one block of the prefix. -/
theorem prefixAgrees_iff {network otherNetwork : List UInt8} {size bits : Nat} (networkLength : network.length = size)
    (otherLength : otherNetwork.length = size) (bitsLe : bits ≤ 8 * size) :
    prefixAgrees network otherNetwork (netmaskBytes size (bits / 8) (bits % 8)) ((bits + 7) / 8) = true ↔
      ofBigEndian network / 2 ^ (8 * size - bits) = ofBigEndian otherNetwork / 2 ^ (8 * size - bits) := by
  set mask := netmaskBytes size (bits / 8) (bits % 8) with maskDef
  have maskLength : mask.length = size := length_netmaskBytes _ _ _
  set combined := List.zipWith (· &&& ·) (List.zipWith (· ^^^ ·) network otherNetwork) mask
  have combinedLength : combined.length = size := by simp [combined, networkLength, otherLength, maskLength]
  -- the loop stops where the netmask turns zero, so it may as well run over every byte
  have wholeLoop : prefixAgrees network otherNetwork mask ((bits + 7) / 8) = true ↔ ofBigEndian combined = 0 := by
    rw [ofBigEndian_eq_zero_iff, List.forall_mem_iff_getElem, prefixAgrees, List.all_eq_true]
    simp only [List.mem_range, decide_eq_true_eq]
    constructor
    · intro covered index bound
      have entry : combined[index] = (network.getD index 0 ^^^ otherNetwork.getD index 0) &&& mask.getD index 0 := by
        simp [combined, List.getElem_zipWith, networkLength, otherLength, maskLength, combinedLength ▸ bound]
      rw [entry]
      by_cases inside : index < (bits + 7) / 8
      · exact covered index inside
      · rw [maskDef, getD_netmaskBytes_of_le bitsLe (Nat.le_of_not_lt inside), UInt8.and_zero]
    · intro zero index inside
      have bound : index < size := by omega
      have entry := zero index (combinedLength ▸ bound)
      simpa [combined, List.getElem_zipWith, List.getD_eq_getElem, networkLength, otherLength, maskLength, bound]
        using entry
  have differenceBelow : ofBigEndian network ^^^ ofBigEndian otherNetwork < 2 ^ (8 * size) := by
    have weight : 256 ^ size = 2 ^ (8 * size) := by rw [Nat.pow_mul]
    have networkBelow := ofBigEndian_lt network
    have otherBelow := ofBigEndian_lt otherNetwork
    rw [networkLength, weight] at networkBelow
    rw [otherLength, weight] at otherBelow
    exact Nat.xor_lt_two_pow networkBelow otherBelow
  rw [wholeLoop, ofBigEndian_zipWith_and (by simp [networkLength, otherLength, maskLength]),
    ofBigEndian_zipWith_xor (networkLength.trans otherLength.symm), maskDef,
    ofBigEndian_netmaskBytes size _ _ (Nat.mod_lt _ (by decide)) (by omega), Nat.div_add_mod,
    and_two_pow_sub_two_pow differenceBelow (Nat.sub_le _ _), Nat.mul_eq_zero,
    or_iff_left (Nat.two_pow_pos _).ne', Nat.xor_div_two_pow, Nat.xor_eq_zero_iff]

theorem and_allOnes (byte : UInt8) : byte &&& 0xff = byte := by
  apply UInt8.toNat_inj.mp
  rw [UInt8.toNat_and]
  exact Nat.and_two_pow_sub_one_of_lt_two_pow byte.toNat_lt

theorem or_not_allOnes (byte : UInt8) : byte ||| ~~~0xff = byte := by
  rw [show (~~~0xff : UInt8) = 0 by decide, UInt8.or_zero]

/-- `subnet_to_range` ands the network with the netmask, and ors it with the complement. -/
theorem subnetToRange_eq {network : List UInt8} {size bits : Nat} (networkLength : network.length = size)
    (bitsLe : bits ≤ 8 * size) :
    subnetToRange (network ++ netmaskBytes size (bits / 8) (bits % 8)) size =
      (List.zipWith (· &&& ·) network (netmaskBytes size (bits / 8) (bits % 8)),
        List.zipWith (· ||| ·) network ((netmaskBytes size (bits / 8) (bits % 8)).map (~~~·))) := by
  unfold subnetToRange
  simp only [List.take_left' networkLength, List.drop_left' networkLength]
  rw [netmaskToCidr_netmaskBytes bitsLe]
  split_ifs with partialByte
  · -- the bytes before the partial one are kept, the partial one masked, the rest filled
    obtain ⟨before, byte, after, rfl, beforeLength, -⟩ :=
      List.exists_of_modify id (by omega : bits / 8 < network.length)
    have afterLength : after.length = size - before.length - 1 := by simp at networkLength; omega
    have modified : ∀ f : UInt8 → UInt8, (before ++ byte :: after).modify before.length f = before ++ f byte :: after := by
      intro f
      rw [List.modify_eq_take_cons_drop (by simp), List.take_left' rfl]
      simp
    rw [netmaskBytes_eq (bits % 8) partialByte, ← beforeLength, ← afterLength, modified, modified]
    simp [List.zipWith_append, zipWith_replicate_length, List.take_append, and_allOnes, or_not_allOnes,
      List.take_of_length_le]
    -- the complement of a zero byte, which `simp` writes as `-1`
    exact Or.inr rfl
  · -- a prefix of every bit: the netmask is all ones and the range one address
    have whole : bits / 8 = size ∧ bits % 8 = 0 := by omega
    rw [whole.1, whole.2, ← networkLength, netmaskBytes_full, List.map_replicate, zipWith_replicate_length,
      zipWith_replicate_length]
    simp [and_allOnes, or_not_allOnes]

theorem ofBigEndian_lt_two_pow (bytes : List UInt8) : ofBigEndian bytes < 2 ^ (8 * bytes.length) := by
  rw [Nat.pow_mul]
  exact ofBigEndian_lt bytes

/-- For a network with no bit after its prefix, `subnet_to_range` gives the first and the
last address of the prefix's block. -/
theorem ofBigEndian_subnetToRange {network : List UInt8} {size bits : Nat} (networkLength : network.length = size)
    (bitsLe : bits ≤ 8 * size) (aligned : 2 ^ (8 * size - bits) ∣ ofBigEndian network) :
    ofBigEndian (subnetToRange (network ++ netmaskBytes size (bits / 8) (bits % 8)) size).1 = ofBigEndian network ∧
      ofBigEndian (subnetToRange (network ++ netmaskBytes size (bits / 8) (bits % 8)) size).2 =
        ofBigEndian network + 2 ^ (8 * size - bits) - 1 := by
  have networkBelow := ofBigEndian_lt_two_pow network
  rw [networkLength] at networkBelow
  have maskValue := ofBigEndian_netmaskBytes size (bits / 8) (bits % 8) (Nat.mod_lt _ (by decide)) (by omega)
  rw [Nat.div_add_mod] at maskValue
  have blockBelow : 2 ^ (8 * size - bits) ≤ 2 ^ (8 * size) := Nat.pow_le_pow_right (by decide) (Nat.sub_le _ _)
  have positive := Nat.two_pow_pos (8 * size - bits)
  rw [subnetToRange_eq networkLength bitsLe]
  constructor
  · rw [ofBigEndian_zipWith_and (by simp [networkLength]), maskValue,
      and_two_pow_sub_two_pow networkBelow (Nat.sub_le _ _), Nat.div_mul_cancel aligned]
  · -- the complemented netmask is the mask of the bits after the prefix
    have complement : 256 ^ size - 1 - (2 ^ (8 * size) - 2 ^ (8 * size - bits)) = 2 ^ (8 * size - bits) - 1 := by
      rw [show 256 ^ size = 2 ^ (8 * size) by rw [Nat.pow_mul]]
      omega
    rw [ofBigEndian_zipWith_or (by simp [networkLength]), ofBigEndian_map_not, length_netmaskBytes, maskValue,
      complement, or_two_pow_sub_one, Nat.div_mul_cancel aligned]
    omega

/-- `match_subnets` on two prefixes ranks their blocks as `match_ranges` ranks intervals. -/
theorem matchSubnets_eq_rankRanges {network otherNetwork : List UInt8} {netmask otherNetmask : Option (List UInt8)}
    {size bits otherBits : Nat} (operand : PrefixOperand network netmask size bits)
    (otherOperand : PrefixOperand otherNetwork otherNetmask size otherBits) :
    matchSubnets network netmask otherNetwork otherNetmask size =
      rankRanges (8 * size) (ofBigEndian network) (ofBigEndian network + 2 ^ (8 * size - bits) - 1)
        (ofBigEndian otherNetwork) (ofBigEndian otherNetwork + 2 ^ (8 * size - otherBits) - 1) := by
  have netbits := netbits_of_prefixOperand operand
  have otherNetbits := netbits_of_prefixOperand otherOperand
  obtain ⟨networkLength, bitsLe, aligned, _⟩ := operand
  obtain ⟨otherLength, otherBitsLe, otherAligned, otherMask⟩ := otherOperand
  set value := ofBigEndian network
  set otherValue := ofBigEndian otherNetwork
  have valueBelow : value < 2 ^ (8 * size) := networkLength ▸ ofBigEndian_lt_two_pow network
  have otherBelow : otherValue < 2 ^ (8 * size) := otherLength ▸ ofBigEndian_lt_two_pow otherNetwork
  -- the blocks fit below the top of the address space
  have blockEnd : value + 2 ^ (8 * size - bits) ≤ 2 ^ (8 * size) :=
    add_le_of_dvd_of_lt aligned (Nat.pow_dvd_pow 2 (Nat.sub_le _ _)) valueBelow
  have otherBlockEnd : otherValue + 2 ^ (8 * size - otherBits) ≤ 2 ^ (8 * size) :=
    add_le_of_dvd_of_lt otherAligned (Nat.pow_dvd_pow 2 (Nat.sub_le _ _)) otherBelow
  have positive := Nat.two_pow_pos (8 * size - bits)
  have otherPositive := Nat.two_pow_pos (8 * size - otherBits)
  unfold matchSubnets
  simp only [otherNetbits, netbits]
  by_cases whole : otherBits = 0
  · -- a prefix of no bits is the whole space, whose network is zero
    have otherZero : otherValue = 0 := by
      rw [whole, Nat.sub_zero] at otherAligned
      exact Nat.eq_zero_of_dvd_of_lt otherAligned otherBelow
    rw [if_pos whole, rankRanges_def, if_pos ⟨otherZero, by rw [whole, Nat.sub_zero] at otherBlockEnd ⊢; omega⟩]
  have otherSmaller : 2 ^ (8 * size - otherBits) < 2 ^ (8 * size) := Nat.pow_lt_pow_right (by decide) (by omega)
  have notWhole : ¬(otherValue = 0 ∧ otherValue + 2 ^ (8 * size - otherBits) - 1 = 2 ^ (8 * size) - 1) := by
    omega
  rw [if_neg whole, rankRanges_def, if_neg notWhole]
  by_cases sameBits : bits = otherBits
  · subst sameBits
    have sameValue : network.take size = otherNetwork.take size ↔ value = otherValue := by
      rw [List.take_of_length_le networkLength.le, List.take_of_length_le otherLength.le]
      exact ⟨congrArg ofBigEndian, ofBigEndian_injective (networkLength.trans otherLength.symm)⟩
    rw [if_pos rfl]
    by_cases sameNetwork : value = otherValue
    · have equal : value = otherValue ∧
          value + 2 ^ (8 * size - bits) - 1 = otherValue + 2 ^ (8 * size - bits) - 1 := ⟨sameNetwork, by omega⟩
      rw [if_pos (sameValue.mpr sameNetwork), if_pos equal]
    · -- two blocks of one size are equal or apart
      have unequal : ¬(value = otherValue ∧
          value + 2 ^ (8 * size - bits) - 1 = otherValue + 2 ^ (8 * size - bits) - 1) := by omega
      have apart : ¬(otherValue ≤ value ∧
          value + 2 ^ (8 * size - bits) - 1 ≤ otherValue + 2 ^ (8 * size - bits) - 1) := by omega
      rw [if_neg (mt sameValue.mp sameNetwork), if_neg unequal, if_neg apart]
  have unequal : ¬(value = otherValue ∧
      value + 2 ^ (8 * size - bits) - 1 = otherValue + 2 ^ (8 * size - otherBits) - 1) := by
    rintro ⟨sameStart, sameEnd⟩
    have sameSize : 2 ^ (8 * size - bits) = 2 ^ (8 * size - otherBits) := by omega
    exact sameBits (by have := Nat.pow_right_injective (le_refl 2) sameSize; omega)
  rw [if_neg sameBits, if_neg unequal]
  by_cases shorter : bits < otherBits
  · -- a larger block never lies within a smaller one
    have larger : 2 ^ (8 * size - otherBits) < 2 ^ (8 * size - bits) := Nat.pow_lt_pow_right (by decide) (by omega)
    have outside : ¬(otherValue ≤ value ∧
        value + 2 ^ (8 * size - bits) - 1 ≤ otherValue + 2 ^ (8 * size - otherBits) - 1) := by omega
    rw [if_pos shorter, if_neg outside]
  · have longer : otherBits < bits := by omega
    cases otherNetmask with
    | none => exact absurd otherMask (by omega)
    | some mask =>
      -- the loop compares the networks above the shorter prefix
      have within := div_eq_div_iff_le_of_dvd otherPositive (Nat.pow_dvd_pow 2 (by omega : 8 * size - bits ≤
        8 * size - otherBits)) aligned otherAligned
      have loop := prefixAgrees_iff networkLength otherLength otherBitsLe
      rw [if_neg shorter, Option.getD_some, otherMask]
      by_cases agrees : value / 2 ^ (8 * size - otherBits) = otherValue / 2 ^ (8 * size - otherBits)
      · have contained : otherValue ≤ value ∧
            value + 2 ^ (8 * size - bits) - 1 ≤ otherValue + 2 ^ (8 * size - otherBits) - 1 := by
          have := within.mp agrees
          omega
        rw [if_pos (loop.mpr agrees), if_pos contained]
      · have outside : ¬(otherValue ≤ value ∧
            value + 2 ^ (8 * size - bits) - 1 ≤ otherValue + 2 ^ (8 * size - otherBits) - 1) := by
          intro contained
          exact agrees (within.mpr (by omega))
        rw [if_neg (mt loop.mp agrees), if_neg outside]

/-- A string of one length is a constant string exactly where it has that string's value. -/
theorem eq_replicate_iff {bytes : List UInt8} {size : Nat} (length : bytes.length = size) (byte : UInt8) :
    bytes.take size = List.replicate size byte ↔ ofBigEndian bytes = ofBigEndian (List.replicate size byte) := by
  rw [List.take_of_length_le length.le]
  exact ⟨congrArg ofBigEndian, ofBigEndian_injective (by rw [length, List.length_replicate])⟩

/-- `match_ranges` on two ranges of `size` bytes, each in order, ranks their values. -/
theorem matchRanges_eq_rankRanges {fromAddr toAddr otherFrom otherTo : List UInt8} {size : Nat}
    (fromLength : fromAddr.length = size) (toLength : toAddr.length = size) (otherFromLength : otherFrom.length = size)
    (otherToLength : otherTo.length = size) (ordered : ofBigEndian fromAddr ≤ ofBigEndian toAddr)
    (otherOrdered : ofBigEndian otherFrom ≤ ofBigEndian otherTo) :
    matchRanges fromAddr toAddr otherFrom otherTo size =
      rankRanges (8 * size) (ofBigEndian fromAddr) (ofBigEndian toAddr) (ofBigEndian otherFrom) (ofBigEndian otherTo) := by
  have inOrder : ¬(memcmp toAddr fromAddr size = .lt ∨ memcmp otherTo otherFrom size = .lt) := by
    rw [memcmp_eq_compare toLength fromLength, memcmp_eq_compare otherToLength otherFromLength,
      compare_lt_iff_lt, compare_lt_iff_lt]
    omega
  -- the all-zero and all-one strings are the ends of the address space
  have whole : (otherFrom.take size = List.replicate size 0 ∧ otherTo.take size = List.replicate size 0xff) ↔
      (ofBigEndian otherFrom = 0 ∧ ofBigEndian otherTo = 2 ^ (8 * size) - 1) := by
    rw [eq_replicate_iff otherFromLength, eq_replicate_iff otherToLength, ofBigEndian_replicate_zero,
      ofBigEndian_replicate_max, Nat.pow_mul]
  have perfect : (memcmp fromAddr otherFrom size = .eq ∧ memcmp toAddr otherTo size = .eq) ↔
      (ofBigEndian fromAddr = ofBigEndian otherFrom ∧ ofBigEndian toAddr = ofBigEndian otherTo) := by
    rw [memcmp_eq_compare fromLength otherFromLength, memcmp_eq_compare toLength otherToLength,
      compare_eq_iff_eq, compare_eq_iff_eq]
  have within : (memcmp fromAddr otherFrom size ≠ .lt ∧ memcmp toAddr otherTo size ≠ .gt) ↔
      (ofBigEndian otherFrom ≤ ofBigEndian fromAddr ∧ ofBigEndian toAddr ≤ ofBigEndian otherTo) := by
    rw [memcmp_eq_compare fromLength otherFromLength, memcmp_eq_compare toLength otherToLength, ne_eq,
      compare_lt_iff_lt, ne_eq, compare_gt_iff_gt, Nat.not_lt, Nat.not_lt]
  rw [matchRanges, rankRanges_def]
  simp only [if_neg inOrder, whole, perfect, within]

end Prefixes

/-! ## The eight comparisons -/

section Kinds

/-- The comparison `matches_range` picks for an identity of one kind against one of another
kind of the same family; two addresses are never compared. -/
def matchesKinds : IpKind → IpKind → Identification → Identification → Nat → Nat
  | .address, .address => fun _ _ _ => idMatchNone
  | .subnet, .address => matchesSubnetToAddr
  | .range, .address => matchesRangeToAddr
  | .address, .subnet => matchesAddrToSubnet
  | .subnet, .subnet => matchesSubnetToSubnet
  | .range, .subnet => matchesRangeToSubnet
  | .address, .range => matchesAddrToRange
  | .subnet, .range => matchesSubnetToRange
  | .range, .range => matchesRangeToRange

/-- How many addresses an encoding of a kind holds. -/
def IpKind.addresses : IpKind → Nat
  | .address => 1
  | _ => 2

/-- The first and the last address `match_ranges` is given for an identity of a kind. -/
def rangeOperands (encoded : List UInt8) (size : Nat) : IpKind → List UInt8 × List UInt8
  | .address => (encoded, encoded)
  | .subnet => subnetToRange encoded size
  | .range => (encoded.take size, encoded.drop size)

/-- The network and the netmask `match_subnets` is given for an address or a subnet. -/
def subnetOperands (encoded : List UInt8) (size : Nat) : IpKind → List UInt8 × Option (List UInt8)
  | .subnet => (encoded.take size, some (encoded.drop size))
  | _ => (encoded, none)

variable {this other : Identification} {family : Family} {kind otherKind : IpKind}

theorem addressLength_pos (family : Family) : 0 < family.addressLength := by
  cases family <;> decide

theorem length_of_wellFormed (classified : this.type.ipClass = some (family, kind)) (wellFormed : this.WellFormed) :
    this.encoded.length = kind.addresses * family.addressLength := by
  simp only [Identification.WellFormed, classified] at wellFormed
  cases kind with
  | address => simpa [IpKind.addresses] using wellFormed
  | subnet => exact wellFormed.1
  | range => exact wellFormed.1

/-- A well-formed subnet is the network before the netmask of its prefix. -/
theorem subnet_parts (classified : this.type.ipClass = some (family, .subnet)) (wellFormed : this.WellFormed) :
    ∃ bits ≤ 8 * family.addressLength,
      this.encoded.drop family.addressLength = netmaskBytes family.addressLength (bits / 8) (bits % 8) ∧
      (this.encoded.take family.addressLength).length = family.addressLength ∧
      2 ^ (8 * family.addressLength - bits) ∣ ofBigEndian (this.encoded.take family.addressLength) ∧
      this.bounds family.addressLength .subnet =
        (ofBigEndian (this.encoded.take family.addressLength),
          ofBigEndian (this.encoded.take family.addressLength) + 2 ^ (8 * family.addressLength - bits) - 1) := by
  simp only [Identification.WellFormed, classified] at wellFormed
  obtain ⟨length, bits, bitsLe, mask, aligned⟩ := wellFormed
  have dropLength : (this.encoded.drop family.addressLength).length = family.addressLength := by
    simp [length]; omega
  have blockBelow : 2 ^ (8 * family.addressLength - bits) ≤ 2 ^ (8 * family.addressLength) :=
    Nat.pow_le_pow_right (by decide) (Nat.sub_le _ _)
  have positive := Nat.two_pow_pos (8 * family.addressLength - bits)
  refine ⟨bits, bitsLe, eq_netmaskBytes_of_ofBigEndian dropLength bitsLe mask, by simp [length]; omega, aligned, ?_⟩
  simp only [Identification.bounds_subnet, mask]
  congr 1
  omega

/-- An address or a subnet as `match_subnets` reads it: a prefix, whose block the bounds are. -/
theorem subnetOperands_spec (classified : this.type.ipClass = some (family, kind)) (wellFormed : this.WellFormed)
    (notRange : kind ≠ .range) :
    ∃ bits, PrefixOperand (subnetOperands this.encoded family.addressLength kind).1
        (subnetOperands this.encoded family.addressLength kind).2 family.addressLength bits ∧
      this.bounds family.addressLength kind =
        (ofBigEndian (subnetOperands this.encoded family.addressLength kind).1,
          ofBigEndian (subnetOperands this.encoded family.addressLength kind).1 +
            2 ^ (8 * family.addressLength - bits) - 1) := by
  cases kind with
  | address =>
    -- an address is the prefix of all its bits
    have length := length_of_wellFormed classified wellFormed
    simp only [IpKind.addresses, Nat.one_mul] at length
    refine ⟨8 * family.addressLength, ⟨length, le_refl _, by simp, rfl⟩, ?_⟩
    simp [Identification.bounds_address, subnetOperands]
  | subnet =>
    obtain ⟨bits, bitsLe, mask, networkLength, aligned, bounds⟩ := subnet_parts classified wellFormed
    exact ⟨bits, ⟨networkLength, bitsLe, aligned, mask⟩, bounds⟩
  | range => exact absurd rfl notRange

/-- Every identity as `match_ranges` reads it: two addresses in order, its bounds. -/
theorem rangeOperands_spec (classified : this.type.ipClass = some (family, kind)) (wellFormed : this.WellFormed) :
    (rangeOperands this.encoded family.addressLength kind).1.length = family.addressLength ∧
      (rangeOperands this.encoded family.addressLength kind).2.length = family.addressLength ∧
      ofBigEndian (rangeOperands this.encoded family.addressLength kind).1 = (this.bounds family.addressLength kind).1 ∧
      ofBigEndian (rangeOperands this.encoded family.addressLength kind).2 = (this.bounds family.addressLength kind).2 ∧
      (this.bounds family.addressLength kind).1 ≤ (this.bounds family.addressLength kind).2 := by
  have length := length_of_wellFormed classified wellFormed
  cases kind with
  | address =>
    simp only [IpKind.addresses, Nat.one_mul] at length
    simp [rangeOperands, Identification.bounds_address, length]
  | subnet =>
    obtain ⟨bits, bitsLe, mask, networkLength, aligned, bounds⟩ := subnet_parts classified wellFormed
    have split : this.encoded = this.encoded.take family.addressLength ++
        netmaskBytes family.addressLength (bits / 8) (bits % 8) := by
      rw [← mask, List.take_append_drop]
    generalize this.encoded.take family.addressLength = network at networkLength aligned bounds split
    obtain ⟨first, last⟩ := ofBigEndian_subnetToRange networkLength bitsLe aligned
    rw [bounds, rangeOperands, split]
    refine ⟨?_, ?_, first, last, ?_⟩
    · simp [subnetToRange_eq networkLength bitsLe, networkLength]
    · simp [subnetToRange_eq networkLength bitsLe, networkLength]
    have positive := Nat.two_pow_pos (8 * family.addressLength - bits)
    dsimp only
    omega
  | range =>
    simp only [Identification.WellFormed, classified] at wellFormed
    simp only [IpKind.addresses] at length
    refine ⟨by simp [rangeOperands, length]; omega, by simp [rangeOperands, length]; omega, rfl, rfl,
      wellFormed.2⟩

section SameFamily

variable (classified : this.type.ipClass = some (family, kind))
  (otherClassified : other.type.ipClass = some (family, otherKind))
  (wellFormed : this.WellFormed) (otherWellFormed : other.WellFormed)
include classified otherClassified wellFormed otherWellFormed

/-- The comparisons through `match_ranges` rank the two identities' bounds. -/
theorem matchesChecked_ranges :
    matchesChecked kind.addresses otherKind.addresses (fun encoded otherEncoded =>
        matchRanges (rangeOperands encoded family.addressLength kind).1 (rangeOperands encoded family.addressLength kind).2
          (rangeOperands otherEncoded family.addressLength otherKind).1
          (rangeOperands otherEncoded family.addressLength otherKind).2 family.addressLength)
        this other family.addressLength =
      rankRanges (8 * family.addressLength) (this.bounds family.addressLength kind).1
        (this.bounds family.addressLength kind).2 (other.bounds family.addressLength otherKind).1
        (other.bounds family.addressLength otherKind).2 := by
  obtain ⟨fromLength, toLength, fromValue, toValue, ordered⟩ := rangeOperands_spec classified wellFormed
  obtain ⟨otherFromLength, otherToLength, otherFromValue, otherToValue, otherOrdered⟩ :=
    rangeOperands_spec otherClassified otherWellFormed
  rw [matchesChecked_def, if_neg (by rw [length_of_wellFormed classified wellFormed,
    length_of_wellFormed otherClassified otherWellFormed]; simp)]
  rw [← fromValue, ← toValue, ← otherFromValue, ← otherToValue] at *
  exact matchRanges_eq_rankRanges fromLength toLength otherFromLength otherToLength ordered otherOrdered

/-- The comparisons through `match_subnets` rank the two identities' bounds. -/
theorem matchesChecked_subnets (notRange : kind ≠ .range) (otherNotRange : otherKind ≠ .range) :
    matchesChecked kind.addresses otherKind.addresses (fun encoded otherEncoded =>
        matchSubnets (subnetOperands encoded family.addressLength kind).1
          (subnetOperands encoded family.addressLength kind).2
          (subnetOperands otherEncoded family.addressLength otherKind).1
          (subnetOperands otherEncoded family.addressLength otherKind).2 family.addressLength)
        this other family.addressLength =
      rankRanges (8 * family.addressLength) (this.bounds family.addressLength kind).1
        (this.bounds family.addressLength kind).2 (other.bounds family.addressLength otherKind).1
        (other.bounds family.addressLength otherKind).2 := by
  obtain ⟨bits, operand, bounds⟩ := subnetOperands_spec classified wellFormed notRange
  obtain ⟨otherBits, otherOperand, otherBounds⟩ := subnetOperands_spec otherClassified otherWellFormed otherNotRange
  rw [matchesChecked_def, if_neg (by rw [length_of_wellFormed classified wellFormed,
    length_of_wellFormed otherClassified otherWellFormed]; simp), bounds, otherBounds]
  exact matchSubnets_eq_rankRanges operand otherOperand

end SameFamily

/-- Each of the eight comparisons, and the answer for two addresses, ranks the bounds of two
well-formed identities of one family, unless they are the same identity. -/
theorem matchesKinds_eq_rankRanges (classified : this.type.ipClass = some (family, kind))
    (otherClassified : other.type.ipClass = some (family, otherKind)) (wellFormed : this.WellFormed)
    (otherWellFormed : other.WellFormed) (distinct : ¬(kind = otherKind ∧ this.encoded = other.encoded)) :
    matchesKinds kind otherKind this other family.addressLength =
      rankRanges (8 * family.addressLength) (this.bounds family.addressLength kind).1
        (this.bounds family.addressLength kind).2 (other.bounds family.addressLength otherKind).1
        (other.bounds family.addressLength otherKind).2 := by
  cases kind <;> cases otherKind
  case address.address =>
    -- two different addresses of one family: one is not within the other, and neither is everything
    have length := length_of_wellFormed classified wellFormed
    have otherLength := length_of_wellFormed otherClassified otherWellFormed
    have different : ofBigEndian this.encoded ≠ ofBigEndian other.encoded :=
      fun same => distinct ⟨rfl, ofBigEndian_injective (length.trans otherLength.symm) same⟩
    have top : 2 ≤ 2 ^ (8 * family.addressLength) := by
      calc 2 = 2 ^ 1 := rfl
        _ ≤ 2 ^ (8 * family.addressLength) := Nat.pow_le_pow_right (by decide) (by have := addressLength_pos family; omega)
    show idMatchNone = rankRanges (8 * family.addressLength) (ofBigEndian this.encoded) (ofBigEndian this.encoded)
      (ofBigEndian other.encoded) (ofBigEndian other.encoded)
    rw [rankRanges_def]
    split_ifs <;> first | rfl | omega
  case subnet.address | address.subnet | subnet.subnet =>
    exact matchesChecked_subnets classified otherClassified wellFormed otherWellFormed (by decide) (by decide)
  all_goals exact matchesChecked_ranges classified otherClassified wellFormed otherWellFormed

end Kinds

/-! ## What `matches_range` answers -/

section MatchesRange

/-- `matches_range` on two IP identities: the identical one is perfect, one of another family
never matches, and otherwise the two kinds pick the comparison. -/
theorem matchesRange_ipType (family otherFamily : Family) (kind otherKind : IpKind)
    (encoded otherEncoded : List UInt8) :
    matchesRange ⟨ipType family kind, encoded⟩ ⟨ipType otherFamily otherKind, otherEncoded⟩ =
      if (family = otherFamily ∧ kind = otherKind) ∧ encoded = otherEncoded then idMatchPerfect
      else if family = otherFamily then
        matchesKinds kind otherKind ⟨ipType family kind, encoded⟩ ⟨ipType otherFamily otherKind, otherEncoded⟩
          family.addressLength
      else idMatchNone := by
  delta matchesRange
  cases family <;> cases otherFamily <;> cases kind <;> cases otherKind <;>
    simp [ipType, matchesKinds]

variable {this other : Identification} {family : Family} {kind : IpKind}

/-- A well-formed IP identity stands for the interval of its bounds. -/
theorem addresses_eq_Icc (classified : this.type.ipClass = some (family, kind)) (wellFormed : this.WellFormed) :
    this.addresses = Set.Icc (this.bounds family.addressLength kind).1 (this.bounds family.addressLength kind).2 := by
  have wellFormed' := wellFormed
  simp only [Identification.WellFormed, classified] at wellFormed'
  cases kind with
  | address => simp [Identification.addresses, classified, Identification.bounds_address]
  | subnet =>
    obtain ⟨length, bits, bitsLe, mask, aligned⟩ := wellFormed'
    have networkBelow := ofBigEndian_lt_two_pow (this.encoded.take family.addressLength)
    rw [List.length_take, Nat.min_eq_left (by omega)] at networkBelow
    -- the complement of the netmask counts the addresses after the network
    have blockBelow : 2 ^ (8 * family.addressLength - bits) ≤ 2 ^ (8 * family.addressLength) :=
      Nat.pow_le_pow_right (by decide) (Nat.sub_le _ _)
    have positive := Nat.two_pow_pos (8 * family.addressLength - bits)
    have complement : 2 ^ (8 * family.addressLength) - 1 -
        (2 ^ (8 * family.addressLength) - 2 ^ (8 * family.addressLength - bits)) =
          2 ^ (8 * family.addressLength - bits) - 1 := by omega
    ext address
    simp only [Identification.addresses, classified, Identification.bounds_subnet, Set.mem_ofPred_eq, Set.mem_Icc, mask,
      complement]
    rw [← Nat.add_sub_assoc Nat.one_le_two_pow]
    exact and_two_pow_sub_two_pow_eq_iff aligned networkBelow (Nat.sub_le _ _)
  | range => simp [Identification.addresses, classified, Identification.bounds_range]

theorem bounds_spec (classified : this.type.ipClass = some (family, kind)) (wellFormed : this.WellFormed) :
    (this.bounds family.addressLength kind).1 ≤ (this.bounds family.addressLength kind).2 ∧
      (this.bounds family.addressLength kind).2 < 2 ^ (8 * family.addressLength) := by
  obtain ⟨_, lastLength, _, lastValue, ordered⟩ := rangeOperands_spec classified wellFormed
  refine ⟨ordered, ?_⟩
  have below := ofBigEndian_lt_two_pow (rangeOperands this.encoded family.addressLength kind).2
  rw [lastLength, lastValue] at below
  exact below

theorem matchesRange_of_any (anyOther : other.type = .any) : matchesRange this other = idMatchAny := by
  delta matchesRange
  simp [anyOther]

/-- An identity of no IP type matches no IP identity, unless it is `%any`. -/
theorem matchesRange_of_not_ip (classified : this.type.ipClass = some (family, kind))
    (notIp : other.type.ipClass = none) (notAny : other.type ≠ .any) : matchesRange this other = idMatchNone := by
  have ipTypes : other.type ≠ .ipv4Addr ∧ other.type ≠ .ipv4AddrSubnet ∧ other.type ≠ .ipv4AddrRange ∧
      other.type ≠ .ipv6Addr ∧ other.type ≠ .ipv6AddrSubnet ∧ other.type ≠ .ipv6AddrRange := by
    refine ⟨?_, ?_, ?_, ?_, ?_, ?_⟩ <;> intro same <;> simp [same, IdType.ipClass] at notIp
  have otherType : this.type ≠ other.type := by
    intro same
    rw [same, notIp] at classified
    cases classified
  delta matchesRange
  simp [notAny, otherType, ipTypes]

/-- On two IP identities, `matches_range` is perfect for the identical one, ranks the bounds
within one family, and finds nothing across families. -/
theorem matchesRange_eq_rankRanges {otherFamily : Family} {otherKind : IpKind}
    (classified : this.type.ipClass = some (family, kind))
    (otherClassified : other.type.ipClass = some (otherFamily, otherKind))
    (wellFormed : this.WellFormed) (otherWellFormed : other.WellFormed) :
    matchesRange this other =
      if (family = otherFamily ∧ kind = otherKind) ∧ this.encoded = other.encoded then idMatchPerfect
      else if family = otherFamily then
        rankRanges (8 * family.addressLength) (this.bounds family.addressLength kind).1
          (this.bounds family.addressLength kind).2 (other.bounds family.addressLength otherKind).1
          (other.bounds family.addressLength otherKind).2
      else idMatchNone := by
  obtain ⟨thisType, encoded⟩ := this
  obtain ⟨otherType, otherEncoded⟩ := other
  obtain rfl := ipClass_eq_some_iff.mp classified
  obtain rfl := ipClass_eq_some_iff.mp otherClassified
  rw [matchesRange_ipType]
  split_ifs with identical sameFamily
  · rfl
  · subst sameFamily
    exact matchesKinds_eq_rankRanges classified otherClassified wellFormed otherWellFormed
      (fun ⟨sameKind, sameEncoding⟩ => identical ⟨⟨rfl, sameKind⟩, sameEncoding⟩)
  · rfl

theorem rankRanges_ne_any (width lowest highest otherLowest otherHighest : Nat) :
    rankRanges width lowest highest otherLowest otherHighest ≠ idMatchAny := by
  rw [rankRanges_def]
  split_ifs <;> decide

end MatchesRange

/-! ## The identities built from strings -/

section Create

/-- A network masked with the netmask of a prefix, followed by that netmask, is a well-formed
subnet of the family. -/
theorem wellFormed_subnet (family : Family) {address : List UInt8} (length : address.length = family.addressLength)
    {bits : Nat} (bitsLe : bits ≤ 8 * family.addressLength) :
    (⟨ipType family .subnet,
      List.zipWith (· &&& ·) address (netmaskBytes family.addressLength (bits / 8) (bits % 8)) ++
        netmaskBytes family.addressLength (bits / 8) (bits % 8)⟩ : Identification).WellFormed := by
  have classified : (ipType family .subnet).ipClass = some (family, .subnet) := ipClass_eq_some_iff.mpr rfl
  have networkLength :
      (List.zipWith (· &&& ·) address (netmaskBytes family.addressLength (bits / 8) (bits % 8))).length =
        family.addressLength := by
    simp [length]
  have mask : ofBigEndian (netmaskBytes family.addressLength (bits / 8) (bits % 8)) =
      2 ^ (8 * family.addressLength) - 2 ^ (8 * family.addressLength - bits) := by
    rw [ofBigEndian_netmaskBytes _ _ _ (Nat.mod_lt _ (by decide)) (by omega), Nat.div_add_mod]
  simp only [Identification.WellFormed, classified, List.take_left' networkLength, List.drop_left' networkLength]
  refine ⟨by simp [length]; omega, bits, bitsLe, mask, ?_⟩
  -- the network keeps only the bits of the prefix, so it is a multiple of the block size
  have below := ofBigEndian_lt_two_pow address
  rw [length] at below
  rw [ofBigEndian_zipWith_and (by simp [length]), mask, and_two_pow_sub_two_pow below (Nat.sub_le _ _)]
  exact Nat.dvd_mul_left _ _

/-- Two addresses of the family, the first not above the last, are a well-formed range. -/
theorem wellFormed_range (family : Family) {address toAddress : List UInt8}
    (length : address.length = family.addressLength) (toLength : toAddress.length = family.addressLength)
    (ordered : memcmp address toAddress family.addressLength ≠ .gt) :
    (⟨ipType family .range, address ++ toAddress⟩ : Identification).WellFormed := by
  have classified : (ipType family .range).ipClass = some (family, .range) := ipClass_eq_some_iff.mpr rfl
  rw [memcmp_eq_compare length toLength, Ne, Nat.compare_eq_gt, Nat.not_lt] at ordered
  simp only [Identification.WellFormed, classified, List.take_left' length, List.drop_left' length]
  exact ⟨by simp [length, toLength]; omega, ordered⟩

theorem wellFormed_address (family : Family) {address : List UInt8} (length : address.length = family.addressLength) :
    (⟨ipType family .address, address⟩ : Identification).WellFormed := by
  have classified : (ipType family .address).ipClass = some (family, .address) := ipClass_eq_some_iff.mpr rfl
  simpa only [Identification.WellFormed, classified] using length

/-- Every identity `create_ip_address_from_string` builds is well formed. -/
theorem wellFormed_createIpAddressFromString {inetPton : InetPton} {string : List Char} {isIpv4 : Bool}
    {identity : Identification} (created : createIpAddressFromString inetPton string isIpv4 = some identity) :
    identity.WellFormed := by
  unfold createIpAddressFromString at created
  rcases slash : string.span (· ≠ '/') with ⟨address, _ | ⟨_, suffix⟩⟩
  case cons =>
    -- a prefix length follows the slash
    simp only [slash, Option.bind_eq_bind, Option.bind_eq_some_iff, Option.ite_none_left_eq_some,
      Option.some.injEq] at created
    obtain ⟨bytes, converted, within, rfl⟩ := created
    cases isIpv4
    · exact wellFormed_subnet .afInet6 (inetPton.length_inet6 _ _ converted) (by simp at within ⊢; omega)
    · exact wellFormed_subnet .afInet (inetPton.length_inet _ _ converted) (by simp at within ⊢; omega)
  case nil =>
    simp only [slash] at created
    rcases dash : string.span (· ≠ '-') with ⟨address, _ | ⟨_, upper⟩⟩
    case cons =>
      -- the last address of a range follows the dash
      simp only [dash, Option.bind_eq_bind, Option.bind_eq_some_iff, Option.ite_none_left_eq_some,
        Option.some.injEq] at created
      obtain ⟨bytes, converted, toBytes, toConverted, ordered, rfl⟩ := created
      cases isIpv4
      · exact wellFormed_range .afInet6 (inetPton.length_inet6 _ _ converted)
          (inetPton.length_inet6 _ _ toConverted) ordered
      · exact wellFormed_range .afInet (inetPton.length_inet _ _ converted)
          (inetPton.length_inet _ _ toConverted) ordered
    case nil =>
      simp only [dash, Option.bind_eq_bind, Option.bind_eq_some_iff, Option.some.injEq] at created
      obtain ⟨bytes, converted, rfl⟩ := created
      cases isIpv4
      · exact wellFormed_address .afInet6 (inetPton.length_inet6 _ _ converted)
      · exact wellFormed_address .afInet (inetPton.length_inet _ _ converted)

end Create

/-- For well-formed IP identities, `matches_range` answers by the address sets: `%any` first,
then a match exactly when the addresses lie in the other's of the same family, perfect only for
the same set, one wildcard only for a strict subset, and the most wildcards only against the
whole family. -/
theorem matchesRange_iff_subset {this other : Identification} {family : Family} {kind : IpKind}
    (classified : this.type.ipClass = some (family, kind)) (wellFormed : this.WellFormed)
    (otherWellFormed : other.WellFormed) :
    (matchesRange this other = idMatchAny ↔ other.type = .any) ∧
      (other.type ≠ .any → (matchesRange this other ≠ idMatchNone ↔
        (∃ otherKind, other.type.ipClass = some (family, otherKind)) ∧ this.addresses ⊆ other.addresses)) ∧
      (matchesRange this other = idMatchPerfect → this.addresses = other.addresses) ∧
      (matchesRange this other = idMatchOneWildcard → this.addresses ⊂ other.addresses) ∧
      (matchesRange this other = idMatchMaxWildcards →
        other.addresses = Set.Iio (2 ^ (8 * family.addressLength))) := by
  by_cases anyOther : other.type = .any
  · -- `%any` is answered before anything else
    rw [matchesRange_of_any anyOther]
    exact ⟨iff_of_true rfl anyOther, fun notAny => absurd anyOther notAny, fun wrong => absurd wrong (by decide),
      fun wrong => absurd wrong (by decide), fun wrong => absurd wrong (by decide)⟩
  rcases otherClassified : other.type.ipClass with _ | ⟨otherFamily, otherKind⟩
  · -- no IP identity at all
    rw [matchesRange_of_not_ip classified otherClassified anyOther]
    refine ⟨iff_of_false (by decide) anyOther, fun _ => iff_of_false (fun wrong => wrong rfl) ?_,
      fun wrong => absurd wrong (by decide), fun wrong => absurd wrong (by decide),
      fun wrong => absurd wrong (by decide)⟩
    rintro ⟨⟨_, nothing⟩, -⟩
    cases nothing
  rw [matchesRange_eq_rankRanges classified otherClassified wellFormed otherWellFormed]
  split_ifs with identical sameFamily
  · -- the identical identity
    obtain ⟨⟨rfl, rfl⟩, sameEncoding⟩ := identical
    have sameType : this.type = other.type :=
      (ipClass_eq_some_iff.mp classified).trans (ipClass_eq_some_iff.mp otherClassified).symm
    have same : this = other := by
      cases this
      cases other
      simp only at sameType sameEncoding
      rw [sameType, sameEncoding]
    subst same
    exact ⟨iff_of_false (by decide) anyOther, fun _ => iff_of_true (by decide) ⟨⟨kind, rfl⟩, le_refl _⟩,
      fun _ => rfl, fun wrong => absurd wrong (by decide), fun wrong => absurd wrong (by decide)⟩
  · -- one family: the answer ranks the two intervals
    subst sameFamily
    obtain ⟨nonempty, below⟩ := bounds_spec classified wellFormed
    rw [addresses_eq_Icc classified wellFormed, addresses_eq_Icc otherClassified otherWellFormed]
    refine ⟨iff_of_false (rankRanges_ne_any _ _ _ _ _) anyOther, fun _ => ?_, rankRanges_eq_perfect,
      rankRanges_eq_oneWildcard nonempty, rankRanges_eq_maxWildcards⟩
    rw [rankRanges_ne_none_iff nonempty below]
    exact ⟨fun contained => ⟨⟨otherKind, rfl⟩, contained⟩, fun ⟨_, contained⟩ => contained⟩
  · -- another family never matches
    refine ⟨iff_of_false (by decide) anyOther, fun _ => iff_of_false (fun wrong => wrong rfl) ?_,
      fun wrong => absurd wrong (by decide), fun wrong => absurd wrong (by decide),
      fun wrong => absurd wrong (by decide)⟩
    rintro ⟨⟨_, sameClass⟩, -⟩
    simp only [Option.some.injEq, Prod.mk.injEq] at sameClass
    exact sameFamily sameClass.1.symm

/-- The identities of 192.168.1.0/24 and of 192.168.0.0/16. -/
def slash24Subnet : Identification := ⟨.ipv4AddrSubnet, [192, 168, 1, 0, 255, 255, 255, 0]⟩

def slash16Subnet : Identification := ⟨.ipv4AddrSubnet, [192, 168, 0, 0, 255, 255, 0, 0]⟩

theorem wellFormed_slash24Subnet : slash24Subnet.WellFormed :=
  wellFormed_subnet .afInet (show ([192, 168, 1, 0] : List UInt8).length = 4 from rfl) (show 24 ≤ 8 * 4 by decide)

theorem wellFormed_slash16Subnet : slash16Subnet.WellFormed :=
  wellFormed_subnet .afInet (show ([192, 168, 0, 0] : List UInt8).length = 4 from rfl) (show 16 ≤ 8 * 4 by decide)

theorem matchesRange_iff_subset_slash24 :
    slash24Subnet.type.ipClass = some (.afInet, .subnet) ∧ slash24Subnet.WellFormed ∧ slash16Subnet.WellFormed ∧
      (matchesRange slash24Subnet slash16Subnet = idMatchAny ↔ slash16Subnet.type = .any) ∧
      (slash16Subnet.type ≠ .any → (matchesRange slash24Subnet slash16Subnet ≠ idMatchNone ↔
        (∃ otherKind, slash16Subnet.type.ipClass = some (.afInet, otherKind)) ∧
          slash24Subnet.addresses ⊆ slash16Subnet.addresses)) ∧
      (matchesRange slash24Subnet slash16Subnet = idMatchPerfect →
        slash24Subnet.addresses = slash16Subnet.addresses) ∧
      (matchesRange slash24Subnet slash16Subnet = idMatchOneWildcard →
        slash24Subnet.addresses ⊂ slash16Subnet.addresses) ∧
      (matchesRange slash24Subnet slash16Subnet = idMatchMaxWildcards →
        slash16Subnet.addresses = Set.Iio (2 ^ (8 * Family.afInet.addressLength))) :=
  ⟨rfl, wellFormed_slash24Subnet, wellFormed_slash16Subnet,
    matchesRange_iff_subset rfl wellFormed_slash24Subnet wellFormed_slash16Subnet⟩

example : matchesRange slash24Subnet slash16Subnet = idMatchOneWildcard := by decide

example : matchesRange slash16Subnet slash24Subnet = idMatchNone := by decide

theorem wellFormed_createIpAddressFromString_slash24 :
    createIpAddressFromString glibcInet4Only "192.168.1.0/24".toList true = some slash24Subnet ∧
      slash24Subnet.WellFormed :=
  ⟨by decide, @wellFormed_createIpAddressFromString glibcInet4Only "192.168.1.0/24".toList true slash24Subnet
    (by decide)⟩

end StrongSwan.Libstrongswan.Utils
