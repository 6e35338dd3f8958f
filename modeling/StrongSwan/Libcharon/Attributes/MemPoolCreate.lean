import StrongSwan.Libcharon.Attributes.MemPool
import StrongSwan.Foundations.BitBlocks

/-!
Contract: the base and size `mem_pool_create` and `mem_pool_create_range` give a pool, and
which addresses `offset2host` and `host2offset` then relate to the offsets `1..size`.

Offsets count from the base within the last 32 bits, modulo `2 ^ 32`. `host2offset` bounds an
address by `basei + size`, a `uint32_t` sum: where the pool reaches the top of its 32-bit
block that sum wraps to zero and no address of the pool has its offset
(`memPool_top_of_block_unreachable`); a range of all `2 ^ 32` values gets the `u_int` size
zero. Below the top, offsets and addresses are inverse bijections (`offsets_bijection`), for
range pools (`memPoolCreateRange_bijection`) and for subnets of four addresses or more, which
lose their network id and broadcast address (`memPoolCreateCidr_bijection`).

Does not own: the pool of a NULL base, which is empty, and the logging.
-/

namespace StrongSwan.Libcharon.Attributes

open StrongSwan.Foundations.Bytes

variable {Id : Type}

/-- `POOL_LIMIT`: at most `2 ^ 31` addresses. -/
def poolLimit : Nat := 31

/-- The bytes `get_address` hands out. -/
def Host.address (host : Host) : List UInt8 := host.upper ++ bigEndian 4 host.low

/-- `apply_offset`: the offset is added to the last 32 bits. -/
def applyOffset (base : Host) (offset : Nat) : Host := { base with low := (offset + base.low) % 2 ^ 32 }

/-- `network_id_diff`: the host bits of the last 32 bits, shifted out and back in a
`uint32_t`. -/
def networkIdDiff (host : Host) (hostbits : Nat) : Nat :=
  if hostbits = 0 then 0
  else
    let hostbits := 32 - hostbits
    ((host.low <<< hostbits) % 2 ^ 32) >>> hostbits

/-- The host bits of `mem_pool_create`: the prefix length held to the address, turned into
host bits and limited to `POOL_LIMIT`. -/
def poolHostBits (family : Family) (bits : Int) : Nat :=
  let addrBits : Int := if family = .inet then 32 else 128
  let bits := max 0 (min bits addrBits)
  min (addrBits - bits).toNat poolLimit

/-- `mem_pool_create` with a base address: the pool, or `none` where it would be empty. -/
def memPoolCreateCidr (base : Host) (bits : Int) : Option (MemPool Id) :=
  let bits := poolHostBits base.family bits
  let size := 2 ^ bits
  let (base, size) :=
    if size > 2 then
      let diff := networkIdDiff base bits
      -- a base at the network id moves on by one, another base shortens the pool
      let (base, size) := if diff = 0 then (applyOffset base 1, size - 1) else (base, size - diff)
      -- the broadcast address is not handed out
      (base, size - 1)
    else if networkIdDiff base bits ≠ 0 then (base, size - 1)
    else (base, size)
  if size = 0 then none else some (memPoolCreate base size)

/-- `mem_pool_create_range`: `none` for an invalid range or one that differs above the last
32 bits; the size is the `uint32_t` difference plus one, as a `u_int`. -/
def memPoolCreateRange (fromHost toHost : Host) : Option (MemPool Id) :=
  let fromaddr := fromHost.address
  let toaddr := toHost.address
  if fromHost.family ≠ toHost.family ∨ fromaddr.length ≠ toaddr.length ∨ fromaddr.length < 4 ∨
      memcmp fromaddr toaddr toaddr.length = .gt then none
  else if fromaddr.length > 4 ∧ fromaddr.take (fromaddr.length - 4) ≠ toaddr.take (toaddr.length - 4) then none
  else
    let diff := (ofBigEndian (toaddr.drop (toaddr.length - 4)) + 2 ^ 32 -
      ofBigEndian (fromaddr.drop (fromaddr.length - 4))) % 2 ^ 32
    some (memPoolCreate fromHost ((diff + 1) % 2 ^ 32))

/-- The last 32 bits of the top of the block, `0xffffffff`. -/
def topHost : Host := ⟨.inet, [], 0xffffffff⟩

/-- `255.255.255.250`. -/
def nearTopHost : Host := ⟨.inet, [], 0xfffffffa⟩

/-- The pool from `255.255.255.250` to `255.255.255.255` has six addresses, and
`host2offset` of its first one is `-1`; the `/32` pool of `255.255.255.255` cannot find its
address either, and the range of every IPv4 address gets the size zero. -/
theorem memPool_top_of_block_unreachable :
    (memPoolCreateRange nearTopHost topHost : Option (MemPool Nat)) = some (memPoolCreate nearTopHost 6) ∧
      (memPoolCreate nearTopHost 6 : MemPool Nat).offset2host 1 = some nearTopHost ∧
      (memPoolCreate nearTopHost 6 : MemPool Nat).host2offset nearTopHost = 2 ^ 32 - 1 ∧
      (memPoolCreateCidr topHost 32 : Option (MemPool Nat)) = some (memPoolCreate topHost 1) ∧
      (memPoolCreate topHost 1 : MemPool Nat).host2offset topHost = 2 ^ 32 - 1 ∧
      (memPoolCreateRange ⟨.inet, [], 0⟩ topHost : Option (MemPool Nat)) = some (memPoolCreate ⟨.inet, [], 0⟩ 0) := by
  decide

/-! ## Offsets and addresses -/

/-- A host as a `host_t` holds it: twelve upper bytes for IPv6, none for IPv4, and the last
32 bits below `2 ^ 32`. -/
def Host.WellFormed (host : Host) : Prop :=
  host.upper.length = (if host.family = .inet then 0 else 12) ∧ host.low < 2 ^ 32

instance (host : Host) : Decidable host.WellFormed := inferInstanceAs (Decidable (_ ∧ _))

/-- The addresses of a pool: those of its family that agree with the base above the last 32
bits and whose last 32 bits are among the `size` values from the base's. -/
def MemPool.Holds (pool : MemPool Id) (host : Host) : Prop :=
  host.family = pool.base.family ∧ host.upper = pool.base.upper ∧ pool.base.low ≤ host.low ∧
    host.low < pool.base.low + pool.size

/-- Two well-formed hosts of one family that `host2offset` compares agree above the last 32
bits, unless it checks them: IPv4 hosts have nothing there. -/
theorem upper_eq_of_inet {host base : Host} (hostFormed : host.WellFormed) (baseFormed : base.WellFormed)
    (family : host.family = base.family) (inet : host.family = .inet) : host.upper = base.upper := by
  have hostEmpty := hostFormed.1
  have baseEmpty := baseFormed.1
  rw [if_pos inet] at hostEmpty
  rw [if_pos (family ▸ inet)] at baseEmpty
  rw [List.length_eq_zero_iff.mp hostEmpty, List.length_eq_zero_iff.mp baseEmpty]

section Bijection

variable {pool : MemPool Id} (noWrap : pool.base.low + pool.size < 2 ^ 32) (small : pool.size < 2 ^ 32 - 1)
include noWrap

theorem host2offset_of_holds {host : Host} (holds : pool.Holds host) :
    pool.host2offset host = host.low - pool.base.low + 1 := by
  obtain ⟨family, upper, atLeast, below⟩ := holds
  unfold MemPool.host2offset
  rw [if_neg (not_not.mpr family), if_neg (by rw [upper]; exact fun checked => checked.2 rfl),
    Nat.mod_eq_of_lt noWrap, if_neg (by omega)]
  omega

include small

/-- `host2offset` lands in `1..size` exactly on the pool's addresses. -/
theorem host2offset_mem_iff (baseFormed : pool.base.WellFormed) {host : Host} (hostFormed : host.WellFormed)
    (family : host.family = pool.base.family) :
    (1 ≤ pool.host2offset host ∧ pool.host2offset host ≤ pool.size) ↔ pool.Holds host := by
  constructor
  · intro inRange
    by_cases upper : host.upper = pool.base.upper
    · unfold MemPool.host2offset at inRange
      rw [if_neg (not_not.mpr family), if_neg (by rw [upper]; exact fun checked => checked.2 rfl),
        Nat.mod_eq_of_lt noWrap] at inRange
      -- past the end the offset is `-1`, below the base it wraps above the size
      split_ifs at inRange with above
      · omega
      · exact ⟨family, upper, by omega, by omega⟩
    · have inet6 : host.family = .inet6 := by
        cases known : host.family
        · exact absurd (upper_eq_of_inet hostFormed baseFormed family known) upper
        · rfl
      unfold MemPool.host2offset at inRange
      rw [if_neg (not_not.mpr family), if_pos ⟨inet6, upper⟩] at inRange
      omega
  · intro holds
    rw [host2offset_of_holds noWrap holds]
    obtain ⟨-, -, atLeast, below⟩ := holds
    omega

/-- Offsets `1..size` and the pool's addresses are inverse bijections through `offset2host`
and `host2offset`. -/
theorem offsets_bijection (baseFormed : pool.base.WellFormed) :
    (∀ offset, 1 ≤ offset → offset ≤ pool.size →
      ∃ host, pool.offset2host offset = some host ∧ host.WellFormed ∧ pool.Holds host ∧
        pool.host2offset host = offset) ∧
      (∀ host, host.WellFormed → host.family = pool.base.family →
        ((1 ≤ pool.host2offset host ∧ pool.host2offset host ≤ pool.size) ↔ pool.Holds host)) ∧
      ∀ host, pool.Holds host → pool.offset2host (pool.host2offset host) = some host := by
  refine ⟨?_, fun host hostFormed family => host2offset_mem_iff noWrap small baseFormed hostFormed family, ?_⟩
  · intro offset positive atMost
    have lowValue : (pool.base.low + (offset - 1)) % 2 ^ 32 = pool.base.low + (offset - 1) :=
      Nat.mod_eq_of_lt (by omega)
    have holds : pool.Holds { pool.base with low := (pool.base.low + (offset - 1)) % 2 ^ 32 } := by
      refine ⟨rfl, rfl, ?_, ?_⟩ <;> simp only [lowValue] <;> omega
    refine ⟨{ pool.base with low := (pool.base.low + (offset - 1)) % 2 ^ 32 }, ?_,
      ⟨baseFormed.1, Nat.mod_lt _ (by positivity)⟩, holds, ?_⟩
    · unfold MemPool.offset2host
      rw [if_neg (by omega)]
    · rw [host2offset_of_holds noWrap holds]
      show (pool.base.low + (offset - 1)) % 2 ^ 32 - pool.base.low + 1 = offset
      omega
  · intro host holds
    have offset := host2offset_of_holds noWrap holds
    obtain ⟨family, upper, atLeast, below⟩ := holds
    unfold MemPool.offset2host
    rw [offset, if_neg (by omega), Nat.add_sub_cancel, Nat.add_sub_cancel' atLeast, Nat.mod_eq_of_lt (by omega)]
    cases host
    simp_all

end Bijection

/-! ## Range pools -/

section Range

variable {fromHost toHost : Host} (fromFormed : fromHost.WellFormed) (toFormed : toHost.WellFormed)

theorem length_address (host : Host) : host.address.length = host.upper.length + 4 := by
  simp [Host.address]

theorem take_address (host : Host) : host.address.take (host.address.length - 4) = host.upper := by
  rw [length_address, Nat.add_sub_cancel, Host.address, List.take_left' rfl]

theorem ofBigEndian_drop_address {host : Host} (formed : host.WellFormed) :
    ofBigEndian (host.address.drop (host.address.length - 4)) = host.low := by
  rw [length_address, Nat.add_sub_cancel, Host.address, List.drop_left' rfl, ofBigEndian_bigEndian]
  exact Nat.mod_eq_of_lt formed.2

include fromFormed toFormed

/-- With the same upper bytes, `memcmp` of the addresses compares the last 32 bits. -/
theorem memcmp_address_ne_gt_iff (upper : fromHost.upper = toHost.upper) :
    memcmp fromHost.address toHost.address toHost.address.length ≠ .gt ↔ fromHost.low ≤ toHost.low := by
  have fromBelow : fromHost.low < 256 ^ 4 := fromFormed.2
  have toBelow : toHost.low < 256 ^ 4 := toFormed.2
  rw [memcmp_eq_compare (by rw [length_address, length_address, upper]) rfl, ne_eq, Nat.compare_eq_gt, not_lt,
    Host.address, Host.address, ofBigEndian_append, ofBigEndian_append, upper, ofBigEndian_bigEndian,
    ofBigEndian_bigEndian, Nat.mod_eq_of_lt fromBelow, Nat.mod_eq_of_lt toBelow, length_bigEndian, length_bigEndian]
  omega

/-- A range pool starts at `from` and holds `to - from + 1` addresses, as a `u_int`, exactly
where both hosts have one family, agree above the last 32 bits and `from` is not above
`to`. -/
theorem memPoolCreateRange_eq_some_iff {pool : MemPool Id} :
    memPoolCreateRange fromHost toHost = some pool ↔
      fromHost.family = toHost.family ∧ fromHost.upper = toHost.upper ∧ fromHost.low ≤ toHost.low ∧
        pool = memPoolCreate fromHost ((toHost.low - fromHost.low + 1) % 2 ^ 32) := by
  have fromLength := fromFormed.1
  unfold memPoolCreateRange
  dsimp only
  rw [take_address, take_address, ofBigEndian_drop_address fromFormed, ofBigEndian_drop_address toFormed]
  constructor
  · intro created
    split_ifs at created with invalid tooLarge
    cases created
    simp only [not_or, not_not] at invalid
    obtain ⟨family, -, -, ordered⟩ := invalid
    -- IPv6 hosts agree above the last 32 bits by the second check, IPv4 hosts have nothing there
    have upper : fromHost.upper = toHost.upper := by
      by_cases inet : fromHost.family = .inet
      · exact upper_eq_of_inet fromFormed toFormed family inet
      · rw [if_neg inet] at fromLength
        simp only [not_and, not_not, length_address] at tooLarge
        exact tooLarge (by omega)
    rw [← ne_eq, memcmp_address_ne_gt_iff fromFormed toFormed upper] at ordered
    refine ⟨family, upper, ordered, ?_⟩
    have size : ((toHost.low + 2 ^ 32 - fromHost.low) % 2 ^ 32 + 1) % 2 ^ 32 = (toHost.low - fromHost.low + 1) % 2 ^ 32 := by
      omega
    rw [size]
  · rintro ⟨family, upper, ordered, rfl⟩
    have notGt := (memcmp_address_ne_gt_iff fromFormed toFormed upper).mpr ordered
    have valid : ¬(fromHost.family ≠ toHost.family ∨ fromHost.address.length ≠ toHost.address.length ∨
        fromHost.address.length < 4 ∨ memcmp fromHost.address toHost.address toHost.address.length = .gt) := by
      simp only [not_or, not_not, not_lt]
      exact ⟨family, by rw [length_address, length_address, upper], by rw [length_address]; omega, notGt⟩
    rw [if_neg valid, if_neg (by simp [upper])]
    have size : ((toHost.low + 2 ^ 32 - fromHost.low) % 2 ^ 32 + 1) % 2 ^ 32 = (toHost.low - fromHost.low + 1) % 2 ^ 32 := by
      omega
    rw [size]

/-- A range pool below the top of its 32-bit block, of fewer than `2 ^ 32 - 1` addresses:
offsets `1..size` and the addresses from `from` to `to` are inverse bijections, and
`host2offset` is outside `1..size` for every other address of the family. -/
theorem memPoolCreateRange_bijection {pool : MemPool Id} (created : memPoolCreateRange fromHost toHost = some pool)
    (belowTop : toHost.low < 2 ^ 32 - 1) (notWhole : toHost.low - fromHost.low < 2 ^ 32 - 2) :
    pool.size = toHost.low - fromHost.low + 1 ∧
      (∀ host, pool.Holds host ↔ host.family = fromHost.family ∧ host.upper = fromHost.upper ∧
        fromHost.low ≤ host.low ∧ host.low ≤ toHost.low) ∧
      (∀ offset, 1 ≤ offset → offset ≤ pool.size →
        ∃ host, pool.offset2host offset = some host ∧ host.WellFormed ∧ pool.Holds host ∧
          pool.host2offset host = offset) ∧
      (∀ host, host.WellFormed → host.family = pool.base.family →
        ((1 ≤ pool.host2offset host ∧ pool.host2offset host ≤ pool.size) ↔ pool.Holds host)) ∧
      ∀ host, pool.Holds host → pool.offset2host (pool.host2offset host) = some host := by
  obtain ⟨-, -, ordered, rfl⟩ := (memPoolCreateRange_eq_some_iff fromFormed toFormed).mp created
  have size : (toHost.low - fromHost.low + 1) % 2 ^ 32 = toHost.low - fromHost.low + 1 :=
    Nat.mod_eq_of_lt (by omega)
  have bijection := @offsets_bijection Id (memPoolCreate fromHost ((toHost.low - fromHost.low + 1) % 2 ^ 32))
    (by show fromHost.low + (toHost.low - fromHost.low + 1) % 2 ^ 32 < 2 ^ 32; omega)
    (by show (toHost.low - fromHost.low + 1) % 2 ^ 32 < 2 ^ 32 - 1; omega) fromFormed
  refine ⟨size, ?_, bijection⟩
  intro host
  show host.family = fromHost.family ∧ host.upper = fromHost.upper ∧ fromHost.low ≤ host.low ∧
    host.low < fromHost.low + (toHost.low - fromHost.low + 1) % 2 ^ 32 ↔ _
  rw [size]
  constructor
  · rintro ⟨family, upper, atLeast, below⟩
    exact ⟨family, upper, atLeast, by omega⟩
  · rintro ⟨family, upper, atLeast, atMost⟩
    exact ⟨family, upper, atLeast, by omega⟩

end Range

/-- 10.0.0.10 and 10.0.0.20. -/
def rangeStart : Host := ⟨.inet, [], 0x0a00000a⟩
def rangeEnd : Host := ⟨.inet, [], 0x0a000014⟩

theorem memPoolCreateRange_bijection_eleven :
    rangeStart.WellFormed ∧ rangeEnd.WellFormed ∧
      (memPoolCreateRange rangeStart rangeEnd : Option (MemPool Nat)) = some (memPoolCreate rangeStart 11) ∧
      rangeEnd.low < 2 ^ 32 - 1 ∧ rangeEnd.low - rangeStart.low < 2 ^ 32 - 2 ∧
      ((memPoolCreate rangeStart 11 : MemPool Nat).size = rangeEnd.low - rangeStart.low + 1 ∧
      (∀ host, (memPoolCreate rangeStart 11 : MemPool Nat).Holds host ↔ host.family = rangeStart.family ∧
        host.upper = rangeStart.upper ∧ rangeStart.low ≤ host.low ∧ host.low ≤ rangeEnd.low) ∧
      (∀ offset, 1 ≤ offset → offset ≤ (memPoolCreate rangeStart 11 : MemPool Nat).size →
        ∃ host, (memPoolCreate rangeStart 11 : MemPool Nat).offset2host offset = some host ∧ host.WellFormed ∧
          (memPoolCreate rangeStart 11 : MemPool Nat).Holds host ∧
          (memPoolCreate rangeStart 11 : MemPool Nat).host2offset host = offset) ∧
      (∀ host, host.WellFormed → host.family = (memPoolCreate rangeStart 11 : MemPool Nat).base.family →
        ((1 ≤ (memPoolCreate rangeStart 11 : MemPool Nat).host2offset host ∧
          (memPoolCreate rangeStart 11 : MemPool Nat).host2offset host ≤ (memPoolCreate rangeStart 11 : MemPool Nat).size) ↔
          (memPoolCreate rangeStart 11 : MemPool Nat).Holds host)) ∧
      ∀ host, (memPoolCreate rangeStart 11 : MemPool Nat).Holds host →
        (memPoolCreate rangeStart 11 : MemPool Nat).offset2host
          ((memPoolCreate rangeStart 11 : MemPool Nat).host2offset host) = some host) :=
  ⟨by decide, by decide, by decide, by decide, by decide,
    memPoolCreateRange_bijection (by decide) (by decide) (by decide) (by decide) (by decide)⟩

/-! ## Subnet pools -/

theorem poolHostBits_le (family : Family) (bits : Int) : poolHostBits family bits ≤ poolLimit :=
  Nat.min_le_right _ _

theorem networkIdDiff_eq (host : Host) {hostbits : Nat} (positive : 0 < hostbits)
    (limited : hostbits ≤ 32) : networkIdDiff host hostbits = host.low % 2 ^ hostbits := by
  unfold networkIdDiff
  rw [if_neg (by omega)]
  dsimp only
  have split : 2 ^ 32 = 2 ^ hostbits * 2 ^ (32 - hostbits) := by
    rw [← Nat.pow_add, Nat.add_sub_cancel' limited]
  have shifted : host.low * 2 ^ (32 - hostbits) % 2 ^ 32 = host.low % 2 ^ hostbits * 2 ^ (32 - hostbits) := by
    rw [split, Nat.mul_mod_mul_right]
  rw [Nat.shiftLeft_eq, Nat.shiftRight_eq_div_pow, shifted, Nat.mul_div_cancel _ (Nat.two_pow_pos _)]

/-- A subnet pool of four addresses or more: `mem_pool_create` fails exactly for a base at
the broadcast address; otherwise the pool runs from the base, or the address after the
network id, up to the address before the broadcast, and offsets and those addresses are
inverse bijections, with `host2offset` outside `1..size` for every other address of the
family. -/
theorem memPoolCreateCidr_bijection {base : Host} {bits : Int} (formed : base.WellFormed)
    (fourOrMore : 2 ≤ poolHostBits base.family bits) :
    let block := 2 ^ poolHostBits base.family bits
    let network := base.low / block * block
    let first := if base.low % block = 0 then network + 1 else base.low
    ((memPoolCreateCidr base bits : Option (MemPool Id)) = none ↔ base.low = network + block - 1) ∧
      ∀ pool : MemPool Id, memPoolCreateCidr base bits = some pool →
        pool.size = network + block - 1 - first ∧ 0 < pool.size ∧
        (∀ host, pool.Holds host ↔ host.family = base.family ∧ host.upper = base.upper ∧
          first ≤ host.low ∧ host.low ≤ network + block - 2) ∧
        (∀ offset, 1 ≤ offset → offset ≤ pool.size →
          ∃ host, pool.offset2host offset = some host ∧ host.WellFormed ∧ pool.Holds host ∧
            pool.host2offset host = offset) ∧
        (∀ host, host.WellFormed → host.family = pool.base.family →
          ((1 ≤ pool.host2offset host ∧ pool.host2offset host ≤ pool.size) ↔ pool.Holds host)) ∧
        ∀ host, pool.Holds host → pool.offset2host (pool.host2offset host) = some host := by
  intro block network first
  have hostBitsLe : poolHostBits base.family bits ≤ 31 := poolHostBits_le base.family bits
  have blockLarge : 4 ≤ block :=
    calc 4 = 2 ^ 2 := rfl
      _ ≤ block := Nat.pow_le_pow_right (by decide) fourOrMore
  have blockSmall : block ≤ 2 ^ 31 := Nat.pow_le_pow_right (by decide) hostBitsLe
  have diffIs : networkIdDiff base (poolHostBits base.family bits) = base.low % block :=
    networkIdDiff_eq base (by omega) (by omega)
  have split : network + base.low % block = base.low := Nat.div_add_mod' base.low block
  have modBelow : base.low % block < block := Nat.mod_lt _ (by omega)
  have lowBelow := formed.2
  have networkEnd : network + block ≤ 2 ^ 32 :=
    add_le_of_dvd_of_lt (Nat.dvd_mul_left _ _) (Nat.pow_dvd_pow 2 (by omega)) (by omega)
  -- the base and the size the code computes
  have built : (memPoolCreateCidr base bits : Option (MemPool Id)) =
      if network + block - 1 - first = 0 then none
      else some (memPoolCreate { base with low := first } (network + block - 1 - first)) := by
    unfold memPoolCreateCidr
    dsimp only
    rw [show 2 ^ poolHostBits base.family bits = block from rfl, if_pos (show block > 2 by omega), diffIs]
    by_cases atNetwork : base.low % block = 0
    · have moved : applyOffset base 1 = { base with low := first } := by
        simp only [applyOffset, first, if_pos atNetwork]
        congr 1
        omega
      have size : block - 1 - 1 = network + block - 1 - first := by
        simp only [first, if_pos atNetwork]
        omega
      simp only [if_pos atNetwork, moved, size]
    · have kept : base = { base with low := first } := by
        simp only [first, if_neg atNetwork]
      have size : block - base.low % block - 1 = network + block - 1 - first := by
        simp only [first, if_neg atNetwork]
        omega
      simp only [if_neg atNetwork, size]
      rw [← kept]
  have firstBounds : network + 1 ≤ first ∧ first ≤ network + block - 1 := by
    by_cases atNetwork : base.low % block = 0
    · rw [show first = network + 1 from if_pos atNetwork]
      omega
    · rw [show first = base.low from if_neg atNetwork]
      omega
  have emptyIff : network + block - 1 - first = 0 ↔ base.low = network + block - 1 := by
    by_cases atNetwork : base.low % block = 0
    · rw [show first = network + 1 from if_pos atNetwork]
      omega
    · rw [show first = base.low from if_neg atNetwork]
      omega
  constructor
  · rw [built]
    constructor
    · intro empty
      split at empty
      · exact emptyIff.mp ‹_›
      · cases empty
    · intro broadcast
      rw [if_pos (emptyIff.mpr broadcast)]
  · intro pool created
    rw [built] at created
    split at created
    · cases created
    · rename_i nonempty
      cases created
      have bijection := @offsets_bijection Id (memPoolCreate { base with low := first } (network + block - 1 - first))
        (by simp only [memPoolCreate]; omega) (by simp only [memPoolCreate]; omega)
        ⟨formed.1, show first < 2 ^ 32 by omega⟩
      refine ⟨rfl, by show 0 < network + block - 1 - first; omega, ?_, bijection⟩
      intro host
      show host.family = base.family ∧ host.upper = base.upper ∧ first ≤ host.low ∧
        host.low < first + (network + block - 1 - first) ↔ _
      constructor
      · rintro ⟨family, upper, atLeast, below⟩
        exact ⟨family, upper, atLeast, by omega⟩
      · rintro ⟨family, upper, atLeast, atMost⟩
        exact ⟨family, upper, atLeast, by omega⟩

/-- `10.0.0.0`, the network id of a `/24`. -/
def subnetBase : Host := ⟨.inet, [], 0x0a000000⟩

example : (memPoolCreateCidr subnetBase 24 : Option (MemPool Nat)) = some (memPoolCreate ⟨.inet, [], 0x0a000001⟩ 254) := by
  decide

theorem memPoolCreateCidr_bijection_slash24 :
    subnetBase.WellFormed ∧ 2 ≤ poolHostBits subnetBase.family 24 ∧
      let block := 2 ^ poolHostBits subnetBase.family 24
      let network := subnetBase.low / block * block
      let first := if subnetBase.low % block = 0 then network + 1 else subnetBase.low
      ((memPoolCreateCidr subnetBase 24 : Option (MemPool Nat)) = none ↔ subnetBase.low = network + block - 1) ∧
        ∀ pool : MemPool Nat, memPoolCreateCidr subnetBase 24 = some pool →
          pool.size = network + block - 1 - first ∧ 0 < pool.size ∧
          (∀ host, pool.Holds host ↔ host.family = subnetBase.family ∧ host.upper = subnetBase.upper ∧
            first ≤ host.low ∧ host.low ≤ network + block - 2) ∧
          (∀ offset, 1 ≤ offset → offset ≤ pool.size →
            ∃ host, pool.offset2host offset = some host ∧ host.WellFormed ∧ pool.Holds host ∧
              pool.host2offset host = offset) ∧
          (∀ host, host.WellFormed → host.family = pool.base.family →
            ((1 ≤ pool.host2offset host ∧ pool.host2offset host ≤ pool.size) ↔ pool.Holds host)) ∧
          ∀ host, pool.Holds host → pool.offset2host (pool.host2offset host) = some host :=
  ⟨by decide, by decide, @memPoolCreateCidr_bijection Nat subnetBase 24 (by decide) (by decide)⟩

end StrongSwan.Libcharon.Attributes
