import StrongSwan.Foundations.Runs
import StrongSwan.Libstrongswan.Collections.Array

/-!
Contract: the lease bookkeeping of the in-memory address pool (`mem_pool.c`).

A pool hands out offsets `1..size` from its base. `unused` is the next offset
never handed out; the lease table maps each identity to an entry of online
leases (an offset with a hash of the peer, possibly twice during
make-before-break) and offline leases, both value-based `array_t`s laid out as
`array.c` lays them out. `acquire_address` reuses an online or offline lease of
the identity (`MEM_POOL_EXISTING`), hands out a fresh offset (`MEM_POOL_NEW`)
or steals the first offline lease of any entry, dropping emptied entries on
the way (`MEM_POOL_REASSIGN`); `release_address` takes one online lease back
and makes the offset offline once no tunnel uses it.

`get_existing` reassigns an online lease through the pointer the online
array's enumerator handed out, and `array_insert` copies `*lease` only after it
opened the new slot. With room at the head only, `insert_head` has moved the
block down by one and the copy is of the lease after the found one; with no
room at either end, `make_tail_room` reallocates the block and the copy reads
freed memory. A call that reads freed memory, or any memory the model has no
value for, answers `none`.

`Entry.held` is what an entry's arrays hold, each online offset once;
`LeasesHeld` says that the arrays are laid out as `Refines` says and that
together the entries hold every offset `1..unused` exactly once. Each `get_*`
function keeps it where it does not fail (`LeaseStep`), so does each call
(`callStep`), and so does every run that never fails.

The hashtable is an association list in its enumeration order. Its key test,
`id_hash` and `id_equals` together, is any Boolean test: `equals` of an FQDN
holding a NUL is false even against itself, so nothing here assumes the test
reflexive and two entries may share a key. A peer is the hash `hash_addr`
computes of it.

Does not own: the pool name, the mutex, the lease enumerator and the counters
`get_online` and `get_offline`; `MemPoolCreate` owns the base and size that
`mem_pool_create` and `mem_pool_create_range` compute.
-/

namespace StrongSwan.Libcharon.Attributes

open StrongSwan.Foundations StrongSwan.Libstrongswan.Collections.Array

inductive Family where
  | inet
  | inet6
deriving DecidableEq, Repr

/-- A `host_t` as the pool reads it. -/
structure Host where
  family : Family
  /-- The first twelve bytes of an IPv6 address; nothing for IPv4. -/
  upper : List UInt8
  /-- The last 32 bits in host order, as `ntohl` reads them. -/
  low : Nat
deriving DecidableEq, Repr

def Host.isAnyaddr (host : Host) : Bool := host.upper.all (· == 0) && host.low == 0

structure UniqueLease where
  offset : Nat
  hash : UInt32
deriving DecidableEq, Repr

/-- `entry_t`: the online leases and the offline offsets, each an `array_t` of values. -/
structure Entry (Id : Type) where
  id : Id
  online : ArrayT UniqueLease
  offline : ArrayT Nat
deriving DecidableEq

inductive MemPoolOp where
  | existing
  | new
  | reassign
deriving DecidableEq, Repr

structure MemPool (Id : Type) where
  base : Host
  size : Nat
  unused : Nat
  leases : List (Entry Id)
deriving DecidableEq

/-- What `mem_pool_create` and `mem_pool_create_range` leave: no offset handed out. -/
def memPoolCreate {Id : Type} (base : Host) (size : Nat) : MemPool Id := ⟨base, size, 0, []⟩

/-- `entry_create`: both arrays created without reserved slots. -/
def entryCreate {Id : Type} (id : Id) : Entry Id := ⟨id, arrayCreate 0, arrayCreate 0⟩

/-- `hash_addr`, for a peer given by its hash. -/
def hashAddr (peer : Option UInt32) : UInt32 := peer.getD 0

variable {Id : Type}

/-- `host2offset`, as the callers' `u_int` sees its `int`: `-1` is `2^32 - 1`. -/
def MemPool.host2offset (pool : MemPool Id) (addr : Host) : Nat :=
  if addr.family ≠ pool.base.family then 2 ^ 32 - 1
  -- only the last /32 block of an IPv6 address counts
  else if addr.family = .inet6 ∧ addr.upper ≠ pool.base.upper then 2 ^ 32 - 1
  else if addr.low > (pool.base.low + pool.size) % 2 ^ 32 then 2 ^ 32 - 1
  else (addr.low + 2 ^ 32 - pool.base.low + 1) % 2 ^ 32

/-- `offset2host`: offset `1` is the base. -/
def MemPool.offset2host (pool : MemPool Id) (offset : Nat) : Option Host :=
  if offset = 0 ∨ offset - 1 > pool.size then none
  else some { pool.base with low := (pool.base.low + (offset - 1)) % 2 ^ 32 }

/-- The test of `get_existing`'s first loop: an online lease of this peer, for the requested
address or for any. -/
def MemPool.reassignable (pool : MemPool Id) (requested : Host) (hash : UInt32) (lease : UniqueLease) : Bool :=
  lease.hash == hash && (requested.isAnyaddr || lease.offset == pool.host2offset requested)

/-- The first loop of `get_existing`, during make-before-break reauthentication. The
enumerator hands out `lease` as a pointer to the slot `head + i` of the online block; a match
gives `offset = lease->offset`, and is then appended through that pointer,
`array_insert(entry->online, ARRAY_TAIL, lease)`. -/
def MemPool.reassignOnline (pool : MemPool Id) (entry : Entry Id) (requested : Host)
    (peer : Option UInt32) : Option (Nat × Entry Id) :=
  match peer with
  | none => some (0, entry)
  | some hash =>
    let leases := enumerated entry.online (entry.online.count + 1) 0
    match leases.findIdx? (fun slot => slot.any (pool.reassignable requested hash)) with
    | none => some (0, entry)
    | some i => do
      let lease ← leases[i]?.join
      let online ← arrayInsertFromSlot entry.online (-1) (entry.online.head.toNat + i)
      some (lease.offset, { entry with online })

/-- The second half of `get_existing`: the first offline lease goes online again, appended
from a copy (`reassign`), and `array_remove_at` takes it out of the offline array through the
enumerator that handed it out. -/
def refreshOffline (entry : Entry Id) (peer : Option UInt32) : Option (Nat × Entry Id) :=
  match enumerate entry.offline 0 with
  | (some slot, cursor) => do
    let current ← slot
    let online ← arrayInsert entry.online (-1) ⟨current, hashAddr peer⟩
    let removed ← arrayRemoveAt entry.offline cursor
    some (current, { entry with online, offline := removed.1 })
  | (none, _) => some (0, entry)

/-- `get_existing` on the entry `get` returned. -/
def MemPool.existingLease (pool : MemPool Id) (entry : Entry Id) (requested : Host)
    (peer : Option UInt32) : Option (Nat × Entry Id) := do
  let (offset, entry) ← pool.reassignOnline entry requested peer
  if offset ≠ 0 then some (offset, entry) else refreshOffline entry peer

/-- The entry stays in the table unless both its arrays are empty (`remove_at`). -/
def keepNonEmpty (entry : Entry Id) : List (Entry Id) :=
  if entry.online.count = 0 ∧ entry.offline.count = 0 then [] else [entry]

/-- The enumeration of `get_reassigned`: `array_remove(entry->offline, ARRAY_HEAD, &current)`
on each entry in turn until one gives a lease, every entry it leaves empty removed; `0` when
none gives one. -/
def takeOffline : List (Entry Id) → Option (Nat × List (Entry Id))
  | [] => some (0, [])
  | entry :: rest => do
    let (offline, current) ← arrayRemove entry.offline 0
    let offset ← match current with
      | none => some 0
      | some slot => slot
    let kept := keepNonEmpty { entry with offline }
    if offset ≠ 0 then some (offset, kept ++ rest)
    else (takeOffline rest).map fun taken => (taken.1, kept ++ taken.2)

/-- The loop of `release_address`, the enumerator at `cursor`: the first online lease of
`offset` is removed with `array_remove_at`, and the loop goes on to look for another one;
`found` and `more` as it leaves them. The fuel bounds the calls of `enumerate`. -/
def releaseLoop (offset : Nat) :
    Nat → ArrayT UniqueLease → Nat → Bool → Option (ArrayT UniqueLease × Bool × Bool)
  | 0, online, _, found => some (online, found, false)
  | fuel + 1, online, cursor, found =>
    match enumerate online cursor with
    | (none, _) => some (online, found, false)
    | (some slot, next) => do
      let current ← slot
      if current.offset = offset then
        if found then some (online, found, true)
        else
          let removed ← arrayRemoveAt online next
          releaseLoop offset fuel removed.1 removed.2 true
      else releaseLoop offset fuel online next found

section Model

/- The table's key test is `hash == pair->hash && equals(key, pair->key)` with
`id_hash` and `id_equals`; it is any Boolean test here, neither reflexive nor
symmetric. -/
variable [BEq Id]

/-- `this->leases->get(this->leases, id)`. -/
def findEntry (leases : List (Entry Id)) (id : Id) : Option (Entry Id) :=
  leases.find? (id == ·.id)

/-- A change made through the entry pointer `get` returned. -/
def updateEntry : List (Entry Id) → Id → (Entry Id → Entry Id) → List (Entry Id)
  | [], _, _ => []
  | entry :: rest, id, change =>
    if id == entry.id then change entry :: rest else entry :: updateEntry rest id change

/-- `get`, with `entry_create` and `put` if it finds no entry, and
`array_insert(entry->online, ARRAY_TAIL, &lease)` on the entry. -/
def addOnline (leases : List (Entry Id)) (id : Id) (lease : UniqueLease) : Option (List (Entry Id)) :=
  match findEntry leases id with
  | some entry =>
    (arrayInsert entry.online (-1) lease).map fun online => updateEntry leases id fun entry => { entry with online }
  | none =>
    (arrayInsert (entryCreate id).online (-1) lease).map fun online => leases ++ [{ entryCreate id with online }]

def MemPool.getExisting (pool : MemPool Id) (id : Id) (requested : Host) (peer : Option UInt32) :
    Option (Nat × MemPool Id) :=
  match findEntry pool.leases id with
  | none => some (0, pool)
  | some entry =>
    (pool.existingLease entry requested peer).map fun refreshed =>
      (refreshed.1, { pool with leases := updateEntry pool.leases id fun _ => refreshed.2 })

def MemPool.getNew (pool : MemPool Id) (id : Id) (peer : Option UInt32) : Option (Nat × MemPool Id) :=
  if pool.unused < pool.size then
    (addOnline pool.leases id ⟨pool.unused + 1, hashAddr peer⟩).map fun leases =>
      (pool.unused + 1, { pool with unused := pool.unused + 1, leases })
  else some (0, pool)

def MemPool.getReassigned (pool : MemPool Id) (id : Id) (peer : Option UInt32) : Option (Nat × MemPool Id) := do
  let (offset, leases) ← takeOffline pool.leases
  if offset ≠ 0 then
    (addOnline leases id ⟨offset, hashAddr peer⟩).map fun leases => (offset, { pool with leases })
  else some (0, { pool with leases })

/-- The switch of `acquire_address`. -/
def MemPool.getOffset (pool : MemPool Id) (id : Id) (requested : Host) (operation : MemPoolOp)
    (peer : Option UInt32) : Option (Nat × MemPool Id) :=
  match operation with
  | .existing => pool.getExisting id requested peer
  | .new => pool.getNew id peer
  | .reassign => pool.getReassigned id peer

def MemPool.acquireAddress (pool : MemPool Id) (id : Id) (requested : Host) (operation : MemPoolOp)
    (peer : Option UInt32) : Option (Option Host × MemPool Id) :=
  -- an empty pool, as for `%config`, hands back the requested address
  if pool.size = 0 then some (some requested, pool)
  else if requested.family ≠ pool.base.family then some (none, pool)
  else
    (pool.getOffset id requested operation peer).map fun got =>
      if got.1 ≠ 0 then (pool.offset2host got.1, got.2) else (none, got.2)

def MemPool.releaseAddress (pool : MemPool Id) (address : Host) (id : Id) : Option (Bool × MemPool Id) :=
  if pool.size = 0 then some (false, pool)
  else
    match findEntry pool.leases id with
    | none => some (false, pool)
    | some entry => do
      let offset := pool.host2offset address
      let (online, found, more) ← releaseLoop offset (entry.online.count + 1) entry.online 0 false
      -- no tunnel is online anymore for this lease: it goes offline
      let offline ← if found && !more then arrayInsert entry.offline (-1) offset else some entry.offline
      some (found, { pool with leases := updateEntry pool.leases id fun _ => { entry with online, offline } })

inductive PoolCall (Id : Type) where
  | acquire (id : Id) (requested : Host) (operation : MemPoolOp) (peer : Option UInt32)
  | release (address : Host) (id : Id)

inductive PoolReply where
  | acquired (host : Option Host)
  | released (found : Bool)
deriving DecidableEq, Repr

def MemPool.call (pool : MemPool Id) : PoolCall Id → Option (MemPool Id × PoolReply)
  | .acquire id requested operation peer =>
    (pool.acquireAddress id requested operation peer).map fun acquired => (acquired.2, .acquired acquired.1)
  | .release address id =>
    (pool.releaseAddress address id).map fun released => (released.2, .released released.1)

end Model

/-! ## What the entries hold -/

/-- The offsets in an entry's online and offline arrays. -/
def Entry.offsets (entry : Entry Id) : List Nat :=
  entry.online.elements.map (·.offset) ++ entry.offline.elements

/-- The offsets of online leases and offline offsets, each online offset once. -/
def heldOf (online : List UniqueLease) (offline : List Nat) : Multiset Nat :=
  ((online.map (·.offset)).dedup ++ offline : List Nat)

/-- The offsets an entry holds. -/
def Entry.held (entry : Entry Id) : Multiset Nat := heldOf entry.online.elements entry.offline.elements

/-- The offsets all entries hold, with their multiplicities. -/
def heldOffsets (leases : List (Entry Id)) : Multiset Nat := (leases.map Entry.held).sum

@[simp] theorem heldOffsets_nil : heldOffsets ([] : List (Entry Id)) = 0 := rfl

@[simp] theorem heldOffsets_cons (entry : Entry Id) (rest : List (Entry Id)) :
    heldOffsets (entry :: rest) = entry.held + heldOffsets rest := by
  simp [heldOffsets]

@[simp] theorem heldOffsets_append (first second : List (Entry Id)) :
    heldOffsets (first ++ second) = heldOffsets first + heldOffsets second := by
  simp [heldOffsets]

theorem heldOf_eq (online : List UniqueLease) (offline : List Nat) :
    heldOf online offline = Multiset.dedup (online.map (·.offset) : Multiset Nat) + offline := by
  rw [heldOf, ← Multiset.coe_add, Multiset.coe_dedup]

theorem mem_held {entry : Entry Id} {offset : Nat} : offset ∈ entry.held ↔ offset ∈ entry.offsets := by
  simp [Entry.held, heldOf, Entry.offsets]

theorem held_le_heldOffsets {leases : List (Entry Id)} {entry : Entry Id} (member : entry ∈ leases) :
    entry.held ≤ heldOffsets leases :=
  List.le_sum_of_mem (List.mem_map_of_mem member)

/-- Leases hold each offset once exactly when no offline offset repeats and none is also
online. -/
theorem nodup_heldOf_iff (online : List UniqueLease) (offline : List Nat) :
    (heldOf online offline).Nodup ↔ offline.Nodup ∧ ∀ offset ∈ offline, offset ∉ online.map (·.offset) := by
  rw [heldOf_eq, Multiset.nodup_add, Multiset.disjoint_right]
  simp only [Multiset.nodup_dedup, Multiset.coe_nodup, true_and, Multiset.mem_coe,
    Multiset.mem_dedup]

theorem offsets_append_lease (online : List UniqueLease) (lease : UniqueLease) :
    (((online ++ [lease]).map (·.offset) : List Nat) : Multiset Nat) =
      lease.offset ::ₘ (online.map (·.offset) : Multiset Nat) := by
  simp

theorem heldOf_append_of_mem {online : List UniqueLease} {lease : UniqueLease}
    (present : lease.offset ∈ online.map (·.offset)) (offline : List Nat) :
    heldOf (online ++ [lease]) offline = heldOf online offline := by
  rw [heldOf_eq, heldOf_eq, offsets_append_lease, Multiset.dedup_cons_of_mem (by simpa using present)]

theorem heldOf_append_of_notMem {online : List UniqueLease} {lease : UniqueLease}
    (fresh : lease.offset ∉ online.map (·.offset)) (offline : List Nat) :
    heldOf (online ++ [lease]) offline = lease.offset ::ₘ heldOf online offline := by
  rw [heldOf_eq, heldOf_eq, offsets_append_lease, Multiset.dedup_cons_of_notMem (by simpa using fresh),
    Multiset.cons_add]

theorem heldOf_cons_offline (online : List UniqueLease) (current : Nat) (offline : List Nat) :
    heldOf online (current :: offline) = current ::ₘ heldOf online offline := by
  rw [heldOf_eq, heldOf_eq, ← Multiset.cons_coe, Multiset.add_cons]

/-- An offline lease that goes online again stays held once. -/
theorem heldOf_moveOnline {online : List UniqueLease} {current : Nat} {offline : List Nat} (hash : UInt32)
    (nodup : (heldOf online (current :: offline)).Nodup) :
    heldOf (online ++ [⟨current, hash⟩]) offline = heldOf online (current :: offline) := by
  have fresh : current ∉ online.map (·.offset) :=
    ((nodup_heldOf_iff online _).mp nodup).2 current List.mem_cons_self
  rw [heldOf_append_of_notMem fresh, heldOf_cons_offline]

/-- Taking out the `first`-th online lease takes one copy of its offset. -/
theorem offsets_eraseIdx {online : List UniqueLease} {first offset : Nat} (inRange : first < online.length)
    (at_first : online[first].offset = offset) :
    ((online.map (·.offset) : List Nat) : Multiset Nat) =
      offset ::ₘ ((online.eraseIdx first).map (·.offset) : List Nat) := by
  have split : online = online.take first ++ online[first] :: online.drop (first + 1) := by
    rw [← List.drop_eq_getElem_cons inRange, List.take_append_drop]
  rw [Multiset.cons_coe, Multiset.coe_eq_coe, List.eraseIdx_eq_take_drop_succ]
  conv_lhs => rw [split]
  simp only [List.map_append, List.map_cons, at_first]
  exact List.perm_middle

section Release

variable {online : List UniqueLease} {first offset : Nat}

/-- Another online lease of the offset keeps it online. -/
theorem heldOf_eraseIdx_of_mem (inRange : first < online.length) (at_first : online[first].offset = offset)
    (more : offset ∈ (online.eraseIdx first).map (·.offset)) (offline : List Nat) :
    heldOf (online.eraseIdx first) offline = heldOf online offline := by
  rw [heldOf_eq, heldOf_eq, offsets_eraseIdx inRange at_first, Multiset.dedup_cons_of_mem (by simpa using more)]

/-- The last online lease of the offset taken out, the offset goes offline. -/
theorem heldOf_eraseIdx_of_notMem (inRange : first < online.length) (at_first : online[first].offset = offset)
    (last : offset ∉ (online.eraseIdx first).map (·.offset)) (offline : List Nat) :
    heldOf (online.eraseIdx first) (offline ++ [offset]) = heldOf online offline := by
  rw [heldOf_eq, heldOf_eq, offsets_eraseIdx inRange at_first, Multiset.dedup_cons_of_notMem (by simpa using last),
    Multiset.cons_add, ← Multiset.coe_add, Multiset.coe_singleton, add_comm (offline : Multiset Nat),
    Multiset.singleton_add, Multiset.add_cons]

end Release

/-- An entry whose arrays are laid out as `array.c` keeps them. -/
structure Entry.Laid (entry : Entry Id) : Prop where
  online : Refines entry.online entry.online.elements
  offline : Refines entry.offline entry.offline.elements

/-- Arrays that hold two lists make a laid-out entry that holds what the lists hold. -/
theorem laid_of_refines {online : ArrayT UniqueLease} {offline : ArrayT Nat} {onlineLeases : List UniqueLease}
    {offlineLeases : List Nat} (id : Id) (onlineHolds : Refines online onlineLeases)
    (offlineHolds : Refines offline offlineLeases) :
    (⟨id, online, offline⟩ : Entry Id).Laid ∧ (⟨id, online, offline⟩ : Entry Id).held = heldOf onlineLeases offlineLeases := by
  have onlineEq := onlineHolds.elements_eq
  have offlineEq := offlineHolds.elements_eq
  refine ⟨⟨?_, ?_⟩, ?_⟩
  · rw [onlineEq]
    exact onlineHolds
  · rw [offlineEq]
    exact offlineHolds
  · rw [Entry.held, onlineEq, offlineEq]

/-- What `get_existing` does to the entry it found, where it does not fail: the entry keeps
its identity, its layout and what it holds, and an offset it hands out is online in it. -/
structure Refreshed (entry : Entry Id) (result : Nat × Entry Id) : Prop where
  id_eq : result.2.id = entry.id
  laid : result.2.Laid
  held_eq : result.2.held = entry.held
  online : result.1 ≠ 0 → result.1 ∈ result.2.online.elements.map (·.offset)

section Refresh

variable {entry : Entry Id} {result : Nat × Entry Id}

theorem refreshed_self (laid : entry.Laid) : Refreshed entry (0, entry) :=
  ⟨rfl, laid, rfl, fun nonzero => (nonzero rfl).elim⟩

/-- The online array's enumerator hands out its leases, as pointers to their slots. -/
theorem enumerated_online (laid : entry.Laid) :
    enumerated entry.online (entry.online.count + 1) 0 = entry.online.elements.map some := by
  have enough : entry.online.elements.length - 0 < entry.online.count + 1 := by
    rw [laid.online.count_eq_length]
    omega
  rw [enumerated_refines laid.online _ 0 enough, List.drop_zero]

theorem refreshed_reassignOnline (pool : MemPool Id) (laid : entry.Laid) (requested : Host) (peer : Option UInt32)
    (reassigned : pool.reassignOnline entry requested peer = some result) : Refreshed entry result := by
  cases peer with
  | none =>
    cases reassigned
    exact refreshed_self laid
  | some hash =>
    dsimp only [MemPool.reassignOnline] at reassigned
    rw [enumerated_online laid] at reassigned
    split at reassigned
    · cases reassigned
      exact refreshed_self laid
    rename_i i found
    obtain ⟨inside, -, -⟩ := List.findIdx?_eq_some_iff_getElem.mp found
    rw [List.length_map] at inside
    have slot : (entry.online.elements.map some)[i]?.join = some entry.online.elements[i] := by
      rw [List.getElem?_map, List.getElem?_eq_getElem inside]
      rfl
    simp only [slot, Option.bind_eq_bind, Option.bind_some, Option.bind_eq_some_iff, Option.some.injEq] at reassigned
    -- `array_insert` copies through the pointer to the found lease's slot
    obtain ⟨online, copied, rfl⟩ := reassigned
    obtain ⟨value, member, refines⟩ := laid.online.insertFromSlot_copy inside copied
    obtain ⟨laidNext, heldNext⟩ := laid_of_refines entry.id refines laid.offline
    have present : value.offset ∈ entry.online.elements.map (·.offset) := List.mem_map_of_mem member
    refine ⟨rfl, laidNext, heldNext.trans (heldOf_append_of_mem present _), fun _ => ?_⟩
    -- the offset handed out is the found lease's, which stays online
    dsimp only
    rw [refines.elements_eq, List.map_append]
    exact List.mem_append_left _ (List.mem_map_of_mem (List.getElem_mem inside))

theorem refreshed_refreshOffline (laid : entry.Laid) (nodup : entry.held.Nodup) (peer : Option UInt32)
    (refreshed : refreshOffline entry peer = some result) : Refreshed entry result := by
  unfold refreshOffline at refreshed
  rw [enumerate_refines laid.offline] at refreshed
  cases taken : entry.offline.elements with
  | nil =>
    simp only [taken, List.getElem?_nil, Option.map_none] at refreshed
    cases refreshed
    exact refreshed_self laid
  | cons current offline =>
    -- the first offline lease goes online and out of the offline array
    have offlineHolds : Refines entry.offline (current :: offline) := taken ▸ laid.offline
    obtain ⟨online, inserted, onlineHolds⟩ := laid.online.insert_tail ⟨current, hashAddr peer⟩
    obtain ⟨removed, removedEq, removedHolds⟩ := offlineHolds.removeAt 0
    rw [Nat.zero_add] at removedEq
    rw [List.eraseIdx_cons_zero] at removedHolds
    simp only [taken, List.getElem?_cons_zero, Option.map_some, List.length_cons, Nat.zero_lt_succ, if_true,
      Nat.zero_add, Option.bind_eq_bind, Option.bind_some, inserted, removedEq, Option.some.injEq] at refreshed
    subst refreshed
    obtain ⟨laidNext, heldNext⟩ := laid_of_refines entry.id onlineHolds removedHolds
    have nodupTaken : (heldOf entry.online.elements (current :: offline)).Nodup := by
      rw [← taken]
      exact nodup
    refine ⟨rfl, laidNext, ?_, fun _ => by simp [onlineHolds.elements_eq]⟩
    rw [heldNext, heldOf_moveOnline _ nodupTaken, Entry.held, taken]

theorem refreshed_existingLease (pool : MemPool Id) (laid : entry.Laid) (nodup : entry.held.Nodup)
    (requested : Host) (peer : Option UInt32) (refreshed : pool.existingLease entry requested peer = some result) :
    Refreshed entry result := by
  unfold MemPool.existingLease at refreshed
  obtain ⟨⟨offset, reassignedEntry⟩, reassignedEq, continued⟩ := Option.bind_eq_some_iff.mp refreshed
  have first := refreshed_reassignOnline pool laid requested peer reassignedEq
  dsimp only at continued
  split_ifs at continued with nonzero
  · cases continued
    exact first
  · -- no online lease to reassign: the offline path runs on the entry as the first loop left it
    have second := refreshed_refreshOffline first.laid (first.held_eq ▸ nodup) peer continued
    exact ⟨second.id_eq.trans first.id_eq, second.laid, second.held_eq.trans first.held_eq, second.online⟩

end Refresh

section Take

theorem heldOffsets_keepNonEmpty {entry : Entry Id} (laid : entry.Laid) :
    heldOffsets (keepNonEmpty entry) = entry.held := by
  unfold keepNonEmpty
  split_ifs with empty
  · -- an entry with both arrays empty holds nothing
    have noOnline : entry.online.elements = [] := by
      rw [← List.length_eq_zero_iff, ← laid.online.count_eq_length]
      exact empty.1
    have noOffline : entry.offline.elements = [] := by
      rw [← List.length_eq_zero_iff, ← laid.offline.count_eq_length]
      exact empty.2
    simp [Entry.held, heldOf, noOnline, noOffline]
  · simp

theorem laid_keepNonEmpty {entry : Entry Id} (laid : entry.Laid) : ∀ kept ∈ keepNonEmpty entry, kept.Laid := by
  unfold keepNonEmpty
  split_ifs <;> simp [laid]

/-- The first offline lease taken out of an entry. -/
theorem removeOffline {entry : Entry Id} (laid : entry.Laid) :
    ∃ removed, arrayRemove entry.offline 0 = some (removed, entry.offline.elements.head?.map some) ∧
      ({ entry with offline := removed } : Entry Id).Laid ∧
      ({ entry with offline := removed } : Entry Id).held = heldOf entry.online.elements entry.offline.elements.tail := by
  obtain ⟨removed, same, holds⟩ := laid.offline.remove_head
  exact ⟨removed, same, laid_of_refines entry.id laid.online holds⟩

/-- What the enumeration of `get_reassigned` leaves, where it does not fail: laid-out entries
that hold what the table held, less the offset it took if it took one. -/
theorem takeOffline_held {leases : List (Entry Id)} (laid : ∀ entry ∈ leases, entry.Laid)
    (nonzero : 0 ∉ heldOffsets leases) {result : Nat × List (Entry Id)} (taken : takeOffline leases = some result) :
    (∀ entry ∈ result.2, entry.Laid) ∧
      ((result.1 = 0 ∧ heldOffsets result.2 = heldOffsets leases) ∨
        (result.1 ≠ 0 ∧ result.1 ::ₘ heldOffsets result.2 = heldOffsets leases)) := by
  induction leases generalizing result with
  | nil =>
    cases taken
    exact ⟨fun _ member => absurd member List.not_mem_nil, Or.inl ⟨rfl, rfl⟩⟩
  | cons entry rest inductionHypothesis =>
    have entryLaid := laid entry List.mem_cons_self
    have restLaid : ∀ entry ∈ rest, entry.Laid := fun other member => laid other (List.mem_cons_of_mem _ member)
    rw [heldOffsets_cons, Multiset.mem_add, not_or] at nonzero
    obtain ⟨removed, removedEq, removedLaid, removedHeld⟩ := removeOffline entryLaid
    have keptHeld := heldOffsets_keepNonEmpty removedLaid
    have keptLaid := laid_keepNonEmpty removedLaid
    rw [heldOffsets_cons]
    cases firstOffline : entry.offline.elements with
    | cons current offline =>
      -- the first entry with an offline lease gives its first one, which is not 0
      have current_ne : current ≠ 0 := fun zero =>
        nonzero.1 (mem_held.mpr (by simp [Entry.offsets, firstOffline, zero]))
      rw [firstOffline] at removedEq
      simp only [takeOffline, removedEq, List.head?_cons, Option.map_some, Option.bind_eq_bind, Option.bind_some,
        ne_eq, current_ne, not_false_eq_true, if_true, Option.some.injEq] at taken
      subst taken
      refine ⟨fun other member => ?_, Or.inr ⟨current_ne, ?_⟩⟩
      · rcases List.mem_append.mp member with kept | restMember
        · exact keptLaid other kept
        · exact restLaid other restMember
      · rw [heldOffsets_append, keptHeld, removedHeld, firstOffline, List.tail_cons, ← Multiset.cons_add,
          ← heldOf_cons_offline, Entry.held, firstOffline]
    | nil =>
      rw [firstOffline] at removedEq
      simp only [takeOffline, removedEq, List.head?_nil, Option.map_none, Option.bind_eq_bind, Option.bind_some,
        ne_eq, not_true_eq_false, if_false] at taken
      obtain ⟨restResult, restTaken, rfl⟩ := Option.map_eq_some_iff.mp taken
      obtain ⟨restResultLaid, restHeld⟩ := inductionHypothesis restLaid nonzero.2 restTaken
      have sameHeld : ({ entry with offline := removed } : Entry Id).held = entry.held := by
        rw [removedHeld, firstOffline, List.tail_nil, Entry.held, firstOffline]
      refine ⟨fun other member => ?_, ?_⟩
      · rcases List.mem_append.mp member with kept | restMember
        · exact keptLaid other kept
        · exact restResultLaid other restMember
      · rw [heldOffsets_append, keptHeld, sameHeld]
        rcases restHeld with ⟨zero, same⟩ | ⟨offsetNonzero, restHeld⟩
        · exact Or.inl ⟨zero, by rw [same]⟩
        · exact Or.inr ⟨offsetNonzero, by rw [← Multiset.add_cons, restHeld]⟩

end Take

/-! ## The loop of `release_address` -/

section ReleaseLoop

variable {offset : Nat} {online : ArrayT UniqueLease} {leases : List UniqueLease}

/-- Once it removed a lease of the offset, the loop only looks on for another one. -/
theorem releaseLoop_found (refines : Refines online leases) :
    ∀ fuel cursor, leases.length - cursor < fuel →
      releaseLoop offset fuel online cursor true = some (online, true, (leases.drop cursor).any (·.offset == offset))
  | 0, _, enough => absurd enough (Nat.not_lt_zero _)
  | fuel + 1, cursor, enough => by
    rw [releaseLoop, enumerate_refines refines]
    by_cases inside : cursor < leases.length
    · rw [List.getElem?_eq_getElem inside, if_pos inside, List.drop_eq_getElem_cons inside, List.any_cons]
      by_cases hit : leases[cursor].offset = offset
      · simp only [Option.map_some, Option.bind_eq_bind, Option.bind_some, hit, if_true, beq_self_eq_true,
          Bool.true_or]
      · have rest := releaseLoop_found refines fuel (cursor + 1) (by omega)
        simp only [Option.map_some, Option.bind_eq_bind, Option.bind_some, hit, if_false, rest,
          beq_eq_false_iff_ne.mpr hit, Bool.false_or]
    · rw [List.getElem?_eq_none (by omega), List.drop_eq_nil_of_le (by omega)]
      rfl

/-- No lease before `cursor` has the offset: whether one is left once the one at `cursor` is
removed shows from `cursor` on. -/
theorem any_eraseIdx_drop {cursor : Nat} (before : ∀ lease ∈ leases.take cursor, lease.offset ≠ offset)
    (inside : cursor < leases.length) :
    ((leases.eraseIdx cursor).drop cursor).any (·.offset == offset) =
      (leases.eraseIdx cursor).any (·.offset == offset) := by
  have prefixLength : (leases.take cursor).length = cursor := List.length_take_of_le inside.le
  have noneBefore : (leases.take cursor).any (·.offset == offset) = false := by
    rw [List.any_eq_false]
    intro lease member
    simpa using before lease member
  rw [List.eraseIdx_eq_take_drop_succ, List.drop_left' prefixLength, List.any_append, noneBefore, Bool.false_or]

/-- From a cursor before which no lease has the offset, the loop finds the first one that has
it and removes it, and then reports whether another one is left; or it finds none. -/
theorem releaseLoop_notFound (refines : Refines online leases) :
    ∀ fuel cursor, leases.length - cursor < fuel → (∀ lease ∈ leases.take cursor, lease.offset ≠ offset) →
      (releaseLoop offset fuel online cursor false = some (online, false, false) ∧
          offset ∉ leases.map (·.offset)) ∨
        ∃ first, ∃ inRange : first < leases.length, leases[first].offset = offset ∧
          ∃ removed, Refines removed (leases.eraseIdx first) ∧
            releaseLoop offset fuel online cursor false =
              some (removed, true, (leases.eraseIdx first).any (·.offset == offset))
  | 0, _, enough, _ => absurd enough (Nat.not_lt_zero _)
  | fuel + 1, cursor, enough, before => by
    rw [releaseLoop, enumerate_refines refines]
    by_cases inside : cursor < leases.length
    · rw [List.getElem?_eq_getElem inside, if_pos inside]
      by_cases hit : leases[cursor].offset = offset
      · -- the first lease of the offset: removed, and the enumerator stepped back onto its index
        obtain ⟨removed, removedEq, removedHolds⟩ := refines.removeAt cursor
        have found := @releaseLoop_found offset _ _ removedHolds fuel cursor
          (by rw [List.length_eraseIdx_of_lt inside]; omega)
        refine Or.inr ⟨cursor, inside, hit, removed, removedHolds, ?_⟩
        simp only [Option.map_some, Option.bind_eq_bind, Option.bind_some, hit, if_true, Bool.false_eq_true,
          if_false, removedEq, found, any_eraseIdx_drop before inside]
      · have next : ∀ lease ∈ leases.take (cursor + 1), lease.offset ≠ offset := by
          rw [List.take_add_one, List.getElem?_eq_getElem inside]
          intro lease member
          rcases List.mem_append.mp member with earlier | last
          · exact before lease earlier
          · rw [← Option.some.inj (Option.mem_toList.mp last)]
            exact hit
        have rest := releaseLoop_notFound refines fuel (cursor + 1) (by omega) next
        simp only [Option.map_some, Option.bind_eq_bind, Option.bind_some, hit, if_false]
        exact rest
    · -- every lease was looked at and none has the offset
      rw [List.getElem?_eq_none (by omega)]
      refine Or.inl ⟨rfl, fun present => ?_⟩
      obtain ⟨lease, member, same⟩ := List.mem_map.mp present
      exact before lease (by rwa [List.take_of_length_le (by omega)]) same

end ReleaseLoop

/-! ## The lease table -/

section Table

variable [BEq Id]

theorem findEntry_cons (entry : Entry Id) (rest : List (Entry Id)) (id : Id) :
    findEntry (entry :: rest) id = if (id == entry.id) = true then some entry else findEntry rest id := by
  unfold findEntry
  cases hit : id == entry.id <;> simp [hit]

theorem mem_of_findEntry {leases : List (Entry Id)} {id : Id} {entry : Entry Id}
    (found : findEntry leases id = some entry) : entry ∈ leases :=
  List.mem_of_find?_eq_some found

theorem matches_of_findEntry {leases : List (Entry Id)} {id : Id} {entry : Entry Id}
    (found : findEntry leases id = some entry) : (id == entry.id) = true := by
  unfold findEntry at found
  have accepted := List.find?_some found
  exact accepted

section Update

variable {leases : List (Entry Id)} {id : Id} {entry : Entry Id} {change : Entry Id → Entry Id}

/-- Changing the entry `get` found changes only its part of what the entries hold. -/
theorem heldOffsets_updateEntry (found : findEntry leases id = some entry) :
    heldOffsets (updateEntry leases id change) + entry.held =
      heldOffsets leases + (change entry).held := by
  induction leases with
  | nil => simp [findEntry] at found
  | cons first rest inductionHypothesis =>
    rw [findEntry_cons] at found
    by_cases hit : (id == first.id) = true
    · -- the first entry the test accepts is the one the pointer changes
      simp only [hit, if_true, Option.some.injEq] at found
      subst found
      simp only [updateEntry, hit, if_true, heldOffsets_cons]
      abel
    · simp only [hit, Bool.false_eq_true, if_false] at found
      simp only [updateEntry, hit, Bool.false_eq_true, if_false, heldOffsets_cons]
      rw [add_assoc, inductionHypothesis found, add_assoc]

theorem heldOffsets_updateEntry_of_held (found : findEntry leases id = some entry)
    (kept : (change entry).held = entry.held) :
    heldOffsets (updateEntry leases id change) = heldOffsets leases := by
  have sums : heldOffsets (updateEntry leases id change) + entry.held = heldOffsets leases + entry.held := by
    rw [heldOffsets_updateEntry found, kept]
  exact add_right_cancel sums

theorem mem_updateEntry (found : findEntry leases id = some entry) :
    change entry ∈ updateEntry leases id change := by
  induction leases with
  | nil => simp [findEntry] at found
  | cons first rest inductionHypothesis =>
    rw [findEntry_cons] at found
    by_cases hit : (id == first.id) = true
    · simp only [hit, if_true, Option.some.injEq] at found
      subst found
      simp [updateEntry, hit]
    · simp only [hit, Bool.false_eq_true, if_false] at found
      simp only [updateEntry, hit, Bool.false_eq_true, if_false]
      exact List.mem_cons_of_mem first (inductionHypothesis found)

/-- What every entry has, the entry changed through the pointer `get` returned has too. -/
theorem forall_mem_updateEntry {property : Entry Id → Prop} (found : findEntry leases id = some entry)
    (each : ∀ other ∈ leases, property other) (changed : property (change entry)) :
    ∀ other ∈ updateEntry leases id change, property other := by
  induction leases with
  | nil => simp [findEntry] at found
  | cons first rest inductionHypothesis =>
    rw [findEntry_cons] at found
    by_cases hit : (id == first.id) = true
    · simp only [hit, if_true, Option.some.injEq] at found
      subst found
      simp only [updateEntry, hit, if_true, List.forall_mem_cons]
      exact ⟨changed, fun other member => each other (List.mem_cons_of_mem _ member)⟩
    · simp only [hit, Bool.false_eq_true, if_false] at found
      simp only [updateEntry, hit, Bool.false_eq_true, if_false, List.forall_mem_cons]
      exact ⟨each first List.mem_cons_self,
        inductionHypothesis found fun other member => each other (List.mem_cons_of_mem _ member)⟩

end Update

/-- `offset` is online in an entry of `id`: one put under `id`, or one the table's
test accepts for it. -/
def OnlineFor (leases : List (Entry Id)) (id : Id) (offset : Nat) : Prop :=
  ∃ entry ∈ leases, (entry.id = id ∨ (id == entry.id) = true) ∧ offset ∈ entry.online.elements.map (·.offset)

/-- Appending a fresh online lease to the entry of `id`, or to a new one, adds its offset to
what the table holds and puts it online for `id`. -/
theorem addOnline_held {leases : List (Entry Id)} {id : Id} {lease : UniqueLease}
    (laid : ∀ entry ∈ leases, entry.Laid) (fresh : lease.offset ∉ heldOffsets leases) {added : List (Entry Id)}
    (adds : addOnline leases id lease = some added) :
    (∀ entry ∈ added, entry.Laid) ∧ heldOffsets added = lease.offset ::ₘ heldOffsets leases ∧
      OnlineFor added id lease.offset := by
  unfold addOnline at adds
  split at adds
  · rename_i entry found
    have entryLaid := laid entry (mem_of_findEntry found)
    obtain ⟨online, inserted, refines⟩ := entryLaid.online.insert_tail lease
    rw [inserted, Option.map_some, Option.some.injEq] at adds
    subst adds
    obtain ⟨laidNext, heldNext⟩ := laid_of_refines entry.id refines entryLaid.offline
    have notOnline : lease.offset ∉ entry.online.elements.map (·.offset) := fun online =>
      fresh (Multiset.mem_of_le (held_le_heldOffsets (mem_of_findEntry found))
        (mem_held.mpr (List.mem_append_left _ online)))
    have sums : heldOffsets (updateEntry leases id fun entry => { entry with online }) + entry.held =
        lease.offset ::ₘ heldOffsets leases + entry.held := by
      rw [heldOffsets_updateEntry found, heldNext, heldOf_append_of_notMem notOnline, Multiset.add_cons,
        Multiset.cons_add, Entry.held]
    refine ⟨forall_mem_updateEntry found laid laidNext, add_right_cancel sums, ?_⟩
    exact ⟨_, mem_updateEntry found, Or.inr (matches_of_findEntry found :), by simp [refines.elements_eq]⟩
  · -- a new entry holds just the lease
    have empty : Refines (entryCreate id).online ([] : List UniqueLease) := arrayCreate_refines 0
    obtain ⟨online, inserted, refines⟩ := empty.insert_tail lease
    rw [inserted, Option.map_some, Option.some.injEq] at adds
    subst adds
    obtain ⟨laidNext, heldNext⟩ := laid_of_refines id refines (arrayCreate_refines 0)
    refine ⟨fun other member => ?_, ?_, ⟨_, List.mem_append_right _ List.mem_cons_self, Or.inl rfl, ?_⟩⟩
    · rcases List.mem_append.mp member with old | new
      · exact laid other old
      · rw [List.mem_singleton.mp new]
        exact laidNext
    · rw [heldOffsets_append, heldOffsets_cons, heldOffsets_nil, add_zero]
      show heldOffsets leases + (⟨id, online, arrayCreate 0⟩ : Entry Id).held = _
      rw [heldNext]
      simp [heldOf, add_comm]
    · simp [refines.elements_eq]

end Table

/-! ## The invariant -/

/-- The entries are laid out as `array.c` keeps arrays, and together hold every offset handed
out, `1..unused`, exactly once. -/
structure LeasesHeld (pool : MemPool Id) : Prop where
  unused_le_size : pool.unused ≤ pool.size
  laid : ∀ entry ∈ pool.leases, entry.Laid
  held : heldOffsets pool.leases = (List.range' 1 pool.unused : Multiset Nat)

/-- Counting entries whose arrays hold an offset counts the offset, when every offset is
held once. -/
theorem countP_contains_eq_count {leases : List (Entry Id)} (nodup : (heldOffsets leases).Nodup)
    (offset : Nat) :
    leases.countP (fun entry => entry.offsets.contains offset) = (heldOffsets leases).count offset := by
  induction leases with
  | nil => simp
  | cons entry rest inductionHypothesis =>
    rw [heldOffsets_cons, Multiset.nodup_add] at nodup
    rw [List.countP_cons, heldOffsets_cons, Multiset.count_add, inductionHypothesis nodup.2.1,
      Multiset.count_eq_of_nodup nodup.1, add_comm]
    simp only [List.contains_iff_mem, mem_held]

namespace LeasesHeld

variable {pool : MemPool Id}

theorem create (base : Host) (size : Nat) : LeasesHeld (memPoolCreate base size : MemPool Id) :=
  ⟨Nat.zero_le size, fun _ member => absurd member List.not_mem_nil, rfl⟩

theorem nodup (holds : LeasesHeld pool) : (heldOffsets pool.leases).Nodup := by
  rw [holds.held, Multiset.coe_nodup]
  exact List.nodup_range'

theorem zero_notMem (holds : LeasesHeld pool) : 0 ∉ heldOffsets pool.leases := by
  rw [holds.held]
  simp

theorem entry_nodup (holds : LeasesHeld pool) {entry : Entry Id} (member : entry ∈ pool.leases) :
    entry.held.Nodup :=
  Multiset.nodup_of_le (held_le_heldOffsets member) holds.nodup

/-- A step that keeps the size, the counter, the layout and what the entries hold keeps the
invariant. -/
theorem of_leases (holds : LeasesHeld pool) {next : MemPool Id} (unused : next.unused = pool.unused)
    (size : next.size = pool.size) (laid : ∀ entry ∈ next.leases, entry.Laid)
    (held : heldOffsets next.leases = heldOffsets pool.leases) : LeasesHeld next :=
  ⟨unused ▸ size ▸ holds.unused_le_size, laid, by rw [held, holds.held, unused]⟩

/-- Changing one identity's entry into a laid-out entry that holds the same offsets keeps the
invariant: the shape of every step that only moves a lease within its entry. -/
theorem of_updateEntry [BEq Id] (holds : LeasesHeld pool) {id : Id} {entry : Entry Id} {change : Entry Id → Entry Id}
    (found : findEntry pool.leases id = some entry) (laid : (change entry).Laid)
    (kept : (change entry).held = entry.held) :
    LeasesHeld { pool with leases := updateEntry pool.leases id change } :=
  holds.of_leases rfl rfl (forall_mem_updateEntry found holds.laid laid) (heldOffsets_updateEntry_of_held found kept)

theorem mem_range (holds : LeasesHeld pool) {entry : Entry Id} (member : entry ∈ pool.leases)
    {offset : Nat} (mem : offset ∈ entry.offsets) : 1 ≤ offset ∧ offset ≤ pool.unused := by
  have held : offset ∈ heldOffsets pool.leases :=
    Multiset.mem_of_le (held_le_heldOffsets member) (mem_held.mpr mem)
  rw [holds.held, Multiset.mem_coe, List.mem_range'_1] at held
  omega

theorem countP_eq_one (holds : LeasesHeld pool) {offset : Nat} (low : 1 ≤ offset)
    (high : offset ≤ pool.unused) :
    pool.leases.countP (fun entry => entry.offsets.contains offset) = 1 := by
  rw [countP_contains_eq_count holds.nodup, holds.held]
  exact Multiset.count_eq_one_of_mem (holds.held ▸ holds.nodup) (by simp; omega)

theorem offline_nodup (holds : LeasesHeld pool) {entry : Entry Id} (member : entry ∈ pool.leases) :
    entry.offline.elements.Nodup ∧
      ∀ offset ∈ entry.offline.elements, offset ∉ entry.online.elements.map (·.offset) :=
  (nodup_heldOf_iff _ _).mp (holds.entry_nodup member)

end LeasesHeld

/-! ## The calls keep it -/

section Calls

variable [BEq Id] {pool : MemPool Id} {id : Id}

/-- What a `get_*` function does where it does not fail, from a pool that keeps the
invariant: it keeps the invariant and the size, and an offset it hands out is online for the
identity. -/
structure LeaseStep (pool : MemPool Id) (id : Id) (result : Nat × MemPool Id) : Prop where
  held : LeasesHeld result.2
  size_eq : result.2.size = pool.size
  online : result.1 ≠ 0 → OnlineFor result.2.leases id result.1

theorem leaseStep_self (holds : LeasesHeld pool) : LeaseStep pool id (0, pool) :=
  ⟨holds, rfl, fun nonzero => (nonzero rfl).elim⟩

theorem leaseStep_getExisting (holds : LeasesHeld pool) (requested : Host) (peer : Option UInt32)
    {result : Nat × MemPool Id} (got : pool.getExisting id requested peer = some result) :
    LeaseStep pool id result := by
  unfold MemPool.getExisting at got
  split at got
  · cases got
    exact leaseStep_self holds
  rename_i entry found
  obtain ⟨refreshed, refreshedEq, rfl⟩ := Option.map_eq_some_iff.mp got
  have member := mem_of_findEntry found
  obtain ⟨sameId, laidNext, sameHeld, online⟩ :=
    refreshed_existingLease pool (holds.laid entry member) (holds.entry_nodup member) requested peer refreshedEq
  refine ⟨holds.of_updateEntry found laidNext sameHeld, rfl, fun nonzero => ?_⟩
  exact ⟨_, mem_updateEntry found, Or.inr (sameId ▸ matches_of_findEntry found), online nonzero⟩

theorem leaseStep_getNew (holds : LeasesHeld pool) (peer : Option UInt32) {result : Nat × MemPool Id}
    (got : pool.getNew id peer = some result) : LeaseStep pool id result := by
  unfold MemPool.getNew at got
  split_ifs at got with room
  · obtain ⟨leases, added, rfl⟩ := Option.map_eq_some_iff.mp got
    -- the next offset never handed out is held by nobody
    have fresh : pool.unused + 1 ∉ heldOffsets pool.leases := by
      rw [holds.held, Multiset.mem_coe, List.mem_range'_1]
      omega
    obtain ⟨laid, held, online⟩ := addOnline_held holds.laid fresh added
    refine ⟨⟨room, laid, ?_⟩, rfl, fun _ => online⟩
    show heldOffsets leases = (List.range' 1 (pool.unused + 1) : Multiset Nat)
    rw [held, holds.held, List.range'_concat, ← Multiset.coe_add, Multiset.coe_singleton,
      add_comm (List.range' 1 pool.unused : Multiset Nat), Multiset.singleton_add, one_mul,
      Nat.add_comm 1 pool.unused]
  · cases got
    exact leaseStep_self holds

theorem leaseStep_getReassigned (holds : LeasesHeld pool) (peer : Option UInt32) {result : Nat × MemPool Id}
    (got : pool.getReassigned id peer = some result) : LeaseStep pool id result := by
  unfold MemPool.getReassigned at got
  obtain ⟨⟨offset, leases⟩, takenEq, continued⟩ := Option.bind_eq_some_iff.mp got
  obtain ⟨laid, taken⟩ := takeOffline_held holds.laid holds.zero_notMem takenEq
  dsimp only at continued
  split_ifs at continued with nonzero
  · -- the offset taken from an offline lease goes online for the identity
    obtain ⟨added, adds, rfl⟩ := Option.map_eq_some_iff.mp continued
    obtain ⟨zero, -⟩ | ⟨-, removed⟩ := taken
    · exact absurd zero nonzero
    have fresh : offset ∉ heldOffsets leases :=
      (Multiset.nodup_cons.mp (removed ▸ holds.nodup)).1
    obtain ⟨addedLaid, addedHeld, online⟩ := addOnline_held laid fresh adds
    exact ⟨holds.of_leases rfl rfl addedLaid (addedHeld.trans removed), rfl, fun _ => online⟩
  · cases continued
    obtain ⟨-, same⟩ | ⟨offsetNonzero, -⟩ := taken
    · exact ⟨holds.of_leases rfl rfl laid same, rfl, fun zero => (zero rfl).elim⟩
    · exact absurd (not_not.mp nonzero) offsetNonzero

theorem leaseStep_getOffset (holds : LeasesHeld pool) (requested : Host) (operation : MemPoolOp)
    (peer : Option UInt32) {result : Nat × MemPool Id} (got : pool.getOffset id requested operation peer = some result) :
    LeaseStep pool id result := by
  cases operation with
  | existing => exact leaseStep_getExisting holds requested peer got
  | new => exact leaseStep_getNew holds peer got
  | reassign => exact leaseStep_getReassigned holds peer got

/-- `List.any` of the lease test is membership of the offset. -/
theorem any_offset_iff (leases : List UniqueLease) (offset : Nat) :
    leases.any (·.offset == offset) = true ↔ offset ∈ leases.map (·.offset) := by
  simp only [List.any_eq_true, beq_iff_eq, List.mem_map]

theorem releaseAddress_held (holds : LeasesHeld pool) (address : Host) {result : Bool × MemPool Id}
    (released : pool.releaseAddress address id = some result) :
    LeasesHeld result.2 ∧ result.2.size = pool.size := by
  unfold MemPool.releaseAddress at released
  split_ifs at released with empty
  · cases released
    exact ⟨holds, rfl⟩
  split at released
  · cases released
    exact ⟨holds, rfl⟩
  rename_i entry found
  have member := mem_of_findEntry found
  have laid := holds.laid entry member
  obtain ⟨⟨online, found', more⟩, looped, continued⟩ := Option.bind_eq_some_iff.mp released
  have enough : entry.online.elements.length - 0 < entry.online.count + 1 := by
    rw [laid.online.count_eq_length]
    omega
  rcases @releaseLoop_notFound (pool.host2offset address) _ _ laid.online _ 0 enough (by simp) with
    ⟨loopEq, -⟩ | ⟨first, inRange, at_first, removed, removedHolds, loopEq⟩
  · -- no online lease of the offset: nothing changes
    rw [looped, Option.some.injEq] at loopEq
    cases loopEq
    simp only [Bool.false_and, Bool.false_eq_true, if_false] at continued
    cases continued
    exact ⟨holds.of_updateEntry found laid rfl, rfl⟩
  rw [looped, Option.some.injEq] at loopEq
  cases loopEq
  cases moreEq : (entry.online.elements.eraseIdx first).any (·.offset == pool.host2offset address) with
  | true =>
    -- another tunnel still uses the offset: it stays online
    rw [moreEq] at continued
    simp only [Bool.not_true, Bool.and_false, Bool.false_eq_true, if_false] at continued
    cases continued
    obtain ⟨laidNext, heldNext⟩ := laid_of_refines entry.id removedHolds laid.offline
    have present := (any_offset_iff _ _).mp moreEq
    refine ⟨holds.of_updateEntry found laidNext ?_, rfl⟩
    rw [heldNext, heldOf_eraseIdx_of_mem inRange at_first present, Entry.held]
  | false =>
    -- the last online lease of the offset went back: the offset goes offline
    rw [moreEq] at continued
    obtain ⟨offline, inserted, offlineHolds⟩ := laid.offline.insert_tail (pool.host2offset address)
    simp only [Bool.not_false, Bool.and_self, if_true, inserted] at continued
    cases continued
    obtain ⟨laidNext, heldNext⟩ := laid_of_refines entry.id removedHolds offlineHolds
    have absent : pool.host2offset address ∉ (entry.online.elements.eraseIdx first).map (·.offset) := by
      rw [← any_offset_iff, moreEq]
      exact Bool.false_ne_true
    refine ⟨holds.of_updateEntry found laidNext ?_, rfl⟩
    rw [heldNext, heldOf_eraseIdx_of_notMem inRange at_first absent, Entry.held]

/-- What one call does where it does not fail, from a pool that keeps the invariant: it
keeps the invariant and the size, and a successful acquire hands out an offset online for the
identity. -/
structure CallStep (pool : MemPool Id) (call : PoolCall Id) (result : MemPool Id × PoolReply) : Prop where
  held : LeasesHeld result.1
  size_eq : result.1.size = pool.size
  acquired : ∀ id requested operation peer host, call = .acquire id requested operation peer →
    pool.size ≠ 0 → result.2 = .acquired (some host) →
    ∃ offset, pool.offset2host offset = some host ∧ OnlineFor result.1.leases id offset

theorem callStep_acquire (holds : LeasesHeld pool) (requested : Host) (operation : MemPoolOp)
    (peer : Option UInt32) {result : MemPool Id × PoolReply}
    (called : pool.call (.acquire id requested operation peer) = some result) :
    CallStep pool (.acquire id requested operation peer) result := by
  obtain ⟨acquired, acquiredEq, rfl⟩ := Option.map_eq_some_iff.mp called
  unfold MemPool.acquireAddress at acquiredEq
  by_cases empty : pool.size = 0
  · -- an empty pool hands back the requested address and changes nothing
    rw [if_pos empty] at acquiredEq
    cases acquiredEq
    exact ⟨holds, rfl, fun _ _ _ _ _ _ nonempty => (nonempty empty).elim⟩
  rw [if_neg empty] at acquiredEq
  split_ifs at acquiredEq with family
  · cases acquiredEq
    exact ⟨holds, rfl, fun _ _ _ _ _ _ _ got => by simp at got⟩
  obtain ⟨⟨offset, next⟩, gotEq, rfl⟩ := Option.map_eq_some_iff.mp acquiredEq
  have step := leaseStep_getOffset holds requested operation peer gotEq
  dsimp only
  split_ifs with nonzero
  · refine ⟨step.held, step.size_eq, ?_⟩
    intro other _ _ _ host same _ got
    cases same
    exact ⟨offset, by simpa using got, step.online nonzero⟩
  · exact ⟨step.held, step.size_eq, fun _ _ _ _ _ _ _ got => by simp at got⟩

theorem callStep_release (holds : LeasesHeld pool) (address : Host) {result : MemPool Id × PoolReply}
    (called : pool.call (.release address id) = some result) : CallStep pool (.release address id) result := by
  obtain ⟨released, releasedEq, rfl⟩ := Option.map_eq_some_iff.mp called
  obtain ⟨held, sizeEq⟩ := releaseAddress_held holds address releasedEq
  exact ⟨held, sizeEq, fun _ _ _ _ _ same => by cases same⟩

theorem callStep (holds : LeasesHeld pool) :
    ∀ call, ∀ result ∈ pool.call call, CallStep pool call result
  | .acquire _ requested operation peer, _, called => callStep_acquire holds requested operation peer called
  | .release address _, _, called => callStep_release holds address called

end Calls

/-! ## Every run -/

/-- `10.0.0.1`. -/
def tenBase : Host := ⟨.inet, [], 0x0a000001⟩

/-- One identity takes three new leases for three peers and gives the first one back; the
second peer then reauthenticates and asks for its lease again. -/
def shiftedCalls : List (PoolCall Nat) :=
  [.acquire 1 tenBase .new (some 11), .acquire 1 tenBase .new (some 22), .acquire 1 tenBase .new (some 33),
    .release tenBase 1, .acquire 1 { tenBase with low := 0x0a000002 } .existing (some 22)]

theorem memPool_reassigns_through_moved_slot :
    -- one new lease leaves the online array without an unused slot on either side,
    ((runPartial MemPool.call (memPoolCreate tenBase 1) [.acquire 1 tenBase .new (some 11)]).map fun reached =>
      reached.1.leases.map fun entry => (entry.online.head, entry.online.tail, entry.online.count)) =
      some [(0, 0, 1)] ∧
    -- so reusing it for the same peer copies it after `make_tail_room` reallocated the block;
    runPartial MemPool.call (memPoolCreate tenBase 1)
      [.acquire 1 tenBase .new (some 11), .acquire 1 tenBase .existing (some 11)] = none ∧
    -- with an unused slot at the head, it appends the lease after the one it found
    ((runPartial MemPool.call (memPoolCreate tenBase 3) shiftedCalls).map fun reached =>
      (reached.2.getLast?, reached.1.leases.map fun entry => entry.online.elements)) =
      some (some (.acquired (some { tenBase with low := 0x0a000002 })), [[⟨2, 22⟩, ⟨3, 33⟩, ⟨3, 33⟩]]) := by
  decide

/-- Every pool a run reaches without reading freed memory keeps the invariant, and a call from
it that acquires an address hands out one online for the identity. -/
theorem memPool_consistent_while_defined [BEq Id] (base : Host) (size : Nat) (calls : List (PoolCall Id))
    {reached : MemPool Id × List PoolReply} (ran : runPartial MemPool.call (memPoolCreate base size) calls = some reached) :
    let pool := reached.1
    (pool.unused ≤ pool.size ∧
      ∀ entry ∈ pool.leases, ∀ offset ∈ entry.offsets, 1 ≤ offset ∧ offset ≤ pool.unused) ∧
    (∀ offset, 1 ≤ offset → offset ≤ pool.unused →
      pool.leases.countP (fun entry => entry.offsets.contains offset) = 1) ∧
    (∀ entry ∈ pool.leases, entry.offline.elements.Nodup ∧
      ∀ offset ∈ entry.offline.elements, offset ∉ entry.online.elements.map (·.offset)) ∧
    ∀ id requested operation peer next host, size ≠ 0 →
      pool.call (.acquire id requested operation peer) = some (next, .acquired (some host)) →
      ∃ offset, pool.offset2host offset = some host ∧ OnlineFor next.leases id offset := by
  intro pool
  -- every call keeps the invariant and the size, where it does not fail
  have holds : LeasesHeld pool ∧ pool.size = size := by
    refine invariant_runPartial MemPool.call (fun pool => LeasesHeld pool ∧ pool.size = size)
      (fun pool call kept next stepped => ?_) ⟨LeasesHeld.create base size, rfl⟩ ran
    have step := callStep kept.1 call next stepped
    exact ⟨step.held, step.size_eq.trans kept.2⟩
  refine ⟨⟨holds.1.unused_le_size, fun entry member offset mem => holds.1.mem_range member mem⟩,
    fun offset low high => holds.1.countP_eq_one low high,
    fun entry member => holds.1.offline_nodup member, ?_⟩
  intro id requested operation peer next host sized called
  have step := callStep holds.1 (.acquire id requested operation peer) (next, _) called
  exact step.acquired id requested operation peer host rfl (holds.2 ▸ sized) rfl

/-- `192.168.0.1`, the base of a pool of two. -/
def exampleBase : Host := ⟨.inet, [], 0xc0a80001⟩

/-- The first identity takes a new lease and gives it back; the second, finding the
pool full, reassigns the first one's offline lease. -/
def reassignCalls : List (PoolCall Nat) :=
  [.acquire 1 exampleBase .new none, .acquire 1 exampleBase .new none,
    .release exampleBase 1, .acquire 2 exampleBase .reassign none]

theorem memPool_consistent_while_defined_reassigned :
    ∃ reached, runPartial MemPool.call (memPoolCreate exampleBase 2) reassignCalls = some reached ∧
      reached.1.leases.countP (fun entry => entry.offsets.contains 1) = 1 :=
  ⟨_, rfl, (memPool_consistent_while_defined exampleBase 2 reassignCalls rfl).2.1 1 (by decide) (by decide)⟩

end StrongSwan.Libcharon.Attributes
