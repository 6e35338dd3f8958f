import StrongSwan.Libcharon.Encoding.Message.Defrag

/-!
Contract: the splitting of an IKEv2 message into encrypted fragments (RFC 7383),
`fragment` and `create_fragment` of `message.c`, and its reassembly by
`add_fragment_v2` in any order.

`fragment` takes the configured size of an IP datagram and subtracts, each time
through `REDUCE_FRAG_LEN`, the IP and UDP headers and the non-ESP marker; a
message no longer than what is left is sent whole. Otherwise it subtracts the
IKE header, the IV and the ICV of the AEAD, the fragment payload header, rounds
down to the block size and subtracts the pad length byte. The subtraction is
signed for `int` amounts and floors at 1; the IV and ICV sizes are `size_t`, so
there it wraps below the amount, and the next `int` step brings it back to 1.
The result is always at least 1 (`one_le_contentFragLen`). The inner payloads
are then cut into `count` pieces of that size, counted in a `uint16_t`.

Owns: the length reductions, the count, the loop over the fragments with its
`uint16_t` counter, the payload `create_fragment` builds for each, which
fragment carries the unprotected payloads, and the completion of reassembly for
the fragments of one message received in any order, with the payload list of the
message that was split.

Does not own: the encryption of each fragment and the generation of its packet
(assumed to succeed and to be undone by the peer, who parses the payloads with the
next types `add_payload` chained), and IKEv1.
-/

namespace StrongSwan.Libcharon.Encoding.Message.Fragment

open StrongSwan.Foundations
open StrongSwan.Libcharon.Encoding.Message.Defrag
open StrongSwan.Libstrongswan.Utils

/-- `(ssize_t)` of a `size_t`. -/
def toSsize (value : Nat) : Int :=
  if value % 2 ^ 64 < 2 ^ 63 then (value % 2 ^ 64 : Nat) else (value % 2 ^ 64 : Nat) - 2 ^ 64

/-- `REDUCE_FRAG_LEN (fl, amount)` for an `int` amount: `max` compares as signed, so the
length never drops below 1. -/
def reduceFragLen (fragLen : Nat) (amount : Int) : Nat :=
  (max 1 (toSsize fragLen - amount)).toNat

/-- `REDUCE_FRAG_LEN (fl, amount)` for a `size_t` amount: the difference is taken modulo
`2 ^ 64` and compared with 1 unsigned. -/
def reduceFragLenBy (fragLen amount : Nat) : Nat :=
  let difference := (fragLen % 2 ^ 64 + (2 ^ 64 - amount % 2 ^ 64)) % 2 ^ 64
  if 1 > difference then 1 else difference

/-- `round_down`. -/
def roundDown (size alignment : Nat) : Nat := size - size % alignment

/-- `IKEV2_UDP_PORT`. -/
def ikev2UdpPort : UInt16 := 500

/-- What `fragment` reads of the packet's addresses and of the AEAD. -/
structure FragmentContext where
  inet : Bool
  sourcePort : UInt16
  destinationPort : UInt16
  ivSize : Nat
  icvSize : Nat
  blockSize : Nat
deriving Repr, DecidableEq

/-- The reductions before the decision to fragment: the IP header, the UDP header, and
the non-ESP marker where neither port is `IKEV2_UDP_PORT`. -/
def datagramFragLen (context : FragmentContext) (fragLen : Nat) : Nat :=
  let fragLen := reduceFragLen (reduceFragLen fragLen (if context.inet then 20 else 40)) 8
  if context.destinationPort ≠ ikev2UdpPort ∧ context.sourcePort ≠ ikev2UdpPort then
    reduceFragLen fragLen 4
  else fragLen

/-- The reductions once the message is fragmented: the IKE header, the IV and the ICV,
the fragment payload header, the padding to the block size and the pad length. -/
def contentFragLen (context : FragmentContext) (fragLen : Nat) : Nat :=
  let fragLen := reduceFragLen fragLen 28
  let fragLen := reduceFragLenBy (reduceFragLenBy fragLen context.ivSize) context.icvSize
  reduceFragLen (roundDown (reduceFragLen fragLen 8) context.blockSize) 1

/-- `count`: the fragments that `length` bytes take, stored in a `uint16_t`. -/
def fragmentCount (length fragLen : Nat) : UInt16 :=
  UInt16.ofNat (length / fragLen + if length % fragLen ≠ 0 then 1 else 0)

/-- The fragment payload `create_fragment` builds for fragment `num`: only the first
carries the type of the first inner payload. -/
def fragmentPayload (next : UInt8) (num count : UInt16) (content : List UInt8) :
    EncryptedFragmentPayload :=
  ⟨num, count, if num = 1 then next else 0, content⟩

/-- The loop of `fragment` over `num = 1, 2, ...` while `num <= count`, both
`uint16_t`, each fragment taking at most `fragLen` bytes; `none` where the loop does
not end within `fuel` rounds. -/
def fragmentLoop (fragLen : Nat) (next : UInt8) (count : UInt16) :
    Nat → UInt16 → List UInt8 → Option (List EncryptedFragmentPayload)
  | 0, _, _ => none
  | fuel + 1, num, data =>
    if num ≤ count then
      let len := min data.length fragLen
      (fragmentLoop fragLen next count fuel (num + 1) (data.drop len)).map
        (fragmentPayload next num count (data.take len) :: ·)
    else some []

/-- A fragment message as `create_fragment` builds it: the message ID, the unprotected
payloads it carries, and the fragment payload. -/
structure SentFragment where
  messageId : UInt32
  unprotected : List MessagePayload
  payload : EncryptedFragmentPayload
deriving Repr, DecidableEq

/-- `create_fragment`: the unprotected payloads move to fragment 1. -/
def createFragment (messageId : UInt32) (unprotected : List MessagePayload)
    (payload : EncryptedFragmentPayload) : SentFragment :=
  ⟨messageId, if payload.fragmentNumber = 1 then unprotected else [], payload⟩

/-- The next types `add_payload` and `generate_message` leave on payloads in order: each
names the payload after it, and the last names `last`, the type of what follows them. -/
def chained : List MessagePayload → UInt8 → List MessagePayload
  | [], _ => []
  | payload :: rest, last =>
    { payload with nextType := (rest.head?.map MessagePayload.type).getD last } :: chained rest last

/-- The fragment as the peer parses it: the unprotected payloads, chained up to the fragment
payload, and the fragment payload. -/
def SentFragment.message (fragment : SentFragment) : FragmentMessage :=
  ⟨fragment.messageId,
    chained fragment.unprotected plv2Fragment ++
      [⟨plv2Fragment, fragment.payload.nextPayload, fragment.payload.content⟩],
    some fragment.payload⟩

/-- The payload list of the message `fragment` splits: the unprotected payloads that
`wrap_payloads` left, chained up to the encrypted payload, and the encrypted payload, which
names the first inner payload and holds the inner payloads. -/
def messageChain (unprotected : List MessagePayload) (next : UInt8) (data : List UInt8) : List MessagePayload :=
  chained unprotected plv2Encrypted ++ [⟨plv2Encrypted, next, data⟩]

/-- What `fragment` sends. -/
inductive Sent where
  | whole
  | fragments (fragments : List SentFragment)
  | endless
deriving Repr, DecidableEq

/-- `fragment` for an IKEv2 message with an encrypted payload: `len` is its generated
length, `next` the type of the first inner payload and `data` the inner payloads as
generated. A `uint16_t` counter runs at most 65536 rounds before it repeats. -/
def messageFragment (context : FragmentContext) (fragLen len : Nat) (messageId : UInt32)
    (unprotected : List MessagePayload) (next : UInt8) (data : List UInt8) : Sent :=
  let fragLen := datagramFragLen context fragLen
  if len ≤ fragLen then .whole
  else
    let fragLen := contentFragLen context fragLen
    match fragmentLoop fragLen next (fragmentCount data.length fragLen) 65536 1 data with
    | none => .endless
    | some payloads => .fragments (payloads.map (createFragment messageId unprotected))

/-- The content size of a fragment that `fragment` computes from the configured size. -/
def fragmentSize (context : FragmentContext) (fragLen : Nat) : Nat :=
  contentFragLen context (datagramFragLen context fragLen)

/-! ## The length of a fragment -/

theorem one_le_reduceFragLen (fragLen : Nat) (amount : Int) : 1 ≤ reduceFragLen fragLen amount := by
  unfold reduceFragLen
  omega

/-- Whatever the configured size and the AEAD, a fragment carries at least one byte. -/
theorem one_le_contentFragLen (context : FragmentContext) (fragLen : Nat) :
    1 ≤ contentFragLen context fragLen :=
  one_le_reduceFragLen _ 1

/-! ## The fragments the loop builds -/

/-- The payloads the loop builds from fragment `num` on, `remaining` of them. -/
def payloadsFrom (fragLen : Nat) (next : UInt8) (count : UInt16) :
    Nat → UInt16 → List UInt8 → List EncryptedFragmentPayload
  | 0, _, _ => []
  | remaining + 1, num, data =>
    fragmentPayload next num count (data.take fragLen) ::
      payloadsFrom fragLen next count remaining (num + 1) (data.drop fragLen)

theorem take_min_length (data : List UInt8) (fragLen : Nat) :
    data.take (min data.length fragLen) = data.take fragLen ∧
      data.drop (min data.length fragLen) = data.drop fragLen := by
  rcases Nat.le_total data.length fragLen with short | long
  · rw [Nat.min_eq_left short, List.take_of_length_le short, List.take_length, List.drop_length,
      List.drop_of_length_le short]
    exact ⟨rfl, rfl⟩
  · rw [Nat.min_eq_right long]
    exact ⟨rfl, rfl⟩

/-- The loop, given enough rounds, builds one payload for each number from `num` to
`count`, so it ends for every count below 65535. -/
theorem fragmentLoop_eq (fragLen : Nat) (next : UInt8) {count : UInt16} (below : count.toNat < 65535) :
    ∀ (fuel : Nat) (num : UInt16) (data : List UInt8), 1 ≤ num.toNat → num.toNat ≤ count.toNat + 1 →
      count.toNat + 1 - num.toNat < fuel →
      fragmentLoop fragLen next count fuel num data =
        some (payloadsFrom fragLen next count (count.toNat + 1 - num.toNat) num data) := by
  intro fuel
  induction fuel with
  | zero => intro _ _ _ _ short; omega
  | succ fuel inductionHypothesis =>
    intro num data positive within enough
    rw [fragmentLoop]
    by_cases inRange : num ≤ count
    · rw [if_pos inRange]
      have numLe : num.toNat ≤ count.toNat := UInt16.le_iff_toNat_le.mp inRange
      have successor : (num + 1).toNat = num.toNat + 1 := by
        rw [UInt16.toNat_add, UInt16.toNat_one]
        omega
      have remaining : count.toNat + 1 - num.toNat = (count.toNat + 1 - (num + 1).toNat) + 1 := by
        omega
      obtain ⟨taken, dropped⟩ := take_min_length data fragLen
      simp only
      rw [taken, dropped, inductionHypothesis (num + 1) (data.drop fragLen) (by omega) (by omega)
        (by omega), remaining, payloadsFrom]
      rfl
    · rw [if_neg inRange]
      have past : count.toNat + 1 - num.toNat = 0 := by
        have := UInt16.lt_iff_toNat_lt.mp (UInt16.not_le.mp inRange)
        omega
      rw [past]
      rfl

section Payloads

variable (fragLen : Nat) (next : UInt8) (count : UInt16)

theorem length_payloadsFrom (remaining : Nat) (num : UInt16) (data : List UInt8) :
    (payloadsFrom fragLen next count remaining num data).length = remaining := by
  induction remaining generalizing num data with
  | zero => rfl
  | succ remaining inductionHypothesis => simp [payloadsFrom, inductionHypothesis]

/-- The contents of the payloads are the first `remaining * fragLen` bytes, in order. -/
theorem flatten_payloadsFrom (remaining : Nat) (num : UInt16) (data : List UInt8) :
    ((payloadsFrom fragLen next count remaining num data).map (·.content)).flatten =
      data.take (remaining * fragLen) := by
  induction remaining generalizing num data with
  | zero => simp [payloadsFrom]
  | succ remaining inductionHypothesis =>
    rw [payloadsFrom, List.map_cons, List.flatten_cons, inductionHypothesis, Nat.succ_mul,
      Nat.add_comm, List.take_add]
    rfl

/-- Every payload has the same total, at most `fragLen` bytes, and the inner type only
where it is fragment 1. -/
theorem mem_payloadsFrom (remaining : Nat) (num : UInt16) (data : List UInt8) :
    ∀ payload ∈ payloadsFrom fragLen next count remaining num data,
      payload.totalFragments = count ∧ payload.content.length ≤ fragLen ∧
        payload.nextPayload = if payload.fragmentNumber = 1 then next else 0 := by
  induction remaining generalizing num data with
  | zero => simp [payloadsFrom]
  | succ remaining inductionHypothesis =>
    intro payload member
    rw [payloadsFrom, List.mem_cons] at member
    rcases member with rfl | later
    · exact ⟨rfl, by simp [fragmentPayload], rfl⟩
    · exact inductionHypothesis (num + 1) (data.drop fragLen) payload later

/-- Below the wrap of the counter the payloads are numbered from `num` on. -/
theorem numbers_payloadsFrom (remaining : Nat) (num : UInt16) (data : List UInt8)
    (fits : num.toNat + remaining < 65536) :
    (payloadsFrom fragLen next count remaining num data).map (·.fragmentNumber.toNat) =
      List.range' num.toNat remaining := by
  induction remaining generalizing num data with
  | zero => rfl
  | succ remaining inductionHypothesis =>
    have successor : (num + 1).toNat = num.toNat + 1 := by
      rw [UInt16.toNat_add, UInt16.toNat_one]
      omega
    rw [payloadsFrom, List.map_cons, inductionHypothesis (num + 1) (data.drop fragLen) (by omega),
      successor, List.range'_succ]
    rfl

end Payloads

/-- The count `fragment` computes is the ceiling of the length over the fragment size. -/
theorem div_add_mod_ne_zero {length fragLen : Nat} (positive : 0 < fragLen) :
    length / fragLen + (if length % fragLen ≠ 0 then 1 else 0) = (length + fragLen - 1) / fragLen := by
  have split := Nat.div_add_mod length fragLen
  have remainder := Nat.mod_lt length positive
  -- the remainder and the added `fragLen - 1` make one more block exactly when it is positive
  have shifted : length + fragLen - 1 = fragLen * (length / fragLen) + (length % fragLen + fragLen - 1) := by
    omega
  rw [shifted, Nat.mul_add_div positive]
  by_cases exact : length % fragLen = 0
  · have zero : (length % fragLen + fragLen - 1) / fragLen = 0 := Nat.div_eq_of_lt (by omega)
    rw [zero, if_neg (not_not.mpr exact)]
  · have one : (length % fragLen + fragLen - 1) / fragLen = 1 := by
      apply Nat.div_eq_of_lt_le <;> omega
    rw [one, if_pos exact]

/-- The scan of `add_fragment` finds a place for a number the array does not hold. -/
theorem scanFragments_isSome {num : UInt16} {fragments : List Fragment}
    (fresh : ∀ fragment ∈ fragments, fragment.num.toNat ≠ num.toNat) :
    ∃ insertAt, scanFragments num fragments = some insertAt := by
  induction fragments with
  | nil => exact ⟨none, rfl⟩
  | cons head rest inductionHypothesis =>
    rw [scanFragments, if_neg (fresh head List.mem_cons_self)]
    split_ifs
    · exact ⟨some 0, rfl⟩
    · obtain ⟨insertAt, scan⟩ := inductionHypothesis fun fragment member =>
        fresh fragment (List.mem_cons_of_mem head member)
      exact ⟨insertAt.map (· + 1), by rw [scan]; rfl⟩

/-! ## The payload chain -/

/-- Payloads none of which has a type keep it through the chaining and the filter of
`add_fragment_v2`. -/
theorem filter_chained {payloads : List MessagePayload} {type : UInt8}
    (others : ∀ payload ∈ payloads, payload.type ≠ type) (last : UInt8) :
    (chained payloads last).filter (·.type != type) = chained payloads last := by
  induction payloads with
  | nil => rfl
  | cons payload rest inductionHypothesis =>
    have kept : payload.type ≠ type := others payload List.mem_cons_self
    rw [chained, List.filter_cons_of_pos (by simpa using kept),
      inductionHypothesis fun other member => others other (List.mem_cons_of_mem _ member)]

/-- Pointing the last of chained payloads elsewhere chains them to that. -/
theorem setLastNext_chained (payloads : List MessagePayload) (last next : UInt8) :
    setLastNext (chained payloads last) next = chained payloads next := by
  induction payloads with
  | nil => rfl
  | cons payload rest inductionHypothesis =>
    cases rest with
    | nil => rfl
    | cons following rest =>
      rw [chained, setLastNext_cons _ (by simp [chained]), inductionHypothesis]
      rfl

/-! ## Reassembly in any order -/

/-- The fragments of one message as `fragment` sends them: one message ID, the numbers
`1, ..., count` in order with `count` as their total and within `MAX_FRAGMENTS`, the
inner type and the unprotected payloads, none of them a fragment payload, in fragment 1,
and contents that concatenate to the inner payloads. -/
structure SplitOf (messageId : UInt32) (unprotected : List MessagePayload) (next : UInt8) (data : List UInt8)
    (fragments : List SentFragment) : Prop where
  sameId : ∀ fragment ∈ fragments, fragment.messageId = messageId
  numbered : fragments.map (·.payload.fragmentNumber.toNat) = List.range' 1 fragments.length
  totals : ∀ fragment ∈ fragments, fragment.payload.totalFragments = UInt16.ofNat fragments.length
  few : fragments.length ≤ maxFragments
  firstNext : ∀ fragment ∈ fragments, fragment.payload.fragmentNumber = 1 →
    fragment.payload.nextPayload = next
  firstUnprotected : ∀ fragment ∈ fragments, fragment.payload.fragmentNumber = 1 →
    fragment.unprotected = unprotected
  unprotectedTypes : ∀ payload ∈ unprotected, payload.type ≠ plv2Fragment
  contents : (fragments.map (·.payload.content)).flatten = data

/-- A fragment as `add_fragment` stores it. -/
def storedFragment (fragment : SentFragment) : Fragment :=
  ⟨fragment.payload.fragmentNumber.toUInt8, fragment.payload.content⟩

/-- The fragments among `done` as the array holds them: in the order of their numbers. -/
def collectedArray (fragments done : List SentFragment) : List Fragment :=
  (fragments.filter (· ∈ done)).map storedFragment

/-- The payloads that fragment 1, among `done`, handed over. -/
def handedOver (done : List SentFragment) : List MessagePayload :=
  (done.filter fun fragment => fragment.payload.fragmentNumber = 1).flatMap
    fun fragment => fragment.message.payloads.filter (·.type != plv2Fragment)

/-- The state after the fragments `done` of one message arrived: the array holds
them, `last` is the total once one arrived, and the inner type is cached and the
unprotected payloads are handed over once fragment 1 arrived. -/
structure Collected (messageId : UInt32) (next : UInt8) (maxPacket : Nat) (fragments : List SentFragment)
    (done : List SentFragment) (state : PrivateMessage) : Prop where
  messageId_eq : state.messageId = messageId
  frag_eq : state.frag = some ⟨if done = [] then 0 else UInt16.ofNat fragments.length,
    storedLength (collectedArray fragments done), maxPacket⟩
  fragments_eq : state.fragments = (if done = [] then none else some (collectedArray fragments done))
  cached : ∀ fragment ∈ done, fragment.payload.fragmentNumber = 1 → state.firstPayload = next
  moved : state.payloads = handedOver done

/-- One more fragment hands over its payloads if it is fragment 1. -/
theorem Collected.movedPayloads_eq {messageId : UInt32} {next : UInt8} {maxPacket : Nat}
    {fragments done : List SentFragment} {state : PrivateMessage}
    (collected : Collected messageId next maxPacket fragments done state) (fragment : SentFragment) :
    movedPayloads state fragment.message fragment.payload = handedOver (done ++ [fragment]) := by
  rw [movedPayloads, collected.moved, handedOver, handedOver, List.filter_append, List.flatMap_append]
  by_cases isFirst : fragment.payload.fragmentNumber = 1
  · simp [isFirst]
  · simp [isFirst]

section Completion

variable {messageId : UInt32} {unprotected : List MessagePayload} {next : UInt8} {data : List UInt8}
  {fragments : List SentFragment} (split : SplitOf messageId unprotected next data fragments)

include split

theorem SplitOf.nodup : fragments.Nodup :=
  List.Nodup.of_map _ (split.numbered ▸ List.nodup_range')

/-- A fragment is known by its number. -/
theorem SplitOf.eq_of_number {fragment other : SentFragment} (member : fragment ∈ fragments)
    (otherMember : other ∈ fragments)
    (sameNumber : fragment.payload.fragmentNumber.toNat = other.payload.fragmentNumber.toNat) :
    fragment = other := by
  have injective := List.inj_on_of_nodup_map (split.numbered ▸ List.nodup_range')
  exact injective member otherMember sameNumber

theorem SplitOf.number_le {fragment : SentFragment} (member : fragment ∈ fragments) :
    1 ≤ fragment.payload.fragmentNumber.toNat ∧ fragment.payload.fragmentNumber.toNat ≤ maxFragments := by
  have numberMember : fragment.payload.fragmentNumber.toNat ∈ List.range' 1 fragments.length := by
    rw [← split.numbered]
    exact List.mem_map_of_mem member
  rw [List.mem_range'_1] at numberMember
  have := split.few
  omega

theorem SplitOf.stored_number {fragment : SentFragment} (member : fragment ∈ fragments) :
    (storedFragment fragment).num.toNat = fragment.payload.fragmentNumber.toNat := by
  have small := (split.number_le member).2
  unfold maxFragments at small
  rw [storedFragment, UInt16.toNat_toUInt8]
  exact Nat.mod_eq_of_lt (by omega)

/-- The fragments among `done` in the order they were sent are a permutation of `done`. -/
theorem SplitOf.filter_perm {done : List SentFragment} (distinct : done.Nodup)
    (sent : ∀ fragment ∈ done, fragment ∈ fragments) : (fragments.filter (· ∈ done)).Perm done := by
  rw [List.perm_ext_iff_of_nodup (split.nodup.filter _) distinct]
  intro fragment
  simp only [List.mem_filter, decide_eq_true_eq]
  exact ⟨fun both => both.2, fun member => ⟨sent fragment member, member⟩⟩

/-- The array's numbers increase, as the sent numbers do. -/
theorem SplitOf.collected_increasing (done : List SentFragment) :
    (numbers (collectedArray fragments done)).Pairwise (· < ·) := by
  have sentIncreasing : (fragments.map (·.payload.fragmentNumber.toNat)).Pairwise (· < ·) := by
    rw [split.numbered]
    exact List.pairwise_lt_range'
  have sublist : List.Sublist (fragments.filter (· ∈ done)) fragments := List.filter_sublist
  have filtered := (List.pairwise_map.mp sentIncreasing).sublist sublist
  rw [numbers, collectedArray, List.map_map, List.pairwise_map]
  apply filtered.imp_of_mem
  intro fragment other member otherMember before
  simp only [Function.comp, split.stored_number (List.mem_of_mem_filter member),
    split.stored_number (List.mem_of_mem_filter otherMember)]
  exact before

theorem SplitOf.collected_perm {done : List SentFragment} (distinct : done.Nodup)
    (sent : ∀ fragment ∈ done, fragment ∈ fragments) :
    (collectedArray fragments done).Perm (done.map storedFragment) :=
  (split.filter_perm distinct sent).map storedFragment

/-- The array after a new fragment arrived is the collected array with it. -/
theorem SplitOf.insert_collected {done : List SentFragment} {fragment : SentFragment}
    (distinct : (done ++ [fragment]).Nodup) (sent : ∀ other ∈ done ++ [fragment], other ∈ fragments)
    {insertAt : Option Nat}
    (scan : scanFragments fragment.payload.fragmentNumber (collectedArray fragments done) = some insertAt) :
    arrayInsert (collectedArray fragments done) insertAt (storedFragment fragment) =
      collectedArray fragments (done ++ [fragment]) := by
  -- both are permutations of what arrived, and both increase in number
  have inserted := List.pairwise_map.mp (numbers_arrayInsert_increasing scan
    (split.stored_number (sent fragment (by simp))) (split.collected_increasing done))
  have collected := List.pairwise_map.mp (split.collected_increasing (done ++ [fragment]))
  have before := split.collected_perm (List.nodup_append.mp distinct).1
    (fun other member => sent other (List.mem_append_left _ member))
  have after := split.collected_perm distinct sent
  have appended : (storedFragment fragment :: done.map storedFragment).Perm
      ((done ++ [fragment]).map storedFragment) := by
    rw [List.map_append, List.map_singleton]
    exact (List.perm_append_singleton _ _).symm
  have perm := ((arrayInsert_perm scan _).trans (before.cons _)).trans (appended.trans after.symm)
  exact List.Perm.eq_of_pairwise (fun _ _ _ _ lower higher => absurd (lower.trans higher) (Nat.lt_irrefl _))
    inserted collected perm

theorem SplitOf.storedLength_le (done : List SentFragment) :
    storedLength (collectedArray fragments done) ≤ data.length := by
  have sublist : List.Sublist (fragments.filter (· ∈ done)) fragments := List.filter_sublist
  have whole : data.length = ((fragments.map storedFragment).map fun fragment => fragment.data.length).sum := by
    rw [← split.contents, List.length_flatten, List.map_map, List.map_map]
    rfl
  rw [whole, storedLength, collectedArray]
  exact ((sublist.map storedFragment).map _).sum_le_sum fun _ _ => Nat.zero_le _

/-- One fragment of the message that has not arrived yet: `add_fragment_v2` stores it
with the others in the order of their numbers, and merges them once all arrived. -/
theorem SplitOf.addFragmentV2_collected {maxPacket : Nat} (fits : data.length ≤ maxPacket)
    {done : List SentFragment} {state : PrivateMessage}
    (collected : Collected messageId next maxPacket fragments done state) {fragment : SentFragment}
    (distinct : (done ++ [fragment]).Nodup) (sent : ∀ other ∈ done ++ [fragment], other ∈ fragments) :
    addFragmentV2 state fragment.message =
      if (done ++ [fragment]).length = fragments.length then
        ({ state with
            firstPayload := firstType (reassembledPayloads (movedPayloads state fragment.message fragment.payload)
              (cachedFirstPayload state fragment.payload)
              (mergeFragments (collectedArray fragments (done ++ [fragment]))))
            payloads := reassembledPayloads (movedPayloads state fragment.message fragment.payload)
              (cachedFirstPayload state fragment.payload)
              (mergeFragments (collectedArray fragments (done ++ [fragment])))
            frag := none
            fragments := none }, .success,
          some (cachedFirstPayload state fragment.payload,
            mergeFragments (collectedArray fragments (done ++ [fragment]))))
      else
        ({ state with
            firstPayload := cachedFirstPayload state fragment.payload
            payloads := movedPayloads state fragment.message fragment.payload
            frag := some ⟨UInt16.ofNat fragments.length,
              storedLength (collectedArray fragments (done ++ [fragment])), maxPacket⟩
            fragments := some (collectedArray fragments (done ++ [fragment])) }, .needMore, none) := by
  obtain ⟨stateId, hasFrag, hasFragments, -, -⟩ := collected
  have member : fragment ∈ fragments := sent fragment (by simp)
  have notDone : fragment ∉ done := fun isDone =>
    List.disjoint_of_nodup_append distinct isDone List.mem_cons_self
  have total := split.totals fragment member
  -- the array before the new fragment, whether or not one arrived before it
  have prepared : prepareFragments ⟨if done = [] then 0 else UInt16.ofNat fragments.length,
      storedLength (collectedArray fragments done), maxPacket⟩ state.fragments
      fragment.payload.totalFragments =
      (⟨UInt16.ofNat fragments.length, storedLength (collectedArray fragments done), maxPacket⟩,
        collectedArray fragments done) := by
    rw [hasFragments, total]
    by_cases empty : done = []
    · subst empty
      simp [prepareFragments, collectedArray, storedLength]
    · simp [prepareFragments, empty]
  have fresh : ∀ stored ∈ collectedArray fragments done,
      stored.num.toNat ≠ fragment.payload.fragmentNumber.toNat := by
    intro stored storedMember sameNumber
    obtain ⟨other, otherMember, rfl⟩ := List.mem_map.mp storedMember
    obtain ⟨otherSent, otherDone⟩ := List.mem_filter.mp otherMember
    rw [split.stored_number otherSent] at sameNumber
    exact notDone (split.eq_of_number otherSent member sameNumber ▸ of_decide_eq_true otherDone)
  obtain ⟨insertAt, scan⟩ := scanFragments_isSome fresh
  have grown := split.insert_collected distinct sent scan
  have fitsMax : storedLength (collectedArray fragments done) + fragment.payload.content.length ≤
      maxPacket := by
    have longer := split.storedLength_le (done ++ [fragment])
    rw [← grown, storedLength_arrayInsert scan] at longer
    simp only [storedFragment] at longer
    omega
  have arrived : (collectedArray fragments (done ++ [fragment])).length = (done ++ [fragment]).length :=
    (split.collected_perm distinct sent).length_eq.trans (List.length_map _)
  have totalNat : fragment.payload.totalFragments.toNat = fragments.length := by
    rw [total, UInt16.toNat_ofNat_of_lt' (lt_of_le_of_lt split.few (by decide))]
  have small : fragment.payload.totalFragments.toNat ≤ maxFragments := totalNat ▸ split.few
  simp only [addFragmentV2, hasFrag, SentFragment.message, stateId, split.sameId fragment member, ne_eq,
    not_true_eq_false, if_false, gt_iff_lt, not_lt.mpr small, prepared]
  simp only [addFragment, scan, gt_iff_lt, not_lt.mpr fitsMax, if_false]
  rw [show arrayInsert (collectedArray fragments done) insertAt
      ⟨fragment.payload.fragmentNumber.toUInt8, fragment.payload.content⟩ =
      collectedArray fragments (done ++ [fragment]) from grown]
  by_cases complete : (done ++ [fragment]).length = fragments.length
  · rw [if_pos complete]
    simp [finishFragment, arrived, complete, totalNat, cachedFirstPayload, movedPayloads, reassembledPayloads,
      stateId]
  · rw [if_neg complete]
    have grownLength : storedLength (collectedArray fragments done) + fragment.payload.content.length =
        storedLength (collectedArray fragments (done ++ [fragment])) := by
      rw [← grown, storedLength_arrayInsert scan, storedFragment, Nat.add_comm]
    have missing : ¬done.length + 1 = fragments.length := by simpa using complete
    simp [finishFragment, arrived, missing, totalNat, cachedFirstPayload, movedPayloads, grownLength, stateId]

/-- Before the last fragment the call gives `NEED_MORE` and the state has collected one
more fragment. -/
theorem SplitOf.collected_step {maxPacket : Nat} (fits : data.length ≤ maxPacket)
    {done : List SentFragment} {state : PrivateMessage}
    (collected : Collected messageId next maxPacket fragments done state) {fragment : SentFragment}
    (distinct : (done ++ [fragment]).Nodup) (sent : ∀ other ∈ done ++ [fragment], other ∈ fragments)
    (missing : (done ++ [fragment]).length ≠ fragments.length) :
    Collected messageId next maxPacket fragments (done ++ [fragment]) (addFragmentV2 state fragment.message).1 ∧
      (addFragmentV2 state fragment.message).2 = (.needMore, none) := by
  have cachedBefore := collected.cached
  have moved := collected.movedPayloads_eq fragment
  rw [split.addFragmentV2_collected fits collected distinct sent, if_neg missing]
  refine ⟨⟨collected.messageId_eq, by simp, by simp, ?_, moved⟩, rfl⟩
  -- the inner type is cached by fragment 1, whether it came now or before
  intro other member isFirst
  simp only [cachedFirstPayload]
  rcases List.mem_append.mp member with earlier | now
  · split_ifs with newIsFirst
    · exact split.firstNext fragment (sent fragment (by simp)) newIsFirst
    · exact cachedBefore other earlier isFirst
  · rw [List.mem_singleton.mp now] at isFirst
    rw [if_pos isFirst]
    exact split.firstNext fragment (sent fragment (by simp)) isFirst

/-- Fragment 1 is the one fragment numbered 1. -/
theorem SplitOf.filter_first (nonempty : fragments ≠ []) :
    ∃ first ∈ fragments, first.payload.fragmentNumber = 1 ∧
      (fragments.filter fun fragment => fragment.payload.fragmentNumber = 1) = [first] := by
  obtain ⟨first, rest, rfl⟩ := List.exists_cons_of_ne_nil nonempty
  have numbered := split.numbered
  rw [List.length_cons, List.range'_succ, List.map_cons, List.cons.injEq] at numbered
  have isFirst : first.payload.fragmentNumber = 1 := UInt16.toNat_inj.mp numbered.1
  -- the other numbers run from 2 on
  have later : ∀ other ∈ rest, other.payload.fragmentNumber ≠ 1 := by
    intro other member same
    have numberIn : other.payload.fragmentNumber.toNat ∈ List.range' (1 + 1) rest.length := by
      rw [← numbered.2]
      exact List.mem_map_of_mem member
    rw [same, UInt16.toNat_one, List.mem_range'] at numberIn
    obtain ⟨i, -, impossible⟩ := numberIn
    omega
  refine ⟨first, List.mem_cons_self, isFirst, ?_⟩
  rw [List.filter_cons_of_pos (by simpa using isFirst), List.filter_eq_nil_iff.mpr (by simpa using later)]

/-- Once all fragments arrived, what fragment 1 handed over are the unprotected payloads,
chained up to the fragment payload. -/
theorem SplitOf.handedOver_all {done : List SentFragment} (nonempty : done ≠ []) (received : done.Perm fragments) :
    handedOver done = chained unprotected plv2Fragment := by
  obtain ⟨first, member, isFirst, only⟩ :=
    split.filter_first fun empty => nonempty (List.Perm.eq_nil (empty ▸ received))
  have filtered : (done.filter fun fragment => fragment.payload.fragmentNumber = 1) = [first] :=
    List.perm_singleton.mp (only ▸ received.filter _)
  rw [handedOver, filtered, List.flatMap_singleton, SentFragment.message, List.filter_append,
    split.firstUnprotected first member isFirst, filter_chained split.unprotectedTypes]
  -- the fragment payload itself stays behind
  simp

/-- With all fragments arrived the fragments numbered `1, ..., count` are merged into
the inner payloads, under the type fragment 1 carried, and the reassembled message holds
the payload list of the message that was split. -/
theorem SplitOf.collected_last {maxPacket : Nat} (fits : data.length ≤ maxPacket)
    {done : List SentFragment} {state : PrivateMessage}
    (collected : Collected messageId next maxPacket fragments done state) {fragment : SentFragment}
    (received : (done ++ [fragment]).Perm fragments) :
    (addFragmentV2 state fragment.message).2 = (.success, some (next, data)) ∧
      (addFragmentV2 state fragment.message).1.payloads = messageChain unprotected next data ∧
      (addFragmentV2 state fragment.message).1.firstPayload = firstType (messageChain unprotected next data) := by
  have distinct := received.nodup_iff.mpr split.nodup
  have sent : ∀ other ∈ done ++ [fragment], other ∈ fragments := fun other member =>
    received.subset member
  have complete : (done ++ [fragment]).length = fragments.length := received.length_eq
  have all : collectedArray fragments (done ++ [fragment]) = fragments.map storedFragment := by
    rw [collectedArray, List.filter_eq_self.mpr]
    intro other member
    exact decide_eq_true (received.symm.subset member)
  have merged : mergeFragments (fragments.map storedFragment) = data := by
    rw [mergeFragments, List.map_map, ← split.contents]
    rfl
  -- fragment 1 is among those that arrived
  obtain ⟨first, firstMember, firstNumber⟩ : ∃ first ∈ fragments, first.payload.fragmentNumber.toNat = 1 := by
    have one : 1 ∈ fragments.map (·.payload.fragmentNumber.toNat) := by
      rw [split.numbered, List.mem_range'_1]
      have := fragments.length_pos_of_mem (sent fragment (by simp))
      omega
    simpa using one
  have isFirst : first.payload.fragmentNumber = 1 := UInt16.toNat_inj.mp firstNumber
  have cached : cachedFirstPayload state fragment.payload = next := by
    rcases List.mem_append.mp (received.symm.subset firstMember) with earlier | now
    · unfold cachedFirstPayload
      split_ifs with newIsFirst
      · exact split.firstNext fragment (sent fragment (by simp)) newIsFirst
      · exact collected.cached first earlier isFirst
    · rw [List.mem_singleton.mp now] at isFirst
      rw [cachedFirstPayload, if_pos isFirst]
      exact split.firstNext fragment (sent fragment (by simp)) isFirst
  have reassembled : reassembledPayloads (movedPayloads state fragment.message fragment.payload) next data =
      messageChain unprotected next data := by
    rw [collected.movedPayloads_eq, split.handedOver_all (by simp) received, reassembledPayloads, setLastNext_chained,
      messageChain]
  rw [split.addFragmentV2_collected fits collected distinct sent, if_pos complete, all, merged, cached, reassembled]
  exact ⟨rfl, rfl, rfl⟩

/-- The run lemma: from a state that collected `done`, the other fragments in any order
give `NEED_MORE` until the last, which gives `SUCCESS` with the inner payloads. -/
theorem SplitOf.runSteps_collected {maxPacket : Nat} (fits : data.length ≤ maxPacket)
    (last : SentFragment) :
    ∀ (rest done : List SentFragment) (state : PrivateMessage),
      Collected messageId next maxPacket fragments done state →
      (done ++ rest ++ [last]).Perm fragments →
      (runSteps addFragmentV2 state ((rest ++ [last]).map SentFragment.message)).2 =
          List.replicate rest.length (.needMore, none) ++ [(.success, some (next, data))] ∧
        (runSteps addFragmentV2 state ((rest ++ [last]).map SentFragment.message)).1.payloads =
          messageChain unprotected next data ∧
        (runSteps addFragmentV2 state ((rest ++ [last]).map SentFragment.message)).1.firstPayload =
          firstType (messageChain unprotected next data) := by
  intro rest
  -- induction on the fragments still to come, the collected ones growing by one each step
  induction rest with
  | nil =>
    intro done state collected received
    obtain ⟨output, payloads, firstPayload⟩ := split.collected_last fits collected (by simpa using received)
    simp only [List.nil_append, List.map_singleton, runSteps, List.length_nil, List.replicate_zero]
    exact ⟨by rw [output], payloads, firstPayload⟩
  | cons fragment rest inductionHypothesis =>
    intro done state collected received
    have distinct := received.nodup_iff.mpr split.nodup
    have shape : done ++ fragment :: rest ++ [last] = (done ++ [fragment]) ++ (rest ++ [last]) := by simp
    have stepDistinct : (done ++ [fragment]).Nodup :=
      List.Nodup.sublist (List.sublist_append_left _ _) (shape ▸ distinct)
    have sent : ∀ other ∈ done ++ [fragment], other ∈ fragments := fun other member =>
      received.subset (by simp only [List.mem_append, List.mem_cons] at member ⊢; tauto)
    have missing : (done ++ [fragment]).length ≠ fragments.length := by
      rw [← received.length_eq]
      simp
    obtain ⟨stepCollected, stepOutput⟩ := split.collected_step fits collected stepDistinct sent missing
    have rest := inductionHypothesis (done ++ [fragment]) _ stepCollected (by simpa using received)
    simp only [List.cons_append, List.map_cons, runSteps, stepOutput, rest, List.length_cons,
      List.replicate_succ, List.cons_append, and_self]

/-- Fragments of one message, received in any order, starting from the defragmentation
message the first of them creates: every call but the last gives `NEED_MORE`, and the
last gives `SUCCESS` with the type of the first inner payload and the inner payloads, and
leaves the payload list of the message that was split, its first type in the header. -/
theorem SplitOf.reassembles {maxPacket : Nat} (fits : data.length ≤ maxPacket) {first : SentFragment}
    {rest : List SentFragment} (received : (first :: rest).Perm fragments) :
    ∃ state, messageCreateDefrag first.message maxPacket = some state ∧
      (runSteps addFragmentV2 state ((first :: rest).map SentFragment.message)).2 =
          List.replicate rest.length (.needMore, none) ++ [(.success, some (next, data))] ∧
        (runSteps addFragmentV2 state ((first :: rest).map SentFragment.message)).1.payloads =
          messageChain unprotected next data ∧
        (runSteps addFragmentV2 state ((first :: rest).map SentFragment.message)).1.firstPayload =
          firstType (messageChain unprotected next data) := by
  have initial : Collected messageId next maxPacket fragments []
      ⟨first.messageId, plNone, [], some ⟨0, 0, maxPacket⟩, none⟩ :=
    ⟨split.sameId first (received.subset List.mem_cons_self), by simp [collectedArray, storedLength],
      rfl, by simp, rfl⟩
  obtain ⟨init, last, shape⟩ := List.eq_nil_or_concat' (first :: rest) |>.resolve_left (List.cons_ne_nil _ _)
  refine ⟨_, rfl, ?_⟩
  have lengths : init.length = rest.length := by
    have := congrArg List.length shape
    simp at this
    omega
  rw [shape, ← lengths]
  exact split.runSteps_collected fits last init [] _ initial (by rw [List.nil_append, ← shape]; exact received)

end Completion

/-! ## What `fragment` sends -/

theorem le_ceil_mul (length : Nat) {size : Nat} (positive : 0 < size) :
    length ≤ (length + size - 1) / size * size := by
  have split := Nat.div_add_mod (length + size - 1) size
  have remainder := Nat.mod_lt (length + size - 1) positive
  rw [Nat.mul_comm]
  omega

/-- A message that must be fragmented, into fewer fragments than the counter wraps at, is
sent as the payloads the loop builds from fragment 1 on. -/
theorem messageFragment_eq {context : FragmentContext} {fragLen len : Nat} (messageId : UInt32)
    (unprotected : List MessagePayload) (next : UInt8) (data : List UInt8)
    (mustFragment : datagramFragLen context fragLen < len)
    (below : (data.length + fragmentSize context fragLen - 1) / fragmentSize context fragLen < 65535) :
    messageFragment context fragLen len messageId unprotected next data =
      .fragments ((payloadsFrom (fragmentSize context fragLen) next
        (UInt16.ofNat ((data.length + fragmentSize context fragLen - 1) / fragmentSize context fragLen))
        ((data.length + fragmentSize context fragLen - 1) / fragmentSize context fragLen) 1 data).map
          (createFragment messageId unprotected)) := by
  have positive : 0 < fragmentSize context fragLen := one_le_contentFragLen _ _
  have countNat : (UInt16.ofNat ((data.length + fragmentSize context fragLen - 1) /
      fragmentSize context fragLen)).toNat =
      (data.length + fragmentSize context fragLen - 1) / fragmentSize context fragLen :=
    UInt16.toNat_ofNat_of_lt' (lt_trans below (by decide))
  have counted : fragmentCount data.length (fragmentSize context fragLen) =
      UInt16.ofNat ((data.length + fragmentSize context fragLen - 1) / fragmentSize context fragLen) := by
    rw [fragmentCount, div_add_mod_ne_zero positive]
  unfold messageFragment
  rw [if_neg (Nat.not_le.mpr mustFragment)]
  simp only
  have belowNat : (UInt16.ofNat ((data.length + fragmentSize context fragLen - 1) /
      fragmentSize context fragLen)).toNat < 65535 := by
    rw [countNat]
    exact below
  rw [show contentFragLen context (datagramFragLen context fragLen) = fragmentSize context fragLen from rfl,
    counted, fragmentLoop_eq _ next belowNat 65536 1 data (by decide)
      (by simp only [UInt16.toNat_one, countNat]; omega) (by simp only [UInt16.toNat_one, countNat]; omega),
    countNat]
  rfl

/-- The payloads of the loop with the numbers, totals, inner type and contents
reassembly needs. -/
theorem splitOf_payloadsFrom (messageId : UInt32) {unprotected : List MessagePayload}
    (unprotectedTypes : ∀ payload ∈ unprotected, payload.type ≠ plv2Fragment) (next : UInt8)
    (data : List UInt8) {size count : Nat} (positive : 0 < size) (isCount : (data.length + size - 1) / size = count)
    (few : count ≤ maxFragments) :
    SplitOf messageId unprotected next data
      ((payloadsFrom size next (UInt16.ofNat count) count 1 data).map (createFragment messageId unprotected)) := by
  have lengthIs : ((payloadsFrom size next (UInt16.ofNat count) count 1 data).map
      (createFragment messageId unprotected)).length = count := by
    rw [List.length_map, length_payloadsFrom]
  have shape := mem_payloadsFrom size next (UInt16.ofNat count) count 1 data
  refine ⟨?_, ?_, ?_, by rw [lengthIs]; exact few, ?_, ?_, unprotectedTypes, ?_⟩
  · intro fragment member
    obtain ⟨payload, -, rfl⟩ := List.mem_map.mp member
    rfl
  · rw [lengthIs, List.map_map]
    exact numbers_payloadsFrom size next _ count 1 data (by unfold maxFragments at few; simp; omega)
  · intro fragment member
    obtain ⟨payload, payloadMember, rfl⟩ := List.mem_map.mp member
    rw [lengthIs]
    exact (shape payload payloadMember).1
  · intro fragment member isFirst
    obtain ⟨payload, payloadMember, rfl⟩ := List.mem_map.mp member
    have inner := (shape payload payloadMember).2.2
    rw [if_pos (show payload.fragmentNumber = 1 from isFirst)] at inner
    exact inner
  · intro fragment member isFirst
    obtain ⟨payload, -, rfl⟩ := List.mem_map.mp member
    exact if_pos isFirst
  · rw [List.map_map]
    have contents := flatten_payloadsFrom size next (UInt16.ofNat count) count 1 data
    rw [List.take_of_length_le (isCount ▸ le_ceil_mul data.length positive)] at contents
    exact contents

/-- A fragment numbered within its total whose inner type is cleared after fragment 1
passes `frag_verify` unchanged. -/
theorem fragVerify_eq_of_numbered {payload : EncryptedFragmentPayload}
    (positive : 1 ≤ payload.fragmentNumber.toNat)
    (within : payload.fragmentNumber.toNat ≤ payload.totalFragments.toNat)
    (cleared : payload.fragmentNumber ≠ 1 → payload.nextPayload = 0) :
    fragVerify payload = (.success, payload) := by
  have valid : ¬(payload.fragmentNumber = 0 ∨ payload.totalFragments = 0 ∨
      payload.fragmentNumber > payload.totalFragments) := by
    simp only [not_or, gt_iff_lt, UInt16.lt_iff_toNat_lt, not_lt, ← UInt16.toNat_inj, UInt16.toNat_zero]
    omega
  have kept : ¬(payload.fragmentNumber > 1 ∧ payload.nextPayload ≠ 0) := by
    rintro ⟨later, set⟩
    exact set (cleared fun isFirst => by rw [isFirst] at later; exact absurd later (by decide))
  rw [fragVerify, if_neg valid, if_neg kept]

/-- A message whose inner payloads must be fragmented into at most `MAX_FRAGMENTS`
fragments and fit the peer's `max_packet` is sent as fragments numbered `1, ..., count`,
`count` the ceiling of its length over a fragment size of at least 1, each within that
size and accepted by `frag_verify`, with the inner type and the unprotected payloads in
fragment 1 only, and the contents in order. Received in any order, they give
`NEED_MORE` until the last, which reassembles the inner payloads under that type and
leaves the payload list of the message, with its first type in the header. -/
theorem messageFragment_reassembles (context : FragmentContext) (fragLen len : Nat)
    (messageId : UInt32) (unprotected : List MessagePayload) (next : UInt8) (data : List UInt8) (maxPacket : Nat)
    (unprotectedTypes : ∀ payload ∈ unprotected, payload.type ≠ plv2Fragment)
    (mustFragment : datagramFragLen context fragLen < len)
    (few : (data.length + fragmentSize context fragLen - 1) / fragmentSize context fragLen ≤ maxFragments)
    (fits : data.length ≤ maxPacket) :
    ∃ fragments, messageFragment context fragLen len messageId unprotected next data = .fragments fragments ∧
      1 ≤ fragmentSize context fragLen ∧
      fragments.length = (data.length + fragmentSize context fragLen - 1) / fragmentSize context fragLen ∧
      fragments.map (·.payload.fragmentNumber.toNat) = List.range' 1 fragments.length ∧
      (∀ fragment ∈ fragments, fragment.payload.content.length ≤ fragmentSize context fragLen ∧
        fragVerify fragment.payload = (.success, fragment.payload) ∧
        fragment.payload.nextPayload = (if fragment.payload.fragmentNumber = 1 then next else 0) ∧
        fragment.unprotected = (if fragment.payload.fragmentNumber = 1 then unprotected else [])) ∧
      (fragments.map (·.payload.content)).flatten = data ∧
      ∀ first rest, (first :: rest).Perm fragments →
        ∃ state, messageCreateDefrag first.message maxPacket = some state ∧
          (runSteps addFragmentV2 state ((first :: rest).map SentFragment.message)).2 =
              List.replicate rest.length (.needMore, none) ++ [(.success, some (next, data))] ∧
            (runSteps addFragmentV2 state ((first :: rest).map SentFragment.message)).1.payloads =
              messageChain unprotected next data ∧
            (runSteps addFragmentV2 state ((first :: rest).map SentFragment.message)).1.firstPayload =
              firstType (messageChain unprotected next data) := by
  have positive : 0 < fragmentSize context fragLen := one_le_contentFragLen _ _
  generalize countIs : (data.length + fragmentSize context fragLen - 1) / fragmentSize context fragLen = count
    at few ⊢
  have below : count < 65535 := by
    unfold maxFragments at few
    omega
  have sent := messageFragment_eq messageId unprotected next data mustFragment (by rw [countIs]; exact below)
  rw [countIs] at sent
  have split := splitOf_payloadsFrom messageId unprotectedTypes next data positive countIs few
  have shape := mem_payloadsFrom (fragmentSize context fragLen) next (UInt16.ofNat count) count 1 data
  have numbers := numbers_payloadsFrom (fragmentSize context fragLen) next (UInt16.ofNat count) count 1 data
    (by unfold maxFragments at few; simp; omega)
  rw [UInt16.toNat_one] at numbers
  refine ⟨_, sent, positive, by rw [List.length_map, length_payloadsFrom], split.numbered, ?_, split.contents,
    fun first rest received => split.reassembles fits received⟩
  intro fragment member
  obtain ⟨payload, payloadMember, rfl⟩ := List.mem_map.mp member
  obtain ⟨total, short, inner⟩ := shape payload payloadMember
  -- the number lies in `1, ..., count` and the total is `count`
  have numberIn : payload.fragmentNumber.toNat ∈ List.range' 1 count := by
    rw [← numbers]
    exact List.mem_map_of_mem payloadMember
  rw [List.mem_range'_1] at numberIn
  have totalNat : payload.totalFragments.toNat = count := by
    rw [total]
    exact UInt16.toNat_ofNat_of_lt' (lt_trans below (by decide))
  refine ⟨short, fragVerify_eq_of_numbered (show 1 ≤ payload.fragmentNumber.toNat by omega)
    (show payload.fragmentNumber.toNat ≤ payload.totalFragments.toNat by omega) ?_, inner, rfl⟩
  intro notFirst
  show payload.nextPayload = 0
  rw [inner, if_neg (show ¬payload.fragmentNumber = 1 from notFirst)]

/-- IPv4 between NAT-T ports, an AEAD with 16-byte IV, ICV and block: a configured
size of 110 leaves one byte per fragment. -/
def natContext : FragmentContext := ⟨true, 4500, 4500, 16, 16, 16⟩

/-- A `NOTIFY` payload sent unprotected. -/
def unprotectedNotify : MessagePayload := ⟨41, 0, [0, 0, 0x40, 0x2e]⟩

theorem messageFragment_reassembles_three_bytes :
    (∀ payload ∈ [unprotectedNotify], payload.type ≠ plv2Fragment) ∧
      datagramFragLen natContext 110 < 100 ∧
      ([1, 2, 3].length + fragmentSize natContext 110 - 1) / fragmentSize natContext 110 ≤ maxFragments ∧
      [1, 2, 3].length ≤ 10000 ∧
      ∃ fragments, messageFragment natContext 110 100 7 [unprotectedNotify] 35 [1, 2, 3] = .fragments fragments ∧
        1 ≤ fragmentSize natContext 110 ∧
        fragments.length = ([1, 2, 3].length + fragmentSize natContext 110 - 1) / fragmentSize natContext 110 ∧
        fragments.map (·.payload.fragmentNumber.toNat) = List.range' 1 fragments.length ∧
        (∀ fragment ∈ fragments, fragment.payload.content.length ≤ fragmentSize natContext 110 ∧
          fragVerify fragment.payload = (.success, fragment.payload) ∧
          fragment.payload.nextPayload = (if fragment.payload.fragmentNumber = 1 then 35 else 0) ∧
          fragment.unprotected = (if fragment.payload.fragmentNumber = 1 then [unprotectedNotify] else [])) ∧
        (fragments.map (·.payload.content)).flatten = [1, 2, 3] ∧
        ∀ first rest, (first :: rest).Perm fragments →
          ∃ state, messageCreateDefrag first.message 10000 = some state ∧
            (runSteps addFragmentV2 state ((first :: rest).map SentFragment.message)).2 =
                List.replicate rest.length (.needMore, none) ++ [(.success, some (35, [1, 2, 3]))] ∧
              (runSteps addFragmentV2 state ((first :: rest).map SentFragment.message)).1.payloads =
                messageChain [unprotectedNotify] 35 [1, 2, 3] ∧
              (runSteps addFragmentV2 state ((first :: rest).map SentFragment.message)).1.firstPayload =
                firstType (messageChain [unprotectedNotify] 35 [1, 2, 3]) :=
  ⟨by decide, by decide, by decide, by decide,
    messageFragment_reassembles natContext 110 100 7 [unprotectedNotify] 35 [1, 2, 3] 10000 (by decide) (by decide)
      (by decide) (by decide)⟩

/-- The same three fragments at a peer whose `max_packet` is 2: the third byte exceeds it
and reassembly fails. -/
theorem messageFragment_exceeds_maxPacket :
    ∃ fragments, messageFragment natContext 110 100 7 [unprotectedNotify] 35 [1, 2, 3] = .fragments fragments ∧
      ∃ first rest, first :: rest = fragments ∧ ∃ state,
        messageCreateDefrag first.message 2 = some state ∧
        (runSteps addFragmentV2 state ((first :: rest).map SentFragment.message)).2 =
          [(.needMore, none), (.needMore, none), (.failed, none)] :=
  ⟨_, rfl, _, _, rfl, _, rfl, by decide⟩

end StrongSwan.Libcharon.Encoding.Message.Fragment
