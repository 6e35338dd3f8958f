import StrongSwan.Foundations.Runs
import StrongSwan.Foundations.SortedKeys
import StrongSwan.Libstrongswan.Utils.Status

/-!
Contract: reassembly of IKEv2 fragments (RFC 7383) in `message.c`.

A defragmentation message is created from the first fragment that arrives
(`message_create_defrag`). Each later fragment of the same message ID goes
through `add_fragment_v2`: a larger total than the stored `last` resets the
state, `add_fragment` drops duplicates by number and insertion-sorts the new
fragment into the array, and the reassembly completes when the array holds as
many fragments as the total of the fragment just received. Fragment 1 hands its
unprotected payloads over to the defragmentation message; the completed message
appends an encrypted payload created from the merged data, points the last
unprotected payload at it, and names its first payload in the header.

Owns: `frag_verify`, `add_fragment`, `merge_fragments`, `add_fragment_v2` with
every status it returns and the payload list it builds, the length bound over
every run, the reassembly of runs whose fragments all carry one total, and the
completion of a run that mixes two totals with fragments missing.

Does not own: the packet addresses `merge_fragments` copies, and the parsing of
the payloads a fragment arrives with.
-/

namespace StrongSwan.Libcharon.Encoding.Message.Defrag

open StrongSwan.Foundations
open StrongSwan.Libstrongswan.Utils

/-- `MAX_FRAGMENTS`. -/
def maxFragments : Nat := 255

/-- `PL_NONE`. -/
def plNone : UInt8 := 0

/-- `PLV2_ENCRYPTED`. -/
def plv2Encrypted : UInt8 := 46

/-- `PLV2_FRAGMENT`. -/
def plv2Fragment : UInt8 := 53

/-- A payload of a message's list as reassembly moves it: its type, the type of the payload
after it, and its body. -/
structure MessagePayload where
  type : UInt8
  nextType : UInt8
  body : List UInt8
deriving Repr, DecidableEq

/-- The fields of a `PLV2_FRAGMENT` payload that reassembly reads. -/
structure EncryptedFragmentPayload where
  fragmentNumber : UInt16
  totalFragments : UInt16
  nextPayload : UInt8
  content : List UInt8
deriving Repr, DecidableEq

/-- `frag_verify`: a fragment number between one and the total, and the next
payload of every fragment but the first cleared. -/
def fragVerify (payload : EncryptedFragmentPayload) : Status × EncryptedFragmentPayload :=
  if payload.fragmentNumber = 0 ∨ payload.totalFragments = 0 ∨
      payload.fragmentNumber > payload.totalFragments then
    (.failed, payload)
  else if payload.fragmentNumber > 1 ∧ payload.nextPayload ≠ 0 then
    (.success, { payload with nextPayload := 0 })
  else (.success, payload)

/-- A parsed IKEv2 message as `add_fragment_v2` reads it: its ID, its payloads in
order, and its first `PLV2_FRAGMENT` payload. -/
structure FragmentMessage where
  messageId : UInt32
  payloads : List MessagePayload
  fragment : Option EncryptedFragmentPayload
deriving Repr, DecidableEq

/-- `fragment_t`: the number is stored in a `uint8_t`. -/
structure Fragment where
  num : UInt8
  data : List UInt8
deriving Repr, DecidableEq

/-- `fragment_data_t`. -/
structure FragmentData where
  last : UInt16
  len : Nat
  maxPacket : Nat
deriving Repr, DecidableEq

/-- The fields of `private_message_t` that reassembly reads and writes;
`fragments` is `none` for the `NULL` array and `frag` for the freed data. -/
structure PrivateMessage where
  messageId : UInt32
  firstPayload : UInt8
  payloads : List MessagePayload
  frag : Option FragmentData
  fragments : Option (List Fragment)
deriving Repr, DecidableEq

/-- `message_create_defrag` for an IKEv2 fragment, with the configured
`max_packet`: `clone_message` copies the header fields but no payloads, and the
message it creates names no first payload. -/
def messageCreateDefrag (fragment : FragmentMessage) (maxPacket : Nat) : Option PrivateMessage :=
  match fragment.fragment with
  | none => none
  | some _ => some ⟨fragment.messageId, plNone, [], some ⟨0, 0, maxPacket⟩, none⟩

/-- `reset_defrag`. -/
def resetDefrag (state : PrivateMessage) : PrivateMessage :=
  { state with
    fragments := none
    frag := state.frag.map fun frag => { frag with last := 0, len := 0 } }

/-- The loop of `add_fragment`: `none` for a duplicate number, else the
insertion index, `none` inside for the end of the array. -/
def scanFragments (num : UInt16) : List Fragment → Option (Option Nat)
  | [] => some none
  | fragment :: rest =>
      if fragment.num.toNat = num.toNat then none
      else if fragment.num.toNat > num.toNat then some (some 0)
      else (scanFragments num rest).map (Option.map (· + 1))

/-- `array_insert`, where index `-1` (`ARRAY_TAIL`) appends. -/
def arrayInsert (fragments : List Fragment) (insertAt : Option Nat) (fragment : Fragment) :
    List Fragment :=
  match insertAt with
  | none => fragments ++ [fragment]
  | some index => fragments.insertIdx index fragment

/-- `add_fragment`: the status, the fragment data, and the array (`none` once
the state was reset). -/
def addFragment (frag : FragmentData) (fragments : List Fragment) (num : UInt16)
    (data : List UInt8) : Status × FragmentData × Option (List Fragment) :=
  match scanFragments num fragments with
  | none => (.needMore, frag, some fragments)
  | some insertAt =>
      if frag.len + data.length > frag.maxPacket then
        (.failed, { frag with last := 0, len := 0 }, none)
      else
        (.success, { frag with len := frag.len + data.length },
          some (arrayInsert fragments insertAt ⟨num.toUInt8, data⟩))

/-- The data `merge_fragments` writes, in array order. -/
def mergeFragments (fragments : List Fragment) : List UInt8 :=
  (fragments.map Fragment.data).flatten

/-- `get_last` and `set_next_type` on a payload list: the last payload, if any, now names
`next`. -/
def setLastNext (payloads : List MessagePayload) (next : UInt8) : List MessagePayload :=
  match payloads.getLast? with
  | none => payloads
  | some last => payloads.dropLast ++ [{ last with nextType := next }]

theorem setLastNext_cons (payload : MessagePayload) {rest : List MessagePayload} (nonempty : rest ≠ [])
    (next : UInt8) : setLastNext (payload :: rest) next = payload :: setLastNext rest next := by
  have lastEq := List.getLast?_eq_some_getLast nonempty
  have consLast : (payload :: rest).getLast? = some (rest.getLast nonempty) := by
    rw [List.getLast?_cons, lastEq]
    rfl
  simp only [setLastNext, consLast, lastEq, List.dropLast_cons_of_ne_nil nonempty, List.cons_append]

/-- `get_first` and `get_type` on a payload list. -/
def firstType (payloads : List MessagePayload) : UInt8 :=
  match payloads.head? with
  | none => plNone
  | some first => first.type

/-- The reset of `add_fragment_v2` before the fragment is added: a state
without array, or a larger total, starts over with `last` set to the total. -/
def prepareFragments (frag : FragmentData) (fragments : Option (List Fragment))
    (total : UInt16) : FragmentData × List Fragment :=
  match fragments with
  | some fragments =>
      if total > frag.last then ({ frag with last := total, len := 0 }, [])
      else (frag, fragments)
  | none => ({ frag with last := total, len := 0 }, [])

/-- The end of `add_fragment_v2` once `add_fragment` returned: the first fragment's next
payload type is cached and its payloads other than fragments move over, and the fragments
are merged when the array holds as many fragments as the total of this fragment. -/
def finishFragment (state : PrivateMessage) (message : FragmentMessage) (payload : EncryptedFragmentPayload) :
    Status × FragmentData × Option (List Fragment) → PrivateMessage × Status × Option (UInt8 × List UInt8)
  | (.success, frag, some fragments) =>
      let firstPayload :=
        if payload.fragmentNumber = 1 then payload.nextPayload else state.firstPayload
      let payloads :=
        if payload.fragmentNumber = 1 then state.payloads ++ message.payloads.filter (·.type != plv2Fragment)
        else state.payloads
      if fragments.length ≠ payload.totalFragments.toNat then
        ({ state with firstPayload, payloads, frag := some frag, fragments := some fragments }, .needMore, none)
      else
        -- `encrypted_payload_create_from_plain` under the cached type, appended after the
        -- last unprotected payload is pointed at it
        let payloads := setLastNext payloads plv2Encrypted ++
          [⟨plv2Encrypted, firstPayload, mergeFragments fragments⟩]
        ({ state with firstPayload := firstType payloads, payloads, frag := none, fragments := none }, .success,
          some (firstPayload, mergeFragments fragments))
  | (status, frag, fragments) => ({ state with frag := some frag, fragments }, status, none)

/-- `add_fragment_v2`: the next state, the status, and on `SUCCESS` the next
payload type and the content of the encrypted payload created from the merged
data. -/
def addFragmentV2 (state : PrivateMessage) (message : FragmentMessage) :
    PrivateMessage × Status × Option (UInt8 × List UInt8) :=
  match state.frag, message.fragment with
  | none, _ => (state, .invalidState, none)
  | some _, none => (state, .invalidArg, none)
  | some frag, some payload =>
      if state.messageId ≠ message.messageId then (state, .invalidArg, none)
      else if payload.totalFragments.toNat > maxFragments then (resetDefrag state, .failed, none)
      else
        let prepared := prepareFragments frag state.fragments payload.totalFragments
        finishFragment state message payload
          (addFragment prepared.1 prepared.2 payload.fragmentNumber payload.content)

/-! ## Insertion into the array -/

/-- The fragment numbers of an array, in array order. -/
def numbers (fragments : List Fragment) : List Nat :=
  fragments.map fun fragment => fragment.num.toNat

theorem arrayInsert_cons_succ (head : Fragment) (rest : List Fragment) (insertAt : Option Nat)
    (fragment : Fragment) :
    arrayInsert (head :: rest) (insertAt.map (· + 1)) fragment =
      head :: arrayInsert rest insertAt fragment := by
  cases insertAt <;> rfl

/-- Wherever the scan of `add_fragment` inserts, the array gains exactly the
new fragment. -/
theorem arrayInsert_perm {num : UInt16} {fragments : List Fragment} {insertAt : Option Nat}
    (scan : scanFragments num fragments = some insertAt) (fragment : Fragment) :
    (arrayInsert fragments insertAt fragment).Perm (fragment :: fragments) := by
  induction fragments generalizing insertAt with
  | nil =>
      cases scan
      rfl
  | cons head rest inductionHypothesis =>
      unfold scanFragments at scan
      split_ifs at scan with same larger
      · cases scan
        rfl
      · obtain ⟨restAt, restScan, shifted⟩ := Option.map_eq_some_iff.mp scan
        subst shifted
        rw [arrayInsert_cons_succ]
        exact ((inductionHypothesis restScan).cons head).trans (List.Perm.swap fragment head rest)

/-- Inserting a fragment whose stored number is the scanned number keeps the
numbers strictly increasing. -/
theorem numbers_arrayInsert_increasing {num : UInt16} {fragments : List Fragment}
    {insertAt : Option Nat} (scan : scanFragments num fragments = some insertAt)
    {fragment : Fragment} (sameNumber : fragment.num.toNat = num.toNat)
    (increasing : (numbers fragments).Pairwise (· < ·)) :
    (numbers (arrayInsert fragments insertAt fragment)).Pairwise (· < ·) := by
  induction fragments generalizing insertAt with
  | nil =>
      cases scan
      simp [arrayInsert, numbers]
  | cons head rest inductionHypothesis =>
      simp only [numbers, List.map_cons, List.pairwise_cons, List.mem_map] at increasing
      unfold scanFragments at scan
      split_ifs at scan with same larger
      · cases scan
        simp only [arrayInsert, List.insertIdx_zero, numbers, List.map_cons, List.pairwise_cons,
          List.mem_cons, List.mem_map]
        refine ⟨?_, increasing.1, increasing.2⟩
        rintro _ (isHead | ⟨other, member, rfl⟩)
        · omega
        · have := increasing.1 _ ⟨other, member, rfl⟩
          omega
      · obtain ⟨restAt, restScan, shifted⟩ := Option.map_eq_some_iff.mp scan
        subst shifted
        rw [arrayInsert_cons_succ, numbers, List.map_cons, List.pairwise_cons]
        refine ⟨?_, inductionHypothesis restScan increasing.2⟩
        intro key member
        obtain ⟨inserted, insertedMember, rfl⟩ := List.mem_map.mp member
        rcases List.mem_cons.mp ((arrayInsert_perm restScan fragment).subset insertedMember) with
          isNew | old
        · subst isNew
          omega
        · exact increasing.1 _ ⟨inserted, old, rfl⟩

/-! ## What one call can do -/

/-- The array after `add_fragment` stored a new fragment. -/
def storedArray (prepared : FragmentData × List Fragment) (payload : EncryptedFragmentPayload)
    (insertAt : Option Nat) : List Fragment :=
  arrayInsert prepared.2 insertAt ⟨payload.fragmentNumber.toUInt8, payload.content⟩

/-- The next payload type cached by `add_fragment_v2`. -/
def cachedFirstPayload (state : PrivateMessage) (payload : EncryptedFragmentPayload) : UInt8 :=
  if payload.fragmentNumber = 1 then payload.nextPayload else state.firstPayload

/-- The payload list once a fragment was stored: fragment 1 hands over its payloads other
than fragments. -/
def movedPayloads (state : PrivateMessage) (message : FragmentMessage) (payload : EncryptedFragmentPayload) :
    List MessagePayload :=
  if payload.fragmentNumber = 1 then state.payloads ++ message.payloads.filter (·.type != plv2Fragment)
  else state.payloads

/-- The payload list of the reassembled message: the moved payloads, the last one pointing to
the encrypted payload created from the merged data, and that payload. -/
def reassembledPayloads (moved : List MessagePayload) (next : UInt8) (data : List UInt8) :
    List MessagePayload :=
  setLastNext moved plv2Encrypted ++ [⟨plv2Encrypted, next, data⟩]

/-- The four ways `add_fragment` and the end of `add_fragment_v2` can treat a
fragment, given the prepared fragment data and array. -/
inductive Processed (state : PrivateMessage) (message : FragmentMessage) (payload : EncryptedFragmentPayload)
    (prepared : FragmentData × List Fragment) :
    PrivateMessage × Status × Option (UInt8 × List UInt8) → Prop
  | duplicate :
      Processed state message payload prepared
        ({ state with frag := some prepared.1, fragments := some prepared.2 }, .needMore, none)
  | tooLarge :
      Processed state message payload prepared
        ({ state with frag := some { prepared.1 with last := 0, len := 0 }, fragments := none },
          .failed, none)
  | stored (insertAt : Option Nat)
      (scan : scanFragments payload.fragmentNumber prepared.2 = some insertAt)
      (fits : prepared.1.len + payload.content.length ≤ prepared.1.maxPacket)
      (missing : (storedArray prepared payload insertAt).length ≠ payload.totalFragments.toNat) :
      Processed state message payload prepared
        ({ state with
            firstPayload := cachedFirstPayload state payload
            payloads := movedPayloads state message payload
            frag := some { prepared.1 with len := prepared.1.len + payload.content.length }
            fragments := some (storedArray prepared payload insertAt) }, .needMore, none)
  | merged (insertAt : Option Nat)
      (scan : scanFragments payload.fragmentNumber prepared.2 = some insertAt)
      (fits : prepared.1.len + payload.content.length ≤ prepared.1.maxPacket)
      (complete : (storedArray prepared payload insertAt).length = payload.totalFragments.toNat) :
      Processed state message payload prepared
        ({ state with
            firstPayload := firstType (reassembledPayloads (movedPayloads state message payload)
              (cachedFirstPayload state payload) (mergeFragments (storedArray prepared payload insertAt)))
            payloads := reassembledPayloads (movedPayloads state message payload)
              (cachedFirstPayload state payload) (mergeFragments (storedArray prepared payload insertAt))
            frag := none
            fragments := none }, .success,
          some (cachedFirstPayload state payload,
            mergeFragments (storedArray prepared payload insertAt)))

theorem processed_finishFragment (state : PrivateMessage) (message : FragmentMessage)
    (payload : EncryptedFragmentPayload) (prepared : FragmentData × List Fragment) :
    Processed state message payload prepared (finishFragment state message payload
      (addFragment prepared.1 prepared.2 payload.fragmentNumber payload.content)) := by
  unfold addFragment
  split
  · exact .duplicate
  · rename_i insertAt scan
    split_ifs with tooLarge
    · exact .tooLarge
    · have fits : prepared.1.len + payload.content.length ≤ prepared.1.maxPacket := by omega
      by_cases complete : (storedArray prepared payload insertAt).length =
          payload.totalFragments.toNat
      · have merged : Processed state message payload prepared _ := .merged insertAt scan fits complete
        simp only [finishFragment, storedArray, cachedFirstPayload, movedPayloads, reassembledPayloads]
          at complete merged ⊢
        rw [if_neg (not_not.mpr complete)]
        exact merged
      · have stored : Processed state message payload prepared _ := .stored insertAt scan fits complete
        simp only [finishFragment, storedArray, cachedFirstPayload, movedPayloads] at complete stored ⊢
        rw [if_pos complete]
        exact stored

/-- Every call of `add_fragment_v2` leaves the state alone with a status other
than `SUCCESS`, resets it with `FAILED`, or processes the fragment on the
prepared array. -/
theorem addFragmentV2_cases (state : PrivateMessage) (message : FragmentMessage) :
    ((addFragmentV2 state message).1 = state ∧ (addFragmentV2 state message).2.1 ≠ .success ∧
        (addFragmentV2 state message).2.2 = none) ∨
      addFragmentV2 state message = (resetDefrag state, .failed, none) ∨
      ∃ frag payload, state.frag = some frag ∧ message.fragment = some payload ∧
        payload.totalFragments.toNat ≤ maxFragments ∧
        Processed state message payload (prepareFragments frag state.fragments payload.totalFragments)
          (addFragmentV2 state message) := by
  unfold addFragmentV2
  split
  · exact Or.inl ⟨rfl, by simp, rfl⟩
  · exact Or.inl ⟨rfl, by simp, rfl⟩
  · rename_i frag payload hasFrag hasPayload
    split_ifs with otherMessage tooMany
    · exact Or.inl ⟨rfl, by simp, rfl⟩
    · exact Or.inr (Or.inl rfl)
    · exact Or.inr (Or.inr ⟨frag, payload, hasFrag, hasPayload, by omega,
        processed_finishFragment state message payload _⟩)

theorem messageCreateDefrag_eq_some {start : FragmentMessage} {maxPacket : Nat}
    {state : PrivateMessage} (created : messageCreateDefrag start maxPacket = some state) :
    state = ⟨start.messageId, plNone, [], some ⟨0, 0, maxPacket⟩, none⟩ := by
  unfold messageCreateDefrag at created
  split at created
  · cases created
  · cases created
    rfl

/-! ## The length bound over every run -/

/-- The summed length of the stored fragments. -/
def storedLength (fragments : List Fragment) : Nat :=
  (fragments.map fun fragment => fragment.data.length).sum

/-- The accumulated length is that of the stored fragments, within `max_packet`. -/
def LengthBounded (state : PrivateMessage) : Prop :=
  ∀ frag, state.frag = some frag →
    frag.len = storedLength (state.fragments.getD []) ∧ frag.len ≤ frag.maxPacket

theorem storedLength_arrayInsert {num : UInt16} {fragments : List Fragment}
    {insertAt : Option Nat} (scan : scanFragments num fragments = some insertAt)
    (fragment : Fragment) :
    storedLength (arrayInsert fragments insertAt fragment) =
      fragment.data.length + storedLength fragments := by
  unfold storedLength
  rw [((arrayInsert_perm scan fragment).map _).sum_eq, List.map_cons, List.sum_cons]

theorem prepareFragments_maxPacket (frag : FragmentData) (fragments : Option (List Fragment))
    (total : UInt16) : (prepareFragments frag fragments total).1.maxPacket = frag.maxPacket := by
  unfold prepareFragments
  split
  · split_ifs <;> rfl
  · rfl

theorem prepareFragments_bounded {frag : FragmentData} {fragments : Option (List Fragment)}
    (stored : frag.len = storedLength (fragments.getD [])) (withinMax : frag.len ≤ frag.maxPacket)
    (total : UInt16) :
    (prepareFragments frag fragments total).1.len =
        storedLength (prepareFragments frag fragments total).2 ∧
      (prepareFragments frag fragments total).1.len ≤
        (prepareFragments frag fragments total).1.maxPacket := by
  unfold prepareFragments
  split
  · split_ifs
    · exact ⟨rfl, Nat.zero_le _⟩
    · exact ⟨stored, withinMax⟩
  · exact ⟨rfl, Nat.zero_le _⟩

theorem lengthBounded_addFragmentV2 {state : PrivateMessage} (bounded : LengthBounded state)
    (message : FragmentMessage) : LengthBounded (addFragmentV2 state message).1 := by
  rcases addFragmentV2_cases state message with ⟨unchanged, -⟩ | reset |
    ⟨frag, payload, hasFrag, -, -, processed⟩
  · rw [unchanged]
    exact bounded
  · rw [reset]
    intro frag hasFrag
    simp only [resetDefrag, Option.map_eq_some_iff] at hasFrag
    obtain ⟨_, _, rfl⟩ := hasFrag
    simp [storedLength, resetDefrag]
  · obtain ⟨stored, withinMax⟩ := bounded frag hasFrag
    obtain ⟨preparedLen, preparedWithin⟩ :=
      prepareFragments_bounded stored withinMax payload.totalFragments
    have preparedMax := prepareFragments_maxPacket frag state.fragments payload.totalFragments
    generalize addFragmentV2 state message = result at processed
    cases processed with
    | duplicate =>
        intro prepared isPrepared
        cases isPrepared
        exact ⟨preparedLen, preparedWithin⟩
    | tooLarge =>
        intro reset isReset
        cases isReset
        simp [storedLength]
    | stored insertAt scan fits _ =>
        intro grown isGrown
        cases isGrown
        refine ⟨?_, by simpa [preparedMax] using fits⟩
        simp only [Option.getD_some, storedArray, storedLength_arrayInsert scan, preparedLen]
        omega
    | merged =>
        intro _ isNone
        cases isNone

/-- Over every run of `add_fragment_v2` on a defragmentation message, the
accumulated length is that of the stored fragments and never exceeds
`max_packet`. -/
theorem addFragmentV2_len_le_maxPacket (start : FragmentMessage) (maxPacket : Nat)
    {state : PrivateMessage} (created : messageCreateDefrag start maxPacket = some state)
    (messages : List FragmentMessage) :
    LengthBounded (runSteps addFragmentV2 state messages).1 := by
  have initial : LengthBounded state := by
    rw [messageCreateDefrag_eq_some created]
    intro frag isInitial
    cases isInitial
    simp [storedLength]
  apply invariant_runSteps LengthBounded (fun state message bounded _ =>
    lengthBounded_addFragmentV2 bounded message) initial
  exact admissible_of_forall_mem addFragmentV2 (fun _ _ => True) (fun _ _ _ => trivial) state

theorem addFragmentV2_len_le_maxPacket_created :
    messageCreateDefrag ⟨1, [⟨53, 33, [0xaa]⟩], some ⟨1, 2, 33, [0xaa]⟩⟩ 10000 =
        some ⟨1, 0, [], some ⟨0, 0, 10000⟩, none⟩ ∧
      LengthBounded (runSteps addFragmentV2 ⟨1, 0, [], some ⟨0, 0, 10000⟩, none⟩
        [⟨1, [⟨53, 0, [0xbb]⟩], some ⟨2, 2, 0, [0xbb]⟩⟩]).1 :=
  ⟨rfl, addFragmentV2_len_le_maxPacket ⟨1, [⟨53, 33, [0xaa]⟩], some ⟨1, 2, 33, [0xaa]⟩⟩ 10000 rfl _⟩

/-! ## Runs whose fragments all carry one total -/

theorem fragVerify_eq_success {payload : EncryptedFragmentPayload}
    (verified : (fragVerify payload).1 = .success) :
    1 ≤ payload.fragmentNumber.toNat ∧
      payload.fragmentNumber.toNat ≤ payload.totalFragments.toNat := by
  by_cases invalid : payload.fragmentNumber = 0 ∨ payload.totalFragments = 0 ∨
      payload.fragmentNumber > payload.totalFragments
  · simp [fragVerify, invalid] at verified
  · simp only [not_or, gt_iff_lt, UInt16.lt_iff_toNat_lt, not_lt, ← UInt16.toNat_inj,
      UInt16.toNat_zero] at invalid
    omega

/-- The fragment payload of the message passed `frag_verify` and announces
`total` fragments. -/
def OneTotal (total : Nat) (message : FragmentMessage) : Prop :=
  ∀ payload, message.fragment = some payload →
    (fragVerify payload).1 = .success ∧ payload.totalFragments.toNat = total

/-- The fragment was received with one of `messages`. -/
def FromMessages (messages : List FragmentMessage) (fragment : Fragment) : Prop :=
  ∃ message ∈ messages, ∃ payload, message.fragment = some payload ∧
    payload.fragmentNumber.toNat = fragment.num.toNat ∧ payload.content = fragment.data

/-- The array holds received fragments numbered between one and `total`, in
increasing order. -/
def NumberedUpTo (total : Nat) (messages : List FragmentMessage) (fragments : List Fragment) :
    Prop :=
  (numbers fragments).Pairwise (· < ·) ∧
    ∀ fragment ∈ fragments, 1 ≤ fragment.num.toNat ∧ fragment.num.toNat ≤ total ∧
      FromMessages messages fragment

/-- The invariant of a run whose fragments all announce `total`: the stored
`last` is that total and the array is numbered up to it. -/
def Reassembling (total : Nat) (messages : List FragmentMessage) (state : PrivateMessage) : Prop :=
  ∀ frag fragments, state.frag = some frag → state.fragments = some fragments →
    frag.last.toNat = total ∧ NumberedUpTo total messages fragments

theorem prepareFragments_numbered {total : Nat} {messages : List FragmentMessage}
    {frag : FragmentData} {fragments : Option (List Fragment)} {payloadTotal : UInt16}
    (sameTotal : payloadTotal.toNat = total)
    (stored : ∀ array, fragments = some array →
      frag.last.toNat = total ∧ NumberedUpTo total messages array) :
    (prepareFragments frag fragments payloadTotal).1.last.toNat = total ∧
      NumberedUpTo total messages (prepareFragments frag fragments payloadTotal).2 := by
  have empty : NumberedUpTo total messages [] := ⟨List.Pairwise.nil, by simp⟩
  unfold prepareFragments
  split
  · rename_i array
    split_ifs
    · exact ⟨sameTotal, empty⟩
    · exact stored array rfl
  · exact ⟨sameTotal, empty⟩

theorem storedArray_numbered {total : Nat} {messages : List FragmentMessage}
    {prepared : FragmentData × List Fragment} {message : FragmentMessage}
    {payload : EncryptedFragmentPayload} {insertAt : Option Nat}
    (numbered : NumberedUpTo total messages prepared.2)
    (scan : scanFragments payload.fragmentNumber prepared.2 = some insertAt)
    (member : message ∈ messages) (hasPayload : message.fragment = some payload)
    (verified : (fragVerify payload).1 = .success) (sameTotal : payload.totalFragments.toNat = total)
    (few : total ≤ maxFragments) :
    NumberedUpTo total messages (storedArray prepared payload insertAt) := by
  have inRange := fragVerify_eq_success verified
  have small : payload.fragmentNumber.toUInt8.toNat = payload.fragmentNumber.toNat := by
    rw [UInt16.toNat_toUInt8]
    apply Nat.mod_eq_of_lt
    unfold maxFragments at few
    omega
  constructor
  · exact numbers_arrayInsert_increasing scan small numbered.1
  · intro fragment fragmentMember
    rcases List.mem_cons.mp ((arrayInsert_perm scan _).subset fragmentMember) with isNew | old
    · subst isNew
      exact ⟨by simp only [small]; omega, by simp only [small]; omega,
        message, member, payload, hasPayload, small.symm, rfl⟩
    · exact numbered.2 fragment old

/-- One call of a run with one total keeps the invariant, and a `SUCCESS`
merges delivered fragments numbered exactly `1, ..., total` in that order. -/
theorem reassembling_addFragmentV2 {total : Nat} {messages : List FragmentMessage}
    {state : PrivateMessage} {message : FragmentMessage}
    (invariant : Reassembling total messages state) (member : message ∈ messages)
    (oneTotal : OneTotal total message) :
    Reassembling total messages (addFragmentV2 state message).1 ∧
      ((addFragmentV2 state message).2.1 = .success →
        ∃ stored : List Fragment, numbers stored = List.range' 1 total ∧
          (∃ nextPayload,
            (addFragmentV2 state message).2.2 = some (nextPayload, mergeFragments stored)) ∧
          ∀ fragment ∈ stored, FromMessages messages fragment) := by
  rcases addFragmentV2_cases state message with ⟨unchanged, notSuccess, -⟩ | reset |
    ⟨frag, payload, hasFrag, hasPayload, few, processed⟩
  · rw [unchanged]
    exact ⟨invariant, fun success => absurd success notSuccess⟩
  · rw [reset]
    refine ⟨?_, fun failed => by simp at failed⟩
    intro _ _ _ isNone
    cases isNone
  · obtain ⟨verified, sameTotal⟩ := oneTotal payload hasPayload
    obtain ⟨preparedLast, preparedNumbered⟩ := prepareFragments_numbered sameTotal
      (fun array isArray => invariant frag array hasFrag isArray)
    generalize addFragmentV2 state message = result at processed ⊢
    cases processed with
    | duplicate =>
        refine ⟨?_, fun needMore => by cases needMore⟩
        intro _ _ isFrag isArray
        cases isFrag
        cases isArray
        exact ⟨preparedLast, preparedNumbered⟩
    | tooLarge =>
        refine ⟨?_, fun failed => by cases failed⟩
        intro _ _ _ isNone
        cases isNone
    | stored insertAt scan _ _ =>
        refine ⟨?_, fun needMore => by cases needMore⟩
        intro _ _ isFrag isArray
        cases isFrag
        cases isArray
        exact ⟨preparedLast, storedArray_numbered preparedNumbered scan member hasPayload
          verified sameTotal (by omega)⟩
    | merged insertAt scan _ complete =>
        refine ⟨(fun _ _ isNone => by cases isNone), fun _ => ?_⟩
        have numbered := storedArray_numbered preparedNumbered scan member hasPayload verified
          sameTotal (by omega)
        refine ⟨_, ?_, ⟨_, rfl⟩, fun fragment stored => (numbered.2 fragment stored).2.2⟩
        apply SortedKeys.eq_range'_of_pairwise_lt numbered.1
        · intro key keyMember
          obtain ⟨fragment, fragmentMember, rfl⟩ := List.mem_map.mp keyMember
          have := numbered.2 fragment fragmentMember
          omega
        · rw [numbers, List.length_map, complete, sameTotal]

/-- When every fragment delivered to a defragmentation message passed
`frag_verify` and announces the same total, each `SUCCESS` of
`add_fragment_v2` returns the contents of received fragments numbered exactly
`1, ..., total`, concatenated in that order. -/
theorem addFragmentV2_reassembles_one_total (start : FragmentMessage) (maxPacket : Nat)
    {state : PrivateMessage} (created : messageCreateDefrag start maxPacket = some state)
    (total : Nat) (messages : List FragmentMessage)
    (oneTotal : ∀ message ∈ messages, OneTotal total message) :
    ∀ pair ∈ messages.zip (runSteps addFragmentV2 state messages).2, pair.2.1 = .success →
      ∃ stored : List Fragment, numbers stored = List.range' 1 total ∧
        (∃ nextPayload, pair.2.2 = some (nextPayload, mergeFragments stored)) ∧
        ∀ fragment ∈ stored, FromMessages messages fragment := by
  have initial : Reassembling total messages state := by
    rw [messageCreateDefrag_eq_some created]
    intro _ _ _ isNone
    cases isNone
  apply outputs_runSteps (Reassembling total messages)
    (fun _ output => output.1 = .success → ∃ stored : List Fragment,
      numbers stored = List.range' 1 total ∧
        (∃ nextPayload, output.2 = some (nextPayload, mergeFragments stored)) ∧
        ∀ fragment ∈ stored, FromMessages messages fragment)
    (fun _ message invariant (allowed : message ∈ messages ∧ OneTotal total message) =>
      (reassembling_addFragmentV2 invariant allowed.1 allowed.2).1)
    (fun _ message invariant (allowed : message ∈ messages ∧ OneTotal total message) =>
      (reassembling_addFragmentV2 invariant allowed.1 allowed.2).2)
    initial
  exact admissible_of_forall_mem addFragmentV2
    (fun _ message => message ∈ messages ∧ OneTotal total message)
    (fun _ message member => ⟨member, oneTotal message member⟩) state

theorem addFragmentV2_reassembles_one_total_in_order :
    messageCreateDefrag ⟨1, [⟨53, 0, [0xbb]⟩], some ⟨2, 2, 0, [0xbb]⟩⟩ 10000 =
        some ⟨1, 0, [], some ⟨0, 0, 10000⟩, none⟩ ∧
      (∀ message ∈ [(⟨1, [⟨53, 0, [0xbb]⟩], some ⟨2, 2, 0, [0xbb]⟩⟩ : FragmentMessage),
          ⟨1, [⟨53, 33, [0xaa]⟩], some ⟨1, 2, 33, [0xaa]⟩⟩], OneTotal 2 message) ∧
      ∀ pair ∈ [(⟨1, [⟨53, 0, [0xbb]⟩], some ⟨2, 2, 0, [0xbb]⟩⟩ : FragmentMessage),
          ⟨1, [⟨53, 33, [0xaa]⟩], some ⟨1, 2, 33, [0xaa]⟩⟩].zip
          (runSteps addFragmentV2 ⟨1, 0, [], some ⟨0, 0, 10000⟩, none⟩
            [⟨1, [⟨53, 0, [0xbb]⟩], some ⟨2, 2, 0, [0xbb]⟩⟩, ⟨1, [⟨53, 33, [0xaa]⟩], some ⟨1, 2, 33, [0xaa]⟩⟩]).2,
        pair.2.1 = .success →
        ∃ stored : List Fragment, numbers stored = List.range' 1 2 ∧
          (∃ nextPayload, pair.2.2 = some (nextPayload, mergeFragments stored)) ∧
          ∀ fragment ∈ stored, FromMessages [⟨1, [⟨53, 0, [0xbb]⟩], some ⟨2, 2, 0, [0xbb]⟩⟩,
            ⟨1, [⟨53, 33, [0xaa]⟩], some ⟨1, 2, 33, [0xaa]⟩⟩] fragment := by
  have oneTotal : ∀ message ∈ [(⟨1, [⟨53, 0, [0xbb]⟩], some ⟨2, 2, 0, [0xbb]⟩⟩ : FragmentMessage),
      ⟨1, [⟨53, 33, [0xaa]⟩], some ⟨1, 2, 33, [0xaa]⟩⟩], OneTotal 2 message := by
    intro message member payload isSome
    simp only [List.mem_cons, List.not_mem_nil, or_false] at member
    rcases member with rfl | rfl <;> cases isSome <;> decide
  exact ⟨rfl, oneTotal,
    addFragmentV2_reassembles_one_total ⟨1, [⟨53, 0, [0xbb]⟩], some ⟨2, 2, 0, [0xbb]⟩⟩ 10000 rfl 2 _ oneTotal⟩

/-! ## Completion with mixed totals -/

/-- Fragment 3 of 3 followed by fragment 1 of 2 completes the reassembly: the
second total is not larger than the stored `last`, so nothing is reset, and the
array then holds two fragments, the total of the fragment just received. -/
theorem addFragmentV2_completes_mixed_totals (start : FragmentMessage) (maxPacket : Nat)
    {state : PrivateMessage} (created : messageCreateDefrag start maxPacket = some state)
    (thirdPayloads firstPayloads : List MessagePayload) (nextPayload : UInt8)
    (firstContent thirdContent : List UInt8) (fits : thirdContent.length + firstContent.length ≤ maxPacket) :
    (runSteps addFragmentV2 state
        [⟨start.messageId, thirdPayloads, some ⟨3, 3, 0, thirdContent⟩⟩,
          ⟨start.messageId, firstPayloads, some ⟨1, 2, nextPayload, firstContent⟩⟩]).2 =
      [(.needMore, none), (.success, some (nextPayload, firstContent ++ thirdContent))] := by
  rw [messageCreateDefrag_eq_some created]
  have thirdFits : thirdContent.length ≤ maxPacket := by omega
  simp [addFragmentV2, prepareFragments, addFragment, scanFragments, finishFragment, arrayInsert,
    mergeFragments, maxFragments, Nat.not_lt.mpr thirdFits, Nat.not_lt.mpr fits]

theorem addFragmentV2_completes_mixed_totals_at_one_and_three :
    messageCreateDefrag ⟨7, [⟨53, 0, [0xcc]⟩], some ⟨3, 3, 0, [0xcc]⟩⟩ 10000 =
        some ⟨7, 0, [], some ⟨0, 0, 10000⟩, none⟩ ∧
      [0xcc].length + [0xaa].length ≤ 10000 ∧
      (runSteps addFragmentV2 ⟨7, 0, [], some ⟨0, 0, 10000⟩, none⟩
          [⟨7, [⟨53, 0, [0xcc]⟩], some ⟨3, 3, 0, [0xcc]⟩⟩, ⟨7, [⟨53, 33, [0xaa]⟩], some ⟨1, 2, 33, [0xaa]⟩⟩]).2 =
        [(.needMore, none), (.success, some (33, [0xaa, 0xcc]))] :=
  ⟨rfl, by decide, addFragmentV2_completes_mixed_totals ⟨7, [⟨53, 0, [0xcc]⟩], some ⟨3, 3, 0, [0xcc]⟩⟩ 10000 rfl
    [⟨53, 0, [0xcc]⟩] [⟨53, 33, [0xaa]⟩] 33 [0xaa] [0xcc] (by decide)⟩

end StrongSwan.Libcharon.Encoding.Message.Defrag
