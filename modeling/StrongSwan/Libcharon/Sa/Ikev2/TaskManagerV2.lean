import StrongSwan.Foundations.Runs
import StrongSwan.Libcharon.Encoding.Message.Defrag

/-!
Contract: the acceptance of inbound IKEv2 messages by the task manager
(`task_manager_v2.c`): `is_retransmit`, the MID-sync checks, `parse_message`,
`handle_fragment` with the reinjection of reassembled messages, and
`process_message`.

What parsing and the tasks do is left open: each delivery carries the
outcomes of key derivation, `parse_body`, `process_request` and
`process_response` for every message, the one reassembled from fragments
included. The tasks reach the message-ID state in two ways only: the MID-sync
task through `set_message_id`, and an IKE_SA reset (`ike_init` restarting
IKE_SA_INIT) through `reset(0, 0)`.

Owns: the message-ID state of the task manager (`mid`, `hash`, `prev_hash`,
`packets`, `defrag` of both directions), `processMessage` with every branch,
and, for every run of deliveries from any state: which messages reach
`process_request` and `process_response`, how `responding.mid` moves, and
that a retransmitted request only resends the stored response.

Does not own: the task queues and the tasks themselves, the IKE_SA's hosts,
statistics, configuration lookup and delete job, the bus, and the hasher, which
is taken to succeed.
-/

namespace StrongSwan.Libcharon.Sa.Ikev2.TaskManagerV2

open StrongSwan.Foundations
open StrongSwan.Libstrongswan.Utils
open StrongSwan.Libcharon.Encoding.Message.Defrag

/-! Exchange types, payload types and notify types as the header and the
payloads carry them. -/

/-- `IKE_SA_INIT`. -/
def ikeSaInit : UInt8 := 34
/-- `IKE_AUTH`. -/
def ikeAuth : UInt8 := 35
/-- `INFORMATIONAL`. -/
def informational : UInt8 := 37
/-- `IKE_INTERMEDIATE`. -/
def ikeIntermediate : UInt8 := 43
/-- `EXCHANGE_TYPE_UNDEFINED`. -/
def exchangeTypeUndefined : UInt8 := 255

/-- `PLV2_NOTIFY`. -/
def plv2Notify : UInt8 := 41
/-- `UNSUPPORTED_CRITICAL_PAYLOAD`. -/
def unsupportedCriticalPayload : UInt16 := 1
/-- `INVALID_SYNTAX`. -/
def invalidSyntax : UInt16 := 7
/-- `NO_PROPOSAL_CHOSEN`. -/
def noProposalChosen : UInt16 := 14
/-- `IKEV2_MESSAGE_ID_SYNC`. -/
def ikev2MessageIdSync : UInt16 := 16422
/-- `IPSEC_REPLAY_COUNTER_SYNC`. -/
def ipsecReplayCounterSync : UInt16 := 16423

/-- `ike_sa_state_t`. -/
inductive IkeSaState where
  | ikeCreated
  | ikeConnecting
  | ikeEstablished
  | ikePassive
  | ikeRekeying
  | ikeRekeyed
  | ikeDeleting
  | ikeDestroying
deriving DecidableEq, Repr

/-- A payload of a parsed message, as far as the task manager looks at it. -/
inductive Payload where
  | notify (type : UInt16)
  | fragment (payload : EncryptedFragmentPayload)
  | unknown (type : UInt8) (critical : Bool)
  | other (type : UInt8)
deriving DecidableEq, Repr

/-- `get_type` of a payload. -/
def Payload.type : Payload → UInt8
  | .notify _ => plv2Notify
  | .fragment _ => plv2Fragment
  | .unknown type _ => type
  | .other type => type

/-- A received IKEv2 message: its header, the SHA-1 hash of its packet data,
and its payloads once parsed. -/
structure Message where
  request : Bool
  messageId : UInt32
  exchangeType : UInt8
  packetHash : List UInt8
  payloads : List Payload
deriving DecidableEq, Repr

/-- `get_payload(msg, PLV2_FRAGMENT)`. -/
def Message.fragment (message : Message) : Option EncryptedFragmentPayload :=
  message.payloads.findSome? fun
    | .fragment payload => some payload
    | _ => none

/-- The message as reassembly reads it. The payloads here carry their types only: their next
types and bodies, which reassembly moves without reading, are left empty. -/
def Message.toFragmentMessage (message : Message) : FragmentMessage :=
  ⟨message.messageId, message.payloads.map fun payload => ⟨payload.type, plNone, []⟩, message.fragment⟩

/-- A defragmentation message: the clone of the fragment that created it,
whose header the reassembled message keeps, and its reassembly state. -/
structure Defragmenting where
  header : Message
  state : PrivateMessage
deriving DecidableEq, Repr

/-- The `responding` part of `private_task_manager_t`. -/
structure Responding where
  mid : UInt32
  defrag : Option Defragmenting
  hash : List UInt8
  packets : List (List UInt8)
  prevHash : List UInt8
deriving DecidableEq, Repr

/-- The `initiating` part of `private_task_manager_t` that inbound processing reads. -/
structure Initiating where
  mid : UInt32
  defrag : Option Defragmenting
deriving DecidableEq, Repr

/-- The message-ID state of `private_task_manager_t`. -/
structure TaskManager where
  responding : Responding
  initiating : Initiating
deriving DecidableEq, Repr

/-- `task_manager_create`: both counters at zero, hashes zeroed. -/
def taskManagerCreate : TaskManager :=
  ⟨⟨0, none, List.replicate 20 0, [], List.replicate 20 0⟩, ⟨0, none⟩⟩

/-- The IKE_SA as `process_message` consults it. -/
structure IkeSa where
  state : IkeSaState
  initiator : Bool
  midSyncSupported : Bool
  hasIkeCfg : Bool
  ikeCfgFound : Bool
  ikeInitQueued : Bool
  maxPacket : Nat
deriving DecidableEq, Repr

/-- What the tasks of `process_request` do to the message IDs: nothing, or
the MID-sync task with the received sender and receiver values. -/
inductive RequestEffect where
  | none
  | midSync (send recv : UInt32) (activeTasks : Bool)
deriving DecidableEq, Repr

/-- The outcome of `process_request`: its status, what the tasks did to the
message IDs, and the response packets `build_response` stored, if it got there. -/
structure RequestOutcome where
  status : Status
  effect : RequestEffect
  packets : Option (List (List UInt8))
deriving DecidableEq, Repr

/-- What `process_response` does to the message IDs: nothing, the completed
exchange's `initiating.mid++`, or an IKE_SA reset by the tasks. -/
inductive ResponseEffect where
  | none
  | completed
  | resetIkeSa
deriving DecidableEq, Repr

structure ResponseOutcome where
  status : Status
  effect : ResponseEffect
deriving DecidableEq, Repr

/-- The outcomes of everything the task manager calls but this model leaves
open, for every message including a reassembled one. -/
structure Outcomes where
  keysDerived : Message → Bool
  parseBody : Message → Status
  reassembledPayloads : List Payload
  processRequest : Message → RequestOutcome
  processResponse : Message → ResponseOutcome

/-- One call of `process_message`: the message, the IKE_SA around the task
manager, and the outcomes of what it calls. -/
structure Delivery where
  message : Message
  ikeSa : IkeSa
  outcomes : Outcomes

/-- What one call does that is seen outside the message-ID state. -/
inductive Event where
  | resend (packets : List (List UInt8))
  | notify (type : UInt16)
  | request (message : Message) (respondingMid : UInt32)
  | response (message : Message) (initiatingMid : UInt32)
  | destroyNullDefrag
deriving DecidableEq, Repr

namespace TaskManager

/-- `incr_mid`. -/
def incrMid (manager : TaskManager) (initiate : Bool) : TaskManager :=
  if initiate then { manager with initiating := { manager.initiating with mid := manager.initiating.mid + 1 } }
  else { manager with responding := { manager.responding with mid := manager.responding.mid + 1 } }

/-- `reset`: drop stored packets and defragmentation, and set the counters not
given as `UINT_MAX`. -/
def reset (manager : TaskManager) (initiate respond : UInt32) : TaskManager :=
  { responding := { manager.responding with
      packets := []
      defrag := none
      mid := if respond ≠ 0xFFFFFFFF then respond else manager.responding.mid }
    initiating := { manager.initiating with
      defrag := none
      mid := if initiate ≠ 0xFFFFFFFF then initiate else manager.initiating.mid } }

/-- The defragmentation slot of a direction. -/
def defragOf (manager : TaskManager) (request : Bool) : Option Defragmenting :=
  if request then manager.responding.defrag else manager.initiating.defrag

def setDefrag (manager : TaskManager) (request : Bool) (defrag : Option Defragmenting) :
    TaskManager :=
  if request then { manager with responding := { manager.responding with defrag := defrag } }
  else { manager with initiating := { manager.initiating with defrag := defrag } }

def setHash (manager : TaskManager) (hash : List UInt8) : TaskManager :=
  { manager with responding := { manager.responding with hash := hash } }

end TaskManager

open TaskManager

/-- `is_retransmit`: NEED_MORE for the expected request, ALREADY_DONE for a
repeat of the last answered one, INVALID_ARG for everything else. -/
def isRetransmit (manager : TaskManager) (message : Message) : Status :=
  if message.messageId = manager.responding.mid then .needMore
  else if message.messageId = manager.responding.mid - 1 ∧ manager.responding.packets ≠ [] then
    if message.packetHash = manager.responding.prevHash then .alreadyDone else .invalidArg
  else .invalidArg

/-- `is_potential_mid_sync`. -/
def isPotentialMidSync (ikeSa : IkeSa) (message : Message) : Bool :=
  message.exchangeType = informational ∧ ikeSa.state = .ikeEstablished ∧ ikeSa.midSyncSupported

/-- The loop of `is_mid_sync`: only MID-sync notifies, at least one. -/
def midSyncScan (found : Bool) : List Payload → Bool
  | [] => found
  | .notify type :: rest =>
      if type = ikev2MessageIdSync ∨ type = ipsecReplayCounterSync then midSyncScan true rest
      else false
  | _ :: _ => false

/-- `is_mid_sync`. -/
def isMidSync (message : Message) : Bool :=
  midSyncScan false message.payloads

/-- `has_unsupported_critical_payload`: the type of the first critical
payload of unknown type. -/
def unsupportedCritical : List Payload → Option UInt8
  | [] => none
  | .unknown type true :: _ => some type
  | _ :: rest => unsupportedCritical rest

/-- `send_invalid_syntax`: the IKE_SA survives only an invalid IKE_SA_INIT. -/
def sendInvalidSyntax (manager : TaskManager) (message : Message) :
    TaskManager × List Event × Status :=
  (manager.incrMid false, [.notify invalidSyntax],
    if message.exchangeType = ikeSaInit then .failed else .destroyMe)

/-- The status of `parse_body` followed by the critical-payload check. -/
def parseStatus (outcomes : Outcomes) (message : Message) : Status :=
  if outcomes.keysDerived message then
    match outcomes.parseBody message with
    | .success => if (unsupportedCritical message.payloads).isSome then .notSupported else .success
    | status => status
  else .invalidState

/-- The error handling of `parse_message`: a request that fails to parse is
answered and uses up its message ID. -/
def parseFailure (manager : TaskManager) (message : Message) (parsed status : Status) :
    TaskManager × List Event × Status :=
  match parsed with
  | .notSupported =>
      if message.request then (manager.incrMid false, [.notify unsupportedCriticalPayload], status)
      else (manager, [], status)
  | .parseError | .verifyError =>
      if message.request then sendInvalidSyntax manager message else (manager, [], status)
  | _ => (manager, [], status)

/-- `parse_message`. -/
def parseMessage (ikeSa : IkeSa) (outcomes : Outcomes) (manager : TaskManager) (message : Message) :
    TaskManager × List Event × Status :=
  let parsed := parseStatus outcomes message
  let status := if outcomes.keysDerived message then parsed else .destroyMe
  if parsed = .success then (manager, [], status)
  else
    let handled := parseFailure manager message parsed status
    -- an invalid initiation attempt closes the IKE_SA
    match ikeSa.state with
    | .ikeCreated => (handled.1, handled.2.1, .destroyMe)
    | _ => handled

/-- `reject_request`. -/
def rejectRequest (ikeSa : IkeSa) (message : Message) : Bool :=
  let reject :=
    if message.exchangeType = ikeSaInit then ikeSa.state ≠ .ikeCreated
    else if message.exchangeType = ikeIntermediate then
      ikeSa.state ≠ .ikeConnecting ∨ ¬ ikeSa.ikeInitQueued
    else if message.exchangeType = ikeAuth then ikeSa.state ≠ .ikeConnecting
    else false
  if reject then true
  else
    match ikeSa.state with
    | .ikeRekeyed => message.exchangeType ≠ informational
    | .ikeCreated | .ikeConnecting => ikeSa.initiator
    | _ => false

/-- The `process` of the MID-sync task (`ike_mid_sync.c`): for message ID 0,
raise both counters to the values the peer sent. -/
def midSyncProcess (manager : TaskManager) (message : Message) (send recv : UInt32)
    (activeTasks : Bool) : TaskManager :=
  if message.messageId ≠ 0 then manager
  else
    let resp := manager.responding.mid
    let m2 := max send resp
    let synced := if resp ≠ m2 then manager.reset 0xFFFFFFFF m2 else manager
    let init := synced.initiating.mid
    let p2 := max recv (if activeTasks then init + 1 else init)
    if init ≠ p2 then synced.reset p2 0xFFFFFFFF else synced

/-- The tasks' effect of `process_request`, then the packets of `build_response`. -/
def applyRequestOutcome (manager : TaskManager) (message : Message) (outcome : RequestOutcome) :
    TaskManager :=
  let afterTasks :=
    match outcome.effect with
    | .none => manager
    | .midSync send recv activeTasks => midSyncProcess manager message send recv activeTasks
  match outcome.packets with
  | none => afterTasks
  | some packets => { afterTasks with responding := { afterTasks.responding with packets := packets } }

/-- The effect of `process_response` on the counters. -/
def applyResponseOutcome (manager : TaskManager) (outcome : ResponseOutcome) : TaskManager :=
  match outcome.effect with
  | .none => manager
  | .completed => manager.incrMid true
  | .resetIkeSa => manager.reset 0 0

/-- `process_request` and the bookkeeping of `process_message` after it: an
answered request moves `responding.mid` on and keeps the hash of the request. -/
def answerRequest (outcomes : Outcomes) (manager : TaskManager) (message : Message) :
    TaskManager × List Event × Status :=
  let outcome := outcomes.processRequest message
  let processed := applyRequestOutcome manager message outcome
  let invoked := [Event.request message manager.responding.mid]
  match outcome.status with
  | .success =>
      ({ processed with responding := { processed.responding with
          mid := processed.responding.mid + 1
          prevHash := processed.responding.hash } }, invoked, .success)
  | .needMore => (processed, invoked, .success)
  | _ => (processed, invoked, .destroyMe)

/-- `process_response` and the bookkeeping of `process_message` after it. -/
def answerResponse (outcomes : Outcomes) (manager : TaskManager) (message : Message) :
    TaskManager × List Event × Status :=
  let outcome := outcomes.processResponse message
  (applyResponseOutcome manager outcome, [Event.response message manager.initiating.mid],
    if outcome.status = .success then .success else .destroyMe)

/-- Prepend the events of an earlier part of the call. -/
def afterEvents (events : List Event) (result : TaskManager × List Event × Status) :
    TaskManager × List Event × Status :=
  (result.1, events ++ result.2.1, result.2.2)

/-- `process_message` from the parsed message on: the configuration check,
`reject_request`, `handle_fragment`, and the request or response processing. -/
def processParsed
    (handleFragment : IkeSa → Outcomes → TaskManager → Message → TaskManager × List Event × Status)
    (ikeSa : IkeSa) (outcomes : Outcomes) (manager : TaskManager) (message : Message) :
    TaskManager × List Event × Status :=
  if ¬ ikeSa.hasIkeCfg ∧ ¬ ikeSa.ikeCfgFound then (manager, [.notify noProposalChosen], .destroyMe)
  else if message.request ∧ rejectRequest ikeSa message then (manager, [], .failed)
  else
    let handled := handleFragment ikeSa outcomes manager message
    if handled.2.2 ≠ .success then handled
    else if message.exchangeType = exchangeTypeUndefined then handled
    else
      afterEvents handled.2.1
        (if message.request then answerRequest outcomes handled.1 message
        else answerResponse outcomes handled.1 message)

/-- `process_message` after `is_retransmit` let the message through: parse
it; a potential MID-sync request that turns out not to be one is ignored. -/
def continueParsed
    (handleFragment : IkeSa → Outcomes → TaskManager → Message → TaskManager × List Event × Status)
    (ikeSa : IkeSa) (outcomes : Outcomes) (manager : TaskManager) (message : Message)
    (potentialMidSync : Bool) : TaskManager × List Event × Status :=
  let parsed := parseMessage ikeSa outcomes manager message
  if potentialMidSync ∧ parsed.2.2 = .success ∧ ¬ isMidSync message then
    (parsed.1, parsed.2.1, .success)
  else if parsed.2.2 ≠ .success then parsed
  else afterEvents parsed.2.1 (processParsed handleFragment ikeSa outcomes parsed.1 message)

/-- `process_message` for a given `handle_fragment`: a message with an
unexpected ID is ignored. -/
def processMessageWith
    (handleFragment : IkeSa → Outcomes → TaskManager → Message → TaskManager × List Event × Status)
    (ikeSa : IkeSa) (outcomes : Outcomes) (manager : TaskManager) (message : Message) :
    TaskManager × List Event × Status :=
  if message.request then
    match isRetransmit manager message with
    | .alreadyDone => (manager, [.resend manager.responding.packets], .success)
    | .needMore => continueParsed handleFragment ikeSa outcomes manager message false
    | _ =>
        if message.messageId = 0 ∧ isPotentialMidSync ikeSa message then
          continueParsed handleFragment ikeSa outcomes manager message true
        else (manager, [], .success)
  else if message.messageId = manager.initiating.mid then
    continueParsed handleFragment ikeSa outcomes manager message false
  else (manager, [], .success)

/-- `handle_fragment` for the reassembled message itself: it is not hashed
again, and a fragment payload inside it meets the completed defragmentation
message, whose fragment data is freed, so `add_fragment` answers INVALID_STATE. -/
def handleReassembled (_ikeSa : IkeSa) (_outcomes : Outcomes) (manager : TaskManager)
    (message : Message) : TaskManager × List Event × Status :=
  match message.fragment with
  | none => (manager, [], .success)
  | some _ => (manager, [], .invalidState)

/-- `ike_sa->process_message` for the reinjected reassembled message: nothing
in the passive state. -/
def processReassembled (ikeSa : IkeSa) (outcomes : Outcomes) (manager : TaskManager)
    (message : Message) : TaskManager × List Event × Status :=
  if ikeSa.state = .ikePassive then (manager, [], .failed)
  else processMessageWith handleReassembled ikeSa outcomes manager message

/-- The reassembled message: the header of the defragmentation message and
the payloads its parsing yields. -/
def reassembledMessage (defrag : Defragmenting) (outcomes : Outcomes) : Message :=
  { defrag.header with payloads := outcomes.reassembledPayloads }

/-- After the reinjection `handle_fragment` destroys the defragmentation
message; when a task reset the task manager meanwhile, the slot is already NULL. -/
def destroyDefrag (manager : TaskManager) (request : Bool) : TaskManager × List Event :=
  match manager.defragOf request with
  | some _ => (manager.setDefrag request none, [])
  | none => (manager, [.destroyNullDefrag])

/-- `handle_fragment`: a message without a fragment is hashed for retransmit
detection; a fragment is added to the defragmentation message of its
direction, fragment 1 is hashed, and a completed message is reinjected. -/
def handleFragment (ikeSa : IkeSa) (outcomes : Outcomes) (manager : TaskManager) (message : Message) :
    TaskManager × List Event × Status :=
  match message.fragment with
  | none => (manager.setHash message.packetHash, [], .success)
  | some fragment =>
      let created := (messageCreateDefrag message.toFragmentMessage ikeSa.maxPacket).map
        fun state => (⟨message, state⟩ : Defragmenting)
      match (manager.defragOf message.request).or created with
      | none => (manager, [], .failed)
      | some defrag =>
          let added := addFragmentV2 defrag.state message.toFragmentMessage
          let stored := manager.setDefrag message.request (some { defrag with state := added.1 })
          let hashed :=
            if (added.2.1 = .needMore ∨ added.2.1 = .success) ∧ fragment.fragmentNumber = 1 then
              stored.setHash message.packetHash
            else stored
          if added.2.1 = .success then
            let reinjected := processReassembled ikeSa outcomes hashed
              (reassembledMessage defrag outcomes)
            let destroyed := destroyDefrag reinjected.1 message.request
            (destroyed.1, reinjected.2.1 ++ destroyed.2,
              if reinjected.2.2 = .success then .needMore else reinjected.2.2)
          else (hashed, [], added.2.1)

/-- `process_message` of the task manager. -/
def processMessage (ikeSa : IkeSa) (outcomes : Outcomes) (manager : TaskManager) (message : Message) :
    TaskManager × List Event × Status :=
  processMessageWith handleFragment ikeSa outcomes manager message

/-- One delivery, as a step of the task manager. -/
def processStep (manager : TaskManager) (delivery : Delivery) :
    TaskManager × List Event × Status :=
  processMessage delivery.ikeSa delivery.outcomes manager delivery.message

end StrongSwan.Libcharon.Sa.Ikev2.TaskManagerV2

namespace StrongSwan.Libcharon.Sa.Ikev2.TaskManagerV2

open StrongSwan.Foundations
open StrongSwan.Libstrongswan.Utils
open StrongSwan.Libcharon.Encoding.Message.Defrag
open TaskManager

/-! ## Frame lemmas -/

@[simp] theorem responding_mid_incrMid_false (manager : TaskManager) :
    (manager.incrMid false).responding.mid = manager.responding.mid + 1 := rfl

@[simp] theorem responding_mid_incrMid_true (manager : TaskManager) :
    (manager.incrMid true).responding.mid = manager.responding.mid := rfl

@[simp] theorem responding_mid_setDefrag (manager : TaskManager) (request : Bool)
    (defrag : Option Defragmenting) :
    (manager.setDefrag request defrag).responding.mid = manager.responding.mid := by
  unfold setDefrag
  split <;> rfl

@[simp] theorem initiating_mid_setDefrag (manager : TaskManager) (request : Bool)
    (defrag : Option Defragmenting) :
    (manager.setDefrag request defrag).initiating.mid = manager.initiating.mid := by
  unfold setDefrag
  split <;> rfl

@[simp] theorem responding_mid_setHash (manager : TaskManager) (hash : List UInt8) :
    (manager.setHash hash).responding.mid = manager.responding.mid := rfl

@[simp] theorem initiating_mid_setHash (manager : TaskManager) (hash : List UInt8) :
    (manager.setHash hash).initiating.mid = manager.initiating.mid := rfl

theorem mids_destroyDefrag (manager : TaskManager) (request : Bool) :
    (destroyDefrag manager request).1.responding.mid = manager.responding.mid ∧
      (destroyDefrag manager request).1.initiating.mid = manager.initiating.mid := by
  unfold destroyDefrag
  split <;> simp

theorem isRetransmit_eq_needMore {manager : TaskManager} {message : Message} :
    isRetransmit manager message = .needMore ↔ message.messageId = manager.responding.mid := by
  unfold isRetransmit
  split_ifs <;> simp_all

/-- A repeat of the last answered request: the ID before `responding.mid`,
stored response packets, and the hash of the answered request. -/
def IsRetransmit (manager : TaskManager) (message : Message) : Prop :=
  message.request = true ∧ message.messageId = manager.responding.mid - 1 ∧
    manager.responding.packets ≠ [] ∧ message.packetHash = manager.responding.prevHash

theorem isRetransmit_eq_alreadyDone {manager : TaskManager} {message : Message}
    (retransmit : IsRetransmit manager message) : isRetransmit manager message = .alreadyDone := by
  obtain ⟨-, previous, stored, sameHash⟩ := retransmit
  simp [isRetransmit, previous, stored, sameHash]

/-! ## Which messages reach the tasks -/

/-- A genuine MID-sync request: ID 0, INFORMATIONAL, on an established IKE_SA
that negotiated the extension, carrying only MID-sync notifies. -/
def GenuineMidSync (ikeSa : IkeSa) (message : Message) : Prop :=
  message.messageId = 0 ∧ isPotentialMidSync ikeSa message = true ∧ isMidSync message = true

/-- A task set the message IDs during the call: the MID-sync task of a
request, or an IKE_SA reset while a response was processed. -/
def TasksSetMessageIds (outcomes : Outcomes) (events : List Event) : Prop :=
  (∃ message mid, Event.request message mid ∈ events ∧
      (outcomes.processRequest message).effect ≠ .none) ∨
    ∃ message mid, Event.response message mid ∈ events ∧
      (outcomes.processResponse message).effect = .resetIkeSa

/-- No task was invoked. -/
def NoTasks (events : List Event) : Prop :=
  ∀ message mid, Event.request message mid ∉ events ∧ Event.response message mid ∉ events

/-- How every invocation inside one call uses the message IDs: requests reach
`process_request` with the expected ID or as genuine MID-sync requests,
responses reach `process_response` with the expected ID, and `responding.mid`
moves by at most one unless a task set the message IDs. -/
structure RespectsIds (ikeSa : IkeSa) (outcomes : Outcomes) (before : TaskManager)
    (result : TaskManager × List Event × Status) : Prop where
  requests : ∀ request mid, Event.request request mid ∈ result.2.1 →
    request.messageId = mid ∨ GenuineMidSync ikeSa request
  responses : ∀ response mid, Event.response response mid ∈ result.2.1 → response.messageId = mid
  responding : result.1.responding.mid = before.responding.mid ∨
    result.1.responding.mid = before.responding.mid + 1 ∨ TasksSetMessageIds outcomes result.2.1

theorem TasksSetMessageIds.mono {outcomes : Outcomes} {events wider : List Event}
    (subset : events ⊆ wider) : TasksSetMessageIds outcomes events → TasksSetMessageIds outcomes wider := by
  rintro (⟨message, mid, member, effect⟩ | ⟨message, mid, member, effect⟩)
  · exact .inl ⟨message, mid, subset member, effect⟩
  · exact .inr ⟨message, mid, subset member, effect⟩

theorem RespectsIds.of_quiet {ikeSa : IkeSa} {outcomes : Outcomes} {before : TaskManager}
    {result : TaskManager × List Event × Status} (quiet : NoTasks result.2.1)
    (moved : result.1.responding.mid = before.responding.mid ∨
      result.1.responding.mid = before.responding.mid + 1) :
    RespectsIds ikeSa outcomes before result where
  requests request mid member := absurd member (quiet request mid).1
  responses response mid member := absurd member (quiet response mid).2
  responding := moved.elim .inl (fun step => .inr (.inl step))

theorem RespectsIds.afterEvents {ikeSa : IkeSa} {outcomes : Outcomes} {before : TaskManager}
    {result : TaskManager × List Event × Status} {events : List Event} (quiet : NoTasks events)
    (respects : RespectsIds ikeSa outcomes before result) :
    RespectsIds ikeSa outcomes before (afterEvents events result) where
  requests request mid member := by
    rcases List.mem_append.mp member with early | late
    · exact absurd early (quiet request mid).1
    · exact respects.requests request mid late
  responses response mid member := by
    rcases List.mem_append.mp member with early | late
    · exact absurd early (quiet response mid).2
    · exact respects.responses response mid late
  responding := by
    rcases respects.responding with same | step | tasks
    · exact .inl same
    · exact .inr (.inl step)
    · exact .inr (.inr (tasks.mono (List.subset_append_right _ _)))

theorem RespectsIds.of_mid_eq {ikeSa : IkeSa} {outcomes : Outcomes} {before start : TaskManager}
    {result : TaskManager × List Event × Status} (sameMid : start.responding.mid = before.responding.mid)
    (respects : RespectsIds ikeSa outcomes start result) : RespectsIds ikeSa outcomes before result where
  requests := respects.requests
  responses := respects.responses
  responding := by
    rw [← sameMid]
    exact respects.responding

theorem noTasks_nil : NoTasks [] := fun _ _ => ⟨List.not_mem_nil, List.not_mem_nil⟩

theorem noTasks_notify (type : UInt16) : NoTasks [.notify type] := by
  intro message mid
  simp

/-! ## Parsing -/

theorem parseFailure_quiet (manager : TaskManager) (message : Message) (parsed status : Status) :
    NoTasks (parseFailure manager message parsed status).2.1 ∧
      ((parseFailure manager message parsed status).1.responding.mid = manager.responding.mid ∨
        (parseFailure manager message parsed status).1.responding.mid =
          manager.responding.mid + 1) := by
  unfold parseFailure
  -- each failure answers a request with one notify and uses up its ID
  split
  · split
    · exact ⟨noTasks_notify _, .inr rfl⟩
    · exact ⟨noTasks_nil, .inl rfl⟩
  · split
    · exact ⟨noTasks_notify _, .inr rfl⟩
    · exact ⟨noTasks_nil, .inl rfl⟩
  · split
    · exact ⟨noTasks_notify _, .inr rfl⟩
    · exact ⟨noTasks_nil, .inl rfl⟩
  · exact ⟨noTasks_nil, .inl rfl⟩

theorem parseFailure_status (manager : TaskManager) (message : Message) (parsed status : Status) :
    (parseFailure manager message parsed status).2.2 = status ∨
      (parseFailure manager message parsed status).2.2 = .failed ∨
      (parseFailure manager message parsed status).2.2 = .destroyMe := by
  unfold parseFailure sendInvalidSyntax
  split <;> (try split) <;> (try split) <;> simp

/-- A parse that succeeds changes nothing. -/
theorem parseMessage_of_success {ikeSa : IkeSa} {outcomes : Outcomes} {manager : TaskManager}
    {message : Message} (succeeded : (parseMessage ikeSa outcomes manager message).2.2 = .success) :
    parseMessage ikeSa outcomes manager message = (manager, [], .success) := by
  unfold parseMessage at succeeded ⊢
  dsimp only at succeeded ⊢
  by_cases parsedSuccess : parseStatus outcomes message = .success
  · rw [if_pos parsedSuccess] at succeeded ⊢
    exact congrArg (fun status => (manager, ([] : List Event), status)) succeeded
  · -- a failed parse answers with the failure's status, never SUCCESS
    exfalso
    rw [if_neg parsedSuccess] at succeeded
    have statusFailed : (if outcomes.keysDerived message = true then parseStatus outcomes message
        else Status.destroyMe) ≠ .success := by
      split
      · exact parsedSuccess
      · simp
    rcases parseFailure_status manager message (parseStatus outcomes message)
        (if outcomes.keysDerived message = true then parseStatus outcomes message
          else Status.destroyMe) with same | failed | destroyed
    all_goals split at succeeded <;> simp_all

/-- Parsing invokes no task and moves `responding.mid` by at most one. -/
theorem parseMessage_quiet (ikeSa : IkeSa) (outcomes : Outcomes) (manager : TaskManager)
    (message : Message) :
    NoTasks (parseMessage ikeSa outcomes manager message).2.1 ∧
      ((parseMessage ikeSa outcomes manager message).1.responding.mid = manager.responding.mid ∨
        (parseMessage ikeSa outcomes manager message).1.responding.mid =
          manager.responding.mid + 1) := by
  unfold parseMessage
  dsimp only
  split
  · exact ⟨noTasks_nil, .inl rfl⟩
  · split
    · exact parseFailure_quiet manager message _ _
    · exact parseFailure_quiet manager message _ _

theorem RespectsIds.of_events_mid {ikeSa : IkeSa} {outcomes : Outcomes} {before : TaskManager}
    {result result' : TaskManager × List Event × Status} {extra : List Event}
    (respects : RespectsIds ikeSa outcomes before result) (events : result'.2.1 = result.2.1 ++ extra)
    (quiet : NoTasks extra) (sameMid : result'.1.responding.mid = result.1.responding.mid) :
    RespectsIds ikeSa outcomes before result' where
  requests request mid member := by
    rw [events] at member
    rcases List.mem_append.mp member with early | late
    · exact respects.requests request mid early
    · exact absurd late (quiet request mid).1
  responses response mid member := by
    rw [events] at member
    rcases List.mem_append.mp member with early | late
    · exact respects.responses response mid early
    · exact absurd late (quiet response mid).2
  responding := by
    rw [sameMid, events]
    rcases respects.responding with same | step | tasks
    · exact .inl same
    · exact .inr (.inl step)
    · exact .inr (.inr (tasks.mono (List.subset_append_left _ _)))

/-! ## The tasks -/

theorem responding_mid_applyRequestOutcome_of_none {manager : TaskManager} {message : Message}
    {outcome : RequestOutcome} (noEffect : outcome.effect = .none) :
    (applyRequestOutcome manager message outcome).responding.mid = manager.responding.mid := by
  unfold applyRequestOutcome
  simp only [noEffect]
  split <;> rfl

theorem answerRequest_events (outcomes : Outcomes) (manager : TaskManager) (message : Message) :
    (answerRequest outcomes manager message).2.1 = [.request message manager.responding.mid] := by
  unfold answerRequest
  dsimp only
  split <;> rfl

/-- `process_request` of an expected request: `responding.mid` moves by at
most one unless a task set the message IDs. -/
theorem answerRequest_respects {ikeSa : IkeSa} {outcomes : Outcomes} {manager : TaskManager}
    {message : Message}
    (expected : message.messageId = manager.responding.mid ∨ GenuineMidSync ikeSa message) :
    RespectsIds ikeSa outcomes manager (answerRequest outcomes manager message) := by
  have invoked := answerRequest_events outcomes manager message
  constructor
  · intro request mid member
    rw [invoked, List.mem_singleton, Event.request.injEq] at member
    obtain ⟨rfl, rfl⟩ := member
    exact expected
  · intro response mid member
    simp [invoked] at member
  · by_cases noEffect : (outcomes.processRequest message).effect = .none
    · have kept := @responding_mid_applyRequestOutcome_of_none manager message _ noEffect
      unfold answerRequest
      dsimp only
      split
      · exact .inr (.inl (by simp only [kept]))
      · exact .inl kept
      · exact .inl kept
    · exact .inr (.inr (.inl ⟨message, manager.responding.mid, by simp [invoked], noEffect⟩))

/-- `process_response` of an expected response: only an IKE_SA reset moves
`responding.mid`. -/
theorem answerResponse_respects {ikeSa : IkeSa} {outcomes : Outcomes} {manager : TaskManager}
    {message : Message} (expected : message.messageId = manager.initiating.mid) :
    RespectsIds ikeSa outcomes manager (answerResponse outcomes manager message) := by
  have invoked : (answerResponse outcomes manager message).2.1 =
      [.response message manager.initiating.mid] := rfl
  constructor
  · intro request mid member
    simp [invoked] at member
  · intro response mid member
    rw [invoked, List.mem_singleton, Event.response.injEq] at member
    obtain ⟨rfl, rfl⟩ := member
    exact expected
  · cases effect : (outcomes.processResponse message).effect with
    | none => exact .inl (by simp [answerResponse, applyResponseOutcome, effect])
    | completed => exact .inl (by simp [answerResponse, applyResponseOutcome, effect])
    | resetIkeSa =>
        exact .inr (.inr (.inr ⟨message, manager.initiating.mid, by simp [invoked], effect⟩))

/-! ## `process_message` for a `handle_fragment` that keeps its contract -/

/-- What `process_message` needs of `handle_fragment`: SUCCESS leaves the
counters alone and invokes no task, and whatever it does inside respects the
message IDs. -/
structure FragmentContract
    (handleFragment : IkeSa → Outcomes → TaskManager → Message → TaskManager × List Event × Status) :
    Prop where
  frame : ∀ ikeSa outcomes manager message,
    (handleFragment ikeSa outcomes manager message).2.2 = .success →
      (handleFragment ikeSa outcomes manager message).1.responding.mid = manager.responding.mid ∧
        (handleFragment ikeSa outcomes manager message).1.initiating.mid = manager.initiating.mid ∧
        NoTasks (handleFragment ikeSa outcomes manager message).2.1
  respects : ∀ ikeSa outcomes manager message,
    RespectsIds ikeSa outcomes manager (handleFragment ikeSa outcomes manager message)

section WithContract

variable {handleFragment : IkeSa → Outcomes → TaskManager → Message → TaskManager × List Event × Status}
  (contract : FragmentContract handleFragment)
include contract

theorem processParsed_respects {ikeSa : IkeSa} {outcomes : Outcomes} {manager : TaskManager}
    {message : Message}
    (expectedRequest : message.request = true →
      message.messageId = manager.responding.mid ∨ GenuineMidSync ikeSa message)
    (expectedResponse : message.request = false → message.messageId = manager.initiating.mid) :
    RespectsIds ikeSa outcomes manager (processParsed handleFragment ikeSa outcomes manager message) := by
  unfold processParsed
  split
  · exact .of_quiet (noTasks_notify _) (.inl rfl)
  · split
    · exact .of_quiet noTasks_nil (.inl rfl)
    · dsimp only
      split
      · exact contract.respects ikeSa outcomes manager message
      · split
        · exact contract.respects ikeSa outcomes manager message
        · next handledSuccess _ =>
            -- handle_fragment let the message through untouched: hand it to the tasks
            obtain ⟨respondingKept, initiatingKept, quiet⟩ :=
              contract.frame ikeSa outcomes manager message (of_not_not handledSuccess)
            apply RespectsIds.afterEvents quiet
            apply RespectsIds.of_mid_eq respondingKept
            split
            · next isRequest =>
                apply answerRequest_respects
                rw [respondingKept]
                exact expectedRequest isRequest
            · next isResponse =>
                apply answerResponse_respects
                rw [initiatingKept]
                exact expectedResponse (by simpa using isResponse)

theorem continueParsed_respects {ikeSa : IkeSa} {outcomes : Outcomes} {manager : TaskManager}
    {message : Message} {potentialMidSync : Bool}
    (expectedRequest : message.request = true → potentialMidSync = false →
      message.messageId = manager.responding.mid)
    (candidate : potentialMidSync = true →
      message.messageId = 0 ∧ isPotentialMidSync ikeSa message = true)
    (expectedResponse : message.request = false → message.messageId = manager.initiating.mid) :
    RespectsIds ikeSa outcomes manager
      (continueParsed handleFragment ikeSa outcomes manager message potentialMidSync) := by
  have quiet := parseMessage_quiet ikeSa outcomes manager message
  unfold continueParsed
  dsimp only
  split
  · exact .of_quiet quiet.1 quiet.2
  · next notIgnored =>
      split
      · exact .of_quiet quiet.1 quiet.2
      · next parsedSuccess =>
          have parsed := parseMessage_of_success (of_not_not parsedSuccess)
          rw [parsed]
          apply RespectsIds.afterEvents noTasks_nil
          apply processParsed_respects contract _ expectedResponse
          intro isRequest
          cases potential : potentialMidSync
          · exact .inl (expectedRequest isRequest potential)
          · -- a potential MID-sync request that parsed and was not ignored is a genuine one
            obtain ⟨zero, potentialSync⟩ := candidate potential
            have midSync : isMidSync message = true := by
              by_contra notSync
              exact notIgnored ⟨potential, by rw [parsed], notSync⟩
            exact .inr ⟨zero, potentialSync, midSync⟩

/-- One call of `process_message` respects the message IDs. -/
theorem processMessageWith_respects (ikeSa : IkeSa) (outcomes : Outcomes) (manager : TaskManager)
    (message : Message) :
    RespectsIds ikeSa outcomes manager (processMessageWith handleFragment ikeSa outcomes manager message) := by
  unfold processMessageWith
  split
  · next isRequest =>
      split
      · exact .of_quiet (by simp [NoTasks]) (.inl rfl)
      · next current =>
          exact continueParsed_respects contract (fun _ _ => isRetransmit_eq_needMore.mp current)
            (by simp) (by simp [isRequest])
      · split
        · next potential =>
            exact continueParsed_respects contract (by simp) (fun _ => potential)
              (by simp [isRequest])
        · exact .of_quiet noTasks_nil (.inl rfl)
  · next isResponse =>
      split
      · next expected =>
          exact continueParsed_respects contract (by simp [isResponse]) (by simp)
            (fun _ => expected)
      · exact .of_quiet noTasks_nil (.inl rfl)

end WithContract

/-- A retransmitted request only resends the stored response. -/
theorem processMessageWith_retransmit
    (handleFragment : IkeSa → Outcomes → TaskManager → Message → TaskManager × List Event × Status)
    (ikeSa : IkeSa) (outcomes : Outcomes) {manager : TaskManager} {message : Message}
    (retransmit : IsRetransmit manager message) :
    processMessageWith handleFragment ikeSa outcomes manager message =
      (manager, [.resend manager.responding.packets], .success) := by
  simp only [processMessageWith, retransmit.1, if_true, isRetransmit_eq_alreadyDone retransmit]

/-! ## Fragments and the reinjected message -/

theorem handleReassembled_contract : FragmentContract handleReassembled where
  frame ikeSa outcomes manager message _ := by
    unfold handleReassembled
    split <;> exact ⟨rfl, rfl, noTasks_nil⟩
  respects ikeSa outcomes manager message := by
    unfold handleReassembled
    split <;> exact .of_quiet noTasks_nil (.inl rfl)

theorem processReassembled_respects (ikeSa : IkeSa) (outcomes : Outcomes) (manager : TaskManager)
    (message : Message) :
    RespectsIds ikeSa outcomes manager (processReassembled ikeSa outcomes manager message) := by
  unfold processReassembled
  split
  · exact .of_quiet noTasks_nil (.inl rfl)
  · exact processMessageWith_respects handleReassembled_contract ikeSa outcomes manager message

theorem noTasks_destroyDefrag (manager : TaskManager) (request : Bool) :
    NoTasks (destroyDefrag manager request).2 := by
  unfold destroyDefrag
  split
  · exact noTasks_nil
  · intro message mid
    simp

/-- A fragment is never answered with SUCCESS: it is stored, or its
reassembly is reinjected and answered there. -/
theorem handleFragment_of_fragment {ikeSa : IkeSa} {outcomes : Outcomes} {manager : TaskManager}
    {message : Message} {fragment : EncryptedFragmentPayload} (isFragment : message.fragment = some fragment) :
    (handleFragment ikeSa outcomes manager message).2.2 ≠ .success := by
  have reinjectedStatus : ∀ status : Status,
      (if status = .success then Status.needMore else status) ≠ .success := by
    intro status
    split <;> simp_all
  intro succeeded
  simp only [handleFragment, isFragment] at succeeded
  split at succeeded
  · simp at succeeded
  · split at succeeded
    · exact reinjectedStatus _ succeeded
    · simp_all

/-- `handle_fragment` keeps the contract: only a message without a fragment
gets SUCCESS, and a completed reassembly is processed like any message. -/
theorem handleFragment_contract : FragmentContract handleFragment where
  frame ikeSa outcomes manager message succeeded := by
    cases isFragment : message.fragment with
    | none =>
        simp only [handleFragment, isFragment]
        exact ⟨rfl, rfl, noTasks_nil⟩
    | some fragment =>
        exact absurd succeeded (handleFragment_of_fragment isFragment)
  respects ikeSa outcomes manager message := by
    unfold handleFragment
    split
    · exact .of_quiet noTasks_nil (.inl (by simp))
    · dsimp only
      split
      · exact .of_quiet noTasks_nil (.inl rfl)
      · next defrag _ =>
          -- storing the fragment and hashing fragment 1 keep the counters
          have hashedMid : ∀ (added : PrivateMessage × Status × Option (UInt8 × List UInt8))
              (fragment : EncryptedFragmentPayload),
              (if (added.2.1 = .needMore ∨ added.2.1 = .success) ∧ fragment.fragmentNumber = 1 then
                  (manager.setDefrag message.request (some { defrag with state := added.1 })).setHash
                    message.packetHash
                else manager.setDefrag message.request (some { defrag with state := added.1 })
                ).responding.mid = manager.responding.mid := by
            intro added fragment
            split <;> simp
          split
          · apply RespectsIds.of_events_mid (RespectsIds.of_mid_eq (hashedMid _ _)
              (processReassembled_respects ikeSa outcomes _ (reassembledMessage defrag outcomes)))
            · rfl
            · exact noTasks_destroyDefrag _ _
            · exact (mids_destroyDefrag _ _).1
          · exact .of_quiet noTasks_nil (.inl (hashedMid _ _))

/-! ## Every run -/

/-- One call accepts messages by their ID: it respects the IDs as `RespectsIds`
says, and a retransmitted request only resends the stored response. -/
structure AcceptsByMessageId (ikeSa : IkeSa) (outcomes : Outcomes) (before : TaskManager)
    (message : Message) (result : TaskManager × List Event × Status) : Prop
    extends RespectsIds ikeSa outcomes before result where
  retransmit : IsRetransmit before message →
    result = (before, [.resend before.responding.packets], .success)

theorem processStep_accepts (manager : TaskManager) (delivery : Delivery) :
    AcceptsByMessageId delivery.ikeSa delivery.outcomes manager delivery.message
      (processStep manager delivery) where
  toRespectsIds := processMessageWith_respects handleFragment_contract _ _ _ _
  retransmit := processMessageWith_retransmit handleFragment _ _

/-- Over every run of deliveries from any state, every call of
`process_message` hands only expected or genuine MID-sync requests to
`process_request` and only expected responses to `process_response`, moves
`responding.mid` by at most one unless a task set the message IDs, and answers
a retransmitted request only by resending the stored response. -/
theorem processMessage_accepts_by_message_id (start : TaskManager) (deliveries : List Delivery) :
    ∀ met ∈ statesMet processStep start deliveries,
      AcceptsByMessageId met.2.ikeSa met.2.outcomes met.1 met.2.message (processStep met.1 met.2) :=
  forall_mem_statesMet (fun _ => True)
    (fun manager delivery result =>
      AcceptsByMessageId delivery.ikeSa delivery.outcomes manager delivery.message result)
    (fun _ _ _ _ => trivial) (fun manager delivery _ _ => processStep_accepts manager delivery)
    trivial (admissible_of_forall_mem _ _ (fun _ _ _ => trivial) start)

/-- An IKE_SA that has sent its IKE_SA_INIT request as initiator. -/
def connectingInitiator : IkeSa := ⟨.ikeConnecting, true, false, true, true, false, 65000⟩

/-- Every parse and task succeeds without touching the message IDs, except
that the IKE_SA_INIT response resets the IKE_SA, as `ike_init` does on a
COOKIE or INVALID_KE_PAYLOAD notify. -/
def cookieOutcomes : Outcomes where
  keysDerived _ := true
  parseBody _ := .success
  reassembledPayloads := []
  processRequest _ := ⟨.success, .none, none⟩
  processResponse _ := ⟨.success, .resetIkeSa⟩

/-- A request with ID 0 carrying a critical payload of unknown type. -/
def criticalRequest : Delivery :=
  ⟨⟨true, 0, informational, [], [.unknown 200 true]⟩, connectingInitiator, cookieOutcomes⟩

/-- The IKE_SA_INIT response with a COOKIE notify. -/
def cookieResponse : Delivery :=
  ⟨⟨false, 0, ikeSaInit, [], [.notify 16390]⟩, connectingInitiator, cookieOutcomes⟩

/-- The request uses up ID 0, and the reset on the COOKIE response sets
`responding.mid` back from 1 to 0 with no MID-sync task involved. -/
theorem processMessage_reset_lowers_responding_mid :
    let first := processStep taskManagerCreate criticalRequest
    let second := processStep first.1 cookieResponse
    first.1.responding.mid = 1 ∧ second.1.responding.mid = 0 ∧
      second.2.1 = [.response cookieResponse.message 0] := by
  decide

theorem processMessage_accepts_by_message_id_cookie :
    (taskManagerCreate, criticalRequest) ∈
        statesMet processStep taskManagerCreate [criticalRequest, cookieResponse] ∧
      AcceptsByMessageId criticalRequest.ikeSa criticalRequest.outcomes taskManagerCreate
        criticalRequest.message (processStep taskManagerCreate criticalRequest) :=
  ⟨by simp [statesMet],
    processMessage_accepts_by_message_id taskManagerCreate [criticalRequest, cookieResponse]
      (taskManagerCreate, criticalRequest) (by simp [statesMet])⟩

end StrongSwan.Libcharon.Sa.Ikev2.TaskManagerV2
