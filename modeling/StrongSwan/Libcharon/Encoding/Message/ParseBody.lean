import StrongSwan.Libstrongswan.Utils.Status

/-!
Contract: the body of an inbound message in `message.c`, from `parse_body` to
the payload list the daemon then reads.

`parse_body` looks up the message rule of the exchange type and direction,
parses the unprotected payload chain of a packet (a reassembled message comes
with its list already built), runs `decrypt_payloads` over that list and
counts the result against the payload rules in `verify`.

Owns: `get_message_rule`, `get_payload_rule`, `parse_payloads`,
`is_connectivity_check`, `accept_unencrypted_mm`, the list handling of
`decrypt_and_extract`, `decrypt_payloads` with the enumerator it removes from
and appends behind, `verify` and `parse_body`; the three ways a successful
run of the decryption loop ends, and what a successful `parse_body` says of
the unprotected chain, of every payload that has to be encrypted and of the
occurrence counts.

Does not own: the AEAD and the parsing of the plaintext inside an encrypted
or fragment payload, which the context gives; the message rule tables, which
are a parameter; the `first_payload` field that the extraction rewrites when
no payload stands before it; the payload order tables.
-/

namespace StrongSwan.Libcharon.Encoding.Message.ParseBody

open StrongSwan.Libstrongswan.Utils

/-- `PL_NONE`. -/
def plNone : Nat := 0
/-- `PLV1_ID`. -/
def plv1Id : Nat := 5
/-- `PLV1_HASH`. -/
def plv1Hash : Nat := 8
/-- `PLV2_NOTIFY`. -/
def plv2Notify : Nat := 41
/-- `PLV2_ENCRYPTED`. -/
def plv2Encrypted : Nat := 46
/-- `PLV2_FRAGMENT`. -/
def plv2Fragment : Nat := 53
/-- `PL_UNKNOWN`, the type an unknown payload reports. -/
def plUnknown : Nat := 257
/-- `PLV1_ENCRYPTED`, the wrapper of an encrypted IKEv1 message. -/
def plv1Encrypted : Nat := 267

/-- `ME_ENDPOINT`, `ME_CONNECTID` and `ME_CONNECTAUTH`. -/
def meEndpoint : UInt16 := 40963
def meConnectid : UInt16 := 40965
def meConnectauth : UInt16 := 40967

/-- `ID_PROT`, `AGGRESSIVE` and `INFORMATIONAL`. -/
def idProt : UInt8 := 2
def aggressive : UInt8 := 4
def informational : UInt8 := 37

/-- The types `payload_create` builds a payload of its own for, with
`PLV2_ID_PEER` only in a build with mediation. -/
def knownPayloadTypes (mediation : Bool) : List Nat :=
  [256, 33, 1, 258, 259, 260, 261, 262, 263, 40, 10, 35, 36, 5, 21, 131] ++
  (if mediation then [128] else []) ++
  [39, 37, 6, 38, 7, 264, 44, 45, 34, 4, 41, 11, 42, 12, 43, 13, 8, 9, 20, 130, 47, 14,
    265, 266, 48, 46, 267, 132, 53]

/-- The `get_type` of the payload `payload_create` builds for a type: any
other type gives an unknown payload. -/
def payloadCreate (mediation : Bool) (type : Nat) : Nat :=
  if type ∈ knownPayloadTypes mediation then type else plUnknown

/-- A payload object as the body parsing reads it: its type, its next payload
and, for a notify, the notify type. -/
structure Payload where
  type : Nat
  nextType : Nat
  notifyType : Option UInt16
deriving Repr, DecidableEq

/-- What a payload is apart from its next payload type, which the extraction
rewrites. -/
def Payload.contents (payload : Payload) : Nat × Option UInt16 :=
  (payload.type, payload.notifyType)

/-- `payload_rule_t`. -/
structure PayloadRule where
  type : Nat
  minOccurrence : Nat
  maxOccurrence : Nat
  encrypted : Bool
  sufficient : Bool
deriving Repr, DecidableEq

/-- `message_rule_t`, without the payload order used when generating. -/
structure MessageRule where
  exchangeType : UInt8
  isRequest : Bool
  encrypted : Bool
  rules : List PayloadRule
deriving Repr, DecidableEq

/-- What `parse_payload` and the payload's `verify` give for the next payload
of the packet, when it parses. -/
structure ParsedPayload where
  nextType : Nat
  notifyType : Option UInt16
  verifies : Bool
deriving Repr, DecidableEq

/-- A message at `parse_body`: its header fields, the parser over the rest of
the packet (none for a reassembled message) and the payloads it holds. -/
structure BodyMessage where
  exchangeType : UInt8
  isRequest : Bool
  firstPayload : Nat
  isEncrypted : Bool
  parser : Option (List (Option ParsedPayload))
  payloads : List Payload

/-- What `parse_body` reads beyond the message: the mediation build option,
the `accept_unencrypted_mainmode_messages` setting, and what
`decrypt_and_extract` (up to its extraction loop) and `decrypt_fragment`
give with the keymat's AEAD. For a packet `decrypt` authenticates and
decrypts; for a reassembled message it parses the plaintext of fragments that
were each authenticated when they arrived. -/
structure BodyContext where
  mediation : Bool
  acceptUnencryptedMainmode : Bool
  decrypt : Payload → Except Status (List Payload)
  decryptFragment : Payload → Status

/-- `get_message_rule` over the rule table. -/
def getMessageRule (table : List MessageRule) (message : BodyMessage) : Option MessageRule :=
  table.find? fun rule => rule.exchangeType == message.exchangeType && rule.isRequest == message.isRequest

/-- `get_payload_rule`. -/
def getPayloadRule (rule : MessageRule) (type : Nat) : Option PayloadRule :=
  rule.rules.find? fun payloadRule => payloadRule.type == type

/-- The loop of `parse_payloads`: payloads are parsed by the type their
predecessor names until `PL_NONE`, and parsing stops after an encrypted or
fragment payload. -/
def parseChain (mediation : Bool) (type : Nat) (entries : List (Option ParsedPayload)) :
    Except Status (List Payload) :=
  if type = plNone then .ok []
  else
    match entries with
    | [] => .error .parseError
    | none :: _ => .error .parseError
    | some parsed :: rest =>
      if !parsed.verifies then .error .verifyError
      else
        let payload : Payload := ⟨payloadCreate mediation type, parsed.nextType, parsed.notifyType⟩
        if type = plv2Encrypted ∨ type = plv2Fragment then .ok [payload]
        else (parseChain mediation parsed.nextType rest).map (payload :: ·)

/-- `parse_payloads`: an encrypted IKEv1 message is wrapped whole in one
`PLV1_ENCRYPTED` payload; otherwise the chain is parsed from the first
payload. -/
def parsePayloads (mediation : Bool) (message : BodyMessage) (entries : List (Option ParsedPayload)) :
    Except Status (List Payload) :=
  if message.isEncrypted then
    match entries with
    | some parsed :: _ => .ok (message.payloads ++ [⟨plv1Encrypted, message.firstPayload, parsed.notifyType⟩])
    | _ => .error .parseError
  else (parseChain mediation message.firstPayload entries).map (message.payloads ++ ·)

/-- The list `decrypt_payloads` enumerates: the parsed chain of a packet, or
the list a reassembled message already holds. -/
def unprotectedPayloads (context : BodyContext) (message : BodyMessage) : Except Status (List Payload) :=
  match message.parser with
  | some entries => parsePayloads context.mediation message entries
  | none => .ok message.payloads

/-- `is_connectivity_check`, false in a build without mediation. -/
def isConnectivityCheck (context : BodyContext) (message : BodyMessage) (payload : Payload) : Bool :=
  context.mediation && message.exchangeType == informational && payload.type == plv2Notify &&
    match payload.notifyType with
    | some notifyType => notifyType == meConnectid || notifyType == meEndpoint || notifyType == meConnectauth
    | none => false

/-- `accept_unencrypted_mm`. -/
def acceptUnencryptedMm (context : BodyContext) (message : BodyMessage) (type : Nat) : Bool :=
  message.exchangeType == idProt && (type == plv1Id || type == plv1Hash) && context.acceptUnencryptedMainmode

/-- The types `decrypt_payloads` treats as protected. -/
def isProtected (type : Nat) : Bool :=
  type == plv2Encrypted || type == plv1Encrypted || type == plv2Fragment

/-- `!rule || rule->encrypted`. -/
def mustBeEncrypted (rule : MessageRule) (type : Nat) : Bool :=
  match getPayloadRule rule type with
  | none => true
  | some payloadRule => payloadRule.encrypted

/-- The check closing each pass of `decrypt_payloads`: a payload that the
rules want encrypted and that did not come out of an encrypted payload. -/
def notEncrypted (rule : MessageRule) (context : BodyContext) (message : BodyMessage)
    (wasEncrypted : Bool) (payload : Payload) : Bool :=
  payload.type != plUnknown && !wasEncrypted && !isConnectivityCheck context message payload &&
    message.exchangeType != aggressive && mustBeEncrypted rule payload.type &&
    !acceptUnencryptedMm context message payload.type

/-- `set_next_type` on the payload before the extracted ones. -/
def setLastNextType (type : Nat) : List Payload → List Payload
  | [] => []
  | [previous] => [{ previous with nextType := type }]
  | payload :: rest => payload :: setLastNextType type rest

/-- The extraction loop of `decrypt_and_extract`: each payload taken out of
the encrypted payload becomes the next payload of the one before it and is
inserted at the end of the list. -/
def extract (payloads : List Payload) : List Payload → List Payload
  | [] => payloads
  | encrypted :: rest => extract (setLastNextType encrypted.type payloads ++ [encrypted]) rest

/-- One pass of the loop of `decrypt_payloads` up to its rule check: the
marker `was_encrypted` and the list up to the enumerator afterwards. -/
def decryptPass (context : BodyContext) (wasEncrypted : Bool) (passed : List Payload)
    (payload : Payload) (rest : List Payload) : Except Status (Bool × List Payload) :=
  if isProtected payload.type && wasEncrypted then .error .verifyError
  else if payload.type = plv2Encrypted ∨ payload.type = plv1Encrypted then
    -- remove_at takes the payload out and leaves the enumerator on `rest`;
    -- the extracted payloads go in behind it and are never enumerated
    if !rest.isEmpty then .error .verifyError
    else (context.decrypt payload).map fun extracted => (true, extract passed extracted)
  else if payload.type = plv2Fragment then
    if !rest.isEmpty then .error .verifyError
    else
      match context.decryptFragment payload with
      | .success => .ok (true, passed ++ [payload])
      | status => .error status
  else .ok (wasEncrypted, passed ++ [payload])

/-- `decrypt_payloads`: `passed` is the list up to the enumerator. -/
def decryptPayloads (rule : MessageRule) (context : BodyContext) (message : BodyMessage)
    (wasEncrypted : Bool) (passed : List Payload) : List Payload → Except Status (List Payload)
  | [] => .ok passed
  | payload :: rest =>
    match decryptPass context wasEncrypted passed payload rest with
    | .error status => .error status
    | .ok (marked, list) =>
      if notEncrypted rule context message marked payload then .error .failed
      else decryptPayloads rule context message marked list rest

/-- How many payloads of a type a list holds. -/
def occurrences (payloads : List Payload) (type : Nat) : Nat :=
  payloads.countP fun payload => payload.type == type

/-- `verify`. The source returns as soon as its count passes
`max_occurrence`, which gives the status of comparing the whole count. -/
def verify (payloads : List Payload) (complete : Bool) : List PayloadRule → Status
  | [] => .success
  | payloadRule :: rules =>
    let found := occurrences payloads payloadRule.type
    if found > payloadRule.maxOccurrence then .verifyError
    else if !complete && found < payloadRule.minOccurrence then .verifyError
    else verify payloads (complete || (found != 0 && payloadRule.sufficient)) rules

/-- `parse_body`: the payload list of the message when it returns `SUCCESS`. -/
def parseBody (table : List MessageRule) (context : BodyContext) (message : BodyMessage) :
    Except Status (List Payload) :=
  match getMessageRule table message with
  | none => .error .notSupported
  | some rule =>
    match unprotectedPayloads context message with
    | .error status => .error status
    | .ok unprotected =>
      match decryptPayloads rule context message false [] unprotected with
      | .error status => .error status
      | .ok payloads =>
        match verify payloads false rule.rules with
        | .success => .ok payloads
        | status => .error status

/-! ## The extraction -/

@[simp] theorem map_contents_setLastNextType (type : Nat) (payloads : List Payload) :
    (setLastNextType type payloads).map Payload.contents = payloads.map Payload.contents := by
  fun_induction setLastNextType type payloads <;> simp_all [Payload.contents]

/-- Extraction relinks the payloads and keeps what each of them is. -/
theorem map_contents_extract (payloads extracted : List Payload) :
    (extract payloads extracted).map Payload.contents = (payloads ++ extracted).map Payload.contents := by
  induction extracted generalizing payloads with
  | nil => simp [extract]
  | cons encrypted rest inductionHypothesis =>
    rw [extract, inductionHypothesis]
    simp

theorem exists_contents_of_mem_extract {payloads extracted : List Payload} {payload : Payload}
    (member : payload ∈ extract payloads extracted) :
    ∃ original ∈ payloads ++ extracted, original.contents = payload.contents := by
  have contained : payload.contents ∈ (payloads ++ extracted).map Payload.contents := by
    rw [← map_contents_extract]
    exact List.mem_map_of_mem member
  obtain ⟨original, inOriginal, same⟩ := List.mem_map.mp contained
  exact ⟨original, inOriginal, same⟩

/-! ## One pass and the whole loop -/

/-- The three things a pass does when no protected payload came before:
pass a plain payload on, or end the list with an encrypted payload replaced by
its contents or with an authenticated fragment. -/
theorem decryptPass_cases {context : BodyContext} {passed rest list : List Payload}
    {payload : Payload} {marked : Bool}
    (passes : decryptPass context false passed payload rest = .ok (marked, list)) :
    (isProtected payload.type = false ∧ marked = false ∧ list = passed ++ [payload]) ∨
    (rest = [] ∧ marked = true ∧ (payload.type = plv2Encrypted ∨ payload.type = plv1Encrypted) ∧
      ∃ extracted, context.decrypt payload = .ok extracted ∧ list = extract passed extracted) ∨
    (rest = [] ∧ marked = true ∧ payload.type = plv2Fragment ∧
      context.decryptFragment payload = .success ∧ list = passed ++ [payload]) := by
  unfold decryptPass at passes
  simp only [Bool.and_false, Bool.false_eq_true, ↓reduceIte, Bool.not_eq_eq_eq_not,
    Bool.not_true, List.isEmpty_eq_false_iff, ne_eq] at passes
  by_cases encrypted : payload.type = plv2Encrypted ∨ payload.type = plv1Encrypted
  case pos =>
    rw [if_pos encrypted] at passes
    split at passes
    · cases passes
    · cases decrypted : context.decrypt payload with
      | error status => simp [decrypted, Except.map] at passes
      | ok extracted =>
        simp only [decrypted, Except.map, Except.ok.injEq, Prod.mk.injEq] at passes
        exact .inr (.inl ⟨by simpa using ‹¬rest ≠ []›, passes.1.symm, encrypted, extracted, rfl,
          passes.2.symm⟩)
  case neg =>
    rw [if_neg encrypted] at passes
    by_cases fragment : payload.type = plv2Fragment
    case pos =>
      rw [if_pos fragment] at passes
      split at passes
      · cases passes
      · split at passes
        · simp only [Except.ok.injEq, Prod.mk.injEq] at passes
          exact .inr (.inr ⟨by simpa using ‹¬rest ≠ []›, passes.1.symm, fragment, ‹_›, passes.2.symm⟩)
        · cases passes
    case neg =>
      rw [if_neg fragment] at passes
      simp only [Except.ok.injEq, Prod.mk.injEq] at passes
      refine .inl ⟨?_, passes.1.symm, passes.2.symm⟩
      simp only [not_or] at encrypted
      simp [isProtected, encrypted.1, encrypted.2, fragment]

/-- The payloads a run passes on without decrypting, each of them plain and
allowed unencrypted. -/
def Checked (rule : MessageRule) (context : BodyContext) (message : BodyMessage)
    (front : List Payload) : Prop :=
  ∀ payload ∈ front, isProtected payload.type = false ∧
    notEncrypted rule context message false payload = false

/-- How a successful run of the loop of `decrypt_payloads` from `passed` over
a list ends: with every payload passed on, with a last encrypted payload
replaced by what it contains, or with a last fragment that authenticated. -/
inductive Decrypted (rule : MessageRule) (context : BodyContext) (message : BodyMessage)
    (passed : List Payload) : List Payload → List Payload → Prop
  | plain {front : List Payload} :
      Checked rule context message front → Decrypted rule context message passed front (passed ++ front)
  | encrypted {front : List Payload} {encrypted : Payload} {extracted : List Payload} :
      Checked rule context message front →
      (encrypted.type = plv2Encrypted ∨ encrypted.type = plv1Encrypted) →
      context.decrypt encrypted = .ok extracted →
      Decrypted rule context message passed (front ++ [encrypted]) (extract (passed ++ front) extracted)
  | fragment {front : List Payload} {fragment : Payload} :
      Checked rule context message front → fragment.type = plv2Fragment →
      context.decryptFragment fragment = .success →
      Decrypted rule context message passed (front ++ [fragment]) (passed ++ front ++ [fragment])

section Loop

variable {rule : MessageRule} {context : BodyContext} {message : BodyMessage}

theorem checked_cons {payload : Payload} {front : List Payload}
    (first : isProtected payload.type = false ∧ notEncrypted rule context message false payload = false)
    (others : Checked rule context message front) :
    Checked rule context message (payload :: front) := by
  intro member inFront
  rcases List.mem_cons.mp inFront with same | later
  · exact same ▸ first
  · exact others member later

/-- A plain payload passed on in front of a run joins the payloads it checked. -/
theorem Decrypted.cons {passed rest final : List Payload} {payload : Payload}
    (first : isProtected payload.type = false ∧ notEncrypted rule context message false payload = false)
    (run : Decrypted rule context message (passed ++ [payload]) rest final) :
    Decrypted rule context message passed (payload :: rest) final := by
  cases run with
  | plain checked =>
    simpa using @Decrypted.plain rule context message passed _ (checked_cons first checked)
  | encrypted checked isEncrypted decrypted =>
    simpa using @Decrypted.encrypted rule context message passed _ _ _ (checked_cons first checked)
      isEncrypted decrypted
  | fragment checked isFragment authenticated =>
    simpa using @Decrypted.fragment rule context message passed _ _ (checked_cons first checked)
      isFragment authenticated

@[simp] theorem decryptPayloads_nil (marked : Bool) (passed : List Payload) :
    decryptPayloads rule context message marked passed [] = .ok passed := rfl

/-- Every successful run of the loop from a cleared marker ends in one of the
three ways of `Decrypted`. -/
theorem decrypted_of_decryptPayloads {passed list final : List Payload}
    (succeeds : decryptPayloads rule context message false passed list = .ok final) :
    Decrypted rule context message passed list final := by
  -- induction on the enumerated list; a pass that marks the payload as
  -- decrypted has left nothing to enumerate
  induction list generalizing passed with
  | nil =>
    simp only [decryptPayloads_nil, Except.ok.injEq] at succeeds
    subst succeeds
    simpa using @Decrypted.plain rule context message passed [] (by simp [Checked])
  | cons payload rest inductionHypothesis =>
    rw [decryptPayloads] at succeeds
    split at succeeds
    · cases succeeds
    · rename_i marked list passes
      split at succeeds
      · cases succeeds
      · rename_i allowed
        rcases decryptPass_cases passes with
          ⟨plain, unmarked, passedOn⟩ | ⟨ends, _, isEncrypted, extracted, decrypted, replaced⟩ |
            ⟨ends, _, isFragment, authenticated, passedOn⟩
        · subst unmarked passedOn
          exact Decrypted.cons ⟨plain, by simpa using allowed⟩ (inductionHypothesis succeeds)
        · subst ends replaced
          cases succeeds
          simpa using @Decrypted.encrypted rule context message passed [] _ _ (by simp [Checked])
            isEncrypted decrypted
        · subst ends passedOn
          cases succeeds
          simpa using @Decrypted.fragment rule context message passed [] _ (by simp [Checked])
            isFragment authenticated

/-- Of the payloads a run passed on unchecked, at most one is protected, and
it is the last. -/
theorem protected_last_of_checked {front : List Payload} {last : Payload}
    (checked : Checked rule context message front) (lastProtected : isProtected last.type = true) :
    ((front ++ [last]).filter fun payload => isProtected payload.type).length ≤ 1 ∧
      ∀ payload ∈ front ++ [last], isProtected payload.type = true →
        (front ++ [last]).getLast? = some payload := by
  have plainFront : front.filter (fun payload => isProtected payload.type) = [] :=
    List.filter_eq_nil_iff.mpr fun payload member => by simp [(checked payload member).1]
  constructor
  · simp [List.filter_append, plainFront, lastProtected]
  · intro payload member isProtectedPayload
    rcases List.mem_append.mp member with inFront | isLast
    · simp [(checked payload inFront).1] at isProtectedPayload
    · simp_all

/-- The list a successful run enumerates holds at most one protected payload,
and only as its last. -/
theorem Decrypted.protected_last {passed list final : List Payload}
    (run : Decrypted rule context message passed list final) :
    (list.filter fun payload => isProtected payload.type).length ≤ 1 ∧
      ∀ payload ∈ list, isProtected payload.type = true → list.getLast? = some payload := by
  cases run with
  | plain checked =>
    have plainFront : list.filter (fun payload => isProtected payload.type) = [] :=
      List.filter_eq_nil_iff.mpr fun payload member => by simp [(checked payload member).1]
    refine ⟨by simp [plainFront], fun payload member isProtectedPayload => ?_⟩
    simp [(checked payload member).1] at isProtectedPayload
  | encrypted checked isEncrypted _ =>
    apply protected_last_of_checked checked
    rcases isEncrypted with sameType | sameType <;> simp [isProtected, sameType]
  | fragment checked isFragment _ =>
    apply protected_last_of_checked checked
    simp [isProtected, isFragment]

/-- The check reads a payload's type and notify type only, so relinking does
not change it. -/
theorem notEncrypted_congr {marked : Bool} {payload original : Payload}
    (same : original.contents = payload.contents) :
    notEncrypted rule context message marked original = notEncrypted rule context message marked payload := by
  simp only [Payload.contents, Prod.mk.injEq] at same
  simp only [notEncrypted, isConnectivityCheck, same.1, same.2]

/-- A payload in the list a successful run leaves that the check would refuse
came out of the last encrypted payload of the enumerated list, or is the last
fragment and authenticated. -/
theorem Decrypted.encrypted_origin {list final : List Payload}
    (run : Decrypted rule context message [] list final) {payload : Payload}
    (member : payload ∈ final) (refused : notEncrypted rule context message false payload = true) :
    (∃ encrypted ∈ list, (encrypted.type = plv2Encrypted ∨ encrypted.type = plv1Encrypted) ∧
      ∃ extracted, context.decrypt encrypted = .ok extracted ∧
        ∃ original ∈ extracted, original.contents = payload.contents) ∨
    (payload ∈ list ∧ payload.type = plv2Fragment ∧ context.decryptFragment payload = .success) := by
  -- a payload passed on in front was checked, and so was anything with its contents
  have notChecked : ∀ {front : List Payload}, Checked rule context message front →
      ∀ original ∈ front, original.contents ≠ payload.contents := by
    intro front checked original inFront same
    have allowed := (checked original inFront).2
    rw [notEncrypted_congr same, refused] at allowed
    cases allowed
  cases run with
  | plain checked =>
    exact absurd rfl (notChecked checked payload (by simpa using member))
  | @encrypted front encrypted extracted checked isEncrypted decrypted =>
    obtain ⟨original, inOriginal, same⟩ := exists_contents_of_mem_extract member
    rcases List.mem_append.mp inOriginal with inFront | inExtracted
    · exact absurd same (notChecked checked original (by simpa using inFront))
    · exact .inl ⟨encrypted, by simp, isEncrypted, extracted, decrypted, original, inExtracted, same⟩
  | @fragment front fragment checked isFragment authenticated =>
    simp only [List.nil_append, List.mem_append, List.mem_singleton] at member
    rcases member with inFront | isFragmentPayload
    · exact absurd rfl (notChecked checked payload inFront)
    · subst isFragmentPayload
      exact .inr ⟨by simp, isFragment, authenticated⟩

end Loop

/-- The payloads the check refuses when they stand outside an encrypted
payload: known ones that the rules want encrypted and no exception covers. -/
theorem notEncrypted_of_unprotected {rule : MessageRule} {context : BodyContext}
    {message : BodyMessage} {payload : Payload}
    (notAggressive : message.exchangeType ≠ aggressive) (known : payload.type ≠ plUnknown)
    (wanted : mustBeEncrypted rule payload.type = true)
    (notCheck : isConnectivityCheck context message payload = false)
    (notMainMode : acceptUnencryptedMm context message payload.type = false) :
    notEncrypted rule context message false payload = true := by
  simp [notEncrypted, known, wanted, notCheck, notMainMode, notAggressive]

/-! ## The occurrence check -/

/-- What `verify` checks: no rule's type occurs more often than its maximum,
and each occurs at least its minimum unless the check was complete on entry or
an earlier rule marked sufficient has a payload. -/
theorem verify_eq_success_iff (payloads : List Payload) (complete : Bool) (rules : List PayloadRule) :
    verify payloads complete rules = .success ↔
      ∀ i payloadRule, rules[i]? = some payloadRule →
        occurrences payloads payloadRule.type ≤ payloadRule.maxOccurrence ∧
        (payloadRule.minOccurrence ≤ occurrences payloads payloadRule.type ∨ complete = true ∨
          ∃ earlier ∈ rules.take i, earlier.sufficient = true ∧ 0 < occurrences payloads earlier.type) := by
  -- induction on the rules; the marker `complete` carries what the rules
  -- before have found
  induction rules generalizing complete with
  | nil => simp [verify]
  | cons payloadRule rules inductionHypothesis =>
    by_cases tooMany : occurrences payloads payloadRule.type > payloadRule.maxOccurrence
    case pos =>
      simp only [verify, if_pos tooMany, reduceCtorEq, false_iff, not_forall]
      exact ⟨0, payloadRule, rfl, fun bounded => by omega⟩
    case neg =>
      by_cases tooFew : complete = false ∧ occurrences payloads payloadRule.type < payloadRule.minOccurrence
      case pos =>
        simp only [verify, if_neg tooMany, tooFew, Bool.not_false, decide_true, Bool.true_and,
          ↓reduceIte, reduceCtorEq, false_iff, not_forall]
        exact ⟨0, payloadRule, rfl, fun bounded => by simp at bounded; omega⟩
      case neg =>
        have enough : payloadRule.minOccurrence ≤ occurrences payloads payloadRule.type ∨ complete = true := by
          cases complete <;> simp_all
        simp only [verify, if_neg tooMany]
        rw [if_neg (by cases complete <;> simp_all), inductionHypothesis]
        constructor
        · intro later i rule atIndex
          cases i with
          | zero =>
            simp only [List.getElem?_cons_zero, Option.some.injEq] at atIndex
            subst atIndex
            exact ⟨by omega, by simpa using enough⟩
          | succ i =>
            obtain ⟨bounded, atLeast⟩ := later i rule (by simpa using atIndex)
            refine ⟨bounded, ?_⟩
            rcases atLeast with atLeast | wasComplete | earlier
            · exact .inl atLeast
            · simp only [Bool.or_eq_true, Bool.and_eq_true, bne_iff_ne, ne_eq] at wasComplete
              rcases wasComplete with wasComplete | ⟨present, sufficient⟩
              · exact .inr (.inl wasComplete)
              · exact .inr (.inr ⟨payloadRule, by simp, sufficient, Nat.pos_of_ne_zero present⟩)
            · obtain ⟨earlierRule, inTake, sufficient, present⟩ := earlier
              exact .inr (.inr ⟨earlierRule, by simp [inTake], sufficient, present⟩)
        · intro all i rule atIndex
          obtain ⟨bounded, atLeast⟩ := all (i + 1) rule (by simpa using atIndex)
          refine ⟨bounded, ?_⟩
          rcases atLeast with atLeast | wasComplete | ⟨earlierRule, inTake, sufficient, present⟩
          · exact .inl atLeast
          · exact .inr (.inl (by simp [wasComplete]))
          · simp only [List.take_succ_cons, List.mem_cons] at inTake
            rcases inTake with isFirst | inTake
            · subst isFirst
              exact .inr (.inl (by simp [sufficient]; omega))
            · exact .inr (.inr ⟨earlierRule, inTake, sufficient, present⟩)

/-! ## `parse_body` -/

/-- A successful `parse_body` found a rule, enumerated the unprotected list
without error and had the result pass `verify`. -/
theorem parseBody_eq_ok {table : List MessageRule} {context : BodyContext} {message : BodyMessage}
    {payloads : List Payload} (parsed : parseBody table context message = .ok payloads) :
    ∃ rule unprotected, getMessageRule table message = some rule ∧
      unprotectedPayloads context message = .ok unprotected ∧
      decryptPayloads rule context message false [] unprotected = .ok payloads ∧
      verify payloads false rule.rules = .success := by
  unfold parseBody at parsed
  split at parsed
  · cases parsed
  rename_i rule found
  split at parsed
  · cases parsed
  rename_i unprotected unprotectedParsed
  split at parsed
  · cases parsed
  rename_i decrypted decryptedOk
  split at parsed
  · cases parsed
    exact ⟨rule, unprotected, found, unprotectedParsed, decryptedOk, ‹_›⟩
  · cases parsed

/-- A successful `parse_body` of a message that is not AGGRESSIVE: the
unprotected list holds at most one protected payload, as its last; every known
payload that its rule (or the lack of one) wants encrypted and no exception
covers came out of the encrypted payload's authenticated plaintext, or is the
authenticated fragment; and the counts meet every payload rule. -/
theorem parseBody_accepts_protected_payloads {table : List MessageRule} {context : BodyContext}
    {message : BodyMessage} {payloads : List Payload}
    (notAggressive : message.exchangeType ≠ aggressive)
    (parsed : parseBody table context message = .ok payloads) :
    ∃ rule unprotected, getMessageRule table message = some rule ∧
      unprotectedPayloads context message = .ok unprotected ∧
      (unprotected.filter fun payload => isProtected payload.type).length ≤ 1 ∧
      (∀ payload ∈ unprotected, isProtected payload.type = true → unprotected.getLast? = some payload) ∧
      (∀ payload ∈ payloads, payload.type ≠ plUnknown → mustBeEncrypted rule payload.type = true →
        isConnectivityCheck context message payload = false →
        acceptUnencryptedMm context message payload.type = false →
        (∃ encrypted ∈ unprotected, (encrypted.type = plv2Encrypted ∨ encrypted.type = plv1Encrypted) ∧
          ∃ extracted, context.decrypt encrypted = .ok extracted ∧
            ∃ original ∈ extracted, original.contents = payload.contents) ∨
        (payload ∈ unprotected ∧ payload.type = plv2Fragment ∧
          context.decryptFragment payload = .success)) ∧
      (∀ i payloadRule, rule.rules[i]? = some payloadRule →
        occurrences payloads payloadRule.type ≤ payloadRule.maxOccurrence ∧
        (payloadRule.minOccurrence ≤ occurrences payloads payloadRule.type ∨
          ∃ earlier ∈ rule.rules.take i, earlier.sufficient = true ∧
            0 < occurrences payloads earlier.type)) := by
  obtain ⟨rule, unprotected, found, unprotectedParsed, decrypted, verified⟩ := parseBody_eq_ok parsed
  have run := decrypted_of_decryptPayloads decrypted
  obtain ⟨atMostOne, last⟩ := run.protected_last
  refine ⟨rule, unprotected, found, unprotectedParsed, atMostOne, last, ?_, ?_⟩
  · intro payload member known wanted notCheck notMainMode
    exact run.encrypted_origin member
      (notEncrypted_of_unprotected notAggressive known wanted notCheck notMainMode)
  · intro i payloadRule atIndex
    obtain ⟨bounded, atLeast⟩ := (verify_eq_success_iff payloads false rule.rules).mp verified i payloadRule atIndex
    refine ⟨bounded, ?_⟩
    rcases atLeast with atLeast | neverComplete | earlier
    · exact .inl atLeast
    · cases neverComplete
    · exact .inr earlier

/-- `MAX_NOTIFY_PAYLOADS`, `MAX_CERT_PAYLOADS`, `MAX_VID_PAYLOADS` and
`MAX_CERTREQ_PAYLOADS`. -/
def maxNotifyPayloads : Nat := 20
def maxCertPayloads : Nat := 8
def maxVidPayloads : Nat := 20
def maxCertreqPayloads : Nat := 20

/-- `ike_auth_i_rules`, the payload rules of an IKE_AUTH request. -/
def ikeAuthIRules : List PayloadRule :=
  [⟨plv2Fragment, 0, 1, true, true⟩, ⟨plv2Notify, 0, maxNotifyPayloads, true, false⟩,
    ⟨48, 0, 1, true, true⟩, ⟨39, 0, 1, true, true⟩, ⟨35, 0, 1, true, false⟩,
    ⟨37, 0, maxCertPayloads, true, false⟩, ⟨38, 0, maxCertreqPayloads, true, false⟩,
    ⟨36, 0, 1, true, false⟩, ⟨33, 0, 1, true, false⟩, ⟨44, 0, 1, true, false⟩,
    ⟨45, 0, 1, true, false⟩, ⟨47, 0, 1, true, false⟩, ⟨43, 0, maxVidPayloads, true, false⟩]

/-- The IKE_AUTH request row of `message_rules`. -/
def ikeAuthRequestRule : MessageRule := ⟨35, true, true, ikeAuthIRules⟩

/-- A keymat whose AEAD opens every encrypted payload to an IDi and an AUTH
payload. -/
def openingContext : BodyContext where
  mediation := false
  acceptUnencryptedMainmode := false
  decrypt := fun _ => .ok [⟨35, 39, none⟩, ⟨39, 0, none⟩]
  decryptFragment := fun _ => .failed

/-- An IKE_AUTH request packet whose first payload is an encrypted one. -/
def encryptedIkeAuth : BodyMessage where
  exchangeType := 35
  isRequest := true
  firstPayload := plv2Encrypted
  isEncrypted := false
  parser := some [some ⟨35, none, true⟩]
  payloads := []

theorem parseBody_accepts_protected_payloads_ike_auth :
    encryptedIkeAuth.exchangeType ≠ aggressive ∧
      parseBody [ikeAuthRequestRule] openingContext encryptedIkeAuth =
        .ok [⟨35, 39, none⟩, ⟨39, 0, none⟩] ∧
      ∃ rule unprotected, getMessageRule [ikeAuthRequestRule] encryptedIkeAuth = some rule ∧
        unprotectedPayloads openingContext encryptedIkeAuth = .ok unprotected ∧
        (unprotected.filter fun payload => isProtected payload.type).length ≤ 1 ∧
        (∀ payload ∈ unprotected, isProtected payload.type = true →
          unprotected.getLast? = some payload) ∧
        (∀ payload ∈ [(⟨35, 39, none⟩ : Payload), ⟨39, 0, none⟩], payload.type ≠ plUnknown →
          mustBeEncrypted rule payload.type = true →
          isConnectivityCheck openingContext encryptedIkeAuth payload = false →
          acceptUnencryptedMm openingContext encryptedIkeAuth payload.type = false →
          (∃ encrypted ∈ unprotected, (encrypted.type = plv2Encrypted ∨ encrypted.type = plv1Encrypted) ∧
            ∃ extracted, openingContext.decrypt encrypted = .ok extracted ∧
              ∃ original ∈ extracted, original.contents = payload.contents) ∨
          (payload ∈ unprotected ∧ payload.type = plv2Fragment ∧
            openingContext.decryptFragment payload = .success)) ∧
        (∀ i payloadRule, rule.rules[i]? = some payloadRule →
          occurrences [⟨35, 39, none⟩, ⟨39, 0, none⟩] payloadRule.type ≤ payloadRule.maxOccurrence ∧
          (payloadRule.minOccurrence ≤ occurrences [⟨35, 39, none⟩, ⟨39, 0, none⟩] payloadRule.type ∨
            ∃ earlier ∈ rule.rules.take i, earlier.sufficient = true ∧
              0 < occurrences [⟨35, 39, none⟩, ⟨39, 0, none⟩] earlier.type)) :=
  ⟨by decide, rfl, parseBody_accepts_protected_payloads (by decide) rfl⟩

/-- A security association outside the encrypted payload of an IKE_AUTH
request is refused with `FAILED`. -/
example :
    parseBody [ikeAuthRequestRule] openingContext
      { encryptedIkeAuth with
        firstPayload := 33
        parser := some [some ⟨plv2Encrypted, none, true⟩, some ⟨35, none, true⟩] } =
      .error .failed := rfl

end StrongSwan.Libcharon.Encoding.Message.ParseBody
