import StrongSwan.Foundations.Subtrees

/-!
Contract: the name constraints of X.509 trust chains in the constraints
validator (`constraints_validator.c`), as `validate` runs them once it has
reached the trust anchor.

`check_name_constraints` walks the chain from the anchor down. Each
certificate below the anchor has its subject DN and its subjectAltNames
checked against the permitted and excluded constraints collected from the CAs
above it, and a CA then adds its own: permitted constraints narrow those of
their type, excluded constraints widen them.

Owns: `fqdn_matches`, `email_matches`, `dn_matches` with the RDN parts it
reads, `name_constraint_matches`, `constraint_type_from_id`,
`id_matches_constraints`, `cert_matches_constraints`,
`name_constraints_match`, `collect_constraints`, `merge_constraints`,
`update_name_constraints` and `check_name_constraints`.

Does not own: the DER parsing of a DN into RDNs and the address and subnet
matching of `identification_t`, which `Identities` gives; the path length and
policy checks of `validate`; the violation hook and the log lines.
-/

namespace StrongSwan.Libstrongswan.Plugins.Constraints.ConstraintsValidator

open StrongSwan.Foundations.Subtrees

/-- `id_type_t`, with the types the validator tells apart. -/
inductive IdType where
  | any
  | ipv4Addr
  | fqdn
  | rfc822Addr
  | ipv4AddrSubnet
  | ipv6Addr
  | ipv6AddrSubnet
  | ipv4AddrRange
  | ipv6AddrRange
  | derAsn1Dn
  | derAsn1Gn
  | keyId
  | other (value : Nat)
deriving Repr, DecidableEq

/-- The attribute of an RDN: those `rdn_part_enumerate` knows, and any other
(`DC`, `STREET`, `UID`, ...). -/
inductive Attribute where
  | commonName
  | surname
  | serialNumber
  | country
  | locality
  | stateOrProvince
  | organization
  | organizationUnit
  | title
  | description
  | name
  | givenName
  | initials
  | dnQualifier
  | dmdName
  | pseudonym
  | uniqueIdentifier
  | emailAddress
  | employeeNumber
  | other (oid : List UInt8)
deriving Repr, DecidableEq

/-- `id_part_t`, the RDN parts. -/
inductive IdPart where
  | rdnC
  | rdnCn
  | rdnD
  | rdnE
  | rdnEn
  | rdnG
  | rdnI
  | rdnDnq
  | rdnDmdn
  | rdnPn
  | rdnId
  | rdnL
  | rdnN
  | rdnO
  | rdnOu
  | rdnSn
  | rdnSerialNumber
  | rdnSt
  | rdnT
deriving Repr, DecidableEq

/-- One RDN of a DN as `create_rdn_enumerator` yields it. -/
structure Rdn where
  oid : Attribute
  strType : UInt8
  data : List UInt8
deriving Repr, DecidableEq

/-- An `identification_t`: its type and its encoding. -/
structure Identification where
  type : IdType
  encoding : List UInt8
deriving Repr, DecidableEq

/-- What the validator takes from `identification_t`: the RDNs of a DER DN,
and `matches` of an address or subnet identity, true for anything but
`ID_MATCH_NONE`. -/
structure Identities where
  rdns : List UInt8 → List Rdn
  matchesId : Identification → Identification → Bool

/-- An X.509 certificate as the validator reads it. Its subject is a DN. -/
structure X509 where
  subject : Identification
  subjectAltNames : List Identification
  ca : Bool
  permittedNameConstraints : List Identification
  excludedNameConstraints : List Identification
  subject_dn : subject.type = .derAsn1Dn

/-- `'.'` and `'@'`. -/
def dot : UInt8 := 46
def atSign : UInt8 := 64

/-- `oid2part` of `rdn_part_enumerate`. -/
def oid2part : Attribute → Option IdPart
  | .commonName => some .rdnCn
  | .surname => some .rdnSn
  | .serialNumber => some .rdnSerialNumber
  | .country => some .rdnC
  | .locality => some .rdnL
  | .stateOrProvince => some .rdnSt
  | .organization => some .rdnO
  | .organizationUnit => some .rdnOu
  | .title => some .rdnT
  | .description => some .rdnD
  | .name => some .rdnN
  | .givenName => some .rdnG
  | .initials => some .rdnI
  | .dnQualifier => some .rdnDnq
  | .dmdName => some .rdnDmdn
  | .pseudonym => some .rdnPn
  | .uniqueIdentifier => some .rdnId
  | .emailAddress => some .rdnE
  | .employeeNumber => some .rdnEn
  | .other _ => none

/-- `create_part_enumerator`: the RDNs of a DN that have a part, in order,
with the part and the value; nothing for other identities. -/
def parts (identities : Identities) (id : Identification) : List (IdPart × List UInt8) :=
  match id.type with
  | .derAsn1Dn =>
    (identities.rdns id.encoding).filterMap fun rdn => (oid2part rdn.oid).map fun part => (part, rdn.data)
  | _ => []

/-- `fqdn_matches`: the constraint ends the name, as the whole name, after a
dot of the name or as a constraint starting with a dot. -/
def fqdnMatches (constraint id : Identification) : Bool :=
  let c := constraint.encoding
  let i := id.encoding
  if c.isEmpty || i.length < c.length then false
  else
    let diff := i.take (i.length - c.length)
    if c != i.drop diff.length then false
    else if diff.isEmpty then true
    else c.head? == some dot || diff.getLast? == some dot

/-- `email_matches`: a constraint with an `@` is a full address; otherwise it
ends the address, as the whole of it, as a domain starting with a dot, or as
the host after the `@`. -/
def emailMatches (constraint id : Identification) : Bool :=
  let c := constraint.encoding
  let i := id.encoding
  if c.isEmpty || i.length < c.length then false
  else if c.contains atSign then c == i
  else
    let diff := i.take (i.length - c.length)
    if c != i.drop diff.length then false
    else if diff.isEmpty then true
    else if c.head? == some dot then true
    else diff.getLast? == some atSign

/-- `dn_matches`: each part of the constraint, in order, equals the next part
of the identity in type and bytes. -/
def dnMatches (identities : Identities) (constraint id : Identification) : Bool :=
  (parts identities constraint).isPrefixOf (parts identities id)

theorem dnMatches_def (identities : Identities) (constraint id : Identification) :
    dnMatches identities constraint id = (parts identities constraint).isPrefixOf (parts identities id) := rfl

/-- `name_constraint_matches`: a permitted constraint may be narrowed by the
new one, an excluded one widened. -/
def nameConstraintMatches (identities : Identities) (existing new : Identification) (permitted : Bool) :
    Bool :=
  let a := if permitted then existing else new
  let b := if permitted then new else existing
  match existing.type with
  | .fqdn => fqdnMatches a b
  | .rfc822Addr => emailMatches a b
  | .derAsn1Dn => dnMatches identities a b
  | .ipv4AddrSubnet | .ipv6AddrSubnet => identities.matchesId b a
  | _ => false

/-- `constraint_type_from_id`. -/
def constraintTypeFromId : IdType → IdType
  | .ipv4Addr => .ipv4AddrSubnet
  | .ipv6Addr => .ipv6AddrSubnet
  | type => type

/-- `id_matches_constraints`: whether one of the constraints matches the
identity. -/
def idMatchesConstraints (identities : Identities) (id : Identification) (constraints : List Identification) :
    Bool :=
  constraints.any fun constraint =>
    match id.type with
    | .fqdn => fqdnMatches constraint id
    | .rfc822Addr => emailMatches constraint id
    | .derAsn1Dn => dnMatches identities constraint id
    | .ipv4Addr | .ipv6Addr => identities.matchesId id constraint
    | _ => false

/-- The hashtable of constraints by type. -/
abbrev Table := List (IdType × List Identification)

/-- `put` of the hashtable: the entry of the type is replaced, or added. -/
def tablePut (type : IdType) (constraints : List Identification) : Table → Table
  | [] => [(type, constraints)]
  | (key, old) :: rest =>
    if key = type then (type, constraints) :: rest else (key, old) :: tablePut type constraints rest

theorem tablePut_nil (type : IdType) (constraints : List Identification) :
    tablePut type constraints [] = [(type, constraints)] := rfl

theorem tablePut_cons (type : IdType) (constraints : List Identification) (key : IdType)
    (old : List Identification) (rest : Table) :
    tablePut type constraints ((key, old) :: rest) =
      if key = type then (type, constraints) :: rest else (key, old) :: tablePut type constraints rest := rfl

/-- The subjectAltName loop of `cert_matches_constraints`. -/
def altNamesMatch (identities : Identities) (types : Table) (permitted result : Bool) :
    List Identification → Bool
  | [] => result
  | id :: rest =>
    match types.lookup (constraintTypeFromId id.type) with
    | some constraints =>
      let found := idMatchesConstraints identities id constraints
      if found != permitted then found else altNamesMatch identities types permitted found rest
    | none => altNamesMatch identities types permitted result rest

/-- `cert_matches_constraints`: for permitted constraints whether every
constrained name matches, for excluded ones whether one does. -/
def certMatchesConstraints (identities : Identities) (x509 : X509) (types : Table) (permitted : Bool) :
    Bool :=
  match types.lookup .derAsn1Dn with
  | some constraints =>
    let found := idMatchesConstraints identities x509.subject constraints
    if found != permitted then found
    else altNamesMatch identities types permitted found x509.subjectAltNames
  | none => altNamesMatch identities types permitted permitted x509.subjectAltNames

/-- `name_constraints_match`. -/
def nameConstraintsMatch (identities : Identities) (x509 : X509) (permitted excluded : Option Table) :
    Bool :=
  match permitted, excluded with
  | some types, _ =>
    if !certMatchesConstraints identities x509 types true then false
    else
      match excluded with
      | some types => !certMatchesConstraints identities x509 types false
      | none => true
  | none, some types => !certMatchesConstraints identities x509 types false
  | none, none => true

/-- The types `collect_constraints` supports. -/
def supportedConstraintType : IdType → Bool
  | .fqdn | .rfc822Addr | .derAsn1Dn | .ipv4AddrSubnet | .ipv6AddrSubnet => true
  | _ => false

/-- `collect_constraints`: each constraint is appended to the array of its
type; one of an unsupported type fails the collection. -/
def collectConstraints : List Identification → Table → Option Table
  | [], collected => some collected
  | constraint :: rest, collected =>
    if supportedConstraintType constraint.type then
      collectConstraints rest
        (match collected.lookup constraint.type with
         | some constraints => tablePut constraint.type (constraints ++ [constraint]) collected
         | none => tablePut constraint.type [constraint] collected)
    else none

theorem collectConstraints_nil (collected : Table) : collectConstraints [] collected = some collected := rfl

theorem collectConstraints_cons (constraint : Identification) (rest : List Identification) (collected : Table) :
    collectConstraints (constraint :: rest) collected =
      if supportedConstraintType constraint.type then
        collectConstraints rest
          (match collected.lookup constraint.type with
           | some constraints => tablePut constraint.type (constraints ++ [constraint]) collected
           | none => tablePut constraint.type [constraint] collected)
      else none := rfl

/-- `merge_constraints`. -/
def mergeConstraints (identities : Identities) (existing new : List Identification) (permitted : Bool) :
    List Identification :=
  if permitted then narrow (fun existing new => nameConstraintMatches identities existing new true) existing new
  else widen (fun wider constraint => nameConstraintMatches identities constraint wider false) existing new

theorem mergeConstraints_def (identities : Identities) (existing new : List Identification) (permitted : Bool) :
    mergeConstraints identities existing new permitted =
      if permitted then narrow (fun existing new => nameConstraintMatches identities existing new true) existing new
      else widen (fun wider constraint => nameConstraintMatches identities constraint wider false) existing new :=
  rfl

/-- The per-type loop of `update_name_constraints` over the collected table. -/
def mergeTables (identities : Identities) (permitted : Bool) (existing : Table) : Table → Table
  | [] => existing
  | (type, new) :: rest =>
    match existing.lookup type with
    | some constraints =>
      mergeTables identities permitted
        (tablePut type (mergeConstraints identities constraints new permitted) existing) rest
    | none => mergeTables identities permitted (tablePut type new existing) rest

/-- `update_name_constraints`: `none` when the certificate's constraints
cannot be collected, else the new set (`none` while no CA had any). -/
def updateNameConstraints (identities : Identities) (x509 : X509) (existing : Option Table)
    (permitted : Bool) : Option (Option Table) :=
  if !x509.ca then some existing
  else
    match collectConstraints
        (if permitted then x509.permittedNameConstraints else x509.excludedNameConstraints) [] with
    | none => none
    | some collected =>
      if collected.length = 0 then some existing
      else
        match existing with
        | none => some (some collected)
        | some table => some (some (mergeTables identities permitted table collected))

/-- The loop of `check_name_constraints`, `len` certificates in; the error is
the violator. -/
def checkChain (identities : Identities) (permitted excluded : Option Table) (len : Nat) :
    List X509 → Except X509 Unit
  | [] => .ok ()
  | x509 :: rest =>
    if len > 0 && !nameConstraintsMatch identities x509 permitted excluded then .error x509
    else
      match updateNameConstraints identities x509 permitted true with
      | none => .error x509
      | some permitted' =>
        match updateNameConstraints identities x509 excluded false with
        | none => .error x509
        | some excluded' => checkChain identities permitted' excluded' (len + 1) rest

/-- `check_name_constraints`: the chain is the issuer, then the intermediates
of the auth config each inserted first, then the subject. -/
def checkNameConstraints (identities : Identities) (issuer : X509) (intermediates : List X509)
    (subject : X509) : Except X509 Unit :=
  checkChain identities none none 0 (issuer :: (intermediates.reverse ++ [subject]))

/-! ## The matching functions as subtree relations -/

/-- How the validator tells that an identity lies within a constraint of a
type, when it merges constraints and when it checks names alike. -/
def subtree (identities : Identities) : IdType → Identification → Identification → Bool
  | .fqdn => fqdnMatches
  | .rfc822Addr => emailMatches
  | .derAsn1Dn => dnMatches identities
  | .ipv4AddrSubnet | .ipv6AddrSubnet => fun constraint id => identities.matchesId id constraint
  | _ => fun _ _ => false

theorem nameConstraintMatches_permitted (identities : Identities) (existing new : Identification) :
    nameConstraintMatches identities existing new true = subtree identities existing.type existing new := by
  delta nameConstraintMatches subtree
  cases existing.type <;> rfl

theorem nameConstraintMatches_excluded (identities : Identities) (existing wider : Identification) :
    nameConstraintMatches identities existing wider false = subtree identities existing.type wider existing := by
  delta nameConstraintMatches subtree
  cases existing.type <;> rfl

/-- The name types the validator checks: DNs, DNS names, e-mail and IP
addresses. -/
def CheckedName (type : IdType) : Prop :=
  type = .fqdn ∨ type = .rfc822Addr ∨ type = .derAsn1Dn ∨ type = .ipv4Addr ∨ type = .ipv6Addr

theorem idMatchesConstraints_eq_any {identities : Identities} {id : Identification}
    (checked : CheckedName id.type) (constraints : List Identification) :
    idMatchesConstraints identities id constraints =
      constraints.any fun constraint => subtree identities (constraintTypeFromId id.type) constraint id := by
  delta idMatchesConstraints subtree constraintTypeFromId
  rcases checked with same | same | same | same | same <;> rw [same]

/-- A suffix match as the byte functions compute it. -/
theorem suffix_of_drop_eq {c i : List UInt8} (same : c = i.drop (i.take (i.length - c.length)).length) :
    i = i.take (i.length - c.length) ++ c := by
  have prefixLength : (i.take (i.length - c.length)).length = i.length - c.length := by simp
  rw [prefixLength] at same
  calc i = i.take (i.length - c.length) ++ i.drop (i.length - c.length) := (List.take_append_drop _ _).symm
    _ = i.take (i.length - c.length) ++ c := by rw [← same]

/-- `fqdn_matches` in terms of the part it leaves: the name is that part
followed by the constraint, and the part is empty or ends in a dot, or the
constraint starts with one. -/
theorem fqdnMatches_iff {constraint id : Identification} :
    fqdnMatches constraint id = true ↔ constraint.encoding ≠ [] ∧
      ∃ diff, id.encoding = diff ++ constraint.encoding ∧
        (diff = [] ∨ constraint.encoding.head? = some dot ∨ diff.getLast? = some dot) := by
  constructor
  · intro matched
    simp only [fqdnMatches] at matched
    split at matched
    · cases matched
    · rename_i fits
      simp only [Bool.or_eq_true, List.isEmpty_iff, decide_eq_true_eq, not_or, Nat.not_lt] at fits
      split at matched
      · cases matched
      · rename_i same
        simp only [bne_iff_ne, ne_eq, Decidable.not_not] at same
        refine ⟨fits.1, _, suffix_of_drop_eq same, ?_⟩
        split at matched
        · rename_i emptyDiff
          exact .inl (List.isEmpty_iff.mp emptyDiff)
        · simp only [Bool.or_eq_true, beq_iff_eq] at matched
          exact .inr matched
  · rintro ⟨nonempty, diff, isSplit, boundary⟩
    have notEmpty : constraint.encoding.isEmpty = false := by simpa using nonempty
    simp only [fqdnMatches, isSplit, notEmpty, List.length_append, Bool.false_or, Nat.add_sub_cancel,
      List.take_left', List.drop_left', bne_self_eq_false, Bool.false_eq_true, ↓reduceIte]
    rcases boundary with empty | startsDot | endsDot
    · simp [empty]
    · simp [startsDot]
    · simp [endsDot]

/-- `email_matches` in terms of the part it leaves: a constraint with an `@`
is the whole address; otherwise the address is a part followed by the
constraint, and the part is empty or ends in an `@`, or the constraint starts
with a dot. -/
theorem emailMatches_iff {constraint id : Identification} :
    emailMatches constraint id = true ↔ constraint.encoding ≠ [] ∧
      ((atSign ∈ constraint.encoding ∧ id.encoding = constraint.encoding) ∨
        (atSign ∉ constraint.encoding ∧ ∃ diff, id.encoding = diff ++ constraint.encoding ∧
          (diff = [] ∨ constraint.encoding.head? = some dot ∨ diff.getLast? = some atSign))) := by
  constructor
  · intro matched
    simp only [emailMatches] at matched
    split at matched
    · cases matched
    · rename_i fits
      simp only [Bool.or_eq_true, List.isEmpty_iff, decide_eq_true_eq, not_or, Nat.not_lt] at fits
      refine ⟨fits.1, ?_⟩
      split at matched
      · rename_i hasAt
        exact .inl ⟨by simpa using hasAt, (beq_iff_eq.mp matched).symm⟩
      · rename_i noAt
        refine .inr ⟨by simpa using noAt, ?_⟩
        split at matched
        · cases matched
        · rename_i same
          simp only [bne_iff_ne, ne_eq, Decidable.not_not] at same
          refine ⟨_, suffix_of_drop_eq same, ?_⟩
          split at matched
          · rename_i emptyDiff
            exact .inl (List.isEmpty_iff.mp emptyDiff)
          · split at matched
            · rename_i startsDot
              exact .inr (.inl (beq_iff_eq.mp startsDot))
            · exact .inr (.inr (beq_iff_eq.mp matched))
  · rintro ⟨nonempty, ⟨hasAt, same⟩ | ⟨noAt, diff, isSplit, boundary⟩⟩
    · have notEmpty : constraint.encoding.isEmpty = false := by simpa using nonempty
      simp [emailMatches, notEmpty, same, hasAt]
    · have notEmpty : constraint.encoding.isEmpty = false := by simpa using nonempty
      have noAtSign : constraint.encoding.contains atSign = false := by simpa using noAt
      simp only [emailMatches, isSplit, notEmpty, noAtSign, List.length_append, Bool.false_or,
        Nat.add_sub_cancel, List.take_left', List.drop_left', bne_self_eq_false, Bool.false_eq_true,
        ↓reduceIte]
      rcases boundary with empty | startsDot | endsAt
      · simp [empty]
      · simp [startsDot]
      · simp [endsAt]

/-- The last byte of a part followed by a non-empty one is that one's last. -/
theorem getLast?_append_of_getLast? {front back : List UInt8} {byte : UInt8}
    (ends : back.getLast? = some byte) : (front ++ back).getLast? = some byte := by
  rw [List.getLast?_append, ends]
  rfl

theorem fqdnMatches_trans {outer inner id : Identification} (innerInside : fqdnMatches outer inner = true)
    (idWithin : fqdnMatches inner id = true) : fqdnMatches outer id = true := by
  obtain ⟨nonempty, first, innerSplit, firstBoundary⟩ := fqdnMatches_iff.mp innerInside
  obtain ⟨-, second, idSplit, secondBoundary⟩ := fqdnMatches_iff.mp idWithin
  refine fqdnMatches_iff.mpr ⟨nonempty, second ++ first, by simp [idSplit, innerSplit], ?_⟩
  rcases firstBoundary with firstEmpty | startsDot | endsDot
  · -- the inner constraint is the outer one
    subst firstEmpty
    simp only [List.nil_append] at innerSplit
    simpa [innerSplit] using secondBoundary
  · exact .inr (.inl startsDot)
  · exact .inr (.inr (getLast?_append_of_getLast? endsDot))

theorem emailMatches_trans {outer inner id : Identification} (innerInside : emailMatches outer inner = true)
    (idWithin : emailMatches inner id = true) : emailMatches outer id = true := by
  obtain ⟨nonempty, ⟨outerAt, innerSame⟩ | ⟨outerNoAt, first, innerSplit, firstBoundary⟩⟩ :=
    emailMatches_iff.mp innerInside
  · -- a full address contains only itself
    obtain ⟨-, ⟨-, idSame⟩ | ⟨innerNoAt, -⟩⟩ := emailMatches_iff.mp idWithin
    · exact emailMatches_iff.mpr ⟨nonempty, .inl ⟨outerAt, idSame.trans innerSame⟩⟩
    · exact absurd (innerSame ▸ outerAt) innerNoAt
  · obtain ⟨-, ⟨innerAt, idSame⟩ | ⟨innerNoAt, second, idSplit, secondBoundary⟩⟩ :=
      emailMatches_iff.mp idWithin
    · exact emailMatches_iff.mpr ⟨nonempty, .inr ⟨outerNoAt, first, idSame.trans innerSplit, firstBoundary⟩⟩
    · refine emailMatches_iff.mpr ⟨nonempty, .inr ⟨outerNoAt, second ++ first,
        by simp [idSplit, innerSplit], ?_⟩⟩
      rcases firstBoundary with firstEmpty | startsDot | endsAt
      · subst firstEmpty
        simp only [List.nil_append] at innerSplit
        simpa [innerSplit] using secondBoundary
      · exact .inr (.inl startsDot)
      · -- the inner constraint would hold the `@` that ends the part
        have atInInner : atSign ∈ inner.encoding := by
          rw [innerSplit]
          exact List.mem_append_left _ (List.mem_of_getLast? endsAt)
        exact absurd atInInner innerNoAt

theorem dnMatches_trans {identities : Identities} {outer inner id : Identification}
    (innerInside : dnMatches identities outer inner = true) (idWithin : dnMatches identities inner id = true) :
    dnMatches identities outer id = true := by
  rw [dnMatches_def, List.isPrefixOf_iff_prefix] at *
  exact innerInside.trans idWithin

/-- The constraints of `type` nest: a name within a constraint inside another
lies within that one. Narrowing and widening keep their meaning only then. -/
def NestsAt (identities : Identities) (type : IdType) : Prop :=
  Nested (subtree identities type) (subtree identities type)

/-- The names the validator matches by its own byte and RDN comparisons: DNS
names, e-mail addresses and DNs. IP addresses go to the subnet matching of
`identification_t`, which nests only for contiguous netmasks. -/
def StringName (type : IdType) : Prop :=
  type = .fqdn ∨ type = .rfc822Addr ∨ type = .derAsn1Dn

theorem nestsAt_of_stringName (identities : Identities) {type : IdType} (named : StringName type) :
    NestsAt identities type := by
  intro outer inner id innerInside idWithin
  rcases named with rfl | rfl | rfl <;> simp only [subtree] at innerInside idWithin ⊢
  · exact fqdnMatches_trans innerInside idWithin
  · exact emailMatches_trans innerInside idWithin
  · exact dnMatches_trans innerInside idWithin

theorem stringName_constraintTypeFromId {type : IdType} (named : StringName type) :
    StringName (constraintTypeFromId type) := by
  rcases named with rfl | rfl | rfl <;> simp [constraintTypeFromId, StringName]

/-! ## The constraint tables -/

@[simp] theorem lookup_cons_same (type : IdType) (constraints : List Identification) (rest : Table) :
    ((type, constraints) :: rest).lookup type = some constraints :=
  List.lookup_cons_self

theorem lookup_cons_other {type key : IdType} (different : type ≠ key) (constraints : List Identification)
    (rest : Table) : ((key, constraints) :: rest).lookup type = rest.lookup type := by
  rw [List.lookup_cons, beq_false_of_ne different]

@[simp] theorem lookup_tablePut_self (type : IdType) (constraints : List Identification) (table : Table) :
    (tablePut type constraints table).lookup type = some constraints := by
  induction table with
  | nil => simp [tablePut_nil]
  | cons first rest inductionHypothesis =>
    obtain ⟨key, old⟩ := first
    by_cases same : key = type
    · simp [tablePut_cons, same]
    · simp [tablePut_cons, same, inductionHypothesis, lookup_cons_other (Ne.symm same)]

theorem lookup_tablePut_other {type other : IdType} (different : other ≠ type)
    (constraints : List Identification) (table : Table) :
    (tablePut type constraints table).lookup other = table.lookup other := by
  induction table with
  | nil => simp [tablePut_nil, lookup_cons_other different]
  | cons first rest inductionHypothesis =>
    obtain ⟨key, old⟩ := first
    by_cases same : key = type
    · subst same
      simp [tablePut_cons, lookup_cons_other different]
    · by_cases isKey : other = key
      · subst isKey
        simp [tablePut_cons, same]
      · simp [tablePut_cons, same, lookup_cons_other isKey, inductionHypothesis]

theorem mem_keys_tablePut {type key : IdType} {constraints : List Identification} {table : Table}
    (member : key ∈ (tablePut type constraints table).map Prod.fst) :
    key ∈ table.map Prod.fst ∨ key = type := by
  induction table with
  | nil => simp_all [tablePut_nil]
  | cons first rest inductionHypothesis =>
    obtain ⟨current, old⟩ := first
    by_cases same : current = type
    · simp_all [tablePut_cons]
    · simp only [tablePut_cons, same, ↓reduceIte, List.map_cons, List.mem_cons] at member
      rcases member with isCurrent | later
      · simp [isCurrent]
      · rcases inductionHypothesis later with inRest | isType
        · simp [inRest]
        · exact .inr isType

/-- A put keeps the keys of a table distinct. -/
theorem nodup_keys_tablePut {type : IdType} {constraints : List Identification} {table : Table}
    (distinct : (table.map Prod.fst).Nodup) : ((tablePut type constraints table).map Prod.fst).Nodup := by
  induction table with
  | nil => simp [tablePut_nil]
  | cons first rest inductionHypothesis =>
    obtain ⟨key, old⟩ := first
    simp only [List.map_cons, List.nodup_cons] at distinct
    by_cases same : key = type
    · simpa [tablePut_nil, tablePut_cons, same] using distinct
    · simp only [tablePut_cons, same, ↓reduceIte, List.map_cons, List.nodup_cons]
      refine ⟨fun member => ?_, inductionHypothesis distinct.2⟩
      rcases mem_keys_tablePut member with inRest | isType
      · exact distinct.1 inRest
      · exact same isType

theorem lookup_eq_none_of_not_mem_keys {type : IdType} {table : Table}
    (absent : type ∉ table.map Prod.fst) : table.lookup type = none := by
  induction table with
  | nil => rfl
  | cons first rest inductionHypothesis =>
    obtain ⟨key, old⟩ := first
    simp only [List.map_cons, List.mem_cons, not_or] at absent
    rw [lookup_cons_other absent.1, inductionHypothesis absent.2]

/-- The constraints of one type in a list, in order. -/
def ofType (type : IdType) (constraints : List Identification) : List Identification :=
  constraints.filter fun constraint => constraint.type == type

theorem ofType_def (type : IdType) (constraints : List Identification) :
    ofType type constraints = constraints.filter fun constraint => constraint.type == type := rfl

/-- The entry of a type after appending constraints to a collected one. -/
def appendEntry (old : Option (List Identification)) (new : List Identification) :
    Option (List Identification) :=
  match old with
  | some constraints => some (constraints ++ new)
  | none => if new = [] then none else some new

theorem appendEntry_some (constraints new : List Identification) :
    appendEntry (some constraints) new = some (constraints ++ new) := rfl

theorem appendEntry_none (new : List Identification) :
    appendEntry none new = if new = [] then none else some new := rfl

/-- What `collect_constraints` holds for each type: the constraints of that
type appended to what it started with. -/
theorem lookup_collectConstraints {constraints : List Identification} {start collected : Table}
    (succeeded : collectConstraints constraints start = some collected) (type : IdType) :
    collected.lookup type = appendEntry (start.lookup type) (ofType type constraints) := by
  induction constraints generalizing start with
  | nil =>
    simp only [collectConstraints_nil, Option.some.injEq] at succeeded
    subst succeeded
    cases start.lookup type <;> simp [appendEntry_some, appendEntry_none, ofType_def]
  | cons constraint rest inductionHypothesis =>
    simp only [collectConstraints_cons] at succeeded
    split at succeeded
    · rw [inductionHypothesis succeeded]
      by_cases same : constraint.type = type
      · subst same
        cases start.lookup constraint.type <;> simp [appendEntry_some, appendEntry_none, ofType_def]
      · have different : type ≠ constraint.type := Ne.symm same
        have skipped : ofType type (constraint :: rest) = ofType type rest := by
          simp [ofType_def, same]
        rw [skipped]
        cases found : start.lookup constraint.type <;>
          simp [lookup_tablePut_other different]
    · cases succeeded

theorem nodup_keys_collectConstraints {constraints : List Identification} {start collected : Table}
    (distinct : (start.map Prod.fst).Nodup) (succeeded : collectConstraints constraints start = some collected) :
    (collected.map Prod.fst).Nodup := by
  induction constraints generalizing start with
  | nil =>
    cases succeeded
    exact distinct
  | cons constraint rest inductionHypothesis =>
    simp only [collectConstraints_cons] at succeeded
    split at succeeded
    · apply inductionHypothesis _ succeeded
      split <;> exact nodup_keys_tablePut distinct
    · cases succeeded

/-- What the per-type merge leaves for a type: the old entry when the
collected table has none, else the merge of the two. -/
theorem lookup_mergeTables {identities : Identities} {permitted : Bool} {existing collected : Table}
    (distinct : (collected.map Prod.fst).Nodup) (type : IdType) :
    (mergeTables identities permitted existing collected).lookup type =
      match collected.lookup type with
      | none => existing.lookup type
      | some new =>
        some (match existing.lookup type with
          | some constraints => mergeConstraints identities constraints new permitted
          | none => new) := by
  induction collected generalizing existing with
  | nil => rfl
  | cons first rest inductionHypothesis =>
    obtain ⟨key, new⟩ := first
    simp only [List.map_cons, List.nodup_cons] at distinct
    rw [mergeTables]
    -- the rest of the collected table has no entry for `key`
    by_cases same : type = key
    · subst same
      have restMisses : rest.lookup type = none := lookup_eq_none_of_not_mem_keys distinct.1
      split
      all_goals simp [inductionHypothesis distinct.2, restMisses]
    · split <;> simp [inductionHypothesis distinct.2, lookup_tablePut_other same, lookup_cons_other same]

/-! ## One CA's constraints -/

/-- The constraints a set holds for a type; none while no CA declared any. -/
def entry (table : Option Table) (type : IdType) : Option (List Identification) :=
  table.bind fun types => types.lookup type

theorem entry_def (table : Option Table) (type : IdType) :
    entry table type = table.bind fun types => types.lookup type := rfl

/-- The permitted or excluded constraints a certificate declares. -/
def declared (x509 : X509) (permitted : Bool) : List Identification :=
  if permitted then x509.permittedNameConstraints else x509.excludedNameConstraints

theorem declared_def (x509 : X509) (permitted : Bool) :
    declared x509 permitted = if permitted then x509.permittedNameConstraints else x509.excludedNameConstraints :=
  rfl

/-- What a CA's constraints of one type do to the entry of that type. -/
def mergeEntry (identities : Identities) (permitted : Bool) (old : Option (List Identification))
    (new : List Identification) : Option (List Identification) :=
  if new = [] then old
  else
    some (match old with
      | some constraints => mergeConstraints identities constraints new permitted
      | none => new)

theorem mergeEntry_def (identities : Identities) (permitted : Bool) (old : Option (List Identification))
    (new : List Identification) :
    mergeEntry identities permitted old new =
      if new = [] then old
      else
        some (match old with
          | some constraints => mergeConstraints identities constraints new permitted
          | none => new) := rfl

/-- `update_name_constraints` type by type: a CA merges its constraints of
each type into the entry of that type, and an end entity changes nothing. -/
theorem entry_updateNameConstraints {identities : Identities} {x509 : X509} {existing updated : Option Table}
    {permitted : Bool} (succeeded : updateNameConstraints identities x509 existing permitted = some updated)
    (type : IdType) :
    entry updated type =
      if x509.ca then mergeEntry identities permitted (entry existing type) (ofType type (declared x509 permitted))
      else entry existing type := by
  unfold updateNameConstraints at succeeded
  by_cases isCa : x509.ca = true
  case neg =>
    simp only [isCa, Bool.not_false, ↓reduceIte, Option.some.injEq, Bool.false_eq_true] at succeeded ⊢
    rw [succeeded]
  case pos =>
    simp only [isCa, Bool.not_true, Bool.false_eq_true, ↓reduceIte] at succeeded ⊢
    split at succeeded
    · cases succeeded
    · rename_i collected found
      have collectedEntry := lookup_collectConstraints found type
      simp only [List.lookup_nil, appendEntry_none] at collectedEntry
      simp only [declared_def]
      split at succeeded
      · -- nothing collected: no constraint of any type
        rename_i noEntries
        cases succeeded
        rw [List.length_eq_zero_iff] at noEntries
        subst noEntries
        have none : ofType type (if permitted = true then x509.permittedNameConstraints
            else x509.excludedNameConstraints) = [] := by
          by_contra nonempty
          simp [nonempty] at collectedEntry
        simp [mergeEntry_def, none]
      · cases existing with
        | none =>
          simp only [Option.some.injEq] at succeeded
          subst succeeded
          simp only [entry_def, Option.bind_none, Option.bind_some, mergeEntry_def, collectedEntry]
        | some table =>
          simp only [Option.some.injEq] at succeeded
          subst succeeded
          have distinct := nodup_keys_collectConstraints (by simp) found
          simp only [entry_def, Option.bind_some, lookup_mergeTables distinct, mergeEntry_def, collectedEntry]
          by_cases emptyType : ofType type (if permitted = true then x509.permittedNameConstraints
              else x509.excludedNameConstraints) = [] <;> simp [emptyType]

/-- Every constraint a set holds for a type is of that type. -/
def WellTyped (table : Option Table) : Prop :=
  ∀ type constraints, entry table type = some constraints → ∀ constraint ∈ constraints, constraint.type = type

theorem mergeConstraints_eq_narrow {identities : Identities} {type : IdType} {existing new : List Identification}
    (typed : ∀ constraint ∈ existing, constraint.type = type) :
    mergeConstraints identities existing new true = narrow (subtree identities type) existing new := by
  rw [mergeConstraints_def]
  simp only [↓reduceIte]
  apply narrow_congr
  intro outer member inner
  rw [nameConstraintMatches_permitted, typed outer member]

theorem mergeConstraints_eq_widen {identities : Identities} {type : IdType} {existing new : List Identification}
    (typed : ∀ constraint ∈ existing, constraint.type = type) :
    mergeConstraints identities existing new false = widen (subtree identities type) existing new := by
  rw [mergeConstraints_def]
  simp only [Bool.false_eq_true, ↓reduceIte]
  apply widen_congr
  intro wider inner member
  rw [nameConstraintMatches_excluded, typed inner member]

theorem mem_ofType {type : IdType} {constraints : List Identification} {constraint : Identification}
    (member : constraint ∈ ofType type constraints) : constraint.type = type := by
  simpa [ofType_def] using (List.mem_filter.mp member).2

/-- A merged entry holds old constraints and new ones of its type only. -/
theorem wellTyped_mergeEntry {identities : Identities} {permitted : Bool} {type : IdType}
    {old : Option (List Identification)} {declaredConstraints constraints : List Identification}
    (oldTyped : ∀ constraints, old = some constraints → ∀ constraint ∈ constraints, constraint.type = type)
    (merged : mergeEntry identities permitted old (ofType type declaredConstraints) = some constraints) :
    ∀ constraint ∈ constraints, constraint.type = type := by
  rw [mergeEntry_def] at merged
  split at merged
  · exact oldTyped constraints merged
  · cases merged
    cases old with
    | none => exact fun constraint member => mem_ofType member
    | some existing =>
      have existingTyped := oldTyped existing rfl
      intro constraint member
      dsimp only at member
      cases permitted
      · rw [mergeConstraints_eq_widen existingTyped] at member
        rcases mem_widen member with inOld | inNew
        · exact existingTyped constraint inOld
        · exact mem_ofType inNew
      · rw [mergeConstraints_eq_narrow existingTyped] at member
        exact mem_ofType (mem_narrow member).1

theorem wellTyped_updateNameConstraints {identities : Identities} {x509 : X509} {existing updated : Option Table}
    {permitted : Bool} (typed : WellTyped existing)
    (succeeded : updateNameConstraints identities x509 existing permitted = some updated) : WellTyped updated := by
  intro type constraints found
  rw [entry_updateNameConstraints succeeded type] at found
  split at found
  · exact wellTyped_mergeEntry (typed type) found
  · exact typed type constraints found

/-! ## The name check -/

/-- When the loop over the subjectAltNames returns the value it stops on,
every constrained name gave that value. -/
theorem altNamesMatch_eq_self {identities : Identities} {types : Table} {permitted result : Bool}
    {names : List Identification} (returned : altNamesMatch identities types permitted result names = permitted) :
    ∀ id ∈ names, ∀ constraints, types.lookup (constraintTypeFromId id.type) = some constraints →
      idMatchesConstraints identities id constraints = permitted := by
  induction names generalizing result with
  | nil => simp
  | cons first rest inductionHypothesis =>
    simp only [altNamesMatch] at returned
    intro id member constraints found
    rcases List.mem_cons.mp member with isFirst | later
    · subst isFirst
      rw [found] at returned
      simp only at returned
      split at returned
      · exact returned
      · rename_i same
        simpa using same
    · split at returned
      · split at returned
        · rename_i different
          simp only [returned, bne_self_eq_false, Bool.false_eq_true] at different
        · exact inductionHypothesis returned id later constraints found
      · exact inductionHypothesis returned id later constraints found

/-- `cert_matches_constraints` returns its own argument exactly when every
constrained name of the certificate gave that value. -/
theorem certMatchesConstraints_eq_self {identities : Identities} {x509 : X509} {types : Table} {permitted : Bool}
    (returned : certMatchesConstraints identities x509 types permitted = permitted) :
    ∀ id ∈ x509.subject :: x509.subjectAltNames, ∀ constraints,
      types.lookup (constraintTypeFromId id.type) = some constraints →
        idMatchesConstraints identities id constraints = permitted := by
  have subjectType : constraintTypeFromId x509.subject.type = .derAsn1Dn := by
    simp [x509.subject_dn, constraintTypeFromId]
  unfold certMatchesConstraints at returned
  intro id member constraints found
  split at returned
  · rename_i dnConstraints dnFound
    dsimp only at returned
    split at returned
    · rename_i different
      simp only [returned, bne_self_eq_false, Bool.false_eq_true] at different
    · rcases List.mem_cons.mp member with isSubject | isAltName
      · subst isSubject
        rw [subjectType, dnFound, Option.some.injEq] at found
        subst found
        rename_i same
        simpa using same
      · exact altNamesMatch_eq_self returned id isAltName constraints found
  · rename_i dnMissing
    rcases List.mem_cons.mp member with isSubject | isAltName
    · subst isSubject
      rw [subjectType, dnMissing] at found
      cases found
    · exact altNamesMatch_eq_self returned id isAltName constraints found

/-- What `name_constraints_match` says of every constrained name. -/
theorem names_of_nameConstraintsMatch {identities : Identities} {x509 : X509} {permitted excluded : Option Table}
    (matched : nameConstraintsMatch identities x509 permitted excluded = true) :
    ∀ id ∈ x509.subject :: x509.subjectAltNames, ∀ constraints,
      (entry permitted (constraintTypeFromId id.type) = some constraints →
        idMatchesConstraints identities id constraints = true) ∧
      (entry excluded (constraintTypeFromId id.type) = some constraints →
        idMatchesConstraints identities id constraints = false) := by
  have checks : (∀ types, permitted = some types → certMatchesConstraints identities x509 types true = true) ∧
      (∀ types, excluded = some types → certMatchesConstraints identities x509 types false = false) := by
    unfold nameConstraintsMatch at matched
    split at matched
    · split at matched
      · cases matched
      · rename_i passed
        refine ⟨fun types found => by simp_all, fun types found => ?_⟩
        simp_all
    · simp_all
    · simp_all
  intro id member constraints
  constructor
  · intro found
    obtain ⟨types, isSome, lookedUp⟩ := Option.bind_eq_some_iff.mp found
    exact certMatchesConstraints_eq_self (checks.1 types isSome) id member constraints lookedUp
  · intro found
    obtain ⟨types, isSome, lookedUp⟩ := Option.bind_eq_some_iff.mp found
    exact certMatchesConstraints_eq_self (checks.2 types isSome) id member constraints lookedUp

/-! ## The chain -/

/-- What the constraint sets hold after the CAs `above`, for each type whose
constraints nest: the narrowed entry of the type admits only names some
permitted constraint of that type of each CA admits, and the widened entry
covers every name an excluded constraint of a CA covers. -/
structure Accumulated (identities : Identities) (above : List X509) (permitted excluded : Option Table) :
    Prop where
  permittedTyped : WellTyped permitted
  excludedTyped : WellTyped excluded
  narrowed : ∀ ca ∈ above, ca.ca = true → ∀ type, NestsAt identities type →
    ofType type ca.permittedNameConstraints ≠ [] →
    ∃ constraints, entry permitted type = some constraints ∧
      ∀ id, Covers (subtree identities type) constraints id →
        Covers (subtree identities type) (ofType type ca.permittedNameConstraints) id
  widened : ∀ ca ∈ above, ca.ca = true → ∀ type, NestsAt identities type → ∀ id,
    Covers (subtree identities type) (ofType type ca.excludedNameConstraints) id →
      ∃ constraints, entry excluded type = some constraints ∧ Covers (subtree identities type) constraints id

theorem accumulated_nil (identities : Identities) : Accumulated identities [] none none where
  permittedTyped := by simp [WellTyped, entry_def]
  excludedTyped := by simp [WellTyped, entry_def]
  narrowed := by simp
  widened := by simp

section Chain

variable {identities : Identities}

/-- A narrowed entry admits only what the old entry and the new constraints
admit. -/
theorem covers_of_mergeEntry_permitted {type : IdType} (nests : NestsAt identities type)
    {old : Option (List Identification)} {new constraints : List Identification} {id : Identification}
    (oldTyped : ∀ constraints, old = some constraints → ∀ constraint ∈ constraints, constraint.type = type)
    (merged : mergeEntry identities true old new = some constraints) (notEmpty : new ≠ [])
    (covered : Covers (subtree identities type) constraints id) :
    (∀ existing, old = some existing → Covers (subtree identities type) existing id) ∧
      Covers (subtree identities type) new id := by
  simp only [mergeEntry_def, notEmpty, ↓reduceIte, Option.some.injEq] at merged
  subst merged
  cases old with
  | none => exact ⟨by simp, covered⟩
  | some existing =>
    dsimp only at covered
    rw [mergeConstraints_eq_narrow (oldTyped existing rfl)] at covered
    obtain ⟨inExisting, inNew⟩ := covers_of_covers_narrow nests covered
    exact ⟨fun other same => Option.some.inj same ▸ inExisting, inNew⟩

/-- A widened entry covers what the old entry or the new constraints cover. -/
theorem covers_mergeEntry_excluded {type : IdType} (nests : NestsAt identities type)
    {old : Option (List Identification)} {new : List Identification} {id : Identification}
    (oldTyped : ∀ constraints, old = some constraints → ∀ constraint ∈ constraints, constraint.type = type)
    (covered : (∃ existing, old = some existing ∧ Covers (subtree identities type) existing id) ∨
      Covers (subtree identities type) new id) :
    ∃ constraints, mergeEntry identities false old new = some constraints ∧
      Covers (subtree identities type) constraints id := by
  rw [mergeEntry_def]
  by_cases noNew : new = []
  case pos =>
    subst noNew
    rcases covered with ⟨existing, found, inExisting⟩ | ⟨_, inNew, _⟩
    · exact ⟨existing, by simp [found], inExisting⟩
    · cases inNew
  case neg =>
    cases old with
    | none =>
      rcases covered with ⟨_, noOld, _⟩ | inNew
      · cases noOld
      · exact ⟨new, by simp [noNew], inNew⟩
    | some existing =>
      refine ⟨mergeConstraints identities existing new false, by simp [noNew], ?_⟩
      rw [mergeConstraints_eq_widen (oldTyped existing rfl)]
      apply covers_widen nests
      rcases covered with ⟨other, same, inExisting⟩ | inNew
      · exact .inl (Option.some.inj same ▸ inExisting)
      · exact .inr inNew

/-- One certificate of the chain adds its constraints to the sets. -/
theorem Accumulated.update {above : List X509} {permitted excluded permitted' excluded' : Option Table}
    {x509 : X509} (accumulated : Accumulated identities above permitted excluded)
    (narrowing : updateNameConstraints identities x509 permitted true = some permitted')
    (widening : updateNameConstraints identities x509 excluded false = some excluded') :
    Accumulated identities (above ++ [x509]) permitted' excluded' where
  permittedTyped := wellTyped_updateNameConstraints accumulated.permittedTyped narrowing
  excludedTyped := wellTyped_updateNameConstraints accumulated.excludedTyped widening
  narrowed := by
    intro ca member isCa type nests declaredSome
    have entryOf := entry_updateNameConstraints narrowing type
    simp only [declared_def, ↓reduceIte] at entryOf
    rcases List.mem_append.mp member with isAbove | isNew
    · -- a CA above: its bound survives a narrowing
      obtain ⟨constraints, found, bounded⟩ := accumulated.narrowed ca isAbove isCa type nests declaredSome
      by_cases narrows : x509.ca = true ∧ ofType type x509.permittedNameConstraints ≠ []
      case pos =>
        rw [if_pos narrows.1] at entryOf
        obtain ⟨merged, isMerged⟩ : ∃ merged, entry permitted' type = some merged := by
          simp [entryOf, mergeEntry_def, narrows.2]
        refine ⟨merged, isMerged, fun id covered => bounded id ?_⟩
        rw [entryOf] at isMerged
        exact (covers_of_mergeEntry_permitted nests (accumulated.permittedTyped type) isMerged narrows.2
          covered).1 constraints found
      case neg =>
        refine ⟨constraints, ?_, bounded⟩
        rw [entryOf]
        split
        · have noNew : ofType type x509.permittedNameConstraints = [] := by simp_all
          simp [mergeEntry_def, noNew, found]
        · exact found
    · -- the new CA: its own constraints bound the entry
      simp only [List.mem_singleton] at isNew
      subst isNew
      rw [if_pos isCa] at entryOf
      obtain ⟨merged, isMerged⟩ : ∃ merged, entry permitted' type = some merged := by
        unfold mergeEntry at entryOf
        simp [entryOf, declaredSome]
      refine ⟨merged, isMerged, fun id covered => ?_⟩
      rw [entryOf] at isMerged
      exact (covers_of_mergeEntry_permitted nests (accumulated.permittedTyped type) isMerged declaredSome
        covered).2
  widened := by
    intro ca member isCa type nests id covered
    have entryOf := entry_updateNameConstraints widening type
    simp only [declared_def, Bool.false_eq_true, ↓reduceIte] at entryOf
    rcases List.mem_append.mp member with isAbove | isNew
    · obtain ⟨constraints, found, inOld⟩ := accumulated.widened ca isAbove isCa type nests id covered
      rw [entryOf]
      split
      · exact covers_mergeEntry_excluded nests (accumulated.excludedTyped type)
          (.inl ⟨constraints, found, inOld⟩)
      · exact ⟨constraints, found, inOld⟩
    · simp only [List.mem_singleton] at isNew
      subst isNew
      rw [entryOf, if_pos isCa]
      exact covers_mergeEntry_excluded nests (accumulated.excludedTyped type) (.inr covered)

/-- What a CA says of one name of a certificate below it: no excluded
constraint of the name's type covers it, and when the CA permits some
constraints of that type, one of them does. -/
def NameAdmitted (identities : Identities) (ca : X509) (id : Identification) : Prop :=
  ¬Covers (subtree identities (constraintTypeFromId id.type))
      (ofType (constraintTypeFromId id.type) ca.excludedNameConstraints) id ∧
    (ofType (constraintTypeFromId id.type) ca.permittedNameConstraints ≠ [] →
      Covers (subtree identities (constraintTypeFromId id.type))
        (ofType (constraintTypeFromId id.type) ca.permittedNameConstraints) id)

/-- A certificate that passes the check has every checked name whose
constraints nest admitted by every CA above it. -/
theorem Accumulated.admits {above : List X509} {permitted excluded : Option Table} {x509 : X509}
    (accumulated : Accumulated identities above permitted excluded)
    (matched : nameConstraintsMatch identities x509 permitted excluded = true) :
    ∀ ca ∈ above, ca.ca = true → ∀ id ∈ x509.subject :: x509.subjectAltNames, CheckedName id.type →
      NestsAt identities (constraintTypeFromId id.type) → NameAdmitted identities ca id := by
  intro ca member isCa id named checked nests
  have anyIff := @idMatchesConstraints_eq_any identities id checked
  refine ⟨fun covered => ?_, fun declaredSome => ?_⟩
  · obtain ⟨constraints, found, inEntry⟩ := accumulated.widened ca member isCa _ nests id covered
    have refused := (names_of_nameConstraintsMatch matched id named constraints).2 found
    rw [anyIff, ← Bool.not_eq_true, ← covers_iff_any] at refused
    exact refused inEntry
  · obtain ⟨constraints, found, bounded⟩ := accumulated.narrowed ca member isCa _ nests declaredSome
    have allowed := (names_of_nameConstraintsMatch matched id named constraints).1 found
    rw [anyIff, ← covers_iff_any] at allowed
    exact bounded id allowed

/-- The run of `check_name_constraints`: a chain that passes from sets built
by the CAs `above` has every checked name of each certificate admitted by
every CA before it. -/
theorem checkChain_admits {chain above : List X509} {permitted excluded : Option Table} {len : Nat}
    (valid : checkChain identities permitted excluded len chain = .ok ())
    (accumulated : Accumulated identities above permitted excluded) (counted : above ≠ [] → 0 < len) :
    chain.Pairwise (fun ca x509 => ca.ca = true → ∀ id ∈ x509.subject :: x509.subjectAltNames,
        CheckedName id.type → NestsAt identities (constraintTypeFromId id.type) → NameAdmitted identities ca id) ∧
      ∀ ca ∈ above, ∀ x509 ∈ chain, ca.ca = true → ∀ id ∈ x509.subject :: x509.subjectAltNames,
        CheckedName id.type → NestsAt identities (constraintTypeFromId id.type) → NameAdmitted identities ca id := by
  -- induction on the chain; the sets after each certificate are those of
  -- the CAs up to it
  induction chain generalizing above permitted excluded len with
  | nil => simp
  | cons x509 rest inductionHypothesis =>
    unfold checkChain at valid
    split at valid
    · cases valid
    · rename_i passed
      split at valid
      · cases valid
      · rename_i permitted' narrowing
        split at valid
        · cases valid
        · rename_i excluded' widening
          have checked : ∀ ca ∈ above, ca.ca = true → ∀ id ∈ x509.subject :: x509.subjectAltNames,
              CheckedName id.type → NestsAt identities (constraintTypeFromId id.type) →
                NameAdmitted identities ca id := by
            intro ca member
            have matched : nameConstraintsMatch identities x509 permitted excluded = true := by
              have started := counted (List.ne_nil_of_mem member)
              simpa [started] using passed
            exact accumulated.admits matched ca member
          obtain ⟨restPairwise, restBelow⟩ := inductionHypothesis valid
            (accumulated.update narrowing widening) (fun _ => Nat.succ_pos len)
          refine ⟨List.pairwise_cons.mpr ⟨fun below inRest => restBelow x509 (by simp) below inRest,
            restPairwise⟩, ?_⟩
          intro ca member below inChain
          rcases List.mem_cons.mp inChain with isFirst | inRest
          · subst isFirst
            exact checked ca member
          · exact restBelow ca (List.mem_append_left _ member) below inRest

end Chain

/-- A chain `check_name_constraints` accepts: for each CA of the chain and
each certificate below it, no excluded constraint of the CA covers the subject
DN or a DNS or e-mail subjectAltName of the certificate, and when the CA
permits constraints of the name's type one of them covers it, each by the
validator's own matching. -/
theorem checkNameConstraints_admits_names {identities : Identities} {issuer subject : X509}
    {intermediates : List X509} (valid : checkNameConstraints identities issuer intermediates subject = .ok ()) :
    (issuer :: (intermediates.reverse ++ [subject])).Pairwise fun ca x509 =>
      ca.ca = true → ∀ id ∈ x509.subject :: x509.subjectAltNames, StringName id.type →
        NameAdmitted identities ca id := by
  have admits := (checkChain_admits valid (accumulated_nil identities) fun nonempty => absurd rfl nonempty).1
  refine admits.imp fun below isCa id member named => below isCa id member ?_ ?_
  · rcases named with same | same | same <;> simp [CheckedName, same]
  · exact nestsAt_of_stringName identities (stringName_constraintTypeFromId named)

/-! ## Name containment of RFC 5280 -/

/-- ASCII upper case to lower case. -/
def toLower (byte : UInt8) : UInt8 :=
  if 65 ≤ byte ∧ byte ≤ 90 then byte + 32 else byte

/-- RFC 5280 section 4.2.1.10: a DNS name lies within a dNSName constraint
when it is the constraint with zero or more labels added on the left, compared
without regard to case. -/
def dnsNameWithinRfc (constraint name : List UInt8) : Bool :=
  let c := constraint.map toLower
  let n := name.map toLower
  n == c || (dot :: c).isSuffixOf n

/-- `example.com`. -/
def exampleCom : List UInt8 := [101, 120, 97, 109, 112, 108, 101, 46, 99, 111, 109]

/-- `www.EXAMPLE.com`. -/
def wwwExampleComRecased : List UInt8 :=
  [119, 119, 119, 46, 69, 88, 65, 77, 80, 76, 69, 46, 99, 111, 109]

/-- Identities of a test chain: no DN has RDNs, no address matches. -/
def plainIdentities : Identities where
  rdns := fun _ => []
  matchesId := fun _ _ => false

/-- A trust anchor whose CA excludes the DNS subtree `example.com`. -/
def excludingAnchor : X509 where
  subject := ⟨.derAsn1Dn, [1]⟩
  subjectAltNames := []
  ca := true
  permittedNameConstraints := []
  excludedNameConstraints := [⟨.fqdn, exampleCom⟩]
  subject_dn := rfl

/-- An end entity named `www.EXAMPLE.com`. -/
def recasedEndEntity : X509 where
  subject := ⟨.derAsn1Dn, [2]⟩
  subjectAltNames := [⟨.fqdn, wwwExampleComRecased⟩]
  ca := false
  permittedNameConstraints := []
  excludedNameConstraints := []
  subject_dn := rfl

theorem checkNameConstraints_admits_recased_excluded_name :
    checkNameConstraints plainIdentities excludingAnchor [] recasedEndEntity = .ok () ∧
      dnsNameWithinRfc exampleCom wwwExampleComRecased = true :=
  ⟨rfl, by decide⟩

theorem checkNameConstraints_admits_names_recased :
    checkNameConstraints plainIdentities excludingAnchor [] recasedEndEntity = .ok () ∧
      (excludingAnchor :: ([].reverse ++ [recasedEndEntity])).Pairwise fun ca x509 =>
        ca.ca = true → ∀ id ∈ x509.subject :: x509.subjectAltNames, StringName id.type →
          NameAdmitted plainIdentities ca id :=
  ⟨rfl, checkNameConstraints_admits_names rfl⟩

instance (type : IdType) : Decidable (CheckedName type) := inferInstanceAs (Decidable (_ ∨ _))

instance (identities : Identities) (ca : X509) (id : Identification) :
    Decidable (NameAdmitted identities ca id) :=
  inferInstanceAs (Decidable (_ ∧ _))

/-- RFC 5280 section 6.1 from the anchor down. Every certificate has each checked name
admitted by every CA above it: the excluded subtrees unite over the CAs, the permitted
ones intersect (a type no CA constrains stays unrestricted), and a certificate that is
no CA adds nothing. -/
def Rfc5280NameConstraints (identities : Identities) (chain : List X509) : Prop :=
  chain.Pairwise fun ca x509 => ca.ca = true → ∀ id ∈ x509.subject :: x509.subjectAltNames,
    CheckedName id.type → NameAdmitted identities ca id

instance (identities : Identities) (chain : List X509) :
    Decidable (Rfc5280NameConstraints identities chain) :=
  inferInstanceAs (Decidable (List.Pairwise _ chain))

/-- `a.example.com`. -/
def aExampleCom : List UInt8 := [97, 46] ++ exampleCom

/-- `www.a.example.com`. -/
def wwwAExampleCom : List UInt8 := [119, 119, 119, 46] ++ aExampleCom

/-- A trust anchor whose CA permits only the DNS subtree `a.example.com`. -/
def narrowingAnchor : X509 where
  subject := ⟨.derAsn1Dn, [1]⟩
  subjectAltNames := []
  ca := true
  permittedNameConstraints := [⟨.fqdn, aExampleCom⟩]
  excludedNameConstraints := []
  subject_dn := rfl

/-- An intermediate CA that permits the wider DNS subtree `example.com`. -/
def wideningCa : X509 where
  subject := ⟨.derAsn1Dn, [3]⟩
  subjectAltNames := []
  ca := true
  permittedNameConstraints := [⟨.fqdn, exampleCom⟩]
  excludedNameConstraints := []
  subject_dn := rfl

/-- An end entity named `www.a.example.com`. -/
def wwwAEndEntity : X509 where
  subject := ⟨.derAsn1Dn, [2]⟩
  subjectAltNames := [⟨.fqdn, wwwAExampleCom⟩]
  ca := false
  permittedNameConstraints := []
  excludedNameConstraints := []
  subject_dn := rfl

theorem checkNameConstraints_rejects_widened_subtree :
    checkNameConstraints plainIdentities narrowingAnchor [wideningCa] wwwAEndEntity = .error wwwAEndEntity ∧
      Rfc5280NameConstraints plainIdentities (narrowingAnchor :: ([wideningCa].reverse ++ [wwwAEndEntity])) ∧
      dnsNameWithinRfc aExampleCom wwwAExampleCom = true ∧ dnsNameWithinRfc exampleCom wwwAExampleCom = true :=
  ⟨rfl, by decide, by decide, by decide⟩

end StrongSwan.Libstrongswan.Plugins.Constraints.ConstraintsValidator
