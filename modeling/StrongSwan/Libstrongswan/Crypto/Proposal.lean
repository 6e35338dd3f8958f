import Mathlib

/-!
Contract: transform selection of `proposal.c`.

A proposal is built by `add_algorithm`: it keeps its transforms in the order they
were added and the set of their types, sorted by `type_for_sort` (which swaps
`PSEUDO_RANDOM_FUNCTION` and `INTEGRITY_ALGORITHM`). `select_algos` walks the
types of both proposals, merged into one sorted set, and asks `select_algo` for
each: after a pre-pass that settles an empty list or a proposed NONE of an
optional key exchange type, it takes the first entry of this proposal's list
that the other list has too, skipping private algorithms under
`PROPOSAL_SKIP_PRIVATE` and key exchange methods an earlier key exchange type
took. An AEAD encryption algorithm drops the integrity type, and algorithm `0`
is added only for `EXTENDED_SEQUENCE_NUMBERS`.

`selectAlgos_spec` says what each selected transform is, given the key exchange
methods taken before it; the contract of `select` follows
(`select_contract`). `AdmissibleSelection` states when an assignment of common
entries with distinct key exchange methods exists; the greedy choice of
`select_algos` can miss one (`matches_misses_admissible_selection`).

Transform types and algorithm identifiers are numbers, as the peer sends them.

Does not own: parsing proposals from strings or payloads, `strip_dh`,
`promote_transform`, `remove_transform`, `equals`, printing, and the choice
among proposal lists in `proposal_select`.
-/

namespace StrongSwan.Libstrongswan.Crypto

/-! ## Transform types -/

def encryptionAlgorithm : Nat := 1
def pseudoRandomFunction : Nat := 2
def integrityAlgorithm : Nat := 3
def keyExchangeMethod : Nat := 4
def extendedSequenceNumbers : Nat := 5
def additionalKeyExchange1 : Nat := 6
def additionalKeyExchange7 : Nat := 12

def isKeTransform (type : Nat) : Bool :=
  type == keyExchangeMethod || (additionalKeyExchange1 ≤ type && type ≤ additionalKeyExchange7)

/-- A hack of the source to keep the printing order: integrity sorts before the PRF. -/
def typeForSort (type : Nat) : Nat :=
  if type = pseudoRandomFunction then integrityAlgorithm
  else if type = integrityAlgorithm then pseudoRandomFunction
  else type

/-- The order of `type_sort`. -/
def TypeOrder (first second : Nat) : Prop := typeForSort first ≤ typeForSort second

instance : DecidableRel TypeOrder := fun first second =>
  inferInstanceAs (Decidable (typeForSort first ≤ typeForSort second))

instance : Std.Total TypeOrder :=
  ⟨fun first second => Nat.le_total (typeForSort first) (typeForSort second)⟩

instance : IsTrans Nat TypeOrder := ⟨fun _ _ _ => Nat.le_trans⟩

/-- `add_type`: the sorted set of types gets one more, unless `contains_type` finds it. -/
def addType (types : List Nat) (type : Nat) : List Nat :=
  if types.contains type then types else (types ++ [type]).insertionSort TypeOrder

/-- `encryption_algorithm_is_aead`: the CCM, GCM, GMAC and ChaCha20-Poly1305 codes. -/
def encryptionAlgorithmIsAead (alg : Nat) : Bool :=
  alg ∈ [14, 15, 16, 18, 19, 20, 21, 25, 26, 27, 28]

/-! ## Proposals -/

inductive ProtocolId where
  | protoNone
  | protoIke
  | protoAh
  | protoEsp
  | protoIpcomp
deriving DecidableEq, Repr

structure Transform where
  type : Nat
  alg : Nat
  keySize : Nat
deriving DecidableEq, Repr

structure Proposal where
  protocol : ProtocolId
  transforms : List Transform
  spi : Nat
  number : Nat
  transformNumber : Nat
deriving DecidableEq, Repr

/-- The types array, as the `add_algorithm` calls that built the proposal left it. -/
def Proposal.types (proposal : Proposal) : List Nat :=
  proposal.transforms.foldl (fun types transform => addType types transform.type) []

/-- `create_enumerator(this, type)`: algorithm and key size of each transform of a type,
in order. -/
def Proposal.algorithms (proposal : Proposal) (type : Nat) : List (Nat × Nat) :=
  (proposal.transforms.filter (·.type == type)).map fun transform => (transform.alg, transform.keySize)

/-- `get_algorithm`: the first transform of a type. -/
def Proposal.getAlgorithm (proposal : Proposal) (type : Nat) : Option (Nat × Nat) :=
  (proposal.algorithms type).head?

/-- `merge_types`: the types of both proposals, read at one index after the other; past
the end of one array only the other adds. -/
def mergeTypesFrom : List Nat → List Nat → List Nat → List Nat
  | types, first :: firsts, second :: seconds =>
    mergeTypesFrom (addType (addType types first) second) firsts seconds
  | types, firsts, [] => firsts.foldl addType types
  | types, [], seconds => seconds.foldl addType types

def mergeTypes (this other : Proposal) : List Nat := mergeTypesFrom [] this.types other.types

/-- `proposal_selection_flag_t`. -/
structure SelectionFlags where
  preferSupplied : Bool
  skipPrivate : Bool
  skipKe : Bool
deriving DecidableEq, Repr

/-! ## Selection -/

/-- The test of the comparison loop of `select_algo` on an entry of this proposal's
list: no key exchange method taken already, one the other list has too, and not
private when private algorithms are skipped. -/
def acceptsEntry (other : Proposal) (type : Nat) (flags : SelectionFlags) (kes : List Nat)
    (entry : Nat × Nat) : Bool :=
  !(isKeTransform type && kes.contains entry.1) && (other.algorithms type).contains entry &&
    !(flags.skipPrivate && 1024 ≤ entry.1)

/-- The comparison loop of `select_algo`: the first entry of this proposal's list, in
its order, that passes the test. -/
def firstCommon (this other : Proposal) (type : Nat) (flags : SelectionFlags) (kes : List Nat) :
    Option (Nat × Nat) :=
  (this.algorithms type).find? (acceptsEntry other type flags kes)

/-- The pre-pass of `select_algo`: two empty lists, or an empty one against a list
proposing NONE for an optional key exchange type, need no transform. -/
def Proposal.settles (this other : Proposal) (type : Nat) : Bool :=
  let optional := isKeTransform type &&
    (this.protocol == .protoEsp || this.protocol == .protoAh || type != keyExchangeMethod)
  match this.algorithms type, other.algorithms type with
  | [], [] => true
  | [], theirs => optional && theirs.any (·.1 == 0)
  | mine, [] => optional && mine.any (·.1 == 0)
  | _, _ => false

/-- `select_algo`: `none` when nothing is acceptable, else the algorithm and key size
found; `(0, 0)`, as `select_algos` initialised them, when the pre-pass settles the type. -/
def selectAlgo (this other : Proposal) (type : Nat) (flags : SelectionFlags) (kes : List Nat) :
    Option (Nat × Nat) :=
  if this.settles other type then some (0, 0) else firstCommon this other type flags kes

/-- The loop of `select_algos` over the merged types, with the key exchange methods
taken so far and `skip_integrity`; the transforms added to the selected proposal. -/
def selectAlgosFrom (this other : Proposal) (flags : SelectionFlags) :
    List Nat → List Nat → Bool → Option (List Transform)
  | [], _, _ => some []
  | type :: types, kes, skipIntegrity =>
    if type = integrityAlgorithm ∧ skipIntegrity then selectAlgosFrom this other flags types kes skipIntegrity
    else if isKeTransform type && flags.skipKe then selectAlgosFrom this other flags types kes skipIntegrity
    else
      match selectAlgo this other type flags kes with
      | none => none
      | some (alg, keySize) =>
        -- 0 is valid for extended sequence numbers; for other types it is NONE or reserved
        if alg = 0 ∧ type ≠ extendedSequenceNumbers then
          selectAlgosFrom this other flags types kes skipIntegrity
        else
          let kes := if isKeTransform type then kes ++ [alg] else kes
          -- no integrity algorithm is required with an AEAD
          let skipIntegrity :=
            skipIntegrity || (type == encryptionAlgorithm && encryptionAlgorithmIsAead alg)
          (selectAlgosFrom this other flags types kes skipIntegrity).map (⟨type, alg, keySize⟩ :: ·)

def selectAlgos (this other : Proposal) (flags : SelectionFlags) : Option (List Transform) :=
  selectAlgosFrom this other flags (mergeTypes this other) [] false

/-- `select_proposal`: number, transform number and SPI come from the preferred side. -/
def Proposal.select (this other : Proposal) (flags : SelectionFlags) : Option Proposal :=
  if this.protocol ≠ other.protocol then none
  else
    let source := if flags.preferSupplied then this else other
    (selectAlgos this other flags).map fun transforms =>
      ⟨this.protocol, transforms, source.spi, source.number, source.transformNumber⟩

def Proposal.matches (this other : Proposal) (flags : SelectionFlags) : Bool :=
  this.protocol == other.protocol && (selectAlgos this other flags).isSome

/-! ## The type sets -/

/-- A types array as `add_type` keeps it: each type once, sorted by `type_sort`. -/
structure SortedTypes (types : List Nat) : Prop where
  nodup : types.Nodup
  sorted : types.Pairwise TypeOrder

theorem mem_addType {types : List Nat} {type other : Nat} :
    other ∈ addType types type ↔ other ∈ types ∨ other = type := by
  unfold addType
  split_ifs with present
  · have member : type ∈ types := List.contains_iff_mem.mp present
    constructor
    · exact Or.inl
    · rintro (member' | rfl)
      · exact member'
      · exact member
  · simp [List.mem_insertionSort]

theorem sortedTypes_addType {types : List Nat} (sortedTypes : SortedTypes types) (type : Nat) :
    SortedTypes (addType types type) := by
  unfold addType
  split_ifs with present
  · exact sortedTypes
  · -- a type `contains_type` does not find is new to the set
    have fresh : type ∉ types := fun member => present (List.contains_iff_mem.mpr member)
    refine ⟨?_, List.pairwise_insertionSort TypeOrder _⟩
    rw [(List.perm_insertionSort TypeOrder _).nodup_iff, List.nodup_append]
    refine ⟨sortedTypes.nodup, List.nodup_singleton type, ?_⟩
    intro other member added single same
    rw [List.mem_singleton] at single
    rw [same, single] at member
    exact fresh member

theorem mem_foldl_addType (added : List Nat) {types : List Nat} {other : Nat} :
    other ∈ added.foldl addType types ↔ other ∈ types ∨ other ∈ added := by
  induction added generalizing types with
  | nil => simp
  | cons type rest inductionHypothesis =>
    rw [List.foldl_cons, inductionHypothesis, mem_addType, List.mem_cons]
    exact or_assoc

theorem sortedTypes_foldl_addType (added : List Nat) {types : List Nat}
    (sortedTypes : SortedTypes types) : SortedTypes (added.foldl addType types) := by
  induction added generalizing types with
  | nil => exact sortedTypes
  | cons type rest inductionHypothesis =>
    exact inductionHypothesis (sortedTypes_addType sortedTypes type)

theorem mem_mergeTypesFrom (types firsts seconds : List Nat) {other : Nat} :
    other ∈ mergeTypesFrom types firsts seconds ↔ other ∈ types ∨ other ∈ firsts ∨ other ∈ seconds := by
  fun_induction mergeTypesFrom types firsts seconds with
  | case1 types first firsts second seconds inductionHypothesis =>
    rw [inductionHypothesis, mem_addType, mem_addType, List.mem_cons, List.mem_cons]
    simp only [or_assoc, or_left_comm]
  | case2 types firsts => simp [mem_foldl_addType]
  | case3 types seconds => simp [mem_foldl_addType]

theorem sortedTypes_mergeTypesFrom {types : List Nat} (sortedTypes : SortedTypes types)
    (firsts seconds : List Nat) : SortedTypes (mergeTypesFrom types firsts seconds) := by
  fun_induction mergeTypesFrom types firsts seconds with
  | case1 types first firsts second seconds inductionHypothesis =>
    exact inductionHypothesis (sortedTypes_addType (sortedTypes_addType sortedTypes first) second)
  | case2 types firsts => exact sortedTypes_foldl_addType firsts sortedTypes
  | case3 types seconds => exact sortedTypes_foldl_addType seconds sortedTypes

theorem sortedTypes_mergeTypes (this other : Proposal) : SortedTypes (mergeTypes this other) :=
  sortedTypes_mergeTypesFrom ⟨List.nodup_nil, List.Pairwise.nil⟩ _ _

/-- A merged type is the type of a transform of one of the two proposals. -/
theorem algorithms_ne_nil_of_mem_mergeTypes {this other : Proposal} {type : Nat}
    (member : type ∈ mergeTypes this other) :
    this.algorithms type ≠ [] ∨ other.algorithms type ≠ [] := by
  have proposed : ∀ proposal : Proposal, type ∈ proposal.types → proposal.algorithms type ≠ [] := by
    intro proposal typed
    obtain ⟨transform, transformMember, sameType⟩ :=
      List.mem_map.mp (((mem_foldl_addType (proposal.transforms.map (·.type))).mp
        (by simpa [Proposal.types, List.foldl_map] using typed)).resolve_left List.not_mem_nil)
    simp only [Proposal.algorithms, ne_eq, List.map_eq_nil_iff, List.filter_eq_nil_iff, not_forall,
      not_not, beq_iff_eq]
    exact ⟨transform, transformMember, sameType⟩
  rw [mergeTypes, mem_mergeTypesFrom] at member
  rcases member with empty | mine | theirs
  · cases empty
  · exact Or.inl (proposed this mine)
  · exact Or.inr (proposed other theirs)

/-! ## What one type gets -/

/-- The key exchange methods among some transforms, in order. -/
def kesOf (transforms : List Transform) : List Nat :=
  (transforms.filter (isKeTransform ·.type)).map (·.alg)

@[simp] theorem kesOf_nil : kesOf [] = [] := rfl

theorem kesOf_cons (transform : Transform) (rest : List Transform) :
    kesOf (transform :: rest) =
      (if isKeTransform transform.type then [transform.alg] else []) ++ kesOf rest := by
  unfold kesOf
  cases ke : isKeTransform transform.type <;> simp [ke]

/-- An entry of this proposal's list for `type` that `select_algo` may take: the other
list has it, it is no key exchange method taken already, and it is not private when
private algorithms are skipped. -/
def Acceptable (other : Proposal) (type : Nat) (flags : SelectionFlags) (kes : List Nat)
    (entry : Nat × Nat) : Prop :=
  entry ∈ other.algorithms type ∧ (isKeTransform type = true → entry.1 ∉ kes) ∧
    (flags.skipPrivate = true → entry.1 < 1024)

theorem acceptable_iff {other : Proposal} {type : Nat} {flags : SelectionFlags} {kes : List Nat}
    {entry : Nat × Nat} :
    Acceptable other type flags kes entry ↔ acceptsEntry other type flags kes entry = true := by
  unfold Acceptable acceptsEntry
  cases isKeTransform type <;> cases flags.skipPrivate <;> simp <;> tauto

/-- The comparison loop takes the first acceptable entry of this proposal's list. -/
theorem firstCommon_spec {this other : Proposal} {type : Nat} {flags : SelectionFlags}
    {kes : List Nat} {entry : Nat × Nat} (found : firstCommon this other type flags kes = some entry) :
    Acceptable other type flags kes entry ∧
      ∃ earlier later : List (Nat × Nat), this.algorithms type = earlier ++ entry :: later ∧
        ∀ skipped ∈ earlier, ¬Acceptable other type flags kes skipped := by
  obtain ⟨accepted, earlier, later, split, rejected⟩ := List.find?_eq_some_iff_append.mp found
  refine ⟨acceptable_iff.mpr accepted, earlier, later, split, fun skipped member acceptedEarlier => ?_⟩
  have notAccepted := rejected skipped member
  rw [acceptable_iff.mp acceptedEarlier] at notAccepted
  exact Bool.false_ne_true notAccepted

/-- A transform `select_algos` adds comes from the comparison loop: the pre-pass
yields only algorithm `0`, and for `EXTENDED_SEQUENCE_NUMBERS`, which is not
optional, only when neither proposal has the type. -/
theorem firstCommon_of_selectAlgo {this other : Proposal} {type : Nat} {flags : SelectionFlags}
    {kes : List Nat} {alg keySize : Nat} (selected : selectAlgo this other type flags kes = some (alg, keySize))
    (added : alg ≠ 0 ∨ type = extendedSequenceNumbers)
    (proposed : this.algorithms type ≠ [] ∨ other.algorithms type ≠ []) :
    firstCommon this other type flags kes = some (alg, keySize) := by
  unfold selectAlgo at selected
  split_ifs at selected with settled
  · simp only [Option.some.injEq, Prod.mk.injEq] at selected
    obtain ⟨rfl, rfl⟩ := selected
    have extended : type = extendedSequenceNumbers := added.resolve_left (fun zero => zero rfl)
    subst extended
    unfold Proposal.settles at settled
    have notKe : isKeTransform extendedSequenceNumbers = false := by decide
    rw [notKe] at settled
    split at settled <;> simp_all
  · exact selected

/-! ## The loop of `select_algos` -/

section Loop

variable {this other : Proposal} {flags : SelectionFlags}

theorem selectAlgosFrom_nil {kes : List Nat} {skipIntegrity : Bool} {result : List Transform}
    (selected : selectAlgosFrom this other flags [] kes skipIntegrity = some result) : result = [] := by
  rw [selectAlgosFrom, Option.some.injEq] at selected
  exact selected.symm

/-- One round of `select_algos`: the type is passed over, or it gets the transform
`select_algo` found, with the accumulators updated. -/
theorem selectAlgosFrom_cons_cases {type : Nat} {types kes : List Nat} {skipIntegrity : Bool}
    {result : List Transform}
    (selected : selectAlgosFrom this other flags (type :: types) kes skipIntegrity = some result) :
    selectAlgosFrom this other flags types kes skipIntegrity = some result ∨
      ∃ alg keySize rest, selectAlgo this other type flags kes = some (alg, keySize) ∧
        (alg ≠ 0 ∨ type = extendedSequenceNumbers) ∧ ¬(type = integrityAlgorithm ∧ skipIntegrity = true) ∧
        (isKeTransform type && flags.skipKe) = false ∧ result = ⟨type, alg, keySize⟩ :: rest ∧
        selectAlgosFrom this other flags types (if isKeTransform type then kes ++ [alg] else kes)
          (skipIntegrity || (type == encryptionAlgorithm && encryptionAlgorithmIsAead alg)) = some rest := by
  rw [selectAlgosFrom] at selected
  by_cases integrity : type = integrityAlgorithm ∧ skipIntegrity = true
  · rw [if_pos integrity] at selected
    exact Or.inl selected
  rw [if_neg integrity] at selected
  by_cases keSkipped : (isKeTransform type && flags.skipKe) = true
  · rw [if_pos keSkipped] at selected
    exact Or.inl selected
  rw [if_neg keSkipped] at selected
  split at selected
  · cases selected
  rename_i alg keySize found
  by_cases zero : alg = 0 ∧ type ≠ extendedSequenceNumbers
  · rw [if_pos zero] at selected
    exact Or.inl selected
  rw [if_neg zero] at selected
  obtain ⟨rest, restSelected, rfl⟩ := Option.map_eq_some_iff.mp selected
  refine Or.inr ⟨alg, keySize, rest, found, ?_, integrity, by simpa using keSkipped, rfl, restSelected⟩
  by_cases nonzero : alg = 0
  · exact Or.inr (not_not.mp fun other => zero ⟨nonzero, other⟩)
  · exact Or.inl nonzero

theorem types_sublist_selectAlgosFrom {types kes : List Nat} {skipIntegrity : Bool}
    {result : List Transform} (selected : selectAlgosFrom this other flags types kes skipIntegrity = some result) :
    (result.map (·.type)).Sublist types := by
  induction types generalizing kes skipIntegrity result with
  | nil =>
    rw [selectAlgosFrom_nil selected]
    simp
  | cons type types inductionHypothesis =>
    rcases selectAlgosFrom_cons_cases selected with passed | ⟨alg, keySize, rest, -, -, -, -, rfl, restSelected⟩
    · exact (inductionHypothesis passed).cons type
    · exact (inductionHypothesis restSelected).cons_cons type

/-- Each transform added is what the comparison loop of its type picked, with the key
exchange methods of the transforms before it taken. -/
theorem firstCommon_of_selectAlgosFrom {types kes : List Nat} {skipIntegrity : Bool}
    {result : List Transform} (proposed : ∀ type ∈ types, this.algorithms type ≠ [] ∨ other.algorithms type ≠ [])
    (selected : selectAlgosFrom this other flags types kes skipIntegrity = some result) :
    ∀ (before : List Transform) (transform : Transform) (after : List Transform),
      result = before ++ transform :: after →
      firstCommon this other transform.type flags (kes ++ kesOf before) =
        some (transform.alg, transform.keySize) ∧
      (transform.alg ≠ 0 ∨ transform.type = extendedSequenceNumbers) := by
  induction types generalizing kes skipIntegrity result with
  | nil =>
    intro before transform after split
    rw [selectAlgosFrom_nil selected] at split
    simp at split
  | cons type types inductionHypothesis =>
    have proposedRest := fun other member => proposed other (List.mem_cons_of_mem type member)
    rcases selectAlgosFrom_cons_cases selected with
      passed | ⟨alg, keySize, rest, found, added, -, -, rfl, restSelected⟩
    · exact inductionHypothesis proposedRest passed
    intro before transform after split
    cases before with
    | nil =>
      -- the first transform is the one this round added
      obtain ⟨rfl, -⟩ := List.cons.inj split
      simpa using ⟨firstCommon_of_selectAlgo found added (proposed type List.mem_cons_self), added⟩
    | cons first before =>
      obtain ⟨rfl, restSplit⟩ := List.cons.inj split
      have later := inductionHypothesis proposedRest restSelected before transform after restSplit
      rw [kesOf_cons]
      by_cases ke : isKeTransform type = true <;> simpa [ke, List.append_assoc] using later

/-- Once `skip_integrity` is raised no integrity transform is added. -/
theorem not_integrity_of_skipIntegrity {types kes : List Nat} {result : List Transform}
    (selected : selectAlgosFrom this other flags types kes true = some result) :
    ∀ transform ∈ result, transform.type ≠ integrityAlgorithm := by
  induction types generalizing kes result with
  | nil =>
    rw [selectAlgosFrom_nil selected]
    simp
  | cons type types inductionHypothesis =>
    rcases selectAlgosFrom_cons_cases selected with
      passed | ⟨alg, keySize, rest, -, -, notSkipped, -, rfl, restSelected⟩
    · exact inductionHypothesis passed
    intro transform member
    rcases List.mem_cons.mp member with rfl | later
    · exact fun integrity => notSkipped ⟨integrity, rfl⟩
    · exact inductionHypothesis (by simpa using restSelected) transform later

theorem not_ke_of_skipKe {types kes : List Nat} {skipIntegrity : Bool} {result : List Transform}
    (skipKe : flags.skipKe = true)
    (selected : selectAlgosFrom this other flags types kes skipIntegrity = some result) :
    ∀ transform ∈ result, isKeTransform transform.type = false := by
  induction types generalizing kes skipIntegrity result with
  | nil =>
    rw [selectAlgosFrom_nil selected]
    simp
  | cons type types inductionHypothesis =>
    rcases selectAlgosFrom_cons_cases selected with
      passed | ⟨alg, keySize, rest, -, -, -, notSkipped, rfl, restSelected⟩
    · exact inductionHypothesis passed
    intro transform member
    rcases List.mem_cons.mp member with rfl | later
    · simpa [skipKe] using notSkipped
    · exact inductionHypothesis restSelected transform later

/-- Over types sorted by `type_sort`, encryption is decided before integrity, so an
AEAD keeps every integrity transform out. -/
theorem not_integrity_of_aead {types kes : List Nat} {skipIntegrity : Bool} {result : List Transform}
    (sorted : types.Pairwise TypeOrder)
    (selected : selectAlgosFrom this other flags types kes skipIntegrity = some result)
    {aead : Transform} (aeadMember : aead ∈ result) (encryption : aead.type = encryptionAlgorithm)
    (isAead : encryptionAlgorithmIsAead aead.alg = true) :
    ∀ transform ∈ result, transform.type ≠ integrityAlgorithm := by
  induction types generalizing kes skipIntegrity result with
  | nil =>
    rw [selectAlgosFrom_nil selected] at aeadMember
    simp at aeadMember
  | cons type types inductionHypothesis =>
    rw [List.pairwise_cons] at sorted
    rcases selectAlgosFrom_cons_cases selected with
      passed | ⟨alg, keySize, rest, -, -, -, -, rfl, restSelected⟩
    · exact inductionHypothesis sorted.2 passed aeadMember
    intro transform member integrity
    rcases List.mem_cons.mp aeadMember with rfl | aeadLater
    · -- the AEAD of this round raises skip_integrity for the rest
      have typeEq : type = encryptionAlgorithm := encryption
      have raised : (skipIntegrity || (type == encryptionAlgorithm && encryptionAlgorithmIsAead alg)) = true := by
        simp only [typeEq, beq_self_eq_true, Bool.true_and, Bool.or_eq_true]
        exact Or.inr isAead
      rw [raised] at restSelected
      rcases List.mem_cons.mp member with rfl | later
      · simp only [encryptionAlgorithm, integrityAlgorithm] at typeEq integrity
        omega
      · exact not_integrity_of_skipIntegrity restSelected transform later integrity
    · -- an encryption type after this one sorts after it, so this round is no integrity type
      have encryptionLater : encryptionAlgorithm ∈ types :=
        encryption ▸ (types_sublist_selectAlgosFrom restSelected).subset (List.mem_map_of_mem aeadLater)
      rcases List.mem_cons.mp member with rfl | later
      · have integrityType : type = integrityAlgorithm := integrity
        have ordered := sorted.1 _ encryptionLater
        rw [integrityType] at ordered
        exact absurd ordered (by decide)
      · exact inductionHypothesis sorted.2 restSelected aeadLater transform later integrity

end Loop

/-- Key exchange methods none of which is one taken before it are distinct. -/
theorem nodup_kesOf {transforms : List Transform} {kes : List Nat}
    (fresh : ∀ (before : List Transform) (transform : Transform) (after : List Transform),
      transforms = before ++ transform :: after →
      isKeTransform transform.type = true → transform.alg ∉ kes ++ kesOf before) :
    (kesOf transforms).Nodup ∧ ∀ alg ∈ kesOf transforms, alg ∉ kes := by
  induction transforms generalizing kes with
  | nil => simp
  | cons first rest inductionHypothesis =>
    -- the rest meets the methods of the first transform taken as well
    have freshRest : ∀ (before : List Transform) (transform : Transform) (after : List Transform),
        rest = before ++ transform :: after →
        isKeTransform transform.type = true → transform.alg ∉ (kes ++ kesOf [first]) ++ kesOf before := by
      intro before transform after split ke
      simpa [kesOf_cons, List.append_assoc] using fresh (first :: before) transform after (by rw [split]; rfl) ke
    have restFresh := inductionHypothesis freshRest
    rw [kesOf_cons]
    cases ke : isKeTransform first.type
    · simpa [kesOf_cons, ke] using restFresh
    · have firstFresh : first.alg ∉ kes := by simpa using fresh [] first rest rfl ke
      simp only [kesOf_cons, kesOf_nil, ke, if_true, List.append_nil,
        List.mem_append, List.mem_singleton, not_or] at restFresh
      refine ⟨List.nodup_cons.mpr ⟨fun member => (restFresh.2 _ member).2 rfl, restFresh.1⟩, ?_⟩
      intro alg member
      rcases List.mem_cons.mp member with rfl | later
      · exact firstFresh
      · exact (restFresh.2 alg later).1

/-- Distinct types make at most one transform of each. -/
theorem length_algorithms_le_one {proposal : Proposal} (distinct : (proposal.transforms.map (·.type)).Nodup)
    (type : Nat) : (proposal.algorithms type).length ≤ 1 := by
  have counted := List.nodup_iff_count_le_one.mp distinct type
  rw [Proposal.algorithms, List.length_map, ← List.countP_eq_length_filter]
  simpa [List.count, List.countP_map, Function.comp_def] using counted

/-! ## The contract of `select` -/

theorem select_eq_some {this other : Proposal} {flags : SelectionFlags} {selected : Proposal}
    (chosen : this.select other flags = some selected) :
    ∃ transforms, selectAlgos this other flags = some transforms ∧
      selected = ⟨this.protocol, transforms, (if flags.preferSupplied then this else other).spi,
        (if flags.preferSupplied then this else other).number,
        (if flags.preferSupplied then this else other).transformNumber⟩ := by
  unfold Proposal.select at chosen
  by_cases mismatch : this.protocol ≠ other.protocol
  · rw [if_pos mismatch] at chosen
    cases chosen
  rw [if_neg mismatch] at chosen
  obtain ⟨transforms, found, rfl⟩ := Option.map_eq_some_iff.mp chosen
  exact ⟨transforms, found, rfl⟩

theorem select_contract (this other : Proposal) (flags : SelectionFlags) (selected : Proposal)
    (chosen : this.select other flags = some selected) :
    let source := if flags.preferSupplied then this else other
    (selected.protocol = this.protocol ∧ selected.number = source.number ∧
      selected.transformNumber = source.transformNumber ∧ selected.spi = source.spi) ∧
    (∀ type ∈ mergeTypes this other, (selected.algorithms type).length ≤ 1) ∧
    (∀ (before : List Transform) (transform : Transform) (after : List Transform),
      selected.transforms = before ++ transform :: after →
      transform.type ∈ mergeTypes this other ∧
      (transform.alg ≠ 0 ∨ transform.type = extendedSequenceNumbers) ∧
      Acceptable other transform.type flags (kesOf before) (transform.alg, transform.keySize) ∧
      ∃ earlier later : List (Nat × Nat),
        this.algorithms transform.type = earlier ++ (transform.alg, transform.keySize) :: later ∧
        ∀ skipped ∈ earlier, ¬Acceptable other transform.type flags (kesOf before) skipped) ∧
    (flags.skipKe = true → ∀ transform ∈ selected.transforms, isKeTransform transform.type = false) ∧
    (∀ transform ∈ selected.transforms, transform.type = encryptionAlgorithm →
      encryptionAlgorithmIsAead transform.alg = true → selected.algorithms integrityAlgorithm = []) ∧
    (kesOf selected.transforms).Nodup := by
  intro source
  obtain ⟨transforms, found, rfl⟩ := select_eq_some chosen
  have sorted := sortedTypes_mergeTypes this other
  have sublist := types_sublist_selectAlgosFrom found
  -- every transform is the first acceptable entry of its type, with the methods before it taken
  have first : ∀ (before : List Transform) (transform : Transform) (after : List Transform),
      transforms = before ++ transform :: after →
      firstCommon this other transform.type flags (kesOf before) = some (transform.alg, transform.keySize) ∧
      (transform.alg ≠ 0 ∨ transform.type = extendedSequenceNumbers) := by
    intro before transform after split
    simpa using firstCommon_of_selectAlgosFrom (fun _ member => algorithms_ne_nil_of_mem_mergeTypes member)
      found before transform after split
  refine ⟨⟨rfl, rfl, rfl, rfl⟩, fun type _ => length_algorithms_le_one (sorted.nodup.sublist sublist) type,
    ?_, fun skipKe => not_ke_of_skipKe skipKe found, ?_, ?_⟩
  · intro before transform after split
    have split : transforms = before ++ transform :: after := split
    obtain ⟨picked, added⟩ := first before transform after split
    obtain ⟨accepted, earlier, later, listSplit, rejected⟩ := firstCommon_spec picked
    have member : transform ∈ transforms := split ▸ List.mem_append_right _ List.mem_cons_self
    exact ⟨sublist.subset (List.mem_map_of_mem member), added, accepted, earlier, later, listSplit, rejected⟩
  · intro aead member encryption isAead
    have noIntegrity := not_integrity_of_aead sorted.sorted found member encryption isAead
    simp only [Proposal.algorithms, List.map_eq_nil_iff, List.filter_eq_nil_iff, beq_iff_eq]
    exact noIntegrity
  · have fresh : ∀ (before : List Transform) (transform : Transform) (after : List Transform),
        transforms = before ++ transform :: after →
        isKeTransform transform.type = true → transform.alg ∉ [] ++ kesOf before := by
      intro before transform after split ke
      obtain ⟨accepted, -⟩ := firstCommon_spec (first before transform after split).1
      simpa using accepted.2.1 ke
    exact (nodup_kesOf fresh).1

/-! ## Admissible selections -/

/-- What an assignment may give a merged type: an entry both lists have, not private
when private algorithms are skipped; or nothing, where the pre-pass of `select_algo`
settles the type or an AEAD makes integrity needless. -/
def AllowedChoice (this other : Proposal) (flags : SelectionFlags) (encryption : Option (Nat × Nat))
    (type : Nat) : Option (Nat × Nat) → Prop
  | some entry => entry ∈ this.algorithms type ∧ entry ∈ other.algorithms type ∧
      (flags.skipPrivate = true → entry.1 < 1024)
  | none => this.settles other type = true ∨
      (type = integrityAlgorithm ∧ encryption.any (fun entry => encryptionAlgorithmIsAead entry.1) = true)

instance (this other : Proposal) (flags : SelectionFlags) (encryption : Option (Nat × Nat)) (type : Nat) :
    (choice : Option (Nat × Nat)) → Decidable (AllowedChoice this other flags encryption type choice)
  | some _ => inferInstanceAs (Decidable (_ ∧ _ ∧ _))
  | none => inferInstanceAs (Decidable (_ ∨ _))

/-- The key exchange methods an assignment takes, NONE left out. -/
def takenMethods (types : List Nat) (choice : Nat → Option (Nat × Nat)) : List Nat :=
  (types.filter isKeTransform).filterMap fun type =>
    (choice type).bind fun entry => if entry.1 = 0 then none else some entry.1

/-- An assignment to every merged type not skipped under `PROPOSAL_SKIP_KE`, whose key
exchange methods are distinct. -/
structure AdmissibleChoice (this other : Proposal) (flags : SelectionFlags)
    (choice : Nat → Option (Nat × Nat)) : Prop where
  allowed : ∀ type ∈ mergeTypes this other, (isKeTransform type && flags.skipKe) = false →
    AllowedChoice this other flags (choice encryptionAlgorithm) type (choice type)
  distinct : (takenMethods ((mergeTypes this other).filter fun type => !(isKeTransform type && flags.skipKe))
    choice).Nodup

instance (this other : Proposal) (flags : SelectionFlags) (choice : Nat → Option (Nat × Nat)) :
    Decidable (AdmissibleChoice this other flags choice) :=
  decidable_of_iff
    ((∀ type ∈ mergeTypes this other, (isKeTransform type && flags.skipKe) = false →
      AllowedChoice this other flags (choice encryptionAlgorithm) type (choice type)) ∧
     (takenMethods ((mergeTypes this other).filter fun type => !(isKeTransform type && flags.skipKe))
      choice).Nodup)
    ⟨fun ⟨allowed, distinct⟩ => ⟨allowed, distinct⟩, fun ⟨allowed, distinct⟩ => ⟨allowed, distinct⟩⟩

/-- Some assignment of common entries, with distinct key exchange methods, exists. -/
def AdmissibleSelection (this other : Proposal) (flags : SelectionFlags) : Prop :=
  ∃ choice, AdmissibleChoice this other flags choice

/-- An IKE proposal of AES-128, SHA-256 for PRF and integrity, and the given key
exchange methods, as `proposal_create_from_string` builds it. -/
def ikeProposal (kes : List (Nat × Nat)) : Proposal :=
  ⟨.protoIke, [⟨encryptionAlgorithm, 12, 128⟩, ⟨integrityAlgorithm, 12, 0⟩, ⟨pseudoRandomFunction, 5, 0⟩] ++
    kes.map (fun (type, alg) => ⟨type, alg, 0⟩), 0, 0, 0⟩

-- modp3072, ecp256 and ecp384 as key exchange, first and second additional key exchange
example :
    (ikeProposal [(4, 15), (4, 19), (4, 20), (6, 15), (6, 19), (6, 20), (7, 15), (7, 19), (7, 20)]).select
      (ikeProposal [(4, 15), (4, 19), (4, 20), (6, 15), (6, 19), (6, 20), (7, 15), (7, 19), (7, 20)])
      ⟨false, false, false⟩ =
    some ⟨.protoIke, [⟨1, 12, 128⟩, ⟨3, 12, 0⟩, ⟨2, 5, 0⟩, ⟨4, 15, 0⟩, ⟨6, 19, 0⟩, ⟨7, 20, 0⟩], 0, 0, 0⟩ := by
  decide

theorem select_contract_three_kes :
    (kesOf [⟨1, 12, 128⟩, ⟨3, 12, 0⟩, ⟨2, 5, 0⟩, ⟨4, 15, 0⟩, ⟨6, 19, 0⟩, ⟨7, 20, 0⟩]).Nodup :=
  (select_contract
    (ikeProposal [(4, 15), (4, 19), (4, 20), (6, 15), (6, 19), (6, 20), (7, 15), (7, 19), (7, 20)])
    (ikeProposal [(4, 15), (4, 19), (4, 20), (6, 15), (6, 19), (6, 20), (7, 15), (7, 19), (7, 20)])
    ⟨false, false, false⟩
    ⟨.protoIke, [⟨1, 12, 128⟩, ⟨3, 12, 0⟩, ⟨2, 5, 0⟩, ⟨4, 15, 0⟩, ⟨6, 19, 0⟩, ⟨7, 20, 0⟩], 0, 0, 0⟩
    (by decide)).2.2.2.2.2

/-- An ESP proposal offering a private encryption algorithm before AES-128-CBC. -/
def privateFirst : Proposal :=
  ⟨.protoEsp, [⟨encryptionAlgorithm, 1031, 128⟩, ⟨encryptionAlgorithm, 12, 128⟩,
    ⟨integrityAlgorithm, 12, 0⟩, ⟨extendedSequenceNumbers, 0, 0⟩], 0, 0, 0⟩

/-- Under `PROPOSAL_SKIP_PRIVATE` the selected encryption is not the first entry of this
proposal's list that the other has too: that one is private. -/
theorem select_skips_private_first_common :
    privateFirst.select privateFirst ⟨false, true, false⟩ =
      some ⟨.protoEsp, [⟨encryptionAlgorithm, 12, 128⟩, ⟨integrityAlgorithm, 12, 0⟩,
        ⟨extendedSequenceNumbers, 0, 0⟩], 0, 0, 0⟩ ∧
    (privateFirst.algorithms encryptionAlgorithm).find?
      (fun entry => (privateFirst.algorithms encryptionAlgorithm).contains entry) = some (1031, 128) := by
  decide

/-- Key exchange methods modp3072 and ecp256, in this order, and modp3072 as the first
additional key exchange. -/
def modpFirst : Proposal :=
  ikeProposal [(keyExchangeMethod, 15), (keyExchangeMethod, 19), (additionalKeyExchange1, 15)]

/-- The same methods with ecp256 first. -/
def ecpFirst : Proposal :=
  ikeProposal [(keyExchangeMethod, 19), (keyExchangeMethod, 15), (additionalKeyExchange1, 15)]

/-- The greedy choice of the first proposal's key exchange method leaves the additional
key exchange nothing, though ecp256 there and modp3072 for the additional one would do. -/
theorem matches_misses_admissible_selection :
    modpFirst.protocol = ecpFirst.protocol ∧ AdmissibleSelection modpFirst ecpFirst ⟨false, false, false⟩ ∧
      modpFirst.matches ecpFirst ⟨false, false, false⟩ = false ∧
      ecpFirst.matches modpFirst ⟨false, false, false⟩ = true := by
  -- ecp256 for the key exchange, modp3072 for the first additional one
  have admissible : AdmissibleChoice modpFirst ecpFirst ⟨false, false, false⟩ fun type =>
      if type = encryptionAlgorithm then some (12, 128)
      else if type = integrityAlgorithm then some (12, 0)
      else if type = pseudoRandomFunction then some (5, 0)
      else if type = keyExchangeMethod then some (19, 0)
      else if type = additionalKeyExchange1 then some (15, 0)
      else none := by
    decide
  exact ⟨rfl, ⟨_, admissible⟩, by decide, by decide⟩

end StrongSwan.Libstrongswan.Crypto
