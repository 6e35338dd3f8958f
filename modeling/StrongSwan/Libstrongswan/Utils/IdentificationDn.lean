import StrongSwan.Libstrongswan.Utils.Identification

/-!
Contract: how `matches` compares two DNs with wildcards, in RDN order (`compare_dn`) or
in any order (`match_dn`, for the `reordered` and `relaxed` settings of `rdn_matching`).

`match_dn` puts the RDNs of the other DN in an array, those with a value other than `*`
first, and gives each RDN of this DN the first free one with its OID that is a wildcard or
whose value `rdn_equals` its own. It fails where an RDN finds none (unless unmatched ones
are allowed, which then count as wildcards) and where an RDN of the other DN is left over.

`rdn_equals` ignores case only when both values are PrintableStrings (or both IA5String
e-mail values) and compares bytes otherwise, so one value can equal two values that do not
equal each other. `matchDn_misses_pairing`: two DNs whose RDNs pair off one to one, which
`match_dn` fails to match because the first RDN takes the partner the second one needed.

Does not own: `atodn`, printing, and the ranking of the result beyond `matches_dn_internal`.
-/

namespace StrongSwan.Libstrongswan.Utils

open StrongSwan.Libstrongswan.Asn1

/-- `is_wildcard`. -/
def isWildcard (data : List UInt8) : Bool := data == [0x2a]

/-- `id_match_t`. -/
def idMatchNone : Nat := 0
def idMatchAny : Nat := 1
def idMatchMaxWildcards : Nat := 2
def idMatchOneWildcard : Nat := 19
def idMatchPerfect : Nat := 20

/-- An RDN of the other DN in the array of `match_dn`, and whether an RDN took it. -/
structure RdnSlot where
  rdn : Rdn
  matched : Bool
deriving DecidableEq, Repr

/-- The array of `match_dn`: the other DN's RDNs with a value other than `*` in their order,
then its wildcards. -/
def slotsOf (rdns : List Rdn) : List RdnSlot :=
  (rdns.filter (fun rdn => !isWildcard rdn.data) ++ rdns.filter (fun rdn => isWildcard rdn.data)).map
    fun rdn => ⟨rdn, false⟩

/-- Whether a free slot takes an RDN of this DN: the same OID, and a wildcard or an equal value. -/
def RdnSlot.takes (slot : RdnSlot) (rdn : Rdn) : Bool :=
  !slot.matched && slot.rdn.oid == rdn.oid &&
    (isWildcard slot.rdn.data ||
      (rdn.data.length == slot.rdn.data.length && rdnEquals rdn.oid rdn.type rdn.data slot.rdn.type slot.rdn.data))

/-- The position the inner loop stops at: the first slot that takes the RDN. -/
def firstSlot (rdn : Rdn) (slots : List RdnSlot) : Option Nat := slots.findIdx? (·.takes rdn)

/-- The loop over this DN's RDNs: the slots, the wildcard count and `finished`. -/
def matchLoop (allowUnmatched : Bool) : List Rdn → List RdnSlot → Nat → Bool → List RdnSlot × Nat × Bool
  | [], slots, wc, finished => (slots, wc, finished)
  | rdn :: rest, slots, wc, finished =>
    match firstSlot rdn slots with
    | some index =>
      let wc := if slots[index]?.any (isWildcard ·.rdn.data) then wc + 1 else wc
      matchLoop allowUnmatched rest (slots.modify index fun slot => { slot with matched := true }) wc
        (finished || rdn.endsDn)
    | none =>
      -- an unmatched RDN counts as a wildcard where it is allowed, and ends the loop otherwise
      if allowUnmatched then matchLoop allowUnmatched rest slots (wc + 1) (finished || rdn.endsDn)
      else (slots, wc, finished)

/-- `match_dn`: whether the DNs match and the wildcard count `*wc`. -/
def matchDn (tDn oDn : List UInt8) (allowUnmatched : Bool) : Bool × Nat :=
  if tDn = oDn then (true, 0)
  else if !(rdns oDn).any (·.endsDn) then (false, 0)
  else
    match matchLoop allowUnmatched (rdns tDn) (slotsOf (rdns oDn)) 0 false with
    | (slots, wc, finished) => (finished && slots.all (·.matched), wc)

def matchDnReordered (tDn oDn : List UInt8) : Bool × Nat := matchDn tDn oDn false

def matchDnRelaxed (tDn oDn : List UInt8) : Bool × Nat := matchDn tDn oDn true

/-- The lockstep loop of `compare_dn` with a wildcard count: whether it finished, and the
count. -/
def compareRdnsCounting : List Rdn → List Rdn → Bool → Nat → Bool × Nat
  | [], [], finished, wc => (finished, wc)
  | t :: ts, o :: os, _, wc =>
    if t.oid ≠ o.oid then (false, wc)
    else if isWildcard o.data then compareRdnsCounting ts os (t.endsDn && o.endsDn) (wc + 1)
    else if t.data.length ≠ o.data.length ∨ !rdnEquals t.oid t.type t.data o.type o.data then (false, wc)
    else compareRdnsCounting ts os (t.endsDn && o.endsDn) wc
  | _, _, _, wc => (false, wc)

/-- `compare_dn` with a wildcard count. -/
def compareDnCounting (tDn oDn : List UInt8) : Bool × Nat :=
  if tDn = oDn then (true, 0) else compareRdnsCounting (rdns tDn) (rdns oDn) false 0

/-- `matches_dn_internal` for two DNs under a DN comparison. -/
def matchesDnInternal (match_ : List UInt8 → List UInt8 → Bool × Nat) (this other : Identification) : Nat :=
  if other.type = .any then idMatchAny
  else if this.type = other.type ∧ (match_ this.encoded other.encoded).1 then
    idMatchPerfect - min (match_ this.encoded other.encoded).2 (idMatchOneWildcard - idMatchMaxWildcards)
  else idMatchNone

def Identification.matchesDn (this other : Identification) : Nat :=
  matchesDnInternal compareDnCounting this other

def Identification.matchesDnReordered (this other : Identification) : Nat :=
  matchesDnInternal matchDnReordered this other

def Identification.matchesDnRelaxed (this other : Identification) : Nat :=
  matchesDnInternal matchDnRelaxed this other

/-! ## Pairings of RDNs -/

/-- An RDN of this DN may stand for an RDN of the other: the same OID, and the other's value
a wildcard or equal to its own. -/
def PairsWith (t o : Rdn) : Prop :=
  t.oid = o.oid ∧ (isWildcard o.data = true ∨
    (t.data.length = o.data.length ∧ rdnEquals t.oid t.type t.data o.type o.data = true))

instance (t o : Rdn) : Decidable (PairsWith t o) := inferInstanceAs (Decidable (_ ∧ (_ ∨ (_ ∧ _))))

/-- A one-to-one pairing of the RDNs of this DN with those of the other. -/
def Pairing (ts os : List Rdn) (pairs : List (Rdn × Rdn)) : Prop :=
  (pairs.map Prod.fst).Perm ts ∧ (pairs.map Prod.snd).Perm os ∧ ∀ pair ∈ pairs, PairsWith pair.1 pair.2

instance (ts os : List Rdn) (pairs : List (Rdn × Rdn)) : Decidable (Pairing ts os pairs) :=
  inferInstanceAs (Decidable (_ ∧ _ ∧ _))

/-- A pairing that uses every RDN of the other DN once and some RDNs of this DN. -/
def RelaxedPairing (ts os : List Rdn) (pairs : List (Rdn × Rdn)) : Prop :=
  (pairs.map Prod.fst).Subperm ts ∧ (pairs.map Prod.snd).Perm os ∧ ∀ pair ∈ pairs, PairsWith pair.1 pair.2

instance (ts os : List Rdn) (pairs : List (Rdn × Rdn)) : Decidable (RelaxedPairing ts os pairs) :=
  inferInstanceAs (Decidable (_ ∧ _ ∧ _))

/-- A DN whose RDNs parse up to its end, as `match_dn` wants the other DN to. -/
def parsedToEnd (dn : List UInt8) : Bool := (rdns dn).getLast?.any (·.endsDn)

/-! ## Two DNs of two common names -/

/-- A DN of two common names, the values of three bytes with their string types. -/
def twoCommonNames (firstType : UInt8) (first : List UInt8) (secondType : UInt8) (second : List UInt8) :
    List UInt8 :=
  [0x30, 0x1c,
    0x31, 0x0c, 0x30, 0x0a, 0x06, 0x03, 0x55, 0x04, 0x03, firstType, 0x03] ++ first ++
  [0x31, 0x0c, 0x30, 0x0a, 0x06, 0x03, 0x55, 0x04, 0x03, secondType, 0x03] ++ second

/-- `CN=abc, CN=abc`, a PrintableString and then a UTF8String. -/
def mixedCommonNames : List UInt8 :=
  twoCommonNames asn1PrintableString [0x61, 0x62, 0x63] asn1Utf8String [0x61, 0x62, 0x63]

/-- `CN=abc, CN=ABC`, both PrintableStrings. -/
def printableCommonNames : List UInt8 :=
  twoCommonNames asn1PrintableString [0x61, 0x62, 0x63] asn1PrintableString [0x41, 0x42, 0x43]

/-- `CN=abc, CN=abc`, a UTF8String and then a PrintableString. -/
def swappedCommonNames : List UInt8 :=
  twoCommonNames asn1Utf8String [0x61, 0x62, 0x63] asn1PrintableString [0x61, 0x62, 0x63]

/-- The PrintableString `abc` equals both `abc` and `ABC`, the UTF8String `abc` only `abc`:
pairing the first with `ABC` and the second with `abc` matches every RDN, but the first takes
`abc`, the first free slot, and the second then finds none. -/
theorem matchDn_misses_pairing :
    parsedToEnd mixedCommonNames = true ∧ parsedToEnd printableCommonNames = true ∧
      Pairing (rdns mixedCommonNames) (rdns printableCommonNames)
        ((rdns mixedCommonNames).zip (rdns printableCommonNames).reverse) ∧
      (matchDnReordered mixedCommonNames printableCommonNames).1 = false ∧
      (matchDnRelaxed mixedCommonNames printableCommonNames).1 = false := by
  decide

/-! ## The RDNs of a DN -/

section Enumeration

/-- An RDN that ends the DN leaves nothing to enumerate. -/
theorem enumerate_eq_none_of_endsDn {enumerator next : RdnEnumerator} {rdn : Rdn}
    (enumerated : enumerator.enumerate = some (rdn, next)) (ends : rdn.endsDn = true) :
    next.enumerate = none := by
  unfold RdnEnumerator.enumerate at enumerated
  simp only [Option.bind_eq_bind, Option.bind_none, Option.ite_none_left_eq_some,
    Option.bind_eq_some_iff, Option.some.injEq, Prod.mk.injEq] at enumerated
  obtain ⟨⟨sets, _⟩, -, ⟨_, _, seqs⟩, -, -, _, -, -, ⟨_, _, _⟩, -, named, rfl⟩ := enumerated
  -- the RDN ends the DN only where nothing follows it in its SEQUENCE, its SET and the DN
  rw [← named] at ends
  simp only [Bool.and_eq_true, List.isEmpty_iff] at ends
  obtain ⟨⟨⟨-, noSeqs⟩, noSets⟩, -⟩ := ends
  simp [RdnEnumerator.enumerate, RdnEnumerator.current, noSeqs, noSets, asn1Unwrap]

theorem rdnsFrom_of_enumerate_eq_none {enumerator : RdnEnumerator} (fuel : Nat)
    (exhausted : enumerator.enumerate = none) : enumerator.rdnsFrom fuel = [] := by
  cases fuel <;> simp [RdnEnumerator.rdnsFrom, exhausted]

/-- Only the last RDN of a DN can end it. -/
theorem endsDn_of_mem_dropLast_rdnsFrom (fuel : Nat) :
    ∀ (enumerator : RdnEnumerator), ∀ rdn ∈ (enumerator.rdnsFrom fuel).dropLast, rdn.endsDn = false := by
  induction fuel with
  | zero => simp [RdnEnumerator.rdnsFrom]
  | succ fuel inductionHypothesis =>
    intro enumerator
    rcases enumerated : enumerator.enumerate with _ | ⟨first, next⟩
    · simp [RdnEnumerator.rdnsFrom, enumerated]
    · simp only [RdnEnumerator.rdnsFrom, enumerated]
      by_cases last : next.rdnsFrom fuel = []
      · simp [last]
      · rw [List.dropLast_cons_of_ne_nil last]
        intro rdn member
        rcases List.mem_cons.mp member with rfl | later
        · -- the first RDN ended the DN, so nothing could follow it
          cases ends : rdn.endsDn
          · rfl
          · exact absurd (rdnsFrom_of_enumerate_eq_none fuel (enumerate_eq_none_of_endsDn enumerated ends)) last
        · exact inductionHypothesis next rdn later

theorem endsDn_of_mem_dropLast (dn : List UInt8) :
    ∀ rdn ∈ (rdns dn).dropLast, rdn.endsDn = false :=
  endsDn_of_mem_dropLast_rdnsFrom dn.length (createRdnEnumerator dn)

end Enumeration

/-! ## What a successful match guarantees -/

section Soundness

theorem strncaseeq_self (a : List UInt8) : strncaseeq a a = true := by
  induction a with
  | nil => rfl
  | cons x xs inductionHypothesis => simp [strncaseeq, inductionHypothesis]

theorem pairsWith_self (rdn : Rdn) : PairsWith rdn rdn := by
  refine ⟨rfl, Or.inr ⟨rfl, ?_⟩⟩
  unfold rdnEquals
  split_ifs <;> simp [strncaseeq_self]

theorem pairing_self (ts : List Rdn) : Pairing ts ts (ts.map fun rdn => (rdn, rdn)) := by
  refine ⟨by simp [Function.comp_def], by simp [Function.comp_def], ?_⟩
  simp only [List.mem_map]
  rintro _ ⟨rdn, -, rfl⟩
  exact pairsWith_self rdn

/-- The RDNs of the other DN that RDNs of this DN took. -/
def takenRdns (slots : List RdnSlot) : List Rdn := (slots.filter (·.matched)).map (·.rdn)

theorem takenRdns_cons (slot : RdnSlot) (slots : List RdnSlot) :
    takenRdns (slot :: slots) = if slot.matched then slot.rdn :: takenRdns slots else takenRdns slots := by
  unfold takenRdns
  cases matched : slot.matched <;> simp [matched]

theorem takenRdns_slotsOf (rdns : List Rdn) : takenRdns (slotsOf rdns) = [] := by
  simp [takenRdns, slotsOf, List.filter_map, Function.comp_def]

theorem takenRdns_of_all_matched {slots : List RdnSlot} (allMatched : slots.all (·.matched) = true) :
    takenRdns slots = slots.map (·.rdn) := by
  rw [List.all_eq_true] at allMatched
  simp [takenRdns, List.filter_eq_self.mpr allMatched]

theorem map_rdn_slotsOf_perm (rdns : List Rdn) : ((slotsOf rdns).map (·.rdn)).Perm rdns := by
  have regularFirst := List.filter_append_perm (fun rdn => !isWildcard rdn.data) rdns
  simp only [Bool.not_not] at regularFirst
  simpa [slotsOf, Function.comp_def] using regularFirst

theorem pairsWith_of_takes {slot : RdnSlot} {rdn : Rdn} (takes : slot.takes rdn = true) :
    slot.matched = false ∧ PairsWith rdn slot.rdn := by
  simp only [RdnSlot.takes, Bool.and_eq_true, Bool.not_eq_true', beq_iff_eq, Bool.or_eq_true] at takes
  obtain ⟨⟨free, sameOid⟩, value⟩ := takes
  exact ⟨free, sameOid.symm, value⟩

theorem firstSlot_eq_some {rdn : Rdn} {slots : List RdnSlot} {index : Nat}
    (found : firstSlot rdn slots = some index) :
    ∃ slot, slots[index]? = some slot ∧ slot.takes rdn = true := by
  obtain ⟨bound, takes, -⟩ := List.findIdx?_eq_some_iff_getElem.mp found
  exact ⟨slots[index], List.getElem?_eq_getElem bound, takes⟩

/-- Marking a free slot adds its RDN to those taken. -/
theorem takenRdns_modify {slots : List RdnSlot} {index : Nat} {slot : RdnSlot}
    (atIndex : slots[index]? = some slot) (free : slot.matched = false) :
    (takenRdns (slots.modify index fun slot => { slot with matched := true })).Perm
      (slot.rdn :: takenRdns slots) := by
  induction slots generalizing index with
  | nil => simp at atIndex
  | cons first rest inductionHypothesis =>
    cases index with
    | zero =>
      simp only [List.getElem?_cons_zero, Option.some.injEq] at atIndex
      subst atIndex
      simp [List.modify_zero_cons, takenRdns_cons, free]
    | succ index =>
      simp only [List.getElem?_cons_succ] at atIndex
      rw [List.modify_succ_cons, takenRdns_cons, takenRdns_cons]
      split
      · exact ((inductionHypothesis atIndex).cons first.rdn).trans (List.Perm.swap _ _ _)
      · exact inductionHypothesis atIndex

theorem map_rdn_modify (slots : List RdnSlot) (index : Nat) :
    (slots.modify index fun slot => { slot with matched := true }).map (·.rdn) = slots.map (·.rdn) := by
  induction slots generalizing index with
  | nil => simp
  | cons first rest inductionHypothesis =>
    cases index with
    | zero => simp [List.modify_zero_cons]
    | succ index => simp [List.modify_succ_cons, inductionHypothesis]

theorem map_rdn_matchLoop (allowUnmatched : Bool) (ts : List Rdn) (slots : List RdnSlot) (wc : Nat)
    (finished : Bool) :
    (matchLoop allowUnmatched ts slots wc finished).1.map (·.rdn) = slots.map (·.rdn) := by
  fun_induction matchLoop allowUnmatched ts slots wc finished with
  | case1 => rfl
  | case2 _ _ _ _ _ index _ _ inductionHypothesis => rw [inductionHypothesis, map_rdn_modify]
  | case3 _ _ _ _ _ _ _ inductionHypothesis => exact inductionHypothesis
  | case4 => rfl

/-- The loop over this DN's RDNs, run to the end of the DN: the pairs it builds pair each RDN
it took a slot for with that slot's RDN, and those RDNs with the ones it skipped are the
RDNs it read. -/
theorem pairs_of_matchLoop {allowUnmatched : Bool} {ts : List Rdn} {slots : List RdnSlot} {wc : Nat}
    {finished : Bool} {pairs : List (Rdn × Rdn)} {skipped : List Rdn}
    (endsLast : ∀ rdn ∈ ts.dropLast, rdn.endsDn = false) (notYet : finished = true → ts = [])
    (paired : ∀ pair ∈ pairs, PairsWith pair.1 pair.2) (taken : (pairs.map Prod.snd).Perm (takenRdns slots))
    (reachedEnd : (matchLoop allowUnmatched ts slots wc finished).2.2 = true) :
    ∃ (pairs' : List (Rdn × Rdn)) (skipped' : List Rdn), (∀ pair ∈ pairs', PairsWith pair.1 pair.2) ∧
      (pairs'.map Prod.fst ++ skipped').Perm (pairs.map Prod.fst ++ skipped ++ ts) ∧
      (pairs'.map Prod.snd).Perm (takenRdns (matchLoop allowUnmatched ts slots wc finished).1) ∧
      (allowUnmatched = false → skipped' = skipped) := by
  induction ts generalizing slots wc finished pairs skipped with
  | nil => exact ⟨pairs, skipped, paired, by simp, taken, fun _ => rfl⟩
  | cons rdn rest inductionHypothesis =>
    have fresh : finished = false := by
      cases finished
      · rfl
      · exact absurd (notYet rfl) (List.cons_ne_nil rdn rest)
    -- only the last RDN ends the DN, so the rest of the loop starts unfinished unless it is empty
    have restEndsLast : ∀ later ∈ rest.dropLast, later.endsDn = false := by
      intro later member
      have nonempty : rest ≠ [] := by
        rintro rfl
        simp at member
      rw [List.dropLast_cons_of_ne_nil nonempty] at endsLast
      exact endsLast later (List.mem_cons_of_mem rdn member)
    have restNotYet : (finished || rdn.endsDn) = true → rest = [] := by
      intro ends
      rw [fresh, Bool.false_or] at ends
      by_contra nonempty
      rw [List.dropLast_cons_of_ne_nil nonempty] at endsLast
      rw [endsLast rdn List.mem_cons_self] at ends
      cases ends
    unfold matchLoop at reachedEnd ⊢
    rcases found : firstSlot rdn slots with _ | index <;> rw [found] at reachedEnd <;> dsimp only at reachedEnd ⊢
    · cases allowUnmatched
      · -- without unmatched RDNs the loop stops here, before the end of the DN
        rw [if_neg Bool.false_ne_true] at reachedEnd
        rw [fresh] at reachedEnd
        cases reachedEnd
      · rw [if_pos rfl] at reachedEnd ⊢
        obtain ⟨pairs', skipped', paired', read, taken', _⟩ :=
          @inductionHypothesis slots (wc + 1) (finished || rdn.endsDn) pairs (rdn :: skipped)
            restEndsLast restNotYet paired taken reachedEnd
        refine ⟨pairs', skipped', paired', read.trans ?_, taken', nofun⟩
        simp only [List.append_assoc, List.cons_append, List.perm_append_left_iff]
        exact List.perm_middle.symm
    · obtain ⟨slot, atIndex, takes⟩ := firstSlot_eq_some found
      obtain ⟨free, pairsWith⟩ := pairsWith_of_takes takes
      obtain ⟨pairs', skipped', paired', read, taken', kept⟩ :=
        @inductionHypothesis _ _ (finished || rdn.endsDn) ((rdn, slot.rdn) :: pairs) skipped
          restEndsLast restNotYet
          (by
            rintro pair (_ | ⟨_, later⟩)
            · exact pairsWith
            · exact paired pair later)
          ((taken.cons slot.rdn).trans (takenRdns_modify atIndex free).symm) reachedEnd
      refine ⟨pairs', skipped', paired', read.trans ?_, taken', kept⟩
      simp only [List.map_cons, List.cons_append]
      exact List.perm_middle.symm

/-- What a successful `match_dn` found: pairs of RDNs that `PairsWith` allows, which use every
RDN of the other DN once and every RDN of this DN once, but the unmatched ones it skipped. -/
theorem pairs_of_matchDn {tDn oDn : List UInt8} {allowUnmatched : Bool}
    (matched : (matchDn tDn oDn allowUnmatched).1 = true) :
    ∃ (pairs : List (Rdn × Rdn)) (skipped : List Rdn), (∀ pair ∈ pairs, PairsWith pair.1 pair.2) ∧
      (pairs.map Prod.fst ++ skipped).Perm (rdns tDn) ∧ (pairs.map Prod.snd).Perm (rdns oDn) ∧
      (allowUnmatched = false → skipped = []) := by
  unfold matchDn at matched
  split_ifs at matched with binary parsed
  · -- a binary match pairs every RDN with itself
    subst binary
    obtain ⟨read, taken, paired⟩ := pairing_self (rdns tDn)
    exact ⟨_, [], paired, by simpa using read, taken, fun _ => rfl⟩
  · generalize loop : matchLoop allowUnmatched (rdns tDn) (slotsOf (rdns oDn)) 0 false = final at matched
    obtain ⟨slots, wc, finished⟩ := final
    simp only [Bool.and_eq_true] at matched
    obtain ⟨reachedEnd, allMatched⟩ := matched
    have run := @pairs_of_matchLoop allowUnmatched (rdns tDn) (slotsOf (rdns oDn)) 0 false [] []
      (endsDn_of_mem_dropLast tDn) nofun nofun (by simp [takenRdns_slotsOf]) (by rw [loop]; exact reachedEnd)
    rw [loop] at run
    obtain ⟨pairs, skipped, paired, read, taken, kept⟩ := run
    -- every slot is taken, so the RDNs taken are the other DN's, in the order of the slots
    have slotRdns : slots.map (·.rdn) = (slotsOf (rdns oDn)).map (·.rdn) := by
      have keptRdns := map_rdn_matchLoop allowUnmatched (rdns tDn) (slotsOf (rdns oDn)) 0 false
      rw [loop] at keptRdns
      exact keptRdns
    refine ⟨pairs, skipped, paired, by simpa using read, ?_, fun strict => by simpa using kept strict⟩
    rw [takenRdns_of_all_matched allMatched, slotRdns] at taken
    exact taken.trans (map_rdn_slotsOf_perm (rdns oDn))

/-- Where `match_dn_reordered` succeeds, the RDNs of the two DNs pair off one to one. -/
theorem pairing_of_matchDnReordered {tDn oDn : List UInt8}
    (matched : (matchDnReordered tDn oDn).1 = true) : ∃ pairs, Pairing (rdns tDn) (rdns oDn) pairs := by
  obtain ⟨pairs, skipped, paired, read, taken, kept⟩ := pairs_of_matchDn matched
  rw [kept rfl, List.append_nil] at read
  exact ⟨pairs, read, taken, paired⟩

theorem pairing_of_matchDnReordered_swapped :
    (matchDnReordered mixedCommonNames swappedCommonNames).1 = true ∧
      ∃ pairs, Pairing (rdns mixedCommonNames) (rdns swappedCommonNames) pairs :=
  ⟨by decide, pairing_of_matchDnReordered (by decide)⟩

end Soundness

/-! ## Matching in RDN order -/

section Positional

/-- Whatever the count, a successful `compare_dn` pairs the RDNs in their order. -/
theorem forall₂_of_compareRdnsCounting {ts os : List Rdn} {finished : Bool} {wc : Nat} :
    (compareRdnsCounting ts os finished wc).1 = true → List.Forall₂ PairsWith ts os := by
  fun_induction compareRdnsCounting ts os finished wc with
  | case1 => exact fun _ => List.Forall₂.nil
  | case2 | case4 | case6 => exact Bool.false_ne_true.elim
  | case3 _ _ _ _ _ _ sameOid wildcard inductionHypothesis =>
    exact fun matched => .cons ⟨not_not.mp sameOid, Or.inl wildcard⟩ (inductionHypothesis matched)
  | case5 _ _ _ _ _ _ sameOid _ equal inductionHypothesis =>
    have sameValue := by simpa only [not_or, not_not, Bool.not_eq_true', Bool.not_eq_false] using equal
    exact fun matched => .cons ⟨not_not.mp sameOid, Or.inr sameValue⟩ (inductionHypothesis matched)

/-- RDNs that pair in their order, the last of each ending its DN, make `compare_dn` succeed. -/
theorem compareRdnsCounting_of_forall₂ {ts os : List Rdn} (paired : List.Forall₂ PairsWith ts os) :
    ts.getLast?.any (·.endsDn) = true → os.getLast?.any (·.endsDn) = true →
      ∀ (finished : Bool) (wc : Nat), (compareRdnsCounting ts os finished wc).1 = true := by
  induction paired with
  | nil => exact Bool.false_ne_true.elim
  | @cons t o ts os pair rest inductionHypothesis =>
    intro tEnds oEnds finished wc
    -- the flag handed on is the last pair's once no RDN follows
    have restMatches : ∀ wc', (compareRdnsCounting ts os (t.endsDn && o.endsDn) wc').1 = true := by
      cases rest with
      | nil =>
        simp only [List.getLast?_singleton, Option.any_some] at tEnds oEnds
        simp [compareRdnsCounting, tEnds, oEnds]
      | cons _ _ =>
        rw [List.getLast?_cons_cons] at tEnds oEnds
        exact inductionHypothesis tEnds oEnds _
    obtain ⟨sameOid, wildcard | sameValue⟩ := pair
    · simp [compareRdnsCounting, sameOid, wildcard, restMatches]
    · by_cases wildcard : isWildcard o.data = true
      · simp [compareRdnsCounting, sameOid, wildcard, restMatches]
      · -- the value is compared under the OID both RDNs share
        rw [sameOid] at sameValue
        simp [compareRdnsCounting, sameOid, wildcard, sameValue, restMatches]

/-- On two DNs that parse to their end, `compare_dn` with a wildcard count succeeds exactly
where the RDNs pair in their order. -/
theorem compareDnCounting_iff {tDn oDn : List UInt8} (tParsed : parsedToEnd tDn = true)
    (oParsed : parsedToEnd oDn = true) :
    (compareDnCounting tDn oDn).1 = true ↔ List.Forall₂ PairsWith (rdns tDn) (rdns oDn) := by
  unfold compareDnCounting
  split_ifs with binary
  · subst binary
    simpa using List.forall₂_same.mpr fun rdn _ => pairsWith_self rdn
  · exact ⟨forall₂_of_compareRdnsCounting,
      fun paired => compareRdnsCounting_of_forall₂ paired tParsed oParsed false 0⟩

theorem compareDnCounting_iff_swapped :
    parsedToEnd mixedCommonNames = true ∧ parsedToEnd swappedCommonNames = true ∧
      ((compareDnCounting mixedCommonNames swappedCommonNames).1 = true ↔
        List.Forall₂ PairsWith (rdns mixedCommonNames) (rdns swappedCommonNames)) :=
  ⟨by decide, by decide, compareDnCounting_iff (by decide) (by decide)⟩

end Positional

end StrongSwan.Libstrongswan.Utils
