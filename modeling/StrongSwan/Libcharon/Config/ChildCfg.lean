import StrongSwan.Libstrongswan.Selectors.TrafficSelector
import StrongSwan.Foundations.Iterate

/-!
Contract: the traffic selectors `get_traffic_selectors` of `child_cfg.c` proposes or
selects for a CHILD_SA.

It first derives the configured selectors: a dynamic one becomes one copy per host with
the host's address, and without a supplied list a transport-mode initiator narrows its
selectors to the hosts they include. Given the peer's supplied selectors it keeps the
intersection of every derived selector with every supplied one. Last it removes redundant
selectors with two enumerators over the one list: one found contained in another is
removed, and the outer enumerator starts over when the inner one removed its element.

The removal loop is a step function on the two enumerators' positions.
`removeRedundant_exits`: the steps `removeRedundant` allows are enough for the loop to
exit, from any list. `antichain_removeRedundant`: no element left is found contained in
another. `covers_removeRedundant`: where containment implies inclusion, the list keeps its
union. `admits_getTrafficSelectors`: for selectors in ICMP form, the result admits exactly
what a derived and a supplied selector both admit. `getTrafficSelectors_drops_icmp_traffic`:
selectors where the ICMP move makes it lose traffic.

Does not own: logging, the alert raised on narrowing, and the other fields and options of
a `child_cfg`.
-/

namespace StrongSwan.Libcharon.Config

open StrongSwan.Foundations
open StrongSwan.Libstrongswan.Selectors
open StrongSwan.Libstrongswan.Networking

/-! ## The removal loop -/

section Removal

variable {α : Type} (containedIn : α → α → Bool)

/-- The loop over `result` with `e1` at position `outer` and `e2` at position `inner`. -/
structure RedundancyScan (α : Type) where
  result : List α
  outer : Nat
  inner : Nat

/-- One pass through the inner loop's body, or the step out of it; `none` where `e1` finds
no more selectors. The outer selector is removed with its enumerator standing on the next
one; the inner one with the outer enumerator reset. -/
def RedundancyScan.step (scan : RedundancyScan α) : Option (RedundancyScan α) :=
  match scan.result[scan.outer]?, scan.result[scan.inner]? with
  | none, _ => none
  | some _, none => some ⟨scan.result, scan.outer + 1, 0⟩
  | some ts1, some ts2 =>
    -- the selectors are distinct objects, so the pointer test compares positions
    if scan.inner = scan.outer then some ⟨scan.result, scan.outer, scan.inner + 1⟩
    else if containedIn ts2 ts1 then some ⟨scan.result.eraseIdx scan.inner, 0, 0⟩
    else if containedIn ts1 ts2 then some ⟨scan.result.eraseIdx scan.outer, scan.outer, 0⟩
    else some ⟨scan.result, scan.outer, scan.inner + 1⟩

/-- What is left of a list after `scanBound` of its length steps at most. -/
def scanBound (length : Nat) : Nat :=
  length * (length + 1) * (length + 1) + length * (length + 1) + length + 1

/-- The removal loop, given steps enough to exit (`removeRedundant_exits`). -/
def removeRedundant (list : List α) : List α :=
  (iterateFor (RedundancyScan.step containedIn) (scanBound list.length) ⟨list, 0, 0⟩).result

variable {containedIn}

/-- Everything one step of the loop can do, with its guards. -/
theorem step_cases {scan next : RedundancyScan α} (stepped : scan.step containedIn = some next) :
    ∃ ts1, scan.result[scan.outer]? = some ts1 ∧
      ((scan.result[scan.inner]? = none ∧ next = ⟨scan.result, scan.outer + 1, 0⟩) ∨
        ∃ ts2, scan.result[scan.inner]? = some ts2 ∧
          ((scan.inner = scan.outer ∧ next = ⟨scan.result, scan.outer, scan.inner + 1⟩) ∨
            (scan.inner ≠ scan.outer ∧ containedIn ts2 ts1 = true ∧
              next = ⟨scan.result.eraseIdx scan.inner, 0, 0⟩) ∨
            (scan.inner ≠ scan.outer ∧ containedIn ts2 ts1 = false ∧ containedIn ts1 ts2 = true ∧
              next = ⟨scan.result.eraseIdx scan.outer, scan.outer, 0⟩) ∨
            (scan.inner ≠ scan.outer ∧ containedIn ts2 ts1 = false ∧ containedIn ts1 ts2 = false ∧
              next = ⟨scan.result, scan.outer, scan.inner + 1⟩))) := by
  unfold RedundancyScan.step at stepped
  split at stepped
  next => cases stepped
  next ts1 atOuter atInner =>
    cases stepped
    exact ⟨ts1, atOuter, Or.inl ⟨atInner, rfl⟩⟩
  next ts1 ts2 atOuter atInner =>
    refine ⟨ts1, atOuter, Or.inr ⟨ts2, atInner, ?_⟩⟩
    split_ifs at stepped with same outerCovered innerCovered <;> cases stepped
    · exact Or.inl ⟨same, rfl⟩
    · exact Or.inr (Or.inl ⟨same, outerCovered, rfl⟩)
    · exact Or.inr (Or.inr (Or.inl ⟨same, Bool.of_not_eq_true outerCovered, innerCovered, rfl⟩))
    · exact Or.inr (Or.inr (Or.inr
        ⟨same, Bool.of_not_eq_true outerCovered, Bool.of_not_eq_true innerCovered, rfl⟩))

/-- The loop exits once `e1` has passed the last selector. -/
theorem step_eq_none_iff {scan : RedundancyScan α} :
    scan.step containedIn = none ↔ scan.result.length ≤ scan.outer := by
  unfold RedundancyScan.step
  constructor
  · intro exits
    cases atOuter : scan.result[scan.outer]? with
    | none => exact List.getElem?_eq_none_iff.mp atOuter
    | some ts1 =>
      -- every way on from a selector under `e1` is a step
      rw [atOuter] at exits
      cases atInner : scan.result[scan.inner]? <;> rw [atInner] at exits <;> dsimp only at exits
      · cases exits
      · split_ifs at exits
  · intro past
    rw [List.getElem?_eq_none_iff.mpr past]

/-! ### The loop exits -/

/-- The loop's potential under a bound above the list's length: the length counts most,
then how far `e1` has to go, then `e2`. -/
def RedundancyScan.potential (bound : Nat) (scan : RedundancyScan α) : Nat :=
  scan.result.length * bound * bound + (scan.result.length - scan.outer) * bound +
    (scan.result.length - scan.inner)

/-- A shorter list, with the enumerators anywhere, lies below any state of the longer one. -/
theorem potential_shorter_lt {length outer inner bound : Nat} (nonempty : 0 < length)
    (below : length < bound) (atOuter : outer ≤ length - 1) (atInner : inner ≤ length - 1) :
    (length - 1) * bound * bound + outer * bound + inner < length * bound * bound := by
  obtain ⟨shorter, rfl⟩ : ∃ shorter, length = shorter + 1 := ⟨length - 1, by omega⟩
  simp only [Nat.add_sub_cancel] at atOuter atInner ⊢
  calc shorter * bound * bound + outer * bound + inner
      ≤ shorter * bound * bound + shorter * bound + shorter := by gcongr
    _ < (shorter + 1) * bound * bound := by nlinarith

theorem potential_step_lt {bound : Nat} {scan next : RedundancyScan α}
    (below : scan.result.length < bound) (stepped : scan.step containedIn = some next) :
    next.potential bound < scan.potential bound := by
  obtain ⟨ts1, atOuter, (⟨atInner, rfl⟩ | ⟨ts2, atInner, cases⟩)⟩ := step_cases stepped
  · -- `e1` moves on: its distance falls by one, which outweighs `e2` starting over
    have outerIn := (List.getElem?_eq_some_iff.mp atOuter).1
    have innerPast := List.getElem?_eq_none_iff.mp atInner
    have distance : scan.result.length - scan.outer = (scan.result.length - (scan.outer + 1)) + 1 := by omega
    simp only [RedundancyScan.potential, Nat.sub_zero, Nat.sub_eq_zero_of_le innerPast, Nat.add_zero]
    rw [distance, Nat.add_mul, Nat.one_mul]
    omega
  · have outerIn := (List.getElem?_eq_some_iff.mp atOuter).1
    have innerIn := (List.getElem?_eq_some_iff.mp atInner).1
    rcases cases with ⟨-, rfl⟩ | ⟨-, -, rfl⟩ | ⟨-, -, -, rfl⟩ | ⟨-, -, -, rfl⟩
    · simp only [RedundancyScan.potential]
      omega
    · -- removing a selector outweighs both enumerators starting over
      have lower := potential_shorter_lt (by omega) below (le_refl (scan.result.length - 1))
        (le_refl (scan.result.length - 1))
      simp only [RedundancyScan.potential, List.length_eraseIdx_of_lt innerIn, Nat.sub_zero]
      omega
    · have lower := potential_shorter_lt (by omega) below (Nat.sub_le (scan.result.length - 1) scan.outer)
        (le_refl (scan.result.length - 1))
      simp only [RedundancyScan.potential, List.length_eraseIdx_of_lt outerIn, Nat.sub_zero]
      omega
    · simp only [RedundancyScan.potential]
      omega

theorem length_step_le {scan next : RedundancyScan α} (stepped : scan.step containedIn = some next) :
    next.result.length ≤ scan.result.length := by
  obtain ⟨ts1, atOuter, (⟨-, rfl⟩ | ⟨ts2, -, cases⟩)⟩ := step_cases stepped
  · exact le_refl _
  · rcases cases with ⟨-, rfl⟩ | ⟨-, -, rfl⟩ | ⟨-, -, -, rfl⟩ | ⟨-, -, -, rfl⟩ <;>
      simp [List.length_eraseIdx_le]

/-- From any list the loop exits within the steps `removeRedundant` allows, which returns the
list it exits with. -/
theorem removeRedundant_exits (list : List α) :
    ∃ final, Steps (RedundancyScan.step containedIn) ⟨list, 0, 0⟩ final ∧
      final.step containedIn = none ∧ removeRedundant containedIn list = final.result := by
  have exits := @iterateFor_exits _ (RedundancyScan.step containedIn)
    (fun scan => scan.result.length < list.length + 1) (RedundancyScan.potential (list.length + 1))
    (fun _ _ below stepped => lt_of_le_of_lt (length_step_le stepped) below)
    (fun _ _ below stepped => potential_step_lt below stepped)
    (scanBound list.length) ⟨list, 0, 0⟩ (Nat.lt_succ_self _)
    (by simp [RedundancyScan.potential, scanBound])
  exact ⟨_, exits.1, exits.2, rfl⟩

/-! ### What the loop leaves -/

variable (containedIn) in
/-- Neither of two selectors is found contained in the other. -/
def Unrelated (first second : α) : Prop := containedIn second first = false ∧ containedIn first second = false

variable (containedIn) in
/-- Every selector `e1` has passed is unrelated to every other one, and the one under `e1` to
every one `e2` has passed. -/
def RedundancyScan.Scanned (scan : RedundancyScan α) : Prop :=
  (∀ k < scan.outer, ∀ l, l ≠ k → ∀ first second, scan.result[k]? = some first →
    scan.result[l]? = some second → Unrelated containedIn first second) ∧
  (∀ l < scan.inner, l ≠ scan.outer → ∀ first second, scan.result[scan.outer]? = some first →
    scan.result[l]? = some second → Unrelated containedIn first second)

theorem scanned_start (list : List α) : (RedundancyScan.mk list 0 0).Scanned containedIn :=
  ⟨fun _ below => absurd below (Nat.not_lt_zero _), fun _ below => absurd below (Nat.not_lt_zero _)⟩

/-- Dropping the selector at `outer` keeps those before it unrelated to the rest. -/
theorem scanned_eraseIdx {list : List α} {outer : Nat}
    (passed : ∀ k < outer, ∀ l, l ≠ k → ∀ first second, list[k]? = some first →
      list[l]? = some second → Unrelated containedIn first second) :
    (RedundancyScan.mk (list.eraseIdx outer) outer 0).Scanned containedIn := by
  refine ⟨fun k before l other first second atK atL => ?_, fun _ below => absurd below (Nat.not_lt_zero _)⟩
  dsimp only at before atK atL
  rw [List.getElem?_eraseIdx, if_pos before] at atK
  rw [List.getElem?_eraseIdx] at atL
  -- the other selector keeps its place before `outer` and moves down by one after it
  split at atL
  · exact passed k before l other first second atK atL
  · exact passed k before (l + 1) (by omega) first second atK atL

theorem scanned_step {scan next : RedundancyScan α} (scanned : scan.Scanned containedIn)
    (stepped : scan.step containedIn = some next) : next.Scanned containedIn := by
  obtain ⟨passed, passing⟩ := scanned
  obtain ⟨ts1, atOuter, (⟨atInner, rfl⟩ | ⟨ts2, atInner, cases⟩)⟩ := step_cases stepped
  · -- `e2` has passed every selector, so the one under `e1` joins those passed
    refine ⟨fun k before l other first second atK atL => ?_, fun _ below => absurd below (Nat.not_lt_zero _)⟩
    dsimp only at before atK atL
    rcases Nat.lt_succ_iff_lt_or_eq.mp before with earlier | rfl
    · exact passed k earlier l other first second atK atL
    · have innerPast := List.getElem?_eq_none_iff.mp atInner
      have lIn := (List.getElem?_eq_some_iff.mp atL).1
      exact passing l (by omega) other first second atK atL
  · rcases cases with ⟨same, rfl⟩ | ⟨-, -, rfl⟩ | ⟨-, -, -, rfl⟩ | ⟨differ, outerFree, innerFree, rfl⟩
    · refine ⟨passed, fun l below other => passing l ?_ other⟩
      rcases Nat.lt_succ_iff_lt_or_eq.mp below with earlier | rfl
      · exact earlier
      · exact absurd same other
    · exact scanned_start _
    · exact scanned_eraseIdx passed
    · refine ⟨passed, fun l below other first second atK atL => ?_⟩
      rcases Nat.lt_succ_iff_lt_or_eq.mp below with earlier | rfl
      · exact passing l earlier other first second atK atL
      · rw [atOuter] at atK
        rw [atInner] at atL
        cases atK
        cases atL
        exact ⟨outerFree, innerFree⟩

/-- No selector the loop leaves is found contained in another. -/
theorem antichain_removeRedundant (list : List α) {i j : Nat} (distinct : i ≠ j) {first second : α}
    (atI : (removeRedundant containedIn list)[i]? = some first)
    (atJ : (removeRedundant containedIn list)[j]? = some second) :
    containedIn first second = false := by
  obtain ⟨final, run, exits, returns⟩ := @removeRedundant_exits _ containedIn list
  have scanned := invariant_of_steps _ (fun _ _ scanned stepped => scanned_step scanned stepped) run
    (scanned_start list)
  rw [returns] at atI atJ
  have iIn := (List.getElem?_eq_some_iff.mp atI).1
  -- at the exit `e1` has passed every selector
  exact (scanned.1 i (lt_of_lt_of_le iIn (step_eq_none_iff.mp exits)) j (Ne.symm distinct)
    first second atI atJ).2

/-! ### What the loop keeps -/

section Covers

variable {β : Type} (denote : α → β → Prop)

/-- Some selector of the list admits the packet. -/
def Covers (list : List α) (packet : β) : Prop := ∃ member ∈ list, denote member packet

instance (list : List α) (packet : β) [∀ member, Decidable (denote member packet)] :
    Decidable (Covers denote list packet) :=
  inferInstanceAs (Decidable (∃ member ∈ list, denote member packet))

variable {denote}

variable (denote) in
/-- The loop works on a sublist of its input that admits what the input admits. -/
def RedundancyScan.Keeps (list : List α) (scan : RedundancyScan α) : Prop :=
  scan.result.Sublist list ∧ ∀ packet, Covers denote scan.result packet ↔ Covers denote list packet

/-- Dropping a selector contained in another that stays keeps the union. -/
theorem covers_eraseIdx {list : List α} {kept dropped : Nat} (distinct : kept ≠ dropped) {keeper victim : α}
    (atKept : list[kept]? = some keeper) (atDropped : list[dropped]? = some victim)
    (included : ∀ packet, denote victim packet → denote keeper packet) (packet : β) :
    Covers denote (list.eraseIdx dropped) packet ↔ Covers denote list packet := by
  constructor
  · rintro ⟨member, member_in, admits⟩
    exact ⟨member, (List.eraseIdx_sublist list dropped).subset member_in, admits⟩
  · rintro ⟨member, member_in, admits⟩
    obtain ⟨index, atIndex⟩ := List.getElem?_of_mem member_in
    by_cases isDropped : index = dropped
    · -- the packet of the dropped selector is the keeper's
      rw [isDropped, atDropped] at atIndex
      cases atIndex
      exact ⟨keeper, List.mem_eraseIdx_iff_getElem?.mpr ⟨kept, distinct, atKept⟩, included packet admits⟩
    · exact ⟨member, List.mem_eraseIdx_iff_getElem?.mpr ⟨index, isDropped, atIndex⟩, admits⟩

theorem keeps_step {list : List α}
    (sound : ∀ first ∈ list, ∀ second ∈ list, containedIn first second = true →
      ∀ packet, denote first packet → denote second packet)
    {scan next : RedundancyScan α} (keeps : scan.Keeps denote list) (stepped : scan.step containedIn = some next) :
    next.Keeps denote list := by
  obtain ⟨sublist, union⟩ := keeps
  have member {index : Nat} {selector : α} (at_ : scan.result[index]? = some selector) : selector ∈ list :=
    sublist.subset (List.mem_of_getElem? at_)
  obtain ⟨ts1, atOuter, (⟨-, rfl⟩ | ⟨ts2, atInner, cases⟩)⟩ := step_cases stepped
  · exact ⟨sublist, union⟩
  · rcases cases with ⟨-, rfl⟩ | ⟨differ, covered, rfl⟩ | ⟨differ, -, covered, rfl⟩ | ⟨-, -, -, rfl⟩
    · exact ⟨sublist, union⟩
    · refine ⟨(List.eraseIdx_sublist _ _).trans sublist, fun packet => ?_⟩
      rw [covers_eraseIdx (Ne.symm differ) atOuter atInner
        (sound ts2 (member atInner) ts1 (member atOuter) covered), union]
    · refine ⟨(List.eraseIdx_sublist _ _).trans sublist, fun packet => ?_⟩
      rw [covers_eraseIdx differ atInner atOuter
        (sound ts1 (member atOuter) ts2 (member atInner) covered), union]
    · exact ⟨sublist, union⟩

/-- Where containment among the list's selectors implies inclusion, the loop keeps the union
of what they admit. -/
theorem covers_removeRedundant {list : List α}
    (sound : ∀ first ∈ list, ∀ second ∈ list, containedIn first second = true →
      ∀ packet, denote first packet → denote second packet) (packet : β) :
    Covers denote (removeRedundant containedIn list) packet ↔ Covers denote list packet := by
  obtain ⟨final, run, -, returns⟩ := @removeRedundant_exits _ containedIn list
  have keeps := invariant_of_steps (RedundancyScan.Keeps denote list)
    (fun _ _ keeps stepped => keeps_step sound keeps stepped) run
    ⟨List.Sublist.refl list, fun _ => Iff.rfl⟩
  rw [returns]
  exact keeps.2 packet

end Covers

end Removal

/-! ## `get_traffic_selectors` -/

/-- `ipsec_mode_t`. -/
inductive IpsecMode where
  | modeTransport
  | modeTunnel
  | modeBeet
  | modePass
  | modeDrop
deriving DecidableEq, Repr

/-- The parts of a `child_cfg_t` that `get_traffic_selectors` reads. -/
structure ChildCfg where
  myTs : List TrafficSelector
  otherTs : List TrafficSelector
  mode : IpsecMode
  /-- `has_option (this, OPT_PROXY_MODE)`. -/
  proxyMode : Bool

/-- The first step of `get_traffic_selectors` for one configured selector. A missing host list
is an empty one. -/
def ChildCfg.deriveSelector (this : ChildCfg) (supplied : Bool) (hosts : List Host) (ts1 : TrafficSelector) :
    List TrafficSelector :=
  if !hosts.isEmpty && (ts1.dynamic || (this.mode == .modeTransport && !this.proxyMode && !supplied)) then
    hosts.filterMap fun host =>
      -- for transport mode, selectors that do not match a specific address are skipped
      if !ts1.dynamic && !host.isAnyaddr && !ts1.includes host then none
      -- regular selectors are not made larger than they were
      else if ts1.dynamic || !host.isAnyaddr then some (ts1.clone.setAddress host)
      else some ts1.clone
  else [ts1.clone]

/-- The configured selectors of one side, dynamic ones resolved to the hosts. -/
def ChildCfg.deriveTrafficSelectors (this : ChildCfg) (isLocal supplied : Bool) (hosts : List Host) :
    List TrafficSelector :=
  (if isLocal then this.myTs else this.otherTs).flatMap (this.deriveSelector supplied hosts)

/-- Every derived selector intersected with every supplied one, in that order. -/
def selectSubsets (derived supplied : List TrafficSelector) : List TrafficSelector :=
  derived.flatMap fun ts1 => supplied.filterMap ts1.getSubset

def ChildCfg.getTrafficSelectors (this : ChildCfg) (isLocal : Bool) (supplied : Option (List TrafficSelector))
    (hosts : List Host) : List TrafficSelector :=
  let derived := this.deriveTrafficSelectors isLocal supplied.isSome hosts
  let result :=
    match supplied with
    | none => derived
    | some supplied => selectSubsets derived supplied
  -- `ts2->is_contained_in (ts2, ts1)` for the selector of `e2` in the one of `e1`
  removeRedundant (fun ts2 ts1 => ts2.isContainedIn ts1) result

/-! ## What the selected selectors admit -/

theorem icmpReady_of_mem_deriveSelector {this : ChildCfg} {supplied : Bool} {hosts : List Host}
    {ts1 derived : TrafficSelector} (ready : ts1.IcmpReady) (member : derived ∈ this.deriveSelector supplied hosts ts1) :
    derived.IcmpReady := by
  unfold ChildCfg.deriveSelector at member
  split at member
  · obtain ⟨host, -, made⟩ := List.mem_filterMap.mp member
    split_ifs at made <;> cases made
    · exact icmpReady_setAddress (by rw [clone_eq_of_icmpReady ready]; exact ready) host
    · rw [clone_eq_of_icmpReady ready]
      exact ready
  · rw [List.mem_singleton.mp member, clone_eq_of_icmpReady ready]
    exact ready

/-- The intersections admit what a derived and a supplied selector both admit. -/
theorem covers_selectSubsets {derived supplied : List TrafficSelector}
    (derivedReady : ∀ ts ∈ derived, ts.IcmpReady) (suppliedReady : ∀ ts ∈ supplied, ts.IcmpReady) (packet : Packet) :
    Covers TrafficSelector.Admits (selectSubsets derived supplied) packet ↔
      Covers TrafficSelector.Admits derived packet ∧ Covers TrafficSelector.Admits supplied packet := by
  simp only [Covers, selectSubsets, List.mem_flatMap, List.mem_filterMap]
  constructor
  · rintro ⟨subset, ⟨ts1, ts1In, ts2, ts2In, found⟩, admitted⟩
    obtain ⟨inFirst, inSecond⟩ := (admits_getSubset
      (shiftFree_of_icmpReady (derivedReady ts1 ts1In) (suppliedReady ts2 ts2In)) found packet).mp admitted
    exact ⟨⟨ts1, ts1In, inFirst⟩, ⟨ts2, ts2In, inSecond⟩⟩
  · rintro ⟨⟨ts1, ts1In, inFirst⟩, ⟨ts2, ts2In, inSecond⟩⟩
    -- a packet both admit makes the two overlap, so `get_subset` finds their intersection
    obtain ⟨subset, found⟩ := Option.ne_none_iff_exists'.mp fun empty =>
      (getSubset_eq_none_iff inFirst.1 inSecond.1).mp empty packet ⟨inFirst, inSecond⟩
    exact ⟨subset, ⟨ts1, ts1In, ts2, ts2In, found⟩, (admits_getSubset
      (shiftFree_of_icmpReady (derivedReady ts1 ts1In) (suppliedReady ts2 ts2In)) found packet).mpr
        ⟨inFirst, inSecond⟩⟩

theorem icmpReady_of_mem_selectSubsets {derived supplied : List TrafficSelector}
    (derivedReady : ∀ ts ∈ derived, ts.IcmpReady) (suppliedReady : ∀ ts ∈ supplied, ts.IcmpReady)
    {subset : TrafficSelector} (member : subset ∈ selectSubsets derived supplied) :
    subset.IcmpReady ∧ subset.dynamic = false := by
  obtain ⟨ts1, ts1In, subsetIn⟩ := List.mem_flatMap.mp member
  obtain ⟨ts2, ts2In, found⟩ := List.mem_filterMap.mp subsetIn
  exact ⟨icmpReady_of_getSubset (derivedReady ts1 ts1In) (suppliedReady ts2 ts2In) found,
    dynamic_of_getSubset found⟩

/-- For configured and supplied selectors in ICMP form, the selected ones admit exactly what
both a derived and a supplied selector admit. -/
theorem admits_getTrafficSelectors (this : ChildCfg) (isLocal : Bool) (supplied : List TrafficSelector)
    (hosts : List Host) (configuredReady : ∀ ts ∈ (if isLocal then this.myTs else this.otherTs), ts.IcmpReady)
    (suppliedReady : ∀ ts ∈ supplied, ts.IcmpReady) (packet : Packet) :
    Covers TrafficSelector.Admits (this.getTrafficSelectors isLocal (some supplied) hosts) packet ↔
      Covers TrafficSelector.Admits (this.deriveTrafficSelectors isLocal true hosts) packet ∧
        Covers TrafficSelector.Admits supplied packet := by
  have derivedReady : ∀ ts ∈ this.deriveTrafficSelectors isLocal true hosts, ts.IcmpReady := by
    intro ts member
    obtain ⟨configured, configuredIn, derivedIn⟩ := List.mem_flatMap.mp member
    exact icmpReady_of_mem_deriveSelector (configuredReady configured configuredIn) derivedIn
  -- containment among the intersections is inclusion, so the removal keeps their union
  have sound : ∀ first ∈ selectSubsets (this.deriveTrafficSelectors isLocal true hosts) supplied,
      ∀ second ∈ selectSubsets (this.deriveTrafficSelectors isLocal true hosts) supplied,
      first.isContainedIn second = true → ∀ packet, first.Admits packet → second.Admits packet := by
    intro first firstIn second secondIn contained
    obtain ⟨firstReady, firstStatic⟩ := icmpReady_of_mem_selectSubsets derivedReady suppliedReady firstIn
    obtain ⟨secondReady, -⟩ := icmpReady_of_mem_selectSubsets derivedReady suppliedReady secondIn
    exact admits_of_isContainedIn (shiftFree_of_icmpReady firstReady secondReady) firstStatic contained
  exact (covers_removeRedundant sound packet).trans (covers_selectSubsets derivedReady suppliedReady packet)

/-- No selector `get_traffic_selectors` returns is found contained in another. -/
theorem antichain_getTrafficSelectors (this : ChildCfg) (isLocal : Bool) (supplied : Option (List TrafficSelector))
    (hosts : List Host) {i j : Nat} (distinct : i ≠ j) {first second : TrafficSelector}
    (atI : (this.getTrafficSelectors isLocal supplied hosts)[i]? = some first)
    (atJ : (this.getTrafficSelectors isLocal supplied hosts)[j]? = some second) :
    first.isContainedIn second = false :=
  antichain_removeRedundant _ distinct atI atJ

/-- Every IPv4 address, any protocol, every port. -/
def wholeIpv4 : TrafficSelector :=
  trafficSelectorCreateFromSubnet ⟨.afInet, [0, 0, 0, 0], rfl⟩ 0 0 0 0xffff

/-- `get_traffic_selectors` with the peer's selectors: its removal loop exits within the steps
the model gives it, and for configured and supplied selectors in ICMP form it returns
selectors that admit exactly what a derived and a supplied selector both admit, none of them
found contained in another. -/
theorem getTrafficSelectors_narrows (this : ChildCfg) (isLocal : Bool) (supplied : List TrafficSelector)
    (hosts : List Host) (configuredReady : ∀ ts ∈ (if isLocal then this.myTs else this.otherTs), ts.IcmpReady)
    (suppliedReady : ∀ ts ∈ supplied, ts.IcmpReady) :
    (∃ final, Steps (RedundancyScan.step fun ts2 ts1 => ts2.isContainedIn ts1)
        ⟨selectSubsets (this.deriveTrafficSelectors isLocal true hosts) supplied, 0, 0⟩ final ∧
      final.step (fun ts2 ts1 => ts2.isContainedIn ts1) = none ∧
      this.getTrafficSelectors isLocal (some supplied) hosts = final.result) ∧
    (∀ packet, Covers TrafficSelector.Admits (this.getTrafficSelectors isLocal (some supplied) hosts) packet ↔
      Covers TrafficSelector.Admits (this.deriveTrafficSelectors isLocal true hosts) packet ∧
        Covers TrafficSelector.Admits supplied packet) ∧
    ∀ {i j : Nat}, i ≠ j → ∀ {first second : TrafficSelector},
      (this.getTrafficSelectors isLocal (some supplied) hosts)[i]? = some first →
      (this.getTrafficSelectors isLocal (some supplied) hosts)[j]? = some second →
      first.isContainedIn second = false :=
  ⟨removeRedundant_exits _, admits_getTrafficSelectors this isLocal supplied hosts configuredReady suppliedReady,
    fun {_ _} distinct {_ _} atI atJ => antichain_getTrafficSelectors this isLocal (some supplied) hosts distinct atI atJ⟩

/-- `10.0.0.0/8`, TCP, every port. -/
def tcpTenNet : TrafficSelector := trafficSelectorCreateFromSubnet tenNet 8 6 0 0xffff

/-- A configuration for the peer's side: TCP within `10.0.0.0/8`. -/
def tcpChildCfg : ChildCfg := ⟨[], [tcpTenNet], .modeTunnel, false⟩

theorem getTrafficSelectors_narrows_tcp :
    (∀ ts ∈ (if false then tcpChildCfg.myTs else tcpChildCfg.otherTs), ts.IcmpReady) ∧
      (∀ ts ∈ [wholeIpv4], ts.IcmpReady) ∧
      ∀ packet, Covers TrafficSelector.Admits (tcpChildCfg.getTrafficSelectors false (some [wholeIpv4]) []) packet ↔
        Covers TrafficSelector.Admits (tcpChildCfg.deriveTrafficSelectors false true []) packet ∧
          Covers TrafficSelector.Admits [wholeIpv4] packet := by
  have configuredReady : ∀ ts ∈ (if false then tcpChildCfg.myTs else tcpChildCfg.otherTs), ts.IcmpReady :=
    fun ts member icmp => absurd icmp (by rw [List.mem_singleton.mp member]; decide)
  have suppliedReady : ∀ ts ∈ [wholeIpv4], ts.IcmpReady := fun ts member _ => by
    rw [List.mem_singleton.mp member]
    unfold IcmpNormal
    decide
  exact ⟨configuredReady, suppliedReady,
    (getTrafficSelectors_narrows tcpChildCfg false [wholeIpv4] [] configuredReady suppliedReady).2.1⟩

/-! ## Where the ICMP move loses traffic -/

/-- A configuration for the peer's side: ICMP ports 0 to 1 and ports 0 to 1 of any protocol. -/
def icmpChildCfg : ChildCfg := ⟨[], [icmpLowTypes, anyLowPorts], .modeTunnel, false⟩

/-- Selecting from every IPv4 address, the ICMP selector is found contained in the other and
removed, and with it a packet a configured and the supplied selector admit. -/
theorem getTrafficSelectors_drops_icmp_traffic :
    Covers TrafficSelector.Admits (icmpChildCfg.deriveTrafficSelectors false true []) icmpPortTwo ∧
      Covers TrafficSelector.Admits [wholeIpv4] icmpPortTwo ∧
      ¬Covers TrafficSelector.Admits (icmpChildCfg.getTrafficSelectors false (some [wholeIpv4]) []) icmpPortTwo := by
  decide

end StrongSwan.Libcharon.Config
