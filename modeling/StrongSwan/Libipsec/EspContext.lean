import StrongSwan.Foundations.PackedBits
import StrongSwan.Foundations.ReplayWindow
import StrongSwan.Foundations.Runs

/-!
Contract: the inbound anti-replay window of `esp_context.c` refines the
abstract sliding window of width `ESP_DEFAULT_WINDOW_SIZE`.

The context keeps the highest authenticated sequence number `last_seqno`, a
circular bitmap `window` of `window_size / CHAR_BIT + 1` bytes and the bit
`seqno_index` that stands for `last_seqno`. Bit `(seqno_index - k) %
window_size`, computed in 32-bit unsigned arithmetic, stands for
`last_seqno - k`. Since 128 divides `2^32`, the wrap-around of that
subtraction is harmless, which `sub_mod_window_toNat` records.

Owns: `verify_seqno`, `check_window`, `set_authenticated_seqno` with its
shifting loop, the representation invariant `Represents`, one refinement
lemma per operation, and the run theorem over every call sequence in which
`set_authenticated_seqno(s)` follows a `verify_seqno(s)` that returned TRUE.

Does not own: the AEAD of the context and the outbound `next_seqno`.
-/

namespace StrongSwan.Libipsec.EspContext

open StrongSwan.Foundations

/-- `ESP_DEFAULT_WINDOW_SIZE`. -/
def espDefaultWindowSize : UInt32 := 128

/-- The anti-replay fields of `private_esp_context_t`. -/
structure PrivateEspContext where
  lastSeqno : UInt32
  seqnoIndex : UInt32
  windowSize : UInt32
  window : List UInt8
  inbound : Bool
deriving Repr, DecidableEq

/-- `esp_context_create`: an inbound context gets a zeroed window of
`window_size / CHAR_BIT + 1` bytes. -/
def espContextCreate (inbound : Bool) : PrivateEspContext where
  lastSeqno := 0
  seqnoIndex := 0
  windowSize := espDefaultWindowSize
  window := if inbound then List.replicate (espDefaultWindowSize.toNat / 8 + 1) 0 else []
  inbound := inbound

/-- `set_window_bit`. -/
def setWindowBit (context : PrivateEspContext) (index : UInt32) (set : Bool) : PrivateEspContext :=
  { context with window := PackedBits.setBit context.window index.toNat set }

/-- `get_window_bit`. -/
def getWindowBit (context : PrivateEspContext) (index : UInt32) : Bool :=
  PackedBits.getBit context.window index.toNat

/-- `check_window`: TRUE if `seqno` is not yet marked in the window. -/
def checkWindow (context : PrivateEspContext) (seqno : UInt32) : Bool :=
  let offset := context.lastSeqno - seqno
  let offset := (context.seqnoIndex - offset) % context.windowSize
  !getWindowBit context offset

/-- `verify_seqno`. -/
def verifySeqno (context : PrivateEspContext) (seqno : UInt32) : Bool :=
  if !context.inbound then false
  else if seqno > context.lastSeqno then true
  else if seqno > 0 && context.windowSize > context.lastSeqno - seqno then
    checkWindow context seqno
  else false

/-- The `for` loop of `set_authenticated_seqno`: advance `seqno_index` by one,
modulo the window size, and clear the bit it moves onto, `shift` times. -/
def shiftWindow : Nat → PrivateEspContext → PrivateEspContext
  | 0, context => context
  | shift + 1, context =>
      let index := (context.seqnoIndex + 1) % context.windowSize
      shiftWindow shift (setWindowBit { context with seqnoIndex := index } index false)

/-- `set_authenticated_seqno`. -/
def setAuthenticatedSeqno (context : PrivateEspContext) (seqno : UInt32) : PrivateEspContext :=
  if !context.inbound then context
  else if seqno > context.lastSeqno then
    let shift := seqno - context.lastSeqno
    let shift := if shift < context.windowSize then shift else context.windowSize
    let shifted := shiftWindow shift.toNat context
    { setWindowBit shifted shifted.seqnoIndex true with lastSeqno := seqno }
  else
    let back := context.lastSeqno - seqno
    setWindowBit context ((context.seqnoIndex - back) % context.windowSize) true

/-! ## Index arithmetic -/

@[simp] theorem espDefaultWindowSize_toNat : espDefaultWindowSize.toNat = 128 := rfl

/-- 32-bit `(index - back) % 128` is the circular index: `128` divides `2^32`. -/
theorem sub_mod_window_toNat {index back : UInt32} (indexBelow : index.toNat < 128)
    (backBelow : back.toNat < 128) :
    ((index - back) % espDefaultWindowSize).toNat = (index.toNat + 128 - back.toNat) % 128 := by
  rw [UInt32.toNat_mod, UInt32.toNat_sub, espDefaultWindowSize_toNat]
  omega

theorem succ_mod_window_toNat (index : UInt32) :
    ((index + 1) % espDefaultWindowSize).toNat = (index.toNat + 1) % 128 := by
  rw [UInt32.toNat_mod, UInt32.toNat_add, espDefaultWindowSize_toNat]
  simp only [UInt32.reduceToNat]
  omega

/-! ## Frame lemmas -/

@[simp] theorem setWindowBit_lastSeqno (context : PrivateEspContext) (index : UInt32) (set : Bool) :
    (setWindowBit context index set).lastSeqno = context.lastSeqno := rfl

@[simp] theorem setWindowBit_seqnoIndex (context : PrivateEspContext) (index : UInt32) (set : Bool) :
    (setWindowBit context index set).seqnoIndex = context.seqnoIndex := rfl

@[simp] theorem setWindowBit_windowSize (context : PrivateEspContext) (index : UInt32) (set : Bool) :
    (setWindowBit context index set).windowSize = context.windowSize := rfl

@[simp] theorem setWindowBit_inbound (context : PrivateEspContext) (index : UInt32) (set : Bool) :
    (setWindowBit context index set).inbound = context.inbound := rfl

@[simp] theorem setWindowBit_window_length (context : PrivateEspContext) (index : UInt32)
    (set : Bool) : (setWindowBit context index set).window.length = context.window.length := by
  simp [setWindowBit]

/-! ## The shifting loop -/

/-- Well-formed inbound context: the fixed window of 17 bytes and an index inside it. -/
structure WellFormed (context : PrivateEspContext) : Prop where
  inbound : context.inbound = true
  windowSize : context.windowSize = espDefaultWindowSize
  windowLength : context.window.length = 17
  indexBelow : context.seqnoIndex.toNat < 128

theorem getBit_setWindowBit {context : PrivateEspContext} (wellFormed : WellFormed context)
    {index : UInt32} (indexBelow : index.toNat < 128) (set : Bool) (read : Nat) :
    PackedBits.getBit (setWindowBit context index set).window read =
      if read = index.toNat then set else PackedBits.getBit context.window read := by
  apply PackedBits.getBit_setBit
  rw [wellFormed.windowLength]
  omega

/-- The loop runs `shift` steps: the index moves `shift` places and exactly
the bits it moved onto are cleared. -/
theorem shiftWindow_spec (shift : Nat) {context : PrivateEspContext} (wellFormed : WellFormed context)
    (shiftBound : shift ≤ 128) :
    WellFormed (shiftWindow shift context) ∧
      (shiftWindow shift context).lastSeqno = context.lastSeqno ∧
      (shiftWindow shift context).seqnoIndex.toNat = (context.seqnoIndex.toNat + shift) % 128 ∧
      ∀ position < 128, PackedBits.getBit (shiftWindow shift context).window position =
        if (position + 127 - context.seqnoIndex.toNat) % 128 < shift then false
        else PackedBits.getBit context.window position := by
  induction shift generalizing context with
  | zero =>
      refine ⟨wellFormed, rfl, ?_, ?_⟩
      · simp [shiftWindow, Nat.mod_eq_of_lt wellFormed.indexBelow]
      · intro position _
        simp [shiftWindow]
  | succ shift inductionHypothesis =>
      -- one step, then the induction hypothesis on the stepped context
      have contextIndexBelow := wellFormed.indexBelow
      set index := (context.seqnoIndex + 1) % context.windowSize with indexDef
      have indexValue : index.toNat = (context.seqnoIndex.toNat + 1) % 128 := by
        rw [indexDef, wellFormed.windowSize]
        exact succ_mod_window_toNat context.seqnoIndex
      have indexBelow : index.toNat < 128 := by
        rw [indexValue]
        exact Nat.mod_lt _ (by decide)
      set stepped := setWindowBit { context with seqnoIndex := index } index false
      have steppedWellFormed : WellFormed stepped :=
        ⟨wellFormed.inbound, wellFormed.windowSize, by
          simp [stepped, wellFormed.windowLength], indexBelow⟩
      obtain ⟨finalWellFormed, finalLast, finalIndex, finalBits⟩ :=
        inductionHypothesis steppedWellFormed (by omega)
      refine ⟨finalWellFormed, finalLast, ?_, ?_⟩
      · simp only [shiftWindow]
        rw [finalIndex]
        simp only [stepped, setWindowBit_seqnoIndex, indexValue]
        omega
      · intro position positionBelow
        simp only [shiftWindow]
        rw [finalBits position positionBelow]
        have movedWellFormed : WellFormed { context with seqnoIndex := index } :=
          ⟨wellFormed.inbound, wellFormed.windowSize, wellFormed.windowLength, indexBelow⟩
        have steppedBit := getBit_setWindowBit movedWellFormed indexBelow false position
        simp only [stepped] at steppedBit ⊢
        rw [steppedBit]
        simp only [setWindowBit_seqnoIndex, indexValue]
        -- the bit cleared by this step is the first one of the cleared run
        split_ifs <;> first | rfl | omega

/-! ## Representation of the abstract window -/

/-- The window bit that stands for `last_seqno - back`. -/
def bitBehind (context : PrivateEspContext) (back : Nat) : Bool :=
  PackedBits.getBit context.window ((context.seqnoIndex.toNat + 128 - back) % 128)

/-- The context represents the abstract window: same highest number, and the
bit standing for `last_seqno - back` is set exactly when that number is
authenticated. -/
structure Represents (context : PrivateEspContext) (abstract : ReplayWindow 128) : Prop where
  wellFormed : WellFormed context
  highest : context.lastSeqno.toNat = abstract.highest
  bits : ∀ back < 128, bitBehind context back =
    decide (back ≤ abstract.highest ∧ abstract.highest - back ∈ abstract.authenticated)

theorem represents_espContextCreate :
    Represents (espContextCreate true) ReplayWindow.initial := by
  refine ⟨⟨rfl, rfl, rfl, by decide⟩, rfl, ?_⟩
  intro back _
  simp only [bitBehind, espContextCreate, if_true]
  rw [PackedBits.getBit_replicate_zero]
  simp [ReplayWindow.initial]

/-- `verify_seqno` is the abstract acceptance test. -/
theorem verifySeqno_eq_accepts {context : PrivateEspContext} {abstract : ReplayWindow 128}
    (represents : Represents context abstract) (seqno : UInt32) :
    verifySeqno context seqno = abstract.accepts seqno.toNat := by
  obtain ⟨⟨inbound, windowSize, _, indexBelow⟩, highest, bits⟩ := represents
  have acceptsValue := ReplayWindow.accepts_eq_true abstract seqno.toNat
  unfold verifySeqno
  simp only [inbound, windowSize, Bool.not_true, Bool.false_eq_true, if_false]
  by_cases beyond : seqno > context.lastSeqno
  · rw [if_pos beyond, eq_comm, acceptsValue]
    rw [gt_iff_lt, UInt32.lt_iff_toNat_lt, highest] at beyond
    exact Or.inl beyond
  · rw [if_neg beyond]
    rw [gt_iff_lt, UInt32.lt_iff_toNat_lt, not_lt, highest] at beyond
    have backValue : (context.lastSeqno - seqno).toNat = abstract.highest - seqno.toNat := by
      rw [UInt32.toNat_sub_of_le _ _ (UInt32.le_iff_toNat_le.mpr (highest ▸ beyond)), highest]
    by_cases inWindow : seqno > 0 && espDefaultWindowSize > context.lastSeqno - seqno
    · rw [if_pos inWindow]
      simp only [Bool.and_eq_true, gt_iff_lt, UInt32.lt_iff_toNat_lt, backValue,
        espDefaultWindowSize_toNat, UInt32.toNat_zero, decide_eq_true_eq] at inWindow
      have seenBit := bits (abstract.highest - seqno.toNat) inWindow.2
      dsimp only [checkWindow, getWindowBit]
      rw [windowSize, sub_mod_window_toNat indexBelow (by rw [backValue]; exact inWindow.2),
        backValue]
      unfold bitBehind at seenBit
      rw [seenBit]
      cases accepted : abstract.accepts seqno.toNat
      · rw [ReplayWindow.accepts_eq_false] at accepted
        have authenticated : seqno.toNat ∈ abstract.authenticated := by
          rcases accepted.2 with zero | farBehind | member
          · omega
          · omega
          · exact member
        simp [Nat.sub_sub_self beyond, authenticated]
      · rw [acceptsValue] at accepted
        rcases accepted with tooHigh | ⟨_, _, fresh⟩
        · omega
        · simp [Nat.sub_sub_self beyond, fresh]
    · rw [if_neg inWindow, eq_comm]
      simp only [Bool.and_eq_true, gt_iff_lt, UInt32.lt_iff_toNat_lt, backValue,
        espDefaultWindowSize_toNat, UInt32.toNat_zero, decide_eq_true_eq, not_and,
        not_lt] at inWindow
      rw [ReplayWindow.accepts_eq_false]
      refine ⟨beyond, ?_⟩
      by_cases zero : seqno.toNat = 0
      · exact Or.inl zero
      · exact Or.inr (Or.inl (inWindow (Nat.pos_of_ne_zero zero)))

/-- Forward case of `set_authenticated_seqno`: the loop clears the bits of the
numbers skipped over, and the bit of the new highest number is set. -/
theorem represents_setAuthenticatedSeqno_beyond {context : PrivateEspContext}
    {abstract : ReplayWindow 128} (represents : Represents context abstract) {seqno : UInt32}
    (beyond : context.lastSeqno < seqno) :
    Represents (setAuthenticatedSeqno context seqno) (abstract.authenticate seqno.toNat) := by
  obtain ⟨wellFormed, highest, bits⟩ := represents
  have beyondValue : abstract.highest < seqno.toNat := by
    rw [← highest]
    exact UInt32.lt_iff_toNat_lt.mp beyond
  have gapValue : (seqno - context.lastSeqno).toNat = seqno.toNat - abstract.highest := by
    rw [UInt32.toNat_sub_of_le _ _ (UInt32.le_of_lt beyond), highest]
  -- the number of loop iterations, `min (seqno - last_seqno) window_size`
  set shift : UInt32 := if seqno - context.lastSeqno < espDefaultWindowSize
    then seqno - context.lastSeqno else espDefaultWindowSize with shiftDef
  have shiftValue : shift.toNat = min (seqno.toNat - abstract.highest) 128 := by
    rw [shiftDef]
    split_ifs with small
    · rw [UInt32.lt_iff_toNat_lt, gapValue, espDefaultWindowSize_toNat] at small
      rw [gapValue]
      omega
    · rw [UInt32.lt_iff_toNat_lt, gapValue, espDefaultWindowSize_toNat] at small
      rw [espDefaultWindowSize_toNat]
      omega
  obtain ⟨shiftedWellFormed, _, shiftedIndex, shiftedBits⟩ :=
    shiftWindow_spec shift.toNat wellFormed (by omega)
  have indexBelow := wellFormed.indexBelow
  have unfolded : setAuthenticatedSeqno context seqno =
      { setWindowBit (shiftWindow shift.toNat context)
          (shiftWindow shift.toNat context).seqnoIndex true with lastSeqno := seqno } := by
    simp only [setAuthenticatedSeqno, wellFormed.inbound, wellFormed.windowSize,
      Bool.not_true, Bool.false_eq_true, if_false, gt_iff_lt, if_pos beyond, shiftDef]
  rw [unfolded]
  refine ⟨⟨shiftedWellFormed.inbound, shiftedWellFormed.windowSize, ?_,
    shiftedWellFormed.indexBelow⟩, ?_, ?_⟩
  · simp [shiftedWellFormed.windowLength]
  · simp only [ReplayWindow.highest_authenticate]
    omega
  intro back backBelow
  simp only [bitBehind, setWindowBit_seqnoIndex]
  rw [getBit_setWindowBit shiftedWellFormed shiftedWellFormed.indexBelow,
    ReplayWindow.highest_authenticate, max_eq_right (Nat.le_of_lt beyondValue)]
  rw [shiftedIndex]
  by_cases newest : back = 0
  · -- the bit of the new highest number
    subst newest
    have onIndex : ((context.seqnoIndex.toNat + shift.toNat) % 128 + 128 - 0) % 128 =
        (context.seqnoIndex.toNat + shift.toNat) % 128 := by omega
    rw [if_pos onIndex]
    simp only [ReplayWindow.mem_authenticate, max_eq_right (Nat.le_of_lt beyondValue)]
    simp
  · have offIndex : ((context.seqnoIndex.toNat + shift.toNat) % 128 + 128 - back) % 128 ≠
        (context.seqnoIndex.toNat + shift.toNat) % 128 := by omega
    rw [if_neg offIndex, shiftedBits _ (Nat.mod_lt _ (by decide))]
    by_cases skipped : back < shift.toNat
    · -- a number skipped over by the jump: cleared, and never authenticated
      have clearedPosition : (((context.seqnoIndex.toNat + shift.toNat) % 128 + 128 - back) % 128
          + 127 - context.seqnoIndex.toNat) % 128 < shift.toNat := by omega
      rw [if_pos clearedPosition, eq_comm, decide_eq_false_iff_not]
      rintro ⟨_, member⟩
      rw [ReplayWindow.mem_authenticate] at member
      rcases member.1 with same | old
      · omega
      · have := (abstract.inside _ old).1
        omega
    · -- a number behind the jump: its bit moved along with the index
      have keptPosition : ¬ (((context.seqnoIndex.toNat + shift.toNat) % 128 + 128 - back) % 128
          + 127 - context.seqnoIndex.toNat) % 128 < shift.toNat := by omega
      have samePosition : ((context.seqnoIndex.toNat + shift.toNat) % 128 + 128 - back) % 128 =
          (context.seqnoIndex.toNat + 128 - (back - shift.toNat)) % 128 := by omega
      have gapShift : shift.toNat = seqno.toNat - abstract.highest := by omega
      rw [if_neg keptPosition, samePosition]
      have oldBit := bits (back - shift.toNat) (by omega)
      unfold bitBehind at oldBit
      rw [oldBit]
      apply decide_eq_decide.mpr
      rw [ReplayWindow.mem_authenticate]
      constructor
      · rintro ⟨behind, member⟩
        refine ⟨by omega, ⟨Or.inr (by rwa [show abstract.highest - (back - shift.toNat) =
          seqno.toNat - back by omega] at member), ?_⟩⟩
        rw [max_eq_right (Nat.le_of_lt beyondValue)]
        omega
      · rintro ⟨behind, ⟨same | old, _⟩⟩
        · omega
        · exact ⟨by omega, by rwa [show abstract.highest - (back - shift.toNat) =
            seqno.toNat - back by omega]⟩

/-- In-window case of `set_authenticated_seqno`: only the bit of `seqno` is set. -/
theorem represents_setAuthenticatedSeqno_inside {context : PrivateEspContext}
    {abstract : ReplayWindow 128} (represents : Represents context abstract) {seqno : UInt32}
    (notBeyond : ¬ context.lastSeqno < seqno) (accepted : abstract.accepts seqno.toNat = true) :
    Represents (setAuthenticatedSeqno context seqno) (abstract.authenticate seqno.toNat) := by
  obtain ⟨wellFormed, highest, bits⟩ := represents
  have notBeyondValue : seqno.toNat ≤ abstract.highest := by
    rw [← highest]
    exact Nat.le_of_not_lt (fun lt => notBeyond (UInt32.lt_iff_toNat_lt.mpr lt))
  obtain ⟨_, inWindow, fresh⟩ : 0 < seqno.toNat ∧ abstract.highest - seqno.toNat < 128 ∧
      seqno.toNat ∉ abstract.authenticated := by
    rcases (ReplayWindow.accepts_eq_true _ _).mp accepted with tooHigh | inside
    · omega
    · exact inside
  have backValue : (context.lastSeqno - seqno).toNat = abstract.highest - seqno.toNat := by
    rw [UInt32.toNat_sub_of_le _ _ (UInt32.le_iff_toNat_le.mpr (highest ▸ notBeyondValue)),
      highest]
  have indexBelow := wellFormed.indexBelow
  have markValue : ((context.seqnoIndex - (context.lastSeqno - seqno)) %
      espDefaultWindowSize).toNat =
        (context.seqnoIndex.toNat + 128 - (abstract.highest - seqno.toNat)) % 128 := by
    rw [sub_mod_window_toNat indexBelow (by omega), backValue]
  have unfolded : setAuthenticatedSeqno context seqno = setWindowBit context
      ((context.seqnoIndex - (context.lastSeqno - seqno)) % espDefaultWindowSize) true := by
    simp only [setAuthenticatedSeqno, wellFormed.inbound, wellFormed.windowSize,
      Bool.not_true, Bool.false_eq_true, if_false, gt_iff_lt, if_neg notBeyond]
  rw [unfolded]
  refine ⟨⟨wellFormed.inbound, wellFormed.windowSize, by simp [wellFormed.windowLength],
    indexBelow⟩, ?_, ?_⟩
  · simp only [setWindowBit_lastSeqno, ReplayWindow.highest_authenticate]
    omega
  intro back backBelow
  simp only [bitBehind, setWindowBit_seqnoIndex]
  rw [getBit_setWindowBit wellFormed (by rw [markValue]; exact Nat.mod_lt _ (by decide)),
    markValue, ReplayWindow.highest_authenticate, max_eq_left notBeyondValue]
  by_cases marked : back = abstract.highest - seqno.toNat
  · -- the bit of `seqno` itself
    have onMark : (context.seqnoIndex.toNat + 128 - back) % 128 =
        (context.seqnoIndex.toNat + 128 - (abstract.highest - seqno.toNat)) % 128 := by
      rw [marked]
    rw [if_pos onMark, eq_comm, decide_eq_true_iff, ReplayWindow.mem_authenticate,
      max_eq_left notBeyondValue]
    refine ⟨by omega, Or.inl (by omega), by omega⟩
  · have offMark : (context.seqnoIndex.toNat + 128 - back) % 128 ≠
        (context.seqnoIndex.toNat + 128 - (abstract.highest - seqno.toNat)) % 128 := by omega
    rw [if_neg offMark]
    have oldBit := bits back backBelow
    unfold bitBehind at oldBit
    rw [oldBit]
    apply decide_eq_decide.mpr
    rw [ReplayWindow.mem_authenticate, max_eq_left notBeyondValue]
    constructor
    · rintro ⟨behind, member⟩
      exact ⟨behind, Or.inr member, (abstract.inside _ member).2⟩
    · rintro ⟨behind, ⟨same | member, _⟩⟩
      · omega
      · exact ⟨behind, member⟩

/-- `set_authenticated_seqno` after an accepting `verify_seqno` performs the
abstract update. -/
theorem represents_setAuthenticatedSeqno {context : PrivateEspContext}
    {abstract : ReplayWindow 128} (represents : Represents context abstract) {seqno : UInt32}
    (verified : verifySeqno context seqno = true) :
    Represents (setAuthenticatedSeqno context seqno) (abstract.authenticate seqno.toNat) := by
  by_cases beyond : context.lastSeqno < seqno
  · exact represents_setAuthenticatedSeqno_beyond represents beyond
  · rw [verifySeqno_eq_accepts represents] at verified
    exact represents_setAuthenticatedSeqno_inside represents beyond verified

/-! ## Call sequences -/

/-- The calls that the inbound packets make on a context: `esp_packet`
`decrypt` calls `verify_seqno` and, once the ICV verified, calls
`set_authenticated_seqno` with the same number. -/
inductive EspCall
  | verifySeqno (seqno : UInt32)
  | setAuthenticatedSeqno (seqno : UInt32)
deriving Repr, DecidableEq

/-- The caller's view: the context and the number, if any, whose
`verify_seqno` returned TRUE in the call just before. -/
structure Caller where
  context : PrivateEspContext
  verified : Option UInt32

/-- One call; `verify_seqno` returns its verdict, `set_authenticated_seqno` nothing. -/
def callStep (caller : Caller) : EspCall → Caller × Option Bool
  | .verifySeqno seqno =>
      (⟨caller.context, if verifySeqno caller.context seqno then some seqno else none⟩,
        some (verifySeqno caller.context seqno))
  | .setAuthenticatedSeqno seqno => (⟨setAuthenticatedSeqno caller.context seqno, none⟩, none)

/-- `set_authenticated_seqno(s)` only right after a `verify_seqno(s)` that returned TRUE. -/
def CallAllowed (caller : Caller) : EspCall → Prop
  | .verifySeqno _ => True
  | .setAuthenticatedSeqno seqno => caller.verified = some seqno

/-- The abstract window with the same memory of the previous verdict. -/
structure AbstractCaller where
  window : ReplayWindow 128
  verified : Option UInt32

/-- One call against the abstract window. -/
def abstractCallStep (caller : AbstractCaller) : EspCall → AbstractCaller × Option Bool
  | .verifySeqno seqno =>
      (⟨caller.window, if caller.window.accepts seqno.toNat then some seqno else none⟩,
        some (caller.window.accepts seqno.toNat))
  | .setAuthenticatedSeqno seqno => (⟨caller.window.authenticate seqno.toNat, none⟩, none)

/-- A freshly created inbound context, with no call made yet. -/
def initialCaller : Caller := ⟨espContextCreate true, none⟩

/-- A remembered TRUE verdict is still the verdict in the current context. -/
def VerdictCurrent (caller : Caller) : Prop :=
  ∀ seqno, caller.verified = some seqno → verifySeqno caller.context seqno = true

/-- The simulation relation between the caller and the abstract caller. -/
structure CallerRepresents (caller : Caller) (abstract : AbstractCaller) : Prop where
  represents : Represents caller.context abstract.window
  verified : caller.verified = abstract.verified
  current : VerdictCurrent caller

theorem callStep_represents {caller : Caller} {abstract : AbstractCaller} {call : EspCall}
    (related : CallerRepresents caller abstract) (allowed : CallAllowed caller call) :
    CallerRepresents (callStep caller call).1 (abstractCallStep abstract call).1 := by
  obtain ⟨represents, verified, current⟩ := related
  cases call with
  | verifySeqno seqno =>
      refine ⟨represents, ?_, ?_⟩
      · simp [callStep, abstractCallStep, verifySeqno_eq_accepts represents]
      · intro remembered isRemembered
        simp only [callStep] at isRemembered ⊢
        split_ifs at isRemembered with verdict
        · cases isRemembered
          exact verdict
  | setAuthenticatedSeqno seqno =>
      refine ⟨represents_setAuthenticatedSeqno represents (current seqno allowed), rfl, ?_⟩
      intro remembered isRemembered
      simp [callStep] at isRemembered

theorem callStep_output {caller : Caller} {abstract : AbstractCaller} {call : EspCall}
    (related : CallerRepresents caller abstract) :
    (callStep caller call).2 = (abstractCallStep abstract call).2 := by
  cases call with
  | verifySeqno seqno => simp [callStep, abstractCallStep, verifySeqno_eq_accepts related.represents]
  | setAuthenticatedSeqno seqno => rfl

/-- Once a number is rejected by the represented window, every later
`verify_seqno` of it returns FALSE. -/
theorem verdicts_after_rejection {caller : Caller} {calls : List EspCall} {seqno : UInt32}
    (rejected : ∃ abstract : ReplayWindow 128, Represents caller.context abstract ∧
      abstract.accepts seqno.toNat = false)
    (current : VerdictCurrent caller) (admissible : Admissible callStep CallAllowed caller calls) :
    ∀ pair ∈ calls.zip (runSteps callStep caller calls).2,
      pair.1 = .verifySeqno seqno → pair.2 = some false := by
  let invariant : Caller → Prop := fun caller => VerdictCurrent caller ∧
    ∃ abstract : ReplayWindow 128, Represents caller.context abstract ∧
      abstract.accepts seqno.toNat = false
  refine outputs_runSteps invariant (fun (call : EspCall) (output : Option Bool) =>
    call = EspCall.verifySeqno seqno → output = some false) ?_ ?_ ⟨current, rejected⟩ admissible
  · rintro state call ⟨stateCurrent, abstract, represents, stillRejected⟩ allowed
    have stepped : CallerRepresents (callStep state call).1
        (abstractCallStep ⟨abstract, state.verified⟩ call).1 :=
      callStep_represents ⟨represents, rfl, stateCurrent⟩ allowed
    refine ⟨stepped.current, _, stepped.represents, ?_⟩
    cases call with
    | verifySeqno _ => exact stillRejected
    | setAuthenticatedSeqno other =>
        exact ReplayWindow.accepts_authenticate_of_rejected stillRejected other.toNat
  · rintro state call ⟨_, abstract, represents, stillRejected⟩ _ isVerify
    subst isVerify
    simp [callStep, verifySeqno_eq_accepts represents, stillRejected]

/-- Over every call sequence on a fresh inbound context in which
`set_authenticated_seqno(s)` is only called right after a `verify_seqno(s)`
that returned TRUE: the context represents the abstract window at the end,
every `verify_seqno` returns the abstract verdict, and no call of
`verify_seqno(s)` after `set_authenticated_seqno(s)` returns TRUE. -/
theorem espContext_refines_replayWindow (calls : List EspCall)
    (admissible : Admissible callStep CallAllowed initialCaller calls) :
    Represents (runSteps callStep initialCaller calls).1.context
        (runSteps abstractCallStep ⟨ReplayWindow.initial, none⟩ calls).1.window ∧
      (runSteps callStep initialCaller calls).2 =
        (runSteps abstractCallStep ⟨ReplayWindow.initial, none⟩ calls).2 ∧
      ∀ before after seqno, calls = before ++ EspCall.setAuthenticatedSeqno seqno :: after →
        ∀ pair ∈ after.zip ((runSteps callStep initialCaller calls).2.drop (before.length + 1)),
          pair.1 = .verifySeqno seqno → pair.2 = some false := by
  have initialRelated : CallerRepresents initialCaller ⟨ReplayWindow.initial, none⟩ :=
    ⟨represents_espContextCreate, rfl, by simp [VerdictCurrent, initialCaller]⟩
  obtain ⟨finalRelated, outputsEqual⟩ := simulation_runSteps abstractCallStep CallerRepresents
    (fun _ _ _ related allowed => callStep_represents related allowed)
    (fun _ _ _ related _ => callStep_output related) initialRelated admissible
  refine ⟨finalRelated.represents, outputsEqual, ?_⟩
  intro before after seqno split
  subst split
  -- run up to and including the `set_authenticated_seqno(s)` call
  rw [← List.singleton_append, ← List.append_assoc] at admissible ⊢
  rw [admissible_append] at admissible
  obtain ⟨admissibleBefore, admissibleAfter⟩ := admissible
  set middle := (runSteps callStep initialCaller (before ++ [.setAuthenticatedSeqno seqno])).1
  rw [runSteps_append, List.drop_append_of_le_length (by simp), List.drop_eq_nil_of_le (by simp),
    List.nil_append]
  rw [admissible_append] at admissibleBefore
  obtain ⟨toCall, atCall⟩ := admissibleBefore
  obtain ⟨beforeRelated, _⟩ := simulation_runSteps abstractCallStep CallerRepresents
    (fun _ _ _ related allowed => callStep_represents related allowed)
    (fun _ _ _ related _ => callStep_output related) initialRelated toCall
  set previous := (runSteps callStep initialCaller before).1
  set previousAbstract := (runSteps abstractCallStep ⟨ReplayWindow.initial, none⟩ before).1
  have verdict : verifySeqno previous.context seqno = true := beforeRelated.current seqno atCall.1
  have middleRelated := callStep_represents beforeRelated atCall.1
  have middleEq : middle = (callStep previous (.setAuthenticatedSeqno seqno)).1 := by
    simp [middle, previous, runSteps_append]
  apply verdicts_after_rejection _ _ admissibleAfter
  · refine ⟨_, middleEq ▸ middleRelated.represents, ?_⟩
    apply ReplayWindow.accepts_authenticate_self (by decide)
    rw [← verifySeqno_eq_accepts beforeRelated.represents]
    exact verdict
  · exact middleEq ▸ middleRelated.current

/-- The run that checks `1`, authenticates it and checks it again. -/
theorem espContext_refines_replayWindow_replayed :
    Admissible callStep CallAllowed initialCaller
        [.verifySeqno 1, .setAuthenticatedSeqno 1, .verifySeqno 1] ∧
      (runSteps callStep initialCaller
          [.verifySeqno 1, .setAuthenticatedSeqno 1, .verifySeqno 1]).2 =
        (runSteps abstractCallStep ⟨ReplayWindow.initial, none⟩
          [.verifySeqno 1, .setAuthenticatedSeqno 1, .verifySeqno 1]).2 := by
  have admissible : Admissible callStep CallAllowed initialCaller
      [.verifySeqno 1, .setAuthenticatedSeqno 1, .verifySeqno 1] := by
    refine ⟨trivial, ?_, trivial, trivial⟩
    show (callStep initialCaller (.verifySeqno 1)).1.verified = some 1
    decide
  exact ⟨admissible, (espContext_refines_replayWindow _ admissible).2.1⟩

end StrongSwan.Libipsec.EspContext
