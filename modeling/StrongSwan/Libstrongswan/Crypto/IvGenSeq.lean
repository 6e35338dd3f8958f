import StrongSwan.Foundations.Bytes
import StrongSwan.Foundations.Runs

/-!
Contract: the sequential IV generator of `iv_gen_seq.c`.

`get_iv(seq, size, buffer)` fills `size` bytes: zeros, then the 64-bit
counter block in network order masked with an 8-byte salt. The counter block
is `seq`, unless `seq` is at or below the lower high-water mark `prevl`; then
bit 63 is set and the result must lie above the upper mark `prevh`. The
all-ones value is reserved as the initial state of both marks. A number that
already has bit 63 set is stored into `prevh` without being compared with it.

Owns: `get_iv`, its rejections (no salt, fewer than 8 bytes), the step of a
call sequence, the uniqueness of the produced IVs over every call sequence
whose numbers lie in the lower half, and the repetition of an IV when an
upper-half number is passed twice.

Does not own: the strong RNG that produces the salt, which is a parameter of
`ivGenSeqCreate`, and `allocate_iv`, which only allocates the buffer.
-/

namespace StrongSwan.Libstrongswan.Crypto.IvGenSeq

open StrongSwan.Foundations

/-- `SEQ_IV_INIT_STATE`. -/
def seqIvInitState : UInt64 := ~~~0

/-- `SEQ_IV_HIGH_MASK`. -/
def seqIvHighMask : UInt64 := (1 : UInt64) <<< 63

/-- `private_iv_gen_t`. -/
structure PrivateIvGen where
  prevl : UInt64
  prevh : UInt64
  salt : Option (List UInt8)
deriving Repr, DecidableEq

/-- `iv_gen_seq_create`, given the eight bytes the strong RNG produced, or
`none` when there is no RNG or it failed. -/
def ivGenSeqCreate (salt : Option (List UInt8)) : PrivateIvGen where
  prevl := seqIvInitState
  prevh := seqIvInitState
  salt := salt

/-- The first check of `get_iv`: a number at or below `prevl` moves into the
upper half, where it must lie above `prevh`. -/
def moveToUpper (generator : PrivateIvGen) (seq : UInt64) : Option UInt64 :=
  if generator.prevl ≠ seqIvInitState ∧ seq ≤ generator.prevl then
    if generator.prevh ≠ seqIvInitState ∧ (seq ||| seqIvHighMask) ≤ generator.prevh then none
    else some (seq ||| seqIvHighMask)
  else some seq

/-- The buffer `get_iv` fills: `size - 8` zeros, then `htoun64(seq)` masked with the salt. -/
def ivBuffer (salt : List UInt8) (size : Nat) (seq : UInt64) : List UInt8 :=
  List.replicate (size - 8) 0 ++ Bytes.xorBytes (Bytes.bigEndian 8 seq.toNat) salt

/-- `get_iv`: the updated generator and the filled buffer, or `none` for FALSE. -/
def getIv (generator : PrivateIvGen) (seq : UInt64) (size : Nat) :
    Option (PrivateIvGen × List UInt8) :=
  match generator.salt with
  | none => none
  | some salt =>
      if size < 8 then none
      else
        match moveToUpper generator seq with
        | none => none
        | some seq =>
            if (seq ||| seqIvHighMask) = seqIvInitState then none
            else
              let next := if seq &&& seqIvHighMask != 0 then { generator with prevh := seq }
                else { generator with prevl := seq }
              some (next, ivBuffer salt size seq)

/-- One call of a sequence: a failed call leaves the generator unchanged. -/
def getIvStep (generator : PrivateIvGen) (call : UInt64 × Nat) :
    PrivateIvGen × Option (List UInt8) :=
  match getIv generator call.1 call.2 with
  | none => (generator, none)
  | some (next, buffer) => (next, some buffer)

/-! ## Bit 63 -/

theorem seqIvHighMask_toNat : seqIvHighMask.toNat = 2 ^ 63 := rfl

theorem seqIvInitState_toNat : seqIvInitState.toNat = 2 ^ 64 - 1 := rfl

/-- The test `seq & SEQ_IV_HIGH_MASK` is the upper half. -/
theorem and_seqIvHighMask_ne_zero (seq : UInt64) :
    (seq &&& seqIvHighMask != 0) = decide (2 ^ 63 ≤ seq.toNat) := by
  have seqBelow := seq.toNat_lt
  rw [Bool.eq_iff_iff]
  simp only [bne_iff_ne, ne_eq, ← UInt64.toNat_inj, UInt64.toNat_and, seqIvHighMask_toNat,
    decide_eq_true_eq]
  rw [Nat.and_two_pow, Nat.testBit_eq_decide_div_mod_eq]
  simp only [UInt64.toNat_zero]
  by_cases high : seq.toNat / 2 ^ 63 % 2 = 1
  · simp only [high, decide_true, Bool.toNat_true]
    omega
  · simp only [high, decide_false, Bool.toNat_false]
    omega

/-- Setting bit 63 of a lower-half number adds `2^63`. -/
theorem or_seqIvHighMask_toNat {seq : UInt64} (lower : seq.toNat < 2 ^ 63) :
    (seq ||| seqIvHighMask).toNat = seq.toNat + 2 ^ 63 := by
  rw [UInt64.toNat_or, seqIvHighMask_toNat]
  exact Nat.or_two_pow_eq_add_of_lt lower

/-! ## Successful calls -/

theorem getIv_eq_some {generator next : PrivateIvGen} {seq : UInt64} {size : Nat}
    {buffer : List UInt8} (success : getIv generator seq size = some (next, buffer)) :
    ∃ salt counter, generator.salt = some salt ∧ moveToUpper generator seq = some counter ∧
      (counter ||| seqIvHighMask) ≠ seqIvInitState ∧
      next = (if counter &&& seqIvHighMask != 0 then { generator with prevh := counter }
        else { generator with prevl := counter }) ∧
      buffer = ivBuffer salt size counter := by
  unfold getIv at success
  split at success
  · cases success
  · rename_i salt hasSalt
    split_ifs at success
    split at success
    · cases success
    · rename_i counter moved
      by_cases reserved : (counter ||| seqIvHighMask) = seqIvInitState
      · rw [if_pos reserved] at success
        cases success
      · rw [if_neg reserved] at success
        cases success
        exact ⟨salt, counter, hasSalt, moved, reserved, rfl, rfl⟩

/-- Different counter blocks give different buffers. -/
theorem ivBuffer_injective {salt : List UInt8} (saltLength : salt.length = 8)
    {firstSize secondSize : Nat} {first second : UInt64}
    (sameBuffer : ivBuffer salt firstSize first = ivBuffer salt secondSize second) :
    first = second := by
  have sameLength := congrArg List.length sameBuffer
  simp only [ivBuffer, List.length_append, List.length_replicate, Bytes.length_xorBytes,
    Bytes.length_bigEndian, saltLength, min_self] at sameLength
  have sameZeros : List.replicate (firstSize - 8) (0 : UInt8) =
      List.replicate (secondSize - 8) 0 := by
    rw [Nat.add_right_cancel sameLength]
  unfold ivBuffer at sameBuffer
  rw [sameZeros, List.append_cancel_left_eq] at sameBuffer
  have sameBlock := Bytes.xorBytes_injective (by simp [saltLength]) (by simp [saltLength])
    sameBuffer
  apply UInt64.toNat_inj.mp
  exact Bytes.bigEndian_injective first.toNat_lt second.toNat_lt sameBlock

/-- Every issued counter block lies at or below the mark of its half. -/
structure MarksAbove (generator : PrivateIvGen) (issued : List UInt64) : Prop where
  lower : ∀ counter ∈ issued, counter.toNat < 2 ^ 63 →
    generator.prevl ≠ seqIvInitState ∧ counter.toNat ≤ generator.prevl.toNat
  upper : ∀ counter ∈ issued, 2 ^ 63 ≤ counter.toNat →
    generator.prevh ≠ seqIvInitState ∧ counter.toNat ≤ generator.prevh.toNat

theorem marksAbove_ivGenSeqCreate (salt : Option (List UInt8)) :
    MarksAbove (ivGenSeqCreate salt) [] :=
  ⟨by simp, by simp⟩

theorem ne_seqIvInitState_of_toNat {value : UInt64} (belowAllOnes : value.toNat < 2 ^ 64 - 1) :
    value ≠ seqIvInitState := by
  intro isInit
  rw [isInit, seqIvInitState_toNat] at belowAllOnes
  omega

/-- A successful call with a lower-half number produces a counter block that
was not issued before, and keeps the marks above every issued block. -/
theorem getIv_fresh {generator next : PrivateIvGen} {issued : List UInt64} {seq : UInt64}
    {size : Nat} {buffer : List UInt8} (marks : MarksAbove generator issued)
    (lower : seq.toNat < 2 ^ 63) (success : getIv generator seq size = some (next, buffer)) :
    ∃ salt counter, generator.salt = some salt ∧ buffer = ivBuffer salt size counter ∧
      counter ∉ issued ∧ MarksAbove next (counter :: issued) := by
  obtain ⟨salt, counter, hasSalt, moved, notReserved, nextIs, bufferIs⟩ := getIv_eq_some success
  refine ⟨salt, counter, hasSalt, bufferIs, ?_⟩
  unfold moveToUpper at moved
  simp only [ne_eq, UInt64.le_iff_toNat_le] at moved
  by_cases atOrBelow : generator.prevl ≠ seqIvInitState ∧ seq.toNat ≤ generator.prevl.toNat
  · -- the number was used already: the block is `seq | 2^63`, above `prevh`
    rw [if_pos atOrBelow] at moved
    split_ifs at moved with atOrBelowUpper
    cases moved
    have counterValue := or_seqIvHighMask_toNat lower
    rw [and_seqIvHighMask_ne_zero, counterValue, decide_eq_true (by omega), if_pos rfl] at nextIs
    subst nextIs
    have counterNotInit : seq ||| seqIvHighMask ≠ seqIvInitState := by
      rwa [UInt64.or_assoc, UInt64.or_self] at notReserved
    have aboveUpper : ∀ counter ∈ issued, 2 ^ 63 ≤ counter.toNat →
        counter.toNat < seq.toNat + 2 ^ 63 := by
      intro issuedCounter member isUpper
      obtain ⟨markSet, below⟩ := marks.upper issuedCounter member isUpper
      have notBelow : ¬ (seq ||| seqIvHighMask).toNat ≤ generator.prevh.toNat :=
        fun below => atOrBelowUpper ⟨markSet, below⟩
      omega
    refine ⟨?_, ⟨?_, ?_⟩⟩
    · intro member
      have := aboveUpper _ member (by omega)
      omega
    · intro issuedCounter member isLower
      rcases List.mem_cons.mp member with same | old
      · subst same
        omega
      · exact marks.lower issuedCounter old isLower
    · intro issuedCounter member isUpper
      rcases List.mem_cons.mp member with same | old
      · subst same
        exact ⟨counterNotInit, le_refl _⟩
      · have := aboveUpper issuedCounter old isUpper
        exact ⟨counterNotInit, by simp only [counterValue]; omega⟩
  · -- a fresh number above `prevl` is its own block and becomes the new `prevl`
    rw [if_neg atOrBelow] at moved
    cases moved
    rw [and_seqIvHighMask_ne_zero, decide_eq_false (by omega)] at nextIs
    simp only [Bool.false_eq_true, if_false] at nextIs
    subst nextIs
    have seqNotInit : seq ≠ seqIvInitState := ne_seqIvInitState_of_toNat (by omega)
    have aboveLower : ∀ counter ∈ issued, counter.toNat < 2 ^ 63 →
        counter.toNat < seq.toNat := by
      intro issuedCounter member isLower
      obtain ⟨markSet, below⟩ := marks.lower issuedCounter member isLower
      have notBelow : ¬ seq.toNat ≤ generator.prevl.toNat := fun below => atOrBelow ⟨markSet, below⟩
      omega
    refine ⟨?_, ⟨?_, ?_⟩⟩
    · intro member
      have := aboveLower _ member lower
      omega
    · intro issuedCounter member isLower
      rcases List.mem_cons.mp member with same | old
      · subst same
        exact ⟨seqNotInit, le_refl _⟩
      · exact ⟨seqNotInit, Nat.le_of_lt (aboveLower issuedCounter old isLower)⟩
    · intro issuedCounter member isUpper
      rcases List.mem_cons.mp member with same | old
      · subst same
        omega
      · exact marks.upper issuedCounter old isUpper

theorem salt_of_getIv {generator next : PrivateIvGen} {seq : UInt64} {size : Nat}
    {buffer : List UInt8} (success : getIv generator seq size = some (next, buffer)) :
    next.salt = generator.salt := by
  obtain ⟨_, counter, _, _, _, nextIs, _⟩ := getIv_eq_some success
  rw [nextIs]
  split <;> rfl

/-! ## Runs -/

theorem getIvStep_of_none {generator : PrivateIvGen} {seq : UInt64} {size : Nat}
    (failed : getIv generator seq size = none) :
    getIvStep generator (seq, size) = (generator, none) := by
  simp [getIvStep, failed]

theorem getIvStep_of_some {generator next : PrivateIvGen} {seq : UInt64} {size : Nat}
    {buffer : List UInt8} (success : getIv generator seq size = some (next, buffer)) :
    getIvStep generator (seq, size) = (next, some buffer) := by
  simp [getIvStep, success]

/-- Over a run of lower-half numbers from a generator whose marks lie above
the issued blocks, every produced IV carries a block that was not issued
before, and no two produced IVs are equal. -/
theorem runSteps_getIvStep_fresh {salt : List UInt8} (saltLength : salt.length = 8)
    (calls : List (UInt64 × Nat)) (lower : ∀ call ∈ calls, call.1.toNat < 2 ^ 63)
    {generator : PrivateIvGen} {issued : List UInt64} (hasSalt : generator.salt = some salt)
    (marks : MarksAbove generator issued) :
    (∀ buffer ∈ (runSteps getIvStep generator calls).2.reduceOption,
        ∃ size counter, buffer = ivBuffer salt size counter ∧ counter ∉ issued) ∧
      (runSteps getIvStep generator calls).2.reduceOption.Nodup := by
  induction calls generalizing generator issued with
  | nil => simp
  | cons call rest inductionHypothesis =>
      obtain ⟨seq, size⟩ := call
      have restLower : ∀ call ∈ rest, call.1.toNat < 2 ^ 63 :=
        fun call member => lower call (List.mem_cons_of_mem _ member)
      cases success : getIv generator seq size with
      | none =>
          rw [runSteps_cons, getIvStep_of_none success, List.reduceOption_cons_of_none]
          exact inductionHypothesis restLower hasSalt marks
      | some result =>
          obtain ⟨next, buffer⟩ := result
          obtain ⟨saltUsed, counter, saltIs, bufferIs, fresh, nextMarks⟩ :=
            getIv_fresh marks (lower (seq, size) List.mem_cons_self) success
          rw [hasSalt, Option.some_inj] at saltIs
          subst saltIs
          have nextSalt : next.salt = some salt := (salt_of_getIv success).trans hasSalt
          obtain ⟨laterFresh, laterDistinct⟩ := inductionHypothesis restLower nextSalt nextMarks
          rw [runSteps_cons, getIvStep_of_some success, List.reduceOption_cons_of_some]
          refine ⟨?_, List.nodup_cons.mpr ⟨?_, laterDistinct⟩⟩
          · intro produced member
            rcases List.mem_cons.mp member with first | later
            · exact ⟨size, counter, first.trans bufferIs, fresh⟩
            · obtain ⟨laterSize, laterCounter, laterIs, laterNotIssued⟩ := laterFresh produced later
              exact ⟨laterSize, laterCounter, laterIs,
                fun old => laterNotIssued (List.mem_cons_of_mem _ old)⟩
          · intro repeated
            obtain ⟨laterSize, laterCounter, laterIs, laterNotIssued⟩ := laterFresh buffer repeated
            have sameCounter := ivBuffer_injective saltLength (bufferIs.symm.trans laterIs)
            exact laterNotIssued (sameCounter ▸ List.mem_cons_self)

/-- IVs are unique over every call sequence of a fresh generator whose
numbers all lie below `2^63`. -/
theorem getIv_unique_of_lower {salt : List UInt8} (saltLength : salt.length = 8)
    (calls : List (UInt64 × Nat)) (lower : ∀ call ∈ calls, call.1.toNat < 2 ^ 63) :
    (runSteps getIvStep (ivGenSeqCreate (some salt)) calls).2.reduceOption.Nodup :=
  (runSteps_getIvStep_fresh saltLength calls lower rfl (marksAbove_ivGenSeqCreate _)).2

theorem getIv_unique_of_lower_repeated :
    (List.replicate 8 (0x5a : UInt8)).length = 8 ∧
      (∀ call ∈ [((7 : UInt64), 8), (7, 8), (3, 12)], call.1.toNat < 2 ^ 63) ∧
      (runSteps getIvStep (ivGenSeqCreate (some (List.replicate 8 0x5a)))
        [(7, 8), (7, 8), (3, 12)]).2.reduceOption.Nodup :=
  ⟨rfl, by decide, getIv_unique_of_lower rfl [(7, 8), (7, 8), (3, 12)] (by decide)⟩

/-- A number with bit 63 set, passed twice to a fresh generator, yields the
same IV twice: it is stored into `prevh` without a comparison, and `prevl`
stays at its initial value, so the second call takes the same path. -/
theorem getIv_repeats_upper_half (salt : List UInt8) (seq : UInt64) (size : Nat)
    (upper : 2 ^ 63 ≤ seq.toNat) (notAllOnes : seq ≠ seqIvInitState) (large : 8 ≤ size) :
    (runSteps getIvStep (ivGenSeqCreate (some salt)) [(seq, size), (seq, size)]).2 =
      [some (ivBuffer salt size seq), some (ivBuffer salt size seq)] := by
  have highBit : (seq &&& seqIvHighMask != 0) = true := by
    rw [and_seqIvHighMask_ne_zero, decide_eq_true upper]
  have alreadyHigh : seq ||| seqIvHighMask = seq := by
    apply UInt64.toNat_inj.mp
    rw [UInt64.toNat_or, seqIvHighMask_toNat]
    apply Nat.eq_of_testBit_eq
    intro bit
    rw [Nat.testBit_or, Nat.testBit_two_pow]
    by_cases isTop : 63 = bit
    · subst isTop
      have topSet : seq.toNat.testBit 63 = true := by
        rw [Nat.testBit_eq_decide_div_mod_eq, decide_eq_true]
        have := seq.toNat_lt
        omega
      simp [topSet]
    · simp [isTop]
  have stored : ∀ generator : PrivateIvGen, generator.salt = some salt →
      generator.prevl = seqIvInitState →
      getIv generator seq size = some ({ generator with prevh := seq }, ivBuffer salt size seq) := by
    intro generator hasSalt initialLower
    simp [getIv, moveToUpper, hasSalt, initialLower, alreadyHigh, notAllOnes, highBit,
      Nat.not_lt.mpr large]
  have first := stored (ivGenSeqCreate (some salt)) rfl rfl
  have second := stored { ivGenSeqCreate (some salt) with prevh := seq } rfl rfl
  simp [getIvStep_of_some first, getIvStep_of_some second]

theorem getIv_repeats_upper_half_at_frag_number :
    2 ^ 63 ≤ (0x8000000000000001 : UInt64).toNat ∧
      (0x8000000000000001 : UInt64) ≠ seqIvInitState ∧ 8 ≤ 8 ∧
      (runSteps getIvStep (ivGenSeqCreate (some (List.replicate 8 0x5a)))
          [(0x8000000000000001, 8), (0x8000000000000001, 8)]).2 =
        [some (ivBuffer (List.replicate 8 0x5a) 8 0x8000000000000001),
          some (ivBuffer (List.replicate 8 0x5a) 8 0x8000000000000001)] :=
  ⟨by decide, by decide, le_refl 8,
    getIv_repeats_upper_half (List.replicate 8 0x5a) 0x8000000000000001 8 (by decide) (by decide)
      (le_refl 8)⟩

end StrongSwan.Libstrongswan.Crypto.IvGenSeq
