import StrongSwan.Foundations.Bytes

/-!
Contract: how the two peers of a rekey collision decide who lost it.

When both peers rekey the same CHILD_SA or IKE_SA at once, two CREATE_CHILD_SA
exchanges run, one initiated by each peer, and RFC 7296, section 2.8.1 deletes
the SA created with the lowest of the four nonces. Each peer's active rekey task
compares the lower nonce of its own exchange with the lower nonce of the peer's
exchange, which it holds as the colliding passive task: `lost_collision` in
`child_rekey.c`, `collision_lost` in `ike_rekey.c`. Every comparison, those of
`get_lower_nonce` in `child_create.c` and `ike_init.c` included, is `memcmp` over
the shorter of the two lengths.

`rekeyCollision_one_loses`: when no nonce is a prefix of another, both
peers take the same lower nonces and exactly one of them loses.
`rekeyCollision_both_win`: four distinct nonces, each a prefix of the next, and
neither peer loses.

Does not own: what the tasks do once decided (deleting the redundant SA,
concluding the collision) and when a passive task is adopted as the collision.
-/

namespace StrongSwan.Libcharon.Sa.Ikev2.Tasks

open StrongSwan.Foundations.Bytes

/-- `memcmp (first, second, min (first.len, second.len)) < 0`. -/
def nonceBelow (first second : List UInt8) : Bool :=
  memcmp first second (min first.length second.length) == .lt

/-- The nonce `get_lower_nonce` returns: its own if below the other's, else the other's. -/
def lowerNonce (myNonce otherNonce : List UInt8) : List UInt8 :=
  if nonceBelow myNonce otherNonce then myNonce else otherNonce

structure ChildCreate where
  myNonce : List UInt8
  otherNonce : List UInt8

def ChildCreate.getLowerNonce (this : ChildCreate) : List UInt8 :=
  lowerNonce this.myNonce this.otherNonce

structure IkeInit where
  myNonce : List UInt8
  otherNonce : List UInt8

def IkeInit.getLowerNonce (this : IkeInit) : List UInt8 :=
  lowerNonce this.myNonce this.otherNonce

/-- An active CHILD_SA rekeying and the `child_create` task of the passive one it
collided with. -/
structure ChildRekey where
  childCreate : ChildCreate
  collision : Option ChildCreate

def ChildRekey.lostCollision (this : ChildRekey) : Bool :=
  match this.collision with
  | none => false
  | some other => nonceBelow this.childCreate.getLowerNonce other.getLowerNonce

/-- An active IKE_SA rekeying and the `ike_init` task of the passive one it collided with. -/
structure IkeRekey where
  ikeInit : IkeInit
  collision : Option IkeInit

def IkeRekey.collisionLost (this : IkeRekey) : Bool :=
  match this.collision with
  | none => false
  | some other => nonceBelow this.ikeInit.getLowerNonce other.getLowerNonce

/-! ## The two peers of a collision -/

/-- One CREATE_CHILD_SA exchange by its initiator's and its responder's nonce. -/
structure Exchange where
  nonceI : List UInt8
  nonceR : List UInt8

/-- The `child_create` task of an exchange at its initiator and at its responder. -/
def Exchange.initiatorCreate (exchange : Exchange) : ChildCreate := ⟨exchange.nonceI, exchange.nonceR⟩

def Exchange.responderCreate (exchange : Exchange) : ChildCreate := ⟨exchange.nonceR, exchange.nonceI⟩

def Exchange.initiatorInit (exchange : Exchange) : IkeInit := ⟨exchange.nonceI, exchange.nonceR⟩

def Exchange.responderInit (exchange : Exchange) : IkeInit := ⟨exchange.nonceR, exchange.nonceI⟩

/-- A peer's active rekeying is the exchange it initiated; the exchange the other peer
initiated is its passive one. -/
def activeChildRekey (mine theirs : Exchange) : ChildRekey :=
  ⟨mine.initiatorCreate, some theirs.responderCreate⟩

def activeIkeRekey (mine theirs : Exchange) : IkeRekey :=
  ⟨mine.initiatorInit, some theirs.responderInit⟩

/-! ## When the decision is shared -/

/-- Two nonces `memcmp` tells apart over their common length: neither is a prefix of
the other. -/
def Distinguishable (first second : List UInt8) : Prop :=
  memcmp first second (min first.length second.length) ≠ .eq

instance (first second : List UInt8) : Decidable (Distinguishable first second) :=
  inferInstanceAs (Decidable (memcmp first second (min first.length second.length) ≠ .eq))

theorem nonceBelow_swap (first second : List UInt8) :
    nonceBelow second first = (memcmp first second (min first.length second.length) == .gt) := by
  rw [nonceBelow, memcmp_swap, Nat.min_comm]
  cases memcmp first second (min first.length second.length) <;> rfl

theorem lowerNonce_mem (myNonce otherNonce : List UInt8) :
    lowerNonce myNonce otherNonce = myNonce ∨ lowerNonce myNonce otherNonce = otherNonce := by
  unfold lowerNonce
  split_ifs
  · exact Or.inl rfl
  · exact Or.inr rfl

/-- Initiator and responder pick the same lower nonce of their exchange. -/
theorem lowerNonce_comm {myNonce otherNonce : List UInt8}
    (distinguishable : Distinguishable myNonce otherNonce) :
    lowerNonce myNonce otherNonce = lowerNonce otherNonce myNonce := by
  unfold lowerNonce
  rw [nonceBelow_swap myNonce otherNonce, nonceBelow]
  cases order : memcmp myNonce otherNonce (min myNonce.length otherNonce.length)
  · rfl
  · exact absurd order distinguishable
  · rfl

/-- Of two nonces told apart, exactly one is below the other. -/
theorem nonceBelow_ne_swap {first second : List UInt8} (distinguishable : Distinguishable first second) :
    nonceBelow first second ≠ nonceBelow second first := by
  rw [nonceBelow_swap first second, nonceBelow]
  cases order : memcmp first second (min first.length second.length)
  · decide
  · exact absurd order distinguishable
  · decide

theorem distinguishable_lowerNonce {first second third fourth : List UInt8}
    (pairs : ∀ x ∈ [first, second], ∀ y ∈ [third, fourth], Distinguishable x y) :
    Distinguishable (lowerNonce first second) (lowerNonce third fourth) := by
  rcases lowerNonce_mem first second with lower | lower <;>
    rcases lowerNonce_mem third fourth with upper | upper <;>
    · rw [lower, upper]
      exact pairs _ (by simp) _ (by simp)

/-- The four nonces of a collision, told apart pairwise. -/
structure NoncesApart (mine theirs : Exchange) : Prop where
  withinMine : Distinguishable mine.nonceI mine.nonceR
  withinTheirs : Distinguishable theirs.nonceI theirs.nonceR
  across : ∀ x ∈ [mine.nonceI, mine.nonceR], ∀ y ∈ [theirs.nonceI, theirs.nonceR], Distinguishable x y

section Shared

variable {mine theirs : Exchange}

/-- Both peers compare the same two nonces, the lower one of each exchange, and these
are ordered one way or the other. -/
theorem sharedDecision (apart : NoncesApart mine theirs) :
    lowerNonce mine.nonceR mine.nonceI = lowerNonce mine.nonceI mine.nonceR ∧
      lowerNonce theirs.nonceR theirs.nonceI = lowerNonce theirs.nonceI theirs.nonceR ∧
      nonceBelow (lowerNonce mine.nonceI mine.nonceR) (lowerNonce theirs.nonceI theirs.nonceR) ≠
        nonceBelow (lowerNonce theirs.nonceI theirs.nonceR) (lowerNonce mine.nonceI mine.nonceR) :=
  ⟨(lowerNonce_comm apart.withinMine).symm, (lowerNonce_comm apart.withinTheirs).symm,
    nonceBelow_ne_swap (distinguishable_lowerNonce apart.across)⟩

/-- With no nonce a prefix of another, exactly one peer loses a CHILD_SA rekey collision. -/
theorem lostCollision_ne_of_apart (apart : NoncesApart mine theirs) :
    (activeChildRekey mine theirs).lostCollision ≠ (activeChildRekey theirs mine).lostCollision := by
  obtain ⟨sameMine, sameTheirs, ordered⟩ := sharedDecision apart
  simp only [activeChildRekey, ChildRekey.lostCollision, ChildCreate.getLowerNonce, Exchange.initiatorCreate,
    Exchange.responderCreate, sameMine, sameTheirs]
  exact ordered

/-- The same for an IKE_SA rekey collision. -/
theorem collisionLost_ne_of_apart (apart : NoncesApart mine theirs) :
    (activeIkeRekey mine theirs).collisionLost ≠ (activeIkeRekey theirs mine).collisionLost := by
  obtain ⟨sameMine, sameTheirs, ordered⟩ := sharedDecision apart
  simp only [activeIkeRekey, IkeRekey.collisionLost, IkeInit.getLowerNonce, Exchange.initiatorInit,
    Exchange.responderInit, sameMine, sameTheirs]
  exact ordered

/-- Agreement on a rekey collision, of a CHILD_SA or of an IKE_SA: when no nonce is a prefix
of another, exactly one of the two peers finds that it lost. -/
theorem rekeyCollision_one_loses (apart : NoncesApart mine theirs) :
    (activeChildRekey mine theirs).lostCollision ≠ (activeChildRekey theirs mine).lostCollision ∧
      (activeIkeRekey mine theirs).collisionLost ≠ (activeIkeRekey theirs mine).collisionLost :=
  ⟨lostCollision_ne_of_apart apart, collisionLost_ne_of_apart apart⟩

end Shared

/-- The exchange one peer initiates, with nonces of 16 bytes `01` and `02`. -/
def apartMine : Exchange := ⟨List.replicate 16 1, List.replicate 16 2⟩

/-- The exchange the other peer initiates, with nonces of 16 bytes `03` and `04`. -/
def apartTheirs : Exchange := ⟨List.replicate 16 3, List.replicate 16 4⟩

theorem rekeyCollision_one_loses_apart :
    NoncesApart apartMine apartTheirs ∧
      (activeChildRekey apartMine apartTheirs).lostCollision ≠ (activeChildRekey apartTheirs apartMine).lostCollision ∧
      (activeIkeRekey apartMine apartTheirs).collisionLost ≠ (activeIkeRekey apartTheirs apartMine).collisionLost :=
  have apart : NoncesApart apartMine apartTheirs := ⟨by decide, by decide, by decide⟩
  ⟨apart, rekeyCollision_one_loses apart⟩

/-! ## Nonces that are prefixes of each other -/

def nestedNonce : List UInt8 := List.replicate 16 0x2a

/-- The exchange one peer initiates, with nonces `N` and `N | 01`. -/
def nestedMine : Exchange := ⟨nestedNonce, nestedNonce ++ [1]⟩

/-- The exchange the other peer initiates, with nonces `N | 01 01` and `N | 01 01 01`. -/
def nestedTheirs : Exchange := ⟨nestedNonce ++ [1, 1], nestedNonce ++ [1, 1, 1]⟩

theorem rekeyCollision_both_win :
    [nestedMine.nonceI, nestedMine.nonceR, nestedTheirs.nonceI, nestedTheirs.nonceR].Nodup ∧
      (∀ nonce ∈ [nestedMine.nonceI, nestedMine.nonceR, nestedTheirs.nonceI, nestedTheirs.nonceR],
        16 ≤ nonce.length ∧ nonce.length ≤ 256) ∧
      (activeChildRekey nestedMine nestedTheirs).lostCollision = false ∧
      (activeChildRekey nestedTheirs nestedMine).lostCollision = false ∧
      (activeIkeRekey nestedMine nestedTheirs).collisionLost = false ∧
      (activeIkeRekey nestedTheirs nestedMine).collisionLost = false ∧
      nestedMine.initiatorCreate.getLowerNonce ≠ nestedMine.responderCreate.getLowerNonce := by
  decide

end StrongSwan.Libcharon.Sa.Ikev2.Tasks
