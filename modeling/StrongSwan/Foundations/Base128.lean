import Mathlib

/-!
Base-128 numbers as X.690 8.19 writes the arcs of an object identifier: the
digits from the most significant on, seven bits in each octet, with the high
bit set in every octet but the last.

`groups n count` writes `n` in `count + 1` digits and `encode n` in the fewest,
`Nat.log 128 n + 1`; `decodeFrom` reads octets back.
-/

namespace StrongSwan.Foundations.Base128

/-- `n` in `count + 1` base-128 digits, most significant first, as octets; the high bit is set
in all but the last. -/
def groups (n : Nat) : Nat → List UInt8
  | 0 => [UInt8.ofNat (n % 128)]
  | higher + 1 => UInt8.ofNat (n / 128 ^ (higher + 1) % 128 + 128) :: groups n higher

/-- `n` in the fewest base-128 digits. -/
def encode (n : Nat) : List UInt8 := groups n (Nat.log 128 n)

/-- The value of base-128 digits read after the value `acc`. -/
def decodeFrom (acc : Nat) (octets : List UInt8) : Nat :=
  octets.foldl (fun value octet => value * 128 + octet.toNat % 128) acc

theorem toNat_continued {digit : Nat} (below : digit < 128) : (UInt8.ofNat (digit + 128)).toNat = digit + 128 := by
  rw [UInt8.toNat_ofNat']
  omega

theorem toNat_last (n : Nat) : (UInt8.ofNat (n % 128)).toNat = n % 128 := by
  rw [UInt8.toNat_ofNat']
  omega

@[simp] theorem length_groups (n count : Nat) : (groups n count).length = count + 1 := by
  induction count with
  | zero => rfl
  | succ count inductionHypothesis => simp [groups, inductionHypothesis]

end StrongSwan.Foundations.Base128
