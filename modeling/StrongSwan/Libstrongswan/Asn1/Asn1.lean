import StrongSwan.Foundations.Bytes

/-!
Contract: the two DER length readers of `asn1.c`.

`asn1_length` reads the length of the object at the front of a chunk of the
input and moves the chunk past the tag and the length octets; it answers
`ASN1_INVALID_LENGTH` when the length octets are missing, more than a `size_t`
holds, or announce more content than the chunk has. The chunks it works on are
ranges of one input, so they are slices of it here, and `asn1Length_within`
says that it never leaves the chunk it was given.

`asn1_unwrap` reads a whole object from a chunk and returns its tag, its content
and what follows; it works on the bytes themselves, as `create_rdn_enumerator`
uses it. A failed unwrap leaves its chunk half advanced in the C code; no caller
reads the chunk after a failure, so the model returns nothing then.
-/

namespace StrongSwan.Libstrongswan.Asn1

open StrongSwan.Foundations.Bytes

def asn1Eoc : UInt8 := 0x00
def asn1Integer : UInt8 := 0x02
def asn1OctetString : UInt8 := 0x04
def asn1Oid : UInt8 := 0x06
def asn1Utf8String : UInt8 := 0x0c
def asn1PrintableString : UInt8 := 0x13
def asn1Ia5String : UInt8 := 0x16
def asn1Constructed : UInt8 := 0x20
def asn1Sequence : UInt8 := 0x30
def asn1Set : UInt8 := 0x31
def asn1ContextC0 : UInt8 := 0xa0

def asn1InvalidLength : Nat := 0xffffffff

/-- A `chunk_t` into the parsed input: `len` bytes from offset `ptr`. -/
structure Slice where
  ptr : Nat
  len : Nat
deriving DecidableEq, Repr

/-- `inner` is a sub-range of `outer`. -/
def Slice.Within (inner outer : Slice) : Prop :=
  outer.ptr ≤ inner.ptr ∧ inner.ptr + inner.len ≤ outer.ptr + outer.len

instance (inner outer : Slice) : Decidable (inner.Within outer) :=
  inferInstanceAs (Decidable (_ ∧ _))

@[simp] theorem Slice.within_refl (chunk : Slice) : chunk.Within chunk := by
  simp [Slice.Within]

theorem Slice.Within.trans {inner middle outer : Slice} (innerWithin : inner.Within middle)
    (middleWithin : middle.Within outer) : inner.Within outer := by
  obtain ⟨_, _⟩ := innerWithin
  obtain ⟨_, _⟩ := middleWithin
  constructor <;> omega

/-- `asn1_length`: the length of the object at the front of `blob`, and `blob`
moved past the tag and the length octets. -/
def asn1Length (input : List UInt8) (blob : Slice) : Nat × Slice :=
  if blob.len < 2 then (asn1InvalidLength, blob)
  else
    let n := input.getD (blob.ptr + 1) 0
    let blob : Slice := ⟨blob.ptr + 2, blob.len - 2⟩
    if n &&& 0x80 = 0 then
      -- single length octet
      if n.toNat > blob.len then (asn1InvalidLength, blob) else (n.toNat, blob)
    else
      let n := (n &&& 0x7f).toNat
      if n = 0 ∨ n > blob.len then (asn1InvalidLength, blob)
      else if n > 8 then (asn1InvalidLength, blob)
      else
        let len := ofBigEndian ((input.drop blob.ptr).take n)
        let blob : Slice := ⟨blob.ptr + n, blob.len - n⟩
        if len > blob.len then (asn1InvalidLength, blob) else (len, blob)

/-- The chunk `asn1_length` leaves is part of the one it was given, and a valid
length fits in it. -/
theorem asn1Length_within (input : List UInt8) (blob : Slice) :
    (asn1Length input blob).2.Within blob ∧
      ((asn1Length input blob).1 ≠ asn1InvalidLength →
        (asn1Length input blob).1 ≤ (asn1Length input blob).2.len) := by
  dsimp only [asn1Length]
  -- every exit either keeps the chunk or moves it forward by what it skips
  split_ifs <;> simp only [Slice.Within] <;> omega

/-- `asn1_unwrap`: the tag, the content and the bytes after the object, or
nothing where the C code answers `ASN1_INVALID`. -/
def asn1Unwrap : List UInt8 → Option (UInt8 × List UInt8 × List UInt8)
  | type :: len :: blob =>
    if len &&& 0x80 = 0 then
      -- single length octet
      if len.toNat > blob.length then none
      else some (type, blob.take len.toNat, blob.drop len.toNat)
    else
      let octets := (len &&& 0x7f).toNat
      if octets = 0 ∨ octets > blob.length ∨ octets > 8 then none
      else
        let length := ofBigEndian (blob.take octets)
        let blob := blob.drop octets
        if length > blob.length then none
        else some (type, blob.take length, blob.drop length)
  | _ => none

/-! ## What the readers accept -/

/-- The length octets `header` announce `length` content bytes: one octet with the high bit
clear, or `0x80 + k` followed by `k` octets of the length in big-endian order, `1 ≤ k ≤ 8`. -/
def LengthOctets : List UInt8 → Nat → Prop
  | [], _ => False
  | first :: octets, length =>
    if first &&& 0x80 = 0 then octets = [] ∧ first.toNat = length
    else octets.length = (first &&& 0x7f).toNat ∧ 0 < octets.length ∧ octets.length ≤ 8 ∧
      ofBigEndian octets = length

instance instDecidableLengthOctets : (header : List UInt8) → (length : Nat) →
    Decidable (LengthOctets header length)
  | [], _ => isFalse fun announced => announced
  | _ :: _, _ => inferInstanceAs (Decidable (ite _ _ _))

/-- `asn1_unwrap` succeeds exactly on a tag, length octets and as many content bytes as they
announce; the content and the rest are then those bytes and what follows them. -/
theorem asn1Unwrap_eq_some_iff {blob inner rest : List UInt8} {tag : UInt8} :
    asn1Unwrap blob = some (tag, inner, rest) ↔
      ∃ header, LengthOctets header inner.length ∧ blob = tag :: header ++ inner ++ rest := by
  constructor
  · intro unwrapped
    match blob, unwrapped with
    | type :: len :: blob, unwrapped =>
      simp only [asn1Unwrap] at unwrapped
      split_ifs at unwrapped with short tooLong invalid tooLarge <;>
        simp only [Option.some.injEq, Prod.mk.injEq] at unwrapped
      · obtain ⟨rfl, rfl, rfl⟩ := unwrapped
        refine ⟨[len], ?_, by simp⟩
        simp only [LengthOctets, short, if_true, List.length_take, true_and]
        omega
      · obtain ⟨rfl, rfl, rfl⟩ := unwrapped
        refine ⟨len :: blob.take (len &&& 0x7f).toNat, ?_, by simp⟩
        simp only [List.length_drop] at tooLarge
        simp only [LengthOctets, short, if_false, List.length_take, List.length_drop]
        refine ⟨by omega, by omega, by omega, by omega⟩
  · rintro ⟨header, announced, rfl⟩
    match header, announced with
    | first :: octets, announced =>
      simp only [LengthOctets] at announced
      split_ifs at announced with short
      · obtain ⟨rfl, length⟩ := announced
        simp [asn1Unwrap, short, length]
      · obtain ⟨count, positive, atMost, value⟩ := announced
        have notShort : ¬(first &&& 0x80 = 0) := short
        simp only [asn1Unwrap, List.cons_append, List.append_assoc, notShort, if_false]
        have accepted : ¬((first &&& 0x7f).toNat = 0 ∨
            (first &&& 0x7f).toNat > (octets ++ (inner ++ rest)).length ∨ (first &&& 0x7f).toNat > 8) := by
          simp only [List.length_append]
          omega
        rw [if_neg accepted, ← count, List.take_left' rfl, List.drop_left' rfl, value,
          if_neg (by simp), List.take_left' rfl, List.drop_left' rfl]

/-- On the same bytes, at any offset of the input, `asn1_length` reads the announced length and
moves the chunk past the tag and the length octets. -/
theorem asn1Length_of_lengthOctets {before header inner rest : List UInt8} {tag : UInt8}
    (announced : LengthOctets header inner.length) :
    asn1Length (before ++ tag :: header ++ inner ++ rest)
        ⟨before.length, 1 + header.length + inner.length + rest.length⟩ =
      (inner.length, ⟨before.length + 1 + header.length, inner.length + rest.length⟩) := by
  match header, announced with
  | first :: octets, announced =>
    have lengthOctet : (before ++ tag :: first :: octets ++ inner ++ rest).getD (before.length + 1) 0 =
        first := by
      simp [List.getD_eq_getElem?_getD]
    simp only [LengthOctets] at announced
    split_ifs at announced with short
    · obtain ⟨rfl, length⟩ := announced
      simp only [asn1Length, lengthOctet, short, if_true, List.length_cons, List.length_nil]
      rw [if_neg (by omega), if_neg (by omega), length]
      simp only [Prod.mk.injEq, Slice.mk.injEq, true_and]
      omega
    · obtain ⟨count, positive, atMost, value⟩ := announced
      have octetsRead : ((before ++ tag :: first :: octets ++ inner ++ rest).drop (before.length + 2)).take
          (first &&& 0x7f).toNat = octets := by
        rw [← count]
        simp [List.drop_append, List.take_append]
      simp only [asn1Length, lengthOctet, short, if_false, List.length_cons]
      rw [if_neg (by omega), if_neg (by omega), if_neg (by omega), octetsRead, value, if_neg (by omega)]
      simp only [Prod.mk.injEq, Slice.mk.injEq, true_and]
      omega

end StrongSwan.Libstrongswan.Asn1
