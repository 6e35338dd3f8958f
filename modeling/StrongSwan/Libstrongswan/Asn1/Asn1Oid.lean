import StrongSwan.Foundations.Base128
import StrongSwan.Foundations.Bytes
import StrongSwan.Foundations.Libc
import StrongSwan.Libstrongswan.Collections.Enumerator

/-!
Contract: the two OID conversions of `asn1.c`, between the dotted text of an
object identifier and its DER content octets.

`asn1_oid_from_string` reads the tokens between the dots with `strtoul`, into a
32-bit `u_int`; the first two arcs share one octet, every further arc is written
in as many base-128 groups as `bytes_required` counts. A token without digits,
or an arc that would not fit in the 64 bytes of the buffer, ends the
conversion with nothing written.

`asn1_oid_to_string` splits the first octet by 40 and collects the later octets
into 32-bit arcs, printing each when an octet with the high bit clear ends it,
into a buffer of 64 characters that also holds the terminating zero.

Two things in the decoder do not match the encoding: an octet with the high
bit set at the end, carrying no bits, leaves the collected arc at zero and is
accepted as if the encoding were complete, and an arc of more than 32 bits
keeps only its low 32 bits.

Owns: both conversions, with the token enumerator and `strtoul` they use; the
round trip from dotted text whose arcs are in 32 bits and whose text fits the
buffer; and the round trip from the shortest encodings of such arcs.
-/

namespace StrongSwan.Libstrongswan.Asn1

open StrongSwan.Foundations
open StrongSwan.Foundations.Libc
open StrongSwan.Libstrongswan.Collections

/-- `bytes_required`: one group, and one more for each of the shifts 28, 21, 14 and 7 with
something of the arc above it. -/
def bytesRequired (val : Nat) : Nat :=
  [28, 21, 14, 7].foldl (fun required shift => if val >>> shift ≠ 0 then required + 1 else required) 1

/-- The inner loop of `asn1_oid_from_string`: the group of `val` at each shift from
`7 * shifts` down to `7` with the high bit set, then its low seven bits. -/
def arcGroups (val : Nat) : Nat → List UInt8
  | 0 => [UInt8.ofNat (val &&& 0x7f)]
  | shifts + 1 => UInt8.ofNat (0x80 ||| ((val >>> (7 * (shifts + 1))) &&& 0x7f)) :: arcGroups val shifts

/-- The token loop of `asn1_oid_from_string`, with the counter `i`, the bytes written to
`buf` and the first arc. -/
def oidFromTokens : List (List Char) → Nat → List UInt8 → Nat → List UInt8
  | [], _, buf, _ => buf
  | str :: rest, i, buf, first =>
    let val := (strtoul str).1 % 2 ^ 32
    let req := bytesRequired val
    if (strtoul str).2 = 0 ∨ buf.length + req > 64 then []
    else
      match i with
      | 0 => oidFromTokens rest 1 buf val
      | 1 => oidFromTokens rest 2 (buf ++ [UInt8.ofNat (first * 40 + val)]) first
      | i + 2 => oidFromTokens rest (i + 3) (buf ++ arcGroups val (req - 1)) first

def asn1OidFromString (str : List Char) : List UInt8 :=
  oidFromTokens (enumeratorCreateToken str ['.'] []) 0 [] 0

/-- What `snprintf` writes for one arc: a dot and the arc in decimal. -/
def arcText (val : Nat) : List Char := '.' :: Nat.toDigits 10 val

/-- The arc loop of `asn1_oid_to_string`: `val` collects seven bits from every octet, in 32
bits, and an octet with the high bit clear prints it into what is left of the 64
characters, or ends the call with `NULL` where the text and its zero do not fit. -/
def oidToStringLoop : List UInt8 → Nat → List Char → Option (List Char)
  | [], val, buf => if val = 0 then some buf else none
  | octet :: rest, val, buf =>
    let val := ((val <<< 7) + (octet &&& 0x7f).toNat) % 2 ^ 32
    if octet.toNat < 128 then
      if (arcText val).length ≥ 64 - buf.length then none
      else oidToStringLoop rest 0 (buf ++ arcText val)
    else oidToStringLoop rest val buf

def asn1OidToString : List UInt8 → Option (List Char)
  | [] => none
  | first :: rest =>
    let val := first.toNat / 40
    let written := Nat.toDigits 10 val ++ arcText (first.toNat - val * 40)
    if written.length ≥ 64 then none else oidToStringLoop rest 0 written

/-- The decoder accepts an encoding that ends inside an arc, and one whose arc needs more than
32 bits, whose text the encoder then turns into other octets. -/
theorem asn1OidToString_accepts_incomplete_arc :
    (asn1OidToString [0x2a, 0x80] = some "1.2".toList ∧ (0x80 : UInt8).toNat ≥ 128) ∧
      asn1OidToString [0x2a, 0x90, 0x80, 0x80, 0x80, 0x00] = some "1.2.0".toList ∧
      asn1OidFromString "1.2.0".toList = [0x2a, 0x00] := by
  decide

/-! ## Dotted text -/

/-- The dotted text of a list of arcs, each in decimal. -/
def dottedOid (arcs : List Nat) : List Char := List.intercalate ['.'] (arcs.map (Nat.toDigits 10))

theorem dottedOid_cons (arc : Nat) : ∀ rest : List Nat,
    dottedOid (arc :: rest) = Nat.toDigits 10 arc ++ (rest.map arcText).flatten
  | [] => by simp [dottedOid, List.intercalate_singleton]
  | next :: rest => by
    have later := dottedOid_cons next rest
    simp only [dottedOid, List.map_cons] at later ⊢
    rw [List.intercalate_cons_cons, later]
    simp [arcText]

theorem isDigit_of_mem_toDigits {c : Char} {value : Nat} (member : c ∈ Nat.toDigits 10 value) :
    c.isDigit = true :=
  Nat.isDigit_of_mem_toDigits (by decide) (by decide) member

theorem ne_of_isDigit {c other : Char} (digit : c.isDigit = true) (notDigit : other.isDigit = false) :
    c ≠ other := by
  rintro rfl
  rw [digit] at notDigit
  cases notDigit

/-- Decimal digits hold no dot and no quote: the token enumerator hands them out as they are. -/
theorem plainWord_toDigits (value : Nat) : PlainWord ['.'] [] (Nat.toDigits 10 value) := by
  refine ⟨Nat.toDigits_ne_nil, fun c member => ?_, fun c first => ?_, fun _ _ => rfl⟩
  · have notDot := ne_of_isDigit (isDigit_of_mem_toDigits member) (show '.'.isDigit = false by decide)
    simp [notDot]
  · have digit := isDigit_of_mem_toDigits (List.mem_of_mem_head? first)
    exact ⟨ne_of_isDigit digit (by decide), ne_of_isDigit digit (by decide), rfl⟩

theorem enumeratorCreateToken_dottedOid (arcs : List Nat) :
    enumeratorCreateToken (dottedOid arcs) ['.'] [] = arcs.map (Nat.toDigits 10) := by
  unfold enumeratorCreateToken dottedOid
  refine tokens_intercalate (by decide) _ ?_ _ (Nat.lt_succ_self _)
  intro word member
  obtain ⟨arc, -, rfl⟩ := List.mem_map.mp member
  exact plainWord_toDigits arc

theorem strtoul_toDigits {value : Nat} (below : value < 2 ^ 32) :
    strtoul (Nat.toDigits 10 value) = (value, (Nat.toDigits 10 value).length) := by
  rw [strtoul_of_isDecimal (isDecimal_toDigits value) (by rw [decimalValue_toDigits]; unfold ulongMax; omega),
    decimalValue_toDigits]

/-- Its decimal text is never shorter than the shortest base-128 form of an arc. -/
theorem length_encode_le (arc : Nat) : (Base128.encode arc).length ≤ (Nat.toDigits 10 arc).length := by
  have digits := (Nat.length_toDigits_le_iff (show 1 < 10 by decide) Nat.length_toDigits_pos).mp
    (le_refl (Nat.toDigits 10 arc).length)
  have wider : 10 ^ (Nat.toDigits 10 arc).length ≤ 128 ^ (Nat.toDigits 10 arc).length :=
    Nat.pow_le_pow_left (by decide) _
  rw [Base128.encode, Base128.length_groups]
  by_cases zero : arc = 0
  · subst zero
    simp only [Nat.log_zero_right, Nat.zero_add]
    exact Nat.length_toDigits_pos
  · have := Nat.log_lt_of_lt_pow zero (Nat.lt_of_lt_of_le digits wider)
    omega

theorem sum_length_encode_le (arcs : List Nat) :
    (arcs.map fun arc => (Base128.encode arc).length).sum + arcs.length ≤ ((arcs.map arcText).flatten).length := by
  induction arcs with
  | nil => simp
  | cons arc rest inductionHypothesis =>
    have arcShort := length_encode_le arc
    simp only [List.map_cons, List.sum_cons, List.flatten_cons, List.length_append, List.length_cons,
      arcText] at inductionHypothesis ⊢
    omega

/-! ## From the text -/

theorem bytesRequired_eq {val : Nat} (below : val < 2 ^ 32) : bytesRequired val = Nat.log 128 val + 1 := by
  have above : ∀ shift, val >>> shift ≠ 0 ↔ 2 ^ shift ≤ val := fun shift => by
    rw [Nat.shiftRight_eq_div_pow, Ne, Nat.div_eq_zero_iff_lt (by positivity), Nat.not_lt]
  simp only [bytesRequired, List.foldl_cons, List.foldl_nil, above]
  -- the logarithm in each range of the 32-bit arc
  have ranges : val < 128 ∨ (128 ≤ val ∧ val < 128 ^ 2) ∨ (128 ^ 2 ≤ val ∧ val < 128 ^ 3) ∨
      (128 ^ 3 ≤ val ∧ val < 128 ^ 4) ∨ (128 ^ 4 ≤ val ∧ val < 128 ^ 5) := by omega
  rcases ranges with small | ⟨lower, upper⟩ | ⟨lower, upper⟩ | ⟨lower, upper⟩ | ⟨lower, upper⟩
  · rw [Nat.log_of_lt small]
    split_ifs <;> omega
  · rw [Nat.log_eq_of_pow_le_of_lt_pow (show 128 ^ 1 ≤ val by omega) upper]
    split_ifs <;> omega
  · rw [Nat.log_eq_of_pow_le_of_lt_pow lower upper]
    split_ifs <;> omega
  · rw [Nat.log_eq_of_pow_le_of_lt_pow lower upper]
    split_ifs <;> omega
  · rw [Nat.log_eq_of_pow_le_of_lt_pow lower upper]
    split_ifs <;> omega

/-- The groups the encoder writes with shifts and masks are the base-128 digits of the arc. -/
theorem arcGroups_eq (val : Nat) : ∀ shifts, arcGroups val shifts = Base128.groups val shifts
  | 0 => by
    rw [arcGroups, Base128.groups, Nat.and_two_pow_sub_one_eq_mod val 7]
  | shifts + 1 => by
    have digit : (val >>> (7 * (shifts + 1))) &&& 0x7f = val / 128 ^ (shifts + 1) % 128 := by
      rw [Nat.shiftRight_eq_div_pow, Nat.pow_mul, show (0x7f : Nat) = 2 ^ 7 - 1 from rfl,
        Nat.and_two_pow_sub_one_eq_mod]
    have marked : 0x80 ||| val / 128 ^ (shifts + 1) % 128 = val / 128 ^ (shifts + 1) % 128 + 128 := by
      rw [Nat.lor_comm]
      exact Bytes.lor_mul_two_pow_eq_add 1 7 (Nat.mod_lt _ (by decide))
    rw [arcGroups, Base128.groups, arcGroups_eq val shifts, digit, marked]

/-- After the first two arcs, each arc within 32 bits adds its shortest base-128 form, as long
as everything fits the 64 bytes of the buffer. -/
theorem oidFromTokens_arcs (first : Nat) : ∀ (arcs : List Nat) (i : Nat) (buf : List UInt8),
    (∀ arc ∈ arcs, arc < 2 ^ 32) →
    buf.length + (arcs.map fun arc => (Base128.encode arc).length).sum ≤ 64 →
    oidFromTokens (arcs.map (Nat.toDigits 10)) (i + 2) buf first = buf ++ (arcs.map Base128.encode).flatten
  | [], _, buf, _, _ => by simp [oidFromTokens]
  | arc :: rest, i, buf, inU32, fits => by
    have below := inU32 arc List.mem_cons_self
    have read := strtoul_toDigits below
    have required := bytesRequired_eq below
    have written : arcGroups arc (Nat.log 128 arc) = Base128.encode arc := arcGroups_eq arc _
    have encodedLength : (Base128.encode arc).length = Nat.log 128 arc + 1 := Base128.length_groups _ _
    simp only [List.map_cons, List.sum_cons] at fits
    simp only [List.map_cons, oidFromTokens, read, Nat.mod_eq_of_lt below, required]
    rw [if_neg (by have := (Nat.toDigits 10 arc).length_pos_iff.mpr Nat.toDigits_ne_nil; omega)]
    rw [Nat.add_sub_cancel, written, oidFromTokens_arcs first rest (i + 1) _
      (fun other member => inU32 other (List.mem_cons_of_mem arc member)) (by simp; omega)]
    simp

/-- `asn1_oid_from_string` writes the joint octet of the first two arcs and the shortest form
of every further arc, when the arcs are in 32 bits and their octets fit in 64 bytes. -/
theorem asn1OidFromString_dottedOid {first second : Nat} {arcs : List Nat} (firstBelow : first < 2 ^ 32)
    (secondBelow : second < 2 ^ 32) (inU32 : ∀ arc ∈ arcs, arc < 2 ^ 32)
    (fits : 1 + (arcs.map fun arc => (Base128.encode arc).length).sum ≤ 64) :
    asn1OidFromString (dottedOid (first :: second :: arcs)) =
      UInt8.ofNat (first * 40 + second) :: (arcs.map Base128.encode).flatten := by
  have firstRequired := bytesRequired_eq firstBelow
  have secondRequired := bytesRequired_eq secondBelow
  have firstLog : Nat.log 128 first < 5 := Nat.log_lt_of_lt_pow' (by decide) (by omega)
  have secondLog : Nat.log 128 second < 5 := Nat.log_lt_of_lt_pow' (by decide) (by omega)
  unfold asn1OidFromString
  rw [enumeratorCreateToken_dottedOid, List.map_cons, List.map_cons]
  simp only [oidFromTokens, strtoul_toDigits firstBelow, strtoul_toDigits secondBelow,
    Nat.mod_eq_of_lt firstBelow, Nat.mod_eq_of_lt secondBelow, firstRequired, secondRequired]
  rw [if_neg (by have := (Nat.toDigits 10 first).length_pos_iff.mpr Nat.toDigits_ne_nil; simp; omega)]
  rw [if_neg (by have := (Nat.toDigits 10 second).length_pos_iff.mpr Nat.toDigits_ne_nil; simp; omega)]
  rw [oidFromTokens_arcs first arcs 0 _ inU32 (by simpa using fits)]
  rfl

/-! ## From the octets -/

theorem toNat_and_low7 (octet : UInt8) : (octet &&& 0x7f).toNat = octet.toNat % 128 := by
  rw [UInt8.toNat_and, show (0x7f : UInt8).toNat = 2 ^ 7 - 1 from rfl, Nat.and_two_pow_sub_one_eq_mod]

/-- The decoder collects the digits of an arc without losing bits while the arc stays within
32 bits, and prints it at its last octet. -/
theorem oidToStringLoop_groups (n : Nat) (rest : List UInt8) (buf : List Char) :
    ∀ (count acc : Nat), acc * 128 ^ (count + 1) + n % 128 ^ (count + 1) < 2 ^ 32 →
      oidToStringLoop (Base128.groups n count ++ rest) acc buf =
        if (arcText (acc * 128 ^ (count + 1) + n % 128 ^ (count + 1))).length ≥ 64 - buf.length then none
        else oidToStringLoop rest 0 (buf ++ arcText (acc * 128 ^ (count + 1) + n % 128 ^ (count + 1))) := by
  intro count
  induction count with
  | zero =>
    intro acc fits
    have collected : ((acc <<< 7) + (UInt8.ofNat (n % 128) &&& 0x7f).toNat) % 2 ^ 32 = acc * 128 + n % 128 := by
      rw [toNat_and_low7, Base128.toNat_last, Nat.shiftLeft_eq, Nat.mod_mod, Nat.mod_eq_of_lt (by simpa using fits)]
    simp only [Base128.groups, List.cons_append, List.nil_append, oidToStringLoop, collected,
      Base128.toNat_last, Nat.mod_lt n (show 0 < 128 by decide), if_true, Nat.zero_add, Nat.pow_one]
  | succ count inductionHypothesis =>
    intro acc fits
    have digit := Nat.mod_lt (n / 128 ^ (count + 1)) (show 0 < 128 by decide)
    have split : n % 128 ^ (count + 1 + 1) =
        n % 128 ^ (count + 1) + 128 ^ (count + 1) * (n / 128 ^ (count + 1) % 128) := Nat.mod_pow_succ
    have shifted : (acc * 128 + n / 128 ^ (count + 1) % 128) * 128 ^ (count + 1) + n % 128 ^ (count + 1) =
        acc * 128 ^ (count + 1 + 1) + n % 128 ^ (count + 1 + 1) := by
      rw [split, Nat.pow_succ 128 (count + 1)]
      ring
    have partBelow : acc * 128 + n / 128 ^ (count + 1) % 128 < 2 ^ 32 := by
      have atLeast : acc * 128 + n / 128 ^ (count + 1) % 128 ≤
          (acc * 128 + n / 128 ^ (count + 1) % 128) * 128 ^ (count + 1) :=
        Nat.le_mul_of_pos_right _ (by positivity)
      omega
    have collected : ((acc <<< 7) + (UInt8.ofNat (n / 128 ^ (count + 1) % 128 + 128) &&& 0x7f).toNat) % 2 ^ 32 =
        acc * 128 + n / 128 ^ (count + 1) % 128 := by
      rw [toNat_and_low7, Base128.toNat_continued digit, Nat.shiftLeft_eq,
        show (n / 128 ^ (count + 1) % 128 + 128) % 128 = n / 128 ^ (count + 1) % 128 by omega,
        Nat.mod_eq_of_lt (by simpa using partBelow)]
    have continued : ¬(UInt8.ofNat (n / 128 ^ (count + 1) % 128 + 128)).toNat < 128 := by
      rw [Base128.toNat_continued digit]
      omega
    rw [Base128.groups, List.cons_append, oidToStringLoop]
    rw [if_neg continued, collected, inductionHypothesis _ (by rw [shifted]; exact fits), shifted]

/-- Reading the shortest forms of arcs within 32 bits prints them all, when the text and its
terminating zero fit what is left of the buffer. -/
theorem oidToStringLoop_encodings : ∀ (arcs : List Nat) (buf : List Char), (∀ arc ∈ arcs, arc < 2 ^ 32) →
    buf.length ≤ 63 →
    oidToStringLoop ((arcs.map Base128.encode).flatten) 0 buf =
      if buf.length + ((arcs.map arcText).flatten).length ≤ 63 then some (buf ++ (arcs.map arcText).flatten)
      else none
  | [], buf, _, short => by simp [oidToStringLoop, short]
  | arc :: rest, buf, inU32, short => by
    have below := inU32 arc List.mem_cons_self
    have whole : 0 * 128 ^ (Nat.log 128 arc + 1) + arc % 128 ^ (Nat.log 128 arc + 1) = arc := by
      rw [Nat.zero_mul, Nat.zero_add]
      exact Nat.mod_eq_of_lt (Nat.lt_pow_succ_log_self (by decide) arc)
    rw [List.map_cons, List.flatten_cons, Base128.encode, oidToStringLoop_groups arc _ buf _ 0 (by rw [whole]; exact below),
      whole]
    simp only [List.map_cons, List.flatten_cons, List.length_append]
    by_cases overflow : (arcText arc).length ≥ 64 - buf.length
    · rw [if_pos overflow, if_neg (by omega)]
    · rw [if_neg overflow, oidToStringLoop_encodings rest (buf ++ arcText arc)
        (fun other member => inU32 other (List.mem_cons_of_mem arc member)) (by simp only [List.length_append]; omega)]
      simp only [List.length_append, List.append_assoc, Nat.add_assoc]

/-- `asn1_oid_to_string` of a first octet and the shortest forms of arcs within 32 bits is the
dotted text of the first octet split by 40 and of the arcs, when it fits in 63 characters. -/
theorem asn1OidToString_encodings (first : UInt8) {arcs : List Nat} (inU32 : ∀ arc ∈ arcs, arc < 2 ^ 32) :
    asn1OidToString (first :: (arcs.map Base128.encode).flatten) =
      if (dottedOid (first.toNat / 40 :: first.toNat % 40 :: arcs)).length ≤ 63 then
        some (dottedOid (first.toNat / 40 :: first.toNat % 40 :: arcs))
      else none := by
  have remainder : first.toNat - first.toNat / 40 * 40 = first.toNat % 40 := by omega
  have text : dottedOid (first.toNat / 40 :: first.toNat % 40 :: arcs) =
      Nat.toDigits 10 (first.toNat / 40) ++ arcText (first.toNat % 40) ++ (arcs.map arcText).flatten := by
    rw [dottedOid_cons, List.map_cons, List.flatten_cons, List.append_assoc]
  unfold asn1OidToString
  dsimp only
  rw [remainder, text]
  by_cases overflow : (Nat.toDigits 10 (first.toNat / 40) ++ arcText (first.toNat % 40)).length ≥ 64
  · rw [if_pos overflow, if_neg (by simp only [List.length_append] at overflow ⊢; omega)]
  · rw [if_neg overflow, oidToStringLoop_encodings arcs _ inU32 (by omega)]
    simp only [List.length_append]

/-- For every dotted OID whose first arc is at most 2, whose second is at most 39, whose
further arcs are in 32 bits and whose text fits in 63 characters, converting it to octets
and back gives the text again. -/
theorem asn1OidToString_asn1OidFromString {first second : Nat} {arcs : List Nat} (firstArc : first ≤ 2)
    (secondArc : second ≤ 39) (inU32 : ∀ arc ∈ arcs, arc < 2 ^ 32)
    (textFits : (dottedOid (first :: second :: arcs)).length ≤ 63) :
    asn1OidToString (asn1OidFromString (dottedOid (first :: second :: arcs))) =
      some (dottedOid (first :: second :: arcs)) := by
  have arcsText := sum_length_encode_le arcs
  have joint : (UInt8.ofNat (first * 40 + second)).toNat = first * 40 + second := by
    rw [UInt8.toNat_ofNat']
    omega
  have textLength : (dottedOid (first :: second :: arcs)).length =
      (Nat.toDigits 10 first).length + 1 + (Nat.toDigits 10 second).length + ((arcs.map arcText).flatten).length := by
    rw [dottedOid_cons, List.map_cons, List.flatten_cons]
    simp [arcText]
    omega
  have secondDigits := (Nat.toDigits 10 second).length_pos_iff.mpr Nat.toDigits_ne_nil
  rw [asn1OidFromString_dottedOid (by omega) (by omega) inU32 (by omega), asn1OidToString_encodings _ inU32,
    joint, show (first * 40 + second) / 40 = first by omega, show (first * 40 + second) % 40 = second by omega,
    if_pos textFits]

theorem asn1OidToString_asn1OidFromString_sha256WithRsa :
    (1 ≤ 2 ∧ 2 ≤ 39 ∧ (∀ arc ∈ [840, 113549, 1, 1, 11], arc < 2 ^ 32) ∧
      (dottedOid [1, 2, 840, 113549, 1, 1, 11]).length ≤ 63) ∧
      asn1OidToString (asn1OidFromString (dottedOid [1, 2, 840, 113549, 1, 1, 11])) =
        some (dottedOid [1, 2, 840, 113549, 1, 1, 11]) :=
  ⟨by decide, asn1OidToString_asn1OidFromString (by decide) (by decide) (by decide) (by decide)⟩

/-- A text of 64 characters leaves no room for the terminating zero. -/
example : (dottedOid (1 :: 2 :: 11 :: List.replicate 29 1)).length = 64 ∧
    asn1OidToString (asn1OidFromString (dottedOid (1 :: 2 :: 11 :: List.replicate 29 1))) = none := by
  decide

/-- For every first octet below 120 followed by the shortest forms of arcs in 32 bits, the text
`asn1_oid_to_string` returns converts back to the same octets. -/
theorem asn1OidFromString_asn1OidToString {first : UInt8} {arcs : List Nat} (belowJoint : first.toNat < 120)
    (inU32 : ∀ arc ∈ arcs, arc < 2 ^ 32) {text : List Char}
    (printed : asn1OidToString (first :: (arcs.map Base128.encode).flatten) = some text) :
    asn1OidFromString text = first :: (arcs.map Base128.encode).flatten := by
  rw [asn1OidToString_encodings first inU32] at printed
  split_ifs at printed with textFits
  cases printed
  have arcsText := sum_length_encode_le arcs
  have textLength : (dottedOid (first.toNat / 40 :: first.toNat % 40 :: arcs)).length =
      (Nat.toDigits 10 (first.toNat / 40)).length + 1 + (Nat.toDigits 10 (first.toNat % 40)).length +
        ((arcs.map arcText).flatten).length := by
    rw [dottedOid_cons, List.map_cons, List.flatten_cons]
    simp [arcText]
    omega
  have secondDigits := (Nat.toDigits 10 (first.toNat % 40)).length_pos_iff.mpr Nat.toDigits_ne_nil
  rw [asn1OidFromString_dottedOid (by omega) (by omega) inU32 (by omega),
    show first.toNat / 40 * 40 + first.toNat % 40 = first.toNat by omega, UInt8.ofNat_toNat]

theorem asn1OidFromString_asn1OidToString_rsadsi :
    ((0x2a : UInt8).toNat < 120 ∧ (∀ arc ∈ [840, 113549], arc < 2 ^ 32) ∧
      asn1OidToString ((0x2a : UInt8) :: ([840, 113549].map Base128.encode).flatten) = some "1.2.840.113549".toList) ∧
      asn1OidFromString "1.2.840.113549".toList = (0x2a : UInt8) :: ([840, 113549].map Base128.encode).flatten :=
  ⟨⟨by decide, by decide, by decide⟩, asn1OidFromString_asn1OidToString (by decide) (by decide) (by decide)⟩

end StrongSwan.Libstrongswan.Asn1
