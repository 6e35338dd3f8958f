import StrongSwan.Libstrongswan.Utils.Chunk
import StrongSwan.Libstrongswan.Asn1.Asn1

/-!
Contract: the hash and the equality that `identification_create` gives an
identity.

The methods depend on the type. Binary types hash and compare the raw encoding
(`hash_binary`, `equals_binary`). FQDN and RFC822 identities compare it
ignoring case and refuse a NUL (`equals_strcasecmp`) but hash it raw. A DN is
compared RDN by RDN (`compare_dn`), with PrintableString values and IA5String
e-mail values ignoring case, and hashed over the raw OIDs and values of its RDNs
(`hash_dn`). The hash is `chunk_hash_inc` under the random `hash_key`, a
parameter here.

Owns: the types, the two methods of each, the RDN enumerator they use.

Does not own: `matches` and its wildcards, the part enumerators, printing.
-/

namespace StrongSwan.Libstrongswan.Utils

open StrongSwan.Foundations.Bytes StrongSwan.Libstrongswan.Asn1

/-- The codes `id_type_t` names. -/
def namedIdCodes : List UInt32 := [0, 1, 2, 3, 4, 5, 6, 7, 8, 9, 10, 11, 201]

/-- `id_type_t`; a number no constant names, as an ID payload may carry, is `other`. -/
inductive IdType where
  | any
  | ipv4Addr
  | fqdn
  | rfc822Addr
  | ipv4AddrSubnet
  | ipv6Addr
  | ipv6AddrSubnet
  | ipv4AddrRange
  | ipv6AddrRange
  | derAsn1Dn
  | derAsn1Gn
  | keyId
  | derAsn1GnUri
  | other (code : {code : UInt32 // code ∉ namedIdCodes})
deriving DecidableEq, Repr

def IdType.code : IdType → UInt32
  | .any => 0
  | .ipv4Addr => 1
  | .fqdn => 2
  | .rfc822Addr => 3
  | .ipv4AddrSubnet => 4
  | .ipv6Addr => 5
  | .ipv6AddrSubnet => 6
  | .ipv4AddrRange => 7
  | .ipv6AddrRange => 8
  | .derAsn1Dn => 9
  | .derAsn1Gn => 10
  | .keyId => 11
  | .derAsn1GnUri => 201
  | .other code => code.val

/-- `chunk_from_thing(this->type)`: the four bytes of the enum, least significant first. -/
def IdType.bytes (type : IdType) : List UInt8 := (bigEndian 4 type.code.toNat).reverse

structure Identification where
  type : IdType
  encoded : List UInt8
deriving DecidableEq, Repr

def hashBinary (hashKey : List UInt8) (this : Identification) (inc : UInt32) : UInt32 :=
  let hash := chunkHashInc hashKey this.type.bytes inc
  if this.type ≠ .any then chunkHashInc hashKey this.encoded hash else hash

def equalsBinary (this other : Identification) : Bool :=
  if this.type.code = other.type.code then
    if this.type = .any then true else this.encoded == other.encoded
  else false

/-- `tolower` of the C locale. -/
def toLower (c : UInt8) : UInt8 := if 0x41 ≤ c ∧ c ≤ 0x5a then c + 0x20 else c

/-- `strncasecmp(a, b, len) == 0` on two strings of `len` bytes: they agree ignoring
case up to the end or up to a NUL in both. The pointer test of `strncaseeq` only
matters for one buffer compared with itself, which no caller here does. -/
def strncaseeq : List UInt8 → List UInt8 → Bool
  | a :: as, b :: bs => toLower a == toLower b && (a == 0 || strncaseeq as bs)
  | _, _ => true

def equalsStrcasecmp (this other : Identification) : Bool :=
  -- the extra sanity checks refuse an encoding with a terminating NUL in it
  this.type.code == other.type.code && this.encoded.length == other.encoded.length &&
    !this.encoded.contains 0 && !other.encoded.contains 0 && strncaseeq this.encoded other.encoded

/-- The DER encoding of the OID of `OID_EMAIL_ADDRESS`, 1.2.840.113549.1.9.1, as
`asn1_known_oid` recognises it. -/
def oidEmailAddress : List UInt8 := [0x2a, 0x86, 0x48, 0x86, 0xf7, 0x0d, 0x01, 0x09, 0x01]

/-- `rdn_equals` on two values of one length (`compare_dn` checks it first). -/
def rdnEquals (oid : List UInt8) (aType : UInt8) (a : List UInt8) (bType : UInt8)
    (b : List UInt8) : Bool :=
  if aType = bType ∧ (aType = asn1PrintableString ∨ (aType = asn1Ia5String ∧ oid = oidEmailAddress)) then
    strncaseeq a b
  else a == b

/-- One RDN as `rdn_enumerate` yields it. -/
structure Rdn where
  oid : List UInt8
  type : UInt8
  data : List UInt8
  /-- `data` ends where the DN ends, the pointer test of `compare_dn`. -/
  endsDn : Bool
deriving DecidableEq, Repr

/-- `rdn_enumerator_t`, with the bytes after the DN's SEQUENCE that the end test sees. -/
structure RdnEnumerator where
  sets : List UInt8
  seqs : List UInt8
  trailing : List UInt8
deriving DecidableEq, Repr

/-- `create_rdn_enumerator`; where the DN is no SEQUENCE the enumerator is empty. -/
def createRdnEnumerator (dn : List UInt8) : RdnEnumerator :=
  match asn1Unwrap dn with
  | some (tag, sets, trailing) => if tag = asn1Sequence then ⟨sets, [], trailing⟩ else ⟨[], [], []⟩
  | none => ⟨[], [], []⟩

/-- The SET and SEQUENCE chunks `rdn_enumerate` reads the next RDN from: the next SET
once the current one is used up. -/
def RdnEnumerator.current (enumerator : RdnEnumerator) : Option (List UInt8 × List UInt8) :=
  if enumerator.seqs.isEmpty then
    match asn1Unwrap enumerator.sets with
    | some (tag, seqs, sets) => if tag = asn1Set then some (sets, seqs) else none
    | none => none
  else some (enumerator.sets, enumerator.seqs)

def RdnEnumerator.enumerate (enumerator : RdnEnumerator) : Option (Rdn × RdnEnumerator) := do
  let (sets, seqs) ← enumerator.current
  let (seqTag, rdn, seqs) ← asn1Unwrap seqs
  if seqTag ≠ asn1Sequence then none
  let (oidTag, oid, rdn) ← asn1Unwrap rdn
  if oidTag ≠ asn1Oid then none
  let (type, data, rdn) ← asn1Unwrap rdn
  let endsDn := rdn.isEmpty && seqs.isEmpty && sets.isEmpty && enumerator.trailing.isEmpty
  some (⟨oid, type, data, endsDn⟩, ⟨sets, seqs, enumerator.trailing⟩)

def RdnEnumerator.rdnsFrom : Nat → RdnEnumerator → List Rdn
  | 0, _ => []
  | fuel + 1, enumerator =>
    match enumerator.enumerate with
    | some (rdn, enumerator) => rdn :: rdnsFrom fuel enumerator
    | none => []

/-- The RDNs of a DN: every one takes bytes of it, so its length is fuel enough. -/
def rdns (dn : List UInt8) : List Rdn := (createRdnEnumerator dn).rdnsFrom dn.length

/-- The lockstep loop of `compare_dn` without wildcards: `finished` is whether the
last pair compared ended both DNs. -/
def compareRdns : List Rdn → List Rdn → Bool → Bool
  | [], [], finished => finished
  | t :: ts, o :: os, _ =>
    t.oid == o.oid && t.data.length == o.data.length &&
      rdnEquals t.oid t.type t.data o.type o.data && compareRdns ts os (t.endsDn && o.endsDn)
  | _, _, _ => false

/-- `compare_dn` with `wc == NULL`. -/
def compareDn (tDn oDn : List UInt8) : Bool :=
  if tDn.length ≠ oDn.length then false
  else if tDn = oDn then true
  else compareRdns (rdns tDn) (rdns oDn) false

/-- `equals_dn`: the other identity's type is not looked at. -/
def equalsDn (this other : Identification) : Bool := compareDn this.encoded other.encoded

def hashDn (hashKey : List UInt8) (this : Identification) (inc : UInt32) : UInt32 :=
  (rdns this.encoded).foldl
    (fun hash rdn => chunkHashInc hashKey rdn.data (chunkHashInc hashKey rdn.oid hash))
    (chunkHashInc hashKey this.type.bytes inc)

/-- The two methods of an identity that this development models. -/
structure IdentificationMethods where
  hash : List UInt8 → Identification → UInt32 → UInt32
  equals : Identification → Identification → Bool

/-- The methods `identification_create` installs for a type. -/
def identificationCreate : IdType → IdentificationMethods
  | .any => ⟨hashBinary, equalsBinary⟩
  | .fqdn | .rfc822Addr => ⟨hashBinary, equalsStrcasecmp⟩
  | .derAsn1Dn => ⟨hashDn, equalsDn⟩
  | .ipv4Addr | .ipv6Addr | .ipv4AddrSubnet | .ipv6AddrSubnet | .ipv4AddrRange
  | .ipv6AddrRange => ⟨hashBinary, equalsBinary⟩
  | .derAsn1Gn | .keyId | .derAsn1GnUri | .other _ => ⟨hashBinary, equalsBinary⟩

/-- `id->hash(id, inc)` under the process's `hash_key`. -/
def Identification.hash (hashKey : List UInt8) (this : Identification) (inc : UInt32) : UInt32 :=
  (identificationCreate this.type).hash hashKey this inc

/-- `id->equals(id, other)`. -/
def Identification.equals (this other : Identification) : Bool :=
  (identificationCreate this.type).equals this other

/-- The types whose identities get `hash_binary` and `equals_binary`. -/
def IdType.comparesBinary : IdType → Bool
  | .fqdn | .rfc822Addr | .derAsn1Dn => false
  | _ => true

section Binary

end Binary

section CaseInsensitive

end CaseInsensitive

section DistinguishedName

end DistinguishedName

/-- `vpn.strongswan.org` as an FQDN. -/
def vpnFqdn : Identification :=
  ⟨.fqdn, [0x76, 0x70, 0x6e, 0x2e, 0x73, 0x74, 0x72, 0x6f, 0x6e, 0x67, 0x73, 0x77, 0x61, 0x6e,
    0x2e, 0x6f, 0x72, 0x67]⟩

/-- `VPN.strongswan.org` as an FQDN. -/
def vpnFqdnUpper : Identification :=
  ⟨.fqdn, [0x56, 0x50, 0x4e, 0x2e, 0x73, 0x74, 0x72, 0x6f, 0x6e, 0x67, 0x73, 0x77, 0x61, 0x6e,
    0x2e, 0x6f, 0x72, 0x67]⟩

/-- The DN `CN=<value>` with the value's string type, for a value of three bytes. -/
def commonNameDn (type : UInt8) (value : List UInt8) : Identification :=
  ⟨.derAsn1Dn, [0x30, 0x0e, 0x31, 0x0c, 0x30, 0x0a, 0x06, 0x03, 0x55, 0x04, 0x03, type, 0x03] ++ value⟩

theorem equals_case_variants_hash_apart :
    (vpnFqdn.equals vpnFqdnUpper = true ∧
      vpnFqdn.hash staticKey 0 ≠ vpnFqdnUpper.hash staticKey 0) ∧
    ((commonNameDn asn1PrintableString [0x56, 0x50, 0x4e]).equals
        (commonNameDn asn1PrintableString [0x76, 0x70, 0x6e]) = true ∧
      (commonNameDn asn1PrintableString [0x76, 0x70, 0x6e]).equals
        (commonNameDn asn1Utf8String [0x76, 0x70, 0x6e]) = true ∧
      (commonNameDn asn1PrintableString [0x56, 0x50, 0x4e]).equals
        (commonNameDn asn1Utf8String [0x76, 0x70, 0x6e]) = false) := by
  refine ⟨⟨by decide, by decide +kernel⟩, by decide, by decide, by decide⟩

end StrongSwan.Libstrongswan.Utils
