import StrongSwan.Foundations.Libc

/-!
Contract: the address of a `host_t` and how `host.c` reads one from text.

A host is an address family and the 4 or 16 bytes of its address; the port
and the socket address around it are not modelled. `host_create_from_string`
takes the `%any` forms and the two any-addresses by name, text with a dot as
IPv4 and other text as IPv6, through `inet_pton`. `host_create_from_subnet`
splits `A/P` at the first slash and reads the prefix length with `atoi`.

Does not own: ports, scope ids, the DNS resolution of `host_create_from_dns`,
and printing.
-/

namespace StrongSwan.Libstrongswan.Networking

open StrongSwan.Foundations.Libc

inductive Family where
  | afInet
  | afInet6
deriving DecidableEq, Repr

/-- `IPV4_LEN` and `IPV6_LEN`. -/
def Family.addressLength : Family → Nat
  | .afInet => 4
  | .afInet6 => 16

@[simp] theorem Family.addressLength_afInet : Family.afInet.addressLength = 4 := rfl

@[simp] theorem Family.addressLength_afInet6 : Family.afInet6.addressLength = 16 := rfl

structure Host where
  family : Family
  address : List UInt8
  addressLength : address.length = family.addressLength
deriving DecidableEq

def Host.isAnyaddr (this : Host) : Bool := this.address.all (· == 0)

def hostCreateAny (family : Family) : Host :=
  ⟨family, List.replicate family.addressLength 0, List.length_replicate⟩

/-- `host_create_from_string_and_family (string, AF_UNSPEC, 0)`. -/
def hostCreateFromString (inetPton : InetPton) (string : List Char) : Option Host :=
  if string = "%any".toList then some (hostCreateAny .afInet)
  else if string = "%any4".toList ∨ string = "0.0.0.0".toList then some (hostCreateAny .afInet)
  else if string = "%any6".toList ∨ string = "::".toList then some (hostCreateAny .afInet6)
  else if '.' ∈ string then
    match inetPton.inet string, inetPton.length_inet string with
    | some address, length => some ⟨.afInet, address, length address rfl⟩
    | none, _ => none
  else
    match inetPton.inet6 string, inetPton.length_inet6 string with
    | some address, length => some ⟨.afInet6, address, length address rfl⟩
    | none, _ => none

/-- `host_create_from_subnet`: the host before the first slash and `atoi` of what
follows it, or the full prefix length for a plain address. -/
def hostCreateFromSubnet (inetPton : InetPton) (string : List Char) : Option (Host × Int) :=
  match string.span (· ≠ '/') with
  | (address, _ :: suffix) =>
    -- the address is copied to a buffer of 64 bytes, its terminator included
    if address.length ≥ 64 then none
    else (hostCreateFromString inetPton address).map fun net => (net, atoi suffix)
  | (plain, []) =>
    (hostCreateFromString inetPton plain).map fun net =>
      (net, if net.family = .afInet then 32 else 128)

end StrongSwan.Libstrongswan.Networking
