import Mathlib

/-!
What the C library gives the code it is called from: `atoi`, and `inet_pton` as
an interface.

`atoi` skips leading white space, takes one optional sign and then the longest
run of decimal digits. It reports no error: a string without leading digits
reads as 0, and whatever follows the digits is ignored. The value is an
integer without the overflow of `int`, which a caller's short strings do not
reach.

`inet_pton` is any conversion of IPv4 and IPv6 text to the 4 and 16 bytes of an
address; `glibcInetPton4` is glibc's algorithm for the dotted IPv4 form.

`strtoul` in base 10 reads the same way and also says how much it read; a value
beyond `ULONG_MAX` saturates. `strtol` in base 0 also reads octal and hexadecimal
numerals by their prefix and says whether it saturated.

Owns: `atoi`, `strtoul` and `strtol`, that they read a string of decimal digits as
its value, and the `InetPton` interface.
-/

namespace StrongSwan.Foundations.Libc

def isSpace (c : Char) : Bool :=
  c == ' ' || c == '\t' || c == '\n' || c == '\x0b' || c == '\x0c' || c == '\r'

/-- The value of the leading decimal digits of a string, after `value` read before them. -/
def digitsFrom (value : Nat) : List Char → Nat
  | c :: rest => if c.isDigit then digitsFrom (value * 10 + (c.toNat - '0'.toNat)) rest else value
  | [] => value

def atoi (text : List Char) : Int :=
  match text.dropWhile isSpace with
  | '-' :: rest => -(digitsFrom 0 rest : Int)
  | '+' :: rest => digitsFrom 0 rest
  | rest => digitsFrom 0 rest

/-- A decimal numeral: one or more digits and nothing else. -/
def IsDecimal (text : List Char) : Prop := text ≠ [] ∧ ∀ c ∈ text, c.isDigit = true

instance (text : List Char) : Decidable (IsDecimal text) :=
  inferInstanceAs (Decidable (text ≠ [] ∧ ∀ c ∈ text, c.isDigit = true))

/-- The value of a decimal numeral. -/
def decimalValue (text : List Char) : Nat :=
  text.foldl (fun value c => value * 10 + (c.toNat - '0'.toNat)) 0

theorem not_isSpace_of_isDigit {c : Char} (digit : c.isDigit = true) : isSpace c = false := by
  simp only [Char.isDigit, Bool.and_eq_true, decide_eq_true_eq] at digit
  have value := digit.1
  simp only [isSpace, Bool.or_eq_false_iff, beq_eq_false_iff_ne]
  refine ⟨⟨⟨⟨⟨?_, ?_⟩, ?_⟩, ?_⟩, ?_⟩, ?_⟩ <;> (rintro rfl; simp at value)

/-- `ULONG_MAX` of an LP64 system. -/
def ulongMax : Nat := 2 ^ 64 - 1

/-- `strtoul (text, &end, 10)`: the value, and how many characters it read, zero when no
digit follows the leading white space and sign (the end pointer is then the string itself).
A value beyond `ULONG_MAX` reads as `ULONG_MAX`; after a minus sign the value is negated
modulo `2 ^ 64`. -/
def strtoul (text : List Char) : Nat × Nat :=
  let body := text.dropWhile isSpace
  let signed : Bool × List Char :=
    match body with
    | '-' :: rest => (true, rest)
    | '+' :: rest => (false, rest)
    | rest => (false, rest)
  let digits := signed.2.takeWhile Char.isDigit
  if digits = [] then (0, 0)
  else
    let read := text.length - signed.2.length + digits.length
    let value := decimalValue digits
    if value > ulongMax then (ulongMax, read)
    else (if signed.1 then (2 ^ 64 - value) % 2 ^ 64 else value, read)

/-- `LONG_MIN` and `LONG_MAX` of an LP64 system. -/
def longMin : Int := -2 ^ 63

def longMax : Int := 2 ^ 63 - 1

/-- The value of a digit in `base`, letters standing for ten and more in either case. -/
def digitIn (base : Nat) (c : Char) : Option Nat :=
  let value :=
    if c.isDigit then c.toNat - '0'.toNat
    else if c.isLower then c.toNat - 'a'.toNat + 10
    else if c.isUpper then c.toNat - 'A'.toNat + 10
    else base
  if value < base then some value else none

/-- `strtol (text, &end, 0)`: the value, how many characters it read, and whether it set
`ERANGE`. Base 0 reads `0x` or `0X` before a hexadecimal digit as hexadecimal, any other
leading `0` as octal, and decimal otherwise; without a digit the value is 0 and nothing is
read. A value beyond the range of `long` saturates. -/
def strtol (text : List Char) : Int × Nat × Bool :=
  let body := text.dropWhile isSpace
  let signed : Bool × List Char :=
    match body with
    | '-' :: rest => (true, rest)
    | '+' :: rest => (false, rest)
    | rest => (false, rest)
  let based : Nat × List Char :=
    match signed.2 with
    | '0' :: x :: c :: rest =>
      if (x = 'x' ∨ x = 'X') ∧ (digitIn 16 c).isSome then (16, c :: rest) else (8, signed.2)
    | '0' :: _ => (8, signed.2)
    | rest => (10, rest)
  let digits := based.2.takeWhile fun c => (digitIn based.1 c).isSome
  if digits = [] then (0, 0, false)
  else
    let read := text.length - based.2.length + digits.length
    let magnitude := digits.foldl (fun value c => value * based.1 + (digitIn based.1 c).getD 0) 0
    let value : Int := if signed.1 then -(magnitude : Int) else magnitude
    if value < longMin then (longMin, read, true)
    else if value > longMax then (longMax, read, true)
    else (value, read, false)

/-- `strtoul` reads a decimal numeral within `ULONG_MAX` as its value, and all of it. -/
theorem strtoul_of_isDecimal {text : List Char} (decimal : IsDecimal text)
    (fits : decimalValue text ≤ ulongMax) : strtoul text = (decimalValue text, text.length) := by
  obtain ⟨nonempty, digits⟩ := decimal
  obtain ⟨first, rest, rfl⟩ := List.exists_cons_of_ne_nil nonempty
  have firstDigit := digits first List.mem_cons_self
  have noSpace : (first :: rest).dropWhile isSpace = first :: rest := by
    rw [List.dropWhile_cons, if_neg (by rw [not_isSpace_of_isDigit firstDigit]; decide)]
  have allDigits : (first :: rest).takeWhile Char.isDigit = first :: rest :=
    List.takeWhile_eq_self_iff.mpr digits
  have notSign : first ≠ '-' ∧ first ≠ '+' := by
    constructor <;> (rintro rfl; simp [Char.isDigit] at firstDigit)
  unfold strtoul
  rw [noSpace]
  dsimp only
  split
  next _ signed => exact absurd (List.cons.inj signed).1 notSign.1
  next _ signed => exact absurd (List.cons.inj signed).1 notSign.2
  next => simp only [allDigits, reduceCtorEq, if_false, Nat.sub_self, Nat.zero_add, Bool.false_eq_true,
    if_neg (Nat.not_lt.mpr fits)]

theorem decimalValue_eq_ofDigitChars (text : List Char) : decimalValue text = Nat.ofDigitChars 10 text 0 := by
  unfold decimalValue Nat.ofDigitChars
  congr 1
  funext value c
  rw [Nat.mul_comm]

/-- The decimal form of a number, as `%u` prints it, is a decimal numeral of that value. -/
theorem isDecimal_toDigits (value : Nat) : IsDecimal (Nat.toDigits 10 value) :=
  ⟨Nat.toDigits_ne_nil, fun _ member => Nat.isDigit_of_mem_toDigits (by decide) (by decide) member⟩

@[simp] theorem decimalValue_toDigits (value : Nat) : decimalValue (Nat.toDigits 10 value) = value := by
  rw [decimalValue_eq_ofDigitChars, Nat.ofDigitChars_ten_toDigits]

/-- `inet_pton (AF_INET, ...)` and `inet_pton (AF_INET6, ...)`: the bytes of an address
in network order, or `none` where `inet_pton` does not return 1. -/
structure InetPton where
  inet : List Char → Option (List UInt8)
  inet6 : List Char → Option (List UInt8)
  length_inet : ∀ text bytes, inet text = some bytes → bytes.length = 4
  length_inet6 : ∀ text bytes, inet6 text = some bytes → bytes.length = 16

/-- One character of glibc's `inet_pton4` loop: the octets so far, most recent first, and
whether a digit of the current octet was seen. -/
def inetPton4Step : Option (List Nat × Bool) → Char → Option (List Nat × Bool)
  | none, _ => none
  | some (octets, sawDigit), c =>
    if c.isDigit then
      match octets with
      | current :: before =>
        let next := current * 10 + (c.toNat - '0'.toNat)
        -- no leading zero, and no octet above 255
        if sawDigit ∧ current = 0 then none
        else if next > 255 then none
        else if ¬sawDigit ∧ octets.length > 4 then none
        else some (next :: before, true)
      | [] => none
    else if c = '.' ∧ sawDigit then
      if octets.length = 4 then none else some (0 :: octets, false)
    else none

/-- glibc's `inet_pton4`: four decimal octets separated by dots. -/
def glibcInetPton4 (text : List Char) : Option (List UInt8) :=
  match text.foldl inetPton4Step (some ([0], false)) with
  | some (octets, true) => if octets.length = 4 then some (octets.reverse.map UInt8.ofNat) else none
  | _ => none

theorem length_glibcInetPton4 (text : List Char) (bytes : List UInt8)
    (parsed : glibcInetPton4 text = some bytes) : bytes.length = 4 := by
  unfold glibcInetPton4 at parsed
  split at parsed
  · split_ifs at parsed with four
    cases parsed
    simp [four]
  · cases parsed

/-- An `inet_pton` with glibc's IPv4 conversion and no IPv6 text accepted, enough to run
the model on IPv4 input. -/
def glibcInet4Only : InetPton where
  inet := glibcInetPton4
  inet6 _ := none
  length_inet := length_glibcInetPton4
  length_inet6 _ _ none := by cases none

example : glibcInetPton4 "10.1.2.3".toList = some [10, 1, 2, 3] := by decide

example : glibcInetPton4 "10.01.2.3".toList = none := by decide

end StrongSwan.Foundations.Libc
