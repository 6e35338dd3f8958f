import StrongSwan.Libstrongswan.Bio.BioReader

/-!
The element types of a vici message and the enumerator of `vici_message.c`
that parses an encoded message element by element.

An element is a type byte followed, by type, by a name with an 8-bit length,
a value with a 16-bit length, both, or nothing. The enumerator checks every
type against the section level and the list flag with `vici_verify_type`,
requires names to be printable, and reports the end of the message when the
data runs out. It writes the value into the caller's chunk, which a loop keeps
from one call to the next; for a list item it does not check the read, so a
short item leaves the chunk as the call before left it.

Owns: `ViciType`, `Element`, `viciVerifyType`, `chunkPrintable`, the parse
enumerator, the bytes of an element, and the enumeration step over them.

Does not own: the lookups by key (`find_value`, `get_str`, ...), `dump` and
the callback parser, which all enumerate the same way.
-/

namespace StrongSwan.Libcharon.Plugins.Vici

open StrongSwan.Libstrongswan.Bio
open StrongSwan.Foundations.Bytes

/-- `vici_type_t`; `VICI_END` is `messageEnd`, as `end` is taken. -/
inductive ViciType where
  | start
  | sectionStart
  | sectionEnd
  | keyValue
  | listStart
  | listItem
  | listEnd
  | messageEnd
deriving DecidableEq, Repr

def ViciType.code : ViciType → UInt8
  | .start => 0
  | .sectionStart => 1
  | .sectionEnd => 2
  | .keyValue => 3
  | .listStart => 4
  | .listItem => 5
  | .listEnd => 6
  | .messageEnd => 7

/-- The type a byte of the encoding names, if any. -/
def ViciType.ofCode (code : UInt8) : Option ViciType :=
  [ViciType.start, .sectionStart, .sectionEnd, .keyValue, .listStart, .listItem, .listEnd,
    .messageEnd].find? (·.code == code)

/-- `vici_verify_type` over the type's byte: inside a list only items and its
end, outside no items and no list end, no section end at the top and no
message end inside a section. -/
def viciVerifyType (type : UInt8) (sectionLevel : Nat) (list : Bool) : Bool :=
  (if list then type == ViciType.listEnd.code || type == ViciType.listItem.code
   else !(type == ViciType.listItem.code || type == ViciType.listEnd.code)) &&
  !(type == ViciType.sectionEnd.code && sectionLevel == 0) &&
  !(type == ViciType.messageEnd.code && sectionLevel != 0)

/-- `chunk_printable` in the C locale: every byte is `isprint`. -/
def chunkPrintable (chunk : List UInt8) : Bool :=
  chunk.all fun byte => 0x20 ≤ byte && byte ≤ 0x7e

/-- A message element with its name and value. -/
inductive Element where
  | sectionStart (name : List UInt8)
  | sectionEnd
  | keyValue (name value : List UInt8)
  | listStart (name : List UInt8)
  | listItem (value : List UInt8)
  | listEnd
  | messageEnd
deriving DecidableEq, Repr

def Element.type : Element → ViciType
  | .sectionStart _ => .sectionStart
  | .sectionEnd => .sectionEnd
  | .keyValue _ _ => .keyValue
  | .listStart _ => .listStart
  | .listItem _ => .listItem
  | .listEnd => .listEnd
  | .messageEnd => .messageEnd

/-- The section level and list flag after an element, as both the builder and
the enumerator keep them. -/
def Element.nextLevel (element : Element) (sectionLevel : Nat) : Nat :=
  match element with
  | .sectionStart _ => sectionLevel + 1
  | .sectionEnd => sectionLevel - 1
  | _ => sectionLevel

def Element.nextList (element : Element) (list : Bool) : Bool :=
  match element with
  | .listStart _ => true
  | .listEnd => false
  | _ => list

/-- The encoding an element is written as, item by item: the type byte, then
the name with its 8-bit length and the value with its 16-bit length. -/
def Element.items : Element → List Item
  | .sectionStart name => [.uint8 ViciType.sectionStart.code, .data8 name]
  | .sectionEnd => [.uint8 ViciType.sectionEnd.code]
  | .keyValue name value => [.uint8 ViciType.keyValue.code, .data8 name, .data16 value]
  | .listStart name => [.uint8 ViciType.listStart.code, .data8 name]
  | .listItem value => [.uint8 ViciType.listItem.code, .data16 value]
  | .listEnd => [.uint8 ViciType.listEnd.code]
  | .messageEnd => []

def Element.bytes (element : Element) : List UInt8 := element.items.flatMap Item.bytes

/-- The name the element carries, empty for those without one. -/
def Element.name : Element → List UInt8
  | .sectionStart name | .keyValue name _ | .listStart name => name
  | .sectionEnd | .listItem _ | .listEnd | .messageEnd => []

/-- The value the element carries, empty for those without one. -/
def Element.value : Element → List UInt8
  | .keyValue _ value | .listItem value => value
  | .sectionStart _ | .sectionEnd | .listStart _ | .listEnd | .messageEnd => []

/-- Every element passes `vici_verify_type` at the section level and list flag
that the elements before it leave. -/
def verifiesFrom : Nat → Bool → List Element → Bool
  | _, _, [] => true
  | sectionLevel, list, element :: elements =>
    viciVerifyType element.type.code sectionLevel list &&
      verifiesFrom (element.nextLevel sectionLevel) (element.nextList list) elements

/-- The section level and list flag that a sequence of elements leaves. -/
def stateAfter (sectionLevel : Nat) (list : Bool) : List Element → Nat × Bool
  | [] => (sectionLevel, list)
  | element :: elements => stateAfter (element.nextLevel sectionLevel) (element.nextList list) elements

/-- The parse enumerator: the reader over the encoding, the section level and
whether a list is open. -/
structure ParseEnumerator where
  reader : BioReader
  sectionLevel : Nat
  list : Bool

/-- `create_enumerator` over an encoding. -/
def createEnumerator (encoding : List UInt8) : ParseEnumerator := ⟨bioReaderCreate encoding, 0, false⟩

/-- A name read by `read_data8` and kept if `vici_stringify` finds it printable;
at most 255 bytes, it always fits the 257-byte name buffer. -/
def readName (reader : BioReader) : Option (List UInt8 × BioReader) :=
  match reader.readData8 with
  | (some data, reader) => if chunkPrintable data then some (data, reader) else none
  | (none, _) => none

/-- `parse_enumerate`: `none` where it returns `FALSE`, and `some none` for an
encoded `VICI_END`, where it returns `TRUE` without setting the type. `value` is
the caller's value chunk, `none` while nothing wrote it; a list item the caller
would read unwritten is `none` too, as the model has no value for it. -/
def ParseEnumerator.enumerate (enumerator : ParseEnumerator) (value : Option (List UInt8)) :
    Option (Option Element × ParseEnumerator) :=
  -- no data left is the end of the message
  match enumerator.reader.readUint8Internal false with
  | (none, _) => some (some .messageEnd, enumerator)
  | (some type, reader) =>
    if !viciVerifyType type enumerator.sectionLevel enumerator.list then none
    else
      match ViciType.ofCode type with
      | some .sectionStart =>
        (readName reader).map fun (name, reader) =>
          (some (.sectionStart name), ⟨reader, enumerator.sectionLevel + 1, enumerator.list⟩)
      | some .sectionEnd => some (some .sectionEnd, ⟨reader, enumerator.sectionLevel - 1, enumerator.list⟩)
      | some .keyValue =>
        (readName reader).bind fun (name, reader) =>
          match reader.readData16 with
          | (some value, reader) =>
            some (some (.keyValue name value), ⟨reader, enumerator.sectionLevel, enumerator.list⟩)
          | (none, _) => none
      | some .listStart =>
        (readName reader).map fun (name, reader) =>
          (some (.listStart name), ⟨reader, enumerator.sectionLevel, true⟩)
      -- the result of the value read is not checked: a short item keeps the caller's value
      | some .listItem =>
        match reader.readData16, value with
        | (some read, reader), _ => some (some (.listItem read), ⟨reader, enumerator.sectionLevel, enumerator.list⟩)
        | (none, reader), some previous =>
          some (some (.listItem previous), ⟨reader, enumerator.sectionLevel, enumerator.list⟩)
        | (none, _), none => none
      | some .listEnd => some (some .listEnd, ⟨reader, enumerator.sectionLevel, false⟩)
      | some .messageEnd => some (none, ⟨reader, enumerator.sectionLevel, enumerator.list⟩)
      | some .start | none => none

/-- The caller's value chunk after an element: `KEY_VALUE` and `LIST_ITEM` write it. -/
def Element.written (element : Element) (value : Option (List UInt8)) : Option (List UInt8) :=
  match element with
  | .keyValue _ written | .listItem written => some written
  | .sectionStart _ | .sectionEnd | .listStart _ | .listEnd | .messageEnd => value

/-- Enumerating up to the end of the message, at most `fuel` steps, into one value chunk;
`none` if a step fails. -/
def ParseEnumerator.enumerateFrom : Nat → ParseEnumerator → Option (List UInt8) → Option (List Element)
  | 0, _, _ => none
  | fuel + 1, enumerator, value =>
    match enumerator.enumerate value with
    | none => none
    | some (some .messageEnd, _) => some [.messageEnd]
    | some (some element, next) => (next.enumerateFrom fuel (element.written value)).map (element :: ·)
    | some (none, next) => next.enumerateFrom fuel value

/-- The elements of an encoding followed to `VICI_END`, by a loop whose value chunk starts
unwritten; every step before the end reads a type byte, so one step per byte and one for
the end suffice. -/
def enumerateMessage (encoding : List UInt8) : Option (List Element) :=
  (createEnumerator encoding).enumerateFrom (encoding.length + 1) none

/-- An element whose name and value fit their length bytes. -/
def Element.fits (element : Element) : Bool := element.items.all Item.fits

@[simp] theorem ofCode_code (type : ViciType) : ViciType.ofCode type.code = some type := by
  cases type <;> rfl

/-- A name written with its 8-bit length is read back when it is printable. -/
theorem readName_append {name : List UInt8} (below : name.length < 2 ^ 8)
    (printable : chunkPrintable name = true) (rest : List UInt8) :
    readName ⟨UInt8.ofNat name.length :: (name ++ rest)⟩ = some (name, ⟨rest⟩) := by
  simp [readName, readData8_append below, printable]

/-- The enumeration step over an element's bytes: an element other than the end,
accepted by `vici_verify_type`, with a printable name and lengths that fit,
comes back with the level and flag it leaves. -/
theorem enumerate_element_append {element : Element} {sectionLevel : Nat} {list : Bool}
    (notEnd : element ≠ .messageEnd)
    (verified : viciVerifyType element.type.code sectionLevel list = true)
    (printable : chunkPrintable element.name = true) (fits : element.fits = true)
    (rest : List UInt8) (value : Option (List UInt8)) :
    (ParseEnumerator.mk ⟨element.bytes ++ rest⟩ sectionLevel list).enumerate value =
      some (some element, ⟨⟨rest⟩, element.nextLevel sectionLevel, element.nextList list⟩) := by
  cases element <;>
    simp only [Element.fits, Element.items, List.all_cons, List.all_nil, Item.fits, Bool.and_true,
      Bool.true_and, decide_eq_true_eq, Bool.and_eq_true] at fits <;>
    simp only [Element.type, Element.name] at verified printable <;>
    simp only [Element.bytes, Element.items, List.flatMap_cons, List.flatMap_nil, Item.bytes,
      List.append_nil, List.cons_append, List.append_assoc]
  case messageEnd => exact absurd rfl notEnd
  case sectionStart name =>
    simp [ParseEnumerator.enumerate, readUint8Internal_cons, verified, readName_append fits printable,
      Element.nextLevel, Element.nextList]
  case sectionEnd =>
    simp [ParseEnumerator.enumerate, readUint8Internal_cons, verified, Element.nextLevel,
      Element.nextList]
  case keyValue name value =>
    simp [ParseEnumerator.enumerate, readUint8Internal_cons, verified,
      readName_append fits.1 printable, readData16_append fits.2, Element.nextLevel, Element.nextList]
  case listStart name =>
    simp [ParseEnumerator.enumerate, readUint8Internal_cons, verified, readName_append fits printable,
      Element.nextLevel, Element.nextList]
  case listItem value =>
    simp [ParseEnumerator.enumerate, readUint8Internal_cons, verified, readData16_append fits,
      Element.nextLevel, Element.nextList]
  case listEnd =>
    simp [ParseEnumerator.enumerate, readUint8Internal_cons, verified, Element.nextLevel,
      Element.nextList]

/-- An element's fit is its name's and its value's. -/
theorem fits_iff (element : Element) :
    element.fits = true ↔ element.name.length < 2 ^ 8 ∧ element.value.length < 2 ^ 16 := by
  cases element <;> simp [Element.fits, Element.items, Item.fits, Element.name, Element.value]

/-- Every element but the end has its type byte. -/
theorem length_bytes_pos {element : Element} (notEnd : element ≠ .messageEnd) :
    0 < element.bytes.length := by
  cases element <;> simp_all [Element.bytes, Element.items, Item.bytes]

/-- At the end of the data the enumerator reports the end of the message. -/
theorem enumerate_nil (sectionLevel : Nat) (list : Bool) (value : Option (List UInt8)) :
    (ParseEnumerator.mk ⟨[]⟩ sectionLevel list).enumerate value =
      some (some .messageEnd, ⟨⟨[]⟩, sectionLevel, list⟩) := rfl

/-- The run lemma: elements that pass `vici_verify_type` in turn, with printable
names and lengths that fit, are enumerated back in order up to the end. -/
theorem enumerateFrom_elements (elements : List Element) (sectionLevel : Nat) (list : Bool)
    (verified : verifiesFrom sectionLevel list elements = true)
    (noEnd : ∀ element ∈ elements, element ≠ .messageEnd)
    (printable : ∀ element ∈ elements, chunkPrintable element.name = true)
    (fits : ∀ element ∈ elements, element.fits = true) (fuel : Nat) (enough : elements.length < fuel)
    (value : Option (List UInt8)) :
    (ParseEnumerator.mk ⟨elements.flatMap Element.bytes⟩ sectionLevel list).enumerateFrom fuel value =
      some (elements ++ [.messageEnd]) := by
  -- induction on the elements; the fuel goes down by one with each
  induction elements generalizing sectionLevel list fuel value with
  | nil =>
    cases fuel with
    | zero => simp at enough
    | succ fuel => simp [ParseEnumerator.enumerateFrom, enumerate_nil]
  | cons element elements inductionHypothesis =>
    cases fuel with
    | zero => simp at enough
    | succ fuel =>
      simp only [verifiesFrom, Bool.and_eq_true] at verified
      have notEnd := noEnd element (by simp)
      have step := enumerate_element_append notEnd verified.1 (printable element (by simp))
        (fits element (by simp)) (elements.flatMap Element.bytes) value
      have rest := inductionHypothesis (element.nextLevel sectionLevel) (element.nextList list)
        verified.2 (fun other member => noEnd other (by simp [member]))
        (fun other member => printable other (by simp [member]))
        (fun other member => fits other (by simp [member])) fuel (by simp at enough; omega)
        (element.written value)
      rw [List.flatMap_cons, ParseEnumerator.enumerateFrom, step]
      -- the element is not the end, so the enumeration goes on after it
      cases element <;> simp_all

/-! ## Verification over appended sequences -/

theorem verifiesFrom_append (sectionLevel : Nat) (list : Bool) (first second : List Element) :
    verifiesFrom sectionLevel list (first ++ second) =
      (verifiesFrom sectionLevel list first &&
        verifiesFrom (stateAfter sectionLevel list first).1 (stateAfter sectionLevel list first).2 second) := by
  induction first generalizing sectionLevel list with
  | nil => simp [verifiesFrom, stateAfter]
  | cons element first inductionHypothesis =>
    simp [verifiesFrom, stateAfter, inductionHypothesis, Bool.and_assoc]

theorem stateAfter_append (sectionLevel : Nat) (list : Bool) (first second : List Element) :
    stateAfter sectionLevel list (first ++ second) =
      stateAfter (stateAfter sectionLevel list first).1 (stateAfter sectionLevel list first).2 second := by
  induction first generalizing sectionLevel list with
  | nil => rfl
  | cons element first inductionHypothesis => exact inductionHypothesis _ _

end StrongSwan.Libcharon.Plugins.Vici
