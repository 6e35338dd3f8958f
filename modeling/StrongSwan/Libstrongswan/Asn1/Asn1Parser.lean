import StrongSwan.Libstrongswan.Asn1.Asn1
import StrongSwan.Foundations.WhileLoop

/-!
Contract: the table-driven ASN.1 parser of `asn1_parser.c` and its two callers'
guarantees.

The parser walks an object syntax definition line by line. Each level has a
chunk of the input still to parse (`blobs`), a loop start (`loopAddr`) and a
choice flag. `iterate` takes the next line: an `ASN1_END` line jumps back to its
loop while the loop's content is not empty, or leaves the loop, option or
choice; any other line reads an element from its level's chunk, hands its
content to the level below, and returns the element, its body or nothing.
Callers loop `while (parser->iterate(parser, &objectID, &object))`.

`iterate_stays_within_input`: whatever the table, every step that goes on only
cuts a level's chunk into the part after an element and that element's content
for the level below, and every object a caller sees is a range of the input.

`parseGroups_never_stops`: for the IETF attribute syntax of `x509_ac.c`, whose
loop body is three options, a value matching none of them makes the loop jump
back to its start with nothing consumed, so the caller's loop never ends.

Does not own: `level0` and the `private` flag, which only change debug output,
and `get_level`.
-/

namespace StrongSwan.Libstrongswan.Asn1

open StrongSwan.Foundations

def asn1None : UInt16 := 0x0000
def asn1Def : UInt16 := 0x0001
def asn1Opt : UInt16 := 0x0002
def asn1Loop : UInt16 := 0x0004
def asn1Choice : UInt16 := 0x0008
def asn1Ch : UInt16 := 0x0010
def asn1End : UInt16 := 0x0020
def asn1Obj : UInt16 := 0x0040
def asn1Body : UInt16 := 0x0080
def asn1Raw : UInt16 := 0x0100
def asn1Exit : UInt16 := 0x0200

def asn1MaxLevel : Nat := 10

/-- One line of an object syntax definition; its name is only printed. -/
structure Asn1Object where
  level : Nat
  type : UInt8
  flags : UInt16
deriving DecidableEq, Repr

def Asn1Object.has (obj : Asn1Object) (flag : UInt16) : Bool := obj.flags &&& flag != 0

/-- What the parser finds past the last line; every table ends with `ASN1_EXIT`. -/
def exitObject : Asn1Object := ⟨0, asn1Eoc, asn1Exit⟩

def objectAt (objects : List Asn1Object) (line : Int) : Asn1Object :=
  objects.getD line.toNat exitObject

/-- Where a `do { this->line++; } while (!stop)` loop ends: the first later line
that stops it, or the end of the table. -/
def scanFrom (objects : List Asn1Object) (line : Int) (stop : Asn1Object → Bool) : Int :=
  let start := (line + 1).toNat
  match (objects.drop start).findIdx? stop with
  | some offset => start + offset
  | none => objects.length

def emptyChunk : Slice := ⟨0, 0⟩

structure Asn1Parser where
  line : Int
  success : Bool
  implicit : Bool
  loopAddr : List Int
  blobs : List Slice
  choice : List Bool
deriving DecidableEq, Repr

def asn1ParserCreate (blob : List UInt8) : Asn1Parser where
  line := -1
  success := true
  implicit := false
  loopAddr := List.replicate (asn1MaxLevel + 1) 0
  blobs := ⟨0, blob.length⟩ :: List.replicate (asn1MaxLevel + 1) emptyChunk
  choice := List.replicate (asn1MaxLevel + 2) false

def Asn1Parser.setFlags (parser : Asn1Parser) (implicit : Bool) : Asn1Parser :=
  { parser with implicit }

def Asn1Parser.blob (parser : Asn1Parser) (level : Nat) : Slice :=
  parser.blobs.getD level emptyChunk

/-- The results of one `iterate`: its return value, `*objectID` if it is written
(`none` leaves the caller's variable as it was) and `*object`. -/
structure IterateResult where
  result : Bool
  objectId : Option Int
  object : Slice
deriving DecidableEq, Repr

/-- The `end:` label. -/
def Asn1Parser.finish (parser : Asn1Parser) (object : Slice) : IterateResult × Asn1Parser :=
  (⟨parser.success, some parser.line, object⟩, parser)

def Asn1Parser.fail (parser : Asn1Parser) : IterateResult × Asn1Parser :=
  { parser with success := false }.finish emptyChunk

/-- An `ASN1_END` line that does not jump back: leave the loop, and check or close
a choice. -/
def Asn1Parser.leaveEnd (parser : Asn1Parser) (objects : List Asn1Object) (obj : Asn1Object) :
    IterateResult × Asn1Parser :=
  let parser := { parser with loopAddr := parser.loopAddr.set obj.level 0 }
  if obj.has asn1Choice && parser.choice.getD (obj.level + 1) false then
    -- incorrect choice encoding
    parser.fail
  else if obj.has asn1Ch then
    -- a valid choice: stop right before the end of the choices
    let line := scanFrom objects parser.line
      (fun next => next.has asn1End && next.has asn1Choice && next.level == obj.level - 1) - 1
    { parser with choice := parser.choice.set obj.level false, line }.finish emptyChunk
  else parser.finish emptyChunk

/-- A "SEQUENCE OF" or "SET OF" with items starts a loop at the next line. -/
def Asn1Parser.startLoop (parser : Asn1Parser) (obj : Asn1Object) : Asn1Parser :=
  if obj.has asn1Loop then { parser with loopAddr := parser.loopAddr.set obj.level (parser.line + 1) }
  else parser

/-- A CHOICE starts the scan for exactly one valid choice one level down. -/
def Asn1Parser.openChoice (parser : Asn1Parser) (obj : Asn1Object) : Asn1Parser :=
  if obj.has asn1Choice then { parser with choice := parser.choice.set (obj.level + 1) true }
  else parser

/-- The rest of `iterate` once `asn1_length` has cut the element: `blobOri` is the
level's chunk before, `blob` the part after the element, `blob1` its content. -/
def Asn1Parser.parseContent (parser : Asn1Parser) (objects : List Asn1Object) (input : List UInt8)
    (obj : Asn1Object) (blobOri blob blob1 : Slice) : IterateResult × Asn1Parser :=
  let element : Slice := ⟨blobOri.ptr, blob.ptr - blobOri.ptr⟩
  if obj.has asn1Choice && obj.type == asn1Eoc then
    -- a choice without explicit context encoding: the choices read the element itself
    { parser with choice := parser.choice.set (obj.level + 1) true,
                  blobs := parser.blobs.set (obj.level + 1) blobOri }.finish emptyChunk
  else if obj.has asn1Raw then parser.finish element
  else if input.getD blobOri.ptr 0 != obj.type && !(parser.implicit && parser.line == 0) then
    parser.fail
  else if obj.has asn1Loop && blob1.len == 0 then
    -- an empty "SEQUENCE OF" or "SET OF": straight to the end of the loop
    let line := scanFrom objects parser.line (fun next => next.has asn1End && next.level == obj.level)
    { parser with line }.finish emptyChunk
  else
    let parser := parser.startLoop obj
    if obj.has asn1Choice && blob1.len == 0 then parser.fail
    else
      let parser := parser.openChoice obj
      if obj.has asn1Obj then parser.finish element
      else if obj.has asn1Body then parser.finish blob1
      else parser.finish emptyChunk

/-- The chunks once an element is cut from a level's chunk: the level keeps what
follows it, the level below gets `content`. -/
def Asn1Parser.cutElement (parser : Asn1Parser) (level : Nat) (rest content : Slice) : Asn1Parser :=
  { parser with blobs := (parser.blobs.set level rest).set (level + 1) content }

/-- One line other than `ASN1_END` and `ASN1_EXIT`, or the loop start an
`ASN1_END` line jumped back to. -/
def Asn1Parser.parseObject (parser : Asn1Parser) (objects : List Asn1Object) (input : List UInt8)
    (obj : Asn1Object) : IterateResult × Asn1Parser :=
  let blobOri := parser.blob obj.level
  let missing := blobOri.len == 0 || input.getD blobOri.ptr 0 != obj.type
  if obj.has asn1Def && missing then
    -- a missing default; a constructed one also skips its context-specific tag
    let line := if obj.type &&& asn1Constructed != 0 then parser.line + 1 else parser.line
    { parser with line }.finish emptyChunk
  else if obj.has asn1Opt && missing then
    -- advance to the end of the missing option field
    let line := scanFrom objects parser.line (fun next => next.has asn1End && next.level == obj.level)
    { parser with line }.finish emptyChunk
  else if blobOri.len < 2 then parser.fail
  else
    let (len, blob) := asn1Length input blobOri
    if len == asn1InvalidLength then
      -- the length is stored in the level below before it is checked
      (parser.cutElement obj.level blob ⟨(parser.blob (obj.level + 1)).ptr, len⟩).fail
    else
      let blob1 : Slice := ⟨blob.ptr, len⟩
      let blob : Slice := ⟨blob.ptr + len, blob.len - len⟩
      (parser.cutElement obj.level blob blob1).parseContent objects input obj blobOri blob blob1

def Asn1Parser.iterate (parser : Asn1Parser) (objects : List Asn1Object) (input : List UInt8) :
    IterateResult × Asn1Parser :=
  let parser := { parser with line := parser.line + 1 }
  let obj := objectAt objects parser.line
  -- `ASN1_EXIT` returns before the `end:` label, so `*objectID` is not written
  if obj.has asn1Exit then (⟨false, none, emptyChunk⟩, parser)
  else if obj.has asn1End then
    let loopAddr := parser.loopAddr.getD obj.level 0
    if loopAddr != 0 && (parser.blob (obj.level + 1)).len > 0 then
      -- another iteration
      { parser with line := loopAddr }.parseObject objects input (objectAt objects loopAddr)
    else parser.leaveEnd objects obj
  else parser.parseObject objects input obj

/-- One round of a caller's loop: whether to go on, `(objectID, object)`, and the parser. -/
def Asn1Parser.step (objects : List Asn1Object) (input : List UInt8) (parser : Asn1Parser) :
    Bool × (Option Int × Slice) × Asn1Parser :=
  let (result, parser) := parser.iterate objects input
  (result.result, (result.objectId, result.object), parser)

section ObjectId

/-- A call that reaches the `end:` label: `*objectID` is the line the parser stopped at. -/
def WritesLine (call : IterateResult × Asn1Parser) : Prop :=
  call.1.objectId = some call.2.line

theorem writesLine_finish (parser : Asn1Parser) (object : Slice) :
    WritesLine (parser.finish object) := rfl

theorem writesLine_fail (parser : Asn1Parser) : WritesLine parser.fail := rfl

theorem writesLine_leaveEnd (parser : Asn1Parser) (objects : List Asn1Object) (obj : Asn1Object) :
    WritesLine (parser.leaveEnd objects obj) := by
  dsimp only [Asn1Parser.leaveEnd]
  split_ifs <;> first | exact writesLine_fail _ | exact writesLine_finish _ _

theorem writesLine_parseContent (parser : Asn1Parser) (objects : List Asn1Object)
    (input : List UInt8) (obj : Asn1Object) (blobOri blob blob1 : Slice) :
    WritesLine (parser.parseContent objects input obj blobOri blob blob1) := by
  dsimp only [Asn1Parser.parseContent]
  split_ifs <;> first | exact writesLine_fail _ | exact writesLine_finish _ _

theorem writesLine_parseObject (parser : Asn1Parser) (objects : List Asn1Object)
    (input : List UInt8) (obj : Asn1Object) :
    WritesLine (parser.parseObject objects input obj) := by
  dsimp only [Asn1Parser.parseObject]
  generalize asn1Length input (parser.blob obj.level) = parts
  obtain ⟨len, blob⟩ := parts
  dsimp only
  split_ifs
  -- a missing default or option, too short a chunk or an invalid length end at once
  all_goals first
    | exact writesLine_fail _
    | exact writesLine_finish _ _
    | exact writesLine_parseContent _ objects input obj _ _ _

/-- `iterate` writes `*objectID` on every line but `ASN1_EXIT`, which leaves the
caller's variable as it was. -/
theorem iterate_objectId (parser : Asn1Parser) (objects : List Asn1Object) (input : List UInt8) :
    (parser.iterate objects input).1.objectId =
      if (objectAt objects (parser.line + 1)).has asn1Exit then none
      else some (parser.iterate objects input).2.line := by
  dsimp only [Asn1Parser.iterate]
  split_ifs
  · rfl
  · exact writesLine_parseObject _ objects input _
  · exact writesLine_leaveEnd _ objects _
  · exact writesLine_parseObject _ objects input _

end ObjectId

section Containment

/-- What a step that goes on can do to the chunks: keep them, or cut one level's chunk
into what follows an element and a part of it for the level below. -/
def ChunkStep (old new : List Slice) : Prop :=
  new = old ∨ ∃ level rest content,
    rest.Within (old.getD level emptyChunk) ∧ content.Within (old.getD level emptyChunk) ∧
      new = (old.set level rest).set (level + 1) content

/-- The object of a step is nothing or a part of one of the chunks before it. -/
def ObjectFrom (old : List Slice) (object : Slice) : Prop :=
  object = emptyChunk ∨ ∃ level, object.Within (old.getD level emptyChunk)

@[simp] theorem finish_fst (parser : Asn1Parser) (object : Slice) :
    (parser.finish object).1 = ⟨parser.success, some parser.line, object⟩ := rfl

@[simp] theorem finish_snd (parser : Asn1Parser) (object : Slice) :
    (parser.finish object).2 = parser := rfl

@[simp] theorem fail_result (parser : Asn1Parser) : parser.fail.1.result = false := rfl

theorem leaveEnd_keeps_blobs (parser : Asn1Parser) (objects : List Asn1Object) (obj : Asn1Object) :
    (parser.leaveEnd objects obj).2.blobs = parser.blobs ∧
      (parser.leaveEnd objects obj).1.object = emptyChunk := by
  dsimp only [Asn1Parser.leaveEnd]
  split_ifs <;> simp [Asn1Parser.fail]

@[simp] theorem startLoop_blobs (parser : Asn1Parser) (obj : Asn1Object) :
    (parser.startLoop obj).blobs = parser.blobs := by
  unfold Asn1Parser.startLoop
  split <;> rfl

@[simp] theorem openChoice_blobs (parser : Asn1Parser) (obj : Asn1Object) :
    (parser.openChoice obj).blobs = parser.blobs := by
  unfold Asn1Parser.openChoice
  split <;> rfl

theorem parseContent_blobs (parser : Asn1Parser) (objects : List Asn1Object) (input : List UInt8)
    (obj : Asn1Object) (blobOri blob blob1 : Slice) :
    (parser.parseContent objects input obj blobOri blob blob1).2.blobs =
      if obj.has asn1Choice && obj.type == asn1Eoc then parser.blobs.set (obj.level + 1) blobOri
      else parser.blobs := by
  dsimp only [Asn1Parser.parseContent]
  split_ifs <;> simp [Asn1Parser.fail]

theorem parseContent_object (parser : Asn1Parser) (objects : List Asn1Object) (input : List UInt8)
    (obj : Asn1Object) (blobOri blob blob1 : Slice) :
    (parser.parseContent objects input obj blobOri blob blob1).1.object = emptyChunk ∨
      (parser.parseContent objects input obj blobOri blob blob1).1.object =
        ⟨blobOri.ptr, blob.ptr - blobOri.ptr⟩ ∨
      (parser.parseContent objects input obj blobOri blob blob1).1.object = blob1 := by
  dsimp only [Asn1Parser.parseContent]
  -- nothing, the whole element (`ASN1_RAW`, `ASN1_OBJ`) or its content (`ASN1_BODY`)
  split_ifs
  all_goals first | exact Or.inl rfl | exact Or.inr (Or.inl rfl) | exact Or.inr (Or.inr rfl)

theorem parseContent_cases (parser : Asn1Parser) (objects : List Asn1Object) (input : List UInt8)
    (obj : Asn1Object) (blobOri blob blob1 : Slice) :
    ((parser.parseContent objects input obj blobOri blob blob1).2.blobs = parser.blobs ∨
        (parser.parseContent objects input obj blobOri blob blob1).2.blobs =
          parser.blobs.set (obj.level + 1) blobOri) ∧
      ((parser.parseContent objects input obj blobOri blob blob1).1.object = emptyChunk ∨
        (parser.parseContent objects input obj blobOri blob blob1).1.object =
          ⟨blobOri.ptr, blob.ptr - blobOri.ptr⟩ ∨
        (parser.parseContent objects input obj blobOri blob blob1).1.object = blob1) := by
  refine ⟨?_, parseContent_object parser objects input obj blobOri blob blob1⟩
  rw [parseContent_blobs]
  split
  · exact Or.inr rfl
  · exact Or.inl rfl

/-- An element cut from a level's chunk: what follows it and its content both lie
in the chunk, and so does the element itself. -/
theorem parts_within_of_asn1Length {input : List UInt8} {blobOri blob : Slice} {len : Nat}
    (cut : asn1Length input blobOri = (len, blob)) (valid : len ≠ asn1InvalidLength) :
    (⟨blob.ptr + len, blob.len - len⟩ : Slice).Within blobOri ∧
      (⟨blob.ptr, len⟩ : Slice).Within blobOri ∧
      (⟨blobOri.ptr, blob.ptr + len - blobOri.ptr⟩ : Slice).Within blobOri := by
  obtain ⟨⟨start, stop⟩, fits⟩ := asn1Length_within input blobOri
  rw [cut] at start stop fits
  have fitsLength : len ≤ blob.len := fits valid
  simp only [Slice.Within] at start stop ⊢
  omega

theorem parseObject_goesOn (parser : Asn1Parser) (objects : List Asn1Object) (input : List UInt8)
    (obj : Asn1Object) (goesOn : (parser.parseObject objects input obj).1.result = true) :
    ChunkStep parser.blobs (parser.parseObject objects input obj).2.blobs ∧
      ObjectFrom parser.blobs (parser.parseObject objects input obj).1.object := by
  dsimp only [Asn1Parser.parseObject] at goesOn ⊢
  generalize cut : asn1Length input (parser.blob obj.level) = parts at goesOn ⊢
  obtain ⟨len, blob⟩ := parts
  dsimp only at goesOn ⊢
  split_ifs at goesOn ⊢
  -- a missing default, constructed or not, or option keeps every chunk and returns nothing
  · exact ⟨Or.inl rfl, Or.inl rfl⟩
  · exact ⟨Or.inl rfl, Or.inl rfl⟩
  · exact ⟨Or.inl rfl, Or.inl rfl⟩
  -- a chunk too short and an invalid length make the step fail
  · simp at goesOn
  · simp at goesOn
  · -- the element is cut: the level keeps what follows it, the level below gets its content
    have valid : len ≠ asn1InvalidLength := by simpa using ‹¬(len == asn1InvalidLength) = true›
    obtain ⟨restWithin, contentWithin, elementWithin⟩ := parts_within_of_asn1Length cut valid
    obtain ⟨blobsCases, objectCases⟩ := parseContent_cases
      (parser.cutElement obj.level ⟨blob.ptr + len, blob.len - len⟩ ⟨blob.ptr, len⟩)
      objects input obj (parser.blob obj.level) ⟨blob.ptr + len, blob.len - len⟩ ⟨blob.ptr, len⟩
    constructor
    · rcases blobsCases with same | choiceReset
      · exact Or.inr ⟨obj.level, _, _, restWithin, contentWithin, same⟩
      · -- a choice without context tag hands the level's whole chunk down instead
        refine Or.inr ⟨obj.level, _, parser.blob obj.level, restWithin, Slice.within_refl _, ?_⟩
        rw [choiceReset, Asn1Parser.cutElement, List.set_set]
    · rcases objectCases with empty | element | content
      · exact Or.inl empty
      · exact Or.inr ⟨obj.level, by rw [element]; exact elementWithin⟩
      · exact Or.inr ⟨obj.level, by rw [content]; exact contentWithin⟩

theorem iterate_goesOn (parser : Asn1Parser) (objects : List Asn1Object) (input : List UInt8)
    (goesOn : (parser.iterate objects input).1.result = true) :
    ChunkStep parser.blobs (parser.iterate objects input).2.blobs ∧
      ObjectFrom parser.blobs (parser.iterate objects input).1.object := by
  dsimp only [Asn1Parser.iterate] at goesOn ⊢
  -- `ASN1_EXIT` answers false; the jump back and every other line read an element
  split_ifs at goesOn ⊢
  · exact parseObject_goesOn _ objects input _ goesOn
  · obtain ⟨sameBlobs, empty⟩ := leaveEnd_keeps_blobs { parser with line := parser.line + 1 } objects _
    exact ⟨Or.inl sameBlobs, Or.inl empty⟩
  · exact parseObject_goesOn _ objects input _ goesOn

/-- Every chunk of the parser is a range of the input. -/
def Contained (input : List UInt8) (blobs : List Slice) : Prop :=
  ∀ chunk ∈ blobs, chunk.Within ⟨0, input.length⟩

theorem getD_within {input : List UInt8} {blobs : List Slice} (contained : Contained input blobs)
    (level : Nat) : (blobs.getD level emptyChunk).Within ⟨0, input.length⟩ := by
  rw [List.getD_eq_getElem?_getD]
  cases found : blobs[level]? with
  | none => simp [emptyChunk, Slice.Within]
  | some chunk => exact contained chunk (List.mem_of_getElem? found)

theorem contained_of_chunkStep {input : List UInt8} {old new : List Slice}
    (contained : Contained input old) (step : ChunkStep old new) : Contained input new := by
  rcases step with rfl | ⟨level, rest, content, restWithin, contentWithin, rfl⟩
  · exact contained
  · intro chunk member
    -- a chunk after the cut is an old one, what follows the element, or its content
    rcases List.mem_or_eq_of_mem_set member with member | rfl
    · rcases List.mem_or_eq_of_mem_set member with old | rfl
      · exact contained chunk old
      · exact restWithin.trans (getD_within contained level)
    · exact contentWithin.trans (getD_within contained level)

theorem within_of_objectFrom {input : List UInt8} {blobs : List Slice} {object : Slice}
    (contained : Contained input blobs) (origin : ObjectFrom blobs object) :
    object.Within ⟨0, input.length⟩ := by
  rcases origin with rfl | ⟨level, within⟩
  · simp [emptyChunk, Slice.Within]
  · exact within.trans (getD_within contained level)

theorem contained_asn1ParserCreate (input : List UInt8) :
    Contained input (asn1ParserCreate input).blobs := by
  intro chunk member
  simp only [asn1ParserCreate, List.mem_cons, List.mem_replicate] at member
  rcases member with rfl | ⟨_, rfl⟩
  · exact Slice.within_refl _
  · simp [emptyChunk, Slice.Within]

theorem iterate_stays_within_input (objects : List Asn1Object) (input : List UInt8) :
    (∀ fuel, ∀ entry ∈ whileTrue (Asn1Parser.step objects input) fuel (asn1ParserCreate input),
      entry.2.Within ⟨0, input.length⟩) ∧
    ∀ parser : Asn1Parser, (parser.iterate objects input).1.result = true →
      ChunkStep parser.blobs (parser.iterate objects input).2.blobs ∧
        ObjectFrom parser.blobs (parser.iterate objects input).1.object := by
  refine ⟨fun fuel => ?_, fun parser => iterate_goesOn parser objects input⟩
  -- the invariant of the caller's loop: every chunk is a range of the input
  refine forall_mem_whileTrue _ (fun parser : Asn1Parser => Contained input parser.blobs)
    (fun entry : Option Int × Slice => entry.2.Within ⟨0, input.length⟩) ?_ fuel _
    (contained_asn1ParserCreate input)
  intro parser contained goesOn
  obtain ⟨chunks, object⟩ := iterate_goesOn parser objects input goesOn
  exact ⟨contained_of_chunkStep contained chunks, within_of_objectFrom contained object⟩

end Containment

section IetfAttrSyntax

/-- `ietfAttrSyntaxObjects` of `x509_ac.c`, which `parse_groups` loops over. -/
def ietfAttrSyntaxObjects : List Asn1Object := [
  ⟨0, asn1Sequence, asn1None⟩,               -- ietfAttrSyntax
  ⟨1, asn1ContextC0, asn1Opt ||| asn1Body⟩,  -- policyAuthority
  ⟨1, asn1Eoc, asn1End⟩,                     -- end opt
  ⟨1, asn1Sequence, asn1Loop⟩,               -- values
  ⟨2, asn1OctetString, asn1Opt ||| asn1Body⟩, -- octets
  ⟨2, asn1Eoc, asn1End⟩,                     -- end choice
  ⟨2, asn1Oid, asn1Opt ||| asn1Body⟩,        -- oid
  ⟨2, asn1Eoc, asn1End⟩,                     -- end choice
  ⟨2, asn1Utf8String, asn1Opt ||| asn1Body⟩, -- string
  ⟨2, asn1Eoc, asn1End⟩,                     -- end choice
  ⟨1, asn1Eoc, asn1End⟩,                     -- end loop
  ⟨0, asn1Eoc, asn1Exit⟩]                    -- exit

/-- An ietfAttrSyntax whose one value is an INTEGER, a type none of the options takes. -/
def integerValueSyntax : List UInt8 := [0x30, 0x04, 0x30, 0x02, 0x02, 0x00]

/-- The parser after a number of rounds. -/
def Asn1Parser.rounds (objects : List Asn1Object) (input : List UInt8) (count : Nat)
    (parser : Asn1Parser) : Asn1Parser :=
  (fun parser => (parser.iterate objects input).2)^[count] parser

/-- The seven states `parse_groups` meets on `integerValueSyntax`: four rounds to the
first option, then the three options skipped over and over. -/
def integerValueStates : List Asn1Parser :=
  (List.range 7).map fun count =>
    (asn1ParserCreate integerValueSyntax).rounds ietfAttrSyntaxObjects integerValueSyntax count

theorem parseGroups_never_stops :
    (asn1ParserCreate integerValueSyntax).rounds ietfAttrSyntaxObjects integerValueSyntax 7 =
        (asn1ParserCreate integerValueSyntax).rounds ietfAttrSyntaxObjects integerValueSyntax 4 ∧
      ∀ fuel, (whileTrue (Asn1Parser.step ietfAttrSyntaxObjects integerValueSyntax) fuel
        (asn1ParserCreate integerValueSyntax)).length = fuel := by
  refine ⟨by decide, fun fuel => ?_⟩
  -- the seven states are closed under a round, and every round among them goes on
  refine length_whileTrue_of_closed _ (· ∈ integerValueStates) ?_ ?_ fuel _ (by decide)
  · decide
  · decide

end IetfAttrSyntax

end StrongSwan.Libstrongswan.Asn1
