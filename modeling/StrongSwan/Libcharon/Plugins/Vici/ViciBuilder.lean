import StrongSwan.Libcharon.Plugins.Vici.ViciMessage

/-!
The message builder of `vici_builder.c`.

Each `add` checks the value's size and the element's type against the section
level and the list flag, counts an error where a check fails, and otherwise
writes the type byte, the name with an 8-bit length and the value with a
16-bit length. `finalize` gives the encoding only without errors and with every
section and list closed. Nothing checks a name: one that is not printable or
is longer than 255 bytes is written all the same, though the enumerator
refuses the first and misreads the length of the second.

Owns: the builder state and its operations, the elements they add, the
builder run lemma, the nesting grammar and its acceptance, and what the
enumerator does with a well-nested sequence cut short: it reports the cut as
complete, since it takes the end of the data for the end of the message at
any depth.

Does not own: the formatting of `add_kv` and `add_li` values (the printed value
is the operation's argument; a failing `vsnprintf` is left out).
-/

namespace StrongSwan.Libcharon.Plugins.Vici

open StrongSwan.Libstrongswan.Bio

/-- `private_vici_builder_t`: the writer, the error count, the section level
(the source's `section`) and whether a list is open. -/
structure ViciBuilder where
  writer : BioWriter
  error : Nat
  sectionLevel : Nat
  list : Bool

def viciBuilderCreate : ViciBuilder := ⟨bioWriterCreate, 0, 0, false⟩

/-- The value an `add` reads: only key/values and list items take one. -/
def addValue (type : ViciType) (value : List UInt8) : List UInt8 :=
  if type = .keyValue ∨ type = .listItem then value else []

/-- The second half of `add`, once the checks passed: the type byte (none for
`VICI_END`), then the name and the value the type has. -/
def ViciBuilder.write (builder : ViciBuilder) (type : ViciType) (name value : List UInt8) : ViciBuilder :=
  let writer := if type ≠ .messageEnd then builder.writer.writeUint8 type.code else builder.writer
  match type with
  | .sectionStart =>
    { builder with writer := writer.writeData8 name, sectionLevel := builder.sectionLevel + 1 }
  | .sectionEnd => { builder with writer := writer, sectionLevel := builder.sectionLevel - 1 }
  | .keyValue => { builder with writer := (writer.writeData8 name).writeData16 value }
  | .listStart => { builder with writer := writer.writeData8 name, list := true }
  | .listItem => { builder with writer := writer.writeData16 value }
  | .listEnd => { builder with writer := writer, list := false }
  -- the second switch has no case for these
  | .start | .messageEnd => { builder with writer := writer, error := builder.error + 1 }

/-- `add` with the type's arguments (a name for starts and key/values, a value
for key/values and list items): an unknown type, a value over 0xffff bytes or
a type `vici_verify_type` refuses counts an error and writes nothing. -/
def ViciBuilder.add (builder : ViciBuilder) (type : ViciType) (name value : List UInt8) : ViciBuilder :=
  if type = .start ∨ (addValue type value).length > 0xffff ∨
      !viciVerifyType type.code builder.sectionLevel builder.list then
    { builder with error := builder.error + 1 }
  else builder.write type name (addValue type value)

/-- `finalize`: the encoding, unless an error was counted or a section or a list is open. -/
def ViciBuilder.finalize (builder : ViciBuilder) : Option (List UInt8) :=
  if builder.error ≠ 0 ∨ builder.sectionLevel ≠ 0 ∨ builder.list then none else some builder.writer.buf

/-- The builder's public operations. -/
inductive BuilderOp where
  | add (type : ViciType) (name value : List UInt8)
  | addKv (key value : List UInt8)
  | addLi (value : List UInt8)
  | beginSection (name : List UInt8)
  | endSection
  | beginList (name : List UInt8)
  | endList
deriving DecidableEq, Repr

/-- Every operation is an `add` of one type with its arguments. -/
def BuilderOp.arguments : BuilderOp → ViciType × List UInt8 × List UInt8
  | .add type name value => (type, name, value)
  | .addKv key value => (.keyValue, key, value)
  | .addLi value => (.listItem, [], value)
  | .beginSection name => (.sectionStart, name, [])
  | .endSection => (.sectionEnd, [], [])
  | .beginList name => (.listStart, name, [])
  | .endList => (.listEnd, [], [])

def BuilderOp.apply (builder : ViciBuilder) (op : BuilderOp) : ViciBuilder :=
  builder.add op.arguments.1 op.arguments.2.1 op.arguments.2.2

def ViciBuilder.run (builder : ViciBuilder) (ops : List BuilderOp) : ViciBuilder :=
  ops.foldl BuilderOp.apply builder

/-- The element an `add` of a type with these arguments stands for. -/
def elementOf (type : ViciType) (name value : List UInt8) : Option Element :=
  match type with
  | .start => none
  | .sectionStart => some (.sectionStart name)
  | .sectionEnd => some .sectionEnd
  | .keyValue => some (.keyValue name value)
  | .listStart => some (.listStart name)
  | .listItem => some (.listItem value)
  | .listEnd => some .listEnd
  | .messageEnd => some .messageEnd

def BuilderOp.element (op : BuilderOp) : Option Element :=
  elementOf op.arguments.1 op.arguments.2.1 op.arguments.2.2

/-- The elements the operations add, in order. -/
def addedElements (ops : List BuilderOp) : List Element := ops.filterMap BuilderOp.element

/-- The call that adds an element. -/
def Element.toOp : Element → BuilderOp
  | .sectionStart name => .beginSection name
  | .sectionEnd => .endSection
  | .keyValue name value => .addKv name value
  | .listStart name => .beginList name
  | .listItem value => .addLi value
  | .listEnd => .endList
  | .messageEnd => .add .messageEnd [] []

theorem element_toOp (element : Element) : element.toOp.element = some element := by
  cases element <;> rfl

/-- An `add` never takes an error back. -/
theorem error_le_add (builder : ViciBuilder) (type : ViciType) (name value : List UInt8) :
    builder.error ≤ (builder.add type name value).error := by
  unfold ViciBuilder.add
  split
  · simp
  · cases type <;> simp [ViciBuilder.write]

/-- The writes of an element other than the end: its bytes, and the level and
the flag it leaves. -/
theorem write_of_elementOf {builder : ViciBuilder} {type : ViciType} {name value : List UInt8}
    {element : Element} (stands : elementOf type name (addValue type value) = some element)
    (notEnd : element ≠ .messageEnd) :
    (builder.write type name (addValue type value)).error = builder.error ∧
      (builder.write type name (addValue type value)).writer.buf = builder.writer.buf ++ element.bytes ∧
      (builder.write type name (addValue type value)).sectionLevel = element.nextLevel builder.sectionLevel ∧
      (builder.write type name (addValue type value)).list = element.nextList builder.list := by
  cases type <;> simp only [elementOf, Option.some.injEq, reduceCtorEq] at stands <;> subst stands
  case messageEnd => exact absurd rfl notEnd
  all_goals
    simp [ViciBuilder.write, Element.bytes, Element.items, Item.bytes, Element.nextLevel,
      Element.nextList, BioWriter.writeUint8, BioWriter.writeUint16, BioWriter.writeData8,
      BioWriter.writeData16, BioWriter.writeData, addValue]

/-- The element of an `add` has the add's type and the value the add reads. -/
theorem elementOf_spec {type : ViciType} {name value : List UInt8} {element : Element}
    (stands : elementOf type name value = some element) :
    element.type = type ∧ element.value = addValue type value ∧
      elementOf type name (addValue type value) = some element := by
  cases type <;> simp only [elementOf, Option.some.injEq, reduceCtorEq] at stands <;> subst stands <;>
    simp [Element.type, Element.value, addValue, elementOf]

/-- What an `add` that counts no error did: it stands for an element other than
the end, of a value that fits, accepted by `vici_verify_type`, whose bytes it
wrote, and it moved the level and the flag as the element does. -/
theorem add_of_no_error {builder : ViciBuilder} {type : ViciType} {name value : List UInt8}
    (noError : (builder.add type name value).error = builder.error) :
    ∃ element, elementOf type name value = some element ∧ element ≠ .messageEnd ∧
      element.value.length < 2 ^ 16 ∧
      viciVerifyType element.type.code builder.sectionLevel builder.list = true ∧
      (builder.add type name value).writer.buf = builder.writer.buf ++ element.bytes ∧
      (builder.add type name value).sectionLevel = element.nextLevel builder.sectionLevel ∧
      (builder.add type name value).list = element.nextList builder.list := by
  unfold ViciBuilder.add at noError ⊢
  split at noError
  · simp at noError
  · rename_i checksPassed
    rw [if_neg checksPassed]
    simp only [not_or, Bool.not_eq_true', not_lt, Bool.not_eq_false] at checksPassed
    obtain ⟨notStart, valueFits, verified⟩ := checksPassed
    -- the end passes the checks but has no case in the second switch
    have notEnd : type ≠ .messageEnd := by
      rintro rfl
      simp [ViciBuilder.write] at noError
    obtain ⟨element, stands⟩ : ∃ element, elementOf type name value = some element := by
      cases type <;> simp_all [elementOf]
    have elementNotEnd : element ≠ .messageEnd := by
      cases type <;> simp only [elementOf, Option.some.injEq, reduceCtorEq, ne_eq, not_true_eq_false]
        at stands notEnd <;> (subst stands; simp)
    obtain ⟨sameType, sameValue, standsWritten⟩ := elementOf_spec stands
    obtain ⟨-, buffer, level, flag⟩ := write_of_elementOf standsWritten elementNotEnd
    refine ⟨element, stands, elementNotEnd, ?_, ?_, buffer, level, flag⟩
    · rw [sameValue]
      omega
    · rw [sameType]
      simpa using verified

theorem run_cons (builder : ViciBuilder) (op : BuilderOp) (ops : List BuilderOp) :
    builder.run (op :: ops) = (op.apply builder).run ops := rfl

/-- A run never takes an error back. -/
theorem error_le_run (builder : ViciBuilder) (ops : List BuilderOp) :
    builder.error ≤ (builder.run ops).error := by
  induction ops generalizing builder with
  | nil => exact le_rfl
  | cons op ops inductionHypothesis =>
    exact (error_le_add builder _ _ _).trans (inductionHypothesis (op.apply builder))

/-- The builder run lemma: a run that counts no error wrote the bytes of the
elements its operations add, each of them other than the end, with a value
that fits, and accepted by `vici_verify_type` in turn. -/
theorem run_of_no_error (builder : ViciBuilder) (ops : List BuilderOp)
    (noError : (builder.run ops).error = builder.error) :
    (builder.run ops).writer.buf = builder.writer.buf ++ (addedElements ops).flatMap Element.bytes ∧
      verifiesFrom builder.sectionLevel builder.list (addedElements ops) = true ∧
      ∀ element ∈ addedElements ops, element ≠ .messageEnd ∧ element.value.length < 2 ^ 16 := by
  induction ops generalizing builder with
  | nil => simp [ViciBuilder.run, addedElements, verifiesFrom]
  | cons op ops inductionHypothesis =>
    -- the first operation counts no error either, since errors are never taken back
    have firstNoError : (op.apply builder).error = builder.error := by
      have later := error_le_run (op.apply builder) ops
      have first := error_le_add builder op.arguments.1 op.arguments.2.1 op.arguments.2.2
      rw [run_cons] at noError
      rw [BuilderOp.apply] at later noError ⊢
      omega
    obtain ⟨element, stands, notEnd, valueFits, verified, buffer, level, flag⟩ :=
      add_of_no_error firstNoError
    have restNoError : ((op.apply builder).run ops).error = (op.apply builder).error := by
      rw [firstNoError, ← run_cons]
      exact noError
    obtain ⟨restBuffer, restVerified, restElements⟩ := inductionHypothesis (op.apply builder) restNoError
    have added : addedElements (op :: ops) = element :: addedElements ops := by
      simp [addedElements, BuilderOp.element, stands]
    rw [BuilderOp.apply] at restBuffer restVerified
    refine ⟨?_, ?_, ?_⟩
    · rw [run_cons, BuilderOp.apply, restBuffer, buffer, added]
      simp
    · rw [added, verifiesFrom, verified, ← level, ← flag]
      exact restVerified
    · rw [added]
      intro other member
      rcases List.mem_cons.mp member with rfl | later
      · exact ⟨notEnd, valueFits⟩
      · exact restElements other later

/-- Elements of at least one byte each are no more than their bytes. -/
theorem length_le_flatMap_bytes (elements : List Element)
    (noEnd : ∀ element ∈ elements, element ≠ .messageEnd) :
    elements.length ≤ (elements.flatMap Element.bytes).length := by
  induction elements with
  | nil => simp
  | cons element elements inductionHypothesis =>
    have first := length_bytes_pos (noEnd element (by simp))
    have rest := inductionHypothesis fun other member => noEnd other (by simp [member])
    simp only [List.length_cons, List.flatMap_cons, List.length_append]
    omega

/-- What a finalized builder gives enumerates back to the added elements, when
every name is printable and fits its length byte. -/
theorem enumerateMessage_finalize (ops : List BuilderOp)
    (names : ∀ element ∈ addedElements ops,
      chunkPrintable element.name = true ∧ element.name.length < 2 ^ 8)
    {encoding : List UInt8} (finalized : (viciBuilderCreate.run ops).finalize = some encoding) :
    enumerateMessage encoding = some (addedElements ops ++ [.messageEnd]) := by
  unfold ViciBuilder.finalize at finalized
  split at finalized
  · simp at finalized
  · rename_i closed
    simp only [not_or, not_not, Bool.not_eq_true] at closed
    obtain ⟨noError, -, -⟩ := closed
    obtain ⟨buffer, verified, elements⟩ := run_of_no_error viciBuilderCreate ops noError
    simp only [Option.some.injEq] at finalized
    have encoded : encoding = (addedElements ops).flatMap Element.bytes := by
      rw [← finalized, buffer]
      rfl
    have fewer := length_le_flatMap_bytes (addedElements ops) fun element member =>
      (elements element member).1
    rw [enumerateMessage, createEnumerator, bioReaderCreate, encoded]
    apply enumerateFrom_elements _ 0 false verified (fun element member => (elements element member).1)
      (fun element member => (names element member).1)
    · intro element member
      rw [fits_iff]
      exact ⟨(names element member).2, (elements element member).2⟩
    · omega

/-- A section named "c" holding a key/value and a list of one item. -/
def sectionOps : List BuilderOp :=
  [.beginSection [0x63], .addKv [0x6b] [0x76], .beginList [0x6c], .addLi [0x61], .endList, .endSection]

theorem enumerateMessage_finalize_section :
    (∀ element ∈ addedElements sectionOps,
        chunkPrintable element.name = true ∧ element.name.length < 2 ^ 8) ∧
      (viciBuilderCreate.run sectionOps).finalize =
        some [1, 1, 0x63, 3, 1, 0x6b, 0, 1, 0x76, 4, 1, 0x6c, 5, 0, 1, 0x61, 6, 2] ∧
      enumerateMessage [1, 1, 0x63, 3, 1, 0x6b, 0, 1, 0x76, 4, 1, 0x6c, 5, 0, 1, 0x61, 6, 2] =
        some (addedElements sectionOps ++ [.messageEnd]) :=
  ⟨by decide, rfl, enumerateMessage_finalize sectionOps (by decide) rfl⟩

/-! ## Well-nested sequences are accepted -/

/-- The well-nested element sequences: key/values, lists of items and sections
around a well-nested body, one after another. -/
inductive Body : List Element → Prop
  | nil : Body []
  | keyValue (name value : List UInt8) {rest : List Element} :
      Body rest → Body (.keyValue name value :: rest)
  | list (name : List UInt8) (values : List (List UInt8)) {rest : List Element} :
      Body rest → Body (.listStart name :: values.map .listItem ++ .listEnd :: rest)
  | subsection (name : List UInt8) {inner rest : List Element} :
      Body inner → Body rest → Body (.sectionStart name :: inner ++ .sectionEnd :: rest)

theorem toOp_arguments (element : Element) :
    element.toOp.arguments = (element.type, element.name, element.value) := by
  cases element <;> rfl

theorem elementOf_type_name_value (element : Element) :
    elementOf element.type element.name element.value = some element := by
  cases element <;> rfl

theorem addValue_value (element : Element) : addValue element.type element.value = element.value := by
  cases element <;> simp [addValue, Element.type, Element.value]

theorem run_append (builder : ViciBuilder) (first second : List BuilderOp) :
    builder.run (first ++ second) = (builder.run first).run second := List.foldl_append

/-- The add of an element the checks pass counts no error and moves the level
and the flag as the element does. -/
theorem apply_toOp {builder : ViciBuilder} {element : Element} (notEnd : element ≠ .messageEnd)
    (valueFits : element.value.length ≤ 0xffff)
    (verified : viciVerifyType element.type.code builder.sectionLevel builder.list = true) :
    (element.toOp.apply builder).error = builder.error ∧
      (element.toOp.apply builder).sectionLevel = element.nextLevel builder.sectionLevel ∧
      (element.toOp.apply builder).list = element.nextList builder.list := by
  have notStart : element.type ≠ .start := by cases element <;> simp [Element.type]
  have passes : ¬(element.type = .start ∨ (addValue element.type element.value).length > 0xffff ∨
      (!viciVerifyType element.type.code builder.sectionLevel builder.list) = true) := by
    simp [notStart, addValue_value, verified]
    omega
  have stands := elementOf_type_name_value element
  rw [← addValue_value element] at stands
  obtain ⟨error, -, level, flag⟩ := @write_of_elementOf builder _ _ _ _ stands notEnd
  simp only [BuilderOp.apply, toOp_arguments, ViciBuilder.add, if_neg passes]
  exact ⟨error, level, flag⟩

/-- Inside an open list, items are accepted one after another. -/
theorem run_items (values : List (List UInt8)) (valuesFit : ∀ value ∈ values, value.length ≤ 0xffff)
    (builder : ViciBuilder) (openList : builder.list = true) :
    (builder.run ((values.map .listItem).map Element.toOp)).error = builder.error ∧
      (builder.run ((values.map .listItem).map Element.toOp)).sectionLevel = builder.sectionLevel ∧
      (builder.run ((values.map .listItem).map Element.toOp)).list = true := by
  induction values generalizing builder with
  | nil => exact ⟨rfl, rfl, openList⟩
  | cons value values inductionHypothesis =>
    obtain ⟨error, level, flag⟩ := @apply_toOp builder (.listItem value) (by simp)
      (valuesFit value (by simp)) (by simp [viciVerifyType, ViciType.code, Element.type, openList])
    obtain ⟨restError, restLevel, restFlag⟩ := inductionHypothesis
      (fun other member => valuesFit other (by simp [member]))
      ((Element.listItem value).toOp.apply builder) (by simpa [Element.nextList, openList] using flag)
    simp only [List.map_cons, run_cons]
    exact ⟨restError.trans error, restLevel.trans (by simpa [Element.nextLevel] using level), restFlag⟩

/-- The builder accepts a well-nested sequence outside a list: no error, and
the level and the flag it started with. -/
theorem run_body {elements : List Element} (body : Body elements)
    (valuesFit : ∀ element ∈ elements, element.value.length ≤ 0xffff) (builder : ViciBuilder)
    (closedList : builder.list = false) :
    (builder.run (elements.map Element.toOp)).error = builder.error ∧
      (builder.run (elements.map Element.toOp)).sectionLevel = builder.sectionLevel ∧
      (builder.run (elements.map Element.toOp)).list = false := by
  -- induction on the grammar; each opening element is checked where it stands
  induction body generalizing builder with
  | nil => exact ⟨rfl, rfl, closedList⟩
  | keyValue name value body inductionHypothesis =>
    obtain ⟨error, level, flag⟩ := @apply_toOp builder (.keyValue name value) (by simp)
      (valuesFit _ (by simp)) (by simp [viciVerifyType, ViciType.code, Element.type, closedList])
    obtain ⟨restError, restLevel, restFlag⟩ := inductionHypothesis
      (fun other member => valuesFit other (by simp [member]))
      ((Element.keyValue name value).toOp.apply builder) (by simpa [Element.nextList, closedList] using flag)
    simp only [List.map_cons, run_cons]
    exact ⟨restError.trans error, restLevel.trans (by simpa [Element.nextLevel] using level), restFlag⟩
  | list name values body inductionHypothesis =>
    let started := (Element.listStart name).toOp.apply builder
    obtain ⟨startError, startLevel, startFlag⟩ := @apply_toOp builder (.listStart name)
      (by simp) (by simp [Element.value]) (by simp [viciVerifyType, ViciType.code, Element.type, closedList])
    let itemized := started.run ((values.map .listItem).map Element.toOp)
    obtain ⟨itemsError, itemsLevel, itemsFlag⟩ := run_items values
      (fun value member => valuesFit (.listItem value) (by simp [member])) started
      (by simpa [Element.nextList] using startFlag)
    obtain ⟨endError, endLevel, endFlag⟩ := @apply_toOp itemized .listEnd (by simp)
      (by simp [Element.value])
      (by rw [show itemized.list = true from itemsFlag]; simp [viciVerifyType, ViciType.code, Element.type])
    obtain ⟨restError, restLevel, restFlag⟩ := inductionHypothesis
      (fun other member => valuesFit other (by simp [member])) (Element.listEnd.toOp.apply itemized)
      (by simpa [Element.nextList] using endFlag)
    simp only [List.map_cons, List.map_append, run_cons, run_append]
    refine ⟨?_, ?_, restFlag⟩
    · rw [restError, endError, itemsError, startError]
    · rw [restLevel, endLevel, itemsLevel, startLevel]
      rfl
  | @subsection name inner rest innerBody restBody innerHypothesis restHypothesis =>
    let started := (Element.sectionStart name).toOp.apply builder
    obtain ⟨startError, startLevel, startFlag⟩ := @apply_toOp builder (.sectionStart name)
      (by simp) (by simp [Element.value]) (by simp [viciVerifyType, ViciType.code, Element.type, closedList])
    obtain ⟨innerError, innerLevel, innerFlag⟩ := innerHypothesis
      (fun other member => valuesFit other (by simp [member])) started
      (by simpa [Element.nextList, closedList] using startFlag)
    let inside := started.run (inner.map Element.toOp)
    -- the section opened above is still open when its end comes
    obtain ⟨endError, endLevel, endFlag⟩ := @apply_toOp inside .sectionEnd (by simp)
      (by simp [Element.value])
      (by simp [viciVerifyType, ViciType.code, Element.type, inside, innerFlag, innerLevel, started,
        startLevel, Element.nextLevel])
    obtain ⟨restError, restLevel, restFlag⟩ := restHypothesis
      (fun other member => valuesFit other (by simp [member])) (Element.sectionEnd.toOp.apply inside)
      (by simpa [Element.nextList, inside, innerFlag] using endFlag)
    simp only [List.map_cons, List.map_append, run_cons, run_append]
    refine ⟨?_, ?_, restFlag⟩
    · rw [restError, endError, innerError, startError]
    · rw [restLevel, endLevel, innerLevel, startLevel]
      simp [Element.nextLevel]

theorem addedElements_map_toOp (elements : List Element) :
    addedElements (elements.map Element.toOp) = elements := by
  simp [addedElements, List.filterMap_map, element_toOp]

/-- A well-nested sequence with values of at most 0xffff bytes is finalized,
and with printable names of at most 255 bytes it enumerates back to itself. -/
theorem body_round_trips {elements : List Element} (body : Body elements)
    (valuesFit : ∀ element ∈ elements, element.value.length ≤ 0xffff)
    (names : ∀ element ∈ elements, chunkPrintable element.name = true ∧ element.name.length < 2 ^ 8) :
    ∃ encoding, (viciBuilderCreate.run (elements.map Element.toOp)).finalize = some encoding ∧
      enumerateMessage encoding = some (elements ++ [.messageEnd]) := by
  obtain ⟨noError, closedLevel, closedFlag⟩ := run_body body valuesFit viciBuilderCreate rfl
  have finalized : (viciBuilderCreate.run (elements.map Element.toOp)).finalize =
      some (viciBuilderCreate.run (elements.map Element.toOp)).writer.buf := by
    have errorZero : (viciBuilderCreate.run (elements.map Element.toOp)).error = 0 := noError
    have levelZero : (viciBuilderCreate.run (elements.map Element.toOp)).sectionLevel = 0 := closedLevel
    simp [ViciBuilder.finalize, errorZero, levelZero, closedFlag]
  refine ⟨_, finalized, ?_⟩
  have roundTrip := enumerateMessage_finalize (elements.map Element.toOp)
    (by rw [addedElements_map_toOp]; exact names) finalized
  rwa [addedElements_map_toOp] at roundTrip

/-- The elements of `sectionOps`, as the grammar builds them. -/
def sectionElements : List Element :=
  [.sectionStart [0x63], .keyValue [0x6b] [0x76], .listStart [0x6c], .listItem [0x61], .listEnd,
    .sectionEnd]

theorem body_sectionElements : Body sectionElements :=
  .subsection [0x63] (.keyValue [0x6b] [0x76] (.list [0x6c] [[0x61]] .nil)) .nil

theorem body_round_trips_section :
    Body sectionElements ∧ (∀ element ∈ sectionElements, element.value.length ≤ 0xffff) ∧
      (∀ element ∈ sectionElements,
        chunkPrintable element.name = true ∧ element.name.length < 2 ^ 8) ∧
      ∃ encoding, (viciBuilderCreate.run (sectionElements.map Element.toOp)).finalize = some encoding ∧
        enumerateMessage encoding = some (sectionElements ++ [.messageEnd]) :=
  ⟨body_sectionElements, by decide, by decide, body_round_trips body_sectionElements (by decide) (by decide)⟩

/-- A name that is not printable, and one of 256 bytes whose length byte reads 0. -/
def unprintableNameOps : List BuilderOp := [.beginSection [1], .endSection]

def longNameOps : List BuilderOp := [.beginSection (List.replicate 256 0x61), .endSection]

set_option maxRecDepth 8000 in
theorem finalize_accepts_unparsable_names :
    (viciBuilderCreate.run unprintableNameOps).finalize = some [1, 1, 1, 2] ∧
      enumerateMessage [1, 1, 1, 2] = none ∧
      ((viciBuilderCreate.run longNameOps).finalize).isSome = true ∧
      ((viciBuilderCreate.run longNameOps).finalize).bind enumerateMessage = none :=
  ⟨rfl, rfl, rfl, rfl⟩

/-! ## Cuts of well-nested sequences are accepted -/

theorem body_ne_messageEnd {elements : List Element} (body : Body elements) :
    ∀ element ∈ elements, element ≠ .messageEnd := by
  induction body with
  | nil => simp
  | keyValue name value body inductionHypothesis => simpa using inductionHypothesis
  | list name values body inductionHypothesis =>
    intro element member
    simp only [List.mem_cons, List.mem_append, List.mem_map] at member
    rcases member with (rfl | ⟨value, -, rfl⟩) | rfl | later
    · simp
    · simp
    · simp
    · exact inductionHypothesis element later
  | subsection name innerBody restBody innerHypothesis restHypothesis =>
    intro element member
    simp only [List.mem_cons, List.mem_append] at member
    rcases member with (rfl | inside) | rfl | later
    · simp
    · exact innerHypothesis element inside
    · simp
    · exact restHypothesis element later

theorem verifiesFrom_items (values : List (List UInt8)) (sectionLevel : Nat) :
    verifiesFrom sectionLevel true (values.map .listItem) = true ∧
      stateAfter sectionLevel true (values.map .listItem) = (sectionLevel, true) := by
  induction values with
  | nil => exact ⟨rfl, rfl⟩
  | cons value values inductionHypothesis =>
    simpa [verifiesFrom, stateAfter, viciVerifyType, ViciType.code, Element.type, Element.nextLevel,
      Element.nextList] using inductionHypothesis

/-- A well-nested sequence passes `vici_verify_type` element by element outside a
list at any level, and leaves that level with no list open. -/
theorem verifiesFrom_of_body {elements : List Element} (body : Body elements) (sectionLevel : Nat) :
    verifiesFrom sectionLevel false elements = true ∧
      stateAfter sectionLevel false elements = (sectionLevel, false) := by
  -- induction on the grammar, generalizing the level a subsection's body starts at
  induction body generalizing sectionLevel with
  | nil => exact ⟨rfl, rfl⟩
  | keyValue name value body inductionHypothesis =>
    simpa [verifiesFrom, stateAfter, viciVerifyType, ViciType.code, Element.type, Element.nextLevel,
      Element.nextList] using inductionHypothesis sectionLevel
  | list name values body inductionHypothesis =>
    obtain ⟨itemsVerified, itemsState⟩ := verifiesFrom_items values sectionLevel
    obtain ⟨restVerified, restState⟩ := inductionHypothesis sectionLevel
    simp only [verifiesFrom, stateAfter, verifiesFrom_append, stateAfter_append, itemsVerified,
      itemsState, Element.nextLevel, Element.nextList]
    simp [viciVerifyType, ViciType.code, Element.type, restVerified, restState]
  | subsection name innerBody restBody innerHypothesis restHypothesis =>
    obtain ⟨innerVerified, innerState⟩ := innerHypothesis (sectionLevel + 1)
    obtain ⟨restVerified, restState⟩ := restHypothesis sectionLevel
    simp only [verifiesFrom, stateAfter, verifiesFrom_append, stateAfter_append, Element.nextLevel,
      Element.nextList, innerVerified, innerState]
    simp [viciVerifyType, ViciType.code, Element.type, restVerified, restState]

/-- A well-nested sequence cut after any number of elements is enumerated as the
elements before the cut and the end, as long as its names are printable and its
names and values fit their length bytes. -/
theorem enumerateMessage_take {elements : List Element} (body : Body elements)
    (names : ∀ element ∈ elements, chunkPrintable element.name = true ∧ element.name.length < 2 ^ 8)
    (valuesFit : ∀ element ∈ elements, element.value.length < 2 ^ 16) (count : Nat) :
    enumerateMessage ((elements.take count).flatMap Element.bytes) =
      some (elements.take count ++ [.messageEnd]) := by
  have taken : ∀ element ∈ elements.take count, element ∈ elements := fun _ member =>
    List.mem_of_mem_take member
  have noEnd : ∀ element ∈ elements.take count, element ≠ .messageEnd := fun element member =>
    body_ne_messageEnd body element (taken element member)
  -- the cut passes the checks the whole sequence passes up to it
  have verified : verifiesFrom 0 false (elements.take count) = true := by
    have whole := (verifiesFrom_of_body body 0).1
    rw [← List.take_append_drop count elements, verifiesFrom_append, Bool.and_eq_true] at whole
    exact whole.1
  have fewer := length_le_flatMap_bytes (elements.take count) noEnd
  rw [enumerateMessage, createEnumerator, bioReaderCreate]
  apply enumerateFrom_elements _ 0 false verified noEnd fun element member => (names element (taken element member)).1
  · intro element member
    rw [fits_iff]
    exact ⟨(names element (taken element member)).2, valuesFit element (taken element member)⟩
  · omega

theorem enumerateMessage_take_section :
    (∀ element ∈ sectionElements, chunkPrintable element.name = true ∧ element.name.length < 2 ^ 8) ∧
      (∀ element ∈ sectionElements, element.value.length < 2 ^ 16) ∧
      enumerateMessage ((sectionElements.take 3).flatMap Element.bytes) =
        some ([.sectionStart [0x63], .keyValue [0x6b] [0x76], .listStart [0x6c], .messageEnd]) :=
  ⟨by decide, by decide, enumerateMessage_take body_sectionElements (by decide) (by decide) 3⟩

/-- The well-nested section "a" cut before its end, and a list item whose 16-bit
length announces five bytes where one follows, after a key-value whose value the item
then reports. -/
theorem enumerateMessage_reports_truncated :
    Body [.sectionStart [0x61], .sectionEnd] ∧
      enumerateMessage [1, 1, 0x61, 2] = some [.sectionStart [0x61], .sectionEnd, .messageEnd] ∧
      enumerateMessage [1, 1, 0x61] = some [.sectionStart [0x61], .messageEnd] ∧
      ¬Body [.sectionStart [0x61]] ∧
      enumerateMessage [3, 1, 0x6b, 0, 1, 0x76, 4, 1, 0x6c, 5, 0, 5, 6] =
        some [.keyValue [0x6b] [0x76], .listStart [0x6c], .listItem [0x76], .listEnd, .messageEnd] := by
  refine ⟨.subsection [0x61] .nil .nil, rfl, rfl, ?_, rfl⟩
  -- a well-nested sequence closes the sections it opens
  intro body
  have closed := (verifiesFrom_of_body body 0).2
  simp [stateAfter, Element.nextLevel, Element.nextList] at closed

end StrongSwan.Libcharon.Plugins.Vici
