import StrongSwan.Foundations.Bytes

/-!
The buffered writer of `bio_writer.c`.

A writer is the bytes written so far, `buf.ptr` up to `used`. Fixed-width
integers go out big-endian, `write_dataN` puts an `N`-byte length before the
data, and `wrapN` moves the whole content behind an `N`-byte length of it.
Every length is stored through the C type of its prefix, so a length that
does not fit is cut to its low bytes, as `bigEndian` does.

An item is what one read of the matching reader sequence gives back. Writing
a sequence of operations leaves the concatenated bytes of the items that the
operations leave, with each `wrapN` turning everything before it into one
`dataN` item.

Owns: the writer operations, the items with their bytes, `matchingItems`, and
the theorem that the buffer is the items' bytes while every length fits.

Does not own: the allocated size and the growth step of `increase`, which
decide only when the buffer is reallocated; `skip`, whose bytes are left
uninitialised for the caller.
-/

namespace StrongSwan.Libstrongswan.Bio

open StrongSwan.Foundations.Bytes

/-- The bytes of a `bio_writer_t` up to `used`. -/
structure BioWriter where
  buf : List UInt8
deriving DecidableEq, Repr

/-- `bio_writer_create`: nothing written yet, whatever the initial size. -/
def bioWriterCreate : BioWriter := ⟨[]⟩

def BioWriter.writeUint8 (writer : BioWriter) (value : UInt8) : BioWriter :=
  ⟨writer.buf ++ [value]⟩

def BioWriter.writeUint16 (writer : BioWriter) (value : UInt16) : BioWriter :=
  ⟨writer.buf ++ bigEndian 2 value.toNat⟩

/-- The last three bytes of `htonl(value)`: the low 24 bits, most significant first. -/
def BioWriter.writeUint24 (writer : BioWriter) (value : UInt32) : BioWriter :=
  ⟨writer.buf ++ bigEndian 3 value.toNat⟩

def BioWriter.writeUint32 (writer : BioWriter) (value : UInt32) : BioWriter :=
  ⟨writer.buf ++ bigEndian 4 value.toNat⟩

def BioWriter.writeUint64 (writer : BioWriter) (value : UInt64) : BioWriter :=
  ⟨writer.buf ++ bigEndian 8 value.toNat⟩

def BioWriter.writeData (writer : BioWriter) (value : List UInt8) : BioWriter :=
  ⟨writer.buf ++ value⟩

-- `value.len` is passed to the prefix writer through its parameter type
def BioWriter.writeData8 (writer : BioWriter) (value : List UInt8) : BioWriter :=
  BioWriter.writeData (BioWriter.writeUint8 writer (UInt8.ofNat value.length)) value

def BioWriter.writeData16 (writer : BioWriter) (value : List UInt8) : BioWriter :=
  BioWriter.writeData (BioWriter.writeUint16 writer (UInt16.ofNat value.length)) value

def BioWriter.writeData24 (writer : BioWriter) (value : List UInt8) : BioWriter :=
  BioWriter.writeData (BioWriter.writeUint24 writer (UInt32.ofNat value.length)) value

def BioWriter.writeData32 (writer : BioWriter) (value : List UInt8) : BioWriter :=
  BioWriter.writeData (BioWriter.writeUint32 writer (UInt32.ofNat value.length)) value

-- `buf.ptr[0] = this->used` stores the length through a `u_char`
def BioWriter.wrap8 (writer : BioWriter) : BioWriter :=
  ⟨UInt8.ofNat writer.buf.length :: writer.buf⟩

def BioWriter.wrap16 (writer : BioWriter) : BioWriter :=
  ⟨bigEndian 2 writer.buf.length ++ writer.buf⟩

def BioWriter.wrap24 (writer : BioWriter) : BioWriter :=
  ⟨bigEndian 3 writer.buf.length ++ writer.buf⟩

def BioWriter.wrap32 (writer : BioWriter) : BioWriter :=
  ⟨bigEndian 4 writer.buf.length ++ writer.buf⟩

/-- `get_buf`: the bytes written, without giving them up. -/
def BioWriter.getBuf (writer : BioWriter) : List UInt8 := writer.buf

/-- The writer operations a caller can issue. -/
inductive WriterOp where
  | writeUint8 (value : UInt8)
  | writeUint16 (value : UInt16)
  | writeUint24 (value : UInt32)
  | writeUint32 (value : UInt32)
  | writeUint64 (value : UInt64)
  | writeData (value : List UInt8)
  | writeData8 (value : List UInt8)
  | writeData16 (value : List UInt8)
  | writeData24 (value : List UInt8)
  | writeData32 (value : List UInt8)
  | wrap8
  | wrap16
  | wrap24
  | wrap32
deriving DecidableEq, Repr

def WriterOp.apply (writer : BioWriter) : WriterOp → BioWriter
  | .writeUint8 value => BioWriter.writeUint8 writer value
  | .writeUint16 value => BioWriter.writeUint16 writer value
  | .writeUint24 value => BioWriter.writeUint24 writer value
  | .writeUint32 value => BioWriter.writeUint32 writer value
  | .writeUint64 value => BioWriter.writeUint64 writer value
  | .writeData value => BioWriter.writeData writer value
  | .writeData8 value => BioWriter.writeData8 writer value
  | .writeData16 value => BioWriter.writeData16 writer value
  | .writeData24 value => BioWriter.writeData24 writer value
  | .writeData32 value => BioWriter.writeData32 writer value
  | .wrap8 => BioWriter.wrap8 writer
  | .wrap16 => BioWriter.wrap16 writer
  | .wrap24 => BioWriter.wrap24 writer
  | .wrap32 => BioWriter.wrap32 writer

/-- The writer after a sequence of operations. -/
def BioWriter.run (writer : BioWriter) (ops : List WriterOp) : BioWriter :=
  ops.foldl WriterOp.apply writer

/-- A value or a piece of data as one read of the matching sequence gives it back. -/
inductive Item where
  | uint8 (value : UInt8)
  | uint16 (value : UInt16)
  | uint24 (value : UInt32)
  | uint32 (value : UInt32)
  | uint64 (value : UInt64)
  | data (value : List UInt8)
  | data8 (value : List UInt8)
  | data16 (value : List UInt8)
  | data24 (value : List UInt8)
  | data32 (value : List UInt8)
deriving DecidableEq, Repr

/-- The bytes an item occupies in the buffer. -/
def Item.bytes : Item → List UInt8
  | .uint8 value => [value]
  | .uint16 value => bigEndian 2 value.toNat
  | .uint24 value => bigEndian 3 value.toNat
  | .uint32 value => bigEndian 4 value.toNat
  | .uint64 value => bigEndian 8 value.toNat
  | .data value => value
  | .data8 value => UInt8.ofNat value.length :: value
  | .data16 value => bigEndian 2 value.length ++ value
  | .data24 value => bigEndian 3 value.length ++ value
  | .data32 value => bigEndian 4 value.length ++ value

/-- The item's value or length fits the bytes that carry it. -/
def Item.fits : Item → Bool
  | .uint24 value => value.toNat < 2 ^ 24
  | .data8 value => value.length < 2 ^ 8
  | .data16 value => value.length < 2 ^ 16
  | .data24 value => value.length < 2 ^ 24
  | .data32 value => value.length < 2 ^ 32
  | .uint8 _ | .uint16 _ | .uint32 _ | .uint64 _ | .data _ => true

/-- The operation's value or length fits its prefix, `used` being the current length. -/
def WriterOp.fits (used : Nat) : WriterOp → Bool
  | .writeUint24 value => value.toNat < 2 ^ 24
  | .writeData8 value => value.length < 2 ^ 8
  | .writeData16 value => value.length < 2 ^ 16
  | .writeData24 value => value.length < 2 ^ 24
  | .writeData32 value => value.length < 2 ^ 32
  | .wrap8 => used < 2 ^ 8
  | .wrap16 => used < 2 ^ 16
  | .wrap24 => used < 2 ^ 24
  | .wrap32 => used < 2 ^ 32
  | .writeUint8 _ | .writeUint16 _ | .writeUint32 _ | .writeUint64 _ | .writeData _ => true

/-- Every operation of the sequence fits at the length the writer has when it comes. -/
def opsFit (writer : BioWriter) : List WriterOp → Bool
  | [] => true
  | op :: ops => op.fits writer.buf.length && opsFit (op.apply writer) ops

/-- The items left once one more operation is issued: a write adds its item, a
`wrapN` turns all the items before it into one `dataN` item of their bytes. -/
def addItems (items : List Item) : WriterOp → List Item
  | .writeUint8 value => items ++ [.uint8 value]
  | .writeUint16 value => items ++ [.uint16 value]
  | .writeUint24 value => items ++ [.uint24 value]
  | .writeUint32 value => items ++ [.uint32 value]
  | .writeUint64 value => items ++ [.uint64 value]
  | .writeData value => items ++ [.data value]
  | .writeData8 value => items ++ [.data8 value]
  | .writeData16 value => items ++ [.data16 value]
  | .writeData24 value => items ++ [.data24 value]
  | .writeData32 value => items ++ [.data32 value]
  | .wrap8 => [.data8 (items.flatMap Item.bytes)]
  | .wrap16 => [.data16 (items.flatMap Item.bytes)]
  | .wrap24 => [.data24 (items.flatMap Item.bytes)]
  | .wrap32 => [.data32 (items.flatMap Item.bytes)]

/-- The items the matching read sequence gives back after the operations. -/
def matchingItems (items : List Item) (ops : List WriterOp) : List Item :=
  ops.foldl addItems items

/-- One operation appends its item's bytes, or puts the wrapped content's prefix in front. -/
theorem apply_buf_of_items {writer : BioWriter} {items : List Item}
    (content : writer.buf = items.flatMap Item.bytes) (op : WriterOp) :
    (op.apply writer).buf = (addItems items op).flatMap Item.bytes := by
  cases op <;>
    simp [WriterOp.apply, addItems, Item.bytes, BioWriter.writeUint8, BioWriter.writeUint16,
      BioWriter.writeUint24, BioWriter.writeUint32, BioWriter.writeUint64, BioWriter.writeData,
      BioWriter.writeData8, BioWriter.writeData16, BioWriter.writeData24, BioWriter.writeData32,
      BioWriter.wrap8, BioWriter.wrap16, BioWriter.wrap24, BioWriter.wrap32, content,
      bigEndian_mod_of_dvd]

/-- An operation that fits leaves items that fit. -/
theorem fits_addItems {items : List Item} {op : WriterOp}
    (itemsFit : ∀ item ∈ items, item.fits = true)
    (opFits : op.fits (items.flatMap Item.bytes).length = true) :
    ∀ item ∈ addItems items op, item.fits = true := by
  intro item member
  cases op
  all_goals simp only [addItems, List.mem_append, List.mem_singleton] at member
  case wrap8 | wrap16 | wrap24 | wrap32 =>
    subst member
    simpa [Item.fits, WriterOp.fits] using opFits
  -- a write keeps the old items and adds its own
  all_goals
    rcases member with old | rfl
    · exact itemsFit item old
    · revert opFits
      simp [Item.fits, WriterOp.fits]

/-- While every operation fits, the buffer is the bytes of the matching items, and
each of them fits. -/
theorem run_buf_eq_items {writer : BioWriter} {items : List Item} (ops : List WriterOp)
    (content : writer.buf = items.flatMap Item.bytes) (itemsFit : ∀ item ∈ items, item.fits = true)
    (opsFitting : opsFit writer ops = true) :
    (writer.run ops).buf = (matchingItems items ops).flatMap Item.bytes ∧
      ∀ item ∈ matchingItems items ops, item.fits = true := by
  -- induction on the operations, carrying the buffer's content and the items' fit
  induction ops generalizing writer items with
  | nil => exact ⟨content, itemsFit⟩
  | cons op ops inductionHypothesis =>
    simp only [opsFit, Bool.and_eq_true] at opsFitting
    obtain ⟨opFits, restFit⟩ := opsFitting
    rw [content] at opFits
    exact inductionHypothesis (apply_buf_of_items content op) (fits_addItems itemsFit opFits) restFit

end StrongSwan.Libstrongswan.Bio
