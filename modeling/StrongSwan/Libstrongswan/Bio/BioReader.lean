import StrongSwan.Libstrongswan.Bio.BioWriter

/-!
The reader of `bio_reader.c`, and reading back what a writer wrote.

A reader is the data still to process. Each read checks that enough bytes
remain, takes them from the front or, for the `_end` variants, from the back,
and shortens the buffer; a failed read leaves it as it was. `read_dataN`
reads an `N`-byte length and then that many bytes, so a failure of the
second read comes after the length has been consumed.

Owns: the reads as the source performs them, the read matching each item,
one frame lemma per read, and the round trip of the writer's buffer.

Does not own: `peek`, and the cleanup chunk freed on destruction.
-/

namespace StrongSwan.Libstrongswan.Bio

open StrongSwan.Foundations.Bytes

/-- The data a `bio_reader_t` has still to process. -/
structure BioReader where
  buf : List UInt8
deriving DecidableEq, Repr

def bioReaderCreate (data : List UInt8) : BioReader := ⟨data⟩

def BioReader.remaining (reader : BioReader) : Nat := reader.buf.length

/-- `chunk_skip_end`: drop `bytes` from the front or the back; nothing is left
when the chunk is not longer. -/
def chunkSkipEnd (chunk : List UInt8) (bytes : Nat) (fromEnd : Bool) : List UInt8 :=
  if chunk.length > bytes then
    if fromEnd then chunk.take (chunk.length - bytes) else chunk.drop bytes
  else []

/-- `get_ptr_end`: the `len` bytes a read takes. -/
def BioReader.getPtrEnd (reader : BioReader) (len : Nat) (fromEnd : Bool) : List UInt8 :=
  if fromEnd then reader.buf.drop (reader.buf.length - len) else reader.buf.take len

/-- The common shape of every read: too few bytes fail and keep the buffer,
otherwise the bytes are decoded and skipped. -/
def BioReader.readInternal {α : Type} (reader : BioReader) (len : Nat) (decode : List UInt8 → α)
    (fromEnd : Bool) : Option α × BioReader :=
  if reader.buf.length < len then (none, reader)
  else (some (decode (reader.getPtrEnd len fromEnd)), ⟨chunkSkipEnd reader.buf len fromEnd⟩)

def BioReader.readUint8Internal (reader : BioReader) (fromEnd : Bool) : Option UInt8 × BioReader :=
  reader.readInternal 1 (fun bytes => bytes.headD 0) fromEnd

def BioReader.readUint16Internal (reader : BioReader) (fromEnd : Bool) : Option UInt16 × BioReader :=
  reader.readInternal 2 (fun bytes => UInt16.ofNat (ofBigEndian bytes)) fromEnd

/-- `ntohl(tmp) >> 8` over three copied bytes: the byte left uncopied in `tmp` is
shifted out. -/
def BioReader.readUint24Internal (reader : BioReader) (fromEnd : Bool) : Option UInt32 × BioReader :=
  reader.readInternal 3 (fun bytes => UInt32.ofNat (ofBigEndian bytes)) fromEnd

def BioReader.readUint32Internal (reader : BioReader) (fromEnd : Bool) : Option UInt32 × BioReader :=
  reader.readInternal 4 (fun bytes => UInt32.ofNat (ofBigEndian bytes)) fromEnd

def BioReader.readUint64Internal (reader : BioReader) (fromEnd : Bool) : Option UInt64 × BioReader :=
  reader.readInternal 8 (fun bytes => UInt64.ofNat (ofBigEndian bytes)) fromEnd

def BioReader.readDataInternal (reader : BioReader) (len : Nat) (fromEnd : Bool) :
    Option (List UInt8) × BioReader :=
  reader.readInternal len id fromEnd

/-- `read_dataN`: the length through the prefix reader, then the data; a
failed prefix read fails at once. -/
def BioReader.readDataPrefixed {α : Type} (reader : BioReader)
    (readPrefix : BioReader → Option α × BioReader) (toNat : α → Nat) :
    Option (List UInt8) × BioReader :=
  match readPrefix reader with
  | (none, reader) => (none, reader)
  | (some len, reader) => reader.readDataInternal (toNat len) false

def BioReader.readData8 (reader : BioReader) : Option (List UInt8) × BioReader :=
  reader.readDataPrefixed (·.readUint8Internal false) UInt8.toNat

def BioReader.readData16 (reader : BioReader) : Option (List UInt8) × BioReader :=
  reader.readDataPrefixed (·.readUint16Internal false) UInt16.toNat

def BioReader.readData24 (reader : BioReader) : Option (List UInt8) × BioReader :=
  reader.readDataPrefixed (·.readUint24Internal false) UInt32.toNat

def BioReader.readData32 (reader : BioReader) : Option (List UInt8) × BioReader :=
  reader.readDataPrefixed (·.readUint32Internal false) UInt32.toNat

/-- The reads a caller can issue; the `fromEnd` flag picks the `_end` variant. -/
inductive ReadOp where
  | readUint8 (fromEnd : Bool)
  | readUint16 (fromEnd : Bool)
  | readUint24 (fromEnd : Bool)
  | readUint32 (fromEnd : Bool)
  | readUint64 (fromEnd : Bool)
  | readData (len : Nat) (fromEnd : Bool)
  | readData8
  | readData16
  | readData24
  | readData32
deriving DecidableEq, Repr

/-- A read and what it gives back, as an item. -/
def ReadOp.run (reader : BioReader) : ReadOp → Option Item × BioReader
  | .readUint8 fromEnd => (reader.readUint8Internal fromEnd).map (·.map .uint8) id
  | .readUint16 fromEnd => (reader.readUint16Internal fromEnd).map (·.map .uint16) id
  | .readUint24 fromEnd => (reader.readUint24Internal fromEnd).map (·.map .uint24) id
  | .readUint32 fromEnd => (reader.readUint32Internal fromEnd).map (·.map .uint32) id
  | .readUint64 fromEnd => (reader.readUint64Internal fromEnd).map (·.map .uint64) id
  | .readData len fromEnd => (reader.readDataInternal len fromEnd).map (·.map .data) id
  | .readData8 => reader.readData8.map (·.map .data8) id
  | .readData16 => reader.readData16.map (·.map .data16) id
  | .readData24 => reader.readData24.map (·.map .data24) id
  | .readData32 => reader.readData32.map (·.map .data32) id

/-- The number of bytes a read asks for up front: every read but `read_dataN`,
whose length is in the data. -/
def ReadOp.requested : ReadOp → Option Nat
  | .readUint8 _ => some 1
  | .readUint16 _ => some 2
  | .readUint24 _ => some 3
  | .readUint32 _ => some 4
  | .readUint64 _ => some 8
  | .readData len _ => some len
  | .readData8 | .readData16 | .readData24 | .readData32 => none

/-- Reads in turn, stopping at the first that fails. -/
def BioReader.readAll (reader : BioReader) : List ReadOp → Option (List Item) × BioReader
  | [] => (some [], reader)
  | op :: ops =>
    match op.run reader with
    | (none, reader) => (none, reader)
    | (some item, reader) => (reader.readAll ops).map (·.map (item :: ·)) id

/-- The read of the matching sequence for an item. -/
def Item.readOp : Item → ReadOp
  | .uint8 _ => .readUint8 false
  | .uint16 _ => .readUint16 false
  | .uint24 _ => .readUint24 false
  | .uint32 _ => .readUint32 false
  | .uint64 _ => .readUint64 false
  | .data value => .readData value.length false
  | .data8 _ => .readData8
  | .data16 _ => .readData16
  | .data24 _ => .readData24
  | .data32 _ => .readData32

/-- Skipping exactly the front of the buffer leaves what follows it. -/
theorem chunkSkipEnd_append (front rest : List UInt8) :
    chunkSkipEnd (front ++ rest) front.length false = rest := by
  unfold chunkSkipEnd
  split
  · simp
  · -- the buffer is no longer than its front: nothing follows
    have restEmpty : rest = [] := by
      apply List.eq_nil_of_length_eq_zero
      simp only [List.length_append] at *
      omega
    simp [restEmpty]

/-- A read at the front of a buffer that starts with its bytes decodes them and
leaves what follows. -/
theorem readInternal_append {α : Type} (front rest : List UInt8) (decode : List UInt8 → α) :
    (BioReader.mk (front ++ rest)).readInternal front.length decode false =
      (some (decode front), ⟨rest⟩) := by
  simp [BioReader.readInternal, BioReader.getPtrEnd, chunkSkipEnd_append]

/-- A read that asks for more than remains fails and keeps the buffer. -/
theorem readInternal_short {α : Type} {reader : BioReader} {len : Nat} (decode : List UInt8 → α)
    (fromEnd : Bool) (short : reader.remaining < len) :
    reader.readInternal len decode fromEnd = (none, reader) := by
  simp [BioReader.readInternal, show reader.buf.length < len from short]

/-- Reading back a big-endian word of `width` bytes: the value itself when it
fits the width. -/
theorem ofBigEndian_bigEndian_of_lt {width value : Nat} (below : value < 256 ^ width) :
    ofBigEndian (bigEndian width value) = value := by
  rw [ofBigEndian_bigEndian, Nat.mod_eq_of_lt below]

/-- A length-prefixed read of a prefix followed by the data gives the data back. -/
theorem readDataPrefixed_append {α : Type} (readPrefix : BioReader → Option α × BioReader)
    (toNat : α → Nat) {prefixBytes value rest : List UInt8} {len : α}
    (prefixRead : readPrefix ⟨prefixBytes ++ (value ++ rest)⟩ = (some len, ⟨value ++ rest⟩))
    (lengthRead : toNat len = value.length) :
    (BioReader.mk (prefixBytes ++ (value ++ rest))).readDataPrefixed readPrefix toNat =
      (some value, ⟨rest⟩) := by
  rw [BioReader.readDataPrefixed, prefixRead]
  simp only [BioReader.readDataInternal, lengthRead]
  exact readInternal_append value rest id

/-! One frame lemma per read: at a buffer that starts with what the matching
write put there, the read gives the value back and leaves what follows. -/

theorem readUint8Internal_cons (value : UInt8) (rest : List UInt8) :
    (BioReader.mk (value :: rest)).readUint8Internal false = (some value, ⟨rest⟩) :=
  readInternal_append [value] rest _

theorem readUint16Internal_append (value : UInt16) (rest : List UInt8) :
    (BioReader.mk (bigEndian 2 value.toNat ++ rest)).readUint16Internal false = (some value, ⟨rest⟩) := by
  have read := readInternal_append (bigEndian 2 value.toNat) rest
    (fun bytes => UInt16.ofNat (ofBigEndian bytes))
  rw [length_bigEndian, ofBigEndian_bigEndian_of_lt (show value.toNat < 256 ^ 2 from value.toNat_lt)]
    at read
  simpa [BioReader.readUint16Internal] using read

theorem readUint24Internal_append {value : UInt32} (below : value.toNat < 2 ^ 24) (rest : List UInt8) :
    (BioReader.mk (bigEndian 3 value.toNat ++ rest)).readUint24Internal false = (some value, ⟨rest⟩) := by
  have read := readInternal_append (bigEndian 3 value.toNat) rest
    (fun bytes => UInt32.ofNat (ofBigEndian bytes))
  rw [length_bigEndian, ofBigEndian_bigEndian_of_lt below] at read
  simpa [BioReader.readUint24Internal] using read

theorem readUint32Internal_append (value : UInt32) (rest : List UInt8) :
    (BioReader.mk (bigEndian 4 value.toNat ++ rest)).readUint32Internal false = (some value, ⟨rest⟩) := by
  have read := readInternal_append (bigEndian 4 value.toNat) rest
    (fun bytes => UInt32.ofNat (ofBigEndian bytes))
  rw [length_bigEndian, ofBigEndian_bigEndian_of_lt (show value.toNat < 256 ^ 4 from value.toNat_lt)]
    at read
  simpa [BioReader.readUint32Internal] using read

theorem readUint64Internal_append (value : UInt64) (rest : List UInt8) :
    (BioReader.mk (bigEndian 8 value.toNat ++ rest)).readUint64Internal false = (some value, ⟨rest⟩) := by
  have read := readInternal_append (bigEndian 8 value.toNat) rest
    (fun bytes => UInt64.ofNat (ofBigEndian bytes))
  rw [length_bigEndian, ofBigEndian_bigEndian_of_lt (show value.toNat < 256 ^ 8 from value.toNat_lt)]
    at read
  simpa [BioReader.readUint64Internal] using read

theorem readDataInternal_append (value rest : List UInt8) :
    (BioReader.mk (value ++ rest)).readDataInternal value.length false = (some value, ⟨rest⟩) :=
  readInternal_append value rest id

theorem readData8_append {value : List UInt8} (below : value.length < 2 ^ 8) (rest : List UInt8) :
    (BioReader.mk (UInt8.ofNat value.length :: (value ++ rest))).readData8 = (some value, ⟨rest⟩) :=
  @readDataPrefixed_append UInt8 (·.readUint8Internal false) UInt8.toNat [UInt8.ofNat value.length]
    value rest _ (readUint8Internal_cons (UInt8.ofNat value.length) (value ++ rest)) (by simp; omega)

theorem readData16_append {value : List UInt8} (below : value.length < 2 ^ 16) (rest : List UInt8) :
    (BioReader.mk (bigEndian 2 value.length ++ (value ++ rest))).readData16 = (some value, ⟨rest⟩) := by
  have prefixRead := readUint16Internal_append (UInt16.ofNat value.length) (value ++ rest)
  rw [UInt16.toNat_ofNat', bigEndian_mod_of_dvd (by decide)] at prefixRead
  exact readDataPrefixed_append _ UInt16.toNat prefixRead (by simp; omega)

theorem readData24_append {value : List UInt8} (below : value.length < 2 ^ 24) (rest : List UInt8) :
    (BioReader.mk (bigEndian 3 value.length ++ (value ++ rest))).readData24 = (some value, ⟨rest⟩) := by
  have prefixRead := @readUint24Internal_append (UInt32.ofNat value.length) (by simp; omega) (value ++ rest)
  rw [UInt32.toNat_ofNat', bigEndian_mod_of_dvd (by decide)] at prefixRead
  exact readDataPrefixed_append _ UInt32.toNat prefixRead (by simp; omega)

theorem readData32_append {value : List UInt8} (below : value.length < 2 ^ 32) (rest : List UInt8) :
    (BioReader.mk (bigEndian 4 value.length ++ (value ++ rest))).readData32 = (some value, ⟨rest⟩) := by
  have prefixRead := readUint32Internal_append (UInt32.ofNat value.length) (value ++ rest)
  rw [UInt32.toNat_ofNat', bigEndian_mod_of_dvd (by decide)] at prefixRead
  exact readDataPrefixed_append _ UInt32.toNat prefixRead (by simp; omega)

/-- The frame lemma of every read: the item's read, at a buffer that starts
with the item's bytes, gives the item back and leaves what follows. -/
theorem run_item_append (item : Item) (itemFits : item.fits = true) (rest : List UInt8) :
    item.readOp.run ⟨item.bytes ++ rest⟩ = (some item, ⟨rest⟩) := by
  cases item <;> simp only [Item.fits, decide_eq_true_eq] at itemFits <;>
    simp only [Item.readOp, Item.bytes, ReadOp.run, List.cons_append, List.append_assoc]
  case uint8 value => rw [readUint8Internal_cons]; rfl
  case uint16 value => rw [readUint16Internal_append]; rfl
  case uint24 value => rw [readUint24Internal_append itemFits]; rfl
  case uint32 value => rw [readUint32Internal_append]; rfl
  case uint64 value => rw [readUint64Internal_append]; rfl
  case data value => rw [readDataInternal_append]; rfl
  case data8 value => rw [readData8_append itemFits]; rfl
  case data16 value => rw [readData16_append itemFits]; rfl
  case data24 value => rw [readData24_append itemFits]; rfl
  case data32 value => rw [readData32_append itemFits]; rfl

/-- The run lemma: the items' reads over their bytes give every item back and
leave nothing. -/
theorem readAll_items (items : List Item) (itemsFit : ∀ item ∈ items, item.fits = true) :
    (BioReader.mk (items.flatMap Item.bytes)).readAll (items.map Item.readOp) = (some items, ⟨[]⟩) := by
  induction items with
  | nil => rfl
  | cons item items inductionHypothesis =>
    have itemRead := run_item_append item (itemsFit item (by simp)) (items.flatMap Item.bytes)
    have restRead := inductionHypothesis fun other member => itemsFit other (by simp [member])
    simp [BioReader.readAll, itemRead, restRead]

/-- A fixed-size read, `read_data` or `read_data_end` that asks for more than
remains fails and leaves the buffer as it was. -/
theorem run_short {op : ReadOp} {reader : BioReader} {len : Nat} (requested : op.requested = some len)
    (short : reader.remaining < len) : op.run reader = (none, reader) := by
  cases op <;> simp only [ReadOp.requested, Option.some.injEq, reduceCtorEq] at requested <;>
    subst requested <;>
    simp [ReadOp.run, BioReader.readUint8Internal, BioReader.readUint16Internal,
      BioReader.readUint24Internal, BioReader.readUint32Internal, BioReader.readUint64Internal,
      BioReader.readDataInternal, readInternal_short _ _ short]

theorem bioReader_reads_back_bioWriter (ops : List WriterOp) (fitting : opsFit bioWriterCreate ops = true) :
    (bioReaderCreate (bioWriterCreate.run ops).getBuf).readAll
        ((matchingItems [] ops).map Item.readOp) = (some (matchingItems [] ops), ⟨[]⟩) ∧
      ∀ (op : ReadOp) (reader : BioReader) (len : Nat),
        op.requested = some len → reader.remaining < len → op.run reader = (none, reader) := by
  obtain ⟨content, itemsFit⟩ :=
    @run_buf_eq_items bioWriterCreate [] ops rfl (by simp) fitting
  refine ⟨?_, fun op reader len requested short => run_short requested short⟩
  rw [bioReaderCreate, BioWriter.getBuf, content]
  exact readAll_items _ itemsFit

/-- A length and a string, wrapped into one `data8`, then a 24-bit value. -/
def wrappedOps : List WriterOp :=
  [.writeUint16 7, .writeData8 [1, 2, 3], .wrap8, .writeUint24 0x0a0b0c]

theorem bioReader_reads_back_bioWriter_wrapped :
    opsFit bioWriterCreate wrappedOps = true ∧
      ((bioReaderCreate (bioWriterCreate.run wrappedOps).getBuf).readAll
          ((matchingItems [] wrappedOps).map Item.readOp) = (some (matchingItems [] wrappedOps), ⟨[]⟩) ∧
        ∀ (op : ReadOp) (reader : BioReader) (len : Nat),
          op.requested = some len → reader.remaining < len → op.run reader = (none, reader)) :=
  ⟨by decide, bioReader_reads_back_bioWriter wrappedOps (by decide)⟩

example : matchingItems [] wrappedOps = [.data8 [0, 7, 3, 1, 2, 3], .uint24 0x0a0b0c] := by decide

end StrongSwan.Libstrongswan.Bio
