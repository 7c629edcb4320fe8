/-
The write stream (`jpeg_stream.c`) and the writers of one IFD entry (`exif_writer.c`: `Jpeg_WriteIFD`,
`Jpeg_WriteRationalIFD`, `Jpeg_WriteLongIFD`, `Jpeg_WriteShortIFD`, `Jpeg_WriteByteIFD`), as `Jpeg_WriteAPP1` sets the
stream up: there is no write_file_func, and write_ptr is inside the buffer. A position is an offset from write_buf, and
the machine is little-endian.

Two of the writers return `JPEG_FAILED` (0xff) where a value does not fit, which their callers take for TRUE; the two
offsets are then those of before.

Results: `writeLoop_fits` (a loop over values is one store when it ends inside the buffer) and `writeEntry_fits` (so is
an entry: its 12 bytes and its values).
-/
import SprdDevice.Lib.Word
import SprdDevice.Exif.Types

namespace SprdDevice.Exif

open SprdDevice.Memory SprdDevice.Word

/-! ## Stream -/

/-- `JPEG_WRITE_STREAM_CONTEXT_T` -/
structure WriteStream where
  writeBuf : ℕ → UInt8
  writeBufSize : ℕ
  writePtr : ℕ

/-- the value a stream function returns, and the stream behind it -/
abbrev Wrote := Bool × WriteStream

def setWritePos (s : WriteStream) (offset : ℕ) : Wrote :=
  if s.writeBufSize < offset then (false, s) else (true, { s with writePtr := offset })

def getWritePos (s : WriteStream) : ℕ := if s.writePtr ≤ s.writeBufSize then s.writePtr else 0

/-- at the end of the buffer `Jpeg_WriteStreamToFile` is tried, which fails -/
def writeC (s : WriteStream) (c : ℕ) : Wrote :=
  if s.writeBufSize < s.writePtr + 1 then (false, s)
  else (true, { s with writeBuf := store s.writeBuf s.writePtr [UInt8.ofNat c], writePtr := s.writePtr + 1 })

def writeW (s : WriteStream) (w : ℕ) : Wrote :=
  let r := writeC s (w / 256)
  if r.1 then writeC r.2 w else r

def writeL (s : WriteStream) (l : ℕ) : Wrote :=
  if s.writeBufSize < s.writePtr + 4 then (false, s)
  else (true, { s with writeBuf := store s.writeBuf s.writePtr (be32Bytes l), writePtr := s.writePtr + 4 })

/-- a loop that writes one value after the other and is left at the first one that fails -/
def writeLoop {α : Type} (write : WriteStream → α → Wrote) : WriteStream → List α → Wrote
  | s, [] => (true, s)
  | s, a :: rest =>
    let r := write s a
    if r.1 then writeLoop write r.2 rest else r

/-- `Jpeg_WriteBlock` -/
def writeBlock (s : WriteStream) (block : List UInt8) : Wrote := writeLoop (fun s c => writeC s c.toNat) s block

/-- a failure is passed on to the caller -/
def Wrote.ok (r : Wrote) : Option WriteStream := if r.1 then some r.2 else none

/-! ## An entry -/

inductive IfdType where
  | byte
  | ascii
  | short
  | long
  | rational
  | undefined
  | slong
  | srational
deriving DecidableEq, Repr

/-- `EXIF_TYPE_E` -/
def IfdType.code : IfdType → ℕ
  | .byte => 1
  | .ascii => 2
  | .short => 3
  | .long => 4
  | .rational => 5
  | .undefined => 7
  | .slong => 9
  | .srational => 10

/-- `IFD_INFO_T` without value_ptr. The union value_offset is its long_value. -/
structure IfdInfo where
  tag : ℕ
  type : IfdType
  count : ℕ
  longValue : ℕ
deriving DecidableEq, Repr

/-- `value_offset.byte_value[i]` -/
def IfdInfo.byteValue (ifd : IfdInfo) (i : ℕ) : ℕ := ifd.longValue / 256 ^ i % 256

/-- `value_offset.short_value[i]` -/
def IfdInfo.shortValue (ifd : IfdInfo) (i : ℕ) : ℕ := ifd.longValue / 65536 ^ i % 65536

def IfdInfo.setByteValue (ifd : IfdInfo) (i v : ℕ) : IfdInfo :=
  { ifd with longValue := ifd.longValue - 256 ^ i * ifd.byteValue i + 256 ^ i * v }

def IfdInfo.setShortValue (ifd : IfdInfo) (i v : ℕ) : IfdInfo :=
  { ifd with longValue := ifd.longValue - 65536 ^ i * ifd.shortValue i + 65536 ^ i * v }

/-- the word behind the count: the value itself when it is short, else the offset -/
def IfdInfo.offsetValue (ifd : IfdInfo) : ℕ :=
  match ifd.type with
  | .byte | .ascii | .undefined =>
    if ifd.count ≤ 4 then
      16777216 * ifd.byteValue 0 + 65536 * ifd.byteValue 1 + 256 * ifd.byteValue 2 + ifd.byteValue 3
    else ifd.longValue
  | .short => if ifd.count ≤ 2 then 65536 * ifd.shortValue 0 + ifd.shortValue 1 else ifd.longValue
  | .long | .rational | .slong | .srational => ifd.longValue

/-- `Jpeg_WriteIFD` -/
def writeIFD (s : WriteStream) (ifd : IfdInfo) : Option WriteStream := do
  let s ← (writeW s ifd.tag).ok
  let s ← (writeW s ifd.type.code).ok
  let s ← (writeL s ifd.count).ok
  (writeL s ifd.offsetValue).ok

/-- `JPEG_ALIGN_4` -/
def align4 (input : ℕ) : ℕ := (input + 3) / 4 * 4

/-- what the four writers of an entry have in common: the entry at ifdOffset, its values at valueOffset unless they are in
the entry, and what is returned when a value does not fit -/
def writeEntry {α : Type} (write : WriteStream → α → Wrote) (failed : Bool) (s : WriteStream) (ifd : IfdInfo)
    (values : Option (List α)) (ifdOffset valueOffset : ℕ) : Option (WriteStream × ℕ × ℕ) := do
  let s ← (setWritePos s ifdOffset).ok
  let s ← writeIFD s ifd
  let ifdOffset' := getWritePos s
  match values with
  | none => some (s, ifdOffset', valueOffset)
  | some values =>
    let s ← (setWritePos s valueOffset).ok
    let r := writeLoop write s values
    if r.1 then some (r.2, ifdOffset', align4 (getWritePos r.2))
    else if failed then some (r.2, ifdOffset, valueOffset) else none

/-- the first n cells a pointer points to -/
def valuesAt {α : Type} (ptr : ℕ → α) (n : ℕ) : List α := (List.range n).map ptr

def writeRationalIFD (s : WriteStream) (ifd : IfdInfo) (ptr : ℕ → Rational) (ifdOffset valueOffset : ℕ) :
    Option (WriteStream × ℕ × ℕ) :=
  let write (s : WriteStream) (v : Rational) : Wrote :=
    let r := writeL s v.numerator.toNat
    if r.1 then writeL r.2 v.denominator.toNat else r
  writeEntry write false s ifd (some (valuesAt ptr ifd.count)) ifdOffset valueOffset

def writeLongIFD (s : WriteStream) (ifd : IfdInfo) (ptr : ℕ → UInt32) (ifdOffset valueOffset : ℕ) :
    Option (WriteStream × ℕ × ℕ) :=
  let write (s : WriteStream) (v : UInt32) : Wrote := writeL s v.toNat
  if ifd.count ≤ 1 then
    writeEntry write false s { ifd with longValue := (ptr 0).toNat } none ifdOffset valueOffset
  else writeEntry write false s ifd (some (valuesAt ptr ifd.count)) ifdOffset valueOffset

def writeShortIFD (s : WriteStream) (ifd : IfdInfo) (ptr : ℕ → UInt16) (ifdOffset valueOffset : ℕ) :
    Option (WriteStream × ℕ × ℕ) :=
  let write (s : WriteStream) (v : UInt16) : Wrote := writeW s v.toNat
  if ifd.count ≤ 2 then
    let first := ({ ifd with longValue := 0 } : IfdInfo).setShortValue 0 (ptr 0).toNat
    let both := if ifd.count = 2 then first.setShortValue 1 (ptr 1).toNat else first
    writeEntry write true s both none ifdOffset valueOffset
  else writeEntry write true s ifd (some (valuesAt ptr ifd.count)) ifdOffset valueOffset

def writeByteIFD (s : WriteStream) (ifd : IfdInfo) (ptr : ℕ → UInt8) (ifdOffset valueOffset : ℕ) :
    Option (WriteStream × ℕ × ℕ) :=
  let write (s : WriteStream) (v : UInt8) : Wrote := writeC s v.toNat
  if ifd.count ≤ 4 then
    let inline := (List.range ifd.count).foldl (fun ifd i => ifd.setByteValue i (ptr i).toNat) ifd
    writeEntry write true s inline none ifdOffset valueOffset
  else writeEntry write true s ifd (some (valuesAt ptr ifd.count)) ifdOffset valueOffset

/-! ## What ends inside the buffer -/

/-- s with the bytes l written at its position -/
def WriteStream.put (s : WriteStream) (l : List UInt8) : WriteStream :=
  { s with writeBuf := store s.writeBuf s.writePtr l, writePtr := s.writePtr + l.length }

@[simp] theorem put_size (s : WriteStream) (l : List UInt8) : (s.put l).writeBufSize = s.writeBufSize := rfl

@[simp] theorem put_ptr (s : WriteStream) (l : List UInt8) : (s.put l).writePtr = s.writePtr + l.length := rfl

theorem put_put (s : WriteStream) (k l : List UInt8) : (s.put k).put l = s.put (k ++ l) := by
  simp only [WriteStream.put, store_append, List.length_append, Nat.add_assoc]

theorem put_nil (s : WriteStream) : s.put [] = s := by
  simp [WriteStream.put]

variable {s : WriteStream}

theorem setWritePos_fits {offset : ℕ} (h : offset ≤ s.writeBufSize) :
    setWritePos s offset = (true, { s with writePtr := offset }) := if_neg (by omega)

theorem getWritePos_fits (h : s.writePtr ≤ s.writeBufSize) : getWritePos s = s.writePtr := if_pos h

theorem writeC_fits (c : ℕ) (h : s.writePtr + 1 ≤ s.writeBufSize) : writeC s c = (true, s.put [UInt8.ofNat c]) :=
  if_neg (by omega)

theorem writeW_fits (w : ℕ) (h : s.writePtr + 2 ≤ s.writeBufSize) : writeW s w = (true, s.put (be16Bytes w)) := by
  rw [writeW, writeC_fits _ (by omega)]
  show writeC (s.put [UInt8.ofNat (w / 256)]) w = _
  rw [writeC_fits _ (by simp only [put_size, put_ptr, List.length_singleton]; omega), put_put]
  rfl

theorem writeL_fits (l : ℕ) (h : s.writePtr + 4 ≤ s.writeBufSize) : writeL s l = (true, s.put (be32Bytes l)) :=
  if_neg (by omega)

/-- the values of a loop that end inside the buffer, one behind the other -/
theorem writeLoop_fits {α : Type} {write : WriteStream → α → Wrote} {enc : α → List UInt8}
    (hwrite : ∀ s a, s.writePtr + (enc a).length ≤ s.writeBufSize → write s a = (true, s.put (enc a))) (l : List α)
    (h : s.writePtr + (l.flatMap enc).length ≤ s.writeBufSize) : writeLoop write s l = (true, s.put (l.flatMap enc)) := by
  induction l generalizing s with
  | nil => rw [List.flatMap_nil, put_nil]; rfl
  | cons a l ih =>
    rw [List.flatMap_cons, List.length_append] at h
    rw [writeLoop, hwrite s a (by omega)]
    show writeLoop write (s.put (enc a)) l = _
    rw [ih (by simp only [put_size, put_ptr]; omega), put_put, List.flatMap_cons]

theorem writeBlock_fits (block : List UInt8) (h : s.writePtr + block.length ≤ s.writeBufSize) :
    writeBlock s block = (true, s.put block) := by
  have hsingle : block.flatMap (fun c => [c]) = block := List.flatMap_singleton' block
  have hwrite (s : WriteStream) (c : UInt8) (hfit : s.writePtr + [c].length ≤ s.writeBufSize) :
      writeC s c.toNat = (true, s.put [c]) := (writeC_fits c.toNat hfit).trans (by simp)
  have hloop := writeLoop_fits (s := s) hwrite block (by rwa [hsingle])
  rwa [hsingle] at hloop

/-- the 12 bytes of an entry -/
def IfdInfo.bytes (ifd : IfdInfo) : List UInt8 :=
  be16Bytes ifd.tag ++ be16Bytes ifd.type.code ++ be32Bytes ifd.count ++ be32Bytes ifd.offsetValue

@[simp] theorem length_ifd_bytes (ifd : IfdInfo) : ifd.bytes.length = 12 := rfl

theorem writeIFD_fits (ifd : IfdInfo) (h : s.writePtr + 12 ≤ s.writeBufSize) : writeIFD s ifd = some (s.put ifd.bytes) := by
  rw [writeIFD, writeW_fits _ (by omega)]
  show (writeW (s.put (be16Bytes ifd.tag)) ifd.type.code).ok.bind _ = _
  rw [writeW_fits _ (by simp only [put_size, put_ptr, length_be16Bytes]; omega), put_put]
  show (writeL (s.put _) ifd.count).ok.bind _ = _
  rw [writeL_fits _ (by simp only [put_size, put_ptr, List.length_append, length_be16Bytes]; omega), put_put]
  show (writeL (s.put _) ifd.offsetValue).ok = _
  rw [writeL_fits _ (by simp only [put_size, put_ptr, List.length_append, length_be16Bytes, length_be32Bytes]; omega),
    put_put]
  rfl

section Entry

variable {α : Type} {write : WriteStream → α → Wrote} {enc : α → List UInt8} {ifd : IfdInfo} {ifdOffset valueOffset : ℕ}

theorem writeEntry_inline (failed : Bool) (hifd : ifdOffset + 12 ≤ s.writeBufSize) :
    writeEntry write failed s ifd none ifdOffset valueOffset =
      some (⟨store s.writeBuf ifdOffset ifd.bytes, s.writeBufSize, ifdOffset + 12⟩, ifdOffset + 12, valueOffset) := by
  rw [writeEntry, setWritePos_fits (by omega)]
  show (writeIFD _ ifd).bind _ = _
  rw [writeIFD_fits ifd (by simpa using hifd)]
  show some (_, getWritePos _, _) = _
  rw [getWritePos_fits (by simpa using hifd)]
  rfl

theorem writeEntry_fits (failed : Bool) {values : List α}
    (hwrite : ∀ s a, s.writePtr + (enc a).length ≤ s.writeBufSize → write s a = (true, s.put (enc a)))
    (hifd : ifdOffset + 12 ≤ s.writeBufSize) (hvalue : valueOffset + (values.flatMap enc).length ≤ s.writeBufSize) :
    writeEntry write failed s ifd (some values) ifdOffset valueOffset =
      some (⟨store (store s.writeBuf ifdOffset ifd.bytes) valueOffset (values.flatMap enc), s.writeBufSize,
          valueOffset + (values.flatMap enc).length⟩,
        ifdOffset + 12, align4 (valueOffset + (values.flatMap enc).length)) := by
  rw [writeEntry, setWritePos_fits (by omega)]
  show (writeIFD _ ifd).bind _ = _
  rw [writeIFD_fits ifd (by simpa using hifd)]
  show (setWritePos _ valueOffset).ok.bind _ = _
  rw [setWritePos_fits (by simp only [put_size]; omega)]
  show (if (writeLoop write _ values).1 then _ else _) = _
  rw [writeLoop_fits hwrite values (by simpa using hvalue), getWritePos_fits (by simpa using hifd)]
  show some (_, _, align4 (getWritePos _)) = _
  rw [getWritePos_fits (by simpa using hvalue)]
  rfl

end Entry

end SprdDevice.Exif
