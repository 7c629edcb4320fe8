/-
The two ways of an APP1 segment into a JPEG (`exif_writer.c`: `JPEG_AddExifToMemory`, `JPEG_AddExifToFile`). Both have
`Jpeg_WriteAPP1` write the segment to the temporary buffer. The first copies it in front of the source and over its SOI
marker; the second writes the marker, the segment and the source without its marker to a file, through a callback that
writes all it is given.

The memory is one function of the address. `none` is a failure, or a read behind the temporary buffer: the end offset is
rounded up, and nothing compares it with the size of the buffer. app1_size goes through a uint16.

Results: `inBuf_writeIFDs` (the stream stays inside its buffer in every run that gets to the end) and `addExif_iff` (when
both outputs have the whole segment).
-/
import SprdDevice.Exif.Soundness

namespace SprdDevice.Exif

open SprdDevice.Memory SprdDevice.Word SprdDevice.Blocks SprdDevice.Tiff

/-! ## Model -/

/-- `JINF_WEXIF_IN_PARAM_T`. The thumbnail is [] when there is none. -/
structure WExifIn where
  exifInfo : ExifInfo
  srcJpegBufPtr : UInt32
  srcJpegSize : ℕ
  thumbnail : List UInt8
  tempBufPtr : UInt32
  tempBufSize : ℕ
  targetBufPtr : UInt32

/-- `Jpeg_WriteAPP1` to the temporary buffer: the memory and app1_size -/
def writeTemp (p : WExifIn) (mem : ℕ → UInt8) : Option ((ℕ → UInt8) × ℕ) := do
  let (buf, app1Size) ← writeAPP1 (fun i => mem (p.tempBufPtr.toNat + i)) p.tempBufSize p.exifInfo p.thumbnail
  some (store mem p.tempBufPtr.toNat (cells buf 0 p.tempBufSize), app1Size)

/-- so many bytes of the temporary buffer -/
def readTemp (p : WExifIn) (mem : ℕ → UInt8) (size : ℕ) : Option (List UInt8) :=
  if size ≤ p.tempBufSize then some (cells mem p.tempBufPtr.toNat size) else none

/-- `M_MARKER`, `M_SOI` -/
def soiMarker : List UInt8 := [0xFF, 0xD8]

/-- the memory, output_buf_ptr and output_size -/
def addExifToMemory (p : WExifIn) (mem : ℕ → UInt8) : Option ((ℕ → UInt8) × ℕ × ℕ) := do
  let (mem, app1Size) ← writeTemp p mem
  let freeBufSize := (p.srcJpegBufPtr - p.targetBufPtr).toNat
  if freeBufSize < app1Size then none
  else
    let outputBufPtr := p.srcJpegBufPtr.toNat - app1Size
    let mem := store mem outputBufPtr soiMarker
    let app1 ← readTemp p mem app1Size
    some (store mem (outputBufPtr + 2) app1, outputBufPtr, app1Size + p.srcJpegSize)

/-- the file and its length -/
def addExifToFile (p : WExifIn) (mem : ℕ → UInt8) : Option ((ℕ → UInt8) × ℕ) := do
  let (mem, app1Size) ← writeTemp p mem
  let file := store (fun _ => 0) 0 soiMarker
  let app1 ← readTemp p mem app1Size
  let file := store file 2 app1
  let file := store file (2 + app1Size) (cells mem (p.srcJpegBufPtr.toNat + 2) (p.srcJpegSize - 2))
  some (file, 2 + app1Size + (p.srcJpegSize - 2))

/-! ## Statement -/

/-- the buffers as a caller has them: a source with its SOI marker, and the temporary buffer aside -/
structure WExifIn.Placed (p : WExifIn) : Prop where
  source : 2 ≤ p.srcJpegSize
  target : p.targetBufPtr ≤ p.srcJpegBufPtr
  temp : p.tempBufPtr.toNat + p.tempBufSize ≤ p.targetBufPtr.toNat ∨
    p.srcJpegBufPtr.toNat + p.srcJpegSize ≤ p.tempBufPtr.toNat

/-- the address is one of the temporary buffer -/
def WExifIn.InTemp (p : WExifIn) (a : ℕ) : Prop :=
  p.tempBufPtr.toNat ≤ a ∧ a < p.tempBufPtr.toNat + p.tempBufSize

/-- both ways make of the source the JPEG with that segment, whose length field is its length, and leave what is in front
of the output and what is behind the marker of the source alone -/
def Inserts (p : WExifIn) (mem : ℕ → UInt8) (segment : List UInt8) : Prop :=
  ∃ mem' outputBufPtr outputSize file fileSize,
    addExifToMemory p mem = some (mem', outputBufPtr, outputSize) ∧
    addExifToFile p mem = some (file, fileSize) ∧
    cells mem' outputBufPtr outputSize = cells file 0 fileSize ∧
    cells file 0 fileSize = soiMarker ++ segment ++ cells mem (p.srcJpegBufPtr.toNat + 2) (p.srcJpegSize - 2) ∧
    4 ≤ segment.length ∧ be16 (ofList segment) 2 + 2 = segment.length ∧
    ∀ a, ¬ p.InTemp a → a < outputBufPtr ∨ p.srcJpegBufPtr.toNat + 2 ≤ a → mem' a = mem a

/-! ## The stream stays inside its buffer -/

/-- behind the first four bytes of a buffer of n bytes -/
structure InBuf (n : ℕ) (s : WriteStream) : Prop where
  size : s.writeBufSize = n
  low : 4 ≤ s.writePtr
  high : s.writePtr ≤ n

structure CursorInBuf (n : ℕ) (c : Cursor) : Prop where
  stream : InBuf n c.stream
  ifdOffset : 4 ≤ c.ifdOffset
  valueOffset : 4 ≤ c.ifdValueOffset

section InBuf

variable {n offset : ℕ} {s s' : WriteStream} {c c' : Cursor}

theorem inBuf_setWritePos (h : InBuf n s) (hlow : 4 ≤ offset) : InBuf n (setWritePos s offset).2 := by
  rw [setWritePos]
  split
  · exact h
  · rename_i hle
    exact ⟨h.size, hlow, by rw [← h.size]; exact Nat.le_of_not_lt hle⟩

theorem inBuf_writeC (h : InBuf n s) (v : ℕ) : InBuf n (writeC s v).2 := by
  rw [writeC]
  split
  · exact h
  · rename_i hle
    exact ⟨h.size, h.low.trans (Nat.le_succ _), by rw [← h.size]; exact Nat.le_of_not_lt hle⟩

theorem inBuf_writeW (h : InBuf n s) (v : ℕ) : InBuf n (writeW s v).2 := by
  rw [writeW]
  split
  · exact inBuf_writeC (inBuf_writeC h _) _
  · exact inBuf_writeC h _

theorem inBuf_writeL (h : InBuf n s) (v : ℕ) : InBuf n (writeL s v).2 := by
  rw [writeL]
  split
  · exact h
  · rename_i hle
    exact ⟨h.size, h.low.trans (Nat.le_add_right _ _), by rw [← h.size]; exact Nat.le_of_not_lt hle⟩

theorem inBuf_writeLoop {α : Type} {write : WriteStream → α → Wrote}
    (hwrite : ∀ s a, InBuf n s → InBuf n (write s a).2) (l : List α) (h : InBuf n s) :
    InBuf n (writeLoop write s l).2 := by
  induction l generalizing s with
  | nil => exact h
  | cons a l ih =>
    rw [writeLoop]
    split
    · exact ih (hwrite s a h)
    · exact hwrite s a h

theorem Wrote.ok_some {r : Wrote} (h : r.ok = some s') : r.2 = s' := by
  rw [Wrote.ok] at h
  split at h
  · exact Option.some.inj h
  · exact absurd h (by simp)

theorem low_getWritePos (h : InBuf n s) : 4 ≤ getWritePos s := by
  rw [getWritePos_fits (by rw [h.size]; exact h.high)]
  exact h.low

theorem inBuf_writeIFD {ifd : IfdInfo} (h : InBuf n s) (hrun : writeIFD s ifd = some s') : InBuf n s' := by
  simp only [writeIFD, Option.bind_eq_bind, Option.bind_eq_some_iff] at hrun
  obtain ⟨s1, h1, s2, h2, s3, h3, h4⟩ := hrun
  rw [← Wrote.ok_some h4]
  refine inBuf_writeL ?_ _
  rw [← Wrote.ok_some h3]
  refine inBuf_writeL ?_ _
  rw [← Wrote.ok_some h2]
  refine inBuf_writeW ?_ _
  rw [← Wrote.ok_some h1]
  exact inBuf_writeW h _

theorem inBuf_writeEntry {α : Type} {write : WriteStream → α → Wrote} {failed : Bool} {ifd : IfdInfo}
    {values : Option (List α)} {ifdOffset valueOffset ifdOffset' valueOffset' : ℕ}
    (hwrite : ∀ s a, InBuf n s → InBuf n (write s a).2) (h : InBuf n s) (hifd : 4 ≤ ifdOffset) (hvalue : 4 ≤ valueOffset)
    (hrun : writeEntry write failed s ifd values ifdOffset valueOffset = some (s', ifdOffset', valueOffset')) :
    InBuf n s' ∧ 4 ≤ ifdOffset' ∧ 4 ≤ valueOffset' := by
  simp only [writeEntry, Option.bind_eq_bind, Option.bind_eq_some_iff] at hrun
  obtain ⟨s1, h1, s2, h2, hrun⟩ := hrun
  have hs1 : InBuf n s1 := by
    rw [← Wrote.ok_some h1]
    exact inBuf_setWritePos h hifd
  have hs2 := inBuf_writeIFD hs1 h2
  have hpos := low_getWritePos hs2
  cases values with
  | none =>
    obtain ⟨rfl, heq⟩ := Prod.mk.inj (Option.some.inj hrun)
    obtain ⟨rfl, rfl⟩ := Prod.mk.inj heq
    exact ⟨hs2, hpos, hvalue⟩
  | some values =>
    obtain ⟨s3, h3, hrun⟩ := Option.bind_eq_some_iff.1 hrun
    have hs3 : InBuf n s3 := by
      rw [← Wrote.ok_some h3]
      exact inBuf_setWritePos hs2 hvalue
    have hloop := inBuf_writeLoop hwrite values hs3
    split at hrun
    · obtain ⟨rfl, heq⟩ := Prod.mk.inj (Option.some.inj hrun)
      obtain ⟨rfl, rfl⟩ := Prod.mk.inj heq
      exact ⟨hloop, hpos, (low_getWritePos hloop).trans (le_align4 _)⟩
    · split at hrun
      · obtain ⟨rfl, heq⟩ := Prod.mk.inj (Option.some.inj hrun)
        obtain ⟨rfl, rfl⟩ := Prod.mk.inj heq
        exact ⟨hloop, hifd, hvalue⟩
      · exact absurd hrun (by simp)

theorem cursorInBuf_writeField {ifhOffset : ℕ} {f : Field} (h : CursorInBuf n c)
    (hrun : writeField ifhOffset f c = some c') : CursorInBuf n c' := by
  simp only [writeField, Option.bind_eq_bind, Option.bind_eq_some_iff] at hrun
  obtain ⟨⟨s1, ifdOffset, valueOffset⟩, hentry, hrun⟩ := hrun
  rw [← Option.some.inj hrun]
  have hinBuf : InBuf n s1 ∧ 4 ≤ ifdOffset ∧ 4 ≤ valueOffset := by
    cases hptr : f.valuePtr with
    | rational ptr =>
      rw [hptr] at hentry
      simp only [ValuePtr.write, writeRationalIFD] at hentry
      refine inBuf_writeEntry (fun s a hs => ?_) h.stream h.ifdOffset h.valueOffset hentry
      split
      · exact inBuf_writeL (inBuf_writeL hs _) _
      · exact inBuf_writeL hs _
    | long ptr =>
      rw [hptr] at hentry
      simp only [ValuePtr.write, writeLongIFD] at hentry
      split at hentry <;>
        exact inBuf_writeEntry (fun s a hs => inBuf_writeL hs _) h.stream h.ifdOffset h.valueOffset hentry
    | short ptr =>
      rw [hptr] at hentry
      simp only [ValuePtr.write, writeShortIFD] at hentry
      split at hentry <;>
        exact inBuf_writeEntry (fun s a hs => inBuf_writeW hs _) h.stream h.ifdOffset h.valueOffset hentry
    | byte ptr =>
      rw [hptr] at hentry
      simp only [ValuePtr.write, writeByteIFD] at hentry
      split at hentry <;>
        exact inBuf_writeEntry (fun s a hs => inBuf_writeC hs _) h.stream h.ifdOffset h.valueOffset hentry
  exact ⟨hinBuf.1, hinBuf.2.1, hinBuf.2.2⟩

theorem cursorInBuf_writeFields {ifhOffset : ℕ} {fs : List (Option Field)} (h : CursorInBuf n c)
    (hrun : writeFields ifhOffset fs c = some c') : CursorInBuf n c' := by
  induction fs generalizing c with
  | nil => rwa [← Option.some.inj hrun]
  | cons f fs ih =>
    cases f with
    | none => exact ih h hrun
    | some f =>
      obtain ⟨c1, h1, hrun⟩ := Option.bind_eq_some_iff.1 hrun
      exact ih (cursorInBuf_writeField h h1) hrun

/-- what a function that writes a table keeps -/
def TableInBuf (n : ℕ) (write : WriteStream → ℕ → Option (WriteStream × ℕ)) : Prop :=
  ∀ s beginOffset s' endOffset, InBuf n s → 4 ≤ beginOffset → write s beginOffset = some (s', endOffset) →
    InBuf n s' ∧ 4 ≤ endOffset

/-- what a stretch of a table keeps -/
def StretchInBuf (n : ℕ) (run : Cursor → Option Cursor) : Prop :=
  ∀ c c', CursorInBuf n c → run c = some c' → CursorInBuf n c'

theorem tableInBuf {room : ℕ} {run : Cursor → Option Cursor} {next : Cursor → ℕ} (h : StretchInBuf n run) :
    TableInBuf n (tableBy room run next) := by
  intro s b s' endOffset hs hb hrun
  simp only [tableBy, beginTable, endTable, Option.bind_eq_bind, Option.bind_eq_some_iff] at hrun
  obtain ⟨c0, ⟨s1, h1, hc0⟩, c1, hrun1, s2, h2, s3, h3, hend⟩ := hrun
  have hs1 : InBuf n s1 := by
    rw [← Wrote.ok_some h1]
    exact inBuf_writeW (inBuf_setWritePos hs hb) _
  have hpos := low_getWritePos hs1
  have hcur0 : CursorInBuf n c0 := by
    rw [← Option.some.inj hc0]
    exact ⟨hs1, hpos, (by omega : 4 ≤ getWritePos s1 + room * IFD_HEAD_LENGTH + 4).trans (le_align4 _)⟩
  have hcur1 := h c0 c1 hcur0 hrun1
  have hs2 : InBuf n s2 := by
    rw [← Wrote.ok_some h2]
    exact inBuf_writeL (inBuf_setWritePos hcur1.stream hcur1.ifdOffset) _
  obtain ⟨rfl, rfl⟩ := Prod.mk.inj (Option.some.inj hend)
  refine ⟨?_, hcur1.valueOffset⟩
  rw [← Wrote.ok_some h3]
  exact inBuf_writeW (inBuf_setWritePos hs2 hb) _

theorem stretchInBuf_seq {run1 run2 : Cursor → Option Cursor} (h1 : StretchInBuf n run1) (h2 : StretchInBuf n run2) :
    StretchInBuf n fun c => run1 c >>= run2 := by
  intro c c' hc hrun
  obtain ⟨c1, hrun1, hrun2⟩ := Option.bind_eq_some_iff.1 hrun
  exact h2 c1 c' (h1 c c1 hc hrun1) hrun2

theorem stretchInBuf_fields (ifhOffset : ℕ) (fs : List (Option Field)) : StretchInBuf n (writeFields ifhOffset fs) :=
  fun _ _ => cursorInBuf_writeFields

theorem stretchInBuf_given {α : Type} (o : Option α) {run : α → Cursor → Option Cursor} (h : ∀ a, StretchInBuf n (run a)) :
    StretchInBuf n (writeGiven o run) := by
  cases o with
  | none => exact fun c c' hc hrun => Option.some.inj hrun ▸ hc
  | some a => exact h a

theorem stretchInBuf_subIFD {tag ifhOffset : ℕ} {write : WriteStream → ℕ → Option (WriteStream × ℕ)}
    (h : TableInBuf n write) : StretchInBuf n (writeSubIFD tag ifhOffset write) := by
  intro c c' hc hrun
  simp only [writeSubIFD, Option.bind_eq_bind, Option.bind_eq_some_iff] at hrun
  obtain ⟨c1, hfield, ⟨s, endOffset⟩, hwrite, hrun⟩ := hrun
  have haligned : CursorInBuf n { c with ifdValueOffset := align4 c.ifdValueOffset } :=
    ⟨hc.stream, hc.ifdOffset, hc.valueOffset.trans (le_align4 _)⟩
  have hc1 := cursorInBuf_writeField haligned hfield
  obtain ⟨hs, hend⟩ := h _ _ _ _ hc1.stream hc1.valueOffset hwrite
  rw [← Option.some.inj hrun]
  exact ⟨hs, hc1.ifdOffset, hend⟩

theorem stretchInBuf_thumbnail {ifhOffset thumbnailIfdOffset : ℕ} (thumbnail : List UInt8) (hlow : 4 ≤ thumbnailIfdOffset) :
    StretchInBuf n (writeThumbnail ifhOffset thumbnailIfdOffset thumbnail) := by
  intro c c' hc hrun
  rw [writeThumbnail] at hrun
  split at hrun
  · simp only [Option.bind_eq_bind, Option.bind_eq_some_iff] at hrun
    obtain ⟨s1, h1, ⟨s2, ifdOffset, valueOffset⟩, hentry, hrun⟩ := hrun
    have hs1 : InBuf n s1 := by
      rw [← Wrote.ok_some h1]
      exact inBuf_writeLoop (fun s a hs => inBuf_writeC hs _) _ (inBuf_setWritePos hc.stream hc.valueOffset)
    have hpos := low_getWritePos hs1
    rw [writeLongIFD, if_pos (le_refl 1)] at hentry
    obtain ⟨hs2, _, hvalue⟩ := inBuf_writeEntry (fun s a hs => inBuf_writeL hs _) (inBuf_setWritePos hs1 hlow) hlow hpos
      hentry
    rw [← Option.some.inj hrun]
    exact ⟨hs2, hc.ifdOffset, hvalue⟩
  · exact Option.some.inj hrun ▸ hc

theorem tableInBuf_fields (room ifhOffset : ℕ) (fs : List (Option Field)) :
    TableInBuf n (tableBy room (writeFields ifhOffset fs) fun _ => 0) :=
  tableInBuf (stretchInBuf_fields ifhOffset fs)

theorem tableInBuf_spec (spec : SpecificInfo) (inter : Option InteroperabilityInfo) (ifhOffset : ℕ) :
    TableInBuf n fun s b => writeExifSpecInfo s spec inter ifhOffset b := by
  rw [writeExifSpecInfo_eq]
  refine tableInBuf (stretchInBuf_seq (stretchInBuf_fields _ _) (stretchInBuf_seq ?_ (stretchInBuf_fields _ _)))
  exact stretchInBuf_given inter fun inter => stretchInBuf_subIFD
    (tableInBuf_fields 1 ifhOffset (interoperabilityFields inter))

theorem tableInBuf_IFD (primary : PrimaryInfo) (spec : Option SpecificInfo) (gps : Option GpsInfo)
    (inter : Option InteroperabilityInfo) (thumbnail : List UInt8) (isNextIfdExist : Bool) (ifhOffset : ℕ) :
    TableInBuf n fun s b => writeExifIFD s primary spec gps inter thumbnail isNextIfdExist ifhOffset b := by
  rw [writeExifIFD_eq]
  refine tableInBuf fun c c' hc hrun => ?_
  obtain ⟨c1, hbefore, hrun⟩ := Option.bind_eq_some_iff.1 hrun
  have hc1 := cursorInBuf_writeFields hc hbefore
  have hbehind : StretchInBuf n (writeBehind ifhOffset primary spec gps inter) := by
    refine stretchInBuf_seq (stretchInBuf_fields _ _) (stretchInBuf_seq ?_ ?_)
    · exact stretchInBuf_given spec fun spec => stretchInBuf_subIFD (tableInBuf_spec spec inter ifhOffset)
    · exact stretchInBuf_given gps fun gps => stretchInBuf_subIFD
        (tableInBuf_fields 31 ifhOffset (gpsFields gps))
  exact stretchInBuf_seq (stretchInBuf_seq (stretchInBuf_fields _ _) hbehind)
    (stretchInBuf_thumbnail thumbnail hc1.ifdOffset) c1 c' hc1 hrun

/-- **The stream stays inside its buffer**, and the segment ends behind its marker. -/
theorem inBuf_writeIFDs {info : ExifInfo} {thumbnail : List UInt8} {endOffset : ℕ} (hsize : s.writeBufSize = n)
    (h10 : 10 ≤ n) (hrun : writeIFDs s info thumbnail = some (s', endOffset)) : InBuf n s' ∧ 4 ≤ endOffset := by
  simp only [writeIFDs, writeIFH, Option.bind_eq_bind, Option.bind_eq_some_iff] at hrun
  obtain ⟨⟨s1, ofs1⟩, ⟨sa, ha, sb, hb, sc, hc, heq⟩, ⟨s2, ofs2⟩, hifd0, hrun⟩ := hrun
  have hstart : InBuf n (setWritePos s APP1_RESERVED).2 := by
    rw [setWritePos_fits (by rw [hsize]; exact h10)]
    exact ⟨hsize, (by decide : 4 ≤ APP1_RESERVED), h10⟩
  have hsc : InBuf n sc := by
    rw [← Wrote.ok_some hc]
    refine inBuf_writeL ?_ _
    rw [← Wrote.ok_some hb]
    refine inBuf_writeW ?_ _
    rw [← Wrote.ok_some ha]
    exact inBuf_writeW hstart _
  obtain ⟨rfl, rfl⟩ := Prod.mk.inj (Option.some.inj heq)
  obtain ⟨hs2, hofs2⟩ := tableInBuf_IFD _ _ _ _ _ _ _ _ _ _ _ hsc (low_getWritePos hsc) hifd0
  split at hrun
  · exact tableInBuf_IFD _ _ _ _ _ _ _ _ _ _ _ hs2 hofs2 hrun
  · obtain ⟨rfl, rfl⟩ := Prod.mk.inj (Option.some.inj hrun)
    exact ⟨hs2, hofs2⟩

end InBuf

/-! ## The outputs -/

section Outputs

variable {p : WExifIn} {mem m : ℕ → UInt8} {app1Size endOffset : ℕ} {s : WriteStream}

/-- the memory behind `Jpeg_WriteAPP1` -/
def withTemp (p : WExifIn) (mem m : ℕ → UInt8) : ℕ → UInt8 := store mem p.tempBufPtr.toNat (cells m 0 p.tempBufSize)

theorem withTemp_outside {a : ℕ} (h : ¬ p.InTemp a) : withTemp p mem m a = mem a := by
  refine store_outside _ _ ?_
  rw [length_cells]
  unfold WExifIn.InTemp at h
  omega

theorem cells_withTemp {size : ℕ} (h : size ≤ p.tempBufSize) :
    cells (withTemp p mem m) p.tempBufPtr.toNat size = cells m 0 size := by
  refine cells_congr fun i hi => ?_
  have hin : i < (cells m 0 p.tempBufSize).length := by
    rw [length_cells]
    omega
  rw [withTemp, store_add _ _ _ hin]
  simp [cells]

theorem writeTemp_eq (happ : writeAPP1 (fun i => mem (p.tempBufPtr.toNat + i)) p.tempBufSize p.exifInfo p.thumbnail =
    some (m, app1Size)) : writeTemp p mem = some (withTemp p mem m, app1Size) := by
  rw [writeTemp, happ]
  rfl

/-- the buffers do not overlap -/
theorem not_inTemp (h : p.Placed) {a : ℕ} (hlo : p.targetBufPtr.toNat ≤ a)
    (hhi : a < p.srcJpegBufPtr.toNat + p.srcJpegSize) : ¬ p.InTemp a := by
  have htemp := h.temp
  unfold WExifIn.InTemp
  omega

theorem free_eq (h : p.Placed) : (p.srcJpegBufPtr - p.targetBufPtr).toNat = p.srcJpegBufPtr.toNat - p.targetBufPtr.toNat :=
  UInt32.toNat_sub_of_le _ _ h.target

/-- the memory at the end of `JPEG_AddExifToMemory` -/
def memoryOutput (p : WExifIn) (mem m : ℕ → UInt8) (app1Size : ℕ) : ℕ → UInt8 :=
  store (store (withTemp p mem m) (p.srcJpegBufPtr.toNat - app1Size) soiMarker) (p.srcJpegBufPtr.toNat - app1Size + 2)
    (cells m 0 app1Size)

theorem addExifToMemory_eq (hp : p.Placed)
    (happ : writeAPP1 (fun i => mem (p.tempBufPtr.toNat + i)) p.tempBufSize p.exifInfo p.thumbnail = some (m, app1Size))
    (hfree : p.targetBufPtr.toNat + app1Size ≤ p.srcJpegBufPtr.toNat) :
    addExifToMemory p mem =
      if app1Size ≤ p.tempBufSize then
        some (memoryOutput p mem m app1Size, p.srcJpegBufPtr.toNat - app1Size, app1Size + p.srcJpegSize)
      else none := by
  have hroom : ¬ (p.srcJpegBufPtr - p.targetBufPtr).toNat < app1Size := by
    rw [free_eq hp]
    omega
  rw [addExifToMemory, writeTemp_eq happ]
  show (if _ then _ else _) = _
  rw [if_neg hroom]
  by_cases hsize : app1Size ≤ p.tempBufSize
  · have hread : readTemp p (store (withTemp p mem m) (p.srcJpegBufPtr.toNat - app1Size) soiMarker) app1Size =
        some (cells m 0 app1Size) := by
      rw [readTemp, if_pos hsize, ← @cells_withTemp p mem m _ hsize]
      congr 1
      refine cells_congr fun i hi => store_outside _ _ ?_
      have htemp := hp.temp
      have hsoi : soiMarker.length = 2 := rfl
      have hsource := hp.source
      omega
    rw [if_pos hsize, hread]
    rfl
  · have hread : readTemp p (store (withTemp p mem m) (p.srcJpegBufPtr.toNat - app1Size) soiMarker) app1Size = none := by
      rw [readTemp, if_neg hsize]
    rw [if_neg hsize, hread]
    rfl

/-- the file at the end of `JPEG_AddExifToFile` -/
def fileOutput (p : WExifIn) (mem m : ℕ → UInt8) (app1Size : ℕ) : ℕ → UInt8 :=
  store (store (store (fun _ => 0) 0 soiMarker) 2 (cells m 0 app1Size)) (2 + app1Size)
    (cells mem (p.srcJpegBufPtr.toNat + 2) (p.srcJpegSize - 2))

/-- the source behind its marker, as the two ways find it -/
theorem cells_source (hp : p.Placed) :
    cells (withTemp p mem m) (p.srcJpegBufPtr.toNat + 2) (p.srcJpegSize - 2) =
      cells mem (p.srcJpegBufPtr.toNat + 2) (p.srcJpegSize - 2) := by
  refine cells_congr fun i hi => withTemp_outside (not_inTemp hp ?_ (by omega))
  have htarget : p.targetBufPtr.toNat ≤ p.srcJpegBufPtr.toNat := hp.target
  omega

theorem addExifToFile_eq (hp : p.Placed)
    (happ : writeAPP1 (fun i => mem (p.tempBufPtr.toNat + i)) p.tempBufSize p.exifInfo p.thumbnail = some (m, app1Size))
    (hsize : app1Size ≤ p.tempBufSize) :
    addExifToFile p mem = some (fileOutput p mem m app1Size, 2 + app1Size + (p.srcJpegSize - 2)) := by
  have hread : readTemp p (withTemp p mem m) app1Size = some (cells m 0 app1Size) := by
    rw [readTemp, if_pos hsize, cells_withTemp hsize]
  rw [addExifToFile, writeTemp_eq happ]
  show (readTemp p (withTemp p mem m) app1Size).bind _ = _
  rw [hread]
  show some (store _ _ (cells (withTemp p mem m) _ _), _) = _
  rw [cells_source hp]
  rfl

/-- three parts one behind the other -/
theorem cells_three {a : ℕ → UInt8} {ofs : ℕ} {l1 l2 l3 : List UInt8} (h1 : Holds a ⟨ofs, l1⟩)
    (h2 : Holds a ⟨ofs + l1.length, l2⟩) (h3 : Holds a ⟨ofs + l1.length + l2.length, l3⟩) :
    cells a ofs (l1.length + l2.length + l3.length) = l1 ++ l2 ++ l3 := by
  have hall : Holds a ⟨ofs, l1 ++ l2 ++ l3⟩ := by
    rw [holds_append_iff, holds_append_iff, List.length_append, ← Nat.add_assoc]
    exact ⟨⟨h1, h2⟩, h3⟩
  have hcells : cells a ofs (l1 ++ l2 ++ l3).length = l1 ++ l2 ++ l3 := hall
  rwa [List.length_append, List.length_append] at hcells

theorem cells_fileOutput :
    cells (fileOutput p mem m app1Size) 0 (2 + app1Size + (p.srcJpegSize - 2)) =
      soiMarker ++ cells m 0 app1Size ++ cells mem (p.srcJpegBufPtr.toNat + 2) (p.srcJpegSize - 2) := by
  have hparts := @cells_three (fileOutput p mem m app1Size) 0 soiMarker (cells m 0 app1Size)
    (cells mem (p.srcJpegBufPtr.toNat + 2) (p.srcJpegSize - 2)) ?_ ?_ ?_
  · rwa [length_cells, length_cells] at hparts
  · refine (holds_store (fun _ => 0) 0 soiMarker).of_eq fun i _ hi => ?_
    have hlt : i < 2 := by simpa [Block.stop, soiMarker] using hi
    rw [fileOutput, store_outside _ _ (by omega), store_outside _ _ (by omega)]
  · refine (holds_store (store (fun _ => 0) 0 soiMarker) 2 (cells m 0 app1Size)).of_eq fun i _ hi => ?_
    simp only [Block.stop, length_cells] at hi
    exact store_outside _ _ (by omega)
  · rw [Nat.zero_add, length_cells]
    exact holds_store _ _ _

theorem cells_memoryOutput (hp : p.Placed) (hfree : p.targetBufPtr.toNat + app1Size ≤ p.srcJpegBufPtr.toNat) :
    cells (memoryOutput p mem m app1Size) (p.srcJpegBufPtr.toNat - app1Size) (2 + app1Size + (p.srcJpegSize - 2)) =
      soiMarker ++ cells m 0 app1Size ++ cells mem (p.srcJpegBufPtr.toNat + 2) (p.srcJpegSize - 2) := by
  have hlen : soiMarker.length = 2 := rfl
  have hparts := @cells_three (memoryOutput p mem m app1Size) (p.srcJpegBufPtr.toNat - app1Size) soiMarker
    (cells m 0 app1Size) (cells mem (p.srcJpegBufPtr.toNat + 2) (p.srcJpegSize - 2)) ?_ ?_ ?_
  · rwa [length_cells, length_cells] at hparts
  · refine (holds_store _ _ soiMarker).of_eq fun i _ hi => store_outside _ _ (Or.inl ?_)
    simpa [Block.stop, hlen] using hi
  · exact holds_store _ _ _
  · rw [length_cells, hlen, show p.srcJpegBufPtr.toNat - app1Size + 2 + app1Size = p.srcJpegBufPtr.toNat + 2 by omega]
    have hsource : Holds (withTemp p mem m) ⟨p.srcJpegBufPtr.toNat + 2,
        cells mem (p.srcJpegBufPtr.toNat + 2) (p.srcJpegSize - 2)⟩ := by
      rw [Holds, length_cells]
      exact cells_source hp
    refine hsource.of_eq fun i hi _ => ?_
    simp only at hi
    rw [memoryOutput, store_outside _ _ (by rw [length_cells]; omega), store_outside _ _ (by omega)]

theorem memoryOutput_frame {a : ℕ} (happ : app1Size ≤ p.srcJpegBufPtr.toNat) (ht : ¬ p.InTemp a)
    (ha : a < p.srcJpegBufPtr.toNat - app1Size ∨ p.srcJpegBufPtr.toNat + 2 ≤ a) :
    memoryOutput p mem m app1Size a = mem a := by
  have hlen : soiMarker.length = 2 := rfl
  rw [memoryOutput, store_outside _ _ (by rw [length_cells]; omega), store_outside _ _ (by omega)]
  exact withTemp_outside ht

/-- the ways succeed only when the segment is in the temporary buffer, and have no other segment than that of app1_size
bytes -/
theorem inserts_length (hp : p.Placed)
    (happ : writeAPP1 (fun i => mem (p.tempBufPtr.toNat + i)) p.tempBufSize p.exifInfo p.thumbnail = some (m, app1Size))
    (hfree : p.targetBufPtr.toNat + app1Size ≤ p.srcJpegBufPtr.toNat) {segment : List UInt8}
    (h : Inserts p mem segment) : segment.length = app1Size ∧ app1Size ≤ p.tempBufSize := by
  obtain ⟨mem', outputBufPtr, outputSize, file, fileSize, hmemory, hfile, -, heq, -, -, -⟩ := h
  have hsize : app1Size ≤ p.tempBufSize := by
    by_contra hlt
    rw [addExifToMemory_eq hp happ hfree, if_neg hlt] at hmemory
    exact absurd hmemory (by simp)
  refine ⟨?_, hsize⟩
  rw [addExifToFile_eq hp happ hsize] at hfile
  obtain ⟨-, rfl⟩ := Prod.mk.inj (Option.some.inj hfile)
  have hlen := congrArg List.length heq
  have hsoi : soiMarker.length = 2 := rfl
  rw [List.length_append, List.length_append, length_cells, length_cells, hsoi] at hlen
  omega

/-- the length field of a segment that got to the end -/
theorem be16_app1 (happ : writeAPP1 (fun i => mem (p.tempBufPtr.toNat + i)) p.tempBufSize p.exifInfo p.thumbnail =
      some (m, app1Size))
    (hifds : writeIFDs ⟨fun i => mem (p.tempBufPtr.toNat + i), p.tempBufSize, 0⟩ p.exifInfo p.thumbnail =
      some (s, endOffset)) :
    app1Size = app1Length endOffset + 2 ∧ be16 m 2 = app1Length endOffset := by
  obtain ⟨h10, s0, endOffset0, hifds0, hn, s', stop, hheader, rfl⟩ := writeAPP1_some happ
  rw [hifds] at hifds0
  obtain ⟨rfl, rfl⟩ := Prod.mk.inj (Option.some.inj hifds0)
  have hinBuf := (inBuf_writeIFDs rfl h10 hifds).1
  rw [writeAPP1Header_fits _ (by rw [hinBuf.size]; exact h10)] at hheader
  obtain ⟨rfl, -⟩ := Prod.mk.inj (Option.some.inj hheader)
  have hholds := holds_store s.writeBuf 0 (app1Header (app1Length endOffset))
  rw [app1Header, holds_append_iff, holds_append_iff] at hholds
  have hlt : app1Length endOffset < 2 ^ 16 := Nat.mod_lt _ (by decide)
  exact ⟨hn, be16_of_holds hholds.1.2 hlt⟩

theorem be16_ofList_cells {n : ℕ} (h : 4 ≤ n) : be16 (ofList (cells m 0 n)) 2 = be16 m 2 := by
  have hget : ∀ i < n, ofList (cells m 0 n) i = m i := by
    intro i hi
    rw [ofList_get (by rw [length_cells]; exact hi)]
    simp [cells]
  rw [be16, be16, hget 2 (by omega), hget (2 + 1) (by omega)]

/-- the two ways agree on the segment of app1_size bytes -/
theorem inserts_app1 (hp : p.Placed)
    (happ : writeAPP1 (fun i => mem (p.tempBufPtr.toNat + i)) p.tempBufSize p.exifInfo p.thumbnail = some (m, app1Size))
    (hifds : writeIFDs ⟨fun i => mem (p.tempBufPtr.toNat + i), p.tempBufSize, 0⟩ p.exifInfo p.thumbnail =
      some (s, endOffset))
    (hfree : p.targetBufPtr.toNat + app1Size ≤ p.srcJpegBufPtr.toNat) (h4 : 4 ≤ app1Size)
    (hsize : app1Size ≤ p.tempBufSize) : Inserts p mem (cells m 0 app1Size) := by
  have hsource := hp.source
  have hmemory := addExifToMemory_eq hp happ hfree
  rw [if_pos hsize, show app1Size + p.srcJpegSize = 2 + app1Size + (p.srcJpegSize - 2) by omega] at hmemory
  obtain ⟨hn, hfield⟩ := be16_app1 happ hifds
  refine ⟨_, _, _, _, _, hmemory, addExifToFile_eq hp happ hsize, ?_, cells_fileOutput, ?_, ?_, ?_⟩
  · rw [cells_memoryOutput hp hfree, cells_fileOutput]
  · rw [length_cells]
    exact h4
  · rw [be16_ofList_cells h4, hfield, length_cells, hn]
  · exact fun a ht ha => memoryOutput_frame (by omega) ht ha

/-- app1_size is the length of the segment up to the largest one that its length field can name -/
theorem app1Size_eq_iff (h4 : 4 ≤ endOffset) : app1Length endOffset + 2 = endOffset ↔ endOffset ≤ 65537 := by
  unfold app1Length
  omega

/-- **The two ways.** They agree on the segment of app1_size bytes. It is the whole segment exactly when its length goes
in the length field and the end offset, which is rounded up, is inside the temporary buffer. -/
theorem addExif_iff (hp : p.Placed)
    (happ : writeAPP1 (fun i => mem (p.tempBufPtr.toNat + i)) p.tempBufSize p.exifInfo p.thumbnail = some (m, app1Size))
    (hifds : writeIFDs ⟨fun i => mem (p.tempBufPtr.toNat + i), p.tempBufSize, 0⟩ p.exifInfo p.thumbnail =
      some (s, endOffset))
    (hfree : p.targetBufPtr.toNat + app1Size ≤ p.srcJpegBufPtr.toNat) :
    (4 ≤ app1Size → app1Size ≤ p.tempBufSize → Inserts p mem (cells m 0 app1Size)) ∧
    (Inserts p mem (cells m 0 endOffset) ↔ endOffset ≤ 65537 ∧ endOffset ≤ p.tempBufSize) := by
  refine ⟨fun h4 hsize => inserts_app1 hp happ hifds hfree h4 hsize, ?_, ?_⟩
  all_goals
    obtain ⟨h10, -⟩ := writeAPP1_some happ
    have h4 := (inBuf_writeIFDs rfl h10 hifds).2
    obtain ⟨hn, -⟩ := be16_app1 happ hifds
  · intro h
    obtain ⟨hlen, hsize⟩ := inserts_length hp happ hfree h
    rw [length_cells] at hlen
    exact ⟨(app1Size_eq_iff h4).1 (by rw [← hn, hlen]), hlen.trans_le hsize⟩
  · rintro ⟨hlt, hsize⟩
    have heq : app1Size = endOffset := hn.trans ((app1Size_eq_iff h4).2 hlt)
    subst heq
    exact inserts_app1 hp happ hifds hfree h4 hsize

end Outputs

/-- the picture of the copyright, in front of a JPEG of two bytes -/
def copyrightIn : WExifIn where
  exifInfo := copyrightInfo
  srcJpegBufPtr := 1000
  srcJpegSize := 2
  thumbnail := []
  tempBufPtr := 0
  tempBufSize := 400
  targetBufPtr := 500

theorem addExif_iff_copyright :
    ∃ m, writeAPP1 (fun _ => 0) 400 copyrightInfo [] = some (m, 336) ∧ Inserts copyrightIn (fun _ => 0) (cells m 0 336) := by
  obtain ⟨s, hifds⟩ : ∃ s, writeIFDs ⟨fun _ => 0, 400, 0⟩ copyrightInfo [] = some (s, 336) := ⟨_, rfl⟩
  obtain ⟨m, happ⟩ : ∃ m, writeAPP1 (fun _ => 0) 400 copyrightInfo [] = some (m, 336) := ⟨_, rfl⟩
  have hplaced : copyrightIn.Placed := ⟨by decide, by decide, by decide⟩
  have hinserts := @addExif_iff copyrightIn (fun _ => 0) m 336 336 s hplaced happ hifds (by decide)
  exact ⟨m, happ, hinserts.2.2 ⟨by decide, by decide⟩⟩

/-- a picture of which only the size is known -/
def plainInfo : ExifInfo where
  primary :=
    { basic := { yCbCrPositioning := 1, xResolution := ⟨72, 1⟩, yResolution := ⟨72, 1⟩, resolutionUnit := 2,
                 imageWidth := 640, imageLength := 480 }
      dataStruct := none
      dataChar := none
      imgDesc := none }
  spec := none
  gps := none
  inter := none

theorem stop_plain {l : List UInt8} (hne : 0 < l.length) : (layIFDs plainInfo l).stop = 640 + l.length := by
  have hifd0 : (layIFD0 plainInfo l).stop = 328 := rfl
  have hifd1 (b : ℕ) : (layIFD APP1_RESERVED ifd1Primary none none none l false b).stop =
      (layBehind APP1_RESERVED ifd1Primary none none none
        (layFields APP1_RESERVED (primaryFieldsBefore ifd1Primary) (valuesFrom 24 b)).stop).stop + l.length := rfl
  rw [layIFDs_eq, if_pos hne]
  show (layIFD APP1_RESERVED ifd1Primary none none none l false (layIFD0 plainInfo l).stop).stop = _
  rw [hifd1, hifd0]
  rfl

/-- with a thumbnail of 64898 bytes, app1_size is 2 -/
theorem writeAPP1_wraps {l : List UInt8} (hlen : l.length = 64898) (targetBuf : ℕ → UInt8) :
    ∃ m, writeAPP1 targetBuf 70000 plainInfo l = some (m, 2) := by
  have hstop : (layIFDs plainInfo l).stop = 65538 := by
    rw [stop_plain (by omega), hlen]
  have hfits : ∀ q ∈ (layIFDs plainInfo l).pieces, (q.block APP1_RESERVED).stop ≤ 70000 := by
    intro q hq
    have hin := (Ascending.mem (List.mem_map_of_mem hq) (ordered_layIFDs plainInfo l)).2
    omega
  obtain ⟨s, hifds, hwritten⟩ := writeIFDs_fits plainInfo l ⟨targetBuf, 70000, 0⟩ hfits
  rw [hstop] at hifds
  refine ⟨store s.writeBuf 0 (app1Header 0), ?_⟩
  rw [writeAPP1, if_neg (by decide), hifds]
  show (writeAPP1Header s 0 0).bind _ = _
  rw [writeAPP1Header_fits 0 (by rw [hwritten.size]; exact (by decide : 10 ≤ 70000))]
  rfl

/-- a JPEG of two bytes, and a thumbnail of 64898 -/
def bigThumbnail : WExifIn where
  exifInfo := plainInfo
  srcJpegBufPtr := 80000
  srcJpegSize := 2
  thumbnail := List.replicate 64898 0
  tempBufPtr := 0
  tempBufSize := 70000
  targetBufPtr := 70000

/-- a segment of 65538 bytes has no room in its length field: the two ways have two bytes of it -/
theorem segment_wraps :
    ¬ ∀ (p : WExifIn) (mem m : ℕ → UInt8) (app1Size : ℕ), p.Placed →
      writeAPP1 (fun i => mem (p.tempBufPtr.toNat + i)) p.tempBufSize p.exifInfo p.thumbnail = some (m, app1Size) →
      p.targetBufPtr.toNat + app1Size ≤ p.srcJpegBufPtr.toNat → ∃ segment, Inserts p mem segment := by
  intro h
  obtain ⟨m, happ⟩ := writeAPP1_wraps (l := bigThumbnail.thumbnail) List.length_replicate
    fun i => (0 : ℕ → UInt8) (bigThumbnail.tempBufPtr.toNat + i)
  have hplaced : bigThumbnail.Placed := ⟨by decide, by decide, by decide⟩
  have hfree : bigThumbnail.targetBufPtr.toNat + 2 ≤ bigThumbnail.srcJpegBufPtr.toNat := by decide
  obtain ⟨segment, hinserts⟩ := h bigThumbnail _ m 2 hplaced happ hfree
  have htwo := (inserts_length hplaced happ hfree hinserts).1
  obtain ⟨-, -, -, -, -, -, -, -, -, hfour, -⟩ := hinserts
  omega

end SprdDevice.Exif
