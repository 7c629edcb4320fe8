/-
The product data of the engineering mode (`eng_diag.c`: `eng_diag_product_ctrl`; `eng_productdata.c`).

A request is a message header (the length at byte 4, the subtype at byte 7), an offset, a length and, for a write, the
data. The product file is a memory from its first byte on; both routines of `eng_productdata.c` open it and start there.
What the calls of a request do is a parameter: the bytes `malloc` finds, and what `read` and `write` return (0 or less also
when the file does not open). A write into `nvdata` or into the response buffer that leaves it ends what the model says.

Results: `ctrl_write` and `ctrl_read` (the file after a write, the bytes a read returns) and `product_iff`.
-/
import Mathlib.Tactic
import SprdDevice.NvmDaemon.PhaseCheck
import SprdDevice.EngMode.Codec

namespace SprdDevice.EngMode

open SprdDevice.Escape SprdDevice.Memory SprdDevice.Word
open SprdDevice.NvmDaemon (PRODUCTINFO_SIZE)

/-! ## Model -/

/-- `sizeof(eng_diag_buf)` -/
def diagSize : ℕ := 2 * 4096

/-- `sizeof(MSG_HEAD_T)` -/
def msgHeadSize : ℕ := 8

/-- what is written to the PC, with the message that it carries -/
structure Answer where
  msg : List UInt8
  wire : List UInt8

def translated (msg : List UInt8) : Answer := ⟨msg, translatePacket msg⟩

structure ProductIo where
  heap : Mem
  got : ℤ
  put : ℤ

/-- `databuf` starts at index `ofs` of mem -/
def engReadProductnvdata (file : Mem) (got : ℤ) (mem : Mem) (ofs dataLen : ℕ) : UInt8 × Mem :=
  if got ≤ 0 then (1, mem) else (0, store mem ofs (cells file 0 (min got.toNat dataLen)))

def engWriteProductnvdata (file : Mem) (put : ℤ) (databuf : Mem) (dataLen : ℕ) : UInt8 × Mem :=
  if put ≤ 0 then (1, file) else (0, copy file databuf (min put.toNat dataLen))

/-- the message header at index `ofs` with a new subtype and a new length -/
def patchHead (mem : Mem) (ofs : ℕ) (subtype : UInt8) (len : ℕ) : Mem :=
  store (Function.update mem (ofs + 7) subtype) (ofs + 4) (le16Bytes len)

/-- the response, if there is one, and the file afterwards; none when a buffer is left -/
def engDiagProductCtrl (buf : Mem) (rsplen : ℕ) (file : Mem) (io : ProductIo) : Option (Option Answer × Mem) :=
  let headLen := msgHeadSize + 2 * 2
  let offset := le16 buf (1 + msgHeadSize)
  let dataLen := le16 buf (1 + msgHeadSize + 2)
  if rsplen < headLen + dataLen + 2 then some (none, file)
  else if buf 8 = 2 then
    let nvdata := store io.heap 0 (cells buf 1 headLen)
    let (nverr, nvdata) := engReadProductnvdata file io.got nvdata headLen dataLen
    let dataLen := if nverr ≠ 0 then 0 else dataLen
    let nvdata := patchHead nvdata 0 nverr (headLen + dataLen)
    let rsp := translated (cells nvdata 0 (headLen + dataLen))
    if rsplen < rsp.wire.length then none else some (some rsp, file)
  else if buf 8 = 3 then
    let (nverr, nvdata) := engReadProductnvdata file io.got io.heap 0 dataLen
    if nverr = 0 ∧ rsplen < offset + dataLen then none
    else
      let (nverr, file) :=
        if nverr ≠ 0 then (nverr, file)
        else engWriteProductnvdata file io.put (store nvdata offset (cells buf (1 + headLen) dataLen)) dataLen
      let rsp := translated (cells (patchHead buf 1 nverr msgHeadSize) 1 msgHeadSize)
      if rsplen < rsp.wire.length then none else some (some rsp, file)
  else some (none, file)

/-! ## The property -/

/-- a request with this subtype, offset and length -/
structure Request (buf : Mem) (subtype : UInt8) (offset len : ℕ) : Prop where
  subtype : buf 8 = subtype
  offset : le16 buf 9 = offset
  len : le16 buf 11 = len

/-- every access to the file goes through, over n bytes -/
def whole (heap : Mem) (n : ℕ) : ProductIo := ⟨heap, n, n⟩

/-- the data that an answer to a read carries, as the receiver unescapes it -/
def Answer.data (a : Answer) : List UInt8 := (unescape 0 (a.wire.drop 1).dropLast).drop 12

/-- the write w of the data at the offset is answered and changes no byte outside, and the read r after it returns the
data -/
def ReadAfterWrite (file : Mem) (offset : ℕ) (data : List UInt8) (w r heap heap' : Mem) : Prop :=
  ∃ a file' a' file'', engDiagProductCtrl w diagSize file (whole heap data.length) = some (some a, file') ∧
    engDiagProductCtrl r diagSize file' (whole heap' data.length) = some (some a', file'') ∧ a'.data = data ∧
      ∀ j, j < offset ∨ offset + data.length ≤ j → file' j = file j

/-! ## A request -/

theorem length_translatePacket_le (msg : List UInt8) : (translatePacket msg).length ≤ 2 * msg.length + 2 := by
  have hcount : msg.countP (fun b => b = 0x7D ∨ b = 0x7E) ≤ msg.length := List.countP_le_length
  have hstuff := length_stuff msg
  rw [translatePacket_eq_frame, length_frame]
  omega

/-- between its flags a translated message unescapes to itself -/
theorem data_translated (msg : List UInt8) : (translated msg).data = msg.drop 12 := by
  have hbody : ((translated msg).wire.drop 1).dropLast = stuff msg := by
    rw [translated, translatePacket_eq_frame]
    simp [frame]
  rw [Answer.data, hbody, unescape_stuff_end]

/-- the area after a write of the data at the offset: the request's length is taken from the start of the file -/
def writtenFile (file : Mem) (offset : ℕ) (data : List UInt8) : Mem := copy file (store file offset data) data.length

theorem length_short_answer {msg : List UInt8} (h : msg.length ≤ 4000) : ¬ diagSize < (translated msg).wire.length := by
  have hle := length_translatePacket_le msg
  have hwire : (translated msg).wire = translatePacket msg := rfl
  rw [hwire]
  unfold diagSize
  omega

section

variable {buf file heap mem : Mem} {offset ofs n : ℕ} {data : List UInt8}

theorem read_whole (h : n ≠ 0) : engReadProductnvdata file n mem ofs n = (0, store mem ofs (cells file 0 n)) := by
  have hmin : min (n : ℤ).toNat n = n := by simp
  rw [engReadProductnvdata, if_neg (by omega), hmin]

theorem read_empty : engReadProductnvdata file (0 : ℕ) mem ofs n = (1, mem) := if_pos (by simp)

theorem write_whole (h : n ≠ 0) : engWriteProductnvdata file n mem n = (0, copy file mem n) := by
  have hmin : min (n : ℤ).toNat n = n := by simp
  rw [engWriteProductnvdata, if_neg (by omega), hmin]

theorem writtenFile_nil (h : data.length = 0) : writtenFile file offset data = file := by
  funext j
  exact if_neg (by omega)

/-- what `nvdata` holds below the length: the file, and the data from the offset on -/
theorem writtenFile_eq :
    copy file (store (store heap 0 (cells file 0 data.length)) offset data) data.length = writtenFile file offset data := by
  funext j
  unfold writtenFile copy
  by_cases hj : j < data.length
  · rw [if_pos hj, if_pos hj]
    by_cases hin : offset ≤ j
    · rw [store_inside _ data hin (by omega), store_inside _ data hin (by omega)]
    · rw [store_outside _ data (Or.inl (by omega)), store_outside _ data (Or.inl (by omega)),
        store_zero_get heap (cells file 0 data.length) (by simpa using hj)]
      simp [cells]
  · rw [if_neg hj, if_neg hj]

theorem ctrl_write (file heap : Mem) (hw : Request buf 3 offset data.length) (hdata : cells buf 13 data.length = data)
    (harea : offset + data.length ≤ PRODUCTINFO_SIZE) :
    ∃ a, engDiagProductCtrl buf diagSize file (whole heap data.length) = some (some a, writtenFile file offset data) := by
  have hlow : offset + data.length ≤ 3072 := harea
  have hfit : ¬ diagSize < msgHeadSize + 2 * 2 + data.length + 2 := by
    have hsize : diagSize = 8192 := rfl
    have hhead : msgHeadSize = 8 := rfl
    omega
  have hroom : ¬ diagSize < offset + data.length := by
    have hsize : diagSize = 8192 := rfl
    omega
  have hno2 : ¬ buf 8 = 2 := by
    rw [hw.subtype]
    decide
  have hfailed : (1 : UInt8) ≠ 0 := by decide
  have hofs : le16 buf (1 + msgHeadSize) = offset := hw.offset
  have hlen : le16 buf (1 + msgHeadSize + 2) = data.length := hw.len
  have hbytes : cells buf (1 + (msgHeadSize + 2 * 2)) data.length = data := hdata
  have hshort : ∀ mem : Mem, ¬ diagSize < (translated (cells mem 1 msgHeadSize)).wire.length :=
    fun mem => length_short_answer (by simp [msgHeadSize])
  unfold engDiagProductCtrl whole
  dsimp only
  rw [hofs, hlen, hbytes, if_neg hfit, if_neg hno2, if_pos hw.subtype]
  by_cases hnil : data.length = 0
  · rw [writtenFile_nil hnil, hnil, read_empty]
    dsimp only
    rw [if_neg (fun h => hfailed h.1), if_pos hfailed, if_neg (hshort _)]
    exact ⟨_, rfl⟩
  · rw [read_whole hnil]
    dsimp only
    rw [if_neg (fun h => hroom h.2), if_neg (not_not.mpr rfl), write_whole hnil]
    dsimp only
    rw [if_neg (hshort _), writtenFile_eq]
    exact ⟨_, rfl⟩

theorem ctrl_read (file heap : Mem) (hr : Request buf 2 offset n) (hn : n ≤ PRODUCTINFO_SIZE) :
    ∃ a, engDiagProductCtrl buf diagSize file (whole heap n) = some (some a, file) ∧ a.data = cells file 0 n := by
  have hlow : n ≤ 3072 := hn
  have hhead : msgHeadSize = 8 := rfl
  have hfit : ¬ diagSize < msgHeadSize + 2 * 2 + n + 2 := by
    have hsize : diagSize = 8192 := rfl
    omega
  have hfailed : (1 : UInt8) ≠ 0 := by decide
  have hlen : le16 buf (1 + msgHeadSize + 2) = n := hr.len
  have hshort : ∀ mem : Mem, ∀ k ≤ n, ¬ diagSize < (translated (cells mem 0 (msgHeadSize + 2 * 2 + k))).wire.length := by
    intro mem k hk
    apply length_short_answer
    rw [length_cells]
    omega
  unfold engDiagProductCtrl whole
  dsimp only
  rw [hlen, if_neg hfit, if_pos hr.subtype]
  by_cases hnil : n = 0
  · subst hnil
    rw [read_empty]
    dsimp only
    rw [if_pos hfailed, if_neg (hshort _ 0 le_rfl)]
    refine ⟨_, rfl, ?_⟩
    rw [data_translated]
    rfl
  · rw [read_whole hnil]
    dsimp only
    rw [if_neg (not_not.mpr rfl), if_neg (hshort _ n le_rfl)]
    refine ⟨_, rfl, ?_⟩
    rw [data_translated, cells_add, List.drop_left' (by simp [msgHeadSize])]
    apply cells_congr
    intro i hi
    have hbehind : ∀ mem : Mem, patchHead mem 0 0 (msgHeadSize + 2 * 2 + n) (0 + (msgHeadSize + 2 * 2) + i) =
        mem (msgHeadSize + 2 * 2 + i) := by
      intro mem
      unfold patchHead
      rw [store_outside _ _ (Or.inr (by simp [le16Bytes]; omega)), Function.update_of_ne (by omega), Nat.zero_add]
    rw [hbehind, store_inside _ _ (by omega) (by simp; omega)]
    simp [cells]

end

/-- no byte outside the request is touched -/
theorem writtenFile_outside (file : Mem) (offset : ℕ) (data : List UInt8) {j : ℕ}
    (hj : j < offset ∨ offset + data.length ≤ j) : writtenFile file offset data j = file j := by
  unfold writtenFile copy
  split_ifs
  · exact store_outside file data hj
  · rfl

/-- what a read returns after the write, when it returns anything -/
theorem read_after_write {file : Mem} {offset : ℕ} {data : List UInt8} {w r heap heap' : Mem}
    (hw : Request w 3 offset data.length) (hdata : cells w 13 data.length = data) (hr : Request r 2 offset data.length)
    (harea : offset + data.length ≤ PRODUCTINFO_SIZE) :
    ReadAfterWrite file offset data w r heap heap' ↔ cells (store file offset data) 0 data.length = data := by
  obtain ⟨a, hwrite⟩ := ctrl_write file heap hw hdata harea
  obtain ⟨a', hread, hback⟩ := ctrl_read (writtenFile file offset data) heap' hr (by omega)
  have hstart : cells (writtenFile file offset data) 0 data.length = cells (store file offset data) 0 data.length :=
    (cells_eq_iff _ _ _).mpr (copy_same _ _ _)
  rw [← hstart, ← hback]
  constructor
  · rintro ⟨b, file', b', file'', hwrite', hread', hdata', -⟩
    rw [hwrite] at hwrite'
    cases hwrite'
    rw [hread] at hread'
    cases hread'
    exact hdata'
  · exact fun h => ⟨a, _, a', _, hwrite, hread, h, fun j hj => writtenFile_outside file offset data hj⟩

/-- up to the offset the data are what the file begins with, and from there on they repeat themselves -/
def Repeats (file : Mem) (offset : ℕ) (data : List UInt8) : Prop :=
  ∀ j < data.length, data[j]? = if j < offset then some (file j) else data[j - offset]?

theorem repeats_iff (file : Mem) (offset : ℕ) (data : List UInt8) :
    Repeats file offset data ↔ cells (store file offset data) 0 data.length = data := by
  have hbyte : ∀ j < data.length,
      some (store file offset data j) = if j < offset then some (file j) else data[j - offset]? := by
    intro j hj
    split_ifs with hlow
    · rw [store_outside file data (Or.inl hlow)]
    · rw [store_inside file data (by omega) (by omega), List.getElem?_eq_getElem (by omega)]
  constructor
  · intro h
    apply cells_eq_list rfl
    intro j hj
    have hat := h j hj
    rw [← hbyte j hj, List.getElem?_eq_getElem hj] at hat
    exact (Option.some.inj hat).symm
  · intro h j hj
    have hat : data[j]? = (cells (store file offset data) 0 data.length)[j]? := by rw [h]
    rw [← hbyte j hj, hat]
    simp [cells, hj]

/-- at no other offset than 0 does every file have its data read back -/
theorem repeats_every_file (offset : ℕ) (data : List UInt8) :
    (∀ file, Repeats file offset data) ↔ offset = 0 ∨ data = [] := by
  constructor
  · intro h
    by_contra hno
    rw [not_or] at hno
    obtain ⟨b, rest, rfl⟩ := List.exists_cons_of_ne_nil hno.2
    have hfirst := h (fun _ => b + 1) 0 (by simp)
    rw [if_pos (by omega), List.getElem?_cons_zero] at hfirst
    have hstep : b = b + 1 := Option.some.inj hfirst
    grind
  · rintro (rfl | rfl) file j hj
    · rw [if_neg (by omega), Nat.sub_zero]
    · exact absurd hj (by simp)

/-- **Read after write of the product data.** A write of the data at an offset inside the area leaves every byte outside as
it was. The read of the same offset and length returns the data exactly when they begin as the file does, up to the offset,
and repeat themselves from there on. -/
theorem product_iff (file : Mem) (offset : ℕ) (data : List UInt8) (w r heap heap' : Mem)
    (hw : Request w 3 offset data.length) (hdata : cells w 13 data.length = data) (hr : Request r 2 offset data.length)
    (harea : offset + data.length ≤ PRODUCTINFO_SIZE) :
    ReadAfterWrite file offset data w r heap heap' ↔ Repeats file offset data := by
  rw [read_after_write hw hdata hr harea, repeats_iff]

/-- a request for one byte at this offset, with the byte behind it -/
def oneByte (subtype offset byte : UInt8) : Mem := ofList [0x7E, 0, 0, 0, 0, 0, 0, 0x0D, subtype, offset, 0, 1, 0, byte]

theorem product_iff_start : ReadAfterWrite (fun _ => 0) 0 [5] (oneByte 3 0 5) (oneByte 2 0 0) (fun _ => 0) (fun _ => 0) ↔
    Repeats (fun _ => 0) 0 [5] :=
  product_iff (fun _ => 0) 0 [5] (oneByte 3 0 5) (oneByte 2 0 0) (fun _ => 0) (fun _ => 0) ⟨rfl, by decide, by decide⟩
    (by decide) ⟨rfl, by decide, by decide⟩ (by decide)

/-- The byte at offset 1 is written and the byte at offset 0 is read. -/
theorem read_ignores_offset : ¬ ∀ (file : Mem) (offset : ℕ) (data : List UInt8) (w r heap heap' : Mem),
    Request w 3 offset data.length → cells w 13 data.length = data → Request r 2 offset data.length →
      offset + data.length ≤ PRODUCTINFO_SIZE → ReadAfterWrite file offset data w r heap heap' := by
  intro hall
  have hw : Request (oneByte 3 1 5) 3 1 1 := ⟨rfl, by decide, by decide⟩
  have hr : Request (oneByte 2 1 0) 2 1 1 := ⟨rfl, by decide, by decide⟩
  have hback := hall (fun _ => 0) 1 [5] _ _ (fun _ => 0) (fun _ => 0) hw (by decide) hr (by decide)
  rw [read_after_write hw (by decide) hr (by decide)] at hback
  exact absurd hback (by decide)

end SprdDevice.EngMode
