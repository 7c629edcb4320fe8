/-
The buffers of one capture (`cmr_mem.c`): `camera_arrange_capture_buf` with `arrange_raw_buf`, `arrange_jpeg_buf`,
`arrange_yuv_buf`, `arrange_misc_buf` and `arrange_rot_buf`.

- All sizes and addresses are 32-bit, and sums and products wrap (`u32`). An address is an offset into `mem_frm` or into
  one of the blocks of `alloc_mem`: the physical and the virtual address of a frame differ from their bases by the same
  offset. Each call of `alloc_mem` returns a new block.
- `mem_end` is the cursor into `mem_frm` and `mem_res` what is left behind it. `steps` has both after every change.
- `CMR_NO_MEM` is `none`.
- A frame has the fields the code fills in. The copies for the other images of a burst (`image_cnt`) are left out.
- The two planes of `cap_yuv_rot` are the channel size and half of it, as they are laid out; the RAW UV plane is the
  `uv_size` bytes from `target_yuv.addr_u` on.

With a rotation the JPEG is put over the rotation buffer, and nobody asks whether it fits there: the buffer has one and a
half channels when it is in the frame, and its first block one channel otherwise.

Results: `arrange_steps`, `arrange_plain`, `arrange_rotated` and `capture_layout_iff`.
-/
import Mathlib.Tactic
import SprdDevice.Lib.Arena

namespace SprdDevice.Camera

open SprdDevice.Arena

/-! ## Model -/

@[irreducible] def u32 (n : ℕ) : ℕ := n % 2 ^ 32

/-- a - b in 32 bits -/
@[irreducible] def sub32 (a b : ℕ) : ℕ := (((a : ℤ) - b) % 2 ^ 32).toNat

/-- `struct img_size` -/
structure ImgSize where
  width : ℕ
  height : ℕ
  width_lt : width < 2 ^ 32
  height_lt : height < 2 ^ 32

/-- the fields of `struct img_rect` that are read -/
structure ImgRect where
  startY : ℕ
  height : ℕ
  startY_lt : startY < 2 ^ 32
  height_lt : height < 2 ^ 32

/-- `orig_fmt`: every other format goes the way of YUV -/
inductive OrigFmt where
  | raw
  | jpeg
  | yuv
deriving DecidableEq, Repr

/-- what `camera_arrange_capture_buf` is called with -/
structure Capture where
  snSize : ImgSize
  snTrim : ImgRect
  imageSize : ImgSize
  origFmt : OrigFmt
  capSize : ImgSize
  thumSize : ImgSize
  needRot : Bool
  bufSize : ℕ
  bufSize_lt : bufSize < 2 ^ 32

inductive FrmFmt where
  | raw
  | yuv420
deriving DecidableEq, Repr

/-- `struct img_frm` -/
structure ImgFrm where
  fmt : Option FrmFmt
  bufSize : ℕ
  width : ℕ
  height : ℕ
  addrY : Addr
  addrU : Addr
deriving DecidableEq, Repr

/-- a cleared frame -/
def ImgFrm.zero : ImgFrm := ⟨none, 0, 0, 0, ⟨.null, 0⟩, ⟨.null, 0⟩⟩

/-- `struct cmr_cap_mem` -/
structure CmrCapMem where
  capRaw : ImgFrm
  capYuv : ImgFrm
  targetYuv : ImgFrm
  targetJpeg : ImgFrm
  thumYuv : ImgFrm
  thumJpeg : ImgFrm
  jpegTmp : ImgFrm
  capYuvRot : ImgFrm
deriving DecidableEq, Repr

def CmrCapMem.zero : CmrCapMem :=
  ⟨.zero, .zero, .zero, .zero, .zero, .zero, .zero, .zero⟩

/-- the local variables of the arrangement, and the blocks allocated -/
structure Mem where
  memRes : ℕ
  memEnd : ℕ
  channelSize : ℕ
  blocks : List ℕ
  steps : List (ℕ × ℕ)
deriving DecidableEq, Repr

def aligned16 (w : ℕ) : ℕ := u32 (w + 16 - 1) / 16 * 16

def addrByWord (a : ℕ) : ℕ := u32 (a + 3) / 4 * 4

/-- `JPEG_EXIF_SIZE` -/
def jpegExifSize : ℕ := 64 * 1024

/-- `CMR_SLICE_HEIGHT`, the gap from the YUV to the RAW lines -/
def cmrSliceHeight : ℕ := 256

/-- `JPEG_SMALL_SIZE` -/
def jpegSmallSize : ℕ := 300 * 1024

/-- `CMR_JPEG_SZIE` -/
def cmrJpegSize (w h : ℕ) : ℕ := u32 (w * h) / 2

def getJpegSize (w h : ℕ) : ℕ :=
  addrByWord (if u32 (w * h) ≤ jpegSmallSize then u32 (cmrJpegSize w h + jpegExifSize) else cmrJpegSize w h)

def getThumYuvSize (w h : ℕ) : ℕ := u32 (u32 (w * h) * 3) / 2

def getThumJpegSize (w h : ℕ) : ℕ := addrByWord (cmrJpegSize w h)

/-- the start of `mem_frm` -/
def memFrm : Addr := ⟨.frame, 0⟩

def Capture.imageWidth (c : Capture) : ℕ := aligned16 c.imageSize.width

def Capture.imageHeight (c : Capture) : ℕ := aligned16 c.imageSize.height

/-- the pixels of the aligned image -/
def Capture.imageChannel (c : Capture) : ℕ := u32 (c.imageWidth * c.imageHeight)

/-- `target_jpeg.buf_size` as it is first computed -/
def Capture.jpegSize (c : Capture) : ℕ := getJpegSize c.imageWidth c.imageHeight

/-- `mem_end += n; mem_res -= n` -/
def Mem.bump (m : Mem) (n : ℕ) : Mem :=
  { m with
    memEnd := u32 (m.memEnd + n)
    memRes := sub32 m.memRes n
    steps := m.steps ++ [(u32 (m.memEnd + n), sub32 m.memRes n)] }

/-- `mem_end = n; mem_res = mem_res - mem_end` -/
def Mem.start (m : Mem) (n : ℕ) : Mem :=
  { m with memEnd := n, memRes := sub32 m.memRes n, steps := m.steps ++ [(n, sub32 m.memRes n)] }

/-- `alloc_mem` -/
def Mem.alloc (m : Mem) (n : ℕ) : Addr × Mem := (⟨.block m.blocks.length, 0⟩, { m with blocks := m.blocks ++ [n] })

/-- `mem_frm.addr + mem_end` -/
def Mem.addr (m : Mem) : Addr := memFrm.plus m.memEnd

/-- the place of the JPEG when there is no rotation, the same in all three layouts -/
def placeJpeg (c : Capture) (f : CmrCapMem) (m : Mem) : Option (CmrCapMem × Mem) :=
  if c.needRot then some (f, m)
  else if m.memRes < f.targetJpeg.bufSize then none
  else some ({ f with targetJpeg := { f.targetJpeg with addrY := m.addr } }, m.bump f.targetJpeg.bufSize)

/-- the distances and sizes in `arrange_raw_buf` -/
structure RawLayout where
  rawSize : ℕ
  yToRaw : ℕ
  yyToY : ℕ
  uvSize : ℕ
  uselessRaw : ℕ

def rawLayout (c : Capture) : RawLayout :=
  let channelSize := u32 (c.snSize.width * c.snSize.height)
  let rawSize := u32 (channelSize * 10) / 8
  let yToRaw := u32 (cmrSliceHeight * c.snSize.width)
  if c.imageWidth ≠ c.snSize.width ∨ c.imageHeight ≠ c.snSize.height then
    let yyToY := u32 (cmrSliceHeight * c.snSize.width)
    ⟨rawSize, yToRaw, yyToY, u32 (channelSize / 2 + yyToY / 2), u32 (yyToY * 10) / 8⟩
  else if c.snTrim.startY ≠ 0 then
    let tmp := sub32 (sub32 c.snSize.height c.snTrim.height) c.snTrim.startY
    let yyToY := u32 (tmp * c.snSize.width)
    ⟨rawSize, yToRaw, yyToY, u32 (channelSize / 2 + yyToY / 2), u32 (yyToY * 10) / 8⟩
  else ⟨rawSize, yToRaw, 0, channelSize / 2, 0⟩

/-- the end of RawRGB -/
def RawLayout.offset (l : RawLayout) : ℕ := sub32 (u32 (l.rawSize + l.yToRaw + l.yyToY)) l.uselessRaw

/-- `arrange_raw_buf` -/
def arrangeRawBuf (c : Capture) (f : CmrCapMem) (m : Mem) : Option (CmrCapMem × Mem) := do
  let channelSize := u32 (c.snSize.width * c.snSize.height)
  let l := rawLayout c
  let capYuvY := memFrm.plus l.yyToY
  if m.memRes < l.offset then none
  else
    let (f, m) ← placeJpeg c f (m.bump l.offset)
    let (addrU, m) := if l.uvSize < m.memRes then (m.addr, m.bump l.uvSize) else m.alloc l.uvSize
    some ({ f with
      targetYuv := ⟨some .yuv420, u32 (channelSize * 3) / 2, c.imageWidth, c.imageHeight, memFrm, addrU⟩
      capYuv := ⟨some .yuv420, u32 (channelSize * 3) / 2, c.snSize.width, c.snSize.height, capYuvY,
        addrU.plus (l.yyToY / 2)⟩
      capRaw := ⟨some .raw, l.rawSize, c.snSize.width, c.snSize.height, capYuvY.plus l.yToRaw, f.capRaw.addrU⟩ },
      { m with channelSize := channelSize })

/-- `y_end` of `arrange_jpeg_buf` -/
def jpegYEnd (c : Capture) : ℕ :=
  let yyToY := u32 (sub32 (sub32 c.snSize.height c.snTrim.startY) c.snTrim.height * c.snSize.width)
  u32 (yyToY + max c.imageChannel (u32 (c.snSize.height * c.snSize.width)))

/-- `arrange_jpeg_buf` -/
def arrangeJpegBuf (c : Capture) (f : CmrCapMem) (m : Mem) : Option (CmrCapMem × Mem) := do
  let tmp := u32 (c.snSize.height * c.snSize.width)
  let targetU := memFrm.plus (jpegYEnd c)
  let offset := u32 (jpegYEnd c * 2)
  if m.memRes < offset then none
  else
    let (f, m) ← placeJpeg c f (m.start offset)
    some ({ f with
      capYuv := ⟨some .yuv420, u32 (c.imageChannel * 2), aligned16 c.capSize.width, aligned16 c.capSize.height,
        targetU.minus tmp, (targetU.plus (jpegYEnd c)).minus tmp⟩
      targetYuv := ⟨some .yuv420, u32 (c.imageChannel * 2), c.imageWidth, c.imageHeight, memFrm, targetU⟩ },
      { m with channelSize := c.imageChannel })

/-- `channel_size` of `arrange_yuv_buf` -/
def yuvChannel (c : Capture) : ℕ :=
  let tmp := u32 (c.capSize.width * c.capSize.height)
  if tmp < c.imageChannel then c.imageChannel else tmp

/-- `arrange_yuv_buf` -/
def arrangeYuvBuf (c : Capture) (f : CmrCapMem) (m : Mem) : Option (CmrCapMem × Mem) := do
  let tmp := u32 (c.capSize.width * c.capSize.height)
  let up := memFrm.plus c.imageChannel
  -- the addresses of `target_yuv`, then of `cap_yuv`
  let (targetU, capY, capU) :=
    if tmp < c.imageChannel then (up, up.minus tmp, up.plus ((c.imageChannel - tmp) / 2))
    else (memFrm.plus tmp, memFrm, memFrm.plus tmp)
  let offset := u32 (yuvChannel c * 3) / 2
  if m.memRes < offset then none
  else
    let (f, m) ← placeJpeg c f (m.start offset)
    some ({ f with
      capYuv := ⟨some .yuv420, u32 (yuvChannel c * 3) / 2, aligned16 c.capSize.width, aligned16 c.capSize.height,
        capY, capU⟩
      targetYuv := ⟨some .yuv420, u32 (yuvChannel c * 3) / 2, c.imageWidth, c.imageHeight, memFrm, targetU⟩ },
      { m with channelSize := yuvChannel c })

/-- one turn of the loops of `arrange_misc_buf`: from the frame while everything has come from there, else a block -/
def placeMisc (size : ℕ) (fromFrame : Bool) (m : Mem) : ImgFrm × Bool × Mem :=
  let (addrY, fromFrame, m) :=
    if fromFrame ∧ size ≤ m.memRes then (m.addr, true, m.bump size)
    else ((m.alloc size).1, false, (m.alloc size).2)
  (⟨none, size, 0, 0, addrY, addrY.plus (u32 (size * 2) / 3)⟩, fromFrame, m)

/-- `arrange_misc_buf` -/
def arrangeMiscBuf (c : Capture) (f : CmrCapMem) (m : Mem) : CmrCapMem × Mem :=
  let (yuv, fromFrame, m) := placeMisc (getThumYuvSize c.thumSize.width c.thumSize.height) true m
  let (jpeg, _, m) := placeMisc (getThumJpegSize c.thumSize.width c.thumSize.height) fromFrame m
  ({ f with
    thumYuv := { yuv with width := c.thumSize.width, height := c.thumSize.height }
    thumJpeg := { f.thumJpeg with bufSize := jpeg.bufSize, addrY := jpeg.addrY }
    jpegTmp := { f.jpegTmp with bufSize := f.capYuv.bufSize, addrY := f.capYuv.addrU } }, m)

/-- `arrange_rot_buf` -/
def arrangeRotBuf (c : Capture) (f : CmrCapMem) (m : Mem) : CmrCapMem × Mem :=
  let sizePixel := u32 (m.channelSize * 3) / 2
  let (addrY, addrU, m) :=
    if sizePixel < m.memRes then (m.addr, m.addr.plus m.channelSize, m.bump sizePixel)
    else
      let (addrY, m1) := m.alloc m.channelSize
      let (addrU, m2) := m1.alloc (m.channelSize / 2)
      (addrY, addrU, m2)
  ({ f with
    capYuvRot := ⟨some .yuv420, sizePixel, c.imageHeight, c.imageWidth, addrY, addrU⟩
    targetJpeg := { f.targetJpeg with addrY := addrY } }, m)

/-- the layout of the format -/
def arrangeFormatBuf (c : Capture) (f : CmrCapMem) (m : Mem) : Option (CmrCapMem × Mem) :=
  match c.origFmt with
  | .raw => arrangeRawBuf c f m
  | .jpeg => arrangeJpegBuf c f m
  | .yuv => arrangeYuvBuf c f m

/-- `camera_arrange_capture_buf` -/
def cameraArrangeCaptureBuf (c : Capture) : Option (CmrCapMem × Mem) := do
  let f : CmrCapMem := { CmrCapMem.zero with targetJpeg := { ImgFrm.zero with bufSize := c.jpegSize } }
  let m : Mem := ⟨c.bufSize, 0, c.imageChannel, [], []⟩
  let (f, m) ← arrangeFormatBuf c f m
  let (f, m) := arrangeMiscBuf c f m
  let (f, m) := if c.needRot then arrangeRotBuf c f m else (f, m)
  some ({ f with
    targetJpeg := { f.targetJpeg with
      addrY := f.targetJpeg.addrY.plus jpegExifSize
      bufSize := sub32 f.targetJpeg.bufSize jpegExifSize } }, m)

/-! ## Areas -/

/-- the size in bytes of a picture, four bytes a pixel and both sides a multiple of 16 -/
def ImgSize.bytes (s : ImgSize) : ℕ := 4 * ((s.width + 15) / 16 * 16 * ((s.height + 15) / 16 * 16))

/-- no size wraps -/
structure Capture.Fits (c : Capture) : Prop where
  sn : c.snSize.bytes < 2 ^ 32
  image : c.imageSize.bytes < 2 ^ 32
  cap : c.capSize.bytes < 2 ^ 32
  thum : c.thumSize.bytes < 2 ^ 32

/-- the JPEG and the room for the EXIF header in front of it -/
def jpegArea (f : CmrCapMem) : Area := ⟨f.targetJpeg.addrY.minus jpegExifSize, f.targetJpeg.bufSize + jpegExifSize⟩

/-- the RAW UV plane -/
def uvAreas (c : Capture) (f : CmrCapMem) : List Area :=
  if c.origFmt = .raw then [⟨f.targetYuv.addrU, (rawLayout c).uvSize⟩] else []

def thumAreas (f : CmrCapMem) : List Area :=
  [⟨f.thumJpeg.addrY, f.thumJpeg.bufSize⟩, ⟨f.thumYuv.addrY, f.thumYuv.bufSize⟩]

/-- the two planes of `cap_yuv_rot` -/
def rotAreas (c : Capture) (f : CmrCapMem) (m : Mem) : List Area :=
  if c.needRot then [⟨f.capYuvRot.addrU, m.channelSize / 2⟩, ⟨f.capYuvRot.addrY, m.channelSize⟩] else []

/-- the cursor is kept, every area lies in the frame or in one block, and only the rotation planes and the JPEG share -/
structure Laid (c : Capture) (f : CmrCapMem) (m : Mem) : Prop where
  steps : ∀ p ∈ m.steps, p.1 + p.2 = c.bufSize
  jpegInside : Placed c.bufSize m.blocks (jpegArea f)
  inside : ∀ r ∈ rotAreas c f m ++ (thumAreas f ++ uvAreas c f), Placed c.bufSize m.blocks r
  apart : (rotAreas c f m ++ (thumAreas f ++ uvAreas c f)).Pairwise Apart
  jpegApart : ∀ r ∈ thumAreas f ++ uvAreas c f, Apart (jpegArea f) r

/-- the channel the layout ends with -/
def Capture.channel (c : Capture) : ℕ :=
  match c.origFmt with
  | .raw => u32 (c.snSize.width * c.snSize.height)
  | .jpeg => c.imageChannel
  | .yuv => yuvChannel c

/-- what the layout of the format takes of `mem_frm` -/
def Capture.layoutSize (c : Capture) : ℕ :=
  match c.origFmt with
  | .raw => (rawLayout c).offset
  | .jpeg => u32 (jpegYEnd c * 2)
  | .yuv => u32 (yuvChannel c * 3) / 2

/-- what a rotated capture has left of `mem_frm` behind the layout and the RAW UV plane -/
def Capture.roomLayout (c : Capture) : ℕ :=
  let room := c.bufSize - c.layoutSize
  if c.origFmt = .raw ∧ (rawLayout c).uvSize < room then room - (rawLayout c).uvSize else room

/-- the same behind the thumbnails, as far as these are in `mem_frm` -/
def Capture.room (c : Capture) : ℕ :=
  let yuv := getThumYuvSize c.thumSize.width c.thumSize.height
  let jpeg := getThumJpegSize c.thumSize.width c.thumSize.height
  if c.roomLayout < yuv then c.roomLayout
  else if c.roomLayout - yuv < jpeg then c.roomLayout - yuv
  else c.roomLayout - yuv - jpeg

/-! ## Sizes -/

theorem u32_of_lt {n : ℕ} (h : n < 2 ^ 32) : u32 n = n := by rw [u32, Nat.mod_eq_of_lt h]

theorem u32_lt (n : ℕ) : u32 n < 2 ^ 32 := by rw [u32]; exact Nat.mod_lt n (by norm_num)

theorem u32_le (n : ℕ) : u32 n ≤ n := by rw [u32]; exact Nat.mod_le n _

theorem sub32_of_le {a b : ℕ} (ha : a < 2 ^ 32) (h : b ≤ a) : sub32 a b = a - b := by
  simp only [sub32]
  omega

theorem aligned16_le (w : ℕ) : aligned16 w ≤ (w + 15) / 16 * 16 := by
  have := u32_le (w + 16 - 1)
  simp only [aligned16]
  omega

theorem bytes_le (s : ImgSize) : 4 * (s.width * s.height) ≤ s.bytes := by
  have hw : s.width ≤ (s.width + 15) / 16 * 16 := by omega
  have hh : s.height ≤ (s.height + 15) / 16 * 16 := by omega
  exact Nat.mul_le_mul_left 4 (Nat.mul_le_mul hw hh)

theorem Capture.Fits.imageChannel_lt {c : Capture} (h : c.Fits) : c.imageChannel < 2 ^ 30 := by
  have hle : c.imageWidth * c.imageHeight ≤
      (c.imageSize.width + 15) / 16 * 16 * ((c.imageSize.height + 15) / 16 * 16) :=
    Nat.mul_le_mul (aligned16_le _) (aligned16_le _)
  have himage : c.imageSize.bytes < 2 ^ 32 := h.image
  have hu := u32_le (c.imageWidth * c.imageHeight)
  simp only [ImgSize.bytes] at himage
  simp only [Capture.imageChannel]
  omega

theorem Capture.Fits.channel_lt {c : Capture} (h : c.Fits) : c.channel < 2 ^ 30 := by
  have himage := h.imageChannel_lt
  have hsn : u32 (c.snSize.width * c.snSize.height) < 2 ^ 30 := by
    have h1 := bytes_le c.snSize
    have h2 := h.sn
    have h3 := u32_le (c.snSize.width * c.snSize.height)
    omega
  have hcap : u32 (c.capSize.width * c.capSize.height) < 2 ^ 30 := by
    have h1 := bytes_le c.capSize
    have h2 := h.cap
    have h3 := u32_le (c.capSize.width * c.capSize.height)
    omega
  unfold Capture.channel
  split
  · exact hsn
  · exact himage
  · unfold yuvChannel
    dsimp only
    split_ifs
    · exact himage
    · exact hcap

/-- there is always room for the EXIF header -/
theorem Capture.Fits.jpegSize_ge {c : Capture} (h : c.Fits) : jpegExifSize ≤ c.jpegSize ∧ c.jpegSize < 2 ^ 31 := by
  have himage : u32 (c.imageWidth * c.imageHeight) < 2 ^ 30 := h.imageChannel_lt
  simp only [Capture.jpegSize, getJpegSize, cmrJpegSize]
  generalize u32 (c.imageWidth * c.imageHeight) = a at himage ⊢
  by_cases ha : a ≤ jpegSmallSize
  · rw [if_pos ha]
    simp only [addrByWord, jpegExifSize, u32]
    omega
  · rw [if_neg ha]
    simp only [jpegSmallSize] at ha
    simp only [addrByWord, jpegExifSize, u32]
    omega

/-- one and a half channels are the two planes -/
theorem sizePixel_eq {n : ℕ} (h : n < 2 ^ 30) : u32 (n * 3) / 2 = n + n / 2 := by
  rw [u32_of_lt (by omega)]
  omega

/-! ## The cursor -/

structure Good (c : Capture) (m : Mem) (rs : List Area) : Prop where
  sum : m.memEnd + m.memRes = c.bufSize
  steps : ∀ p ∈ m.steps, p.1 + p.2 = c.bufSize
  sound : Sound m.memEnd m.blocks rs

theorem Good.bump_eq {c : Capture} {m : Mem} {rs : List Area} (h : Good c m rs) {n : ℕ} (hn : n ≤ m.memRes) :
    m.bump n = { m with
      memEnd := m.memEnd + n, memRes := m.memRes - n, steps := m.steps ++ [(m.memEnd + n, m.memRes - n)] } := by
  have hsum := h.sum
  have hlt := c.bufSize_lt
  have hend : u32 (m.memEnd + n) = m.memEnd + n := u32_of_lt (by omega)
  have hres : sub32 m.memRes n = m.memRes - n := sub32_of_le (by omega) hn
  rw [Mem.bump, hend, hres]

theorem Good.addr_eq {c : Capture} {m : Mem} {rs : List Area} (h : Good c m rs) : m.addr = ⟨.frame, m.memEnd⟩ := by
  have hsum := h.sum
  have hlt := c.bufSize_lt
  have hmod : (m.memEnd + 0) % 2 ^ 32 = m.memEnd := by
    rw [Nat.add_zero]
    exact Nat.mod_eq_of_lt (by omega)
  rw [Mem.addr, memFrm, Addr.plus, hmod]

theorem Good.bump {c : Capture} {m : Mem} {rs : List Area} (h : Good c m rs) {n : ℕ} (hn : n ≤ m.memRes) :
    Good c (m.bump n) (⟨m.addr, n⟩ :: rs) := by
  have hsum := h.sum
  rw [h.bump_eq hn, h.addr_eq]
  refine ⟨?_, ?_, h.sound.bump n⟩
  · change m.memEnd + n + (m.memRes - n) = c.bufSize
    omega
  · intro p hp
    rcases List.mem_append.mp hp with hp | hp
    · exact h.steps p hp
    · rw [List.mem_singleton.mp hp]
      change m.memEnd + n + (m.memRes - n) = c.bufSize
      omega

theorem Good.tail {c : Capture} {m : Mem} {r : Area} {rs : List Area} (h : Good c m (r :: rs)) : Good c m rs :=
  ⟨h.sum, h.steps, fun s hs => h.sound.placed s (List.mem_cons_of_mem r hs), (List.pairwise_cons.mp h.sound.apart).2⟩

theorem Good.alloc {c : Capture} {m : Mem} {rs : List Area} (h : Good c m rs) (n : ℕ) :
    Good c (m.alloc n).2 (⟨(m.alloc n).1, n⟩ :: rs) := ⟨h.sum, h.steps, h.sound.alloc n⟩

/-- where nothing is taken yet, the first step is a step of the cursor -/
theorem start_eq_bump {m : Mem} {n : ℕ} (hend : m.memEnd = 0) (hn : n < 2 ^ 32) : m.start n = m.bump n := by
  rw [Mem.start, Mem.bump, hend, Nat.zero_add, u32_of_lt hn]

/-! ## The layouts -/

/-- the frames before the first layout -/
def firstFrames (c : Capture) : CmrCapMem :=
  { CmrCapMem.zero with targetJpeg := { ImgFrm.zero with bufSize := c.jpegSize } }

def firstMem (c : Capture) : Mem := ⟨c.bufSize, 0, c.imageChannel, [], []⟩

theorem firstMem_good (c : Capture) : Good c (firstMem c) [] :=
  ⟨Nat.zero_add c.bufSize, by simp [firstMem], sound_nil _ _⟩

/-- the JPEG's area, when it has been placed by the layout -/
def plainJpeg (c : Capture) (f : CmrCapMem) : List Area :=
  if c.needRot then [] else [⟨f.targetJpeg.addrY, c.jpegSize⟩]

/-- what a layout leaves -/
structure LaidOut (c : Capture) (f : CmrCapMem) (m : Mem) : Prop where
  good : Good c m (uvAreas c f ++ plainJpeg c f)
  jpegSize : f.targetJpeg.bufSize = c.jpegSize
  jpegOfs : c.needRot = false → f.targetJpeg.addrY.ofs < 2 ^ 32
  channel : m.channelSize = c.channel
  room : c.needRot = true → m.memRes = c.roomLayout

theorem placeJpeg_good {c : Capture} {f f' : CmrCapMem} {m m' : Mem} (h : Good c m [])
    (hsize : f.targetJpeg.bufSize = c.jpegSize) (hp : placeJpeg c f m = some (f', m')) :
    Good c m' (plainJpeg c f') ∧ f'.targetJpeg.bufSize = c.jpegSize ∧
      (c.needRot = false → f'.targetJpeg.addrY.ofs < 2 ^ 32) ∧ (c.needRot = true → m' = m) := by
  unfold placeJpeg at hp
  split_ifs at hp with hrot hroom
  · obtain ⟨rfl, rfl⟩ := Prod.mk.inj (Option.some.inj hp)
    rw [plainJpeg, if_pos hrot]
    exact ⟨h, hsize, fun hr => absurd hrot (by simp [hr]), fun _ => rfl⟩
  · obtain ⟨rfl, rfl⟩ := Prod.mk.inj (Option.some.inj hp)
    have hbump := h.bump (not_lt.mp hroom)
    refine ⟨?_, hsize, fun _ => plus_ofs_lt memFrm m.memEnd, fun hr => absurd hr hrot⟩
    rw [plainJpeg, if_neg hrot, ← hsize]
    exact hbump

/-- the layout itself, and the JPEG behind it -/
theorem first_good {c : Capture} {f : CmrCapMem} {m : Mem} {n : ℕ} (hn : n ≤ c.bufSize)
    (hp : placeJpeg c (firstFrames c) ((firstMem c).bump n) = some (f, m)) :
    Good c m (plainJpeg c f) ∧ f.targetJpeg.bufSize = c.jpegSize ∧
      (c.needRot = false → f.targetJpeg.addrY.ofs < 2 ^ 32) ∧ (c.needRot = true → m.memRes = c.bufSize - n) := by
  obtain ⟨hg, hsize, hofs, hsame⟩ := placeJpeg_good ((firstMem_good c).bump hn).tail rfl hp
  refine ⟨hg, hsize, hofs, fun hrot => ?_⟩
  rw [hsame hrot, (firstMem_good c).bump_eq hn, firstMem]

/-- without a RAW plane the layout ends with the JPEG -/
theorem laidOut_of_first {c : Capture} (hfmt : c.origFmt ≠ .raw) {f f' : CmrCapMem} {m m' : Mem} {n : ℕ}
    (hn : n ≤ c.bufSize) (hp : placeJpeg c (firstFrames c) ((firstMem c).bump n) = some (f, m))
    (hsz : c.layoutSize = n) (hjpeg : f'.targetJpeg = f.targetJpeg)
    (hm : m' = { m with channelSize := c.channel }) : LaidOut c f' m' := by
  obtain ⟨hg, hsize, hofs, hres⟩ := first_good hn hp
  have hplain : plainJpeg c f' = plainJpeg c f := by rw [plainJpeg, plainJpeg, hjpeg]
  have hno : ¬(c.origFmt = .raw ∧ (rawLayout c).uvSize < c.bufSize - c.layoutSize) := fun h => absurd h.1 hfmt
  subst hm
  refine ⟨?_, by rw [hjpeg, hsize], by rw [hjpeg]; exact hofs, rfl, ?_⟩
  · rw [uvAreas, if_neg hfmt, hplain]
    exact ⟨hg.sum, hg.steps, hg.sound⟩
  · intro hrot
    rw [Capture.roomLayout, if_neg hno, hsz]
    exact hres hrot

theorem arrangeJpegBuf_laidOut {c : Capture} (hfmt : c.origFmt = .jpeg) {f : CmrCapMem} {m : Mem}
    (h : arrangeJpegBuf c (firstFrames c) (firstMem c) = some (f, m)) : LaidOut c f m := by
  unfold arrangeJpegBuf at h
  dsimp only at h
  split_ifs at h with hroom
  rw [start_eq_bump rfl (u32_lt _)] at h
  obtain ⟨⟨f1, m1⟩, hplace, h⟩ := Option.bind_eq_some_iff.mp h
  obtain ⟨rfl, rfl⟩ := Prod.mk.inj (Option.some.inj h)
  have hsz : c.layoutSize = u32 (jpegYEnd c * 2) := by rw [Capture.layoutSize, hfmt]
  have hch : c.channel = c.imageChannel := by rw [Capture.channel, hfmt]
  exact laidOut_of_first (by rw [hfmt]; decide) (not_lt.mp hroom) hplace hsz rfl (by rw [hch])

theorem arrangeYuvBuf_laidOut {c : Capture} (hfmt : c.origFmt = .yuv) {f : CmrCapMem} {m : Mem}
    (h : arrangeYuvBuf c (firstFrames c) (firstMem c) = some (f, m)) : LaidOut c f m := by
  have hsz : c.layoutSize = u32 (yuvChannel c * 3) / 2 := by rw [Capture.layoutSize, hfmt]
  have hch : c.channel = yuvChannel c := by rw [Capture.channel, hfmt]
  have hlt : u32 (yuvChannel c * 3) / 2 < 2 ^ 32 := lt_of_le_of_lt (Nat.div_le_self _ 2) (u32_lt _)
  unfold arrangeYuvBuf at h
  dsimp only at h
  split_ifs at h with hroom hup
  all_goals
    rw [start_eq_bump rfl hlt] at h
    obtain ⟨⟨f1, m1⟩, hplace, h⟩ := Option.bind_eq_some_iff.mp h
    obtain ⟨rfl, rfl⟩ := Prod.mk.inj (Option.some.inj h)
    exact laidOut_of_first (by rw [hfmt]; decide) (not_lt.mp hroom) hplace hsz rfl (by rw [hch])

theorem arrangeRawBuf_laidOut {c : Capture} (hfmt : c.origFmt = .raw) {f : CmrCapMem} {m : Mem}
    (h : arrangeRawBuf c (firstFrames c) (firstMem c) = some (f, m)) : LaidOut c f m := by
  have hsz : c.layoutSize = (rawLayout c).offset := by rw [Capture.layoutSize, hfmt]
  have hch : c.channel = u32 (c.snSize.width * c.snSize.height) := by rw [Capture.channel, hfmt]
  unfold arrangeRawBuf at h
  dsimp only at h
  split_ifs at h with hroom
  obtain ⟨⟨f1, m1⟩, hplace, h⟩ := Option.bind_eq_some_iff.mp h
  obtain ⟨hg, hsize, hofs, hres⟩ := first_good (not_lt.mp hroom) hplace
  by_cases huv : (rawLayout c).uvSize < m1.memRes
  · simp only [if_pos huv] at h
    obtain ⟨rfl, rfl⟩ := Prod.mk.inj (Option.some.inj h)
    have hbump := hg.bump (le_of_lt huv)
    refine ⟨?_, hsize, hofs, hch.symm, ?_⟩
    · rw [uvAreas, if_pos hfmt]
      exact ⟨hbump.sum, hbump.steps, hbump.sound⟩
    · intro hrot
      have hyes : c.origFmt = .raw ∧ (rawLayout c).uvSize < c.bufSize - c.layoutSize := by
        rw [hsz, ← hres hrot]
        exact ⟨hfmt, huv⟩
      rw [Capture.roomLayout, if_pos hyes, hsz, ← hres hrot, hg.bump_eq (le_of_lt huv)]
  · simp only [if_neg huv] at h
    obtain ⟨rfl, rfl⟩ := Prod.mk.inj (Option.some.inj h)
    have halloc := hg.alloc (rawLayout c).uvSize
    refine ⟨?_, hsize, hofs, hch.symm, ?_⟩
    · rw [uvAreas, if_pos hfmt]
      exact ⟨halloc.sum, halloc.steps, halloc.sound⟩
    · intro hrot
      have hno : ¬(c.origFmt = .raw ∧ (rawLayout c).uvSize < c.bufSize - c.layoutSize) := by
        rw [hsz, ← hres hrot]
        exact fun h => huv h.2
      rw [Capture.roomLayout, if_neg hno, hsz, ← hres hrot]
      rfl

theorem arrangeFormatBuf_laidOut {c : Capture} {f : CmrCapMem} {m : Mem}
    (h : arrangeFormatBuf c (firstFrames c) (firstMem c) = some (f, m)) : LaidOut c f m := by
  unfold arrangeFormatBuf at h
  split at h
  · exact arrangeRawBuf_laidOut ‹_› h
  · exact arrangeJpegBuf_laidOut ‹_› h
  · exact arrangeYuvBuf_laidOut ‹_› h

/-! ## The thumbnails -/

theorem placeMisc_frame {size : ℕ} {fromFrame : Bool} {m : Mem} (h : fromFrame = true ∧ size ≤ m.memRes) :
    placeMisc size fromFrame m =
      (⟨none, size, 0, 0, m.addr, m.addr.plus (u32 (size * 2) / 3)⟩, true, m.bump size) := by
  simp only [placeMisc, if_pos h]

theorem placeMisc_block {size : ℕ} {fromFrame : Bool} {m : Mem} (h : ¬(fromFrame = true ∧ size ≤ m.memRes)) :
    placeMisc size fromFrame m = (⟨none, size, 0, 0, (m.alloc size).1, (m.alloc size).1.plus (u32 (size * 2) / 3)⟩,
      false, (m.alloc size).2) := by
  simp only [placeMisc, if_neg h]

/-- one thumbnail buffer: its area, whether it came from the frame, and what is left -/
theorem placeMisc_good {c : Capture} {m : Mem} {rs : List Area} (h : Good c m rs) (size : ℕ) (fromFrame : Bool) :
    Good c (placeMisc size fromFrame m).2.2 (⟨(placeMisc size fromFrame m).1.addrY, size⟩ :: rs) ∧
      (placeMisc size fromFrame m).1.bufSize = size ∧
      (placeMisc size fromFrame m).2.2.channelSize = m.channelSize ∧
      ((fromFrame = true ∧ size ≤ m.memRes) ∧ (placeMisc size fromFrame m).2.1 = true ∧
          (placeMisc size fromFrame m).2.2.memRes = m.memRes - size ∨
        ¬(fromFrame = true ∧ size ≤ m.memRes) ∧ (placeMisc size fromFrame m).2.1 = false ∧
          (placeMisc size fromFrame m).2.2.memRes = m.memRes) := by
  by_cases hfit : fromFrame = true ∧ size ≤ m.memRes
  · have hbump := h.bump hfit.2
    rw [placeMisc_frame hfit]
    refine ⟨hbump, rfl, ?_, Or.inl ⟨hfit, rfl, ?_⟩⟩
    · rw [h.bump_eq hfit.2]
    · rw [h.bump_eq hfit.2]
  · have halloc := h.alloc size
    rw [placeMisc_block hfit]
    exact ⟨halloc, rfl, rfl, Or.inr ⟨hfit, rfl, rfl⟩⟩

/-- what the thumbnails leave -/
structure MiscLaid (c : Capture) (f : CmrCapMem) (m : Mem) : Prop where
  good : Good c m (thumAreas f ++ (uvAreas c f ++ plainJpeg c f))
  jpegSize : f.targetJpeg.bufSize = c.jpegSize
  jpegOfs : c.needRot = false → f.targetJpeg.addrY.ofs < 2 ^ 32
  channel : m.channelSize = c.channel
  room : c.needRot = true → m.memRes = c.room

theorem arrangeMiscBuf_laid {c : Capture} {f : CmrCapMem} {m : Mem} (h : LaidOut c f m) :
    MiscLaid c (arrangeMiscBuf c f m).1 (arrangeMiscBuf c f m).2 := by
  obtain ⟨hg1, hsize1, hch1, hres1⟩ :=
    placeMisc_good h.good (getThumYuvSize c.thumSize.width c.thumSize.height) true
  generalize hp1 : placeMisc (getThumYuvSize c.thumSize.width c.thumSize.height) true m = p1 at hg1 hsize1 hch1 hres1
  obtain ⟨yuv, fromFrame, m1⟩ := p1
  obtain ⟨hg2, hsize2, hch2, hres2⟩ :=
    placeMisc_good hg1 (getThumJpegSize c.thumSize.width c.thumSize.height) fromFrame
  generalize hp2 : placeMisc (getThumJpegSize c.thumSize.width c.thumSize.height) fromFrame m1 = p2
    at hg2 hsize2 hch2 hres2
  obtain ⟨jpeg, ff2, m2⟩ := p2
  simp only [arrangeMiscBuf, hp1, hp2]
  dsimp only at *
  refine ⟨?_, h.jpegSize, h.jpegOfs, by rw [hch2, hch1, h.channel], ?_⟩
  · rw [thumAreas]
    dsimp only
    rw [hsize1, hsize2]
    exact hg2
  · intro hrot
    have hroom := h.room hrot
    rw [Capture.room, ← hroom]
    rcases hres1 with ⟨⟨-, hfit1⟩, hff1, hm1⟩ | ⟨hfit1, hff1, hm1⟩
    · rw [if_neg (not_lt.mpr hfit1), ← hm1]
      rcases hres2 with ⟨⟨-, hfit2⟩, -, hm2⟩ | ⟨hfit2, -, hm2⟩
      · rw [if_neg (not_lt.mpr hfit2), hm2]
      · rw [if_pos (not_le.mp fun hle => hfit2 ⟨hff1, hle⟩), hm2]
    · rw [if_pos (not_le.mp fun hle => hfit1 ⟨rfl, hle⟩)]
      rcases hres2 with ⟨⟨hff2, -⟩, -, -⟩ | ⟨-, -, hm2⟩
      · rw [hff1] at hff2
        exact absurd hff2 (by decide)
      · rw [hm2, hm1]

/-! ## The rotation and the end -/

/-- `camera_arrange_capture_buf` behind the thumbnails -/
def finish (f : CmrCapMem) : CmrCapMem :=
  { f with
    targetJpeg := { f.targetJpeg with
      addrY := f.targetJpeg.addrY.plus jpegExifSize
      bufSize := sub32 f.targetJpeg.bufSize jpegExifSize } }

theorem arrange_cases {c : Capture} {f : CmrCapMem} {m : Mem} (h : cameraArrangeCaptureBuf c = some (f, m)) :
    ∃ f1 m1, MiscLaid c f1 m1 ∧
      (c.needRot = false ∧ f = finish f1 ∧ m = m1 ∨
        c.needRot = true ∧ f = finish (arrangeRotBuf c f1 m1).1 ∧ m = (arrangeRotBuf c f1 m1).2) := by
  obtain ⟨⟨f0, m0⟩, hlayout, hrest⟩ := Option.bind_eq_some_iff.mp h
  refine ⟨_, _, arrangeMiscBuf_laid (arrangeFormatBuf_laidOut hlayout), ?_⟩
  cases hrot : c.needRot with
  | false =>
    simp only [hrot, Bool.false_eq_true, if_false] at hrest
    obtain ⟨rfl, rfl⟩ := Prod.mk.inj (Option.some.inj hrest)
    exact Or.inl ⟨rfl, rfl, rfl⟩
  | true =>
    simp only [hrot, if_true] at hrest
    obtain ⟨rfl, rfl⟩ := Prod.mk.inj (Option.some.inj hrest)
    exact Or.inr ⟨rfl, rfl, rfl⟩

/-- in the end the JPEG and its EXIF room are where the JPEG was put, with the size computed first -/
theorem jpegArea_finish {c : Capture} (hfits : c.Fits) {f : CmrCapMem} (hsize : f.targetJpeg.bufSize = c.jpegSize)
    (hofs : f.targetJpeg.addrY.ofs < 2 ^ 32) : jpegArea (finish f) = ⟨f.targetJpeg.addrY, c.jpegSize⟩ := by
  obtain ⟨hge, hlt⟩ := hfits.jpegSize_ge
  have hsub : sub32 c.jpegSize jpegExifSize = c.jpegSize - jpegExifSize := sub32_of_le (by omega) hge
  rw [jpegArea, finish]
  dsimp only
  rw [plus_minus jpegExifSize hofs, hsize, hsub, Nat.sub_add_cancel hge]

theorem thumAreas_finish (f : CmrCapMem) : thumAreas (finish f) = thumAreas f := by simp only [thumAreas, finish]

theorem uvAreas_finish (c : Capture) (f : CmrCapMem) : uvAreas c (finish f) = uvAreas c f := by
  simp only [uvAreas, finish]

theorem rotAreas_finish (c : Capture) (f : CmrCapMem) (m : Mem) : rotAreas c (finish f) m = rotAreas c f m := by
  simp only [rotAreas, finish]

/-- the rotation buffer in the frame -/
theorem arrangeRotBuf_frame {c : Capture} {f : CmrCapMem} {m : Mem} (h : u32 (m.channelSize * 3) / 2 < m.memRes) :
    arrangeRotBuf c f m = ({ f with
      capYuvRot := ⟨some .yuv420, u32 (m.channelSize * 3) / 2, c.imageHeight, c.imageWidth, m.addr,
        m.addr.plus m.channelSize⟩
      targetJpeg := { f.targetJpeg with addrY := m.addr } }, m.bump (u32 (m.channelSize * 3) / 2)) := by
  simp only [arrangeRotBuf, if_pos h]

/-- the rotation buffer in two blocks -/
theorem arrangeRotBuf_blocks {c : Capture} {f : CmrCapMem} {m : Mem} (h : ¬u32 (m.channelSize * 3) / 2 < m.memRes) :
    arrangeRotBuf c f m = ({ f with
      capYuvRot := ⟨some .yuv420, u32 (m.channelSize * 3) / 2, c.imageHeight, c.imageWidth, (m.alloc m.channelSize).1,
        ((m.alloc m.channelSize).2.alloc (m.channelSize / 2)).1⟩
      targetJpeg := { f.targetJpeg with addrY := (m.alloc m.channelSize).1 } },
      ((m.alloc m.channelSize).2.alloc (m.channelSize / 2)).2) := by
  simp only [arrangeRotBuf, if_neg h]

/-- with every other area in place, what is left to ask is whether the JPEG fits -/
theorem laid_finish_iff {c : Capture} (hfits : c.Fits) {f : CmrCapMem} {m : Mem}
    (hsize : f.targetJpeg.bufSize = c.jpegSize) (hofs : f.targetJpeg.addrY.ofs < 2 ^ 32)
    (hsteps : ∀ p ∈ m.steps, p.1 + p.2 = c.bufSize)
    (hsound : Sound c.bufSize m.blocks (rotAreas c f m ++ (thumAreas f ++ uvAreas c f)))
    (hapart : ∀ r ∈ thumAreas f ++ uvAreas c f, Apart ⟨f.targetJpeg.addrY, c.jpegSize⟩ r) :
    Laid c (finish f) m ↔ Placed c.bufSize m.blocks ⟨f.targetJpeg.addrY, c.jpegSize⟩ := by
  have harea := jpegArea_finish hfits hsize hofs
  constructor
  · intro h
    rw [← harea]
    exact h.jpegInside
  · intro h
    constructor
    case steps => exact hsteps
    case jpegInside => rwa [harea]
    case inside => rw [rotAreas_finish, thumAreas_finish, uvAreas_finish]; exact hsound.placed
    case apart => rw [rotAreas_finish, thumAreas_finish, uvAreas_finish]; exact hsound.apart
    case jpegApart => rw [harea, thumAreas_finish, uvAreas_finish]; exact hapart

/-- without a rotation everything has its place -/
theorem plain_laid {c : Capture} (hfits : c.Fits) {f : CmrCapMem} {m : Mem} (h : MiscLaid c f m)
    (hrot : c.needRot = false) : Laid c (finish f) m := by
  have hg := h.good
  have hle : m.memEnd ≤ c.bufSize := by have := hg.sum; omega
  rw [plainJpeg, hrot, if_neg (by decide), ← List.append_assoc] at hg
  have hsound := hg.sound.mono hle
  obtain ⟨hfixed, -, hcross⟩ := List.pairwise_append.mp hsound.apart
  have hnorot : rotAreas c f m = [] := by rw [rotAreas, hrot, if_neg (by decide)]
  rw [laid_finish_iff hfits h.jpegSize (h.jpegOfs hrot) hg.steps]
  · exact hsound.placed _ (List.mem_append_right _ List.mem_cons_self)
  · rw [hnorot, List.nil_append]
    exact ⟨fun r hr => hsound.placed r (List.mem_append_left _ hr), hfixed⟩
  · intro r hr
    exact (hcross r hr _ List.mem_cons_self).symm

theorem rotated_frame {c : Capture} (hfits : c.Fits) {f : CmrCapMem} {m : Mem} (h : MiscLaid c f m)
    (hrot : c.needRot = true) (hroom : u32 (m.channelSize * 3) / 2 < m.memRes) :
    Laid c (finish (arrangeRotBuf c f m).1) (arrangeRotBuf c f m).2 ↔ c.jpegSize ≤ m.memRes := by
  have hg := h.good
  have hsum := hg.sum
  have hlt := c.bufSize_lt
  have hch : u32 (m.channelSize * 3) / 2 = m.channelSize + m.channelSize / 2 :=
    sizePixel_eq (by rw [h.channel]; exact hfits.channel_lt)
  rw [plainJpeg, hrot, if_pos rfl, List.append_nil] at hg
  -- the two planes, one behind the other
  have hplanes := ((hg.sound.bump m.channelSize).bump (m.channelSize / 2)).mono (by omega : _ ≤ c.bufSize)
  have hjpeg := (List.pairwise_cons.mp (hg.sound.bump c.jpegSize).apart).1
  have haddr := hg.addr_eq
  have hplus : m.addr.plus m.channelSize = ⟨.frame, m.memEnd + m.channelSize⟩ := by
    rw [haddr, Addr.plus]
    dsimp only
    rw [Nat.mod_eq_of_lt (by omega), Nat.add_comm]
  have hbump := hg.bump (le_of_lt hroom)
  have hblocks : (m.bump (u32 (m.channelSize * 3) / 2)).blocks = m.blocks := by rw [hg.bump_eq (le_of_lt hroom)]
  have hchan : (m.bump (u32 (m.channelSize * 3) / 2)).channelSize = m.channelSize := by
    rw [hg.bump_eq (le_of_lt hroom)]
  rw [arrangeRotBuf_frame hroom, hplus, haddr]
  dsimp only
  refine (laid_finish_iff hfits ?_ ?_ hbump.steps ?_ ?_).trans ?_
  · exact h.jpegSize
  · dsimp only
    omega
  · rw [rotAreas, if_pos hrot, hblocks, hchan]
    exact hplanes
  · exact hjpeg
  · simp only [Placed]
    omega

theorem rotated_blocks {c : Capture} (hfits : c.Fits) {f : CmrCapMem} {m : Mem} (h : MiscLaid c f m)
    (hrot : c.needRot = true) (hroom : ¬u32 (m.channelSize * 3) / 2 < m.memRes) :
    Laid c (finish (arrangeRotBuf c f m).1) (arrangeRotBuf c f m).2 ↔ c.jpegSize ≤ m.channelSize := by
  have hg := h.good
  have hle : m.memEnd ≤ c.bufSize := by have := hg.sum; omega
  rw [plainJpeg, hrot, if_pos rfl, List.append_nil] at hg
  have hplanes := (hg.alloc m.channelSize).alloc (m.channelSize / 2)
  have hjpeg := (List.pairwise_cons.mp (hg.sound.alloc c.jpegSize).apart).1
  rw [arrangeRotBuf_blocks hroom]
  dsimp only
  refine (laid_finish_iff hfits ?_ ?_ hplanes.steps ?_ ?_).trans ?_
  · exact h.jpegSize
  · norm_num [Mem.alloc]
  · rw [rotAreas, if_pos hrot]
    exact hplanes.sound.mono hle
  · exact hjpeg
  · simp [Placed, Mem.alloc]

/-- **Layout.** Whenever the arrangement succeeds: the cursor is kept, every area lies inside the frame or one block, and
the areas are apart but for the JPEG over the rotation planes, exactly when there is no rotation, or the JPEG is no
longer than a channel, or the rotation buffer is in the frame and what was left of it there takes the JPEG. -/
theorem capture_layout_iff (c : Capture) (hfits : c.Fits) (f : CmrCapMem) (m : Mem)
    (h : cameraArrangeCaptureBuf c = some (f, m)) :
    Laid c f m ↔ c.needRot = false ∨ c.jpegSize ≤ c.channel ∨ c.channel * 3 / 2 < c.room ∧ c.jpegSize ≤ c.room := by
  obtain ⟨f1, m1, hmisc, ⟨hrot, rfl, rfl⟩ | ⟨hrot, rfl, rfl⟩⟩ := arrange_cases h
  · exact iff_of_true (plain_laid hfits hmisc hrot) (Or.inl hrot)
  · have hchannel := hmisc.channel
    have hres := hmisc.room hrot
    have hlt := hfits.channel_lt
    have hpix : u32 (m1.channelSize * 3) / 2 = c.channel * 3 / 2 := by
      rw [hchannel, u32_of_lt (by omega)]
    rw [or_iff_right (by rw [hrot]; decide : ¬c.needRot = false)]
    by_cases hroom : u32 (m1.channelSize * 3) / 2 < m1.memRes
    · rw [rotated_frame hfits hmisc hrot hroom]
      rw [hpix, hres] at hroom
      rw [hres]
      omega
    · rw [rotated_blocks hfits hmisc hrot hroom]
      rw [hpix, hres] at hroom
      rw [hchannel]
      omega

/-- 160 by 120 -/
def smallSize : ImgSize := ⟨160, 120, by norm_num, by norm_num⟩

/-- a small YUV picture, to be rotated, in a frame of the size -/
def smallCapture (size : ℕ) (h : size < 2 ^ 32) : Capture where
  snSize := smallSize
  snTrim := ⟨0, 120, by norm_num, by norm_num⟩
  imageSize := smallSize
  origFmt := .yuv
  capSize := smallSize
  thumSize := ⟨0, 0, by norm_num, by norm_num⟩
  needRot := true
  bufSize := size
  bufSize_lt := h

/-- in 1 MiB there is room -/
def roomyCapture : Capture := smallCapture 0x100000 (by norm_num)

/-- in 64 KiB the JPEG of 74 KiB lies over a buffer of 30 KiB at the end of the frame -/
def tightCapture : Capture := smallCapture 0x10000 (by norm_num)

theorem tightCapture_isSome : (cameraArrangeCaptureBuf tightCapture).isSome = true := by decide +kernel

theorem capture_layout_iff_roomy :
    roomyCapture.Fits ∧ ∃ f m, cameraArrangeCaptureBuf roomyCapture = some (f, m) ∧
      (Laid roomyCapture f m ↔ roomyCapture.needRot = false ∨ roomyCapture.jpegSize ≤ roomyCapture.channel ∨
        roomyCapture.channel * 3 / 2 < roomyCapture.room ∧ roomyCapture.jpegSize ≤ roomyCapture.room) := by
  have hfits : roomyCapture.Fits := by constructor <;> decide +kernel
  have hsome : (cameraArrangeCaptureBuf roomyCapture).isSome = true := by decide +kernel
  obtain ⟨⟨f, m⟩, h⟩ := Option.isSome_iff_exists.mp hsome
  exact ⟨hfits, f, m, h, capture_layout_iff _ hfits f m h⟩

theorem capture_overrun :
    tightCapture.Fits ∧ ∃ r, cameraArrangeCaptureBuf tightCapture = some r ∧ ¬Laid tightCapture r.1 r.2 := by
  have hout : ¬Placed tightCapture.bufSize ((cameraArrangeCaptureBuf tightCapture).get tightCapture_isSome).2.blocks
      (jpegArea ((cameraArrangeCaptureBuf tightCapture).get tightCapture_isSome).1) := by decide +kernel
  refine ⟨by constructor <;> decide +kernel, _, (Option.some_get tightCapture_isSome).symm, ?_⟩
  intro h
  exact hout h.jpegInside

end SprdDevice.Camera
