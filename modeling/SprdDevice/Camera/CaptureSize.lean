/-
The size of `mem_frm` (`camera_capture_buf_size` in `cmr_mem.c`): the first row of a table whose pixel count is not
below the picture's. Each table has 13 rows, and what is not filled in is zero.

- `sn_fmt` and `orig_fmt` are two enumerations with the same formats, and here one;
- no match is `none`.

The tables leave two bytes a pixel behind a YUV picture. A JPEG sensor takes two bytes a pixel for its layout and half a
byte for the JPEG, and the rows of 7 and 8 megapixels are too small for it.

Results: `arrange_isSome_iff` and `capture_size_covers_iff`.
-/
import Mathlib.Tactic
import SprdDevice.Camera.CaptureBuf

namespace SprdDevice.Camera

/-! ## Model -/

/-- `struct cap_size_to_mem` -/
structure CapSizeToMem where
  pixelNum : ℕ
  memSize : ℕ
deriving DecidableEq, Repr

/-- `IMG_SIZE_NUM` -/
def imgSizeNum : ℕ := 13

def tabOf (rows : List CapSizeToMem) : List CapSizeToMem := rows ++ List.replicate (imgSizeNum - rows.length) ⟨0, 0⟩

def backCamRows : List CapSizeToMem :=
  [⟨0x180000, 5 * 2 ^ 20⟩, ⟨0x200000, 7 * 2 ^ 20⟩, ⟨0x300000, 11 * 2 ^ 20⟩, ⟨0x400000, 12 * 2 ^ 20⟩,
    ⟨0x500000, 13 * 2 ^ 20⟩, ⟨0x600000, 15 * 2 ^ 20⟩, ⟨0x700000, 17 * 2 ^ 20⟩, ⟨0x800000, 18 * 2 ^ 20⟩]

def backCamRawRows : List CapSizeToMem :=
  [⟨0x180000, 4 * 2 ^ 20⟩, ⟨0x200000, 7 * 2 ^ 20⟩, ⟨0x300000, 10 * 2 ^ 20⟩, ⟨0x400000, 11 * 2 ^ 20⟩,
    ⟨0x500000, 12 * 2 ^ 20⟩, ⟨0x600000, 14 * 2 ^ 20⟩, ⟨0x700000, 16 * 2 ^ 20⟩, ⟨0x800000, 17 * 2 ^ 20⟩,
    ⟨0x900000, 30 * 2 ^ 20⟩, ⟨0xA00000, 30 * 2 ^ 20⟩, ⟨0xB00000, 30 * 2 ^ 20⟩, ⟨0xC00000, 30 * 2 ^ 20⟩,
    ⟨0xD00000, 30 * 2 ^ 20⟩]

def frontCamRows : List CapSizeToMem :=
  [⟨0x180000, 6 * 2 ^ 20⟩, ⟨0x200000, 8 * 2 ^ 20⟩, ⟨0x300000, 11 * 2 ^ 20⟩, ⟨0x400000, 16 * 2 ^ 20⟩,
    ⟨0x500000, 16 * 2 ^ 20⟩, ⟨0x600000, 16 * 2 ^ 20⟩, ⟨0x700000, 16 * 2 ^ 20⟩, ⟨0x800000, 16 * 2 ^ 20⟩]

def frontCamRawRows : List CapSizeToMem :=
  [⟨0x180000, 8 * 2 ^ 20⟩, ⟨0x200000, 8 * 2 ^ 20⟩, ⟨0x300000, 7 * 2 ^ 20⟩, ⟨0x400000, 16 * 2 ^ 20⟩,
    ⟨0x500000, 16 * 2 ^ 20⟩, ⟨0x600000, 16 * 2 ^ 20⟩, ⟨0x700000, 16 * 2 ^ 20⟩, ⟨0x800000, 16 * 2 ^ 20⟩]

/-- for ATV -/
def memSizeRows : List CapSizeToMem :=
  [⟨0x180000, 4 * 2 ^ 20⟩, ⟨0x200000, 8 * 2 ^ 20⟩, ⟨0x300000, 16 * 2 ^ 20⟩, ⟨0x400000, 16 * 2 ^ 20⟩,
    ⟨0x500000, 16 * 2 ^ 20⟩, ⟨0x600000, 16 * 2 ^ 20⟩, ⟨0x700000, 16 * 2 ^ 20⟩, ⟨0x800000, 16 * 2 ^ 20⟩]

/-- the filled rows of `mem_tab_ptr`: `BACK_CAMERA_ID` is 0 and `FRONT_CAMERA_ID` is 1 -/
def memTabRows (cameraId : ℕ) (snFmt : OrigFmt) : List CapSizeToMem :=
  if snFmt = .raw then
    if cameraId = 0 then backCamRawRows else if cameraId = 1 then frontCamRawRows else memSizeRows
  else
    if cameraId = 0 then backCamRows else if cameraId = 1 then frontCamRows else memSizeRows

/-- `camera_capture_buf_size` -/
def cameraCaptureBufSize (cameraId : ℕ) (snFmt : OrigFmt) (imageSize : ImgSize) : Option ℕ :=
  let sizePixel := u32 (imageSize.width * imageSize.height)
  ((tabOf (memTabRows cameraId snFmt)).find? fun row => decide (sizePixel ≤ row.pixelNum)).map (·.memSize)

/-! ## Statement -/

/-- a capture of the whole picture: nothing is trimmed, scaled or rotated -/
structure Whole (c : Capture) : Prop where
  sn : c.snSize = c.imageSize
  cap : c.capSize = c.imageSize
  trimY : c.snTrim.startY = 0
  trimHeight : c.snTrim.height = c.imageSize.height
  noRot : c.needRot = false
  width : 16 ∣ c.imageSize.width
  height : 16 ∣ c.imageSize.height
  pixels : c.imageSize.width * c.imageSize.height < 2 ^ 32

def Capture.pixels (c : Capture) : ℕ := c.imageSize.width * c.imageSize.height

/-- up to 6.8 megapixels, and from 7 to 7.2, with the back camera, and up to 6.4 with the others -/
def JpegCovered (cameraId pixels : ℕ) : Prop :=
  if cameraId = 0 then 5 * pixels ≤ 34 * 2 ^ 20 ∨ 7 * 2 ^ 20 < pixels ∧ 5 * pixels ≤ 36 * 2 ^ 20
  else 5 * pixels ≤ 32 * 2 ^ 20

/-! ## What a layout asks for -/

section Layout

variable {c : Capture}

theorem placeJpeg_isSome (hrot : c.needRot = false) (f : CmrCapMem) (m : Mem) :
    (placeJpeg c f m).isSome ↔ f.targetJpeg.bufSize ≤ m.memRes := by
  unfold placeJpeg
  rw [if_neg (by simp [hrot])]
  by_cases hroom : m.memRes < f.targetJpeg.bufSize
  · rw [if_pos hroom]
    exact iff_of_false (by simp) (not_le.2 hroom)
  · rw [if_neg hroom]
    exact iff_of_true rfl (not_lt.1 hroom)

/-- the layout, then the JPEG -/
theorem first_isSome (hrot : c.needRot = false) {n : ℕ} (hn : n ≤ c.bufSize) :
    (placeJpeg c (firstFrames c) ((firstMem c).bump n)).isSome ↔ n + c.jpegSize ≤ c.bufSize := by
  have hres : ((firstMem c).bump n).memRes = c.bufSize - n := by
    rw [(firstMem_good c).bump_eq hn]
    rfl
  have hjpeg : (firstFrames c).targetJpeg.bufSize = c.jpegSize := rfl
  rw [placeJpeg_isSome hrot, hres, hjpeg]
  omega

theorem bind_some_isSome {α β : Type} (o : Option α) (g : α → β) : (o.bind fun a => some (g a)).isSome = o.isSome := by
  cases o <;> rfl

theorem arrangeFormatBuf_isSome (hrot : c.needRot = false) :
    (arrangeFormatBuf c (firstFrames c) (firstMem c)).isSome ↔ c.layoutSize + c.jpegSize ≤ c.bufSize := by
  have hmem : (firstMem c).memRes = c.bufSize := rfl
  unfold arrangeFormatBuf Capture.layoutSize
  cases hfmt : c.origFmt with
  | raw =>
    dsimp only [arrangeRawBuf]
    by_cases hroom : c.bufSize < (rawLayout c).offset
    · rw [hmem, if_pos hroom]
      exact iff_of_false (by simp) (by omega)
    · rw [hmem, if_neg hroom, ← first_isSome hrot (not_lt.1 hroom)]
      exact Bool.eq_iff_iff.1 (bind_some_isSome _ _)
  | jpeg =>
    dsimp only [arrangeJpegBuf]
    by_cases hroom : c.bufSize < u32 (jpegYEnd c * 2)
    · rw [hmem, if_pos hroom]
      exact iff_of_false (by simp) (by omega)
    · rw [hmem, if_neg hroom, start_eq_bump rfl (u32_lt _), ← first_isSome hrot (not_lt.1 hroom)]
      exact Bool.eq_iff_iff.1 (bind_some_isSome _ _)
  | yuv =>
    have hlt : u32 (yuvChannel c * 3) / 2 < 2 ^ 32 := lt_of_le_of_lt (Nat.div_le_self _ 2) (u32_lt _)
    dsimp only [arrangeYuvBuf]
    by_cases hroom : c.bufSize < u32 (yuvChannel c * 3) / 2
    · rw [hmem, if_pos hroom]
      exact iff_of_false (by simp) (by omega)
    · rw [hmem, if_neg hroom, start_eq_bump rfl hlt, ← first_isSome hrot (not_lt.1 hroom)]
      exact Bool.eq_iff_iff.1 (bind_some_isSome _ _)

/-- without a rotation the layout and the JPEG have to fit, and nothing else -/
theorem arrange_isSome_iff (hrot : c.needRot = false) :
    (cameraArrangeCaptureBuf c).isSome ↔ c.layoutSize + c.jpegSize ≤ c.bufSize := by
  rw [← arrangeFormatBuf_isSome hrot]
  exact Bool.eq_iff_iff.1 (bind_some_isSome _ _)

end Layout

/-! ## A whole picture -/

theorem aligned16_of_dvd {w : ℕ} (hw : w < 2 ^ 32) (h : 16 ∣ w) : aligned16 w = w := by
  obtain ⟨k, rfl⟩ := h
  rw [aligned16, u32_of_lt (by omega)]
  omega

section Whole

variable {c : Capture}

theorem Whole.imageChannel_eq (h : Whole c) : c.imageChannel = c.pixels := by
  rw [Capture.imageChannel, Capture.imageWidth, Capture.imageHeight, aligned16_of_dvd c.imageSize.width_lt h.width,
    aligned16_of_dvd c.imageSize.height_lt h.height]
  exact u32_of_lt h.pixels

theorem Whole.dvd (h : Whole c) : 8 ∣ c.pixels := by
  have hwidth : 8 ∣ c.imageSize.width := dvd_trans (by decide) h.width
  exact Dvd.dvd.mul_right hwidth _

/-- half a byte a pixel, with room for the EXIF header in a small picture -/
theorem Whole.jpegSize_eq (h : Whole c) (hp : c.pixels < 2 ^ 30) :
    c.jpegSize = c.pixels / 2 + if c.pixels ≤ jpegSmallSize then jpegExifSize else 0 := by
  obtain ⟨k, hk⟩ : 4 ∣ c.pixels / 2 := by
    obtain ⟨k, hk⟩ := h.dvd
    exact ⟨k, by omega⟩
  have hword : ∀ n, n < 2 ^ 30 → 4 ∣ n → addrByWord n = n := by
    rintro _ hn ⟨m, rfl⟩
    rw [addrByWord, u32_of_lt (by omega)]
    omega
  have hpix : u32 (c.imageWidth * c.imageHeight) = c.pixels := h.imageChannel_eq
  rw [Capture.jpegSize, getJpegSize, cmrJpegSize, hpix]
  by_cases hsmall : c.pixels ≤ jpegSmallSize
  · have hsum : c.pixels / 2 + jpegExifSize = 4 * (k + 16 * 1024) := by
      rw [hk, jpegExifSize]
      ring
    have hlt : c.pixels / 2 + jpegExifSize < 2 ^ 30 := by
      unfold jpegSmallSize at hsmall
      unfold jpegExifSize
      omega
    rw [if_pos hsmall, if_pos hsmall, u32_of_lt (by omega)]
    exact hword _ hlt ⟨_, hsum⟩
  · rw [if_neg hsmall, if_neg hsmall, Nat.add_zero]
    exact hword _ (by omega) ⟨k, hk⟩

theorem Whole.layoutSize_yuv (h : Whole c) (hfmt : c.origFmt = .yuv) (hp : c.pixels < 2 ^ 30) :
    c.layoutSize = c.pixels * 3 / 2 := by
  have htmp : u32 (c.capSize.width * c.capSize.height) = c.pixels := by
    rw [h.cap]
    exact u32_of_lt h.pixels
  have hch : yuvChannel c = c.pixels := by
    rw [yuvChannel, htmp, h.imageChannel_eq, if_neg (lt_irrefl _)]
  rw [Capture.layoutSize, hfmt]
  dsimp only
  rw [hch, u32_of_lt (by omega)]

theorem Whole.layoutSize_jpeg (h : Whole c) (hfmt : c.origFmt = .jpeg) (hp : c.pixels < 2 ^ 30) :
    c.layoutSize = c.pixels * 2 := by
  have hheight := c.imageSize.height_lt
  have hleft : sub32 (sub32 c.snSize.height c.snTrim.startY) c.snTrim.height = 0 := by
    rw [h.sn, h.trimY, h.trimHeight, sub32_of_le hheight (Nat.zero_le _), Nat.sub_zero, sub32_of_le hheight le_rfl,
      Nat.sub_self]
  have htmp : u32 (c.snSize.height * c.snSize.width) = c.pixels := by
    rw [h.sn, Nat.mul_comm]
    exact u32_of_lt h.pixels
  have hzero : u32 0 = 0 := u32_of_lt (by norm_num)
  have hend : jpegYEnd c = c.pixels := by
    rw [jpegYEnd, hleft, htmp, h.imageChannel_eq, Nat.zero_mul, max_self, hzero, Nat.zero_add,
      u32_of_lt (by omega)]
  rw [Capture.layoutSize, hfmt]
  dsimp only
  rw [hend, u32_of_lt (by omega)]

end Whole

/-! ## The rows -/

/-- the rows that are zero never match first -/
theorem find_filled {rows : List CapSizeToMem} (hne : rows ≠ []) {p : ℕ} {row : CapSizeToMem}
    (h : (tabOf rows).find? (fun row => decide (p ≤ row.pixelNum)) = some row) :
    rows.find? (fun row => decide (p ≤ row.pixelNum)) = some row := by
  rw [tabOf, List.find?_append, Option.or_eq_some_iff] at h
  rcases h with h | ⟨hnone, hzero⟩
  · exact h
  · exfalso
    obtain ⟨first, hfirst⟩ := List.exists_mem_of_ne_nil rows hne
    have hlt : ¬ p ≤ first.pixelNum := by simpa using List.find?_eq_none.1 hnone first hfirst
    have hle : p ≤ row.pixelNum := by simpa using List.find?_some hzero
    have hrow : row = ⟨0, 0⟩ := List.eq_of_mem_replicate (List.mem_of_find?_eq_some hzero)
    rw [hrow] at hle
    exact hlt (hle.trans (Nat.zero_le _))

/-- P holds of the pixel counts each row is found for -/
def EachRow (P : ℕ → ℕ → Prop) : ℕ → List CapSizeToMem → Prop
  | _, [] => True
  | lo, row :: rows => (∀ p, lo ≤ p → p ≤ row.pixelNum → P p row.memSize) ∧ EachRow P (row.pixelNum + 1) rows

theorem EachRow.found {P : ℕ → ℕ → Prop} {lo p : ℕ} {rows : List CapSizeToMem} {row : CapSizeToMem}
    (h : EachRow P lo rows) (hlo : lo ≤ p)
    (hfind : rows.find? (fun row => decide (p ≤ row.pixelNum)) = some row) : P p row.memSize := by
  induction rows generalizing lo with
  | nil => exact absurd hfind (by simp)
  | cons first rows ih =>
    obtain ⟨hfirst, hrest⟩ := h
    rw [List.find?_cons] at hfind
    by_cases hp : p ≤ first.pixelNum
    · simp only [hp, decide_true, Option.some.injEq] at hfind
      rw [← hfind]
      exact hfirst p hlo hp
    · simp only [hp, decide_false] at hfind
      exact ih hrest (not_le.1 hp) hfind

/-- whether a picture of p pixels fits into a row -/
structure RowFits (cameraId p memSize : ℕ) : Prop where
  lt : p < 2 ^ 30
  small : p ≤ 300 * 1024 → 5 * p + 128 * 1024 ≤ 2 * memSize
  yuv : 2 * p ≤ memSize
  jpeg : 5 * p ≤ 2 * memSize ↔ JpegCovered cameraId p

theorem backCamRows_fit : EachRow (RowFits 0) 0 backCamRows := by
  have hcov : ∀ p, JpegCovered 0 p ↔ 5 * p ≤ 34 * 2 ^ 20 ∨ 7 * 2 ^ 20 < p ∧ 5 * p ≤ 36 * 2 ^ 20 := fun p => by
    rw [JpegCovered, if_pos rfl]
  refine ⟨?_, ?_, ?_, ?_, ?_, ?_, ?_, ?_, trivial⟩ <;>
  · intro p hlo hhi
    dsimp only at hlo hhi ⊢
    constructor
    case jpeg => rw [hcov]; omega
    all_goals omega

theorem frontCamRows_fit : EachRow (RowFits 1) 0 frontCamRows := by
  have hcov : ∀ p, JpegCovered 1 p ↔ 5 * p ≤ 32 * 2 ^ 20 := fun p => by rw [JpegCovered, if_neg (by decide)]
  refine ⟨?_, ?_, ?_, ?_, ?_, ?_, ?_, ?_, trivial⟩ <;>
  · intro p hlo hhi
    dsimp only at hlo hhi ⊢
    constructor
    case jpeg => rw [hcov]; omega
    all_goals omega

theorem memSizeRows_fit {cameraId : ℕ} (h : cameraId ≠ 0) : EachRow (RowFits cameraId) 0 memSizeRows := by
  have hcov : ∀ p, JpegCovered cameraId p ↔ 5 * p ≤ 32 * 2 ^ 20 := fun p => by rw [JpegCovered, if_neg h]
  refine ⟨?_, ?_, ?_, ?_, ?_, ?_, ?_, ?_, trivial⟩ <;>
  · intro p hlo hhi
    dsimp only at hlo hhi ⊢
    constructor
    case jpeg => rw [hcov]; omega
    all_goals omega

theorem memTabRows_fit (cameraId : ℕ) {fmt : OrigFmt} (hfmt : fmt ≠ .raw) :
    EachRow (RowFits cameraId) 0 (memTabRows cameraId fmt) ∧ memTabRows cameraId fmt ≠ [] := by
  rw [memTabRows, if_neg hfmt]
  by_cases hback : cameraId = 0
  · rw [if_pos hback, hback]
    exact ⟨backCamRows_fit, by simp [backCamRows]⟩
  · rw [if_neg hback]
    by_cases hfront : cameraId = 1
    · rw [if_pos hfront, hfront]
      exact ⟨frontCamRows_fit, by simp [frontCamRows]⟩
    · rw [if_neg hfront]
      exact ⟨memSizeRows_fit hback, by simp [memSizeRows]⟩

theorem cameraCaptureBufSize_fits {cameraId memSize : ℕ} {fmt : OrigFmt} (hfmt : fmt ≠ .raw) {s : ImgSize}
    (hpix : s.width * s.height < 2 ^ 32) (h : cameraCaptureBufSize cameraId fmt s = some memSize) :
    RowFits cameraId (s.width * s.height) memSize := by
  obtain ⟨hfit, hne⟩ := memTabRows_fit cameraId hfmt
  unfold cameraCaptureBufSize at h
  rw [u32_of_lt hpix] at h
  obtain ⟨row, hrow, rfl⟩ := Option.map_eq_some_iff.1 h
  exact hfit.found (Nat.zero_le _) (find_filled hne hrow)

/-- **The capture sizes.** A whole picture that is not RAW has room in what the table gives it, unless it comes from a
JPEG sensor and is too big -/
theorem capture_size_covers_iff (cameraId : ℕ) (c : Capture) (hfmt : c.origFmt ≠ .raw) (h : Whole c)
    (hsize : cameraCaptureBufSize cameraId c.origFmt c.imageSize = some c.bufSize) :
    (cameraArrangeCaptureBuf c).isSome ↔ (c.origFmt = .jpeg → JpegCovered cameraId c.pixels) := by
  have hrow : RowFits cameraId c.pixels c.bufSize := cameraCaptureBufSize_fits hfmt h.pixels hsize
  have hlt := hrow.lt
  have hdvd := h.dvd
  have hjpeg : c.pixels ≤ 300 * 1024 ∧ c.jpegSize = c.pixels / 2 + 64 * 1024 ∨ c.jpegSize = c.pixels / 2 := by
    rw [h.jpegSize_eq hlt]
    by_cases hp : c.pixels ≤ jpegSmallSize
    · rw [if_pos hp]
      exact Or.inl ⟨hp, rfl⟩
    · rw [if_neg hp]
      exact Or.inr rfl
  rw [arrange_isSome_iff h.noRot]
  cases hf : c.origFmt with
  | raw => exact absurd hf hfmt
  | yuv =>
    have hyuv := hrow.yuv
    rw [h.layoutSize_yuv hf hlt]
    refine iff_of_true ?_ (by simp)
    rcases hjpeg with ⟨hp, hsz⟩ | hsz
    · have hsmall := hrow.small hp
      have htwo : c.pixels * 3 / 2 + c.pixels / 2 ≤ 2 * c.pixels := by omega
      calc c.pixels * 3 / 2 + c.jpegSize = c.pixels * 3 / 2 + c.pixels / 2 + 64 * 1024 := by rw [hsz, Nat.add_assoc]
        _ ≤ 2 * c.pixels + 64 * 1024 := Nat.add_le_add_right htwo _
        _ ≤ c.bufSize := by omega
    · rw [hsz]
      omega
  | jpeg =>
    rw [h.layoutSize_jpeg hf hlt, ← hrow.jpeg]
    simp only [forall_const]
    rcases hjpeg with ⟨hp, hsz⟩ | hsz
    · have hsmall := hrow.small hp
      rw [hsz]
      omega
    · rw [hsz]
      omega

/-- 2176 by 3072 pixels, 6.375 megapixels, with the back camera -/
def coveredSize : ImgSize := ⟨2176, 3072, by norm_num, by norm_num⟩

/-- 2560 by 2816 pixels, 6.875 megapixels -/
def uncoveredSize : ImgSize := ⟨2560, 2816, by norm_num, by norm_num⟩

theorem top_lt : 0 < 2 ^ 32 := by norm_num

theorem seventeenMb_lt : 17 * 2 ^ 20 < 2 ^ 32 := by norm_num

def wholeCapture (fmt : OrigFmt) (s : ImgSize) (bufSize : ℕ) (hbuf : bufSize < 2 ^ 32) : Capture where
  snSize := s
  snTrim := ⟨0, s.height, top_lt, s.height_lt⟩
  imageSize := s
  origFmt := fmt
  capSize := s
  thumSize := ⟨320, 240, by norm_num, by norm_num⟩
  needRot := false
  bufSize := bufSize
  bufSize_lt := hbuf

theorem wholeCapture_whole {fmt : OrigFmt} {s : ImgSize} {bufSize : ℕ} {hbuf : bufSize < 2 ^ 32}
    (hwidth : 16 ∣ s.width) (hheight : 16 ∣ s.height) (hpix : s.width * s.height < 2 ^ 32) :
    Whole (wholeCapture fmt s bufSize hbuf) where
  sn := rfl
  cap := rfl
  trimY := rfl
  trimHeight := rfl
  noRot := rfl
  width := hwidth
  height := hheight
  pixels := hpix

theorem captureBufSize_big {s : ImgSize} (hlo : 0x600000 < s.width * s.height) (hhi : s.width * s.height ≤ 0x700000) :
    cameraCaptureBufSize 0 .jpeg s = some (17 * 2 ^ 20) := by
  have hpix : u32 (s.width * s.height) = s.width * s.height := u32_of_lt (by omega)
  unfold cameraCaptureBufSize
  rw [hpix]
  have hfind : (tabOf (memTabRows 0 .jpeg)).find? (fun row => decide (s.width * s.height ≤ row.pixelNum)) =
      some ⟨0x700000, 17 * 2 ^ 20⟩ := by
    rw [List.find?_eq_some_iff_append]
    refine ⟨by simpa using hhi, backCamRows.take 6, backCamRows.drop 7 ++ List.replicate 5 ⟨0, 0⟩, rfl, ?_⟩
    intro row hrow
    have hle : row.pixelNum ≤ 0x600000 := by
      revert row
      decide
    simp only [Bool.not_eq_true', decide_eq_false_iff_not]
    omega
  dsimp only
  rw [hfind]
  rfl

theorem capture_size_covers_iff_covered :
    (cameraArrangeCaptureBuf (wholeCapture .jpeg coveredSize (17 * 2 ^ 20) seventeenMb_lt)).isSome ↔
      (OrigFmt.jpeg = .jpeg → JpegCovered 0 (2176 * 3072)) :=
  capture_size_covers_iff 0 (wholeCapture .jpeg coveredSize (17 * 2 ^ 20) seventeenMb_lt) (by decide)
    (wholeCapture_whole (by decide) (by decide) (by decide)) (captureBufSize_big (by decide) (by decide))

/-- a JPEG of 6.875 megapixels has no room in 17 megabytes -/
theorem capture_size_broken : ¬ ∀ (cameraId : ℕ) (c : Capture), c.origFmt ≠ .raw → Whole c →
    cameraCaptureBufSize cameraId c.origFmt c.imageSize = some c.bufSize → (cameraArrangeCaptureBuf c).isSome := by
  intro h
  have hwhole : Whole (wholeCapture .jpeg uncoveredSize (17 * 2 ^ 20) seventeenMb_lt) :=
    wholeCapture_whole (by decide) (by decide) (by decide)
  have hsome := h 0 _ (by decide) hwhole (captureBufSize_big (by decide) (by decide))
  have hlt : (wholeCapture .jpeg uncoveredSize (17 * 2 ^ 20) seventeenMb_lt).pixels < 2 ^ 30 := by decide
  have hpix : (wholeCapture .jpeg uncoveredSize (17 * 2 ^ 20) seventeenMb_lt).pixels = 7208960 := by decide
  rw [arrange_isSome_iff hwhole.noRot, hwhole.layoutSize_jpeg rfl hlt, hwhole.jpegSize_eq hlt, hpix,
    if_neg (by decide)] at hsome
  exact absurd hsome (by decide)

end SprdDevice.Camera
