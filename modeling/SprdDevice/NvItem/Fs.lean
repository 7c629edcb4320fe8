/-
The files of an NV partition (`nvitem_fs.c`): an origin image and a backup image, each a 512-byte header and the image.

The header has the checksum of the image at byte 8, of which 16 bits are compared. `calc_checksum` is given buffers from
`malloc`, which are even, so the sum is over little-endian 16-bit words; `unsigned long` is 32 bits wide.
`ramDisk_Read` reads the two files in the order that `rand` picks, delivers the first that passes, and otherwise what it
can read of the second over bytes 0xFF; it rewrites the first from the second only when the second passes. `ret2` keeps
its value from the first file when the second cannot be opened. `ramDisk_Write` rewrites the backup, then the origin.
Only the partition's two files are modelled (`_getIdx` finds the partition), and opening an existing file succeeds.

Results: `valid_image` (a file that was written completely is valid and holds its image) and `ramDiskRead_valid`,
`ramDiskRead_second`, `ramDiskRead_data` (what a read delivers and repairs).
-/
import Mathlib.Tactic
import SprdDevice.Lib.Word
import SprdDevice.Lib.Crash
import SprdDevice.NvItem.Buf

namespace SprdDevice.NvItem

open SprdDevice.Memory SprdDevice.Word SprdDevice.Crash

/-! ## Model -/

/-- `image_path` and `imageBak_path` -/
inductive Which where
  | origin
  | bak
deriving DecidableEq, Repr

def Which.other : Which → Which
  | .origin => .bak
  | .bak => .origin

abbrev Files := Store Which UInt8

def sumWords : List UInt8 → ℕ
  | a :: b :: rest => a.toNat + 256 * b.toNat + sumWords rest
  | [a] => a.toNat
  | [] => 0

def calcChecksum (dat : List UInt8) : ℕ :=
  let checksum := sumWords dat % 2 ^ 32
  let checksum := checksum / 2 ^ 16 + checksum % 2 ^ 16
  let checksum := checksum + checksum / 2 ^ 16
  (2 ^ 16 - 1) - checksum % 2 ^ 16

def chkNVEcc (buf : List UInt8) (checksum : ℕ) : Bool := calcChecksum buf == checksum

def NV_HEAD_MAGIC : ℕ := 0x4e56

def NV_VERSION : ℕ := 101

/-- the header `ramDisk_Write` builds: magic, len, checksum, version, zeros -/
def nvHeader (buf : List UInt8) : List UInt8 :=
  le32Bytes NV_HEAD_MAGIC ++ le32Bytes buf.length ++ le32Bytes (calcChecksum buf) ++ le32Bytes NV_VERSION ++
    List.replicate 496 0

/-- what the two `read` calls deliver of a file: the header, then the image -/
def headBytes (b : List UInt8) : List UInt8 := b.take RAMNV_SECT_SIZE

def dataBytes (size : ℕ) (b : List UInt8) : List UInt8 := (b.drop RAMNV_SECT_SIZE).take size

/-- the 16 bits of `header_ptr->checksum` that are compared -/
def headChecksum (header : List UInt8) : ℕ := le16 (ofList header) 8

/-- bytes read over a buffer of size bytes 0xFF -/
def fillFF (size : ℕ) (data : List UInt8) : List UInt8 := data ++ List.replicate (size - data.length) 0xFF

/-- part 2 of `ramDisk_Read`: the second image. `ret2` is what the first file left in it; the result is the files and
the buffer. -/
def readSecond (size : ℕ) (f : Files) (first : Which) (ret2 : ℕ) : Files × List UInt8 :=
  match f first.other with
  | none =>
    let buf := fillFF size []
    if ret2 ≠ size then (f, buf)
    else if ¬ chkNVEcc buf 0 then (f, buf)
    else (exec f (rewrite first (List.replicate RAMNV_SECT_SIZE 0 ++ buf)), buf)
  | some b =>
    let buf := fillFF size (dataBytes size b)
    if RAMNV_SECT_SIZE ≠ (headBytes b).length then (f, buf)
    else if (dataBytes size b).length ≠ size then (f, buf)
    else if ¬ chkNVEcc buf (headChecksum (headBytes b)) then (f, buf)
    else (exec f (rewrite first (headBytes b ++ buf)), buf)

/-- `ramDisk_Read`, which always returns 1; `first` is the file the order of `rand` puts first -/
def ramDiskRead (size : ℕ) (f : Files) (first : Which) : Files × List UInt8 :=
  match f first with
  | none => readSecond size f first 0
  | some b =>
    if RAMNV_SECT_SIZE ≠ (headBytes b).length then readSecond size f first (dataBytes size b).length
    else if (dataBytes size b).length = size ∧ chkNVEcc (dataBytes size b) (headChecksum (headBytes b)) then
      (f, dataBytes size b)
    else readSecond size f first (dataBytes size b).length

/-- the actions of `ramDisk_Write` on the files -/
def writeActs (buf : List UInt8) : List (Act Which UInt8) :=
  rewrite .bak (nvHeader buf ++ buf) ++ rewrite .origin (nvHeader buf ++ buf)

def ramDiskWrite (f : Files) (buf : List UInt8) : Files := exec f (writeActs buf)

/-- a crash in `ramDisk_Write` after k actions -/
def ramDiskWriteCut (f : Files) (buf : List UInt8) (k : ℕ) : Files := exec f ((writeActs buf).take k)

/-! ## Valid files -/

/-- the file has a whole header and a whole image, and the checksum is the image's -/
def valid (size : ℕ) : Option (List UInt8) → Bool
  | none => false
  | some b => RAMNV_SECT_SIZE == (headBytes b).length && (dataBytes size b).length == size &&
      chkNVEcc (dataBytes size b) (headChecksum (headBytes b))

/-- what a file gives as second image: the bytes it has, then 0xFF -/
def delivers (size : ℕ) : Option (List UInt8) → List UInt8
  | none => fillFF size []
  | some b => fillFF size (dataBytes size b)

theorem fillFF_full {size : ℕ} {data : List UInt8} (h : data.length = size) : fillFF size data = data := by
  simp [fillFF, h]

theorem valid_some {size : ℕ} {b : List UInt8} : valid size (some b) = true ↔
    (headBytes b).length = RAMNV_SECT_SIZE ∧ (dataBytes size b).length = size ∧
      chkNVEcc (dataBytes size b) (headChecksum (headBytes b)) = true := by
  simp only [valid, Bool.and_eq_true, beq_iff_eq, and_assoc]
  exact and_congr eq_comm Iff.rfl

/-- the first file passes -/
theorem ramDiskRead_valid {size : ℕ} {f : Files} {first : Which} (h : valid size (f first) = true) :
    ramDiskRead size f first = (f, delivers size (f first)) := by
  unfold ramDiskRead
  cases hb : f first with
  | none => rw [hb] at h; exact absurd h (by simp [valid])
  | some b =>
    rw [hb] at h
    obtain ⟨h1, h2, h3⟩ := valid_some.1 h
    simp [h1, h2, h3, delivers, fillFF_full h2]

/-- the first file does not pass: part 2 decides -/
theorem ramDiskRead_invalid {size : ℕ} {f : Files} {first : Which} (h : valid size (f first) = false) :
    ∃ ret2, ramDiskRead size f first = readSecond size f first ret2 := by
  unfold ramDiskRead
  cases hb : f first with
  | none => exact ⟨0, rfl⟩
  | some b =>
    rw [hb] at h
    simp only
    split_ifs with h1 h2
    · exact ⟨_, rfl⟩
    · rw [not_ne_iff] at h1
      simp [valid, ← h1, h2.1, h2.2] at h
    · exact ⟨_, rfl⟩

theorem readSecond_data (size : ℕ) (f : Files) (first : Which) (ret2 : ℕ) :
    (readSecond size f first ret2).2 = delivers size (f first.other) := by
  unfold readSecond delivers
  cases f first.other with
  | none => simp only; split_ifs <;> rfl
  | some b => simp only; split_ifs <;> rfl

/-- what a read delivers -/
theorem ramDiskRead_data (size : ℕ) (f : Files) (first : Which) :
    (ramDiskRead size f first).2 =
      if valid size (f first) then delivers size (f first) else delivers size (f first.other) := by
  by_cases h : valid size (f first) = true
  · rw [ramDiskRead_valid h, if_pos h]
  · obtain ⟨ret2, hr⟩ := ramDiskRead_invalid (by simpa using h)
    rw [hr, readSecond_data, if_neg h]

/-- the file a repair writes -/
def repaired (size : ℕ) (b : List UInt8) : List UInt8 := headBytes b ++ dataBytes size b

/-- only the second file passes: the first is rewritten from it -/
theorem ramDiskRead_second {size : ℕ} {f : Files} {first : Which} {b : List UInt8} (h : valid size (f first) = false)
    (hb : f first.other = some b) (hv : valid size (some b) = true) :
    ramDiskRead size f first = (Function.update f first (some (repaired size b)), delivers size (some b)) := by
  obtain ⟨ret2, hr⟩ := ramDiskRead_invalid h
  obtain ⟨h1, h2, h3⟩ := valid_some.1 hv
  rw [hr]
  unfold readSecond
  simp [hb, h1, h2, fillFF_full h2, h3, delivers, exec_rewrite, repaired]

theorem repaired_parts {size : ℕ} {b : List UInt8} (h : valid size (some b) = true) :
    headBytes (repaired size b) = headBytes b ∧ dataBytes size (repaired size b) = dataBytes size b := by
  obtain ⟨h1, h2, -⟩ := valid_some.1 h
  constructor
  · simp only [repaired, headBytes] at h1 ⊢
    rw [List.take_append_of_le_length h1.ge, List.take_of_length_le h1.le]
  · simp only [repaired, dataBytes, headBytes] at h1 h2 ⊢
    rw [List.drop_append, List.drop_of_length_le h1.le, h1, Nat.sub_self, List.drop_zero, List.nil_append,
      List.take_of_length_le h2.le]

/-- a repaired file is valid and holds the image it was repaired from -/
theorem repaired_valid {size : ℕ} {b : List UInt8} (h : valid size (some b) = true) :
    valid size (some (repaired size b)) = true ∧ delivers size (some (repaired size b)) = delivers size (some b) := by
  obtain ⟨hh, hd⟩ := repaired_parts h
  simp only [valid, delivers, hh, hd, and_true]
  exact h

/-! ## Written files -/

theorem calcChecksum_lt (dat : List UInt8) : calcChecksum dat < 2 ^ 16 := by
  simp only [calcChecksum]
  omega

@[simp] theorem nvHeader_length (buf : List UInt8) : (nvHeader buf).length = RAMNV_SECT_SIZE := by
  simp only [nvHeader, List.length_append, le32Bytes_length, List.length_replicate, RAMNV_SECT_SIZE]

theorem nvHeader_checksum (buf : List UInt8) : headChecksum (nvHeader buf) = calcChecksum buf := by
  apply le16_of_cells _ (calcChecksum_lt buf)
  intro j hj
  interval_cases j <;> rfl

section Written

variable (buf : List UInt8)

theorem written_head : headBytes (nvHeader buf ++ buf) = nvHeader buf := by
  simp [headBytes]

theorem written_data : dataBytes buf.length (nvHeader buf ++ buf) = buf := by
  simp [dataBytes]

/-- **A file that was written completely** is valid and holds its image -/
theorem valid_image : valid buf.length (some (nvHeader buf ++ buf)) = true ∧
    delivers buf.length (some (nvHeader buf ++ buf)) = buf := by
  refine ⟨valid_some.2 ⟨?_, ?_, ?_⟩, ?_⟩
  · rw [written_head, nvHeader_length]
  · rw [written_data]
  · rw [written_head, written_data, nvHeader_checksum]
    simp [chkNVEcc]
  · rw [delivers, written_data, fillFF_full rfl]

/-- a file whose writing was cut is not valid -/
theorem invalid_of_take {n : ℕ} (h : n < RAMNV_SECT_SIZE + buf.length) :
    valid buf.length (some ((nvHeader buf ++ buf).take n)) = false := by
  rw [Bool.eq_false_iff]
  intro hv
  obtain ⟨h1, h2, -⟩ := valid_some.1 hv
  simp only [headBytes, dataBytes, List.length_take, List.length_drop, List.length_append, nvHeader_length] at h1 h2
  omega

end Written

end SprdDevice.NvItem
