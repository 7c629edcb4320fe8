/-
The product-info store of rawdatad (`rawdata.c`): every product-info file has a block on each of two flash partitions,
which `init_productinfo` compares when the daemon starts and `write_partition` rewrites when the file changes.

A block is 4096 bytes: 3076 bytes of data, the counter, and the checksum of what is before it. The block of the phase
check has no counter. What the device does is a parameter of each call (`Io`): how many bytes a read delivers, how many
a write stores, and whether the file opens. A read that delivers less than it was asked for is an error, and leaves in
the buffer what it delivered.

Results: `checkBlock_ret`, `checkBlock_buffer` (what `rawdata_check_block` returns and leaves in the buffer) and
`stamp_counter`, `stamp_crcOk` (the block that `write_partition` builds has its counter and passes the CRC).
-/
import Mathlib.Tactic
import SprdDevice.Lib.Word
import SprdDevice.RawData.Crc

namespace SprdDevice.RawData

open SprdDevice.Memory SprdDevice.Word

/-! ## Model -/

def RAWDATA_BUFFER_SIZE : ℕ := 1024 * 4

def RAWDATA_DATASIZE : ℕ := 1024 * 3 + 4

def RAWDATA_COUNTER_SIZE : ℕ := 4

def RAWDATA_CRC_OFFSET : ℕ := RAWDATA_DATASIZE + RAWDATA_COUNTER_SIZE

def RAWDATA_COUNTER_THRES : ℕ := 0xEFFFFFFF

def RAWDATA_BLOCK_PHASECHECK : ℕ := 0

def PRODUCT_INFO : List String :=
  ["/productinfo/productinfo.bin", "/productinfo/factorymode.file", "/productinfo/alarm_flag",
    "/productinfo/poweron_timeinmillis"]

/-- `/dev/block/mmcblk0p8` and `/dev/block/mmcblk0p9` -/
inductive Partition where
  | partition0
  | partition1
deriving DecidableEq, Repr

def Partition.other : Partition → Partition
  | .partition0 => .partition1
  | .partition1 => .partition0

abbrev Block := ℕ → UInt8

/-- what there is of one product-info file -/
structure Cell where
  /-- its block on the two partitions -/
  flash : Partition → Block
  file : Option (List UInt8)
  /-- the partition that the last `init_productinfo` used -/
  used : Option Partition

structure St where
  cell : ℕ → Cell
  rawdataBuffer : Partition → Block

/-- what the device does in a call, for each block -/
structure Io where
  /-- bytes that the read of a block delivers, 0 when the partition does not open -/
  rsize : Partition → ℕ → ℕ
  /-- bytes that the write of a block stores -/
  wsize : Partition → ℕ → ℕ
  /-- bytes that `fwrite` stores in the file, none when it does not open -/
  fsize : ℕ → Option ℕ

/-- the result and the buffer after the read -/
def readMmcPartition (rsize : ℕ) (flash buf : Block) (size : ℕ) : ℤ × Block :=
  (if rsize ≠ size then -1 else rsize, copy buf flash (min rsize size))

/-- the flash after the write -/
def writeMmcPartition (wsize : ℕ) (flash buf : Block) (size : ℕ) : Block := copy flash buf (min wsize size)

def rawdataCheckBlock (io : Io) (s : St) (partition : Partition) (block : ℕ) : ℤ × St :=
  let ptr := copy (s.rawdataBuffer partition) (fun _ => 0xff) RAWDATA_BUFFER_SIZE
  let (ret, ptr) := readMmcPartition (io.rsize partition block) ((s.cell block).flash partition) ptr RAWDATA_BUFFER_SIZE
  let s := { s with rawdataBuffer := Function.update s.rawdataBuffer partition ptr }
  if ret = -1 then (ret, s)
  else
    let (ret, crcOld, crcCalc) :=
      if block = RAWDATA_BLOCK_PHASECHECK then
        (0, be32 ptr RAWDATA_DATASIZE, crc32b 0xFFFFFFFF (cells ptr 0 RAWDATA_DATASIZE))
      else
        (sint32 (be32 ptr RAWDATA_DATASIZE), be32 ptr RAWDATA_CRC_OFFSET,
          crc32b 0xFFFFFFFF (cells ptr 0 RAWDATA_CRC_OFFSET))
    if crcOld ≠ crcCalc.toNat then (-1, s) else (ret, s)

def St.setCell (s : St) (block : ℕ) (c : Cell) : St := { s with cell := Function.update s.cell block c }

def wirteProductinfo (io : Io) (s : St) (partition : Partition) (block : ℕ) : St :=
  match io.fsize block with
  | none => s
  | some n =>
    s.setCell block
      { s.cell block with file := some (cells (s.rawdataBuffer partition) 0 (min n RAWDATA_DATASIZE)) }

/-- the body of the loop of `init_productinfo` -/
def initBlock (io : Io) (s : St) (i : ℕ) : St :=
  let (valid1, s) := rawdataCheckBlock io s .partition0 i
  let (valid2, s) := rawdataCheckBlock io s .partition1 i
  if valid1 = -1 ∧ valid2 = -1 then s.setCell i { s.cell i with used := none }
  else
    let partition : Partition := if valid1 > valid2 then .partition0 else .partition1
    let s := s.setCell i { s.cell i with used := some partition }
    let s := wirteProductinfo io s partition i
    if valid1 ≠ valid2 then
      let errorPartition := partition.other
      let flash := writeMmcPartition (io.wsize errorPartition i) ((s.cell i).flash errorPartition)
        (s.rawdataBuffer partition) RAWDATA_BUFFER_SIZE
      s.setCell i { s.cell i with flash := Function.update (s.cell i).flash errorPartition flash }
    else s

def initProductinfo (io : Io) (s : St) : St := (List.range PRODUCT_INFO.length).foldl (initBlock io) s

/-- `write_partition`'s rule for the counter -/
def nextCounter (counter : ℕ) : ℕ := if counter > RAWDATA_COUNTER_THRES then 0 else counter + 1

/-- the counter and the checksum set in the block -/
def stamp (ptr : Block) (counter : ℕ) : Block :=
  let ptr := store ptr RAWDATA_DATASIZE (be32Bytes counter)
  let crc := crc32b 0xFFFFFFFF (cells ptr 0 RAWDATA_CRC_OFFSET)
  store ptr RAWDATA_CRC_OFFSET (be32Bytes crc.toNat)

/-- `ptr` is always `rawdata_buffer[0]`. `csize` and `buf` are the bytes that the read of the counter delivers and what
the stack has where it is read to. -/
def writePartition (io : Io) (csize : ℕ) (buf : Block) (s : St) (block : ℕ) : St :=
  let flash := (s.cell block).flash
  let (_, buf) := readMmcPartition csize (fun j => flash .partition0 (RAWDATA_DATASIZE + j)) buf RAWDATA_COUNTER_SIZE
  let ptr := stamp (s.rawdataBuffer .partition0) (nextCounter (be32 buf 0))
  let s := { s with rawdataBuffer := Function.update s.rawdataBuffer .partition0 ptr }
  s.setCell block
    { s.cell block with
      flash := fun p => writeMmcPartition (io.wsize p block) (flash p) ptr RAWDATA_BUFFER_SIZE }

/-! ## Blocks with a counter -/

def counter (b : Block) : ℕ := be32 b RAWDATA_DATASIZE

/-- the checksum in the block is that of what is before it -/
def CrcOk (b : Block) : Prop :=
  be32 b RAWDATA_CRC_OFFSET = (crc32b 0xFFFFFFFF (cells b 0 RAWDATA_CRC_OFFSET)).toNat

instance (b : Block) : Decidable (CrcOk b) := inferInstanceAs (Decidable (_ = _))

/-- the copy can be read and passes the CRC -/
def Passes (io : Io) (c : Cell) (i : ℕ) (p : Partition) : Prop :=
  io.rsize p i = RAWDATA_BUFFER_SIZE ∧ CrcOk (c.flash p)

instance (io : Io) (c : Cell) (i : ℕ) (p : Partition) : Decidable (Passes io c i p) :=
  inferInstanceAs (Decidable (_ ∧ _))

theorem counter_lt (b : Block) : counter b < 2 ^ 32 := be32_lt b RAWDATA_DATASIZE

theorem counter_congr {a b : Block} (h : Same RAWDATA_BUFFER_SIZE a b) : counter a = counter b :=
  be32_congr h (by decide)

theorem crcOk_congr {a b : Block} (h : Same RAWDATA_BUFFER_SIZE a b) : CrcOk a ↔ CrcOk b := by
  have hcells : cells a 0 RAWDATA_CRC_OFFSET = cells b 0 RAWDATA_CRC_OFFSET :=
    (cells_eq_iff a b _).2 (h.mono (by decide))
  unfold CrcOk
  rw [be32_congr h (by decide), hcells]

/-- the checksum is stored behind the bytes it covers -/
theorem stamp_same (ptr : Block) (v : ℕ) :
    Same RAWDATA_CRC_OFFSET (stamp ptr v) (store ptr RAWDATA_DATASIZE (be32Bytes v)) := by
  intro i hi
  unfold stamp
  rw [store_outside _ _ (Or.inl hi)]

theorem stamp_counter (ptr : Block) {v : ℕ} (hv : v < 2 ^ 32) : counter (stamp ptr v) = v := by
  unfold counter
  rw [be32_congr (stamp_same ptr v) (le_refl _), be32_store _ _ hv]

/-- **The block that `write_partition` builds passes the CRC.** -/
theorem stamp_crcOk (ptr : Block) (v : ℕ) : CrcOk (stamp ptr v) := by
  set b := store ptr RAWDATA_DATASIZE (be32Bytes v)
  set crc := (crc32b 0xFFFFFFFF (cells b 0 RAWDATA_CRC_OFFSET)).toNat
  have hstamp : stamp ptr v = store b RAWDATA_CRC_OFFSET (be32Bytes crc) := rfl
  have hword : be32 (stamp ptr v) RAWDATA_CRC_OFFSET = crc := by
    rw [hstamp]
    exact be32_store b RAWDATA_CRC_OFFSET (BitVec.isLt _)
  unfold CrcOk
  rw [hword, (cells_eq_iff _ _ _).2 (stamp_same ptr v)]

/-! ## `rawdata_check_block` -/

/-- what `rawdata_check_block` returns for a block with a counter -/
def valid (io : Io) (c : Cell) (i : ℕ) (p : Partition) : ℤ :=
  if Passes io c i p then sint32 (counter (c.flash p)) else -1

theorem checkBlock_cell (io : Io) (s : St) (p : Partition) (i : ℕ) : (rawdataCheckBlock io s p i).2.cell = s.cell := by
  unfold rawdataCheckBlock
  dsimp only
  split_ifs <;> rfl

/-- the other buffer is not written -/
theorem checkBlock_frame (io : Io) (s : St) {p q : Partition} (i : ℕ) (h : q ≠ p) :
    (rawdataCheckBlock io s p i).2.rawdataBuffer q = s.rawdataBuffer q := by
  unfold rawdataCheckBlock
  dsimp only
  split_ifs <;> exact Function.update_of_ne h _ _

theorem readMmcPartition_error (n : ℕ) (flash buf : Block) (size : ℕ) :
    (readMmcPartition n flash buf size).1 = -1 ↔ n ≠ size := by
  unfold readMmcPartition
  dsimp only
  split_ifs <;> simp_all

/-- what the read leaves in the buffer when there is no error -/
theorem readMmcPartition_same {n : ℕ} (flash buf : Block) (h : n = RAWDATA_BUFFER_SIZE) :
    Same RAWDATA_BUFFER_SIZE (readMmcPartition n flash buf RAWDATA_BUFFER_SIZE).2 flash := by
  subst h
  exact copy_same _ _ _

theorem checkBlock_buffer (io : Io) (s : St) (p : Partition) {i : ℕ} (h : io.rsize p i = RAWDATA_BUFFER_SIZE) :
    Same RAWDATA_BUFFER_SIZE ((rawdataCheckBlock io s p i).2.rawdataBuffer p) ((s.cell i).flash p) := by
  unfold rawdataCheckBlock
  dsimp only
  split_ifs <;> simpa only [Function.update_self] using readMmcPartition_same _ _ h

theorem checkBlock_ret (io : Io) (s : St) (p : Partition) {i : ℕ} (hi : i ≠ RAWDATA_BLOCK_PHASECHECK) :
    (rawdataCheckBlock io s p i).1 = valid io (s.cell i) i p := by
  have herror := readMmcPartition_error (io.rsize p i) ((s.cell i).flash p)
    (copy (s.rawdataBuffer p) (fun _ => 0xff) RAWDATA_BUFFER_SIZE) RAWDATA_BUFFER_SIZE
  have hsame := readMmcPartition_same (n := io.rsize p i) ((s.cell i).flash p)
    (copy (s.rawdataBuffer p) (fun _ => 0xff) RAWDATA_BUFFER_SIZE)
  unfold rawdataCheckBlock valid
  dsimp only
  generalize readMmcPartition (io.rsize p i) ((s.cell i).flash p) _ RAWDATA_BUFFER_SIZE = rd at herror hsame ⊢
  obtain ⟨ret, ptr⟩ := rd
  dsimp only at herror hsame ⊢
  by_cases h : io.rsize p i = RAWDATA_BUFFER_SIZE
  · have hret : ¬ ret = -1 := fun hr => herror.1 hr h
    have hpass : CrcOk ptr ↔ Passes io (s.cell i) i p := (crcOk_congr (hsame h)).trans (and_iff_right h).symm
    rw [if_neg hret, if_neg hi, ← counter_congr (hsame h)]
    by_cases hcrc : CrcOk ptr
    · rw [if_pos (hpass.1 hcrc)]
      unfold CrcOk at hcrc
      simp only [hcrc, ne_eq, not_true_eq_false, if_false, counter]
    · rw [if_neg fun hp => hcrc (hpass.2 hp)]
      unfold CrcOk at hcrc
      simp only [hcrc, ne_eq, not_false_eq_true, if_true]
  · rw [if_pos (herror.2 h), if_neg fun hp => h hp.1]
    exact herror.2 h

/-- the block of the phase check has no counter, and is accepted with 0 -/
theorem checkBlock_phasecheck (io : Io) (s : St) (p : Partition)
    (h : io.rsize p RAWDATA_BLOCK_PHASECHECK = RAWDATA_BUFFER_SIZE)
    (hcrc : be32 ((s.cell RAWDATA_BLOCK_PHASECHECK).flash p) RAWDATA_DATASIZE =
      (crc32b 0xFFFFFFFF (cells ((s.cell RAWDATA_BLOCK_PHASECHECK).flash p) 0 RAWDATA_DATASIZE)).toNat) :
    (rawdataCheckBlock io s p RAWDATA_BLOCK_PHASECHECK).1 = 0 := by
  have herror := readMmcPartition_error (io.rsize p RAWDATA_BLOCK_PHASECHECK)
    ((s.cell RAWDATA_BLOCK_PHASECHECK).flash p)
    (copy (s.rawdataBuffer p) (fun _ => 0xff) RAWDATA_BUFFER_SIZE) RAWDATA_BUFFER_SIZE
  have hsame := readMmcPartition_same ((s.cell RAWDATA_BLOCK_PHASECHECK).flash p)
    (copy (s.rawdataBuffer p) (fun _ => 0xff) RAWDATA_BUFFER_SIZE) h
  unfold rawdataCheckBlock
  dsimp only
  generalize readMmcPartition (io.rsize p RAWDATA_BLOCK_PHASECHECK) _ _ RAWDATA_BUFFER_SIZE = rd at herror hsame ⊢
  obtain ⟨ret, ptr⟩ := rd
  dsimp only at herror hsame ⊢
  have hret : ¬ ret = -1 := fun hr => herror.1 hr h
  rw [← be32_congr hsame (by decide), ← (cells_eq_iff _ _ _).2 (hsame.mono (by decide))] at hcrc
  rw [if_neg hret, if_pos rfl]
  simp only [hcrc, ne_eq, not_true_eq_false, if_false]

end SprdDevice.RawData
