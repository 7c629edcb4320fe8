/-
The phase-check block: `nvm_daemon` writes it (`nvitem.c`: `update_productinfofile_emmc`), and rawdatad reads it at the
start of the two product-info partitions (`rawdata.c`: `rawdata_check_block` of block 0).

`phasecheck_buffer` is the memory seen from its first byte, and so is each partition. The two devices are those of
`RAW_DATA_PARTITION`, in the same order. What the device does is a parameter: which partitions open, and how many bytes a
write stores.

Results: `productinfo_accepted` (rawdatad takes every block that `nvm_daemon` builds, and finds the payload in it).
-/
import Mathlib.Tactic
import SprdDevice.Lib.Word
import SprdDevice.RawData.Store
import SprdDevice.NvmDaemon.Crc

namespace SprdDevice.NvmDaemon

open SprdDevice.Memory SprdDevice.Word
open SprdDevice.RawData (Partition Block RAWDATA_BUFFER_SIZE RAWDATA_DATASIZE RAWDATA_BLOCK_PHASECHECK rawdataCheckBlock)

/-! ## Model -/

def PRODUCTINFO_SIZE : ℕ := 3 * 1024

/-- `sizeof(phasecheck_buffer)` -/
def PHASECHECK_BUFFER_SIZE : ℕ := PRODUCTINFO_SIZE + 8

/-- the marks behind the payload and the checksum over both, high byte first -/
def sealProductinfo (buf : Block) (size : ℕ) : Block :=
  let buf := store buf size [0x5a, 0x5a, 0x5a, 0x5a]
  let crc := crc32b 0xffffffff (cells buf 0 (size + 4))
  store buf (size + 4) (be32Bytes crc.toNat)

/-- what the device does in a call -/
structure DevIo where
  opens : Partition → Bool
  /-- bytes that the write stores -/
  wsize : Partition → ℕ

/-- the result, `phasecheck_buffer` and the two partitions afterwards -/
def updateProductinfofileEmmc (io : DevIo) (buf : Block) (flash : Partition → Block) (src dst : Partition) (size : ℕ) :
    ℤ × Block × (Partition → Block) :=
  if src = dst then (-1, buf, flash)
  else if size > PHASECHECK_BUFFER_SIZE - 8 then (-1, buf, flash)
  else
    let buf := sealProductinfo buf size
    if ¬ io.opens src then (-1, buf, flash)
    else
      let flash := Function.update flash src (copy (flash src) buf (min (io.wsize src) (size + 8)))
      if ¬ io.opens dst then (-1, buf, flash)
      else (1, buf, Function.update flash dst (copy (flash dst) buf (min (io.wsize dst) (size + 8))))

/-! ## The sealed block -/

/-- the seal stands behind the payload -/
theorem sealProductinfo_same (buf : Block) (size : ℕ) : Same size (sealProductinfo buf size) buf := by
  intro i hi
  unfold sealProductinfo
  rw [store_outside _ _ (Or.inl (by omega)), store_outside _ _ (Or.inl hi)]

/-- the checksum in the block is rawdatad's checksum of the bytes before it -/
theorem sealProductinfo_crc (buf : Block) (size : ℕ) :
    be32 (sealProductinfo buf size) (size + 4) =
      (RawData.crc32b 0xFFFFFFFF (cells (sealProductinfo buf size) 0 (size + 4))).toNat := by
  set marked := store buf size [0x5a, 0x5a, 0x5a, 0x5a] with hmarked
  have hseal : sealProductinfo buf size =
      store marked (size + 4) (be32Bytes (crc32b 0xffffffff (cells marked 0 (size + 4))).toNat) := rfl
  have hsame : Same (size + 4) (sealProductinfo buf size) marked := by
    intro i hi
    rw [hseal, store_outside _ _ (Or.inl hi)]
  rw [(cells_eq_iff _ _ _).2 hsame, ← crc32b_eq, hseal]
  exact be32_store marked (size + 4) (BitVec.isLt _)

/-- after a call that succeeds both partitions begin with the sealed block -/
theorem updateProductinfo_flash (io : DevIo) (buf : Block) (flash : Partition → Block) (hopen : ∀ p, io.opens p = true)
    (hwrite : ∀ p, io.wsize p = PRODUCTINFO_SIZE + 8) (p : Partition) :
    Same (PRODUCTINFO_SIZE + 8)
      ((updateProductinfofileEmmc io buf flash .partition0 .partition1 PRODUCTINFO_SIZE).2.2 p)
      (sealProductinfo buf PRODUCTINFO_SIZE) := by
  have hresult : (updateProductinfofileEmmc io buf flash .partition0 .partition1 PRODUCTINFO_SIZE).2.2 p =
      copy (flash p) (sealProductinfo buf PRODUCTINFO_SIZE) (PRODUCTINFO_SIZE + 8) := by
    unfold updateProductinfofileEmmc
    rw [if_neg (by decide), if_neg (by decide)]
    simp only [hopen, hwrite, min_self, not_true_eq_false, if_false]
    cases p with
    | partition0 => rfl
    | partition1 => rfl
  rw [hresult]
  exact copy_same _ _ _

/-! ## The reader -/

/-- what rawdatad reads of a partition that begins with a sealed block -/
theorem checkBlock_sealed (io : RawData.Io) (s : RawData.St) (p : Partition) (buf : Block)
    (hread : io.rsize p RAWDATA_BLOCK_PHASECHECK = RAWDATA_BUFFER_SIZE)
    (hflash : Same (PRODUCTINFO_SIZE + 8) ((s.cell RAWDATA_BLOCK_PHASECHECK).flash p)
      (sealProductinfo buf PRODUCTINFO_SIZE)) :
    (rawdataCheckBlock io s p RAWDATA_BLOCK_PHASECHECK).1 = 0 ∧
      Same PRODUCTINFO_SIZE ((rawdataCheckBlock io s p RAWDATA_BLOCK_PHASECHECK).2.rawdataBuffer p) buf := by
  have hbuffer := RawData.checkBlock_buffer io s p hread
  refine ⟨RawData.checkBlock_phasecheck io s p hread ?_, ?_⟩
  · -- end marks included, the checksum covers the 3076 bytes that rawdatad takes for data
    have hcells := (cells_eq_iff _ _ _).2 (hflash.mono (m := RAWDATA_DATASIZE) (by decide))
    rw [hcells, be32_congr hflash (by decide)]
    exact sealProductinfo_crc buf PRODUCTINFO_SIZE
  · intro i hi
    calc (rawdataCheckBlock io s p RAWDATA_BLOCK_PHASECHECK).2.rawdataBuffer p i
        = (s.cell RAWDATA_BLOCK_PHASECHECK).flash p i := hbuffer i (lt_trans hi (by decide))
      _ = sealProductinfo buf PRODUCTINFO_SIZE i := hflash i (lt_trans hi (by decide))
      _ = buf i := sealProductinfo_same buf PRODUCTINFO_SIZE i hi

/-- **Writer and reader agree on the phase-check block.** Whatever the partitions held before, after a complete
`update_productinfofile_emmc` rawdatad accepts either copy, and reads the payload from it. -/
theorem productinfo_accepted (dev : DevIo) (buf : Block) (flash : Partition → Block) (hopen : ∀ p, dev.opens p = true)
    (hwrite : ∀ p, dev.wsize p = PRODUCTINFO_SIZE + 8) (io : RawData.Io) (s : RawData.St) (p : Partition)
    (hread : io.rsize p RAWDATA_BLOCK_PHASECHECK = RAWDATA_BUFFER_SIZE)
    (hflash : (s.cell RAWDATA_BLOCK_PHASECHECK).flash =
      (updateProductinfofileEmmc dev buf flash .partition0 .partition1 PRODUCTINFO_SIZE).2.2) :
    (rawdataCheckBlock io s p RAWDATA_BLOCK_PHASECHECK).1 = 0 ∧
      cells ((rawdataCheckBlock io s p RAWDATA_BLOCK_PHASECHECK).2.rawdataBuffer p) 0 PRODUCTINFO_SIZE =
        cells buf 0 PRODUCTINFO_SIZE := by
  have hsealed := updateProductinfo_flash dev buf flash hopen hwrite p
  rw [← hflash] at hsealed
  obtain ⟨hret, hsame⟩ := checkBlock_sealed io s p buf hread hsealed
  exact ⟨hret, (cells_eq_iff _ _ _).2 hsame⟩

/-- a device that does everything it is asked for -/
def wholeDev : DevIo := ⟨fun _ => true, fun _ => PRODUCTINFO_SIZE + 8⟩

/-- rawdatad after `nvm_daemon` wrote a payload of bytes 1 over erased flash -/
def writtenOnce : RawData.St where
  cell := fun _ =>
    { flash := (updateProductinfofileEmmc wholeDev (fun _ => 1) (fun _ _ => 0xff) .partition0 .partition1
        PRODUCTINFO_SIZE).2.2
      file := none
      used := none }
  rawdataBuffer := fun _ _ => 0

theorem productinfo_accepted_once :
    (rawdataCheckBlock ⟨fun _ _ => RAWDATA_BUFFER_SIZE, fun _ _ => 0, fun _ => none⟩ writtenOnce .partition1
        RAWDATA_BLOCK_PHASECHECK).1 = 0 ∧
      cells ((rawdataCheckBlock ⟨fun _ _ => RAWDATA_BUFFER_SIZE, fun _ _ => 0, fun _ => none⟩ writtenOnce .partition1
        RAWDATA_BLOCK_PHASECHECK).2.rawdataBuffer .partition1) 0 PRODUCTINFO_SIZE =
        cells (fun _ => 1) 0 PRODUCTINFO_SIZE :=
  productinfo_accepted wholeDev (fun _ => 1) (fun _ _ => 0xff) (fun _ => rfl) (fun _ => rfl) _ writtenOnce .partition1
    rfl rfl

end SprdDevice.NvmDaemon
