/-
A copy of a block that is damaged after it was written.

- `blockBits b`: the bits of the block b up to the end of its checksum, in the order in which the checksum takes them;
- `damage i s p b`: the state s with b for the copy of block i on partition p.
The checksum is stored behind what it is of, the most significant byte first. So the bits of a block that passes leave a
register of zeros (`crcOk_iff_feed`), and those of a damaged one do not, if the damage is a burst of at most 32 bits.
Results: `burst_fails`, and `burst_restored`: after every run of calls of `write_partition`, the last of which reached both
partitions, the next `init_productinfo` finds such a burst, restores the data of that call, and repairs the copy.
-/
import Mathlib.Tactic
import SprdDevice.RawData.Durability

namespace SprdDevice.RawData

open SprdDevice.Cyclic SprdDevice.Memory SprdDevice.Word

def blockBits (b : Block) : List Bool := byteBits (cells b 0 (RAWDATA_CRC_OFFSET + 4))

def damage (i : ℕ) (s : St) (p : Partition) (b : Block) : St :=
  s.setCell i { s.cell i with flash := Function.update (s.cell i).flash p b }

/-! ## The checksum behind a block -/

/-- four bytes, as the word that they are -/
theorem byteBits_word (b : Block) (ofs : ℕ) : byteBits (cells b ofs 4) = bitsOf (BitVec.ofNat 32 (be32 b ofs)) := by
  have hword : BitVec.ofNat 32 (be32 b ofs) =
      (b ofs).toBitVec ++ (b (ofs + 1)).toBitVec ++ (b (ofs + 2)).toBitVec ++ (b (ofs + 3)).toBitVec := by
    apply BitVec.eq_of_toNat_eq
    have h0 := byte_lt (b ofs)
    have h1 := byte_lt (b (ofs + 1))
    have h2 := byte_lt (b (ofs + 2))
    have h3 := byte_lt (b (ofs + 3))
    simp only [be32, BitVec.toNat_ofNat, BitVec.toNat_append, UInt8.toNat_toBitVec]
    rw [← Nat.shiftLeft_add_eq_or_of_lt h3, ← Nat.shiftLeft_add_eq_or_of_lt h2, ← Nat.shiftLeft_add_eq_or_of_lt h1]
    simp only [Nat.shiftLeft_eq]
    omega
  rw [hword, bitsOf_append, bitsOf_append, bitsOf_append]
  simp [byteBits, cells, List.range_succ]

/-- **A block passes iff its bits, the checksum among them, leave a register of zeros.** -/
theorem crcOk_iff_feed (b : Block) : CrcOk b ↔ feed crcGenerator 0xFFFFFFFF (blockBits b) = 0#32 := by
  have hlt := be32_lt b RAWDATA_CRC_OFFSET
  have hcrc : crc32b 0xFFFFFFFF (cells b 0 RAWDATA_CRC_OFFSET) =
      feed crcGenerator 0xFFFFFFFF (byteBits (cells b 0 RAWDATA_CRC_OFFSET)) := crc32b_feed _ _
  rw [blockBits, cells_add, byteBits_append, Nat.zero_add, byteBits_word, feed_checksum (by decide), CrcOk, hcrc,
    ← BitVec.toNat_inj, BitVec.toNat_ofNat, Nat.mod_eq_of_lt hlt]

/-- **A burst of at most 32 bits is noticed.** -/
theorem burst_fails {b b' : Block} (h : CrcOk b) (hburst : Burst 32 (blockBits b) (blockBits b')) : ¬ CrcOk b' := by
  rw [crcOk_iff_feed] at h ⊢
  intro h'
  exact hburst.feed_ne (by decide) 0xFFFFFFFF (h.trans h'.symm)

/-- a block up to the end of its checksum, in three parts -/
theorem cells_parts (b : Block) {ofs n : ℕ} (h : ofs + n ≤ RAWDATA_CRC_OFFSET + 4) :
    cells b 0 (RAWDATA_CRC_OFFSET + 4) =
      cells b 0 ofs ++ cells b ofs n ++ cells b (ofs + n) (RAWDATA_CRC_OFFSET + 4 - (ofs + n)) := by
  calc cells b 0 (RAWDATA_CRC_OFFSET + 4) = cells b 0 (ofs + n + (RAWDATA_CRC_OFFSET + 4 - (ofs + n))) := by
        rw [Nat.add_sub_of_le h]
    _ = _ := by rw [cells_add, cells_add, Nat.zero_add, Nat.zero_add]

/-- other bytes in at most four places, one behind the other, are such a burst -/
theorem burst_store (b : Block) {ofs : ℕ} {l : List UInt8} (h4 : l.length ≤ 4)
    (hofs : ofs + l.length ≤ RAWDATA_CRC_OFFSET + 4) (hne : cells b ofs l.length ≠ l) :
    Burst 32 (blockBits b) (blockBits (store b ofs l)) := by
  have hbefore : cells (store b ofs l) 0 ofs = cells b 0 ofs :=
    cells_congr fun i hi => store_outside b l (Or.inl (by omega))
  have hbehind : cells (store b ofs l) (ofs + l.length) (RAWDATA_CRC_OFFSET + 4 - (ofs + l.length)) =
      cells b (ofs + l.length) (RAWDATA_CRC_OFFSET + 4 - (ofs + l.length)) :=
    cells_congr fun i hi => store_outside b l (Or.inr (by omega))
  rw [blockBits, blockBits, cells_parts b hofs, cells_parts _ hofs, hbefore, hbehind, cells_store_self]
  apply Burst.bytes _ _ (length_cells _ _ _) _ hne
  rw [length_cells]
  omega

/-! ## The copy is repaired -/

section Damage

variable {io : Io} {i : ℕ} {s : St} {p : Partition} {b : Block}

theorem damage_flash (i : ℕ) (s : St) (p : Partition) (b : Block) :
    ((damage i s p b).cell i).flash = Function.update (s.cell i).flash p b := by
  simp [damage, St.setCell]

/-- the undamaged one of two copies of one content is chosen -/
theorem damage_choose (hread : ∀ q, io.rsize q i = RAWDATA_BUFFER_SIZE) (hcrc : ∀ q, CrcOk ((s.cell i).flash q))
    (hburst : Burst 32 (blockBits ((s.cell i).flash p)) (blockBits b))
    (hcounter : counter ((s.cell i).flash p.other) < 2 ^ 31) :
    Passes io ((damage i s p b).cell i) i p.other ∧ ¬ Passes io ((damage i s p b).cell i) i p ∧
      choose (valid io ((damage i s p b).cell i) i) = some p.other := by
  have hother : ((damage i s p b).cell i).flash p.other = (s.cell i).flash p.other := by
    rw [damage_flash, Function.update_of_ne (other_ne p)]
  have hself : ((damage i s p b).cell i).flash p = b := by rw [damage_flash, Function.update_self]
  have hpass : Passes io ((damage i s p b).cell i) i p.other := ⟨hread _, by rw [hother]; exact hcrc _⟩
  have hfail : ¬ Passes io ((damage i s p b).cell i) i p := by
    intro h
    have hok := h.2
    rw [hself] at hok
    exact burst_fails (hcrc p) hburst hok
  refine ⟨hpass, hfail, (choose_alone hpass (by rwa [other_other])).2 ?_⟩
  rwa [hother]

/-- what `init_productinfo` makes of two copies of one content, one of them damaged -/
theorem damage_repaired (hi : i ≠ RAWDATA_BLOCK_PHASECHECK) (hn : i < PRODUCT_INFO.length)
    (hread : ∀ q, io.rsize q i = RAWDATA_BUFFER_SIZE) (hwrite : io.wsize p i = RAWDATA_BUFFER_SIZE)
    (hfile : io.fsize i = some RAWDATA_DATASIZE) (hcrc : ∀ q, CrcOk ((s.cell i).flash q))
    (hsame : Same RAWDATA_BUFFER_SIZE ((s.cell i).flash p.other) ((s.cell i).flash p))
    (hburst : Burst 32 (blockBits ((s.cell i).flash p)) (blockBits b))
    (hcounter : counter ((s.cell i).flash p.other) < 2 ^ 31) :
    ((initProductinfo io (damage i s p b)).cell i).file = some (cells ((s.cell i).flash p) 0 RAWDATA_DATASIZE) ∧
      ∀ q, Same RAWDATA_BUFFER_SIZE (((initProductinfo io (damage i s p b)).cell i).flash q) ((s.cell i).flash q) := by
  obtain ⟨hpass, hfail, hchoose⟩ := damage_choose hread hcrc hburst hcounter
  have hrestored := (initProductinfo_restored io (damage i s p b) hi hn hpass).2 hchoose
  have hother : ((damage i s p b).cell i).flash p.other = (s.cell i).flash p.other := by
    rw [damage_flash, Function.update_of_ne (other_ne p)]
  constructor
  · rw [initProductinfo_file hi hn hfile hpass hchoose, hother, (cells_eq_iff _ _ _).2 (hsame.mono (by decide))]
  · intro q
    rcases eq_or_other p q with rfl | rfl
    · have hrepair := hrestored.other
      rw [other_other, if_neg fun h => hfail h.1, hother] at hrepair
      rw [hrepair]
      unfold copyFrom writeMmcPartition
      rw [hwrite, min_self]
      exact (copy_same _ _ _).trans hsame
    · rw [hrestored.kept, hother]
      exact Same.refl _ _

end Damage

/-- a call that reaches both partitions leaves equal copies -/
theorem callWrite_same (i : ℕ) (s : St) {op : WriteOp} (hboth : ∀ q, op.ok q = true) (p q : Partition) :
    Same RAWDATA_BUFFER_SIZE (((callWrite i s op).cell i).flash p) (((callWrite i s op).cell i).flash q) := by
  have hp := callWrite_flash i s op p
  have hq := callWrite_flash i s op q
  rw [hboth, if_pos rfl] at hp hq
  exact hp.trans hq.symm

/-- **A burst is found and repaired.** From two equal copies that pass, after every run of calls the last of which
reached both partitions and left a counter that is not negative, and with at most 32 consecutive bits of either copy
changed up to the end of its checksum: the next `init_productinfo` gives the file the data of the last call, and both
copies are again what they were. -/
theorem burst_restored (io : Io) (i : ℕ) (hi : i ≠ RAWDATA_BLOCK_PHASECHECK) (hn : i < PRODUCT_INFO.length) (s : St)
    (hsame : Same RAWDATA_BUFFER_SIZE ((s.cell i).flash .partition1) ((s.cell i).flash .partition0))
    (hcrc : CrcOk ((s.cell i).flash .partition0)) (ops : List WriteOp) (last : WriteOp)
    (hboth : ∀ q, last.ok q = true) (p : Partition) (b : Block)
    (hburst : Burst 32 (blockBits (((writes i s (ops ++ [last])).cell i).flash p)) (blockBits b))
    (hcounter : counter (((writes i s (ops ++ [last])).cell i).flash p.other) < 2 ^ 31)
    (hread : ∀ q, io.rsize q i = RAWDATA_BUFFER_SIZE) (hwrite : io.wsize p i = RAWDATA_BUFFER_SIZE)
    (hfile : io.fsize i = some RAWDATA_DATASIZE) :
    let s' := writes i s (ops ++ [last])
    let c := (initProductinfo io (damage i s' p b)).cell i
    c.file = some (cells last.data 0 RAWDATA_DATASIZE) ∧
      ∀ q, Same RAWDATA_BUFFER_SIZE (c.flash q) ((s'.cell i).flash q) := by
  intro s' c
  have hfol := writes_follow i s (ops ++ [last]) hsame hcrc
  have hrun : s' = callWrite i (writes i s ops) last := by simp [s', writes, List.foldl_append]
  have hcopies : Same RAWDATA_BUFFER_SIZE ((s'.cell i).flash p.other) ((s'.cell i).flash p) := by
    rw [hrun]
    exact callWrite_same i _ hboth _ _
  obtain ⟨hf, hrepaired⟩ := damage_repaired hi hn hread hwrite hfile hfol.crc hcopies hburst hcounter
  refine ⟨?_, hrepaired⟩
  have hdata := hfol.data p
  rw [history_append, record, if_pos (hboth p)] at hdata
  rw [hf, (cells_eq_iff _ _ _).2 hdata]

theorem burst_restored_byte :
    let s' := writes 1 equalCopies ([] ++ [writesBoth 0x31])
    let c := (initProductinfo (readingIo RAWDATA_BUFFER_SIZE)
      (damage 1 s' .partition0 (store ((s'.cell 1).flash .partition0) 7 [0x21]))).cell 1
    c.file = some (cells (writesBoth 0x31).data 0 RAWDATA_DATASIZE) ∧
      ∀ q, Same RAWDATA_BUFFER_SIZE (c.flash q) ((s'.cell 1).flash q) := by
  have hread : ∀ q, (readingIo RAWDATA_BUFFER_SIZE).rsize q 1 = RAWDATA_BUFFER_SIZE := by
    intro q
    cases q <;> rfl
  exact burst_restored (readingIo RAWDATA_BUFFER_SIZE) 1 (by decide) (by decide) equalCopies (Same.refl _ _)
    (stamp_crcOk _ _) [] (writesBoth 0x31) (fun _ => rfl) .partition0 _
    (burst_store _ (by decide) (by decide) (by decide)) (by decide) hread rfl rfl

end SprdDevice.RawData
