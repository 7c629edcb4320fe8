/-
What a run of `write_partition` calls for one block leaves for the next `init_productinfo`.

Each call takes the counter from the first partition alone, and writes the next one to both; either write may fail and
leave the old block. `history` is the abstract account of such a run: for each partition the data of the call that last
wrote it, and how many steps of the counter it is away from the start. A partition that a call fails to write keeps its
version, and the next call counts on from the first partition whatever the second holds.

Results:
- `writes_follow`: the blocks on flash follow the account over every run;
- `newer_iff`: when the signed comparison of two counters is right;
- `durability_iff`: the file gets the data of the last call iff each copy that the call did not write has that data too,
  or is older by its version and by its counter;
- `durability_tie`: two calls after which the two copies have one counter, and the older data is restored.
-/
import Mathlib.Tactic
import SprdDevice.RawData.Recovery

namespace SprdDevice.RawData

open SprdDevice.Memory SprdDevice.Word

/-! ## Runs of writes -/

/-- one call: the data in `rawdata_buffer[0]`, what the stack holds, and which of the two writes succeed -/
structure WriteOp where
  data : Block
  stack : Block
  ok : Partition → Bool

/-- the call reaches a partition -/
def WriteOp.Written (op : WriteOp) : Prop := op.ok .partition0 = true ∨ op.ok .partition1 = true

/-- a write stores the whole block or nothing -/
def WriteOp.io (op : WriteOp) : Io where
  rsize := fun _ _ => RAWDATA_BUFFER_SIZE
  wsize := fun p _ => if op.ok p then RAWDATA_BUFFER_SIZE else 0
  fsize := fun _ => none

def callWrite (i : ℕ) (s : St) (op : WriteOp) : St :=
  writePartition op.io RAWDATA_COUNTER_SIZE op.stack
    { s with rawdataBuffer := Function.update s.rawdataBuffer .partition0 op.data } i

def writes (i : ℕ) (s : St) (ops : List WriteOp) : St := ops.foldl (callWrite i) s

/-! ## The abstract account -/

/-- what a partition holds: the data, and the number of counter steps since the start -/
structure Version where
  number : ℕ
  data : Block

def record (h : Partition → Version) (op : WriteOp) : Partition → Version := fun p =>
  if op.ok p then ⟨(h .partition0).number + 1, op.data⟩ else h p

def history (data : Block) (ops : List WriteOp) : Partition → Version := ops.foldl record fun _ => ⟨0, data⟩

/-- version b is newer than version a, and their counters, which start at c, do not lie on the two sides of 2^31 -/
def Newer (c a b : ℕ) : Prop :=
  a < b ∧ ¬ (nextCounter^[a] c ≤ 0x7FFFFFFF ∧ 0x7FFFFFFF < nextCounter^[a] c + (b - a))

/-- each copy that the last call did not write has its data already, or is older and compares as older -/
def Survives (c : ℕ) (h : Partition → Version) (last : WriteOp) : Prop :=
  ∀ p, last.ok p = false →
    Same RAWDATA_DATASIZE (h p).data last.data ∨ Newer c (h p).number ((h .partition0).number + 1)

theorem history_append (data : Block) (ops : List WriteOp) (op : WriteOp) :
    history data (ops ++ [op]) = record (history data ops) op := by
  simp [history, List.foldl_append]

theorem record_number (h : Partition → Version) (op : WriteOp) (p : Partition) :
    (record h op p).number = if op.ok p then (h .partition0).number + 1 else (h p).number := by
  unfold record
  split_ifs <;> rfl

/-- a partition is at most one step ahead of the first, and no further than the calls made -/
theorem history_bound (data : Block) (ops : List WriteOp) (p : Partition) :
    (history data ops p).number ≤ (history data ops .partition0).number + 1 ∧
      (history data ops p).number ≤ ops.length := by
  induction ops using List.reverseRecOn generalizing p with
  | nil => simp [history]
  | append_singleton ops op ih =>
    have h0 := ih .partition0
    have hp := ih p
    rw [history_append, List.length_append, List.length_singleton, record_number, record_number]
    split_ifs <;> omega

/-! ## The flash follows the account -/

/-- both blocks pass, with the counter of their version and its data -/
structure Follows (c : ℕ) (cell : Cell) (h : Partition → Version) : Prop where
  crc : ∀ p, CrcOk (cell.flash p)
  counter : ∀ p, counter (cell.flash p) = nextCounter^[(h p).number] c
  data : ∀ p, Same RAWDATA_DATASIZE (cell.flash p) (h p).data

theorem stamp_data (ptr : Block) (v : ℕ) : Same RAWDATA_DATASIZE (stamp ptr v) ptr := by
  intro i hi
  rw [stamp_same ptr v i (lt_of_lt_of_le hi (by decide)), store_outside _ _ (Or.inl hi)]

/-- a write that succeeds puts the stamped data on the partition, with the counter after that of the first -/
theorem callWrite_flash (i : ℕ) (s : St) (op : WriteOp) (p : Partition) :
    Same RAWDATA_BUFFER_SIZE (((callWrite i s op).cell i).flash p)
      (if op.ok p then stamp op.data (nextCounter (counter ((s.cell i).flash .partition0))) else (s.cell i).flash p) := by
  have hcounter : be32 (copy op.stack (fun j => (s.cell i).flash .partition0 (RAWDATA_DATASIZE + j))
      (min RAWDATA_COUNTER_SIZE RAWDATA_COUNTER_SIZE)) 0 = counter ((s.cell i).flash .partition0) := rfl
  have hflash : ((callWrite i s op).cell i).flash p =
      writeMmcPartition (op.io.wsize p i) ((s.cell i).flash p)
        (stamp op.data (nextCounter (counter ((s.cell i).flash .partition0)))) RAWDATA_BUFFER_SIZE := by
    unfold callWrite writePartition readMmcPartition St.setCell
    simp only [Function.update_self, hcounter]
  rw [hflash]
  unfold writeMmcPartition WriteOp.io
  by_cases hok : op.ok p = true
  · simp only [hok, if_true, min_self]
    exact copy_same _ _ _
  · simp only [hok]
    intro j _
    rfl

theorem nextCounter_iterate_lt {c : ℕ} (hc : c < 2 ^ 32) (n : ℕ) : nextCounter^[n] c < 2 ^ 32 := by
  induction n with
  | zero => exact hc
  | succ n ih =>
    rw [Function.iterate_succ_apply']
    exact nextCounter_lt ih

theorem callWrite_follows {c : ℕ} (hc : c < 2 ^ 32) {i : ℕ} {s : St} {h : Partition → Version}
    (hf : Follows c (s.cell i) h) (op : WriteOp) : Follows c ((callWrite i s op).cell i) (record h op) := by
  have hstep : nextCounter (counter ((s.cell i).flash .partition0)) = nextCounter^[(h .partition0).number + 1] c := by
    rw [hf.counter, Function.iterate_succ_apply']
  refine ⟨?_, ?_, ?_⟩
  · intro p
    rw [crcOk_congr (callWrite_flash i s op p)]
    split_ifs
    · exact stamp_crcOk _ _
    · exact hf.crc p
  · intro p
    rw [counter_congr (callWrite_flash i s op p), hstep]
    unfold record
    split_ifs
    · exact stamp_counter _ (nextCounter_iterate_lt hc _)
    · exact hf.counter p
  · intro p
    have hflash := (callWrite_flash i s op p).mono (m := RAWDATA_DATASIZE) (by decide)
    unfold record
    split_ifs at hflash ⊢
    · exact hflash.trans (stamp_data _ _)
    · exact hflash.trans (hf.data p)

/-- two equal copies that pass are both version 0 -/
theorem start_follows {cell : Cell} (hsame : Same RAWDATA_BUFFER_SIZE (cell.flash .partition1) (cell.flash .partition0))
    (hcrc : CrcOk (cell.flash .partition0)) :
    Follows (counter (cell.flash .partition0)) cell (history (cell.flash .partition0) []) := by
  have hall : ∀ p, Same RAWDATA_BUFFER_SIZE (cell.flash p) (cell.flash .partition0) := by
    intro p
    cases p with
    | partition0 => exact Same.refl _ _
    | partition1 => exact hsame
  exact ⟨fun p => (crcOk_congr (hall p)).2 hcrc, fun p => counter_congr (hall p), fun p => (hall p).mono (by decide)⟩

/-- **The flash follows the account.** From two equal copies that pass, over every run of calls -/
theorem writes_follow (i : ℕ) (s : St) (ops : List WriteOp)
    (hsame : Same RAWDATA_BUFFER_SIZE ((s.cell i).flash .partition1) ((s.cell i).flash .partition0))
    (hcrc : CrcOk ((s.cell i).flash .partition0)) :
    Follows (counter ((s.cell i).flash .partition0)) ((writes i s ops).cell i)
      (history ((s.cell i).flash .partition0) ops) := by
  induction ops using List.reverseRecOn with
  | nil => exact start_follows hsame hcrc
  | append_singleton ops op ih =>
    have hrun : writes i s (ops ++ [op]) = callWrite i (writes i s ops) op := by simp [writes, List.foldl_append]
    rw [hrun, history_append]
    exact callWrite_follows (counter_lt _) ih op

/-! ## Comparing counters -/

/-- the counter after d + 1 steps, with at most one return to 0 -/
theorem nextCounter_iterate {k d : ℕ} (hk : k < 2 ^ 32) (hd : d + 1 < 2 ^ 31) :
    nextCounter^[d + 1] k =
      if 0xF0000000 < k then d else if k + d < 0xF0000000 then k + d + 1 else k + d - 0xF0000000 := by
  induction d with
  | zero =>
    rw [zero_add, Function.iterate_one]
    unfold nextCounter RAWDATA_COUNTER_THRES
    split_ifs <;> omega
  | succ d ih =>
    have hstep := ih (by omega)
    rw [Function.iterate_succ_apply']
    generalize nextCounter^[d + 1] k = v at hstep ⊢
    unfold nextCounter RAWDATA_COUNTER_THRES
    split_ifs at hstep ⊢ <;> omega

/-- The signed comparison of the counters of two versions is right unless they lie on the two sides of 2^31. -/
theorem newer_iff {c a b : ℕ} (hc : c < 2 ^ 32) (hab : a ≤ b) (hd : b - a < 2 ^ 31) :
    sint32 (nextCounter^[a] c) < sint32 (nextCounter^[b] c) ↔ Newer c a b := by
  rcases Nat.eq_or_lt_of_le hab with rfl | hlt
  · unfold Newer
    simp
  · obtain ⟨d, rfl⟩ := Nat.exists_eq_add_of_lt hlt
    have hk := nextCounter_iterate_lt hc a
    have hsteps : nextCounter^[a + d + 1] c = nextCounter^[d + 1] (nextCounter^[a] c) := by
      rw [← Function.iterate_add_apply]
      congr 1
      omega
    rw [hsteps, nextCounter_iterate hk (by omega)]
    unfold Newer sint32
    generalize nextCounter^[a] c = k at *
    constructor
    · intro h
      split_ifs at h <;> omega
    · intro h
      split_ifs <;> omega

/-- no counter that was counted is 0xFFFFFFFF, the value that says -1 -/
theorem nextCounter_ne_max (v : ℕ) : nextCounter v ≠ 0xFFFFFFFF := by
  unfold nextCounter RAWDATA_COUNTER_THRES
  split_ifs <;> omega

/-! ## What is restored -/

/-- with both copies readable and valid, the file gets the data of the copy that is chosen -/
theorem initProductinfo_file {io : Io} {s : St} {i : ℕ} (hi : i ≠ RAWDATA_BLOCK_PHASECHECK)
    (hn : i < PRODUCT_INFO.length) (hfile : io.fsize i = some RAWDATA_DATASIZE) {q : Partition}
    (hq : Passes io (s.cell i) i q) (hc : choose (valid io (s.cell i) i) = some q) :
    ((initProductinfo io s).cell i).file = some (cells ((s.cell i).flash q) 0 RAWDATA_DATASIZE) := by
  have hrestored := (initProductinfo_restored io s hi hn hq).2 hc
  rw [hrestored.file]
  unfold fileFrom
  rw [hfile]
  simp

/-- the copy that was written alone is chosen iff its counter compares as newer; the counters are never equal when it is
the second copy -/
theorem choose_written {io : Io} {cell : Cell} {i c : ℕ} (hc : c < 2 ^ 32) {h : Partition → Version} {last : WriteOp}
    (hfol : Follows c cell (record h last)) (hpass : ∀ p, Passes io cell i p) {w : Partition} (hw : last.ok w = true)
    (hstale : last.ok w.other = false) :
    choose (valid io cell i) = some w ↔
      sint32 (nextCounter^[(h w.other).number] c) < sint32 (nextCounter^[(h .partition0).number + 1] c) := by
  have hnew : counter (cell.flash w) = nextCounter^[(h .partition0).number + 1] c := by
    rw [hfol.counter, record_number, if_pos hw]
  have hold : counter (cell.flash w.other) = nextCounter^[(h w.other).number] c := by
    rw [hfol.counter, record_number, hstale]
    rfl
  rw [choose_some, valid_pass (hpass w), valid_pass (hpass w.other), hnew, hold, or_iff_left]
  rintro ⟨rfl, heq, -⟩
  have hcounters := (sint32_inj (nextCounter_iterate_lt hc _) (nextCounter_iterate_lt hc _)).1 heq
  rw [Function.iterate_succ_apply'] at hcounters
  exact nextCounter_ne _ hcounters.symm

/-- One of the copies is chosen, since the counter of the one that was written last is not -1; it has the data of the last
call iff that data survives. -/
theorem exists_choose_survives {io : Io} {cell : Cell} {i c : ℕ} (hc : c < 2 ^ 32) {h : Partition → Version}
    {last : WriteOp} (hlast : last.Written) (hfol : Follows c cell (record h last)) (hpass : ∀ p, Passes io cell i p)
    (hstep : ∀ p, (h p).number ≤ (h .partition0).number + 1) (hlen : (h .partition0).number + 1 < 2 ^ 31) :
    ∃ q, choose (valid io cell i) = some q ∧
      (Same RAWDATA_DATASIZE (record h last q).data last.data ↔ Survives c h last) := by
  obtain ⟨w, hw⟩ : ∃ w, last.ok w = true := hlast.elim (fun h => ⟨_, h⟩) fun h => ⟨_, h⟩
  obtain ⟨q, hq⟩ : ∃ q, choose (valid io cell i) = some q := by
    refine (exists_choose_both (hpass w) (hpass w.other)).2 ?_
    intro hmax
    have hcounter := hfol.counter w
    rw [hmax.1, record_number, if_pos hw, Function.iterate_succ_apply'] at hcounter
    exact nextCounter_ne_max _ hcounter.symm
  have hwritten : ∀ p, last.ok p = true → Same RAWDATA_DATASIZE (record h last p).data last.data := by
    intro p hp
    unfold record
    rw [if_pos hp]
    exact Same.refl _ _
  refine ⟨q, hq, ?_⟩
  by_cases hboth : last.ok w.other = true
  · have hall : ∀ p, last.ok p = true := by
      intro p
      rcases eq_or_other w p with rfl | rfl
      · exact hw
      · exact hboth
    refine ⟨fun _ p hp => ?_, fun _ => hwritten q (hall q)⟩
    rw [hall p] at hp
    cases hp
  · rw [Bool.not_eq_true] at hboth
    have hnewer : choose (valid io cell i) = some w ↔ Newer c (h w.other).number ((h .partition0).number + 1) := by
      rw [choose_written hc hfol hpass hw hboth]
      exact newer_iff hc (hstep w.other) (by omega)
    have hstale : (record h last w.other).data = (h w.other).data := by
      unfold record
      rw [hboth, if_neg Bool.false_ne_true]
    constructor
    · intro hdata p hp
      rcases eq_or_other w p with rfl | rfl
      · rw [hw] at hp
        cases hp
      rcases eq_or_other w q with rfl | rfl
      · right
        exact hnewer.1 hq
      · left
        rwa [hstale] at hdata
    · intro hsurvives
      rcases eq_or_other w q with rfl | rfl
      · exact hwritten q hw
      rcases hsurvives w.other hboth with hdata | hnew
      · rwa [hstale]
      · rw [hnewer.2 hnew] at hq
        exact absurd (Option.some.inj hq) (other_ne w).symm

/-- the file after a run of calls and a restart -/
theorem restored_file (io : Io) (i : ℕ) (hi : i ≠ RAWDATA_BLOCK_PHASECHECK) (hn : i < PRODUCT_INFO.length) (s : St)
    (hsame : Same RAWDATA_BUFFER_SIZE ((s.cell i).flash .partition1) ((s.cell i).flash .partition0))
    (hcrc : CrcOk ((s.cell i).flash .partition0)) (ops : List WriteOp) (last : WriteOp) (hlast : last.Written)
    (hlen : (ops ++ [last]).length < 2 ^ 31) (hread : ∀ p, io.rsize p i = RAWDATA_BUFFER_SIZE)
    (hfile : io.fsize i = some RAWDATA_DATASIZE) :
    ∃ data, ((initProductinfo io (writes i s (ops ++ [last]))).cell i).file = some (cells data 0 RAWDATA_DATASIZE) ∧
      (Same RAWDATA_DATASIZE data last.data ↔
        Survives (counter ((s.cell i).flash .partition0)) (history ((s.cell i).flash .partition0) ops) last) := by
  have hfol := writes_follow i s (ops ++ [last]) hsame hcrc
  have hbound := history_bound ((s.cell i).flash .partition0) ops
  have hpass : ∀ p, Passes io ((writes i s (ops ++ [last])).cell i) i p := fun p => ⟨hread p, hfol.crc p⟩
  rw [List.length_append, List.length_singleton] at hlen
  rw [history_append] at hfol
  obtain ⟨q, hq, hdata⟩ := exists_choose_survives (counter_lt _) hlast hfol hpass (fun p => (hbound p).1)
    (lt_of_le_of_lt (Nat.succ_le_succ (hbound .partition0).2) hlen)
  refine ⟨_, ?_, hdata⟩
  rw [initProductinfo_file hi hn hfile (hpass q) hq, (cells_eq_iff _ _ _).2 (hfol.data q)]

/-- **Durability.** From two equal copies that pass, after every run of fewer than 2^31 calls, the last of which reached a
partition, the next `init_productinfo` restores the file with the data of the last call iff that data survives: each copy
the call did not write has the same data, or is older by its version and by its counter -/
theorem durability_iff (io : Io) (i : ℕ) (hi : i ≠ RAWDATA_BLOCK_PHASECHECK) (hn : i < PRODUCT_INFO.length) (s : St)
    (hsame : Same RAWDATA_BUFFER_SIZE ((s.cell i).flash .partition1) ((s.cell i).flash .partition0))
    (hcrc : CrcOk ((s.cell i).flash .partition0)) (ops : List WriteOp) (last : WriteOp) (hlast : last.Written)
    (hlen : (ops ++ [last]).length < 2 ^ 31) (hread : ∀ p, io.rsize p i = RAWDATA_BUFFER_SIZE)
    (hfile : io.fsize i = some RAWDATA_DATASIZE) :
    ((initProductinfo io (writes i s (ops ++ [last]))).cell i).file = some (cells last.data 0 RAWDATA_DATASIZE) ↔
      Survives (counter ((s.cell i).flash .partition0)) (history ((s.cell i).flash .partition0) ops) last := by
  obtain ⟨data, hrestored, hdata⟩ := restored_file io i hi hn s hsame hcrc ops last hlast hlen hread hfile
  rw [hrestored, Option.some.injEq, cells_eq_iff, hdata]

/-- two equal copies, with the counter 5 -/
def equalCopies : St where
  cell _ := { flash := fun _ => stamp (fun _ => 0x30) 5, file := none, used := none }
  rawdataBuffer _ := fun _ => 0

/-- calls that write bytes b to both partitions, to the second and to the first alone -/
def writesBoth (b : UInt8) : WriteOp := ⟨fun _ => b, fun _ => 0, fun _ => true⟩

def writesSecond (b : UInt8) : WriteOp := ⟨fun _ => b, fun _ => 0, fun p => decide (p = .partition1)⟩

def writesFirst (b : UInt8) : WriteOp := ⟨fun _ => b, fun _ => 0, fun p => decide (p = .partition0)⟩

/-- the second partition keeps the call before the last -/
theorem durability_first :
    ((initProductinfo (readingIo RAWDATA_BUFFER_SIZE)
      (writes 2 equalCopies ([writesBoth 0x31] ++ [writesFirst 0x32]))).cell 2).file = some (cells (writesFirst 0x32).data 0 RAWDATA_DATASIZE) := by
  refine (durability_iff (readingIo RAWDATA_BUFFER_SIZE) 2 (by decide) (by decide) equalCopies (Same.refl _ _)
    (stamp_crcOk _ _) [writesBoth 0x31] (writesFirst 0x32) (Or.inl rfl) (by decide) ?_ rfl).2 ?_
  · intro p
    cases p <;> rfl
  · intro p hp
    right
    cases p with
    | partition0 => cases hp
    | partition1 => exact ⟨by decide, by decide⟩

/-- The first call reaches the second partition alone and the next the first alone: both copies have the counter 6, and
the data of the call before the last is restored. -/
theorem durability_tie :
    ((initProductinfo (readingIo RAWDATA_BUFFER_SIZE)
      (writes 2 equalCopies ([writesSecond 0x31] ++ [writesFirst 0x32]))).cell 2).file ≠ some (cells (writesFirst 0x32).data 0 RAWDATA_DATASIZE) := by
  obtain ⟨data, hrestored, hdata⟩ := restored_file (readingIo RAWDATA_BUFFER_SIZE) 2 (by decide) (by decide)
    equalCopies (Same.refl _ _) (stamp_crcOk _ _) [writesSecond 0x31] (writesFirst 0x32) (Or.inl rfl)
    (by decide) (by intro p; cases p <;> rfl) rfl
  rw [hrestored]
  intro heq
  have hsurvives := hdata.1 ((cells_eq_iff _ _ _).1 (Option.some.inj heq))
  rcases hsurvives .partition1 rfl with hsame | ⟨hlt, -⟩
  · exact absurd (hsame 0 (by decide)) (by decide)
  · exact absurd hlt (by decide)

end SprdDevice.RawData
