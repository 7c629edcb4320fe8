/-
Which of the two copies of a block `init_productinfo` restores.

`rawdata_check_block` says in one signed integer whether a copy passes and how new it is: -1 for a copy that does not
pass, and the counter otherwise, although a counter from 2^31 on is negative too, and 0xFFFFFFFF is -1.

Results:
- `initBlock_cell`: what a turn of the loop leaves of a block;
- `recovery_choice`: for every contents of a block with a counter, the copy that is used, written to the file and
  propagated is one that passes, and the newer one if they are one write apart, iff the counters meet `CountersOk`;
- `recovery_spreads_failed_copy`: a copy with counter 2^31 that passes is overwritten with one that cannot be read.
-/
import Mathlib.Tactic
import SprdDevice.Lib.Run
import SprdDevice.RawData.Store

namespace SprdDevice.RawData

open SprdDevice.Memory SprdDevice.Word SprdDevice.Run

/-! ## A turn of the loop -/

/-- the partition that is used, by the results of the two checks -/
def choose (v : Partition → ℤ) : Option Partition :=
  if v .partition0 = -1 ∧ v .partition1 = -1 then none
  else some (if v .partition0 > v .partition1 then .partition0 else .partition1)

/-- the file after it is written from a buffer -/
def fileFrom (io : Io) (c : Cell) (i : ℕ) (buf : Block) : Option (List UInt8) :=
  match io.fsize i with
  | none => c.file
  | some n => some (cells buf 0 (min n RAWDATA_DATASIZE))

/-- the other copy after it is written from a buffer -/
def copyFrom (io : Io) (c : Cell) (i : ℕ) (p : Partition) (buf : Block) : Block :=
  writeMmcPartition (io.wsize p i) (c.flash p) buf RAWDATA_BUFFER_SIZE

theorem initBlock_frame (io : Io) (s : St) (i j : ℕ) (h : j ≠ i) : (initBlock io s i).cell j = s.cell j := by
  unfold initBlock wirteProductinfo St.setCell
  dsimp only
  cases io.fsize i <;> dsimp only <;> split_ifs <;> simp [Function.update_of_ne h, checkBlock_cell]

/-- **A turn of the loop.** What it leaves of its block, with the buffers that the two checks leave -/
theorem initBlock_cell (io : Io) (s : St) {i : ℕ} (hi : i ≠ RAWDATA_BLOCK_PHASECHECK) :
    ∃ buf : Partition → Block,
      (∀ p, io.rsize p i = RAWDATA_BUFFER_SIZE → Same RAWDATA_BUFFER_SIZE (buf p) ((s.cell i).flash p)) ∧
      (initBlock io s i).cell i =
        match choose (valid io (s.cell i) i) with
        | none => { s.cell i with used := none }
        | some p =>
          { flash :=
              if valid io (s.cell i) i .partition0 ≠ valid io (s.cell i) i .partition1 then
                Function.update (s.cell i).flash p.other (copyFrom io (s.cell i) i p.other (buf p))
              else (s.cell i).flash
            file := fileFrom io (s.cell i) i (buf p)
            used := some p } := by
  set s1 := (rawdataCheckBlock io s .partition0 i).2 with hs1
  set s2 := (rawdataCheckBlock io s1 .partition1 i).2 with hs2
  have hcell1 : s1.cell = s.cell := checkBlock_cell io s .partition0 i
  have hcell2 : s2.cell = s.cell := (checkBlock_cell io s1 .partition1 i).trans hcell1
  have hv1 : (rawdataCheckBlock io s .partition0 i).1 = valid io (s.cell i) i .partition0 := checkBlock_ret io s _ hi
  have hv2 : (rawdataCheckBlock io s1 .partition1 i).1 = valid io (s.cell i) i .partition1 := by
    rw [checkBlock_ret io s1 _ hi, hcell1]
  refine ⟨s2.rawdataBuffer, ?_, ?_⟩
  · intro p hp
    cases p with
    | partition0 =>
      rw [hs2, checkBlock_frame io s1 i (by decide : Partition.partition0 ≠ .partition1)]
      exact checkBlock_buffer io s _ hp
    | partition1 =>
      rw [← hcell1]
      exact checkBlock_buffer io s1 _ hp
  · unfold initBlock wirteProductinfo St.setCell choose fileFrom copyFrom
    dsimp only
    rw [← hs1, ← hs2, hv1, hv2]
    by_cases hnone : valid io (s.cell i) i .partition0 = -1 ∧ valid io (s.cell i) i .partition1 = -1
    · simp only [if_pos hnone, Function.update_self, hcell2]
    · simp only [if_neg hnone]
      cases io.fsize i <;> split_ifs <;> simp [hcell2]

/-! ## The copy that is restored -/

/-- the block is restored from the copy on p: the file gets its data, and the other copy is overwritten with it unless
it passes with the same counter -/
structure RestoredFrom (io : Io) (i : ℕ) (c c' : Cell) (p : Partition) : Prop where
  used : c'.used = some p
  kept : c'.flash p = c.flash p
  file : c'.file = fileFrom io c i (c.flash p)
  other : c'.flash p.other =
    if Passes io c i p.other ∧ counter (c.flash p) = counter (c.flash p.other) then c.flash p.other
    else copyFrom io c i p.other (c.flash p)

/-- a copy that passes is restored if there is one, and the one that was written after the other if both pass -/
def RecoveryOk (io : Io) (i : ℕ) (c c' : Cell) : Prop :=
  ((∃ p, Passes io c i p) → ∃ p, Passes io c i p ∧ RestoredFrom io i c c' p) ∧
  ∀ p, Passes io c i p → Passes io c i p.other →
    counter (c.flash p) = nextCounter (counter (c.flash p.other)) → RestoredFrom io i c c' p

/-- a copy that alone passes has a counter below 2^31; two copies that pass do not both have the counter 0xFFFFFFFF, and
are not at 0x7FFFFFFF and 0x80000000 -/
def CountersOk (io : Io) (i : ℕ) (c : Cell) : Prop :=
  (∀ p, Passes io c i p → ¬ Passes io c i p.other → counter (c.flash p) < 2 ^ 31) ∧
  ∀ p, Passes io c i p → Passes io c i p.other →
    ¬ (counter (c.flash p) = 0xFFFFFFFF ∧ counter (c.flash p.other) = 0xFFFFFFFF) ∧
    ¬ (counter (c.flash p) = 0x7FFFFFFF ∧ counter (c.flash p.other) = 0x80000000)

theorem other_ne (p : Partition) : p.other ≠ p := by cases p <;> decide

theorem fileFrom_congr {io : Io} {c : Cell} {i : ℕ} {a b : Block} (h : Same RAWDATA_BUFFER_SIZE a b) :
    fileFrom io c i a = fileFrom io c i b := by
  unfold fileFrom
  cases io.fsize i with
  | none => rfl
  | some n =>
    have hn : min n RAWDATA_DATASIZE ≤ RAWDATA_BUFFER_SIZE := le_trans (min_le_right _ _) (by decide)
    simp only [(cells_eq_iff a b _).2 (h.mono hn)]

theorem copyFrom_congr {io : Io} {c : Cell} {i : ℕ} {p : Partition} {a b : Block}
    (h : Same RAWDATA_BUFFER_SIZE a b) : copyFrom io c i p a = copyFrom io c i p b := by
  funext j
  unfold copyFrom writeMmcPartition copy
  split_ifs with hj
  · exact h j (lt_of_lt_of_le hj (min_le_right _ _))
  · rfl

theorem choose_some {v : Partition → ℤ} {p : Partition} :
    choose v = some p ↔ v p.other < v p ∨ (p = .partition1 ∧ v p.other = v p ∧ v p ≠ -1) := by
  unfold choose
  cases p with
  | partition0 => split_ifs <;> simp [Partition.other] <;> omega
  | partition1 => split_ifs <;> simp [Partition.other] <;> omega

/-- nothing is chosen when both checks return -1, and otherwise one of the copies is -/
theorem exists_choose {v : Partition → ℤ} (p : Partition) :
    (∃ q, choose v = some q) ↔ ¬ (v p = -1 ∧ v p.other = -1) := by
  have hsides : v .partition0 = -1 ∧ v .partition1 = -1 ↔ v p = -1 ∧ v p.other = -1 := by
    cases p with
    | partition0 => exact Iff.rfl
    | partition1 => exact and_comm
  rw [← hsides]
  unfold choose
  split_ifs with h <;> simp [h]

theorem valid_pass {io : Io} {c : Cell} {i : ℕ} {p : Partition} (h : Passes io c i p) :
    valid io c i p = sint32 (counter (c.flash p)) := if_pos h

theorem valid_fail {io : Io} {c : Cell} {i : ℕ} {p : Partition} (h : ¬ Passes io c i p) : valid io c i p = -1 :=
  if_neg h

/-- with a copy chosen that passes, the checks agree iff the other passes with the same counter -/
theorem valid_eq_iff {io : Io} {c : Cell} {i : ℕ} {p : Partition} (hc : choose (valid io c i) = some p)
    (hp : Passes io c i p) :
    valid io c i .partition0 = valid io c i .partition1 ↔
      Passes io c i p.other ∧ counter (c.flash p) = counter (c.flash p.other) := by
  have hsides : valid io c i .partition0 = valid io c i .partition1 ↔ valid io c i p = valid io c i p.other := by
    cases p with
    | partition0 => exact Iff.rfl
    | partition1 => exact eq_comm
  rw [hsides]
  by_cases ho : Passes io c i p.other
  · rw [valid_pass hp, valid_pass ho, sint32_inj (counter_lt _) (counter_lt _), and_iff_right ho]
  · constructor
    · intro h
      exact absurd ⟨h.trans (valid_fail ho), valid_fail ho⟩ ((exists_choose p).1 ⟨p, hc⟩)
    · rintro ⟨h, -⟩
      exact absurd h ho

theorem initBlock_used (io : Io) (s : St) {i : ℕ} (hi : i ≠ RAWDATA_BLOCK_PHASECHECK) :
    ((initBlock io s i).cell i).used = choose (valid io (s.cell i) i) := by
  obtain ⟨buf, -, hcell⟩ := initBlock_cell io s hi
  rw [hcell]
  cases choose (valid io (s.cell i) i) <;> rfl

/-- a chosen copy that passes is restored -/
theorem initBlock_restored (io : Io) (s : St) {i : ℕ} (hi : i ≠ RAWDATA_BLOCK_PHASECHECK) {p : Partition}
    (hp : Passes io (s.cell i) i p) (hc : choose (valid io (s.cell i) i) = some p) :
    RestoredFrom io i (s.cell i) ((initBlock io s i).cell i) p := by
  obtain ⟨buf, hbuf, hcell⟩ := initBlock_cell io s hi
  rw [hc] at hcell
  have hsame := hbuf p hp.1
  refine ⟨by rw [hcell], ?_, ?_, ?_⟩
  · rw [hcell]
    dsimp only
    split_ifs
    · exact Function.update_of_ne (other_ne p).symm _ _
    · rfl
  · rw [hcell]
    exact fileFrom_congr hsame
  · rw [hcell]
    dsimp only
    rw [copyFrom_congr hsame]
    by_cases h : valid io (s.cell i) i .partition0 = valid io (s.cell i) i .partition1
    · rw [if_neg (not_not_intro h), if_pos ((valid_eq_iff hc hp).1 h)]
    · rw [if_pos h, if_neg (mt (valid_eq_iff hc hp).2 h), Function.update_self]

/-! ## The loop -/

/-- the blocks do not touch each other -/
theorem initProductinfo_cell (io : Io) (s : St) {i : ℕ} (hn : i < PRODUCT_INFO.length) :
    ∃ s', s'.cell i = s.cell i ∧ (initProductinfo io s).cell i = (initBlock io s' i).cell i :=
  foldl_slot (initBlock_frame io) s List.nodup_range (List.mem_range.2 hn)

theorem initProductinfo_used (io : Io) (s : St) {i : ℕ} (hi : i ≠ RAWDATA_BLOCK_PHASECHECK)
    (hn : i < PRODUCT_INFO.length) :
    ((initProductinfo io s).cell i).used = choose (valid io (s.cell i) i) := by
  obtain ⟨s', hs', hinit⟩ := initProductinfo_cell io s hn
  rw [hinit, initBlock_used io s' hi, hs']

/-- **What is restored.** A copy that passes is restored iff it is chosen -/
theorem initProductinfo_restored (io : Io) (s : St) {i : ℕ} (hi : i ≠ RAWDATA_BLOCK_PHASECHECK)
    (hn : i < PRODUCT_INFO.length) {p : Partition} (hp : Passes io (s.cell i) i p) :
    RestoredFrom io i (s.cell i) ((initProductinfo io s).cell i) p ↔ choose (valid io (s.cell i) i) = some p := by
  constructor
  · intro h
    rw [← initProductinfo_used io s hi hn]
    exact h.used
  · intro hc
    obtain ⟨s', hs', hinit⟩ := initProductinfo_cell io s hn
    rw [← hs'] at hp hc ⊢
    rw [hinit]
    exact initBlock_restored io s' hi hp hc

/-! ## When the choice is right -/

theorem eq_or_other (p q : Partition) : q = p ∨ q = p.other := by cases p <;> cases q <;> decide

theorem other_other (p : Partition) : p.other.other = p := by cases p <;> rfl

theorem sint32_nonneg {v : ℕ} (hv : v < 2 ^ 32) : -1 < sint32 v ↔ v < 2 ^ 31 := by
  unfold sint32
  split_ifs <;> omega

theorem sint32_neg_one {v : ℕ} (hv : v < 2 ^ 32) : sint32 v = -1 ↔ v = 0xFFFFFFFF := by
  unfold sint32
  constructor
  · intro h
    split_ifs at h
    omega
  · rintro rfl
    norm_num

/-- the next counter compares as newer but at the sign boundary; the way back to 0 is from a negative value -/
theorem sint32_next {v : ℕ} (hv : v < 2 ^ 32) : sint32 v < sint32 (nextCounter v) ↔ v ≠ 0x7FFFFFFF := by
  unfold sint32 nextCounter RAWDATA_COUNTER_THRES
  split_ifs <;> omega

theorem nextCounter_ne (v : ℕ) : nextCounter v ≠ v := by
  unfold nextCounter
  split_ifs <;> omega

theorem nextCounter_lt {v : ℕ} (hv : v < 2 ^ 32) : nextCounter v < 2 ^ 32 := by
  unfold nextCounter RAWDATA_COUNTER_THRES
  split_ifs <;> omega

/-- a copy that passes alone is chosen iff its counter is not negative -/
theorem choose_alone {io : Io} {c : Cell} {i : ℕ} {p : Partition} (hp : Passes io c i p)
    (ho : ¬ Passes io c i p.other) : choose (valid io c i) = some p ↔ counter (c.flash p) < 2 ^ 31 := by
  rw [choose_some, valid_pass hp, valid_fail ho, ← sint32_nonneg (counter_lt (c.flash p)), or_iff_left]
  rintro ⟨-, h1, h2⟩
  exact h2 h1.symm

/-- of two copies that pass, one is chosen but when both counters are 0xFFFFFFFF -/
theorem exists_choose_both {io : Io} {c : Cell} {i : ℕ} {p : Partition} (hp : Passes io c i p)
    (ho : Passes io c i p.other) : (∃ q, choose (valid io c i) = some q) ↔
      ¬ (counter (c.flash p) = 0xFFFFFFFF ∧ counter (c.flash p.other) = 0xFFFFFFFF) := by
  rw [exists_choose p, valid_pass hp, valid_pass ho, sint32_neg_one (counter_lt _), sint32_neg_one (counter_lt _)]

/-- of two copies one write apart, the later is chosen but at the sign boundary -/
theorem choose_next {io : Io} {c : Cell} {i : ℕ} {p : Partition} (hp : Passes io c i p)
    (ho : Passes io c i p.other) (hnext : counter (c.flash p) = nextCounter (counter (c.flash p.other))) :
    choose (valid io c i) = some p ↔ counter (c.flash p.other) ≠ 0x7FFFFFFF := by
  rw [choose_some, valid_pass hp, valid_pass ho, hnext, sint32_next (counter_lt (c.flash p.other)), or_iff_left]
  rintro ⟨-, h, -⟩
  rw [sint32_inj (counter_lt _) (nextCounter_lt (counter_lt _))] at h
  exact nextCounter_ne _ h.symm

/-- **The choice.** It falls on a copy that passes, and on the later one, iff the counters are as `CountersOk` says -/
theorem choose_iff (io : Io) (i : ℕ) (c : Cell) :
    (((∃ p, Passes io c i p) → ∃ p, Passes io c i p ∧ choose (valid io c i) = some p) ∧
      ∀ p, Passes io c i p → Passes io c i p.other →
        counter (c.flash p) = nextCounter (counter (c.flash p.other)) → choose (valid io c i) = some p) ↔
    CountersOk io i c := by
  constructor
  · rintro ⟨hsome, hnext⟩
    refine ⟨fun p hp ho => ?_, fun p hp ho => ⟨?_, ?_⟩⟩
    · obtain ⟨q, hq, hc⟩ := hsome ⟨p, hp⟩
      rcases eq_or_other p q with rfl | rfl
      · exact (choose_alone hp ho).1 hc
      · exact absurd hq ho
    · obtain ⟨q, -, hc⟩ := hsome ⟨p, hp⟩
      exact (exists_choose_both hp ho).1 ⟨q, hc⟩
    · rintro ⟨h1, h2⟩
      have hoo : Passes io c i p.other.other := by rwa [other_other]
      have hn : counter (c.flash p.other) = nextCounter (counter (c.flash p.other.other)) := by
        rw [other_other, h1, h2]
        decide
      refine (choose_next ho hoo hn).1 (hnext p.other ho hoo hn) ?_
      rw [other_other, h1]
  · rintro ⟨halone, hboth⟩
    refine ⟨?_, fun p hp ho hn => ?_⟩
    · rintro ⟨p, hp⟩
      by_cases ho : Passes io c i p.other
      · obtain ⟨q, hq⟩ := (exists_choose_both hp ho).2 (hboth p hp ho).1
        refine ⟨q, ?_, hq⟩
        rcases eq_or_other p q with rfl | rfl
        · exact hp
        · exact ho
      · exact ⟨p, hp, (choose_alone hp ho).2 (halone p hp ho)⟩
    · refine (choose_next hp ho hn).2 fun h => ?_
      have hoo : Passes io c i p.other.other := by rwa [other_other]
      have h2 : counter (c.flash p.other.other) = 0x80000000 := by
        rw [other_other, hn, h]
        decide
      exact (hboth p.other ho hoo).2 ⟨h, h2⟩

/-- **Recovery choice.** For every state of the two copies of a block with a counter and every outcome of the reads and
writes: `init_productinfo` restores a copy that passes if there is one, and the later one of two that are one write
apart, iff the counters are as `CountersOk` says -/
theorem recovery_choice (io : Io) (s : St) (i : ℕ) (hi : i ≠ RAWDATA_BLOCK_PHASECHECK) (hn : i < PRODUCT_INFO.length) :
    RecoveryOk io i (s.cell i) ((initProductinfo io s).cell i) ↔ CountersOk io i (s.cell i) := by
  rw [← choose_iff]
  constructor
  · rintro ⟨hsome, hnext⟩
    refine ⟨fun h => ?_, fun p hp ho h => (initProductinfo_restored io s hi hn hp).1 (hnext p hp ho h)⟩
    obtain ⟨p, hp, hr⟩ := hsome h
    exact ⟨p, hp, (initProductinfo_restored io s hi hn hp).1 hr⟩
  · rintro ⟨hsome, hnext⟩
    refine ⟨fun h => ?_, fun p hp ho h => (initProductinfo_restored io s hi hn hp).2 (hnext p hp ho h)⟩
    obtain ⟨p, hp, hc⟩ := hsome h
    exact ⟨p, hp, (initProductinfo_restored io s hi hn hp).2 hc⟩

/-- two copies that `write_partition` has written, with counters a and b -/
def stamped (a b : ℕ) : St where
  cell _ :=
    { flash := fun p => match p with
        | .partition0 => stamp (fun _ => 0x30) a
        | .partition1 => stamp (fun _ => 0x31) b
      file := none
      used := none }
  rawdataBuffer _ := fun _ => 0

/-- no error, but that the second partition delivers n bytes -/
def readingIo (n : ℕ) : Io where
  rsize p _ := match p with
    | .partition0 => RAWDATA_BUFFER_SIZE
    | .partition1 => n
  wsize _ _ := RAWDATA_BUFFER_SIZE
  fsize _ := some RAWDATA_DATASIZE

/-- the copies of the alarm flag are at 5 and 6: the second is newer, and is restored -/
theorem recovery_choice_newer :
    CountersOk (readingIo RAWDATA_BUFFER_SIZE) 2 ((stamped 5 6).cell 2) ∧
    RecoveryOk (readingIo RAWDATA_BUFFER_SIZE) 2 ((stamped 5 6).cell 2)
      ((initProductinfo (readingIo RAWDATA_BUFFER_SIZE) (stamped 5 6)).cell 2) := by
  have h0 : counter (((stamped 5 6).cell 2).flash .partition0) = 5 := stamp_counter _ (by decide)
  have h1 : counter (((stamped 5 6).cell 2).flash .partition1) = 6 := stamp_counter _ (by decide)
  have hcounters : CountersOk (readingIo RAWDATA_BUFFER_SIZE) 2 ((stamped 5 6).cell 2) := by
    constructor
    · intro p _ _
      cases p with
      | partition0 => rw [h0]; decide
      | partition1 => rw [h1]; decide
    · intro p _ _
      cases p with
      | partition0 => rw [h0]; decide
      | partition1 => rw [h1]; decide
  exact ⟨hcounters, (recovery_choice _ _ 2 (by decide) (by decide)).2 hcounters⟩

/-- the first copy of the alarm flag passes with the counter 2^31, and the second cannot be read: the second is used, so
that the file and the first copy are written from it -/
theorem recovery_spreads_failed_copy :
    Passes (readingIo 0) ((stamped 0x80000000 0).cell 2) 2 .partition0 ∧
    ((initProductinfo (readingIo 0) (stamped 0x80000000 0)).cell 2).used = some .partition1 ∧
    ¬ RecoveryOk (readingIo 0) 2 ((stamped 0x80000000 0).cell 2)
      ((initProductinfo (readingIo 0) (stamped 0x80000000 0)).cell 2) := by
  have hp : Passes (readingIo 0) ((stamped 0x80000000 0).cell 2) 2 .partition0 := ⟨rfl, stamp_crcOk _ _⟩
  have ho : ¬ Passes (readingIo 0) ((stamped 0x80000000 0).cell 2) 2 .partition1 := fun h => absurd h.1 (by decide)
  have hcounter : counter (((stamped 0x80000000 0).cell 2).flash .partition0) = 0x80000000 :=
    stamp_counter _ (by decide)
  have hused : ((initProductinfo (readingIo 0) (stamped 0x80000000 0)).cell 2).used = some .partition1 := by
    rw [initProductinfo_used _ _ (by decide) (by decide), choose_some]
    left
    rw [valid_fail ho]
    show valid _ _ 2 .partition0 < -1
    rw [valid_pass hp, hcounter]
    decide
  refine ⟨hp, hused, fun h => ?_⟩
  obtain ⟨p, hpass, hr⟩ := h.1 ⟨_, hp⟩
  have : p = .partition1 := Option.some.inj (hr.used.symm.trans hused)
  subst this
  exact ho hpass

end SprdDevice.RawData
