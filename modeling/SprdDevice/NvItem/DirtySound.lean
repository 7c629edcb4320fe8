/-
The dirty tables of the NV sync daemon are sound: a sector on which backup and toDisk differ has its bit in the backup
table, so that a pass of the saver does not skip a partition whose committed image was not copied yet.

The invariant `Marked` relates the three images and two of the three tables of every partition: backup differs from
toDisk only on sectors marked in backup's table, fromChannel differs from backup only on sectors marked in fromChannel's
table, and in the data state the bytes still to come lie in sectors that are marked already. It does not matter that
fromChannel's table is never cleared after a commit, that a rollback overwrites it, or that the saver clears backup's.

Results: `marked_move` (every move keeps the invariant) and `dirty_tables_sound`.
-/
import Mathlib.Tactic
import SprdDevice.NvItem.ImageIntegrity

namespace SprdDevice.NvItem

open SprdDevice.Memory SprdDevice.BitTable

/-- a BODY marks at least one sector, inside a partition that the dirty table covers -/
def Eff.Covered (c0 : RamNvCtl) : Eff → Prop
  | .mark id start num => 1 ≤ num ∧ start + num ≤ (c0.part id).sctNum ∧ (c0.part id).sctNum ≤ 1024
  | _ => True

instance (c0 : RamNvCtl) : (e : Eff) → Decidable (e.Covered c0)
  | .mark id start num =>
    inferInstanceAs (Decidable (1 ≤ num ∧ start + num ≤ (c0.part id).sctNum ∧ (c0.part id).sctNum ≤ 1024))
  | .read _ | .write .. | .backup _ | .restore _ | .event | .disk .. | .rsp _ => isTrue trivial

def BodiesCovered (c0 : RamNvCtl) (h : List Eff) : Prop := ∀ e ∈ h, e.Covered c0

instance (c0 : RamNvCtl) (h : List Eff) : Decidable (BodiesCovered c0 h) := by
  unfold BodiesCovered; infer_instance

/-- the sector of byte i has a bit, in one of the words of the table -/
def Dirty (t : ℕ → BitVec 32) (i : ℕ) : Prop := i / RAMNV_SECT_SIZE < 1024 ∧ bit t (i / RAMNV_SECT_SIZE) = true

/-! ## The invariant -/

structure Marked (c0 : RamNvCtl) (v : View) : Prop where
  ofst : v.s.ofst = 0
  sct : ∀ id, (v.c.part id).sctNum = (c0.part id).sctNum
  disk : ∀ id, ∀ i < (v.c.part id).size, (v.c.part id).backup.diskbuf i ≠ (v.c.part id).toDisk.diskbuf i →
    Dirty (v.c.part id).backup.dirty i
  chan : ∀ id, ∀ i < (v.c.part id).size, (v.c.part id).fromChannel.diskbuf i ≠ (v.c.part id).backup.diskbuf i →
    Dirty (v.c.part id).fromChannel.dirty i
  data : v.live = true → v.s.syncState = .data → v.s.start + v.s.len ≤ (v.c.part v.s.id).size ∧
    ∀ i, v.s.start ≤ i → i < v.s.start + v.s.len → Dirty (v.c.part v.s.id).fromChannel.dirty i

theorem marked_boot {c0 : RamNvCtl} (h : Booted c0) : Marked c0 (boot c0).view where
  ofst := rfl
  sct _ := rfl
  disk id i _ hne := by simp [Daemon.view, boot, (h id).2.1] at hne
  chan id i _ hne := by simp [Daemon.view, boot, (h id).1] at hne
  data _ hs := by simp [Daemon.view, boot] at hs

theorem Dirty.merge_left {a : ℕ → BitVec 32} {i : ℕ} (h : Dirty a i) (b : ℕ → BitVec 32) :
    Dirty (merge RAMNV_DIRTYTABLE_MAXSIZE a b) i :=
  ⟨h.1, by rw [bit_merge a b (by simpa [RAMNV_DIRTYTABLE_MAXSIZE] using h.1), h.2, Bool.true_or]⟩

theorem Dirty.merge_right {b : ℕ → BitVec 32} {i : ℕ} (h : Dirty b i) (a : ℕ → BitVec 32) :
    Dirty (merge RAMNV_DIRTYTABLE_MAXSIZE a b) i :=
  ⟨h.1, by rw [bit_merge a b (by simpa [RAMNV_DIRTYTABLE_MAXSIZE] using h.1), h.2, Bool.or_true]⟩

theorem Dirty.mark {t : ℕ → BitVec 32} {i : ℕ} (h : Dirty t i) (start num : ℕ) : Dirty (markTable t start num) i :=
  ⟨h.1, by rw [bit_markTable, h.2, Bool.true_or]⟩

/-- the bytes of a BODY are in marked sectors -/
theorem dirty_marked (t : ℕ → BitVec 32) {start num i : ℕ} (hr : start + num ≤ 1024) (h1 : start * RAMNV_SECT_SIZE ≤ i)
    (h2 : i < start * RAMNV_SECT_SIZE + num * RAMNV_SECT_SIZE) : Dirty (markTable t start num) i := by
  simp only [RAMNV_SECT_SIZE] at h1 h2
  have hlo : start ≤ i / 512 := by omega
  have hhi : i / 512 < start + num := by omega
  refine ⟨by simp only [RAMNV_SECT_SIZE]; omega, ?_⟩
  rw [bit_markTable]
  simp [RAMNV_SECT_SIZE, hlo, hhi]

theorem Marked.quiet {c0 : RamNvCtl} {v : View} (h : Marked c0 v) (es : List Eff) :
    Marked c0 { v with hist := v.hist ++ es } := ⟨h.ofst, h.sct, h.disk, h.chan, h.data⟩

/-- a turn that leaves the buffers alone and the data state as it is -/
theorem Marked.took {c0 : RamNvCtl} {v : View} (h : Marked c0 v) (s' : SyncState) (es : List Eff) (ho : s'.ofst = 0)
    (hs : s'.syncState ≠ .data) : Marked c0 ⟨v.c, s', true, v.hist ++ es⟩ :=
  ⟨ho, h.sct, h.disk, h.chan, fun _ hd => absurd hd hs⟩

theorem Marked.bodyNext {c0 : RamNvCtl} {v : View} (h : Marked c0 v) (s' : SyncState) (es : List Eff)
    (start num : ℕ) (ho : s'.ofst = 0) (hid : s'.id = v.s.id) (hst : s'.start = start * RAMNV_SECT_SIZE % 2 ^ 32)
    (hln : s'.len = num * RAMNV_SECT_SIZE % 2 ^ 32) (hr : start + num ≤ (c0.part v.s.id).sctNum)
    (hk : (c0.part v.s.id).sctNum ≤ 1024) :
    Marked c0 ⟨markDirtyInfo v.c v.s.id start num, s'.goto .data, true, v.hist ++ es⟩ := by
  have h1 : s'.start = start * RAMNV_SECT_SIZE := by
    rw [hst]; exact Nat.mod_eq_of_lt (by simp only [RAMNV_SECT_SIZE]; omega)
  have h2 : s'.len = num * RAMNV_SECT_SIZE := by
    rw [hln]; exact Nat.mod_eq_of_lt (by simp only [RAMNV_SECT_SIZE]; omega)
  refine ⟨ho, fun id => ?_, fun id i hi hne => ?_, fun id i hi hne => ?_, fun _ _ => ?_⟩
  · simpa using h.sct id
  · simp only [PartCtrl.size, markDirtyInfo_sctNum, markDirtyInfo_backup, markDirtyInfo_toDisk] at hi hne ⊢
    exact h.disk id i hi hne
  · simp only [PartCtrl.size, markDirtyInfo_sctNum, markDirtyInfo_image, markDirtyInfo_backup] at hi hne
    have hd := h.chan id i hi hne
    simp only [markDirtyInfo_dirty]
    split_ifs
    · exact hd.mark start num
    · exact hd
  · simp only [SyncState.goto, hid, PartCtrl.size, markDirtyInfo_sctNum, markDirtyInfo_dirty, if_true, h.sct, h1, h2]
    refine ⟨by simp only [RAMNV_SECT_SIZE]; omega, fun i hlo hhi => ?_⟩
    exact dirty_marked _ (by omega) hlo hhi

theorem Marked.wrote {c0 : RamNvCtl} {v : View} (h : Marked c0 v) (s' : SyncState) (es : List Eff) (buf : List UInt8)
    (ho : s'.ofst = 0) (hid : s'.id = v.s.id) (hp : v.s.syncState = .data) (hl : v.live = true)
    (hlen : buf.length ≤ v.s.len)
    (hnext : s'.syncState = .data → s'.start = v.s.start + buf.length ∧ s'.len = v.s.len - buf.length) :
    Marked c0 ⟨writeData v.c v.s.id v.s.start buf, s', true, v.hist ++ es⟩ := by
  obtain ⟨hsz, hrest⟩ := h.data hl hp
  refine ⟨ho, fun id => ?_, fun id i hi hne => ?_, fun id i hi hne => ?_, fun _ hs => ?_⟩
  · simpa using h.sct id
  · simp only [PartCtrl.size, writeData_sctNum, writeData_backup, writeData_toDisk] at hi hne ⊢
    exact h.disk id i hi hne
  · simp only [PartCtrl.size, writeData_sctNum, writeData_backup, writeData_image, writeData_dirty] at hi hne ⊢
    split_ifs at hne with hj
    · subst hj
      by_cases hin : v.s.start ≤ i ∧ i < v.s.start + buf.length
      · exact hrest i hin.1 (by omega)
      · rw [store_outside _ _ (by omega)] at hne
        exact h.chan _ i hi hne
    · exact h.chan id i hi hne
  · obtain ⟨h1, h2⟩ := hnext hs
    simp only [hid, PartCtrl.size, writeData_sctNum, writeData_dirty, h1, h2] at hsz ⊢
    exact ⟨by omega, fun i hlo hhi => hrest i (by omega) (by omega)⟩

theorem Marked.turn {c0 : RamNvCtl} (hb : Booted c0) {v : View} (h : Marked c0 v) (buf : List UInt8)
    (hl : v.live = true) (h0 : buf.length ≠ 0) (hr : BodiesCovered c0 (v.hist ++ (syncGet v.c v.s buf).effs)) :
    Marked c0 ⟨(syncGet v.c v.s buf).effs.foldl Eff.exec v.c,
      if (syncGet v.c v.s buf).ret = .next then (syncGet v.c v.s buf).s.goto v.s.syncState.next
      else (syncGet v.c v.s buf).s, true, v.hist ++ (syncGet v.c v.s buf).effs⟩ := by
  generalize hg : syncGet v.c v.s buf = g at hr ⊢
  have ht : Turn v.c v.s buf g := hg ▸ syncGet_turn v.c h.ofst h0
  cases ht with
  | short hp hlt => exact h.took v.s [] h.ofst hp
  | headBad hp hlt htok => exact h.took (v.s.tok buf) _ rfl (by simp [SyncState.tok, hp])
  | headUnknown hp hlt htok hid => exact h.took _ _ (by rfl) (by simp [SyncState.tok, hp])
  | headNext hp hlt htok hid =>
    simp only [if_true, hp, Phase.next]
    exact h.took _ _ (by rfl) (by simp [SyncState.goto])
  | bodyBad hp hlt htok => exact h.took (v.s.tok buf) _ rfl (by simp [SyncState.tok, hp])
  | bodyNext hp hlt htok hf =>
    obtain ⟨-, hin, hk⟩ : _ ∧ _ ∧ _ := hr (.mark v.s.id (word buf 3) (word buf 4)) (by simp)
    simp only [if_true, hp, Phase.next]
    exact h.bodyNext _ _ _ _ rfl rfl rfl rfl hin hk
  | tail hp hlt htok hf => exact h.took _ _ (by rfl) (by simp [SyncState.tok, hp])
  | dataNext hp hlt =>
    simp only [if_true, hp, Phase.next]
    exact h.wrote _ _ _ h.ofst rfl hp hl (by simp) (by simp [SyncState.goto])
  | dataCont hp hlt =>
    have hsz := (hb v.s.id).2.2.2
    have hd := (h.data hl hp).1
    simp only [PartCtrl.size, h.sct] at hsz hd
    exact h.wrote _ _ buf h.ofst rfl hp hl hlt.le fun _ => ⟨Nat.mod_eq_of_lt (by omega), rfl⟩

theorem Marked.restored {c0 : RamNvCtl} {v : View} (h : Marked c0 v) (es : List Eff) :
    Marked c0 ⟨restoreData v.c v.s.id, v.s, false, v.hist ++ es⟩ := by
  refine ⟨h.ofst, fun id => ?_, fun id i hi hne => ?_, fun id i hi hne => ?_, by simp⟩
  · simpa using h.sct id
  · simp only [PartCtrl.size, restoreData_sctNum, restoreData_backup, restoreData_toDisk] at hi hne ⊢
    exact h.disk id i hi hne
  · simp only [PartCtrl.size, restoreData_sctNum, restoreData_backup, restoreData_fromChannel] at hi hne ⊢
    split_ifs at hne ⊢ with hj
    · exact absurd (copy_same _ _ _ i hi) hne
    · exact h.chan id i hi hne

/-- a committed byte that differs from toDisk was either changed by the request or was not copied before it -/
theorem Marked.committed {c0 : RamNvCtl} {v : View} (h : Marked c0 v) (es : List Eff) :
    Marked c0 ⟨backupCopy v.c v.s.id, v.s, false, v.hist ++ es⟩ := by
  refine ⟨h.ofst, fun id => ?_, fun id i hi hne => ?_, fun id i hi hne => ?_, by simp⟩
  · simpa using h.sct id
  · simp only [PartCtrl.size, backupCopy_sctNum, backupCopy_toDisk, backupCopy_backup] at hi hne ⊢
    split_ifs at hne ⊢ with hj
    · have hcopy := copy_same (v.c.part id).backup.diskbuf (v.c.part id).fromChannel.diskbuf _ i hi
      simp only [hcopy] at hne
      by_cases hc : (v.c.part id).fromChannel.diskbuf i = (v.c.part id).backup.diskbuf i
      · rw [hc] at hne
        exact (h.disk id i hi hne).merge_left _
      · exact (h.chan id i hi hc).merge_right _
    · exact h.disk id i hi hne
  · simp only [PartCtrl.size, backupCopy_sctNum, backupCopy_fromChannel, backupCopy_backup] at hi hne ⊢
    split_ifs at hne with hj
    · exact absurd (copy_same _ _ _ i hi).symm hne
    · exact h.chan id i hi hne

theorem Marked.copied {c0 : RamNvCtl} {v : View} (h : Marked c0 v) (j : ℕ) :
    Marked c0 { v with c := getData v.c j } := by
  refine ⟨h.ofst, fun id => ?_, fun id i hi hne => ?_, fun id i hi hne => ?_, fun hl hs => ?_⟩
  · simpa using h.sct id
  · simp only [PartCtrl.size, getData_sctNum, getData_image, getData_toDisk, getData_dirty] at hi hne ⊢
    split_ifs at hne ⊢ with hj
    · exact absurd (copy_same _ _ _ i hi).symm hne
    · exact h.disk id i hi hne
  · simp only [PartCtrl.size, getData_sctNum, getData_image, getData_fromChannel] at hi hne ⊢
    exact h.chan id i hi hne
  · simp only [PartCtrl.size, getData_sctNum, getData_fromChannel]
    exact h.data hl hs

theorem Marked.cleaned {c0 : RamNvCtl} {v : View} (h : Marked c0 v) (j : ℕ) :
    Marked c0 { v with c := cleanToDisk v.c j } := by
  refine ⟨h.ofst, fun id => ?_, fun id i hi hne => ?_, fun id i hi hne => ?_, fun hl hs => ?_⟩
  · simpa using h.sct id
  · simp only [PartCtrl.size, cleanToDisk_sctNum, cleanToDisk_backup, cleanToDisk_image] at hi hne ⊢
    exact h.disk id i hi hne
  · simp only [PartCtrl.size, cleanToDisk_sctNum, cleanToDisk_backup, cleanToDisk_fromChannel] at hi hne ⊢
    exact h.chan id i hi hne
  · simp only [PartCtrl.size, cleanToDisk_sctNum, cleanToDisk_fromChannel]
    exact h.data hl hs

theorem marked_move {c0 : RamNvCtl} (hb : Booted c0) {v v' : View} (hm : Move v v') (hr : BodiesCovered c0 v'.hist)
    (h : Marked c0 v) : Marked c0 v' := by
  cases hm with
  | busy => exact ⟨h.ofst, h.sct, h.disk, h.chan, h.data⟩
  | rsp r => exact h.quiet _
  | event => exact h.quiet _
  | turn buf hl h0 => exact h.turn hb buf hl h0 hr
  | restore hl hs => exact h.restored _
  | settle hl hs => exact ⟨h.ofst, h.sct, h.disk, h.chan, by simp⟩
  | backup hl hs => exact h.committed _
  | reinit hl => exact ⟨rfl, h.sct, h.disk, h.chan, by simp [syncInit]⟩
  | getData j => exact h.copied j
  | disk j ok => exact h.quiet _
  | clean j => exact h.cleaned j

/-! ## Soundness -/

/-- backup and toDisk differ on a byte of the sector -/
def SectorDiffers (p : PartCtrl) (sct : ℕ) : Prop :=
  ∃ i < RAMNV_SECT_SIZE, p.backup.diskbuf (RAMNV_SECT_SIZE * sct + i) ≠ p.toDisk.diskbuf (RAMNV_SECT_SIZE * sct + i)

/-- the dirty tables of every partition are sound, and the saver's test sees it -/
def TablesSound (c : RamNvCtl) : Prop :=
  ∀ id, ∀ sct < (c.part id).sctNum, SectorDiffers (c.part id) sct →
    bit (c.part id).backup.dirty sct = true ∧ ifHasDirty c id = true

/-- **Dirty tables are sound.** From the state `initBuf` leaves, for every sequence of packets whose BODY ranges have at
least one sector and lie inside a partition of at most 1024 sectors (requests accepted, rejected or abandoned), in
either mode and for every interleaving with the saver: a sector on which backup and toDisk differ has its bit in the
backup table, and `__ifHasDirty` finds it, so that a pass does not skip the partition. -/
theorem dirty_tables_sound (cali : Bool) (load : ℕ → Option (ℕ → UInt8)) (cfg : List RamNvConfig) (ops : List Op)
    (hr : BodiesCovered (initBuf load cfg) (run cali (boot (initBuf load cfg)) ops).hist) :
    TablesSound (run cali (boot (initBuf load cfg)) ops).c := by
  set c0 := initBuf load cfg
  set d := run cali (boot c0) ops
  have hb : Booted c0 := initBuf_booted load cfg
  have key : BodiesCovered c0 d.view.hist → Marked c0 d.view := by
    refine run_keeps (P := fun v => BodiesCovered c0 v.hist → Marked c0 v) ?_ cali (boot c0) ops (boot_commitOk c0)
      fun _ => marked_boot hb
    intro v v' hm ih hr'
    exact marked_move hb hm hr' (ih fun e he => hr' e (hm.hist_prefix.subset he))
  intro id sct hs hdiff
  obtain ⟨i, hi, hne⟩ := hdiff
  simp only [RAMNV_SECT_SIZE] at hi hne
  have hlt : 512 * sct + i < (d.c.part id).size := by simp only [PartCtrl.size, RAMNV_SECT_SIZE]; omega
  obtain ⟨hk, hbit⟩ := (key hr).disk id _ hlt hne
  have hdiv : (512 * sct + i) / RAMNV_SECT_SIZE = sct := by simp only [RAMNV_SECT_SIZE]; omega
  rw [hdiv] at hk hbit
  exact ⟨hbit, (anySet_iff _ _).2 ⟨sct, by simpa [RAMNV_DIRTYTABLE_MAXSIZE] using hk, hbit⟩⟩

/-- the run of one request, stopped after the commit and before the saver copies the partition -/
theorem dirty_tables_sound_run :
    let c0 := initBuf (fun _ => some fun _ => 0) oneSectorCfg
    let d := run false (boot c0) (oneSectorOps.take 9)
    BodiesCovered c0 d.hist ∧ SectorDiffers (d.c.part 0) 0 ∧ TablesSound d.c := by
  intro c0 d
  have hr : BodiesCovered c0 d.hist := by decide +kernel
  exact ⟨hr, ⟨0, by decide, by decide +kernel⟩,
    dirty_tables_sound false (fun _ => some fun _ => 0) oneSectorCfg (oneSectorOps.take 9) hr⟩

end SprdDevice.NvItem
