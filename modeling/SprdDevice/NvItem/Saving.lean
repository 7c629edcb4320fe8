/-
Saving after failures: runs of accepted requests and passes of `saveToDisk`, one after the other, in which every
`ramDisk_Write` may fail.

A partition is pending when an accepted request changed it and no later `ramDisk_Write` of it has returned success.
`__getData` moves the dirty bits from backup's table to toDisk's, a failed `ramDisk_Write` leaves them there, and
`__ifHasDirty` tests backup's table only. So a pending partition keeps a bit in one of the two tables (`pending_step`),
but the next pass sees it only when the bit is in backup's. A partition is stale when toDisk's table has a bit and
backup's has none: its last `ramDisk_Write` failed and no request for it was accepted since.

Results:
- `failed_save_retried`: in every run whose passes start with no stale partition, every pass calls `ramDisk_Write` for
  every pending partition; where every request changes its partition, only in these;
- `failed_save_not_retried`: a pass after a failed save that does not call it again.
-/
import Mathlib.Tactic
import SprdDevice.Lib.Run
import SprdDevice.NvItem.Daemon
import SprdDevice.NvItem.Request

namespace SprdDevice.NvItem

open SprdDevice.Memory SprdDevice.BitTable SprdDevice.Run

/-! ## Model -/

inductive SaveOp where
  /-- a request with these BODYs for partition id, up to the copy of `backupData` -/
  | accept (id : ℕ) (bs : List ReqBody)
  /-- `saveToDisk`; wr are the results of `ramDisk_Write` -/
  | pass (wr : ℕ → Bool)

/-- the buffers, and which partitions are pending -/
structure Saves where
  c : RamNvCtl
  pending : ℕ → Bool

/-- a request changes its partition when one of its BODYs has a sector -/
def changes (bs : List ReqBody) : Bool := bs.any fun b => 1 ≤ b.num

/-- the partitions a pass calls `ramDisk_Write` for -/
def passCalls (wr : ℕ → Bool) (c : RamNvCtl) : List ℕ := (saveToDisk wr c).2.map Prod.fst

def SaveOp.step (x : Saves) : SaveOp → Saves
  | .accept id bs => ⟨acceptRequest x.c id bs, Function.update x.pending id (x.pending id || changes bs)⟩
  | .pass wr => ⟨(saveToDisk wr x.c).1, fun j => x.pending j && !(decide (j ∈ passCalls wr x.c) && wr j)⟩

def saveStart (c : RamNvCtl) : Saves := ⟨c, fun _ => false⟩

/-- a pass calls `ramDisk_Write` for every pending partition -/
def Retries (x : Saves) : SaveOp → Prop
  | .accept _ _ => True
  | .pass wr => ∀ id < x.c.partNum, x.pending id = true → id ∈ passCalls wr x.c

/-- toDisk's table has a bit and backup's has none -/
def stale (c : RamNvCtl) (id : ℕ) : Bool :=
  anySet RAMNV_DIRTYTABLE_MAXSIZE (c.part id).toDisk.dirty && !ifHasDirty c id

def NoneStale (x : Saves) : SaveOp → Prop
  | .accept _ _ => True
  | .pass _ => ∀ id < x.c.partNum, stale x.c id = false

instance (x : Saves) (o : SaveOp) : Decidable (NoneStale x o) := by
  cases o <;> unfold NoneStale <;> infer_instance

/-- the BODYs of a request lie inside their partition and inside the dirty table, in which one without a sector touches
a word too -/
def SaveOp.Covered (c : RamNvCtl) : SaveOp → Prop
  | .accept id bs => ∀ b ∈ bs, b.start + max b.num 1 ≤ 1024 ∧ b.start + b.num ≤ (c.part id).sctNum
  | .pass _ => True

instance SaveOp.decidableCovered (c : RamNvCtl) : (o : SaveOp) → Decidable (o.Covered c)
  | .accept id bs =>
    inferInstanceAs (Decidable (∀ b ∈ bs, b.start + max b.num 1 ≤ 1024 ∧ b.start + b.num ≤ (c.part id).sctNum))
  | .pass _ => .isTrue trivial

def SaveOp.Changes : SaveOp → Prop
  | .accept _ bs => changes bs = true
  | .pass _ => True

/-! ## The tables under a request -/

theorem receiveBody_other (c : RamNvCtl) {id j : ℕ} (b : ReqBody) (h : j ≠ id) :
    (receiveBody id c b).part j = c.part j := by
  simp [receiveBody, writeData_eq, markDirtyInfo, modPart_other _ _ h]

theorem receive_other (c : RamNvCtl) {id j : ℕ} (bs : List ReqBody) (h : j ≠ id) :
    (receive id c bs).part j = c.part j := by
  induction bs generalizing c with
  | nil => rfl
  | cons b bs ih => exact (ih _).trans (receiveBody_other c b h)

/-- the BODYs of a request touch neither backup nor toDisk and only add bits to fromChannel's table -/
theorem receive_tables (c : RamNvCtl) (id : ℕ) (bs : List ReqBody) :
    ((receive id c bs).part id).backup = (c.part id).backup ∧
    ((receive id c bs).part id).toDisk = (c.part id).toDisk ∧
    ∀ i, bit ((receive id c bs).part id).fromChannel.dirty i =
      (bit (c.part id).fromChannel.dirty i || bs.any fun b => decide (b.start ≤ i ∧ i < b.start + b.num)) := by
  induction bs generalizing c with
  | nil => simp [receive]
  | cons b bs ih =>
    obtain ⟨h1, h2, h3⟩ := ih (receiveBody id c b)
    refine ⟨h1.trans ?_, h2.trans ?_, fun i => (h3 i).trans ?_⟩
    · simp [receiveBody]
    · simp [receiveBody]
    · simp [receiveBody, markDirtyInfo_dirty, bit_markTable, Bool.or_assoc]

theorem acceptRequest_other (c : RamNvCtl) {id j : ℕ} (bs : List ReqBody) (h : j ≠ id) :
    (acceptRequest c id bs).part j = c.part j := by
  simp [acceptRequest, backupCopy, modPart_other _ _ h, receive_other c bs h]

theorem acceptRequest_toDisk (c : RamNvCtl) (id : ℕ) (bs : List ReqBody) :
    ((acceptRequest c id bs).part id).toDisk = (c.part id).toDisk := by
  rw [acceptRequest, backupCopy_toDisk]
  exact (receive_tables c id bs).2.1

/-- a request only adds bits to backup's table, and one that changes its partition leaves a bit in it -/
theorem acceptRequest_dirty (c : RamNvCtl) (id : ℕ) (bs : List ReqBody) (hcov : ∀ b ∈ bs, b.start < 1024)
    (h : ifHasDirty c id = true ∨ changes bs = true) : ifHasDirty (acceptRequest c id bs) id = true := by
  obtain ⟨hb, -, hbit⟩ := receive_tables c id bs
  simp only [ifHasDirty, acceptRequest, backupCopy_backup, if_true, anySet_merge, Bool.or_eq_true, hb]
  refine h.imp (fun h => h) fun h => ?_
  obtain ⟨b, hmem, hn⟩ := List.any_eq_true.1 h
  have hn : 1 ≤ b.num := by simpa using hn
  rw [anySet_iff]
  refine ⟨b.start, hcov b hmem, ?_⟩
  rw [hbit, Bool.or_eq_true]
  refine Or.inr (List.any_eq_true.2 ⟨b, hmem, ?_⟩)
  simp only [decide_eq_true_eq]
  omega

/-! ## Pending partitions -/

/-- one of the two tables has a bit -/
def unsaved (c : RamNvCtl) (id : ℕ) : Bool :=
  ifHasDirty c id || anySet RAMNV_DIRTYTABLE_MAXSIZE (c.part id).toDisk.dirty

theorem saved_tables (ok : Bool) (p : PartCtrl) :
    anySet RAMNV_DIRTYTABLE_MAXSIZE (savedPart ok p).backup.dirty = false ∧
    anySet RAMNV_DIRTYTABLE_MAXSIZE (savedPart ok p).toDisk.dirty =
      if anySet RAMNV_DIRTYTABLE_MAXSIZE p.backup.dirty then !ok
      else anySet RAMNV_DIRTYTABLE_MAXSIZE p.toDisk.dirty := by
  unfold savedPart
  by_cases hd : anySet RAMNV_DIRTYTABLE_MAXSIZE p.backup.dirty = true
  · cases ok <;> simp [hd, anySet_clear, anySet_merge]
  · simp [hd]

theorem pass_unsaved (wr : ℕ → Bool) (c : RamNvCtl) {id : ℕ} (h : id < c.partNum) :
    unsaved (saveToDisk wr c).1 id = (unsaved c id && !(ifHasDirty c id && wr id)) := by
  obtain ⟨h1, h2⟩ := saved_tables (wr id) (c.part id)
  simp only [unsaved, ifHasDirty, saveToDisk_part wr c h, h1, h2]
  cases anySet RAMNV_DIRTYTABLE_MAXSIZE (c.part id).backup.dirty <;> simp

theorem mem_passCalls {wr : ℕ → Bool} {c : RamNvCtl} {id : ℕ} (h : id < c.partNum) :
    id ∈ passCalls wr c ↔ ifHasDirty c id = true := by
  simp [passCalls, saveToDisk_calls, h]

theorem step_partNum (x : Saves) (o : SaveOp) : (o.step x).c.partNum = x.c.partNum := by
  cases o with
  | accept id bs =>
    have hr : ∀ c, (receive id c bs).partNum = c.partNum := by
      induction bs with
      | nil => intro c; rfl
      | cons b bs ih => intro c; exact (ih _).trans (by simp [receiveBody, writeData_eq, markDirtyInfo])
    exact hr x.c
  | pass wr => exact saveToDisk_partNum wr x.c

/-- **A pending partition keeps a bit** in backup's table or in toDisk's -/
theorem pending_step {c0 : RamNvCtl} (x : Saves) (o : SaveOp) (hcov : o.Covered c0)
    (h : ∀ id < x.c.partNum, x.pending id = true → unsaved x.c id = true) :
    ∀ id < (o.step x).c.partNum, (o.step x).pending id = true → unsaved (o.step x).c id = true := by
  intro id hid hp
  rw [step_partNum] at hid
  cases o with
  | accept j bs =>
    by_cases hj : id = j
    · subst hj
      simp only [SaveOp.step, Function.update_self, Bool.or_eq_true] at hp
      simp only [SaveOp.step, unsaved, acceptRequest_toDisk, Bool.or_eq_true]
      have hin : ∀ b ∈ bs, b.start < 1024 := fun b hb => by
        have hle := (hcov b hb).1
        omega
      rcases hp with hp | hp
      · have hu := h id hid hp
        simp only [unsaved, Bool.or_eq_true] at hu
        exact hu.imp (fun hd => acceptRequest_dirty _ _ _ hin (Or.inl hd)) fun hd => hd
      · exact Or.inl (acceptRequest_dirty _ _ _ hin (Or.inr hp))
    · simp only [SaveOp.step, Function.update_of_ne hj] at hp
      simpa only [SaveOp.step, unsaved, ifHasDirty, acceptRequest_other _ _ hj] using h id hid hp
  | pass wr =>
    simp only [SaveOp.step, Bool.and_eq_true] at hp ⊢
    rw [pass_unsaved wr x.c hid, h id hid hp.1]
    simpa [mem_passCalls hid] using hp.2

/-- where every request changes its partition, only a pending partition has a bit in one of the tables -/
theorem unsaved_step (x : Saves) (o : SaveOp) (hch : o.Changes)
    (h : ∀ id < x.c.partNum, unsaved x.c id = true → x.pending id = true) :
    ∀ id < (o.step x).c.partNum, unsaved (o.step x).c id = true → (o.step x).pending id = true := by
  intro id hid hu
  rw [step_partNum] at hid
  cases o with
  | accept j bs =>
    by_cases hj : id = j
    · subst hj
      have hc : changes bs = true := hch
      simp [SaveOp.step, hc]
    · simp only [SaveOp.step, unsaved, ifHasDirty, acceptRequest_other _ _ hj] at hu
      simpa only [SaveOp.step, Function.update_of_ne hj] using h id hid hu
  | pass wr =>
    simp only [SaveOp.step] at hu ⊢
    rw [pass_unsaved wr x.c hid, Bool.and_eq_true] at hu
    rw [h id hid hu.1]
    simpa [mem_passCalls hid] using hu.2

/-! ## Retries -/

theorem retries_of_none_stale {x : Saves} {o : SaveOp}
    (h : ∀ id < x.c.partNum, x.pending id = true → unsaved x.c id = true) (hs : NoneStale x o) : Retries x o := by
  cases o with
  | accept id bs => trivial
  | pass wr =>
    intro id hid hp
    have hu := h id hid hp
    have hn := hs id hid
    rw [mem_passCalls hid]
    simp only [unsaved, stale] at hu hn
    cases hd : ifHasDirty x.c id <;> simp_all

theorem none_stale_of_retries {x : Saves} {o : SaveOp}
    (h : ∀ id < x.c.partNum, unsaved x.c id = true → x.pending id = true) (hr : Retries x o) : NoneStale x o := by
  cases o with
  | accept id bs => trivial
  | pass wr =>
    intro id hid
    by_contra hst
    simp only [stale, Bool.not_eq_false, Bool.and_eq_true, Bool.not_eq_true'] at hst
    have hcall := hr id hid (h id hid (by simp [unsaved, hst.1]))
    rw [mem_passCalls hid, hst.2] at hcall
    exact absurd hcall (by decide)

theorem initBuf_saved (load : ℕ → Option (ℕ → UInt8)) (cfg : List RamNvConfig) (id : ℕ) :
    unsaved (initBuf load cfg) id = false := by
  obtain ⟨-, h2, h3, -⟩ := initBuf_booted load cfg id
  simp [unsaved, ifHasDirty, h2, h3, anySet]

/-- **A failed save is retried only when a request comes.** For every run of accepted requests, whose BODYs lie inside
their partitions and the dirty table, and passes with any results of `ramDisk_Write`: if no pass starts with a stale
partition, then every pass calls `ramDisk_Write` for every partition that an accepted request changed and that was not
written successfully since. Conversely, where every request of the run changes its partition, a run in which every pass
does so has no pass that starts with a stale partition. -/
theorem failed_save_retried (load : ℕ → Option (ℕ → UInt8)) (cfg : List RamNvConfig) (ops : List SaveOp)
    (hcov : ∀ o ∈ ops, o.Covered (initBuf load cfg)) :
    (Along SaveOp.step NoneStale (saveStart (initBuf load cfg)) ops →
      Along SaveOp.step Retries (saveStart (initBuf load cfg)) ops) ∧
    ((∀ o ∈ ops, o.Changes) → Along SaveOp.step Retries (saveStart (initBuf load cfg)) ops →
      Along SaveOp.step NoneStale (saveStart (initBuf load cfg)) ops) := by
  constructor
  · intro hs
    refine along_of_inv (fun x => ∀ id < x.c.partNum, x.pending id = true → unsaved x.c id = true)
      (Q := fun x o => NoneStale x o ∧ o.Covered (initBuf load cfg)) ?_ ?_ (along_and hs (along_forall hcov))
    · intro x o hx hq
      exact ⟨retries_of_none_stale hx hq.1, pending_step x o hq.2 hx⟩
    · intro id _ hp
      simp [saveStart] at hp
  · intro hch hr
    refine along_of_inv (fun x => ∀ id < x.c.partNum, unsaved x.c id = true → x.pending id = true)
      (Q := fun x o => Retries x o ∧ o.Changes) ?_ ?_ (along_and hr (along_forall hch))
    · intro x o hx hq
      exact ⟨none_stale_of_retries hx hq.1, unsaved_step x o hq.2 hx⟩
    · intro id _ hu
      simp [saveStart, initBuf_saved] at hu

/-- a failed save, then another request before the next pass -/
def retriedOps : List SaveOp :=
  [.accept 0 [oneSectorBody], .pass fun _ => false, .accept 0 [oneSectorBody], .pass fun _ => true]

theorem failed_save_retried_run :
    Along SaveOp.step Retries (saveStart (initBuf (fun _ => some fun _ => 0) oneSectorCfg)) retriedOps :=
  (failed_save_retried _ oneSectorCfg retriedOps (by decide +kernel)).1 (by decide +kernel)

/-- **A failed save is forgotten**: after an accepted request and a pass in which `ramDisk_Write` fails, the next pass
does not call it -/
theorem failed_save_not_retried :
    ¬ Along SaveOp.step Retries (saveStart (initBuf (fun _ => some fun _ => 0) oneSectorCfg))
      [.accept 0 [oneSectorBody], .pass fun _ => false, .pass fun _ => true] := by
  intro h
  have hcall := h.2.2.1 0 (by decide +kernel) (by decide +kernel)
  revert hcall
  decide +kernel

end SprdDevice.NvItem
