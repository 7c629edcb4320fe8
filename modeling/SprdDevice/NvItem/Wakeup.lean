/-
Wakeups of the saver: `giveEvent` signals a condition variable without a predicate, so that a signal sent while the
saver is not waiting is gone. The mode is the normal one, in which the channel thread signals and the saver saves.

A pass of the saver is still ahead of partition id when it has yet to run `__ifHasDirty` or `__getData` for it. A signal
for partition id is seen when the saver is waiting, when its pass is still ahead of id, or when there is nothing to copy
any more.

Results:
- `wake_step`: the invariant `Wake`, that a partition with a bit in backup's table has the saver ahead of it or its
  signal still to come, is kept by every step whose signals are seen;
- `blind_signal_stuck`: after a signal that is not seen, the saver alone reaches its wait with the bit still set;
- `no_lost_wakeup`: both, for runs; `lost_wakeup`: a run that ends so.
-/
import Mathlib.Tactic
import SprdDevice.Lib.Run
import SprdDevice.NvItem.Daemon
import SprdDevice.NvItem.Request

namespace SprdDevice.NvItem

open SprdDevice.Memory SprdDevice.BitTable SprdDevice.Run

/-! ## The saver and a signal -/

/-- the pass has yet to test or to copy partition id -/
def SaverPc.ahead (id : ℕ) : SaverPc → Bool
  | .pass (.test j) => j ≤ id
  | .pass (.copy j) => j ≤ id
  | .pass (.write j) => j < id
  | .pass (.clean j) => j < id
  | .enter => false
  | .waiting => false

/-- the saver sees the signal that the channel thread sends in this step, if it sends one -/
def SignalSeen (d : Daemon) : Op → Prop
  | .chan _ => d.chan = .signal →
      d.saver = .waiting ∨ d.saver.ahead d.s.id = true ∨ ifHasDirty d.c d.s.id = false
  | _ => True

instance (d : Daemon) (o : Op) : Decidable (SignalSeen d o) := by cases o <;> unfold SignalSeen <;> infer_instance

/-- the saver is blocked in `waiteEvent` and no signal is to come: then no partition has a bit in backup's table -/
def Quiet (d : Daemon) : Prop :=
  d.saver = .waiting → d.chan ≠ .signal → ∀ id < d.c.partNum, ifHasDirty d.c id = false

structure Wake (d : Daemon) : Prop where
  mode : ∀ p, d.chan ≠ .save p
  seen : ∀ id < d.c.partNum, ifHasDirty d.c id = true →
    (d.chan = .signal ∧ d.s.id = id) ∨ d.saver.ahead id = true

theorem Wake.quiet {d : Daemon} (h : Wake d) : Quiet d := by
  intro hw hs id hid
  by_contra hd
  rcases h.seen id hid (by simpa using hd) with hc | ha
  · exact hs hc.1
  · rw [hw] at ha; exact absurd ha (by simp [SaverPc.ahead])

/-- a step of the channel thread, not the signal itself, that leaves backup's tables alone -/
theorem Wake.keep {d d' : Daemon} (h : Wake d) (hs : d.chan ≠ .signal) (hn : d'.c.partNum = d.c.partNum)
    (hd : ∀ id, ifHasDirty d'.c id = ifHasDirty d.c id) (hv : d'.saver = d.saver) (hc : ∀ p, d'.chan ≠ .save p) :
    Wake d' := by
  refine ⟨hc, fun id hid hdirty => Or.inr ?_⟩
  rw [hn] at hid
  rw [hd] at hdirty
  rw [hv]
  exact (h.seen id hid hdirty).resolve_left fun hx => hs hx.1

theorem turn_backup (c : RamNvCtl) (s : SyncState) (buf : List UInt8) :
    ((syncGet c s buf).effs.foldl Eff.exec c).partNum = c.partNum ∧
      ∀ id, ifHasDirty ((syncGet c s buf).effs.foldl Eff.exec c) id = ifHasDirty c id := by
  unfold syncGet
  cases s.syncState with
  | head =>
    simp only [syncGetHead]
    rcases getToken s buf with ⟨_ | _, s', rest⟩ <;> simp only <;> (try split_ifs) <;> simp [Eff.exec]
  | body =>
    simp only [syncGetBody]
    rcases getToken s buf with ⟨_ | _, s', rest⟩ <;> simp only <;> (try split_ifs) <;>
      simp [Eff.exec, ifHasDirty, markDirtyInfo_backup]
    rfl
  | data => simp only [syncGetData]; split_ifs <;> simp [Eff.exec, ifHasDirty, writeData_eq, modPart_ite]

/-! ## Steps -/

theorem wake_packet (cali : Bool) (d : Daemon) (p : PacketState) (buf : List UInt8) (h : Wake d) :
    Wake (step cali d (.packet p buf)) := by
  simp only [step]
  split_ifs with hr
  · have hs : d.chan ≠ .signal := by simp [hr]
    cases p <;> simp only [packetStep] <;> (try split_ifs) <;>
      exact h.keep hs rfl (fun _ => rfl) rfl (by simp [hr])
  · exact h

theorem getData_ifHasDirty (c : RamNvCtl) (j id : ℕ) :
    ifHasDirty (getData c j) id = if id = j then false else ifHasDirty c id := by
  simp only [ifHasDirty, getData_dirty]
  split_ifs
  · exact anySet_clear _ _
  · rfl

theorem cleanToDisk_ifHasDirty (c : RamNvCtl) (j id : ℕ) : ifHasDirty (cleanToDisk c j) id = ifHasDirty c id := by
  simp [ifHasDirty]

theorem backupCopy_ifHasDirty (c : RamNvCtl) {j id : ℕ} (h : id ≠ j) :
    ifHasDirty (backupCopy c j) id = ifHasDirty c id := by
  simp [ifHasDirty, backupCopy_backup, h]

/-- a step of the saver: it passes a partition only after it found its table empty or emptied it -/
theorem wake_saver (d : Daemon) (ok : Bool) (h : Wake d) : Wake (saverStep d ok) := by
  unfold saverStep
  cases hv : d.saver with
  | enter =>
    refine ⟨h.mode, fun id hid hd => ?_⟩
    simpa [hv, SaverPc.ahead] using h.seen id hid hd
  | waiting => simpa only [hv] using h
  | pass p =>
    cases p with
    | test j =>
      simp only [saveStep]
      split_ifs with hj hdirty
      · refine ⟨h.mode, fun id hid hd => ?_⟩
        simpa [hv, SaverPc.ahead] using h.seen id hid hd
      · refine ⟨h.mode, fun id hid hd => (h.seen id hid hd).imp (fun hx => hx) fun ha => ?_⟩
        have hne : id ≠ j := fun he => hdirty (he ▸ hd)
        simp only [hv, SaverPc.ahead, decide_eq_true_eq] at ha ⊢
        omega
      · -- the loop of `saveToDisk` ends: no partition is left to be ahead of
        refine ⟨h.mode, fun id hid hd => (h.seen id hid hd).imp (fun hx => hx) fun ha => ?_⟩
        simp only [hv, SaverPc.ahead, decide_eq_true_eq] at ha
        exact absurd (lt_of_le_of_lt ha hid) hj
    | copy j =>
      simp only [saveStep]
      refine ⟨h.mode, fun id hid hd => ?_⟩
      simp only [getData_ifHasDirty] at hd
      split_ifs at hd with hj
      refine (h.seen id hid hd).imp (fun hx => hx) fun ha => ?_
      simp only [hv, SaverPc.ahead, decide_eq_true_eq] at ha ⊢
      exact lt_of_le_of_ne ha (Ne.symm hj)
    | write j =>
      simp only [saveStep]
      refine ⟨h.mode, fun id hid hd => (h.seen id hid hd).imp (fun hx => hx) fun ha => ?_⟩
      cases ok <;> simp only [hv, SaverPc.ahead, decide_eq_true_eq, if_true, Bool.false_eq_true, if_false] at ha ⊢
      · exact Nat.succ_le_of_lt ha
      · exact ha
    | clean j =>
      simp only [saveStep]
      refine ⟨h.mode, fun id hid hd => ?_⟩
      simp only [cleanToDisk_ifHasDirty] at hd
      refine (h.seen id hid hd).imp (fun hx => hx) fun ha => ?_
      simp only [hv, SaverPc.ahead, decide_eq_true_eq] at ha ⊢
      exact Nat.succ_le_of_lt ha

theorem wake_chan (d : Daemon) (ok : Bool) (hseen : SignalSeen d (.chan ok)) (h : Wake d) :
    Wake (chanStep false d ok) := by
  unfold chanStep
  cases hc : d.chan with
  | recv => simpa only [hc] using h
  | loop buf =>
    have hs : d.chan ≠ .signal := by simp [hc]
    obtain ⟨hn, hd⟩ := turn_backup d.c d.s buf
    simp only [turnStep]
    split_ifs
    · exact h.keep hs rfl (fun _ => rfl) rfl (by simp)
    · cases (syncGet d.c d.s buf).ret <;> exact h.keep hs hn hd rfl (by simp)
  | abort k =>
    have hs : d.chan ≠ .signal := by simp [hc]
    simp only
    split_ifs
    · exact h.keep hs rfl (fun id => by simp [ifHasDirty]) rfl (by simp)
    · exact h.keep hs rfl (fun _ => rfl) rfl (by simp)
  | aborted k =>
    have hs : d.chan ≠ .signal := by simp [hc]
    cases k <;> exact h.keep hs rfl (fun _ => rfl) rfl (by simp [resumeStep])
  | commit =>
    -- the request's own partition is covered by the signal that comes next
    refine ⟨by simp, fun id hid hd => ?_⟩
    by_cases hj : id = d.s.id
    · exact Or.inl ⟨rfl, hj.symm⟩
    · rw [backupCopy_ifHasDirty d.c hj] at hd
      exact Or.inr ((h.seen id hid hd).resolve_left fun hx => by simp [hc] at hx)
  | signal =>
    simp only [Bool.false_eq_true, if_false]
    refine ⟨by simp, fun id hid hd => Or.inr ?_⟩
    split_ifs with hw
    · simp [SaverPc.ahead]
    · rcases h.seen id hid hd with ⟨-, rfl⟩ | ha
      · rcases hseen hc with hx | hx | hx
        · exact absurd hx hw
        · exact hx
        · rw [hx] at hd; exact absurd hd (by decide)
      · exact ha
  | save p => exact absurd hc (h.mode p)
  | committed => exact h.keep (by simp [hc]) rfl (fun _ => rfl) rfl (by simp)

theorem wake_step (d : Daemon) (o : Op) (h : Wake d) (hseen : SignalSeen d o) : Wake (step false d o) := by
  cases o with
  | packet p buf => exact wake_packet false d p buf h
  | chan ok => exact wake_chan d ok hseen h
  | saver ok => exact wake_saver d ok h
  | wake =>
    simp only [step]
    split_ifs with hw
    · exact ⟨h.mode, fun id _ _ => Or.inr (by simp [SaverPc.ahead])⟩
    · exact h

theorem wake_boot {c : RamNvCtl} (h : Booted c) : Wake (boot c) := by
  refine ⟨by simp [boot], fun id _ hd => ?_⟩
  simp [boot, ifHasDirty, (h id).2.2.1, anySet] at hd

/-! ## A signal that is not seen -/

/-- the steps the saver has still to make before it waits, at most -/
def saverRank (n : ℕ) : SaverPc → ℕ
  | .waiting => 0
  | .enter => 1
  | .pass (.test j) => 2 + 4 * (n - j)
  | .pass (.copy j) => 5 + 4 * (n - (j + 1))
  | .pass (.write j) => 4 + 4 * (n - (j + 1))
  | .pass (.clean j) => 3 + 4 * (n - (j + 1))

/-- a saver that is past partition id leaves its bit and comes closer to its wait -/
theorem blind_step (d : Daemon) {id : ℕ} (ha : d.saver.ahead id = false) (hd : ifHasDirty d.c id = true) :
    (saverStep d true).saver.ahead id = false ∧ ifHasDirty (saverStep d true).c id = true ∧
      (saverStep d true).chan = d.chan ∧ (saverStep d true).c.partNum = d.c.partNum ∧
      (d.saver ≠ .waiting → saverRank d.c.partNum (saverStep d true).saver < saverRank d.c.partNum d.saver) := by
  unfold saverStep
  cases hv : d.saver with
  | enter => exact ⟨rfl, hd, rfl, rfl, fun _ => by simp [saverRank]⟩
  | waiting => exact ⟨by rw [hv]; rfl, hd, rfl, rfl, fun hx => absurd rfl hx⟩
  | pass p =>
    simp only [hv] at ha
    cases p with
    | test j =>
      simp only [SaverPc.ahead, decide_eq_false_iff_not, Nat.not_le] at ha
      simp only [saveStep]
      split_ifs with hj hdirty
      · exact ⟨by simpa [SaverPc.ahead] using ha, hd, trivial, rfl, fun _ => by simp only [saverRank]; omega⟩
      · exact ⟨by simp only [SaverPc.ahead, decide_eq_false_iff_not]; omega, hd, trivial, rfl,
          fun _ => by simp only [saverRank]; omega⟩
      · exact ⟨rfl, hd, trivial, rfl, fun _ => by simp only [saverRank]; omega⟩
    | copy j =>
      simp only [SaverPc.ahead, decide_eq_false_iff_not, Nat.not_le] at ha
      refine ⟨?_, ?_, rfl, rfl, fun _ => by simp [saveStep, saverRank]⟩
      · simpa [saveStep, SaverPc.ahead] using ha.le
      · simpa [saveStep, getData_ifHasDirty, ha.ne] using hd
    | write j =>
      refine ⟨?_, hd, rfl, rfl, fun _ => by simp [saveStep, saverRank]⟩
      simpa [saveStep, SaverPc.ahead] using ha
    | clean j =>
      simp only [SaverPc.ahead, decide_eq_false_iff_not, Nat.not_lt] at ha
      refine ⟨?_, ?_, rfl, rfl, fun _ => by simp [saveStep, saverRank]⟩
      · simpa [saveStep, SaverPc.ahead] using Nat.lt_succ_of_le ha
      · simpa [saveStep, cleanToDisk_ifHasDirty] using hd

/-- **A saver past partition id** reaches its wait, by its own steps, with the bit of the partition still set -/
theorem blind_signal_stuck (d : Daemon) {id : ℕ} (ha : d.saver.ahead id = false) (hd : ifHasDirty d.c id = true) :
    ∃ n, (run false d (List.replicate n (.saver true))).saver = .waiting ∧
      (run false d (List.replicate n (.saver true))).chan = d.chan ∧
      (run false d (List.replicate n (.saver true))).c.partNum = d.c.partNum ∧
      ifHasDirty (run false d (List.replicate n (.saver true))).c id = true := by
  induction hr : saverRank d.c.partNum d.saver using Nat.strong_induction_on generalizing d with
  | _ r ih =>
    by_cases hw : d.saver = .waiting
    · exact ⟨0, hw, rfl, rfl, hd⟩
    · obtain ⟨h1, h2, h3, h4, h5⟩ := blind_step d ha hd
      obtain ⟨n, i1, i2, i3, i4⟩ := ih _ (hr ▸ h5 hw) (saverStep d true) h1 h2 (by rw [h4])
      exact ⟨n + 1, i1, i2.trans h3, i3.trans h4, i4⟩

/-! ## The partition of a signal -/

/-- a request in progress is for one of the partitions -/
def IdOk (v : View) : Prop := v.s.ofst = 0 ∧ (v.s.syncState ≠ .head → v.s.id < v.c.partNum)

theorem idOk_move {v v' : View} (hm : Move v v') (h : IdOk v) : IdOk v' := by
  obtain ⟨ho, hid⟩ := h
  cases hm with
  | turn buf hl h0 =>
    have hn := (turn_backup v.c v.s buf).1
    have hofst := syncGet_ofst v.c buf ho
    generalize hg : syncGet v.c v.s buf = g at hn hofst ⊢
    have ht : Turn v.c v.s buf g := hg ▸ syncGet_turn v.c ho h0
    refine ⟨by simp only; split_ifs <;> exact hofst, fun hs => ?_⟩
    simp only [hn] at hs ⊢
    cases ht with
    | headBad hp hlt htok => exact absurd hp hs
    | headUnknown hp hlt htok hk => exact absurd hp hs
    | headNext hp hlt htok hk => exact getCtlId_lt hk
    | short hp hlt => exact hid hs
    | bodyBad hp hlt htok => exact hid (by simp [hp])
    | bodyNext hp hlt htok hf => exact hid (by simp [hp])
    | tail hp hlt htok hf => exact hid (by simp [hp])
    | dataNext hp hlt => exact hid (by simp [hp])
    | dataCont hp hlt => exact hid (by simp [hp])
  | reinit hl => exact ⟨rfl, fun hs => absurd rfl hs⟩
  | _ => exact ⟨ho, hid⟩

/-- a signal follows a commit, so the analyzer is still in the body state -/
def SignalOk (d : Daemon) : Prop := d.chan = .signal → d.s.syncState = .body

theorem step_signalOk (d : Daemon) (o : Op) (hc : CommitOk d) (h : SignalOk d) : SignalOk (step false d o) := by
  unfold SignalOk at h ⊢
  cases o with
  | packet p buf =>
    simp only [step]
    split_ifs with hr
    · cases p <;> simp only [packetStep] <;> (try split_ifs) <;> simp [hr]
    · exact h
  | chan ok =>
    simp only [step, chanStep]
    cases hch : d.chan with
    | commit => exact fun _ => hc hch
    | recv => simp only; exact hch ▸ h
    | loop buf =>
      simp only [turnStep]
      split_ifs
      · simp
      · cases (syncGet d.c d.s buf).ret <;> simp
    | aborted k => cases k <;> simp [resumeStep]
    | save p => simp only; split <;> simp
    | _ => simp only; (try split_ifs) <;> simp
  | saver ok =>
    simp only [step, saverStep]
    cases d.saver <;> exact h
  | wake => simp only [step]; split_ifs <;> exact h

theorem run_signalOk (c : RamNvCtl) (ops : List Op) : SignalOk (run false (boot c) ops) := by
  have key : CommitOk (run false (boot c) ops) ∧ SignalOk (run false (boot c) ops) := by
    induction ops using List.reverseRecOn with
    | nil => exact ⟨boot_commitOk c, by simp [SignalOk, run, boot]⟩
    | append_singleton ops o ih =>
      rw [run_snoc]
      exact ⟨step_commitOk false _ o ih.1, step_signalOk _ o ih.1 ih.2⟩
  exact key.2

theorem signal_id_lt (c : RamNvCtl) (ops : List Op) (h : (run false (boot c) ops).chan = .signal) :
    (run false (boot c) ops).s.id < (run false (boot c) ops).c.partNum := by
  have hid : IdOk (run false (boot c) ops).view :=
    run_keeps (P := IdOk) (fun _ _ => idOk_move) false (boot c) ops (boot_commitOk c) ⟨rfl, fun hs => absurd rfl hs⟩
  apply hid.2
  simp [Daemon.view, run_signalOk c ops h]

/-! ## Runs -/

/-- **No lost wakeup, as long as the signals are seen.** In a run from the state `initBuf` leaves in which every signal
is seen, a saver that waits while no signal is to come has nothing to save, in every state of the run. After a signal
that is not seen, there is a continuation to a state in which the saver waits with a committed request unsaved. -/
theorem no_lost_wakeup (load : ℕ → Option (ℕ → UInt8)) (cfg : List RamNvConfig) (ops : List Op) :
    (Along (step false) SignalSeen (boot (initBuf load cfg)) ops →
      ∀ pre, pre <+: ops → Quiet (run false (boot (initBuf load cfg)) pre)) ∧
    (¬ Along (step false) SignalSeen (boot (initBuf load cfg)) ops →
      ∃ pre more, pre <+: ops ∧ ¬ Quiet (run false (boot (initBuf load cfg)) (pre ++ more))) := by
  constructor
  · rintro hs pre ⟨suf, rfl⟩
    have hpre := ((along_append _ pre suf).1 hs).1
    exact (inv_of_along wake_step (wake_boot (initBuf_booted load cfg)) hpre).quiet
  · intro hn
    obtain ⟨pre, o, suf, hops, -, hblind⟩ := exists_of_not_along hn
    change ¬ SignalSeen (run false (boot (initBuf load cfg)) pre) o at hblind
    cases o with
    | chan ok =>
      simp only [SignalSeen, not_forall, not_or] at hblind
      obtain ⟨hsig, hw, ha, hd⟩ := hblind
      have hid := signal_id_lt (initBuf load cfg) pre hsig
      -- after `giveEvent` the saver stands where it stood, past the partition of the request
      have hstep : step false (run false (boot (initBuf load cfg)) pre) (.chan ok) =
          { run false (boot (initBuf load cfg)) pre with
            hist := (run false (boot (initBuf load cfg)) pre).hist ++ [Eff.event], chan := .committed } := by
        simp only [step, chanStep, hsig, Bool.false_eq_true, if_false, hw]
      obtain ⟨n, h1, h2, h3, h4⟩ := blind_signal_stuck (step false (run false (boot (initBuf load cfg)) pre) (.chan ok))
        (by rw [hstep]; simpa using ha) (by rw [hstep]; simpa using hd)
      refine ⟨pre, .chan ok :: List.replicate n (.saver true), ⟨.chan ok :: suf, hops.symm⟩, fun hq => ?_⟩
      rw [run_append, run_cons] at hq
      have hclean := hq h1 (by rw [h2, hstep]; simp) _ (by rw [h3, hstep]; exact hid)
      rw [h4] at hclean
      exact absurd hclean (by decide)
    | _ => exact absurd trivial hblind

/-- a request is committed and signalled while the saver waits; a second one is committed and signalled after the saver
has copied the first and before it waits again -/
def lateCommitOps : List Op :=
  [Op.saver true, Op.packet .start oneSector.bytes] ++ List.replicate 7 (Op.chan true) ++
    [Op.saver true, Op.saver true, Op.packet .start oneSector.bytes] ++ List.replicate 7 (Op.chan true) ++
    List.replicate 4 (Op.saver true)

/-- **A lost wakeup**: at the end the saver waits, no signal is to come, and the second request is not saved -/
theorem lost_wakeup : ¬ Quiet (run false (boot (initBuf (fun _ => some fun _ => 0) oneSectorCfg)) lateCommitOps) := by
  intro hq
  have hclean := hq (by decide +kernel) (by decide +kernel) 0 (by decide +kernel)
  revert hclean
  decide +kernel

end SprdDevice.NvItem
