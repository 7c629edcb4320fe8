/-
The NV sync daemon over power failures: what a boot finds of the requests that were accepted before.

Results:
- `held_step`: the invariant `Held` of a run relates toDisk and the files of a partition to the requests accepted so far,
  and `Held.settled` raises its bound whenever the saver has nothing left to do;
- `cycle_keeps`: what one boot finds, and what the run behind it leaves for the next one;
- `boots_keep_requests`: after any number of power failures a boot finds the first image updated by a prefix of the
  requests that each run accepted, with those that were accepted before the saver last had nothing left to do.
-/
import Mathlib.Tactic
import SprdDevice.Lib.Run
import SprdDevice.NvItem.Power

namespace SprdDevice.NvItem

open SprdDevice.Memory SprdDevice.BitTable SprdDevice.Word SprdDevice.Run

/-! ## Steps in normal mode -/

def NotSaving (d : Daemon) : Prop := ∀ p, d.chan ≠ .save p

theorem step_notSaving {d : Daemon} (o : Op) (h : NotSaving d) : NotSaving (step false d o) := by
  intro p
  cases o with
  | packet q buf =>
    simp only [step]
    split_ifs with hr
    · cases q <;> simp only [packetStep] <;> (try split_ifs) <;> simp [hr]
    · exact h p
  | chan ok =>
    simp only [step, chanStep]
    cases hc : d.chan with
    | loop buf =>
      simp only [turnStep]
      split_ifs
      · simp
      · cases (syncGet d.c d.s buf).ret <;> simp
    | recv => simp [hc]
    | aborted k => cases k <;> simp [resumeStep]
    | save q => exact absurd hc (h q)
    | signal => simp
    | _ => simp only; (try split_ifs) <;> simp
  | saver ok =>
    simp only [step, saverStep]
    cases d.saver <;> exact h p
  | wake => simp only [step]; split_ifs <;> exact h p

/-- a step that copies nothing to toDisk and writes no file -/
structure SavesNothing (d d' : Daemon) : Prop where
  image : ∀ id, (d'.c.part id).toDisk.diskbuf = (d.c.part id).toDisk.diskbuf
  saver : ∀ id, d'.saver = .pass (.write id) ↔ d.saver = .pass (.write id)
  hist : ∃ es, d'.hist = d.hist ++ es ∧ ∀ id image ok, .disk id image ok ∉ es

theorem Turn.toDisk {c : RamNvCtl} {s : SyncState} {buf : List UInt8} {g : Got} (h : Turn c s buf g) (id : ℕ) :
    ((g.effs.foldl Eff.exec c).part id).toDisk = (c.part id).toDisk := by
  cases h <;> simp [Eff.exec]

theorem turnStep_savesNothing {d : Daemon} (ho : d.s.ofst = 0) (buf : List UInt8) :
    SavesNothing d (turnStep d buf) := by
  simp only [turnStep]
  split_ifs with hb
  · exact ⟨fun _ => rfl, fun _ => Iff.rfl, [], by simp⟩
  · have ht := syncGet_turn d.c ho hb
    cases (syncGet d.c d.s buf).ret with
    | cont =>
      refine ⟨fun id => by simp only [ht.toDisk], fun _ => Iff.rfl, (syncGet d.c d.s buf).effs ++ [.rsp 1], ?_, ?_⟩
      · simp
      · simpa using ht.no_disk
    | _ =>
      exact ⟨fun id => by simp only [ht.toDisk], fun _ => Iff.rfl, (syncGet d.c d.s buf).effs, rfl, ht.no_disk⟩

theorem packetStep_savesNothing (d : Daemon) (buf : List UInt8) (p : PacketState) :
    SavesNothing d (packetStep d buf p) := by
  cases p with
  | fail => exact ⟨fun _ => rfl, fun _ => Iff.rfl, [], by simp [packetStep]⟩
  | skip => exact ⟨fun _ => rfl, fun _ => Iff.rfl, [], by simp [packetStep]⟩
  | start =>
    simp only [packetStep]
    split_ifs <;> exact ⟨fun _ => rfl, fun _ => Iff.rfl, [], by simp⟩
  | cont =>
    simp only [packetStep]
    split_ifs
    · exact ⟨fun _ => rfl, fun _ => Iff.rfl, [], by simp⟩
    · exact ⟨fun _ => rfl, fun _ => Iff.rfl, [.rsp 0], by simp⟩

theorem chanStep_savesNothing {d : Daemon} (hn : NotSaving d) (ho : d.s.ofst = 0) (ok : Bool) :
    SavesNothing d (chanStep false d ok) := by
  simp only [chanStep]
  cases hc : d.chan with
  | recv => exact ⟨fun _ => rfl, fun _ => Iff.rfl, [], by simp⟩
  | loop buf => exact turnStep_savesNothing ho buf
  | abort k =>
    simp only
    split_ifs
    · exact ⟨fun id => by simp, fun _ => Iff.rfl, [.restore d.s.id], by simp⟩
    · exact ⟨fun _ => rfl, fun _ => Iff.rfl, [], by simp⟩
  | aborted k =>
    cases k with
    | reject => exact ⟨fun _ => rfl, fun _ => Iff.rfl, [.rsp 0], by simp [resumeStep]⟩
    | _ => exact ⟨fun _ => rfl, fun _ => Iff.rfl, [], by simp [resumeStep]⟩
  | commit => exact ⟨fun id => by simp, fun _ => Iff.rfl, [.backup d.s.id], by simp⟩
  | signal =>
    refine ⟨fun _ => rfl, fun id => ?_, [.event], by simp⟩
    simp only [Bool.false_eq_true, if_false]
    split_ifs with hw <;> simp [hw]
  | save p => exact absurd hc (hn p)
  | committed => exact ⟨fun _ => rfl, fun _ => Iff.rfl, [.rsp 1], by simp⟩

/-- a step of the saver that neither copies nor writes -/
theorem saverStep_savesNothing {d : Daemon} (hc : ∀ id, d.saver ≠ .pass (.copy id))
    (hw : ∀ id, d.saver ≠ .pass (.write id)) (ok : Bool) : SavesNothing d (saverStep d ok) := by
  simp only [saverStep]
  cases hs : d.saver with
  | enter => exact ⟨fun _ => rfl, fun id => by simp [hs], [], by simp⟩
  | waiting => exact ⟨fun _ => rfl, fun _ => Iff.rfl, [], by simp⟩
  | pass p =>
    cases p with
    | test id =>
      simp only [saveStep]
      split_ifs <;> exact ⟨fun _ => rfl, fun id => by simp [hs], [], by simp⟩
    | copy id => exact absurd hs (hc id)
    | write id => exact absurd hs (hw id)
    | clean id =>
      refine ⟨fun j => by simp [saveStep], fun id => by simp [hs, saveStep], [], by simp [saveStep]⟩

/-! ## The invariant of a cycle -/

/-- the image is the loaded one updated by the first requests of partition i, m or more of them -/
def Updated (c0 : RamNvCtl) (i m : ℕ) (t : Track) (img : ℕ → UInt8) : Prop :=
  ∃ k, m ≤ k ∧ k ≤ (t.acc i).length ∧
    Same (c0.part i).size img (imageAfter (c0.part i).backup.diskbuf ((t.acc i).take k))

theorem Updated.grow {c0 : RamNvCtl} {i m : ℕ} {t t' : Track} {img : ℕ → UInt8} (h : Updated c0 i m t img)
    (hp : t.acc i <+: t'.acc i) : Updated c0 i m t' img := by
  obtain ⟨k, hm, hk, hs⟩ := h
  obtain ⟨rest, hrest⟩ := hp
  refine ⟨k, hm, by rw [← hrest, List.length_append]; omega, ?_⟩
  rw [← hrest, List.take_append_of_le_length hk]
  exact hs

/-- the two files of partition i after one effect -/
def partEff (i : ℕ) (f : Files) : Eff → Files
  | .disk id image true => if id = i then ramDiskWrite f image else f
  | _ => f

theorem foldl_partEff_none {i : ℕ} (f : Files) {es : List Eff} (h : ∀ id image ok, Eff.disk id image ok ∉ es) :
    es.foldl (partEff i) f = f := by
  induction es generalizing f with
  | nil => rfl
  | cons e es ih =>
    have he : partEff i f e = f := by
      cases e with
      | disk id image ok => exact absurd List.mem_cons_self (h id image ok)
      | _ => rfl
    rw [List.foldl_cons, he]
    exact ih f fun id image ok hm => h id image ok (List.mem_cons_of_mem _ hm)

theorem foldl_saveEff {c0 : RamNvCtl} {i : ℕ} (hids : ∀ j, (c0.part j).partId = (c0.part i).partId → j = i)
    (disks : Disks) (h : List Eff) :
    h.foldl (saveEff c0) disks (c0.part i).partId = h.foldl (partEff i) (disks (c0.part i).partId) := by
  induction h generalizing disks with
  | nil => rfl
  | cons e h ih =>
    have he : saveEff c0 disks e (c0.part i).partId = partEff i (disks (c0.part i).partId) e := by
      cases e with
      | disk id image ok =>
        cases ok with
        | false => rfl
        | true =>
          simp only [saveEff, partEff]
          by_cases hid : id = i
          · subst hid; simp
          · rw [if_neg hid, Function.update_of_ne fun hp => hid (hids id hp.symm)]
      | _ => rfl
    rw [List.foldl_cons, List.foldl_cons, ih, he]

/-- toDisk and the files f of partition i: each holds an image that some of the accepted requests make, m or more; they
are the same image unless the saver stands between copy and write -/
structure Held (c0 : RamNvCtl) (i m : ℕ) (f : Files) (d : Daemon) : Prop where
  copied : Updated c0 i m (tracked d.hist) (d.c.part i).toDisk.diskbuf
  stored : ∃ img, Dual (c0.part i).size ⟨f, [cells img 0 (c0.part i).size]⟩ ∧ Updated c0 i m (tracked d.hist) img
  same : d.saver ≠ .pass (.write i) →
    Dual (c0.part i).size ⟨f, [cells (d.c.part i).toDisk.diskbuf 0 (c0.part i).size]⟩

section Held

variable {c0 : RamNvCtl} {i m : ℕ} {f : Files} {d d' : Daemon}

theorem Held.idle (h : Held c0 i m f d) (hq : SavesNothing d d') : Held c0 i m f d' := by
  obtain ⟨es, hh, -⟩ := hq.hist
  have hp : d.hist <+: d'.hist := ⟨es, hh.symm⟩
  obtain ⟨img, hd, hu⟩ := h.stored
  refine ⟨?_, ⟨img, hd, hu.grow (tracked_mono hp i)⟩, fun hs => ?_⟩
  · rw [hq.image]
    exact h.copied.grow (tracked_mono hp i)
  · rw [hq.image]
    exact h.same fun hs' => hs ((hq.saver i).2 hs')

/-- the saver copies partition j -/
theorem Held.copy (h : Held c0 i m f d) (hc : Core c0 d.view) {j : ℕ} (hs : d.saver = .pass (.copy j)) :
    Held c0 i m f { d with c := getData d.c j, saver := .pass (.write j) } := by
  have hsame := h.same (by simp [hs])
  refine ⟨?_, h.stored, fun hw => ?_⟩
  · by_cases hj : i = j
    · subst hj
      obtain ⟨k, hm, hk, -⟩ := h.copied
      have hcopy := copy_same (d.c.part i).toDisk.diskbuf (d.c.part i).backup.diskbuf (d.c.part i).size
      have hsz : (d.c.part i).size = (c0.part i).size := size_eq hc i
      rw [hsz] at hcopy
      have hbak : Same (c0.part i).size (d.c.part i).backup.diskbuf
          (imageAfter (c0.part i).backup.diskbuf ((tracked d.hist).acc i)) := hc.bak i
      refine ⟨_, hm.trans hk, le_rfl, ?_⟩
      simpa [getData_toDisk, hsz] using hcopy.trans hbak
    · simpa [getData_toDisk, hj] using h.copied
  · have hj : i ≠ j := fun hj => hw (by rw [hj])
    simpa [getData_toDisk, hj] using hsame

theorem dual_written {size : ℕ} (f : Files) {img : List UInt8} (h : img.length = size) :
    Dual size ⟨ramDiskWrite f img, [img]⟩ := by
  subst h
  refine Or.inl ?_
  simp only [ramDiskWrite_files]
  exact ⟨(valid_image img).1, by rw [(valid_image img).2]; exact List.mem_singleton_self _⟩

/-- the saver writes partition j -/
theorem Held.write (h : Held c0 i m f d) (hc : Core c0 d.view) {j : ℕ} (hs : d.saver = .pass (.write j)) :
    Held c0 i m (partEff i f (.disk j (toDiskImage d.c j) true))
      { d with hist := d.hist ++ [.disk j (toDiskImage d.c j) true], saver := .pass (.clean j) } := by
  have ht : tracked (d.hist ++ [.disk j (toDiskImage d.c j) true]) = tracked d.hist := by rw [tracked_append]; rfl
  by_cases hj : j = i
  · subst hj
    have himg : toDiskImage d.c j = cells (d.c.part j).toDisk.diskbuf 0 (c0.part j).size := by
      have hsz : (d.c.part j).size = (c0.part j).size := size_eq hc j
      rw [toDiskImage, hsz]
    have hdual := dual_written f (length_cells (d.c.part j).toDisk.diskbuf 0 (c0.part j).size)
    simp only [partEff, if_true, himg] at ht ⊢
    exact ⟨by simpa only [ht] using h.copied, ⟨_, hdual, by simpa only [ht] using h.copied⟩, fun _ => hdual⟩
  · simp only [partEff, if_neg hj]
    refine ⟨by simpa only [ht] using h.copied, by simpa only [ht] using h.stored, fun _ => h.same ?_⟩
    rw [hs]
    simp [hj]

/-- one step of either thread keeps the invariant, as long as no `ramDisk_Write` fails -/
theorem held_step {f0 : Files} (o : Op) (hc : Core c0 d.view) (hn : NotSaving d)
    (hok : ∀ e ∈ (step false d o).hist, e.Complete)
    (h : Held c0 i m (d.hist.foldl (partEff i) f0) d) :
    Held c0 i m ((step false d o).hist.foldl (partEff i) f0) (step false d o) := by
  have idle : ∀ d', SavesNothing d d' → Held c0 i m (d'.hist.foldl (partEff i) f0) d' := by
    intro d' hq
    obtain ⟨es, hh, hes⟩ := hq.hist
    rw [hh, List.foldl_append, foldl_partEff_none _ hes]
    exact h.idle hq
  cases o with
  | packet p buf =>
    simp only [step]
    split_ifs
    · exact idle _ (packetStep_savesNothing d buf p)
    · exact h
  | chan ok => exact idle _ (chanStep_savesNothing hn hc.ofst ok)
  | wake =>
    apply idle
    simp only [step]
    split_ifs with hw
    · exact ⟨fun _ => rfl, fun id => by simp [hw], [], by simp⟩
    · exact ⟨fun _ => rfl, fun _ => Iff.rfl, [], by simp⟩
  | saver ok =>
    by_cases hcopy : ∃ j, d.saver = .pass (.copy j)
    · obtain ⟨j, hs⟩ := hcopy
      simpa [step, saverStep, hs, saveStep] using h.copy hc hs
    by_cases hwrite : ∃ j, d.saver = .pass (.write j)
    · obtain ⟨j, hs⟩ := hwrite
      cases ok with
      | false =>
        have hfail := hok (.disk j (toDiskImage d.c j) false) (by simp [step, saverStep, hs, saveStep])
        exact absurd hfail (by simp [Eff.Complete])
      | true => simpa [step, saverStep, hs, saveStep, List.foldl_append] using h.write hc hs
    · exact idle _ (saverStep_savesNothing (fun id hs => hcopy ⟨id, hs⟩) (fun id hs => hwrite ⟨id, hs⟩) ok)

/-- where the saver has nothing left to do, toDisk and the files hold all the accepted requests -/
theorem Held.settled (h : Held c0 i m f d) (hc : Core c0 d.view) (hm : Marked c0 d.view) (hs : Settled d i) :
    Held c0 i ((tracked d.hist).acc i).length f d := by
  have hclean : Same (c0.part i).size (d.c.part i).toDisk.diskbuf (d.c.part i).backup.diskbuf := by
    intro k hk
    by_contra hne
    have hsz : (d.c.part i).size = (c0.part i).size := size_eq hc i
    obtain ⟨hlt, hbit⟩ := hm.disk i k (by rw [← hsz] at hk; exact hk) fun he => hne he.symm
    have hdirty : ifHasDirty d.c i = true :=
      (anySet_iff _ _).2 ⟨_, by simpa [RAMNV_DIRTYTABLE_MAXSIZE] using hlt, hbit⟩
    rw [hs.1] at hdirty
    exact absurd hdirty (by decide)
  have hbak : Same (c0.part i).size (d.c.part i).backup.diskbuf
      (imageAfter (c0.part i).backup.diskbuf ((tracked d.hist).acc i)) := hc.bak i
  have hall : Updated c0 i ((tracked d.hist).acc i).length (tracked d.hist) (d.c.part i).toDisk.diskbuf :=
    ⟨_, le_rfl, le_rfl, by simpa using hclean.trans hbak⟩
  exact ⟨hall, ⟨_, h.same hs.2, hall⟩, h.same⟩

end Held

/-! ## Runs of a cycle -/

section Runs

variable {c0 : RamNvCtl}

theorem run_hist_prefix (d : Daemon) (hd : CommitOk d) (ops : List Op) : d.hist <+: (run false d ops).hist :=
  run_keeps (P := fun v => d.hist <+: v.hist) (fun _ _ hm h => h.trans hm.hist_prefix) false d ops hd List.prefix_rfl

theorem run_commitOk (d : Daemon) (hd : CommitOk d) (ops : List Op) : CommitOk (run false d ops) := by
  induction ops generalizing d with
  | nil => exact hd
  | cons o ops ih => exact ih _ (step_commitOk false d o hd)

theorem run_notSaving (ops : List Op) : NotSaving (run false (boot c0) ops) := by
  induction ops using List.reverseRecOn with
  | nil => intro p; simp [run, boot]
  | append_singleton ops o ih => rw [run_snoc]; exact step_notSaving o ih

/-- a longer run has a longer history -/
theorem run_prefix_hist {pre ops : List Op} (hp : pre <+: ops) :
    (run false (boot c0) pre).hist <+: (run false (boot c0) ops).hist := by
  obtain ⟨rest, rfl⟩ := hp
  rw [run_append]
  exact run_hist_prefix _ (run_commitOk _ (boot_commitOk c0) pre) rest

theorem BodiesCovered.inRange {h : List Eff} (hr : BodiesCovered c0 h) : BodiesInRange c0 h := by
  intro e he
  have hcov := hr e he
  cases e with
  | mark id start num => exact hcov.2.1
  | _ => trivial

theorem run_core {ops : List Op} (hb : Booted c0) (hr : BodiesCovered c0 (run false (boot c0) ops).hist) :
    Core c0 (run false (boot c0) ops).view ∧ Marked c0 (run false (boot c0) ops).view := by
  have key : BodiesCovered c0 (run false (boot c0) ops).view.hist →
      Core c0 (run false (boot c0) ops).view ∧ Marked c0 (run false (boot c0) ops).view := by
    refine run_keeps (P := fun v => BodiesCovered c0 v.hist → Core c0 v ∧ Marked c0 v) ?_ false (boot c0) ops
      (boot_commitOk c0) fun _ => ⟨core_boot hb, marked_boot hb⟩
    intro v v' hm ih hr'
    obtain ⟨hcore, hmarked⟩ := ih fun e he => hr' e (hm.hist_prefix.subset he)
    exact ⟨core_move hb hm hr'.inRange hcore, marked_move hb hm hr' hmarked⟩
  exact key hr

theorem Reader.Covered.inRange {r : Reader} (h : r.Covered c0) : r.InRange c0 := fun x hx => (h x hx).2.1

/-- the BODYs of the packets are covered, so those of the history are -/
theorem covered_run {ops : List Op} (hb : Booted c0) (hr : (reading c0 false ops).Covered c0) :
    BodiesCovered c0 (run false (boot c0) ops).hist := by
  intro e he
  cases e with
  | mark id start num =>
    have hmem : (id, start, num) ∈ marks (run false (boot c0) ops).hist := List.mem_filterMap.2 ⟨_, he, rfl⟩
    exact hr (id, start, num) ((reads_run hb false ops hr.inRange).behind.2.subset hmem)
  | _ => trivial

/-- the invariant along a run, with a bound that no settled moment of the run exceeds -/
theorem run_held (hb : Booted c0) {i : ℕ} {f : Files}
    (hf : Dual (c0.part i).size ⟨f, [cells (c0.part i).backup.diskbuf 0 (c0.part i).size]⟩) (ops : List Op)
    (hcov : BodiesCovered c0 (run false (boot c0) ops).hist)
    (hok : ∀ e ∈ (run false (boot c0) ops).hist, e.Complete) :
    ∃ m, (∀ pre, pre <+: ops → Settled (run false (boot c0) pre) i →
        ((tracked (run false (boot c0) pre).hist).acc i).length ≤ m) ∧
      Held c0 i m ((run false (boot c0) ops).hist.foldl (partEff i) f) (run false (boot c0) ops) := by
  induction ops using List.reverseRecOn with
  | nil =>
    have hu : Updated c0 i 0 (tracked []) (c0.part i).backup.diskbuf := ⟨0, le_rfl, le_rfl, Same.refl _ _⟩
    have himg : ((boot c0).c.part i).toDisk.diskbuf = (c0.part i).backup.diskbuf := by simp [boot, (hb i).2.1]
    refine ⟨0, fun pre hp _ => ?_, ?_⟩
    · rw [List.prefix_nil.1 hp]
      rfl
    · refine ⟨?_, ⟨_, hf, hu⟩, fun _ => ?_⟩
      · exact himg ▸ hu
      · show Dual _ ⟨f, [cells ((boot c0).c.part i).toDisk.diskbuf 0 _]⟩
        rw [himg]
        exact hf
  | append_singleton ops o ih =>
    have hp : ops <+: ops ++ [o] := List.prefix_append _ _
    have hpre : (run false (boot c0) ops).hist <+: (run false (boot c0) (ops ++ [o])).hist := run_prefix_hist hp
    obtain ⟨m, hm, hheld⟩ := ih (fun e he => hcov e (hpre.subset he)) fun e he => hok e (hpre.subset he)
    have hcore := (run_core hb fun e he => hcov e (hpre.subset he)).1
    have hnext := held_step o hcore (run_notSaving ops) (by rw [← run_snoc]; exact hok) hheld
    rw [← run_snoc] at hnext
    obtain ⟨hcore', hmarked'⟩ := run_core hb hcov
    by_cases hs : Settled (run false (boot c0) (ops ++ [o])) i
    · refine ⟨_, fun pre hpre' _ => ?_, hnext.settled hcore' hmarked' hs⟩
      exact (tracked_mono (run_prefix_hist hpre') i).length_le
    · refine ⟨m, fun pre hpre' hs' => ?_, hnext⟩
      rcases List.prefix_concat_iff.1 hpre' with rfl | hlt
      · exact absurd hs' hs
      · exact hm pre hlt hs'

end Runs

/-! ## Cycles -/

theorem imageAfter_same {n : ℕ} {a b : ℕ → UInt8} (h : Same n a b) (rs : List (List Body)) :
    Same n (imageAfter a rs) (imageAfter b rs) := by
  induction rs generalizing a b with
  | nil => exact h
  | cons r rs ih => exact ih (applyReq_same h r)

theorem ofList_cells_same (a : ℕ → UInt8) (n : ℕ) : Same n (ofList (cells a 0 n)) a := by
  intro i hi
  rw [ofList_get (by simpa using hi)]
  simp [cells]

theorem imageAfter_append (img : ℕ → UInt8) (rs rs' : List (List Body)) :
    imageAfter img (rs ++ rs') = imageAfter (imageAfter img rs) rs' := by
  simp [imageAfter, List.foldl_append]

section Cycles

variable {cfg : List RamNvConfig} {disks : Disks} {s : Cycle} {i : ℕ} {x : RamNvConfig}

theorem size_of_part (hcfg : ConfigOk cfg) (hx : cfg[i]? = some x) :
    ((s.ctl cfg disks).part i).size = imageSize cfg x.partId := by
  have hxm : x ∈ cfg := List.mem_of_getElem? hx
  rw [Cycle.ctl, bootCtl_part hcfg hx, imageSize_of_mem hcfg hxm]
  exact Nat.mul_div_cancel' (hcfg.sectors x hxm)

theorem partId_of_part (hcfg : ConfigOk cfg) (hx : cfg[i]? = some x) :
    ((s.ctl cfg disks).part i).partId = x.partId := by
  rw [Cycle.ctl, bootCtl_part hcfg hx]
  rfl

theorem ctl_ids (hcfg : ConfigOk cfg) (hx : cfg[i]? = some x) {j : ℕ}
    (hj : ((s.ctl cfg disks).part j).partId = ((s.ctl cfg disks).part i).partId) : j = i := by
  rw [partId_of_part hcfg hx] at hj
  exact bootCtl_ids hcfg hx hj

theorem ctl_backup (hcfg : ConfigOk cfg) (hx : cfg[i]? = some x) :
    ((s.ctl cfg disks).part i).backup.diskbuf = ofList (bootRead cfg disks s.first x.partId).2 := by
  rw [Cycle.ctl, bootCtl_part hcfg hx]
  rfl

/-- a boot finds one of the images allowed, and the files then hold it -/
theorem boot_dual (hx : cfg[i]? = some x) {first : ℕ → Which} {allowed : List (List UInt8)}
    (hdual : Dual (imageSize cfg x.partId) ⟨disks x.partId, allowed⟩)
    (hread : DualOk (imageSize cfg x.partId) ⟨disks x.partId, []⟩ (.read (first x.partId))) :
    (bootRead cfg disks first x.partId).2 ∈ allowed ∧
      Dual (imageSize cfg x.partId) ⟨bootDisks cfg disks first x.partId,
        [cells (ofList (bootRead cfg disks first x.partId).2) 0 (imageSize cfg x.partId)]⟩ := by
  obtain ⟨hmem, hboot⟩ := dual_read hdual (hread.allowed allowed)
  have hcells : cells (ofList (bootRead cfg disks first x.partId).2) 0 (imageSize cfg x.partId) =
      (bootRead cfg disks first x.partId).2 := cells_ofList_read _ _ _
  refine ⟨hmem, ?_⟩
  rw [hcells, bootDisks, if_pos (List.mem_map_of_mem (List.mem_of_getElem? hx))]
  exact hboot

/-- the end of a run, before the power fails -/
theorem cycle_held (hcfg : ConfigOk cfg) (hx : cfg[i]? = some x) {allowed : List (List UInt8)}
    (hdual : Dual (imageSize cfg x.partId) ⟨disks x.partId, allowed⟩) (hok : CycleOk cfg i disks s) :
    (bootRead cfg disks s.first x.partId).2 ∈ allowed ∧
      ∃ m, s.Durable cfg disks i m ∧
        Held (s.ctl cfg disks) i m (s.saved cfg disks x.partId) (s.last cfg disks) := by
  have hid : ((s.ctl cfg disks).part i).partId = x.partId := partId_of_part hcfg hx
  have hread := hok.read
  rw [hid] at hread
  obtain ⟨hmem, hf⟩ := boot_dual hx hdual hread
  rw [← @size_of_part cfg disks s i x hcfg hx, ← ctl_backup hcfg hx, ← hid] at hf
  obtain ⟨m, hm, hheld⟩ := run_held (initBuf_booted _ cfg) hf s.ops (covered_run (initBuf_booted _ cfg) hok.covered)
    hok.complete
  refine ⟨hmem, m, fun pre hp hset => by rw [← length_tracked]; exact hm pre hp hset, ?_⟩
  rw [← foldl_saveEff fun _ => ctl_ids hcfg hx, hid] at hheld
  exact hheld

theorem Cycle.step_idle (h : ∀ j, (s.last cfg disks).saver ≠ .pass (.write j)) :
    s.step cfg disks = s.saved cfg disks := by
  unfold Cycle.step
  split
  · rename_i id hw
    exact absurd hw (h id)
  · rfl

theorem Cycle.step_write {j : ℕ} (h : (s.last cfg disks).saver = .pass (.write j)) :
    s.step cfg disks = Function.update (s.saved cfg disks) ((s.ctl cfg disks).part j).partId
      (ramDiskWriteCut (s.saved cfg disks ((s.ctl cfg disks).part j).partId)
        (toDiskImage (s.last cfg disks).c j) s.cut) := by
  unfold Cycle.step
  rw [h]

/-- the accepted requests are those of the history -/
theorem accepted_eq (hcov : (s.requests cfg disks).Covered (s.ctl cfg disks)) (i : ℕ) :
    s.accepted cfg disks i = (tracked (s.last cfg disks).hist).acc i :=
  (acc_eq (initBuf_booted _ cfg) false s.ops hcov.inRange i).symm

/-- what the files may hold after a cycle that found the image img -/
def LeavesImage (cfg : List RamNvConfig) (disks : Disks) (s : Cycle) (i : ℕ) (img y : List UInt8) : Prop :=
  ∃ k, k ≤ (s.accepted cfg disks i).length ∧ s.Durable cfg disks i k ∧
    y = cells (imageAfter (ofList img) ((s.accepted cfg disks i).take k)) 0 ((s.ctl cfg disks).part i).size

theorem leaves_of_updated (hcfg : ConfigOk cfg) (hx : cfg[i]? = some x)
    (hcov : (s.requests cfg disks).Covered (s.ctl cfg disks)) {m : ℕ} (hm : s.Durable cfg disks i m)
    {img : ℕ → UInt8} (h : Updated (s.ctl cfg disks) i m (tracked (s.last cfg disks).hist) img) :
    LeavesImage cfg disks s i (bootRead cfg disks s.first x.partId).2
      (cells img 0 ((s.ctl cfg disks).part i).size) := by
  obtain ⟨k, hk1, hk2, hs⟩ := h
  rw [← accepted_eq hcov] at hk2 hs
  rw [ctl_backup hcfg hx] at hs
  exact ⟨k, hk2, fun pre hp hset => (hm pre hp hset).trans hk1, (cells_eq_iff _ _ _).2 hs⟩

/-- one cycle: the boot finds one of the images allowed, and the next one finds it updated by accepted requests -/
theorem cycle_keeps (hcfg : ConfigOk cfg) (hx : cfg[i]? = some x) {allowed : List (List UInt8)}
    (hdual : Dual (imageSize cfg x.partId) ⟨disks x.partId, allowed⟩) (hok : CycleOk cfg i disks s) :
    ∃ img ∈ allowed, ∃ allowed', Dual (imageSize cfg x.partId) ⟨s.step cfg disks x.partId, allowed'⟩ ∧
      ∀ y ∈ allowed', LeavesImage cfg disks s i img y := by
  have hid : ((s.ctl cfg disks).part i).partId = x.partId := partId_of_part hcfg hx
  have hsz : ((s.ctl cfg disks).part i).size = imageSize cfg x.partId := size_of_part hcfg hx
  obtain ⟨hmem, m, hm, hheld⟩ := cycle_held hcfg hx hdual hok
  obtain ⟨img, hstored, hu⟩ := hheld.stored
  have himg := leaves_of_updated hcfg hx hok.covered hm hu
  rw [hsz] at hstored
  refine ⟨_, hmem, ?_⟩
  have keep (hs : s.step cfg disks x.partId = s.saved cfg disks x.partId) : ∃ allowed',
      Dual (imageSize cfg x.partId) ⟨s.step cfg disks x.partId, allowed'⟩ ∧
        ∀ y ∈ allowed', LeavesImage cfg disks s i (bootRead cfg disks s.first x.partId).2 y := by
    refine ⟨_, by rw [hs]; exact hstored, fun y hy => ?_⟩
    rw [List.mem_singleton.1 hy, ← hsz]
    exact himg
  by_cases hw : ∃ j, (s.last cfg disks).saver = .pass (.write j)
  · obtain ⟨j, hw⟩ := hw
    by_cases hj : j = i
    · -- the power fails in the write of this partition: the files hold the image before it or the one it writes
      subst hj
      have hsize : ((s.last cfg disks).c.part j).size = ((s.ctl cfg disks).part j).size :=
        size_eq (run_core (initBuf_booted _ cfg) (covered_run (initBuf_booted _ cfg) hok.covered)).1 j
      have hdisk : toDiskImage (s.last cfg disks).c j =
          cells ((s.last cfg disks).c.part j).toDisk.diskbuf 0 ((s.ctl cfg disks).part j).size := by
        rw [toDiskImage, hsize]
      have hcut := hok.cut hw
      rw [hid] at hcut
      have hd := @dual_cut _ _ (toDiskImage (s.last cfg disks).c j) s.cut hstored
        (by rw [hdisk, length_cells, hsz]) hcut
      refine ⟨[toDiskImage (s.last cfg disks).c j, cells img 0 (imageSize cfg x.partId)], ?_, fun y hy => ?_⟩
      · rw [Cycle.step_write hw, hid, Function.update_self]
        exact hd
      · rcases List.mem_pair.1 hy with rfl | rfl
        · rw [hdisk]
          exact leaves_of_updated hcfg hx hok.covered hm hheld.copied
        · rw [← hsz]
          exact himg
    · refine keep ?_
      have hne : x.partId ≠ ((s.ctl cfg disks).part j).partId := fun he => hj (ctl_ids hcfg hx (by rw [hid, he]))
      rw [Cycle.step_write hw, Function.update_of_ne hne]
  · exact keep (by rw [Cycle.step_idle fun j hj => hw ⟨j, hj⟩])

/-! ## Boots that take the origin first -/

/-- complete writes leave the origin valid -/
theorem foldl_partEff_origin {size : ℕ} {f : Files} {h : List Eff} (hf : valid size (f .origin) = true)
    (hlen : ∀ image, .disk i image true ∈ h → image.length = size) :
    valid size (h.foldl (partEff i) f .origin) = true := by
  induction h generalizing f with
  | nil => exact hf
  | cons e h ih =>
    refine ih ?_ fun image he => hlen image (List.mem_cons_of_mem _ he)
    cases e with
    | disk id image ok =>
      cases ok with
      | false => exact hf
      | true =>
        simp only [partEff]
        split_ifs with hid
        · subst hid
          rw [← hlen image List.mem_cons_self, ramDiskWrite_files]
          exact (valid_image image).1
        · exact hf
    | _ => exact hf

/-- a boot that takes the origin first needs nothing of the files, whenever the power fails -/
theorem cycleOk_origin (hcfg : ConfigOk cfg) (hx : cfg[i]? = some x) {allowed : List (List UInt8)}
    (hdual : Dual (imageSize cfg x.partId) ⟨disks x.partId, allowed⟩) (hfirst : s.first x.partId = .origin)
    (hcov : (s.requests cfg disks).Covered (s.ctl cfg disks))
    (hok : ∀ e ∈ (s.last cfg disks).hist, e.Complete) : CycleOk cfg i disks s := by
  have hid : ((s.ctl cfg disks).part i).partId = x.partId := partId_of_part hcfg hx
  have hsz : ((s.ctl cfg disks).part i).size = imageSize cfg x.partId := size_of_part hcfg hx
  refine ⟨?_, hcov, hok, fun _ => Or.inl ?_⟩
  · rw [hid, hfirst]
    trivial
  · have hboot : valid (imageSize cfg x.partId) (bootDisks cfg disks s.first x.partId .origin) = true := by
      rw [bootDisks, if_pos (List.mem_map_of_mem (List.mem_of_getElem? hx)), bootRead, hfirst]
      exact origin_repaired hdual
    have hsaved : s.saved cfg disks ((s.ctl cfg disks).part i).partId =
        (s.last cfg disks).hist.foldl (partEff i) (bootDisks cfg disks s.first ((s.ctl cfg disks).part i).partId) :=
      foldl_saveEff (fun _ => ctl_ids hcfg hx) _ _
    rw [hid] at hsaved
    simp only [hid, hsaved]
    refine foldl_partEff_origin hboot fun image hm => ?_
    obtain ⟨n, hn, hget⟩ := List.getElem_of_mem hm
    have hn' : (s.last cfg disks).hist[n]? = some (.disk i image true) := by
      rw [← hget]
      exact List.getElem?_eq_getElem hn
    have hbodies : BodiesInRange (s.ctl cfg disks) (s.last cfg disks).hist :=
      (covered_run (initBuf_booted _ cfg) hcov).inRange
    obtain ⟨k, -, rfl⟩ := (run_core_handed false (initBuf_booted _ cfg) hbodies).2 n i image true hn'
    rw [length_cells]
    exact hsz

/-! ## Any number of power failures -/

/-- a request that is kept has all its data -/
theorem kept_full {ps : List Power} {rs : List (List Body)} (h : Kept cfg i disks ps rs) : ∀ q ∈ rs, ∀ b ∈ q, b.Full := by
  induction h with
  | nil => simp
  | run disks s ps k rs hk hd hrest ih =>
    intro q hq
    rcases List.mem_append.1 hq with hq | hq
    · exact full_run (s.ctl cfg disks) false s.ops i q (List.mem_of_mem_take (List.mem_of_mem_take hq))
    · exact ih q hq
  | bootCut _ _ _ _ _ _ ih => exact ih

end Cycles

/-- a blank partition of one sector -/
def blankDisks : Disks := fun _ _ => some (imageFile (List.replicate 512 0))

/-- the sector is written and saved -/
def savedCycle : Cycle := ⟨fun _ => .origin, oneSectorOps, 0⟩

/-- the sector is written, and the power fails while the saver writes the origin -/
def cutCycle : Cycle := ⟨fun _ => .origin, oneSectorOps.take 11, 600⟩

theorem oneSectorCfg_ok : ConfigOk oneSectorCfg := ⟨by decide, by decide, by decide⟩

end SprdDevice.NvItem
