/-
Power failures of the NV sync daemon: boots over the files of the partitions, runs of the two threads of `Daemon` in
normal mode, and a power failure at any point, also while a boot repairs a file and inside the `ramDisk_Write` that the
saver stands before (in normal mode nothing else writes the files).

A boot is `initBuf`: every partition of the configuration is read from its two files, in the order `rand` gives, and a
read may rewrite the first file. Every `ramDisk_Write` of a run that succeeds rewrites the two files of its partition.

Results: `bootCtl_part`, `bootCtl_ids` (what a boot leaves) and `dual_readCut` (a power failure in a boot).
-/
import Mathlib.Tactic
import SprdDevice.NvItem.DirtySound
import SprdDevice.NvItem.DualImage

namespace SprdDevice.NvItem

open SprdDevice.Memory SprdDevice.Word SprdDevice.Crash

/-! ## Model -/

/-- the files of every partition, by its partition id -/
abbrev Disks := ℕ → Files

/-- from the end of a boot to the next power failure -/
structure Cycle where
  /-- the file that each `ramDisk_Read` of the boot takes first -/
  first : ℕ → Which
  ops : List Op
  /-- how many actions the `ramDisk_Write` that the saver stands before does, before the power fails -/
  cut : ℕ

/-- the size of the partition whose entry `_getIdx` finds -/
def imageSize (cfg : List RamNvConfig) (partId : ℕ) : ℕ :=
  match cfg.find? (·.partId = partId) with
  | some x => x.image_size.toNat
  | none => 0

def bootRead (cfg : List RamNvConfig) (disks : Disks) (first : ℕ → Which) (partId : ℕ) : Files × List UInt8 :=
  ramDiskRead (imageSize cfg partId) (disks partId) (first partId)

/-- `initBuf` over the files -/
def bootCtl (cfg : List RamNvConfig) (disks : Disks) (first : ℕ → Which) : RamNvCtl :=
  initBuf (fun partId => some (ofList (bootRead cfg disks first partId).2)) cfg

/-- the files after the reads of a boot, with their repairs -/
def bootDisks (cfg : List RamNvConfig) (disks : Disks) (first : ℕ → Which) : Disks := fun partId =>
  if partId ∈ cfg.map RamNvConfig.partId then (bootRead cfg disks first partId).1 else disks partId

/-- the files after one effect; what a `ramDisk_Write` leaves that fails is not modelled -/
def saveEff (c0 : RamNvCtl) (disks : Disks) : Eff → Disks
  | .disk id image true =>
    Function.update disks (c0.part id).partId (ramDiskWrite (disks (c0.part id).partId) image)
  | _ => disks

namespace Cycle

variable (cfg : List RamNvConfig) (disks : Disks) (s : Cycle)

def ctl : RamNvCtl := bootCtl cfg disks s.first

/-- the daemon after these steps of the two threads -/
def after (ops : List Op) : Daemon := run false (boot (s.ctl cfg disks)) ops

def last : Daemon := s.after cfg disks s.ops

/-- the files when the power fails, without what the saver is writing -/
def saved : Disks := (s.last cfg disks).hist.foldl (saveEff (s.ctl cfg disks)) (bootDisks cfg disks s.first)

/-- the files after the power failure -/
def step : Disks :=
  match (s.last cfg disks).saver with
  | .pass (.write id) =>
    let partId := ((s.ctl cfg disks).part id).partId
    Function.update (s.saved cfg disks) partId
      (ramDiskWriteCut (s.saved cfg disks partId) (toDiskImage (s.last cfg disks).c id) s.cut)
  | _ => s.saved cfg disks

/-- the requests that the packets of the run hold -/
def requests : Reader := reading (s.ctl cfg disks) false s.ops

/-- those of partition i that were accepted: they were copied to backup -/
def accepted (i : ℕ) : List (List Body) :=
  ((s.requests cfg disks).acc i).take ((commits (s.last cfg disks).hist).count i)

end Cycle

/-! A boot that is cut repairs a file in part. -/

/-- what part 2 of `ramDisk_Read` does to the files (`readSecond`) -/
def readSecondActs (size : ℕ) (f : Files) (first : Which) (ret2 : ℕ) : List (Act Which UInt8) :=
  match f first.other with
  | none =>
    let buf := fillFF size []
    if ret2 ≠ size then []
    else if ¬ chkNVEcc buf 0 then []
    else rewrite first (List.replicate RAMNV_SECT_SIZE 0 ++ buf)
  | some b =>
    let buf := fillFF size (dataBytes size b)
    if RAMNV_SECT_SIZE ≠ (headBytes b).length then []
    else if (dataBytes size b).length ≠ size then []
    else if ¬ chkNVEcc buf (headChecksum (headBytes b)) then []
    else rewrite first (headBytes b ++ buf)

/-- what `ramDisk_Read` does to the files -/
def readActs (size : ℕ) (f : Files) (first : Which) : List (Act Which UInt8) :=
  match f first with
  | none => readSecondActs size f first 0
  | some b =>
    if RAMNV_SECT_SIZE ≠ (headBytes b).length then readSecondActs size f first (dataBytes size b).length
    else if (dataBytes size b).length = size ∧ chkNVEcc (dataBytes size b) (headChecksum (headBytes b)) then []
    else readSecondActs size f first (dataBytes size b).length

/-- a power failure in `ramDisk_Read` after k actions on the files -/
def ramDiskReadCut (size : ℕ) (f : Files) (first : Which) (k : ℕ) : Files := exec f ((readActs size f first).take k)

inductive Power where
  | run (s : Cycle)
  /-- the power fails in the boot; k are the actions done on the files of each partition -/
  | bootCut (first : ℕ → Which) (k : ℕ → ℕ)

/-- the files after the power failure -/
def Power.step (cfg : List RamNvConfig) (disks : Disks) : Power → Disks
  | .run s => s.step cfg disks
  | .bootCut first k => fun partId =>
    if partId ∈ cfg.map RamNvConfig.partId then
      ramDiskReadCut (imageSize cfg partId) (disks partId) (first partId) (k partId)
    else disks partId

/-- the files after any number of power failures -/
def afterPower (cfg : List RamNvConfig) (disks : Disks) (ps : List Power) : Disks := ps.foldl (Power.step cfg) disks

/-- the saver has nothing left to do for partition i: no sector is dirty, and the last copy was written -/
def Settled (d : Daemon) (i : ℕ) : Prop := ifHasDirty d.c i = false ∧ d.saver ≠ .pass (.write i)

instance (d : Daemon) (i : ℕ) : Decidable (Settled d i) := by unfold Settled; infer_instance

/-- k requests are all that were accepted before the partition was settled -/
def Cycle.Durable (cfg : List RamNvConfig) (disks : Disks) (s : Cycle) (i k : ℕ) : Prop :=
  ∀ pre, pre <+: s.ops → Settled (s.after cfg disks pre) i → (commits (s.after cfg disks pre).hist).count i ≤ k

/-- a prefix of the requests that each run accepted, with the durable ones, one run after the other -/
inductive Kept (cfg : List RamNvConfig) (i : ℕ) : Disks → List Power → List (List Body) → Prop where
  | nil (disks : Disks) : Kept cfg i disks [] []
  | run (disks : Disks) (s : Cycle) (ps : List Power) (k : ℕ) (rs : List (List Body))
      (hk : k ≤ (s.accepted cfg disks i).length) (hd : s.Durable cfg disks i k)
      (h : Kept cfg i (s.step cfg disks) ps rs) :
      Kept cfg i disks (.run s :: ps) ((s.accepted cfg disks i).take k ++ rs)
  | bootCut (disks : Disks) (first : ℕ → Which) (k : ℕ → ℕ) (ps : List Power) (rs : List (List Body))
      (h : Kept cfg i (Power.step cfg disks (.bootCut first k)) ps rs) : Kept cfg i disks (.bootCut first k :: ps) rs

/-- every BODY has a sector and lies inside its partition, which the dirty table covers -/
def Reader.Covered (c0 : RamNvCtl) (r : Reader) : Prop :=
  ∀ x ∈ r.bodies, 1 ≤ x.2.2 ∧ x.2.1 + x.2.2 ≤ (c0.part x.1).sctNum ∧ (c0.part x.1).sctNum ≤ 1024

instance (c0 : RamNvCtl) (r : Reader) : Decidable (r.Covered c0) :=
  inferInstanceAs (Decidable (∀ x ∈ r.bodies, _ ∧ _ ∧ _))

/-- a configuration of different partitions of whole sectors -/
structure ConfigOk (cfg : List RamNvConfig) : Prop where
  ids : (cfg.map RamNvConfig.partId).Nodup
  nonzero : ∀ x ∈ cfg, x.partId ≠ 0
  sectors : ∀ x ∈ cfg, RAMNV_SECT_SIZE ∣ x.image_size.toNat

/-- no `ramDisk_Write` that fails -/
def Eff.Complete : Eff → Prop
  | .disk _ _ ok => ok = true
  | _ => True

instance : (e : Eff) → Decidable e.Complete
  | .disk _ _ ok => inferInstanceAs (Decidable (ok = true))
  | .read _ | .mark .. | .write .. | .backup _ | .restore _ | .event | .rsp _ => .isTrue trivial

/-- what partition i needs of a cycle: a boot that takes the backup first does not find two different valid images, BODY
ranges inside their partitions, no `ramDisk_Write` that fails, and no power failure while the backup is being written if
the origin is not valid -/
structure CycleOk (cfg : List RamNvConfig) (i : ℕ) (disks : Disks) (s : Cycle) : Prop where
  read : DualOk (imageSize cfg ((s.ctl cfg disks).part i).partId) ⟨disks ((s.ctl cfg disks).part i).partId, []⟩
    (.read (s.first ((s.ctl cfg disks).part i).partId))
  covered : (s.requests cfg disks).Covered (s.ctl cfg disks)
  complete : ∀ e ∈ (s.last cfg disks).hist, e.Complete
  cut : (s.last cfg disks).saver = .pass (.write i) →
    DualOk (imageSize cfg ((s.ctl cfg disks).part i).partId)
      ⟨s.saved cfg disks ((s.ctl cfg disks).part i).partId, []⟩ (.cut [] s.cut)

def PowerOk (cfg : List RamNvConfig) (i : ℕ) (disks : Disks) : Power → Prop
  | .run s => CycleOk cfg i disks s
  | .bootCut _ _ => True

/-! ## What a boot leaves -/

theorem initLoop_below {load : ℕ → Option (ℕ → UInt8)} {cfg : List RamNvConfig} {c : RamNvCtl} {j : ℕ}
    (h : j < c.partNum) : (initLoop load c cfg).part j = c.part j := by
  induction cfg generalizing c with
  | nil => rfl
  | cons x rest ih =>
    simp only [initLoop]
    split_ifs
    · rfl
    · cases load x.partId with
      | none => exact ih h
      | some img =>
        rw [ih (Nat.lt_succ_of_lt h)]
        exact Function.update_of_ne h.ne _ _

/-- the control block of an entry that was read -/
def readPart (x : RamNvConfig) (img : ℕ → UInt8) : PartCtrl :=
  ⟨x.partId, x.image_size.toNat / RAMNV_SECT_SIZE, ⟨img, fun _ => 0⟩, ⟨img, fun _ => 0⟩, ⟨img, fun _ => 0⟩⟩

/-- where every entry can be read, slot j is that of entry j -/
theorem initLoop_part {img : ℕ → ℕ → UInt8} {cfg : List RamNvConfig} (hcfg : ∀ x ∈ cfg, x.partId ≠ 0) (c : RamNvCtl)
    {j : ℕ} {x : RamNvConfig} (hx : cfg[j]? = some x) :
    (initLoop (fun p => some (img p)) c cfg).part (c.partNum + j) = readPart x (img x.partId) := by
  induction cfg generalizing c j with
  | nil => simp at hx
  | cons y rest ih =>
    simp only [initLoop, if_neg (hcfg y (by simp))]
    cases j with
    | zero =>
      obtain rfl : y = x := by simpa using hx
      rw [initLoop_below (by simp)]
      simp [readPart]
    | succ j =>
      have hnext := ih (fun z hz => hcfg z (by simp [hz])) ⟨c.partNum + 1, Function.update c.part c.partNum
        (readPart y (img y.partId))⟩ (by simpa using hx)
      have hj : c.partNum + (j + 1) = c.partNum + 1 + j := by omega
      rw [hj]
      exact hnext

theorem initLoop_above {img : ℕ → ℕ → UInt8} {cfg : List RamNvConfig} (hcfg : ∀ x ∈ cfg, x.partId ≠ 0) (c : RamNvCtl)
    {j : ℕ} (h : c.partNum + cfg.length ≤ j) : (initLoop (fun p => some (img p)) c cfg).part j = c.part j := by
  induction cfg generalizing c with
  | nil => rfl
  | cons y rest ih =>
    simp only [List.length_cons] at h
    simp only [initLoop, if_neg (hcfg y (by simp))]
    rw [ih (fun z hz => hcfg z (by simp [hz])) _ (by simp only; omega)]
    exact Function.update_of_ne (by omega) _ _

section Boot

variable {cfg : List RamNvConfig} {disks : Disks} {first : ℕ → Which} {i : ℕ} {x : RamNvConfig}

theorem bootCtl_part (hcfg : ConfigOk cfg) (hx : cfg[i]? = some x) :
    (bootCtl cfg disks first).part i = readPart x (ofList (bootRead cfg disks first x.partId).2) := by
  have h := @initLoop_part (fun p => ofList (bootRead cfg disks first p).2) cfg hcfg.nonzero
    ⟨0, fun _ => emptyPart⟩ i x hx
  rw [Nat.zero_add] at h
  exact h

/-- no other slot is of the same partition -/
theorem bootCtl_ids (hcfg : ConfigOk cfg) (hx : cfg[i]? = some x) {j : ℕ}
    (hj : ((bootCtl cfg disks first).part j).partId = x.partId) : j = i := by
  have hxm : x ∈ cfg := List.mem_of_getElem? hx
  by_cases hlt : j < cfg.length
  · have hy : cfg[j]? = some cfg[j] := List.getElem?_eq_getElem hlt
    rw [bootCtl_part hcfg hy] at hj
    have hmap : (cfg.map RamNvConfig.partId)[j]? = (cfg.map RamNvConfig.partId)[i]? := by
      rw [List.getElem?_map, List.getElem?_map, hy, hx]
      exact congrArg some hj
    exact (List.getElem?_inj (by simpa using hlt) hcfg.ids).1 hmap
  · have h := @initLoop_above (fun p => ofList (bootRead cfg disks first p).2) cfg hcfg.nonzero
      ⟨0, fun _ => emptyPart⟩ j (by simp only; omega)
    rw [bootCtl, initBuf, h] at hj
    exact absurd hj.symm (hcfg.nonzero x hxm)

theorem imageSize_of_mem (hcfg : ConfigOk cfg) (hx : x ∈ cfg) : imageSize cfg x.partId = x.image_size.toNat := by
  unfold imageSize
  cases hf : cfg.find? (·.partId = x.partId) with
  | none => exact absurd (List.find?_eq_none.1 hf x hx) (by simp)
  | some y =>
    have hid : y.partId = x.partId := by simpa using List.find?_some hf
    have hxy : y = x := List.inj_on_of_nodup_map hcfg.ids (List.mem_of_find?_eq_some hf) hx hid
    rw [hxy]

end Boot

/-! ## Reads -/

theorem delivers_length (size : ℕ) (b : Option (List UInt8)) : (delivers size b).length = size := by
  cases b with
  | none => simp [delivers, fillFF]
  | some b => simp [delivers, fillFF, dataBytes]

/-- a read fills the buffer -/
theorem cells_ofList_read (size : ℕ) (f : Files) (first : Which) :
    cells (ofList (ramDiskRead size f first).2) 0 size = (ramDiskRead size f first).2 := by
  have hlen : (ramDiskRead size f first).2.length = size := by
    rw [ramDiskRead_data]
    split_ifs <;> exact delivers_length _ _
  exact cells_eq_list hlen fun i hi => ofList_get hi

/-- a read that takes the origin first leaves it valid -/
theorem origin_repaired {size : ℕ} {f : Files} {allowed : List (List UInt8)} (h : Dual size ⟨f, allowed⟩) :
    valid size ((ramDiskRead size f .origin).1 .origin) = true := by
  rcases h with ⟨hv, -⟩ | ⟨hv, hb, -⟩
  · rw [ramDiskRead_valid hv]
    exact hv
  · obtain ⟨b, hbak⟩ : ∃ b, f .bak = some b := Option.isSome_iff_exists.1 (by cases hx : f .bak <;> simp_all [valid])
    simp only [hbak] at hb
    rw [ramDiskRead_second hv hbak hb]
    simp only [Function.update_self]
    exact (repaired_valid hb).1

/-- what a `ramDisk_Read` or a cut `ramDisk_Write` needs does not depend on the images allowed -/
theorem DualOk.allowed {size : ℕ} {f : Files} {a : List (List UInt8)} {o : FsOp} (h : DualOk size ⟨f, a⟩ o)
    (b : List (List UInt8)) : DualOk size ⟨f, b⟩ o := by
  cases o with
  | read first => cases first <;> exact h
  | _ => exact h

/-! ## A power failure in a boot -/

theorem readSecond_exec (size : ℕ) (f : Files) (first : Which) (ret2 : ℕ) :
    (readSecond size f first ret2).1 = exec f (readSecondActs size f first ret2) := by
  unfold readSecond readSecondActs
  cases f first.other <;> simp only <;> split_ifs <;> simp only [exec, List.foldl_nil]

/-- the actions of a read are what it does to the files -/
theorem ramDiskRead_exec (size : ℕ) (f : Files) (first : Which) :
    (ramDiskRead size f first).1 = exec f (readActs size f first) := by
  unfold ramDiskRead readActs
  cases f first with
  | none => exact readSecond_exec ..
  | some b =>
    simp only
    split_ifs
    · exact readSecond_exec ..
    · rfl
    · exact readSecond_exec ..

theorem readActs_valid {size : ℕ} {f : Files} {first : Which} (h : valid size (f first) = true) :
    readActs size f first = [] := by
  unfold readActs
  cases hb : f first with
  | none => rw [hb] at h; exact absurd h (by simp [valid])
  | some b =>
    rw [hb] at h
    obtain ⟨h1, h2, h3⟩ := valid_some.1 h
    simp [h1, h2, h3]

theorem readActs_second {size : ℕ} {f : Files} {first : Which} {b : List UInt8} (h : valid size (f first) = false)
    (hb : f first.other = some b) (hv : valid size (some b) = true) :
    readActs size f first = rewrite first (repaired size b) := by
  obtain ⟨h1, h2, h3⟩ := valid_some.1 hv
  have hsecond : ∀ ret2, readSecondActs size f first ret2 = rewrite first (repaired size b) := by
    intro ret2
    unfold readSecondActs
    simp [hb, h1, h2, fillFF_full h2, h3, repaired]
  unfold readActs
  cases hf : f first with
  | none => exact hsecond 0
  | some a =>
    rw [hf] at h
    simp only
    split_ifs with h4 h5
    · exact hsecond _
    · rw [not_ne_iff] at h4
      simp [valid, ← h4, h5.1, h5.2] at h
    · exact hsecond _

/-- a part of a repaired file is valid only if it is all of it -/
theorem repaired_take {size : ℕ} {b : List UInt8} (hv : valid size (some b) = true) {n : ℕ}
    (h : valid size (some ((repaired size b).take n)) = true) : (repaired size b).take n = repaired size b := by
  obtain ⟨h1, h2, -⟩ := valid_some.1 h
  obtain ⟨h3, h4, -⟩ := valid_some.1 hv
  simp only [headBytes, dataBytes, List.length_take, List.length_drop] at h1 h2 h3 h4
  refine List.take_of_length_le ?_
  simp only [repaired, headBytes, dataBytes, List.length_append, List.length_take, List.length_drop] at h1 h2 ⊢
  omega

/-- a power failure in a read leaves the images allowed that were so before -/
theorem dual_readCut {size : ℕ} {f : Files} {allowed : List (List UInt8)} (h : Dual size ⟨f, allowed⟩) (first : Which)
    (k : ℕ) : Dual size ⟨ramDiskReadCut size f first k, allowed⟩ := by
  by_cases hv : valid size (f first) = true
  · rw [ramDiskReadCut, readActs_valid hv, List.take_nil]
    exact h
  have hv : valid size (f first) = false := by simpa using hv
  have hother : valid size (f first.other) = true ∧ delivers size (f first.other) ∈ allowed := by
    rcases h with ⟨ho, hm⟩ | ⟨ho, hb, hm⟩ <;> cases first <;> simp_all [Which.other]
  obtain ⟨b, hb⟩ : ∃ b, f first.other = some b := Option.isSome_iff_exists.1 (by
    cases hx : f first.other <;> simp_all [valid])
  rw [hb] at hother
  rw [ramDiskReadCut, readActs_second hv hb hother.1]
  cases k with
  | zero => exact h
  | succ k =>
    rw [exec_rewrite_take]
    cases first with
    | origin =>
      by_cases hcut : valid size (some ((repaired size b).take k)) = true
      · left
        simp only [Function.update_self, repaired_take hother.1 hcut]
        obtain ⟨hr1, hr2⟩ := repaired_valid hother.1
        exact ⟨hr1, by rw [hr2]; exact hother.2⟩
      · right
        have hbak : f .bak = some b := hb
        refine ⟨by simpa using hcut, ?_, ?_⟩ <;> simp [hbak, hother]
    | bak =>
      left
      have horg : f .origin = some b := hb
      refine ⟨?_, ?_⟩ <;> simp [horg, hother]

end SprdDevice.NvItem
