/-
The two image files of a partition over whole runs: writes that complete or are cut by a crash at any point, and reads
in either order.

`allowed` are the images a read may return: the one returned or written last, and those whose writes were cut since. The
order of the writes (backup, then origin) leaves one of the files whole at every crash, and a read that takes the origin
first, as the source's note says, repairs it. A read that takes the backup first does not look at the origin when the
backup passes, so that an origin that was cut, or is older, stays as it is.

Results:
- `dual_step`: the invariant `Dual`, that the origin is valid with an allowed image, or else the backup is, is kept by
  every step that meets `DualOk`;
- `dual_image_crash_safe`: runs whose steps meet `DualOk` are crash safe, and after a step that does not there is a
  continuation that is not; `dual_image_lost`: a run that loses both files;
- `stable_reads`: exactly which pairs of files give the same image in two reads, whatever the orders;
  `unstable_reads`: a pair that does not.
-/
import Mathlib.Tactic
import SprdDevice.Lib.Run
import SprdDevice.NvItem.Fs

namespace SprdDevice.NvItem

open SprdDevice.Memory SprdDevice.Word SprdDevice.Crash SprdDevice.Run

/-! ## Runs -/

inductive FsOp where
  /-- a `ramDisk_Write` that completes -/
  | write (img : List UInt8)
  /-- a `ramDisk_Write` that is cut after k actions on the files -/
  | cut (img : List UInt8) (k : ℕ)
  /-- a `ramDisk_Read` that takes this file first -/
  | read (first : Which)
deriving DecidableEq, Repr

structure Disk where
  f : Files
  allowed : List (List UInt8)

def FsOp.step (size : ℕ) (d : Disk) : FsOp → Disk
  | .write img => ⟨ramDiskWrite d.f img, [img]⟩
  | .cut img k => ⟨ramDiskWriteCut d.f img k, img :: d.allowed⟩
  | .read first => ⟨(ramDiskRead size d.f first).1, [(ramDiskRead size d.f first).2]⟩

/-- the images are images of the partition -/
def FsOp.Sized (size : ℕ) : FsOp → Prop
  | .write img => img.length = size
  | .cut img _ => img.length = size
  | .read _ => True

instance (size : ℕ) (o : FsOp) : Decidable (o.Sized size) := by cases o <;> unfold FsOp.Sized <;> infer_instance

/-- a read returns an allowed image -/
def ReturnsAllowed (size : ℕ) (d : Disk) : FsOp → Prop
  | .read first => (ramDiskRead size d.f first).2 ∈ d.allowed
  | _ => True

instance (size : ℕ) (d : Disk) (o : FsOp) : Decidable (ReturnsAllowed size d o) := by
  cases o <;> unfold ReturnsAllowed <;> infer_instance

/-- one of the two files is valid -/
def Usable (size : ℕ) (f : Files) : Prop := valid size (f .origin) = true ∨ valid size (f .bak) = true

/-- every read returns an allowed image and both files are never invalid -/
def CrashSafe (size : ℕ) (d : Disk) (ops : List FsOp) : Prop :=
  Along (FsOp.step size) (ReturnsAllowed size) d ops ∧
    ∀ pre, pre <+: ops → Usable size (pre.foldl (FsOp.step size) d).f

/-- a read that takes the backup first does not find two different valid images, and a write is not cut while the
backup is being written if the origin is not valid -/
def DualOk (size : ℕ) (d : Disk) : FsOp → Prop
  | .read .bak => valid size (d.f .origin) = true → valid size (d.f .bak) = true →
      delivers size (d.f .bak) = delivers size (d.f .origin)
  | .cut _ k => valid size (d.f .origin) = true ∨ k = 0 ∨ RAMNV_SECT_SIZE + size < k
  | _ => True

instance (size : ℕ) (d : Disk) (o : FsOp) : Decidable (DualOk size d o) := by
  cases o with
  | read first => cases first <;> unfold DualOk <;> infer_instance
  | _ => unfold DualOk; infer_instance

/-! ## The invariant -/

/-- the origin is valid with an allowed image, or else the backup is -/
def Dual (size : ℕ) (d : Disk) : Prop :=
  (valid size (d.f .origin) = true ∧ delivers size (d.f .origin) ∈ d.allowed) ∨
    (valid size (d.f .origin) = false ∧ valid size (d.f .bak) = true ∧ delivers size (d.f .bak) ∈ d.allowed)

theorem Dual.usable {size : ℕ} {d : Disk} (h : Dual size d) : Usable size d.f := by
  rcases h with h | h
  · exact Or.inl h.1
  · exact Or.inr h.2.1

/-- a crash in `ramDisk_Write` -/
theorem ramDiskWriteCut_eq (f : Files) (img : List UInt8) (k : ℕ) :
    ramDiskWriteCut f img k =
      if k = 0 then f
      else if k ≤ RAMNV_SECT_SIZE + img.length + 1 then
        Function.update f .bak (some ((nvHeader img ++ img).take (k - 1)))
      else Function.update (Function.update f .bak (some (nvHeader img ++ img))) .origin
        (some ((nvHeader img ++ img).take (k - (RAMNV_SECT_SIZE + img.length + 2)))) := by
  simp only [ramDiskWriteCut, writeActs, exec_two_take, List.length_append, nvHeader_length]

/-- a crash while the backup is being written -/
theorem ramDiskWriteCut_bak (f : Files) {img : List UInt8} {k : ℕ} (h : k ≤ RAMNV_SECT_SIZE + img.length) :
    ramDiskWriteCut f img (k + 1) = Function.update f .bak (some ((nvHeader img ++ img).take k)) := by
  rw [ramDiskWriteCut_eq, if_neg (Nat.succ_ne_zero k), if_pos (by omega)]
  rfl

/-- a crash while the origin is being written -/
theorem ramDiskWriteCut_origin (f : Files) {img : List UInt8} {k : ℕ} (h : RAMNV_SECT_SIZE + img.length + 2 ≤ k) :
    ramDiskWriteCut f img k = Function.update (Function.update f .bak (some (nvHeader img ++ img))) .origin
      (some ((nvHeader img ++ img).take (k - (RAMNV_SECT_SIZE + img.length + 2)))) := by
  rw [ramDiskWriteCut_eq, if_neg (by omega), if_neg (by omega)]

theorem ramDiskWrite_files (f : Files) (img : List UInt8) (w : Which) :
    ramDiskWrite f img w = some (nvHeader img ++ img) := by
  cases w <;> simp [ramDiskWrite, writeActs, exec_append, exec_rewrite, Function.update]

/-- a file that holds a part of what was written is valid only if it is all of it -/
theorem taken_valid {img : List UInt8} {n : ℕ} (h : valid img.length (some ((nvHeader img ++ img).take n)) = true) :
    delivers img.length (some ((nvHeader img ++ img).take n)) = img := by
  have hn : ¬ n < RAMNV_SECT_SIZE + img.length := fun hlt => by
    rw [invalid_of_take img hlt] at h; exact absurd h (by decide)
  rw [List.take_of_length_le (by simp only [List.length_append, nvHeader_length]; omega)]
  exact (valid_image img).2

theorem dual_cut {size : ℕ} {d : Disk} {img : List UInt8} {k : ℕ} (h : Dual size d) (hs : img.length = size)
    (hok : DualOk size d (.cut img k)) : Dual size (FsOp.step size d (.cut img k)) := by
  subst hs
  simp only [FsOp.step, ramDiskWriteCut_eq]
  split_ifs with h0 h1
  · -- nothing was written
    exact h.imp (fun hx => ⟨hx.1, List.mem_cons_of_mem _ hx.2⟩) fun hx => ⟨hx.1, hx.2.1, List.mem_cons_of_mem _ hx.2.2⟩
  · -- the backup was being written
    rcases h with hx | hx
    · exact Or.inl ⟨by simpa using hx.1, by simpa using Or.inr hx.2⟩
    · have hk : RAMNV_SECT_SIZE + img.length < k := by
        rcases hok with ho | ho | ho
        · rw [hx.1] at ho; exact absurd ho (by decide)
        · exact absurd ho h0
        · exact ho
      have hfull : (nvHeader img ++ img).take (k - 1) = nvHeader img ++ img :=
        List.take_of_length_le (by simp only [List.length_append, nvHeader_length]; omega)
      right
      simp only [hfull, Function.update_self, ne_eq, reduceCtorEq, not_false_eq_true, Function.update_of_ne,
        (valid_image img).1, (valid_image img).2, List.mem_cons_self, and_true]
      exact hx.1
  · -- the backup is whole, and the origin was being written
    simp only [Dual, Function.update_self, ne_eq, reduceCtorEq, not_false_eq_true, Function.update_of_ne]
    by_cases hv : valid img.length (some ((nvHeader img ++ img).take (k - (RAMNV_SECT_SIZE + img.length + 2)))) = true
    · exact Or.inl ⟨hv, by rw [taken_valid hv]; exact List.mem_cons_self⟩
    · exact Or.inr ⟨by simpa using hv, (valid_image img).1, by rw [(valid_image img).2]; exact List.mem_cons_self⟩

theorem dual_read {size : ℕ} {d : Disk} {first : Which} (h : Dual size d) (hok : DualOk size d (.read first)) :
    ReturnsAllowed size d (.read first) ∧ Dual size (FsOp.step size d (.read first)) := by
  simp only [ReturnsAllowed, FsOp.step]
  cases first with
  | origin =>
    rcases h with ⟨hv, hm⟩ | ⟨hv, hb, hm⟩
    · rw [ramDiskRead_valid hv]
      exact ⟨hm, Or.inl ⟨hv, List.mem_singleton_self _⟩⟩
    · -- the origin is repaired from the backup
      obtain ⟨b, hbak⟩ : ∃ b, d.f .bak = some b := Option.isSome_iff_exists.1 (by
        cases hx : d.f .bak <;> simp_all [valid])
      rw [hbak] at hb hm
      obtain ⟨h1, h2⟩ := repaired_valid hb
      rw [ramDiskRead_second hv hbak hb]
      exact ⟨hm, Or.inl (by simp [h1, h2])⟩
  | bak =>
    by_cases hbv : valid size (d.f .bak) = true
    · rw [ramDiskRead_valid hbv]
      rcases h with ⟨hv, hm⟩ | ⟨hv, hb, hm⟩
      · rw [hok hv hbv]
        exact ⟨hm, Or.inl ⟨hv, List.mem_singleton_self _⟩⟩
      · exact ⟨hm, Or.inr ⟨hv, hb, List.mem_singleton_self _⟩⟩
    · -- the backup is repaired from the origin
      rcases h with ⟨hv, hm⟩ | ⟨hv, hb, hm⟩
      · obtain ⟨b, horg⟩ : ∃ b, d.f .origin = some b := Option.isSome_iff_exists.1 (by
          cases hx : d.f .origin <;> simp_all [valid])
        rw [horg] at hv hm
        rw [ramDiskRead_second (by simpa using hbv) horg hv]
        exact ⟨hm, Or.inl (by simp [horg, hv])⟩
      · exact absurd hb hbv

theorem dual_step {size : ℕ} (d : Disk) (o : FsOp) (h : Dual size d) (hok : DualOk size d o) (hs : o.Sized size) :
    ReturnsAllowed size d o ∧ Dual size (FsOp.step size d o) := by
  cases o with
  | write img =>
    obtain rfl : img.length = size := hs
    refine ⟨trivial, Or.inl ?_⟩
    simp only [FsOp.step, ramDiskWrite_files]
    exact ⟨(valid_image img).1, by rw [(valid_image img).2]; exact List.mem_singleton_self _⟩
  | cut img k => exact ⟨trivial, dual_cut h hs hok⟩
  | read first => exact dual_read h hok

/-! ## Crash safety -/

theorem crash_safe_of_dualOk {size : ℕ} {d : Disk} {ops : List FsOp} (h : Dual size d)
    (hsz : ∀ o ∈ ops, o.Sized size) (hok : Along (FsOp.step size) (DualOk size) d ops) : CrashSafe size d ops := by
  have hq := along_and hok (along_forall (P := FsOp.Sized size) hsz)
  refine ⟨along_of_inv (Dual size) (fun d o hd hq => dual_step d o hd hq.1 hq.2) h hq, ?_⟩
  rintro pre ⟨suf, rfl⟩
  exact (inv_of_along (fun d o hd hq => (dual_step d o hd hq.1 hq.2).2) h ((along_append d pre suf).1 hq).1).usable

/-- a step that does not meet the condition is a crash that leaves both files invalid, or a read after which a read in
the other order returns another image -/
theorem not_crash_safe {size : ℕ} {d : Disk} {o : FsOp} (hs : o.Sized size) (hok : ¬ DualOk size d o) :
    ¬ Usable size (FsOp.step size d o).f ∨ ¬ ReturnsAllowed size (FsOp.step size d o) (.read .origin) := by
  cases o with
  | write img => exact absurd trivial hok
  | cut img k =>
    obtain rfl : img.length = size := hs
    simp only [DualOk, not_or] at hok
    obtain ⟨horg, h0, hk⟩ := hok
    left
    have hle : k ≤ RAMNV_SECT_SIZE + img.length + 1 := by omega
    simp only [Usable, FsOp.step, ramDiskWriteCut_eq, if_neg h0, if_pos hle, Function.update_self, ne_eq, reduceCtorEq,
      not_false_eq_true, Function.update_of_ne,
      invalid_of_take img (show k - 1 < RAMNV_SECT_SIZE + img.length by omega)]
    simpa using horg
  | read first =>
    cases first with
    | origin => exact absurd trivial hok
    | bak =>
      simp only [DualOk, Classical.not_imp] at hok
      obtain ⟨horg, hbak, hne⟩ := hok
      right
      simp only [ReturnsAllowed, FsOp.step, ramDiskRead_valid hbak, ramDiskRead_valid horg, List.mem_singleton]
      exact fun he => hne he.symm

/-- a run that goes wrong in its last two steps -/
theorem not_crash_safe_append {size : ℕ} {d : Disk} {pre : List FsOp} {o : FsOp}
    (h : ¬ Usable size (FsOp.step size (pre.foldl (FsOp.step size) d) o).f ∨
      ¬ ReturnsAllowed size (FsOp.step size (pre.foldl (FsOp.step size) d) o) (.read .origin)) :
    ¬ CrashSafe size d (pre ++ [o, .read .origin]) := by
  rintro ⟨hret, huse⟩
  rcases h with h | h
  · have hp : pre ++ [o] <+: pre ++ [o, .read .origin] := ⟨[.read .origin], by simp⟩
    have := huse _ hp
    rw [List.foldl_append] at this
    exact h this
  · exact h ((along_append d pre _).1 hret).2.2.1

/-- **Crash safety of the dual image.** From two files that hold the same valid image, for every sequence of writes
(complete, or cut at any point) and reads: if every read that takes the backup first finds no two different valid
images, and no write is cut while the backup is being written and the origin is not valid, then every read returns an
allowed image and one of the files is always valid. After a step that does not meet this, there are steps after which it
is not so. -/
theorem dual_image_crash_safe (size : ℕ) (b : List UInt8) (ops : List FsOp) (hb : valid size (some b) = true)
    (hsz : ∀ o ∈ ops, o.Sized size) :
    (Along (FsOp.step size) (DualOk size) ⟨fun _ => some b, [delivers size (some b)]⟩ ops →
      CrashSafe size ⟨fun _ => some b, [delivers size (some b)]⟩ ops) ∧
    (¬ Along (FsOp.step size) (DualOk size) ⟨fun _ => some b, [delivers size (some b)]⟩ ops →
      ∃ pre o, pre ++ [o] <+: ops ∧ ¬ CrashSafe size ⟨fun _ => some b, [delivers size (some b)]⟩
        (pre ++ [o, .read .origin])) := by
  constructor
  · exact crash_safe_of_dualOk (Or.inl ⟨hb, List.mem_singleton_self _⟩) hsz
  · intro hn
    obtain ⟨pre, o, suf, rfl, -, hbad⟩ := exists_of_not_along hn
    exact ⟨pre, o, ⟨suf, by simp⟩, not_crash_safe_append (not_crash_safe (hsz o (by simp)) hbad)⟩

/-- the image file of a partition of two bytes -/
def imageFile (img : List UInt8) : List UInt8 := nvHeader img ++ img

def twoByteDisk : Disk := ⟨fun _ => some (imageFile [1, 1]), [delivers 2 (some (imageFile [1, 1]))]⟩

theorem imageFile_valid (a b : UInt8) :
    valid 2 (some (imageFile [a, b])) = true ∧ delivers 2 (some (imageFile [a, b])) = [a, b] := valid_image [a, b]

theorem imageFile_cut (a b : UInt8) {n : ℕ} (h : n < 514) : valid 2 (some ((imageFile [a, b]).take n)) = false :=
  invalid_of_take [a, b] h

/-- the files after a write that was cut while the origin was being written -/
theorem torn_origin : ramDiskWriteCut (fun _ => some (imageFile [1, 1])) [2, 2] 600 =
    Function.update (Function.update (fun _ => some (imageFile [1, 1])) .bak (some (imageFile [2, 2]))) .origin
      (some ((imageFile [2, 2]).take 84)) := ramDiskWriteCut_origin _ (by decide)

/-- a crash in the write of a second image while the backup is being written -/
theorem torn_bak (f : Files) : ramDiskWriteCut f [3, 3] 100 =
    Function.update f .bak (some ((imageFile [3, 3]).take 99)) := ramDiskWriteCut_bak f (by decide)

/-- a write is cut while the origin is being written; the origin is repaired by the next read; the next write is cut
while the backup is being written -/
theorem dual_image_crash_safe_run :
    CrashSafe 2 twoByteDisk [.cut [2, 2] 600, .read .origin, .cut [3, 3] 100, .read .bak] := by
  have hv := (imageFile_valid 1 1).1
  have hsz : ∀ o ∈ [FsOp.cut [2, 2] 600, .read .origin, .cut [3, 3] 100, .read .bak], o.Sized 2 := by decide
  apply (dual_image_crash_safe 2 (imageFile [1, 1]) _ hv hsz).1
  refine ⟨Or.inl hv, trivial, Or.inl ?_, ?_, trivial⟩
  · dsimp only [FsOp.step]
    rw [torn_origin, ramDiskRead_second (imageFile_cut 2 2 (by decide)) rfl (imageFile_valid 2 2).1]
    exact (repaired_valid (imageFile_valid 2 2).1).1
  · intro _ hb
    dsimp only [FsOp.step] at hb
    rw [torn_bak, Function.update_self, imageFile_cut 3 3 (by decide)] at hb
    exact absurd hb (by decide)

/-- **Both files lost**: the same run with a read that takes the backup first, which does not repair the origin -/
theorem dual_image_lost :
    ¬ CrashSafe 2 twoByteDisk [.cut [2, 2] 600, .read .bak, .cut [3, 3] 100, .read .bak] := by
  rintro ⟨-, huse⟩
  have hu := huse [.cut [2, 2] 600, .read .bak, .cut [3, 3] 100] ⟨[.read .bak], rfl⟩
  have hbak : valid 2 (ramDiskWriteCut (fun _ => some (imageFile [1, 1])) [2, 2] 600 .bak) = true := by
    rw [torn_origin]
    exact (imageFile_valid 2 2).1
  simp only [List.foldl, FsOp.step, twoByteDisk, ramDiskRead_valid hbak] at hu
  rw [torn_origin, torn_bak] at hu
  rcases hu with hu | hu
  · rw [Function.update_of_ne (by decide), Function.update_self, imageFile_cut 2 2 (by decide)] at hu
    exact absurd hu (by decide)
  · rw [Function.update_self, imageFile_cut 3 3 (by decide)] at hu
    exact absurd hu (by decide)

/-! ## Stable reads -/

/-- two reads in a row deliver the same image, whatever their orders -/
def Stable (size : ℕ) (f : Files) : Prop :=
  ∀ first second, (ramDiskRead size f first).2 = (ramDiskRead size (ramDiskRead size f first).1 second).2

theorem delivers_fill (size : ℕ) :
    delivers size (some (List.replicate RAMNV_SECT_SIZE 0 ++ fillFF size [])) = fillFF size [] := by
  have hd : dataBytes size (List.replicate RAMNV_SECT_SIZE 0 ++ fillFF size []) = fillFF size [] := by
    simp [dataBytes, fillFF]
  rw [delivers, hd]
  simp [fillFF]

/-- a second file that is there and does not pass repairs nothing -/
theorem ramDiskRead_keeps {size : ℕ} {f : Files} {first : Which} {b : List UInt8} (h : valid size (f first) = false)
    (hb : f first.other = some b) (hv : valid size (some b) = false) : (ramDiskRead size f first).1 = f := by
  obtain ⟨ret2, hr⟩ := ramDiskRead_invalid h
  rw [hr]
  simp only [readSecond, hb]
  split_ifs with h1 h2 h3
  · rfl
  · rfl
  · rw [not_ne_iff] at h1 h2
    rw [fillFF_full h2] at h3
    rw [valid_some.2 ⟨h1.symm, h2, h3⟩] at hv
    exact absurd hv (by decide)
  · rfl

/-- the files after a read: as before, or the first one rewritten to deliver what the second does -/
theorem ramDiskRead_files (size : ℕ) (f : Files) (first : Which) :
    (ramDiskRead size f first).1 = f ∨ ∃ b, (ramDiskRead size f first).1 = Function.update f first (some b) ∧
      delivers size (some b) = delivers size (f first.other) := by
  by_cases hv : valid size (f first) = true
  · exact Or.inl (by rw [ramDiskRead_valid hv])
  have hv : valid size (f first) = false := by simpa using hv
  cases hb : f first.other with
  | none =>
    obtain ⟨ret2, hr⟩ := ramDiskRead_invalid hv
    rw [hr]
    simp only [readSecond, hb]
    split_ifs
    · exact Or.inl rfl
    · refine Or.inr ⟨List.replicate RAMNV_SECT_SIZE 0 ++ fillFF size [], ?_, delivers_fill size⟩
      simp only [exec_rewrite]
    · exact Or.inl rfl
  | some b =>
    by_cases hvb : valid size (some b) = true
    · rw [ramDiskRead_second hv hb hvb]
      exact Or.inr ⟨_, rfl, (repaired_valid hvb).2⟩
    · exact Or.inl (ramDiskRead_keeps hv hb (by simpa using hvb))

/-- files that deliver the same image go on doing so -/
theorem same_kept {size : ℕ} {f : Files} {img : List UInt8} (h : ∀ w, delivers size (f w) = img) (first : Which) :
    (∀ w, delivers size ((ramDiskRead size f first).1 w) = img) ∧ (ramDiskRead size f first).2 = img := by
  constructor
  · intro w
    rcases ramDiskRead_files size f first with hf | ⟨b, hf, hb⟩
    · rw [hf]; exact h w
    · rw [hf]
      by_cases hw : w = first
      · subst hw; rw [Function.update_self, hb]; exact h _
      · rw [Function.update_of_ne hw]; exact h w
  · rw [ramDiskRead_data]
    split_ifs
    · exact h first
    · exact h first.other

theorem other_other (w : Which) : w.other.other = w := by cases w <;> rfl

theorem eq_or_other (w v : Which) : v = w ∨ v = w.other := by cases w <;> cases v <;> simp [Which.other]

/-- where exactly one file is valid, every read delivers its image -/
theorem one_valid {size : ℕ} {f : Files} {w : Which} (hw : valid size (f w) = true)
    (ho : valid size (f w.other) = false) (first : Which) :
    (ramDiskRead size f first).2 = delivers size (f w) ∧
      ((ramDiskRead size f first).1 = f ∨
        ∀ v, delivers size ((ramDiskRead size f first).1 v) = delivers size (f w)) := by
  rcases eq_or_other w first with rfl | rfl
  · rw [ramDiskRead_valid hw]
    exact ⟨rfl, Or.inl rfl⟩
  · obtain ⟨b, hb⟩ : ∃ b, f w = some b := Option.isSome_iff_exists.1 (by cases hx : f w <;> simp_all [valid])
    rw [hb] at hw
    rw [ramDiskRead_second ho (by rw [other_other]; exact hb) hw, hb]
    refine ⟨rfl, Or.inr fun v => ?_⟩
    rcases eq_or_other w v with rfl | rfl
    · have hne : v ≠ v.other := by cases v <;> simp [Which.other]
      simp only [Function.update_of_ne hne, hb]
    · simp only [Function.update_self]
      exact (repaired_valid hw).2

theorem stable_of_one_valid {size : ℕ} {f : Files} {w : Which} (hw : valid size (f w) = true)
    (ho : valid size (f w.other) = false) : Stable size f := by
  intro first second
  obtain ⟨h1, h2⟩ := one_valid hw ho first
  rcases h2 with h2 | h2
  · rw [h1, h2]
    exact (one_valid hw ho second).1.symm
  · rw [h1]
    exact (same_kept h2 second).2.symm

/-- where the files are both valid or both not, and one order leaves them as they are, the two orders deliver different
images -/
theorem delivers_eq_of_stable {size : ℕ} {f : Files} (h : Stable size f)
    (hv : valid size (f .origin) = valid size (f .bak)) : delivers size (f .origin) = delivers size (f .bak) := by
  by_cases ho : valid size (f .origin) = true
  · have hb : valid size (f .bak) = true := hv ▸ ho
    have hx := h .origin .bak
    rwa [ramDiskRead_valid ho, ramDiskRead_valid hb] at hx
  · -- neither is valid: a read changes the files only when the second one is missing
    have hb : valid size (f .bak) = false := by rw [← hv]; simpa using ho
    have key : ∀ first, (ramDiskRead size f first).1 = f → delivers size (f .origin) = delivers size (f .bak) := by
      intro first hf
      have hx := h first first.other
      rw [hf, ramDiskRead_data, ramDiskRead_data, other_other] at hx
      cases first <;> simpa [Which.other, ho, hb, eq_comm] using hx
    cases hbak : f .bak with
    | some b =>
      rw [hbak] at hb
      have := key .origin (ramDiskRead_keeps (by simpa using ho) hbak hb)
      rwa [hbak] at this
    | none =>
      cases horg : f .origin with
      | none => rfl
      | some b =>
        rw [horg] at ho
        have := key .bak (ramDiskRead_keeps hb horg (by simpa using ho))
        rwa [horg, hbak] at this

/-- **Stable reads.** For every pair of image files, missing, short, corrupt or valid: two reads in a row deliver the
same image whatever `rand` returns in each if and only if exactly one of the files is valid, or both deliver the same
bytes (those a file does not have as 0xFF). -/
theorem stable_reads (size : ℕ) (f : Files) :
    Stable size f ↔
      valid size (f .origin) ≠ valid size (f .bak) ∨ delivers size (f .origin) = delivers size (f .bak) := by
  constructor
  · intro h
    by_cases hv : valid size (f .origin) = valid size (f .bak)
    · exact Or.inr (delivers_eq_of_stable h hv)
    · exact Or.inl hv
  · rintro (hv | hd)
    · by_cases ho : valid size (f .origin) = true
      · exact stable_of_one_valid ho (by simpa [ho, Which.other] using hv)
      · have ho : valid size (f .origin) = false := by simpa using ho
        exact stable_of_one_valid (w := .bak) (by simpa [ho] using hv) ho
    · intro first second
      have hsame : ∀ w, delivers size (f w) = delivers size (f .origin) := by
        intro w
        cases w with
        | origin => rfl
        | bak => exact hd.symm
      obtain ⟨h1, h2⟩ := same_kept hsame first
      rw [h2, (same_kept h1 second).2]

/-- **An unstable pair**: the files after a write that was cut between the backup and the origin -/
theorem unstable_reads : ¬ Stable 2 (ramDiskWriteCut (fun _ => some (imageFile [1, 1])) [2, 2] 515) := by
  intro h
  have hfull : (nvHeader [2, 2] ++ [2, 2]).take 514 = imageFile [2, 2] :=
    List.take_of_length_le (by rw [List.length_append, nvHeader_length]; decide)
  rw [ramDiskWriteCut_bak (k := 514) _ (by decide), hfull] at h
  have hd := delivers_eq_of_stable h ((imageFile_valid 1 1).1.trans (imageFile_valid 2 2).1.symm)
  have hsame : ([1, 1] : List UInt8) = [2, 2] := by
    calc [1, 1] = delivers 2 (some (imageFile [1, 1])) := (imageFile_valid 1 1).2.symm
      _ = delivers 2 (some (imageFile [2, 2])) := hd
      _ = [2, 2] := (imageFile_valid 2 2).2
  exact absurd hsame (by decide)

end SprdDevice.NvItem
