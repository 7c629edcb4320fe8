/-
What `ramDisk_Read` trusts (`nvitem_fs.c`), for any contents of the two files and either order.

A buffer that is neither verified nor blank is delivered when neither file passes and the second has bytes other than
0xFF. And a missing second file leaves the result of the first file's read in `ret2`: where a blank image has checksum 0,
as it has up to 128 KiB, the blank buffer passes against the zeroed header and is written over the first file.

Results: `blank_checksum` and `trusts_verified_iff`.
-/
import Mathlib.Tactic
import SprdDevice.NvItem.DualImage

namespace SprdDevice.NvItem

open SprdDevice.Crash

/-! ## Blank images -/

def blank (size : ℕ) : List UInt8 := List.replicate size 0xFF

theorem fillFF_nil (size : ℕ) : fillFF size [] = blank size := rfl

theorem blank_add_two (n : ℕ) : blank (n + 2) = 0xFF :: 0xFF :: blank n := rfl

theorem sumWords_blank (n : ℕ) : sumWords (blank (2 * n)) = n * 65535 := by
  induction n with
  | zero => rfl
  | succ n ih =>
    have hsize : 2 * (n + 1) = 2 * n + 2 := by ring
    rw [hsize, blank_add_two, sumWords, ih]
    have hword : (0xFF : UInt8).toNat + 256 * (0xFF : UInt8).toNat = 65535 := by decide
    rw [hword]
    ring

/-- **Blank images pass.** The checksum of a blank image of up to 65536 words is 0, that of a zeroed header -/
theorem blank_checksum {n : ℕ} (h0 : 0 < n) (h : n ≤ 65536) : chkNVEcc (blank (2 * n)) 0 = true := by
  obtain ⟨m, rfl⟩ := Nat.exists_eq_succ_of_ne_zero h0.ne'
  have hsum : sumWords (blank (2 * (m + 1))) = 65536 * m + (65535 - m) := by
    rw [sumWords_blank]
    omega
  have hword : sumWords (blank (2 * (m + 1))) % 2 ^ 32 = 65536 * m + (65535 - m) := by
    rw [hsum]
    exact Nat.mod_eq_of_lt (by omega)
  have hfold : (65536 * m + (65535 - m)) / 2 ^ 16 + (65536 * m + (65535 - m)) % 2 ^ 16 = 65535 := by omega
  simp only [chkNVEcc, calcChecksum, hword, hfold]
  rfl

theorem delivers_blank {size : ℕ} {b : List UInt8} :
    delivers size (some b) = blank size ↔ ∀ x ∈ dataBytes size b, x = 0xFF := by
  have hlen : (dataBytes size b).length ≤ size := by simp [dataBytes]
  constructor
  · intro h x hx
    have hmem : x ∈ delivers size (some b) := List.mem_append_left _ hx
    rw [h] at hmem
    exact List.eq_of_mem_replicate hmem
  · intro h
    have hdata : dataBytes size b = List.replicate (dataBytes size b).length 0xFF := List.eq_replicate_iff.2 ⟨rfl, h⟩
    rw [delivers, fillFF, hdata, List.length_replicate, List.replicate_append_replicate, blank]
    congr 1
    omega

/-! ## Trust -/

/-- what `ramDisk_Read` should deliver and write -/
structure TrustsVerified (size : ℕ) (f : Files) (first : Which) : Prop where
  delivered : (∃ w, valid size (f w) = true ∧ (ramDiskRead size f first).2 = delivers size (f w)) ∨
    (ramDiskRead size f first).2 = blank size
  written : (ramDiskRead size f first).1 first ≠ f first →
    ∃ b, f first.other = some b ∧ valid size (some b) = true ∧
      (ramDiskRead size f first).1 first = some (repaired size b)
  kept : ∀ w, valid size (f w) = true → (ramDiskRead size f first).1 w = f w

/-- the first file has a whole header and a whole image -/
def Whole (size : ℕ) (f : Files) (first : Which) : Prop :=
  ∃ b, f first = some b ∧ (headBytes b).length = RAMNV_SECT_SIZE ∧ (dataBytes size b).length = size

/-- the first file passes; or the second does, or has no byte but 0xFF; or there is no second, and not a whole image in
the first where a blank one has checksum 0 -/
def Trustworthy (size : ℕ) (f : Files) (first : Which) : Prop :=
  valid size (f first) = true ∨
    match f first.other with
    | some b => valid size (some b) = true ∨ ∀ x ∈ dataBytes size b, x = 0xFF
    | none => ¬ (chkNVEcc (blank size) 0 = true ∧ Whole size f first)

variable {size : ℕ} {f : Files} {first : Which}

theorem trusts_of_valid (h : valid size (f first) = true) : TrustsVerified size f first := by
  have hread := ramDiskRead_valid h
  refine ⟨Or.inl ⟨first, h, ?_⟩, fun hne => absurd ?_ hne, fun w _ => ?_⟩
  · rw [hread]
  · rw [hread]
  · rw [hread]

/-- a file that passes is the second one when the first does not -/
theorem valid_other (h : valid size (f first) = false) {w : Which} (hw : valid size (f w) = true) : w = first.other := by
  rcases eq_or_other first w with rfl | hother
  · rw [h] at hw
    exact absurd hw (by decide)
  · exact hother

theorem trusts_of_second {b : List UInt8} (h : valid size (f first) = false) (hb : f first.other = some b)
    (hv : valid size (some b) = true) : TrustsVerified size f first := by
  have hread := ramDiskRead_second h hb hv
  refine ⟨Or.inl ⟨first.other, hb ▸ hv, ?_⟩, fun _ => ⟨b, hb, hv, ?_⟩, fun w hw => ?_⟩
  · rw [hread, hb]
  · rw [hread]
    exact Function.update_self _ _ _
  · have hne : w ≠ first := by
      rintro rfl
      rw [h] at hw
      exact absurd hw (by decide)
    rw [hread]
    exact Function.update_of_ne hne _ _

/-- neither file passes, and the second is there -/
theorem trusts_iff_corrupt {b : List UInt8} (h : valid size (f first) = false) (hb : f first.other = some b)
    (hv : valid size (some b) = false) : TrustsVerified size f first ↔ ∀ x ∈ dataBytes size b, x = 0xFF := by
  have hfiles := ramDiskRead_keeps h hb hv
  have hdata : (ramDiskRead size f first).2 = delivers size (some b) := by
    rw [ramDiskRead_data, h, hb]
    rfl
  constructor
  · intro ht
    rcases ht.delivered with ⟨w, hw, -⟩ | hblank
    · rw [valid_other h hw, hb, hv] at hw
      exact absurd hw (by decide)
    · rw [hdata] at hblank
      exact delivers_blank.1 hblank
  · intro hff
    refine ⟨Or.inr ?_, fun hne => absurd ?_ hne, fun w _ => ?_⟩
    · rw [hdata]
      exact delivers_blank.2 hff
    · rw [hfiles]
    · rw [hfiles]

/-- a blank image does not pass where there is nothing of it -/
theorem not_chk_empty : ¬ chkNVEcc (blank 0) 0 = true := by decide

theorem dataBytes_short {b : List UInt8} (h : (headBytes b).length ≠ RAMNV_SECT_SIZE) : dataBytes size b = [] := by
  simp only [headBytes, List.length_take] at h
  rw [dataBytes, List.drop_of_length_le (by omega), List.take_nil]

/-- the second file is missing: what the first one left in `ret2` decides -/
theorem ramDiskRead_missing (h : valid size (f first) = false) (hb : f first.other = none) :
    ((ramDiskRead size f first).1 = f ∧ ¬ (chkNVEcc (blank size) 0 = true ∧ Whole size f first)) ∨
    ((ramDiskRead size f first).1 = Function.update f first (some (List.replicate RAMNV_SECT_SIZE 0 ++ blank size)) ∧
      chkNVEcc (blank size) 0 = true ∧ Whole size f first) := by
  have hsecond : ∀ ret2, (readSecond size f first ret2).1 =
      if ret2 = size ∧ chkNVEcc (blank size) 0 = true
      then Function.update f first (some (List.replicate RAMNV_SECT_SIZE 0 ++ blank size)) else f := by
    intro ret2
    simp only [readSecond, hb, fillFF_nil, exec_rewrite]
    by_cases hret : ret2 = size
    · by_cases hchk : chkNVEcc (blank size) 0 = true
      · simp [hret, hchk]
      · simp [hret, hchk]
    · simp [hret]
  -- nothing of an image passes for a whole one only where its size is 0
  have hzero : (0 = size ∧ chkNVEcc (blank size) 0 = true) → False := by
    rintro ⟨rfl, hchk⟩
    exact not_chk_empty hchk
  unfold ramDiskRead
  cases hf : f first with
  | none =>
    refine Or.inl ⟨?_, ?_⟩
    · simp only
      rw [hsecond 0, if_neg hzero]
    · rintro ⟨-, b, hsome, -⟩
      rw [hf] at hsome
      exact absurd hsome (by simp)
  | some b =>
    simp only
    by_cases hhead : (headBytes b).length = RAMNV_SECT_SIZE
    · rw [if_neg (not_not.2 hhead.symm)]
      have hinvalid : ¬ ((dataBytes size b).length = size ∧
          chkNVEcc (dataBytes size b) (headChecksum (headBytes b)) = true) := by
        rintro ⟨hlen, hchk⟩
        rw [hf, valid_some.2 ⟨hhead, hlen, hchk⟩] at h
        exact absurd h (by decide)
      rw [if_neg hinvalid, hsecond]
      by_cases hcond : (dataBytes size b).length = size ∧ chkNVEcc (blank size) 0 = true
      · rw [if_pos hcond]
        exact Or.inr ⟨rfl, hcond.2, b, hf, hhead, hcond.1⟩
      · rw [if_neg hcond]
        refine Or.inl ⟨rfl, ?_⟩
        rintro ⟨hchk, b', hb', -, hlen⟩
        rw [hf, Option.some.injEq] at hb'
        subst hb'
        exact hcond ⟨hlen, hchk⟩
    · rw [if_pos (Ne.symm hhead), hsecond, dataBytes_short hhead, List.length_nil, if_neg hzero]
      refine Or.inl ⟨rfl, ?_⟩
      rintro ⟨-, b', hb', hhead', -⟩
      rw [hf, Option.some.injEq] at hb'
      subst hb'
      exact hhead hhead'

theorem trusts_iff_missing (h : valid size (f first) = false) (hb : f first.other = none) :
    TrustsVerified size f first ↔ ¬ (chkNVEcc (blank size) 0 = true ∧ Whole size f first) := by
  have hdata : (ramDiskRead size f first).2 = blank size := by
    rw [ramDiskRead_data, h, hb]
    rfl
  have hnone : ∀ w, valid size (f w) ≠ true := by
    intro w hw
    rw [valid_other h hw, hb] at hw
    exact absurd hw (by simp [valid])
  rcases ramDiskRead_missing h hb with ⟨hfiles, hcond⟩ | ⟨hfiles, hcond⟩
  · refine iff_of_true ⟨Or.inr hdata, fun hne => absurd ?_ hne, fun w hw => absurd hw (hnone w)⟩ hcond
    rw [hfiles]
  · refine iff_of_false (fun ht => ?_) (not_not.2 hcond)
    have hne : (ramDiskRead size f first).1 first ≠ f first := by
      intro heq
      have hval : valid size (f first) = true := by
        rw [← heq, hfiles, Function.update_self]
        have hhead : headBytes (List.replicate RAMNV_SECT_SIZE 0 ++ blank size) = List.replicate RAMNV_SECT_SIZE 0 := by
          simp [headBytes]
        have himage : dataBytes size (List.replicate RAMNV_SECT_SIZE 0 ++ blank size) = blank size := by
          simp [dataBytes, blank]
        refine valid_some.2 ⟨?_, ?_, ?_⟩
        · rw [hhead, List.length_replicate]
        · rw [himage, blank, List.length_replicate]
        · rw [hhead, himage]
          exact hcond.1
      rw [h] at hval
      exact absurd hval (by decide)
    obtain ⟨b, hsome, -⟩ := ht.written hne
    rw [hb] at hsome
    exact absurd hsome (by simp)

/-- **What a read trusts.** For every contents of the two files and either order: what is delivered is verified or
blank, and only a verified header and image are written, exactly when `Trustworthy` holds -/
theorem trusts_verified_iff (size : ℕ) (f : Files) (first : Which) :
    TrustsVerified size f first ↔ Trustworthy size f first := by
  unfold Trustworthy
  by_cases h : valid size (f first) = true
  · exact iff_of_true (trusts_of_valid h) (Or.inl h)
  · rw [Bool.not_eq_true] at h
    simp only [h, Bool.false_eq_true, false_or]
    cases hb : f first.other with
    | none => exact trusts_iff_missing h hb
    | some b =>
      by_cases hv : valid size (some b) = true
      · exact iff_of_true (trusts_of_second h hb hv) (Or.inl hv)
      · rw [Bool.not_eq_true] at hv
        simp only [hv, Bool.false_eq_true, false_or]
        exact trusts_iff_corrupt h hb hv

/-- a header of zeros and two image bytes that do not pass against it -/
def corruptFile : List UInt8 := List.replicate RAMNV_SECT_SIZE 0 ++ [1, 2]

def corruptFiles : Files := fun _ => some corruptFile

def singleFile : Files := Function.update (fun _ => none) .origin (some corruptFile)

theorem corruptFile_invalid : valid 2 (some corruptFile) = false := by decide +kernel

/-- Both files corrupt, and what the second has is delivered; the second missing, and a blank image is written. -/
theorem trusts_verified_broken :
    ¬ TrustsVerified 2 corruptFiles .origin ∧ ¬ TrustsVerified 2 singleFile .origin := by
  constructor
  · have hfirst : valid 2 (corruptFiles .origin) = false := corruptFile_invalid
    rw [trusts_iff_corrupt hfirst rfl corruptFile_invalid]
    decide +kernel
  · have hfirst : valid 2 (singleFile .origin) = false := corruptFile_invalid
    rw [trusts_iff_missing hfirst rfl, not_not]
    refine ⟨blank_checksum (n := 1) (by decide) (by decide), corruptFile, rfl, ?_, ?_⟩
    · decide +kernel
    · decide +kernel

end SprdDevice.NvItem
