/-
The segment of the EXIF writer read back. A reader that starts at the IFH and follows the offsets finds the fields that
were supplied, and the thumbnail, where the segment has room in the buffer and the two blocks that are wrong do no harm.

Results: `readsBack_of_agrees`, `agrees_of_readsBack` (a segment in place) and `writeAPP1_readsBack` (the one that
`Jpeg_WriteAPP1` gives out).
-/
import SprdDevice.Exif.Ifds

namespace SprdDevice.Exif

open SprdDevice.Memory SprdDevice.Word SprdDevice.Blocks SprdDevice.Tiff

/-! ## Where the two blocks do no harm -/

/-- the value offset of IFD0 behind its first fields -/
def ifd0Values (info : ExifInfo) : ℕ :=
  (layFields APP1_RESERVED (primaryFieldsBefore info.primary) (valuesFrom 24 (APP1_RESERVED + 8))).stop

/-- the offset of SubjectArea's values -/
def subjectAreaOffset (info : ExifInfo) (spec : SpecificInfo) : ℕ :=
  subjectAreaStart spec (specStart info.primary (ifd0Values info)) - APP1_RESERVED

/-- the longitude of the destination is valid when its latitude is -/
def LongitudeAgrees (info : ExifInfo) : Prop :=
  ∀ g, info.gps = some g → g.valid.gpsDestLongitude = g.valid.gpsDestLatitude

/-- what a reader finds for SubjectArea is what was supplied -/
def SubjectAreaAgrees (info : ExifInfo) : Prop :=
  ∀ spec p, info.spec = some spec → spec.picTakingCond = some p → p.valid.subjectArea = true →
    ∀ i < p.subjectArea.count.toNat,
      subjectAreaRead (subjectAreaOffset info spec) p.subjectArea i = shortPtr p.subjectArea.ptr i

theorem valuesAt_eq_iff {α : Type} (f g : ℕ → α) (n : ℕ) : valuesAt f n = valuesAt g n ↔ ∀ i < n, f i = g i := by
  simp only [valuesAt, List.map_inj_left, List.mem_range]

theorem longitudeByLatitude_eq {g : GpsInfo} (h : g.valid.gpsDestLongitude = g.valid.gpsDestLatitude) :
    longitudeByLatitude g = g := by
  rw [longitudeByLatitude, ← h]

/-- an entry of the longitude shows up exactly with its bit -/
theorem gps_perm_iff (g : GpsInfo) :
    (gpsSupplied (longitudeByLatitude g)).reduceOption.Perm (gpsSupplied g).reduceOption ↔
      g.valid.gpsDestLongitude = g.valid.gpsDestLatitude := by
  constructor
  · intro h
    have hsplit (g : GpsInfo) : gpsSupplied g = (gpsSupplied g).take 22 ++
        ([given g.valid.gpsDestLongitude 0x16 (rationalsAt g.gpsDestLongitude 3)] ++ (gpsSupplied g).drop 23) := rfl
    have htake : (gpsSupplied (longitudeByLatitude g)).take 22 = (gpsSupplied g).take 22 := rfl
    have hdrop : (gpsSupplied (longitudeByLatitude g)).drop 23 = (gpsSupplied g).drop 23 := rfl
    have hlen := h.length_eq
    rw [hsplit (longitudeByLatitude g), hsplit g, htake, hdrop] at hlen
    simp only [List.reduceOption_append, List.length_append, List.reduceOption_singleton] at hlen
    have hgiven (c : Bool) (v : Value) : (given c 0x16 v).toList.length = c.toNat := by cases c <;> rfl
    rw [hgiven, hgiven] at hlen
    have hbits : g.valid.gpsDestLongitude.toNat = g.valid.gpsDestLatitude.toNat := by
      change _ + (g.valid.gpsDestLatitude.toNat + _) = _ at hlen
      omega
    exact (by decide : ∀ a b : Bool, a.toNat = b.toNat → a = b) _ _ hbits
  · intro h
    rw [longitudeByLatitude_eq h]

section SubjectArea

variable (spec : SpecificInfo) (b : ℕ) (inter : Option InteroperabilityInfo) (told : UInt32)

/-- with the same pointer, the Exif IFD is what was supplied when SubjectArea is -/
theorem spec_perm (h : subjectAreaTold spec b = subjectAreaSupplied spec Custom.shorts) :
    (specTold spec b ++ ([pointer inter 0xA005 told] ++ specSuppliedLast spec)).reduceOption.Perm
      (specSupplied spec ++ [pointer inter 0xA005 told]).reduceOption := by
  rw [specTold, h, specSupplied]
  simp only [List.reduceOption_append, List.append_assoc]
  exact List.Perm.append_left _ (List.Perm.append_left _ List.perm_append_comm)

/-- whatever the pointer, SubjectArea is what was supplied when the Exif IFD is -/
theorem subjectArea_of_perm {p : SpecPicTakingCond} (hpic : spec.picTakingCond = some p)
    (hvalid : p.valid.subjectArea = true) (hcount : 0 < p.subjectArea.count) {offset : UInt32}
    (h : (specTold spec b ++ ([pointer inter 0xA005 told] ++ specSuppliedLast spec)).reduceOption.Perm
      (specSupplied spec ++ [pointer inter 0xA005 offset]).reduceOption) :
    subjectAreaTold spec b = subjectAreaSupplied spec Custom.shorts := by
  have hgiven (shorts : Custom → List UInt16) :
      subjectAreaSupplied spec shorts = some (0x9214, .short (shorts p.subjectArea)) := by
    simp [subjectAreaSupplied, hpic, givenArray, given, hvalid, hcount]
  have hpointer (offset : UInt32) (l : List UInt16) :
      List.count (0x9214, Value.short l) [pointer inter 0xA005 offset].reduceOption = 0 := by
    cases inter <;> simp [pointer, List.reduceOption]
  obtain ⟨l, hl⟩ : ∃ l, subjectAreaTold spec b = some (0x9214, .short l) := ⟨_, hgiven _⟩
  -- SubjectArea's entry is in both lists as often, and in the other parts as often
  have hcounts := h.count_eq (0x9214, .short l)
  simp only [specTold, specSupplied, hl, hgiven, List.reduceOption_append, List.reduceOption_cons_of_some,
    List.count_append, List.count_cons_self, hpointer] at hcounts
  by_cases heq : Custom.shorts p.subjectArea = l
  · rw [hl, hgiven, heq]
  · have hne : ((0x9214, Value.short (Custom.shorts p.subjectArea)) == (0x9214, Value.short l)) = false := by
      simpa using heq
    rw [List.count_cons, hne] at hcounts
    simp only [Bool.false_eq_true, if_false] at hcounts
    omega

theorem subjectAreaTold_eq_iff :
    subjectAreaTold spec b = subjectAreaSupplied spec Custom.shorts ↔
      ∀ p, spec.picTakingCond = some p → p.valid.subjectArea = true → ∀ i < p.subjectArea.count.toNat,
        subjectAreaRead (subjectAreaStart spec b - APP1_RESERVED) p.subjectArea i = shortPtr p.subjectArea.ptr i := by
  unfold subjectAreaTold subjectAreaSupplied
  cases hpic : spec.picTakingCond with
  | none => simp
  | some p =>
    simp only [Option.bind_some, givenArray, given, Option.some.injEq, forall_eq', Custom.shorts, ← valuesAt_eq_iff]
    by_cases hvalid : p.valid.subjectArea = true
    · by_cases hcount : 0 < p.subjectArea.count
      · simp [hvalid, hcount]
      · have hzero : p.subjectArea.count.toNat = 0 := by
          have hle : ¬ 0 < p.subjectArea.count.toNat := hcount
          omega
        simp [hvalid, hcount, hzero, valuesAt]
    · simp [hvalid]

end SubjectArea

/-! ## The segment -/

section Segment

variable {m : ℕ → UInt8} (info : ExifInfo) (thumbnail : List UInt8)

theorem grows_IFD (primary : PrimaryInfo) (spec : Option SpecificInfo) (gps : Option GpsInfo)
    (inter : Option InteroperabilityInfo) (thumbnail : List UInt8) (isNextIfdExist : Bool) :
    (layIFD APP1_RESERVED primary spec gps inter thumbnail isNextIfdExist).Grows :=
  grows_table fun v => ((grows_fields APP1_RESERVED (primaryFieldsBefore primary) v).trans
    (grows_behind primary spec gps inter _)).trans (Nat.le_add_right _ _)

theorem inPlace_ifd0 (hin : InPlace m (layIFDs info thumbnail)) : InPlace m (layIFD0 info thumbnail) := by
  rw [layIFDs_eq] at hin
  split at hin
  · exact ⟨fun p hp => hin.pieces p (List.mem_append_left _ hp), (grows_IFD ifd1Primary none none none thumbnail false _).trans hin.stop⟩
  · exact hin

theorem inPlace_ifd1 (hne : thumbnail ≠ []) (hin : InPlace m (layIFDs info thumbnail)) :
    InPlace m (layIFD APP1_RESERVED ifd1Primary none none none thumbnail false (layIFD0 info thumbnail).stop) := by
  rw [layIFDs_eq, if_pos (List.length_pos_iff.2 hne)] at hin
  exact ⟨fun p hp => hin.pieces p (List.mem_append_right _ hp), hin.stop⟩

theorem toNat_offset {start : ℕ} (h : start ≤ 65535) : (UInt32.ofNat (start - APP1_RESERVED)).toNat = start - APP1_RESERVED := by
  rw [UInt32.toNat_ofNat']
  exact Nat.mod_eq_of_lt (by omega)

/-- the pointers of two lists with the same entries -/
theorem pointers_of_perm {α β : Type} (o : Option α) (o' : Option β) {a a' b b' : UInt32}
    (h : [pointer o 0x8769 a, pointer o' 0x8825 b].reduceOption.Perm
      [pointer o 0x8769 a', pointer o' 0x8825 b'].reduceOption) :
    (o.isSome → a = a') ∧ (o'.isSome → b = b') := by
  cases o <;> cases o' <;> simp [pointer, List.reduceOption] at h ⊢
  · exact h
  · exact h
  · have ha := (h.mem_iff (a := (0x8769, Value.long [a]))).1 (by simp)
    have hb := (h.mem_iff (a := (0x8825, Value.long [b]))).1 (by simp)
    simp at ha hb
    exact ⟨ha, hb⟩

theorem ifh_words (hifh : Holds m ifhBlock) :
    be16 m APP1_RESERVED = 0x4D4D ∧ be16 m (APP1_RESERVED + 2) = 42 ∧ be32 m (APP1_RESERVED + 4) = 8 := by
  simp only [ifhBlock, holds_append_iff] at hifh
  exact ⟨be16_of_holds hifh.1.1 (by decide), be16_of_holds hifh.1.2 (by decide), be32_of_holds hifh.2 (by decide)⟩

/-- what a reader finds in IFD0 -/
theorem dirHas_ifd0 (hin : InPlace m (layIFDs info thumbnail))
    (hwidth : info.primary.basic.imageWidth.toNat < 2 ^ 16) (hlength : info.primary.basic.imageLength.toNat < 2 ^ 16)
    (exif gps : UInt32) :
    DirHas m APP1_RESERVED 8
        (primarySupplied info.primary ++ [pointer info.spec 0x8769 exif, pointer info.gps 0x8825 gps]).reduceOption ↔
      (pointersTold info.primary info.spec info.gps info.inter (ifd0Values info)).reduceOption.Perm
        [pointer info.spec 0x8769 exif, pointer info.gps 0x8825 gps].reduceOption := by
  have hdir := (dirHas_IFD info.primary info.spec info.gps info.inter [] (0 < thumbnail.length) hwidth hlength
    (Nat.le_add_right APP1_RESERVED 8) (inPlace_ifd0 info thumbnail hin)).1
  refine (hdir _).trans ?_
  have htold : ifdTold info.primary info.spec info.gps info.inter [] (valuesFrom 24 (APP1_RESERVED + 8)) =
      (primarySupplied info.primary).reduceOption ++
        (pointersTold info.primary info.spec info.gps info.inter (ifd0Values info)).reduceOption := by
    rw [ifdTold, thumbnailTold, if_pos rfl, primarySupplied]
    simp only [List.reduceOption_append, List.append_nil, List.append_assoc]
    rfl
  rw [htold, List.reduceOption_append, List.perm_append_left_iff]

theorem inPlace_ifd0Behind (hin : InPlace m (layIFDs info thumbnail)) :
    InPlace m (layBehind APP1_RESERVED info.primary info.spec info.gps info.inter (ifd0Values info)) := by
  have hifd0 : InPlace m (layIFD APP1_RESERVED info.primary info.spec info.gps info.inter [] (0 < thumbnail.length)
    (APP1_RESERVED + 8)) := inPlace_ifd0 info thumbnail hin
  exact inPlace_behind info.primary info.spec info.gps info.inter [] (inPlace_body hifd0)

/-- the Exif IFD, where IFD0 has it -/
theorem inPlace_exif (hin : InPlace m (layIFDs info thumbnail)) {s : SpecificInfo} (hs : info.spec = some s) :
    InPlace m (laySpecInfo APP1_RESERVED s info.inter (specStart info.primary (ifd0Values info))) := by
  have hbehind := inPlace_ifd0Behind info thumbnail hin
  rw [hs] at hbehind
  exact inPlace_spec _ _ _ hbehind

theorem inPlace_ifd0Gps (hin : InPlace m (layIFDs info thumbnail)) {g : GpsInfo} (hg : info.gps = some g) :
    InPlace m (layGPSInfo APP1_RESERVED g (gpsStart info.primary info.spec info.inter (ifd0Values info))) := by
  have hbehind := inPlace_ifd0Behind info thumbnail hin
  rw [hg] at hbehind
  exact inPlace_gps _ _ _ hbehind

theorem lo_ifd0Values : APP1_RESERVED ≤ ifd0Values info :=
  (lo_valuesFrom 24 (Nat.le_add_right APP1_RESERVED 8)).trans (grows_fields APP1_RESERVED (primaryFieldsBefore info.primary) _)

theorem lo_specStart : APP1_RESERVED ≤ specStart info.primary (ifd0Values info) :=
  ((lo_ifd0Values info).trans (grows_fields APP1_RESERVED (primaryFieldsBehind info.primary) _)).trans (le_align4 _)

theorem lo_gpsStart : APP1_RESERVED ≤ gpsStart info.primary info.spec info.inter (ifd0Values info) :=
  (((lo_ifd0Values info).trans (grows_fields APP1_RESERVED (primaryFieldsBehind info.primary) _)).trans
    (grows_spec info.spec info.inter _)).trans (le_align4 _)

/-- IFD1 with the thumbnail -/
theorem reads_ifd1 (hne : thumbnail ≠ []) (hin : InPlace m (layIFDs info thumbnail)) :
    ∃ jpeg : UInt32,
      DirHas m APP1_RESERVED ((layIFD0 info thumbnail).stop - APP1_RESERVED)
        ((primarySupplied ifd1Primary).reduceOption ++
          [(0x201, .long [jpeg]), (0x202, .long [UInt32.ofNat thumbnail.length])]) ∧
      cells m (APP1_RESERVED + jpeg.toNat) thumbnail.length = thumbnail := by
  have hifd1 := inPlace_ifd1 info thumbnail hne hin
  have hlo : APP1_RESERVED ≤ (layIFD0 info thumbnail).stop :=
    (Nat.le_add_right APP1_RESERVED 8).trans (grows_IFD info.primary info.spec info.gps info.inter [] _ _)
  have hbody := inPlace_body hifd1
  have hdir := (dirHas_IFD ifd1Primary none none none thumbnail false (by decide) (by decide) hlo hifd1).1
  obtain ⟨start, hstart⟩ : ∃ start, start = thumbnailStart ifd1Primary none none none
      (valuesFrom 24 (layIFD0 info thumbnail).stop) := ⟨_, rfl⟩
  have hstop : start + thumbnail.length ≤ 65535 := hstart ▸ hbody.stop
  have hlo1 : APP1_RESERVED ≤ start := by
    rw [hstart]
    exact ((lo_valuesFrom 24 hlo).trans (grows_fields APP1_RESERVED (primaryFieldsBefore ifd1Primary) _)).trans
      (grows_behind ifd1Primary none none none _)
  refine ⟨UInt32.ofNat (start - APP1_RESERVED), (hdir _).2 ?_, ?_⟩
  · rw [ifdTold, thumbnailTold, if_neg hne, ← hstart, primarySupplied]
    have hnone : (pointersTold ifd1Primary none none none
        (layFields APP1_RESERVED (primaryFieldsBefore ifd1Primary)
          (valuesFrom 24 (layIFD0 info thumbnail).stop)).stop).reduceOption = [] := rfl
    rw [List.reduceOption_append, List.reduceOption_append, hnone, List.append_nil, List.append_assoc, List.append_assoc]
    exact List.Perm.append_left _ List.perm_append_comm
  · rw [toNat_offset (by omega), Nat.add_sub_cancel' hlo1, hstart]
    exact cells_thumbnail ifd1Primary none none none thumbnail hne hbody

/-- the IFD behind IFD0 -/
theorem nextDir_ifd0 (hin : InPlace m (layIFDs info thumbnail))
    (hwidth : info.primary.basic.imageWidth.toNat < 2 ^ 16) (hlength : info.primary.basic.imageLength.toNat < 2 ^ 16) :
    nextDir m APP1_RESERVED 8 = if thumbnail = [] then 0 else (layIFD0 info thumbnail).stop - APP1_RESERVED := by
  have hnext := (dirHas_IFD info.primary info.spec info.gps info.inter [] (0 < thumbnail.length) hwidth hlength
    (Nat.le_add_right APP1_RESERVED 8) (inPlace_ifd0 info thumbnail hin)).2
  refine hnext.trans ?_
  cases thumbnail with
  | nil => rfl
  | cons c l => rfl

/-- what a reader finds where IFD0 points to for the Exif IFD -/
theorem dirHas_exif (hin : InPlace m (layIFDs info thumbnail)) {s : SpecificInfo} (hs : info.spec = some s)
    (expected : List (ℕ × Value)) :
    DirHas m APP1_RESERVED (UInt32.ofNat (specStart info.primary (ifd0Values info) - APP1_RESERVED)).toNat expected ↔
      (specTold s (specStart info.primary (ifd0Values info)) ++
        ([pointer info.inter 0xA005
            (UInt32.ofNat (interStart s (specStart info.primary (ifd0Values info)) - APP1_RESERVED))] ++
          specSuppliedLast s)).reduceOption.Perm expected := by
  have hexif := inPlace_exif info thumbnail hin hs
  rw [toNat_offset ((grows_table (grows_specLay s info.inter) _).trans hexif.stop)]
  exact dirHas_spec s info.inter (lo_specStart info) hexif expected

/-- what a reader finds where IFD0 points to for the GPS IFD -/
theorem dirHas_gps (hin : InPlace m (layIFDs info thumbnail)) {g : GpsInfo} (hg : info.gps = some g)
    (expected : List (ℕ × Value)) :
    DirHas m APP1_RESERVED
        (UInt32.ofNat (gpsStart info.primary info.spec info.inter (ifd0Values info) - APP1_RESERVED)).toNat expected ↔
      (gpsSupplied (longitudeByLatitude g)).reduceOption.Perm expected := by
  have hgps := inPlace_ifd0Gps info thumbnail hin hg
  rw [toNat_offset ((grows_table (grows_fields _ _) _).trans hgps.stop)]
  exact dirHas_fields (matches_gps g) (by decide : 31 < 2 ^ 16) (lo_gpsStart info) hgps expected

/-- what a reader finds where the Exif IFD points to -/
theorem dirHas_exifInter (hin : InPlace m (layIFDs info thumbnail)) {s : SpecificInfo} (hs : info.spec = some s)
    {i : InteroperabilityInfo} (hi : info.inter = some i) (expected : List (ℕ × Value)) :
    DirHas m APP1_RESERVED
        (UInt32.ofNat (interStart s (specStart info.primary (ifd0Values info)) - APP1_RESERVED)).toNat expected ↔
      (interoperabilitySupplied i).reduceOption.Perm expected := by
  have hexif := inPlace_exif info thumbnail hin hs
  rw [hi] at hexif
  have hbody : InPlace m (specLay s (some i) (valuesFrom 57 (specStart info.primary (ifd0Values info)))) :=
    inPlace_body hexif
  have htable := hbody.right.left (grows_fields APP1_RESERVED (specFieldsBehind s))
  have hle : interStart s (specStart info.primary (ifd0Values info)) ≤ 65535 :=
    (grows_interTable i _).trans htable.stop
  rw [toNat_offset hle]
  exact dirHas_inter s (lo_specStart info) hexif expected

theorem agrees_of_readsBack (hifh : Holds m ifhBlock) (hin : InPlace m (layIFDs info thumbnail))
    (hwidth : info.primary.basic.imageWidth.toNat < 2 ^ 16) (hlength : info.primary.basic.imageLength.toNat < 2 ^ 16)
    (h : ReadsBack m info thumbnail) : LongitudeAgrees info ∧ SubjectAreaAgrees info := by
  obtain ⟨exif, gps, inter, jpeg, -, -, hifd0, hspec, hgps, -⟩ := h
  rw [(ifh_words hifh).2.2] at hifd0
  obtain ⟨hexif, hgpsEq⟩ := pointers_of_perm info.spec info.gps
    ((dirHas_ifd0 info thumbnail hin hwidth hlength exif gps).1 hifd0)
  refine ⟨fun g hg => ?_, fun s p hs hpic hvalid i hi => ?_⟩
  · have hread := hgps g hg
    rw [← hgpsEq (by rw [hg]; rfl)] at hread
    exact (gps_perm_iff g).1 ((dirHas_gps info thumbnail hin hg _).1 hread)
  · have hread := (hspec s hs).1
    rw [← hexif (by rw [hs]; rfl)] at hread
    have hcount : 0 < p.subjectArea.count := (Nat.zero_le i).trans_lt hi
    have htold := subjectArea_of_perm s _ info.inter _ hpic hvalid hcount ((dirHas_exif info thumbnail hin hs _).1 hread)
    exact (subjectAreaTold_eq_iff s _).1 htold p hpic hvalid i hi

theorem readsBack_of_agrees (hifh : Holds m ifhBlock) (hin : InPlace m (layIFDs info thumbnail))
    (hwidth : info.primary.basic.imageWidth.toNat < 2 ^ 16) (hlength : info.primary.basic.imageLength.toNat < 2 ^ 16)
    (hlongitude : LongitudeAgrees info) (hsubject : SubjectAreaAgrees info) : ReadsBack m info thumbnail := by
  obtain ⟨horder, hfix, hofs⟩ := ifh_words hifh
  have hnext := nextDir_ifd0 info thumbnail hin hwidth hlength
  obtain ⟨inter, hinter⟩ : ∃ inter : UInt32, ∀ s, info.spec = some s →
      inter = UInt32.ofNat (interStart s (specStart info.primary (ifd0Values info)) - APP1_RESERVED) := by
    cases hs : info.spec with
    | none => exact ⟨0, fun s h => by simp at h⟩
    | some s =>
      exact ⟨UInt32.ofNat (interStart s (specStart info.primary (ifd0Values info)) - APP1_RESERVED),
        fun s' h => by rw [Option.some.inj h]⟩
  obtain ⟨jpeg, hjpeg⟩ : ∃ jpeg : UInt32, thumbnail ≠ [] →
      DirHas m APP1_RESERVED ((layIFD0 info thumbnail).stop - APP1_RESERVED)
        ((primarySupplied ifd1Primary).reduceOption ++
          [(0x201, .long [jpeg]), (0x202, .long [UInt32.ofNat thumbnail.length])]) ∧
      cells m (APP1_RESERVED + jpeg.toNat) thumbnail.length = thumbnail := by
    by_cases hne : thumbnail = []
    · exact ⟨0, fun h => absurd hne h⟩
    · obtain ⟨jpeg, hread⟩ := reads_ifd1 info thumbnail hne hin
      exact ⟨jpeg, fun _ => hread⟩
  refine ⟨UInt32.ofNat (specStart info.primary (ifd0Values info) - APP1_RESERVED),
    UInt32.ofNat (gpsStart info.primary info.spec info.inter (ifd0Values info) - APP1_RESERVED), inter, jpeg, horder, hfix,
    ?_, fun s hs => ⟨?_, fun i hi => ?_⟩, fun g hg => ?_, ?_⟩
  · rw [hofs]
    exact (dirHas_ifd0 info thumbnail hin hwidth hlength _ _).2 (List.Perm.refl _)
  · rw [hinter s hs]
    refine (dirHas_exif info thumbnail hin hs _).2 (spec_perm s _ info.inter _ ?_)
    exact (subjectAreaTold_eq_iff s _).2 fun p hpic hvalid => hsubject s p hs hpic hvalid
  · rw [hinter s hs]
    exact (dirHas_exifInter info thumbnail hin hs hi _).2 (List.Perm.refl _)
  · refine (dirHas_gps info thumbnail hin hg _).2 ?_
    rw [longitudeByLatitude_eq (hlongitude g hg)]
  · rw [hofs, hnext]
    split
    · rfl
    · rename_i hne
      exact hjpeg hne

end Segment

/-! ## APP1 -/

section App1

variable {targetBuf m : ℕ → UInt8} {targetBufSize app1Size endOffset : ℕ} {info : ExifInfo} {thumbnail : List UInt8}
  {s : WriteStream}

/-- a segment with room for its pieces, in the bytes that are given out -/
theorem inPlace_app1 (h : writeAPP1 targetBuf targetBufSize info thumbnail = some (m, app1Size))
    (hstop : (layIFDs info thumbnail).stop ≤ 65535)
    (hfits : ∀ p ∈ (layIFDs info thumbnail).pieces, (p.block APP1_RESERVED).stop ≤ targetBufSize) :
    Holds (ofList (cells m 0 app1Size)) ifhBlock ∧ InPlace (ofList (cells m 0 app1Size)) (layIFDs info thumbnail) := by
  obtain ⟨hn, hifh, hpieces⟩ := written_app1 h hfits
  have hord := ordered_layIFDs info thumbnail
  have hsize : app1Size = (layIFDs info thumbnail).stop := by
    have hle := hord.le
    rw [hn, app1Length]
    omega
  have hget : ∀ i < app1Size, ofList (cells m 0 app1Size) i = m i := by
    intro i hi
    rw [ofList_get (by rw [length_cells]; exact hi)]
    simp [cells]
  refine ⟨hifh.of_eq fun i _ hi => hget i ?_, ⟨fun p hp => (hpieces p hp).of_eq fun i _ hi => hget i ?_, hstop⟩⟩
  · rw [hsize]
    exact hi.trans_le hord.le
  · have hp := (Ascending.mem (List.mem_map_of_mem hp) hord).2
    omega

/-- **Read-back.** With room for its pieces a segment says what was supplied when the bit of the latitude is that of the
longitude and what is found for SubjectArea is what was supplied, and not otherwise. -/
theorem writeAPP1_readsBack (h : writeAPP1 targetBuf targetBufSize info thumbnail = some (m, app1Size))
    (hifds : writeIFDs ⟨targetBuf, targetBufSize, 0⟩ info thumbnail = some (s, endOffset)) (hend : endOffset ≤ 65535)
    (hwidth : info.primary.basic.imageWidth.toNat ≤ 65535) (hlength : info.primary.basic.imageLength.toNat ≤ 65535) :
    ((∀ p ∈ (layIFDs info thumbnail).pieces, (p.block APP1_RESERVED).stop ≤ targetBufSize) ∧ LongitudeAgrees info ∧
        SubjectAreaAgrees info → ReadsBack (ofList (cells m 0 app1Size)) info thumbnail) ∧
      ((∀ p ∈ (layIFDs info thumbnail).pieces, (p.block APP1_RESERVED).stop ≤ targetBufSize) →
        ReadsBack (ofList (cells m 0 app1Size)) info thumbnail → LongitudeAgrees info ∧ SubjectAreaAgrees info) := by
  have hinPlace (hfits : ∀ p ∈ (layIFDs info thumbnail).pieces, (p.block APP1_RESERVED).stop ≤ targetBufSize) :
      Holds (ofList (cells m 0 app1Size)) ifhBlock ∧
        InPlace (ofList (cells m 0 app1Size)) (layIFDs info thumbnail) := by
    obtain ⟨s0, hs0, -⟩ := writeIFDs_fits info thumbnail ⟨targetBuf, targetBufSize, 0⟩ hfits
    rw [hs0] at hifds
    obtain ⟨-, rfl⟩ := Prod.mk.inj (Option.some.inj hifds)
    exact inPlace_app1 h hend hfits
  constructor
  · rintro ⟨hfits, hlongitude, hsubject⟩
    obtain ⟨hifh, hin⟩ := hinPlace hfits
    exact readsBack_of_agrees info thumbnail hifh hin (Nat.lt_succ_of_le hwidth) (Nat.lt_succ_of_le hlength) hlongitude
      hsubject
  · intro hfits hread
    obtain ⟨hifh, hin⟩ := hinPlace hfits
    exact agrees_of_readsBack info thumbnail hifh hin (Nat.lt_succ_of_le hwidth) (Nat.lt_succ_of_le hlength) hread

theorem nul_mem : (0 : UInt8) ∈ [(0 : UInt8)] := List.mem_singleton_self 0

/-- a place on the equator, of which valid has the bits -/
def equator (valid : GpsValid) : GpsInfo where
  valid := valid
  gpsVersionID := fun _ => 0
  gpsLatitudeRef := fun _ => 0
  gpsLatitude := fun _ => ⟨0, 1⟩
  gpsLongitudeRef := fun _ => 0
  gpsLongitude := fun _ => ⟨0, 1⟩
  gpsAltitudeRef := 0
  gpsAltitude := ⟨0, 1⟩
  gpsTimeStamp := fun _ => ⟨0, 1⟩
  gpsSatellites := ⟨[0], nul_mem⟩
  gpsStatus := fun _ => 0
  gpsMeasureMode := fun _ => 0
  gpsDOP := ⟨0, 1⟩
  gpsSpeedRef := fun _ => 0
  gpsSpeed := ⟨0, 1⟩
  gpsTrackRef := fun _ => 0
  gpsTrack := ⟨0, 1⟩
  gpsImgDirectionRef := fun _ => 0
  gpsImgDirection := ⟨0, 1⟩
  gpsMapDatum := ⟨[0], nul_mem⟩
  gpsDestLatitudeRef := fun _ => 0
  gpsDestLatitude := fun _ => ⟨1, 1⟩
  gpsDestLongitudeRef := fun _ => 0
  gpsDestLongitude := fun _ => ⟨0, 1⟩
  gpsDestBearingRef := fun _ => 0
  gpsDestBearing := ⟨0, 1⟩
  gpsDestDistanceRef := fun _ => 0
  gpsDestDistance := ⟨0, 1⟩
  gpsProcessingMethod := ⟨fun _ => 0, 0⟩
  gpsAreaInformation := ⟨fun _ => 0, 0⟩
  gpsDateStamp := fun _ => 0
  gpsDifferential := 0

/-- a picture with the time it was taken, latitude and longitude, and an interoperability index -/
def pictureInfo : ExifInfo :=
  { copyrightInfo with
    spec := some
      { basic := ⟨1, fun _ => 1, 640, 480⟩
        imgConfig := some ⟨⟨true⟩, ⟨3, 1⟩⟩
        user := none
        relatedFile := none
        dateTime := some ⟨⟨true, false, true, false, false⟩, fun _ => 50, fun _ => 50, ⟨[49, 50, 51, 52, 0], by decide⟩,
          ⟨[0], nul_mem⟩, ⟨[0], nul_mem⟩⟩
        picTakingCond := none
        other := none }
    gps := some (equator ⟨true, true, true, true, true, false, false, true, false, false, false, false, false, false, false,
      false, false, false, false, true, true, true, true, false, false, false, false, false, false, true, false⟩)
    inter := some ⟨⟨true⟩, ⟨fun i => if i = 3 then 0 else 82, 4⟩⟩ }

def pictureThumbnail : List UInt8 := [0xFF, 0xD8, 1, 2, 3, 4, 5, 6, 7, 8, 0xFF, 0xD9]

theorem writeAPP1_readsBack_picture :
    ∃ m, writeAPP1 (fun _ => 0) 2000 pictureInfo pictureThumbnail = some (m, 1920) ∧
      ReadsBack (ofList (cells m 0 1920)) pictureInfo pictureThumbnail := by
  obtain ⟨s, hifds⟩ : ∃ s, writeIFDs ⟨fun _ => 0, 2000, 0⟩ pictureInfo pictureThumbnail = some (s, 1920) := ⟨_, rfl⟩
  obtain ⟨m, happ⟩ : ∃ m, writeAPP1 (fun _ => 0) 2000 pictureInfo pictureThumbnail = some (m, 1920) := ⟨_, rfl⟩
  have hread := writeAPP1_readsBack happ hifds (by decide) (by decide) (by decide)
  refine ⟨m, happ, hread.1 ⟨by decide +kernel, ?_, ?_⟩⟩
  · rintro g ⟨⟩
    rfl
  · rintro spec p ⟨⟩ hp
    cases hp

/-- a place of which the latitude of a destination is known, and no longitude -/
def latitudeInfo : ExifInfo :=
  { copyrightInfo with
    gps := some (equator ⟨false, false, false, false, false, false, false, false, false, false, false, false, false, false,
      false, false, false, false, false, false, true, false, false, false, false, false, false, false, false, false, false⟩) }

/-- its segment has a longitude that was not supplied -/
theorem longitude_appears :
    ¬ ∀ (targetBuf : ℕ → UInt8) (targetBufSize : ℕ) (info : ExifInfo) (thumbnail : List UInt8) (m : ℕ → UInt8)
      (app1Size : ℕ) (s : WriteStream) (endOffset : ℕ),
      writeAPP1 targetBuf targetBufSize info thumbnail = some (m, app1Size) →
      writeIFDs ⟨targetBuf, targetBufSize, 0⟩ info thumbnail = some (s, endOffset) → endOffset ≤ 65535 →
      info.primary.basic.imageWidth.toNat ≤ 65535 → info.primary.basic.imageLength.toNat ≤ 65535 →
      ReadsBack (ofList (cells m 0 app1Size)) info thumbnail := by
  intro h
  obtain ⟨s, hifds⟩ : ∃ s, writeIFDs ⟨fun _ => 0, 1000, 0⟩ latitudeInfo [] = some (s, 764) := ⟨_, rfl⟩
  obtain ⟨m, happ⟩ : ∃ m, writeAPP1 (fun _ => 0) 1000 latitudeInfo [] = some (m, 764) := ⟨_, rfl⟩
  have hread := h _ _ _ _ _ _ _ _ happ hifds (by decide) (by decide) (by decide)
  obtain ⟨hifh, hin⟩ := inPlace_app1 happ (by decide) (by decide)
  have hagrees := (agrees_of_readsBack latitudeInfo [] hifh hin (by decide) (by decide) hread).1 _ rfl
  exact absurd hagrees (by decide)

end App1

end SprdDevice.Exif
