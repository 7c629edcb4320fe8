/-
What a reader finds in the IFDs of the EXIF writer, each at its place: SubjectArea, the Exif IFD with the interoperability
IFD behind it, the GPS IFD, and IFD0 or IFD1 with their pointers and the thumbnail.

SubjectArea is of type SHORT and its block calls `Jpeg_WriteRationalIFD`; the block of the destination's longitude looks at
the valid bit of the latitude. All other blocks are right.

Results: `tells_subjectArea`, `dirHas_spec`, `dirHas_inter`, `dirHas_fields` and `dirHas_IFD`.
-/
import SprdDevice.Exif.Entries

namespace SprdDevice.Exif

open SprdDevice.Memory SprdDevice.Word SprdDevice.Blocks SprdDevice.Tiff

/-! ## SubjectArea -/

/-- the words of the array with every pair turned round -/
def swappedShort (ptr : ℕ → UInt8) (i : ℕ) : UInt16 := shortPtr ptr (if i % 2 = 0 then i + 1 else i - 1)

/-- the words a reader finds for SubjectArea, which is of type SHORT and written as rationals: a pair of words goes out as
one long, and up to two words are looked for in the last word of the entry, where the offset stands -/
def subjectAreaRead (offset : ℕ) (c : Custom) (i : ℕ) : UInt16 :=
  if c.count.toNat ≤ 2 then UInt16.ofNat (offset / 65536 ^ i) else swappedShort c.ptr i

section SubjectArea

variable {m : ℕ → UInt8} {v : ℕ}

/-- a long of the array goes out as two of its words, the second one first -/
theorem be32Bytes_longPtr (ptr : ℕ → UInt8) (j : ℕ) :
    be32Bytes (longPtr ptr j).toNat =
      be16Bytes (shortPtr ptr (2 * j + 1)).toNat ++ be16Bytes (shortPtr ptr (2 * j)).toNat := by
  have h0 := (ptr (4 * j)).toNat_lt
  have h1 := (ptr (4 * j + 1)).toNat_lt
  have h2 := (ptr (4 * j + 2)).toNat_lt
  have h3 := (ptr (4 * j + 3)).toNat_lt
  have hlong : (longPtr ptr j).toNat =
      65536 * (shortPtr ptr (2 * j + 1)).toNat + (shortPtr ptr (2 * j)).toNat := by
    rw [longPtr, shortPtr, shortPtr, UInt32.toNat_ofNat', UInt16.toNat_ofNat', UInt16.toNat_ofNat',
      show 2 * (2 * j + 1) = 4 * j + 2 by ring, show 2 * (2 * j) = 4 * j by ring,
      show 4 * j + 2 + 1 = 4 * j + 3 by ring]
    omega
  rw [hlong, be32Bytes_shorts (shortPtr ptr (2 * j)).toNat_lt]

theorem flatMap_rationalPtr (ptr : ℕ → UInt8) (n : ℕ) :
    (valuesAt (rationalPtr ptr) n).flatMap rationalBytes =
      (valuesAt (swappedShort ptr) (4 * n)).flatMap fun w => be16Bytes w.toNat := by
  induction n with
  | zero => rfl
  | succ n ih =>
    have h0 : swappedShort ptr (4 * n) = shortPtr ptr (4 * n + 1) := by
      rw [swappedShort, if_pos (by omega)]
    have h1 : swappedShort ptr (4 * n + 1) = shortPtr ptr (4 * n) := by
      rw [swappedShort, if_neg (by omega), Nat.add_sub_cancel]
    have h2 : swappedShort ptr (4 * n + 2) = shortPtr ptr (4 * n + 3) := by
      rw [swappedShort, if_pos (by omega)]
    have h3 : swappedShort ptr (4 * n + 3) = shortPtr ptr (4 * n + 2) := by
      rw [swappedShort, if_neg (by omega)]
      rfl
    rw [show 4 * (n + 1) = 4 * n + 1 + 1 + 1 + 1 by ring, valuesAt_succ, valuesAt_succ, valuesAt_succ, valuesAt_succ,
      valuesAt_succ, h0, h1, h2, h3]
    simp only [List.flatMap_append, List.flatMap_singleton, ih, rationalBytes, rationalPtr, be32Bytes_longPtr,
      List.append_assoc]
    rw [show 2 * (2 * n) = 4 * n by ring, show 2 * (2 * n + 1) = 4 * n + 2 by ring]

theorem valuesAt_add {α : Type} (ptr : ℕ → α) (n k : ℕ) :
    valuesAt ptr (n + k) = valuesAt ptr n ++ valuesAt (fun i => ptr (n + i)) k := by
  rw [valuesAt, List.range_add, List.map_append, List.map_map]
  rfl

/-- **SubjectArea** says something else than its words. -/
theorem tells_subjectArea {c : Custom} (hcount : 0 < c.count.toNat) (hlo : APP1_RESERVED ≤ v)
    (hin : InPlace m (layField APP1_RESERVED ⟨0x9214, .short, c.count.toNat, .rational (rationalPtr c.ptr)⟩ v)) :
    Tells m (layField APP1_RESERVED ⟨0x9214, .short, c.count.toNat, .rational (rationalPtr c.ptr)⟩ v).slots
      [(0x9214, .short (valuesAt (subjectAreaRead (v - APP1_RESERVED) c) c.count.toNat))] := by
  obtain ⟨n, hn⟩ : ∃ n, n = c.count.toNat := ⟨_, rfl⟩
  have hlt : n < 2 ^ 32 := by rw [hn]; exact c.count.toNat_lt
  rw [← hn] at hcount hin ⊢
  have hraw := slot_raw ⟨0x9214, .short, n, .rational (rationalPtr c.ptr)⟩ APP1_RESERVED v
  have hholds : Holds m ⟨v, (valuesAt (rationalPtr c.ptr) n).flatMap rationalBytes⟩ :=
    hin.pieces _ (List.mem_singleton_self _)
  have hstop : v ≤ 65535 := (grows_field _ _ v).trans hin.stop
  have hbytes : (Value.short (valuesAt (subjectAreaRead (v - APP1_RESERVED) c) n)).bytes =
      (valuesAt (subjectAreaRead (v - APP1_RESERVED) c) n).flatMap fun w => be16Bytes w.toNat := rfl
  have hlen : (Value.short (valuesAt (subjectAreaRead (v - APP1_RESERVED) c) n)).bytes.length = 2 * n := by
    rw [hbytes]
    simp [List.length_flatMap, length_valuesAt, mul_comm]
  have hdenotes : ∀ word, valueBytes m APP1_RESERVED (2 * n) word =
        (valuesAt (subjectAreaRead (v - APP1_RESERVED) c) n).flatMap (fun w => be16Bytes w.toNat) →
      Denotes m APP1_RESERVED ⟨0x9214, 3, n, word⟩
        (0x9214, .short (valuesAt (subjectAreaRead (v - APP1_RESERVED) c) n)) := by
    intro word hword
    have h := @denotes_of_valueBytes m APP1_RESERVED 0x9214 word
      (.short (valuesAt (subjectAreaRead (v - APP1_RESERVED) c) n)) (by rw [hlen, hword, hbytes])
    rwa [Value.count, length_valuesAt] at h
  by_cases h2 : n ≤ 2
  · -- the two halves of the offset
    have hword : (Field.ifdInfo ⟨0x9214, .short, n, .rational (rationalPtr c.ptr)⟩ (v - APP1_RESERVED)).offsetValue =
        65536 * ((v - APP1_RESERVED) % 65536) + (v - APP1_RESERVED) / 65536 % 65536 := by
      simp [Field.ifdInfo, IfdInfo.offsetValue, IfdInfo.shortValue, h2]
    rw [hword] at hraw
    refine tells_single ?_ ?_
    · rw [hraw]
      exact ⟨(by decide : 0x9214 < 2 ^ 16), (by decide : 3 < 2 ^ 16), hlt, by simp only; omega⟩
    · rw [hraw]
      refine hdenotes _ ?_
      rw [valueBytes, if_pos (by omega), be32Bytes_shorts (Nat.mod_lt _ (by decide))]
      have hread (i : ℕ) : (subjectAreaRead (v - APP1_RESERVED) c i).toNat = (v - APP1_RESERVED) / 65536 ^ i % 65536 := by
        rw [subjectAreaRead, if_pos (hn ▸ h2), UInt16.toNat_ofNat']
      have hcases : n = 1 ∨ n = 2 := by omega
      rcases hcases with rfl | rfl
      · simp [valuesAt, hread]
        rfl
      · simp [valuesAt, List.range_succ, hread]
  · have hword : (Field.ifdInfo ⟨0x9214, .short, n, .rational (rationalPtr c.ptr)⟩ (v - APP1_RESERVED)).offsetValue =
        v - APP1_RESERVED := by
      simp [Field.ifdInfo, IfdInfo.offsetValue, h2]
    rw [hword] at hraw
    refine tells_single ?_ ?_
    · rw [hraw]
      exact ⟨(by decide : 0x9214 < 2 ^ 16), (by decide : 3 < 2 ^ 16), hlt, by simp only; omega⟩
    · rw [hraw]
      refine hdenotes _ ?_
      have hread : subjectAreaRead (v - APP1_RESERVED) c = swappedShort c.ptr := by
        funext i
        rw [subjectAreaRead, if_neg (hn ▸ h2)]
      rw [flatMap_rationalPtr, show 4 * n = n + 3 * n by ring, valuesAt_add, List.flatMap_append, holds_append_iff] at hholds
      have hfirst : cells m v ((valuesAt (swappedShort c.ptr) n).flatMap fun w => be16Bytes w.toNat).length =
          (valuesAt (swappedShort c.ptr) n).flatMap fun w => be16Bytes w.toNat := hholds.1
      rw [hbytes, hread] at hlen
      rw [hlen] at hfirst
      rw [valueBytes, if_neg (by omega), Nat.add_sub_cancel' hlo, hread, hfirst]

end SubjectArea

/-! ## The IFDs -/

section Ifds

variable {m : ℕ → UInt8} {b v : ℕ} (spec : SpecificInfo) (inter : Option InteroperabilityInfo)

theorem layFields_append (ifhOffset : ℕ) (fs gs : List (Option Field)) :
    layFields ifhOffset (fs ++ gs) = (layFields ifhOffset fs).seq (layFields ifhOffset gs) := by
  funext v
  induction fs generalizing v with
  | nil => rfl
  | cons f fs ih =>
    cases f with
    | none => exact ih v
    | some f =>
      simp only [List.cons_append, layFields, Lay.seq, ih, List.append_assoc]

/-- the block of SubjectArea -/
def subjectAreaBlock (spec : SpecificInfo) : Option Field :=
  spec.picTakingCond.bind fun p =>
    customBlock p.valid.subjectArea 0x9214 .short p.subjectArea (.rational (rationalPtr p.subjectArea.ptr))

/-- the value offset of SubjectArea in an Exif IFD that starts at b -/
def subjectAreaStart (spec : SpecificInfo) (b : ℕ) : ℕ :=
  (layFields APP1_RESERVED ((specFieldsBefore spec).take 21) (valuesFrom 57 b)).stop

/-- what a reader finds for it -/
def subjectAreaTold (spec : SpecificInfo) (b : ℕ) : Option (ℕ × Value) :=
  subjectAreaSupplied spec fun c => valuesAt (subjectAreaRead (subjectAreaStart spec b - APP1_RESERVED) c) c.count.toNat

theorem tells_subjectAreaBlock (hlo : APP1_RESERVED ≤ subjectAreaStart spec b)
    (hin : InPlace m (layFields APP1_RESERVED [subjectAreaBlock spec] (subjectAreaStart spec b))) :
    Tells m (layFields APP1_RESERVED [subjectAreaBlock spec] (subjectAreaStart spec b)).slots
      [subjectAreaTold spec b].reduceOption := by
  unfold subjectAreaBlock subjectAreaTold subjectAreaSupplied at *
  cases hpic : spec.picTakingCond with
  | none => exact .nil
  | some p =>
    rw [hpic] at hin
    simp only [Option.bind_some, customBlock, givenArray] at hin ⊢
    by_cases hc : (p.valid.subjectArea && decide (0 < p.subjectArea.count)) = true
    · rw [block, if_pos hc] at hin
      rw [block, if_pos hc, given, if_pos hc]
      have hcount : 0 < p.subjectArea.count.toNat := by
        rw [Bool.and_eq_true, decide_eq_true_eq] at hc
        exact hc.2
      have htells := tells_subjectArea hcount hlo (hin.left (grows_fields _ []))
      simpa [layFields, Lay.seq, Lay.skip] using htells
    · rw [block, if_neg hc, given, if_neg hc]
      exact .nil

/-- the entries of an Exif IFD that starts at b -/
def specLay (spec : SpecificInfo) (inter : Option InteroperabilityInfo) : Lay :=
  (layFields APP1_RESERVED (specFieldsBefore spec)).seq <|
    (inter.elim Lay.skip fun i => laySubIFD 0xA005 APP1_RESERVED (layInteroperabilityInfo APP1_RESERVED i)).seq <|
      layFields APP1_RESERVED (specFieldsBehind spec)

/-- where the interoperability IFD is -/
def interStart (spec : SpecificInfo) (b : ℕ) : ℕ :=
  align4 (layFields APP1_RESERVED (specFieldsBefore spec) (valuesFrom 57 b)).stop

/-- what a reader finds in the Exif IFD, without its pointer -/
def specTold (spec : SpecificInfo) (b : ℕ) : List (Option (ℕ × Value)) :=
  specSuppliedBefore spec ++ subjectAreaTold spec b :: specSuppliedBehind spec

theorem grows_interTable (i : InteroperabilityInfo) : (layInteroperabilityInfo APP1_RESERVED i).Grows :=
  grows_table (grows_fields _ _)

theorem grows_interoperability :
    (inter.elim Lay.skip fun i =>
      laySubIFD 0xA005 APP1_RESERVED (layInteroperabilityInfo APP1_RESERVED i)).Grows :=
  grows_optional inter grows_interTable

theorem grows_specLay : (specLay spec inter).Grows :=
  (grows_fields _ _).seq ((grows_interoperability inter).seq (grows_fields _ _))

theorem tells_specFieldsBefore (hlo : APP1_RESERVED ≤ valuesFrom 57 b)
    (hin : InPlace m (layFields APP1_RESERVED (specFieldsBefore spec) (valuesFrom 57 b))) :
    Tells m (layFields APP1_RESERVED (specFieldsBefore spec) (valuesFrom 57 b)).slots (specTold spec b).reduceOption := by
  have hsplit : specFieldsBefore spec =
      (specFieldsBefore spec).take 21 ++ ([subjectAreaBlock spec] ++ (specFieldsBefore spec).drop 22) := rfl
  rw [hsplit, layFields_append, layFields_append] at hin ⊢
  have hin2 := hin.right
  have hlo1 := hlo.trans (grows_fields APP1_RESERVED ((specFieldsBefore spec).take 21) _)
  have hlo2 := hlo1.trans (grows_fields APP1_RESERVED [subjectAreaBlock spec] _)
  have hfirst := tells_fields (matches_specBefore spec) hlo (hin.left ((grows_fields _ _).seq (grows_fields _ _)))
  have hsubject := tells_subjectAreaBlock spec hlo1 (hin2.left (grows_fields _ _))
  have hlast := tells_fields (matches_specBehind spec) hlo2 hin2.right
  have hall := tells_append hfirst (tells_append hsubject hlast)
  rwa [← List.reduceOption_append, ← List.reduceOption_append] at hall

/-- **The Exif IFD** -/
theorem tells_specLay (hlo : APP1_RESERVED ≤ valuesFrom 57 b) (hin : InPlace m (specLay spec inter (valuesFrom 57 b))) :
    Tells m (specLay spec inter (valuesFrom 57 b)).slots
      (specTold spec b ++ ([pointer inter 0xA005 (UInt32.ofNat (interStart spec b - APP1_RESERVED))] ++
        specSuppliedLast spec)).reduceOption := by
  have hgrows := (grows_interoperability inter).seq (grows_fields APP1_RESERVED (specFieldsBehind spec))
  have hin1 := hin.right
  have hlo1 := hlo.trans (grows_fields APP1_RESERVED (specFieldsBefore spec) _)
  have hlo2 := hlo1.trans (grows_interoperability inter _)
  have hstop := (hgrows _).trans hin1.stop
  have hbefore := tells_specFieldsBefore spec hlo (hin.left hgrows)
  have hptr := @tells_pointer m _ _ inter 0xA005 (layInteroperabilityInfo APP1_RESERVED) (by decide)
    (by rw [align4]; omega : align4 (layFields APP1_RESERVED (specFieldsBefore spec) (valuesFrom 57 b)).stop -
      APP1_RESERVED < 2 ^ 32)
  have hlast := tells_fields (matches_specLast spec) hlo2 hin1.right
  have hall := tells_append hbefore (tells_append hptr hlast)
  rwa [← List.reduceOption_append, ← List.reduceOption_append] at hall

theorem inPlace_body {room : ℕ} {nextIfd : Laid → Option ℕ} {body : Lay} (h : InPlace m (layTable room nextIfd body b)) :
    InPlace m (body (valuesFrom room b)) := ⟨fun p hp => h.pieces p (List.mem_cons_of_mem _ hp), h.stop⟩

theorem lo_valuesFrom (room : ℕ) (hlo : APP1_RESERVED ≤ b) : APP1_RESERVED ≤ valuesFrom room b := by
  have hle := le_valuesFrom room b
  omega

theorem stored_lt {l : Laid} {b : ℕ} (h : l.stop ≤ 65535) (isNextIfdExist : Bool) :
    stored b (if isNextIfdExist then some l.stop else none) < 2 ^ 32 := by
  cases isNextIfdExist with
  | false => exact Nat.two_pow_pos 32
  | true =>
    show l.stop - b < _
    omega

/-- a table of fields -/
theorem dirHas_fields {room : ℕ} {fs : List (Option Field)} {fields : List (Option (ℕ × Value))}
    (h : List.Forall₂ (Option.Rel Field.Matches) fs fields) (hroom : fs.length < 2 ^ 16) (hlo : APP1_RESERVED ≤ b)
    (hin : InPlace m (layTable room (fun _ => none) (layFields APP1_RESERVED fs) b)) (expected : List (ℕ × Value)) :
    DirHas m APP1_RESERVED (b - APP1_RESERVED) expected ↔ fields.reduceOption.Perm expected := by
  refine (dirHas_table hlo hin ?_ (Nat.two_pow_pos 32) ?_).1 expected
  · exact (length_layFields_le _ fs _).trans_lt hroom
  · exact tells_fields h (lo_valuesFrom room hlo) (inPlace_body hin)

theorem dirHas_spec (hlo : APP1_RESERVED ≤ b) (hin : InPlace m (laySpecInfo APP1_RESERVED spec inter b))
    (expected : List (ℕ × Value)) :
    DirHas m APP1_RESERVED (b - APP1_RESERVED) expected ↔
      (specTold spec b ++ ([pointer inter 0xA005 (UInt32.ofNat (interStart spec b - APP1_RESERVED))] ++
        specSuppliedLast spec)).reduceOption.Perm expected := by
  have hbody : InPlace m (layTable 57 (fun _ => none) (specLay spec inter) b) := hin
  refine (dirHas_table hlo hbody ?_ (Nat.two_pow_pos 32) ?_).1 expected
  · exact (length_specBody_le spec inter _).trans_lt (by decide)
  · exact tells_specLay spec inter (lo_valuesFrom 57 hlo) (inPlace_body hbody)

theorem dirHas_inter {i : InteroperabilityInfo} (hlo : APP1_RESERVED ≤ b)
    (hin : InPlace m (laySpecInfo APP1_RESERVED spec (some i) b)) (expected : List (ℕ × Value)) :
    DirHas m APP1_RESERVED (interStart spec b - APP1_RESERVED) expected ↔
      (interoperabilitySupplied i).reduceOption.Perm expected := by
  have hbody : InPlace m (specLay spec (some i) (valuesFrom 57 b)) := inPlace_body hin
  have htable := hbody.right.left (grows_fields APP1_RESERVED (specFieldsBehind spec))
  have hstart : APP1_RESERVED ≤ interStart spec b :=
    ((lo_valuesFrom 57 hlo).trans (grows_fields APP1_RESERVED (specFieldsBefore spec) _)).trans (le_align4 _)
  have hinter : InPlace m (layTable 1 (fun _ => none) (layFields APP1_RESERVED (interoperabilityFields i))
    (interStart spec b)) := ⟨htable.pieces, htable.stop⟩
  exact dirHas_fields (matches_interoperability i) (by decide : 1 < 2 ^ 16) hstart hinter expected

end Ifds

section Behind

variable {m : ℕ → UInt8} {b v : ℕ} (primary : PrimaryInfo) (spec : Option SpecificInfo) (gps : Option GpsInfo)
  (inter : Option InteroperabilityInfo) (thumbnail : List UInt8)

/-- the pointers of an IFD0 whose value offset is v behind its own fields -/
def specStart (primary : PrimaryInfo) (v : ℕ) : ℕ := align4 (layFields APP1_RESERVED (primaryFieldsBehind primary) v).stop

def gpsStart (primary : PrimaryInfo) (spec : Option SpecificInfo) (inter : Option InteroperabilityInfo) (v : ℕ) : ℕ :=
  align4 (spec.elim Lay.skip (fun spec => laySubIFD 0x8769 APP1_RESERVED (laySpecInfo APP1_RESERVED spec inter))
    (layFields APP1_RESERVED (primaryFieldsBehind primary) v).stop).stop

def pointersTold (v : ℕ) : List (Option (ℕ × Value)) :=
  [pointer spec 0x8769 (UInt32.ofNat (specStart primary v - APP1_RESERVED)),
    pointer gps 0x8825 (UInt32.ofNat (gpsStart primary spec inter v - APP1_RESERVED))]

theorem grows_spec (inter : Option InteroperabilityInfo) :
    (spec.elim Lay.skip fun spec => laySubIFD 0x8769 APP1_RESERVED (laySpecInfo APP1_RESERVED spec inter)).Grows :=
  grows_optional spec fun spec => grows_table (grows_specLay spec inter)

theorem grows_gps : (gps.elim Lay.skip fun gps => laySubIFD 0x8825 APP1_RESERVED (layGPSInfo APP1_RESERVED gps)).Grows :=
  grows_optional gps fun _ => grows_table (grows_fields _ _)

theorem grows_behind : (layBehind APP1_RESERVED primary spec gps inter).Grows :=
  (grows_fields _ _).seq ((grows_spec spec inter).seq (grows_gps gps))

theorem tells_behind (hwidth : primary.basic.imageWidth.toNat < 2 ^ 16)
    (hlength : primary.basic.imageLength.toNat < 2 ^ 16) (hlo : APP1_RESERVED ≤ v)
    (hin : InPlace m (layBehind APP1_RESERVED primary spec gps inter v)) :
    Tells m (layBehind APP1_RESERVED primary spec gps inter v).slots
      (primarySuppliedBehind primary ++ pointersTold primary spec gps inter v).reduceOption := by
  have hgrows := (grows_spec spec inter).seq (grows_gps gps)
  have hin1 := hin.right
  have hstop := (hgrows _).trans hin1.stop
  have hstop2 := (grows_gps gps _).trans hin1.right.stop
  have hfields := tells_fields (matches_primaryBehind primary hwidth hlength) hlo (hin.left hgrows)
  have hspec := @tells_pointer m _ _ spec 0x8769 (fun spec => laySpecInfo APP1_RESERVED spec inter) (by decide)
    (by unfold specStart align4; omega : specStart primary v - APP1_RESERVED < 2 ^ 32)
  have hgps := @tells_pointer m _ _ gps 0x8825 (layGPSInfo APP1_RESERVED) (by decide)
    (by unfold gpsStart align4; omega : gpsStart primary spec inter v - APP1_RESERVED < 2 ^ 32)
  have hall := tells_append hfields (tells_append hspec hgps)
  rwa [← List.reduceOption_append, ← List.reduceOption_append] at hall

theorem inPlace_spec {s : SpecificInfo} (hin : InPlace m (layBehind APP1_RESERVED primary (some s) gps inter v)) :
    InPlace m (laySpecInfo APP1_RESERVED s inter (specStart primary v)) := by
  have htable := hin.right.left (grows_gps gps)
  exact ⟨htable.pieces, htable.stop⟩

theorem inPlace_gps {g : GpsInfo} (hin : InPlace m (layBehind APP1_RESERVED primary spec (some g) inter v)) :
    InPlace m (layGPSInfo APP1_RESERVED g (gpsStart primary spec inter v)) :=
  ⟨hin.right.right.pieces, hin.right.right.stop⟩

/-- the entries of a thumbnail that is laid at start -/
def thumbnailTold (thumbnail : List UInt8) (start : ℕ) : List (ℕ × Value) :=
  if thumbnail = [] then []
  else [(0x201, .long [UInt32.ofNat (start - APP1_RESERVED)]), (0x202, .long [UInt32.ofNat thumbnail.length])]

theorem tells_thumbnail {start : ℕ} (h : start + thumbnail.length ≤ 65535) :
    Tells m (thumbnailSlots APP1_RESERVED start thumbnail) (thumbnailTold thumbnail start) := by
  cases thumbnail with
  | nil => exact .nil
  | cons c l =>
    have hpos : 0 < (c :: l).length := Nat.succ_pos _
    rw [thumbnailSlots, if_pos hpos, Nat.mod_eq_of_lt (by omega)]
    exact tells_append (tells_long (by decide) (by omega)) (tells_long (by decide) (by omega))

/-- where the thumbnail is in an IFD with the value offset v -/
def thumbnailStart (v : ℕ) : ℕ :=
  (layBehind APP1_RESERVED primary spec gps inter (layFields APP1_RESERVED (primaryFieldsBefore primary) v).stop).stop

/-- what a reader finds in IFD0 or IFD1 -/
def ifdTold (v : ℕ) : List (ℕ × Value) :=
  (primarySuppliedBefore primary).reduceOption ++ thumbnailTold thumbnail (thumbnailStart primary spec gps inter v) ++
    (primarySuppliedBehind primary ++ pointersTold primary spec gps inter
      (layFields APP1_RESERVED (primaryFieldsBefore primary) v).stop).reduceOption

theorem inPlace_behind (hin : InPlace m (layIFDBody APP1_RESERVED primary spec gps inter thumbnail v)) :
    InPlace m (layBehind APP1_RESERVED primary spec gps inter
      (layFields APP1_RESERVED (primaryFieldsBefore primary) v).stop) :=
  ⟨fun p hp => hin.pieces p (List.mem_append_left _ (List.mem_append_right _ hp)), (Nat.le_add_right _ _).trans hin.stop⟩

theorem tells_ifdBody (hwidth : primary.basic.imageWidth.toNat < 2 ^ 16)
    (hlength : primary.basic.imageLength.toNat < 2 ^ 16) (hlo : APP1_RESERVED ≤ v)
    (hin : InPlace m (layIFDBody APP1_RESERVED primary spec gps inter thumbnail v)) :
    Tells m (layIFDBody APP1_RESERVED primary spec gps inter thumbnail v).slots
      (ifdTold primary spec gps inter thumbnail v) := by
  have hbehind := inPlace_behind primary spec gps inter thumbnail hin
  have hbefore : InPlace m (layFields APP1_RESERVED (primaryFieldsBefore primary) v) :=
    ⟨fun p hp => hin.pieces p (List.mem_append_left _ (List.mem_append_left _ hp)),
      (grows_behind primary spec gps inter _).trans hbehind.stop⟩
  have hlo1 := hlo.trans (grows_fields APP1_RESERVED (primaryFieldsBefore primary) v)
  exact tells_append (tells_append (tells_fields (matches_primaryBefore primary) hlo hbefore)
    (tells_thumbnail thumbnail hin.stop)) (tells_behind primary spec gps inter hwidth hlength hlo1 hbehind)

/-- **IFD0 or IFD1** -/
theorem dirHas_IFD (isNextIfdExist : Bool) (hwidth : primary.basic.imageWidth.toNat < 2 ^ 16)
    (hlength : primary.basic.imageLength.toNat < 2 ^ 16) (hlo : APP1_RESERVED ≤ b)
    (hin : InPlace m (layIFD APP1_RESERVED primary spec gps inter thumbnail isNextIfdExist b)) :
    (∀ expected, DirHas m APP1_RESERVED (b - APP1_RESERVED) expected ↔
      (ifdTold primary spec gps inter thumbnail (valuesFrom 24 b)).Perm expected) ∧
    nextDir m APP1_RESERVED (b - APP1_RESERVED) = stored APP1_RESERVED (if isNextIfdExist then
      some (layIFD APP1_RESERVED primary spec gps inter thumbnail isNextIfdExist b).stop else none) := by
  refine dirHas_table hlo hin ?_ (stored_lt hin.stop isNextIfdExist) ?_
  · exact (length_ifdBody_le primary spec gps inter thumbnail _).trans_lt (by decide)
  · exact tells_ifdBody primary spec gps inter thumbnail hwidth hlength (lo_valuesFrom 24 hlo) (inPlace_body hin)

/-- the thumbnail itself -/
theorem cells_thumbnail (hne : thumbnail ≠ [])
    (hin : InPlace m (layIFDBody APP1_RESERVED primary spec gps inter thumbnail v)) :
    cells m (thumbnailStart primary spec gps inter v) thumbnail.length = thumbnail := by
  refine hin.pieces (.values ⟨_, thumbnail⟩) (List.mem_append_right _ ?_)
  rw [if_pos (List.length_pos_iff.2 hne)]
  exact List.mem_singleton_self _

end Behind

end SprdDevice.Exif
