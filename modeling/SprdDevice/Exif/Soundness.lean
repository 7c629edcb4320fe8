/-
Layout soundness of the EXIF writer. The pieces of a segment are its tables, the blocks of values that are not in their
entries and the thumbnail, each where the layout has it.

Two slips let a segment succeed that is not sound, both where the buffer is short: `Jpeg_WriteShortIFD` and
`Jpeg_WriteByteIFD` return a failure that reads as TRUE, and the seeks of the tables are not looked at.

Results: `linked_layIFDs` (every stored offset is the start of a piece) and `writeAPP1_sound_iff` (a segment is sound
exactly when the buffer has room for its pieces).
-/
import SprdDevice.Exif.Segment

namespace SprdDevice.Exif

open SprdDevice.Memory SprdDevice.Word SprdDevice.Blocks SprdDevice.Tiff

/-! ## Statement -/

/-- some piece starts there -/
def Starts (pieces : List Piece) (target : ℕ) : Prop := ∃ p ∈ pieces, (p.block APP1_RESERVED).start = target

/-- the segment in the memory m that ends at endOffset, in a buffer of so many bytes -/
structure Sound (m : ℕ → UInt8) (bufSize endOffset : ℕ) (pieces : List Piece) : Prop where
  inside : ∀ p ∈ pieces, APP1_RESERVED ≤ (p.block APP1_RESERVED).start ∧ (p.block APP1_RESERVED).stop ≤ endOffset ∧
    (p.block APP1_RESERVED).stop ≤ bufSize
  apart : (pieces.map (Piece.block APP1_RESERVED)).Pairwise Apart
  /-- the number that a table begins with is that of its entries, and the table has room for them -/
  entries : ∀ t, Piece.table t ∈ pieces → be16 m t.start = t.slots.length ∧ t.slots.length ≤ t.room
  /-- the offset in an entry -/
  offsets : ∀ t, Piece.table t ∈ pieces → ∀ k, ∀ hk : k < t.slots.length, ∀ target, t.slots[k].ref = some target →
    be32 m (t.start + 2 + 12 * k + 8) + APP1_RESERVED = target ∧ Starts pieces target
  /-- the offset behind the entries -/
  nextIfd : ∀ t, Piece.table t ∈ pieces → ∀ target, t.nextIfd = some target →
    be32 m (t.start + 2 + 12 * t.slots.length) + APP1_RESERVED = target ∧ Starts pieces target
  /-- the offset in the IFH -/
  ifh : Starts pieces (be32 m (APP1_RESERVED + 4) + APP1_RESERVED)

/-! ## Stored offsets in the layout -/

/-- the offset in an entry is that of a piece -/
def LinkedSlot (pieces : List Piece) (s : Slot) : Prop :=
  ∀ target, s.ref = some target → s.word = target - APP1_RESERVED ∧ Starts pieces target

/-- so are all that a stretch lays, and its tables have room; a table's next IFD is one of `next` -/
structure Linked (next : ℕ → Prop) (l : Laid) : Prop where
  slots : ∀ s ∈ l.slots, LinkedSlot l.pieces s
  room : ∀ t, Piece.table t ∈ l.pieces → t.slots.length ≤ t.room
  tables : ∀ t, Piece.table t ∈ l.pieces → ∀ s ∈ t.slots, LinkedSlot l.pieces s
  nextIfd : ∀ t, Piece.table t ∈ l.pieces → ∀ target, t.nextIfd = some target → next target

variable {next : ℕ → Prop} {lay lay1 lay2 : Lay} {pieces pieces' : List Piece}

theorem Starts.mono {target : ℕ} (h : Starts pieces target) (hsub : pieces ⊆ pieces') : Starts pieces' target := by
  obtain ⟨p, hp, hstart⟩ := h
  exact ⟨p, hsub hp, hstart⟩

theorem LinkedSlot.mono {s : Slot} (h : LinkedSlot pieces s) (hsub : pieces ⊆ pieces') : LinkedSlot pieces' s :=
  fun target ht => ⟨(h target ht).1, (h target ht).2.mono hsub⟩

theorem linkedSlot_none {s : Slot} (h : s.ref = none) : LinkedSlot pieces s := by
  intro target ht
  rw [h] at ht
  exact absurd ht (by simp)

theorem linked_skip (v : ℕ) : Linked next (Lay.skip v) where
  slots _ hs := absurd hs List.not_mem_nil
  room _ ht := absurd ht List.not_mem_nil
  tables _ ht := absurd ht List.not_mem_nil
  nextIfd _ ht := absurd ht List.not_mem_nil

theorem Linked.append {l1 l2 : Laid} (h1 : Linked next l1) (h2 : Linked next l2) (stop : ℕ) :
    Linked next ⟨l1.slots ++ l2.slots, l1.pieces ++ l2.pieces, stop⟩ where
  slots s hs := by
    rcases List.mem_append.1 hs with hs | hs
    · exact (h1.slots s hs).mono (List.subset_append_left _ _)
    · exact (h2.slots s hs).mono (List.subset_append_right _ _)
  room t ht := (List.mem_append.1 ht).elim (h1.room t) (h2.room t)
  tables t ht s hs := by
    rcases List.mem_append.1 ht with ht | ht
    · exact (h1.tables t ht s hs).mono (List.subset_append_left _ _)
    · exact (h2.tables t ht s hs).mono (List.subset_append_right _ _)
  nextIfd t ht := (List.mem_append.1 ht).elim (h1.nextIfd t) (h2.nextIfd t)

theorem linked_seq (h1 : ∀ v, Linked next (lay1 v)) (h2 : ∀ v, Linked next (lay2 v)) (v : ℕ) :
    Linked next (lay1.seq lay2 v) := (h1 v).append (h2 _) _

/-- the last word of an entry with values of its own -/
theorem field_word {f : Field} {l : List UInt8} (hv : f.values = some l) (hw : f.inWord = false) (offset : ℕ) :
    (f.ifdInfo offset).offsetValue = offset := by
  obtain ⟨tag, type, count, ptr⟩ := f
  have hlong : (Field.ifdInfo ⟨tag, type, count, ptr⟩ offset) = ⟨tag, type, count, offset⟩ := by
    cases ptr with
    | rational ptr => rfl
    | long ptr =>
      by_cases hc : count ≤ 1
      · simp [Field.values, hc] at hv
      · simp [Field.ifdInfo, hc]
    | short ptr =>
      by_cases hc : count ≤ 2
      · simp [Field.values, hc] at hv
      · simp [Field.ifdInfo, hc]
    | byte ptr =>
      by_cases hc : count ≤ 4
      · simp [Field.values, hc] at hv
      · simp [Field.ifdInfo, hc]
  rw [hlong]
  cases type <;> simp_all [IfdInfo.offsetValue, Field.inWord]

theorem linked_field (f : Field) (v : ℕ) : Linked next (layField APP1_RESERVED f v) := by
  unfold layField
  cases hv : f.values with
  | none =>
    refine ⟨?_, fun _ ht => absurd ht List.not_mem_nil, fun _ ht => absurd ht List.not_mem_nil,
      fun _ ht => absurd ht List.not_mem_nil⟩
    intro s hs
    rw [List.mem_singleton.1 hs]
    exact linkedSlot_none (by simp [Field.slot, hv])
  | some l =>
    have hno : ∀ t, Piece.table t ∉ [Piece.values ⟨v, l⟩] := fun t ht => by simp at ht
    refine ⟨?_, fun t ht => absurd ht (hno t), fun t ht => absurd ht (hno t), fun t ht => absurd ht (hno t)⟩
    intro s hs target ht
    rw [List.mem_singleton.1 hs] at ht ⊢
    cases hw : f.inWord with
    | true => simp [Field.slot, hv, hw] at ht
    | false =>
      have htarget : v = target := by simpa [Field.slot, hv, hw] using ht
      rw [← htarget]
      exact ⟨field_word hv hw _, _, List.mem_singleton_self _, rfl⟩

theorem linked_fields (fs : List (Option Field)) (v : ℕ) : Linked next (layFields APP1_RESERVED fs v) := by
  induction fs generalizing v with
  | nil => exact linked_skip v
  | cons f fs ih =>
    cases f with
    | none => exact ih v
    | some f => exact linked_seq (linked_field f) ih v

theorem linked_table {room : ℕ} {nextIfd : Laid → Option ℕ} (h : ∀ v, Linked next (lay v))
    (hroom : ∀ v, (lay v).slots.length ≤ room) (b : ℕ)
    (hnext : ∀ target, nextIfd (lay (valuesFrom room b)) = some target → next target) :
    Linked next (layTable room nextIfd lay b) where
  slots _ hs := absurd hs List.not_mem_nil
  room t ht := by
    rcases List.mem_cons.1 ht with ht | ht
    · rw [Piece.table.inj ht]
      exact hroom _
    · exact (h _).room t ht
  tables t ht s hs := by
    refine LinkedSlot.mono ?_ (List.subset_cons_self _ _)
    rcases List.mem_cons.1 ht with ht | ht
    · rw [Piece.table.inj ht] at hs
      exact (h _).slots s hs
    · exact (h _).tables t ht s hs
  nextIfd t ht target htarget := by
    rcases List.mem_cons.1 ht with ht | ht
    · rw [Piece.table.inj ht] at htarget
      exact hnext target htarget
    · exact (h _).nextIfd t ht target htarget

theorem starts_table (room : ℕ) (nextIfd : Laid → Option ℕ) (lay : Lay) (b : ℕ) :
    Starts (layTable room nextIfd lay b).pieces b := ⟨_, List.mem_cons_self, rfl⟩

theorem linked_subIFD (tag : ℕ) {table : Lay} (h : ∀ b, Linked next (table b)) (hstart : ∀ b, Starts (table b).pieces b)
    (v : ℕ) : Linked next (laySubIFD tag APP1_RESERVED table v) where
  slots s hs target ht := by
    rw [List.mem_singleton.1 hs] at ht ⊢
    obtain rfl := Option.some.inj ht
    exact ⟨rfl, hstart _⟩
  room := (h _).room
  tables := (h _).tables
  nextIfd := (h _).nextIfd

theorem linked_optional {α : Type} (o : Option α) {lay : α → Lay} (h : ∀ a v, Linked next (lay a v)) (v : ℕ) :
    Linked next (o.elim Lay.skip lay v) := by
  cases o with
  | none => exact linked_skip v
  | some a => exact h a v

/-- a table of fields -/
theorem linked_tableOfFields {room : ℕ} (fs : List (Option Field)) (hroom : fs.length ≤ room) (b : ℕ) :
    Linked next (layTable room (fun _ => none) (layFields APP1_RESERVED fs) b) :=
  linked_table (linked_fields fs) (fun v => (length_layFields_le _ fs v).trans hroom) b fun _ h => by simp at h

theorem linked_specInfo (spec : SpecificInfo) (inter : Option InteroperabilityInfo) (b : ℕ) :
    Linked next (laySpecInfo APP1_RESERVED spec inter b) := by
  refine linked_table (linked_seq (linked_fields _) (linked_seq ?_ (linked_fields _))) (length_specBody_le spec inter) b
    fun _ h => by simp at h
  exact linked_optional inter fun i => linked_subIFD _ (linked_tableOfFields _ le_rfl) (starts_table _ _ _)

section Segment

variable (primary : PrimaryInfo) (spec : Option SpecificInfo) (gps : Option GpsInfo)
  (inter : Option InteroperabilityInfo) (info : ExifInfo) (thumbnail : List UInt8)

theorem linked_behind (v : ℕ) : Linked next (layBehind APP1_RESERVED primary spec gps inter v) := by
  refine linked_seq (linked_fields _) (linked_seq ?_ ?_) v
  · exact linked_optional spec fun spec => linked_subIFD _ (linked_specInfo spec inter) (starts_table _ _ _)
  · exact linked_optional gps fun gps => linked_subIFD _ (linked_tableOfFields _ le_rfl) (starts_table _ _ _)

/-- the thumbnail with its two entries -/
theorem linked_thumbnail (start : ℕ) :
    Linked next ⟨thumbnailSlots APP1_RESERVED start thumbnail,
      if 0 < thumbnail.length then [.values ⟨start, thumbnail⟩] else [], start + thumbnail.length⟩ := by
  by_cases hne : 0 < thumbnail.length
  · simp only [thumbnailSlots, if_pos hne]
    have hno : ∀ t, Piece.table t ∉ [Piece.values ⟨start, thumbnail⟩] := fun t ht => by simp at ht
    refine ⟨?_, fun t ht => absurd ht (hno t), fun t ht => absurd ht (hno t), fun t ht => absurd ht (hno t)⟩
    intro s hs target ht
    rcases List.mem_cons.1 hs with rfl | hs
    · obtain rfl := Option.some.inj ht
      exact ⟨rfl, _, List.mem_singleton_self _, rfl⟩
    · rw [List.mem_singleton.1 hs] at ht
      exact absurd ht (by simp)
  · simp only [thumbnailSlots, if_neg hne]
    exact ⟨fun _ hs => absurd hs List.not_mem_nil, fun _ ht => absurd ht List.not_mem_nil,
      fun _ ht => absurd ht List.not_mem_nil, fun _ ht => absurd ht List.not_mem_nil⟩

theorem linked_ifdBody (v : ℕ) : Linked next (layIFDBody APP1_RESERVED primary spec gps inter thumbnail v) := by
  have hbefore := @linked_fields next (primaryFieldsBefore primary) v
  have hbehind := @linked_behind next primary spec gps inter
    (layFields APP1_RESERVED (primaryFieldsBefore primary) v).stop
  have hthumbnail := @linked_thumbnail next thumbnail (layBehind APP1_RESERVED primary spec gps inter
    (layFields APP1_RESERVED (primaryFieldsBefore primary) v).stop).stop
  have hall := (hbefore.append hbehind 0).append hthumbnail 0
  refine ⟨fun s hs => hall.slots s ?_, hall.room, hall.tables, hall.nextIfd⟩
  simp only [layIFDBody, List.mem_append] at hs ⊢
  tauto

theorem linked_IFD (isNextIfdExist : Bool) (b : ℕ)
    (hnext : ∀ target, (if isNextIfdExist then some (layIFDBody APP1_RESERVED primary spec gps inter thumbnail
      (valuesFrom 24 b)).stop else none) = some target → next target) :
    Linked next (layIFD APP1_RESERVED primary spec gps inter thumbnail isNextIfdExist b) :=
  linked_table (linked_ifdBody primary spec gps inter thumbnail) (length_ifdBody_le primary spec gps inter thumbnail) b
    hnext

/-- **Every stored offset is the start of a piece.** -/
theorem linked_layIFDs : Linked (Starts (layIFDs info thumbnail).pieces) (layIFDs info thumbnail) := by
  rw [layIFDs_eq]
  by_cases hne : 0 < thumbnail.length
  · simp only [if_pos hne]
    refine @Linked.append _ (layIFD0 info thumbnail) _ (linked_IFD _ _ _ _ _ _ _ ?_)
      (linked_IFD _ _ _ _ _ _ _ fun target h => by simp at h) _
    intro target htarget
    simp only [hne, decide_true, if_true] at htarget
    obtain rfl := Option.some.inj htarget
    refine Starts.mono (starts_table 24 _ _ _) (List.subset_append_right _ _)
  · simp only [if_neg hne]
    exact linked_IFD _ _ _ _ _ _ _ fun target h => by simp [hne] at h

end Segment

/-! ## The segment in memory -/

section InPlace

variable {m : ℕ → UInt8} {t : Table}

/-- the parts of a table -/
theorem table_parts (h : Holds m (t.block APP1_RESERVED)) :
    Holds m ⟨t.start, be16Bytes t.slots.length⟩ ∧
    Holds m ⟨t.start + 2, t.slots.flatMap Slot.bytes⟩ ∧
    Holds m ⟨t.start + 2 + 12 * t.slots.length, be32Bytes (stored APP1_RESERVED t.nextIfd)⟩ := by
  simp only [Table.block, dirBytes, holds_append_iff, List.length_append, length_be16Bytes, length_raws,
    List.length_map] at h
  obtain ⟨⟨hcount, hslots⟩, hnext⟩ := h
  rw [List.flatMap_map] at hslots
  rw [← Nat.add_assoc] at hnext
  exact ⟨hcount, hslots, hnext⟩

/-- the last word of an entry -/
theorem slot_word (h : Holds m (t.block APP1_RESERVED)) {k : ℕ} (hk : k < t.slots.length)
    (hword : t.slots[k].word < 2 ^ 32) : be32 m (t.start + 2 + 12 * k + 8) = t.slots[k].word := by
  have hslot := holds_flatMap length_slot_bytes (table_parts h).2.1 hk
  simp only [Slot.bytes, Raw.bytes, holds_append_iff, List.length_append, length_be16Bytes, length_be32Bytes] at hslot
  exact be32_of_holds hslot.2 hword

end InPlace

/-- the pieces of a segment are sound where they stand -/
theorem sound_of_holds {m : ℕ → UInt8} {bufSize : ℕ} (info : ExifInfo) (thumbnail : List UInt8)
    (hifh : Holds m ifhBlock) (hpieces : ∀ p ∈ (layIFDs info thumbnail).pieces, Holds m (p.block APP1_RESERVED))
    (hfits : ∀ p ∈ (layIFDs info thumbnail).pieces, (p.block APP1_RESERVED).stop ≤ bufSize)
    (hstop : (layIFDs info thumbnail).stop ≤ 65535) :
    Sound m bufSize (layIFDs info thumbnail).stop (layIFDs info thumbnail).pieces := by
  have hord := ordered_layIFDs info thumbnail
  have hlink := linked_layIFDs info thumbnail
  have hmem : ∀ p ∈ (layIFDs info thumbnail).pieces, APP1_RESERVED + 8 ≤ (p.block APP1_RESERVED).start ∧
      (p.block APP1_RESERVED).stop ≤ (layIFDs info thumbnail).stop :=
    fun p hp => Ascending.mem (List.mem_map_of_mem hp) hord
  -- a piece's start as it is stored, and back
  have hback : ∀ target, Starts (layIFDs info thumbnail).pieces target →
      target - APP1_RESERVED < 2 ^ 32 ∧ target - APP1_RESERVED + APP1_RESERVED = target := by
    rintro target ⟨p, hp, rfl⟩
    obtain ⟨hlo, hhi⟩ := hmem p hp
    have hle : (p.block APP1_RESERVED).start ≤ (p.block APP1_RESERVED).stop := Nat.le_add_right _ _
    omega
  have hfew : ∀ t, Piece.table t ∈ (layIFDs info thumbnail).pieces → t.slots.length < 2 ^ 16 := by
    intro t ht
    have hhi : t.start + (t.block APP1_RESERVED).cells.length ≤ _ := (hmem _ ht).2
    rw [length_table_block] at hhi
    omega
  refine ⟨fun p hp => ⟨?_, (hmem p hp).2, hfits p hp⟩, hord.pairwise, ?_, ?_, ?_, ?_⟩
  · exact (Nat.le_add_right _ _).trans (hmem p hp).1
  · intro t ht
    exact ⟨be16_of_holds (table_parts (hpieces _ ht)).1 (hfew t ht), hlink.room t ht⟩
  · intro t ht k hk target htarget
    obtain ⟨hword, hstart⟩ := hlink.tables t ht _ (List.getElem_mem hk) target htarget
    obtain ⟨hlt, heq⟩ := hback target hstart
    rw [slot_word (hpieces _ ht) hk (hword ▸ hlt), hword]
    exact ⟨heq, hstart⟩
  · intro t ht target htarget
    have hstart := hlink.nextIfd t ht target htarget
    obtain ⟨hlt, heq⟩ := hback target hstart
    have hnext := (table_parts (hpieces _ ht)).2.2
    rw [htarget] at hnext
    rw [be32_of_holds hnext hlt]
    exact ⟨heq, hstart⟩
  · have hofs : be32 m (APP1_RESERVED + 4) = 8 := by
      simp only [ifhBlock, holds_append_iff] at hifh
      exact be32_of_holds hifh.2 (by decide)
    rw [hofs, layIFDs_eq]
    split
    · exact Starts.mono (starts_table 24 _ _ _) (List.subset_append_left _ _)
    · exact starts_table 24 _ _ _

/-! ## APP1 -/

section App1

variable {targetBuf m : ℕ → UInt8} {targetBufSize app1Size endOffset : ℕ} {info : ExifInfo} {thumbnail : List UInt8}
  {s : WriteStream}

/-- the 10 bytes in front of the IFH -/
def app1Header (app1Length : ℕ) : List UInt8 := [0xFF, 0xE1] ++ be16Bytes app1Length ++ exifId

theorem writeAPP1Header_fits (app1Length : ℕ) (h : 10 ≤ s.writeBufSize) :
    writeAPP1Header s 0 app1Length =
      some (⟨store s.writeBuf 0 (app1Header app1Length), s.writeBufSize, 10⟩, 10) := by
  rw [writeAPP1Header, setWritePos_fits (Nat.zero_le _)]
  show (writeC _ _).ok.bind _ = _
  rw [writeC_fits _ (by simp only; omega)]
  show (writeC (WriteStream.put _ _) _).ok.bind _ = _
  rw [writeC_fits _ (by simp only [put_size, put_ptr, List.length_singleton]; omega), put_put]
  show (writeW (WriteStream.put _ _) _).ok.bind _ = _
  rw [writeW_fits _ (by simp only [put_size, put_ptr, List.length_append, List.length_singleton]; omega), put_put]
  show (writeBlock (WriteStream.put _ _) exifId).ok.bind _ = _
  have hid : exifId.length = 6 := rfl
  rw [writeBlock_fits _ (by
    simp only [put_size, put_ptr, List.length_append, List.length_singleton, length_be16Bytes]; omega), put_put]
  show some (_, getWritePos _) = _
  rw [getWritePos_fits (by
    simp only [put_size, put_ptr, List.length_append, List.length_singleton, length_be16Bytes]; omega)]
  rfl

/-- what a successful `Jpeg_WriteAPP1` has done -/
theorem writeAPP1_some (h : writeAPP1 targetBuf targetBufSize info thumbnail = some (m, app1Size)) :
    10 ≤ targetBufSize ∧ ∃ s endOffset, writeIFDs ⟨targetBuf, targetBufSize, 0⟩ info thumbnail = some (s, endOffset) ∧
      app1Size = app1Length endOffset + 2 ∧
      ∃ s' stop, writeAPP1Header s 0 (app1Length endOffset) = some (s', stop) ∧ m = s'.writeBuf := by
  rw [writeAPP1] at h
  by_cases hsize : targetBufSize < 10
  · rw [if_pos hsize] at h
    exact absurd h (by simp)
  · rw [if_neg hsize] at h
    refine ⟨Nat.le_of_not_lt hsize, ?_⟩
    cases hifds : writeIFDs ⟨targetBuf, targetBufSize, 0⟩ info thumbnail with
    | none =>
      rw [hifds] at h
      exact absurd h (by simp)
    | some r =>
      obtain ⟨s, endOffset⟩ := r
      rw [hifds] at h
      change (writeAPP1Header s 0 (app1Length endOffset)).bind _ = _ at h
      cases hheader : writeAPP1Header s 0 (app1Length endOffset) with
      | none =>
        rw [hheader] at h
        exact absurd h (by simp)
      | some r =>
        obtain ⟨s', stop⟩ := r
        rw [hheader] at h
        obtain ⟨hm, hn⟩ := Prod.mk.inj (Option.some.inj h)
        exact ⟨s, endOffset, rfl, hn.symm, s', stop, hheader, hm.symm⟩

/-- the segment that has room, in the target buffer -/
theorem written_app1 (h : writeAPP1 targetBuf targetBufSize info thumbnail = some (m, app1Size))
    (hfits : ∀ p ∈ (layIFDs info thumbnail).pieces, (p.block APP1_RESERVED).stop ≤ targetBufSize) :
    app1Size = app1Length (layIFDs info thumbnail).stop + 2 ∧ Holds m ifhBlock ∧
      ∀ p ∈ (layIFDs info thumbnail).pieces, Holds m (p.block APP1_RESERVED) := by
  obtain ⟨hsize, s, endOffset, hifds, hn, s', stop, hheader, rfl⟩ := writeAPP1_some h
  obtain ⟨s0, hs0, hwritten⟩ := writeIFDs_fits info thumbnail ⟨targetBuf, targetBufSize, 0⟩ hfits
  rw [hs0] at hifds
  obtain ⟨rfl, rfl⟩ := Prod.mk.inj (Option.some.inj hifds)
  rw [writeAPP1Header_fits _ (by rw [hwritten.size]; exact hsize)] at hheader
  obtain ⟨rfl, -⟩ := Prod.mk.inj (Option.some.inj hheader)
  have hbehind : ∀ i, APP1_RESERVED ≤ i → store s0.writeBuf 0 (app1Header (app1Length (layIFDs info thumbnail).stop)) i =
      s0.writeBuf i := by
    intro i hi
    refine store_outside _ _ (Or.inr ?_)
    rw [Nat.zero_add]
    exact hi
  refine ⟨hn, hwritten.ifh.of_eq fun i hi _ => hbehind i hi, fun p hp => ?_⟩
  have hstart := (Ascending.mem (List.mem_map_of_mem hp) (ordered_layIFDs info thumbnail)).1
  exact (hwritten.pieces p hp).of_eq fun i hi _ => hbehind i (by omega)

/-- **Layout soundness.** A segment below 64 KiB is sound exactly when its pieces have room in the buffer. -/
theorem writeAPP1_sound_iff (h : writeAPP1 targetBuf targetBufSize info thumbnail = some (m, app1Size))
    (hifds : writeIFDs ⟨targetBuf, targetBufSize, 0⟩ info thumbnail = some (s, endOffset)) (hend : endOffset ≤ 65535) :
    Sound m targetBufSize endOffset (layIFDs info thumbnail).pieces ↔
      ∀ p ∈ (layIFDs info thumbnail).pieces, (p.block APP1_RESERVED).stop ≤ targetBufSize := by
  constructor
  · exact fun hsound p hp => (hsound.inside p hp).2.2
  · intro hfits
    obtain ⟨s0, hs0, -⟩ := writeIFDs_fits info thumbnail ⟨targetBuf, targetBufSize, 0⟩ hfits
    rw [hs0] at hifds
    obtain ⟨-, rfl⟩ := Prod.mk.inj (Option.some.inj hifds)
    obtain ⟨-, hifh, hpieces⟩ := written_app1 h hfits
    exact sound_of_holds info thumbnail hifh hpieces hfits hend

/-- a picture with a copyright of four letters -/
def copyrightInfo : ExifInfo where
  primary :=
    { basic := { yCbCrPositioning := 1, xResolution := ⟨72, 1⟩, yResolution := ⟨72, 1⟩, resolutionUnit := 2,
                 imageWidth := 640, imageLength := 480 }
      dataStruct := none
      dataChar := none
      imgDesc := some
        { valid := ⟨false, false, false, false, false, false, true⟩
          dateTime := fun _ => 0
          imageDescription := ⟨[0], by decide⟩
          make := ⟨[0], by decide⟩
          model := ⟨[0], by decide⟩
          software := ⟨[0], by decide⟩
          artist := ⟨[0], by decide⟩
          copyright := ⟨[97, 98, 99, 100, 0], by decide⟩ } }
  spec := none
  gps := none
  inter := none

theorem writeAPP1_sound_iff_copyright :
    ∃ m, writeAPP1 (fun _ => 0) 400 copyrightInfo [] = some (m, 336) ∧
      Sound m 400 336 (layIFDs copyrightInfo []).pieces := by
  obtain ⟨s, hifds⟩ : ∃ s, writeIFDs ⟨fun _ => 0, 400, 0⟩ copyrightInfo [] = some (s, 336) := ⟨_, rfl⟩
  obtain ⟨m, happ⟩ : ∃ m, writeAPP1 (fun _ => 0) 400 copyrightInfo [] = some (m, 336) := ⟨_, rfl⟩
  exact ⟨m, happ, (writeAPP1_sound_iff happ hifds (by decide)).2 (by decide)⟩

/-- in a buffer that ends inside the copyright, the segment is written all the same -/
theorem copyright_cut :
    ¬ ∀ (targetBuf : ℕ → UInt8) (targetBufSize : ℕ) (info : ExifInfo) (thumbnail : List UInt8) (m : ℕ → UInt8)
      (app1Size : ℕ) (s : WriteStream) (endOffset : ℕ),
      writeAPP1 targetBuf targetBufSize info thumbnail = some (m, app1Size) →
      writeIFDs ⟨targetBuf, targetBufSize, 0⟩ info thumbnail = some (s, endOffset) → endOffset ≤ 65535 →
      Sound m targetBufSize endOffset (layIFDs info thumbnail).pieces := by
  intro h
  obtain ⟨s, hifds⟩ : ∃ s, writeIFDs ⟨fun _ => 0, 330, 0⟩ copyrightInfo [] = some (s, 328) := ⟨_, rfl⟩
  obtain ⟨m, happ⟩ : ∃ m, writeAPP1 (fun _ => 0) 330 copyrightInfo [] = some (m, 328) := ⟨_, rfl⟩
  have hsound := h _ _ _ _ _ _ _ _ happ hifds (by decide)
  have hcut : ∃ p ∈ (layIFDs copyrightInfo []).pieces, 330 < (p.block APP1_RESERVED).stop := by decide
  obtain ⟨p, hp, hout⟩ := hcut
  have hin := (hsound.inside p hp).2.2
  omega

end App1

end SprdDevice.Exif
