/-
The segment of the EXIF writer where the layout has it: the tables by their functions, IFD0 or IFD1 with the thumbnail
behind it, and everything behind the IFH.

Results: `stretch_ifdBody`, `ordered_layIFDs` (the pieces lie one behind the other) and `writeIFDs_fits` (with room for
its pieces a segment is written in whole).
-/
import SprdDevice.Exif.Layout

namespace SprdDevice.Exif

open SprdDevice.Memory SprdDevice.Word SprdDevice.Blocks SprdDevice.Tiff

section Tables

variable {ifhOffset : ℕ}

/-! ## The tables of the writer -/

/-- a table of fields -/
theorem writesTable_fields {room : ℕ} (fs : List (Option Field)) (hroom : fs.length ≤ room) :
    WritesTable ifhOffset (tableBy room (writeFields ifhOffset fs) fun _ => 0)
      (layTable room (fun _ => none) (layFields ifhOffset fs)) :=
  writesTable (stretch_fields ifhOffset fs) (fun v => (length_layFields_le ifhOffset fs v).trans hroom) fun _ _ _ => rfl

theorem writesTable_interoperability (inter : InteroperabilityInfo) :
    WritesTable ifhOffset (fun s b => writeExifInteroperabilityInfo s inter ifhOffset b)
      (layInteroperabilityInfo ifhOffset inter) :=
  writesTable_fields (interoperabilityFields inter) le_rfl

theorem writesTable_GPS (gps : GpsInfo) :
    WritesTable ifhOffset (fun s b => writeExifGPSInfo s gps ifhOffset b) (layGPSInfo ifhOffset gps) :=
  writesTable_fields (gpsFields gps) le_rfl

/-- the pointer that is there when its structure is -/
theorem stretch_optional {α : Type} (o : Option α) {run : α → Cursor → Option Cursor} {lay : α → Lay}
    (h : ∀ a, Stretch ifhOffset (run a) (lay a)) :
    Stretch ifhOffset (writeGiven o run) (o.elim Lay.skip lay) := by
  cases o with
  | none => exact stretch_skip
  | some a => exact h a

theorem aligned_optional {α : Type} (o : Option α) {lay : α → Lay} (h : ∀ a, (lay a).Aligned) :
    (o.elim Lay.skip lay).Aligned := by
  cases o with
  | none => exact aligned_skip
  | some a => exact h a

theorem length_optional_le {α : Type} (o : Option α) {lay : α → Lay} (h : ∀ a v, (lay a v).slots.length ≤ 1) (v : ℕ) :
    (o.elim Lay.skip lay v).slots.length ≤ 1 := by
  cases o with
  | none => exact Nat.zero_le _
  | some a => exact h a v

/-- what `Jpeg_WriteExifSpecInfo` does between the two ends of its table -/
def specBody (ifhOffset : ℕ) (spec : SpecificInfo) (inter : Option InteroperabilityInfo) (c : Cursor) : Option Cursor :=
  writeFields ifhOffset (specFieldsBefore spec) c >>= fun c =>
    writeGiven inter
      (fun i => writeSubIFD 0xA005 ifhOffset fun s b => writeExifInteroperabilityInfo s i ifhOffset b) c >>=
    writeFields ifhOffset (specFieldsBehind spec)

theorem writeExifSpecInfo_eq (spec : SpecificInfo) (inter : Option InteroperabilityInfo) (ifhOffset : ℕ) :
    (fun s b => writeExifSpecInfo s spec inter ifhOffset b) = tableBy 57 (specBody ifhOffset spec inter) fun _ => 0 := by
  funext s b
  simp only [tableBy, specBody, bind_assoc]
  rfl

theorem aligned_interoperability (inter : Option InteroperabilityInfo) :
    (inter.elim Lay.skip fun i => laySubIFD 0xA005 ifhOffset (layInteroperabilityInfo ifhOffset i)).Aligned :=
  aligned_optional inter fun _ => aligned_subIFD _ (aligned_table (aligned_fields _ _))

theorem length_specBody_le (spec : SpecificInfo) (inter : Option InteroperabilityInfo) (v : ℕ) :
    (((layFields ifhOffset (specFieldsBefore spec)).seq <|
      (inter.elim Lay.skip fun inter => laySubIFD 0xA005 ifhOffset (layInteroperabilityInfo ifhOffset inter)).seq <|
        layFields ifhOffset (specFieldsBehind spec)) v).slots.length ≤ 57 := by
  have hbefore := length_layFields_le ifhOffset (specFieldsBefore spec)
  have hptr : ∀ v, (inter.elim Lay.skip
      (fun i => laySubIFD 0xA005 ifhOffset (layInteroperabilityInfo ifhOffset i)) v).slots.length ≤ 1 :=
    length_optional_le inter fun _ _ => le_rfl
  have hbehind := length_layFields_le ifhOffset (specFieldsBehind spec)
  simp only [Lay.seq, List.length_append]
  exact Nat.add_le_add (hbefore _) (Nat.add_le_add (hptr _) (hbehind _))

theorem aligned_specInfo (spec : SpecificInfo) (inter : Option InteroperabilityInfo) :
    (laySpecInfo ifhOffset spec inter).Aligned :=
  aligned_table ((aligned_fields _ _).seq ((aligned_interoperability inter).seq (aligned_fields _ _)))

theorem writesTable_spec (spec : SpecificInfo) (inter : Option InteroperabilityInfo) :
    WritesTable ifhOffset (fun s b => writeExifSpecInfo s spec inter ifhOffset b) (laySpecInfo ifhOffset spec inter) := by
  have hinter := stretch_optional inter fun i => stretch_subIFD 0xA005 (@writesTable_interoperability ifhOffset i)
  have hbody := (stretch_fields ifhOffset (specFieldsBefore spec)).seq (aligned_fields _ _)
    (hinter.seq (aligned_interoperability inter) (stretch_fields ifhOffset (specFieldsBehind spec)))
  rw [writeExifSpecInfo_eq]
  exact writesTable hbody (length_specBody_le spec inter) fun _ _ _ => rfl

/-! ## The thumbnail -/

/-- the entries of the thumbnail while its place is not known -/
def firstThumbnailSlots (thumbnail : List UInt8) : List Slot :=
  if 0 < thumbnail.length then [⟨⟨0x201, 4, 1, 0⟩, none⟩, ⟨⟨0x202, 4, 1, thumbnail.length % 2 ^ 32⟩, none⟩] else []

theorem layThumbnailFields (ifhOffset : ℕ) (thumbnail : List UInt8) (v : ℕ) :
    layFields ifhOffset (thumbnailFields thumbnail) v = ⟨firstThumbnailSlots thumbnail, [], v⟩ := by
  unfold thumbnailFields firstThumbnailSlots block
  by_cases h : 0 < thumbnail.length
  · simp only [h, decide_true, if_true]
    rfl
  · simp only [h, decide_false, if_false]
    rfl

theorem writeThumbnail_fits {thumbnailIfdOffset : ℕ} {thumbnail : List UInt8} (hne : 0 < thumbnail.length)
    (hifd : thumbnailIfdOffset + 12 ≤ c.stream.writeBufSize)
    (hvalue : c.ifdValueOffset + thumbnail.length ≤ c.stream.writeBufSize) :
    writeThumbnail ifhOffset thumbnailIfdOffset thumbnail c =
      some { c with
        stream := ⟨store (store c.stream.writeBuf c.ifdValueOffset thumbnail) thumbnailIfdOffset
            (⟨⟨0x201, 4, 1, c.ifdValueOffset - ifhOffset⟩, some c.ifdValueOffset⟩ : Slot).bytes,
          c.stream.writeBufSize, thumbnailIfdOffset + 12⟩
        ifdValueOffset := c.ifdValueOffset + thumbnail.length } := by
  rw [writeThumbnail, if_pos hne, setWritePos_fits (by omega)]
  show (writeBlock _ thumbnail).ok.bind _ = _
  rw [writeBlock_fits _ (by simpa using hvalue)]
  show (writeLongIFD (setWritePos _ thumbnailIfdOffset).2 _ _ thumbnailIfdOffset (getWritePos _)).bind _ = _
  rw [setWritePos_fits (by simp only [put_size]; omega), getWritePos_fits (by simpa using hvalue), writeLongIFD,
    if_pos (le_refl 1), writeEntry_inline false (by simpa using hifd), pointer_bytes]
  rfl

theorem writeThumbnail_none {thumbnailIfdOffset : ℕ} (c : Cursor) :
    writeThumbnail ifhOffset thumbnailIfdOffset [] c = some c := rfl

/-- what `Jpeg_WriteExifIFD` does behind the thumbnail entries -/
def writeBehind (ifhOffset : ℕ) (primary : PrimaryInfo) (spec : Option SpecificInfo) (gps : Option GpsInfo)
    (inter : Option InteroperabilityInfo) (c : Cursor) : Option Cursor :=
  writeFields ifhOffset (primaryFieldsBehind primary) c >>= fun c =>
    writeGiven spec (fun spec => writeSubIFD 0x8769 ifhOffset fun s b => writeExifSpecInfo s spec inter ifhOffset b) c >>=
    writeGiven gps fun gps => writeSubIFD 0x8825 ifhOffset fun s b => writeExifGPSInfo s gps ifhOffset b

/-- what it does between the two ends of its table -/
def ifdBody (ifhOffset : ℕ) (primary : PrimaryInfo) (spec : Option SpecificInfo) (gps : Option GpsInfo)
    (inter : Option InteroperabilityInfo) (thumbnail : List UInt8) (c : Cursor) : Option Cursor :=
  writeFields ifhOffset (primaryFieldsBefore primary) c >>= fun c1 =>
    (writeFields ifhOffset (thumbnailFields thumbnail) c1 >>= writeBehind ifhOffset primary spec gps inter) >>=
      writeThumbnail ifhOffset c1.ifdOffset thumbnail

section Body

variable (primary : PrimaryInfo) (spec : Option SpecificInfo) (gps : Option GpsInfo)
  (inter : Option InteroperabilityInfo) (thumbnail : List UInt8)

theorem writeExifIFD_eq (isNextIfdExist : Bool) (ifhOffset : ℕ) :
    (fun s b => writeExifIFD s primary spec gps inter thumbnail isNextIfdExist ifhOffset b) =
      tableBy 24 (ifdBody ifhOffset primary spec gps inter thumbnail) fun c =>
        if isNextIfdExist then c.ifdValueOffset - ifhOffset else 0 := by
  funext s b
  simp only [tableBy, ifdBody, writeBehind, bind_assoc]
  rfl

theorem stretch_behind :
    Stretch ifhOffset (writeBehind ifhOffset primary spec gps inter) (layBehind ifhOffset primary spec gps inter) := by
  refine (stretch_fields ifhOffset _).seq (aligned_fields _ _) (Stretch.seq ?_ ?_ ?_)
  · exact stretch_optional spec fun spec => stretch_subIFD 0x8769 (writesTable_spec spec inter)
  · exact aligned_optional spec fun spec => aligned_subIFD _ (aligned_specInfo spec inter)
  · exact stretch_optional gps fun gps => stretch_subIFD 0x8825 (writesTable_GPS gps)

theorem aligned_behind : (layBehind ifhOffset primary spec gps inter).Aligned :=
  (aligned_fields _ _).seq ((aligned_optional spec fun spec => aligned_subIFD _ (aligned_specInfo spec inter)).seq
    (aligned_optional gps fun _ => aligned_subIFD _ (aligned_table (aligned_fields _ _))))

/-- the entries and the values, the thumbnail not yet in its place -/
theorem stretch_withoutThumbnail :
    Stretch ifhOffset
      (fun c => writeFields ifhOffset (primaryFieldsBefore primary) c >>= fun c =>
        writeFields ifhOffset (thumbnailFields thumbnail) c >>= writeBehind ifhOffset primary spec gps inter)
      ((layFields ifhOffset (primaryFieldsBefore primary)).seq
        ((layFields ifhOffset (thumbnailFields thumbnail)).seq (layBehind ifhOffset primary spec gps inter))) :=
  (stretch_fields ifhOffset _).seq (aligned_fields _ _)
    ((stretch_fields ifhOffset _).seq (aligned_fields _ _) (stretch_behind primary spec gps inter))

theorem layWithoutThumbnail (v : ℕ) :
    (layFields ifhOffset (primaryFieldsBefore primary)).seq
        ((layFields ifhOffset (thumbnailFields thumbnail)).seq (layBehind ifhOffset primary spec gps inter)) v =
      let before := layFields ifhOffset (primaryFieldsBefore primary) v
      let behind := layBehind ifhOffset primary spec gps inter before.stop
      ⟨before.slots ++ (firstThumbnailSlots thumbnail ++ behind.slots), before.pieces ++ behind.pieces, behind.stop⟩ := by
  simp only [Lay.seq, layThumbnailFields, List.nil_append]

/-- the pieces, without and with a thumbnail behind them -/
theorem ordered_ifdBody {v : ℕ} (hv : 4 ∣ v) :
    (layIFDBody ifhOffset primary spec gps inter thumbnail v).Ordered ifhOffset v := by
  have hboth := (@stretch_withoutThumbnail ifhOffset primary spec gps inter thumbnail).ordered v hv
  rw [layWithoutThumbnail] at hboth
  simp only [Laid.Ordered, layIFDBody, List.map_append] at hboth ⊢
  refine Ascending.append ?_ hboth
  by_cases hne : 0 < thumbnail.length
  · rw [if_pos hne]
    exact ⟨le_rfl, le_rfl⟩
  · rw [if_neg hne]
    exact Nat.le_add_right _ _

/-- the thumbnail, and its place in its entry -/
theorem extends_thumbnail {before behind : List Slot} {pieces : List Piece} {stop : ℕ} {c c' : Cursor}
    (hne : 0 < thumbnail.length)
    (h : Extends ifhOffset c c' ⟨before ++ (firstThumbnailSlots thumbnail ++ behind), pieces, stop⟩)
    (hord : Laid.Ordered ifhOffset c.ifdValueOffset ⟨[], pieces, stop⟩)
    (hbefore : c.ifdOffset + 12 * (before ++ (firstThumbnailSlots thumbnail ++ behind)).length ≤ c.ifdValueOffset) :
    Extends ifhOffset c
      { c' with
        stream := ⟨store (store c'.stream.writeBuf c'.ifdValueOffset thumbnail) (c.ifdOffset + 12 * before.length)
            (⟨⟨0x201, 4, 1, c'.ifdValueOffset - ifhOffset⟩, some c'.ifdValueOffset⟩ : Slot).bytes,
          c'.stream.writeBufSize, c.ifdOffset + 12 * before.length + 12⟩
        ifdValueOffset := c'.ifdValueOffset + thumbnail.length }
      ⟨before ++ thumbnailSlots ifhOffset stop thumbnail ++ behind, pieces ++ [.values ⟨stop, thumbnail⟩],
        stop + thumbnail.length⟩ := by
  have hvalue : c'.ifdValueOffset = stop := h.valueOffset
  have hstop : c.ifdValueOffset ≤ stop := hord.le
  have hslots := h.slots
  have hlen := h.ifdOffset
  have hentries := h.entries
  simp only [firstThumbnailSlots, if_pos hne] at hbefore hlen hslots hentries
  simp only [List.length_append, List.length_cons, List.length_nil] at hbefore hlen hentries
  simp only [List.flatMap_append, List.flatMap_cons, List.flatMap_nil, List.append_nil, holds_append_iff,
    length_slots, length_slot_bytes, List.length_append] at hslots
  obtain ⟨hs1, ⟨-, hs3⟩, hs4⟩ := hslots
  rw [hvalue]
  -- the two stores leave a block between the entry of the thumbnail and the thumbnail alone
  have haside : ∀ b : Block UInt8, (b.stop ≤ c.ifdOffset + 12 * before.length ∨
      c.ifdOffset + 12 * before.length + 12 ≤ b.start) → b.stop ≤ stop → Holds c'.stream.writeBuf b →
      Holds (store (store c'.stream.writeBuf stop thumbnail) (c.ifdOffset + 12 * before.length)
        (⟨⟨0x201, 4, 1, stop - ifhOffset⟩, some stop⟩ : Slot).bytes) b := by
    intro b hb hle hh
    refine hh.of_eq fun i hlo hhi => ?_
    rw [store_outside _ _ (by simp only [length_slot_bytes]; omega), store_outside _ _ (by omega)]
  refine ⟨h.size, ?_, rfl, ?_, ?_, ?_, ?_⟩
  · simp only [thumbnailSlots, if_pos hne, List.length_append, List.length_cons, List.length_nil]
    omega
  · simp only [thumbnailSlots, if_pos hne, List.length_append, List.length_cons, List.length_nil]
    omega
  · simp only [thumbnailSlots, if_pos hne, List.flatMap_append, List.flatMap_cons, List.flatMap_nil, List.append_nil,
      holds_append_iff, length_slots, length_slot_bytes, List.length_append]
    refine ⟨⟨haside _ (Or.inl ?_) ?_ hs1, holds_store _ _ _, haside _ (Or.inr ?_) ?_ hs3⟩, ?_⟩
    · simp only [Block.stop, length_slots]
      omega
    · simp only [Block.stop, length_slots]
      omega
    · simp only
      omega
    · simp only [Block.stop, length_slot_bytes]
      omega
    · rw [← Nat.add_assoc]
      refine haside _ (Or.inr ?_) ?_ hs4
      · simp only
        omega
      · simp only [Block.stop, length_slots]
        omega
  · intro p hp
    rcases List.mem_append.1 hp with hp | hp
    · obtain ⟨hlo, hhi⟩ := Laid.Ordered.mem hord hp
      exact haside _ (Or.inr (by omega)) hhi (h.pieces p hp)
    · rw [List.mem_singleton.1 hp]
      refine (holds_store _ _ _).of_eq fun i hlo _ => store_outside _ _ (Or.inr ?_)
      simp only [length_slot_bytes] at hlo ⊢
      omega
  · intro i hi
    simp only at hi ⊢
    rw [store_outside _ _ (by simp only [length_slot_bytes]; omega), store_outside _ _ (by omega)]
    exact h.untouched i (by simp only; omega)

/-- **IFD0 or IFD1 between the two ends.** -/
theorem stretch_ifdBody :
    Stretch ifhOffset (ifdBody ifhOffset primary spec gps inter thumbnail)
      (layIFDBody ifhOffset primary spec gps inter thumbnail) where
  ordered v hv := ordered_ifdBody primary spec gps inter thumbnail hv
  executes c hroom := by
    have hplain := @stretch_withoutThumbnail ifhOffset primary spec gps inter thumbnail
    have hord := hplain.ordered _ hroom.aligned
    have hexec := hplain.executes c
    rw [layWithoutThumbnail] at hord hexec
    have hlen : (thumbnailSlots ifhOffset
        (layBehind ifhOffset primary spec gps inter
          (layFields ifhOffset (primaryFieldsBefore primary) c.ifdValueOffset).stop).stop thumbnail).length =
        (firstThumbnailSlots thumbnail).length := by
      unfold thumbnailSlots firstThumbnailSlots
      split <;> rfl
    have hbefore := hroom.before
    have hslots := hroom.slots
    have hpieces := hroom.pieces
    simp only [layIFDBody, List.length_append, hlen] at hbefore hslots hpieces
    -- the cursor that the place of the thumbnail's entry is taken from
    obtain ⟨c1, hrun1, hext1⟩ := (stretch_fields ifhOffset (primaryFieldsBefore primary)).executes c
      ⟨hroom.aligned, by omega, by omega, fun p hp => hpieces p
        (List.mem_append_left _ (List.mem_append_left _ hp))⟩
    obtain ⟨c3, hrun3, hext3⟩ := hexec
      ⟨hroom.aligned, by simp only [List.length_append]; omega, by simp only [List.length_append]; omega,
        fun p hp => hpieces p (List.mem_append_left _ hp)⟩
    have hrun : ifdBody ifhOffset primary spec gps inter thumbnail c =
        writeThumbnail ifhOffset c1.ifdOffset thumbnail c3 := by
      simp only [hrun1] at hrun3
      rw [ifdBody, hrun1]
      show (writeFields ifhOffset (thumbnailFields thumbnail) c1 >>= writeBehind ifhOffset primary spec gps inter) >>=
        writeThumbnail ifhOffset c1.ifdOffset thumbnail = _
      have h3 : (writeFields ifhOffset (thumbnailFields thumbnail) c1 >>=
        writeBehind ifhOffset primary spec gps inter) = some c3 := hrun3
      rw [h3]
      rfl
    rw [hrun]
    by_cases hne : 0 < thumbnail.length
    · have hvalue := hpieces (.values ⟨_, thumbnail⟩)
        (List.mem_append_right _ (by rw [if_pos hne]; exact List.mem_singleton_self _))
      have hval3 := hext3.valueOffset
      simp only [Piece.block, Block.stop] at hvalue hval3
      refine ⟨_, writeThumbnail_fits hne ?_ ?_, ?_⟩
      · have hroom12 : 2 ≤ (firstThumbnailSlots thumbnail).length := by
          rw [firstThumbnailSlots, if_pos hne]
          exact le_rfl
        rw [hext3.size, hext1.ifdOffset]
        omega
      · rw [hext3.size, hval3]
        exact hvalue
      · have hfin := extends_thumbnail thumbnail hne hext3 hord
          (by simp only [List.length_append]; omega)
        simp only [layIFDBody, if_pos hne]
        rw [hext1.ifdOffset]
        exact hfin
    · have hnil : thumbnail = [] := List.eq_nil_of_length_eq_zero (by omega)
      subst hnil
      refine ⟨c3, rfl, ?_⟩
      simpa [layIFDBody, thumbnailSlots, firstThumbnailSlots] using hext3

theorem length_ifdBody_le (v : ℕ) : (layIFDBody ifhOffset primary spec gps inter thumbnail v).slots.length ≤ 24 := by
  have hbefore := length_layFields_le ifhOffset (primaryFieldsBefore primary)
  have hbehind := length_layFields_le ifhOffset (primaryFieldsBehind primary)
  have hspec : ∀ v, (spec.elim Lay.skip
      (fun spec => laySubIFD 0x8769 ifhOffset (laySpecInfo ifhOffset spec inter)) v).slots.length ≤ 1 :=
    length_optional_le spec fun _ _ => le_rfl
  have hgps : ∀ v, (gps.elim Lay.skip
      (fun gps => laySubIFD 0x8825 ifhOffset (layGPSInfo ifhOffset gps)) v).slots.length ≤ 1 :=
    length_optional_le gps fun _ _ => le_rfl
  have hthumbnail : ∀ n, (thumbnailSlots ifhOffset n thumbnail).length ≤ 2 := by
    intro n
    unfold thumbnailSlots
    split <;> simp
  simp only [layIFDBody, layBehind, Lay.seq, List.length_append]
  exact Nat.add_le_add (Nat.add_le_add (hbefore _) (hthumbnail _))
    (Nat.add_le_add (hbehind _) (Nat.add_le_add (hspec _) (hgps _)))

theorem writesTable_IFD (isNextIfdExist : Bool) :
    WritesTable ifhOffset
      (fun s b => writeExifIFD s primary spec gps inter thumbnail isNextIfdExist ifhOffset b)
      (layIFD ifhOffset primary spec gps inter thumbnail isNextIfdExist) := by
  rw [writeExifIFD_eq]
  refine writesTable (stretch_ifdBody primary spec gps inter thumbnail)
    (length_ifdBody_le primary spec gps inter thumbnail) fun c l hl => ?_
  rw [hl]
  cases isNextIfdExist <;> rfl

end Body

end Tables

/-! ## APP1 -/

/-- "MM", the fixed value and the offset of IFD0 -/
def ifhBlock : Block UInt8 := ⟨APP1_RESERVED, be16Bytes 0x4D4D ++ be16Bytes 0x002a ++ be32Bytes 8⟩

theorem writeIFH_fits {s : WriteStream} {beginOffset : ℕ} (h : beginOffset + 8 ≤ s.writeBufSize) :
    writeIFH s beginOffset =
      some (⟨store s.writeBuf beginOffset ifhBlock.cells, s.writeBufSize, beginOffset + 8⟩, beginOffset + 8) := by
  rw [writeIFH, setWritePos_fits (by omega)]
  show (writeW _ _).ok.bind _ = _
  rw [writeW_fits _ (by simp only; omega)]
  show (writeW (WriteStream.put _ _) _).ok.bind _ = _
  rw [writeW_fits _ (by simp only [put_size, put_ptr, length_be16Bytes]; omega), put_put]
  show (writeL (WriteStream.put _ _) _).ok.bind _ = _
  rw [writeL_fits _ (by simp only [put_size, put_ptr, List.length_append, length_be16Bytes]; omega), put_put]
  show some (_, getWritePos _) = _
  rw [getWritePos_fits (by
    simp only [put_size, put_ptr, List.length_append, length_be16Bytes, length_be32Bytes]; omega)]
  rfl

/-- where `Jpeg_WriteAPP1` puts everything when there is room for it -/
structure Written (s s' : WriteStream) (info : ExifInfo) (thumbnail : List UInt8) : Prop where
  size : s'.writeBufSize = s.writeBufSize
  ifh : Holds s'.writeBuf ifhBlock
  pieces : ∀ p ∈ (layIFDs info thumbnail).pieces, Holds s'.writeBuf (p.block APP1_RESERVED)
  untouched : ∀ i, i < APP1_RESERVED ∨ (layIFDs info thumbnail).stop ≤ i → s'.writeBuf i = s.writeBuf i

section App1

variable (info : ExifInfo) (thumbnail : List UInt8)

/-- IFD0 from its start on -/
def layIFD0 : Laid :=
  layIFD APP1_RESERVED info.primary info.spec info.gps info.inter [] (0 < thumbnail.length) (APP1_RESERVED + 8)

theorem layIFDs_eq :
    layIFDs info thumbnail =
      if 0 < thumbnail.length then
        let ifd1 := layIFD APP1_RESERVED ifd1Primary none none none thumbnail false (layIFD0 info thumbnail).stop
        ⟨[], (layIFD0 info thumbnail).pieces ++ ifd1.pieces, ifd1.stop⟩
      else layIFD0 info thumbnail := by
  unfold layIFDs
  by_cases hne : 0 < thumbnail.length
  · simp only [if_pos hne]
    rfl
  · simp only [if_neg hne, Lay.seq, Lay.skip, List.append_nil]
    rfl

theorem ordered_layIFDs : (layIFDs info thumbnail).Ordered APP1_RESERVED (APP1_RESERVED + 8) := by
  have h0 := (@writesTable_IFD APP1_RESERVED info.primary info.spec info.gps info.inter []
    (0 < thumbnail.length)).ordered (APP1_RESERVED + 8)
  rw [layIFDs_eq]
  by_cases hne : 0 < thumbnail.length
  · rw [if_pos hne]
    have h1 := (@writesTable_IFD APP1_RESERVED ifd1Primary none none none thumbnail false).ordered
      (layIFD0 info thumbnail).stop
    simp only [Laid.Ordered, List.map_append]
    exact Ascending.append h1 h0
  · rw [if_neg hne]
    exact h0

/-- **The segment.** When every piece ends inside the buffer, `Jpeg_WriteAPP1` gets to the end and all is in place. -/
theorem writeIFDs_fits (s : WriteStream)
    (hfits : ∀ p ∈ (layIFDs info thumbnail).pieces, (p.block APP1_RESERVED).stop ≤ s.writeBufSize) :
    ∃ s', writeIFDs s info thumbnail = some (s', (layIFDs info thumbnail).stop) ∧ Written s s' info thumbnail := by
  have hord := ordered_layIFDs info thumbnail
  have hw0 := @writesTable_IFD APP1_RESERVED info.primary info.spec info.gps info.inter []
    (0 < thumbnail.length)
  have hw1 := @writesTable_IFD APP1_RESERVED ifd1Primary none none none thumbnail false
  have hfits0 : ∀ p ∈ (layIFD0 info thumbnail).pieces, (p.block APP1_RESERVED).stop ≤ s.writeBufSize := by
    intro p hp
    apply hfits p
    rw [layIFDs_eq]
    split
    · exact List.mem_append_left _ hp
    · exact hp
  have hroom : APP1_RESERVED + 8 ≤ s.writeBufSize := by
    have htable := hfits0 _ List.mem_cons_self
    rw [Piece.block, Block.stop] at htable
    exact (Nat.le_add_right _ _).trans htable
  let s1 : WriteStream := ⟨store s.writeBuf APP1_RESERVED ifhBlock.cells, s.writeBufSize, APP1_RESERVED + 8⟩
  have hifh : writeIFH s APP1_RESERVED = some (s1, APP1_RESERVED + 8) := writeIFH_fits hroom
  obtain ⟨s2, hs2, hfill2⟩ := hw0.executes s1 (APP1_RESERVED + 8) hfits0
  have hstop0 : APP1_RESERVED + 8 ≤ (layIFD0 info thumbnail).stop := (hw0.ordered (APP1_RESERVED + 8)).le
  have hifh2 : Holds s2.writeBuf ifhBlock :=
    (holds_store s.writeBuf APP1_RESERVED ifhBlock.cells).of_eq fun i _ hi => hfill2.untouched i (Or.inl hi)
  have hsame2 : ∀ i, i < APP1_RESERVED ∨ (layIFD0 info thumbnail).stop ≤ i → s2.writeBuf i = s.writeBuf i := by
    intro i hi
    rw [hfill2.untouched i (by unfold layIFD0 at hi; omega)]
    refine store_outside _ _ ?_
    have hlen : ifhBlock.cells.length = 8 := rfl
    omega
  have hrun : writeIFDs s info thumbnail =
      if 0 < thumbnail.length then
        writeExifIFD s2 ifd1Primary none none none thumbnail false APP1_RESERVED (layIFD0 info thumbnail).stop
      else some (s2, (layIFD0 info thumbnail).stop) := by
    rw [writeIFDs, hifh]
    show (writeExifIFD s1 _ _ _ _ _ _ _ _).bind _ = _
    rw [hs2]
    by_cases hne : 0 < thumbnail.length
    · simp only [Option.bind_some, hne, decide_true, if_true]
      rfl
    · simp only [Option.bind_some, hne, decide_false, if_false]
      rfl
  rw [hrun]
  rw [layIFDs_eq] at hfits hord
  by_cases hne : 0 < thumbnail.length
  · simp only [if_pos hne] at hfits hord ⊢
    obtain ⟨s3, hs3, hfill3⟩ := hw1.executes s2 (layIFD0 info thumbnail).stop fun p hp =>
      hfill2.size ▸ hfits p (List.mem_append_right _ hp)
    have hstop1 := (hw1.ordered (layIFD0 info thumbnail).stop).le
    refine ⟨s3, ?_, ?_⟩
    · rw [hs3, layIFDs_eq, if_pos hne]
    · refine ⟨hfill3.size.trans hfill2.size, ?_, ?_, ?_⟩
      · exact hifh2.of_eq fun i _ hi => hfill3.untouched i (Or.inl (hi.trans_le hstop0))
      · intro p hp
        rw [layIFDs_eq, if_pos hne] at hp
        rcases List.mem_append.1 hp with hp | hp
        · obtain ⟨_, hhi⟩ := Ascending.mem (List.mem_map_of_mem hp) (hw0.ordered (APP1_RESERVED + 8))
          exact (hfill2.pieces p hp).of_eq fun i _ hi => hfill3.untouched i (Or.inl (hi.trans_le hhi))
        · exact hfill3.pieces p hp
      · intro i hi
        rw [layIFDs_eq, if_pos hne] at hi
        simp only at hi
        rw [hfill3.untouched i (by omega), hsame2 i (by omega)]
  · simp only [if_neg hne] at hfits hord ⊢
    refine ⟨s2, ?_, ?_⟩
    · rw [layIFDs_eq, if_neg hne]
    · refine ⟨hfill2.size, hifh2, ?_, ?_⟩
      · intro p hp
        rw [layIFDs_eq, if_neg hne] at hp
        exact hfill2.pieces p hp
      · intro i hi
        rw [layIFDs_eq, if_neg hne] at hi
        exact hsame2 i hi

end App1

end SprdDevice.Exif
