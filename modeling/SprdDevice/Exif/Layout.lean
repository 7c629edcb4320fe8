/-
Where the EXIF writer puts what: the tables and the blocks of values, in the order of their places, computed from the
structures alone. `Laid` is what a stretch of the writing of a table adds: its entries, the pieces behind the table, and
the value offset behind them.

Where the pieces of a stretch end inside the buffer, the writer succeeds, puts them there and leaves everything else alone.
Results: that for the fields (`stretch_fields`), for a table between its two ends (`writesTable`) and for an IFD pointer
with its table (`stretch_subIFD`).
-/
import SprdDevice.Lib.Tiff
import SprdDevice.Exif.Writer

namespace SprdDevice.Exif

open SprdDevice.Memory SprdDevice.Word SprdDevice.Blocks SprdDevice.Tiff

/-! ## Layout -/

/-- an entry of a table, and the start of the block that its last word points to -/
structure Slot extends Raw where
  ref : Option ℕ
deriving DecidableEq, Repr

def Slot.bytes (s : Slot) : List UInt8 := s.toRaw.bytes

/-- a table: the number of entries there is room for, its entries and the next IFD -/
structure Table where
  start : ℕ
  room : ℕ
  slots : List Slot
  nextIfd : Option ℕ

/-- the start of a block as it is stored: relative to the IFH -/
def stored (ifhOffset : ℕ) (target : Option ℕ) : ℕ := target.elim 0 (· - ifhOffset)

def Table.block (ifhOffset : ℕ) (t : Table) : Block UInt8 :=
  ⟨t.start, dirBytes (t.slots.map Slot.toRaw) (stored ifhOffset t.nextIfd)⟩

inductive Piece where
  | table (t : Table)
  | values (b : Block UInt8)

def Piece.block (ifhOffset : ℕ) : Piece → Block UInt8
  | .table t => t.block ifhOffset
  | .values b => b

structure Laid where
  slots : List Slot
  pieces : List Piece
  stop : ℕ

/-- from a value offset on -/
abbrev Lay := ℕ → Laid

def Lay.skip : Lay := fun valueOffset => ⟨[], [], valueOffset⟩

def Lay.seq (a b : Lay) : Lay := fun valueOffset =>
  let l := a valueOffset
  let r := b l.stop
  ⟨l.slots ++ r.slots, l.pieces ++ r.pieces, r.stop⟩

def rationalBytes (v : Rational) : List UInt8 := be32Bytes v.numerator.toNat ++ be32Bytes v.denominator.toNat

/-- the entry that `Jpeg_WriteIFD` is given, for the value offset `offset` -/
def Field.ifdInfo (f : Field) (offset : ℕ) : IfdInfo :=
  let ifd : IfdInfo := ⟨f.tag, f.type, f.count, offset⟩
  match f.valuePtr with
  | .rational _ => ifd
  | .long ptr => if f.count ≤ 1 then { ifd with longValue := (ptr 0).toNat } else ifd
  | .short ptr =>
    if f.count ≤ 2 then
      let first := ({ ifd with longValue := 0 } : IfdInfo).setShortValue 0 (ptr 0).toNat
      if f.count = 2 then first.setShortValue 1 (ptr 1).toNat else first
    else ifd
  | .byte ptr =>
    if f.count ≤ 4 then (List.range f.count).foldl (fun ifd i => ifd.setByteValue i (ptr i).toNat) ifd else ifd

/-- the values that are not in the entry -/
def Field.values (f : Field) : Option (List UInt8) :=
  match f.valuePtr with
  | .rational ptr => some ((valuesAt ptr f.count).flatMap rationalBytes)
  | .long ptr => if f.count ≤ 1 then none else some ((valuesAt ptr f.count).flatMap fun v => be32Bytes v.toNat)
  | .short ptr => if f.count ≤ 2 then none else some ((valuesAt ptr f.count).flatMap fun v => be16Bytes v.toNat)
  | .byte ptr => if f.count ≤ 4 then none else some ((valuesAt ptr f.count).flatMap fun v => [v])

/-- the last word of an entry is a value, not an offset -/
def Field.inWord (f : Field) : Bool :=
  match f.type with
  | .byte | .ascii | .undefined => f.count ≤ 4
  | .short => f.count ≤ 2
  | .long | .rational | .slong | .srational => false

def Field.slot (f : Field) (ifhOffset valueOffset : ℕ) : Slot :=
  let ifd := f.ifdInfo (valueOffset - ifhOffset)
  ⟨⟨ifd.tag, ifd.type.code, ifd.count, ifd.offsetValue⟩, if f.values.isNone || f.inWord then none else some valueOffset⟩

def layField (ifhOffset : ℕ) (f : Field) : Lay := fun valueOffset =>
  match f.values with
  | none => ⟨[f.slot ifhOffset valueOffset], [], valueOffset⟩
  | some l => ⟨[f.slot ifhOffset valueOffset], [.values ⟨valueOffset, l⟩], align4 (valueOffset + l.length)⟩

def layFields (ifhOffset : ℕ) : List (Option Field) → Lay
  | [] => Lay.skip
  | none :: fs => layFields ifhOffset fs
  | some f :: fs => (layField ifhOffset f).seq (layFields ifhOffset fs)

/-- the first value offset of a table -/
def valuesFrom (room beginOffset : ℕ) : ℕ := align4 (beginOffset + 2 + room * IFD_HEAD_LENGTH + 4)

/-- a table from its start on -/
def layTable (room : ℕ) (nextIfd : Laid → Option ℕ) (body : Lay) : Lay := fun beginOffset =>
  let l := body (valuesFrom room beginOffset)
  ⟨[], .table ⟨beginOffset, room, l.slots, nextIfd l⟩ :: l.pieces, l.stop⟩

/-- an IFD pointer and its table -/
def laySubIFD (tag ifhOffset : ℕ) (table : Lay) : Lay := fun valueOffset =>
  let beginOffset := align4 valueOffset
  let l := table beginOffset
  ⟨[⟨⟨tag, 4, 1, beginOffset - ifhOffset⟩, some beginOffset⟩], l.pieces, l.stop⟩

def layInteroperabilityInfo (ifhOffset : ℕ) (inter : InteroperabilityInfo) : Lay :=
  layTable 1 (fun _ => none) (layFields ifhOffset (interoperabilityFields inter))

def laySpecInfo (ifhOffset : ℕ) (spec : SpecificInfo) (inter : Option InteroperabilityInfo) : Lay :=
  layTable 57 (fun _ => none) <| (layFields ifhOffset (specFieldsBefore spec)).seq <|
    (inter.elim Lay.skip fun inter => laySubIFD 0xA005 ifhOffset (layInteroperabilityInfo ifhOffset inter)).seq <|
      layFields ifhOffset (specFieldsBehind spec)

def layGPSInfo (ifhOffset : ℕ) (gps : GpsInfo) : Lay :=
  layTable 31 (fun _ => none) (layFields ifhOffset (gpsFields gps))

/-- the entries of a thumbnail that is laid at `start` -/
def thumbnailSlots (ifhOffset start : ℕ) (thumbnail : List UInt8) : List Slot :=
  if 0 < thumbnail.length then
    [⟨⟨0x201, 4, 1, start - ifhOffset⟩, some start⟩, ⟨⟨0x202, 4, 1, thumbnail.length % 2 ^ 32⟩, none⟩]
  else []

/-- behind the thumbnail entries -/
def layBehind (ifhOffset : ℕ) (primary : PrimaryInfo) (spec : Option SpecificInfo) (gps : Option GpsInfo)
    (inter : Option InteroperabilityInfo) : Lay :=
  (layFields ifhOffset (primaryFieldsBehind primary)).seq <|
    (spec.elim Lay.skip fun spec => laySubIFD 0x8769 ifhOffset (laySpecInfo ifhOffset spec inter)).seq <|
      gps.elim Lay.skip fun gps => laySubIFD 0x8825 ifhOffset (layGPSInfo ifhOffset gps)

/-- the entries of IFD0 or IFD1, and the thumbnail behind everything -/
def layIFDBody (ifhOffset : ℕ) (primary : PrimaryInfo) (spec : Option SpecificInfo) (gps : Option GpsInfo)
    (inter : Option InteroperabilityInfo) (thumbnail : List UInt8) : Lay := fun valueOffset =>
  let before := layFields ifhOffset (primaryFieldsBefore primary) valueOffset
  let behind := layBehind ifhOffset primary spec gps inter before.stop
  ⟨before.slots ++ thumbnailSlots ifhOffset behind.stop thumbnail ++ behind.slots,
    before.pieces ++ behind.pieces ++ if 0 < thumbnail.length then [.values ⟨behind.stop, thumbnail⟩] else [],
    behind.stop + thumbnail.length⟩

def layIFD (ifhOffset : ℕ) (primary : PrimaryInfo) (spec : Option SpecificInfo) (gps : Option GpsInfo)
    (inter : Option InteroperabilityInfo) (thumbnail : List UInt8) (isNextIfdExist : Bool) : Lay :=
  layTable 24 (fun l => if isNextIfdExist then some l.stop else none)
    (layIFDBody ifhOffset primary spec gps inter thumbnail)

/-- everything behind the IFH -/
def layIFDs (info : ExifInfo) (thumbnail : List UInt8) : Laid :=
  let ifd0 := layIFD APP1_RESERVED info.primary info.spec info.gps info.inter [] (0 < thumbnail.length)
  let ifd1 := layIFD APP1_RESERVED ifd1Primary none none none thumbnail false
  (ifd0.seq (if 0 < thumbnail.length then ifd1 else Lay.skip)) (APP1_RESERVED + 8)

/-! ## Entries -/

section Entries

variable {ifhOffset valueOffset : ℕ} {f : Field}

@[simp] theorem length_slot_bytes (s : Slot) : s.bytes.length = 12 := rfl

theorem slot_bytes (f : Field) (ifhOffset valueOffset : ℕ) :
    (f.slot ifhOffset valueOffset).bytes = (f.ifdInfo (valueOffset - ifhOffset)).bytes := rfl

theorem align4_dvd (n : ℕ) : 4 ∣ align4 n := ⟨_, Nat.mul_comm _ _⟩

theorem le_align4 (n : ℕ) : n ≤ align4 n := by
  rw [align4]
  omega

theorem align4_of_dvd {n : ℕ} (h : 4 ∣ n) : align4 n = n := by
  rw [align4]
  omega

/-- the stream and the offsets behind a field that ends inside the buffer -/
def afterField (ifhOffset : ℕ) (f : Field) (c : Cursor) : WriteStream × ℕ × ℕ :=
  let entry := store c.stream.writeBuf c.ifdOffset (f.slot ifhOffset c.ifdValueOffset).bytes
  match f.values with
  | none => (⟨entry, c.stream.writeBufSize, c.ifdOffset + 12⟩, c.ifdOffset + 12, c.ifdValueOffset)
  | some l =>
    (⟨store entry c.ifdValueOffset l, c.stream.writeBufSize, c.ifdValueOffset + l.length⟩, c.ifdOffset + 12,
      align4 (c.ifdValueOffset + l.length))

theorem writeRational_fits (s : WriteStream) (v : Rational) (h : s.writePtr + (rationalBytes v).length ≤ s.writeBufSize) :
    (let r := writeL s v.numerator.toNat
     if r.1 then writeL r.2 v.denominator.toNat else r) = (true, s.put (rationalBytes v)) := by
  have h8 : s.writePtr + 8 ≤ s.writeBufSize := h
  rw [writeL_fits _ (by omega)]
  show writeL (s.put _) _ = _
  rw [writeL_fits _ (by simp only [put_size, put_ptr, length_be32Bytes]; omega), put_put]
  rfl

theorem writeField_fits (ifhOffset : ℕ) (f : Field) (c : Cursor) (hifd : c.ifdOffset + 12 ≤ c.stream.writeBufSize)
    (hvalue : ∀ l, f.values = some l → c.ifdValueOffset + l.length ≤ c.stream.writeBufSize) :
    writeField ifhOffset f c =
      let r := afterField ifhOffset f c
      some ⟨r.1, r.2.1, r.2.2, c.entries + 1⟩ := by
  obtain ⟨tag, type, count, ptr⟩ := f
  cases ptr with
  | rational ptr =>
    have hfits := hvalue _ rfl
    rw [writeField]
    show (writeRationalIFD _ _ _ _ _).bind _ = _
    rw [writeRationalIFD, writeEntry_fits false writeRational_fits hifd hfits]
    rfl
  | long ptr =>
    rw [writeField]
    show (writeLongIFD _ _ _ _ _).bind _ = _
    rw [writeLongIFD]
    by_cases hc : count ≤ 1
    · rw [if_pos hc, writeEntry_inline false hifd]
      simp [afterField, Field.values, slot_bytes, Field.ifdInfo, hc]
    · have hfits := hvalue _ (if_neg hc)
      have hwrite : ∀ (s : WriteStream) (a : UInt32), s.writePtr + (be32Bytes a.toNat).length ≤ s.writeBufSize →
          writeL s a.toNat = (true, s.put (be32Bytes a.toNat)) := fun s a h => writeL_fits _ h
      rw [if_neg hc, writeEntry_fits false hwrite hifd hfits]
      simp [afterField, Field.values, slot_bytes, Field.ifdInfo, hc]
  | short ptr =>
    rw [writeField]
    show (writeShortIFD _ _ _ _ _).bind _ = _
    rw [writeShortIFD]
    by_cases hc : count ≤ 2
    · rw [if_pos hc, writeEntry_inline true hifd]
      simp [afterField, Field.values, slot_bytes, Field.ifdInfo, hc]
    · have hfits := hvalue _ (if_neg hc)
      have hwrite : ∀ (s : WriteStream) (a : UInt16), s.writePtr + (be16Bytes a.toNat).length ≤ s.writeBufSize →
          writeW s a.toNat = (true, s.put (be16Bytes a.toNat)) := fun s a h => writeW_fits _ h
      rw [if_neg hc, writeEntry_fits true hwrite hifd hfits]
      simp [afterField, Field.values, slot_bytes, Field.ifdInfo, hc]
  | byte ptr =>
    rw [writeField]
    show (writeByteIFD _ _ _ _ _).bind _ = _
    rw [writeByteIFD]
    by_cases hc : count ≤ 4
    · rw [if_pos hc, writeEntry_inline true hifd]
      simp [afterField, Field.values, slot_bytes, Field.ifdInfo, hc]
    · have hfits := hvalue _ (if_neg hc)
      have hwrite : ∀ (s : WriteStream) (a : UInt8), s.writePtr + [a].length ≤ s.writeBufSize →
          writeC s a.toNat = (true, s.put [a]) := fun s a h => (writeC_fits _ h).trans (by simp)
      rw [if_neg hc, writeEntry_fits true hwrite hifd hfits]
      simp [afterField, Field.values, slot_bytes, Field.ifdInfo, hc]

end Entries

/-! ## Stretches of a table -/

section Stretches

/-- from c to c' the laid entries and pieces were added, and nothing else was touched -/
structure Extends (ifhOffset : ℕ) (c c' : Cursor) (l : Laid) : Prop where
  size : c'.stream.writeBufSize = c.stream.writeBufSize
  ifdOffset : c'.ifdOffset = c.ifdOffset + 12 * l.slots.length
  valueOffset : c'.ifdValueOffset = l.stop
  entries : c'.entries = c.entries + l.slots.length
  slots : Holds c'.stream.writeBuf ⟨c.ifdOffset, l.slots.flatMap Slot.bytes⟩
  pieces : ∀ p ∈ l.pieces, Holds c'.stream.writeBuf (p.block ifhOffset)
  untouched : ∀ i, i < c.ifdOffset ∨ c'.ifdOffset ≤ i ∧ i < c.ifdValueOffset ∨ l.stop ≤ i →
    c'.stream.writeBuf i = c.stream.writeBuf i

/-- the pieces lie one behind the other from the value offset on -/
def Laid.Ordered (ifhOffset valueOffset : ℕ) (l : Laid) : Prop :=
  Ascending valueOffset (l.pieces.map (Piece.block ifhOffset)) l.stop

/-- what l adds behind c ends inside the buffer, and its entries before the values -/
structure Room (ifhOffset : ℕ) (c : Cursor) (l : Laid) : Prop where
  aligned : 4 ∣ c.ifdValueOffset
  before : c.ifdOffset + 12 * l.slots.length ≤ c.ifdValueOffset
  slots : c.ifdOffset + 12 * l.slots.length ≤ c.stream.writeBufSize
  pieces : ∀ p ∈ l.pieces, (p.block ifhOffset).stop ≤ c.stream.writeBufSize

/-- the code of a stretch against its layout -/
structure Stretch (ifhOffset : ℕ) (run : Cursor → Option Cursor) (lay : Lay) : Prop where
  ordered : ∀ valueOffset, 4 ∣ valueOffset → (lay valueOffset).Ordered ifhOffset valueOffset
  executes : ∀ c, Room ifhOffset c (lay c.ifdValueOffset) → ∃ c', run c = some c' ∧ Extends ifhOffset c c' (lay c.ifdValueOffset)

/-- the value offset stays a multiple of 4 -/
def Lay.Aligned (lay : Lay) : Prop := ∀ valueOffset, 4 ∣ valueOffset → 4 ∣ (lay valueOffset).stop

variable {ifhOffset : ℕ} {c c1 c2 : Cursor} {l l1 l2 : Laid}

theorem length_slots (l : List Slot) : (l.flatMap Slot.bytes).length = 12 * l.length := by
  simp [List.length_flatMap, mul_comm]

theorem Laid.Ordered.mem (h : l.Ordered ifhOffset c.ifdValueOffset) {p : Piece} (hp : p ∈ l.pieces) :
    c.ifdValueOffset ≤ (p.block ifhOffset).start ∧ (p.block ifhOffset).stop ≤ l.stop :=
  Ascending.mem (List.mem_map_of_mem hp) h

theorem Extends.trans (h1 : Extends ifhOffset c c1 l1) (h2 : Extends ifhOffset c1 c2 l2)
    (ho1 : l1.Ordered ifhOffset c.ifdValueOffset) (hle : l1.stop ≤ l2.stop)
    (hroom : c.ifdOffset + 12 * (l1.slots ++ l2.slots).length ≤ c.ifdValueOffset) :
    Extends ifhOffset c c2 ⟨l1.slots ++ l2.slots, l1.pieces ++ l2.pieces, l2.stop⟩ := by
  have hifd1 := h1.ifdOffset
  have hifd2 := h2.ifdOffset
  have hvalue1 := h1.valueOffset
  have hstop1 := ho1.le
  rw [List.length_append] at hroom
  refine ⟨h2.size.trans h1.size, ?_, h2.valueOffset, ?_, ?_, ?_, ?_⟩
  · simp only [List.length_append]
    omega
  · rw [h2.entries, h1.entries, List.length_append, Nat.add_assoc]
  · rw [List.flatMap_append, holds_append_iff]
    refine ⟨h1.slots.of_eq fun i hlo hhi => h2.untouched i (Or.inl ?_), ?_⟩
    · simp only [Block.stop, length_slots] at hhi
      omega
    · rw [length_slots, ← hifd1]
      exact h2.slots
  · intro p hp
    rcases List.mem_append.1 hp with hp1 | hp2
    · obtain ⟨hlo, hhi⟩ := ho1.mem hp1
      refine (h1.pieces p hp1).of_eq fun i hi hi' => h2.untouched i (Or.inr (Or.inl ?_))
      omega
    · exact h2.pieces p hp2
  · intro i hi
    simp only at hi
    have h2i : c2.stream.writeBuf i = c1.stream.writeBuf i := by
      apply h2.untouched
      omega
    have h1i : c1.stream.writeBuf i = c.stream.writeBuf i := by
      apply h1.untouched
      omega
    rw [h2i, h1i]

theorem Laid.Ordered.append {v : ℕ} (h1 : l1.Ordered ifhOffset v) (h2 : l2.Ordered ifhOffset l1.stop) :
    (⟨l1.slots ++ l2.slots, l1.pieces ++ l2.pieces, l2.stop⟩ : Laid).Ordered ifhOffset v := by
  rw [Laid.Ordered, List.map_append]
  exact Ascending.append h2 h1

variable {run run1 run2 : Cursor → Option Cursor} {lay lay1 lay2 : Lay}

theorem stretch_skip : Stretch ifhOffset some Lay.skip where
  ordered _ _ := le_rfl
  executes c _ := ⟨c, rfl, ⟨rfl, rfl, rfl, rfl, rfl, fun _ hp => absurd hp List.not_mem_nil, fun _ _ => rfl⟩⟩

theorem aligned_skip : Lay.skip.Aligned := fun _ h => h

theorem Lay.Aligned.seq (h1 : lay1.Aligned) (h2 : lay2.Aligned) : (lay1.seq lay2).Aligned :=
  fun v hv => h2 _ (h1 v hv)

/-- **One stretch behind the other.** -/
theorem Stretch.seq (h1 : Stretch ifhOffset run1 lay1) (ha : lay1.Aligned) (h2 : Stretch ifhOffset run2 lay2) :
    Stretch ifhOffset (fun c => run1 c >>= run2) (lay1.seq lay2) where
  ordered v hv := Laid.Ordered.append (h1.ordered v hv) (h2.ordered _ (ha v hv))
  executes c hroom := by
    have ho1 := h1.ordered _ hroom.aligned
    have ho2 := h2.ordered _ (ha _ hroom.aligned)
    have hlen : ((lay1.seq lay2) c.ifdValueOffset).slots.length =
        (lay1 c.ifdValueOffset).slots.length + (lay2 (lay1 c.ifdValueOffset).stop).slots.length := List.length_append
    have hbefore := hroom.before
    have hslots := hroom.slots
    rw [hlen] at hbefore hslots
    obtain ⟨c1, hrun1, hext1⟩ := h1.executes c
      ⟨hroom.aligned, by omega, by omega, fun p hp => hroom.pieces p (List.mem_append_left _ hp)⟩
    have hstop1 := ho1.le
    have hifd1 := hext1.ifdOffset
    have hroom2 : Room ifhOffset c1 (lay2 c1.ifdValueOffset) := by
      rw [hext1.valueOffset]
      refine ⟨hext1.valueOffset ▸ ha _ hroom.aligned, ?_, ?_, ?_⟩
      · rw [hext1.valueOffset]
        omega
      · rw [hext1.size]
        omega
      · intro p hp
        rw [hext1.size]
        exact hroom.pieces p (List.mem_append_right _ hp)
    obtain ⟨c2, hrun2, hext2⟩ := h2.executes c1 hroom2
    rw [hext1.valueOffset] at hext2
    refine ⟨c2, ?_, hext1.trans hext2 ho1 ho2.le (by rw [List.length_append]; omega)⟩
    show run1 c >>= run2 = _
    rw [hrun1]
    exact hrun2

/-! ## Fields -/

theorem stretch_field (ifhOffset : ℕ) (f : Field) : Stretch ifhOffset (writeField ifhOffset f) (layField ifhOffset f) where
  ordered v _ := by
    unfold layField
    cases f.values with
    | none => exact le_rfl
    | some l => exact ⟨le_rfl, le_align4 _⟩
  executes c hroom := by
    have hslots : (layField ifhOffset f c.ifdValueOffset).slots = [f.slot ifhOffset c.ifdValueOffset] := by
      unfold layField
      cases f.values <;> rfl
    have hbefore := hroom.before
    have hifd := hroom.slots
    rw [hslots, List.length_singleton] at hbefore hifd
    have hpieces := hroom.pieces
    unfold layField at hpieces ⊢
    cases hv : f.values with
    | none =>
      refine ⟨_, writeField_fits ifhOffset f c hifd (by simp [hv]), ?_⟩
      simp only [afterField, hv]
      refine ⟨rfl, rfl, rfl, rfl, ?_, fun p hp => absurd hp List.not_mem_nil, ?_⟩
      · rw [List.flatMap_singleton]
        exact holds_store _ _ _
      · intro i hi
        simp only at hi
        apply store_outside
        simp only [length_slot_bytes]
        omega
    | some l =>
      rw [hv] at hpieces
      have hfits : c.ifdValueOffset + l.length ≤ c.stream.writeBufSize := hpieces _ (List.mem_singleton_self _)
      have hle : c.ifdValueOffset + l.length ≤ align4 (c.ifdValueOffset + l.length) := le_align4 _
      refine ⟨_, writeField_fits ifhOffset f c hifd (by simpa [hv] using hfits), ?_⟩
      simp only [afterField, hv]
      refine ⟨rfl, rfl, rfl, rfl, ?_, ?_, ?_⟩
      · rw [List.flatMap_singleton]
        refine (holds_store _ _ _).of_eq fun i _ hi => store_outside _ _ (Or.inl ?_)
        simp only [Block.stop, length_slot_bytes] at hi
        omega
      · intro p hp
        rw [List.mem_singleton.1 hp]
        exact holds_store _ _ _
      · intro i hi
        simp only at hi ⊢
        rw [store_outside _ l (by omega)]
        apply store_outside
        simp only [length_slot_bytes]
        omega

theorem aligned_field (ifhOffset : ℕ) (f : Field) : (layField ifhOffset f).Aligned := by
  intro v hv
  unfold layField
  cases f.values with
  | none => exact hv
  | some l => exact align4_dvd _

theorem aligned_fields (ifhOffset : ℕ) (fs : List (Option Field)) : (layFields ifhOffset fs).Aligned := by
  induction fs with
  | nil => exact aligned_skip
  | cons f fs ih =>
    cases f with
    | none => exact ih
    | some f => exact (aligned_field ifhOffset f).seq ih

theorem stretch_fields (ifhOffset : ℕ) (fs : List (Option Field)) :
    Stretch ifhOffset (writeFields ifhOffset fs) (layFields ifhOffset fs) := by
  induction fs with
  | nil => exact stretch_skip
  | cons f fs ih =>
    cases f with
    | none => exact ih
    | some f => exact (stretch_field ifhOffset f).seq (aligned_field ifhOffset f) ih

theorem length_layField (ifhOffset : ℕ) (f : Field) (v : ℕ) : (layField ifhOffset f v).slots.length = 1 := by
  unfold layField
  cases f.values <;> rfl

theorem length_layFields_le (ifhOffset : ℕ) (fs : List (Option Field)) (v : ℕ) :
    (layFields ifhOffset fs v).slots.length ≤ fs.length := by
  induction fs generalizing v with
  | nil => exact le_rfl
  | cons f fs ih =>
    cases f with
    | none => exact (ih v).trans (Nat.le_succ _)
    | some f =>
      have hih := ih (layField ifhOffset f v).stop
      show ((layField ifhOffset f v).slots ++ (layFields ifhOffset fs (layField ifhOffset f v).stop).slots).length ≤ _
      rw [List.length_append, length_layField, List.length_cons]
      omega

/-! ## Tables -/

/-- s' is s with the pieces of l, which are behind the position `beginOffset` -/
structure Fills (ifhOffset beginOffset : ℕ) (s s' : WriteStream) (l : Laid) : Prop where
  size : s'.writeBufSize = s.writeBufSize
  pieces : ∀ p ∈ l.pieces, Holds s'.writeBuf (p.block ifhOffset)
  untouched : ∀ i, i < beginOffset ∨ l.stop ≤ i → s'.writeBuf i = s.writeBuf i

/-- the code of a table against its layout -/
structure WritesTable (ifhOffset : ℕ) (write : WriteStream → ℕ → Option (WriteStream × ℕ)) (lay : Lay) : Prop where
  ordered : ∀ beginOffset, (lay beginOffset).Ordered ifhOffset beginOffset
  executes : ∀ s beginOffset, (∀ p ∈ (lay beginOffset).pieces, (p.block ifhOffset).stop ≤ s.writeBufSize) →
    ∃ s', write s beginOffset = some (s', (lay beginOffset).stop) ∧ Fills ifhOffset beginOffset s s' (lay beginOffset)

theorem length_table_block (ifhOffset : ℕ) (t : Table) : (t.block ifhOffset).cells.length = 2 + 12 * t.slots.length + 4 := by
  simp only [Table.block, dirBytes, List.length_append, length_be16Bytes, length_raws, length_be32Bytes, List.length_map]

theorem valuesFrom_dvd (room beginOffset : ℕ) : 4 ∣ valuesFrom room beginOffset := align4_dvd _

theorem le_valuesFrom (room beginOffset : ℕ) : beginOffset + 2 + room * 12 + 4 ≤ valuesFrom room beginOffset := le_align4 _

/-- the cursor behind the first number of entries -/
def startCursor (room beginOffset : ℕ) (s : WriteStream) : Cursor :=
  ⟨⟨store s.writeBuf beginOffset (be16Bytes room), s.writeBufSize, beginOffset + 2⟩, beginOffset + 2,
    valuesFrom room beginOffset, 0⟩

/-- the stream behind the last number of entries -/
def endStream (c : Cursor) (nextIfd beginOffset : ℕ) : WriteStream :=
  ⟨store (store c.stream.writeBuf c.ifdOffset (be32Bytes nextIfd)) beginOffset (be16Bytes c.entries),
    c.stream.writeBufSize, beginOffset + 2⟩

theorem beginTable_fits {s : WriteStream} {room beginOffset : ℕ} (h : beginOffset + 2 ≤ s.writeBufSize) :
    beginTable s room beginOffset = some (startCursor room beginOffset s) := by
  rw [beginTable, setWritePos_fits (by omega)]
  show (writeW _ room).ok.bind _ = _
  rw [writeW_fits _ (by simpa using h)]
  show some (Cursor.mk _ (getWritePos _) _ _) = _
  rw [getWritePos_fits (by simpa using h)]
  rfl

theorem endTable_fits {nextIfd beginOffset : ℕ} (hifd : c.ifdOffset + 4 ≤ c.stream.writeBufSize)
    (hbegin : beginOffset + 2 ≤ c.stream.writeBufSize) :
    endTable c nextIfd beginOffset = some (endStream c nextIfd beginOffset, c.ifdValueOffset) := by
  rw [endTable, setWritePos_fits (by omega)]
  show (writeL _ nextIfd).ok.bind _ = _
  rw [writeL_fits _ (by simpa using hifd)]
  show (writeW (setWritePos _ beginOffset).2 c.entries).ok.bind _ = _
  rw [setWritePos_fits (by simp only [put_size]; omega)]
  show (writeW _ c.entries).ok.bind _ = _
  rw [writeW_fits _ (by simpa using hbegin)]
  rfl

theorem endStream_outside {nextIfd beginOffset i : ℕ} (hcount : i < beginOffset ∨ beginOffset + 2 ≤ i)
    (hnext : i < c.ifdOffset ∨ c.ifdOffset + 4 ≤ i) :
    (endStream c nextIfd beginOffset).writeBuf i = c.stream.writeBuf i := by
  show store (store _ _ _) _ _ i = _
  rw [store_outside _ _ (by simpa using hcount), store_outside _ _ (by simpa using hnext)]

/-- what stands in the buffer at the end of a table -/
theorem endStream_fills {s : WriteStream} {room b : ℕ} {nextIfd : Option ℕ}
    (hext : Extends ifhOffset (startCursor room b s) c l) (hord : l.Ordered ifhOffset (valuesFrom room b))
    (hlen : l.slots.length ≤ room) :
    Fills ifhOffset b s (endStream c (stored ifhOffset nextIfd) b)
      ⟨[], .table ⟨b, room, l.slots, nextIfd⟩ :: l.pieces, l.stop⟩ := by
  have hle := le_valuesFrom room b
  have hstop := hord.le
  have hifd : c.ifdOffset = b + 2 + 12 * l.slots.length := hext.ifdOffset
  have hentries : c.entries = l.slots.length := hext.entries.trans (Nat.zero_add _)
  refine ⟨hext.size, ?_, ?_⟩
  · intro p hp
    rcases List.mem_cons.1 hp with rfl | hp
    · simp only [Piece.block, Table.block, dirBytes, holds_append_iff, length_be16Bytes, List.length_append, List.length_map,
        List.flatMap_map]
      refine ⟨⟨?_, ?_⟩, ?_⟩
      · rw [← hentries]
        exact holds_store _ _ _
      · refine hext.slots.of_eq fun i hlo hhi => ?_
        simp only [Block.stop, length_slots, startCursor] at hlo hhi
        exact endStream_outside (by omega) (by omega)
      · rw [← Nat.add_assoc, show (l.slots.flatMap fun a => a.toRaw.bytes).length = _ from length_slots l.slots, ← hifd]
        refine (holds_store _ _ _).of_eq fun i hlo _ => store_outside _ _ ?_
        simp only [length_be16Bytes] at hlo ⊢
        omega
    · obtain ⟨hlo, _⟩ := Ascending.mem (List.mem_map_of_mem hp) hord
      exact (hext.pieces p hp).of_eq fun i hi _ => endStream_outside (by omega) (by omega)
  · intro i hi
    simp only at hi
    rw [endStream_outside (by omega) (by omega), hext.untouched i (by simp only [startCursor]; omega)]
    exact store_outside _ _ (by simp only [length_be16Bytes]; omega)

/-- a function that writes a table, by what it does between the two ends -/
def tableBy (room : ℕ) (run : Cursor → Option Cursor) (next : Cursor → ℕ) (s : WriteStream) (beginOffset : ℕ) :
    Option (WriteStream × ℕ) := do
  let c ← beginTable s room beginOffset
  let c ← run c
  endTable c (next c) beginOffset

/-- **A table.** Its entries have room, and the next IFD is known when its values are written. -/
theorem writesTable {room : ℕ} {next : Cursor → ℕ} {nextIfd : Laid → Option ℕ} (h : Stretch ifhOffset run lay)
    (hroom : ∀ v, (lay v).slots.length ≤ room)
    (hnext : ∀ c l, c.ifdValueOffset = l.stop → next c = stored ifhOffset (nextIfd l)) :
    WritesTable ifhOffset (tableBy room run next) (layTable room nextIfd lay) where
  ordered b := by
    have hlen := hroom (valuesFrom room b)
    have hle := le_valuesFrom room b
    refine ⟨le_rfl, Ascending.of_le (h.ordered _ (valuesFrom_dvd room b)) ?_⟩
    rw [Piece.block, Block.stop, length_table_block]
    show b + (2 + 12 * (lay (valuesFrom room b)).slots.length + 4) ≤ _
    omega
  executes s b hfits := by
    have hlen := hroom (valuesFrom room b)
    have hle := le_valuesFrom room b
    have hord := h.ordered _ (valuesFrom_dvd room b)
    have htable : b + (2 + 12 * (lay (valuesFrom room b)).slots.length + 4) ≤ s.writeBufSize := by
      have hfirst := hfits _ List.mem_cons_self
      rwa [Piece.block, Block.stop, length_table_block] at hfirst
    have hroom0 : Room ifhOffset (startCursor room b s) (lay (valuesFrom room b)) := by
      refine ⟨valuesFrom_dvd room b, ?_, ?_, fun p hp => hfits p (List.mem_cons_of_mem _ hp)⟩
      · simp only [startCursor]
        omega
      · simp only [startCursor]
        omega
    obtain ⟨c, hrun, hext⟩ := h.executes (startCursor room b s) hroom0
    have hifd : c.ifdOffset = b + 2 + 12 * (lay (valuesFrom room b)).slots.length := hext.ifdOffset
    have hsize : c.stream.writeBufSize = s.writeBufSize := hext.size
    have hend : endTable c (next c) b = _ := endTable_fits (by omega) (by omega)
    rw [hext.valueOffset, hnext c _ hext.valueOffset] at hend
    refine ⟨_, ?_, endStream_fills hext hord hlen⟩
    rw [tableBy, beginTable_fits (by omega)]
    show (run _).bind _ = _
    rw [hrun]
    show endTable c (next c) b = _
    rw [hnext c _ hext.valueOffset]
    exact hend

theorem aligned_table {room : ℕ} {nextIfd : Laid → Option ℕ} (h : lay.Aligned) : (layTable room nextIfd lay).Aligned :=
  fun _ _ => h _ (valuesFrom_dvd _ _)

/-- an entry whose value is an offset -/
theorem pointer_bytes (tag n : ℕ) (ref : Option ℕ) :
    (⟨tag, .long, 1, (UInt32.ofNat n).toNat⟩ : IfdInfo).bytes = (⟨⟨tag, 4, 1, n⟩, ref⟩ : Slot).bytes := by
  rw [UInt32.toNat_ofNat']
  show _ ++ be32Bytes (n % 2 ^ 32) = _
  rw [be32Bytes_mod]
  rfl

/-- **An IFD pointer and its table.** -/
theorem stretch_subIFD (tag : ℕ) {write : WriteStream → ℕ → Option (WriteStream × ℕ)} {table : Lay}
    (h : WritesTable ifhOffset write table) :
    Stretch ifhOffset (writeSubIFD tag ifhOffset write) (laySubIFD tag ifhOffset table) where
  ordered v hv := by
    have htable := h.ordered v
    rw [← align4_of_dvd hv] at htable
    exact Ascending.of_le htable (le_align4 v)
  executes c hroom := by
    obtain ⟨v, hv⟩ : ∃ v, v = c.ifdValueOffset := ⟨_, rfl⟩
    have hal : align4 c.ifdValueOffset = v := by rw [align4_of_dvd hroom.aligned, hv]
    have hord := (h.ordered v).le
    have hbefore : c.ifdOffset + 12 ≤ v := hv ▸ hroom.before
    have hifd : c.ifdOffset + 12 ≤ c.stream.writeBufSize := hroom.slots
    have hpieces := hroom.pieces
    simp only [laySubIFD, hal] at hpieces ⊢
    let f : Field := ⟨tag, .long, 1, .long fun _ => UInt32.ofNat (v - ifhOffset)⟩
    have hwrite := writeField_fits ifhOffset f { c with ifdValueOffset := v } hifd (fun l hl => nomatch hl)
    have hbytes : (f.slot ifhOffset v).bytes = (⟨⟨tag, 4, 1, v - ifhOffset⟩, some v⟩ : Slot).bytes := pointer_bytes _ _ _
    -- the stream behind the pointer
    let s1 : WriteStream := ⟨store c.stream.writeBuf c.ifdOffset (f.slot ifhOffset v).bytes, c.stream.writeBufSize,
      c.ifdOffset + 12⟩
    obtain ⟨s', hs', hfill⟩ := h.executes s1 v hpieces
    refine ⟨⟨s', c.ifdOffset + 12, (table v).stop, c.entries + 1⟩, ?_, ?_⟩
    · rw [writeSubIFD, hal]
      show (writeField ifhOffset f { c with ifdValueOffset := v }).bind _ = _
      rw [hwrite]
      show (write s1 v).bind _ = _
      rw [hs']
      rfl
    · refine ⟨hfill.size, rfl, rfl, rfl, ?_, hfill.pieces, ?_⟩
      · rw [List.flatMap_singleton, ← hbytes]
        refine (holds_store _ _ _).of_eq fun i _ hi => hfill.untouched i (Or.inl ?_)
        simp only [Block.stop, length_slot_bytes] at hi
        omega
      · intro i hi
        simp only [← hv] at hi
        show s'.writeBuf i = _
        rw [hfill.untouched i (by omega)]
        exact store_outside _ _ (by simp only [length_slot_bytes]; omega)

theorem aligned_subIFD (tag : ℕ) {table : Lay} (h : table.Aligned) : (laySubIFD tag ifhOffset table).Aligned :=
  fun _ _ => h _ (align4_dvd _)

end Stretches

end SprdDevice.Exif
