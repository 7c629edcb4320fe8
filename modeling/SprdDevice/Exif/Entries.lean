/-
What a reader finds in an entry of the EXIF writer. A field matches what was supplied when the writer that its block calls
is the one for its type: then its tag, type, count and value say it, in the entry or behind it.

Results: the blocks of each table match what was supplied, but for SubjectArea and the longitude of the destination
(`matches_specBefore` to `matches_primaryBehind`), and what matches is read back where it stands (`tells_fields`,
`dirHas_table`).
-/
import SprdDevice.Exif.Soundness
import SprdDevice.Exif.Supplied

namespace SprdDevice.Exif

open SprdDevice.Memory SprdDevice.Word SprdDevice.Blocks SprdDevice.Tiff

/-! ## Fields -/

/-- the entry of the field says it -/
structure Field.Matches (f : Field) (field : ℕ × Value) : Prop where
  tag : f.tag = field.1
  tag_lt : f.tag < 2 ^ 16
  code : f.type.code = field.2.code
  count : f.count = field.2.count
  inside : f.values = none → field.2.bytes.length ≤ 4 ∧ ∀ offset, (f.ifdInfo offset).offsetValue < 2 ^ 32 ∧
    (be32Bytes (f.ifdInfo offset).offsetValue).take field.2.bytes.length = field.2.bytes
  outside : ∀ l, f.values = some l → l = field.2.bytes ∧ f.inWord = false ∧ (l.length ≤ 4 → l = [])

theorem length_valuesAt {α : Type} (ptr : ℕ → α) (n : ℕ) : (valuesAt ptr n).length = n := by
  rw [valuesAt, List.length_map, List.length_range]

theorem valuesAt_succ {α : Type} (ptr : ℕ → α) (n : ℕ) : valuesAt ptr (n + 1) = valuesAt ptr n ++ [ptr n] := by
  rw [valuesAt, List.range_succ, List.map_append]
  rfl

section Inline

variable {ifd : IfdInfo} {i j v : ℕ}

theorem byteValue_lt (ifd : IfdInfo) (i : ℕ) : ifd.byteValue i < 256 := Nat.mod_lt _ (by decide)

theorem byteValue_set (hi : i < 4) (hj : j < 4) (hv : v < 256) :
    (ifd.setByteValue i v).byteValue j = if j = i then v else ifd.byteValue j := by
  obtain ⟨tag, type, count, x⟩ := ifd
  interval_cases i <;> interval_cases j <;> simp [IfdInfo.setByteValue, IfdInfo.byteValue] <;> omega

/-- the bytes put into the last word one after the other -/
theorem byteValue_foldl (ptr : ℕ → UInt8) {n : ℕ} (hn : n ≤ 4) (ifd : IfdInfo) :
    let ifd' := (List.range n).foldl (fun ifd i => ifd.setByteValue i (ptr i).toNat) ifd
    ifd'.tag = ifd.tag ∧ ifd'.type = ifd.type ∧ ifd'.count = ifd.count ∧ ∀ j < n, ifd'.byteValue j = (ptr j).toNat := by
  induction n with
  | zero => exact ⟨rfl, rfl, rfl, fun j hj => absurd hj (Nat.not_lt_zero j)⟩
  | succ n ih =>
    obtain ⟨htag, htype, hcount, hbyte⟩ := ih (by omega)
    simp only [List.range_succ, List.foldl_append, List.foldl_cons, List.foldl_nil]
    refine ⟨htag, htype, hcount, fun j hj => ?_⟩
    rw [byteValue_set (by omega) (by omega) (ptr n).toNat_lt]
    split
    · rename_i heq
      rw [heq]
    · exact hbyte j (by omega)

/-- the shorts put into the last word -/
theorem offsetValue_shorts (tag : ℕ) (ptr : ℕ → UInt16) {n : ℕ} (hn : n ≤ 2) (offset : ℕ) :
    (Field.ifdInfo ⟨tag, .short, n, .short ptr⟩ offset).offsetValue =
      65536 * (ptr 0).toNat + if n = 2 then (ptr 1).toNat else 0 := by
  have h0 := (ptr 0).toNat_lt
  have h1 := (ptr 1).toNat_lt
  by_cases h2 : n = 2
  · simp [Field.ifdInfo, IfdInfo.offsetValue, IfdInfo.setShortValue, IfdInfo.shortValue, h2]
    omega
  · simp [Field.ifdInfo, IfdInfo.offsetValue, IfdInfo.setShortValue, IfdInfo.shortValue, hn, h2]
    omega

end Inline

section Kinds

variable {tag n : ℕ} {type : IfdType} {v : Value}

/-- bytes written by `Jpeg_WriteByteIFD` -/
theorem matches_bytes {ptr : ℕ → UInt8} (htag : tag < 2 ^ 16) (htype : type = .byte ∨ type = .ascii ∨ type = .undefined)
    (hcode : type.code = v.code) (hcount : v.count = n) (hbytes : v.bytes = valuesAt ptr n) :
    Field.Matches ⟨tag, type, n, .byte ptr⟩ (tag, v) where
  tag := rfl
  tag_lt := htag
  code := hcode
  count := hcount.symm
  inside hnone := by
    have hn : n ≤ 4 := by
      by_contra hn
      simp [Field.values, hn] at hnone
    rw [hbytes, length_valuesAt]
    refine ⟨hn, fun offset => ?_⟩
    obtain ⟨-, htype', hcount', hbyte⟩ := byteValue_foldl ptr hn ⟨tag, type, n, offset⟩
    simp only [Field.ifdInfo, if_pos hn]
    obtain ⟨ifd, hifd⟩ : ∃ ifd, (List.range n).foldl (fun ifd i => IfdInfo.setByteValue ifd i (ptr i).toNat)
        ⟨tag, type, n, offset⟩ = ifd := ⟨_, rfl⟩
    rw [hifd] at htype' hcount' hbyte ⊢
    have hword : ifd.offsetValue = 16777216 * ifd.byteValue 0 + 65536 * ifd.byteValue 1 + 256 * ifd.byteValue 2 +
        ifd.byteValue 3 := by
      rcases htype with rfl | rfl | rfl <;> simp [IfdInfo.offsetValue, htype', hcount', hn]
    have h0 := byteValue_lt ifd 0
    have h1 := byteValue_lt ifd 1
    have h2 := byteValue_lt ifd 2
    have h3 := byteValue_lt ifd 3
    rw [hword, be32Bytes_bytes h1 h2 h3]
    refine ⟨by omega, ?_⟩
    interval_cases n <;> simp [valuesAt, List.range_succ, hbyte]
  outside l hl := by
    have hn : ¬ n ≤ 4 := by
      intro hn
      simp [Field.values, hn] at hl
    have heq : valuesAt ptr n = l := by simpa [Field.values, hn] using hl
    refine ⟨by rw [hbytes, heq], ?_, ?_⟩
    · rcases htype with rfl | rfl | rfl <;> simp [Field.inWord, hn]
    · rw [← heq, length_valuesAt]
      exact fun h => absurd h hn

theorem matches_short {ptr : ℕ → UInt16} (htag : tag < 2 ^ 16) {l : List UInt16} (hl : l = valuesAt ptr n) :
    Field.Matches ⟨tag, .short, n, .short ptr⟩ (tag, .short l) where
  tag := rfl
  tag_lt := htag
  code := rfl
  count := by rw [Value.count, hl, length_valuesAt]
  inside hnone := by
    have hn : n ≤ 2 := by
      by_contra hn
      simp [Field.values, hn] at hnone
    have h0 := (ptr 0).toNat_lt
    have h1 := (ptr 1).toNat_lt
    have hbytes : (Value.short l).bytes = (valuesAt ptr n).flatMap fun v => be16Bytes v.toNat := by rw [Value.bytes, hl]
    have hlen : (Value.short l).bytes.length = 2 * n := by
      rw [hbytes]
      simp [List.length_flatMap, length_valuesAt, mul_comm]
    refine ⟨by rw [hlen]; omega, fun offset => ?_⟩
    rw [hlen, offsetValue_shorts tag ptr hn, be32Bytes_shorts (by split <;> omega), hbytes]
    refine ⟨by split <;> omega, ?_⟩
    interval_cases n
    · rfl
    · rfl
    · rfl
  outside l' hl' := by
    have hn : ¬ n ≤ 2 := by
      intro hn
      simp [Field.values, hn] at hl'
    have heq : (valuesAt ptr n).flatMap (fun v => be16Bytes v.toNat) = l' := by simpa [Field.values, hn] using hl'
    refine ⟨by rw [Value.bytes, hl, heq], by simp [Field.inWord, hn], ?_⟩
    rw [← heq]
    simp only [List.length_flatMap, length_be16Bytes, List.map_const', List.sum_replicate, length_valuesAt]
    intro h
    simp at h
    omega

theorem matches_rationalBytes {ptr : ℕ → Rational} (htag : tag < 2 ^ 16) (htype : type = .rational ∨ type = .srational)
    (hcode : type.code = v.code) (hcount : v.count = n) (hbytes : v.bytes = (valuesAt ptr n).flatMap rationalBytes) :
    Field.Matches ⟨tag, type, n, .rational ptr⟩ (tag, v) where
  tag := rfl
  tag_lt := htag
  code := hcode
  count := hcount.symm
  inside hnone := by simp [Field.values] at hnone
  outside l hl := by
    have heq : (valuesAt ptr n).flatMap rationalBytes = l := by simpa [Field.values] using hl
    refine ⟨by rw [hbytes, heq], ?_, ?_⟩
    · rcases htype with rfl | rfl <;> rfl
    · have hlen : l.length = 8 * n := by
        rw [← heq]
        simp [List.length_flatMap, length_valuesAt, rationalBytes, mul_comm]
      exact fun h => List.eq_nil_of_length_eq_zero (by omega)

theorem matches_long {valuePtr : ValuePtr} {w : UInt32} (htag : tag < 2 ^ 16)
    (hvalues : Field.values ⟨tag, .long, 1, valuePtr⟩ = none)
    (hword : ∀ offset, (Field.ifdInfo ⟨tag, .long, 1, valuePtr⟩ offset).offsetValue = w.toNat) :
    Field.Matches ⟨tag, .long, 1, valuePtr⟩ (tag, .long [w]) where
  tag := rfl
  tag_lt := htag
  code := rfl
  count := rfl
  inside _ := ⟨le_rfl, fun offset => by rw [hword]; exact ⟨w.toNat_lt, rfl⟩⟩
  outside l hl := by
    rw [hvalues] at hl
    exact absurd hl (by simp)

end Kinds

/-! ## Blocks -/

section Builders

variable {tag n : ℕ} {cond : Bool} {f : Field} {v : Value}

theorem matches_rationalField (r : Rational) (h : tag < 2 ^ 16) :
    (rationalField tag r).Matches (tag, .rational [r.pair]) :=
  matches_rationalBytes h (.inl rfl) rfl rfl rfl

theorem matches_srationalField (r : SRational) (h : tag < 2 ^ 16) :
    (srationalField tag r).Matches (tag, .srational [r.pair]) :=
  matches_rationalBytes h (.inr rfl) rfl rfl rfl

theorem matches_rationalsField (ptr : ℕ → Rational) (h : tag < 2 ^ 16) :
    (rationalsField tag n ptr).Matches (tag, rationalsAt ptr n) := by
  refine matches_rationalBytes h (.inl rfl) rfl ?_ ?_
  · rw [rationalsAt, Value.count, List.length_map, length_valuesAt]
  · rw [rationalsAt, Value.bytes, List.flatMap_map]
    rfl

theorem matches_shortField (w : UInt16) (h : tag < 2 ^ 16) : (shortField tag w).Matches (tag, .short [w]) :=
  matches_short h rfl

theorem matches_longField (w : UInt32) (h : tag < 2 ^ 16) : (longField tag w).Matches (tag, .long [w]) :=
  matches_long h rfl fun _ => rfl

/-- a dimension, of type LONG from 16 bits -/
theorem matches_dimension (w : UInt32) (h : tag < 2 ^ 16) (hw : w.toNat < 2 ^ 16) :
    Field.Matches ⟨tag, .long, 1, .short fun _ => w.toUInt16⟩ (tag, .long [w]) := by
  refine matches_long h rfl fun offset => ?_
  have hcut : w.toUInt16.toNat = w.toNat := by
    rw [UInt32.toNat_toUInt16]
    exact Nat.mod_eq_of_lt hw
  simp [Field.ifdInfo, IfdInfo.offsetValue, IfdInfo.setShortValue, IfdInfo.shortValue, hcut]

theorem matches_asciisField (ptr : ℕ → UInt8) (h : tag < 2 ^ 16) :
    (asciisField tag n ptr).Matches (tag, .ascii (valuesAt ptr n)) :=
  matches_bytes h (.inr (.inl rfl)) rfl (length_valuesAt ptr n) rfl

theorem asciiString_text (l : List UInt8) (h : 0 ∈ l) :
    valuesAt (fun i => l.getD i 0) (asciiStringSize l + 1) = l.takeWhile (· ≠ 0) ++ [0] := by
  induction l with
  | nil => exact absurd h List.not_mem_nil
  | cons c l ih =>
    by_cases hc : c = 0
    · subst hc
      rfl
    · have hrest : 0 ∈ l := (List.mem_cons.1 h).resolve_left (Ne.symm hc)
      have hsize : asciiStringSize (c :: l) = asciiStringSize l + 1 := if_neg hc
      have htail : valuesAt (fun i => (c :: l).getD i 0) (asciiStringSize l + 1 + 1) =
          c :: valuesAt (fun i => l.getD i 0) (asciiStringSize l + 1) := by
        rw [valuesAt, List.range_succ_eq_map, List.map_cons, List.map_map]
        rfl
      rw [hsize, htail, ih hrest, List.takeWhile_cons_of_pos (by simpa using hc)]
      rfl

theorem matches_asciiField (s : Ascii) (h : tag < 2 ^ 16) : (asciiField tag s).Matches (tag, .ascii s.text) := by
  have htext : valuesAt s.ptr (s.size + 1) = s.text := asciiString_text s.bytes s.terminated
  rw [← htext]
  exact matches_asciisField s.ptr h

theorem rel_block (h : f.Matches (tag, v)) : Option.Rel Field.Matches (block cond f) (given cond tag v) := by
  cases cond with
  | false => exact .none
  | true => exact .some h

theorem rel_bind {α : Type} (o : Option α) {F : α → Option Field} {G : α → Option (ℕ × Value)}
    (h : ∀ a, Option.Rel Field.Matches (F a) (G a)) : Option.Rel Field.Matches (o.bind F) (o.bind G) := by
  cases o with
  | none => exact .none
  | some a => exact h a

theorem rel_rational (r : Rational) (h : tag < 2 ^ 16) :
    Option.Rel Field.Matches (block cond (rationalField tag r)) (given cond tag (.rational [r.pair])) :=
  rel_block (matches_rationalField r h)

theorem rel_srational (r : SRational) (h : tag < 2 ^ 16) :
    Option.Rel Field.Matches (block cond (srationalField tag r)) (given cond tag (.srational [r.pair])) :=
  rel_block (matches_srationalField r h)

theorem rel_rationals (ptr : ℕ → Rational) (h : tag < 2 ^ 16) :
    Option.Rel Field.Matches (block cond (rationalsField tag n ptr)) (given cond tag (rationalsAt ptr n)) :=
  rel_block (matches_rationalsField ptr h)

theorem rel_short (w : UInt16) (h : tag < 2 ^ 16) :
    Option.Rel Field.Matches (block cond (shortField tag w)) (given cond tag (.short [w])) :=
  rel_block (matches_shortField w h)

theorem rel_ascii (s : Ascii) (h : tag < 2 ^ 16) :
    Option.Rel Field.Matches (block cond (asciiField tag s)) (given cond tag (.ascii s.text)) :=
  rel_block (matches_asciiField s h)

theorem rel_asciis (ptr : ℕ → UInt8) (h : tag < 2 ^ 16) :
    Option.Rel Field.Matches (block cond (asciisField tag n ptr)) (given cond tag (.ascii (valuesAt ptr n))) :=
  rel_block (matches_asciisField ptr h)

theorem rel_bytes {type : IfdType} (c : Custom) (h : tag < 2 ^ 16) (htype : type = .ascii ∨ type = .undefined)
    (hv : type.code = v.code ∧ v.count = c.content.length ∧ v.bytes = c.content) :
    Option.Rel Field.Matches (customBlock cond tag type c (.byte c.ptr)) (givenArray cond tag c v) :=
  rel_block (matches_bytes h (.inr htype) hv.1 (hv.2.1.trans (length_valuesAt _ _)) hv.2.2)

theorem rel_shorts (c : Custom) (h : tag < 2 ^ 16) :
    Option.Rel Field.Matches (customBlock cond tag .short c (.short (shortPtr c.ptr)))
      (givenArray cond tag c (.short c.shorts)) :=
  rel_block (matches_short h rfl)

end Builders

/-- the value that the GPS IFD says is that of the latitude's bit -/
def longitudeByLatitude (g : GpsInfo) : GpsInfo :=
  { g with valid := { g.valid with gpsDestLongitude := g.valid.gpsDestLatitude } }

/-- bytes in an entry or behind it, as type UNDEFINED -/
theorem matches_undefined {tag n : ℕ} {ptr : ℕ → UInt8} {l : List UInt8} (h : tag < 2 ^ 16) (hl : l = valuesAt ptr n) :
    Field.Matches ⟨tag, .undefined, n, .byte ptr⟩ (tag, .undefined l) :=
  matches_bytes h (.inr (.inr rfl)) rfl (by rw [Value.count, hl, length_valuesAt]) hl

theorem matches_byte {tag n : ℕ} {ptr : ℕ → UInt8} {l : List UInt8} (h : tag < 2 ^ 16) (hl : l = valuesAt ptr n) :
    Field.Matches ⟨tag, .byte, n, .byte ptr⟩ (tag, .byte l) :=
  matches_bytes h (.inl rfl) rfl (by rw [Value.count, hl, length_valuesAt]) hl

theorem matches_interoperability (inter : InteroperabilityInfo) :
    List.Forall₂ (Option.Rel Field.Matches) (interoperabilityFields inter) (interoperabilitySupplied inter) :=
  .cons (rel_bytes _ (by decide) (.inl rfl) ⟨rfl, rfl, rfl⟩) .nil

theorem matches_specBefore (spec : SpecificInfo) :
    List.Forall₂ (Option.Rel Field.Matches) ((specFieldsBefore spec).take 21) (specSuppliedBefore spec) := by
  simp [specFieldsBefore, specSuppliedBefore, rel_bind, rel_rational, rel_srational, rel_asciis, rel_ascii, rel_short,
    rel_bytes, rel_shorts, Value.count, Value.bytes, Value.code, IfdType.code]
  exact ⟨matches_undefined (by decide) rfl, matches_undefined (by decide) rfl⟩

theorem matches_specBehind (spec : SpecificInfo) :
    List.Forall₂ (Option.Rel Field.Matches) ((specFieldsBefore spec).drop 22) (specSuppliedBehind spec) := by
  simp [specFieldsBefore, specSuppliedBehind, rel_bind, rel_asciis, rel_ascii, rel_bytes, matches_shortField,
    matches_longField, Value.count, Value.bytes, Value.code, IfdType.code]
  exact matches_undefined (by decide) rfl

theorem matches_specLast (spec : SpecificInfo) :
    List.Forall₂ (Option.Rel Field.Matches) (specFieldsBehind spec) (specSuppliedLast spec) := by
  simp [specFieldsBehind, specSuppliedLast, rel_bind, rel_rational, rel_asciis, rel_short, rel_bytes, Value.count,
    Value.bytes, Value.code, IfdType.code]
  refine ⟨rel_bind _ fun p => rel_block (matches_short (by decide) rfl), ?_, ?_⟩
  · exact rel_bind _ fun p => rel_block (matches_undefined (by decide) rfl)
  · exact rel_bind _ fun p => rel_block (matches_undefined (by decide) rfl)

theorem matches_gps (g : GpsInfo) :
    List.Forall₂ (Option.Rel Field.Matches) (gpsFields g) (gpsSupplied (longitudeByLatitude g)) := by
  simp [gpsFields, gpsSupplied, longitudeByLatitude, rel_rational, rel_rationals, rel_asciis, rel_ascii, rel_short,
    rel_bytes, Value.count, Value.bytes, Value.code, IfdType.code]
  exact ⟨rel_block (matches_byte (by decide) rfl), rel_block (matches_byte (by decide) rfl)⟩

theorem matches_primaryBefore (primary : PrimaryInfo) :
    List.Forall₂ (Option.Rel Field.Matches) (primaryFieldsBefore primary) (primarySuppliedBefore primary) := by
  simp [primaryFieldsBefore, primarySuppliedBefore, rel_bind, rel_rationals, rel_asciis, rel_ascii, rel_short,
    matches_rationalField, matches_shortField]
  exact rel_bind _ fun c => rel_block (matches_short (by decide) rfl)

theorem matches_primaryBehind (primary : PrimaryInfo) (hwidth : primary.basic.imageWidth.toNat < 2 ^ 16)
    (hlength : primary.basic.imageLength.toNat < 2 ^ 16) :
    List.Forall₂ (Option.Rel Field.Matches) (primaryFieldsBehind primary) (primarySuppliedBehind primary) := by
  simp [primaryFieldsBehind, primarySuppliedBehind, rel_bind, rel_rationals, rel_ascii, matches_shortField]
  exact ⟨matches_dimension _ (by decide) hwidth, matches_dimension _ (by decide) hlength⟩

/-! ## Entries in place -/

section InPlace

variable {m : ℕ → UInt8} {f : Field} {field : ℕ × Value} {v : ℕ}

/-- the entries say these fields, one by one -/
def Tells (m : ℕ → UInt8) (slots : List Slot) (fields : List (ℕ × Value)) : Prop :=
  List.Forall₂ (fun s field => s.toRaw.Valid ∧ Denotes m APP1_RESERVED s.toRaw field) slots fields

theorem tells_append {s1 s2 : List Slot} {f1 f2 : List (ℕ × Value)} (h1 : Tells m s1 f1) (h2 : Tells m s2 f2) :
    Tells m (s1 ++ s2) (f1 ++ f2) := List.rel_append h1 h2

theorem tells_single {s : Slot} (hv : s.toRaw.Valid) (hs : Denotes m APP1_RESERVED s.toRaw field) : Tells m [s] [field] :=
  .cons ⟨hv, hs⟩ .nil

/-- the pieces of a stretch are in place, below 64 KiB -/
structure InPlace (m : ℕ → UInt8) (l : Laid) : Prop where
  pieces : ∀ p ∈ l.pieces, Holds m (p.block APP1_RESERVED)
  stop : l.stop ≤ 65535

theorem slot_raw (f : Field) (ifhOffset v : ℕ) :
    (f.slot ifhOffset v).toRaw = ⟨f.tag, f.type.code, f.count, (f.ifdInfo (v - ifhOffset)).offsetValue⟩ := by
  obtain ⟨tag, type, count, ptr⟩ := f
  cases ptr with
  | rational ptr => rfl
  | long ptr =>
    by_cases hc : count ≤ 1 <;> simp [Field.slot, Field.ifdInfo, hc]
  | short ptr =>
    by_cases hc : count ≤ 2
    · by_cases h2 : count = 2 <;> simp [Field.slot, Field.ifdInfo, IfdInfo.setShortValue, hc, h2]
    · simp [Field.slot, Field.ifdInfo, hc]
  | byte ptr =>
    by_cases hc : count ≤ 4
    · obtain ⟨htag, htype, hcount, -⟩ := byteValue_foldl ptr hc ⟨tag, type, count, v - ifhOffset⟩
      simp [Field.slot, Field.ifdInfo, hc, htag, htype, hcount]
    · simp [Field.slot, Field.ifdInfo, hc]

theorem code_lt (type : IfdType) : type.code < 2 ^ 16 := by
  cases type <;> decide

/-- **A field** whose values, if they are not in the entry, are in place -/
theorem tells_field (h : f.Matches field) (hlo : APP1_RESERVED ≤ v) (hin : InPlace m (layField APP1_RESERVED f v)) :
    Tells m (layField APP1_RESERVED f v).slots [field] := by
  obtain ⟨tag, value⟩ := field
  obtain ⟨hpieces, hhi⟩ := hin
  have hcount := value.count_le
  have hraw := slot_raw f APP1_RESERVED v
  rw [h.tag, h.code, h.count] at hraw
  have htag : tag < 2 ^ 16 := by
    have hlt := h.tag_lt
    rwa [h.tag] at hlt
  have hcode : value.code < 2 ^ 16 := by
    have hlt := code_lt f.type
    rwa [h.code] at hlt
  cases hv : f.values with
  | none =>
    obtain ⟨hlen, hword⟩ := h.inside hv
    obtain ⟨hlt, htake⟩ := hword (v - APP1_RESERVED)
    simp only [layField, hv]
    refine tells_single ?_ ?_
    · rw [hraw]
      exact ⟨htag, hcode, by simp only at hlen ⊢; omega, hlt⟩
    · rw [hraw]
      refine denotes_of_valueBytes ?_
      rw [valueBytes, if_pos hlen, htake]
  | some l =>
    obtain ⟨hl, hw, hshort⟩ := h.outside l hv
    simp only [layField, hv] at hhi hpieces ⊢
    have hholds : Holds m ⟨v, l⟩ := hpieces _ (List.mem_singleton_self _)
    have hle := le_align4 (v + l.length)
    have hword := field_word hv hw (v - APP1_RESERVED)
    rw [hword] at hraw
    simp only at hl
    refine tells_single ?_ ?_
    · rw [hraw]
      refine ⟨htag, hcode, ?_, ?_⟩
      · rw [← hl] at hcount
        simp only
        omega
      · simp only
        omega
    · rw [hraw]
      refine denotes_of_valueBytes ?_
      rw [← hl, valueBytes]
      by_cases h4 : l.length ≤ 4
      · rw [if_pos h4, hshort h4]
        rfl
      · rw [if_neg h4, Nat.add_sub_cancel' hlo]
        exact hholds

/-- the value offset does not go back -/
def Lay.Grows (lay : Lay) : Prop := ∀ v, v ≤ (lay v).stop

theorem grows_field (ifhOffset : ℕ) (f : Field) : (layField ifhOffset f).Grows := by
  intro v
  unfold layField
  split
  · exact le_rfl
  · exact (Nat.le_add_right _ _).trans (le_align4 _)

variable {lay lay1 lay2 : Lay}

theorem Lay.Grows.seq (h1 : lay1.Grows) (h2 : lay2.Grows) : (lay1.seq lay2).Grows := fun v => (h1 v).trans (h2 _)

theorem grows_fields (ifhOffset : ℕ) (fs : List (Option Field)) : (layFields ifhOffset fs).Grows := by
  induction fs with
  | nil => exact fun _ => le_rfl
  | cons f fs ih =>
    cases f with
    | none => exact ih
    | some f => exact (grows_field ifhOffset f).seq ih

theorem grows_table {room : ℕ} {nextIfd : Laid → Option ℕ} (h : lay.Grows) : (layTable room nextIfd lay).Grows := by
  intro b
  have hle := le_valuesFrom room b
  exact (by omega : b ≤ valuesFrom room b).trans (h _)

theorem grows_optional {α : Type} (o : Option α) {tag ifhOffset : ℕ} {table : α → Lay} (h : ∀ a, (table a).Grows) :
    (o.elim Lay.skip fun a => laySubIFD tag ifhOffset (table a)).Grows := by
  cases o with
  | none => exact fun _ => le_rfl
  | some a => exact fun v => (le_align4 v).trans (h a _)

theorem InPlace.left (h : InPlace m (lay1.seq lay2 v)) (hgrows : lay2.Grows) : InPlace m (lay1 v) :=
  ⟨fun p hp => h.pieces p (List.mem_append_left _ hp), (hgrows _).trans h.stop⟩

theorem InPlace.right (h : InPlace m (lay1.seq lay2 v)) : InPlace m (lay2 (lay1 v).stop) :=
  ⟨fun p hp => h.pieces p (List.mem_append_right _ hp), h.stop⟩

/-- so with the fields of a table -/
theorem tells_fields {fs : List (Option Field)} {fields : List (Option (ℕ × Value))}
    (h : List.Forall₂ (Option.Rel Field.Matches) fs fields) (hlo : APP1_RESERVED ≤ v)
    (hin : InPlace m (layFields APP1_RESERVED fs v)) :
    Tells m (layFields APP1_RESERVED fs v).slots fields.reduceOption := by
  induction h generalizing v with
  | nil => exact .nil
  | @cons f field fs fields hf _ ih =>
    cases hf with
    | none => exact ih hlo hin
    | @some f field hf =>
      rw [List.reduceOption_cons_of_some]
      exact @tells_append _ _ _ [field] _ (tells_field hf hlo (hin.left (grows_fields _ _)))
        (ih (hlo.trans (grows_field _ _ _)) hin.right)

/-- a LONG with an offset -/
theorem tells_long {tag n : ℕ} {ref : Option ℕ} (htag : tag < 2 ^ 16) (hn : n < 2 ^ 32) :
    Tells m [⟨⟨tag, 4, 1, n⟩, ref⟩] [(tag, .long [UInt32.ofNat n])] := by
  refine tells_single ⟨htag, (by decide : 4 < 2 ^ 16), (by decide : 1 < 2 ^ 32), hn⟩ ?_
  have hback : (UInt32.ofNat n).toNat = n := by
    rw [UInt32.toNat_ofNat']
    exact Nat.mod_eq_of_lt hn
  refine @denotes_of_valueBytes m APP1_RESERVED tag n (.long [UInt32.ofNat n]) ?_
  simp only [Value.bytes, List.flatMap_singleton, hback]
  rfl

/-- a pointer that is there when its structure is -/
theorem tells_pointer {α : Type} (o : Option α) {tag : ℕ} (table : α → Lay) (htag : tag < 2 ^ 16)
    (hv : align4 v - APP1_RESERVED < 2 ^ 32) :
    Tells m (o.elim Lay.skip (fun a => laySubIFD tag APP1_RESERVED (table a)) v).slots
      [pointer o tag (UInt32.ofNat (align4 v - APP1_RESERVED))].reduceOption := by
  cases o with
  | none => exact .nil
  | some a => exact tells_long htag hv

/-- **A table** has what its entries say. -/
theorem dirHas_table {room : ℕ} {nextIfd : Laid → Option ℕ} {body : Lay} {b : ℕ} {fields : List (ℕ × Value)}
    (hb : APP1_RESERVED ≤ b)
    (hin : InPlace m (layTable room nextIfd body b)) (hlen : (body (valuesFrom room b)).slots.length < 2 ^ 16)
    (hnext : stored APP1_RESERVED (nextIfd (body (valuesFrom room b))) < 2 ^ 32)
    (h : Tells m (body (valuesFrom room b)).slots fields) :
    (∀ expected, DirHas m APP1_RESERVED (b - APP1_RESERVED) expected ↔ fields.Perm expected) ∧
      nextDir m APP1_RESERVED (b - APP1_RESERVED) = stored APP1_RESERVED (nextIfd (body (valuesFrom room b))) := by
  have hblock : Holds m ⟨APP1_RESERVED + (b - APP1_RESERVED),
      dirBytes ((body (valuesFrom room b)).slots.map Slot.toRaw)
        (stored APP1_RESERVED (nextIfd (body (valuesFrom room b))))⟩ := by
    rw [Nat.add_sub_cancel' hb]
    exact hin.pieces _ List.mem_cons_self
  have hl := (List.forall₂_map_left_iff (R := fun (r : Raw) f => r.Valid ∧ Denotes m APP1_RESERVED r f)
    (f := Slot.toRaw)).2 h
  have hdir (expected : List (ℕ × Value)) := @dirHas_iff m APP1_RESERVED _ _ _ _ expected hblock
    (by rwa [List.length_map]) hnext hl
  exact ⟨fun expected => (hdir expected).1, (hdir []).2⟩

end InPlace

end SprdDevice.Exif
