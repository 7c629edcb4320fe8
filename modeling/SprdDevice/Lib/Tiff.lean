/-
The directories of a TIFF file (big-endian), as a reader sees them in a byte memory. An offset is relative to `base`.

- `Raw` is an entry as it is stored: tag, type, count and a last word, which is the value when it has at most 4 bytes and
  else its offset;
- `Entry` is what an entry stands for: tag, type, count and the bytes of the value; `Entry.field`: its tag and its values;
- `denote m base r`: what r stands for in the memory m; `readEntries`, `readDir`: the entries of a directory; `nextDir`:
  the offset of the next one; `DirHas`: the directory has exactly these fields.
Results: `field_encoded` (encoded values are read back), `readDir_of_holds` (a directory that stands in memory is read entry
by entry) and `dirHas_iff` (it has the fields of its entries and no others).
-/
import Mathlib.Tactic
import SprdDevice.Lib.Blocks
import SprdDevice.Lib.Word

namespace SprdDevice.Tiff

open SprdDevice.Memory SprdDevice.Word SprdDevice.Blocks

/-! ## Words in place -/

variable {m : ℕ → UInt8} {ofs base : ℕ}

theorem be16_of_holds {v : ℕ} (h : Holds m ⟨ofs, be16Bytes v⟩) (hv : v < 2 ^ 16) : be16 m ofs = v :=
  be16_of_cells (fun _ hj => h.get hj) hv

theorem be32_of_holds {v : ℕ} (h : Holds m ⟨ofs, be32Bytes v⟩) (hv : v < 2 ^ 32) : be32 m ofs = v :=
  be32_of_cells (fun _ hj => h.get hj) hv

/-- one of many blocks of the same length -/
theorem holds_flatMap {α : Type} {f : α → List UInt8} {n : ℕ} (hf : ∀ a, (f a).length = n) {l : List α}
    (h : Holds m ⟨ofs, l.flatMap f⟩) {k : ℕ} (hk : k < l.length) : Holds m ⟨ofs + n * k, f l[k]⟩ := by
  induction l generalizing ofs k with
  | nil => exact absurd hk (Nat.not_lt_zero k)
  | cons a l ih =>
    rw [List.flatMap_cons, holds_append_iff, hf] at h
    cases k with
    | zero => exact h.1
    | succ k =>
      have hrest := ih h.2 (Nat.lt_of_succ_lt_succ hk)
      rwa [Nat.mul_succ, Nat.add_comm (n * k), ← Nat.add_assoc, List.getElem_cons_succ]

/-! ## Directories -/

structure Raw where
  tag : ℕ
  type : ℕ
  count : ℕ
  word : ℕ
deriving DecidableEq, Repr

def Raw.bytes (r : Raw) : List UInt8 := be16Bytes r.tag ++ be16Bytes r.type ++ be32Bytes r.count ++ be32Bytes r.word

/-- every field is in its width -/
structure Raw.Valid (r : Raw) : Prop where
  tag : r.tag < 2 ^ 16
  type : r.type < 2 ^ 16
  count : r.count < 2 ^ 32
  word : r.word < 2 ^ 32

structure Entry where
  tag : ℕ
  type : ℕ
  count : ℕ
  value : List UInt8
deriving DecidableEq, Repr

/-- the bytes of one value of a type: BYTE, ASCII, SHORT, LONG, RATIONAL, SBYTE, UNDEFINED, SSHORT, SLONG, SRATIONAL -/
def width : ℕ → Option ℕ
  | 1 | 2 | 6 | 7 => some 1
  | 3 | 8 => some 2
  | 4 | 9 => some 4
  | 5 | 10 => some 8
  | _ => none

/-- the value of an entry: the first bytes of its last word when they are enough -/
def valueBytes (m : ℕ → UInt8) (base len word : ℕ) : List UInt8 :=
  if len ≤ 4 then (be32Bytes word).take len else cells m (base + word) len

def denote (m : ℕ → UInt8) (base : ℕ) (r : Raw) : Option Entry :=
  (width r.type).map fun w => ⟨r.tag, r.type, r.count, valueBytes m base (w * r.count) r.word⟩

def readRaw (m : ℕ → UInt8) (slot : ℕ) : Raw := ⟨be16 m slot, be16 m (slot + 2), be32 m (slot + 4), be32 m (slot + 8)⟩

def readEntries (m : ℕ → UInt8) (base : ℕ) : ℕ → ℕ → Option (List Entry)
  | _, 0 => some []
  | slot, n + 1 => do
    let e ← denote m base (readRaw m slot)
    let es ← readEntries m base (slot + 12) n
    some (e :: es)

def readDir (m : ℕ → UInt8) (base dir : ℕ) : Option (List Entry) :=
  readEntries m base (base + dir + 2) (be16 m (base + dir))

def nextDir (m : ℕ → UInt8) (base dir : ℕ) : ℕ := be32 m (base + dir + 2 + 12 * be16 m (base + dir))

@[simp] theorem length_raw_bytes (r : Raw) : r.bytes.length = 12 := rfl

theorem readRaw_of_holds {r : Raw} (h : Holds m ⟨ofs, r.bytes⟩) (hv : r.Valid) : readRaw m ofs = r := by
  simp only [Raw.bytes, holds_append_iff, List.length_append, length_be16Bytes, length_be32Bytes] at h
  obtain ⟨⟨⟨htag, htype⟩, hcount⟩, hword⟩ := h
  rw [readRaw, be16_of_holds htag hv.tag, be16_of_holds htype hv.type, be32_of_holds hcount hv.count,
    be32_of_holds hword hv.word]

theorem readEntries_of_holds {l : List Raw} {es : List Entry} (h : Holds m ⟨ofs, l.flatMap Raw.bytes⟩)
    (hv : ∀ r ∈ l, r.Valid) (hes : l.map (denote m base) = es.map some) :
    readEntries m base ofs l.length = some es := by
  induction l generalizing ofs es with
  | nil =>
    rw [List.map_nil, eq_comm, List.map_eq_nil_iff] at hes
    rw [hes]
    rfl
  | cons r l ih =>
    obtain ⟨e, es, rfl⟩ : ∃ e es', es = e :: es' := by
      cases es with
      | nil => simp at hes
      | cons e es' => exact ⟨e, es', rfl⟩
    simp only [List.map_cons, List.cons.injEq] at hes
    rw [List.flatMap_cons, holds_append_iff, length_raw_bytes] at h
    rw [List.length_cons, readEntries, readRaw_of_holds h.1 (hv r List.mem_cons_self), hes.1,
      ih h.2 (fun r' hr' => hv r' (List.mem_cons_of_mem _ hr')) hes.2]
    rfl

/-- a directory: the number of its entries, the entries, and the offset of the next directory -/
def dirBytes (l : List Raw) (next : ℕ) : List UInt8 := be16Bytes l.length ++ l.flatMap Raw.bytes ++ be32Bytes next

theorem length_raws (l : List Raw) : (l.flatMap Raw.bytes).length = 12 * l.length := by
  simp [List.length_flatMap, mul_comm]

theorem readDir_of_holds {dir next : ℕ} {l : List Raw} {es : List Entry} (h : Holds m ⟨base + dir, dirBytes l next⟩)
    (hlen : l.length < 2 ^ 16) (hnext : next < 2 ^ 32) (hv : ∀ r ∈ l, r.Valid)
    (hes : l.map (denote m base) = es.map some) : readDir m base dir = some es ∧ nextDir m base dir = next := by
  simp only [dirBytes, holds_append_iff, List.length_append, length_be16Bytes, length_raws] at h
  obtain ⟨⟨hcount, hentries⟩, hlast⟩ := h
  have hn := be16_of_holds hcount hlen
  rw [readDir, nextDir, hn]
  refine ⟨readEntries_of_holds hentries hv hes, ?_⟩
  rw [← Nat.add_assoc] at hlast
  exact be32_of_holds hlast hnext

/-! ## Values -/

/-- the values of an entry, by its type -/
inductive Value where
  | byte (l : List UInt8)
  | ascii (l : List UInt8)
  | short (l : List UInt16)
  | long (l : List UInt32)
  | rational (l : List (UInt32 × UInt32))
  | undefined (l : List UInt8)
  | slong (l : List Int32)
  | srational (l : List (Int32 × Int32))
deriving DecidableEq

def shorts : List UInt8 → List UInt16
  | a :: b :: l => UInt16.ofNat (256 * a.toNat + b.toNat) :: shorts l
  | _ => []

def longs : List UInt8 → List UInt32
  | a :: b :: c :: d :: l =>
    UInt32.ofNat (16777216 * a.toNat + 65536 * b.toNat + 256 * c.toNat + d.toNat) :: longs l
  | _ => []

def pairs {α : Type} : List α → List (α × α)
  | a :: b :: l => (a, b) :: pairs l
  | _ => []

/-- the tag and the values of an entry -/
def Entry.field (e : Entry) : Option (ℕ × Value) :=
  match e.type with
  | 1 => some (e.tag, .byte e.value)
  | 2 => some (e.tag, .ascii e.value)
  | 3 => some (e.tag, .short (shorts e.value))
  | 4 => some (e.tag, .long (longs e.value))
  | 5 => some (e.tag, .rational (pairs (longs e.value)))
  | 7 => some (e.tag, .undefined e.value)
  | 9 => some (e.tag, .slong ((longs e.value).map UInt32.toInt32))
  | 10 => some (e.tag, .srational (pairs ((longs e.value).map UInt32.toInt32)))
  | _ => none

/-- the directory has exactly these fields, in some order -/
def DirHas (m : ℕ → UInt8) (base dir : ℕ) (fields : List (ℕ × Value)) : Prop :=
  ∃ es, readDir m base dir = some es ∧ (es.map Entry.field).Perm (fields.map some)

def Value.code : Value → ℕ
  | .byte _ => 1
  | .ascii _ => 2
  | .short _ => 3
  | .long _ => 4
  | .rational _ => 5
  | .undefined _ => 7
  | .slong _ => 9
  | .srational _ => 10

def Value.count : Value → ℕ
  | .byte l => l.length
  | .ascii l => l.length
  | .short l => l.length
  | .long l => l.length
  | .rational l => l.length
  | .undefined l => l.length
  | .slong l => l.length
  | .srational l => l.length

def Value.bytes : Value → List UInt8
  | .byte l => l
  | .ascii l => l
  | .short l => l.flatMap fun v => be16Bytes v.toNat
  | .long l => l.flatMap fun v => be32Bytes v.toNat
  | .rational l => l.flatMap fun v => be32Bytes v.1.toNat ++ be32Bytes v.2.toNat
  | .undefined l => l
  | .slong l => l.flatMap fun v => be32Bytes v.toUInt32.toNat
  | .srational l => l.flatMap fun v => be32Bytes v.1.toUInt32.toNat ++ be32Bytes v.2.toUInt32.toNat

theorem shorts_bytes (l : List UInt16) : shorts (l.flatMap fun v => be16Bytes v.toNat) = l := by
  induction l with
  | nil => rfl
  | cons v l ih =>
    have hstep (r : List UInt8) : shorts (be16Bytes v.toNat ++ r) =
        UInt16.ofNat (256 * (UInt8.ofNat (v.toNat / 256)).toNat + (UInt8.ofNat v.toNat).toNat) :: shorts r := rfl
    rw [List.flatMap_cons, hstep, ih]
    congr 1
    apply UInt16.toNat_inj.1
    have hlt := v.toNat_lt
    simp only [UInt16.toNat_ofNat', UInt8.toNat_ofNat']
    omega

theorem longs_bytes_append (v : UInt32) (l : List UInt8) : longs (be32Bytes v.toNat ++ l) = v :: longs l := by
  show UInt32.ofNat (16777216 * (UInt8.ofNat (v.toNat / 16777216)).toNat + 65536 * (UInt8.ofNat (v.toNat / 65536)).toNat +
    256 * (UInt8.ofNat (v.toNat / 256)).toNat + (UInt8.ofNat v.toNat).toNat) :: longs l = _
  congr 1
  apply UInt32.toNat_inj.1
  have hlt := v.toNat_lt
  simp only [UInt32.toNat_ofNat', UInt8.toNat_ofNat']
  omega

theorem longs_bytes (l : List UInt32) : longs (l.flatMap fun v => be32Bytes v.toNat) = l := by
  induction l with
  | nil => rfl
  | cons v l ih => rw [List.flatMap_cons, longs_bytes_append, ih]

theorem longs_pair_bytes {α : Type} (f : α → UInt32) (l : List (α × α)) :
    longs (l.flatMap fun v => be32Bytes (f v.1).toNat ++ be32Bytes (f v.2).toNat) = l.flatMap fun v => [f v.1, f v.2] := by
  induction l with
  | nil => rfl
  | cons v l ih =>
    rw [List.flatMap_cons, List.append_assoc, longs_bytes_append, longs_bytes_append, ih]
    rfl

theorem pairs_flatMap {α : Type} (l : List (α × α)) : pairs (l.flatMap fun v => [v.1, v.2]) = l := by
  induction l with
  | nil => rfl
  | cons v l ih =>
    show (v.1, v.2) :: pairs (l.flatMap fun v => [v.1, v.2]) = _
    rw [ih]

/-- **An encoded value is read back.** -/
theorem field_encoded (tag count : ℕ) (v : Value) : Entry.field ⟨tag, v.code, count, v.bytes⟩ = some (tag, v) := by
  cases v with
  | byte l => rfl
  | ascii l => rfl
  | short l => simp only [Entry.field, Value.code, Value.bytes, shorts_bytes]
  | long l => simp only [Entry.field, Value.code, Value.bytes, longs_bytes]
  | rational l =>
    have hlongs := longs_pair_bytes id l
    simp only [id_eq] at hlongs
    simp only [Entry.field, Value.code, Value.bytes, hlongs, pairs_flatMap]
  | undefined l => rfl
  | slong l =>
    have hlongs := longs_bytes (l.map Int32.toUInt32)
    rw [List.flatMap_map] at hlongs
    have hback : (l.map Int32.toUInt32).map UInt32.toInt32 = l := by
      rw [List.map_map]
      exact List.map_id l
    simp only [Entry.field, Value.code, Value.bytes, hlongs, hback]
  | srational l =>
    have hlongs := longs_pair_bytes Int32.toUInt32 l
    have hback : (l.flatMap fun v => [v.1.toUInt32, v.2.toUInt32]).map UInt32.toInt32 = l.flatMap fun v => [v.1, v.2] := by
      rw [List.map_flatMap]
      rfl
    simp only [Entry.field, Value.code, Value.bytes, hlongs, hback, pairs_flatMap]

theorem width_value (v : Value) : ∃ w, width v.code = some w ∧ w * v.count = v.bytes.length := by
  cases v with
  | byte l => exact ⟨1, rfl, Nat.one_mul _⟩
  | ascii l => exact ⟨1, rfl, Nat.one_mul _⟩
  | short l => exact ⟨2, rfl, by simp [Value.count, Value.bytes, List.length_flatMap, mul_comm]⟩
  | long l => exact ⟨4, rfl, by simp [Value.count, Value.bytes, List.length_flatMap, mul_comm]⟩
  | rational l => exact ⟨8, rfl, by simp [Value.count, Value.bytes, List.length_flatMap, mul_comm]⟩
  | undefined l => exact ⟨1, rfl, Nat.one_mul _⟩
  | slong l => exact ⟨4, rfl, by simp [Value.count, Value.bytes, List.length_flatMap, mul_comm]⟩
  | srational l => exact ⟨8, rfl, by simp [Value.count, Value.bytes, List.length_flatMap, mul_comm]⟩

theorem Value.count_le (v : Value) : v.count ≤ v.bytes.length := by
  obtain ⟨w, hwidth, hlen⟩ := width_value v
  have hw : 0 < w := by
    cases v <;> rw [← Option.some.inj hwidth] <;> decide
  rw [← hlen]
  exact Nat.le_mul_of_pos_left _ hw

/-- what an entry says where it stands -/
def Denotes (m : ℕ → UInt8) (base : ℕ) (r : Raw) (field : ℕ × Value) : Prop :=
  ∃ e, denote m base r = some e ∧ e.field = some field

/-- an entry whose word, or the memory where it points to, has the bytes of the value -/
theorem denotes_of_valueBytes {tag word : ℕ} {v : Value} (h : valueBytes m base v.bytes.length word = v.bytes) :
    Denotes m base ⟨tag, v.code, v.count, word⟩ (tag, v) := by
  obtain ⟨w, hwidth, hlen⟩ := width_value v
  refine ⟨⟨tag, v.code, v.count, v.bytes⟩, ?_, field_encoded tag v.count v⟩
  rw [denote, hwidth, Option.map_some, hlen, h]

/-- **A directory in memory** has exactly what its entries say. -/
theorem dirHas_iff {dir next : ℕ} {l : List Raw} {fields expected : List (ℕ × Value)}
    (h : Holds m ⟨base + dir, dirBytes l next⟩) (hlen : l.length < 2 ^ 16) (hnext : next < 2 ^ 32)
    (hl : List.Forall₂ (fun r f => r.Valid ∧ Denotes m base r f) l fields) :
    (DirHas m base dir expected ↔ fields.Perm expected) ∧ nextDir m base dir = next := by
  have hes : ∃ es : List Entry, l.map (denote m base) = es.map some ∧ es.map Entry.field = fields.map some := by
    clear h hlen
    induction hl with
    | nil => exact ⟨[], rfl, rfl⟩
    | cons hr _ ih =>
      obtain ⟨-, e, hdenote, hfield⟩ := hr
      obtain ⟨es, hmap, hfields⟩ := ih
      exact ⟨e :: es, by rw [List.map_cons, hdenote, hmap, List.map_cons],
        by rw [List.map_cons, hfield, hfields, List.map_cons]⟩
  obtain ⟨es, hmap, hfields⟩ := hes
  have hvalid : ∀ r ∈ l, r.Valid := by
    intro r hr
    exact ((List.forall₂_and_left _ _).1 hl).1 r hr
  obtain ⟨hread, hnextDir⟩ := readDir_of_holds h hlen hnext hvalid hmap
  refine ⟨?_, hnextDir⟩
  rw [DirHas, hread]
  constructor
  · rintro ⟨es', heq, hperm⟩
    obtain rfl := Option.some.inj heq
    rw [hfields] at hperm
    exact (List.map_perm_map_iff (Option.some_injective _)).1 hperm
  · exact fun hperm => ⟨es, rfl, by rw [hfields]; exact hperm.map some⟩

end SprdDevice.Tiff
