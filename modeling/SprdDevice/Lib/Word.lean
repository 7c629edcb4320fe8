/-
Fixed-width unsigned words in a byte memory, little-endian and big-endian.

- `ofList l`: the byte list l as a memory (zero past its end);
- `le16`, `le32`, `be16`, `be32`: the word stored at an offset; `le16Bytes`, `le32Bytes`, `be16Bytes`, `be32Bytes`: its
  encoding;
- `sint32 v`: the 32-bit word v read as a signed integer.
Results: a decoded word is below its width (`be32_lt`), decoding inverts encoding (`le16_of_cells`,
`be16_of_cells`, `be32_of_cells`, `be32_store`), and the signed reading is injective (`sint32_inj`).
-/
import Mathlib.Tactic
import SprdDevice.Lib.Memory

namespace SprdDevice.Word

open SprdDevice.Memory

def ofList (l : List UInt8) : ℕ → UInt8 := fun i => l.getD i 0

def le16 (m : ℕ → UInt8) (ofs : ℕ) : ℕ := (m ofs).toNat + 256 * (m (ofs + 1)).toNat

def le32 (m : ℕ → UInt8) (ofs : ℕ) : ℕ :=
  (m ofs).toNat + 256 * (m (ofs + 1)).toNat + 65536 * (m (ofs + 2)).toNat + 16777216 * (m (ofs + 3)).toNat

def be32 (m : ℕ → UInt8) (ofs : ℕ) : ℕ :=
  16777216 * (m ofs).toNat + 65536 * (m (ofs + 1)).toNat + 256 * (m (ofs + 2)).toNat + (m (ofs + 3)).toNat

def be16 (m : ℕ → UInt8) (ofs : ℕ) : ℕ := 256 * (m ofs).toNat + (m (ofs + 1)).toNat

def le16Bytes (v : ℕ) : List UInt8 := [UInt8.ofNat v, UInt8.ofNat (v / 256)]

def le32Bytes (v : ℕ) : List UInt8 :=
  [UInt8.ofNat v, UInt8.ofNat (v / 256), UInt8.ofNat (v / 65536), UInt8.ofNat (v / 16777216)]

def be16Bytes (v : ℕ) : List UInt8 := [UInt8.ofNat (v / 256), UInt8.ofNat v]

def be32Bytes (v : ℕ) : List UInt8 :=
  [UInt8.ofNat (v / 16777216), UInt8.ofNat (v / 65536), UInt8.ofNat (v / 256), UInt8.ofNat v]

def sint32 (v : ℕ) : ℤ := if v < 2 ^ 31 then v else (v : ℤ) - 2 ^ 32

@[simp] theorem le32Bytes_length (v : ℕ) : (le32Bytes v).length = 4 := rfl

@[simp] theorem length_be16Bytes (v : ℕ) : (be16Bytes v).length = 2 := rfl

@[simp] theorem length_be32Bytes (v : ℕ) : (be32Bytes v).length = 4 := rfl

theorem ofList_get {l : List UInt8} {i : ℕ} (h : i < l.length) : ofList l i = l[i] := by
  simp [ofList, List.getD, List.getElem?_eq_getElem h]

theorem byte_lt (b : UInt8) : b.toNat < 256 := b.toNat_lt

theorem be32_lt (m : ℕ → UInt8) (ofs : ℕ) : be32 m ofs < 2 ^ 32 := by
  have h0 := byte_lt (m ofs)
  have h1 := byte_lt (m (ofs + 1))
  have h2 := byte_lt (m (ofs + 2))
  have h3 := byte_lt (m (ofs + 3))
  simp only [be32]
  omega

theorem be32_congr {n ofs : ℕ} {a b : ℕ → UInt8} (h : Same n a b) (ho : ofs + 4 ≤ n) : be32 a ofs = be32 b ofs := by
  simp only [be32, h ofs (by omega), h (ofs + 1) (by omega), h (ofs + 2) (by omega), h (ofs + 3) (by omega)]

theorem sint32_inj {a b : ℕ} (ha : a < 2 ^ 32) (hb : b < 2 ^ 32) : sint32 a = sint32 b ↔ a = b := by
  unfold sint32
  constructor
  · intro h
    split_ifs at h <;> omega
  · rintro rfl
    rfl

theorem le16_of_cells {m : ℕ → UInt8} {ofs v : ℕ} (h : ∀ j, ∀ hj : j < 4, m (ofs + j) = (le32Bytes v)[j])
    (hv : v < 2 ^ 16) : le16 m ofs = v := by
  have h0 : m ofs = UInt8.ofNat v := h 0 (by decide)
  have h1 : m (ofs + 1) = UInt8.ofNat (v / 256) := h 1 (by decide)
  simp only [le16, h0, h1, UInt8.toNat_ofNat']
  omega

theorem be16_of_cells {m : ℕ → UInt8} {ofs v : ℕ} (h : ∀ j, ∀ hj : j < 2, m (ofs + j) = (be16Bytes v)[j])
    (hv : v < 2 ^ 16) : be16 m ofs = v := by
  have h0 : m ofs = UInt8.ofNat (v / 256) := h 0 (by decide)
  have h1 : m (ofs + 1) = UInt8.ofNat v := h 1 (by decide)
  simp only [be16, h0, h1, UInt8.toNat_ofNat']
  omega

theorem be32_of_cells {m : ℕ → UInt8} {ofs v : ℕ} (h : ∀ j, ∀ hj : j < 4, m (ofs + j) = (be32Bytes v)[j])
    (hv : v < 2 ^ 32) : be32 m ofs = v := by
  have h0 : m ofs = UInt8.ofNat (v / 16777216) := h 0 (by decide)
  have h1 : m (ofs + 1) = UInt8.ofNat (v / 65536) := h 1 (by decide)
  have h2 : m (ofs + 2) = UInt8.ofNat (v / 256) := h 2 (by decide)
  have h3 : m (ofs + 3) = UInt8.ofNat v := h 3 (by decide)
  simp only [be32, h0, h1, h2, h3, UInt8.toNat_ofNat']
  omega

theorem be32_store (m : ℕ → UInt8) (ofs : ℕ) {v : ℕ} (hv : v < 2 ^ 32) : be32 (store m ofs (be32Bytes v)) ofs = v :=
  be32_of_cells (fun _ hj => store_add m ofs (be32Bytes v) hj) hv

/-- a byte is a number below 256 -/
theorem byte_ofNat_congr {a b : ℕ} (h : a % 256 = b % 256) : UInt8.ofNat a = UInt8.ofNat b := by
  apply UInt8.toNat_inj.1
  rw [UInt8.toNat_ofNat', UInt8.toNat_ofNat']
  exact h

/-- a word of 32 bits is stored for any number -/
theorem be32Bytes_mod (n : ℕ) : be32Bytes (n % 2 ^ 32) = be32Bytes n := by
  simp only [be32Bytes, List.cons.injEq, and_true]
  refine ⟨byte_ofNat_congr ?_, byte_ofNat_congr ?_, byte_ofNat_congr ?_, byte_ofNat_congr ?_⟩ <;> omega

/-- four bytes as a word -/
theorem be32Bytes_bytes {b0 b1 b2 b3 : ℕ} (h1 : b1 < 256) (h2 : b2 < 256) (h3 : b3 < 256) :
    be32Bytes (16777216 * b0 + 65536 * b1 + 256 * b2 + b3) =
      [UInt8.ofNat b0, UInt8.ofNat b1, UInt8.ofNat b2, UInt8.ofNat b3] := by
  simp only [be32Bytes, List.cons.injEq, and_true]
  refine ⟨byte_ofNat_congr ?_, byte_ofNat_congr ?_, byte_ofNat_congr ?_, byte_ofNat_congr ?_⟩ <;> omega

/-- two words of 16 bits as one of 32 -/
theorem be32Bytes_shorts {a b : ℕ} (hb : b < 65536) : be32Bytes (65536 * a + b) = be16Bytes a ++ be16Bytes b := by
  simp only [be32Bytes, be16Bytes, List.cons_append, List.nil_append, List.cons.injEq, and_true]
  refine ⟨byte_ofNat_congr ?_, byte_ofNat_congr ?_, byte_ofNat_congr ?_, byte_ofNat_congr ?_⟩ <;> omega

end SprdDevice.Word
