/-
Cell memories: a buffer seen from its first cell, as the function from the index to the cell. Nothing bounds the index,
so a write past the end of a buffer is representable and can be ruled out by a theorem.

- `copy dst src n`: the first n cells of `src` over the first n cells of `dst` (a block copy from the start of both);
- `store m ofs l`: the list `l` written from index `ofs` on;
- `shiftDown m ofs n`: the n cells from `ofs` on each take the cell above them (a block copied one cell down);
- `shiftUp m ofs n`: the n cells from `ofs` on copied one cell up;
- `cells m ofs n`: the list of the n cells from `ofs` on;
- `Same n a b`: the two memories agree on their first n cells.
Results: `store_append` (a write in two pieces is the whole write), `cells_store_start` (what a write at the start
leaves), `cells_eq_iff` (equal lists are equal cells) and the congruence rules of `Same` under `copy` and `store`.
-/
import Mathlib.Tactic

namespace SprdDevice.Memory

variable {α : Type}

def copy (dst src : ℕ → α) (n : ℕ) : ℕ → α := fun i => if i < n then src i else dst i

def store (m : ℕ → α) (ofs : ℕ) (l : List α) : ℕ → α := fun i => if ofs ≤ i then (l[i - ofs]?).getD (m i) else m i

def shiftDown (m : ℕ → α) (ofs n : ℕ) : ℕ → α := fun i => if ofs ≤ i ∧ i < ofs + n then m (i + 1) else m i

def shiftUp (m : ℕ → α) (ofs n : ℕ) : ℕ → α := fun i => if ofs < i ∧ i ≤ ofs + n then m (i - 1) else m i

def cells (m : ℕ → α) (ofs n : ℕ) : List α := (List.range n).map fun i => m (ofs + i)

/-- a and b agree on the cells below n -/
def Same (n : ℕ) (a b : ℕ → α) : Prop := ∀ i < n, a i = b i

/-! ## Agreement -/

theorem Same.refl (n : ℕ) (a : ℕ → α) : Same n a a := fun _ _ => rfl

theorem Same.symm {n : ℕ} {a b : ℕ → α} (h : Same n a b) : Same n b a := fun i hi => (h i hi).symm

theorem Same.trans {n : ℕ} {a b c : ℕ → α} (h1 : Same n a b) (h2 : Same n b c) : Same n a c :=
  fun i hi => (h1 i hi).trans (h2 i hi)

theorem Same.mono {n m : ℕ} {a b : ℕ → α} (h : Same n a b) (hm : m ≤ n) : Same m a b :=
  fun i hi => h i (lt_of_lt_of_le hi hm)

theorem copy_same (dst src : ℕ → α) (n : ℕ) : Same n (copy dst src n) src := fun i hi => by simp [copy, hi]

theorem cells_eq_iff (a b : ℕ → α) (n : ℕ) : cells a 0 n = cells b 0 n ↔ Same n a b := by
  simp [cells, Same, List.map_inj_left]

@[simp] theorem length_cells (m : ℕ → α) (ofs n : ℕ) : (cells m ofs n).length = n := by simp [cells]

theorem cells_succ (m : ℕ → α) (ofs n : ℕ) : cells m ofs (n + 1) = m ofs :: cells m (ofs + 1) n := by
  unfold cells
  rw [List.range_succ_eq_map, List.map_cons, List.map_map]
  congr 1
  apply List.map_congr_left
  intro i _
  simp only [Function.comp_apply]
  congr 1
  omega

theorem cells_snoc (m : ℕ → α) (ofs n : ℕ) : cells m ofs (n + 1) = cells m ofs n ++ [m (ofs + n)] := by
  simp [cells, List.range_succ]

theorem cells_add (m : ℕ → α) (p a b : ℕ) : cells m p (a + b) = cells m p a ++ cells m (p + a) b := by
  unfold cells
  rw [List.range_add, List.map_append, List.map_map]
  congr 1
  exact List.map_congr_left fun i _ => congrArg m (Nat.add_assoc p a i).symm

theorem cells_congr {a b : ℕ → α} {ofs ofs' n : ℕ} (h : ∀ i < n, a (ofs + i) = b (ofs' + i)) :
    cells a ofs n = cells b ofs' n := by
  apply List.map_congr_left
  intro i hi
  exact h i (List.mem_range.mp hi)

theorem cells_eq_list {m : ℕ → α} {n : ℕ} {l : List α} (hlen : l.length = n) (h : ∀ i, ∀ hi : i < l.length, m i = l[i]) :
    cells m 0 n = l := by
  subst hlen
  apply List.ext_getElem
  · simp [cells]
  · intro i _ hi
    simpa [cells] using h i hi

/-! ## Stores -/

@[simp] theorem store_nil (m : ℕ → α) (ofs : ℕ) : store m ofs [] = m := by
  funext i; simp [store]

theorem store_inside (m : ℕ → α) {ofs i : ℕ} (l : List α) (h1 : ofs ≤ i) (h2 : i - ofs < l.length) :
    store m ofs l i = l[i - ofs] := by
  simp [store, h1, List.getElem?_eq_getElem h2]

theorem store_outside (m : ℕ → α) {ofs i : ℕ} (l : List α) (h : i < ofs ∨ ofs + l.length ≤ i) :
    store m ofs l i = m i := by
  unfold store
  split_ifs with hi
  · have hn : l[i - ofs]? = none := List.getElem?_eq_none (by omega)
    simp [hn]
  · rfl

theorem store_add (m : ℕ → α) (ofs : ℕ) (l : List α) {j : ℕ} (h : j < l.length) : store m ofs l (ofs + j) = l[j] := by
  simp [store, List.getElem?_eq_getElem h]

/-- what was written is read back -/
theorem cells_store_self (m : ℕ → α) (ofs : ℕ) (l : List α) : cells (store m ofs l) ofs l.length = l := by
  apply List.ext_getElem
  · exact length_cells _ _ _
  · intro i _ hi
    simp only [cells, List.getElem_map, List.getElem_range]
    exact store_add m ofs l hi

/-- what was written at the start, and what was there behind it -/
theorem cells_store_start (m : ℕ → α) {l : List α} {n : ℕ} (h : l.length ≤ n) :
    cells (store m 0 l) 0 n = l ++ cells m l.length (n - l.length) := by
  have hbehind : cells (store m 0 l) (0 + l.length) (n - l.length) = cells m l.length (n - l.length) := by
    rw [Nat.zero_add]
    exact cells_congr fun i _ => store_outside m l (Or.inr (by omega))
  calc cells (store m 0 l) 0 n = cells (store m 0 l) 0 (l.length + (n - l.length)) := by rw [Nat.add_sub_of_le h]
    _ = l ++ cells m l.length (n - l.length) := by rw [cells_add, cells_store_self, hbehind]

theorem cells_const (a : α) (ofs n : ℕ) : cells (fun _ => a) ofs n = List.replicate n a := by
  rw [cells, List.map_const', List.length_range]

/-- a write in two pieces is the whole write -/
theorem store_append (m : ℕ → α) (ofs : ℕ) (l1 l2 : List α) :
    store m ofs (l1 ++ l2) = store (store m ofs l1) (ofs + l1.length) l2 := by
  funext i
  by_cases h1 : i < ofs
  · rw [store_outside _ _ (Or.inl h1), store_outside _ _ (Or.inl (by omega)), store_outside _ _ (Or.inl h1)]
  · by_cases h2 : i - ofs < l1.length
    · rw [store_outside _ l2 (Or.inl (by omega)), store_inside _ l1 (by omega) h2,
        store_inside _ (l1 ++ l2) (by omega) (by simp; omega), List.getElem_append_left h2]
    · by_cases h3 : i - ofs < l1.length + l2.length
      · rw [store_inside _ (l1 ++ l2) (by omega) (by simpa using h3), store_inside _ l2 (by omega) (by omega),
          List.getElem_append_right (by omega)]
        congr 1; omega
      · rw [store_outside _ _ (Or.inr (by simp; omega)), store_outside _ _ (Or.inr (by omega)),
          store_outside _ _ (Or.inr (by omega))]

theorem Same.store {n : ℕ} {a b : ℕ → α} (h : Same n a b) (ofs : ℕ) (l : List α) :
    Same n (store a ofs l) (store b ofs l) := by
  intro i hi
  simp only [Memory.store, h i hi]

/-- a whole list stored at the start reads back -/
theorem store_zero_get (m : ℕ → α) (l : List α) {i : ℕ} (h : i < l.length) : store m 0 l i = l[i] := by
  rw [store_inside m l (Nat.zero_le i) (by simpa using h)]
  simp

end SprdDevice.Memory
