/-
Blocks of a cell memory: a start and the cells that stand from there on.

- `Holds m b`: the memory m has the cells of b at its place;
- `Apart a b`: a and b share no place;
- `Ascending lo l hi`: the blocks of l lie one behind the other between lo and hi.
Results: what does not touch a block leaves it in place (`Holds.of_eq`), ascending lists are put together
(`Ascending.append`), and their blocks are pairwise apart (`Ascending.pairwise`).
-/
import Mathlib.Tactic
import SprdDevice.Lib.Memory

namespace SprdDevice.Blocks

open SprdDevice.Memory

structure Block (α : Type) where
  start : ℕ
  cells : List α

variable {α : Type}

def Block.stop (b : Block α) : ℕ := b.start + b.cells.length

def Holds (m : ℕ → α) (b : Block α) : Prop := cells m b.start b.cells.length = b.cells

def Apart (a b : Block α) : Prop := a.stop ≤ b.start ∨ b.stop ≤ a.start

def Ascending : ℕ → List (Block α) → ℕ → Prop
  | lo, [], hi => lo ≤ hi
  | lo, b :: l, hi => lo ≤ b.start ∧ Ascending b.stop l hi

/-! ## Cells in place -/

theorem holds_store (m : ℕ → α) (ofs : ℕ) (l : List α) : Holds (store m ofs l) ⟨ofs, l⟩ := cells_store_self m ofs l

theorem Holds.of_eq {m m' : ℕ → α} {b : Block α} (h : Holds m b) (heq : ∀ i, b.start ≤ i → i < b.stop → m' i = m i) :
    Holds m' b := by
  have hcells : cells m' b.start b.cells.length = cells m b.start b.cells.length :=
    cells_congr fun i hi => heq _ (Nat.le_add_right _ _) (Nat.add_lt_add_left hi _)
  exact hcells.trans h

/-- a block with two parts -/
theorem holds_append_iff (m : ℕ → α) (ofs : ℕ) (k l : List α) :
    Holds m ⟨ofs, k ++ l⟩ ↔ Holds m ⟨ofs, k⟩ ∧ Holds m ⟨ofs + k.length, l⟩ := by
  simp only [Holds, List.length_append, cells_add]
  constructor
  · intro h
    exact List.append_inj h (length_cells _ _ _)
  · rintro ⟨hk, hl⟩
    rw [hk, hl]

theorem Holds.get {m : ℕ → α} {b : Block α} (h : Holds m b) {j : ℕ} (hj : j < b.cells.length) :
    m (b.start + j) = b.cells[j] := by
  have hlt : j < (cells m b.start b.cells.length).length := by rwa [length_cells]
  have hget := List.getElem_of_eq (show cells m b.start b.cells.length = b.cells from h) hlt
  simpa [cells] using hget

/-! ## Order -/

theorem Ascending.le {l : List (Block α)} : ∀ {lo hi : ℕ}, Ascending lo l hi → lo ≤ hi := by
  induction l with
  | nil => exact fun h => h
  | cons b l ih =>
    intro lo hi h
    have hstop : b.stop ≤ hi := ih h.2
    exact h.1.trans ((Nat.le_add_right _ _).trans hstop)

theorem Ascending.append {k l : List (Block α)} {mid hi : ℕ} (hl : Ascending mid l hi) :
    ∀ {lo : ℕ}, Ascending lo k mid → Ascending lo (k ++ l) hi := by
  induction k with
  | nil =>
    intro lo hk
    cases l with
    | nil => exact Nat.le_trans hk hl
    | cons b l => exact ⟨Nat.le_trans hk hl.1, hl.2⟩
  | cons b k ih => exact fun hk => ⟨hk.1, ih hk.2⟩

theorem Ascending.of_le {l : List (Block α)} {lo lo' hi : ℕ} (h : Ascending lo l hi) (hle : lo' ≤ lo) :
    Ascending lo' l hi := Ascending.append (k := []) h hle

theorem Ascending.mem {l : List (Block α)} {b : Block α} (hb : b ∈ l) :
    ∀ {lo hi : ℕ}, Ascending lo l hi → lo ≤ b.start ∧ b.stop ≤ hi := by
  induction l with
  | nil => exact absurd hb List.not_mem_nil
  | cons a l ih =>
    intro lo hi h
    rcases List.mem_cons.1 hb with rfl | hmem
    · exact ⟨h.1, h.2.le⟩
    · obtain ⟨hstart, hstop⟩ := ih hmem h.2
      exact ⟨h.1.trans ((Nat.le_add_right _ _).trans hstart), hstop⟩

theorem Ascending.pairwise {l : List (Block α)} : ∀ {lo hi : ℕ}, Ascending lo l hi → l.Pairwise Apart := by
  induction l with
  | nil => exact fun _ => List.Pairwise.nil
  | cons b l ih =>
    intro lo hi h
    exact List.Pairwise.cons (fun a ha => Or.inl (h.2.mem ha).1) (ih h.2)

end SprdDevice.Blocks
