/-
Texts: strings in a memory, and the lines of a text.

- `cstr m room p`: the string at p, of which at most the cells below `room` are looked at;
- `IsStr m p l`: the string l lies at p, with its terminator;
- `lines sep t`: the pieces of a text between separators that are not empty. What follows the last separator is not a
  line yet.

Results: how a string grows (`IsStr.append`), is cut (`IsStr.cut`) and is moved (`IsStr.move`); `lines_append` and
`lines_piece`.
-/
import Mathlib.Tactic
import SprdDevice.Lib.Memory

namespace SprdDevice.Text

open SprdDevice.Memory

/-! ## Strings -/

section Strings

variable {α : Type} [Zero α]

def cstr [DecidableEq α] (m : ℕ → α) (room p : ℕ) : List α := (cells m p (room - p)).takeWhile (· ≠ 0)

/-- the string l at p -/
structure IsStr (m : ℕ → α) (p : ℕ) (l : List α) : Prop where
  cells : cells m p l.length = l
  nul : 0 ∉ l
  stop : m (p + l.length) = 0

variable {m : ℕ → α} {p : ℕ} {l : List α}

theorem IsStr.cstr_eq [DecidableEq α] (h : IsStr m p l) {room : ℕ} (hroom : p + l.length < room) : cstr m room p = l := by
  have hsplit : room - p = l.length + ((room - p - l.length - 1) + 1) := by omega
  have hall : ∀ b ∈ l, decide (b ≠ 0) = true := fun b hb => by
    have hne : b ≠ 0 := by
      rintro rfl
      exact h.nul hb
    simpa using hne
  rw [cstr, hsplit, cells_add, h.cells, cells_succ, h.stop, List.takeWhile_append_of_pos hall]
  simp

theorem isStr_nil (h : m p = 0) : IsStr m p [] := ⟨rfl, List.not_mem_nil, h⟩

theorem IsStr.head_eq_zero_iff (h : IsStr m p l) : m p = 0 ↔ l = [] := by
  cases l with
  | nil => exact iff_of_true h.stop rfl
  | cons a l =>
    have hcells := h.cells
    rw [List.length_cons, cells_succ, List.cons.injEq] at hcells
    have hne : a ≠ 0 := by
      rintro rfl
      exact h.nul (List.mem_cons_self ..)
    rw [hcells.1]
    exact iff_of_false hne (List.cons_ne_nil a l)

/-- what is left of a string behind its first part -/
theorem IsStr.drop {a b : List α} (h : IsStr m p (a ++ b)) : IsStr m (p + a.length) b := by
  have hcells := h.cells
  rw [List.length_append, cells_add] at hcells
  have hsplit := List.append_inj hcells (by simp)
  refine ⟨hsplit.2, fun hb => h.nul (List.mem_append_right a hb), ?_⟩
  rw [Nat.add_assoc, ← List.length_append]
  exact h.stop

/-- a string and its new terminator behind another string -/
theorem IsStr.append (h : IsStr m p l) {t : List α} (ht : 0 ∉ t) :
    IsStr (store m (p + l.length) (t ++ [0])) p (l ++ t) := by
  have hnew : Memory.cells (store m (p + l.length) (t ++ [0])) (p + l.length) t.length = t := by
    refine List.ext_getElem (length_cells _ _ _) fun i h1 h2 => ?_
    have hi : i < (t ++ [(0 : α)]).length := by
      rw [List.length_append]
      omega
    have hget : (Memory.cells (store m (p + l.length) (t ++ [0])) (p + l.length) t.length)[i] =
        store m (p + l.length) (t ++ [0]) (p + l.length + i) := by simp [Memory.cells]
    rw [hget, store_add _ _ _ hi, List.getElem_append_left h2]
  have hold : Memory.cells (store m (p + l.length) (t ++ [0])) p l.length = Memory.cells m p l.length :=
    cells_congr fun i hi => store_outside _ _ (Or.inl (by omega))
  refine ⟨?_, ?_, ?_⟩
  · rw [List.length_append, cells_add, hnew, hold, h.cells]
  · intro hmem
    rcases List.mem_append.1 hmem with hl | hr
    · exact h.nul hl
    · exact ht hr
  · have hi : t.length < (t ++ [(0 : α)]).length := by simp
    rw [List.length_append, ← Nat.add_assoc, store_add _ _ _ hi]
    simp

/-- a terminator over one cell leaves the string before it and the one behind it -/
theorem IsStr.cut {a b : List α} {x : α} (h : IsStr m p (a ++ x :: b)) :
    IsStr (Function.update m (p + a.length) 0) p a ∧
      IsStr (Function.update m (p + a.length) 0) (p + a.length + 1) b := by
  have hcells := h.cells
  rw [List.length_append, cells_add] at hcells
  have hfirst := (List.append_inj hcells (by simp)).1
  have hrest : IsStr m (p + a.length) ([x] ++ b) := h.drop
  have hbehind : IsStr m (p + a.length + 1) b := hrest.drop
  constructor
  · refine ⟨?_, fun ha => h.nul (List.mem_append_left _ ha), Function.update_self ..⟩
    calc Memory.cells (Function.update m (p + a.length) 0) p a.length = Memory.cells m p a.length :=
          cells_congr fun i hi => Function.update_of_ne (by omega) _ _
      _ = a := hfirst
  · refine ⟨?_, hbehind.nul, ?_⟩
    · calc Memory.cells (Function.update m (p + a.length) 0) (p + a.length + 1) b.length =
            Memory.cells m (p + a.length + 1) b.length := cells_congr fun i hi => Function.update_of_ne (by omega) _ _
        _ = b := hbehind.cells
    · rw [Function.update_of_ne (by omega)]
      exact hbehind.stop

/-- a string moved to the start, with its terminator -/
theorem IsStr.move (h : IsStr m p l) : IsStr (copy m (fun i => m (p + i)) (l.length + 1)) 0 l := by
  refine ⟨?_, h.nul, ?_⟩
  · calc Memory.cells (copy m (fun i => m (p + i)) (l.length + 1)) 0 l.length = Memory.cells m p l.length :=
          cells_congr fun i hi => by
            rw [Nat.zero_add, copy, if_pos (by omega)]
      _ = l := h.cells
  · rw [Nat.zero_add, copy, if_pos (by omega)]
    exact h.stop

end Strings

/-! ## Lines -/

section Lines

variable {α : Type} (sep : α → Bool)

def lines (t : List α) : List (List α) := (t.splitOnP sep).dropLast.filter fun l => !l.isEmpty

/-- a text that is over, or has not begun -/
def Ended (t : List α) : Prop := t = [] ∨ ∃ u x, t = u ++ [x] ∧ sep x = true

variable {sep}

theorem ended_append {t u : List α} (ht : Ended sep t) (hu : Ended sep u) : Ended sep (t ++ u) := by
  rcases hu with rfl | ⟨v, x, rfl, hx⟩
  · rwa [List.append_nil]
  · exact Or.inr ⟨t ++ v, x, (List.append_assoc ..).symm, hx⟩

theorem ended_of_all {t : List α} (h : ∀ x ∈ t, sep x = true) : Ended sep t := by
  rcases List.eq_nil_or_concat' t with rfl | ⟨u, x, rfl⟩
  · exact Or.inl rfl
  · exact Or.inr ⟨u, x, rfl, h x (by simp)⟩

@[simp] theorem lines_nil : lines sep ([] : List α) = [] := by simp [lines]

/-- a text without a separator has no line yet -/
theorem lines_open {t : List α} (h : ∀ x ∈ t, sep x = false) : lines sep t = [] := by
  rw [lines, List.splitOnP_eq_singleton h]
  rfl

/-- the lines of a text that is over are left alone by what follows -/
theorem lines_append {t : List α} (h : Ended sep t) (u : List α) : lines sep (t ++ u) = lines sep t ++ lines sep u := by
  rcases h with rfl | ⟨v, x, rfl, hx⟩
  · rw [List.nil_append, lines_nil, List.nil_append]
  · have hne : List.splitOnP sep u ≠ [] := List.splitOnP_ne_nil sep u
    unfold lines
    rw [List.append_assoc, List.singleton_append, List.splitOnP_append_cons v u hx, List.splitOnP_append_cons v [] hx,
      List.dropLast_append_of_ne_nil hne, List.splitOnP_nil, List.dropLast_concat, List.filter_append]

theorem lines_piece {t : List α} (hne : t ≠ []) (h : ∀ x ∈ t, sep x = false) {x : α} (hx : sep x = true) :
    lines sep (t ++ [x]) = [t] := by
  unfold lines
  rw [List.splitOnP_append_cons_of_forall_mem h x hx, List.splitOnP_nil]
  simp [hne]

theorem lines_seps {t : List α} (h : ∀ x ∈ t, sep x = true) : lines sep t = [] := by
  induction t with
  | nil => exact lines_nil
  | cons x t ih =>
    have hx : Ended sep [x] := Or.inr ⟨[], x, rfl, h x (List.mem_cons_self ..)⟩
    have hone : lines sep [x] = [] := by
      have hsplit := List.splitOnP_append_cons ([] : List α) [] (h x (List.mem_cons_self ..))
      rw [List.nil_append] at hsplit
      rw [lines, hsplit, List.splitOnP_nil]
      rfl
    calc lines sep (x :: t) = lines sep [x] ++ lines sep t := lines_append hx t
      _ = [] := by rw [hone, ih fun y hy => h y (List.mem_cons_of_mem x hy), List.nil_append]

end Lines

end SprdDevice.Text
