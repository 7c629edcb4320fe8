/-
Numbered files, the older the higher the number, and renames of one to the next higher number.

- `concat f n`: the files below n from the oldest to the newest, missing ones empty;
- `move f i`: file i is renamed to i+1, over what is there; nothing happens when file i is missing;
- `dropped f i`: what this rename overwrites.
Results: a rename of the oldest two drops the front of the concatenation (`concat_move_top`), one onto a free number
leaves it as it is (`concat_move`).
-/
import Mathlib.Tactic

namespace SprdDevice.Rotation

variable {α : Type} {f g : ℕ → Option (List α)} {i j n : ℕ}

def concat (f : ℕ → Option (List α)) : ℕ → List α
  | 0 => []
  | n + 1 => (f n).getD [] ++ concat f n

def move (f : ℕ → Option (List α)) (i : ℕ) : ℕ → Option (List α) :=
  match f i with
  | none => f
  | some c => Function.update (Function.update f (i + 1) (some c)) i none

def dropped (f : ℕ → Option (List α)) (i : ℕ) : List α := if f i = none then [] else (f (i + 1)).getD []

theorem move_none (h : f i = none) : move f i = f := by rw [move, h]

theorem move_source : move f i i = none := by
  rcases h : f i with _ | c
  · rw [move_none h, h]
  · rw [move, h]
    show Function.update (Function.update f (i + 1) (some c)) i none i = none
    rw [Function.update_self]

theorem move_target {c : List α} (h : f i = some c) : move f i (i + 1) = some c := by
  rw [move, h]
  show Function.update (Function.update f (i + 1) (some c)) i none (i + 1) = some c
  rw [Function.update_of_ne (Nat.succ_ne_self i), Function.update_self]

theorem move_other (h1 : j ≠ i) (h2 : j ≠ i + 1) : move f i j = f j := by
  rcases h : f i with _ | c
  · rw [move_none h]
  · rw [move, h]
    show Function.update (Function.update f (i + 1) (some c)) i none j = f j
    rw [Function.update_of_ne h1, Function.update_of_ne h2]

/-- a file after the rename was there before, under its number or under the one below -/
theorem move_eq_some {c : List α} (h : move f i j = some c) : f j = some c ∧ j ≠ i ∨ f i = some c ∧ j = i + 1 := by
  by_cases hj : j = i
  · rw [hj, move_source] at h
    cases h
  by_cases hj' : j = i + 1
  · rcases hf : f i with _ | d
    · rw [move_none hf] at h
      exact Or.inl ⟨h, hj⟩
    · rw [hj', move_target hf] at h
      exact Or.inr ⟨h, hj'⟩
  · rw [move_other hj hj'] at h
    exact Or.inl ⟨h, hj⟩

theorem concat_congr (h : ∀ j < n, f j = g j) : concat f n = concat g n := by
  induction n with
  | zero => rfl
  | succ n ih => rw [concat, concat, h n (Nat.lt_succ_self n), ih fun j hj => h j (hj.trans (Nat.lt_succ_self n))]

theorem concat_move_below : concat (move f i) i = concat f i :=
  concat_congr fun _ hj => move_other hj.ne (hj.trans (Nat.lt_succ_self i)).ne

theorem concat_move_top : concat f (i + 2) = dropped f i ++ concat (move f i) (i + 2) := by
  rcases h : f i with _ | c
  · rw [move_none h, dropped, if_pos h, List.nil_append]
  · have hne : ¬ f i = none := by
      rw [h]
      exact fun h => nomatch h
    calc concat f (i + 2) = (f (i + 1)).getD [] ++ ((f i).getD [] ++ concat f i) := rfl
      _ = dropped f i ++ (c ++ concat (move f i) i) := by
        rw [dropped, if_neg hne, concat_move_below, h, Option.getD_some]
      _ = dropped f i ++ ((move f i (i + 1)).getD [] ++ ((move f i i).getD [] ++ concat (move f i) i)) := by
        rw [move_target h, move_source, Option.getD_some, Option.getD_none, List.nil_append]

theorem concat_move (h : f (i + 1) = none) (hn : i + 2 ≤ n) : concat (move f i) n = concat f n := by
  induction n, hn using Nat.le_induction with
  | base =>
    have hdrop : dropped f i = [] := by
      rw [dropped, h, Option.getD_none, ite_self]
    exact (concat_move_top.trans (by rw [hdrop, List.nil_append])).symm
  | succ n hn ih => rw [concat, concat, ih, move_other (by omega) (by omega)]

/-- more at the end of the newest file -/
theorem concat_append {new : List α} (hn : 0 < n) :
    concat (Function.update f 0 (some ((f 0).getD [] ++ new))) n = concat f n ++ new := by
  induction n, hn using Nat.le_induction with
  | base => simp [concat]
  | succ n hn ih =>
    have hne : n ≠ 0 := Nat.one_le_iff_ne_zero.mp hn
    rw [concat, concat, ih, Function.update_of_ne hne, List.append_assoc]

end SprdDevice.Rotation
