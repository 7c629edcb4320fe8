/-
Files that are rewritten one after the other, and a crash at any point: a write is a list of actions, each of which
truncates a file or appends one cell to it, and a crash keeps the actions done so far.

Results: what a rewrite leaves (`exec_rewrite`), what a rewrite leaves that is cut after k actions
(`exec_rewrite_take`), and the same for two files rewritten in turn (`exec_two_take`): the file that was being written
is a prefix of its new contents, a file before it is complete and a file after it is as it was.
-/
import Mathlib.Tactic

namespace SprdDevice.Crash

variable {ι α : Type} [DecidableEq ι]

/-- the contents of each file, none for a file that does not exist -/
abbrev Store (ι α : Type) := ι → Option (List α)

inductive Act (ι α : Type) where
  | trunc (i : ι)
  | put (i : ι) (a : α)

def Act.exec (f : Store ι α) : Act ι α → Store ι α
  | .trunc i => Function.update f i (some [])
  | .put i a => Function.update f i (some ((f i).getD [] ++ [a]))

def exec (f : Store ι α) (acts : List (Act ι α)) : Store ι α := acts.foldl Act.exec f

/-- open with truncation, and write l -/
def rewrite (i : ι) (l : List α) : List (Act ι α) := .trunc i :: l.map (.put i)

theorem exec_append (f : Store ι α) (a b : List (Act ι α)) : exec f (a ++ b) = exec (exec f a) b := by
  simp [exec]

theorem exec_puts (f : Store ι α) (i : ι) (c l : List α) :
    exec (Function.update f i (some c)) (l.map (.put i)) = Function.update f i (some (c ++ l)) := by
  induction l generalizing c with
  | nil => simp [exec]
  | cons a l ih =>
    have := ih (c ++ [a])
    simpa [exec, Act.exec] using this

theorem exec_rewrite (f : Store ι α) (i : ι) (l : List α) :
    exec f (rewrite i l) = Function.update f i (some l) := exec_puts f i [] l

omit [DecidableEq ι] in
@[simp] theorem rewrite_length (i : ι) (l : List α) : (rewrite i l).length = l.length + 1 := by simp [rewrite]

/-- a rewrite that is cut after the truncation and k cells -/
theorem exec_rewrite_take (f : Store ι α) (i : ι) (l : List α) (k : ℕ) :
    exec f ((rewrite i l).take (k + 1)) = Function.update f i (some (l.take k)) := by
  have hcut : (rewrite i l).take (k + 1) = rewrite i (l.take k) := by simp [rewrite, List.map_take]
  rw [hcut, exec_rewrite]

/-- two rewrites in turn, cut after k actions -/
theorem exec_two_take (f : Store ι α) (i j : ι) (l : List α) (k : ℕ) :
    exec f ((rewrite i l ++ rewrite j l).take k) =
      if k = 0 then f
      else if k ≤ l.length + 1 then Function.update f i (some (l.take (k - 1)))
      else Function.update (Function.update f i (some l)) j (some (l.take (k - (l.length + 2)))) := by
  split_ifs with h0 h1
  · subst h0; rfl
  · obtain ⟨n, rfl⟩ := Nat.exists_eq_succ_of_ne_zero h0
    rw [List.take_append_of_le_length (by simpa using h1)]
    exact exec_rewrite_take f i l n
  · obtain ⟨n, rfl⟩ : ∃ n, k = (l.length + 1) + (n + 1) := ⟨k - (l.length + 2), by omega⟩
    have hsplit : (rewrite i l ++ rewrite j l).take (l.length + 1 + (n + 1)) =
        rewrite i l ++ (rewrite j l).take (n + 1) := by
      rw [List.take_append, rewrite_length, List.take_of_length_le (by simp)]
      congr 2
      omega
    rw [hsplit, exec_append, exec_rewrite, exec_rewrite_take]
    congr 3
    omega

end SprdDevice.Crash
