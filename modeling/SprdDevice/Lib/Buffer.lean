/-
Buffers of a fixed length, as lists of cells.

- `write d i l`: the buffer d with l written from index i on. A write that ends inside the buffer keeps its length;
- `put d i l`: the same, but nothing when the write does not end inside the buffer;
- `fetch d n`: the first n cells, when there are so many;
- `cstr d`: the cells before the first zero one, and `strlen d` their number, when there is a zero cell.
Results: `write_append` (a write in two pieces is the whole write), and the values of `put`, `fetch` and `strlen` inside
the buffer.
-/
import Mathlib.Data.List.TakeWhile
import Mathlib.Tactic

namespace SprdDevice.Buffer

variable {α : Type}

def write (d : List α) (i : ℕ) (l : List α) : List α := d.take i ++ l ++ d.drop (i + l.length)

@[simp] theorem write_nil (d : List α) (i : ℕ) : write d i [] = d := by
  simp [write]

theorem length_write {d : List α} {i : ℕ} {l : List α} (h : i + l.length ≤ d.length) : (write d i l).length = d.length := by
  simp only [write, List.length_append, List.length_take, List.length_drop]
  omega

theorem take_write {d : List α} {i : ℕ} {l : List α} (h : i + l.length ≤ d.length) :
    (write d i l).take (i + l.length) = d.take i ++ l := by
  have hlen : (d.take i ++ l).length = i + l.length := by
    rw [List.length_append, List.length_take]
    omega
  rw [write, ← hlen, List.take_left]

theorem drop_write {d : List α} {i : ℕ} {l : List α} (h : i + l.length ≤ d.length) :
    (write d i l).drop (i + l.length) = d.drop (i + l.length) := by
  have hlen : (d.take i ++ l).length = i + l.length := by
    rw [List.length_append, List.length_take]
    omega
  have hdrop : (d.take i ++ l ++ d.drop (i + l.length)).drop (d.take i ++ l).length = d.drop (i + l.length) :=
    List.drop_left
  rwa [hlen] at hdrop

/-- a write in two pieces is the whole write -/
theorem write_append {d : List α} {i : ℕ} (l m : List α) (h : i + l.length ≤ d.length) :
    write d i (l ++ m) = write (write d i l) (i + l.length) m := by
  have hdrop : (write d i l).drop (i + l.length + m.length) = d.drop (i + (l ++ m).length) := by
    rw [← List.drop_drop, drop_write h, List.drop_drop, List.length_append, Nat.add_assoc]
  rw [write, write, hdrop, take_write h, ← List.append_assoc (d.take i)]

/-- a write over another one that is not longer -/
theorem write_over {d : List α} {i : ℕ} {l m : List α} (hlm : l.length ≤ m.length) (h : i + m.length ≤ d.length) :
    write (write d i l) i m = write d i m := by
  have hl : i + l.length ≤ d.length := by omega
  have htake : (write d i l).take i = d.take i := by
    have hmin := congrArg (List.take i) (take_write hl)
    rwa [List.take_take, Nat.min_eq_left (Nat.le_add_right i l.length), List.take_append_of_le_length
      (by rw [List.length_take]; omega), List.take_take, Nat.min_self] at hmin
  have hdrop : (write d i l).drop (i + m.length) = d.drop (i + m.length) := by
    have hsplit : i + m.length = i + l.length + (m.length - l.length) := by omega
    rw [hsplit, ← List.drop_drop, drop_write hl, List.drop_drop]
  rw [write, htake, hdrop, write]

/-- the end of what was written is written again -/
theorem write_behind {d : List α} {i : ℕ} {k m : List α} (l : List α) (hkm : k.length ≤ m.length)
    (h : i + l.length + m.length ≤ d.length) : write (write d i (l ++ k)) (i + l.length) m = write d i (l ++ m) := by
  have hl : i + l.length ≤ d.length := by omega
  have hlen := length_write hl
  rw [write_append l k hl, write_over hkm (by omega), ← write_append l m hl]

/-! ## Accesses that stay inside -/

def put (d : List α) (i : ℕ) (l : List α) : Option (List α) :=
  if i + l.length ≤ d.length then some (write d i l) else none

def fetch (d : List α) (n : ℕ) : Option (List α) := if n ≤ d.length then some (d.take n) else none

theorem put_inside {d : List α} {i : ℕ} {l : List α} (h : i + l.length ≤ d.length) : put d i l = some (write d i l) :=
  if_pos h

theorem fetch_inside {d : List α} {n : ℕ} (h : n ≤ d.length) : fetch d n = some (d.take n) := if_pos h

/-! ## Strings -/

/-- a string that is written, with its terminator, at the start of a buffer -/
theorem write_cstr [Zero α] (s d : List α) : write d 0 (s ++ [0]) = s ++ 0 :: d.drop (s.length + 1) := by
  simp [write]

section Strings

variable [Zero α] [DecidableEq α]

def cstr (d : List α) : List α := d.takeWhile (· ≠ 0)

def strlen (d : List α) : Option ℕ := if (cstr d).length < d.length then some (cstr d).length else none

variable {s d : List α}

theorem cstr_append (hs : 0 ∉ s) (r : List α) : cstr (s ++ 0 :: r) = s := by
  have hall : ∀ b ∈ s, decide (b ≠ 0) = true := fun b hb => by
    have hne : b ≠ 0 := fun h0 => hs (h0 ▸ hb)
    simpa using hne
  rw [cstr, List.takeWhile_append_of_pos hall]
  simp

/-- a string ends at the first zero cell at the latest -/
theorem cstr_append_zero (l r : List α) : cstr (l ++ 0 :: r) = cstr l := by
  induction l with
  | nil => simp [cstr]
  | cons a l ih =>
    by_cases ha : a = 0
    · simp [cstr, ha]
    · have htail : cstr (a :: (l ++ 0 :: r)) = a :: cstr (l ++ 0 :: r) := List.takeWhile_cons_of_pos (by simpa using ha)
      have hhead : cstr (a :: l) = a :: cstr l := List.takeWhile_cons_of_pos (by simpa using ha)
      rw [List.cons_append, htail, hhead, ih]

theorem cstr_append_zeros (l : List α) (n : ℕ) : cstr (l ++ List.replicate n 0) = cstr l := by
  cases n with
  | zero => rw [List.replicate_zero, List.append_nil]
  | succ n => rw [List.replicate_succ, cstr_append_zero]

theorem cstr_of_not_mem (hs : 0 ∉ s) : cstr s = s := by
  have happ := cstr_append hs []
  rwa [cstr_append_zero] at happ

theorem zero_not_mem_cstr (d : List α) : 0 ∉ cstr d := by
  intro h0
  have hp := List.mem_takeWhile_imp h0
  simp at hp

theorem cstr_initial (d : List α) : cstr d <+: d := List.takeWhile_prefix _

theorem strlen_append (hs : 0 ∉ s) (r : List α) : strlen (s ++ 0 :: r) = some s.length := by
  rw [strlen, cstr_append hs, List.length_append, List.length_cons]
  exact if_pos (by omega)

end Strings

end SprdDevice.Buffer
