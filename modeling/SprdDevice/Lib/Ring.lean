/-
A ring of `count` slots that holds a list: element i of the list stands in the slot i places behind the read slot,
counted around the ring.

Results: putting an element behind the list (`Holds.push`) and taking its first element off (`Holds.head`,
`Holds.tail`).
-/
import Mathlib.Tactic

namespace SprdDevice.Ring

variable {α : Type} {count read : ℕ} {slots : ℕ → α} {l : List α}

/-- the slot after slot i -/
def next (count i : ℕ) : ℕ := if i + 1 > count - 1 then 0 else i + 1

theorem next_eq {i : ℕ} (h : i < count) : next count i = (i + 1) % count := by
  unfold next
  split_ifs with hlast
  · have heq : i + 1 = count := by omega
    rw [heq, Nat.mod_self]
  · rw [Nat.mod_eq_of_lt (by omega)]

def Holds (count : ℕ) (slots : ℕ → α) (read : ℕ) (l : List α) : Prop :=
  ∀ i, ∀ h : i < l.length, slots ((read + i) % count) = l[i]

theorem holds_nil (count : ℕ) (slots : ℕ → α) (read : ℕ) : Holds count slots read [] := by
  intro i h
  exact absurd h (Nat.not_lt_zero i)

/-- two places less than a turn apart are different slots -/
theorem slot_ne (read : ℕ) {i j : ℕ} (h1 : i < j) (h2 : j < i + count) : (read + i) % count ≠ (read + j) % count := by
  intro heq
  have hzero : (read + j - (read + i)) % count = 0 := Nat.sub_mod_eq_zero_of_mod_eq heq.symm
  have hdiff : read + j - (read + i) = j - i := by omega
  rw [hdiff, Nat.mod_eq_of_lt (by omega)] at hzero
  omega

theorem Holds.push (h : Holds count slots read l) (hroom : l.length < count) (a : α) :
    Holds count (Function.update slots ((read + l.length) % count) a) read (l ++ [a]) := by
  intro i hi
  rw [List.length_append, List.length_singleton] at hi
  by_cases hlast : i = l.length
  · subst hlast
    simp
  · have hlt : i < l.length := by omega
    rw [Function.update_of_ne (slot_ne read hlt (by omega)), List.getElem_append_left hlt]
    exact h i hlt

theorem Holds.congr {slots' : ℕ → α} (h : Holds count slots read l)
    (heq : ∀ i < l.length, slots' ((read + i) % count) = slots ((read + i) % count)) : Holds count slots' read l :=
  fun i hi => (heq i hi).trans (h i hi)

theorem Holds.head {a : α} (h : Holds count slots read (a :: l)) (hread : read < count) : slots read = a := by
  have h0 := h 0 (by simp)
  rwa [Nat.add_zero, Nat.mod_eq_of_lt hread] at h0

theorem Holds.tail {a : α} (h : Holds count slots read (a :: l)) : Holds count slots ((read + 1) % count) l := by
  intro i hi
  have hsucc := h (i + 1) (by simpa using hi)
  have hslot : ((read + 1) % count + i) % count = (read + (i + 1)) % count := by
    rw [Nat.mod_add_mod]
    congr 1
    omega
  rw [hslot]
  simpa using hsucc

/-- the slot that was read may be overwritten -/
theorem Holds.clear (h : Holds count slots ((read + 1) % count) l) (hread : read < count) (hroom : l.length < count)
    (z : α) : Holds count (Function.update slots read z) ((read + 1) % count) l := by
  intro i hi
  have hslot : ((read + 1) % count + i) % count = (read + (i + 1)) % count := by
    rw [Nat.mod_add_mod]
    congr 1
    omega
  have hne : (read + (i + 1)) % count ≠ read := by
    have hne0 : (read + 0) % count ≠ (read + (i + 1)) % count := slot_ne read (Nat.succ_pos i) (by omega)
    rw [Nat.add_zero, Nat.mod_eq_of_lt hread] at hne0
    exact hne0.symm
  rw [hslot, Function.update_of_ne hne, ← hslot]
  exact h i hi

end SprdDevice.Ring
