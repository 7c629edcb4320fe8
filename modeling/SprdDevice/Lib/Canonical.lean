/-
Canonical prefix codes: `b l` symbols have codes of length l, for l = 1, 2, .., in this order. The codes of one length are
consecutive, and the first code of the next length is twice what follows the last of this one.

- `firstCode b l`, `firstSym b l`: the first code of length l and the number of symbols with shorter codes;
- `kraft b n`: the Kraft sum of the lengths up to n.

Results: `codes_lt` (below Kraft sum 1 the codes of length l are below 2^l - 1, so that the code of ones is free) and
`prefix_free`.
-/
import Mathlib.Tactic

namespace SprdDevice.Canonical

variable (b : ℕ → ℕ)

def firstCode : ℕ → ℕ
  | 0 | 1 => 0
  | l + 2 => 2 * (firstCode (l + 1) + b (l + 1))

def firstSym : ℕ → ℕ
  | 0 | 1 => 0
  | l + 2 => firstSym (l + 1) + b (l + 1)

def kraft (n : ℕ) : ℚ := ∑ l ∈ Finset.Icc 1 n, (b l : ℚ) / 2 ^ l

theorem firstCode_succ {l : ℕ} (h : 0 < l) : firstCode b (l + 1) = 2 * (firstCode b l + b l) := by
  obtain ⟨k, rfl⟩ := Nat.exists_eq_succ_of_ne_zero h.ne'
  rfl

theorem firstSym_succ {l : ℕ} (h : 0 < l) : firstSym b (l + 1) = firstSym b l + b l := by
  obtain ⟨k, rfl⟩ := Nat.exists_eq_succ_of_ne_zero h.ne'
  rfl

theorem kraft_succ (n : ℕ) : kraft b (n + 1) = kraft b n + b (n + 1) / 2 ^ (n + 1) :=
  Finset.sum_Icc_succ_top (Nat.le_add_left 1 n) _

theorem kraft_mono {m n : ℕ} (h : m ≤ n) : kraft b m ≤ kraft b n := by
  refine Finset.sum_le_sum_of_subset_of_nonneg (Finset.Icc_subset_Icc_right h) ?_
  intro l _ _
  positivity

/-- the codes up to length l fill the Kraft sum -/
theorem firstCode_eq (l : ℕ) : ((firstCode b (l + 1) + b (l + 1) : ℕ) : ℚ) = 2 ^ (l + 1) * kraft b (l + 1) := by
  induction l with
  | zero =>
    have hone : kraft b 1 = b 1 / 2 := by simp [kraft]
    rw [hone, firstCode]
    push_cast
    ring
  | succ l ih =>
    rw [kraft_succ, firstCode]
    push_cast at ih ⊢
    rw [ih]
    field_simp
    ring

theorem codes_lt {n l : ℕ} (h : kraft b n < 1) (h0 : 0 < l) (hl : l ≤ n) : firstCode b l + b l < 2 ^ l := by
  obtain ⟨k, rfl⟩ := Nat.exists_eq_succ_of_ne_zero h0.ne'
  have hkraft : kraft b (k + 1) < 1 := lt_of_le_of_lt (kraft_mono b hl) h
  have hlt : ((firstCode b (k + 1) + b (k + 1) : ℕ) : ℚ) < ((2 ^ (k + 1) : ℕ) : ℚ) := by
    calc ((firstCode b (k + 1) + b (k + 1) : ℕ) : ℚ) = 2 ^ (k + 1) * kraft b (k + 1) := firstCode_eq b k
      _ < 2 ^ (k + 1) * 1 := by gcongr
      _ = ((2 ^ (k + 1) : ℕ) : ℚ) := by push_cast; ring
  exact_mod_cast hlt

theorem firstCode_lt {n l : ℕ} (h : kraft b n < 1) (h0 : 0 < l) (hl : l ≤ n) : firstCode b l < 2 ^ l :=
  lt_of_le_of_lt (Nat.le_add_right _ _) (codes_lt b h h0 hl)

/-- a longer code, cut to length l, comes behind the codes of length l -/
theorem le_firstCode {l : ℕ} (h0 : 0 < l) (k : ℕ) :
    (firstCode b l + b l) * 2 ^ (k + 1) ≤ firstCode b (l + (k + 1)) := by
  induction k with
  | zero =>
    rw [Nat.zero_add, firstCode_succ b h0]
    exact (Nat.mul_comm _ _).le
  | succ k ih =>
    have hsucc : firstCode b (l + (k + 1 + 1)) = 2 * (firstCode b (l + (k + 1)) + b (l + (k + 1))) :=
      firstCode_succ b (l := l + (k + 1)) (by omega)
    calc (firstCode b l + b l) * 2 ^ (k + 1 + 1) = 2 * ((firstCode b l + b l) * 2 ^ (k + 1)) := by ring
      _ ≤ 2 * firstCode b (l + (k + 1)) := Nat.mul_le_mul_left 2 ih
      _ ≤ 2 * (firstCode b (l + (k + 1)) + b (l + (k + 1))) := Nat.mul_le_mul_left 2 (Nat.le_add_right _ _)
      _ = firstCode b (l + (k + 1 + 1)) := hsucc.symm

/-- **Prefix-free.** No code of length l is a prefix of a longer one -/
theorem prefix_free {l m c d : ℕ} (h0 : 0 < l) (hlm : l < m) (hc : c < firstCode b l + b l)
    (hd : firstCode b m ≤ d) : d / 2 ^ (m - l) ≠ c := by
  obtain ⟨k, rfl⟩ := Nat.exists_eq_add_of_lt hlm
  rw [show l + k + 1 = l + (k + 1) by ring] at hd ⊢
  rw [Nat.add_sub_cancel_left]
  have hle : firstCode b l + b l ≤ d / 2 ^ (k + 1) :=
    (Nat.le_div_iff_mul_le (by positivity)).2 ((le_firstCode b h0 k).trans hd)
  omega

theorem firstSym_mono {l m : ℕ} (h : l ≤ m) : firstSym b l ≤ firstSym b m := by
  induction m, h using Nat.le_induction with
  | base => exact le_rfl
  | succ m _ ih =>
    refine ih.trans ?_
    cases m with
    | zero => exact le_rfl
    | succ m => exact Nat.le_add_right _ _

theorem firstCode_zero {l : ℕ} (h : firstSym b l = 0) : firstCode b l = 0 := by
  induction l with
  | zero => rfl
  | succ l ih =>
    cases l with
    | zero => rfl
    | succ l =>
      have hsum : firstSym b (l + 1) + b (l + 1) = 0 := h
      have hcode := ih (by omega)
      rw [firstCode, hcode]
      omega

end SprdDevice.Canonical
