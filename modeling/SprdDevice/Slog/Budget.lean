/-
The budget of the internal log (tools/slog/slog.c, handler_internal_log_size): what statfs reports becomes the size at
which the log files on internal storage rotate, in KB.

The product of the two fields has 64 bits and what becomes of it 32; the difference to the reserve of 5 MB is unsigned,
and log_size_handler multiplies the result as an int. The fields are as wide as the product.
Result: `internal_budget_iff`.
-/
import Mathlib.Tactic
import SprdDevice.Slog.Rotate

namespace SprdDevice.Slog.Budget

structure StatFs where
  f_bavail : ℕ
  f_bsize : ℕ
deriving DecidableEq, Repr

structure Settings where
  slog_enable : Bool
  internal_log_size : ℤ
deriving DecidableEq, Repr

def internal_availabled_size (diskInfo : StatFs) : ℕ := diskInfo.f_bavail * diskInfo.f_bsize % 2 ^ 64 / 1024 % 2 ^ 32

/-- none where mkdir fails, which ends the process; diskInfo is what statfs gives -/
def handler_internal_log_size (s : Settings) (internal made : Bool) (diskInfo : Option StatFs) : Option Settings :=
  if internal = false then some s
  else if made = false then none
  else
    match diskInfo with
    | none => some { s with slog_enable := false }
    | some diskInfo =>
      if internal_availabled_size diskInfo < 10 then some { s with slog_enable := false }
      else some { s with internal_log_size := Rotate.handler_internal_log_size (internal_availabled_size diskInfo) }

/-- what log_size_handler compares the counter with -/
def threshold (s : Settings) : ℤ := Rotate.int32 (s.internal_log_size * 1024)

/-- slog is off, or its twelve files fit and their size is an int -/
def WithinBudget (diskInfo : StatFs) (s : Settings) : Prop :=
  s.slog_enable = false ∨
    (12 * s.internal_log_size * 1024 ≤ (diskInfo.f_bavail * diskInfo.f_bsize : ℕ) ∧
      threshold s = s.internal_log_size * 1024 ∧ 0 ≤ threshold s)

/-- the reported bytes, modulo 4 TB, are less than 10 KB, or at least the reserve of 5 MB and less than 30 GB more -/
def InRange (diskInfo : StatFs) : Prop :=
  diskInfo.f_bavail * diskInfo.f_bsize % 2 ^ 42 < 10 * 2 ^ 10 ∨
    (5 * 2 ^ 20 ≤ diskInfo.f_bavail * diskInfo.f_bsize % 2 ^ 42 ∧
      diskInfo.f_bavail * diskInfo.f_bsize % 2 ^ 42 < 30 * 2 ^ 30 + 5 * 2 ^ 20)

theorem available_eq (diskInfo : StatFs) :
    internal_availabled_size diskInfo = diskInfo.f_bavail * diskInfo.f_bsize % 2 ^ 42 / 1024 := by
  unfold internal_availabled_size
  generalize diskInfo.f_bavail * diskInfo.f_bsize = bytes
  omega

theorem inRange_iff (diskInfo : StatFs) :
    InRange diskInfo ↔ internal_availabled_size diskInfo < 10 ∨
      (5 * 1024 ≤ internal_availabled_size diskInfo ∧ internal_availabled_size diskInfo < 30 * 2 ^ 20 + 5 * 1024) := by
  rw [available_eq, InRange]
  generalize diskInfo.f_bavail * diskInfo.f_bsize % 2 ^ 42 = bytes
  omega

theorem available_le (diskInfo : StatFs) :
    internal_availabled_size diskInfo * 1024 ≤ diskInfo.f_bavail * diskInfo.f_bsize := by
  have h1 := Nat.mod_le (diskInfo.f_bavail * diskInfo.f_bsize % 2 ^ 64 / 1024) (2 ^ 32)
  have h2 := Nat.mod_le (diskInfo.f_bavail * diskInfo.f_bsize) (2 ^ 64)
  unfold internal_availabled_size
  omega

theorem available_lt (diskInfo : StatFs) : internal_availabled_size diskInfo < 2 ^ 32 := Nat.mod_lt _ (by decide)

/-- the size in KB, from the reserve on -/
theorem size_le {available : ℕ} (h : 5 * 1024 ≤ available) (hlt : available < 2 ^ 32) :
    12 * Rotate.handler_internal_log_size available ≤ available ∧
      (Rotate.handler_internal_log_size available < 2 ^ 21 ↔ available < 30 * 2 ^ 20 + 5 * 1024) := by
  have hdiff : (available + 2 ^ 32 - 5 * 1024) % 2 ^ 32 = available - 5 * 1024 := by omega
  unfold Rotate.handler_internal_log_size
  rw [hdiff]
  omega

/-- below it the difference wraps -/
theorem size_wraps {available : ℕ} (h : available < 5 * 1024) :
    2 ^ 21 ≤ Rotate.handler_internal_log_size available := by
  have hdiff : (available + 2 ^ 32 - 5 * 1024) % 2 ^ 32 = available + 2 ^ 32 - 5 * 1024 := by omega
  unfold Rotate.handler_internal_log_size
  rw [hdiff]
  omega

theorem threshold_iff (enable : Bool) (n : ℕ) :
    threshold ⟨enable, n⟩ = (n : ℤ) * 1024 ∧ 0 ≤ threshold ⟨enable, n⟩ ↔ n < 2 ^ 21 := by
  have hlt : threshold ⟨enable, n⟩ < 2 ^ 31 := Rotate.int32_lt _
  constructor
  · rintro ⟨heq, -⟩
    omega
  · intro hn
    have heq : threshold ⟨enable, n⟩ = (n : ℤ) * 1024 := by
      have hint := Rotate.int32_of_lt (show n * 1024 < 2 ^ 31 by omega)
      rw [Nat.cast_mul, Nat.cast_ofNat] at hint
      exact hint
    exact ⟨heq, by omega⟩

/-- **The internal budget.** What handler_internal_log_size sets keeps within the available bytes, and its product is an
int, exactly when it finds less than 10 KB or between 5 MB and 30 GB -/
theorem internal_budget_iff (old : ℤ) (diskInfo : StatFs) :
    (∃ s, handler_internal_log_size ⟨true, old⟩ true true (some diskInfo) = some s ∧ WithinBudget diskInfo s) ↔
      InRange diskInfo := by
  have hle := available_le diskInfo
  have hlt := available_lt diskInfo
  unfold handler_internal_log_size
  rw [inRange_iff, if_neg (by decide), if_neg (by decide)]
  dsimp only
  split_ifs with hten
  · exact iff_of_true ⟨_, rfl, Or.inl rfl⟩ (Or.inl hten)
  · rw [or_iff_right hten]
    constructor
    · rintro ⟨s, hs, hb⟩
      rw [Option.some.injEq] at hs
      rw [← hs] at hb
      obtain ⟨-, hthreshold⟩ := hb.resolve_left Bool.noConfusion
      have hsize := (threshold_iff _ _).mp hthreshold
      by_cases hreserve : 5 * 1024 ≤ internal_availabled_size diskInfo
      · exact ⟨hreserve, (size_le hreserve hlt).2.mp hsize⟩
      · exact absurd hsize (Nat.not_lt.mpr (size_wraps (Nat.not_le.mp hreserve)))
    · rintro ⟨hreserve, hbelow⟩
      obtain ⟨htwelve, hsize⟩ := size_le hreserve hlt
      refine ⟨_, rfl, Or.inr ⟨?_, (threshold_iff _ _).mpr (hsize.mpr hbelow)⟩⟩
      dsimp only
      have hbytes := (Nat.mul_le_mul_right 1024 htwelve).trans hle
      exact_mod_cast hbytes

/-- 4 MB in blocks of 4096 bytes -/
theorem internal_budget_scarce : ¬ ∀ (old : ℤ) (diskInfo : StatFs),
    ∃ s, handler_internal_log_size ⟨true, old⟩ true true (some diskInfo) = some s ∧ WithinBudget diskInfo s := by
  intro h
  obtain ⟨s, hs, hb⟩ := h 0 ⟨1024, 4096⟩
  have hset : handler_internal_log_size ⟨true, 0⟩ true true (some ⟨1024, 4096⟩) = some ⟨true, 286331084⟩ := by
    decide +kernel
  rw [hset, Option.some.injEq] at hs
  rw [← hs] at hb
  exact absurd hb (by unfold WithinBudget; decide +kernel)

end SprdDevice.Slog.Budget
