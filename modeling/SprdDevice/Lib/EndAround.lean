/-
Sums of 16-bit words in a 32-bit accumulator, folded to 16 bits with the carry added at the low end.

Modulo 2^16 - 1 a number and its fold are the same, since 2^16 is 1 there, and so is a sum that has run over 2^32. The
fold tells zero from the other multiples of 2^16 - 1.

Results: `fold_eq_iff` (when two accumulators have the same fold) and `fold_ne_of_step` (a step of less than 2^16 - 1).
-/
import Mathlib.Tactic

namespace SprdDevice.EndAround

/-- the 16 bits of an accumulator, its upper half and then the carry added to the lower half -/
def fold (checksum : ℕ) : ℕ :=
  let checksum := checksum / 2 ^ 16 + checksum % 2 ^ 16
  (checksum + checksum / 2 ^ 16) % 2 ^ 16

theorem fold_lt (s : ℕ) : fold s < 2 ^ 16 := Nat.mod_lt _ (by decide)

variable {s t : ℕ}

/-- the sum of the two halves, less 2^16 - 1 where there is a carry -/
theorem fold_cases (hs : s < 2 ^ 32) : ∃ c, s = 65535 * (s / 2 ^ 16) + c ∧
    (c < 65536 ∧ fold s = c ∨ 65536 ≤ c ∧ c ≤ 131070 ∧ fold s = c - 65535) := by
  refine ⟨s / 2 ^ 16 + s % 2 ^ 16, by omega, ?_⟩
  have hbound : s / 2 ^ 16 + s % 2 ^ 16 ≤ 131070 := by omega
  unfold fold
  dsimp only
  generalize s / 2 ^ 16 + s % 2 ^ 16 = c at hbound
  rcases Nat.lt_or_ge c 65536 with h | h
  · have hcarry : c / 2 ^ 16 = 0 := by omega
    rw [hcarry]
    exact Or.inl ⟨h, by omega⟩
  · have hcarry : c / 2 ^ 16 = 1 := by omega
    rw [hcarry]
    exact Or.inr ⟨h, hbound, by omega⟩

theorem fold_mod (hs : s < 2 ^ 32) : fold s % 65535 = s % 65535 := by
  obtain ⟨c, hc, ⟨-, h⟩ | ⟨hlow, -, h⟩⟩ := fold_cases hs
  · rw [h, hc, Nat.mul_add_mod]
  · rw [h, hc, Nat.mul_add_mod, ← Nat.mod_eq_sub_mod (by omega)]

theorem fold_eq_zero (hs : s < 2 ^ 32) : fold s = 0 ↔ s = 0 := by
  obtain ⟨c, hc, ⟨hlow, h⟩ | ⟨hlow, -, h⟩⟩ := fold_cases hs <;> omega

theorem fold_eq_iff (hs : s < 2 ^ 32) (ht : t < 2 ^ 32) : fold s = fold t ↔ s % 65535 = t % 65535 ∧ (s = 0 ↔ t = 0) := by
  have hsm := fold_mod hs
  have htm := fold_mod ht
  have hs0 := fold_eq_zero hs
  have ht0 := fold_eq_zero ht
  have hsl := fold_lt s
  have htl := fold_lt t
  constructor
  · intro h
    rw [h] at hsm hs0
    exact ⟨hsm.symm.trans htm, hs0.symm.trans ht0⟩
  · rintro ⟨hmod, hzero⟩
    -- below 2^16 only 0 and 2^16 - 1 are the same modulo 2^16 - 1
    omega

/-- A summand that grows by less than 2^16 - 1 changes the fold, also when the sum runs over. -/
theorem fold_ne_of_step (s : ℕ) {d : ℕ} (hd : 0 < d) (hd' : d < 65535) : fold (s % 2 ^ 32) ≠ fold ((s + d) % 2 ^ 32) := by
  have hs : s % 2 ^ 32 < 2 ^ 32 := Nat.mod_lt _ (by decide)
  have ht : (s + d) % 2 ^ 32 < 2 ^ 32 := Nat.mod_lt _ (by decide)
  rw [Ne, fold_eq_iff hs ht]
  rintro ⟨hmod, hzero⟩
  have hstep : (s + d) % 2 ^ 32 = (s % 2 ^ 32 + d) % 2 ^ 32 := by omega
  rw [hstep] at hmod hzero
  generalize s % 2 ^ 32 = r at hs hmod hzero
  rcases Nat.lt_or_ge (r + d) (2 ^ 32) with h | h
  · rw [Nat.mod_eq_of_lt h] at hmod
    omega
  · -- the sum runs over: 2^32 is 1 modulo 2^16 - 1, so only d = 1 is lost, and it takes 2^32 - 1 to 0
    have hover : (r + d) % 2 ^ 32 = r + d - 2 ^ 32 := by omega
    rw [hover] at hmod hzero
    omega

end SprdDevice.EndAround
