/-
Bit tables kept in 32-bit words: bit i of the table is bit i % 32 of word i / 32.

- `bit t i`: the bit; `orAt t w m`: the mask m or-ed into word w;
- `merge n a b`, `clear n a`: the or and the zeroing of the first n words;
- `anySet n t`: whether one of the first n words is not zero.
Results: how each operation acts on the bits (`bit_orAt`, `bit_merge`, `bit_clear`), the bits of a run mask
(`runMask_getLsbD`), and that a test of the words is a test of the bits (`anySet_iff`).
-/
import Mathlib.Tactic

namespace SprdDevice.BitTable

def bit (t : ℕ → BitVec 32) (i : ℕ) : Bool := (t (i / 32)).getLsbD (i % 32)

def orAt (t : ℕ → BitVec 32) (w : ℕ) (m : BitVec 32) : ℕ → BitVec 32 := Function.update t w (t w ||| m)

def merge (n : ℕ) (a b : ℕ → BitVec 32) : ℕ → BitVec 32 := fun i => if i < n then a i ||| b i else a i

def clear (n : ℕ) (a : ℕ → BitVec 32) : ℕ → BitVec 32 := fun i => if i < n then 0 else a i

def anySet (n : ℕ) (t : ℕ → BitVec 32) : Bool := (List.range n).any fun i => t i != 0

/-- the ones of a run of n bits from bit b on, as two shifts of the full word -/
def runMask (b n : ℕ) : BitVec 32 := (BitVec.allOnes 32 >>> (32 - n)) <<< b

/-! ## Bits under the operations -/

theorem bit_orAt (t : ℕ → BitVec 32) (w : ℕ) (m : BitVec 32) (i : ℕ) :
    bit (orAt t w m) i = (bit t i || (decide (i / 32 = w) && m.getLsbD (i % 32))) := by
  unfold bit orAt
  by_cases h : i / 32 = w
  · subst h; simp
  · simp [h]

theorem bit_merge {n i : ℕ} (a b : ℕ → BitVec 32) (h : i < 32 * n) : bit (merge n a b) i = (bit a i || bit b i) := by
  have hw : i / 32 < n := by omega
  simp [bit, merge, hw]

theorem bit_clear {n i : ℕ} (a : ℕ → BitVec 32) (h : i < 32 * n) : bit (clear n a) i = false := by
  have hw : i / 32 < n := by omega
  simp [bit, clear, hw]

theorem ones_shiftLeft_getLsbD (b k : ℕ) (hk : k < 32) :
    (BitVec.allOnes 32 <<< b).getLsbD k = decide (b ≤ k) := by
  by_cases h : b ≤ k
  · have hs : k - b < 32 := by omega
    simp only [BitVec.getLsbD_shiftLeft, BitVec.getLsbD_allOnes, hk, h, hs, Nat.not_lt.2 h, decide_true, decide_false,
      Bool.not_false, Bool.and_self]
  · simp [BitVec.getLsbD_shiftLeft, h, Nat.lt_of_not_le h]

theorem runMask_getLsbD (b n k : ℕ) (hn : b + n ≤ 32) (hk : k < 32) :
    (runMask b n).getLsbD k = decide (b ≤ k ∧ k < b + n) := by
  unfold runMask
  by_cases h : b ≤ k
  · simp only [BitVec.getLsbD_shiftLeft, BitVec.getLsbD_ushiftRight, BitVec.getLsbD_allOnes, hk, h, true_and,
      decide_true, Bool.true_and, Nat.not_lt.2 h, decide_false, Bool.not_false]
    congr 1
    exact propext ⟨fun h2 => by omega, fun h2 => by omega⟩
  · simp [BitVec.getLsbD_shiftLeft, h, Nat.lt_of_not_le h]

/-! ## Words and bits -/

theorem word_ne_zero_iff (x : BitVec 32) : x ≠ 0 ↔ ∃ k < 32, x.getLsbD k = true := by
  constructor
  · intro h
    by_contra hc
    push Not at hc
    apply h
    apply BitVec.eq_of_getLsbD_eq
    intro k hk
    simpa using hc k hk
  · rintro ⟨k, -, hk⟩ rfl
    simp at hk

/-- a table has a word that is not zero among the first n exactly when it has a set bit among the first 32 n -/
theorem anySet_iff (n : ℕ) (t : ℕ → BitVec 32) : anySet n t = true ↔ ∃ i < 32 * n, bit t i = true := by
  simp only [anySet, List.any_eq_true, List.mem_range, bne_iff_ne]
  constructor
  · rintro ⟨w, hw, hne⟩
    obtain ⟨k, hk, hb⟩ := (word_ne_zero_iff _).1 hne
    refine ⟨32 * w + k, by omega, ?_⟩
    have h1 : (32 * w + k) / 32 = w := by omega
    have h2 : (32 * w + k) % 32 = k := by omega
    simpa [bit, h1, h2] using hb
  · rintro ⟨i, hi, hb⟩
    exact ⟨i / 32, by omega, (word_ne_zero_iff _).2 ⟨i % 32, Nat.mod_lt _ (by decide), hb⟩⟩

theorem anySet_clear (n : ℕ) (t : ℕ → BitVec 32) : anySet n (clear n t) = false := by
  rw [Bool.eq_false_iff]
  intro h
  obtain ⟨i, hi, hb⟩ := (anySet_iff n _).1 h
  rw [bit_clear t hi] at hb
  exact absurd hb (by decide)

theorem anySet_merge (n : ℕ) (a b : ℕ → BitVec 32) : anySet n (merge n a b) = (anySet n a || anySet n b) := by
  rw [Bool.eq_iff_iff, Bool.or_eq_true, anySet_iff, anySet_iff, anySet_iff]
  constructor
  · rintro ⟨i, hi, hb⟩
    rw [bit_merge a b hi, Bool.or_eq_true] at hb
    exact hb.imp (fun h => ⟨i, hi, h⟩) fun h => ⟨i, hi, h⟩
  · rintro (⟨i, hi, hb⟩ | ⟨i, hi, hb⟩) <;> exact ⟨i, hi, by simp [bit_merge a b hi, hb]⟩

end SprdDevice.BitTable
