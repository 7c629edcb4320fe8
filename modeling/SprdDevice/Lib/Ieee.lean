/-
Quotients of naturals with the treatment of a zero divisor of IEEE 754, and their comparisons with a number.

- `Value`: an exact number, infinity, or not a number;
- `div a b`: the quotient; `0 / 0` is not a number;
- `Lt x q`, `Gt x q`: the comparisons `x < q` and `x > q`; not a number is in neither;
- `Between x lo hi`: x is a number from lo to hi.
Result: what passes both comparisons (`div_range_iff`): a number in the range, or 0 / 0.
-/
import Mathlib.Tactic

namespace SprdDevice.Ieee

inductive Value where
  | fin (q : ℚ)
  | inf
  | nan
deriving DecidableEq, Repr

def div (a b : ℕ) : Value := if b = 0 then (if a = 0 then .nan else .inf) else .fin (a / b)

def Lt (x : Value) (q : ℚ) : Prop :=
  match x with
  | .fin p => p < q
  | .inf => False
  | .nan => False

def Gt (x : Value) (q : ℚ) : Prop :=
  match x with
  | .fin p => q < p
  | .inf => True
  | .nan => False

instance (x : Value) (q : ℚ) : Decidable (Lt x q) :=
  match x with
  | .fin p => inferInstanceAs (Decidable (p < q))
  | .inf => inferInstanceAs (Decidable False)
  | .nan => inferInstanceAs (Decidable False)

instance (x : Value) (q : ℚ) : Decidable (Gt x q) :=
  match x with
  | .fin p => inferInstanceAs (Decidable (q < p))
  | .inf => inferInstanceAs (Decidable True)
  | .nan => inferInstanceAs (Decidable False)

def Between (x : Value) (lo hi : ℚ) : Prop := ∃ q, x = .fin q ∧ lo ≤ q ∧ q ≤ hi

variable {a b : ℕ} {lo hi : ℚ}

theorem div_zero_zero : div 0 0 = .nan := rfl

theorem between_div_iff : Between (div a b) lo hi ↔ b ≠ 0 ∧ lo ≤ (a / b : ℚ) ∧ (a / b : ℚ) ≤ hi := by
  by_cases hb : b = 0
  · have hno : ∀ q, div a b ≠ .fin q := by
      intro q
      rw [div, if_pos hb]
      split_ifs <;> exact fun h => nomatch h
    exact iff_of_false (fun ⟨q, hq, _⟩ => hno q hq) fun h => h.1 hb
  · have hdiv : div a b = .fin (a / b) := if_neg hb
    rw [hdiv]
    constructor
    · rintro ⟨q, hq, hlo, hhi⟩
      cases hq
      exact ⟨hb, hlo, hhi⟩
    · rintro ⟨-, hlo, hhi⟩
      exact ⟨_, rfl, hlo, hhi⟩

/-- a test that refuses what is below lo and what is above hi lets 0 / 0 pass -/
theorem div_range_iff : ¬ Lt (div a b) lo ∧ ¬ Gt (div a b) hi ↔ (a = 0 ∧ b = 0) ∨ Between (div a b) lo hi := by
  rw [between_div_iff]
  by_cases hb : b = 0
  · by_cases ha : a = 0
    · rw [ha, hb, div_zero_zero]
      simp [Lt, Gt]
    · have hdiv : div a b = .inf := by rw [div, if_pos hb, if_neg ha]
      rw [hdiv]
      simp [Lt, Gt, ha, hb]
  · have hdiv : div a b = .fin (a / b) := if_neg hb
    rw [hdiv]
    simp [Lt, Gt, hb]

end SprdDevice.Ieee
