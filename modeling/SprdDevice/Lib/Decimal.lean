/-
Decimal numbers as byte strings, the way `printf` writes them and `atoi` reads them.

- `decimal n`: the digits of n; `padded w n`: right-aligned in w columns (`%5d` is `padded 5`);
- `value l`: the number a digit string denotes;
- `atoi l`: blanks skipped, a sign, then the longest run of digits.
Results: `atoi_padded` (reading inverts writing, whatever the width) and `padded_length` (a number that fits its columns
takes exactly these).
-/
import Mathlib.Tactic
import Mathlib.Data.List.TakeWhile

namespace SprdDevice.Decimal

def digit (d : ℕ) : UInt8 := UInt8.ofNat (48 + d)

def isDigit (c : UInt8) : Bool := decide (48 ≤ c.toNat ∧ c.toNat ≤ 57)

def isSpace (c : UInt8) : Bool := decide (c.toNat = 32 ∨ (9 ≤ c.toNat ∧ c.toNat ≤ 13))

def decimal (n : ℕ) : List UInt8 := if n = 0 then [digit 0] else (Nat.digits 10 n).reverse.map digit

def padded (w n : ℕ) : List UInt8 := List.replicate (w - (decimal n).length) 32 ++ decimal n

def value (l : List UInt8) : ℕ := l.foldl (fun v c => 10 * v + (c.toNat - 48)) 0

def atoi (l : List UInt8) : ℤ :=
  match l.dropWhile isSpace with
  | [] => 0
  | c :: l =>
    if c = 45 then -(value (l.takeWhile isDigit) : ℤ)
    else if c = 43 then value (l.takeWhile isDigit)
    else value ((c :: l).takeWhile isDigit)

/-! ## Digits -/

theorem digit_toNat {d : ℕ} (h : d < 10) : (digit d).toNat = 48 + d := by
  simp only [digit, UInt8.toNat_ofNat']
  omega

theorem isDigit_digit {d : ℕ} (h : d < 10) : isDigit (digit d) = true := by
  simp only [isDigit, digit_toNat h, decide_eq_true_eq]
  omega

theorem value_append (l : List UInt8) (c : UInt8) : value (l ++ [c]) = 10 * value l + (c.toNat - 48) := by
  simp [value, List.foldl_append]

theorem value_reverse_digits (ds : List ℕ) (h : ∀ d ∈ ds, d < 10) :
    value (ds.reverse.map digit) = Nat.ofDigits 10 ds := by
  induction ds with
  | nil => rfl
  | cons d ds ih =>
    have hd : d < 10 := h d (by simp)
    have hds := ih fun e he => h e (by simp [he])
    rw [List.reverse_cons, List.map_append, List.map_singleton, value_append, hds, digit_toNat hd, Nat.ofDigits_cons]
    omega

theorem value_decimal (n : ℕ) : value (decimal n) = n := by
  unfold decimal
  split_ifs with hn
  · subst hn
    decide
  · rw [value_reverse_digits _ fun d hd => Nat.digits_lt_base (by norm_num) hd]
    exact Nat.ofDigits_digits 10 n

theorem decimal_isDigit (n : ℕ) : ∀ c ∈ decimal n, isDigit c = true := by
  intro c hc
  unfold decimal at hc
  split_ifs at hc with hn
  · rw [List.mem_singleton.mp hc]
    decide
  · obtain ⟨d, hd, rfl⟩ := List.mem_map.mp hc
    exact isDigit_digit (Nat.digits_lt_base (by norm_num) (List.mem_reverse.mp hd))

theorem decimal_ne_nil (n : ℕ) : decimal n ≠ [] := by
  unfold decimal
  split_ifs with hn
  · simp
  · simp [Nat.digits_ne_nil_iff_ne_zero, hn]

theorem decimal_length_le {n w : ℕ} (hw : 0 < w) (h : n < 10 ^ w) : (decimal n).length ≤ w := by
  unfold decimal
  split_ifs with hn
  · exact hw
  · rw [List.length_map, List.length_reverse]
    exact (Nat.digits_length_le_iff (by norm_num) n).mpr h

/-! ## Reading back -/

theorem padded_length {n w : ℕ} (hw : 0 < w) (h : n < 10 ^ w) : (padded w n).length = w := by
  have hle := decimal_length_le hw h
  simp only [padded, List.length_append, List.length_replicate]
  omega

theorem isSpace_of_isDigit {c : UInt8} (h : isDigit c = true) : isSpace c = false := by
  simp only [isDigit, isSpace, decide_eq_true_eq, decide_eq_false_iff_not] at *
  omega

theorem ne_of_isDigit {c d : UInt8} (hc : isDigit c = true) (hd : isDigit d = false) : c ≠ d := by
  rintro rfl
  rw [hc] at hd
  exact absurd hd (by decide)

theorem mem_padded {n w : ℕ} {c : UInt8} (h : c ∈ padded w n) : c = 32 ∨ isDigit c = true := by
  rcases List.mem_append.mp h with h | h
  · exact Or.inl (List.eq_of_mem_replicate h)
  · exact Or.inr (decimal_isDigit n c h)

theorem dropWhile_padded (w n : ℕ) : (padded w n).dropWhile isSpace = decimal n := by
  obtain ⟨c, l, hcl⟩ := List.exists_cons_of_ne_nil (decimal_ne_nil n)
  have hc : isSpace c = false := isSpace_of_isDigit (decimal_isDigit n c (by simp [hcl]))
  have hspace : ∀ a ∈ List.replicate (w - (decimal n).length) (32 : UInt8), isSpace a = true := by
    intro a ha
    rw [List.eq_of_mem_replicate ha]
    decide
  rw [padded, List.dropWhile_append_of_pos hspace, hcl, List.dropWhile_cons_of_neg (by simp [hc])]

/-- a number written in any width reads back -/
theorem atoi_padded (w n : ℕ) : atoi (padded w n) = n := by
  obtain ⟨c, l, hcl⟩ := List.exists_cons_of_ne_nil (decimal_ne_nil n)
  have hd : isDigit c = true := decimal_isDigit n c (by simp [hcl])
  have hminus : c ≠ 45 := ne_of_isDigit hd (by decide)
  have hplus : c ≠ 43 := ne_of_isDigit hd (by decide)
  have hall : (c :: l).takeWhile isDigit = c :: l :=
    List.takeWhile_eq_self_iff.mpr fun a ha => decimal_isDigit n a (by rw [hcl]; exact ha)
  simp only [atoi, dropWhile_padded, hcl, hminus, hplus, if_false]
  rw [hall, ← hcl, value_decimal]

end SprdDevice.Decimal
