/-
The number conversions of the device management library (`sprd_dm_md5_b64.c`: `MMIDM_atoIU32`, `MMIDM_IU32toa`).

A string is the list of its bytes, and what is read behind the last one is the NUL. `digitsParsed` is an int16 in both
branches: it wraps. The hexadecimal branch counts a digit before it looks whether there are more than nine.

`MMIDM_IU32toa` counts the digits, puts the NUL behind them and fills in the digits from the last one on.

Results: `decLoop_end`, `hexLoop_digits` and `hexLoop_stops` (what the loops make of any string), `iu32toa_text` (what is
written) and `number_conversion_iff`.
-/
import Mathlib.Tactic
import SprdDevice.Lib.Decimal
import SprdDevice.Lib.Memory

namespace SprdDevice.Dm.Number

open SprdDevice.Decimal SprdDevice.Memory

/-! ## The code -/

def MAX_IU32_DIV_TEN : ℕ := (2 ^ 32 - 1) / 10

def MAX_IU32_MOD_TEN : ℕ := (2 ^ 32 - 1) % 10

/-- `++digitsParsed` -/
def countDigit (digitsParsed : ℤ) : ℤ := (digitsParsed + 1).bmod (2 ^ 16)

/-- the loop of the decimal branch: myVal, digitsParsed and nextChr at its end -/
def decLoop : List UInt8 → ℕ → ℤ → ℕ × ℤ × UInt8
  | [], myVal, digitsParsed => (myVal, digitsParsed, 0)
  | nextChr :: string, myVal, digitsParsed =>
    if 48 ≤ nextChr.toNat ∧ nextChr.toNat ≤ 57 then
      if myVal > MAX_IU32_DIV_TEN ∨ myVal = MAX_IU32_DIV_TEN ∧ nextChr.toNat > 48 + MAX_IU32_MOD_TEN then
        (myVal, digitsParsed, nextChr)
      else decLoop string ((myVal * 10 % 2 ^ 32 + (nextChr.toNat - 48)) % 2 ^ 32) (countDigit digitsParsed)
    else (myVal, digitsParsed, nextChr)

/-- the three cases for a hexadecimal digit -/
def hexDigit (cVal : UInt8) : Option ℕ :=
  if 48 ≤ cVal.toNat ∧ cVal.toNat ≤ 57 then some (cVal.toNat - 48)
  else if 65 ≤ cVal.toNat ∧ cVal.toNat ≤ 70 then some (cVal.toNat - 65 + 10)
  else if 97 ≤ cVal.toNat ∧ cVal.toNat ≤ 102 then some (cVal.toNat - 97 + 10)
  else none

/-- the loop of the other branch: myVal, digitsParsed and cVal at its end -/
def hexLoop : List UInt8 → ℕ → ℤ → ℕ × ℤ × UInt8
  | [], myVal, digitsParsed => (myVal, digitsParsed, 0)
  | cVal :: string, myVal, digitsParsed =>
    match hexDigit cVal with
    | none => (myVal, digitsParsed, cVal)
    | some d =>
      let myVal := (myVal <<< 4) % 2 ^ 32 ||| d
      if digitsParsed > 8 then (myVal, countDigit digitsParsed, cVal) else hexLoop string myVal (countDigit digitsParsed)

/-- an initial 0x or 0X is passed over -/
def skip0x : List UInt8 → List UInt8
  | 48 :: 120 :: string => string
  | 48 :: 88 :: string => string
  | string => string

/-- the value returned, and what is stored in `*success`; nothing is stored for a null pointer -/
def MMIDM_atoIU32 (string : Option (List UInt8)) (radix : UInt8) : ℕ × Option Bool :=
  match string with
  | none => (0, none)
  | some string =>
    if radix = 10 then
      let (myVal, digitsParsed, nextChr) := decLoop string 0 0
      (myVal, some (decide (nextChr = 0 ∧ 0 < digitsParsed)))
    else
      let (myVal, digitsParsed, cVal) := hexLoop (skip0x string) 0 0
      (myVal, some (decide (0 < digitsParsed ∧ digitsParsed < 9 ∧ cVal = 0)))

/-- the do-while that counts the digits of v, of which there is one at least -/
def digitCount (radix v : ℕ) : ℕ := if v / radix = 0 ∨ radix ≤ 1 then 1 else digitCount radix (v / radix) + 1
termination_by v
decreasing_by
  rename_i h
  rw [not_or] at h
  exact Nat.div_lt_self (Nat.pos_of_ne_zero fun h0 => h.1 (by rw [h0, Nat.zero_div])) (by omega)

/-- a digit as it is written; those above 9 are capital letters -/
def digitChr (d : ℕ) : UInt8 := UInt8.ofNat (if 48 + d > 57 then 48 + d + 65 - 58 else 48 + d)

/-- the digits of value before place i, from the last one on -/
def fillDigits (radix : ℕ) : ℕ → ℕ → (ℕ → UInt8) → ℕ → UInt8
  | 0, _, string => string
  | i + 1, value, string => fillDigits radix i (value / radix) (Function.update string i (digitChr (value % radix)))

/-- any other radix than 16 is treated as decimal -/
def MMIDM_IU32toa (value : UInt32) (string : ℕ → UInt8) (radix : UInt32) : ℕ → UInt8 :=
  let radix := if radix = 16 then 16 else 10
  let i := digitCount radix value.toNat
  fillDigits radix i value.toNat (Function.update string i 0)

/-! ## The decimal loop -/

/-- the number that digits denote behind a number v -/
def valueFrom (v : ℕ) (s : List UInt8) : ℕ := s.foldl (fun v c => 10 * v + (c.toNat - 48)) v

theorem value_eq (s : List UInt8) : value s = valueFrom 0 s := rfl

theorem le_valueFrom (s : List UInt8) (v : ℕ) : v ≤ valueFrom v s := by
  induction s generalizing v with
  | nil => exact le_rfl
  | cons c s ih => exact le_trans (by omega) (ih (10 * v + (c.toNat - 48)))

theorem isDigit_iff (c : UInt8) : isDigit c = true ↔ 48 ≤ c.toNat ∧ c.toNat ≤ 57 := decide_eq_true_iff

/-- the test before the multiplication -/
theorem overflow_iff {v : ℕ} {c : UInt8} (hc : 48 ≤ c.toNat ∧ c.toNat ≤ 57) :
    (v > MAX_IU32_DIV_TEN ∨ v = MAX_IU32_DIV_TEN ∧ c.toNat > 48 + MAX_IU32_MOD_TEN) ↔ 2 ^ 32 ≤ 10 * v + (c.toNat - 48) := by
  have hdiv : MAX_IU32_DIV_TEN = 429496729 := rfl
  have hmod : MAX_IU32_MOD_TEN = 5 := rfl
  rw [hdiv, hmod]
  omega

theorem countDigit_add (d : ℤ) (n : ℕ) : (countDigit d + n).bmod (2 ^ 16) = (d + (n + 1 : ℕ)).bmod (2 ^ 16) := by
  rw [countDigit, Int.bmod_add_bmod]
  congr 1
  push_cast
  ring

theorem countDigit_wrapped (d : ℤ) : (countDigit d).bmod (2 ^ 16) = countDigit d := Int.bmod_bmod ..

/-- a run of digits whose value fits is read to its end -/
theorem decLoop_digits (s : List UInt8) (v : ℕ) (d : ℤ) (hd : d.bmod (2 ^ 16) = d) (hs : ∀ c ∈ s, isDigit c = true)
    (hv : valueFrom v s < 2 ^ 32) : decLoop s v d = (valueFrom v s, (d + s.length).bmod (2 ^ 16), 0) := by
  induction s generalizing v d with
  | nil => rw [decLoop, List.length_nil, Nat.cast_zero, add_zero, hd, valueFrom, List.foldl_nil]
  | cons c s ih =>
    obtain ⟨hc, hrest⟩ := List.forall_mem_cons.mp hs
    rw [isDigit_iff] at hc
    have hfit : 10 * v + (c.toNat - 48) < 2 ^ 32 := lt_of_le_of_lt (le_valueFrom s _) hv
    have hmod : (v * 10 % 2 ^ 32 + (c.toNat - 48)) % 2 ^ 32 = 10 * v + (c.toNat - 48) := by omega
    rw [decLoop, if_pos hc, if_neg (by rw [overflow_iff hc]; omega), hmod,
      ih (10 * v + (c.toNat - 48)) (countDigit d) (countDigit_wrapped d) hrest hv, countDigit_add]
    rfl

/-- otherwise it ends at a character -/
theorem decLoop_stops (s : List UInt8) (v : ℕ) (d : ℤ) (h0 : 0 ∉ s)
    (h : ¬ ((∀ c ∈ s, isDigit c = true) ∧ valueFrom v s < 2 ^ 32)) : v < 2 ^ 32 → (decLoop s v d).2.2 ≠ 0 := by
  intro hv
  induction s generalizing v d with
  | nil => exact absurd ⟨fun c hc => absurd hc List.not_mem_nil, hv⟩ h
  | cons c s ih =>
    rw [List.mem_cons, not_or] at h0
    have hne : c ≠ 0 := fun hc => h0.1 hc.symm
    rw [decLoop]
    split_ifs with hc hover
    · exact hne
    · rw [overflow_iff hc] at hover
      have hmod : (v * 10 % 2 ^ 32 + (c.toNat - 48)) % 2 ^ 32 = 10 * v + (c.toNat - 48) := by omega
      rw [hmod]
      refine ih _ _ h0.2 (fun hrest => h ⟨?_, hrest.2⟩) (by omega)
      exact List.forall_mem_cons.mpr ⟨(isDigit_iff c).mpr hc, hrest.1⟩
    · exact hne

/-- the digits counted by an int16 -/
theorem counted_pos (n : ℕ) : 0 < ((0 : ℤ) + n).bmod (2 ^ 16) ↔ 0 < n % 2 ^ 16 ∧ n % 2 ^ 16 < 2 ^ 15 := by
  rw [Int.bmod_def]
  split_ifs <;> omega

/-- What the loop makes of any string: it ends at the NUL for digits whose value fits, and at a character otherwise. -/
theorem decLoop_end {s : List UInt8} (h0 : 0 ∉ s) :
    (((∀ c ∈ s, isDigit c = true) ∧ value s < 2 ^ 32) ∧
        decLoop s 0 0 = (value s, ((0 : ℤ) + s.length).bmod (2 ^ 16), 0)) ∨
      (¬ ((∀ c ∈ s, isDigit c = true) ∧ value s < 2 ^ 32) ∧ (decLoop s 0 0).2.2 ≠ 0) := by
  by_cases h : (∀ c ∈ s, isDigit c = true) ∧ value s < 2 ^ 32
  · exact Or.inl ⟨h, decLoop_digits s 0 0 rfl h.1 h.2⟩
  · exact Or.inr ⟨h, decLoop_stops s 0 0 h0 h (by decide)⟩

/-! ## The hexadecimal loop -/

/-- the number that hexadecimal digits denote behind a number v -/
def hexFrom (v : ℕ) (s : List UInt8) : ℕ := s.foldl (fun v c => 16 * v + (hexDigit c).getD 0) v

theorem hexDigit_lt {c : UInt8} {d : ℕ} (h : hexDigit c = some d) : d < 16 := by
  unfold hexDigit at h
  split_ifs at h with h1 h2 h3 <;> simp only [Option.some.injEq] at h <;> omega

theorem countDigit_small {d : ℤ} (h0 : 0 ≤ d) (h : d ≤ 8) : countDigit d = d + 1 := by
  rw [countDigit, Int.bmod_def]
  split_ifs <;> omega

/-- at most nine digits are read to their end -/
theorem hexLoop_digits (s : List UInt8) (v : ℕ) (d : ℤ) (h0 : 0 ≤ d) (hs : ∀ c ∈ s, (hexDigit c).isSome = true)
    (hlen : d + s.length ≤ 9) : (hexLoop s v d).2 = (d + s.length, 0) := by
  induction s generalizing v d with
  | nil => rw [hexLoop, List.length_nil, Nat.cast_zero, add_zero]
  | cons c s ih =>
    obtain ⟨hc, hrest⟩ := List.forall_mem_cons.mp hs
    obtain ⟨x, hx⟩ := Option.isSome_iff_exists.mp hc
    rw [List.length_cons] at hlen ⊢
    push_cast at hlen ⊢
    rw [hexLoop, hx]
    dsimp only
    rw [if_neg (by omega), countDigit_small h0 (by omega), ih _ (d + 1) (by omega) hrest (by omega)]
    congr 1
    ring

/-- eight of them do not overflow -/
theorem hexLoop_value (s : List UInt8) (v : ℕ) (d : ℤ) (h0 : 0 ≤ d) (hs : ∀ c ∈ s, (hexDigit c).isSome = true)
    (hlen : d + s.length ≤ 8) (hv : v < 16 ^ d.toNat) : (hexLoop s v d).1 = hexFrom v s := by
  induction s generalizing v d with
  | nil => rfl
  | cons c s ih =>
    obtain ⟨hc, hrest⟩ := List.forall_mem_cons.mp hs
    obtain ⟨x, hx⟩ := Option.isSome_iff_exists.mp hc
    have hlt := hexDigit_lt hx
    rw [List.length_cons] at hlen
    push_cast at hlen
    have hnext : (d + 1).toNat = d.toNat + 1 := by omega
    have hbound : 16 * v + x < 16 ^ (d + 1).toNat := by
      rw [hnext, pow_succ]
      omega
    have hsmall : 16 ^ (d + 1).toNat ≤ 2 ^ 32 := by
      have hpow : (2 : ℕ) ^ 32 = 16 ^ 8 := by norm_num
      rw [hpow]
      exact Nat.pow_le_pow_right (by decide) (by omega)
    have hjoin : (v <<< 4) % 2 ^ 32 ||| x = 16 * v + x := by
      have hshift : (v <<< 4) % 2 ^ 32 = 2 ^ 4 * v := by
        rw [Nat.shiftLeft_eq]
        omega
      rw [hshift, ← Nat.two_pow_add_eq_or_of_lt (by omega)]
    rw [hexLoop, hx]
    dsimp only
    rw [if_neg (by omega), countDigit_small h0 (by omega), hjoin, ih _ (d + 1) (by omega) hrest (by omega) hbound, hexFrom,
      hexFrom, List.foldl_cons, hx, Option.getD_some]

/-- otherwise the loop ends at a character -/
theorem hexLoop_stops (s : List UInt8) (v : ℕ) (d : ℤ) (h0 : 0 ≤ d) (hd : d ≤ 9) (hnul : 0 ∉ s)
    (h : ¬ ((∀ c ∈ s, (hexDigit c).isSome = true) ∧ d + s.length ≤ 9)) : (hexLoop s v d).2.2 ≠ 0 := by
  induction s generalizing v d with
  | nil =>
    rw [List.length_nil, Nat.cast_zero, add_zero] at h
    exact absurd ⟨fun c hc => absurd hc List.not_mem_nil, hd⟩ h
  | cons c s ih =>
    rw [List.mem_cons, not_or] at hnul
    have hne : c ≠ 0 := fun hc => hnul.1 hc.symm
    rw [hexLoop]
    cases hx : hexDigit c with
    | none => exact hne
    | some x =>
      dsimp only
      split_ifs with hfull
      · exact hne
      · rw [countDigit_small h0 (by omega)]
        refine ih _ (d + 1) (by omega) (by omega) hnul.2 fun hrest => h ⟨?_, ?_⟩
        · exact List.forall_mem_cons.mpr ⟨by rw [hx]; rfl, hrest.1⟩
        · rw [List.length_cons]
          push_cast
          have := hrest.2
          omega

/-! ## What is written -/

/-- the n last digits of value -/
def digits (radix : ℕ) : ℕ → ℕ → List UInt8
  | 0, _ => []
  | n + 1, value => digits radix n (value / radix) ++ [digitChr (value % radix)]

@[simp] theorem length_digits (radix n value : ℕ) : (digits radix n value).length = n := by
  induction n generalizing value with
  | zero => rfl
  | succ n ih => rw [digits, List.length_append, ih, List.length_singleton]

theorem fillDigits_outside (radix n : ℕ) (value : ℕ) (string : ℕ → UInt8) {i : ℕ} (h : n ≤ i) :
    fillDigits radix n value string i = string i := by
  induction n generalizing value string with
  | zero => rfl
  | succ n ih => rw [fillDigits, ih _ _ (by omega), Function.update_of_ne (by omega)]

theorem cells_fillDigits (radix n : ℕ) (value : ℕ) (string : ℕ → UInt8) :
    cells (fillDigits radix n value string) 0 n = digits radix n value := by
  induction n generalizing value string with
  | zero => rfl
  | succ n ih =>
    rw [cells_snoc, fillDigits, ih, Nat.zero_add, fillDigits_outside radix n _ _ le_rfl, Function.update_self, digits]

/-- the digits give the value back, if there are enough of them -/
theorem foldl_digits (radix : ℕ) (f : UInt8 → ℕ) (hf : ∀ d < radix, f (digitChr d) = d) (hr : 0 < radix) (n value : ℕ) :
    (digits radix n value).foldl (fun v c => radix * v + f c) 0 = value % radix ^ n := by
  induction n generalizing value with
  | zero => rw [digits, List.foldl_nil, pow_zero, Nat.mod_one]
  | succ n ih =>
    rw [digits, List.foldl_append, ih, List.foldl_cons, List.foldl_nil, hf _ (Nat.mod_lt _ hr), pow_succ',
      Nat.mod_mul, Nat.add_comm]

theorem mem_digits {radix : ℕ} (hr : 0 < radix) {n value : ℕ} {c : UInt8} (h : c ∈ digits radix n value) :
    ∃ d < radix, c = digitChr d := by
  induction n generalizing value with
  | zero => exact absurd h List.not_mem_nil
  | succ n ih =>
    rw [digits, List.mem_append, List.mem_singleton] at h
    exact h.elim ih fun hc => ⟨value % radix, Nat.mod_lt _ hr, hc⟩

theorem digitCount_pos (radix v : ℕ) : 0 < digitCount radix v := by
  rw [digitCount]
  split_ifs
  · exact Nat.one_pos
  · exact Nat.succ_pos _

/-- the digits that are counted are enough -/
theorem lt_pow_digitCount (radix : ℕ) (hr : 2 ≤ radix) (v : ℕ) : v < radix ^ digitCount radix v := by
  induction v using Nat.strong_induction_on with
  | _ v ih =>
    rw [digitCount]
    split_ifs with h
    · have hzero : v / radix = 0 := h.resolve_right (by omega)
      rw [pow_one]
      exact (Nat.div_eq_zero_iff_lt (by omega)).mp hzero
    · rw [not_or] at h
      have hlt : v / radix < v := Nat.div_lt_self (Nat.pos_of_ne_zero fun h0 => h.1 (by rw [h0, Nat.zero_div])) (by omega)
      have hstep := ih (v / radix) hlt
      rw [Nat.div_lt_iff_lt_mul (by omega)] at hstep
      rw [pow_succ]
      exact hstep

/-- and no more than are needed -/
theorem digitCount_le (radix : ℕ) (hr : 2 ≤ radix) (k : ℕ) : ∀ v, v < radix ^ (k + 1) → digitCount radix v ≤ k + 1 := by
  induction k with
  | zero =>
    intro v hv
    rw [zero_add, pow_one] at hv
    rw [digitCount, if_pos (Or.inl (Nat.div_eq_of_lt hv))]
  | succ k ih =>
    intro v hv
    rw [digitCount]
    split_ifs with h
    · omega
    · have hstep : v / radix < radix ^ (k + 1) := by
        rw [Nat.div_lt_iff_lt_mul (by omega), ← pow_succ]
        exact hv
      have := ih (v / radix) hstep
      omega

/-- What `MMIDM_IU32toa` writes: the digits and the NUL behind them. -/
theorem iu32toa_text (value : UInt32) (string : ℕ → UInt8) (radix : UInt32) {r : ℕ} (hr : (if radix = 16 then 16 else 10) = r) :
    cells (MMIDM_IU32toa value string radix) 0 (digitCount r value.toNat) = digits r (digitCount r value.toNat) value.toNat ∧
      MMIDM_IU32toa value string radix (digitCount r value.toNat) = 0 := by
  unfold MMIDM_IU32toa
  dsimp only
  rw [hr]
  exact ⟨cells_fillDigits .., by rw [fillDigits_outside _ _ _ _ le_rfl, Function.update_self]⟩

/-! ## The conversions -/

/-- the string in memory, up to its NUL -/
def IsText (mem : ℕ → UInt8) (s : List UInt8) : Prop := 0 ∉ s ∧ cells mem 0 s.length = s ∧ mem s.length = 0

/-- the written string reads back, with success -/
def RoundTrip (value : UInt32) (radix : UInt8) : Prop :=
  ∀ string, ∃ s, IsText (MMIDM_IU32toa value string radix.toUInt32) s ∧
    MMIDM_atoIU32 (some s) radix = (value.toNat, some true)

/-- a run of digits, whose value is at most 2^32 - 1 -/
def IsDecimal (s : List UInt8) : Prop := s ≠ [] ∧ (∀ c ∈ s, isDigit c = true) ∧ value s ≤ 2 ^ 32 - 1

/-- the decimal parser reports success for such strings only, and returns the value -/
def DecimalRight (s : List UInt8) : Prop :=
  ((MMIDM_atoIU32 (some s) 10).2 = some true ↔ IsDecimal s) ∧
    ((MMIDM_atoIU32 (some s) 10).2 = some true → (MMIDM_atoIU32 (some s) 10).1 = value s)

/-- one to eight hexadecimal digits, after an optional 0x or 0X -/
def IsHex (s : List UInt8) : Prop :=
  1 ≤ (skip0x s).length ∧ (skip0x s).length ≤ 8 ∧ ∀ c ∈ skip0x s, (hexDigit c).isSome = true

def HexRight (s : List UInt8) : Prop :=
  ((MMIDM_atoIU32 (some s) 16).2 = some true ↔ IsHex s) ∧
    ((MMIDM_atoIU32 (some s) 16).2 = some true → (MMIDM_atoIU32 (some s) 16).1 = hexFrom 0 (skip0x s))

theorem atoIU32_ten (s : List UInt8) : MMIDM_atoIU32 (some s) 10 =
    ((decLoop s 0 0).1, some (decide ((decLoop s 0 0).2.2 = 0 ∧ 0 < (decLoop s 0 0).2.1))) := rfl

theorem atoIU32_sixteen (s : List UInt8) : MMIDM_atoIU32 (some s) 16 =
    ((hexLoop (skip0x s) 0 0).1, some (decide (0 < (hexLoop (skip0x s) 0 0).2.1 ∧ (hexLoop (skip0x s) 0 0).2.1 < 9 ∧
      (hexLoop (skip0x s) 0 0).2.2 = 0))) := rfl

/-- The decimal parser, on every string. -/
theorem decimalRight_iff {s : List UInt8} (h0 : 0 ∉ s) :
    DecimalRight s ↔ (IsDecimal s → 0 < s.length % 2 ^ 16 ∧ s.length % 2 ^ 16 < 2 ^ 15) := by
  unfold DecimalRight
  rw [atoIU32_ten]
  rcases decLoop_end h0 with ⟨hfit, hloop⟩ | ⟨hnot, hstop⟩
  · -- all of the string is read: success depends on the count
    rw [hloop]
    simp only [Option.some.injEq, decide_eq_true_eq, true_and]
    rw [counted_pos, and_iff_left fun _ => trivial]
    have hval : value s ≤ 2 ^ 32 - 1 := by omega
    constructor
    · exact fun h hdec => h.mpr hdec
    · intro h
      refine ⟨fun hcount => ⟨?_, hfit.1, hval⟩, h⟩
      rintro rfl
      exact absurd hcount.1 (by decide)
  · have hno : ¬ IsDecimal s := fun hdec => hnot ⟨hdec.2.1, by have := hdec.2.2; omega⟩
    simp only [Option.some.injEq, decide_eq_true_eq, hstop, false_and, false_iff, false_imp_iff, and_true]
    exact iff_of_true hno fun hdec => absurd hdec hno

theorem skip0x_suffix (s : List UInt8) : skip0x s <:+ s := by
  unfold skip0x
  split
  · exact (List.suffix_cons ..).trans (List.suffix_cons ..)
  · exact (List.suffix_cons ..).trans (List.suffix_cons ..)
  · exact List.suffix_refl _

/-- The hexadecimal parser, on every string. -/
theorem hexRight {s : List UInt8} (h0 : 0 ∉ s) : HexRight s := by
  have hnul : 0 ∉ skip0x s := fun h => h0 ((skip0x_suffix s).subset h)
  unfold HexRight IsHex
  rw [atoIU32_sixteen]
  generalize skip0x s = t at hnul
  by_cases h : (∀ c ∈ t, (hexDigit c).isSome = true) ∧ (0 : ℤ) + t.length ≤ 9
  · have hend := hexLoop_digits t 0 0 le_rfl h.1 h.2
    have hsuccess : (0 < (hexLoop t 0 0).2.1 ∧ (hexLoop t 0 0).2.1 < 9 ∧ (hexLoop t 0 0).2.2 = 0) ↔
        1 ≤ t.length ∧ t.length ≤ 8 := by
      rw [hend]
      simp only [and_true]
      omega
    simp only [Option.some.injEq, decide_eq_true_eq]
    rw [hsuccess]
    refine ⟨⟨fun hlen => ⟨hlen.1, hlen.2, h.1⟩, fun hhex => ⟨hhex.1, hhex.2.1⟩⟩, fun hlen => ?_⟩
    exact hexLoop_value t 0 0 le_rfl h.1 (by omega) (by decide)
  · have hstop := hexLoop_stops t 0 0 le_rfl (by decide) hnul h
    have hno : ¬ (1 ≤ t.length ∧ t.length ≤ 8 ∧ ∀ c ∈ t, (hexDigit c).isSome = true) :=
      fun hhex => h ⟨hhex.2.2, by have := hhex.2.1; omega⟩
    simp only [Option.some.injEq, decide_eq_true_eq, hstop, and_false, false_iff, false_imp_iff, and_true]
    exact hno

theorem skip0x_of_not_mem {s : List UInt8} (h1 : 120 ∉ s) (h2 : 88 ∉ s) : skip0x s = s := by
  unfold skip0x
  split
  · exact absurd (by simp) h1
  · exact absurd (by simp) h2
  · rfl

/-- a check of the sixteen digits, for all of a written string -/
theorem forall_digits {radix : ℕ} (hr : 0 < radix) {p : UInt8 → Prop} (hp : ∀ d < radix, p (digitChr d)) (n value : ℕ) :
    ∀ c ∈ digits radix n value, p c := by
  intro c hc
  obtain ⟨d, hd, rfl⟩ := mem_digits hr hc
  exact hp d hd

theorem roundTrip_ten (v : UInt32) : RoundTrip v 10 := by
  intro string
  obtain ⟨htext, hnul⟩ := iu32toa_text v string 10 (r := 10) rfl
  have hv := v.toNat_lt
  have hpos := digitCount_pos 10 v.toNat
  have hfit := lt_pow_digitCount 10 (by decide) v.toNat
  have hlen := digitCount_le 10 (by decide) 9 v.toNat (lt_trans hv (by decide))
  generalize digitCount 10 v.toNat = n at htext hnul hpos hfit hlen
  have hvalue : value (digits 10 n v.toNat) = v.toNat := by
    have h := foldl_digits 10 (fun c => c.toNat - 48) (by decide) (by decide) n v.toNat
    rw [Nat.mod_eq_of_lt hfit] at h
    exact h
  have hclean : ∀ c ∈ digits 10 n v.toNat, c ≠ 0 := forall_digits (by decide) (by decide) n v.toNat
  have hdigits : ∀ c ∈ digits 10 n v.toNat, isDigit c = true := forall_digits (by decide) (by decide) n v.toNat
  refine ⟨digits 10 n v.toNat, ⟨fun h0 => hclean 0 h0 rfl, ?_, ?_⟩, ?_⟩
  · rw [length_digits]
    exact htext
  · rw [length_digits]
    exact hnul
  · have hcount : 0 < ((0 : ℤ) + (digits 10 n v.toNat).length).bmod (2 ^ 16) := by
      rw [counted_pos, length_digits]
      omega
    rw [atoIU32_ten, decLoop_digits _ 0 0 rfl hdigits (by rw [← value_eq, hvalue]; exact hv), ← value_eq, hvalue]
    simp only [hcount, and_self, decide_true]

theorem roundTrip_sixteen (v : UInt32) : RoundTrip v 16 := by
  intro string
  obtain ⟨htext, hnul⟩ := iu32toa_text v string 16 (r := 16) rfl
  have hv := v.toNat_lt
  have hpos := digitCount_pos 16 v.toNat
  have hfit := lt_pow_digitCount 16 (by decide) v.toNat
  have hlen := digitCount_le 16 (by decide) 7 v.toNat (lt_of_lt_of_le hv (by decide))
  generalize digitCount 16 v.toNat = n at htext hnul hpos hfit hlen
  have hvalue : hexFrom 0 (digits 16 n v.toNat) = v.toNat := by
    have h := foldl_digits 16 (fun c => (hexDigit c).getD 0) (by decide) (by decide) n v.toNat
    rw [Nat.mod_eq_of_lt hfit] at h
    exact h
  have hclean : ∀ c ∈ digits 16 n v.toNat, c ≠ 0 ∧ c ≠ 120 ∧ c ≠ 88 := forall_digits (by decide) (by decide) n v.toNat
  have hdigits : ∀ c ∈ digits 16 n v.toNat, (hexDigit c).isSome = true := forall_digits (by decide) (by decide) n v.toNat
  have hskip : skip0x (digits 16 n v.toNat) = digits 16 n v.toNat :=
    skip0x_of_not_mem (fun h => (hclean 120 h).2.1 rfl) fun h => (hclean 88 h).2.2 rfl
  refine ⟨digits 16 n v.toNat, ⟨fun h0 => (hclean 0 h0).1 rfl, ?_, ?_⟩, ?_⟩
  · rw [length_digits]
    exact htext
  · rw [length_digits]
    exact hnul
  · have hlength := length_digits 16 n v.toNat
    have hend := hexLoop_digits (digits 16 n v.toNat) 0 0 le_rfl hdigits (by omega)
    have hval := hexLoop_value (digits 16 n v.toNat) 0 0 le_rfl hdigits (by omega) (by decide)
    have hcount : (0 : ℤ) < 0 + (digits 16 n v.toNat).length ∧ (0 : ℤ) + (digits 16 n v.toNat).length < 9 := by omega
    rw [atoIU32_sixteen, hskip, hval, hend, hvalue]
    simp only [hcount, and_self, decide_true]

/-- **Number conversions.** Every 32-bit value reads back from its decimal and its hexadecimal string, and the parsers are
right on a string, exactly when the string is no decimal number in range, or the number of its digits modulo 2^16 is from 1
to 2^15 - 1: only the decimal parser can be wrong. -/
theorem number_conversion_iff (v : UInt32) (s : List UInt8) (h0 : 0 ∉ s) :
    (RoundTrip v 10 ∧ RoundTrip v 16) ∧ DecimalRight s ∧ HexRight s ↔
      (IsDecimal s → 0 < s.length % 2 ^ 16 ∧ s.length % 2 ^ 16 < 2 ^ 15) := by
  rw [and_iff_right ⟨roundTrip_ten v, roundTrip_sixteen v⟩, and_iff_left (hexRight h0), decimalRight_iff h0]

/-- 004294967295 -/
def maxDecimal : List UInt8 := [48, 48, 52, 50, 57, 52, 57, 54, 55, 50, 57, 53]

/-- 0x0FFFFFFFF -/
def maxHex : List UInt8 := [48, 120, 48, 70, 70, 70, 70, 70, 70, 70, 70]

/-- the greatest value, and its strings with leading zeros -/
theorem number_conversion_iff_max :
    ((RoundTrip 4294967295 10 ∧ RoundTrip 4294967295 16) ∧ DecimalRight maxDecimal ∧ HexRight maxDecimal ↔
      (IsDecimal maxDecimal → 0 < maxDecimal.length % 2 ^ 16 ∧ maxDecimal.length % 2 ^ 16 < 2 ^ 15)) ∧
    ((RoundTrip 4294967295 10 ∧ RoundTrip 4294967295 16) ∧ DecimalRight maxHex ∧ HexRight maxHex ↔
      (IsDecimal maxHex → 0 < maxHex.length % 2 ^ 16 ∧ maxHex.length % 2 ^ 16 < 2 ^ 15)) :=
  ⟨number_conversion_iff 4294967295 maxDecimal (by decide), number_conversion_iff 4294967295 maxHex (by decide)⟩

theorem value_zeros (n : ℕ) : value (List.replicate n 48) = 0 := by
  induction n with
  | zero => rfl
  | succ n ih =>
    rw [List.replicate_succ', value_append, ih]
    rfl

/-- 2^15 zeros are a decimal number, and are not taken for one -/
theorem long_zero_fails : IsDecimal (List.replicate (2 ^ 15) 48) ∧ ¬ DecimalRight (List.replicate (2 ^ 15) 48) := by
  have hclean : (0 : UInt8) ∉ List.replicate (2 ^ 15) 48 := by
    intro h
    exact absurd (List.eq_of_mem_replicate h) (by decide)
  have hdec : IsDecimal (List.replicate (2 ^ 15) 48) := by
    refine ⟨fun h => ?_, fun c hc => ?_, ?_⟩
    · have hlen := congrArg List.length h
      rw [List.length_replicate] at hlen
      exact absurd hlen (by decide)
    · rw [List.eq_of_mem_replicate hc]
      decide
    · rw [value_zeros]
      exact Nat.zero_le _
  refine ⟨hdec, fun h => ?_⟩
  have hcount := (decimalRight_iff hclean).mp h hdec
  rw [List.length_replicate] at hcount
  exact absurd hcount.2 (by decide)

end SprdDevice.Dm.Number
