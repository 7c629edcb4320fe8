/-
The checksum of an NV image, at any address (`calc_checksum`: the same text in `nvitem_fs.c`, in `modem_boot.c` and in the
`nvitem.c` of `nvm_daemon`). `Fs` has it for the even addresses that `malloc` gives.

`pstart` points to 16-bit words in both branches. At an even address the words of the image are added, and its last byte
if there is one left. At an odd address a pass was meant to take two bytes: it takes two words, and moves on by four bytes
while it counts two, so the loop runs over twice the image. The loads are little-endian, `unsigned long` has 32 bits.

Results: `calcChecksumAt_even` (at even addresses it is the checksum of `Fs`), `checksum_strength` (what the checksum of
an image at an even address detects) and `checksum_address_iff` (the images for which the address makes no difference).
-/
import Mathlib.Tactic
import SprdDevice.Lib.EndAround
import SprdDevice.NvItem.Fs

namespace SprdDevice.NvItem

open SprdDevice.Memory SprdDevice.Word SprdDevice.EndAround

/-! ## Model -/

/-- `while (pstart < pend)`, with n words to go -/
def wordLoop (mem : ℕ → UInt8) : ℕ → ℕ → ℕ → ℕ
  | 0, _, checksum => checksum
  | n + 1, pstart, checksum => wordLoop mem n (pstart + 2) ((checksum + le16 mem pstart) % 2 ^ 32)

/-- what one pass at an odd address adds -/
def pair (mem : ℕ → UInt8) (pstart : ℕ) : ℕ := le16 mem pstart ||| le16 mem (pstart + 2) <<< 8

/-- `while (len > 1)`, and the `if (len)` behind it -/
def pairLoop (mem : ℕ → UInt8) : ℕ → ℕ → ℕ → ℕ
  | 0, _, checksum => checksum
  | 1, pstart, checksum => (checksum + le16 mem pstart) % 2 ^ 32
  | len + 2, pstart, checksum => pairLoop mem len (pstart + 4) ((checksum + pair mem pstart) % 2 ^ 32)

/-- `calc_checksum` of the len bytes at the address dat -/
def calcChecksumAt (mem : ℕ → UInt8) (dat len : ℕ) : ℕ :=
  let checksum :=
    if dat % 2 = 0 then
      let checksum := wordLoop mem (len / 2) dat 0
      if len % 2 = 1 then (checksum + (mem (dat + 2 * (len / 2))).toNat) % 2 ^ 32 else checksum
    else pairLoop mem len dat 0
  2 ^ 16 - 1 - fold checksum

/-! ## Even addresses -/

theorem sumWords_append {pre : List UInt8} (h : pre.length % 2 = 0) (post : List UInt8) :
    sumWords (pre ++ post) = sumWords pre + sumWords post := by
  induction pre using sumWords.induct with
  | case1 a b rest ih =>
    rw [List.cons_append, List.cons_append, sumWords, sumWords, ih (by simp only [List.length_cons] at h; omega)]
    omega
  | case2 a => simp at h
  | case3 => simp [sumWords]

theorem sumWords_pair (a b : UInt8) : sumWords [a, b] = a.toNat + 256 * b.toNat := by
  simp [sumWords]

theorem wordLoop_eq (mem : ℕ → UInt8) (n : ℕ) : ∀ pstart checksum : ℕ, checksum < 2 ^ 32 →
    wordLoop mem n pstart checksum = (checksum + sumWords (cells mem pstart (2 * n))) % 2 ^ 32 := by
  induction n with
  | zero =>
    intro pstart checksum h
    rw [wordLoop, Nat.mul_zero]
    exact (Nat.mod_eq_of_lt h).symm
  | succ n ih =>
    intro pstart checksum h
    have hcells : cells mem pstart (2 * (n + 1)) = [mem pstart, mem (pstart + 1)] ++ cells mem (pstart + 2) (2 * n) := by
      rw [Nat.mul_succ, cells_succ, cells_succ]
      rfl
    rw [wordLoop, ih _ _ (Nat.mod_lt _ (by decide)), hcells, sumWords_append (by simp), sumWords_pair, le16]
    omega

theorem calcChecksum_eq_fold (dat : List UInt8) : calcChecksum dat = 2 ^ 16 - 1 - fold (sumWords dat % 2 ^ 32) := rfl

/-- At an even address the checksum is the one of the bytes. -/
theorem calcChecksumAt_even (mem : ℕ → UInt8) {dat : ℕ} (h : dat % 2 = 0) (len : ℕ) :
    calcChecksumAt mem dat len = calcChecksum (cells mem dat len) := by
  have hloop := wordLoop_eq mem (len / 2) dat 0 (by decide)
  rw [Nat.zero_add] at hloop
  rw [calcChecksumAt, if_pos h, calcChecksum_eq_fold]
  dsimp only
  rw [hloop]
  by_cases hodd : len % 2 = 1
  · have hlen : len = 2 * (len / 2) + 1 := by omega
    have hcells : sumWords (cells mem dat len) =
        sumWords (cells mem dat (2 * (len / 2))) + (mem (dat + 2 * (len / 2))).toNat := by
      conv_lhs => rw [hlen, cells_snoc]
      rw [sumWords_append (by rw [length_cells]; omega)]
      rfl
    rw [if_pos hodd, hcells, Nat.mod_add_mod]
  · have hlen : 2 * (len / 2) = len := by omega
    rw [if_neg hodd, hlen]

/-! ## What is detected -/

section

variable {mem : ℕ → UInt8} {dat len : ℕ}

/-- two folds that differ make two checksums that differ -/
theorem checksum_ne {s t : ℕ} (h : fold s ≠ fold t) : 2 ^ 16 - 1 - fold s ≠ 2 ^ 16 - 1 - fold t := by
  have hs := fold_lt s
  have ht := fold_lt t
  omega

/-- two summands in the same sum, less than 2^16 - 1 apart -/
theorem checksum_ne_of_summand (base : ℕ) {v w : ℕ} (hne : v ≠ w) (hv : v < w + 65535) (hw : w < v + 65535) :
    2 ^ 16 - 1 - fold ((base + v) % 2 ^ 32) ≠ 2 ^ 16 - 1 - fold ((base + w) % 2 ^ 32) := by
  apply checksum_ne
  rcases Nat.lt_or_gt_of_ne hne with h | h
  · obtain ⟨d, rfl⟩ := Nat.exists_eq_add_of_lt h
    have hstep := fold_ne_of_step (base + v) (d := d + 1) (by omega) (by omega)
    rwa [Nat.add_assoc, ← Nat.add_assoc v] at hstep
  · obtain ⟨d, rfl⟩ := Nat.exists_eq_add_of_lt h
    have hstep := fold_ne_of_step (base + w) (d := d + 1) (by omega) (by omega)
    rw [Nat.add_assoc, ← Nat.add_assoc w] at hstep
    exact hstep.symm

/-- the image around one of its words -/
theorem sumWords_word {k : ℕ} (hk : 2 * k + 1 < len) : sumWords (cells mem dat len) =
    sumWords (cells mem dat (2 * k)) + sumWords (cells mem (dat + (2 * k + 2)) (len - (2 * k + 2))) +
      le16 mem (dat + 2 * k) := by
  have hlen : len = (2 * k + 2) + (len - (2 * k + 2)) := by omega
  have hcells : cells mem dat (2 * k + 2) = cells mem dat (2 * k) ++ [mem (dat + 2 * k), mem (dat + 2 * k + 1)] := by
    rw [cells_add]
    rfl
  conv_lhs => rw [hlen, cells_add]
  rw [sumWords_append (by rw [length_cells]; omega), hcells, sumWords_append (by rw [length_cells]; omega), sumWords_pair,
    le16]
  omega

theorem sumWords_last (h : len % 2 = 1) :
    sumWords (cells mem dat len) = sumWords (cells mem dat (len - 1)) + (mem (dat + len - 1)).toNat := by
  obtain ⟨n, rfl⟩ : ∃ n, len = n + 1 := ⟨len - 1, by omega⟩
  rw [cells_snoc, sumWords_append (by rw [length_cells]; omega)]
  rfl

end

/-- **Strength of the checksum.** In an image at an even address one aligned word, or the odd last byte, takes another
value: the checksum changes, unless the two values of the word are 0x0000 and 0xFFFF. -/
theorem checksum_strength (mem : ℕ → UInt8) (dat len : ℕ) (hdat : dat % 2 = 0) :
    (∀ (k : ℕ) (a b : UInt8), 2 * k + 1 < len → a.toNat + 256 * b.toNat ≠ le16 mem (dat + 2 * k) →
      ¬ (le16 mem (dat + 2 * k) = 0 ∧ a.toNat + 256 * b.toNat = 0xFFFF) →
      ¬ (le16 mem (dat + 2 * k) = 0xFFFF ∧ a.toNat + 256 * b.toNat = 0) →
      calcChecksumAt (store mem (dat + 2 * k) [a, b]) dat len ≠ calcChecksumAt mem dat len) ∧
    ∀ b : UInt8, len % 2 = 1 → b ≠ mem (dat + len - 1) →
      calcChecksumAt (store mem (dat + len - 1) [b]) dat len ≠ calcChecksumAt mem dat len := by
  constructor
  · intro k a b hk hne h1 h2
    have ha := byte_lt a
    have hb := byte_lt b
    have hm0 := byte_lt (mem (dat + 2 * k))
    have hm1 := byte_lt (mem (dat + 2 * k + 1))
    have hbefore : cells (store mem (dat + 2 * k) [a, b]) dat (2 * k) = cells mem dat (2 * k) :=
      cells_congr fun i hi => store_outside _ _ (Or.inl (by omega))
    have hbehind : cells (store mem (dat + 2 * k) [a, b]) (dat + (2 * k + 2)) (len - (2 * k + 2)) =
        cells mem (dat + (2 * k + 2)) (len - (2 * k + 2)) :=
      cells_congr fun i _ => store_outside _ _ (Or.inr (by simp only [List.length_cons, List.length_nil]; omega))
    have hword : le16 (store mem (dat + 2 * k) [a, b]) (dat + 2 * k) = a.toNat + 256 * b.toNat := by
      have h0 : store mem (dat + 2 * k) [a, b] (dat + 2 * k) = a := store_add mem (dat + 2 * k) [a, b] (j := 0) (by simp)
      have h1 : store mem (dat + 2 * k) [a, b] (dat + 2 * k + 1) = b :=
        store_add mem (dat + 2 * k) [a, b] (j := 1) (by simp)
      rw [le16, h0, h1]
    rw [calcChecksumAt_even _ hdat, calcChecksumAt_even _ hdat, calcChecksum_eq_fold, calcChecksum_eq_fold,
      sumWords_word hk, sumWords_word hk, hbefore, hbehind, hword]
    have hold : le16 mem (dat + 2 * k) = (mem (dat + 2 * k)).toNat + 256 * (mem (dat + 2 * k + 1)).toNat := rfl
    exact checksum_ne_of_summand _ hne (by omega) (by omega)
  · intro b hodd hne
    have hb := byte_lt b
    have hm := byte_lt (mem (dat + len - 1))
    have hbefore : cells (store mem (dat + len - 1) [b]) dat (len - 1) = cells mem dat (len - 1) :=
      cells_congr fun i hi => store_outside _ _ (Or.inl (by omega))
    have hlast : store mem (dat + len - 1) [b] (dat + len - 1) = b := store_add mem (dat + len - 1) [b] (j := 0) (by simp)
    rw [calcChecksumAt_even _ hdat, calcChecksumAt_even _ hdat, calcChecksum_eq_fold, calcChecksum_eq_fold,
      sumWords_last hodd, sumWords_last hodd, hbefore, hlast]
    exact checksum_ne_of_summand _ (fun h => hne (UInt8.toNat.inj h)) (by omega) (by omega)

/-- an image of two bytes takes another first word -/
theorem checksum_strength_word : calcChecksumAt (store (fun _ => 0) (0 + 2 * 0) [1, 0]) 0 2 ≠ calcChecksumAt (fun _ => 0) 0 2 :=
  (checksum_strength (fun _ => 0) 0 2 rfl).1 0 1 0 (by decide) (by decide) (by decide) (by decide)

/-! ## Odd addresses -/

/-- the upper byte of the second word stands above all the others -/
theorem pair_eq (mem : ℕ → UInt8) (p : ℕ) :
    pair mem p = (le16 mem p ||| (mem (p + 2)).toNat <<< 8) + 65536 * (mem (p + 3)).toNat := by
  have hword : le16 mem (p + 2) <<< 8 = 2 ^ 16 * (mem (p + 3)).toNat ||| (mem (p + 2)).toNat <<< 8 := by
    have hlow : (mem (p + 2)).toNat <<< 8 < 2 ^ 16 := by
      have h := byte_lt (mem (p + 2))
      rw [Nat.shiftLeft_eq]
      omega
    have hnext : p + 2 + 1 = p + 3 := rfl
    rw [← Nat.two_pow_add_eq_or_of_lt hlow, Nat.shiftLeft_eq, Nat.shiftLeft_eq, le16, hnext]
    omega
  have hlow : le16 mem p ||| (mem (p + 2)).toNat <<< 8 < 2 ^ 16 := by
    have h0 := byte_lt (mem p)
    have h1 := byte_lt (mem (p + 1))
    have h2 := byte_lt (mem (p + 2))
    apply Nat.or_lt_two_pow
    · rw [le16]
      omega
    · rw [Nat.shiftLeft_eq]
      omega
  have hsum := Nat.two_pow_add_eq_or_of_lt hlow (mem (p + 3)).toNat
  rw [pair, hword, ← Nat.or_assoc, Nat.or_comm (le16 mem p), Nat.or_assoc, ← hsum]
  omega

/-- what the passes add together -/
def pairSum (mem : ℕ → UInt8) : ℕ → ℕ → ℕ
  | 0, _ => 0
  | 1, pstart => le16 mem pstart
  | len + 2, pstart => pair mem pstart + pairSum mem len (pstart + 4)

theorem pairLoop_eq (mem : ℕ → UInt8) (len pstart checksum : ℕ) (h : checksum < 2 ^ 32) :
    pairLoop mem len pstart checksum = (checksum + pairSum mem len pstart) % 2 ^ 32 := by
  fun_induction pairLoop mem len pstart checksum with
  | case1 pstart checksum => exact (Nat.mod_eq_of_lt h).symm
  | case2 pstart checksum => rfl
  | case3 len pstart checksum ih =>
    rw [ih (Nat.mod_lt _ (by decide)), pairSum]
    omega

/-- The last byte of the last pass lies behind the image, and nothing in the sum hides it. -/
theorem pairSum_last (mem : ℕ → UInt8) (len : ℕ) : ∀ pstart : ℕ, ∃ base, ∀ b : UInt8,
    pairSum (Function.update mem (pstart + 4 * (len / 2) + 3) b) (len + 2) pstart = base + 65536 * b.toNat := by
  induction len using Nat.twoStepInduction with
  | zero =>
    intro pstart
    refine ⟨le16 mem pstart ||| (mem (pstart + 2)).toNat <<< 8, fun b => ?_⟩
    rw [pairSum, pairSum, pair_eq, Function.update_self, le16, le16, Function.update_of_ne (by omega),
      Function.update_of_ne (by omega), Function.update_of_ne (by omega)]
    rfl
  | one =>
    intro pstart
    refine ⟨(le16 mem pstart ||| (mem (pstart + 2)).toNat <<< 8) + le16 mem (pstart + 4), fun b => ?_⟩
    have hat : pstart + 4 * (1 / 2) + 3 = pstart + 3 := rfl
    rw [hat, pairSum, pairSum, pair_eq, Function.update_self, le16, le16, le16, le16, Function.update_of_ne (by omega),
      Function.update_of_ne (by omega), Function.update_of_ne (by omega), Function.update_of_ne (by omega),
      Function.update_of_ne (by omega)]
    omega
  | more len ih _ =>
    intro pstart
    obtain ⟨base, hbase⟩ := ih (pstart + 4)
    have hat : pstart + 4 * ((len + 2) / 2) + 3 = pstart + 4 + 4 * (len / 2) + 3 := by omega
    refine ⟨pair mem pstart + base, fun b => ?_⟩
    have hfirst : pair (Function.update mem (pstart + 4 + 4 * (len / 2) + 3) b) pstart = pair mem pstart := by
      rw [pair, pair, le16, le16, le16, le16, Function.update_of_ne (by omega), Function.update_of_ne (by omega),
        Function.update_of_ne (by omega), Function.update_of_ne (by omega)]
    rw [hat, pairSum, hbase, hfirst]
    omega

/-- an accumulator and the one 2^17 above it have different folds -/
theorem fold_ne_above (base : ℕ) : fold ((base + 65536 * 2) % 2 ^ 32) ≠ fold ((base + 65536 * 0) % 2 ^ 32) := by
  rw [Ne, fold_eq_iff (Nat.mod_lt _ (by decide)) (Nat.mod_lt _ (by decide))]
  omega

section

variable {mem : ℕ → UInt8} {dat len : ℕ}

theorem calcChecksumAt_odd (h : dat % 2 = 1) :
    calcChecksumAt mem dat len = 2 ^ 16 - 1 - fold (pairSum mem len dat % 2 ^ 32) := by
  rw [calcChecksumAt, if_neg (by omega), pairLoop_eq mem len dat 0 (by decide), Nat.zero_add]

/-- An image of one byte or more has two checksums at an odd address. -/
theorem exists_checksum_ne (mem : ℕ → UInt8) (dat : ℕ) {len : ℕ} (hdat : dat % 2 = 1) (hlen : 0 < len) :
    ∃ (i : ℕ) (b c : UInt8), dat + len ≤ i ∧
      calcChecksumAt (Function.update mem i b) dat len ≠ calcChecksumAt (Function.update mem i c) dat len := by
  obtain rfl | ⟨n, rfl⟩ : len = 1 ∨ ∃ n, len = n + 2 := by
    rcases Nat.lt_or_ge len 2 with h | h
    · exact Or.inl (by omega)
    · exact Or.inr ⟨len - 2, by omega⟩
  · -- a single byte is read as a word
    refine ⟨dat + 1, 0, 1, le_rfl, ?_⟩
    have hword : ∀ b : UInt8, pairSum (Function.update mem (dat + 1) b) 1 dat = (mem dat).toNat + 256 * b.toNat := by
      intro b
      rw [pairSum, le16, Function.update_self, Function.update_of_ne (by omega)]
    rw [calcChecksumAt_odd hdat, calcChecksumAt_odd hdat, hword, hword]
    exact checksum_ne (fold_ne_of_step (mem dat).toNat (d := 256) (by decide) (by decide))
  · obtain ⟨base, hbase⟩ := pairSum_last mem n dat
    refine ⟨dat + 4 * (n / 2) + 3, 2, 0, by omega, ?_⟩
    rw [calcChecksumAt_odd hdat, calcChecksumAt_odd hdat, hbase, hbase]
    exact checksum_ne (fold_ne_above base)

end

/-- **The checksum and the address.** The checksum of an image is the same at every even and odd address, whatever lies
behind it there, exactly when the image is empty. -/
theorem checksum_address_iff (x : List UInt8) :
    (∀ (mem mem' : ℕ → UInt8) (dat dat' : ℕ), dat % 2 = 0 → dat' % 2 = 1 → cells mem dat x.length = x →
      cells mem' dat' x.length = x → calcChecksumAt mem dat x.length = calcChecksumAt mem' dat' x.length) ↔ x = [] := by
  constructor
  · intro h
    by_contra hx
    obtain ⟨i, b, c, hi, hne⟩ := exists_checksum_ne (store (fun _ => 0) 1 x) 1 rfl (List.length_pos_iff.mpr hx)
    have hkeep : ∀ d : UInt8, cells (Function.update (store (fun _ => 0) 1 x) i d) 1 x.length = x := by
      intro d
      have hcells : cells (Function.update (store (fun _ => 0) 1 x) i d) 1 x.length = cells (store (fun _ => 0) 1 x) 1 x.length :=
        cells_congr fun j hj => Function.update_of_ne (by omega) _ _
      rw [hcells, cells_store_self]
    have heven : cells (store (fun _ => 0) 0 x) 0 x.length = x := cells_store_self _ 0 x
    have hb := h (store (fun _ => 0) 0 x) _ 0 1 rfl rfl heven (hkeep b)
    have hc := h (store (fun _ => 0) 0 x) _ 0 1 rfl rfl heven (hkeep c)
    exact hne (hb.symm.trans hc)
  · rintro rfl mem mem' dat dat' h h' - -
    rw [calcChecksumAt_even mem h, calcChecksumAt_odd h']
    rfl

/-- two bytes 01 00, with 00 01 behind them: the odd address finds the word 0x0100 as well -/
theorem checksum_address_differs :
    calcChecksumAt (store (fun _ => 0) 0 [1, 0]) 0 2 = 0xFFFE ∧
      calcChecksumAt (store (fun _ => 0) 1 [1, 0, 0, 1]) 1 2 = 0xFFFD ∧
        ¬ ∀ (x : List UInt8) (mem mem' : ℕ → UInt8) (dat dat' : ℕ), dat % 2 = 0 → dat' % 2 = 1 →
          cells mem dat x.length = x → cells mem' dat' x.length = x →
            calcChecksumAt mem dat x.length = calcChecksumAt mem' dat' x.length := by
  have heven : calcChecksumAt (store (fun _ => 0) 0 [1, 0]) 0 2 = 0xFFFE := by decide
  have hodd : calcChecksumAt (store (fun _ => 0) 1 [1, 0, 0, 1]) 1 2 = 0xFFFD := by decide
  refine ⟨heven, hodd, fun h => ?_⟩
  have hsame := h [1, 0] (store (fun _ => 0) 0 [1, 0]) (store (fun _ => 0) 1 [1, 0, 0, 1]) 0 1 rfl rfl rfl rfl
  rw [List.length_cons, List.length_singleton, heven, hodd] at hsame
  exact absurd hsame (by decide)

end SprdDevice.NvItem
