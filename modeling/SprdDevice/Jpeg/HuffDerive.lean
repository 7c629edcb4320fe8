/-
The decoding words of a Huffman table (`JPEGFW_FixHuffTbl` in `jpegdec_vld.c`): the length of each symbol's code, the
codes themselves, and for each length one word with a valid bit, the index of its first symbol and its largest code, or
the code that would come next where the length has no symbol.

`p`, `si` and `code` are 16 bits wide; the two `while` loops are given fuel. The word of a length has its fields at bits
31, 16 and 0, from where `collect_valid_bits` and `configure_maxReg_AC` take them.

Result: `fix_huff_tbl`, with `Canonical.prefix_free`.
-/
import Mathlib.Tactic
import SprdDevice.Lib.Canonical
import SprdDevice.Jpeg.DecParse

namespace SprdDevice.Jpeg

open SprdDevice.Canonical

/-! ## Model -/

structure Sizes where
  huffsize : ℕ → ℕ
  p : ℕ

/-- `for (i = 1; i <= htbl->bits[l]; i++)` -/
def putSizes (l : ℕ) : ℕ → Sizes → Sizes
  | 0, s => s
  | n + 1, s => putSizes l n { huffsize := Function.update s.huffsize s.p l, p := (s.p + 1) % 2 ^ 16 }

/-- what follows the last length is zero from the `SCI_MEMSET` -/
def huffSizes (t : HuffTbl) : Sizes :=
  (List.range' 1 16).foldl (fun s l => putSizes l (t.bits l).toNat s) { huffsize := fun _ => 0, p := 0 }

structure Codes where
  huffcode : ℕ → ℕ
  p : ℕ
  code : ℕ

/-- `while (huffsize[p] == si)` -/
def codeRun (huffsize : ℕ → ℕ) (si : ℕ) : ℕ → Codes → Option Codes
  | 0, _ => none
  | fuel + 1, c =>
    if huffsize c.p = si then
      codeRun huffsize si fuel
        { huffcode := Function.update c.huffcode c.p c.code, p := (c.p + 1) % 2 ^ 16, code := (c.code + 1) % 2 ^ 16 }
    else some c

/-- `while (huffsize[p])` -/
def codeLoop (huffsize : ℕ → ℕ) (run : ℕ) : ℕ → ℕ → Codes → Option Codes
  | 0, _, _ => none
  | fuel + 1, si, c =>
    if huffsize c.p ≠ 0 then
      (codeRun huffsize si run c).bind fun c =>
        codeLoop huffsize run fuel ((si + 1) % 2 ^ 16) { c with code := 2 * c.code % 2 ^ 16 }
    else some c

def huffCodes (fuel : ℕ) (huffsize : ℕ → ℕ) : Option Codes :=
  codeLoop huffsize fuel fuel (huffsize 0) { huffcode := fun _ => 0xFFFF, p := 0, code := 0 }

structure Decoding where
  valptr : ℕ → ℕ
  maxcode : ℕ → ℤ
  p : ℕ

def decodeStep (t : HuffTbl) (huffcode : ℕ → ℕ) (d : Decoding) (l : ℕ) : Decoding :=
  if t.bits l ≠ 0 then
    let p := (d.p + (t.bits l).toNat) % 2 ^ 16
    { valptr := Function.update d.valptr l (d.p % 256)
      maxcode := Function.update d.maxcode l (huffcode (p - 1))
      p := p }
  else { d with maxcode := Function.update d.maxcode l (-1) }

def decodeTables (t : HuffTbl) (huffcode : ℕ → ℕ) : Decoding :=
  (List.range' 1 16).foldl (decodeStep t huffcode) { valptr := fun _ => 0, maxcode := fun _ => 0, p := 0 }

/-- `(active << 31) | (base_addr << 16) | max_code` -/
def word (active baseAddr maxCode : ℕ) : ℕ := (active <<< 31) ||| (baseAddr <<< 16) ||| maxCode

def activeStep (d : Decoding) (w : ℕ → ℕ) (l : ℕ) : ℕ → ℕ :=
  Function.update w l
    (if d.maxcode l ≠ -1 then word 1 (d.valptr l) (d.maxcode l).toNat
    else
      word 0 0
        (if 1 < l then
          if d.maxcode (l - 1) ≠ -1 then ((d.maxcode (l - 1) + 1) * 2).toNat else (w (l - 1) &&& 0xffff) * 2
        else 0))

/-- `active_base_max` -/
def activeBaseMax (d : Decoding) : ℕ → ℕ := (List.range' 1 16).foldl (activeStep d) fun _ => 0

structure Derived where
  huffsize : ℕ → ℕ
  huffcode : ℕ → ℕ
  word : ℕ → ℕ

/-- `JPEGFW_FixHuffTbl` -/
def fixHuffTbl (fuel : ℕ) (t : HuffTbl) : Option Derived :=
  let huffsize := (huffSizes t).huffsize
  (huffCodes fuel huffsize).map fun c =>
    { huffsize, huffcode := c.huffcode, word := activeBaseMax (decodeTables t c.huffcode) }

/-- the fields of a word, as `collect_valid_bits` and `configure_maxReg_AC` read them -/
def valid (w : ℕ) : ℕ := w >>> 31

def baseAddr (w : ℕ) : ℕ := (w >>> 16) &&& 0xff

def maxCode (w : ℕ) : ℕ := w &&& 0xffff

/-! ## Statement -/

/-- the number of codes of each length -/
def HuffTbl.number (t : HuffTbl) (l : ℕ) : ℕ := (t.bits l).toNat

/-- what the words say of the codes -/
structure Describes (t : HuffTbl) (d : Derived) : Prop where
  /-- the symbols of length l begin at the base address; their codes are consecutive and end at the largest code -/
  used : ∀ l, 0 < l → l ≤ 16 → t.number l ≠ 0 →
    valid (d.word l) = 1 ∧ baseAddr (d.word l) = firstSym t.number l ∧
    (∀ p, d.huffsize p = l ↔ baseAddr (d.word l) ≤ p ∧ p < baseAddr (d.word l) + t.number l) ∧
    ∀ i < t.number l, d.huffcode (baseAddr (d.word l) + i) = firstCode t.number l + i ∧
      d.huffcode (baseAddr (d.word l) + i) + (t.number l - 1 - i) = maxCode (d.word l)
  /-- where there is none, the word has the code that would come next -/
  unused : ∀ l, 0 < l → l ≤ 16 → t.number l = 0 →
    valid (d.word l) = 0 ∧ (∀ p, d.huffsize p ≠ l) ∧ maxCode (d.word l) = firstCode t.number l ∧
      firstCode t.number l < 2 ^ 16
  sizes : ∀ p, d.huffsize p ≤ 16
  fits : ∀ p, d.huffsize p ≠ 0 → d.huffcode p < 2 ^ d.huffsize p
  prefixFree : ∀ p q, d.huffsize p ≠ 0 → d.huffsize q ≠ 0 → p ≠ q → d.huffsize p ≤ d.huffsize q →
    d.huffcode q / 2 ^ (d.huffsize q - d.huffsize p) ≠ d.huffcode p

/-! ## Lengths -/

/-- the length of symbol p, of the lengths up to n -/
def sizeAt (b : ℕ → ℕ) : ℕ → ℕ → ℕ
  | 0, _ => 0
  | n + 1, p => if firstSym b (n + 1) ≤ p ∧ p < firstSym b (n + 2) then n + 1 else sizeAt b n p

section Sizes

variable {b : ℕ → ℕ}

theorem sizeAt_le (n p : ℕ) : sizeAt b n p ≤ n := by
  induction n with
  | zero => exact le_rfl
  | succ n ih =>
    rw [sizeAt]
    split_ifs
    · exact le_rfl
    · exact ih.trans (Nat.le_succ n)

theorem sizeAt_range {n p l : ℕ} (h0 : 0 < l) (h : sizeAt b n p = l) : firstSym b l ≤ p ∧ p < firstSym b (l + 1) := by
  induction n with
  | zero =>
    rw [sizeAt] at h
    exact absurd h h0.ne
  | succ n ih =>
    rw [sizeAt] at h
    split_ifs at h with hp
    · rwa [← h]
    · exact ih h

theorem sizeAt_of_range {n p l : ℕ} (h0 : 0 < l) (hl : l ≤ n) (h : firstSym b l ≤ p ∧ p < firstSym b (l + 1)) :
    sizeAt b n p = l := by
  induction n with
  | zero => exact absurd hl (by omega)
  | succ n ih =>
    rw [sizeAt]
    by_cases heq : l = n + 1
    · subst heq
      rw [if_pos h]
    · have hle : l ≤ n := by omega
      have hbefore : p < firstSym b (n + 1) := lt_of_lt_of_le h.2 (firstSym_mono b (by omega))
      rw [if_neg fun hp => absurd hp.1 (not_le.2 hbefore)]
      exact ih hle

theorem sizeAt_iff {n p l : ℕ} (h0 : 0 < l) (hl : l ≤ n) :
    sizeAt b n p = l ↔ firstSym b l ≤ p ∧ p < firstSym b l + b l := by
  rw [← firstSym_succ b h0]
  exact ⟨sizeAt_range h0, sizeAt_of_range h0 hl⟩

theorem sizeAt_beyond {n p : ℕ} (h : firstSym b (n + 1) ≤ p) : sizeAt b n p = 0 := by
  by_contra hne
  have hrange := sizeAt_range (Nat.pos_of_ne_zero hne) (rfl : sizeAt b n p = _)
  have hmono : firstSym b (sizeAt b n p + 1) ≤ firstSym b (n + 1) :=
    firstSym_mono b (Nat.succ_le_succ (sizeAt_le n p))
  omega

theorem putSizes_eq (l n : ℕ) (s : Sizes) (h : s.p + n < 2 ^ 16) : putSizes l n s =
    { huffsize := fun q => if s.p ≤ q ∧ q < s.p + n then l else s.huffsize q, p := s.p + n } := by
  induction n generalizing s with
  | zero =>
    have hsame : (fun q => if s.p ≤ q ∧ q < s.p + 0 then l else s.huffsize q) = s.huffsize := by
      funext q
      rw [if_neg (by omega)]
    rw [hsame]
    rfl
  | succ n ih =>
    have hp : (s.p + 1) % 2 ^ 16 = s.p + 1 := Nat.mod_eq_of_lt (by omega)
    have hfun : (fun q => if s.p + 1 ≤ q ∧ q < s.p + 1 + n then l else Function.update s.huffsize s.p l q) =
        fun q => if s.p ≤ q ∧ q < s.p + (n + 1) then l else s.huffsize q := by
      funext q
      by_cases hq : q = s.p
      · subst hq
        rw [if_neg (by omega), if_pos (by omega), Function.update_self]
      · rw [Function.update_of_ne hq]
        by_cases hin : s.p ≤ q ∧ q < s.p + (n + 1)
        · rw [if_pos hin, if_pos (by omega)]
        · rw [if_neg hin, if_neg (by omega)]
    have hrec := ih { huffsize := Function.update s.huffsize s.p l, p := s.p + 1 } (by simpa using by omega)
    dsimp only at hrec
    rw [putSizes, hp, hrec, hfun, Nat.add_right_comm, Nat.add_assoc]

variable {t : HuffTbl}

theorem count_eq (t : HuffTbl) : t.count = firstSym t.number 17 := by
  simp only [HuffTbl.count, List.range', List.map, List.sum_cons, List.sum_nil, firstSym, HuffTbl.number]
  ring

theorem firstSym_le_count {l : ℕ} (h : l ≤ 17) : firstSym t.number l ≤ t.count := by
  rw [count_eq]
  exact firstSym_mono _ h

theorem sizes_fold (hcount : t.count ≤ 256) {n : ℕ} (hn : n ≤ 16) :
    (List.range' 1 n).foldl (fun s l => putSizes l (t.bits l).toNat s) { huffsize := fun _ => 0, p := 0 } =
      { huffsize := sizeAt t.number n, p := firstSym t.number (n + 1) } := by
  induction n with
  | zero => rfl
  | succ n ih =>
    have hle := firstSym_le_count (t := t) (l := n + 2) (by omega)
    have hsucc : firstSym t.number (n + 2) = firstSym t.number (n + 1) + (t.bits (n + 1)).toNat := rfl
    rw [List.range'_1_concat, List.foldl_append, ih (by omega), List.foldl_cons, List.foldl_nil, Nat.add_comm 1 n,
      putSizes_eq _ _ _ (by dsimp only; omega)]
    rfl

theorem huffSizes_eq (hcount : t.count ≤ 256) : (huffSizes t).huffsize = sizeAt t.number 16 := by
  rw [huffSizes, sizes_fold hcount le_rfl]

end Sizes

/-! ## Codes -/

/-- the code of symbol q -/
def codeAt (b : ℕ → ℕ) (q : ℕ) : ℕ := firstCode b (sizeAt b 16 q) + (q - firstSym b (sizeAt b 16 q))

theorem codeRun_eq {size : ℕ → ℕ} {si n fuel : ℕ} (c : Codes) (hfuel : n < fuel)
    (hrun : ∀ q, c.p ≤ q → q < c.p + n → size q = si) (hend : size (c.p + n) ≠ si) (hp : c.p + n < 2 ^ 16)
    (hcode : c.code + n < 2 ^ 16) : codeRun size si fuel c =
      some { huffcode := fun q => if c.p ≤ q ∧ q < c.p + n then c.code + (q - c.p) else c.huffcode q
             p := c.p + n
             code := c.code + n } := by
  induction n generalizing c fuel with
  | zero =>
    obtain ⟨fuel, rfl⟩ := Nat.exists_eq_succ_of_ne_zero hfuel.ne'
    have hsame : (fun q => if c.p ≤ q ∧ q < c.p + 0 then c.code + (q - c.p) else c.huffcode q) = c.huffcode := by
      funext q
      rw [if_neg (by omega)]
    rw [codeRun, if_neg (by simpa using hend), hsame]
    rfl
  | succ n ih =>
    obtain ⟨fuel, rfl⟩ := Nat.exists_eq_succ_of_ne_zero (by omega : fuel ≠ 0)
    have hp1 : (c.p + 1) % 2 ^ 16 = c.p + 1 := Nat.mod_eq_of_lt (by omega)
    have hc1 : (c.code + 1) % 2 ^ 16 = c.code + 1 := Nat.mod_eq_of_lt (by omega)
    have hfun : (fun q => if c.p + 1 ≤ q ∧ q < c.p + 1 + n then c.code + 1 + (q - (c.p + 1))
          else Function.update c.huffcode c.p c.code q) =
        fun q => if c.p ≤ q ∧ q < c.p + (n + 1) then c.code + (q - c.p) else c.huffcode q := by
      funext q
      by_cases hq : q = c.p
      · subst hq
        rw [if_neg (by omega), if_pos (by omega), Function.update_self, Nat.sub_self, Nat.add_zero]
      · rw [Function.update_of_ne hq]
        by_cases hin : c.p ≤ q ∧ q < c.p + (n + 1)
        · rw [if_pos hin, if_pos (by omega)]
          omega
        · rw [if_neg hin, if_neg (by omega)]
    rw [codeRun, if_pos (hrun c.p le_rfl (by omega)), hp1, hc1]
    have hend1 : size (c.p + 1 + n) ≠ si := by rwa [Nat.add_assoc, Nat.add_comm 1 n]
    have hrec := ih ⟨Function.update c.huffcode c.p c.code, c.p + 1, c.code + 1⟩ (by omega : n < fuel)
      (fun q h1 h2 => hrun q (Nat.le_of_succ_le h1) (by dsimp only at h2; omega)) hend1
      (by dsimp only; omega) (by dsimp only; omega)
    dsimp only at hrec
    rw [hrec, hfun, Nat.add_right_comm c.p, Nat.add_right_comm c.code, Nat.add_assoc c.p, Nat.add_assoc c.code]

theorem sizeAt_pos {b : ℕ → ℕ} {n p : ℕ} (h : p < firstSym b (n + 1)) : sizeAt b n p ≠ 0 := by
  induction n with
  | zero => exact absurd h (Nat.not_lt_zero p)
  | succ n ih =>
    rw [sizeAt]
    by_cases hp : firstSym b (n + 1) ≤ p
    · rw [if_pos ⟨hp, h⟩]
      exact Nat.succ_ne_zero n
    · rw [if_neg fun hin => hp hin.1]
      exact ih (not_le.1 hp)

section Loop

variable {b : ℕ → ℕ}

/-- the codes of one length -/
theorem codeRun_length {run si : ℕ} {c : Codes} (hkraft : kraft b 16 < 1) (hcount : firstSym b 17 ≤ 256)
    (hrun : 256 < run) (h0 : 0 < si) (hsi : si ≤ 16) (hp : c.p = firstSym b si) (hcode : c.code = firstCode b si) :
    codeRun (sizeAt b 16) si run c =
      some { huffcode := fun q => if firstSym b si ≤ q ∧ q < firstSym b (si + 1) then codeAt b q else c.huffcode q
             p := firstSym b (si + 1)
             code := firstCode b si + b si } := by
  have hsym := firstSym_succ b h0
  have hsym17 : firstSym b (si + 1) ≤ firstSym b 17 := firstSym_mono b (by omega)
  have hlt := codes_lt b hkraft h0 hsi
  have hpow : 2 ^ si ≤ 2 ^ 16 := Nat.pow_le_pow_right (by decide) hsi
  have hrange : ∀ q, firstSym b si ≤ q → q < firstSym b si + b si → sizeAt b 16 q = si := fun q h1 h2 =>
    (sizeAt_iff h0 hsi).2 ⟨h1, h2⟩
  have hend : sizeAt b 16 (firstSym b si + b si) ≠ si := fun heq =>
    absurd ((sizeAt_iff h0 hsi).1 heq).2 (lt_irrefl _)
  have hbound : firstSym b si + b si ≤ 256 := by omega
  rw [codeRun_eq (n := b si) c (by omega) (by rw [hp]; exact hrange) (by rw [hp]; exact hend)
    (by rw [hp]; omega) (by rw [hcode]; omega), hp, hcode, hsym]
  congr 2
  funext q
  by_cases hq : firstSym b si ≤ q ∧ q < firstSym b si + b si
  · rw [if_pos hq, if_pos hq, codeAt, hrange q hq.1 hq.2]
  · rw [if_neg hq, if_neg hq]

theorem codeLoop_eq {run fuel k si : ℕ} {c : Codes} (hkraft : kraft b 16 < 1) (hcount : firstSym b 17 ≤ 256)
    (hrun : 256 < run) (h0 : 0 < si) (hk : si + k = 17) (hfuel : k < fuel) (hp : c.p = firstSym b si)
    (hcode : c.code = firstCode b si % 2 ^ 16) :
    ∃ c', codeLoop (sizeAt b 16) run fuel si c = some c' ∧
      ∀ q, c'.huffcode q = if firstSym b si ≤ q ∧ q < firstSym b 17 then codeAt b q else c.huffcode q := by
  induction k generalizing si c fuel with
  | zero =>
    obtain ⟨fuel, rfl⟩ := Nat.exists_eq_succ_of_ne_zero hfuel.ne'
    have hsi : si = 17 := by omega
    subst hsi
    rw [codeLoop, hp, if_neg (not_not.2 (sizeAt_beyond le_rfl))]
    refine ⟨c, rfl, fun q => ?_⟩
    rw [if_neg fun hq => absurd hq.2 (not_lt.2 hq.1)]
  | succ k ih =>
    obtain ⟨fuel, rfl⟩ := Nat.exists_eq_succ_of_ne_zero (by omega : fuel ≠ 0)
    have hmono : firstSym b si ≤ firstSym b 17 := firstSym_mono b (by omega)
    by_cases hdone : firstSym b si = firstSym b 17
    · -- no symbol is left, of this length or a longer one
      have hzero : sizeAt b 16 (firstSym b si) = 0 := sizeAt_beyond hdone.ge
      rw [codeLoop, hp, if_neg (not_not.2 hzero)]
      refine ⟨c, rfl, fun q => ?_⟩
      rw [if_neg fun hq => absurd hq.2 (by omega)]
    · have hsize : sizeAt b 16 (firstSym b si) ≠ 0 := sizeAt_pos (lt_of_le_of_ne hmono hdone)
      have hsi16 : si ≤ 16 := by omega
      have hsi1 : (si + 1) % 2 ^ 16 = si + 1 := Nat.mod_eq_of_lt (by omega)
      have hpow : 2 ^ si ≤ 2 ^ 16 := Nat.pow_le_pow_right (by decide) hsi16
      have hfirst := firstCode_lt b hkraft h0 hsi16
      have hcode' : c.code = firstCode b si := by
        rw [hcode]
        exact Nat.mod_eq_of_lt (by omega)
      have hnext : 2 * (firstCode b si + b si) % 2 ^ 16 = firstCode b (si + 1) % 2 ^ 16 := by
        rw [firstCode_succ b h0]
      rw [codeLoop, hp, if_pos hsize, codeRun_length hkraft hcount hrun h0 hsi16 hp hcode', Option.bind_some, hsi1,
        hnext]
      obtain ⟨c', hc', hq'⟩ := ih
        (c := ⟨fun q => if firstSym b si ≤ q ∧ q < firstSym b (si + 1) then codeAt b q else c.huffcode q,
          firstSym b (si + 1), firstCode b (si + 1) % 2 ^ 16⟩) (Nat.succ_pos si) (by omega) (by omega : k < fuel) rfl rfl
      refine ⟨c', hc', fun q => ?_⟩
      have hle : firstSym b si ≤ firstSym b (si + 1) := firstSym_mono b (Nat.le_succ si)
      have hle17 : firstSym b (si + 1) ≤ firstSym b 17 := firstSym_mono b (by omega)
      rw [hq' q]
      by_cases h1 : firstSym b (si + 1) ≤ q ∧ q < firstSym b 17
      · rw [if_pos h1, if_pos ⟨hle.trans h1.1, h1.2⟩]
      · rw [if_neg h1]
        dsimp only
        by_cases h2 : firstSym b si ≤ q ∧ q < firstSym b (si + 1)
        · rw [if_pos h2, if_pos ⟨h2.1, lt_of_lt_of_le h2.2 hle17⟩]
        · rw [if_neg h2, if_neg (by omega)]

/-- both loops end, and every symbol has its code -/
theorem huffCodes_eq {fuel : ℕ} (hkraft : kraft b 16 < 1) (hcount : firstSym b 17 ≤ 256) (hfuel : 256 < fuel) :
    ∃ c, huffCodes fuel (sizeAt b 16) = some c ∧
      ∀ q, c.huffcode q = if q < firstSym b 17 then codeAt b q else 0xFFFF := by
  unfold huffCodes
  by_cases hzero : sizeAt b 16 0 = 0
  · obtain ⟨n, rfl⟩ := Nat.exists_eq_succ_of_ne_zero (by omega : fuel ≠ 0)
    have hnone : firstSym b 17 = 0 := by
      by_contra hne
      exact sizeAt_pos (Nat.pos_of_ne_zero hne) hzero
    rw [codeLoop, if_neg (not_not.2 hzero)]
    refine ⟨_, rfl, fun q => ?_⟩
    rw [hnone, if_neg (Nat.not_lt_zero q)]
  · have hpos := Nat.pos_of_ne_zero hzero
    have hfirst : firstSym b (sizeAt b 16 0) = 0 := Nat.le_zero.1 (sizeAt_range hpos rfl).1
    have hle := sizeAt_le (b := b) 16 0
    have hcode : (⟨fun _ => 0xFFFF, 0, 0⟩ : Codes).code = firstCode b (sizeAt b 16 0) % 2 ^ 16 := by
      rw [firstCode_zero b hfirst]
      rfl
    obtain ⟨c, hc, hq⟩ := codeLoop_eq hkraft hcount hfuel hpos (by omega : _ + (17 - sizeAt b 16 0) = 17)
      (by omega : _ < fuel) hfirst.symm hcode
    refine ⟨c, hc, fun q => ?_⟩
    rw [hq q, hfirst]
    simp only [Nat.zero_le, true_and]

end Loop

/-! ## Words -/

theorem word_eq {a b m : ℕ} (hb : b < 2 ^ 8) (hm : m < 2 ^ 16) : word a b m = 2 ^ 31 * a + (2 ^ 16 * b + m) := by
  have hlow : b <<< 16 ||| m = 2 ^ 16 * b + m := by
    rw [← Nat.shiftLeft_add_eq_or_of_lt hm, Nat.shiftLeft_eq, Nat.mul_comm]
  have hlt : 2 ^ 16 * b + m < 2 ^ 31 := by omega
  rw [word, Nat.or_assoc, hlow, ← Nat.shiftLeft_add_eq_or_of_lt hlt, Nat.shiftLeft_eq, Nat.mul_comm]

theorem valid_word {a b m : ℕ} (hb : b < 2 ^ 8) (hm : m < 2 ^ 16) : valid (word a b m) = a := by
  rw [word_eq hb hm, valid, Nat.shiftRight_eq_div_pow]
  omega

theorem baseAddr_word {a b m : ℕ} (hb : b < 2 ^ 8) (hm : m < 2 ^ 16) : baseAddr (word a b m) = b := by
  have hmask : (0xff : ℕ) = 2 ^ 8 - 1 := rfl
  rw [word_eq hb hm, baseAddr, hmask, Nat.and_two_pow_sub_one_eq_mod, Nat.shiftRight_eq_div_pow]
  omega

theorem and_low (n : ℕ) : n &&& 0xffff = n % 2 ^ 16 := Nat.and_two_pow_sub_one_eq_mod n 16

theorem maxCode_word {a b m : ℕ} (hb : b < 2 ^ 8) (hm : m < 2 ^ 16) : maxCode (word a b m) = m := by
  rw [word_eq hb hm, maxCode, and_low]
  omega

section Tables

variable {t : HuffTbl}

/-- what a table may have: 256 symbols, and not the code of ones -/
structure Open (t : HuffTbl) : Prop where
  count : t.count ≤ 256
  kraft : kraft t.number 16 < 1

theorem Open.firstSym_le (h : Open t) {l : ℕ} (hl : l ≤ 17) : firstSym t.number l ≤ 256 :=
  (firstSym_le_count hl).trans h.count

theorem Open.codes_lt (h : Open t) {l : ℕ} (h0 : 0 < l) (hl : l ≤ 16) :
    firstCode t.number l + t.number l < 2 ^ 16 :=
  lt_of_lt_of_le (Canonical.codes_lt t.number h.kraft h0 hl) (Nat.pow_le_pow_right (by decide) hl)

/-- the decoding tables up to length n -/
structure Decodes (t : HuffTbl) (n : ℕ) (d : Decoding) : Prop where
  p : d.p = firstSym t.number (n + 1)
  maxcode : ∀ l, 0 < l → l ≤ n →
    d.maxcode l = if t.number l = 0 then -1 else ((firstCode t.number l + t.number l - 1 : ℕ) : ℤ)
  valptr : ∀ l, 0 < l → l ≤ n → t.number l ≠ 0 → d.valptr l = firstSym t.number l

theorem bits_ne_zero {l : ℕ} : t.bits l ≠ 0 ↔ t.number l ≠ 0 := by
  rw [HuffTbl.number, ne_eq, ne_eq, not_iff_not, ← UInt8.toNat_inj]
  rfl

theorem Decodes.step (h : Open t) {huffcode : ℕ → ℕ} (hcode : ∀ q < firstSym t.number 17, huffcode q = codeAt t.number q)
    {n : ℕ} (hn : n + 1 ≤ 16) {d : Decoding} (hd : Decodes t n d) : Decodes t (n + 1) (decodeStep t huffcode d (n + 1)) := by
  have hsym : firstSym t.number (n + 2) = firstSym t.number (n + 1) + t.number (n + 1) := rfl
  have hle := h.firstSym_le (l := n + 2) (by omega)
  have hle17 : firstSym t.number (n + 2) ≤ firstSym t.number 17 := firstSym_mono _ (by omega)
  unfold decodeStep
  by_cases hzero : t.number (n + 1) = 0
  · rw [if_neg (fun hne => bits_ne_zero.1 hne hzero)]
    refine ⟨?_, fun l h0 hl => ?_, fun l h0 hl hne => ?_⟩
    · change d.p = firstSym t.number (n + 2)
      rw [hd.p, hsym, hzero]
      rfl
    · dsimp only
      by_cases heq : l = n + 1
      · subst heq
        rw [Function.update_self, if_pos hzero]
      · rw [Function.update_of_ne heq]
        exact hd.maxcode l h0 (by omega)
    · have heq : l ≠ n + 1 := by
        rintro rfl
        exact hne hzero
      exact hd.valptr l h0 (by omega) hne
  · rw [if_pos (bits_ne_zero.2 hzero)]
    have hnum : (t.bits (n + 1)).toNat = t.number (n + 1) := rfl
    have hp : (firstSym t.number (n + 1) + t.number (n + 1)) % 2 ^ 16 = firstSym t.number (n + 2) := by
      rw [hsym]
      exact Nat.mod_eq_of_lt (by omega)
    have hlast : huffcode (firstSym t.number (n + 2) - 1) = firstCode t.number (n + 1) + t.number (n + 1) - 1 := by
      have hsize : sizeAt t.number 16 (firstSym t.number (n + 2) - 1) = n + 1 :=
        (sizeAt_iff (l := n + 1) (Nat.succ_pos n) hn).2 (by omega)
      rw [hcode _ (by omega), codeAt, hsize]
      omega
    refine ⟨?_, fun l h0 hl => ?_, fun l h0 hl hne => ?_⟩
    · dsimp only
      rw [hd.p, hnum, hp]
    · dsimp only
      by_cases heq : l = n + 1
      · subst heq
        rw [Function.update_self, if_neg hzero, hd.p, hnum, hp, hlast]
      · rw [Function.update_of_ne heq]
        exact hd.maxcode l h0 (by omega)
    · dsimp only
      by_cases heq : l = n + 1
      · subst heq
        have hlt : firstSym t.number (n + 1) < 256 := by omega
        rw [Function.update_self, hd.p]
        exact Nat.mod_eq_of_lt hlt
      · rw [Function.update_of_ne heq]
        exact hd.valptr l h0 (by omega) hne

theorem decodeTables_eq (h : Open t) {huffcode : ℕ → ℕ}
    (hcode : ∀ q < firstSym t.number 17, huffcode q = codeAt t.number q) :
    Decodes t 16 (decodeTables t huffcode) := by
  have hfold : ∀ n ≤ 16, Decodes t n ((List.range' 1 n).foldl (decodeStep t huffcode) ⟨fun _ => 0, fun _ => 0, 0⟩) := by
    intro n
    induction n with
    | zero =>
      intro _
      exact ⟨rfl, fun l h0 hl => absurd hl (by omega), fun l h0 hl => absurd hl (by omega)⟩
    | succ n ih =>
      intro hn
      rw [List.range'_1_concat, List.foldl_append, Nat.add_comm 1 n]
      exact (ih (by omega)).step h hcode hn
  exact hfold 16 le_rfl

/-- the word of length l -/
def wordAt (t : HuffTbl) (l : ℕ) : ℕ :=
  if t.number l = 0 then word 0 0 (firstCode t.number l)
  else word 1 (firstSym t.number l) (firstCode t.number l + t.number l - 1)

theorem activeBaseMax_eq (h : Open t) {d : Decoding} (hd : Decodes t 16 d) {l : ℕ} (h0 : 0 < l) (hl : l ≤ 16) :
    activeBaseMax d l = wordAt t l := by
  have hfold : ∀ n ≤ 16, ∀ l, 0 < l → l ≤ n → (List.range' 1 n).foldl (activeStep d) (fun _ => 0) l = wordAt t l := by
    intro n
    induction n with
    | zero =>
      intro _ l h0 hl
      exact absurd hl (by omega)
    | succ n ih =>
      intro hn l h0 hl
      rw [List.range'_1_concat, List.foldl_append, Nat.add_comm 1 n, List.foldl_cons, List.foldl_nil, activeStep]
      by_cases heq : l = n + 1
      · subst heq
        rw [Function.update_self, wordAt, hd.maxcode _ h0 hn]
        by_cases hzero : t.number (n + 1) = 0
        · rw [if_pos hzero, if_neg (not_not.2 rfl), if_pos hzero]
          congr 1
          cases n with
          | zero => rfl
          | succ n =>
            have hcodes := h.codes_lt (l := n + 1) (Nat.succ_pos n) (by omega)
            have hnext : firstCode t.number (n + 2) = 2 * (firstCode t.number (n + 1) + t.number (n + 1)) :=
              firstCode_succ t.number (Nat.succ_pos n)
            have hlow : word 0 0 (firstCode t.number (n + 1)) &&& 0xffff = firstCode t.number (n + 1) :=
              maxCode_word (by decide) (by omega)
            rw [if_pos (by omega), Nat.add_sub_cancel, hd.maxcode (n + 1) (Nat.succ_pos n) (by omega),
              ih (by omega) (n + 1) (Nat.succ_pos n) le_rfl, hnext, wordAt]
            by_cases hprev : t.number (n + 1) = 0
            · rw [if_pos hprev, if_neg (not_not.2 rfl), if_pos hprev, hlow, hprev]
              omega
            · rw [if_neg hprev, if_pos (by omega)]
              omega
        · have hsym := firstSym_succ t.number (l := n + 1) (Nat.succ_pos n)
          rw [if_neg hzero, if_pos (by omega), if_neg hzero, hd.valptr _ h0 hn hzero, Int.toNat_natCast]
      · rw [Function.update_of_ne heq]
        exact ih (by omega) l h0 (by omega)
  exact hfold 16 le_rfl l h0 hl

end Tables

/-! ## Derivation -/

/-- the tables the function leaves -/
def derived (t : HuffTbl) : Derived where
  huffsize := sizeAt t.number 16
  huffcode q := if q < firstSym t.number 17 then codeAt t.number q else 0xFFFF
  word := activeBaseMax (decodeTables t fun q => if q < firstSym t.number 17 then codeAt t.number q else 0xFFFF)

section Derive

variable {t : HuffTbl}

theorem fixHuffTbl_eq (h : Open t) {fuel : ℕ} (hfuel : 256 < fuel) : fixHuffTbl fuel t = some (derived t) := by
  have hcount : firstSym t.number 17 ≤ 256 := h.firstSym_le le_rfl
  obtain ⟨c, hc, hq⟩ := huffCodes_eq h.kraft hcount hfuel
  have hcode : c.huffcode = fun q => if q < firstSym t.number 17 then codeAt t.number q else 0xFFFF := funext hq
  rw [fixHuffTbl, huffSizes_eq h.count, hc, Option.map_some, hcode]
  rfl

theorem derived_word (h : Open t) {l : ℕ} (h0 : 0 < l) (hl : l ≤ 16) : (derived t).word l = wordAt t l := by
  have hdec : Decodes t 16 (decodeTables t (derived t).huffcode) := by
    refine decodeTables_eq h fun q hq => ?_
    exact if_pos hq
  exact activeBaseMax_eq h hdec h0 hl

/-- a symbol and its code -/
theorem derived_code {p l : ℕ} (h0 : 0 < l) (hl : l ≤ 16) (hp : (derived t).huffsize p = l) :
    firstSym t.number l ≤ p ∧ p < firstSym t.number l + t.number l ∧
      (derived t).huffcode p = firstCode t.number l + (p - firstSym t.number l) := by
  have hsize : sizeAt t.number 16 p = l := hp
  obtain ⟨hge, hlt⟩ := (sizeAt_iff h0 hl).1 hsize
  have hmono : firstSym t.number (l + 1) ≤ firstSym t.number 17 := firstSym_mono _ (by omega)
  have hsym := firstSym_succ t.number h0
  refine ⟨hge, hlt, ?_⟩
  calc (derived t).huffcode p = codeAt t.number p := if_pos (by omega)
    _ = firstCode t.number l + (p - firstSym t.number l) := by rw [codeAt, hsize]

theorem derived_size_le (p : ℕ) : (derived t).huffsize p ≤ 16 := sizeAt_le 16 p

theorem derived_used (h : Open t) {l : ℕ} (h0 : 0 < l) (hl : l ≤ 16) (hne : t.number l ≠ 0) :
    valid ((derived t).word l) = 1 ∧ baseAddr ((derived t).word l) = firstSym t.number l ∧
      maxCode ((derived t).word l) = firstCode t.number l + t.number l - 1 := by
  have hcodes := h.codes_lt h0 hl
  have hsym := firstSym_succ t.number h0
  have hle := h.firstSym_le (l := l + 1) (by omega)
  have hbase : firstSym t.number l < 2 ^ 8 := by omega
  have hmax : firstCode t.number l + t.number l - 1 < 2 ^ 16 := by omega
  rw [derived_word h h0 hl, wordAt, if_neg hne]
  exact ⟨valid_word hbase hmax, baseAddr_word hbase hmax, maxCode_word hbase hmax⟩

theorem derived_unused (h : Open t) {l : ℕ} (h0 : 0 < l) (hl : l ≤ 16) (hzero : t.number l = 0) :
    valid ((derived t).word l) = 0 ∧ maxCode ((derived t).word l) = firstCode t.number l := by
  have hcodes := h.codes_lt h0 hl
  have hmax : firstCode t.number l < 2 ^ 16 := by omega
  rw [derived_word h h0 hl, wordAt, if_pos hzero]
  exact ⟨valid_word (by decide) hmax, maxCode_word (by decide) hmax⟩

theorem derived_prefixFree {p q : ℕ} (hp : (derived t).huffsize p ≠ 0) (hq : (derived t).huffsize q ≠ 0) (hne : p ≠ q)
    (hle : (derived t).huffsize p ≤ (derived t).huffsize q) :
    (derived t).huffcode q / 2 ^ ((derived t).huffsize q - (derived t).huffsize p) ≠ (derived t).huffcode p := by
  obtain ⟨hp1, hp2, hpc⟩ := derived_code (Nat.pos_of_ne_zero hp) (derived_size_le p) rfl
  obtain ⟨hq1, hq2, hqc⟩ := derived_code (Nat.pos_of_ne_zero hq) (derived_size_le q) rfl
  rcases hle.lt_or_eq with hlt | heq
  · refine prefix_free t.number (Nat.pos_of_ne_zero hp) hlt ?_ ?_
    · rw [hpc]
      omega
    · rw [hqc]
      exact Nat.le_add_right _ _
  · rw [heq] at hp1 hp2 hpc
    rw [heq, Nat.sub_self, pow_zero, Nat.div_one, hqc, hpc]
    omega

theorem derived_describes (h : Open t) : Describes t (derived t) where
  used l h0 hl hne := by
    obtain ⟨hvalid, hbase, hmax⟩ := derived_used h h0 hl hne
    have hsize : ∀ p, (derived t).huffsize p = l ↔ firstSym t.number l ≤ p ∧ p < firstSym t.number l + t.number l :=
      fun p => sizeAt_iff h0 hl
    refine ⟨hvalid, hbase, by rwa [hbase], fun i hi => ?_⟩
    obtain ⟨-, -, hcode⟩ := derived_code h0 hl ((hsize (firstSym t.number l + i)).2 (by omega))
    rw [hbase, hmax, hcode, Nat.add_sub_cancel_left]
    exact ⟨rfl, by omega⟩
  unused l h0 hl hzero := by
    obtain ⟨hvalid, hmax⟩ := derived_unused h h0 hl hzero
    have hcodes := h.codes_lt h0 hl
    refine ⟨hvalid, fun p hp => ?_, hmax, by omega⟩
    obtain ⟨hge, hlt, -⟩ := derived_code h0 hl hp
    omega
  sizes := derived_size_le
  fits p hp := by
    obtain ⟨hge, hlt, hcode⟩ := derived_code (Nat.pos_of_ne_zero hp) (derived_size_le p) rfl
    have hcodes := Canonical.codes_lt t.number h.kraft (Nat.pos_of_ne_zero hp) (derived_size_le p)
    rw [hcode]
    omega
  prefixFree p q := derived_prefixFree

end Derive

/-- **Huffman table derivation.** Both loops end, and the words describe a prefix code -/
theorem fix_huff_tbl (t : HuffTbl) (hcount : t.count ≤ 256) (hkraft : kraft t.number 16 < 1) :
    ∃ d, (∀ fuel, 256 < fuel → fixHuffTbl fuel t = some d) ∧ Describes t d :=
  ⟨derived t, fun _ hfuel => fixHuffTbl_eq ⟨hcount, hkraft⟩ hfuel, derived_describes ⟨hcount, hkraft⟩⟩

/-- one code of each length from 1 to 3 -/
def smallTbl : HuffTbl where
  bits l := if 1 ≤ l ∧ l ≤ 3 then 1 else 0
  huffval _ := 0

theorem fix_huff_tbl_small :
    ∃ d, (∀ fuel, 256 < fuel → fixHuffTbl fuel smallTbl = some d) ∧ Describes smallTbl d := by
  refine fix_huff_tbl smallTbl (by decide) ?_
  have hsum : kraft smallTbl.number 16 = 7 / 8 := by
    rw [kraft, show Finset.Icc 1 16 = {1, 2, 3, 4, 5, 6, 7, 8, 9, 10, 11, 12, 13, 14, 15, 16} by decide]
    simp [HuffTbl.number, smallTbl]
    norm_num
  rw [hsum]
  norm_num

end SprdDevice.Jpeg
