/-
Base64 text: three bytes as four digits of six bits, and the end of the data padded to a whole group.

- `group1`, `group2`, `group3`: the four characters of a group of one, two or three bytes. The characters come from a
  table t of 65: the digits 0 to 63, and the padding at 64;
- `text t brk o x`: the groups of x, where `brk o` is written before the group that begins at byte o (a line break, or
  nothing).
Results: `text_append` (a text may be cut behind a multiple of three bytes), `text_length` and the three `join` lemmas:
which bytes the digits of a group put together.
-/
import Mathlib.Tactic

namespace SprdDevice.Base64

/-! ## Digits and bytes -/

section Join

variable {i j : ℕ}

theorem toNat_ofNat_of_lt_64 (h : i < 64) : (UInt8.ofNat i).toNat = i := by
  rw [UInt8.toNat_ofNat']
  omega

/-- the high bits of one digit over the low ones of another byte -/
theorem toNat_join {x : ℕ} (hx : x < 64) {b s : UInt8} (hs : s.toNat < 8) (hb : b.toNat < 2 ^ s.toNat) :
    (UInt8.ofNat x <<< s ||| b).toNat = x % 2 ^ (8 - s.toNat) * 2 ^ s.toNat + b.toNat := by
  have hsplit : 2 ^ 8 = 2 ^ (8 - s.toNat) * 2 ^ s.toNat := by
    rw [← pow_add, Nat.sub_add_cancel hs.le]
  have hhigh : x <<< s.toNat % 2 ^ 8 = (x % 2 ^ (8 - s.toNat)) <<< s.toNat := by
    rw [Nat.shiftLeft_eq, Nat.shiftLeft_eq, hsplit]
    exact Nat.mul_mod_mul_right _ _ _
  rw [UInt8.toNat_or, UInt8.toNat_shiftLeft, toNat_ofNat_of_lt_64 hx, Nat.mod_eq_of_lt hs, hhigh,
    ← Nat.shiftLeft_add_eq_or_of_lt hb, Nat.shiftLeft_eq]

theorem toNat_shiftRight_ofNat {y : ℕ} (hy : y < 64) {r : UInt8} (hr : r.toNat < 8) :
    (UInt8.ofNat y >>> r).toNat = y / 2 ^ r.toNat := by
  rw [UInt8.toNat_shiftRight, toNat_ofNat_of_lt_64 hy, Nat.mod_eq_of_lt hr, Nat.shiftRight_eq_div_pow]

/-- the first byte of a group: six bits of one digit and two of the next -/
theorem join_first (a : UInt8) (hj : j < 16) :
    UInt8.ofNat (a.toNat / 4) <<< 2 ||| UInt8.ofNat (a.toNat % 4 * 16 + j) >>> 4 = a := by
  have ha : a.toNat < 256 := a.toNat_lt
  have hlow : (UInt8.ofNat (a.toNat % 4 * 16 + j) >>> 4).toNat = (a.toNat % 4 * 16 + j) / 2 ^ 4 :=
    toNat_shiftRight_ofNat (by omega) (by decide)
  have hlt : (UInt8.ofNat (a.toNat % 4 * 16 + j) >>> 4).toNat < 2 ^ 2 := by omega
  apply UInt8.toNat_inj.mp
  rw [toNat_join (by omega) (by decide) hlt, hlow]
  change a.toNat / 4 % 2 ^ 6 * 2 ^ 2 + _ = _
  omega

/-- the second byte: four bits of one digit and four of the next -/
theorem join_second (b : UInt8) (hi : i < 4) (hj : j < 4) :
    UInt8.ofNat (i * 16 + b.toNat / 16) <<< 4 ||| UInt8.ofNat (b.toNat % 16 * 4 + j) >>> 2 = b := by
  have hb : b.toNat < 256 := b.toNat_lt
  have hlow : (UInt8.ofNat (b.toNat % 16 * 4 + j) >>> 2).toNat = (b.toNat % 16 * 4 + j) / 2 ^ 2 :=
    toNat_shiftRight_ofNat (by omega) (by decide)
  have hlt : (UInt8.ofNat (b.toNat % 16 * 4 + j) >>> 2).toNat < 2 ^ 4 := by omega
  apply UInt8.toNat_inj.mp
  rw [toNat_join (by omega) (by decide) hlt, hlow]
  change (i * 16 + b.toNat / 16) % 2 ^ 4 * 2 ^ 4 + _ = _
  omega

/-- the third byte: two bits of one digit and the whole of the last -/
theorem join_third (c : UInt8) (hi : i < 16) :
    UInt8.ofNat (i * 4 + c.toNat / 64) <<< 6 ||| UInt8.ofNat (c.toNat % 64) = c := by
  have hc : c.toNat < 256 := c.toNat_lt
  have hlow : (UInt8.ofNat (c.toNat % 64)).toNat = c.toNat % 64 := toNat_ofNat_of_lt_64 (by omega)
  have hlt : (UInt8.ofNat (c.toNat % 64)).toNat < 2 ^ 6 := by omega
  apply UInt8.toNat_inj.mp
  rw [toNat_join (by omega) (by decide) hlt, hlow]
  change (i * 4 + c.toNat / 64) % 2 ^ 2 * 2 ^ 6 + _ = _
  omega

end Join

/-! ## Texts -/

section Texts

variable {α : Type} (t : ℕ → α) (brk : ℕ → List α)

def group3 (a b c : UInt8) : List α :=
  [t (a.toNat / 4), t (a.toNat % 4 * 16 + b.toNat / 16), t (b.toNat % 16 * 4 + c.toNat / 64), t (c.toNat % 64)]

def group2 (a b : UInt8) : List α :=
  [t (a.toNat / 4), t (a.toNat % 4 * 16 + b.toNat / 16), t (b.toNat % 16 * 4), t 64]

def group1 (a : UInt8) : List α := [t (a.toNat / 4), t (a.toNat % 4 * 16), t 64, t 64]

/-- the text of the bytes that follow the first o -/
def text (o : ℕ) : List UInt8 → List α
  | [] => []
  | [a] => brk o ++ group1 t a
  | [a, b] => brk o ++ group2 t a b
  | a :: b :: c :: x => brk o ++ group3 t a b c ++ text (o + 3) x

@[simp] theorem text_nil (o : ℕ) : text t brk o [] = [] := by rw [text]

theorem text_one (o : ℕ) (a : UInt8) : text t brk o [a] = brk o ++ group1 t a := by rw [text]

theorem text_two (o : ℕ) (a b : UInt8) : text t brk o [a, b] = brk o ++ group2 t a b := by rw [text]

theorem text_group (o : ℕ) (a b c : UInt8) (x : List UInt8) :
    text t brk o (a :: b :: c :: x) = brk o ++ group3 t a b c ++ text t brk (o + 3) x := by rw [text]

/-- **A text may be cut behind a multiple of three bytes.** -/
theorem text_append (o : ℕ) (x y : List UInt8) (h : x.length % 3 = 0) :
    text t brk o (x ++ y) = text t brk o x ++ text t brk (o + x.length) y := by
  induction o, x using text.induct with
  | case1 o => rw [List.nil_append, text_nil, List.nil_append, List.length_nil, Nat.add_zero]
  | case2 o a => simp at h
  | case3 o a b => simp at h
  | case4 o a b c x ih =>
    have hx : x.length % 3 = 0 := by
      simp only [List.length_cons] at h
      omega
    have hlen : o + 3 + x.length = o + (a :: b :: c :: x).length := by
      simp only [List.length_cons]
      omega
    calc text t brk o (a :: b :: c :: x ++ y) = brk o ++ group3 t a b c ++ text t brk (o + 3) (x ++ y) :=
          text_group t brk o a b c (x ++ y)
      _ = brk o ++ group3 t a b c ++ text t brk (o + 3) x ++ text t brk (o + 3 + x.length) y := by
          rw [ih hx, List.append_assoc (brk o ++ group3 t a b c)]
      _ = text t brk o (a :: b :: c :: x) ++ text t brk (o + (a :: b :: c :: x).length) y := by
          rw [text_group, hlen]

/-- how often a break is asked for -/
def groupStarts (o : ℕ) (n : ℕ) : List ℕ := (List.range ((n + 2) / 3)).map fun k => o + 3 * k

theorem groupStarts_add_three (o n : ℕ) : groupStarts o (n + 3) = o :: groupStarts (o + 3) n := by
  have hcount : (n + 3 + 2) / 3 = (n + 2) / 3 + 1 := by omega
  unfold groupStarts
  rw [hcount, List.range_succ_eq_map, List.map_cons, List.map_map]
  congr 1
  apply List.map_congr_left
  intro k _
  simp only [Function.comp_apply]
  omega

theorem text_length (o : ℕ) (x : List UInt8) :
    (text t brk o x).length = 4 * ((x.length + 2) / 3) + ((groupStarts o x.length).map fun p => (brk p).length).sum := by
  induction o, x using text.induct with
  | case1 o => simp [groupStarts]
  | case2 o a => simp [text, group1, groupStarts]; omega
  | case3 o a b => simp [text, group2, groupStarts]; omega
  | case4 o a b c x ih =>
    have hcount : (x.length + 3 + 2) / 3 = (x.length + 2) / 3 + 1 := by omega
    rw [text_group, List.length_append, ih]
    simp only [List.length_append, List.length_cons, List.length_nil, group3, groupStarts_add_three, hcount,
      List.map_cons, List.sum_cons, Nat.add_assoc, Nat.reduceAdd]
    omega

/-- only the breaks that are asked for matter -/
theorem text_congr {brk' : ℕ → List α} (o : ℕ) (x : List UInt8) (h : ∀ p ∈ groupStarts o x.length, brk p = brk' p) :
    text t brk o x = text t brk' o x := by
  induction o, x using text.induct with
  | case1 o => rw [text_nil, text_nil]
  | case2 o a =>
    rw [text_one, text_one, h o (by simp [groupStarts])]
  | case3 o a b =>
    rw [text_two, text_two, h o (by simp [groupStarts])]
  | case4 o a b c x ih =>
    rw [List.length_cons, List.length_cons, List.length_cons, groupStarts_add_three] at h
    rw [text_group, text_group, h o (List.mem_cons_self ..), ih fun p hp => h p (List.mem_cons_of_mem o hp)]

variable {t brk}

/-- what holds of the 65 characters and of the breaks holds of a text -/
theorem forall_mem_text {P : α → Prop} (ht : ∀ i ≤ 64, P (t i)) (hbrk : ∀ o, ∀ c ∈ brk o, P c) (o : ℕ)
    (x : List UInt8) : ∀ c ∈ text t brk o x, P c := by
  have hle (a : UInt8) : a.toNat ≤ 255 := Nat.le_of_lt_succ a.toNat_lt
  induction o, x using text.induct with
  | case1 o => simp
  | case2 o a =>
    have ha := hle a
    rw [text_one]
    simp only [List.forall_mem_append, group1, List.forall_mem_cons]
    exact ⟨hbrk o, ht _ (by omega), ht _ (by omega), ht _ (by omega), ht _ (by omega), by simp⟩
  | case3 o a b =>
    have ha := hle a
    have hb := hle b
    rw [text_two]
    simp only [List.forall_mem_append, group2, List.forall_mem_cons]
    exact ⟨hbrk o, ht _ (by omega), ht _ (by omega), ht _ (by omega), ht _ (by omega), by simp⟩
  | case4 o a b c x ih =>
    have ha := hle a
    have hb := hle b
    have hc := hle c
    rw [text_group]
    simp only [List.forall_mem_append, group3, List.forall_mem_cons]
    exact ⟨⟨hbrk o, ht _ (by omega), ht _ (by omega), ht _ (by omega), ht _ (by omega), by simp⟩, ih⟩

end Texts

end SprdDevice.Base64
