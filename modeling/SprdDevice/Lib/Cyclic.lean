/-
Cyclic redundancy checks with a register of w bits, the most significant bit first. A generator of degree w is given by
its w lower coefficients G.

- `feedBit G r b`, `feed G r bits`: the register after one bit of the message, and after all of them;
- `bitsOf m`: the bits of a word, the most significant one first; `top n r`: the n highest bits of the register;
- `toPoly r`: the register as a polynomial over two elements, bit i being the coefficient of X^i;
- `message bits`, `generator G`: the polynomials of a message and of the check.
- `Burst n l l'`: two messages that differ, and only among n bits one behind the other.
Results: `feed_table` (a table of one word for each n bits is enough, by linearity), `feed_checksum` (a message with its
checksum leaves zeros), `Burst.feed_ne` (a burst no longer than the register is noticed) and `toPoly_feed` (the register
is the remainder of the message, behind the register it began with, by the generator).
-/
import Mathlib.Tactic
import Mathlib.Algebra.Polynomial.OfFn

namespace SprdDevice.Cyclic

variable {w n : ℕ}

def feedBit (G r : BitVec w) (b : Bool) : BitVec w := (r <<< 1) ^^^ (if r.msb ^^ b then G else 0#w)

def feed (G r : BitVec w) (bits : List Bool) : BitVec w := bits.foldl (feedBit G) r

def bitsOf (m : BitVec n) : List Bool := (List.range n).map m.getMsbD

def top (n : ℕ) (r : BitVec w) : BitVec n := (r >>> (w - n)).setWidth n

theorem feed_append (G r : BitVec w) (a b : List Bool) : feed G r (a ++ b) = feed G (feed G r a) b :=
  List.foldl_append

theorem bitsOf_append {k : ℕ} (x : BitVec n) (y : BitVec k) : bitsOf (x ++ y) = bitsOf x ++ bitsOf y := by
  rw [bitsOf, List.range_add, List.map_append, List.map_map]
  congr 1
  · apply List.map_congr_left
    intro i hi
    rw [BitVec.getMsbD_append, if_neg (by simpa using hi)]
  · apply List.map_congr_left
    intro i _
    rw [Function.comp_apply, BitVec.getMsbD_append, if_pos (Nat.le_add_right n i), Nat.add_sub_cancel_left]

/-! ## Tables -/

theorem ite_xor (G : BitVec w) (a b : Bool) :
    (if a ^^ b then G else 0#w) = (if a then G else 0#w) ^^^ (if b then G else 0#w) := by
  cases a <;> cases b <;> simp

theorem feedBit_xor (G r s : BitVec w) (a b : Bool) :
    feedBit G (r ^^^ s) (a ^^ b) = feedBit G r a ^^^ feedBit G s b := by
  have hbit : ((r ^^^ s).msb ^^ (a ^^ b)) = ((r.msb ^^ a) ^^ (s.msb ^^ b)) := by
    rw [BitVec.msb_xor]
    cases r.msb <;> cases s.msb <;> cases a <;> cases b <;> rfl
  unfold feedBit
  rw [hbit, BitVec.shiftLeft_xor_distrib, ite_xor]
  ac_rfl

theorem feed_xor (G r s : BitVec w) (l : List ℕ) (f g : ℕ → Bool) :
    feed G (r ^^^ s) (l.map fun i => f i ^^ g i) = feed G r (l.map f) ^^^ feed G s (l.map g) := by
  induction l generalizing r s with
  | nil => rfl
  | cons i l ih =>
    simp only [List.map_cons, feed, List.foldl_cons, feedBit_xor]
    exact ih _ _

/-- a register that is fed its own highest bits only moves up -/
theorem feed_own (G r : BitVec w) (n : ℕ) : feed G r ((List.range n).map r.getMsbD) = r <<< n := by
  induction n with
  | zero => simp [feed]
  | succ n ih =>
    have hmsb : (r <<< n).msb = r.getMsbD n := by
      rw [BitVec.msb_eq_getMsbD_zero, BitVec.getMsbD_shiftLeft, Nat.zero_add]
    rw [List.range_succ, List.map_append, feed_append, ih]
    simp [feed, feedBit, hmsb, BitVec.shiftLeft_add]

theorem top_getMsbD (r : BitVec w) (hn : n ≤ w) {i : ℕ} (hi : i < n) : (top n r).getMsbD i = r.getMsbD i := by
  have hplace : i + w - n - (w - n) = i := by omega
  have hlow : ¬ i + w - n < w - n := by omega
  have hlt : i + w - n < w := by omega
  simp only [top, BitVec.getMsbD_setWidth, BitVec.getMsbD_ushiftRight, Nat.sub_eq_zero_of_le hn, hplace]
  simp [hlow, hlt]

/-- **Tables.** n bits at once: a word of a table, read at the highest bits of the register with the message on them. -/
theorem feed_table (G r : BitVec w) (m : BitVec n) (hn : n ≤ w) :
    feed G r (bitsOf m) = feed G 0#w (bitsOf (top n r ^^^ m)) ^^^ (r <<< n) := by
  have hsum : bitsOf m = (List.range n).map fun i => (top n r ^^^ m).getMsbD i ^^ r.getMsbD i := by
    apply List.map_congr_left
    intro i hi
    rw [BitVec.getMsbD_xor, top_getMsbD r hn (List.mem_range.1 hi)]
    cases r.getMsbD i <;> cases m.getMsbD i <;> rfl
  calc feed G r (bitsOf m)
      = feed G (0#w ^^^ r) ((List.range n).map fun i => (top n r ^^^ m).getMsbD i ^^ r.getMsbD i) := by
        rw [BitVec.zero_xor, hsum]
    _ = feed G 0#w (bitsOf (top n r ^^^ m)) ^^^ feed G r ((List.range n).map r.getMsbD) := feed_xor G 0#w r _ _ _
    _ = feed G 0#w (bitsOf (top n r ^^^ m)) ^^^ (r <<< n) := by rw [feed_own]

/-! ## Bursts -/

def Burst (n : ℕ) (l l' : List Bool) : Prop :=
  ∃ p x y s, l = p ++ x ++ s ∧ l' = p ++ y ++ s ∧ x.length = y.length ∧ x.length ≤ n ∧ x ≠ y

theorem getLsbD_zero_of_shiftLeft {r : BitVec w} {k : ℕ} (hk : k < w) (h : r <<< k = 0#w) : r.getLsbD 0 = false := by
  have hbit := congrArg (fun v => v.getLsbD k) h
  rwa [BitVec.getLsbD_shiftLeft, decide_eq_true hk, decide_eq_false (lt_irrefl k), Nat.sub_self, BitVec.getLsbD_zero,
    Bool.not_false, Bool.true_and, Bool.true_and] at hbit

/-- the lowest bit of the register after a step, if the generator has one there, is whether the generator was added -/
theorem feedBit_low {G : BitVec w} (hG : G.getLsbD 0 = true) (r : BitVec w) (b : Bool) :
    (feedBit G r b).getLsbD 0 = (r.msb ^^ b) := by
  have hif : (if r.msb ^^ b then G else 0#w).getLsbD 0 = (r.msb ^^ b) := by
    cases r.msb ^^ b
    · simp
    · simpa using hG
  rw [feedBit, BitVec.getLsbD_xor, hif, BitVec.getLsbD_shiftLeft]
  simp

/-- what leaves a register of zeros, and is not longer than it, is what the register held -/
theorem feed_eq_zero {G : BitVec w} (hG : G.getLsbD 0 = true) {bits : List Bool} (hn : bits.length ≤ w) {r : BitVec w}
    (h : feed G r bits = 0#w) : bits = (List.range bits.length).map r.getMsbD ∧ r <<< bits.length = 0#w := by
  induction bits generalizing r with
  | nil => exact ⟨rfl, by simpa [feed] using h⟩
  | cons b bits ih =>
    rw [List.length_cons] at hn
    have hrest : feed G (feedBit G r b) bits = 0#w := h
    obtain ⟨hbits, hshift⟩ := ih (by omega) hrest
    have hlow := getLsbD_zero_of_shiftLeft (by omega) hshift
    rw [feedBit_low hG] at hlow
    have hstep : feedBit G r b = r <<< 1 := by simp [feedBit, hlow]
    have hb : b = r.getMsbD 0 := by
      rw [← BitVec.msb_eq_getMsbD_zero]
      exact (by simpa using hlow : r.msb = b).symm
    rw [hstep] at hbits hshift
    constructor
    · rw [List.length_cons, List.range_succ_eq_map, List.map_cons, List.map_map, ← hb]
      congr 1
      refine hbits.trans (List.map_congr_left fun i _ => ?_)
      rw [BitVec.getMsbD_shiftLeft, Function.comp_apply]
    · rwa [List.length_cons, Nat.add_comm, BitVec.shiftLeft_add]

theorem eq_zero_of_feedBit {G : BitVec w} (hG : G.getLsbD 0 = true) {r : BitVec w} (h : feedBit G r false = 0#w) :
    r = 0#w := by
  apply BitVec.eq_of_getMsbD_eq
  intro i hi
  have hone : [false].length ≤ w := by
    rw [List.length_singleton]
    omega
  obtain ⟨hfirst, hshift⟩ := feed_eq_zero hG hone h
  cases i with
  | zero => simpa using hfirst.symm
  | succ i =>
    have hbit := congrArg (fun v => v.getMsbD i) hshift
    simpa [BitVec.getMsbD_shiftLeft] using hbit

/-- two messages are fed to one register as what they differ in is to a register of zeros -/
theorem feed_diff (G r : BitVec w) (n : ℕ) (f g : ℕ → Bool) :
    feed G r ((List.range n).map f) ^^^ feed G r ((List.range n).map g) =
      feed G 0#w ((List.range n).map fun i => f i ^^ g i) := by
  rw [← feed_xor, BitVec.xor_self]

theorem feed_injective {G : BitVec w} (hG : G.getLsbD 0 = true) (s : List Bool) :
    Function.Injective fun r => feed G r s := by
  induction s with
  | nil => exact fun _ _ h => h
  | cons b s ih =>
    intro u v h
    have hstep : feedBit G u b = feedBit G v b := ih h
    have hzero : feedBit G (u ^^^ v) false = 0#w := by
      have hxor := feedBit_xor G u v b b
      rwa [Bool.xor_self, hstep, BitVec.xor_self] at hxor
    exact BitVec.xor_eq_zero_iff.1 (eq_zero_of_feedBit hG hzero)

theorem eq_map_getD (x : List Bool) : x = (List.range x.length).map fun i => x.getD i false := by
  apply List.ext_getElem
  · simp
  · intro i hi _
    simp [List.getElem?_eq_getElem hi]

/-- messages no longer than the register leave the same only if they are the same -/
theorem feed_short_injective {G : BitVec w} (hG : G.getLsbD 0 = true) {x y : List Bool} (hlen : x.length = y.length)
    (hw : x.length ≤ w) {r : BitVec w} (h : feed G r x = feed G r y) : x = y := by
  have hx := eq_map_getD x
  have hy := eq_map_getD y
  rw [← hlen] at hy
  have hdiff := feed_diff G r x.length (fun i => x.getD i false) fun i => y.getD i false
  rw [← hx, ← hy, h, BitVec.xor_self] at hdiff
  have hzero := (feed_eq_zero hG (by simpa using hw) hdiff.symm).1
  rw [hx, hy]
  apply List.map_congr_left
  intro i hi
  have hbit := List.map_inj_left.1 (hzero.trans (by rw [List.length_map, List.length_range])) i hi
  simpa using hbit

/-- **A burst no longer than the register is noticed.** -/
theorem Burst.feed_ne {G : BitVec w} (hG : G.getLsbD 0 = true) {l l' : List Bool} (h : Burst w l l') (r : BitVec w) :
    feed G r l ≠ feed G r l' := by
  obtain ⟨p, x, y, s, rfl, rfl, hlen, hw, hne⟩ := h
  intro heq
  rw [feed_append, feed_append, feed_append G r (p ++ y), feed_append] at heq
  exact hne (feed_short_injective hG hlen hw (feed_injective hG s heq))

/-- **A message with its checksum behind it leaves a register of zeros**, and with no other word. -/
theorem feed_checksum {G : BitVec w} (hG : G.getLsbD 0 = true) (r : BitVec w) (l : List Bool) (c : BitVec w) :
    feed G r (l ++ bitsOf c) = 0#w ↔ c = feed G r l := by
  rw [feed_append]
  constructor
  · intro h
    have hlen : (bitsOf c).length = w := by simp [bitsOf]
    have hbits := (feed_eq_zero hG hlen.le h).1
    rw [hlen] at hbits
    apply BitVec.eq_of_getMsbD_eq
    intro i hi
    exact List.map_inj_left.1 hbits i (List.mem_range.2 hi)
  · rintro rfl
    exact (feed_own G _ w).trans (BitVec.shiftLeft_eq_zero le_rfl)

/-! ## Bytes -/

/-- the bits of a string of bytes, the most significant one of each byte first -/
def byteBits (l : List UInt8) : List Bool := l.flatMap fun b => bitsOf b.toBitVec

theorem byteBits_append (l k : List UInt8) : byteBits (l ++ k) = byteBits l ++ byteBits k := List.flatMap_append

theorem length_byteBits (l : List UInt8) : (byteBits l).length = 8 * l.length := by
  simp [byteBits, bitsOf, Nat.mul_comm]

theorem bitsOf_inj {x y : BitVec n} (h : bitsOf x = bitsOf y) : x = y := by
  apply BitVec.eq_of_getMsbD_eq
  intro i hi
  exact List.map_inj_left.1 h i (List.mem_range.2 hi)

theorem byteBits_injective : Function.Injective byteBits := by
  intro l
  induction l with
  | nil =>
    intro k h
    have hlen := congrArg List.length h
    rw [length_byteBits, length_byteBits, List.length_nil] at hlen
    exact (List.eq_nil_of_length_eq_zero (by omega)).symm
  | cons a l ih =>
    intro k h
    cases k with
    | nil =>
      have hlen := congrArg List.length h
      rw [length_byteBits, length_byteBits, List.length_nil, List.length_cons] at hlen
      omega
    | cons c k =>
      have hparts : bitsOf a.toBitVec ++ byteBits l = bitsOf c.toBitVec ++ byteBits k := h
      obtain ⟨hhead, htail⟩ := List.append_inj hparts (by simp [bitsOf])
      rw [UInt8.toBitVec_inj.1 (bitsOf_inj hhead), ih htail]

/-- other bytes in the place of some are a burst -/
theorem Burst.bytes (pre post : List UInt8) {l k : List UInt8} (hlen : l.length = k.length) (hn : 8 * l.length ≤ n)
    (hne : l ≠ k) : Burst n (byteBits (pre ++ l ++ post)) (byteBits (pre ++ k ++ post)) := by
  refine ⟨byteBits pre, byteBits l, byteBits k, byteBits post, ?_, ?_, ?_, ?_, fun h => hne (byteBits_injective h)⟩
  · rw [byteBits_append, byteBits_append]
  · rw [byteBits_append, byteBits_append]
  · rw [length_byteBits, length_byteBits, hlen]
  · rwa [length_byteBits]

/-! ## Remainders -/

open Polynomial

noncomputable def toPoly (r : BitVec w) : (ZMod 2)[X] := ofFn w fun i => ((r.getLsbD i).toNat : ZMod 2)

noncomputable def generator (G : BitVec w) : (ZMod 2)[X] := X ^ w + toPoly G

/-- the first bit of a message has the highest power -/
noncomputable def message : List Bool → (ZMod 2)[X]
  | [] => 0
  | b :: bits => C (b.toNat : ZMod 2) * X ^ bits.length + message bits

theorem toPoly_coeff (r : BitVec w) (k : ℕ) : (toPoly r).coeff k = ((r.getLsbD k).toNat : ZMod 2) := by
  by_cases hk : k < w
  · simp [toPoly, hk]
  · simp [toPoly, Nat.le_of_not_lt hk]

theorem generator_monic (G : BitVec w) : (generator G).Monic :=
  monic_X_pow_add (ofFn_degree_lt _)

theorem generator_degree (G : BitVec w) : (generator G).degree = w :=
  by rw [generator, degree_add_eq_left_of_degree_lt] <;> simp [ofFn_degree_lt, toPoly]

theorem toNat_xor (a b : Bool) : ((a ^^ b).toNat : ZMod 2) = a.toNat + b.toNat := by
  cases a <;> cases b <;> decide

theorem toPoly_xor (r s : BitVec w) : toPoly (r ^^^ s) = toPoly r + toPoly s := by
  ext k
  rw [coeff_add, toPoly_coeff, toPoly_coeff, toPoly_coeff, BitVec.getLsbD_xor, toNat_xor]

theorem toPoly_ite (G : BitVec w) (b : Bool) : toPoly (if b then G else 0#w) = C (b.toNat : ZMod 2) * toPoly G := by
  cases b
  · ext k
    simp [toPoly_coeff]
  · simp

/-- a shift is the product by X, the highest bit being lost -/
theorem toPoly_shift (r : BitVec w) : toPoly (r <<< 1) + C (r.msb.toNat : ZMod 2) * X ^ w = X * toPoly r := by
  ext k
  rw [coeff_add, toPoly_coeff, coeff_C_mul, coeff_X_pow, BitVec.getLsbD_shiftLeft]
  cases k with
  | zero =>
    rw [coeff_X_mul_zero]
    cases w with
    | zero => simp [BitVec.msb_zero_length]
    | succ w => simp
  | succ k =>
    rw [coeff_X_mul, toPoly_coeff]
    rcases Nat.lt_trichotomy (k + 1) w with h | h | h
    · simp [h, h.ne]
    · subst h
      simp [BitVec.msb_eq_getLsbD_last]
    · simp [h.ne', Nat.not_lt.2 h.le, BitVec.getLsbD_of_ge r k (by omega)]

/-- **One step.** The register takes in the bit at its highest power; the generator is taken off once or not at all. -/
theorem toPoly_feedBit (G r : BitVec w) (b : Bool) :
    toPoly (feedBit G r b) + generator G * C ((r.msb ^^ b).toNat : ZMod 2) =
      X * toPoly r + C (b.toNat : ZMod 2) * X ^ w := by
  have hself : ∀ p : (ZMod 2)[X], p + p = 0 := fun p => CharTwo.add_self_eq_zero p
  rw [feedBit, toPoly_xor, toPoly_ite, generator, ← toPoly_shift r, toNat_xor, C_add]
  linear_combination hself (C (r.msb.toNat : ZMod 2) * toPoly G) + hself (C (b.toNat : ZMod 2) * toPoly G)

theorem dvd_feed (G r : BitVec w) (bits : List Bool) :
    generator G ∣ X ^ bits.length * toPoly r + X ^ w * message bits - toPoly (feed G r bits) := by
  induction bits generalizing r with
  | nil => simp [message, feed]
  | cons b bits ih =>
    obtain ⟨q, hq⟩ := ih (feedBit G r b)
    refine ⟨X ^ bits.length * C ((r.msb ^^ b).toNat : ZMod 2) + q, ?_⟩
    have hstep := toPoly_feedBit G r b
    have hfeed : feed G r (b :: bits) = feed G (feedBit G r b) bits := rfl
    rw [hfeed, message, List.length_cons]
    linear_combination hq - X ^ bits.length * hstep

/-- **Remainders.** The register is the remainder, by the generator, of the message behind what the register held. -/
theorem toPoly_feed (G r : BitVec w) (bits : List Bool) :
    toPoly (feed G r bits) = (X ^ bits.length * toPoly r + X ^ w * message bits) %ₘ generator G := by
  obtain ⟨q, hq⟩ := dvd_feed G r bits
  refine (div_modByMonic_unique q _ (generator_monic G) ⟨?_, ?_⟩).2.symm
  · linear_combination -hq
  · rw [generator_degree]
    exact ofFn_degree_lt _

end SprdDevice.Cyclic
