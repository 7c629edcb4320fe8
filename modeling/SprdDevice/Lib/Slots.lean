/-
Slot maps: n slots with a taken mark each, and the cached index of the first free one.

- `SlotMap`: the marks, and the cached index (`nil` stands for none);
- `take`: the cached slot is marked, and the next free one is looked for from there on;
- `give i`: slot i is free again, and becomes the cached one when it lies below it;
- `Cached`: the cached index is the least free slot, or `nil` when no slot is free;
- `Backed addr live`: the slots that are marked are the ones whose address is live.
Results: `take` and `give` keep `Cached` (`Cached.take`, `Cached.give`) and, as the address of the slot comes to the
live ones or leaves them, `Backed` (`Backed.take`, `Backed.give`); what `Cached` says of the cached index
(`Cached.eq_nil_iff`, `Cached.first`).
-/
import SprdDevice.Lib.Search

namespace SprdDevice.Slots

open SprdDevice.Search

structure SlotMap where
  count : ℕ → ℕ
  first : ℕ

namespace SlotMap

/-- the least free slot from s on, below n -/
def next (count : ℕ → ℕ) (s n nil : ℕ) : ℕ := (firstFrom (fun i => count i = 0) s n).getD nil

def empty : SlotMap := ⟨fun _ => 0, 0⟩

def take (m : SlotMap) (n nil : ℕ) : SlotMap :=
  let count := Function.update m.count m.first 1
  ⟨count, next count m.first n nil⟩

def give (m : SlotMap) (i : ℕ) : SlotMap :=
  ⟨Function.update m.count i 0, if m.first > i then i else m.first⟩

def Backed (m : SlotMap) (n : ℕ) (addr : ℕ → ℕ) (live : ℕ → Prop) : Prop :=
  ∀ i < n, m.count i = 0 ↔ ¬ live (addr i)

def Cached (m : SlotMap) (n nil : ℕ) : Prop := m.first = next m.count 0 n nil

theorem take_count (m : SlotMap) (n nil i : ℕ) : (m.take n nil).count i = 0 ↔ i ≠ m.first ∧ m.count i = 0 := by
  simp only [take, Function.update_apply]
  by_cases hi : i = m.first <;> simp [hi]

theorem give_count (m : SlotMap) (j i : ℕ) : (m.give j).count i = 0 ↔ i = j ∨ m.count i = 0 := by
  simp only [give, Function.update_apply]
  by_cases hi : i = j <;> simp [hi]

theorem next_of_first {count : ℕ → ℕ} {s n nil i : ℕ} (h : First (fun i => count i = 0) s i) (hi : i < n) :
    next count s n nil = i := by
  rw [next, firstFrom_eq_some.mpr ⟨h, hi⟩, Option.getD_some]

theorem next_of_none {count : ℕ → ℕ} {s n nil : ℕ} (h : ∀ i, s ≤ i → i < n → count i ≠ 0) :
    next count s n nil = nil := by
  rw [next, firstFrom_eq_none.mpr h, Option.getD_none]

/-- the scan may start later when no slot before is free -/
theorem next_later {count : ℕ → ℕ} {s n nil : ℕ} (h : ∀ i, i < s → count i ≠ 0) :
    next count 0 n nil = next count s n nil := by
  rcases hs : firstFrom (fun i => count i = 0) s n with _ | i
  · rw [firstFrom_eq_none] at hs
    have h0 : ∀ i, 0 ≤ i → i < n → count i ≠ 0 := fun i _ hin => by
      by_cases his : i < s
      · exact h i his
      · exact hs i (Nat.not_lt.mp his) hin
    rw [next_of_none h0, next_of_none hs]
  · rw [firstFrom_eq_some] at hs
    have h0 := hs.1.of_later (Nat.zero_le s) fun j _ hj => h j hj
    rw [next_of_first h0 hs.2, next_of_first hs.1 hs.2]

section Cached

variable {m : SlotMap} {n nil : ℕ}

theorem Cached.empty (hn : 0 < n) : Cached empty n nil :=
  (next_of_first ⟨Nat.le_refl 0, rfl, fun j _ hj => absurd hj (Nat.not_lt_zero j)⟩ hn).symm

/-- the cached slot, when there is one, is the least free one -/
theorem Cached.first (h : m.Cached n nil) (hne : m.first ≠ nil) :
    First (fun i => m.count i = 0) 0 m.first ∧ m.first < n := by
  rcases hs : firstFrom (fun i => m.count i = 0) 0 n with _ | i
  · rw [Cached, next, hs, Option.getD_none] at h
    exact absurd h hne
  · rw [Cached, next, hs, Option.getD_some] at h
    rw [h]
    exact firstFrom_eq_some.mp hs

theorem Cached.eq_nil_iff (h : m.Cached n nil) (hnil : n ≤ nil) : m.first = nil ↔ ∀ i < n, m.count i ≠ 0 := by
  constructor
  · intro hf
    rcases hs : firstFrom (fun i => m.count i = 0) 0 n with _ | i
    · exact fun i hi => firstFrom_eq_none.mp hs i (Nat.zero_le i) hi
    · have hi := firstFrom_eq_some.mp hs
      rw [Cached, next_of_first hi.1 hi.2] at h
      omega
  · intro hall
    exact h.trans (next_of_none fun i _ hi => hall i hi)

theorem Cached.take (h : m.Cached n nil) (hne : m.first ≠ nil) : (m.take n nil).Cached n nil := by
  refine (next_later fun i hi h0 => ?_).symm
  have hfree := ((take_count m n nil i).mp h0).2
  exact (h.first hne).1.least i (Nat.zero_le i) hi hfree

theorem Cached.give {i : ℕ} (h : m.Cached n nil) (hnil : n ≤ nil) (hi : i < n) : (m.give i).Cached n nil := by
  have hbelow : ∀ j, j < m.first → j < n → m.count j ≠ 0 := by
    intro j hj hjn
    by_cases hne : m.first = nil
    · exact (h.eq_nil_iff hnil).mp hne j hjn
    · exact (h.first hne).1.least j (Nat.zero_le j) hj
  have hfree : (m.give i).count i = 0 := (give_count m i i).mpr (Or.inl rfl)
  by_cases hlt : m.first > i
  · have hfirst : (m.give i).first = i := if_pos hlt
    refine hfirst.trans (next_of_first ⟨Nat.zero_le i, hfree, fun j _ hj h0 => ?_⟩ hi).symm
    rcases (give_count m i j).mp h0 with hji | h0
    · exact absurd hji hj.ne
    · exact hbelow j (hj.trans hlt) (hj.trans hi) h0
  · have hfirst : (m.give i).first = m.first := if_neg hlt
    have hne : m.first ≠ nil := by omega
    have hm := h.first hne
    have hmfree : (m.give i).count m.first = 0 := (give_count m i m.first).mpr (Or.inr hm.1.holds)
    refine hfirst.trans (next_of_first ⟨Nat.zero_le _, hmfree, fun j _ hj h0 => ?_⟩ hm.2).symm
    rcases (give_count m i j).mp h0 with rfl | h0
    · exact hlt hj
    · exact hm.1.least j (Nat.zero_le j) hj h0

end Cached

section Backed

variable {m : SlotMap} {n nil : ℕ} {addr : ℕ → ℕ} {live : ℕ → Prop}

theorem Backed.take (h : m.Backed n addr live) (hm : m.first < n)
    (hinj : ∀ i < n, ∀ j < n, addr i = addr j → i = j) :
    (m.take n nil).Backed n addr fun a => a = addr m.first ∨ live a := by
  intro i hi
  rw [take_count, h i hi, not_or]
  refine and_congr_left fun _ => not_congr ⟨fun he => he ▸ rfl, hinj i hi m.first hm⟩

theorem Backed.give {j : ℕ} (h : m.Backed n addr live) (hj : j < n)
    (hinj : ∀ i < n, ∀ j < n, addr i = addr j → i = j) :
    (m.give j).Backed n addr fun a => live a ∧ a ≠ addr j := by
  intro i hi
  rw [give_count, h i hi, not_and_or, not_not, or_comm]
  exact or_congr_right ⟨fun he => he ▸ rfl, hinj i hi j hj⟩

/-- what becomes live, or stops being it, outside the slots -/
theorem Backed.congr {live' : ℕ → Prop} (h : m.Backed n addr live) (hl : ∀ i < n, live' (addr i) ↔ live (addr i)) :
    m.Backed n addr live' := fun i hi => (h i hi).trans (not_congr (hl i hi).symm)

end Backed

end SlotMap

end SprdDevice.Slots
