/-
Areas of memory handed out from one frame by a cursor that only goes up, and from blocks that are allocated one by one.

- `Addr`: an offset into the frame, into the i-th block, or no address;
- `Placed used blocks r`: the area r lies below the cursor `used`, or inside a block;
- `Apart r s`: the areas have no byte in common;
- `Sound used blocks rs`: the areas rs are placed, and apart from each other.
With the cursor at the end of the frame, `Placed` says that an area lies inside the frame or a block.
Results: raising the cursor by the next area (`Sound.bump`) and allocating a block for it (`Sound.alloc`) keep `Sound`.
-/
import Mathlib.Tactic

namespace SprdDevice.Arena

inductive Base where
  | null
  | frame
  | block (i : ℕ)
deriving DecidableEq, Repr

structure Addr where
  base : Base
  ofs : ℕ
deriving DecidableEq, Repr

/-- 32-bit address arithmetic -/
@[irreducible] def Addr.plus (a : Addr) (n : ℕ) : Addr := ⟨a.base, (n + a.ofs) % 2 ^ 32⟩

@[irreducible] def Addr.minus (a : Addr) (n : ℕ) : Addr := ⟨a.base, (((a.ofs : ℤ) - n) % 2 ^ 32).toNat⟩

structure Area where
  addr : Addr
  len : ℕ
deriving DecidableEq, Repr

def Placed (used : ℕ) (blocks : List ℕ) (r : Area) : Prop :=
  match r.addr.base with
  | .null => False
  | .frame => r.addr.ofs + r.len ≤ used
  | .block i => ∃ size, blocks[i]? = some size ∧ r.addr.ofs + r.len ≤ size

def Apart (r s : Area) : Prop :=
  r.addr.base ≠ s.addr.base ∨ r.addr.ofs + r.len ≤ s.addr.ofs ∨ s.addr.ofs + s.len ≤ r.addr.ofs

instance decidablePlaced (used : ℕ) (blocks : List ℕ) (r : Area) : Decidable (Placed used blocks r) :=
  match h : r.addr.base with
  | .null => decidable_of_iff False (by simp [Placed, h])
  | .frame => decidable_of_iff (r.addr.ofs + r.len ≤ used) (by simp [Placed, h])
  | .block i =>
    match hb : blocks[i]? with
    | none => decidable_of_iff False (by simp [Placed, h, hb])
    | some size => decidable_of_iff (r.addr.ofs + r.len ≤ size) (by simp [Placed, h, hb])

instance decidableApart (r s : Area) : Decidable (Apart r s) := inferInstanceAs (Decidable (_ ∨ _))

structure Sound (used : ℕ) (blocks : List ℕ) (rs : List Area) : Prop where
  placed : ∀ r ∈ rs, Placed used blocks r
  apart : rs.Pairwise Apart

theorem plus_minus {a : Addr} (n : ℕ) (ha : a.ofs < 2 ^ 32) : (a.plus n).minus n = a := by
  have hofs : ((((n + a.ofs) % 2 ^ 32 : ℕ) : ℤ) - n) % 2 ^ 32 = a.ofs := by omega
  rw [Addr.plus, Addr.minus]
  dsimp only
  rw [hofs, Int.toNat_natCast]

theorem plus_ofs_lt (a : Addr) (n : ℕ) : (a.plus n).ofs < 2 ^ 32 := by
  rw [Addr.plus]
  exact Nat.mod_lt _ (by norm_num)

theorem Apart.symm {r s : Area} (h : Apart r s) : Apart s r := by
  rcases h with h | h | h
  · exact Or.inl (Ne.symm h)
  · exact Or.inr (Or.inr h)
  · exact Or.inr (Or.inl h)

theorem Placed.mono {used used' : ℕ} {blocks : List ℕ} {r : Area} (h : Placed used blocks r) (hu : used ≤ used') :
    Placed used' blocks r := by
  unfold Placed at h ⊢
  split at h
  · exact h
  · exact le_trans h hu
  · exact h

theorem Placed.alloc {used : ℕ} {blocks : List ℕ} {r : Area} (h : Placed used blocks r) (n : ℕ) :
    Placed used (blocks ++ [n]) r := by
  unfold Placed at h ⊢
  split at h
  · exact h
  · exact h
  · obtain ⟨size, hb, hle⟩ := h
    have hlt : _ < blocks.length := (List.getElem?_eq_some_iff.mp hb).1
    exact ⟨size, by rw [List.getElem?_append_left hlt]; exact hb, hle⟩

theorem sound_nil (used : ℕ) (blocks : List ℕ) : Sound used blocks [] := ⟨by simp, List.Pairwise.nil⟩

theorem Sound.mono {used used' : ℕ} {blocks : List ℕ} {rs : List Area} (h : Sound used blocks rs) (hu : used ≤ used') :
    Sound used' blocks rs := ⟨fun r hr => (h.placed r hr).mono hu, h.apart⟩

/-- a new area behind the cursor is apart from every area in front of it -/
theorem apart_of_placed {used : ℕ} {blocks : List ℕ} {r s : Area} (h : Placed used blocks s)
    (hr : r.addr.base = .frame) (hofs : used ≤ r.addr.ofs) : Apart r s := by
  by_cases hbase : r.addr.base = s.addr.base
  · rw [Placed, ← hbase, hr] at h
    exact Or.inr (Or.inr (le_trans h hofs))
  · exact Or.inl hbase

/-- **Cursor rule.** -/
theorem Sound.bump {used : ℕ} {blocks : List ℕ} {rs : List Area} (h : Sound used blocks rs) (n : ℕ) :
    Sound (used + n) blocks (⟨⟨.frame, used⟩, n⟩ :: rs) where
  placed := by
    intro r hr
    rcases List.mem_cons.mp hr with rfl | hr
    · exact le_refl (used + n)
    · exact (h.placed r hr).mono (Nat.le_add_right used n)
  apart := List.pairwise_cons.mpr ⟨fun s hs => apart_of_placed (h.placed s hs) rfl (le_refl used), h.apart⟩

/-- **Block rule.** -/
theorem Sound.alloc {used : ℕ} {blocks : List ℕ} {rs : List Area} (h : Sound used blocks rs) (n : ℕ) :
    Sound used (blocks ++ [n]) (⟨⟨.block blocks.length, 0⟩, n⟩ :: rs) where
  placed := by
    intro r hr
    rcases List.mem_cons.mp hr with rfl | hr
    · exact ⟨n, by simp, by simp⟩
    · exact (h.placed r hr).alloc n
  apart := by
    refine List.pairwise_cons.mpr ⟨fun s hs => Or.inl ?_, h.apart⟩
    intro hbase
    have hs := h.placed s hs
    rw [Placed, ← hbase] at hs
    obtain ⟨size, hb, -⟩ := hs
    simp at hb

end SprdDevice.Arena
