/-
What `eng_diag_parse` leaves of a frame (`eng_diag.c`), and the scan of `eng_diag_apcmd_hdlr` for its end.

The decoder is given the closing flag along with the payload, and takes it for one more escape: the byte it puts there is
the byte behind the frame with bit 5 turned. So the frame keeps its end only when a 0x5E stands behind it.

Results: `cells_parsed` (what the buffer holds) and `parsed_frame_iff` (when the frame keeps its end).
-/
import Mathlib.Tactic
import SprdDevice.EngMode.Collector

namespace SprdDevice.EngMode

open SprdDevice.Escape SprdDevice.Memory

/-! ## Model -/

/-- the buffer after the call of `eng_diag_decode7d7e` in `eng_diag_parse` -/
def parsedBuf (buf : Mem) (len : ℕ) : Mem := decode7d7e (len - 1) 1 buf

/-- the loop of `eng_diag_apcmd_hdlr`, which has no bound of its own: the index of the first 0x7E from i on, if it is among
the next `fuel` bytes -/
def scanEnd : ℕ → ℕ → Mem → Option ℕ
  | 0, _, _ => none
  | fuel + 1, i, mem => if mem i = 0x7E then some i else scanEnd fuel (i + 1) mem

/-- the index where the handlers begin to look: behind the opening flag and the header -/
def bodyStart : ℕ := 1 + 8

/-- the buffer holds the payload between its two flags, and from behind the header the first 0x7E is the closing one -/
def KeepsFrame (mem : Mem) (p : List UInt8) : Prop :=
  cells mem 0 (p.length + 2) = 0x7E :: (p ++ [0x7E]) ∧
    (8 ≤ p.length → 0x7E ∉ p → ∀ fuel, p.length ≤ fuel → scanEnd fuel bodyStart mem = some (p.length + 1))

/-! ## The frame in the buffer -/

/-- The buffer behind the first byte: the payload, and the byte that took the place of the flag. -/
theorem cells_parsed (m : Mem) (p : List UInt8) : cells (parsedBuf (store m 0 (frame p)) (frame p).length) 0 (p.length + 2) =
    0x7E :: (p ++ [m (frame p).length ^^^ 0x20]) := by
  have hlen := length_frame p
  have hge := length_le_stuff p
  have hbehind : store m 0 (frame p) (frame p).length = m (frame p).length := store_outside m (frame p) (Or.inr (by omega))
  have hdec := cells_decode_frame (cells_store_self m 0 (frame p))
  have hassoc : ∀ (q : UInt8) (l : List UInt8), 0x7E :: (p ++ q :: l) = 0x7E :: (p ++ [q]) ++ l := by
    intro q l
    rw [List.cons_append, List.append_assoc, List.singleton_append]
  have hsplit : (frame p).length = (p.length + 2) + ((frame p).length - (p.length + 2)) := by omega
  rw [hbehind, hassoc, hsplit, cells_add, ← hsplit] at hdec
  exact (List.append_inj hdec (by simp)).1

/-! ## The scan -/

/-- the scan stops at the first flag -/
theorem scanEnd_of (mem : Mem) (i n : ℕ) (hbefore : ∀ j, i ≤ j → j < i + n → mem j ≠ 0x7E) (hat : mem (i + n) = 0x7E) :
    ∀ fuel, n < fuel → scanEnd fuel i mem = some (i + n) := by
  induction n generalizing i with
  | zero =>
    intro fuel hfuel
    obtain ⟨fuel, rfl⟩ := Nat.exists_eq_add_of_lt hfuel
    rw [Nat.add_zero] at hat
    rw [Nat.zero_add, scanEnd, if_pos hat]
    rfl
  | succ n ih =>
    intro fuel hfuel
    obtain ⟨fuel, rfl⟩ : ∃ k, fuel = k + 1 := ⟨fuel - 1, by omega⟩
    have hnext : i + 1 + n = i + (n + 1) := by omega
    rw [scanEnd, if_neg (hbefore i le_rfl (by omega)),
      ih (i + 1) (fun j h1 h2 => hbefore j (by omega) (by omega)) _ fuel (by omega), hnext]
    rw [hnext]
    exact hat

/-- a buffer that holds the frame has its end found -/
theorem scanEnd_frame {mem : Mem} {p : List UInt8} (h : cells mem 0 (p.length + 2) = 0x7E :: (p ++ [0x7E]))
    (hp : 8 ≤ p.length) (hfree : 0x7E ∉ p) : ∀ fuel, p.length ≤ fuel → scanEnd fuel bodyStart mem = some (p.length + 1) := by
  have hget : ∀ j < p.length + 2, (0x7E :: (p ++ [0x7E]))[j]? = some (mem j) := by
    intro j hj
    rw [← h]
    simp [cells, hj]
  have hend : bodyStart + (p.length - 8) = p.length + 1 := by
    unfold bodyStart
    omega
  have hscan := scanEnd_of mem bodyStart (p.length - 8) ?_ ?_
  · rw [hend] at hscan
    exact fun fuel hfuel => hscan fuel (by omega)
  · intro j h1 h2
    rw [hend] at h2
    obtain ⟨k, rfl⟩ : ∃ k, j = k + 1 := ⟨j - 1, by unfold bodyStart at h1; omega⟩
    have hk : k < p.length := by omega
    have hat := hget (k + 1) (by omega)
    rw [List.getElem?_cons_succ, List.getElem?_append_left hk] at hat
    exact fun hflag => hfree (hflag ▸ List.mem_of_getElem? hat)
  · have hat := hget (p.length + 1) (by omega)
    rw [List.getElem?_cons_succ, List.getElem?_append_right le_rfl, Nat.sub_self] at hat
    rw [hend]
    exact (Option.some.inj hat).symm

theorem xor_flag_iff (q : UInt8) : q ^^^ 0x20 = 0x7E ↔ q = 0x5E := by
  constructor
  · intro h
    have hback : q = (q ^^^ 0x20) ^^^ 0x20 := by rw [UInt8.xor_assoc, UInt8.xor_self, UInt8.xor_zero]
    rw [hback, h]
    rfl
  · rintro rfl
    rfl

/-- **A parsed frame.** Whatever the buffer held before: after the parser has decoded the frame of p, the buffer holds p
between its flags, and the handlers find the closing one, exactly when the byte behind the frame is 0x5E. -/
theorem parsed_frame_iff (m : Mem) (p : List UInt8) :
    KeepsFrame (parsedBuf (store m 0 (frame p)) (frame p).length) p ↔ m (frame p).length = 0x5E := by
  have hcells := cells_parsed m p
  generalize parsedBuf (store m 0 (frame p)) (frame p).length = mem at hcells
  rw [← xor_flag_iff]
  constructor
  · rintro ⟨hkept, -⟩
    rw [hcells, List.cons.injEq, List.append_cancel_left_eq, List.cons.injEq] at hkept
    exact hkept.2.1
  · intro hflag
    rw [hflag] at hcells
    exact ⟨hcells, fun hp hfree => scanEnd_frame hcells hp hfree⟩

/-- in the cleared buffer of the receiving thread the closing flag of a version command turns into a blank -/
theorem parsed_loses_flag :
    parsedBuf (store (fun _ => 0) 0 (frame [1, 0, 0, 0, 8, 0, 0, 2])) (frame [1, 0, 0, 0, 8, 0, 0, 2]).length 9 = 0x20 ∧
      ¬ KeepsFrame (parsedBuf (store (fun _ => 0) 0 (frame [1, 0, 0, 0, 8, 0, 0, 2])) (frame [1, 0, 0, 0, 8, 0, 0, 2]).length)
        [1, 0, 0, 0, 8, 0, 0, 2] := by
  have hcells := cells_parsed (fun _ => 0) [1, 0, 0, 0, 8, 0, 0, 2]
  constructor
  · decide
  · rintro ⟨hkept, -⟩
    rw [hcells] at hkept
    exact absurd hkept (by decide)

/-- a frame of the receiving thread that leaves a byte of the buffer free never keeps its end -/
theorem thread_loses_flag (env : Env) {p : List UInt8} (hroom : (frame p).length < extSize) :
    ¬ KeepsFrame (parsedBuf (store (extMem env []) 0 (frame p)) (frame p).length) p := by
  have hcells := cells_parsed (extMem env []) p
  have hzero : extMem env [] (frame p).length = 0 := by
    rw [extMem, if_pos hroom]
    rfl
  rw [hzero] at hcells
  rintro ⟨hkept, -⟩
  rw [hcells, List.cons.injEq, List.append_cancel_left_eq, List.cons.injEq] at hkept
  exact absurd hkept.2.1 (by decide)

end SprdDevice.EngMode
