/-
The send loops of the modem boot loader over UART (`packet.c`: the do-while of `send_connect_message`,
`send_start_message`, `send_data_message`, `send_end_message` and `send_exec_message`, the same text five times).

After a partial write the loop takes what was written off `translated_size` and writes again, from the start of
`send_buffer`. A write puts as many bytes of the buffer on the descriptor as it returns; with a result of 0 or less the
loop tries again.

Results: `sendLoop_iff` (the partial writes after which the descriptor has the frame) and `sendPacket_whole` (the same with
failed writes in between).
-/
import Mathlib.Tactic
import SprdDevice.ModemBoot.Packet

namespace SprdDevice.ModemBoot

open SprdDevice.Escape

/-! ## Model -/

/-- the loop over the results of its writes: the bytes put on the descriptor -/
def sendLoop (sendBuffer : List UInt8) : ℤ → List ℤ → List UInt8
  | _, [] => []
  | translatedSize, retval :: rets =>
    let written := (sendBuffer.take translatedSize.toNat).take retval.toNat
    let translatedSize := if retval > 0 then translatedSize - retval else translatedSize
    written ++ if translatedSize > 0 then sendLoop sendBuffer translatedSize rets else []

/-- `translate_packet` into `send_buffer`, then the loop -/
def sendPacket (src : List UInt8) (rets : List ℤ) : List UInt8 :=
  sendLoop (translatePacket src) (translatePacket src).length rets

/-- the results of a loop that ends: each between 1 and what is left, and nothing left at the end -/
def Drains : ℤ → List ℤ → Prop
  | left, [] => left = 0
  | left, retval :: rets => 1 ≤ retval ∧ retval ≤ left ∧ Drains (left - retval) rets

instance decidableDrains : (left : ℤ) → (rets : List ℤ) → Decidable (Drains left rets)
  | left, [] => inferInstanceAs (Decidable (left = 0))
  | left, retval :: rets =>
    have := decidableDrains (left - retval) rets
    inferInstanceAs (Decidable (1 ≤ retval ∧ retval ≤ left ∧ Drains (left - retval) rets))

/-! ## What is on the descriptor -/

theorem Drains.nonneg {left : ℤ} {rets : List ℤ} (h : Drains left rets) : 0 ≤ left := by
  cases rets with
  | nil => exact h.ge
  | cons retval rets => exact le_trans (by decide) (h.1.trans h.2.1)

/-- every write starts at the beginning of the frame -/
theorem sendLoop_eq (frame : List UInt8) (rets : List ℤ) (left : ℤ) (h : Drains left rets) (hleft : left ≤ frame.length) :
    sendLoop frame left rets = rets.flatMap fun retval => frame.take retval.toNat := by
  induction rets generalizing left with
  | nil => rfl
  | cons retval rets ih =>
    obtain ⟨hpos, hle, hrest⟩ := h
    have htake : (frame.take left.toNat).take retval.toNat = frame.take retval.toNat := by
      rw [List.take_take, min_eq_left (Int.toNat_le_toNat hle)]
    have hgot : retval > 0 := by omega
    rw [sendLoop, htake, if_pos hgot, List.flatMap_cons]
    split_ifs with hmore
    · rw [ih (left - retval) hrest (by omega)]
    · cases rets with
      | nil => rfl
      | cons next rets =>
        have hnext := hrest.1
        have hnext' := hrest.2.1
        omega

theorem length_frame_ge (x : List UInt8) : 2 ≤ (frame x).length := by
  simp [frame]

/-- a flag of the frame is its first byte or its last -/
theorem flag_ends {x : List UInt8} {i : ℕ} (h : (frame x)[i]? = some flag) : i = 0 ∨ i = (frame x).length - 1 := by
  cases i with
  | zero => exact Or.inl rfl
  | succ i =>
    right
    rw [frame, List.cons_append, List.getElem?_cons_succ] at h
    by_cases hi : i < (stuff x).length
    · rw [List.getElem?_append_left hi] at h
      exact absurd (List.mem_of_getElem? h) (flag_not_mem_stuff x)
    · have hlen : i < (stuff x ++ [flag]).length := (List.getElem?_eq_some_iff.mp h).1
      simp only [List.length_append, List.length_singleton] at hlen
      simp only [frame, List.cons_append, List.length_cons, List.length_append, List.length_nil]
      omega

/-- the frame is its first bytes and the opening flag once more -/
theorem frame_wraps (x : List UInt8) : (frame x).take ((frame x).length - 1) ++ (frame x).take 1 = frame x := by
  have hlen : (frame x).length - 1 = (flag :: stuff x).length := by simp [frame]
  have htake : (frame x).take ((frame x).length - 1) = flag :: stuff x := by
    rw [hlen]
    exact List.take_left
  rw [htake]
  rfl

/-- one write takes all of the frame, or all but the closing flag and the next one the flag -/
def TakesWhole (x : List UInt8) (rets : List ℤ) : Prop :=
  rets = [((translatePacket x).length : ℤ)] ∨ rets = [((translatePacket x).length : ℤ) - 1, 1]

theorem TakesWhole.drains {x : List UInt8} {rets : List ℤ} (h : TakesWhole x rets) :
    Drains (translatePacket x).length rets := by
  have hlen := length_frame_ge x
  rw [← translatePacket_eq] at hlen
  rcases h with rfl | rfl
  · exact ⟨by omega, le_refl _, sub_self _⟩
  · refine ⟨by omega, by omega, by omega, by omega, ?_⟩
    change _ = (0 : ℤ)
    omega

theorem TakesWhole.sent {x : List UInt8} {rets : List ℤ} (h : TakesWhole x rets) :
    sendPacket x rets = translatePacket x := by
  rw [sendPacket, sendLoop_eq _ rets _ h.drains le_rfl]
  rcases h with rfl | rfl
  · rw [List.flatMap_singleton, Int.toNat_natCast, List.take_length]
  · have hlen := length_frame_ge x
    rw [translatePacket_eq]
    have hnat : (((frame x).length : ℤ) - 1).toNat = (frame x).length - 1 := by omega
    rw [List.flatMap_cons, List.flatMap_singleton, hnat]
    exact frame_wraps x

/-- a write that puts nothing on the descriptor is tried again -/
theorem sendLoop_retries (frame : List UInt8) (rets : List ℤ) {left : ℤ} (hleft : left > 0) :
    sendLoop frame left rets = sendLoop frame left (rets.filter fun retval => 0 < retval) := by
  induction rets generalizing left with
  | nil => rfl
  | cons retval rets ih =>
    by_cases hpos : 0 < retval
    · rw [List.filter_cons_of_pos (by simpa using hpos), sendLoop, sendLoop, if_pos hpos]
      split_ifs with hmore
      · rw [ih hmore]
      · rfl
    · have hnone : retval.toNat = 0 := Int.toNat_eq_zero.2 (not_lt.1 hpos)
      rw [List.filter_cons_of_neg (by simpa using hpos), sendLoop, if_neg hpos, if_pos hleft, hnone, List.take_zero,
        List.nil_append, ih hleft]

/-- the frame is on the descriptor, whichever writes fail in between -/
theorem sendPacket_whole {x : List UInt8} {rets : List ℤ} (h : TakesWhole x (rets.filter fun retval => 0 < retval)) :
    sendPacket x rets = translatePacket x := by
  have hpos : ((translatePacket x).length : ℤ) > 0 := by
    have hlen := length_frame_ge x
    rw [translatePacket_eq]
    omega
  rw [sendPacket, sendLoop_retries _ rets hpos]
  exact h.sent

/-- **Partial writes.** For every frame and every way its writes drain it, the descriptor has the frame, each byte once and
in order, exactly when one write takes all of it, or the first write takes all but the closing flag. -/
theorem sendLoop_iff (x : List UInt8) (rets : List ℤ) (h : Drains (translatePacket x).length rets) :
    sendPacket x rets = translatePacket x ↔
      rets = [((translatePacket x).length : ℤ)] ∨ rets = [((translatePacket x).length : ℤ) - 1, 1] := by
  constructor
  · intro hsent
    rw [sendPacket, sendLoop_eq _ rets _ h le_rfl] at hsent
    rw [translatePacket_eq] at h hsent ⊢
    have hlen := length_frame_ge x
    cases rets with
    | nil =>
      have hzero : ((frame x).length : ℤ) = 0 := h
      omega
    | cons w rets =>
      obtain ⟨hw, hle, hrest⟩ := h
      cases rets with
      | nil =>
        have hzero : ((frame x).length : ℤ) - w = 0 := hrest
        exact Or.inl (by rw [sub_eq_zero.mp hzero])
      | cons w' rets =>
        -- the second write begins with the opening flag, which stands at the end of the frame only
        obtain ⟨hw', hle', hdrain⟩ := hrest
        have hflag : (frame x)[w.toNat]? = some flag := by
          have hfirst : ((frame x).take w.toNat).length = w.toNat := by
            rw [List.length_take]
            omega
          obtain ⟨n, hn⟩ : ∃ n, w'.toNat = n + 1 := ⟨w'.toNat - 1, by omega⟩
          rw [← hsent, List.flatMap_cons, List.getElem?_append_right hfirst.le, hfirst, Nat.sub_self, List.flatMap_cons, hn]
          rfl
        rcases flag_ends hflag with hzero | hlast
        · omega
        · have hw1 : w = ((frame x).length : ℤ) - 1 := by omega
          have hw2 : w' = 1 := by omega
          subst hw2
          rw [hw1] at hdrain
          cases rets with
          | nil => exact Or.inr (by rw [hw1])
          | cons w'' rets =>
            have h1 := hdrain.1
            have h2 := hdrain.2.1
            omega
  · exact TakesWhole.sent

/-- the packet of CONNECT -/
def connectPacket : List UInt8 := [0, 0, 0, 0, 0, 0]

/-- the first write takes all but the closing flag -/
theorem sendLoop_iff_connect : sendPacket connectPacket [7, 1] = translatePacket connectPacket ↔
    [(7 : ℤ), 1] = [((translatePacket connectPacket).length : ℤ)] ∨
      [(7 : ℤ), 1] = [((translatePacket connectPacket).length : ℤ) - 1, 1] :=
  sendLoop_iff connectPacket [7, 1] (by decide)

/-- the first write takes four of eight bytes: the second puts the same four on the descriptor once more -/
theorem sendLoop_repeats : Drains (translatePacket connectPacket).length [4, 4] ∧
    sendPacket connectPacket [4, 4] = [0x7E, 0, 0, 0, 0x7E, 0, 0, 0] ∧
      sendPacket connectPacket [4, 4] ≠ translatePacket connectPacket := by
  decide

end SprdDevice.ModemBoot
