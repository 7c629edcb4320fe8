/-
The escape codec of the engineering mode (`eng_diag.c`: `eng_diag_encode7d7e`, with `eng_diag_decode7d7e` of `Diag`), and
the one of its calibration path (`adc_calibration.c`: `translate_packet`, with `untranslate_packet_header` of
`Calibration`).

`eng_diag_encode7d7e` works in place: at a 0x7D or 0x7E the bytes behind it move up by one, and the loop goes on with the
second half of the escape, which is no escape itself. So 2 * len passes are enough for it.

Results: `encode7d7e_store` (the encoder is `stuff`), `codec_round_trip` and `unpack_round_trip`.
-/
import Mathlib.Tactic
import SprdDevice.EngMode.Calibration

namespace SprdDevice.EngMode

open SprdDevice.Escape SprdDevice.Memory

/-! ## Model -/

/-- the loop of `eng_diag_encode7d7e`: the buffer, `len` and `*extra_len` at its end -/
def encodeLoop : ℕ → ℕ → ℕ → ℕ → Mem → Mem × ℕ × ℕ
  | 0, _, len, extra, buf => (buf, len, extra)
  | fuel + 1, i, len, extra, buf =>
    if i < len then
      if Escapes (buf i) then
        let tmp := buf i ^^^ 0x20
        let buf := Function.update buf i 0x7D
        let buf := shiftUp buf (i + 1) (len - (i + 1))
        encodeLoop fuel (i + 1) (len + 1) (extra + 1) (Function.update buf (i + 1) tmp)
      else encodeLoop fuel (i + 1) len extra buf
    else (buf, len, extra)

def encode7d7e (buf : Mem) (len extra : ℕ) : Mem × ℕ × ℕ := encodeLoop (2 * len) 0 len extra buf

/-- `translate_packet` of `adc_calibration.c`; the size of the result is `translated_size` -/
def translatePacket (src : List UInt8) : List UInt8 :=
  (0x7E :: src.flatMap fun b =>
    if b = 0x7E then [0x7D, 0x5E] else if b = 0x7D then [0x7D, 0x5D] else [b]) ++ [0x7E]

/-! ## The encoder -/

theorem stuffByte_escapes {b : UInt8} (h : Escapes b) : stuffByte b = [0x7D, b ^^^ 0x20] := by
  rcases h with rfl | rfl <;> rfl

theorem stuffByte_plain {b : UInt8} (h : ¬ Escapes b) : stuffByte b = [b] := by
  unfold Escapes at h
  unfold stuffByte
  rw [if_neg (mt Or.inr h), if_neg (mt Or.inl h)]

/-- the second half of an escape is not escaped again -/
theorem not_escapes_half {b : UInt8} (h : Escapes b) : ¬ Escapes (b ^^^ 0x20) := by
  rcases h with rfl | rfl <;> decide

/-- what the loop leaves from i on, with n bytes to go: the bytes escaped, and nothing changed before or behind them -/
structure Encoded (i n extra : ℕ) (buf : Mem) (r : Mem × ℕ × ℕ) : Prop where
  bytes : cells r.1 i (stuff (cells buf i n)).length = stuff (cells buf i n)
  len : r.2.1 = i + (stuff (cells buf i n)).length
  extra : r.2.2 = extra + (cells buf i n).countP (fun b => b = 0x7D ∨ b = 0x7E)
  before : ∀ j < i, r.1 j = buf j

/-- the buffer with the escape put in at i, before the n bytes behind it -/
def putEscape (buf : Mem) (i n : ℕ) : Mem :=
  Function.update (shiftUp (Function.update buf i 0x7D) (i + 1) n) (i + 1) (buf i ^^^ 0x20)

section

variable (buf : Mem) (i n : ℕ)

theorem putEscape_first : putEscape buf i n i = 0x7D := by
  rw [putEscape, Function.update_of_ne (by omega), shiftUp, if_neg (by omega), Function.update_self]

theorem putEscape_second : putEscape buf i n (i + 1) = buf i ^^^ 0x20 := Function.update_self ..

theorem putEscape_behind : cells (putEscape buf i n) (i + 2) n = cells buf (i + 1) n := by
  apply cells_congr
  intro k hk
  rw [putEscape, Function.update_of_ne (by omega), shiftUp, if_pos (by omega), Function.update_of_ne (by omega)]
  congr 1
  omega

theorem putEscape_before {j : ℕ} (hj : j < i) : putEscape buf i n j = buf j := by
  rw [putEscape, Function.update_of_ne (by omega), shiftUp, if_neg (by omega), Function.update_of_ne (by omega)]

end

theorem encoded_loop (n : ℕ) : ∀ (fuel i extra : ℕ) (buf : Mem), 2 * n ≤ fuel →
    Encoded i n extra buf (encodeLoop fuel i (i + n) extra buf) := by
  induction n with
  | zero =>
    intro fuel i extra buf _
    have hstop : encodeLoop fuel i (i + 0) extra buf = (buf, i, extra) := by
      cases fuel with
      | zero => rfl
      | succ fuel => rw [encodeLoop, if_neg (by omega), Nat.add_zero]
    rw [hstop]
    exact ⟨rfl, rfl, rfl, fun j _ => rfl⟩
  | succ n ih =>
    intro fuel i extra buf hfuel
    obtain ⟨fuel, rfl⟩ : ∃ k, fuel = k + 2 := ⟨fuel - 2, by omega⟩
    have hin : i < i + (n + 1) := by omega
    by_cases hb : Escapes (buf i)
    · -- two passes: the escape is put in, and its second half is passed over
      have hnext : ¬ Escapes (putEscape buf i n (i + 1)) := by
        rw [putEscape_second]
        exact not_escapes_half hb
      have hrun : encodeLoop (fuel + 2) i (i + (n + 1)) extra buf =
          encodeLoop fuel (i + 2) (i + 2 + n) (extra + 1) (putEscape buf i n) := by
        have hlen : i + (n + 1) + 1 = i + 2 + n := by omega
        have hcount : i + (n + 1) - (i + 1) = n := by omega
        rw [encodeLoop, if_pos hin, if_pos hb]
        dsimp only
        rw [hcount, ← putEscape, encodeLoop, if_pos (by omega), if_neg hnext, hlen]
      have h := ih fuel (i + 2) (extra + 1) (putEscape buf i n) (by omega)
      rw [hrun]
      have hstuff : stuff (cells buf i (n + 1)) = 0x7D :: (buf i ^^^ 0x20) :: stuff (cells buf (i + 1) n) := by
        rw [cells_succ, stuff_cons, stuffByte_escapes hb]
        rfl
      have hat0 := h.before i (by omega)
      have hat1 := h.before (i + 1) (by omega)
      have hbytes := h.bytes
      have hlen := h.len
      have hextra := h.extra
      rw [putEscape_behind] at hbytes hlen hextra
      rw [putEscape_first] at hat0
      rw [putEscape_second] at hat1
      refine ⟨?_, ?_, ?_, fun j hj => ?_⟩
      · rw [hstuff, List.length_cons, List.length_cons, cells_succ, cells_succ, hat0, hat1]
        exact congrArg (fun l => 0x7D :: (buf i ^^^ 0x20) :: l) hbytes
      · rw [hlen, hstuff, List.length_cons, List.length_cons]
        omega
      · rw [hextra, cells_succ, List.countP_cons_of_pos (by simpa [Escapes] using hb)]
        omega
      · rw [h.before j (by omega), putEscape_before buf i n hj]
    · have hrun : encodeLoop (fuel + 2) i (i + (n + 1)) extra buf =
          encodeLoop (fuel + 1) (i + 1) (i + 1 + n) extra buf := by
        have hlen : i + (n + 1) = i + 1 + n := by omega
        rw [encodeLoop, if_pos hin, if_neg hb, hlen]
      have h := ih (fuel + 1) (i + 1) extra buf (by omega)
      rw [hrun]
      have hstuff : stuff (cells buf i (n + 1)) = buf i :: stuff (cells buf (i + 1) n) := by
        rw [cells_succ, stuff_cons, stuffByte_plain hb]
        rfl
      refine ⟨?_, ?_, ?_, fun j hj => h.before j (by omega)⟩
      · rw [hstuff, List.length_cons, cells_succ, h.before i (by omega), h.bytes]
      · rw [h.len, hstuff, List.length_cons]
        omega
      · rw [h.extra, cells_succ, List.countP_cons_of_neg (by simpa [Escapes] using hb)]

/-- The encoder on a buffer that holds x. -/
theorem encode7d7e_store (m : Mem) (x : List UInt8) (extra : ℕ) :
    cells (encode7d7e (store m 0 x) x.length extra).1 0 (stuff x).length = stuff x ∧
      (encode7d7e (store m 0 x) x.length extra).2.1 = (stuff x).length ∧
        (encode7d7e (store m 0 x) x.length extra).2.2 = extra + x.countP (fun b => b = 0x7D ∨ b = 0x7E) := by
  have h := encoded_loop x.length (2 * x.length) 0 extra (store m 0 x) le_rfl
  have hx : cells (store m 0 x) 0 x.length = x := cells_store_self m 0 x
  have hloop : encodeLoop (2 * x.length) 0 (0 + x.length) extra (store m 0 x) = encode7d7e (store m 0 x) x.length extra := by
    rw [Nat.zero_add, encode7d7e]
  obtain ⟨hbytes, hlen, hextra, -⟩ := h
  rw [hloop, hx] at hbytes hlen hextra
  rw [Nat.zero_add] at hlen
  exact ⟨hbytes, hlen, hextra⟩

/-! ## The decoders on what the encoders make -/

theorem unescape_stuff_end (q : UInt8) (p : List UInt8) : unescape q (stuff p) = p := by
  induction p with
  | nil => rfl
  | cons b p ih => rw [stuff_cons, unescape_stuffByte, ih]

/-- **The codec of eng_diag.** A byte string of any length is encoded in place into a string without 0x7E, longer by the
number of its 0x7D and 0x7E, which is also added to `*extra_len`; decoded in place, the buffer begins with the string. -/
theorem codec_round_trip (m : Mem) (x : List UInt8) (extra : ℕ) :
    let r := encode7d7e (store m 0 x) x.length extra
    0x7E ∉ cells r.1 0 r.2.1 ∧ r.2.1 = x.length + x.countP (fun b => b = 0x7D ∨ b = 0x7E) ∧
      r.2.2 = extra + x.countP (fun b => b = 0x7D ∨ b = 0x7E) ∧
        cells (decode7d7e r.2.1 0 r.1) 0 x.length = x := by
  obtain ⟨hbytes, hlen, hextra⟩ := encode7d7e_store m x extra
  dsimp only
  generalize encode7d7e (store m 0 x) x.length extra = r at hbytes hlen hextra
  have hgrow : (stuff x).length = x.length + x.countP (fun b => b = 0x7D ∨ b = 0x7E) := length_stuff x
  refine ⟨?_, hlen.trans hgrow, hextra, ?_⟩
  · rw [hlen, hbytes]
    exact flag_not_mem_stuff x
  · have hdec := cells_decode7d7e (stuff x).length 0 r.1
    have hsplit : (stuff x).length = x.length + ((stuff x).length - x.length) := by omega
    rw [hbytes, unescape_stuff_end, hsplit, cells_add, ← hsplit] at hdec
    rw [hlen]
    exact (List.append_inj hdec (length_cells ..)).1

theorem translatePacket_eq_frame (x : List UInt8) : translatePacket x = frame x := rfl

/-- what the calibration decoder makes of an escaped string, up to its flag -/
theorem undo_stuff (x rest : List UInt8) : undo (stuff x ++ flag :: rest) = x := by
  induction x with
  | nil => exact undo_flag rest
  | cons b x ih =>
    rw [stuff_cons, List.append_assoc]
    by_cases hb : Escapes b
    · have hhalf : b ^^^ 0x20 ≠ 0x7E := fun h => not_escapes_half hb (Or.inr h)
      have hback : (if b ^^^ 0x20 = 0x5E then (0x7E : UInt8) else 0x7D) = b := by
        rcases hb with rfl | rfl <;> rfl
      rw [stuffByte_escapes hb, List.cons_append, List.cons_append, List.nil_append, undo_esc hhalf, hback, ih]
    · rw [stuffByte_plain hb, List.singleton_append, undo_plain hb, ih]

/-- Inside the packet, between two bytes of it: with a limit of n the first n bytes that are stored are decoded ones. -/
theorem unpackLoop_stuff (n : ℕ) (x : List UInt8) : ∀ (flag' : Bool) (dest : List UInt8),
    ¬ (dest.getLast? = some 0x7D ∧ flag' = false) →
      (unpackLoop n .inside flag' dest (stuff x ++ [flag])).take n = (dest ++ x).take n := by
  induction x with
  | nil =>
    intro flag' dest _
    simp [unpackLoop, flag]
  | cons b x ih =>
    intro flag' dest hready
    have hend : ¬ ((n : ℤ) = -1) := by omega
    -- a run that stops here has n bytes before the one it has just stored
    have hstop : ∀ c : UInt8, (n : ℤ) + 1 ≤ (dest ++ [c]).length →
        (dest ++ [c]).take n = (dest ++ b :: x).take n := by
      intro c hfull
      rw [List.length_append, List.length_singleton] at hfull
      rw [List.take_append_of_le_length (by omega), List.take_append_of_le_length (by omega)]
    rw [stuff_cons, List.append_assoc]
    by_cases hb : Escapes b
    · have hf : (0x7D : UInt8) ≠ 0x7E := by decide
      have hhalf : b ^^^ 0x20 ≠ 0x7E := fun h => not_escapes_half hb (Or.inr h)
      rw [stuffByte_escapes hb, List.cons_append, List.cons_append, List.nil_append, unpackLoop, if_neg hf, if_neg hready]
      dsimp only
      split_ifs with hfull
      · exact hstop 0x7D hfull.1
      · have hroom : ¬ ((n : ℤ) + 1 ≤ (dest ++ [b]).length ∧ (n : ℤ) ≠ -1) := by
          simpa using hfull
        have hback : (if b ^^^ 0x20 = 0x5E then (dest ++ [(0x7D : UInt8)]).dropLast ++ [0x7E]
            else if b ^^^ 0x20 = 0x5D then (dest ++ [0x7D]).dropLast ++ [0x7D] else dest ++ [0x7D]) = dest ++ [b] := by
          rcases hb with rfl | rfl
          · have h5e : ¬ (0x7D ^^^ 0x20 : UInt8) = 0x5E := by decide
            have h5d : (0x7D ^^^ 0x20 : UInt8) = 0x5D := by decide
            rw [if_neg h5e, if_pos h5d, List.dropLast_concat]
          · have h5e : (0x7E ^^^ 0x20 : UInt8) = 0x5E := by decide
            rw [if_pos h5e, List.dropLast_concat]
        rw [unpackLoop, if_neg hhalf, if_pos ⟨by simp, rfl⟩]
        dsimp only
        rw [hback, if_neg hroom, ih true (dest ++ [b]) (by simp), List.append_assoc]
        rfl
    · have hf : b ≠ 0x7E := fun h => hb (Or.inr h)
      rw [stuffByte_plain hb, List.singleton_append, unpackLoop, if_neg hf, if_neg hready]
      dsimp only
      split_ifs with hfull
      · exact hstop b hfull.1
      · have hlast : ¬ ((dest ++ [b]).getLast? = some 0x7D ∧ false = false) := by
          simpa using fun h => hb (Or.inl h)
        rw [ih false (dest ++ [b]) hlast, List.append_assoc]
        rfl

/-- an escaped string that is not empty does not begin with a flag -/
theorem stuff_head {x : List UInt8} (h : x ≠ []) : ∃ c l, stuff x = c :: l ∧ c ≠ 0x7E := by
  obtain ⟨b, x, rfl⟩ := List.exists_cons_of_ne_nil h
  rw [stuff_cons]
  by_cases hb : Escapes b
  · rw [stuffByte_escapes hb]
    exact ⟨0x7D, _, rfl, by decide⟩
  · rw [stuffByte_plain hb]
    exact ⟨b, _, rfl, fun hf => hb (Or.inr hf)⟩

/-- **The codec of the calibration path.** Without a limit the decoder gives the packet; with a limit of n the bytes in
`dest` begin with its first n bytes. -/
theorem unpack_round_trip (x : List UInt8) : untranslatePacketHeader (translatePacket x) (-1) = x ∧
    ∀ n : ℕ, (untranslatePacketHeader (translatePacket x) n).take n = x.take n := by
  rw [translatePacket_eq_frame]
  have hframe : frame x = 0x7E :: (stuff x ++ [flag]) := rfl
  by_cases hx : x = []
  · subst hx
    exact ⟨rfl, fun n => by simp [frame, flag, untranslatePacketHeader, unpackLoop]⟩
  · obtain ⟨c, l, hstuff, hc⟩ := stuff_head hx
    constructor
    · have hdrop : (stuff x ++ [flag]).dropWhile (· = 0x7E) = stuff x ++ [flag] := by
        rw [hstuff, List.cons_append, List.dropWhile_cons_of_neg (by simpa using hc)]
      rw [hframe, untranslatePacketHeader_all, hdrop, undo_stuff]
    · intro n
      cases n with
      | zero => rfl
      | succ n =>
        -- the first byte is stored without a look at the limit, which one byte does not reach
        have hroom : ¬ (((n + 1 : ℕ) : ℤ) + 1 ≤ (([] : List UInt8) ++ [c]).length ∧ ((n + 1 : ℕ) : ℤ) ≠ -1) := by
          rw [List.nil_append, List.length_singleton]
          omega
        have hnone : ¬ ((([] : List UInt8).getLast? = some 0x7D) ∧ false = false) := by simp
        have hopen : untranslatePacketHeader (frame x) (n + 1 : ℕ) =
            unpackLoop (n + 1 : ℕ) .inside false [] (stuff x ++ [flag]) := by
          rw [hframe, hstuff, untranslatePacketHeader, unpackLoop, if_pos rfl, List.cons_append, unpackLoop, if_pos hc,
            unpackLoop, if_neg hc, if_neg hnone]
          dsimp only
          rw [if_neg hroom]
        rw [hopen, unpackLoop_stuff (n + 1) x false [] hnone, List.nil_append]

end SprdDevice.EngMode
