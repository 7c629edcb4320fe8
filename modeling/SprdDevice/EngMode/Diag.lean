/-
The command parser of the engineering mode (`eng_diag.c`): `eng_diag_decode7d7e` and `eng_diag_parse`.

A buffer is a memory of bytes, as the functions see it: the decoder works in place and reads one byte behind the length
it is given. A byte after 0x7D or 0x7E is taken for an escaped one, the bytes behind it move down by one, and the byte
behind the buffer moves in at the end. The block copy of the source overlaps itself; it is the forward copy.

The parser decodes the frame from its second byte on and looks at the header it finds there. An AT command is judged by
`is_audio_at_cmd_need_to_handle` and `is_ap_at_cmd_need_to_handle`, which go by the state of the audio tuning and by
tables of their own: both are part of the environment. The first of them cuts tokens in the buffer, so it returns it.

Results: `cells_decode7d7e` (the decoder against the list function `unescape`), `unescape_stuff` (on an escaped payload
it gives the payload, then one byte too many) and the frame rules of both functions.
-/
import Mathlib.Tactic
import SprdDevice.Lib.Escape
import SprdDevice.Lib.Memory

namespace SprdDevice.EngMode

open SprdDevice.Escape SprdDevice.Memory

/-- a buffer, from its first byte on -/
abbrev Mem := ℕ → UInt8

/-! ## Model -/

/-- the bytes the decoder takes for the first half of an escape -/
def Escapes (b : UInt8) : Prop := b = 0x7D ∨ b = 0x7E

instance decidableEscapes (b : UInt8) : Decidable (Escapes b) := inferInstanceAs (Decidable (b = 0x7D ∨ b = 0x7E))

/-- `eng_diag_decode7d7e` at index i, with n = len - i bytes to go -/
def decode7d7e : ℕ → ℕ → Mem → Mem
  | 0, _, buf => buf
  | 1, i, buf => if Escapes (buf i) then Function.update buf i (buf (i + 1) ^^^ 0x20) else buf
  | n + 2, i, buf =>
    if Escapes (buf i) then
      -- both i and len move: the byte that moved down to i + 1 is the next one looked at
      decode7d7e n (i + 1) (shiftDown (Function.update buf i (buf (i + 1) ^^^ 0x20)) (i + 1) (n + 1))
    else decode7d7e (n + 1) (i + 1) buf

/-- `DIAG_CMD_TYPE` -/
inductive Cmd where
  | common
  | userVer
  | userBtwifi
  | userFactorymode
  | userAudio
  | userReset
  | userGetvoltage
  | userApcali
  | userApcmd
  | userAdc
  | userProductCtrl
  | userDirectPhschk
  | userMmicitRead
  | invalid
deriving DecidableEq, Repr

/-- what one turn finds around the collecting buffer -/
structure Env where
  /-- the byte behind the 8192 bytes of `ext_data_buf` -/
  past : UInt8
  /-- `is_audio_at_cmd_need_to_handle`, with the buffer as it leaves it -/
  audioAt : Mem → ℕ → Bool × Mem
  /-- `is_ap_at_cmd_need_to_handle` -/
  apAt : Mem → ℕ → Bool

/-- the switch of `eng_diag_parse` on the header, but for AT commands -/
def headCmd (type subtype : UInt8) : Cmd :=
  if type = 0x0C then if subtype = 8 then .userReset else .common
  else if type = 0x0D then
    if subtype = 0x07 then .userFactorymode
    else if 0x2 ≤ subtype ∧ subtype ≤ 0x4 then .userProductCtrl
    else if subtype = 0x1A then .userMmicitRead
    else .common
  else if type = 0x5F then .userDirectPhschk
  else if type = 0x0F then .userAdc
  else if type = 0x1E then .userGetvoltage
  else if type = 0x62 then .userApcali
  else if type = 0x00 then if subtype = 0x2 then .userVer else .common
  else .common

/-- the type of the command in the first `len` bytes of `buf`, and the buffer afterwards; the header starts at
buf + 1, its type is byte 6 and its subtype byte 7 -/
def engDiagParse (env : Env) (buf : Mem) (len : ℕ) : Cmd × Mem :=
  let mem := decode7d7e (len - 1) 1 buf
  if mem 7 = 0x68 then
    match env.audioAt mem len with
    | (true, mem') => (.userAudio, mem')
    | (false, mem') => (if env.apAt mem' len then .userApcmd else .common, mem')
  else (headCmd (mem 7) (mem 8), mem)

/-! ## The decoder on lists -/

/-- what the decoder makes of a byte string, with q the byte behind it -/
def unescape (q : UInt8) : List UInt8 → List UInt8
  | [] => []
  | [b] => if Escapes b then [q ^^^ 0x20] else [b]
  | b :: c :: l => if Escapes b then (c ^^^ 0x20) :: unescape q l else b :: unescape q (c :: l)

theorem unescape_plain (q : UInt8) {b : UInt8} (h : ¬ Escapes b) (l : List UInt8) :
    unescape q (b :: l) = b :: unescape q l := by
  cases l with
  | nil => simp [unescape, h]
  | cons c l => simp [unescape, h]

theorem unescape_pair (q : UInt8) {b : UInt8} (h : Escapes b) (c : UInt8) (l : List UInt8) :
    unescape q (b :: c :: l) = (c ^^^ 0x20) :: unescape q l := by
  simp [unescape, h]

theorem length_unescape_le (q : UInt8) (l : List UInt8) : (unescape q l).length ≤ l.length := by
  fun_induction unescape q l with
  | case1 => simp
  | case2 => simp
  | case3 => simp
  | case4 b c l hb ih => simp only [List.length_cons]; omega
  | case5 b c l hb ih => simp only [List.length_cons] at ih ⊢; omega

theorem unescape_stuffByte (q b : UInt8) (l : List UInt8) : unescape q (stuffByte b ++ l) = b :: unescape q l := by
  unfold stuffByte
  split_ifs with hf he
  · subst hf
    exact unescape_pair q (Or.inl rfl) 0x5E l
  · subst he
    exact unescape_pair q (Or.inl rfl) 0x5D l
  · have hplain : ¬ Escapes b := by
      rintro (h | h)
      · exact he h
      · exact hf h
    exact unescape_plain q hplain l

/-- On an escaped payload with its closing flag the decoder gives the payload, and takes the flag for one more escape. -/
theorem unescape_stuff (q : UInt8) (p : List UInt8) : unescape q (stuff p ++ [flag]) = p ++ [q ^^^ 0x20] := by
  induction p with
  | nil => simp [unescape, Escapes, flag]
  | cons b p ih => rw [stuff_cons, List.append_assoc, unescape_stuffByte, ih, List.cons_append]

/-! ## The decoder in the buffer -/

/-- the decoder writes inside its length only -/
theorem decode7d7e_outside (n i : ℕ) (buf : Mem) {j : ℕ} (h : j < i ∨ i + n ≤ j) : decode7d7e n i buf j = buf j := by
  fun_induction decode7d7e n i buf with
  | case1 => rfl
  | case2 i buf hb =>
    apply Function.update_of_ne
    omega
  | case3 => rfl
  | case4 n i buf hb ih =>
    rw [ih (by omega), shiftDown, if_neg (by omega), Function.update_of_ne (by omega)]
  | case5 n i buf hb ih => exact ih (by omega)

/-- The decoder in place: the decoded bytes, then the byte behind the buffer as often as an escape was undone. -/
theorem cells_decode7d7e (n i : ℕ) (buf : Mem) :
    cells (decode7d7e n i buf) i n =
      unescape (buf (i + n)) (cells buf i n) ++
        List.replicate (n - (unescape (buf (i + n)) (cells buf i n)).length) (buf (i + n)) := by
  fun_induction decode7d7e n i buf with
  | case1 => simp [cells, unescape]
  | case2 i buf hb => simp [cells, unescape, hb]
  | case3 i buf hb => simp [cells, unescape, hb]
  | case4 n i buf hb ih =>
    -- the first cell is the escaped byte, the last one the byte behind the buffer; the decoder is at work between them
    set mem := shiftDown (Function.update buf i (buf (i + 1) ^^^ 0x20)) (i + 1) (n + 1) with hmem
    have hfirst : decode7d7e n (i + 1) mem i = buf (i + 1) ^^^ 0x20 := by
      rw [decode7d7e_outside n (i + 1) mem (Or.inl (by omega)), hmem, shiftDown, if_neg (by omega),
        Function.update_self]
    have hlast : mem (i + 1 + n) = buf (i + (n + 2)) := by
      rw [hmem, shiftDown, if_pos (by omega), Function.update_of_ne (by omega)]
      congr 1
      omega
    have hmid : cells mem (i + 1) n = cells buf (i + 1 + 1) n := by
      apply cells_congr
      intro k hk
      rw [hmem, shiftDown, if_pos (by omega), Function.update_of_ne (by omega)]
      congr 1
      omega
    rw [hlast, hmid] at ih
    have hle := length_unescape_le (buf (i + (n + 2))) (cells buf (i + 1 + 1) n)
    rw [length_cells] at hle
    have hend : decode7d7e n (i + 1) mem (i + 1 + n) = buf (i + (n + 2)) := by
      rw [decode7d7e_outside n (i + 1) mem (Or.inr le_rfl), hlast]
    have hrep : n + 2 - (unescape (buf (i + (n + 2))) (cells buf (i + 1 + 1) n)).length.succ =
        (n - (unescape (buf (i + (n + 2))) (cells buf (i + 1 + 1) n)).length) + 1 := by omega
    rw [cells_succ _ i, cells_snoc, ih, hfirst, hend, cells_succ buf i, cells_succ buf (i + 1), unescape_pair _ hb,
      List.length_cons, hrep, List.replicate_succ']
    simp only [List.cons_append, List.append_assoc]
  | case5 n i buf hb ih =>
    have hi : i + 1 + (n + 1) = i + (n + 2) := by omega
    rw [hi] at ih
    have hfirst : decode7d7e (n + 1) (i + 1) buf i = buf i := decode7d7e_outside _ _ _ (Or.inl (by omega))
    rw [cells_succ _ i, ih, hfirst, cells_succ buf i, unescape_plain _ hb, List.length_cons, Nat.succ_sub_succ]
    rfl

/-- A frame decoded where it lies: the payload, the byte that took the place of the closing flag, and then the byte behind
the frame as often as an escape was undone. -/
theorem cells_decode_frame {mem : Mem} {p : List UInt8} (h : cells mem 0 (frame p).length = frame p) :
    cells (decode7d7e ((frame p).length - 1) 1 mem) 0 (frame p).length =
      0x7E :: (p ++ (mem (frame p).length ^^^ 0x20) ::
        List.replicate ((frame p).length - 2 - p.length) (mem (frame p).length)) := by
  have hlen := length_frame p
  have hle := length_le_stuff p
  have hsplit : (frame p).length = ((frame p).length - 1) + 1 := by omega
  have hend : 1 + ((frame p).length - 1) = (frame p).length := by omega
  rw [hsplit, cells_succ, Nat.zero_add] at h
  obtain ⟨hflag, htail⟩ := List.cons.inj h
  replace htail : cells mem 1 ((frame p).length - 1) = stuff p ++ [flag] := htail
  have hfirst : decode7d7e ((frame p).length - 1) 1 mem 0 = 0x7E := by
    rw [decode7d7e_outside _ 1 _ (Or.inl (by omega)), hflag]
    rfl
  have hdec := cells_decode7d7e ((frame p).length - 1) 1 mem
  have hcount : (frame p).length - 1 - (p ++ [mem (frame p).length ^^^ 0x20]).length = (frame p).length - 2 - p.length := by
    rw [List.length_append, List.length_singleton]
    omega
  rw [htail, hend, unescape_stuff, hcount, List.append_assoc, List.singleton_append] at hdec
  generalize decode7d7e ((frame p).length - 1) 1 mem = decoded at hfirst hdec ⊢
  calc cells decoded 0 (frame p).length = decoded 0 :: cells decoded 1 ((frame p).length - 1) := by
        rw [← cells_succ, ← hsplit]
    _ = _ := by rw [hfirst, hdec]

/-- without an escape in it the buffer stays as it is -/
theorem decode7d7e_clean (n i : ℕ) (buf : Mem) (h : ∀ j, i ≤ j → j < i + n → ¬ Escapes (buf j)) :
    decode7d7e n i buf = buf := by
  fun_induction decode7d7e n i buf with
  | case1 => rfl
  | case2 i buf hb => exact absurd hb (h i le_rfl (by omega))
  | case3 => rfl
  | case4 n i buf hb ih => exact absurd hb (h i le_rfl (by omega))
  | case5 n i buf hb ih => exact ih fun j h1 h2 => h j (by omega) (by omega)

/-- a buffer without an escape in it is judged by its header as it came -/
theorem engDiagParse_clean (env : Env) {buf : Mem} {len : ℕ} (h : ∀ j, 1 ≤ j → j < len → ¬ Escapes (buf j))
    (hat : buf 7 ≠ 0x68) : engDiagParse env buf len = (headCmd (buf 7) (buf 8), buf) := by
  have hdec : decode7d7e (len - 1) 1 buf = buf := decode7d7e_clean (len - 1) 1 buf fun j h1 h2 => h j h1 (by omega)
  unfold engDiagParse
  dsimp only
  rw [hdec, if_neg hat]

end SprdDevice.EngMode
