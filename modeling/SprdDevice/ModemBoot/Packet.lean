/-
The UART framing of the modem boot loader (`packet.c`): `translate_packet` and `untranslate_packet`.

`dest` is the list of the bytes stored so far, so `translated_size` is its length and `dest[translated_size-1]` its last
byte. Unlike its sibling in the ADC calibration code, this decoder keeps no note of an open escape: it takes the last
byte it has put out for one, also when that byte is itself decoded.

At the closing flag the decoder computes a CRC over `translated_size - 2` bytes of `dest` and drops it. The length of
`crc_16_l_calc` is unsigned, so a packet of a single byte asks for 2^32 - 1 bytes; `cap` is the size of the buffer `dest`
points to, and a read that leaves it is the result `none`.

Results: `untranslatePacket_translate` (what the decoder makes of any packet) and `untranslatePacket_translate_iff` (the
packets that come back).
-/
import Mathlib.Tactic
import SprdDevice.Lib.Escape

namespace SprdDevice.ModemBoot

open SprdDevice.Escape

/-! ## Model -/

/-- the frame of the bytes of `src`; the size of the result is `translated_size` -/
def translatePacket (src : List UInt8) : List UInt8 :=
  (0x7E :: src.flatMap fun b =>
    if b = 0x7E then [0x7D, 0x5E] else if b = 0x7D then [0x7D, 0x5D] else [b]) ++ [0x7E]

/-- `status`: 0 before the opening flag, 1 on flags, 2 inside the packet -/
inductive Status where
  | outside
  | opened
  | inside
deriving DecidableEq, Repr

/-- the length `translated_size - 2` as `crc_16_l_calc` receives it -/
def crcLen (translatedSize : ℕ) : ℕ := (translatedSize + 2 ^ 32 - 2) % 2 ^ 32

/-- the closing flag: the CRC of the packet is computed, and the packet returned -/
def closePacket (cap : ℕ) (dest : List UInt8) : Option (List UInt8) :=
  if crcLen dest.length ≤ cap then some dest else none

/-- the loop of `untranslate_packet` over what is left of `src` -/
def untranslateLoop (cap : ℕ) : Status → List UInt8 → List UInt8 → Option (List UInt8)
  | _, dest, [] => some dest
  | .outside, dest, c :: src => untranslateLoop cap (if c = 0x7E then .opened else .outside) dest src
  | .opened, dest, c :: src =>
    if c ≠ 0x7E then untranslateLoop cap .inside (dest ++ [c]) src else untranslateLoop cap .opened dest src
  | .inside, dest, c :: src =>
    if c = 0x7E then closePacket cap dest
    else if dest.getLast? = some 0x7D then
      if c = 0x5E then untranslateLoop cap .inside (dest.dropLast ++ [0x7E]) src
      else if c = 0x5D then untranslateLoop cap .inside (dest.dropLast ++ [0x7D]) src
      else untranslateLoop cap .inside dest src
    else untranslateLoop cap .inside (dest ++ [c]) src

/-- the bytes left in `dest`, or `none` when the CRC is read past its end -/
def untranslatePacket (cap : ℕ) (src : List UInt8) : Option (List UInt8) := untranslateLoop cap .outside [] src

/-! ## What one byte of the packet does to the decoder -/

/-- `dest` after the bytes one byte `b` of the packet was sent as -/
def absorb (dest : List UInt8) (b : UInt8) : List UInt8 :=
  if dest.getLast? = some 0x7D then if b = 0x5E ∨ b = 0x7E then dest.dropLast ++ [0x7E] else dest
  else dest ++ [b]

theorem translatePacket_eq (x : List UInt8) : translatePacket x = frame x := rfl

theorem dropLast_append_of_getLast? {dest : List UInt8} {a : UInt8} (h : dest.getLast? = some a) :
    dest.dropLast ++ [a] = dest := by
  obtain ⟨init, rfl⟩ := List.getLast?_eq_some_iff.mp h
  simp

/-- One byte of the packet, inside it. -/
theorem untranslateLoop_stuffByte (cap : ℕ) (dest : List UInt8) (b : UInt8) (rest : List UInt8) :
    untranslateLoop cap .inside dest (stuffByte b ++ rest) = untranslateLoop cap .inside (absorb dest b) rest := by
  unfold stuffByte absorb
  by_cases hlast : dest.getLast? = some 0x7D
  · -- the last byte put out is a 0x7D: what comes next is taken for the second half of an escape
    split_ifs with hf he h5e h5e <;> simp_all [untranslateLoop, dropLast_append_of_getLast?]
  · split_ifs with hf he <;> simp_all [untranslateLoop]

/-- The first byte of the packet. -/
theorem untranslateLoop_stuffByte_opened (cap : ℕ) (b : UInt8) (rest : List UInt8) :
    untranslateLoop cap .opened [] (stuffByte b ++ rest) = untranslateLoop cap .inside (absorb [] b) rest := by
  unfold stuffByte absorb
  split_ifs with hf he <;> simp_all [untranslateLoop]

theorem untranslateLoop_stuff (cap : ℕ) (x : List UInt8) (dest : List UInt8) :
    untranslateLoop cap .inside dest (stuff x ++ [flag]) = closePacket cap (x.foldl absorb dest) := by
  induction x generalizing dest with
  | nil => simp [untranslateLoop, flag]
  | cons b x ih =>
    rw [stuff_cons, List.append_assoc, untranslateLoop_stuffByte, ih]
    rfl

/-- What the decoder makes of a packet: the empty packet never leaves `opened`, any other is closed by its flag. -/
theorem untranslatePacket_translate (cap : ℕ) (x : List UInt8) :
    untranslatePacket cap (translatePacket x) =
      if x = [] then some [] else closePacket cap (x.foldl absorb []) := by
  have hopen : untranslatePacket cap (translatePacket x) = untranslateLoop cap .opened [] (stuff x ++ [flag]) := by
    rw [translatePacket_eq]
    simp [untranslatePacket, frame, untranslateLoop, flag]
  rw [hopen]
  cases x with
  | nil => simp [untranslateLoop, flag]
  | cons b x =>
    rw [stuff_cons, List.append_assoc, untranslateLoop_stuffByte_opened, untranslateLoop_stuff]
    simp

/-! ## When the packet comes back -/

theorem length_absorb_le (dest : List UInt8) (b : UInt8) : (absorb dest b).length ≤ dest.length + 1 := by
  unfold absorb
  split_ifs with hlast hb <;> simp

/-- A byte that meets a 0x7D in `dest` is not added. -/
theorem length_absorb_esc {dest : List UInt8} (h : dest.getLast? = some 0x7D) (b : UInt8) :
    (absorb dest b).length = dest.length := by
  have hlen : (dest.dropLast ++ [0x7E]).length = (dest.dropLast ++ [(0x7D : UInt8)]).length := by simp
  rw [dropLast_append_of_getLast? h] at hlen
  unfold absorb
  split_ifs
  · exact hlen
  · rfl

theorem length_foldl_absorb_le (x dest : List UInt8) : (x.foldl absorb dest).length ≤ dest.length + x.length := by
  induction x generalizing dest with
  | nil => simp
  | cons b x ih =>
    calc ((b :: x).foldl absorb dest).length ≤ (absorb dest b).length + x.length := ih (absorb dest b)
      _ ≤ (dest.length + 1) + x.length := by gcongr; exact length_absorb_le dest b
      _ = dest.length + (b :: x).length := by simp only [List.length_cons]; omega

/-- Without a 0x7D before its last byte a packet is decoded byte by byte. -/
theorem foldl_absorb_eq (x : List UInt8) (h : 0x7D ∉ x.dropLast) : x.foldl absorb [] = x := by
  induction x using List.reverseRecOn with
  | nil => rfl
  | append_singleton x b ih =>
    rw [List.dropLast_concat] at h
    have hx : x.foldl absorb [] = x := ih fun hmem => h (List.mem_of_mem_dropLast hmem)
    have hlast : x.getLast? ≠ some 0x7D := fun hl => h (List.mem_of_getLast? hl)
    rw [List.foldl_append, hx]
    simp [absorb, hlast]

/-- A 0x7D with a byte after it costs at least that byte. -/
theorem length_foldl_absorb_lt (x : List UInt8) (h : 0x7D ∈ x.dropLast) : (x.foldl absorb []).length < x.length := by
  -- split at the first 0x7D: up to it the packet is decoded as it is, and the byte after it is not added
  obtain ⟨pre, mid, hsplit, hpre⟩ := List.eq_append_cons_of_mem h
  have hne : x ≠ [] := by
    intro hx
    simp [hx] at h
  obtain ⟨b, post, hpost⟩ := List.exists_cons_of_ne_nil (l := mid ++ [x.getLast hne]) (by simp)
  have hx : x = pre ++ [0x7D] ++ b :: post := by
    calc x = x.dropLast ++ [x.getLast hne] := (List.dropLast_append_getLast hne).symm
      _ = pre ++ [0x7D] ++ (mid ++ [x.getLast hne]) := by rw [hsplit]; simp
      _ = pre ++ [0x7D] ++ b :: post := by rw [hpost]
  have hdec : (pre ++ [0x7D]).foldl absorb [] = pre ++ [0x7D] := by
    apply foldl_absorb_eq
    rwa [List.dropLast_concat]
  have hlen : x.length = (pre ++ [0x7D]).length + (post.length + 1) := by
    rw [hx, List.length_append, List.length_cons]
  calc (x.foldl absorb []).length
      = (post.foldl absorb (absorb (pre ++ [0x7D]) b)).length := by
        rw [hx, List.foldl_append, hdec, List.foldl_cons]
    _ ≤ (absorb (pre ++ [0x7D]) b).length + post.length := length_foldl_absorb_le post _
    _ = (pre ++ [0x7D]).length + post.length := by rw [length_absorb_esc (by simp)]
    _ < x.length := by omega

theorem foldl_absorb_iff (x : List UInt8) : x.foldl absorb [] = x ↔ 0x7D ∉ x.dropLast := by
  refine ⟨fun heq hmem => ?_, foldl_absorb_eq x⟩
  have hlt := length_foldl_absorb_lt x hmem
  rw [heq] at hlt
  exact lt_irrefl _ hlt

theorem foldl_absorb_ne_nil (x : List UInt8) (hx : x ≠ []) : x.foldl absorb [] ≠ [] := by
  induction x using List.reverseRecOn with
  | nil => exact absurd rfl hx
  | append_singleton x b ih =>
    rw [List.foldl_append, List.foldl_cons, List.foldl_nil]
    unfold absorb
    split_ifs with hlast hb
    · simp
    · intro hnil
      rw [hnil] at hlast
      simp at hlast
    · simp

/-- the length the CRC is asked for stays inside the packet, but for a packet of one byte -/
theorem crcLen_le_iff {n cap : ℕ} (hpos : 0 < n) (hn : n ≤ cap) (hcap : cap < 2 ^ 32 - 1) : crcLen n ≤ cap ↔ n ≠ 1 := by
  unfold crcLen
  constructor
  · rintro hle rfl
    norm_num at hle
    omega
  · intro h1
    have hwrap : n + 2 ^ 32 - 2 = (n - 2) + 2 ^ 32 := by omega
    rw [hwrap, Nat.add_mod_right, Nat.mod_eq_of_lt (by omega)]
    omega

/-- **Framing round trip.** With room for the packet in `dest`, decoding the frame of `x` returns `x` exactly when no
0x7D stands before its last byte and the packet is not a single byte. -/
theorem untranslatePacket_translate_iff (cap : ℕ) (x : List UInt8) (hfit : x.length ≤ cap) (hcap : cap < 2 ^ 32 - 1) :
    untranslatePacket cap (translatePacket x) = some x ↔ 0x7D ∉ x.dropLast ∧ x.length ≠ 1 := by
  rw [untranslatePacket_translate]
  by_cases hx : x = []
  · simp [hx]
  rw [if_neg hx]
  unfold closePacket
  have hlen : (x.foldl absorb []).length ≤ x.length := by simpa using length_foldl_absorb_le x []
  have hpos : 0 < (x.foldl absorb []).length := List.length_pos_iff.mpr (foldl_absorb_ne_nil x hx)
  have hcrc := crcLen_le_iff hpos (hlen.trans hfit) hcap
  constructor
  · intro h
    split_ifs at h with hle
    have heq : x.foldl absorb [] = x := Option.some.inj h
    rw [heq] at hle hcrc
    exact ⟨(foldl_absorb_iff x).mp heq, hcrc.mp hle⟩
  · rintro ⟨hesc, h1⟩
    have heq := (foldl_absorb_iff x).mpr hesc
    rw [heq] at hcrc ⊢
    rw [if_pos (hcrc.mpr h1)]

/-- the send buffer of the loader has 4000 bytes; an acknowledgement comes back -/
theorem untranslatePacket_translate_iff_ack :
    untranslatePacket 4000 (translatePacket [0x00, 0x80, 0x7E, 0x7D]) = some [0x00, 0x80, 0x7E, 0x7D] ↔
      0x7D ∉ [(0x00 : UInt8), 0x80, 0x7E, 0x7D].dropLast ∧ [(0x00 : UInt8), 0x80, 0x7E, 0x7D].length ≠ 1 :=
  untranslatePacket_translate_iff 4000 [0x00, 0x80, 0x7E, 0x7D] (by decide) (by decide)

/-- a 0x7D swallows the byte after it -/
theorem untranslatePacket_translate_swallows :
    untranslatePacket 4000 (translatePacket [0x00, 0x7D, 0x01, 0x02]) = some [0x00, 0x7D] ∧
      untranslatePacket 4000 (translatePacket [0x00, 0x7D, 0x01, 0x02]) ≠ some [0x00, 0x7D, 0x01, 0x02] := by
  decide

end SprdDevice.ModemBoot
