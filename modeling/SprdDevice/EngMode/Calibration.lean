/-
The ADC calibration commands (`adc_calibration.c`): `untranslate_packet_header` and `is_adc_calibration`.

A calibration command reaches `is_adc_calibration` in the buffer that `eng_diag_parse` has decoded in place. There the
frame is decoded once more, by a decoder that takes 0x7D for an escape and 0x7E for the end: `undo` is what it makes of
a byte string. It runs twice, first for the header (it stops when it has one byte more than the header) and then, for
the type APCALI, over all of the frame.

What the handler acts on is `dest`, zero behind the bytes stored in it: for APCALI those of the second run, for
GETVOLTAGE those of the first. How many of them it reads depends on the command (`handlerReads`).

Results: `untranslatePacketHeader_all` (the decoder is `undo`), `undo_esc_later` (a 0x7D it puts out was no earlier in
what it read) and `calibration_iff` (the payloads that reach the handler as they were sent).
-/
import Mathlib.Tactic
import SprdDevice.Lib.Escape
import SprdDevice.Lib.Word
import SprdDevice.EngMode.Collector

namespace SprdDevice.EngMode

open SprdDevice.Escape SprdDevice.Memory SprdDevice.Word

/-! ## Model -/

/-- `status`: 0 before the opening flag, 1 on flags, 2 inside the packet -/
inductive UnpackStatus where
  | outside
  | opened
  | inside
deriving DecidableEq, Repr

/-- the loop of `untranslate_packet_header` over what is left of `src`; `dest` is the list of the bytes stored -/
def unpackLoop (unpackSize : ℤ) : UnpackStatus → Bool → List UInt8 → List UInt8 → List UInt8
  | _, _, dest, [] => dest
  | .outside, flag, dest, c :: src => unpackLoop unpackSize (if c = 0x7E then .opened else .outside) flag dest src
  | .opened, flag, dest, c :: src =>
    if c ≠ 0x7E then unpackLoop unpackSize .inside flag (dest ++ [c]) src
    else unpackLoop unpackSize .opened flag dest src
  | .inside, flag, dest, c :: src =>
    if c = 0x7E then dest
    else if dest.getLast? = some 0x7D ∧ flag = false then
      let dest := if c = 0x5E then dest.dropLast ++ [0x7E] else if c = 0x5D then dest.dropLast ++ [0x7D] else dest
      if unpackSize + 1 ≤ dest.length ∧ unpackSize ≠ -1 then dest else unpackLoop unpackSize .inside true dest src
    else
      let dest := dest ++ [c]
      if unpackSize + 1 ≤ dest.length ∧ unpackSize ≠ -1 then dest else unpackLoop unpackSize .inside false dest src

/-- the bytes stored in `dest`; `translated_size` is their number -/
def untranslatePacketHeader (src : List UInt8) (unpackSize : ℤ) : List UInt8 :=
  unpackLoop unpackSize .outside false [] src

/-- the byte i of a `dest` that was cleared before the bytes of d were stored -/
def destByte (d : List UInt8) (i : ℕ) : UInt8 := d.getD i 0

/-- the branches of `is_adc_calibration`: the type it goes by, and the bytes in `dest` when it acts -/
def adcRequest (src : List UInt8) : Option (UInt8 × List UInt8) :=
  let first := untranslatePacketHeader src 8
  if 8 ≤ first.length then
    if destByte first 6 = 0x62 then some (0x62, untranslatePacketHeader src (-1))
    else if destByte first 6 = 0x1E then some (0x1E, first)
    else none
  else none

/-- the return value of `is_adc_calibration` -/
def isAdcCalibration (src : List UInt8) : ℕ :=
  match adcRequest src with
  | none => 0
  | some (type, dest) =>
    if type = 0x62 then
      if destByte dest 8 = 1 ∧ destByte dest 9 = 0 then
        if destByte dest 13 = 0 ∧ destByte dest 14 = 0 ∧ destByte dest 15 = 0 then
          if destByte dest 12 = 0 then 1 else if destByte dest 12 = 1 then 2 else if destByte dest 12 = 2 then 3 else 0
        else 0
      else if destByte dest 8 = 2 ∧ destByte dest 9 = 0 then 5
      else 0
    else 4

/-- what the handler acts on when the frame of p has been handed to `eng_diag` -/
def calibrationRequest (env : Env) (p : List UInt8) : Option (UInt8 × List UInt8) :=
  let parsed := engDiagParse env (extMem env (frame p)) (frame p).length
  if parsed.1 = .userApcali ∨ parsed.1 = .userGetvoltage then adcRequest (cells parsed.2 0 (frame p).length) else none

/-! ## The second decoder on lists -/

/-- what the decoder makes of the bytes inside a packet -/
def undo : List UInt8 → List UInt8
  | [] => []
  | [c] => if c = 0x7E then [] else [c]
  | c :: x :: l =>
    if c = 0x7E then []
    else if c = 0x7D then if x = 0x7E then [0x7D] else (if x = 0x5E then 0x7E else 0x7D) :: undo l
    else c :: undo (x :: l)

theorem undo_plain {c : UInt8} (h : ¬ Escapes c) (l : List UInt8) : undo (c :: l) = c :: undo l := by
  have he : c ≠ 0x7D := fun hc => h (Or.inl hc)
  have hf : c ≠ 0x7E := fun hc => h (Or.inr hc)
  cases l with
  | nil => simp [undo, hf]
  | cons x l => simp [undo, hf, he]

theorem undo_flag (l : List UInt8) : undo (0x7E :: l) = [] := by
  cases l with
  | nil => simp [undo]
  | cons x l => simp [undo]

theorem undo_esc {x : UInt8} (hx : x ≠ 0x7E) (l : List UInt8) :
    undo (0x7D :: x :: l) = (if x = 0x5E then 0x7E else 0x7D) :: undo l := by
  simp [undo, hx]

theorem undo_append_plain {u : List UInt8} (h : ∀ b ∈ u, ¬ Escapes b) (l : List UInt8) : undo (u ++ l) = u ++ undo l := by
  induction u with
  | nil => rfl
  | cons b u ih =>
    obtain ⟨hb, hu⟩ := List.forall_mem_cons.mp h
    rw [List.cons_append, undo_plain hb, ih hu, List.cons_append]

/-- a flag ends the packet: what is put out is no longer than what came before it -/
theorem length_undo_flag_le (l : List UInt8) : ∀ w : List UInt8, (undo (w ++ 0x7E :: l)).length ≤ w.length
  | [] => by simp [undo_flag]
  | [c] => by
    simp only [List.singleton_append, undo, undo_flag]
    split_ifs <;> simp
  | c :: x :: w => by
    have hskip := length_undo_flag_le l w
    have hnext := length_undo_flag_le l (x :: w)
    simp only [List.cons_append, undo, List.length_cons] at hnext ⊢
    split_ifs
    · simp
    · simp
    · simp only [List.length_cons]; omega
    · simp only [List.length_cons]; omega
    · simp only [List.length_cons]; omega

/-- A 0x7D that is put out was read at the same place or later. -/
theorem undo_esc_later (s : List UInt8) (n : ℕ) (h : destByte (undo s) n = 0x7D) : ∃ m, n ≤ m ∧ s[m]? = some 0x7D := by
  induction s using undo.induct generalizing n with
  | case1 => simp [undo, destByte] at h
  | case2 => simp [undo, destByte] at h
  | case3 c hc =>
    cases n with
    | zero =>
      simp [undo, hc, destByte] at h
      exact ⟨0, le_rfl, by simp [h]⟩
    | succ n => simp [undo, hc, destByte] at h
  | case4 x l => simp [undo_flag, destByte] at h
  | case5 l =>
    cases n with
    | zero => exact ⟨0, le_rfl, rfl⟩
    | succ n => simp [undo, destByte] at h
  | case6 x l hx _ ih =>
    cases n with
    | zero => exact ⟨0, le_rfl, rfl⟩
    | succ n =>
      rw [undo_esc hx] at h
      obtain ⟨m, hm, hl⟩ := ih n h
      exact ⟨m + 2, by omega, hl⟩
  | case7 c x l hf he ih =>
    have hplain : ¬ Escapes c := by
      rintro (h | h)
      · exact he h
      · exact hf h
    rw [undo_plain hplain] at h
    cases n with
    | zero => exact absurd h he
    | succ n =>
      obtain ⟨m, hm, hl⟩ := ih n h
      exact ⟨m + 1, by omega, hl⟩

/-! ## The second decoder -/

/-- Inside the packet, without a limit: a 0x7D at the end of `dest` that has not been used up is read with what follows. -/
theorem unpackLoop_inside (src : List UInt8) :
    (∀ dest flag, ¬ (dest.getLast? = some 0x7D ∧ flag = false) →
      unpackLoop (-1) .inside flag dest src = dest ++ undo src) ∧
    ∀ init, unpackLoop (-1) .inside false (init ++ [0x7D]) src = init ++ undo (0x7D :: src) := by
  induction src with
  | nil => exact ⟨fun dest flag _ => by simp [unpackLoop, undo], fun init => by simp [unpackLoop, undo]⟩
  | cons c src ih =>
    obtain ⟨ihplain, ihesc⟩ := ih
    by_cases hf : c = 0x7E
    · subst hf
      exact ⟨fun dest flag _ => by simp [unpackLoop, undo_flag], fun init => by simp [unpackLoop, undo]⟩
    · constructor
      · intro dest flag hplain
        have hpush : unpackLoop (-1) .inside flag dest (c :: src) = unpackLoop (-1) .inside false (dest ++ [c]) src := by
          simp [unpackLoop, hf, hplain]
        rw [hpush]
        by_cases he : c = 0x7D
        · subst he
          exact ihesc dest
        · have hplainc : ¬ Escapes c := by
            rintro (h | h)
            · exact he h
            · exact hf h
          rw [ihplain (dest ++ [c]) false (by simp [he]), undo_plain hplainc]
          simp
      · intro init
        have hswallow : unpackLoop (-1) .inside false (init ++ [0x7D]) (c :: src) =
            unpackLoop (-1) .inside true (init ++ [if c = 0x5E then 0x7E else 0x7D]) src := by
          by_cases h5e : c = 0x5E
          · simp [unpackLoop, h5e]
          · by_cases h5d : c = 0x5D
            · simp [unpackLoop, h5d]
            · simp [unpackLoop, hf, h5e, h5d]
        rw [hswallow, ihplain _ true (by simp), undo_esc hf]
        simp

/-- the flags in front of the packet are skipped -/
theorem unpackLoop_opened (src : List UInt8) :
    unpackLoop (-1) .opened false [] src = undo (src.dropWhile (· = 0x7E)) := by
  induction src with
  | nil => rfl
  | cons c src ih =>
    by_cases hf : c = 0x7E
    · simpa [unpackLoop, hf] using ih
    · have hpush : unpackLoop (-1) .opened false [] (c :: src) = unpackLoop (-1) .inside false [c] src := by
        simp [unpackLoop, hf]
      rw [hpush]
      by_cases he : c = 0x7D
      · subst he
        simpa using (unpackLoop_inside src).2 []
      · have hplainc : ¬ Escapes c := by
          rintro (h | h)
          · exact he h
          · exact hf h
        rw [(unpackLoop_inside src).1 [c] false (by simp [he])]
        simp [hf, undo_plain hplainc]

/-- Without a limit the decoder is `undo` behind the opening flags. -/
theorem untranslatePacketHeader_all (src : List UInt8) :
    untranslatePacketHeader (0x7E :: src) (-1) = undo (src.dropWhile (· = 0x7E)) := by
  rw [← unpackLoop_opened]
  simp [untranslatePacketHeader, unpackLoop]

/-- what is stored stays, but for the last byte -/
theorem dropLast_prefix_unpackLoop (flag : Bool) (dest src : List UInt8) :
    dest.dropLast <+: unpackLoop (-1) .inside flag dest src ∧
      dest.length ≤ (unpackLoop (-1) .inside flag dest src).length := by
  by_cases harmed : dest.getLast? = some 0x7D ∧ flag = false
  · obtain ⟨hlast, rfl⟩ := harmed
    obtain ⟨init, rfl⟩ := List.getLast?_eq_some_iff.mp hlast
    have hne : undo (0x7D :: src) ≠ [] := by
      cases src with
      | nil => simp [undo]
      | cons x src => simp only [undo]; split_ifs <;> simp_all
    have hpos := List.length_pos_of_ne_nil hne
    rw [(unpackLoop_inside src).2 init, List.dropLast_concat]
    exact ⟨List.prefix_append _ _, by simp only [List.length_append, List.length_singleton]; omega⟩
  · rw [(unpackLoop_inside src).1 dest flag harmed]
    exact ⟨(List.dropLast_prefix dest).trans (List.prefix_append _ _), by simp⟩

/-- The limit of the first run: its first 8 bytes, and whether there are as many, are those of the second. -/
theorem unpackLoop_limit (src : List UInt8) (flag : Bool) (dest : List UInt8) (hdest : dest.length ≤ 8) :
    (unpackLoop 8 .inside flag dest src).take 8 = (unpackLoop (-1) .inside flag dest src).take 8 ∧
      (8 ≤ (unpackLoop 8 .inside flag dest src).length ↔ 8 ≤ (unpackLoop (-1) .inside flag dest src).length) := by
  induction src generalizing flag dest with
  | nil => simp [unpackLoop]
  | cons c src ih =>
    by_cases hf : c = 0x7E
    · simp [unpackLoop, hf]
    · by_cases harmed : dest.getLast? = some 0x7D ∧ flag = false
      · -- the byte is swallowed: `dest` does not grow
        obtain ⟨hlast, rfl⟩ := harmed
        obtain ⟨init, rfl⟩ := List.getLast?_eq_some_iff.mp hlast
        rw [List.length_append, List.length_singleton] at hdest
        have hstep : ∀ size : ℤ, size = 8 ∨ size = -1 →
            unpackLoop size .inside false (init ++ [0x7D]) (c :: src) =
              unpackLoop size .inside true (init ++ [if c = 0x5E then 0x7E else 0x7D]) src := by
          intro size hsize
          have hroom : ¬ (size ≤ (init.length : ℤ) ∧ ¬ size = -1) := by omega
          by_cases h5e : c = 0x5E
          · simp [unpackLoop, h5e, -not_and, hroom]
          · by_cases h5d : c = 0x5D
            · simp [unpackLoop, h5d, -not_and, hroom]
            · simp [unpackLoop, hf, h5e, h5d, -not_and, hroom]
        rw [hstep 8 (Or.inl rfl), hstep (-1) (Or.inr rfl)]
        apply ih
        simpa using hdest
      · have hall : unpackLoop (-1) .inside flag dest (c :: src) = unpackLoop (-1) .inside false (dest ++ [c]) src := by
          simp [unpackLoop, hf, harmed]
        rw [hall]
        by_cases hfull : dest.length = 8
        · have hstop : unpackLoop 8 .inside flag dest (c :: src) = dest ++ [c] := by
            simp [unpackLoop, hf, harmed, hfull]
          obtain ⟨hkeep, hlen⟩ := dropLast_prefix_unpackLoop false (dest ++ [c]) src
          rw [List.dropLast_concat] at hkeep
          obtain ⟨more, hmore⟩ := hkeep
          rw [List.length_append, List.length_singleton] at hlen
          rw [hstop]
          refine ⟨?_, by rw [List.length_append, List.length_singleton]; omega⟩
          rw [← hmore, List.take_left' hfull, List.take_left' hfull]
        · have hgo : unpackLoop 8 .inside flag dest (c :: src) = unpackLoop 8 .inside false (dest ++ [c]) src := by
            have hroom : ¬ ((9 : ℤ) ≤ (dest.length : ℤ) + 1) := by omega
            simp [unpackLoop, hf, harmed, hroom]
          rw [hgo]
          apply ih
          rw [List.length_append, List.length_singleton]
          omega

theorem unpackLoop_limit_opened (src : List UInt8) :
    (unpackLoop 8 .opened false [] src).take 8 = (unpackLoop (-1) .opened false [] src).take 8 ∧
      (8 ≤ (unpackLoop 8 .opened false [] src).length ↔ 8 ≤ (unpackLoop (-1) .opened false [] src).length) := by
  induction src with
  | nil => simp [unpackLoop]
  | cons c src ih =>
    by_cases hf : c = 0x7E
    · simpa [unpackLoop, hf] using ih
    · have hstep : ∀ size : ℤ, unpackLoop size .opened false [] (c :: src) = unpackLoop size .inside false [c] src := by
        intro size
        simp [unpackLoop, hf]
      rw [hstep, hstep]
      exact unpackLoop_limit src false [c] (by simp)

/-- what the decoder makes of the bytes behind the opening flag -/
def undoFrame (src : List UInt8) : List UInt8 := undo (src.dropWhile (· = 0x7E))

/-- what the handler finds -/
theorem adcRequest_flag (src : List UInt8) :
    ∃ first : List UInt8, (∀ i < 8, destByte first i = destByte (undoFrame src) i) ∧
      adcRequest (0x7E :: src) =
        if 8 ≤ (undoFrame src).length then
          if destByte (undoFrame src) 6 = 0x62 then some (0x62, undoFrame src)
          else if destByte (undoFrame src) 6 = 0x1E then some (0x1E, first)
          else none
        else none := by
  obtain ⟨htake, hlen⟩ := unpackLoop_limit_opened src
  have hall : untranslatePacketHeader (0x7E :: src) (-1) = undoFrame src := untranslatePacketHeader_all src
  rw [unpackLoop_opened] at htake hlen
  change _ = (undoFrame src).take 8 at htake
  change _ ↔ 8 ≤ (undoFrame src).length at hlen
  have hopen : untranslatePacketHeader (0x7E :: src) 8 = unpackLoop 8 .opened false [] src := by
    simp [untranslatePacketHeader, unpackLoop]
  have hbytes : ∀ i < 8, destByte (unpackLoop 8 .opened false [] src) i = destByte (undoFrame src) i := by
    intro i hi
    have h := congrArg (fun l : List UInt8 => l.getD i 0) htake
    simpa [destByte, List.getElem?_take, hi] using h
  refine ⟨unpackLoop 8 .opened false [] src, hbytes, ?_⟩
  unfold adcRequest
  dsimp only
  rw [hopen, hall, hbytes 6 (by decide)]
  simp only [hlen]

/-! ## What comes from the parser -/

/-- a calibration or voltage command -/
def IsCommand (p : List UInt8) : Prop := 8 ≤ p.length ∧ (destByte p 6 = 0x62 ∨ destByte p 6 = 0x1E)

/-- the ADC command with an operation that `is_adc_calibration` knows -/
def KnownOperate (d : List UInt8) : Prop :=
  (destByte d 12 = 0 ∨ destByte d 12 = 1 ∨ destByte d 12 = 2) ∧ destByte d 13 = 0 ∧ destByte d 14 = 0 ∧ destByte d 15 = 0

instance decidableKnownOperate (d : List UInt8) : Decidable (KnownOperate d) :=
  inferInstanceAs (Decidable ((_ ∨ _ ∨ _) ∧ _ ∧ _ ∧ _))

/-- how many bytes of `dest` are read: of a voltage command the header (the request that is copied with it is not part of
the answer), of a calibration command also `cmd`, and of an ADC command `operate` and, by `ap_adc_process`, the whole
`TOOLS_AP_ADC_REQ_T` -/
def handlerReads (type : UInt8) (dest : List UInt8) : ℕ :=
  if type = 0x62 then
    if destByte dest 8 = 1 ∧ destByte dest 9 = 0 then if KnownOperate dest then 64 else 16 else 10
  else 8

/-- what the handler acts on is the payload: all it reads are bytes of it, and a calibration command, which is decoded to
its end, is there as a whole -/
def ActsOn (env : Env) (p : List UInt8) : Prop :=
  ∃ d, calibrationRequest env p = some (destByte p 6, d) ∧
    (∀ i < handlerReads (destByte p 6) d, i < p.length ∧ destByte d i = destByte p i) ∧
    (destByte p 6 = 0x62 → ∀ i < p.length, destByte d i = destByte p i)

/-- the same bytes are read where they agree -/
theorem handlerReads_congr {type : UInt8} {d d' : List UInt8}
    (h : ∀ i < handlerReads type d, destByte d i = destByte d' i) : handlerReads type d' = handlerReads type d := by
  unfold handlerReads at h ⊢
  by_cases htype : type = 0x62
  · simp only [if_pos htype] at h ⊢
    have hcmd : ∀ i < 10, destByte d i = destByte d' i := by
      intro i hi
      apply h i
      split_ifs <;> omega
    rw [← hcmd 8 (by decide), ← hcmd 9 (by decide)]
    by_cases hadc : destByte d 8 = 1 ∧ destByte d 9 = 0
    · simp only [if_pos hadc] at h ⊢
      have hoperate : ∀ i < 16, destByte d i = destByte d' i := by
        intro i hi
        apply h i
        split_ifs <;> omega
      have hknown : KnownOperate d' ↔ KnownOperate d := by
        unfold KnownOperate
        rw [hoperate 12 (by decide), hoperate 13 (by decide), hoperate 14 (by decide), hoperate 15 (by decide)]
      simp only [hknown]
    · rw [if_neg hadc, if_neg hadc]
  · rw [if_neg htype, if_neg htype]

/-- the byte behind the frame in the collecting buffer -/
def behind (env : Env) (p : List UInt8) : UInt8 := extMem env (frame p) (frame p).length

/-- what stands behind the payload in the decoded buffer -/
def leftover (env : Env) (p : List UInt8) : List UInt8 :=
  (behind env p ^^^ 0x20) :: List.replicate ((frame p).length - 2 - p.length) (behind env p)

theorem behind_short (env : Env) {p : List UInt8} (h : (frame p).length < extSize) : behind env p = 0 := by
  simp [behind, extMem, h]

/-- the buffer that holds a frame -/
theorem cells_extMem_frame (env : Env) {p : List UInt8} (hfit : (frame p).length ≤ extSize) :
    cells (extMem env (frame p)) 0 (frame p).length = frame p := by
  apply cells_eq_list rfl
  intro i hi
  have hin : i < extSize := by omega
  rw [extMem, if_pos hin, List.getD_eq_getElem?_getD, List.getElem?_eq_getElem hi, Option.getD_some]

/-- The parser leaves the payload, and something behind it. -/
theorem cells_decoded_frame (env : Env) {p : List UInt8} (hfit : (frame p).length ≤ extSize) :
    cells (decode7d7e ((frame p).length - 1) 1 (extMem env (frame p))) 0 (frame p).length =
      0x7E :: (p ++ leftover env p) :=
  cells_decode_frame (cells_extMem_frame env hfit)

/-- The handler gets the payload with the leftover. -/
theorem calibrationRequest_eq (env : Env) {p : List UInt8} (hcmd : IsCommand p) (hfit : (frame p).length ≤ extSize) :
    calibrationRequest env p = adcRequest (0x7E :: (p ++ leftover env p)) := by
  have hcells := cells_decoded_frame env hfit
  have hlong : 7 < (frame p).length := by
    have h1 := length_frame p
    have h2 := length_le_stuff p
    have h3 := hcmd.1
    omega
  have htype : decode7d7e ((frame p).length - 1) 1 (extMem env (frame p)) 7 = destByte p 6 := by
    have h := congrArg (fun l : List UInt8 => l[7]?) hcells
    have h6 : 6 < p.length := lt_of_lt_of_le (by decide) hcmd.1
    simp [cells, hlong, List.getElem?_append_left h6] at h
    simp [destByte, ← h]
  have hat : destByte p 6 ≠ 0x68 := by
    rcases hcmd.2 with h | h <;> rw [h] <;> decide
  have hparse : engDiagParse env (extMem env (frame p)) (frame p).length =
      (headCmd (destByte p 6) (decode7d7e ((frame p).length - 1) 1 (extMem env (frame p)) 8),
        decode7d7e ((frame p).length - 1) 1 (extMem env (frame p))) := by
    unfold engDiagParse
    dsimp only
    rw [htype, if_neg hat]
  have hhandled : ∀ subtype, headCmd (destByte p 6) subtype = .userApcali ∨
      headCmd (destByte p 6) subtype = .userGetvoltage := by
    intro subtype
    rcases hcmd.2 with h | h
    · rw [h]
      exact Or.inl rfl
    · rw [h]
      exact Or.inr rfl
  unfold calibrationRequest
  dsimp only
  rw [hparse, if_pos (hhandled _), hcells]

/-- A calibration command reaches its handler as it was sent exactly when it has all that is read and the second decoder
gives it back. -/
theorem actsOn_apcali (env : Env) {p : List UInt8} (hcmd : IsCommand p) (htype : destByte p 6 = 0x62)
    (hfit : (frame p).length ≤ extSize) :
    ActsOn env p ↔ handlerReads 0x62 p ≤ p.length ∧ 8 ≤ (undoFrame (p ++ leftover env p)).length ∧
      ∀ i < p.length, destByte (undoFrame (p ++ leftover env p)) i = destByte p i := by
  obtain ⟨first, hfirst, hreq⟩ := adcRequest_flag (p ++ leftover env p)
  unfold ActsOn
  rw [calibrationRequest_eq env hcmd hfit, hreq, htype]
  generalize undoFrame (p ++ leftover env p) = w
  constructor
  · rintro ⟨d, hd, hreads, hall⟩
    split_ifs at hd with hlen h62 h1e
    · obtain ⟨-, rfl⟩ := Prod.mk.inj (Option.some.inj hd)
      have hsame := handlerReads_congr fun i hi => (hreads i hi).2
      refine ⟨?_, hlen, hall rfl⟩
      rw [hsame]
      by_contra hlong
      exact absurd (hreads p.length (not_le.mp hlong)).1 (lt_irrefl _)
    · exact absurd (Prod.mk.inj (Option.some.inj hd)).1 (by decide)
  · rintro ⟨hreads, hlen, hall⟩
    have hsame : handlerReads 0x62 w = handlerReads 0x62 p :=
      handlerReads_congr fun i hi => (hall i (lt_of_lt_of_le hi hreads)).symm
    have h8 := hcmd.1
    rw [if_pos hlen, hall 6 (by omega), htype, if_pos rfl]
    refine ⟨w, rfl, ?_, fun _ => hall⟩
    intro i hi
    rw [hsame] at hi
    exact ⟨lt_of_lt_of_le hi hreads, hall i (lt_of_lt_of_le hi hreads)⟩

/-- A voltage command reaches its handler as it was sent exactly when the second decoder gives its header back. -/
theorem actsOn_getvoltage (env : Env) {p : List UInt8} (hcmd : IsCommand p) (htype : destByte p 6 = 0x1E)
    (hfit : (frame p).length ≤ extSize) :
    ActsOn env p ↔ 8 ≤ (undoFrame (p ++ leftover env p)).length ∧
      ∀ i < 8, destByte (undoFrame (p ++ leftover env p)) i = destByte p i := by
  obtain ⟨first, hfirst, hreq⟩ := adcRequest_flag (p ++ leftover env p)
  have hne : (0x1E : UInt8) ≠ 0x62 := by decide
  have h8 : ∀ d, handlerReads 0x1E d = 8 := fun d => if_neg hne
  unfold ActsOn
  rw [calibrationRequest_eq env hcmd hfit, hreq, htype]
  generalize undoFrame (p ++ leftover env p) = w at hfirst
  constructor
  · rintro ⟨d, hd, hreads, -⟩
    rw [h8] at hreads
    split_ifs at hd with hlen h62 h1e
    · exact absurd (Prod.mk.inj (Option.some.inj hd)).1 (by decide)
    · obtain ⟨-, rfl⟩ := Prod.mk.inj (Option.some.inj hd)
      exact ⟨hlen, fun i hi => by rw [← hfirst i hi]; exact (hreads i hi).2⟩
  · rintro ⟨hlen, hall⟩
    rw [if_pos hlen, hall 6 (by decide), htype, if_neg hne, if_pos rfl]
    refine ⟨first, rfl, ?_, fun h => absurd h hne⟩
    intro i hi
    rw [h8] at hi
    exact ⟨lt_of_lt_of_le hi hcmd.1, by rw [hfirst i hi]; exact hall i hi⟩

/-! ## The payloads that come through -/

/-- the bytes behind the first 0x7D -/
def afterEsc (p : List UInt8) : List UInt8 := (p.dropWhile (· ≠ 0x7D)).tail

theorem afterEsc_first {u : List UInt8} (hu : 0x7D ∉ u) (v : List UInt8) : afterEsc (u ++ 0x7D :: v) = v := by
  have hdrop : (u ++ 0x7D :: v).dropWhile (· ≠ 0x7D) = 0x7D :: v := by
    rw [List.dropWhile_append_of_pos]
    · simp
    · intro b hb
      simpa using fun h : b = 0x7D => hu (h ▸ hb)
  unfold afterEsc
  rw [hdrop]
  rfl

theorem afterEsc_none {p : List UInt8} (h : 0x7D ∉ p) : afterEsc p = [] := by
  have hdrop : p.dropWhile (· ≠ 0x7D) = [] := by
    rw [← List.append_nil p, List.dropWhile_append_of_pos, List.dropWhile_nil]
    intro b hb
    simpa using fun hb' : b = 0x7D => h (hb' ▸ hb)
  unfold afterEsc
  rw [hdrop]
  rfl

/-- every member has a last place -/
theorem exists_last_of_mem {b : UInt8} {l : List UInt8} (h : b ∈ l) : ∃ x y, l = x ++ b :: y ∧ b ∉ y := by
  obtain ⟨x, y, hxy, hx⟩ := List.eq_append_cons_of_mem (List.mem_reverse.mpr h)
  refine ⟨y.reverse, x.reverse, ?_, by simpa using hx⟩
  rw [← List.reverse_reverse l, hxy]
  simp

theorem destByte_append {x : List UInt8} (b : UInt8) (y : List UInt8) : destByte (x ++ b :: y) x.length = b := by
  simp [destByte]

/-- behind the last 0x7D of x ++ 0x7D :: y ++ t there is none -/
theorem esc_not_later {x y t : List UInt8} (hy : 0x7D ∉ y) (ht : 0x7D ∉ t) {m : ℕ}
    (h : (x ++ 0x7D :: y ++ t)[m]? = some 0x7D) : m ≤ x.length := by
  by_contra hm
  obtain ⟨k, rfl⟩ := Nat.exists_eq_add_of_lt (not_le.mp hm)
  have hrest : (x ++ 0x7D :: y ++ t)[x.length + k + 1]? = (y ++ t)[k]? := by
    rw [List.append_assoc, List.getElem?_append_right (by omega)]
    have hk : x.length + k + 1 - x.length = k + 1 := by omega
    rw [hk]
    rfl
  rw [hrest] at h
  rcases List.mem_append.mp (List.mem_of_getElem? h) with hmem | hmem
  · exact hy hmem
  · exact ht hmem

/-- a flag is put out only for an escape -/
theorem esc_mem_of_undo_flag {l : List UInt8} (h : destByte (undo l) 0 = 0x7E) : 0x7D ∈ l := by
  cases l with
  | nil => simp [undo, destByte] at h
  | cons c l =>
    by_contra hmem
    have he : c ≠ 0x7D := fun hc => hmem (hc ▸ List.mem_cons_self)
    by_cases hf : c = 0x7E
    · rw [hf, undo_flag] at h
      simp [destByte] at h
    · have hplain : ¬ Escapes c := by
        rintro (hc | hc)
        · exact he hc
        · exact hf hc
      rw [undo_plain hplain] at h
      exact hf h

/-- nothing is skipped in front of a payload without flags -/
theorem dropWhile_flag_free {p : List UInt8} (hp : 0x7E ∉ p) (hne : p ≠ []) (t : List UInt8) :
    (p ++ t).dropWhile (· = 0x7E) = p ++ t := by
  obtain ⟨c, p', rfl⟩ := List.exists_cons_of_ne_nil hne
  have hc : c ≠ 0x7E := fun h => hp (h ▸ List.mem_cons_self)
  simp [hc]

theorem eq_take_of_destByte {l w : List UInt8} (hlen : l.length ≤ w.length)
    (h : ∀ i < l.length, destByte w i = destByte l i) : l = w.take l.length := by
  apply List.ext_getElem (by simp [hlen])
  intro i h1 h2
  have hi := h i h1
  simp only [destByte, List.getD_eq_getElem?_getD, List.getElem?_eq_getElem h1,
    List.getElem?_eq_getElem (lt_of_lt_of_le h1 hlen), Option.getD_some] at hi
  rw [List.getElem_take, hi]

/-- a string that does not change when its first byte is dropped and q is put at its end -/
theorem eq_of_shift {x q : UInt8} {v : List UInt8} (h : x :: v = v ++ [q]) : ∀ b ∈ x :: v, b = q := by
  induction v generalizing x with
  | nil => simpa using h
  | cons y v ih =>
    obtain ⟨rfl, hv⟩ := List.cons.inj h
    intro b hb
    rcases List.mem_cons.mp hb with rfl | hb
    · exact ih hv b List.mem_cons_self
    · exact ih hv b hb

section

variable {p t : List UInt8}

/-- A payload that the second decoder gives back has no flag in it. -/
theorem flag_not_mem_of_agrees (ht : 0x7D ∉ t)
    (hagree : ∀ i < p.length, destByte (undo ((p ++ t).dropWhile (· = 0x7E))) i = destByte p i) : 0x7E ∉ p := by
  intro hmem
  obtain ⟨w, r, hsplit, hw⟩ := List.eq_append_cons_of_mem hmem
  by_cases hwnil : w = []
  · -- leading flags are skipped: the bytes come too early, and the last 0x7D is never put out
    rw [hwnil, List.nil_append] at hsplit
    obtain ⟨sk, hsk⟩ : (p ++ t).dropWhile (· = 0x7E) <:+ r ++ t := by
      rw [hsplit]
      simpa using List.dropWhile_suffix _
    have hcat : p ++ t = (0x7E :: sk) ++ (p ++ t).dropWhile (· = 0x7E) := by
      conv_lhs => rw [hsplit, List.cons_append, ← hsk]
      rfl
    generalize (p ++ t).dropWhile (· = 0x7E) = rest at hagree hcat
    have hhead : destByte (undo rest) 0 = 0x7E := by
      rw [hagree 0 (by simp [hsplit]), hsplit]
      rfl
    have hesc : 0x7D ∈ p := by
      have h := List.mem_append_right (0x7E :: sk) (esc_mem_of_undo_flag hhead)
      rw [← hcat] at h
      exact (List.mem_append.mp h).resolve_right ht
    obtain ⟨x, y, hxy, hy⟩ := exists_last_of_mem hesc
    have hout : destByte (undo rest) x.length = 0x7D := by
      rw [hagree x.length (by simp [hxy]), hxy, destByte_append]
    obtain ⟨m, hm, hget⟩ := undo_esc_later rest x.length hout
    have hlate : (p ++ t)[(0x7E :: sk).length + m]? = some 0x7D := by
      rw [hcat, List.getElem?_append_right (by omega), Nat.add_sub_cancel_left]
      exact hget
    rw [hxy] at hlate
    have hle := esc_not_later hy ht hlate
    rw [List.length_cons] at hle
    omega
  · -- a later flag ends the packet
    have hdrop : (p ++ t).dropWhile (· = 0x7E) = w ++ 0x7E :: (r ++ t) := by
      rw [hsplit, List.append_assoc, dropWhile_flag_free hw hwnil]
      rfl
    have hat := hagree w.length (by simp [hsplit])
    have hlen := length_undo_flag_le (r ++ t) w
    rw [hdrop, hsplit, destByte_append] at hat
    have hzero : destByte (undo (w ++ 0x7E :: (r ++ t))) w.length = 0 := by
      unfold destByte
      rw [List.getD_eq_getElem?_getD, List.getElem?_eq_none hlen, Option.getD_none]
    rw [hzero] at hat
    exact absurd hat (by decide)

/-- Behind the first 0x7D a payload that comes back has the first leftover byte only. -/
theorem afterEsc_of_agrees {q : UInt8} (hq : ¬ Escapes q) (ht : ∀ b ∈ t, ¬ Escapes b) (hflag : 0x7E ∉ p)
    (hagree : ∀ i < p.length, destByte (undo (p ++ q :: t)) i = destByte p i) : ∀ b ∈ afterEsc p, b = q := by
  by_cases hesc : 0x7D ∈ p
  · obtain ⟨u, v, hsplit, hu⟩ := List.eq_append_cons_of_mem hesc
    rw [hsplit, afterEsc_first hu]
    cases v with
    | nil => simp
    | cons x v =>
      have hfree : ∀ b, b ∈ p → b ≠ 0x7E := fun b hb h => hflag (h ▸ hb)
      have hxf : x ≠ 0x7E := hfree x (by simp [hsplit])
      have huplain : ∀ b ∈ u, ¬ Escapes b := by
        rintro b hb (h | h)
        · exact hu (h ▸ hb)
        · exact hfree b (by simp [hsplit, hb]) h
      have hdec : undo (p ++ q :: t) = u ++ (if x = 0x5E then 0x7E else 0x7D) :: undo (v ++ q :: t) := by
        rw [hsplit, List.append_assoc, undo_append_plain huplain, List.cons_append, List.cons_append, undo_esc hxf]
      -- from the first 0x7D on, everything comes one byte early
      have hrest : ∀ i < v.length + 1, destByte (undo (v ++ q :: t)) i = destByte (x :: v) i := by
        intro i hi
        have h := hagree (u.length + 1 + i) (by simp [hsplit]; omega)
        rw [hdec, hsplit] at h
        simpa [destByte, List.getElem?_append_right, Nat.add_assoc, Nat.add_comm 1 i] using h
      have hnoesc : 0x7D ∉ x :: v := by
        intro hmem
        obtain ⟨y, z, hyz, hz⟩ := exists_last_of_mem hmem
        have hylen : y.length < v.length + 1 := by
          have hlen := congrArg List.length hyz
          simp only [List.length_cons, List.length_append] at hlen
          omega
        have hout : destByte (undo (v ++ q :: t)) y.length = 0x7D := by
          rw [hrest y.length hylen, hyz, destByte_append]
        obtain ⟨m, hm, hget⟩ := undo_esc_later _ _ hout
        have hlate : (y ++ 0x7D :: z ++ q :: t)[m + 1]? = some 0x7D := by
          rw [← hyz]
          exact hget
        have htail : 0x7D ∉ q :: t := by
          intro h
          rcases List.mem_cons.mp h with h | h
          · exact hq (Or.inl h.symm)
          · exact ht 0x7D h (Or.inl rfl)
        have hle := esc_not_later hz htail hlate
        omega
      have hplain : ∀ b ∈ v, ¬ Escapes b := by
        rintro b hb (h | h)
        · exact hnoesc (h ▸ List.mem_cons_of_mem x hb)
        · exact hfree b (by simp [hsplit, hb]) h
      have hundo : undo (v ++ q :: t) = v ++ q :: undo t := by rw [undo_append_plain hplain, undo_plain hq]
      -- the rest of the payload, shifted by one and closed by q, is the rest itself
      have hshift : x :: v = v ++ [q] := by
        have htake := eq_take_of_destByte (l := x :: v) (w := v ++ q :: undo t) (by simp) (by rw [← hundo]; exact hrest)
        rw [htake, List.length_cons, List.take_length_add_append]
        rfl
      exact eq_of_shift hshift
  · simp [afterEsc_none hesc]

/-- A payload without flags, with one byte only behind its first 0x7D, comes back. -/
theorem undo_of_afterEsc {q : UInt8} (hq : ¬ Escapes q) (hq' : q ≠ 0x5E) (ht : ∀ b ∈ t, ¬ Escapes b) (hflag : 0x7E ∉ p)
    (hafter : ∀ b ∈ afterEsc p, b = q) : p <+: undo (p ++ q :: t) := by
  have hqf : q ≠ 0x7E := fun h => hq (Or.inr h)
  by_cases hesc : 0x7D ∈ p
  · obtain ⟨u, v, rfl, hu⟩ := List.eq_append_cons_of_mem hesc
    rw [afterEsc_first hu] at hafter
    have huplain : ∀ b ∈ u, ¬ Escapes b := by
      rintro b hb (h | h)
      · exact hu (h ▸ hb)
      · exact hflag (h ▸ List.mem_append_left _ hb)
    have hv : v = List.replicate v.length q := List.eq_replicate_iff.mpr ⟨rfl, hafter⟩
    -- the byte that is swallowed is replaced by the leftover behind the payload
    have hrot : v ++ q :: t = q :: (v ++ t) := by
      rw [hv]
      have h := List.replicate_append_replicate (n := v.length) (m := 1) (a := q)
      rw [Nat.add_comm, ← List.replicate_append_replicate] at h
      simpa using congrArg (· ++ t) h
    have hplain : ∀ b ∈ v ++ t, ¬ Escapes b := by
      intro b hb
      rcases List.mem_append.mp hb with hb | hb
      · rw [hafter b hb]
        exact hq
      · exact ht b hb
    have hrest : undo (v ++ t) = v ++ t := by
      have h := undo_append_plain hplain []
      simpa [undo] using h
    rw [List.append_assoc, undo_append_plain huplain, List.cons_append, hrot, undo_esc hqf, if_neg hq', hrest]
    exact ⟨t, by simp⟩
  · have hplain : ∀ b ∈ p, ¬ Escapes b := by
      rintro b hb (h | h)
      · exact hesc (h ▸ hb)
      · exact hflag (h ▸ hb)
    rw [undo_append_plain hplain]
    exact List.prefix_append _ _

/-- The bytes that are compared: all of a calibration command, and the header of a voltage command. -/
def compared (p : List UInt8) : List UInt8 := if destByte p 6 = 0x62 then p else p.take 8

theorem compared_whole (h : destByte p 6 = 0x62 ∨ p.length = 8) : compared p = p := by
  unfold compared
  split_ifs with htype
  · rfl
  · exact List.take_of_length_le (h.resolve_left htype).le

/-- a command that is compared as a whole -/
theorem actsOn_whole (env : Env) (hcmd : IsCommand p) (hfit : (frame p).length ≤ extSize)
    (hwhole : destByte p 6 = 0x62 ∨ p.length = 8) :
    ActsOn env p ↔ handlerReads (destByte p 6) p ≤ p.length ∧ 8 ≤ (undoFrame (p ++ leftover env p)).length ∧
      ∀ i < p.length, destByte (undoFrame (p ++ leftover env p)) i = destByte p i := by
  rcases hcmd.2 with h | h
  · rw [actsOn_apcali env hcmd h hfit, h]
  · have hlen : p.length = 8 := hwhole.resolve_left (by rw [h]; decide)
    rw [actsOn_getvoltage env hcmd h hfit, h, hlen]
    exact (and_iff_right (if_neg (by decide) : handlerReads 0x1E p = 8).le).symm

/-- a command whose compared bytes come out first is acted on if it has all that is read -/
theorem actsOn_of_prefix (env : Env) (hcmd : IsCommand p) (hfit : (frame p).length ≤ extSize)
    (hreads : handlerReads (destByte p 6) p ≤ p.length)
    (hpre : compared p <+: undoFrame (p ++ leftover env p)) : ActsOn env p := by
  have h8 := hcmd.1
  obtain ⟨more, hmore⟩ := hpre
  unfold compared at hmore
  rcases hcmd.2 with h | h
  · rw [if_pos h] at hmore
    rw [h] at hreads
    rw [actsOn_apcali env hcmd h hfit, ← hmore]
    refine ⟨hreads, by rw [List.length_append]; omega, ?_⟩
    intro i hi
    simp [destByte, List.getElem?_append_left hi]
  · rw [if_neg (by rw [h]; decide)] at hmore
    have hlen : (p.take 8).length = 8 := by simpa using h8
    rw [actsOn_getvoltage env hcmd h hfit, ← hmore]
    refine ⟨by rw [List.length_append]; omega, ?_⟩
    intro i hi
    have hin : i < (p.take 8).length := by omega
    simp [destByte, List.getElem?_append_left hin, hi]

end

/-- **Calibration commands.** The PC sends the frame of a calibration or voltage command that the collecting buffer
holds. The handler acts on the payload if that has all the bytes that are read and no byte has to be escaped (of a voltage
command, no byte of the header). When the frame leaves a byte of the buffer free, the exact condition for a calibration
command, and for a voltage command that is a header alone, is: it has all the bytes that are read and no 0x7E, and behind
its first 0x7D nothing but 0x20. -/
theorem calibration_iff (env : Env) (p : List UInt8) (hcmd : IsCommand p) (hfit : (frame p).length ≤ extSize) :
    (handlerReads (destByte p 6) p ≤ p.length → (∀ b ∈ compared p, b ≠ 0x7D ∧ b ≠ 0x7E) → ActsOn env p) ∧
      ((frame p).length < extSize → destByte p 6 = 0x62 ∨ p.length = 8 →
        (ActsOn env p ↔ handlerReads (destByte p 6) p ≤ p.length ∧ 0x7E ∉ p ∧ ∀ b ∈ afterEsc p, b = 0x20)) := by
  have h8 := hcmd.1
  have hne : p ≠ [] := List.ne_nil_of_length_pos (lt_of_lt_of_le (by decide) h8)
  constructor
  · intro hreads hplain
    have hesc : ∀ b ∈ compared p, ¬ Escapes b := by
      rintro b hb (h | h)
      · exact (hplain b hb).1 h
      · exact (hplain b hb).2 h
    obtain ⟨rest, hrest⟩ : compared p <+: p := by
      unfold compared
      split
      · exact List.prefix_refl p
      · exact List.take_prefix 8 p
    have hpos : compared p ≠ [] := by
      unfold compared
      split
      · exact hne
      · exact List.ne_nil_of_length_pos (by rw [List.length_take]; omega)
    apply actsOn_of_prefix env hcmd hfit hreads
    have hout : undoFrame (p ++ leftover env p) = compared p ++ undo (rest ++ leftover env p) := by
      unfold undoFrame
      nth_rewrite 1 [← hrest]
      rw [List.append_assoc, dropWhile_flag_free (fun h => (hplain 0x7E h).2 rfl) hpos, undo_append_plain hesc]
    rw [hout]
    exact List.prefix_append _ _
  · intro hroom hwhole
    have hleft : leftover env p = 0x20 :: List.replicate ((frame p).length - 2 - p.length) 0 := by
      unfold leftover
      rw [behind_short env hroom]
      rfl
    have hzeros : ∀ b ∈ List.replicate ((frame p).length - 2 - p.length) (0 : UInt8), ¬ Escapes b := by
      intro b hb
      rw [List.eq_of_mem_replicate hb]
      decide
    constructor
    · intro hacts
      obtain ⟨hreads, -, hagree⟩ := (actsOn_whole env hcmd hfit hwhole).mp hacts
      rw [hleft] at hagree
      have hflag : 0x7E ∉ p := by
        apply flag_not_mem_of_agrees _ hagree
        intro hmem
        rcases List.mem_cons.mp hmem with h | h
        · exact absurd h (by decide)
        · exact hzeros 0x7D h (Or.inl rfl)
      unfold undoFrame at hagree
      rw [dropWhile_flag_free hflag hne] at hagree
      exact ⟨hreads, hflag, afterEsc_of_agrees (by decide) hzeros hflag hagree⟩
    · rintro ⟨hreads, hflag, hafter⟩
      apply actsOn_of_prefix env hcmd hfit hreads
      unfold undoFrame
      rw [compared_whole hwhole, dropWhile_flag_free hflag hne, hleft]
      exact undo_of_afterEsc (by decide) (by decide) hzeros hflag hafter

/-- an ADC command that saves twelve parameters, the last of them 0x2020207D -/
def saveCommand : List UInt8 :=
  [1, 0, 0, 0, 64, 0, 0x62, 0, 1, 0, 52, 0, 2, 0, 0, 0] ++ List.replicate 44 0x11 ++ [0x7D, 0x20, 0x20, 0x20]

theorem calibration_iff_save : ActsOn bareEnv saveCommand :=
  ((calibration_iff bareEnv saveCommand ⟨by decide, by decide⟩ (by decide)).2 (by decide) (by decide)).2
    ⟨by decide +kernel, by decide +kernel, by decide +kernel⟩

/-- a 0x7D in the sequence number of a loop command: the byte behind it is lost, and the type is not found any more -/
theorem calibration_swallows : IsCommand [0x7D, 1, 0, 0, 12, 0, 0x62, 0, 2, 0, 0, 0] ∧
    calibrationRequest bareEnv [0x7D, 1, 0, 0, 12, 0, 0x62, 0, 2, 0, 0, 0] = none ∧
      ¬ ActsOn bareEnv [0x7D, 1, 0, 0, 12, 0, 0x62, 0, 2, 0, 0, 0] := by
  have hnone : calibrationRequest bareEnv [0x7D, 1, 0, 0, 12, 0, 0x62, 0, 2, 0, 0, 0] = none := by decide +kernel
  refine ⟨⟨by decide, by decide⟩, hnone, ?_⟩
  rintro ⟨d, hd, -⟩
  rw [hnone] at hd
  cases hd

end SprdDevice.EngMode
