/-
The JPEG header writer (`jpegenc_header.c`, `JPEG_HWWriteHeadForThumbnail`) and the parser's reading of what it writes.

- `Encoder` is what the writer reads of `JPEG_CODEC_T`. `JPEGFW_PutC` and `JPEGFW_PutW` append a byte and a big-endian
  16-bit word, and the register polls succeed.
- `initRatio` is the decoder's reading of a sample format (`jpegdec_init.c`).

Results: one lemma for each segment, and `header_round_trip`.
-/
import Mathlib.Tactic
import SprdDevice.Jpeg.DecParse

namespace SprdDevice.Jpeg

open SprdDevice.Parse

/-! ## Writer -/

/-- `SAMPLE_RATIO_T` -/
structure SampleRatio where
  hRatio : UInt8
  vRatio : UInt8
deriving DecidableEq, Repr

structure Encoder where
  width : UInt16
  height : UInt16
  ratio : ℕ → SampleRatio
  tblMap : ℕ → TblMap
  huffTbl : HuffClass → ℕ → HuffTbl
  quantTbl : ℕ → ℕ → UInt8
  restartInterval : UInt32

def JPEG_FW_LUM_ID : ℕ := 0

def JPEG_FW_CHR_ID : ℕ := 1

def putC (c : ℕ) : List UInt8 := [UInt8.ofNat c]

def putW (w : ℕ) : List UInt8 := [UInt8.ofNat (w / 256), UInt8.ofNat w]

def putMarker (mark : UInt8) : List UInt8 := [0xFF, mark]

def putAPP0 : List UInt8 :=
  putMarker 0xE0 ++ putW (2 + 4 + 1 + 2 + 1 + 2 + 2 + 1 + 1) ++
  -- "JFIF"
  putC 0x4A ++ putC 0x46 ++ putC 0x49 ++ putC 0x46 ++ putC 0 ++
  putC 1 ++ putC 1 ++ putC 0 ++ putW 1 ++ putW 1 ++ putC 0 ++ putC 0

/-- a turn of `PutQuantTbl` -/
def putOneQuantTbl (e : Encoder) (i : ℕ) : List UInt8 :=
  putMarker 0xDB ++ putW (64 + 1 + 2) ++ putC i ++
  ((List.range' 0 32).flatMap fun k => [e.quantTbl i (zigzag k)]) ++
  ((List.range' 32 32).flatMap fun k => [e.quantTbl i (zigzag k)])

def putQuantTbl (e : Encoder) : List UInt8 := (List.range' 0 2).flatMap (putOneQuantTbl e)

/-- a component of `PutSOF0` -/
def putSOFComponent (e : Encoder) (i : ℕ) : List UInt8 :=
  putC (i + 1) ++ [(e.ratio i).hRatio <<< 4 ||| (e.ratio i).vRatio] ++ putC (e.tblMap i).quantTblId

def putSOF0 (e : Encoder) : List UInt8 :=
  putMarker 0xC0 ++ putW (3 * 3 + 2 + 5 + 1) ++ putC 8 ++ putW e.height.toNat ++ putW e.width.toNat ++ putC 3 ++
  (List.range' 0 3).flatMap (putSOFComponent e)

/-- `PutOneHuffTbl`, the values in chunks of 32 and what is left -/
def putOneHuffTbl (index : ℕ) (t : HuffTbl) : List UInt8 :=
  let count := t.count
  putMarker 0xC4 ++ putW (2 + 1 + 16 + count) ++ putC index ++
  ((List.range' 1 16).flatMap fun i => [t.bits i]) ++
  ((List.range' 0 (count / 32)).flatMap fun b => (List.range' (32 * b) 32).flatMap fun i => [t.huffval i]) ++
  ((List.range' (32 * (count / 32)) (count % 32)).flatMap fun i => [t.huffval i])

def putHuffTbl (e : Encoder) : List UInt8 :=
  putOneHuffTbl 0x00 (e.huffTbl .dc JPEG_FW_LUM_ID) ++ putOneHuffTbl 0x10 (e.huffTbl .ac JPEG_FW_LUM_ID) ++
  putOneHuffTbl 0x01 (e.huffTbl .dc JPEG_FW_CHR_ID) ++ putOneHuffTbl 0x11 (e.huffTbl .ac JPEG_FW_CHR_ID)

def writeDRI (e : Encoder) : List UInt8 :=
  if e.restartInterval ≠ 0 then putMarker 0xDD ++ putW 4 ++ putW (e.restartInterval.toNat % 2 ^ 16) else []

/-- a component of `PutSOS` -/
def putSOSComponent (e : Encoder) (i : ℕ) : List UInt8 :=
  putC (i + 1) ++ putC (16 * (e.tblMap i).dcHuffTblId ||| (e.tblMap i).acHuffTblId)

def putSOS (e : Encoder) : List UInt8 :=
  putMarker 0xDA ++ putW (2 * 3 + 2 + 1 + 3) ++ putC 3 ++ (List.range' 0 3).flatMap (putSOSComponent e) ++
  putC 0 ++ putC 63 ++ putC 0

/-- `JPEG_HWWriteHeadForThumbnail` -/
def writeHead (e : Encoder) : List UInt8 :=
  putMarker 0xD8 ++ putAPP0 ++ putQuantTbl e ++ putSOF0 e ++ putHuffTbl e ++ writeDRI e ++ putSOS e

/-! ## Statement -/

/-- the sampling ratios of a format (`jpegdec_init.c`) -/
def initRatio : Yuv → ℕ → SampleRatio
  | .yuv420, 0 => ⟨2, 2⟩
  | .yuv411, 0 => ⟨4, 1⟩
  | .yuv444, 0 => ⟨1, 1⟩
  | .yuv422, 0 => ⟨2, 1⟩
  | .yuv422R, 0 => ⟨1, 2⟩
  | .yuv411R, 0 => ⟨1, 4⟩
  | .yuv400, 0 => ⟨1, 1⟩
  | .yuv400, _ => ⟨0, 0⟩
  | _, _ => ⟨1, 1⟩

/-- luma sampling 1x1, 2x1, 1x2, 2x2, 4x1 or 1x4 with 1x1 chroma, table ids and counts in range, a 16-bit interval -/
structure Encoder.InRange (e : Encoder) : Prop where
  luma : e.ratio 0 = ⟨1, 1⟩ ∨ e.ratio 0 = ⟨2, 1⟩ ∨ e.ratio 0 = ⟨1, 2⟩ ∨ e.ratio 0 = ⟨2, 2⟩ ∨ e.ratio 0 = ⟨4, 1⟩ ∨
    e.ratio 0 = ⟨1, 4⟩
  chroma : e.ratio 1 = ⟨1, 1⟩ ∧ e.ratio 2 = ⟨1, 1⟩
  quantTblId : ∀ i < 3, (e.tblMap i).quantTblId < 3
  dcHuffTblId : ∀ i < 3, (e.tblMap i).dcHuffTblId < JPEG_FW_NUM_HUFF_TBLS
  acHuffTblId : ∀ i < 3, (e.tblMap i).acHuffTblId < JPEG_FW_NUM_HUFF_TBLS
  count : ∀ k, ∀ n < 2, (e.huffTbl k n).count ≤ 256
  restartInterval : e.restartInterval.toNat < 65536

/-- the symbols and the counts of two tables are the same -/
def HuffTbl.Same (t u : HuffTbl) : Prop :=
  (∀ i, 1 ≤ i → i ≤ 16 → t.bits i = u.bits i) ∧ ∀ j < u.count, t.huffval j = u.huffval j

/-- s, once s0, has what e has written -/
structure Recovers (e : Encoder) (s0 s : Codec) : Prop where
  width : s.inputWidth = e.width.toNat
  height : s.inputHeight = e.height.toNat
  format : ∀ i < 3, initRatio s.inputMcuInfo i = e.ratio i
  tblMap : ∀ i < 3, s.tblMap i = e.tblMap i
  quantTbl : ∀ n < 2, ∃ q, s.quantTbl n = some q ∧ ∀ k < 64, q k = e.quantTbl n k
  huffTbl : ∀ k, ∀ n < 2, (s.huffTbl k n).Same (e.huffTbl k n)
  restartInterval : s.restartInterval =
    if e.restartInterval = 0 then s0.restartInterval else e.restartInterval.toNat

variable {s : Codec}

/-! ## Words -/

theorem putW_toNat {w : ℕ} (h : w < 65536) :
    256 * (UInt8.ofNat (w / 256)).toNat + (UInt8.ofNat w).toNat = w := by
  simp only [UInt8.toNat_ofNat']
  omega

theorem reads_putW {α : Type} {f : ℕ → Dec α} {w : ℕ} {seg : List UInt8} {Q : α → Codec → Prop} (hw : w < 65536)
    (h : Reads (f w) seg s Q) : Reads (getShortWord >>= f) (putW w ++ seg) s Q := by
  refine reads_getShortWord_bind ?_
  rwa [putW_toNat hw]

theorem reads_putC {α : Type} {f : UInt8 → Dec α} {c : ℕ} {seg : List UInt8} {Q : α → Codec → Prop}
    (h : Reads (f (UInt8.ofNat c)) seg s Q) : Reads (getChar >>= f) (putC c ++ seg) s Q := reads_getChar_bind h

/-! ## APP0 -/

theorem reads_skipChar (i : ℕ) (c : UInt8) : Reads (skipChar i) [c] s fun _ t => t = s :=
  reads_getChar_bind (reads_pure rfl)

/-- the loop of `SkipStream` over any bytes -/
theorem reads_skip (i : ℕ) (seg : List UInt8) : Reads (loop skipChar i seg.length) seg s fun _ t => t = s := by
  induction seg generalizing i with
  | nil => exact reads_pure rfl
  | cons c seg ih =>
    refine Reads.bind (l := [c]) (reads_skipChar i c) ?_
    rintro _ t rfl
    exact ih (i + 1)

/-- what stands behind the length of the APP0 segment -/
def app0Body : List UInt8 := [0x4A, 0x46, 0x49, 0x46, 0, 1, 1, 0, 0, 1, 0, 1, 0, 0]

theorem putAPP0_eq : putAPP0 = 0xFF :: 0xE0 :: (putW 16 ++ app0Body) := by decide

theorem reads_getAPP0 : Reads getAPP0 (putW 16 ++ app0Body) s fun _ t => t = s := by
  refine reads_putW (by decide) (reads_demand_bind (by decide) ?_)
  rw [if_pos (by decide)]
  have hskip := reads_skip (s := s) 0 app0Body
  rw [← List.append_nil app0Body]
  refine Reads.bind hskip ?_
  rintro _ t rfl
  exact reads_pure rfl

/-! ## DQT -/

/-- s with a quantiser table -/
def QuantSet (n : ℕ) (q : ℕ → UInt8) (s t : Codec) : Prop :=
  t = { s with usingDefaultQuantTab := false, quantTbl := Function.update s.quantTbl n (some q) }

theorem reads_quantEntry {n j : ℕ} {q : ℕ → UInt8} {t : Codec} (c : UInt8) (h : QuantSet n q s t) :
    Reads (quantEntry 0 n j) [c] t fun _ => QuantSet n (Function.update q (zigzag j) c) s := by
  unfold quantEntry
  rw [if_pos rfl]
  refine Reads.bind (l := [c]) (reads_getChar_bind (reads_pure (Q := fun a u => a = c.toNat ∧ u = t) ⟨rfl, rfl⟩)) ?_
  rintro _ _ ⟨rfl, rfl⟩
  refine reads_touch_bind (reads_touch_bind (reads_modify ?_))
  subst h
  simp [QuantSet]

/-- the 64 entries in zig-zag order, in two halves -/
theorem quant_halves (f : ℕ → List UInt8) :
    (List.range' 0 32).flatMap f ++ (List.range' 32 32).flatMap f = (List.range' 0 64).flatMap f := by
  rw [← List.flatMap_append]
  rfl

theorem reads_quantEntries (n : ℕ) (q : ℕ → UInt8) {q0 : ℕ → UInt8} {t : Codec} (h : QuantSet n q0 s t) :
    Reads (loop (quantEntry 0 n) 0 64) ((List.range' 0 64).flatMap fun k => [q (zigzag k)]) t
      fun _ u => ∃ q', QuantSet n q' s u ∧ ∀ k < 64, q' k = q k := by
  refine Reads.mono (Reads.loop (fun j u => ∃ q', QuantSet n q' s u ∧ ∀ i < j, q' (zigzag i) = q (zigzag i)) 0 64 ?_
    ⟨q0, h, by simp⟩) ?_
  · rintro j u - hj ⟨q', hu, hq⟩
    refine (reads_quantEntry (q (zigzag j)) hu).mono ?_
    intro _ v hv
    refine ⟨_, hv, ?_⟩
    intro i hi
    rcases Nat.lt_succ_iff_lt_or_eq.1 hi with hlt | rfl
    · have hne : zigzag i ≠ zigzag j := fun heq => absurd (zigzag_inj (by omega) (by omega) heq) (by omega)
      rw [Function.update_of_ne hne]
      exact hq i hlt
    · rw [Function.update_self]
  · rintro _ u ⟨q', hu, hq⟩
    refine ⟨q', hu, ?_⟩
    intro k hk
    obtain ⟨i, hi, rfl⟩ := zigzag_surj hk
    exact hq i (by omega)

theorem reads_quantTable {n : ℕ} (hn : n < 2) (q : ℕ → UInt8) :
    Reads quantTable (putC n ++ (List.range' 0 64).flatMap fun k => [q (zigzag k)])
      { s with usingDefaultQuantTab := false }
      fun pn u => pn = (0, n) ∧ ∃ q', QuantSet n q' s u ∧ ∀ k < 64, q' k = q k := by
  have hbyte : (UInt8.ofNat n).toNat = n := by
    rw [UInt8.toNat_ofNat']
    omega
  refine reads_putC ?_
  rw [hbyte, show n / 16 = 0 by omega, show n % 16 = n by omega]
  refine reads_demand_bind (by omega) (reads_touch_bind (reads_modify_bind ?_))
  rw [← List.append_nil (List.flatMap _ _)]
  refine Reads.bind (reads_quantEntries n q (rfl : QuantSet n (fun _ => 0) s _)) ?_
  rintro _ u hu
  exact reads_pure ⟨rfl, hu⟩

/-- a DQT segment behind its marker -/
def dqtBody (n : ℕ) (q : ℕ → UInt8) : List UInt8 :=
  putW 67 ++ (putC n ++ (List.range' 0 64).flatMap fun k => [q (zigzag k)])

theorem putOneQuantTbl_eq (e : Encoder) (n : ℕ) :
    putOneQuantTbl e n = 0xFF :: 0xDB :: dqtBody n (e.quantTbl n) := by
  simp only [putOneQuantTbl, dqtBody, putMarker, List.append_assoc, quant_halves, List.cons_append, List.nil_append]

theorem reads_getQuantTbl {n : ℕ} (hn : n < 2) (q : ℕ → UInt8) :
    Reads getQuantTbl (dqtBody n q) s fun _ u => ∃ q', QuantSet n q' s u ∧ ∀ k < 64, q' k = q k := by
  refine reads_modify_bind (reads_putW (by decide) (reads_demand_bind (by decide) ?_))
  rw [← List.append_nil (putC n ++ _)]
  have htables : Reads (quantTables (67 - 2) (67 - 2) false)
      (putC n ++ (List.range' 0 64).flatMap fun k => [q (zigzag k)]) { s with usingDefaultQuantTab := false }
      fun two u => two = false ∧ ∃ q', QuantSet n q' s u ∧ ∀ k < 64, q' k = q k := by
    rw [quantTables, if_neg (by decide), ← List.append_nil (putC n ++ _)]
    refine Reads.bind (reads_quantTable hn q) ?_
    rintro _ u ⟨rfl, hu⟩
    refine reads_demand_bind (by decide) ?_
    rw [show 67 - 2 - (64 + 1 + 64 * 0) = 0 by rfl, quantTables, if_pos rfl]
    exact reads_pure ⟨by simp; omega, hu⟩
  refine Reads.bind htables ?_
  rintro _ u ⟨rfl, hu⟩
  exact reads_pure hu

/-! ## SOF -/

theorem sofByte_id {i : ℕ} (h : i < 3) : int8 (int8 (UInt8.ofNat (i + 1)).toNat - 1) = i := by
  interval_cases i <;> decide

def ratioByte (r : SampleRatio) : UInt8 := r.hRatio <<< 4 ||| r.vRatio

/-- s with the components and the quantiser ids of e's first n -/
def SofSet (e : Encoder) (s : Codec) (n : ℕ) (t : Codec) : Prop :=
  ∃ ci tm, t = { s with compInfo := ci, tblMap := tm } ∧
    (∀ i < n, (ci i).ratio = (ratioByte (e.ratio i)).toNat) ∧ ∀ i < n, (tm i).quantTblId = (e.tblMap i).quantTblId

theorem sofSet_zero (e : Encoder) (s : Codec) : SofSet e s 0 s :=
  ⟨s.compInfo, s.tblMap, rfl, fun _ h => absurd h (Nat.not_lt_zero _), fun _ h => absurd h (Nat.not_lt_zero _)⟩

theorem reads_sofComponent {e : Encoder} {t : Codec} {i : ℕ} (hi : i < 3) (hq : (e.tblMap i).quantTblId < 3)
    (h : SofSet e s i t) :
    Reads (sofComponent 3 i) (putSOFComponent e i) t fun _ => SofSet e s (i + 1) := by
  have hbyte : (UInt8.ofNat (e.tblMap i).quantTblId).toNat = (e.tblMap i).quantTblId := by
    rw [UInt8.toNat_ofNat']
    omega
  have hid := sofByte_id hi
  unfold putSOFComponent
  rw [List.append_assoc]
  refine reads_putC (reads_touch_bind (reads_modify_bind ?_))
  rw [hid]
  refine reads_demand_bind (by omega) (reads_getChar_bind (reads_modify_bind ?_))
  refine reads_getChar_bind ?_
  rw [hbyte]
  refine reads_demand_bind (by omega) (reads_touch_bind (reads_modify ?_))
  obtain ⟨ci, tm, rfl, hratio, hquant⟩ := h
  refine ⟨_, _, rfl, ?_, ?_⟩
  · intro m hm
    dsimp only
    rcases Nat.lt_succ_iff_lt_or_eq.1 hm with hlt | rfl
    · rw [Function.update_of_ne (by omega), Function.update_of_ne (by omega)]
      exact hratio m hlt
    · rw [Function.update_self]
      exact Nat.div_add_mod _ 16
  · intro m hm
    dsimp only
    rw [Int.toNat_natCast]
    rcases Nat.lt_succ_iff_lt_or_eq.1 hm with hlt | rfl
    · rw [Function.update_of_ne (by omega)]
      exact hquant m hlt
    · rw [Function.update_self]

/-- the format of a luma ratio, and the ratios of the format -/
theorem sampleFormat_ratioByte {e : Encoder} (h : e.InRange) :
    ∃ f, sampleFormat (ratioByte (e.ratio 0)).toNat = some f ∧ ∀ i < 3, initRatio f i = e.ratio i := by
  have hall : ∀ f, initRatio f 0 = e.ratio 0 → initRatio f 1 = ⟨1, 1⟩ → initRatio f 2 = ⟨1, 1⟩ →
      ∀ i < 3, initRatio f i = e.ratio i := by
    intro f h0 h1 h2 i hi
    interval_cases i
    · exact h0
    · rw [h1, h.chroma.1]
    · rw [h2, h.chroma.2]
  rcases h.luma with h0 | h0 | h0 | h0 | h0 | h0
  · exact ⟨.yuv444, by rw [h0]; rfl, hall _ (by rw [h0]; rfl) rfl rfl⟩
  · exact ⟨.yuv422, by rw [h0]; rfl, hall _ (by rw [h0]; rfl) rfl rfl⟩
  · exact ⟨.yuv422R, by rw [h0]; rfl, hall _ (by rw [h0]; rfl) rfl rfl⟩
  · exact ⟨.yuv420, by rw [h0]; rfl, hall _ (by rw [h0]; rfl) rfl rfl⟩
  · exact ⟨.yuv411, by rw [h0]; rfl, hall _ (by rw [h0]; rfl) rfl rfl⟩
  · exact ⟨.yuv411R, by rw [h0]; rfl, hall _ (by rw [h0]; rfl) rfl rfl⟩

theorem reads_sofFormat {f : Yuv} (hf : sampleFormat (s.compInfo 0).ratio = some f)
    (h1 : (s.compInfo 1).ratio = 0x11) (h2 : (s.compInfo 2).ratio = 0x11) :
    Reads (sofFormat 3) [] s fun _ t => t = { s with inputMcuInfo := f } := by
  refine reads_touch_bind (reads_get_bind ?_)
  rw [if_neg (by decide), hf]
  refine reads_modify_bind (reads_touch_bind (reads_demand_bind h1 ?_))
  rw [if_pos (by decide)]
  exact reads_touch_bind (reads_demand h2 rfl)

def sofBody (e : Encoder) : List UInt8 :=
  putW 17 ++ (putC 8 ++ (putW e.height.toNat ++ (putW e.width.toNat ++ (putC 3 ++
    (List.range' 0 3).flatMap (putSOFComponent e)))))

theorem putSOF0_eq (e : Encoder) : putSOF0 e = 0xFF :: 0xC0 :: sofBody e := by
  simp only [putSOF0, sofBody, putMarker, List.append_assoc, List.cons_append, List.nil_append]

/-- s with what e's SOF segment says -/
structure SofRead (e : Encoder) (s t : Codec) : Prop where
  width : t.inputWidth = e.width.toNat
  height : t.inputHeight = e.height.toNat
  format : ∀ i < 3, initRatio t.inputMcuInfo i = e.ratio i
  quantTblId : ∀ i < 3, (t.tblMap i).quantTblId = (e.tblMap i).quantTblId
  quantTbl : t.quantTbl = s.quantTbl
  restartInterval : t.restartInterval = s.restartInterval

theorem reads_getSOF {e : Encoder} (h : e.InRange) (ndebug : Bool) :
    Reads (getSOF ndebug false) (sofBody e) s fun _ => SofRead e s := by
  obtain ⟨f, hf, hformat⟩ := sampleFormat_ratioByte h
  refine reads_modify_then ?_
  intro s1 h1
  refine reads_putW (by decide) (reads_demand_bind (by decide) ?_)
  refine reads_putC (reads_demand_bind (by decide) ?_)
  refine reads_putW e.height.toNat_lt (reads_putW e.width.toNat_lt (reads_modify_then ?_))
  intro s2 h2
  refine reads_putC (reads_demand_bind (by decide) (reads_modify_then ?_))
  intro s3 h3
  refine reads_demand_bind (Or.inl (by decide)) (reads_modify_then ?_)
  intro s4 h4
  rw [← List.append_nil (List.flatMap _ _)]
  refine Reads.bind (Reads.loop (SofSet e s4) 0 3 ?_ (sofSet_zero e s4)) ?_
  · intro i t _ hi ht
    exact reads_sofComponent (by omega) (h.quantTblId i (by omega)) ht
  · rintro _ t ⟨ci, tm, rfl, hratio, hquant⟩
    have hluma : (ci 0).ratio = (ratioByte (e.ratio 0)).toNat := hratio 0 (by decide)
    have hu : (ci 1).ratio = (ratioByte (e.ratio 1)).toNat := hratio 1 (by decide)
    have hv : (ci 2).ratio = (ratioByte (e.ratio 2)).toNat := hratio 2 (by decide)
    rw [h.chroma.1] at hu
    rw [h.chroma.2] at hv
    rw [← hluma] at hf
    refine (reads_sofFormat hf hu hv).mono ?_
    rintro _ u rfl
    refine ⟨?_, ?_, hformat, hquant, ?_, ?_⟩
    · rw [h4, h3, h2]
    · rw [h4, h3, h2]
    · rw [h4, h3, h2, h1]
    · rw [h4, h3, h2, h1]

/-! ## DHT -/

/-- s with a Huffman table -/
def HuffSet (k : HuffClass) (n : ℕ) (t : HuffTbl) (s u : Codec) : Prop :=
  ∃ flag, u = { s.setHuff k n t with usingDefaultHuffTab := flag }

theorem HuffSet.setBits {k : HuffClass} {n : ℕ} {t : HuffTbl} {u : Codec} (h : HuffSet k n t s u) (i : ℕ)
    (c d : UInt8) :
    HuffSet k n { t with bits := Function.update t.bits i c } s ((u.setBits k n i c).noteDefault c d) := by
  obtain ⟨flag, rfl⟩ := h
  exact ⟨flag && (c == d), by simp [Codec.setBits, Codec.setHuff, Codec.noteDefault]⟩

theorem HuffSet.setHuffval {k : HuffClass} {n : ℕ} {t : HuffTbl} {u : Codec} (h : HuffSet k n t s u) (i : ℕ)
    (c d : UInt8) :
    HuffSet k n { t with huffval := Function.update t.huffval i c } s ((u.setHuffval k n i c).noteDefault c d) := by
  obtain ⟨flag, rfl⟩ := h
  exact ⟨flag && (c == d), by simp [Codec.setHuffval, Codec.setHuff, Codec.noteDefault]⟩

theorem HuffSet.huffTbl {k : HuffClass} {n : ℕ} {t : HuffTbl} {u : Codec} (h : HuffSet k n t s u) :
    u.huffTbl k n = t := by
  obtain ⟨flag, rfl⟩ := h
  simp [Codec.setHuff]

theorem huffSet_zero (k : HuffClass) (n : ℕ) (s : Codec) :
    HuffSet k n { s.huffTbl k n with bits := Function.update (s.huffTbl k n).bits 0 0 } s (s.setBits k n 0 0) :=
  ⟨s.usingDefaultHuffTab, rfl⟩

theorem reads_huffBit {k : HuffClass} {n : ℕ} {t : HuffTbl} {u : Codec} (h : HuffSet k n t s u) (i : ℕ) (c : UInt8) :
    Reads (huffBit k n i) [c] u fun _ => HuffSet k n { t with bits := Function.update t.bits i c } s :=
  reads_getChar_bind (reads_touch_bind (reads_touch_bind (reads_modify (h.setBits i c _))))

theorem reads_huffValue {k : HuffClass} {n : ℕ} {t : HuffTbl} {u : Codec} (h : HuffSet k n t s u) (i : ℕ) (c : UInt8) :
    Reads (huffValue k n i) [c] u fun _ => HuffSet k n { t with huffval := Function.update t.huffval i c } s :=
  reads_getChar_bind (reads_touch_bind (reads_touch_bind (reads_modify (h.setHuffval i c _))))

theorem reads_huffBits {k : HuffClass} {n : ℕ} {t0 : HuffTbl} {u : Codec} (h : HuffSet k n t0 s u) (t : HuffTbl) :
    Reads (loop (huffBit k n) 1 16) ((List.range' 1 16).flatMap fun i => [t.bits i]) u
      fun _ v => ∃ t', HuffSet k n t' s v ∧ ∀ i, 1 ≤ i → i ≤ 16 → t'.bits i = t.bits i := by
  refine (Reads.loop (fun j v => ∃ t', HuffSet k n t' s v ∧ ∀ i, 1 ≤ i → i < j → t'.bits i = t.bits i) 1 16 ?_
    ⟨t0, h, fun i h1 h2 => absurd h1 (by omega)⟩).mono ?_
  · rintro j v - - ⟨t', hv, ht'⟩
    refine (reads_huffBit hv j (t.bits j)).mono ?_
    intro _ w hw
    refine ⟨_, hw, ?_⟩
    intro i h1 hi
    rcases Nat.lt_succ_iff_lt_or_eq.1 hi with hlt | rfl
    · exact (Function.update_of_ne (by omega) _ _).trans (ht' i h1 hlt)
    · exact Function.update_self _ _ _
  · rintro _ v ⟨t', hv, ht'⟩
    exact ⟨t', hv, fun i h1 hi => ht' i h1 (by omega)⟩

theorem reads_huffValues {k : HuffClass} {n : ℕ} {t0 : HuffTbl} {u : Codec} (h : HuffSet k n t0 s u) (t : HuffTbl)
    (count : ℕ) :
    Reads (loop (huffValue k n) 0 count) ((List.range' 0 count).flatMap fun i => [t.huffval i]) u
      fun _ v => ∃ t', HuffSet k n t' s v ∧ t'.bits = t0.bits ∧ ∀ i < count, t'.huffval i = t.huffval i := by
  refine (Reads.loop (fun j v => ∃ t', HuffSet k n t' s v ∧ t'.bits = t0.bits ∧ ∀ i < j, t'.huffval i = t.huffval i)
    0 count ?_ ⟨t0, h, rfl, fun i hi => absurd hi (Nat.not_lt_zero i)⟩).mono ?_
  · rintro j v - - ⟨t', hv, hbits, ht'⟩
    refine (reads_huffValue hv j (t.huffval j)).mono ?_
    intro _ w hw
    refine ⟨_, hw, hbits, ?_⟩
    intro i hi
    rcases Nat.lt_succ_iff_lt_or_eq.1 hi with hlt | rfl
    · exact (Function.update_of_ne (by omega) _ _).trans (ht' i hlt)
    · exact Function.update_self _ _ _
  · rintro _ v ⟨t', hv, hbits, ht'⟩
    exact ⟨t', hv, hbits, fun i hi => ht' i (by omega)⟩

/-- tables with the same counts have as many symbols -/
theorem count_congr {t u : HuffTbl} (h : ∀ i, 1 ≤ i → i ≤ 16 → t.bits i = u.bits i) : t.count = u.count := by
  unfold HuffTbl.count
  refine congrArg List.sum (List.map_congr_left ?_)
  intro i hi
  have hmem := List.mem_range'_1.1 hi
  rw [h i hmem.1 (by omega)]

/-- what stands behind the length of a DHT segment -/
def dhtBody (index : ℕ) (t : HuffTbl) : List UInt8 :=
  putC index ++ (((List.range' 1 16).flatMap fun i => [t.bits i]) ++
    (List.range' 0 t.count).flatMap fun i => [t.huffval i])

theorem reads_huffTable {k : HuffClass} {n index : ℕ} {t : HuffTbl} (hpick : huffPick (UInt8.ofNat index) = (k, n))
    (hcount : t.count ≤ 256) :
    Reads huffTable (dhtBody index t) s fun count v => count = t.count ∧ ∃ t', HuffSet k n t' s v ∧ t'.Same t := by
  refine reads_putC ?_
  rw [hpick]
  refine reads_touch_bind (reads_touch_bind (reads_modify_bind ?_))
  refine Reads.bind (reads_huffBits (huffSet_zero k n s) t) ?_
  rintro _ v ⟨t', hv, hbits⟩
  refine reads_get_bind ?_
  rw [hv.huffTbl, count_congr hbits, ← List.append_nil (List.flatMap _ _)]
  refine reads_demand_bind hcount (Reads.bind (reads_huffValues hv t t.count) ?_)
  rintro _ w ⟨t'', hw, hbits', hvals⟩
  refine reads_pure ⟨rfl, t'', hw, ?_, hvals⟩
  intro i h1 hi
  rw [hbits']
  exact hbits i h1 hi

/-- the values in chunks of 32 and what is left -/
theorem huff_chunks (f : ℕ → List UInt8) (count : ℕ) :
    ((List.range' 0 (count / 32)).flatMap fun b => (List.range' (32 * b) 32).flatMap f) ++
      (List.range' (32 * (count / 32)) (count % 32)).flatMap f = (List.range' 0 count).flatMap f := by
  have hchunks : ∀ m, ((List.range' 0 m).flatMap fun b => (List.range' (32 * b) 32).flatMap f) =
      (List.range' 0 (32 * m)).flatMap f := by
    intro m
    induction m with
    | zero => rfl
    | succ m ih =>
      rw [List.range'_1_concat, List.flatMap_append, ih, Nat.mul_succ, ← List.range'_append_1, List.flatMap_append]
      simp
  rw [hchunks, ← List.flatMap_append]
  have hsplit := @List.range'_append_1 0 (32 * (count / 32)) (count % 32)
  rw [Nat.zero_add, Nat.div_add_mod] at hsplit
  rw [hsplit]

theorem putOneHuffTbl_eq (index : ℕ) (t : HuffTbl) :
    putOneHuffTbl index t = 0xFF :: 0xC4 :: (putW (19 + t.count) ++ dhtBody index t) := by
  simp only [putOneHuffTbl, dhtBody, putMarker, List.append_assoc, huff_chunks, List.cons_append, List.nil_append]

theorem reads_getHuffTbl {k : HuffClass} {n index : ℕ} {t : HuffTbl} (hpick : huffPick (UInt8.ofNat index) = (k, n))
    (hcount : t.count ≤ 256) :
    Reads getHuffTbl (putW (19 + t.count) ++ dhtBody index t) s fun _ v => ∃ t', HuffSet k n t' s v ∧ t'.Same t := by
  refine reads_putW (by omega) (reads_demand_bind (by omega) ?_)
  rw [show 19 + t.count - 2 = 16 + t.count + 1 by omega, huffTables, if_neg (by omega), ← List.append_nil (dhtBody _ _)]
  refine Reads.bind (reads_huffTable hpick hcount) ?_
  intro count v hv
  rw [hv.1]
  refine reads_demand_bind (by omega) ?_
  rw [show 16 + t.count + 1 - (1 + 16 + t.count) = 0 by omega]
  have hdone : huffTables (16 + t.count) 0 = pure () := by
    cases h : 16 + t.count with
    | zero => rfl
    | succ m => rfl
  rw [hdone]
  exact reads_pure hv.2

/-! ## DRI -/

theorem reads_getDRI {w : ℕ} (hw : w < 65536) :
    Reads getDRI (putW 4 ++ putW w) s fun _ t =>
      t = { s with restartInterval := w, restartToGo := w, nextRestartNum := 0 } := by
  refine reads_putW (by decide) (reads_demand_bind (by decide) ?_)
  rw [← List.append_nil (putW w)]
  exact reads_putW hw (reads_modify rfl)

/-! ## SOS -/

theorem reads_findComponent (i : ℕ) (cc : UInt8) (ci n : ℕ) :
    Reads (findComponent i cc ci n) [] s fun _ t => ∃ map, t = { s with compIdMap := map } := by
  induction n generalizing ci with
  | zero => exact reads_pure ⟨s.compIdMap, rfl⟩
  | succ n ih =>
    refine reads_get_bind (reads_touch_bind ?_)
    split_ifs with h
    · exact reads_touch_bind (reads_modify ⟨_, rfl⟩)
    · exact ih (ci + 1)

/-- s with the Huffman ids of e's first n components -/
def SosSet (e : Encoder) (s : Codec) (n : ℕ) (t : Codec) : Prop :=
  ∃ map tm, t = { s with compIdMap := map, tblMap := tm } ∧
    (∀ i < n, tm i = { e.tblMap i with quantTblId := (s.tblMap i).quantTblId }) ∧ ∀ i, n ≤ i → tm i = s.tblMap i

theorem sosSet_zero (e : Encoder) (s : Codec) : SosSet e s 0 s :=
  ⟨s.compIdMap, s.tblMap, rfl, fun _ h => absurd h (Nat.not_lt_zero _), fun _ _ => rfl⟩

theorem huffIds_byte {dc ac : ℕ} (hdc : dc < JPEG_FW_NUM_HUFF_TBLS) (hac : ac < JPEG_FW_NUM_HUFF_TBLS) :
    (UInt8.ofNat (16 * dc ||| ac)).toNat / 16 = dc ∧ (UInt8.ofNat (16 * dc ||| ac)).toNat % 16 = ac := by
  unfold JPEG_FW_NUM_HUFF_TBLS at hdc hac
  interval_cases dc <;> interval_cases ac <;> decide

theorem reads_sosComponent {e : Encoder} (h : e.InRange) {t : Codec} {i : ℕ} (hi : i < 3) (ht : SosSet e s i t) :
    Reads (sosComponent i) (putSOSComponent e i) t fun _ => SosSet e s (i + 1) := by
  obtain ⟨hdc, hac⟩ := huffIds_byte (h.dcHuffTblId i hi) (h.acHuffTblId i hi)
  unfold putSOSComponent
  rw [← List.append_nil (putC (i + 1) ++ _), List.append_assoc]
  refine reads_putC (reads_putC ?_)
  rw [hdc, hac]
  have hid : (UInt8.ofNat (i + 1)).toNat = i + 1 := by
    rw [UInt8.toNat_ofNat']
    omega
  refine reads_demand_bind hid (reads_touch_bind (reads_modify_then ?_))
  intro u hu
  refine reads_get_bind ((reads_findComponent i _ 0 _).mono ?_)
  rintro _ v ⟨map, rfl⟩
  obtain ⟨map', tm, rfl, hbefore, hbehind⟩ := ht
  refine ⟨map, u.tblMap, by rw [hu], ?_, ?_⟩
  · intro m hm
    rw [hu]
    dsimp only
    rcases Nat.lt_succ_iff_lt_or_eq.1 hm with hlt | rfl
    · rw [Function.update_of_ne (by omega)]
      exact hbefore m hlt
    · rw [Function.update_self, hbehind m le_rfl]
  · intro m hm
    rw [hu]
    dsimp only
    rw [Function.update_of_ne (by omega)]
    exact hbehind m (by omega)

def sosBody (e : Encoder) : List UInt8 :=
  putW 12 ++ (putC 3 ++ ((List.range' 0 3).flatMap (putSOSComponent e) ++ (putC 0 ++ (putC 63 ++ putC 0))))

theorem putSOS_eq (e : Encoder) : putSOS e = 0xFF :: 0xDA :: sosBody e := by
  simp only [putSOS, sosBody, putMarker, List.append_assoc, List.cons_append, List.nil_append]

/-- s with what e's SOS segment says -/
structure SosRead (e : Encoder) (s t : Codec) : Prop where
  width : t.inputWidth = s.inputWidth
  height : t.inputHeight = s.inputHeight
  format : t.inputMcuInfo = s.inputMcuInfo
  tblMap : ∀ i < 3, t.tblMap i = { e.tblMap i with quantTblId := (s.tblMap i).quantTblId }
  quantTbl : t.quantTbl = s.quantTbl
  huffTbl : t.huffTbl = s.huffTbl
  restartInterval : t.restartInterval = s.restartInterval

theorem reads_getSOS {e : Encoder} (h : e.InRange) : Reads getSOS (sosBody e) s fun _ => SosRead e s := by
  refine reads_putW (by decide) (reads_demand_bind (by decide) ?_)
  refine reads_putC (reads_demand_bind (by decide) (reads_modify_then ?_))
  intro s1 h1
  refine Reads.bind (Reads.loop (SosSet e s1) 0 3 ?_ (sosSet_zero e s1)) ?_
  · intro i t _ hi ht
    exact reads_sosComponent h (by omega) ht
  · rintro _ t ⟨map, tm, rfl, htm, -⟩
    refine reads_putC (reads_putC (reads_modify_then ?_))
    intro s2 h2
    rw [← List.append_nil (putC 0)]
    refine reads_putC (reads_modify ?_)
    have htm' : ∀ i < 3, tm i = { e.tblMap i with quantTblId := (s.tblMap i).quantTblId } := by
      intro i hi
      rw [htm i (by omega), h1]
    refine ⟨?_, ?_, ?_, ?_, ?_, ?_, ?_⟩
    · rw [h2, h1]
    · rw [h2, h1]
    · rw [h2, h1]
    · rw [h2]
      exact htm'
    · rw [h2, h1]
    · rw [h2, h1]
    · rw [h2, h1]

/-! ## The header -/

section Header

variable {ndebug : Bool} {e : Encoder}

/-- a stage of the parse from s0: the DQT segments of the tables below n are read -/
def QuantRead (e : Encoder) (n : ℕ) (s0 s : Codec) : Prop :=
  ∃ q flag, s = { s0 with quantTbl := q, usingDefaultQuantTab := flag } ∧
    ∀ i < n, ∃ t, q i = some t ∧ ∀ k < 64, t k = e.quantTbl i k

theorem quantRead_zero (e : Encoder) (s0 : Codec) : QuantRead e 0 s0 s0 :=
  ⟨s0.quantTbl, s0.usingDefaultQuantTab, rfl, fun _ h => absurd h (Nat.not_lt_zero _)⟩

theorem QuantRead.next {n : ℕ} {s0 t : Codec} {q : ℕ → UInt8} (h : QuantRead e n s0 s) (hq : QuantSet n q s t)
    (heq : ∀ k < 64, q k = e.quantTbl n k) : QuantRead e (n + 1) s0 t := by
  obtain ⟨qs, flag, rfl, hqs⟩ := h
  subst hq
  refine ⟨_, _, rfl, ?_⟩
  intro i hi
  rcases Nat.lt_succ_iff_lt_or_eq.1 hi with hlt | rfl
  · rw [Function.update_of_ne (by omega)]
    exact hqs i hlt
  · exact ⟨q, Function.update_self _ _ _, heq⟩

/-- s0 with Huffman tables; those in the list are e's -/
def HuffRead (e : Encoder) (done : List (HuffClass × ℕ)) (s0 s : Codec) : Prop :=
  ∃ h flag, s = { s0 with huffTbl := h, usingDefaultHuffTab := flag } ∧
    ∀ kn ∈ done, (h kn.1 kn.2).Same (e.huffTbl kn.1 kn.2)

theorem huffRead_zero (e : Encoder) (s0 : Codec) : HuffRead e [] s0 s0 :=
  ⟨s0.huffTbl, s0.usingDefaultHuffTab, rfl, fun _ h => absurd h List.not_mem_nil⟩

theorem HuffRead.next {done : List (HuffClass × ℕ)} {k : HuffClass} {n : ℕ} {s0 t : Codec} {tbl : HuffTbl}
    (h : HuffRead e done s0 s) (ht : HuffSet k n tbl s t) (hsame : tbl.Same (e.huffTbl k n)) :
    HuffRead e ((k, n) :: done) s0 t := by
  obtain ⟨hs, flag, rfl, hdone⟩ := h
  obtain ⟨flag', rfl⟩ := ht
  refine ⟨Function.update hs k (Function.update (hs k) n tbl), flag', rfl, ?_⟩
  rintro ⟨k', n'⟩ hmem
  by_cases heq : (k', n') = (k, n)
  · obtain ⟨rfl, rfl⟩ := Prod.mk.inj heq
    simpa using hsame
  · have hold := hdone (k', n') (List.mem_of_ne_of_mem heq hmem)
    by_cases hk : k' = k
    · subst hk
      have hn : n' ≠ n := fun h => heq (by rw [h])
      simpa [hn] using hold
    · simpa [hk] using hold

theorem reads_getNextMarker {α : Type} {f : UInt8 → Dec α} {c : UInt8} {seg : List UInt8} {Q : α → Codec → Prop}
    (h0 : c ≠ 0) (h1 : c ≠ 0xFF) (h : Reads (f c) seg s Q) :
    Reads (getNextMarker >>= f) (0xFF :: c :: seg) s Q := by
  refine Reads.bind (p := getNextMarker) (l := [0xFF, c]) (Q := fun a t => a = c ∧ t = s) ?_ ?_
  · intro r
    have hmarker : nextMarker false ([0xFF, c] ++ r) = some (c, r) := by simp [nextMarker, h0, h1]
    have hget : getNextMarker ([0xFF, c] ++ r) s = ⟨some c, r, s, []⟩ := by
      unfold getNextMarker
      rw [hmarker]
    rw [hget]
    exact ⟨c, rfl, rfl, rfl, rfl⟩
  · rintro _ _ ⟨rfl, rfl⟩
    exact h

theorem reads_findSOI (fuel : ℕ) : Reads (findSOI (fuel + 1)) (putMarker 0xD8) s fun _ t => t = s := by
  refine reads_getNextMarker (by decide) (by decide) ?_
  rw [if_neg (by decide), if_pos rfl]
  exact reads_pure rfl

/-- a segment whose handler reads it -/
theorem reads_segment {g : Segment} {c : UInt8} {fuel : ℕ} {l more : List UInt8} {Q : Codec → Prop}
    {Q' : UInt8 → Codec → Prop} (hc : marker c = .segment g) (h0 : c ≠ 0) (h1 : c ≠ 0xFF)
    (h : Reads (handler ndebug g) l s fun _ => Q)
    (hmore : ∀ t, Q t → Reads (processTables ndebug fuel) more t Q') :
    Reads (processTables ndebug (fuel + 1)) (0xFF :: c :: l ++ more) s Q' := by
  refine reads_getNextMarker h0 h1 ?_
  rw [hc]
  exact Reads.bind h fun _ => hmore

/-- the marker of the scan -/
theorem reads_stop (fuel : ℕ) :
    Reads (processTables ndebug (fuel + 1)) [0xFF, 0xDA] s fun c t => c = 0xDA ∧ t = s :=
  reads_getNextMarker (by decide) (by decide) (reads_pure ⟨rfl, rfl⟩)

/-- the segments before the scan and its marker -/
theorem writeHead_eq (e : Encoder) : writeHead e = putMarker 0xD8 ++
    ((0xFF :: 0xE0 :: (putW 16 ++ app0Body)) ++ ((0xFF :: 0xDB :: dqtBody 0 (e.quantTbl 0)) ++
    ((0xFF :: 0xDB :: dqtBody 1 (e.quantTbl 1)) ++ ((0xFF :: 0xC0 :: sofBody e) ++
    ((0xFF :: 0xC4 :: (putW (19 + (e.huffTbl .dc 0).count) ++ dhtBody 0x00 (e.huffTbl .dc 0))) ++
    ((0xFF :: 0xC4 :: (putW (19 + (e.huffTbl .ac 0).count) ++ dhtBody 0x10 (e.huffTbl .ac 0))) ++
    ((0xFF :: 0xC4 :: (putW (19 + (e.huffTbl .dc 1).count) ++ dhtBody 0x01 (e.huffTbl .dc 1))) ++
    ((0xFF :: 0xC4 :: (putW (19 + (e.huffTbl .ac 1).count) ++ dhtBody 0x11 (e.huffTbl .ac 1))) ++
    (writeDRI e ++ [0xFF, 0xDA]))))))))) ++ sosBody e := by
  have hquant : putQuantTbl e = putOneQuantTbl e 0 ++ putOneQuantTbl e 1 := by
    simp [putQuantTbl, List.range'_succ]
  simp only [writeHead, hquant, putOneQuantTbl_eq, putAPP0_eq, putSOF0_eq, putHuffTbl, putOneHuffTbl_eq, putSOS_eq,
    JPEG_FW_LUM_ID, JPEG_FW_CHR_ID, List.append_assoc, List.cons_append, List.nil_append]

/-- what the segments before the scan say -/
structure TablesRead (e : Encoder) (s0 s : Codec) : Prop where
  width : s.inputWidth = e.width.toNat
  height : s.inputHeight = e.height.toNat
  format : ∀ i < 3, initRatio s.inputMcuInfo i = e.ratio i
  quantTblId : ∀ i < 3, (s.tblMap i).quantTblId = (e.tblMap i).quantTblId
  quantTbl : ∀ n < 2, ∃ q, s.quantTbl n = some q ∧ ∀ k < 64, q k = e.quantTbl n k
  huffTbl : ∀ k, ∀ n < 2, (s.huffTbl k n).Same (e.huffTbl k n)
  restartInterval : s.restartInterval =
    if e.restartInterval = 0 then s0.restartInterval else e.restartInterval.toNat

theorem tablesRead {s0 s1 s2 s3 t : Codec} (h1 : QuantRead e 2 s0 s1) (h2 : SofRead e s1 s2)
    (h3 : HuffRead e [(.ac, 1), (.dc, 1), (.ac, 0), (.dc, 0)] s2 s3)
    (h4 : t = if e.restartInterval = 0 then s3 else { s3 with
      restartInterval := e.restartInterval.toNat, restartToGo := e.restartInterval.toNat, nextRestartNum := 0 }) :
    TablesRead e s0 t := by
  obtain ⟨hs, flag, rfl, hdone⟩ := h3
  have hhuff : ∀ k, ∀ n < 2, (hs k n).Same (e.huffTbl k n) := by
    intro k n hn
    refine hdone (k, n) ?_
    interval_cases n <;> cases k <;> decide
  obtain ⟨qs, flag', rfl, hquant⟩ := h1
  have hq : s2.quantTbl = qs := h2.quantTbl
  have hr : s2.restartInterval = s0.restartInterval := h2.restartInterval
  subst hq
  by_cases h0 : e.restartInterval = 0
  · rw [if_pos h0] at h4
    subst h4
    exact ⟨h2.width, h2.height, h2.format, h2.quantTblId, hquant, hhuff, by rw [if_pos h0]; exact hr⟩
  · rw [if_neg h0] at h4
    subst h4
    exact ⟨h2.width, h2.height, h2.format, h2.quantTblId, hquant, hhuff, by rw [if_neg h0]⟩

theorem reads_tables (h : e.InRange) (s0 : Codec) (fuel : ℕ) : Reads (processTables ndebug (fuel + 10))
    ((0xFF :: 0xE0 :: (putW 16 ++ app0Body)) ++ ((0xFF :: 0xDB :: dqtBody 0 (e.quantTbl 0)) ++
    ((0xFF :: 0xDB :: dqtBody 1 (e.quantTbl 1)) ++ ((0xFF :: 0xC0 :: sofBody e) ++
    ((0xFF :: 0xC4 :: (putW (19 + (e.huffTbl .dc 0).count) ++ dhtBody 0x00 (e.huffTbl .dc 0))) ++
    ((0xFF :: 0xC4 :: (putW (19 + (e.huffTbl .ac 0).count) ++ dhtBody 0x10 (e.huffTbl .ac 0))) ++
    ((0xFF :: 0xC4 :: (putW (19 + (e.huffTbl .dc 1).count) ++ dhtBody 0x01 (e.huffTbl .dc 1))) ++
    ((0xFF :: 0xC4 :: (putW (19 + (e.huffTbl .ac 1).count) ++ dhtBody 0x11 (e.huffTbl .ac 1))) ++
    (writeDRI e ++ [0xFF, 0xDA]))))))))) s0 fun c t => c = 0xDA ∧ TablesRead e s0 t := by
  refine reads_segment (g := .app0) (by decide) (by decide) (by decide) reads_getAPP0 ?_
  rintro _ rfl
  refine reads_segment (g := .dqt) (by decide) (by decide) (by decide) (reads_getQuantTbl (by decide) _) ?_
  rintro t ⟨q, hset, hq⟩
  have h1 := (quantRead_zero e _).next hset hq
  refine reads_segment (g := .dqt) (by decide) (by decide) (by decide) (reads_getQuantTbl (by decide) _) ?_
  rintro s1 ⟨q', hset', hq'⟩
  have h2 := h1.next hset' hq'
  refine reads_segment (g := .sof false) (by decide) (by decide) (by decide) (reads_getSOF h ndebug) ?_
  intro s2 hsof
  refine reads_segment (g := .dht) (by decide) (by decide) (by decide)
    (reads_getHuffTbl (k := .dc) (n := 0) (by decide) (h.count .dc 0 (by decide))) ?_
  rintro t1 ⟨_, ht1, hsame1⟩
  refine reads_segment (g := .dht) (by decide) (by decide) (by decide)
    (reads_getHuffTbl (k := .ac) (n := 0) (by decide) (h.count .ac 0 (by decide))) ?_
  rintro t2 ⟨_, ht2, hsame2⟩
  refine reads_segment (g := .dht) (by decide) (by decide) (by decide)
    (reads_getHuffTbl (k := .dc) (n := 1) (by decide) (h.count .dc 1 (by decide))) ?_
  rintro t3 ⟨_, ht3, hsame3⟩
  refine reads_segment (g := .dht) (by decide) (by decide) (by decide)
    (reads_getHuffTbl (k := .ac) (n := 1) (by decide) (h.count .ac 1 (by decide))) ?_
  rintro t4 ⟨_, ht4, hsame4⟩
  have hhuff := ((((huffRead_zero e s2).next ht1 hsame1).next ht2 hsame2).next ht3 hsame3).next ht4 hsame4
  by_cases h0 : e.restartInterval = 0
  · rw [writeDRI, if_neg (not_not.2 h0), List.nil_append]
    refine (reads_stop _).mono ?_
    rintro c _ ⟨rfl, rfl⟩
    exact ⟨rfl, tablesRead h2 hsof hhuff (by rw [if_pos h0])⟩
  · have hmod : e.restartInterval.toNat % 2 ^ 16 = e.restartInterval.toNat := Nat.mod_eq_of_lt h.restartInterval
    rw [writeDRI, if_pos h0, hmod]
    refine reads_segment (g := .dri) (l := putW 4 ++ putW e.restartInterval.toNat) (by decide) (by decide) (by decide)
      (reads_getDRI h.restartInterval) ?_
    rintro t5 rfl
    refine (reads_stop _).mono ?_
    rintro c _ ⟨rfl, rfl⟩
    exact ⟨rfl, tablesRead h2 hsof hhuff (by rw [if_neg h0])⟩

/-- **Header round trip.** For every encoder in range and every codec before: the parser takes the whole of the header
that is written, succeeds and has what the encoder had -/
theorem header_round_trip (ndebug : Bool) (e : Encoder) (s0 : Codec) (h : e.InRange) :
    (parseHead ndebug (writeHead e) s0).val = some () ∧ (parseHead ndebug (writeHead e) s0).rest = [] ∧
      Recovers e s0 (parseHead ndebug (writeHead e) s0).st := by
  have hlen : ∃ fuel, (writeHead e).length + 1 = fuel + 10 := by
    refine ⟨(writeHead e).length - 9, ?_⟩
    have happ0 : putAPP0.length = 18 := by decide
    have hsum : 18 ≤ (writeHead e).length := by
      rw [writeHead_eq, List.length_append, List.length_append, List.length_append, ← putAPP0_eq]
      omega
    omega
  obtain ⟨fuel, hfuel⟩ := hlen
  have hreads : Reads (do
      findSOI ((writeHead e).length + 1)
      let c ← processTables ndebug ((writeHead e).length + 1)
      demand (c = 0xDA)
      getSOS : Dec Unit) (writeHead e) s0 fun _ t => Recovers e s0 t := by
    rw [hfuel, writeHead_eq, List.append_assoc]
    refine Reads.bind (reads_findSOI _) ?_
    rintro _ _ rfl
    refine Reads.bind (reads_tables h _ fuel) ?_
    rintro c t ⟨rfl, ht⟩
    refine reads_demand_bind rfl ((reads_getSOS h).mono ?_)
    intro _ u hu
    refine ⟨hu.width.trans ht.width, hu.height.trans ht.height, ?_, ?_, ?_, ?_,
      hu.restartInterval.trans ht.restartInterval⟩
    · rw [hu.format]
      exact ht.format
    · intro i hi
      rw [hu.tblMap i hi, ht.quantTblId i hi]
    · rw [hu.quantTbl]
      exact ht.quantTbl
    · rw [hu.huffTbl]
      exact ht.huffTbl
  obtain ⟨a, hval, hrest, hst⟩ := hreads []
  rw [List.append_nil] at hval hrest hst
  exact ⟨hval, hrest, hst⟩

end Header

/-- an encoder with the default Huffman tables -/
def defaultEncoder : Encoder where
  width := 640
  height := 480
  ratio := fun i => if i = 0 then ⟨2, 1⟩ else ⟨1, 1⟩
  tblMap := fun i => if i = 0 then ⟨0, 0, 0⟩ else ⟨1, 1, 1⟩
  huffTbl := fun k n => ⟨fun i => (defaultBits k n).getD i 0, fun i => (defaultHuffval k n).getD i 0⟩
  quantTbl := fun _ k => UInt8.ofNat (k + 1)
  restartInterval := 40

theorem defaultEncoder_inRange : defaultEncoder.InRange where
  luma := Or.inr (Or.inl rfl)
  chroma := ⟨rfl, rfl⟩
  quantTblId := by decide
  dcHuffTblId := by decide
  acHuffTblId := by decide
  count := by
    intro k n hn
    interval_cases n <;> cases k <;> decide
  restartInterval := by decide

theorem header_round_trip_default :
    (parseHead false (writeHead defaultEncoder) Codec.init).val = some () ∧
      (parseHead false (writeHead defaultEncoder) Codec.init).rest = [] ∧
      Recovers defaultEncoder Codec.init (parseHead false (writeHead defaultEncoder) Codec.init).st :=
  header_round_trip false defaultEncoder Codec.init defaultEncoder_inRange

end SprdDevice.Jpeg
