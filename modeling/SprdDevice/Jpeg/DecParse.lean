/-
The JPEG header parser (`jpegdec_parse.c`, `ParseHead` and what it calls) on a byte stream (`get_char`).

- `Codec` is what the handlers keep in `JPEG_CODEC_T` and `JPEG_DEC_INPUT_PARA_T`. Arrays are functions, and each access
  is logged with its index and the size of its array.
- `JpegDec_ExtraMemAlloc` has room for what is asked; of 0 bytes it is an assertion, which stops the program or, with
  `ndebug`, does nothing. A `get_char` that gives no byte ends the handler.
- A handler that succeeds gives a value, one that does not gives none. `GetNextMarker` reads on until it has a marker.
-/
import Mathlib.Tactic
import SprdDevice.Lib.Parse
import SprdDevice.Jpeg.Tables

namespace SprdDevice.Jpeg

open SprdDevice.Parse

/-! ## Data -/

/-- `TBL_MAP_T` -/
structure TblMap where
  dcHuffTblId : ℕ
  acHuffTblId : ℕ
  quantTblId : ℕ
deriving DecidableEq, Repr

/-- `jpeg_component_info`, as far as the header sets it -/
structure ComponentInfo where
  componentId : UInt8
  componentIndex : ℕ
  hSampFactor : ℕ
  vSampFactor : ℕ
  mcuWidth : ℕ
  mcuHeight : ℕ
deriving DecidableEq, Repr

/-- `HUFF_TBL_T` -/
structure HuffTbl where
  bits : ℕ → UInt8
  huffval : ℕ → UInt8

inductive HuffClass where
  | dc
  | ac
deriving DecidableEq, Repr

/-- `JPEG_FW_YUV` -/
inductive Yuv where
  | yuv400
  | yuv444
  | yuv422
  | yuv411
  | yuv411R
  | yuv420
  | yuv422R
deriving DecidableEq, Repr

structure Codec where
  inputHeight : ℕ
  inputWidth : ℕ
  progressiveMode : Bool
  inputMcuInfo : Yuv
  numComponents : ℕ
  /-- the entries of `comp_info`, none while it is a null pointer -/
  compInfoLen : ℕ
  compInfo : ℕ → ComponentInfo
  tblMap : ℕ → TblMap
  compsInScan : ℕ
  compIdMap : ℕ → UInt8
  huffTbl : HuffClass → ℕ → HuffTbl
  usingDefaultHuffTab : Bool
  /-- none while it is a null pointer -/
  quantTbl : ℕ → Option (ℕ → UInt8)
  usingDefaultQuantTab : Bool
  restartInterval : ℕ
  restartToGo : ℕ
  nextRestartNum : ℕ
  ss : ℕ
  se : ℕ
  ah : ℕ
  al : ℕ
  inputScanNumber : ℕ

/-- the codec before the first header -/
def Codec.init : Codec where
  inputHeight := 0
  inputWidth := 0
  progressiveMode := false
  inputMcuInfo := .yuv400
  numComponents := 0
  compInfoLen := 0
  compInfo := fun _ => ⟨0, 0, 0, 0, 0, 0⟩
  tblMap := fun _ => ⟨0, 0, 0⟩
  compsInScan := 0
  compIdMap := fun _ => 0
  huffTbl := fun _ _ => ⟨fun _ => 0, fun _ => 0⟩
  usingDefaultHuffTab := true
  quantTbl := fun _ => none
  usingDefaultQuantTab := true
  restartInterval := 0x3ffff
  restartToGo := 0x3ffff
  nextRestartNum := 0
  ss := 0
  se := 0
  ah := 0
  al := 0
  inputScanNumber := 0

inductive Arr where
  | compInfo
  | tblMap
  | compIdMap
  | quantTbl
  | quant (n : ℕ)
  | zigzag
  | huffTbl (k : HuffClass)
  | bits (k : HuffClass) (n : ℕ)
  | huffval (k : HuffClass) (n : ℕ)
  | defaultBits (k : HuffClass) (n : ℕ)
  | defaultHuffval (k : HuffClass) (n : ℕ)
deriving DecidableEq, Repr

structure Access where
  arr : Arr
  idx : ℕ
  size : ℕ
deriving DecidableEq, Repr

def Access.Inside (a : Access) : Prop := a.idx < a.size

instance (a : Access) : Decidable a.Inside := inferInstanceAs (Decidable (a.idx < a.size))

abbrev Dec (α : Type) := Parser Codec Access α

def JPEG_FW_NUM_HUFF_TBLS : ℕ := 4

/-! ## Markers -/

/-- `GetNextMarker` behind a byte that is 0xFF, or not -/
def nextMarker : Bool → List UInt8 → Option (UInt8 × List UInt8)
  | _, [] => none
  | false, c :: r => nextMarker (c = 0xFF) r
  | true, c :: r =>
    if c = 0xFF then nextMarker true r
    -- a stuffed FF/00
    else if c = 0 then nextMarker false r
    else some (c, r)

def getNextMarker : Dec UInt8 := fun l s =>
  match nextMarker false l with
  | none => ⟨none, [], s, []⟩
  | some (c, r) => ⟨some c, r, s, []⟩

/-! ## Segments -/

/-- a value kept in an `int8` -/
def int8 (z : ℤ) : ℤ := (z + 128) % 256 - 128

def ComponentInfo.ratio (k : ComponentInfo) : ℕ := 16 * k.hSampFactor + k.vSampFactor

/-- the sample format of the first component's ratio -/
def sampleFormat (ratio : ℕ) : Option Yuv :=
  if ratio = 0x11 then some .yuv444
  else if ratio = 0x21 then some .yuv422
  else if ratio = 0x41 then some .yuv411
  else if ratio = 0x14 then some .yuv411R
  else if ratio = 0x22 then some .yuv420
  else if ratio = 0x12 then some .yuv422R
  else none

/-- a component of `GetSOF` -/
def sofComponent (componentNum ci : ℕ) : Dec Unit := do
  let id ← getChar
  touch ⟨.compInfo, ci, componentNum⟩
  modify fun s => { s with
    compInfo := Function.update s.compInfo ci
      { s.compInfo ci with componentIndex := ci, componentId := id } }
  let yuvId := int8 (int8 id.toNat - 1)
  demand (¬ (yuvId < 0 ∨ 2 < yuvId))
  let c ← getChar
  let h := c.toNat / 16
  let v := c.toNat % 16
  modify fun s => { s with
    compInfo := Function.update s.compInfo ci
      { s.compInfo ci with
        hSampFactor := h
        vSampFactor := v
        mcuWidth := if ci = 0 then h else 1
        mcuHeight := if ci = 0 then v else 1 } }
  let q ← getChar
  demand (q.toNat ≤ 2)
  touch ⟨.tblMap, yuvId.toNat, 3⟩
  modify fun s => { s with
    tblMap := Function.update s.tblMap yuvId.toNat { s.tblMap yuvId.toNat with quantTblId := q.toNat } }

/-- the end of `GetSOF` -/
def sofFormat (componentNum : ℕ) : Dec Unit := do
  touch ⟨.compInfo, 0, componentNum⟩
  let s ← get
  if componentNum = 1 then modify fun s => { s with inputMcuInfo := .yuv400 }
  else
    match sampleFormat (s.compInfo 0).ratio with
    | none => fail
    | some f => do
      modify fun s => { s with inputMcuInfo := f }
      touch ⟨.compInfo, 1, componentNum⟩
      demand ((s.compInfo 1).ratio = 0x11)
      if 2 < componentNum then do
        touch ⟨.compInfo, 2, componentNum⟩
        demand ((s.compInfo 2).ratio = 0x11)
      else pure ()

def getSOF (ndebug isProgressive : Bool) : Dec Unit := do
  modify fun s => { s with progressiveMode := isProgressive }
  let length ← getShortWord
  demand (8 ≤ length)
  let precision ← getChar
  demand (precision = 8)
  let height ← getShortWord
  let width ← getShortWord
  modify fun s => { s with inputHeight := height, inputWidth := width }
  let c ← getChar
  let componentNum := c.toNat
  demand (length = componentNum * 3 + 8)
  modify fun s => { s with numComponents := componentNum }
  -- `JpegDec_ExtraMemAlloc`
  demand (componentNum ≠ 0 ∨ ndebug = true)
  modify fun s => { s with compInfoLen := componentNum }
  loop (sofComponent componentNum) 0 componentNum
  sofFormat componentNum

/-- the search for the component of the scan's i-th -/
def findComponent (i : ℕ) (cc : UInt8) : ℕ → ℕ → Dec Unit
  | _, 0 => pure ()
  | ci, n + 1 => do
    let s ← get
    touch ⟨.compInfo, ci, s.compInfoLen⟩
    if cc = (s.compInfo ci).componentId then do
      touch ⟨.compIdMap, i, 3⟩
      modify fun s => { s with compIdMap := Function.update s.compIdMap i cc }
    else findComponent i cc (ci + 1) n

/-- a component of `GetSOS` -/
def sosComponent (i : ℕ) : Dec Unit := do
  let cc ← getChar
  let c ← getChar
  demand (cc.toNat = i + 1)
  touch ⟨.tblMap, i, 3⟩
  modify fun s => { s with
    tblMap := Function.update s.tblMap i
      { s.tblMap i with dcHuffTblId := c.toNat / 16, acHuffTblId := c.toNat % 16 } }
  let s ← get
  findComponent i cc 0 s.numComponents

def getSOS : Dec Unit := do
  let length ← getShortWord
  demand (3 ≤ length)
  let n ← getChar
  demand (length - 3 = n.toNat * 2 + 3)
  modify fun s => { s with compsInScan := n.toNat }
  loop sosComponent 0 n.toNat
  let ss ← getChar
  let se ← getChar
  modify fun s => { s with ss := ss.toNat, se := se.toNat }
  let c ← getChar
  modify fun s => { s with
    ah := c.toNat / 16
    al := c.toNat % 16
    nextRestartNum := 0
    inputScanNumber := (s.inputScanNumber + 1) % 256 }

def skipChar (_ : ℕ) : Dec Unit := do
  let _ ← getChar
  pure ()

def skipVariable : Dec Unit := do
  let length ← getShortWord
  demand (2 ≤ length)
  loop skipChar 0 (length - 2)

def getDRI : Dec Unit := do
  let length ← getShortWord
  demand (length = 4)
  let restartInterval ← getShortWord
  modify fun s => { s with restartInterval, restartToGo := restartInterval, nextRestartNum := 0 }

def JFIF_LEN : ℕ := 14

def getAPP0 : Dec Unit := do
  let length ← getShortWord
  demand (2 ≤ length)
  if JFIF_LEN ≤ length - 2 then do
    loop skipChar 0 JFIF_LEN
    loop skipChar 0 (length - 2 - JFIF_LEN)
  else pure ()

/-! ## Huffman tables -/

def defaultBits : HuffClass → ℕ → List UInt8
  | .ac, n => if n = 0 then lumAcBitsDefault else chrAcBitsDefault
  | .dc, n => if n = 0 then lumDcBitsDefault else chrDcBitsDefault

def defaultHuffval : HuffClass → ℕ → List UInt8
  | .ac, n => if n = 0 then lumAcHuffvalueDefault else chrAcHuffvalueDefault
  | .dc, n => if n = 0 then lumDcHuffvalueDefault else chrDcHuffvalueDefault

def Codec.setHuff (s : Codec) (k : HuffClass) (n : ℕ) (t : HuffTbl) : Codec :=
  { s with huffTbl := Function.update s.huffTbl k (Function.update (s.huffTbl k) n t) }

/-- a value that is not the default one -/
def Codec.noteDefault (s : Codec) (c default : UInt8) : Codec :=
  { s with usingDefaultHuffTab := s.usingDefaultHuffTab && (c == default) }

def Codec.setBits (s : Codec) (k : HuffClass) (n i : ℕ) (c : UInt8) : Codec :=
  s.setHuff k n { s.huffTbl k n with bits := Function.update (s.huffTbl k n).bits i c }

def Codec.setHuffval (s : Codec) (k : HuffClass) (n i : ℕ) (c : UInt8) : Codec :=
  s.setHuff k n { s.huffTbl k n with huffval := Function.update (s.huffTbl k n).huffval i c }

def huffBit (k : HuffClass) (n i : ℕ) : Dec Unit := do
  let c ← getChar
  touch ⟨.bits k n, i, 17⟩
  touch ⟨.defaultBits k n, i, (defaultBits k n).length⟩
  modify fun s => (s.setBits k n i c).noteDefault c ((defaultBits k n).getD i 0)

def huffValue (k : HuffClass) (n i : ℕ) : Dec Unit := do
  let c ← getChar
  touch ⟨.huffval k n, i, 257⟩
  touch ⟨.defaultHuffval k n, i, (defaultHuffval k n).length⟩
  modify fun s => (s.setHuffval k n i c).noteDefault c ((defaultHuffval k n).getD i 0)

/-- the number of symbols -/
def HuffTbl.count (t : HuffTbl) : ℕ := ((List.range' 1 16).map fun i => (t.bits i).toNat).sum

/-- the table a byte of the segment picks -/
def huffPick (c : UInt8) : HuffClass × ℕ :=
  let index := c.toNat &&& 0x13
  if index &&& 0x10 ≠ 0 then (.ac, index - 0x10) else (.dc, index)

/-- a table of `GetHuffTbl`; the value is the number of its symbols -/
def huffTable : Dec ℕ := do
  let c ← getChar
  let (k, n) := huffPick c
  touch ⟨.huffTbl k, n, JPEG_FW_NUM_HUFF_TBLS⟩
  touch ⟨.bits k n, 0, 17⟩
  modify fun s => s.setBits k n 0 0
  loop (huffBit k n) 1 16
  let s ← get
  let count := (s.huffTbl k n).count
  demand (count ≤ 256)
  loop (huffValue k n) 0 count
  pure count

/-- `while (length > 0)` of `GetHuffTbl` -/
def huffTables : ℕ → ℕ → Dec Unit
  | 0, _ => pure ()
  | fuel + 1, length =>
    if length = 0 then pure ()
    else do
      let count ← huffTable
      demand (1 + 16 + count ≤ length)
      huffTables fuel (length - (1 + 16 + count))

def getHuffTbl : Dec Unit := do
  let length ← getShortWord
  demand (2 ≤ length)
  huffTables (length - 2) (length - 2)

/-! ## Quantiser tables -/

def quantEntry (prec n j : ℕ) : Dec Unit := do
  let c ← if prec = 0 then (do let c ← getChar; pure c.toNat) else getShortWord
  touch ⟨.zigzag, j, 80⟩
  touch ⟨.quant n, zigzag j, 64⟩
  modify fun s => { s with
    quantTbl := Function.update s.quantTbl n
      ((s.quantTbl n).map fun t => Function.update t (zigzag j) (UInt8.ofNat c)) }

/-- a table of `GetQuantTbl`; the value is its precision and its id -/
def quantTable : Dec (ℕ × ℕ) := do
  let c ← getChar
  let prec := c.toNat / 16
  let n := c.toNat % 16
  demand (n ≤ 2)
  touch ⟨.quantTbl, n, 3⟩
  modify fun s => { s with quantTbl := Function.update s.quantTbl n (some fun _ => 0) }
  loop (quantEntry prec n) 0 64
  pure (prec, n)

/-- `while (length > 0)` of `GetQuantTbl`; the value is `has_two_chroma_quant_tbl` -/
def quantTables : ℕ → ℕ → Bool → Dec Bool
  | 0, _, two => pure two
  | fuel + 1, length, two =>
    if length = 0 then pure two
    else do
      let (prec, n) ← quantTable
      demand (64 + 1 + 64 * prec ≤ length)
      quantTables fuel (length - (64 + 1 + 64 * prec)) (two || decide (1 < n))

def quantSize (s : Codec) (n : ℕ) : ℕ := if (s.quantTbl n).isSome then 64 else 0

/-- an entry of the two chroma tables; a null pointer ends the program -/
def quantSame (j : ℕ) : Dec Unit := do
  let s ← get
  touch ⟨.quant 1, j, quantSize s 1⟩
  touch ⟨.quant 2, j, quantSize s 2⟩
  demand ((s.quantTbl 1).isSome ∧ (s.quantTbl 2).isSome ∧
    (s.quantTbl 1).map (fun t => t j) = (s.quantTbl 2).map fun t => t j)

def getQuantTbl : Dec Unit := do
  modify fun s => { s with usingDefaultQuantTab := false }
  let length ← getShortWord
  demand (2 ≤ length)
  let two ← quantTables (length - 2) (length - 2) false
  if two then loop quantSame 0 64 else pure ()

/-! ## The header -/

inductive Segment where
  | sof (isProgressive : Bool)
  | sos
  | dht
  | dqt
  | app0
  | dri
  /-- a segment that is skipped -/
  | other
deriving DecidableEq, Repr

def handler (ndebug : Bool) : Segment → Dec Unit
  | .sof isProgressive => getSOF ndebug isProgressive
  | .sos => getSOS
  | .dht => getHuffTbl
  | .dqt => getQuantTbl
  | .app0 => getAPP0
  | .dri => getDRI
  | .other => skipVariable

inductive Marker where
  | segment (g : Segment)
  /-- `M_SOI`, `M_EOI`, `M_SOS` -/
  | stop
  | unexpected
deriving DecidableEq, Repr

/-- the switch of `ProcessTables` -/
def marker (c : UInt8) : Marker :=
  if c = 0xC0 ∨ c = 0xC1 then .segment (.sof false)
  else if c = 0xC2 then .segment (.sof true)
  else if c = 0xD8 ∨ c = 0xD9 ∨ c = 0xDA then .stop
  else if c = 0xC4 then .segment .dht
  else if c = 0xDB then .segment .dqt
  else if c = 0xE0 then .segment .app0
  else if c = 0xDD then .segment .dri
  else if (0xC3 ≤ c ∧ c ≤ 0xCF) ∨ (0xD0 ≤ c ∧ c ≤ 0xD7) ∨ c = 0x01 then .unexpected
  else .segment .other

/-- `ProcessTables`; the value is the marker it returns -/
def processTables (ndebug : Bool) : ℕ → Dec UInt8
  | 0 => fail
  | fuel + 1 => do
    let c ← getNextMarker
    match marker c with
    | .stop => pure c
    | .unexpected => fail
    | .segment g => do
      handler ndebug g
      processTables ndebug fuel

/-- the search for SOI of `ParseHead` -/
def findSOI : ℕ → Dec Unit
  | 0 => fail
  | fuel + 1 => do
    let c ← getNextMarker
    if c = 0xD9 then fail
    else if c = 0xD8 then pure ()
    else findSOI fuel

/-- `ParseHead`; a marker takes two bytes, and the stream's length is more than there can be -/
def parseHead (ndebug : Bool) : Dec Unit := fun l s =>
  (do
    findSOI (l.length + 1)
    let c ← processTables ndebug (l.length + 1)
    demand (c = 0xDA)
    getSOS : Dec Unit) l s

end SprdDevice.Jpeg
