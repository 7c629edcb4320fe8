/-
The handlers of the engineering mode (`eng_diag.c`: `eng_diag_user_handle` and what it calls; `adc_calibration.c`:
`eng_battery_calibration`; `crc16.c`), as far as they make what is sent to the PC.

A command comes as the parser leaves it: its type, and the buffer with the header at byte 1. What a handler finds outside
(properties, the audio tuning, the AP commands, the product file, the test table, the ADC) is in `Handlers`; side effects
other than on the product file, and the reboot after a reset, are left out. An answer is what one `write` takes, with the
message it should carry: the header, then the response bytes. A handler that reads or writes outside a buffer gives none;
the request lies in `ext_data_buf`.

- VER, RESET, BTWIFI, FACTORYMODE, ADC, AUDIO and APCMD leave their bytes in a response buffer, and the end of
  `eng_diag_user_handle` puts the header of the request before them as they are;
- PRODUCT_CTRL, DIRECT_PHSCHK, MMICIT_READ, GETVOLTAGE and APCALI fill `eng_diag_buf` themselves, through `translate_packet`
  but for two echoes of the request.
-/
import Mathlib.Tactic
import SprdDevice.EngMode.ProductCtrl

namespace SprdDevice.EngMode

open SprdDevice.Escape SprdDevice.Memory SprdDevice.Word

/-! ## The checksum -/

def crc16Table : List UInt16 :=
  [ 0x0000, 0xC0C1, 0xC181, 0x0140, 0xC301, 0x03C0, 0x0280, 0xC241, 0xC601, 0x06C0, 0x0780, 0xC741, 0x0500, 0xC5C1,
    0xC481, 0x0440, 0xCC01, 0x0CC0, 0x0D80, 0xCD41, 0x0F00, 0xCFC1, 0xCE81, 0x0E40, 0x0A00, 0xCAC1, 0xCB81, 0x0B40,
    0xC901, 0x09C0, 0x0880, 0xC841, 0xD801, 0x18C0, 0x1980, 0xD941, 0x1B00, 0xDBC1, 0xDA81, 0x1A40, 0x1E00, 0xDEC1,
    0xDF81, 0x1F40, 0xDD01, 0x1DC0, 0x1C80, 0xDC41, 0x1400, 0xD4C1, 0xD581, 0x1540, 0xD701, 0x17C0, 0x1680, 0xD641,
    0xD201, 0x12C0, 0x1380, 0xD341, 0x1100, 0xD1C1, 0xD081, 0x1040, 0xF001, 0x30C0, 0x3180, 0xF141, 0x3300, 0xF3C1,
    0xF281, 0x3240, 0x3600, 0xF6C1, 0xF781, 0x3740, 0xF501, 0x35C0, 0x3480, 0xF441, 0x3C00, 0xFCC1, 0xFD81, 0x3D40,
    0xFF01, 0x3FC0, 0x3E80, 0xFE41, 0xFA01, 0x3AC0, 0x3B80, 0xFB41, 0x3900, 0xF9C1, 0xF881, 0x3840, 0x2800, 0xE8C1,
    0xE981, 0x2940, 0xEB01, 0x2BC0, 0x2A80, 0xEA41, 0xEE01, 0x2EC0, 0x2F80, 0xEF41, 0x2D00, 0xEDC1, 0xEC81, 0x2C40,
    0xE401, 0x24C0, 0x2580, 0xE541, 0x2700, 0xE7C1, 0xE681, 0x2640, 0x2200, 0xE2C1, 0xE381, 0x2340, 0xE101, 0x21C0,
    0x2080, 0xE041, 0xA001, 0x60C0, 0x6180, 0xA141, 0x6300, 0xA3C1, 0xA281, 0x6240, 0x6600, 0xA6C1, 0xA781, 0x6740,
    0xA501, 0x65C0, 0x6480, 0xA441, 0x6C00, 0xACC1, 0xAD81, 0x6D40, 0xAF01, 0x6FC0, 0x6E80, 0xAE41, 0xAA01, 0x6AC0,
    0x6B80, 0xAB41, 0x6900, 0xA9C1, 0xA881, 0x6840, 0x7800, 0xB8C1, 0xB981, 0x7940, 0xBB01, 0x7BC0, 0x7A80, 0xBA41,
    0xBE01, 0x7EC0, 0x7F80, 0xBF41, 0x7D00, 0xBDC1, 0xBC81, 0x7C40, 0xB401, 0x74C0, 0x7580, 0xB541, 0x7700, 0xB7C1,
    0xB681, 0x7640, 0x7200, 0xB2C1, 0xB381, 0x7340, 0xB101, 0x71C0, 0x7080, 0xB041, 0x5000, 0x90C1, 0x9181, 0x5140,
    0x9301, 0x53C0, 0x5280, 0x9241, 0x9601, 0x56C0, 0x5780, 0x9741, 0x5500, 0x95C1, 0x9481, 0x5440, 0x9C01, 0x5CC0,
    0x5D80, 0x9D41, 0x5F00, 0x9FC1, 0x9E81, 0x5E40, 0x5A00, 0x9AC1, 0x9B81, 0x5B40, 0x9901, 0x59C0, 0x5880, 0x9841,
    0x8801, 0x48C0, 0x4980, 0x8941, 0x4B00, 0x8BC1, 0x8A81, 0x4A40, 0x4E00, 0x8EC1, 0x8F81, 0x4F40, 0x8D01, 0x4DC0,
    0x4C80, 0x8C41, 0x4400, 0x84C1, 0x8581, 0x4540, 0x8701, 0x47C0, 0x4680, 0x8641, 0x8201, 0x42C0, 0x4380, 0x8341,
    0x4100, 0x81C1, 0x8081, 0x4040 ]

def crc16 (crc : UInt16) (buffer : List UInt8) : UInt16 :=
  buffer.foldl (fun crc b => (crc >>> 8) ^^^ crc16Table.getD ((crc ^^^ b.toUInt16) &&& 0xFF).toNat 0) crc

/-! ## What the handlers find -/

/-- a row of the test table, the two numbers as the bytes they are sent as -/
structure Row where
  groupid : UInt8
  value : UInt8
  name : List UInt8

/-- the means of 16 ADC values and of 16 voltages; what is loaded from the calibration file if it opens, and whether the
access to it succeeds -/
structure AdcIo where
  adc : ℤ
  voltage : ℤ
  para : Option Mem
  access : Bool

structure Handlers where
  /-- the property `ro.build.description` -/
  sprdver : List UInt8
  /-- the `REF_NVWriteDirect_T` with the two addresses read -/
  direct : Mem
  /-- the number that `adc_get_result` leaves, as a 32-bit word -/
  adcResult : ℕ
  /-- the string that `eng_diag_audio` leaves, if it stays inside its tables and its buffer -/
  audio : Option (List UInt8)
  /-- the string that the handler of the AP command leaves, if it stays inside its own -/
  linuxRsp : Option (List UInt8)
  file : Mem
  product : ProductIo
  /-- the result of `eng_sql_string2int_table_get` -/
  table : Option (List Row)
  cali : AdcIo

/-! ## The header -/

def msgHead (seqNum : List UInt8) (len : ℕ) (type subtype : UInt8) : List UInt8 := seqNum ++ le16Bytes len ++ [type, subtype]

/-- `translate_packet` into a buffer of `rsplen` bytes -/
def respond (rsplen : ℕ) (msg : List UInt8) : Option Answer :=
  if rsplen < (translated msg).wire.length then none else some (translated msg)

/-- the first n bytes of the request sent back -/
def echo (buf : Mem) (n : ℕ) : Answer := ⟨cells buf 1 (n - 2), cells buf 0 n⟩

/-! ## Handlers that leave a response -/

/-- what such a handler leaves: the bytes in the buffer, `extra_len`, the subtype in the header of the request, and the
response without the escapes that the handler has put in -/
structure Reply where
  rsp : List UInt8
  extraLen : ℕ
  subtype : UInt8
  plain : List UInt8

def unescaped (subtype : UInt8) (rsp : List UInt8) : Reply := ⟨rsp, 0, subtype, rsp⟩

/-- `sizeof(rsp)` -/
def rspSize : ℕ := 512

def engDiagGetver (sprdver : List UInt8) : List UInt8 := sprdver.take 248

/-- "OK" -/
def engDiagBootreset : List UInt8 := [0x4F, 0x4B]

/-- `sizeof(REF_NVWriteDirect_T)` -/
def directSize : ℕ := 106

def engDiagBtwifi (buf direct : Mem) : Reply :=
  if buf 8 &&& 0x80 = 0 then unescaped 1 [0, 0]
  else
    let crc := crc16 0 (cells direct 0 directSize)
    let (rsp, rlen, extraLen) := encode7d7e direct directSize 0
    -- the checksum stands behind the escaped bytes as it is
    { rsp := cells rsp 0 rlen ++ le16Bytes crc.toNat
      extraLen := extraLen
      subtype := 1
      plain := cells direct 0 directSize ++ le16Bytes crc.toNat }

/-- `eng_diag_btwifi` decodes the request once more from byte 9 on: with an escape in it that reads the byte behind it -/
def DecodeLeaves (buf : Mem) (len : ℕ) : Prop := extSize < len ∨ len = extSize ∧ ∃ j < len, 9 ≤ j ∧ Escapes (buf j)

instance decidableDecodeLeaves (buf : Mem) (len : ℕ) : Decidable (DecodeLeaves buf len) :=
  inferInstanceAs (Decidable (_ ∨ _ ∧ ∃ j < len, 9 ≤ j ∧ Escapes (buf j)))

def engDiagFactorymode (buf : Mem) : Reply := unescaped (if buf 9 = 0 ∨ buf 9 = 1 then 0 else 1) []

/-- the bytes of the number over the first four of the text "\r\nERROR\r\n", and `strlen` of the two -/
def engDiagAdc (adcResult : ℕ) : List UInt8 :=
  (le32Bytes adcResult ++ [0x52, 0x4F, 0x52, 0x0D, 0x0A]).takeWhile (· ≠ 0)

/-- `eng_diag_apcmd_hdlr` before it calls the handler of the command: the byte before the first 0x7E behind the header is
set to 0. The parser has taken the closing flag away, so there may be none up to the end of `ext_data_buf`. -/
def engDiagApcmdHdlr (buf : Mem) : Option Mem :=
  ((List.range (extSize - 9)).find? fun i => buf (9 + i) = 0x7E).map fun i => Function.update buf (9 + i - 1) 0

/-- the header of the request with its new length; `subtype` is the one that the handler has left in it -/
def replyHead (type : Cmd) (buf : Mem) (len : ℕ) (subtype : UInt8) : List UInt8 :=
  if type = .userAudio ∨ type = .userApcmd then msgHead [0, 0, 0, 0] len 0x9C 0
  else msgHead (cells buf 1 4) len (buf 7) (if type = .userAdc then 0 else subtype)

/-- the end of `eng_diag_user_handle` -/
def answer (type : Cmd) (buf : Mem) (r : Reply) : Answer :=
  let head := replyHead type buf (msgHeadSize + r.rsp.length - r.extraLen) r.subtype
  ⟨head ++ r.plain, 0x7E :: (head ++ r.rsp) ++ [0x7E]⟩

/-- `emptyDiag`, which `At_cmd_back_sig` sends too -/
def emptyDiag : Answer :=
  ⟨[0x00, 0x00, 0x00, 0x00, 0x08, 0x00, 0xD5, 0x00], [0x7E, 0x00, 0x00, 0x00, 0x00, 0x08, 0x00, 0xD5, 0x00, 0x7E]⟩

/-- `at_calibr`: "AT+CALIBR" -/
def atCalibr : List UInt8 := [0x41, 0x54, 0x2B, 0x43, 0x41, 0x4C, 0x49, 0x42, 0x52]

/-! ## Handlers that fill eng_diag_buf -/

/-- `sizeof(TEST_DATA_INFO_T)` -/
def testDataSize : ℕ := 256

/-- a write of `eng_diag_direct_phschk`: `error`, and the product file -/
def phschkWrite (buf : Mem) (len : ℕ) (file : Mem) (io : ProductIo) : ℕ × Mem :=
  if buf 8 &&& 0x7F ≠ 0 then
    let (nverr, file) := engWriteProductnvdata file io.put (fun i => buf (9 + i)) (len - msgHeadSize - 2)
    (if nverr ≠ 0 then 3 else 0, file)
  else (2, file)

/-- the response, if there is one, and the product file afterwards -/
def engDiagDirectPhschk (buf : Mem) (rsplen : ℕ) (file : Mem) (io : ProductIo) : Option (Option Answer × Mem) :=
  let len := le16 buf 5
  -- below, the length given to `crc16` is negative, and it reads on without an end; above, the checksum is read behind the
  -- buffer
  if len < msgHeadSize + 2 ∨ extSize ≤ len then none
  else if le16 buf (len - 2 + 1) ≠ (crc16 0 (cells buf 9 (len - msgHeadSize - 2))).toNat then some (none, file)
  else if buf 8 &&& 0x80 = 0 then
    let (error, file) := phschkWrite buf len file io
    let msg :=
      if error = 0 then msgHead (cells buf 1 4) 10 (buf 7) 1 ++ [0, 0]
      else msgHead (cells buf 1 4) 12 (buf 7) 0 ++ le16Bytes error ++ [0, 0]
    (respond rsplen msg).map fun a => (some a, file)
  else
    let (nverr, nvdata) := engReadProductnvdata file io.got (store io.heap 0 (cells buf 1 msgHeadSize)) msgHeadSize rsplen
    let info := cells nvdata msgHeadSize testDataSize
    let msg :=
      if nverr ≠ 0 then msgHead (cells buf 1 4) 10 (buf 7) 0 ++ [0, 0]
      else msgHead (cells buf 1 4) (msgHeadSize + testDataSize + 2) (buf 7) 1 ++ info ++ le16Bytes (crc16 0 info).toNat
    (respond rsplen msg).map fun a => (some a, file)

def Row.bytes (r : Row) : List UInt8 := UInt8.ofNat (r.name.length + 2) :: r.groupid :: r.value :: r.name

def engDiagMmicitRead (buf : Mem) (len rsplen : ℕ) : Option (List Row) → Option Answer
  | none => if rsplen < len then none else some (echo buf len)
  | some rows =>
    let datalen := msgHeadSize + (rows.flatMap Row.bytes).length
    -- the last `sprintf` ends its name with a 0
    if rsplen - 2 < datalen + 1 then none
    else respond rsplen (msgHead (cells buf 1 4) datalen (buf 7) (buf 8) ++ rows.flatMap Row.bytes)

/-- `ap_adc_process` with the four commands; `dest` is what `is_adc_calibration` has decoded -/
def apAdcProcess (cmd : ℕ) (dest : Mem) (io : AdcIo) : List UInt8 :=
  if cmd = 4 then
    let para := if 0xFFFFFF < io.voltage then io.voltage / 10 % 2 ^ 24 else 2 ^ 24 + io.voltage % 2 ^ 24
    msgHead (cells dest 0 4) 12 (dest 6) (dest 7) ++ le32Bytes para.toNat
  else
    let status := if cmd = 1 ∨ io.access = true then 0 else 1
    let parameters :=
      if cmd = 1 then le32Bytes (io.adc % 2 ^ 16).toNat ++ cells dest 20 44
      else if cmd = 2 then cells (io.para.getD fun i => dest (16 + i)) 0 48
      else cells dest 16 48
    msgHead (cells dest 0 4) (4 + 52 + msgHeadSize) (dest 6) (dest 7) ++ le16Bytes status ++ le16Bytes 52 ++
      cells dest 12 4 ++ parameters

/-- none when nothing is sent -/
def engBatteryCalibration (data : Mem) (count outLen : ℕ) (io : AdcIo) : Option Answer :=
  let adcCmd := isAdcCalibration (cells data 0 count)
  match adcRequest (cells data 0 count) with
  | none => none
  | some (_, dest) =>
    if adcCmd = 0 then none
    else if adcCmd = 5 then some (echo data (min count outLen))
    else some (translated (apAdcProcess adcCmd (destByte dest) io))

/-! ## eng_diag_user_handle -/

/-- a `write` of no bytes sends nothing -/
def engDiagWrite2pc (a : Option Answer) : List Answer := a.toList.filter fun a => a.wire ≠ []

/-- the branch of AUDIO, with what `eng_diag_audio` leaves -/
def answerAudio (buf : Mem) : Option (List UInt8) → Option (List Answer)
  | none => none
  | some rsp =>
    if diagSize < rsp.length + msgHeadSize + 2 then none
    else
      some ((if cells buf 9 9 = atCalibr then [emptyDiag] else []) ++ [answer .userAudio buf (unescaped (buf 8) rsp)])

/-- the branch of APCMD, with what the handler of the command leaves -/
def answerApcmd (buf : Mem) (linuxRsp : Option (List UInt8)) : Option (List Answer) :=
  match engDiagApcmdHdlr buf, linuxRsp with
  | some buf, some rsp =>
    if rspSize < rsp.length + 1 then none else some [emptyDiag, answer .userApcmd buf (unescaped (buf 8) rsp)]
  | _, _ => none

/-- what is sent to the PC, in order -/
def engDiagUserHandle (type : Cmd) (buf : Mem) (len : ℕ) (env : Handlers) : Option (List Answer) :=
  match type with
  | .userVer => some [answer type buf (unescaped (buf 8) (engDiagGetver env.sprdver))]
  | .userReset => some [answer type buf (unescaped (buf 8) engDiagBootreset)]
  | .userBtwifi => if DecodeLeaves buf len then none else some [answer type buf (engDiagBtwifi buf env.direct)]
  | .userFactorymode => some [answer type buf (engDiagFactorymode buf)]
  | .userAdc => some [answer type buf (unescaped (buf 8) (engDiagAdc env.adcResult))]
  | .userAudio => answerAudio buf env.audio
  | .userApcmd => answerApcmd buf env.linuxRsp
  | .userProductCtrl => (engDiagProductCtrl buf diagSize env.file env.product).map fun r => engDiagWrite2pc r.1
  | .userDirectPhschk => (engDiagDirectPhschk buf diagSize env.file env.product).map fun r => engDiagWrite2pc r.1
  | .userMmicitRead => (engDiagMmicitRead buf len diagSize env.table).map fun a => engDiagWrite2pc (some a)
  | .userGetvoltage => some (engDiagWrite2pc (engBatteryCalibration buf len diagSize env.cali))
  | .userApcali => some (engDiagWrite2pc (engBatteryCalibration buf len diagSize env.cali))
  | .common => some [answer type buf (unescaped (buf 8) [])]
  | .invalid => some [answer type buf (unescaped (buf 8) [])]

end SprdDevice.EngMode
