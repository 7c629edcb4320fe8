/-
The bytes of the messages of the modem boot loader (packet.c: setup_packet and the send_*_message family; crc16.c), and
what a receiver reads in them.

Over the UART a packet is type, length, data and a CRC, in the order of the table in cmd_def.h, and stands between
flags. Over SPI it has a header of eight bytes: length, type, a checksum of the data and one of the header. `unsigned
long` and `int` have 32 bits, `short` 16, and the stores are little-endian.

- `setupMessage`: the buffer of a message, and the size setup_packet returns;
- `uartBytes`, `spiBytes`: what the message puts on the channel when its writes are whole; `onUart`: what the send loop of
  each message puts on the UART with the writes it has;
- `readUart`: the receiver of the table, with the check that fdl_crc.h calls CRC_16_L_OK;
- `fdlRun`: what download_fdl has sent after some reads of the file and turns of its data loop, of which either may go on
  for ever (`download_fdl_sent`: when it comes back, what it has sent).
The length of `data` is that of its caller: 256 bytes over the UART, HS_PACKET_SIZE over SPI. A command that is none of
`CmdType` is never set up.

Results: `crc16LCalc_feed` (the CRC is the bitwise one with the generator 0x1021), `readUart_packet`, `readUart_burst`
and `download_fdl_wire`.
-/
import Mathlib.Tactic
import SprdDevice.Lib.Cyclic
import SprdDevice.Lib.Word
import SprdDevice.ModemBoot.Fdl
import SprdDevice.ModemBoot.Packet
import SprdDevice.ModemBoot.SendLoop
import SprdDevice.NvItem.Checksum

namespace SprdDevice.ModemBoot

open SprdDevice.Cyclic SprdDevice.EndAround SprdDevice.Escape SprdDevice.Memory SprdDevice.Word

/-! ## Checksums -/

def CRC_16_POLYNOMIAL : BitVec 16 := 0x1021

def CRC_16_L_POLYNOMIAL : BitVec 16 := 0x8000

def CRC_16_L_SEED : BitVec 8 := 0x80

def CRC_16_L_OK : BitVec 16 := 0x00

/-- one turn of the inner loop -/
def crcStep (b : UInt8) (crc : BitVec 16) (i : BitVec 8) : BitVec 16 :=
  let crc := if crc &&& CRC_16_L_POLYNOMIAL ≠ 0 then (crc <<< 1) ^^^ CRC_16_POLYNOMIAL else crc <<< 1
  if b.toBitVec &&& i ≠ 0 then crc ^^^ CRC_16_POLYNOMIAL else crc

/-- `for (i = CRC_16_L_SEED; i != 0; i = i>>1)` -/
def crcByte (crc : BitVec 16) (b : UInt8) : BitVec 16 :=
  ((List.range 8).map fun k => CRC_16_L_SEED >>> k).foldl (crcStep b) crc

/-- `crc_16_l_calc` -/
def crc16LCalc (buf : List UInt8) : BitVec 16 := buf.foldl crcByte 0

/-- the sum of `frm_chk`: two words a turn, and what is left -/
def frmLoop (mem : ℕ → UInt8) : ℕ → ℕ → ℕ → ℕ
  | len + 4, src, sum => frmLoop mem len (src + 4) ((sum + le16 mem src + le16 mem (src + 2)) % 2 ^ 32)
  | 3, src, sum => (sum + le16 mem src + (mem (src + 2)).toNat) % 2 ^ 32
  | 2, src, sum => (sum + le16 mem src) % 2 ^ 32
  | 1, src, sum => (sum + (mem src).toNat) % 2 ^ 32
  | 0, _, sum => sum

/-- `frm_chk` -/
def frmChk (mem : ℕ → UInt8) (src len : ℕ) : ℕ := 2 ^ 16 - 1 - fold (frmLoop mem len src 0)

/-- `boot_checksum` of the len bytes at src -/
def bootChecksum (mem : ℕ → UInt8) (src len : ℕ) : ℕ :=
  let sum := NvItem.wordLoop mem (len / 2) src 0
  let sum := if len % 2 = 1 then (sum + (mem (src + len - 1)).toNat) % 2 ^ 32 else sum
  2 ^ 16 - 1 - fold sum

/-! ## Packets -/

/-- `flag`: BSL_UART_PACKET and BSL_SPI_PACKET -/
inductive Channel where
  | uart
  | spi
deriving DecidableEq, Repr

/-- the commands that are set up -/
inductive CmdType where
  | connect
  | startData
  | midstData
  | endData
  | execData
  | switchMode
deriving DecidableEq, Repr

def CmdType.code : CmdType → ℕ
  | .connect => 0x0
  | .startData => 0x1
  | .midstData => 0x2
  | .endData => 0x3
  | .execData => 0x4
  | .switchMode => 0x0D

def cpu2be16 (wValue : ℕ) : ℕ := ((wValue &&& 0xFF) <<< 8) ||| ((wValue >>> 8) &&& 0xFF)

/-- the macro over an `unsigned long` -/
def cpu2be32 (dwValue : ℕ) : ℕ :=
  ((dwValue &&& 0xFF) <<< 24) ||| (((dwValue >>> 8) &&& 0xFF) <<< 16) ||| (((dwValue >>> 16) &&& 0xFF) <<< 8) |||
    (dwValue >>> 24)

/-- the macro over an `int`: the last shift keeps the sign -/
def cpu2be32Int (dwValue : ℤ) : ℕ :=
  if 0 ≤ dwValue then cpu2be32 dwValue.toNat else cpu2be32 (dwValue % 2 ^ 32).toNat ||| 0xFFFFFF00

/-- the UART branches of `setup_packet`, which differ in the check behind the data -/
def setupUart (msg : CmdType) (buffer : ℕ → UInt8) (dataSize : ℕ) : (ℕ → UInt8) × ℕ :=
  let length := 4 + dataSize
  let buffer := store buffer 4 (le16Bytes (cpu2be16 msg.code))
  let buffer := store buffer 6 (le16Bytes (cpu2be16 (dataSize % 2 ^ 16)))
  let check :=
    match msg with
    | .connect => 0
    | .switchMode => frmChk buffer 4 length
    | _ => cpu2be16 (crc16LCalc (cells buffer 4 length)).toNat
  (store buffer (length + 4) (le16Bytes check), length + 2)

/-- the length in the SPI header -/
def spiLength (msg : CmdType) (dataSize : ℕ) : ℕ :=
  match msg with
  | .midstData => if dataSize = 0 then 4 else dataSize
  | .endData | .switchMode => 4
  | _ => dataSize

/-- the SPI branches of `setup_packet`; CONNECT, END and SWITCH_MODE have four bytes of their own behind the header -/
def setupSpi (msg : CmdType) (buffer : ℕ → UInt8) (offset dataSize : ℕ) : (ℕ → UInt8) × ℕ :=
  let buffer := store buffer 0 (le16Bytes (spiLength msg dataSize))
  let buffer := store buffer 2 (le16Bytes msg.code)
  let buffer := if msg = .connect then store buffer 8 (le16Bytes 0) else buffer
  let buffer := store buffer 4 (le16Bytes (bootChecksum buffer offset dataSize))
  let buffer := store buffer 6 (le16Bytes (bootChecksum buffer 0 6))
  match msg with
  | .connect => (buffer, 12)
  | .endData | .switchMode => (store buffer 8 (le32Bytes 0), 12)
  | _ => (buffer, dataSize + 8)

/-- `setup_packet` -/
def setupPacket (msg : CmdType) (buffer : ℕ → UInt8) (offset dataSize : ℕ) : Channel → (ℕ → UInt8) × ℕ
  | .uart => setupUart msg buffer dataSize
  | .spi => setupSpi msg buffer offset dataSize

/-! ## Messages -/

/-- what the loader says to the modem: CONNECT, and the messages of a download -/
inductive Said where
  | connect
  | msg (m : Msg)
deriving DecidableEq, Repr

def Said.type : Said → CmdType
  | .connect => .connect
  | .msg (.start _ _) => .startData
  | .msg (.data _) => .midstData
  | .msg .endData => .endData
  | .msg (.exec _) => .execData

/-- `raw_buffer` and `uart_buffer` as they are declared -/
def zeros : ℕ → UInt8 := fun _ => 0

/-- the buffer that is handed to `setup_packet`, and the size of the data in it; over SPI the data of a DATA message are
in the caller's buffer, which holds `before` -/
def Said.buffer (flag : Channel) (before : ℕ → UInt8) : Said → (ℕ → UInt8) × ℕ
  | .connect => (zeros, 0)
  | .msg (.start size addr) =>
    (store (store zeros 8 (le32Bytes (cpu2be32 addr))) 12 (le32Bytes (cpu2be32Int size)), 8)
  | .msg (.data payload) =>
    match flag with
    | .uart => (store zeros 8 payload, payload.length)
    | .spi => (store before 8 payload, payload.length)
  | .msg .endData => (zeros, 0)
  | .msg (.exec addr) => (store zeros 8 (le32Bytes (cpu2be32 addr)), 4)

def setupMessage (flag : Channel) (before : ℕ → UInt8) (m : Said) : (ℕ → UInt8) × ℕ :=
  setupPacket m.type (m.buffer flag before).1 8 (m.buffer flag before).2 flag

/-- the packet from `raw_buffer[4]` on -/
def uartPacket (m : Said) : List UInt8 :=
  let packet := setupMessage .uart zeros m
  cells packet.1 4 packet.2

/-- the packet between flags -/
def uartBytes (m : Said) : List UInt8 := translatePacket (uartPacket m)

/-- what the send loops put on the UART for one message after the other; `writes` has the results of each one's writes -/
def onUart : List Said → (ℕ → List ℤ) → List UInt8
  | [], _ => []
  | m :: ms, writes => sendPacket (uartPacket m) (writes 0) ++ onUart ms fun i => writes (i + 1)

/-- SPI has it as it stands in the buffer -/
def spiBytes (before : ℕ → UInt8) (m : Said) : List UInt8 :=
  let packet := setupMessage .spi before m
  cells packet.1 0 packet.2

/-! ## The receiver -/

/-- the message with this type and these data -/
def parse (type : ℕ) (data : List UInt8) : Option Said :=
  if type = 0 ∧ data = [] then some .connect
  else if type = 1 ∧ data.length = 8 then some (.msg (.start (be32 (ofList data) 4) (be32 (ofList data) 0)))
  else if type = 2 then some (.msg (.data data))
  else if type = 3 ∧ data = [] then some (.msg .endData)
  else if type = 4 ∧ data.length = 4 then some (.msg (.exec (be32 (ofList data) 0)))
  else none

/-- a packet is read if it is whole and its check and its length are right -/
def readUart (packet : List UInt8) : Option Said :=
  if 6 ≤ packet.length ∧ crc16LCalc packet = CRC_16_L_OK ∧ be16 (ofList packet) 2 = packet.length - 6 then
    parse (be16 (ofList packet) 0) ((packet.drop 4).take (packet.length - 6))
  else none

/-- the fields fit their places -/
def Said.Fits : Said → Prop
  | .msg (.start size addr) => 0 ≤ size ∧ size < 2 ^ 31 ∧ addr < 2 ^ 32
  | .msg (.data payload) => payload.length < 2 ^ 16
  | .msg (.exec addr) => addr < 2 ^ 32
  | _ => True

/-- the data of a message -/
def Said.data : Said → List UInt8
  | .msg (.start size addr) => be32Bytes addr ++ be32Bytes size.toNat
  | .msg (.data payload) => payload
  | .msg (.exec addr) => be32Bytes addr
  | _ => []

/-- type, length and data -/
def Said.body (m : Said) : List UInt8 := be16Bytes m.type.code ++ be16Bytes m.data.length ++ m.data

/-! ## The CRC -/

/-- the two exclusive ors are one, or none -/
theorem crcStep_feedBit (b : UInt8) (crc : BitVec 16) {k : ℕ} (hk : k < 8) :
    crcStep b crc (CRC_16_L_SEED >>> k) = feedBit CRC_16_POLYNOMIAL crc (b.toBitVec.getMsbD k) := by
  have hmask : CRC_16_L_SEED >>> k = BitVec.twoPow 8 (7 - k) := by
    interval_cases k <;> rfl
  have hmsb : crc &&& CRC_16_L_POLYNOMIAL ≠ 0 ↔ crc.msb = true := by
    have hpow : CRC_16_L_POLYNOMIAL = BitVec.twoPow 16 15 := rfl
    rw [hpow, BitVec.and_twoPow, BitVec.msb_eq_getLsbD_last]
    cases crc.getLsbD (16 - 1) <;> decide
  have hbit : b.toBitVec &&& CRC_16_L_SEED >>> k ≠ 0 ↔ b.toBitVec.getMsbD k = true := by
    have hplace : 8 - 1 - k = 7 - k := rfl
    have hone : BitVec.twoPow 8 (7 - k) ≠ 0 := by
      interval_cases k <;> decide
    rw [hmask, BitVec.and_twoPow, BitVec.getMsbD_eq_getLsbD, decide_eq_true hk, Bool.true_and, hplace]
    cases b.toBitVec.getLsbD (7 - k)
    · simp
    · simpa using hone
  unfold crcStep feedBit
  simp only [hmsb, hbit]
  cases crc.msb <;> cases b.toBitVec.getMsbD k <;> simp [BitVec.xor_assoc]

theorem crcByte_feed (crc : BitVec 16) (b : UInt8) :
    crcByte crc b = feed CRC_16_POLYNOMIAL crc (bitsOf b.toBitVec) := by
  unfold crcByte feed bitsOf
  rw [List.foldl_map, List.foldl_map]
  apply List.foldl_ext
  intro crc k hk
  exact crcStep_feedBit b crc (List.mem_range.1 hk)

/-- **The CRC is the bitwise one.** -/
theorem crc16LCalc_feed (buf : List UInt8) : crc16LCalc buf = feed CRC_16_POLYNOMIAL 0 (byteBits buf) := by
  have hfrom : ∀ crc, buf.foldl crcByte crc = feed CRC_16_POLYNOMIAL crc (byteBits buf) := by
    induction buf with
    | nil => exact fun _ => rfl
    | cons b buf ih =>
      intro crc
      have hbits : byteBits (b :: buf) = bitsOf b.toBitVec ++ byteBits buf := rfl
      rw [List.foldl_cons, ih, crcByte_feed, hbits, feed_append]
  exact hfrom 0

/-! ## The packet -/

theorem mask_byte (n : ℕ) : n &&& 0xFF = n % 256 := Nat.and_two_pow_sub_one_eq_mod n 8

/-- a byte under what is there -/
theorem or_byte (a : ℕ) {b : ℕ} (h : b < 256) (k : ℕ) : (a <<< (k + 8)) ||| (b <<< k) = (256 * a + b) <<< k := by
  have hlow : b <<< k < 2 ^ (k + 8) := by
    rw [Nat.shiftLeft_eq, pow_add, mul_comm]
    exact Nat.mul_lt_mul_of_pos_left h (by positivity)
  rw [← Nat.shiftLeft_add_eq_or_of_lt hlow, Nat.shiftLeft_eq, Nat.shiftLeft_eq, Nat.shiftLeft_eq, pow_add]
  ring

theorem byte_lt_256 (n : ℕ) : n % 256 < 256 := Nat.mod_lt n (by decide)

theorem le16Bytes_bytes {b0 b1 : ℕ} (h1 : b1 < 256) : le16Bytes (256 * b0 + b1) = [UInt8.ofNat b1, UInt8.ofNat b0] := by
  simp only [le16Bytes, List.cons.injEq, and_true]
  refine ⟨byte_ofNat_congr ?_, byte_ofNat_congr ?_⟩ <;> omega

theorem le32Bytes_bytes {b0 b1 b2 b3 : ℕ} (h1 : b1 < 256) (h2 : b2 < 256) (h3 : b3 < 256) :
    le32Bytes (256 * (256 * (256 * b0 + b1) + b2) + b3) =
      [UInt8.ofNat b3, UInt8.ofNat b2, UInt8.ofNat b1, UInt8.ofNat b0] := by
  simp only [le32Bytes, List.cons.injEq, and_true]
  refine ⟨byte_ofNat_congr ?_, byte_ofNat_congr ?_, byte_ofNat_congr ?_, byte_ofNat_congr ?_⟩ <;> omega

theorem byte_ofNat_mod (n : ℕ) : UInt8.ofNat (n % 256) = UInt8.ofNat n := byte_ofNat_congr (Nat.mod_mod n 256)

/-- a short in the order of the wire -/
theorem le16Bytes_cpu2be16 (v : ℕ) : le16Bytes (cpu2be16 v) = be16Bytes v := by
  have hbytes : cpu2be16 v = 256 * (v % 256) + v / 256 % 256 := by
    rw [cpu2be16, mask_byte, mask_byte, Nat.shiftRight_eq_div_pow]
    exact or_byte _ (byte_lt_256 _) 0
  rw [hbytes, le16Bytes_bytes (byte_lt_256 _), byte_ofNat_mod, byte_ofNat_mod]
  rfl

/-- a long in the order of the wire -/
theorem le32Bytes_cpu2be32 {v : ℕ} (h : v < 2 ^ 32) : le32Bytes (cpu2be32 v) = be32Bytes v := by
  have htop : v / 2 ^ 24 < 256 := by omega
  have hbytes : cpu2be32 v = 256 * (256 * (256 * (v % 256) + v / 2 ^ 8 % 256) + v / 2 ^ 16 % 256) + v / 2 ^ 24 := by
    unfold cpu2be32
    simp only [mask_byte, Nat.shiftRight_eq_div_pow]
    rw [or_byte _ (byte_lt_256 _) 16, or_byte _ (byte_lt_256 _) 8]
    exact or_byte _ htop 0
  rw [hbytes, le32Bytes_bytes (byte_lt_256 _) (byte_lt_256 _) htop, byte_ofNat_mod, byte_ofNat_mod, byte_ofNat_mod]
  rfl

theorem le32Bytes_cpu2be32Int {size : ℤ} (h : 0 ≤ size) (h' : size < 2 ^ 31) :
    le32Bytes (cpu2be32Int size) = be32Bytes size.toNat := by
  rw [cpu2be32Int, if_pos h, le32Bytes_cpu2be32 (by omega)]

/-- what is stored elsewhere is not read -/
theorem cells_store_apart (mem : ℕ → UInt8) {ofs p n : ℕ} {l : List UInt8} (h : p + n ≤ ofs ∨ ofs + l.length ≤ p) :
    cells (store mem ofs l) p n = cells mem p n :=
  cells_congr fun i hi => store_outside mem l (by omega)

/-- the data in the buffer, in the order of the wire -/
theorem buffer_data (flag : Channel) (before : ℕ → UInt8) {m : Said} (h : m.Fits) :
    cells (m.buffer flag before).1 8 (m.buffer flag before).2 = m.data ∧ (m.buffer flag before).2 = m.data.length := by
  cases m with
  | connect => exact ⟨rfl, rfl⟩
  | msg m =>
    cases m with
    | start size addr =>
      obtain ⟨hpos, hsize, haddr⟩ := h
      have hstores : store (store zeros 8 (be32Bytes addr)) 12 (be32Bytes size.toNat) =
          store zeros 8 (be32Bytes addr ++ be32Bytes size.toNat) := (store_append zeros 8 _ _).symm
      refine ⟨?_, rfl⟩
      simp only [Said.buffer, Said.data]
      rw [le32Bytes_cpu2be32 haddr, le32Bytes_cpu2be32Int hpos hsize, hstores]
      exact cells_store_self zeros 8 _
    | data payload =>
      cases flag with
      | uart => exact ⟨cells_store_self _ _ _, rfl⟩
      | spi => exact ⟨cells_store_self _ _ _, rfl⟩
    | endData => exact ⟨rfl, rfl⟩
    | exec addr =>
      refine ⟨?_, rfl⟩
      simp only [Said.buffer, Said.data]
      rw [le32Bytes_cpu2be32 h]
      exact cells_store_self zeros 8 _

theorem code_lt (type : CmdType) : type.code < 2 ^ 16 := by
  cases type <;> decide

theorem length_data_lt {m : Said} (h : m.Fits) : m.data.length < 2 ^ 16 := by
  cases m with
  | connect => decide
  | msg m =>
    cases m with
    | start size addr => exact (by decide : 8 < 2 ^ 16)
    | data payload => exact h
    | endData => decide
    | exec addr => exact (by decide : 4 < 2 ^ 16)

/-- the head and the data behind it -/
theorem cells_head (buffer : ℕ → UInt8) (type length n : ℕ) :
    cells (store (store buffer 4 (be16Bytes type)) 6 (be16Bytes length)) 4 (4 + n) =
      be16Bytes type ++ be16Bytes length ++ cells buffer 8 n := by
  have hstores : store (store buffer 4 (be16Bytes type)) 6 (be16Bytes length) =
      store buffer 4 (be16Bytes type ++ be16Bytes length) := (store_append buffer 4 _ _).symm
  have hhead : cells (store buffer 4 (be16Bytes type ++ be16Bytes length)) 4 4 = be16Bytes type ++ be16Bytes length :=
    cells_store_self buffer 4 (be16Bytes type ++ be16Bytes length)
  rw [hstores, cells_add, hhead, cells_store_apart buffer (Or.inr (by simp))]

/-- **A packet is the message and its CRC**; that of CONNECT, which is not computed, is 0. -/
theorem uartPacket_eq {m : Said} (h : m.Fits) : uartPacket m = m.body ++ be16Bytes (crc16LCalc m.body).toNat := by
  obtain ⟨hdata, hlen⟩ := buffer_data .uart zeros h
  have hhead : cells (store (store (m.buffer .uart zeros).1 4 (le16Bytes (cpu2be16 m.type.code))) 6
      (le16Bytes (cpu2be16 ((m.buffer .uart zeros).2 % 2 ^ 16)))) 4 (4 + (m.buffer .uart zeros).2) = m.body := by
    rw [le16Bytes_cpu2be16, le16Bytes_cpu2be16, cells_head, hdata, hlen, Nat.mod_eq_of_lt (length_data_lt h), Said.body]
  have hpacket : ∀ (b : ℕ → UInt8) (l : List UInt8) (n : ℕ), l.length = 2 →
      cells (store b (4 + n + 4) l) 4 (4 + n + 2) = cells b 4 (4 + n) ++ l := by
    intro b l n hl
    rw [cells_add, cells_store_apart b (Or.inl (by omega)), ← hl, Nat.add_comm (4 + n) 4, cells_store_self]
  unfold uartPacket setupMessage setupPacket setupUart
  dsimp only
  rw [hpacket _ _ _ rfl, hhead]
  cases m with
  | connect => decide +kernel
  | msg m => cases m <;> exact congrArg (_ ++ ·) (le16Bytes_cpu2be16 _)

/-! ## What is read -/

theorem parse_data {m : Said} (h : m.Fits) : parse m.type.code m.data = some m := by
  cases m with
  | connect => rfl
  | msg m =>
    cases m with
    | start size addr =>
      obtain ⟨hpos, hsize, haddr⟩ := h
      have hfirst : be32 (ofList (be32Bytes addr ++ be32Bytes size.toNat)) 0 = addr :=
        be32_of_cells (fun j hj => by interval_cases j <;> rfl) haddr
      have hsecond : be32 (ofList (be32Bytes addr ++ be32Bytes size.toNat)) 4 = size.toNat :=
        be32_of_cells (fun j hj => by interval_cases j <;> rfl) (by omega)
      simp only [parse, Said.type, CmdType.code, Said.data]
      rw [hfirst, hsecond, Int.toNat_of_nonneg hpos]
      rfl
    | data payload => rfl
    | endData => rfl
    | exec addr =>
      have hfirst : be32 (ofList (be32Bytes addr)) 0 = addr :=
        be32_of_cells (fun j hj => by interval_cases j <;> rfl) h
      simp only [parse, Said.type, CmdType.code, Said.data]
      rw [hfirst]
      rfl

theorem bitsOf_bytes (c : BitVec 16) : byteBits (be16Bytes c.toNat) = bitsOf c := by
  have hword : c = BitVec.ofNat 8 (c.toNat / 256) ++ BitVec.ofNat 8 c.toNat := by
    apply BitVec.eq_of_toNat_eq
    have hlt := c.isLt
    rw [BitVec.toNat_append, BitVec.toNat_ofNat, BitVec.toNat_ofNat,
      ← Nat.shiftLeft_add_eq_or_of_lt (Nat.mod_lt _ (by decide)), Nat.shiftLeft_eq]
    omega
  conv_rhs => rw [hword, bitsOf_append]
  rw [byteBits, be16Bytes, List.flatMap_cons, List.flatMap_cons, List.flatMap_nil, List.append_nil]
  rfl

/-- a message with its CRC is OK, and no other two bytes are -/
theorem crc_ok (body : List UInt8) : crc16LCalc (body ++ be16Bytes (crc16LCalc body).toNat) = CRC_16_L_OK := by
  rw [crc16LCalc_feed, byteBits_append, bitsOf_bytes]
  exact (feed_checksum (by decide) 0 _ _).2 (crc16LCalc_feed body)

/-- **A packet is read as the message it was made of.** -/
theorem readUart_packet {m : Said} (h : m.Fits) : readUart (uartPacket m) = some m := by
  obtain ⟨crc, hcrc⟩ : ∃ crc, crc = be16Bytes (crc16LCalc m.body).toNat := ⟨_, rfl⟩
  have hok := crc_ok m.body
  have hbody : m.body ++ crc = be16Bytes m.type.code ++ be16Bytes m.data.length ++ (m.data ++ crc) := by
    rw [Said.body, List.append_assoc]
  have hlen : (m.body ++ crc).length = m.data.length + 6 := by
    rw [hbody, hcrc]
    simp only [List.length_append, length_be16Bytes]
    omega
  have htype : be16 (ofList (m.body ++ crc)) 0 = m.type.code := by
    rw [hbody]
    exact be16_of_cells (fun j hj => by interval_cases j <;> rfl) (code_lt _)
  have hsize : be16 (ofList (m.body ++ crc)) 2 = m.data.length := by
    rw [hbody]
    exact be16_of_cells (fun j hj => by interval_cases j <;> rfl) (length_data_lt h)
  have hdata : ((m.body ++ crc).drop 4).take m.data.length = m.data := by
    rw [hbody]
    exact List.take_left
  rw [← hcrc] at hok
  rw [uartPacket_eq h, ← hcrc, readUart, hlen, htype, hsize, Nat.add_sub_cancel, hdata, if_pos ⟨by omega, hok, rfl⟩,
    parse_data h]

/-- **A burst of at most 16 bits is noticed.** -/
theorem readUart_burst {m : Said} (h : m.Fits) {packet : List UInt8}
    (hburst : Burst 16 (byteBits (uartPacket m)) (byteBits packet)) : readUart packet = none := by
  have hok : crc16LCalc (uartPacket m) = CRC_16_L_OK := by
    rw [uartPacket_eq h, crc_ok]
  have hbad : crc16LCalc packet ≠ CRC_16_L_OK := by
    rw [← hok, crc16LCalc_feed, crc16LCalc_feed]
    exact (hburst.feed_ne (by decide) 0).symm
  rw [readUart, if_neg fun hread => hbad hread.2.1]

/-- a stream of messages is read as they were sent -/
theorem uart_stream {ms : List Said} (h : ∀ m ∈ ms, m.Fits) :
    (deframe (ms.flatMap uartBytes)).map readUart = ms.map some := by
  have hframes : ms.flatMap uartBytes = (ms.map uartPacket).flatMap frame := by
    rw [List.flatMap_map]
    rfl
  rw [hframes, deframe_frames, List.map_map]
  · exact List.map_congr_left fun m hm => readUart_packet (h m hm)
  · intro p hp
    obtain ⟨m, hm, rfl⟩ := List.mem_map.1 hp
    rw [uartPacket_eq (h m hm)]
    simp [be16Bytes]

/-- each send loop takes the whole of its frame (`sendPacket_whole`), whichever writes fail in between -/
def WritesWhole (ms : List Said) (writes : ℕ → List ℤ) : Prop :=
  ∀ i m, ms[i]? = some m → TakesWhole (uartPacket m) ((writes i).filter fun retval => 0 < retval)

theorem onUart_whole {ms : List Said} {writes : ℕ → List ℤ} (h : WritesWhole ms writes) :
    onUart ms writes = ms.flatMap uartBytes := by
  induction ms generalizing writes with
  | nil => rfl
  | cons m ms ih =>
    have hrest : WritesWhole ms fun i => writes (i + 1) := fun i m' hm' => h (i + 1) m' hm'
    rw [onUart, List.flatMap_cons, ih hrest, sendPacket_whole (h 0 m rfl), uartBytes]

/-! ## The first loader -/

/-- every message sent is such -/
def All (P : Msg → Prop) (x : Xfer) : Prop := ∀ m ∈ x.sent, P m

section

variable {P : Msg → Prop} {ans : ℕ → Reply} {x : Xfer}

theorem All.start (P : Msg → Prop) (testBuffer : ℕ → UInt8) : All P ⟨[], testBuffer⟩ :=
  fun _ hm => absurd hm List.not_mem_nil

theorem All.sendMessage (h : All P x) {m : Msg} (hm : P m) : All P (sendMessage ans m x).2 := by
  intro m' hmem
  rcases List.mem_append.1 hmem with hold | hnew
  · exact h m' hold
  · rwa [List.mem_singleton.1 hnew]

theorem All.orReturn {r : ℤ × Xfer} {next : Xfer → ℤ × Xfer} (h : All P r.2)
    (hnext : ∀ x', All P x' → All P (next x').2) : All P (orReturn r next).2 := by
  unfold ModemBoot.orReturn
  split_ifs
  · exact h
  · exact hnext r.2 h

end

def Fitting (m : Msg) : Prop := (Said.msg m).Fits

/-- what the data loop has sent after at most so many turns, whether or not it comes to an end -/
def fdlSent (ans : ℕ → Reply) (mem : ℕ → UInt8) : ℕ → ℕ → ℤ → Xfer → Xfer
  | 0, _, _, x => x
  | turns + 1, buffer, size, x =>
    if size = 0 then x
    else
      let r := sendMessage ans (.data (cells mem buffer Fdl.FDL_PACKET_SIZE)) x
      if r.1 = DL_FAILURE then r.2
      else fdlSent ans mem turns (buffer + Fdl.FDL_PACKET_SIZE) ((size - Fdl.FDL_PACKET_SIZE).bmod (2 ^ 32)) r.2

/-- what `download_fdl` has sent, with at most so many reads of the file and turns of the data loop: nothing while the file
is read, and DATA messages for as long as the loop goes on -/
def fdlRun (reads turns : ℕ) (ans : ℕ → Reply) (malloc : ℕ → Bool) (heap : ℕ → UInt8) (offer : ℕ → ℕ)
    (image_size address : UInt32) (file : Option (List UInt8)) (x : Xfer) : Xfer :=
  match Fdl.load_fdl2memory reads malloc heap offer image_size file with
  | none => x
  | some none => x
  | some (some mem) =>
    let start := sendMessage ans (.start (Fdl.intSize image_size) address.toNat) x
    if start.1 = DL_FAILURE then start.2
    else
      match Fdl.fdlLoop ans mem turns 0 (Fdl.intSize image_size) start.2 with
      | none => fdlSent ans mem turns 0 (Fdl.intSize image_size) start.2
      | some r =>
        if r.1 = DL_FAILURE then r.2
        else
          let stop := sendMessage ans .endData r.2
          if stop.1 = DL_FAILURE then stop.2 else (sendMessage ans (.exec address.toNat) stop.2).2

theorem fdlLoop_sent {ans : ℕ → Reply} {mem : ℕ → UInt8} {fuel buffer : ℕ} {size : ℤ} {x : Xfer} {r : ℤ × Xfer}
    (hrun : Fdl.fdlLoop ans mem fuel buffer size x = some r) : fdlSent ans mem fuel buffer size x = r.2 := by
  induction fuel generalizing buffer size x with
  | zero => exact absurd hrun (by simp [Fdl.fdlLoop])
  | succ fuel ih =>
    rw [Fdl.fdlLoop] at hrun
    rw [fdlSent]
    dsimp only at hrun ⊢
    split_ifs at hrun ⊢
    · rw [← Option.some.inj hrun]
    · rw [← Option.some.inj hrun]
    · exact ih hrun

/-- a download that comes back has sent this -/
theorem download_fdl_sent {fuel : ℕ} {ans : ℕ → Reply} {malloc : ℕ → Bool} {heap : ℕ → UInt8} {offer : ℕ → ℕ}
    {image_size address : UInt32} {file : Option (List UInt8)} {x : Xfer} {r : ℤ × Xfer}
    (hrun : Fdl.download_fdl fuel ans malloc heap offer image_size address file x = some r) :
    fdlRun fuel fuel ans malloc heap offer image_size address file x = r.2 := by
  unfold Fdl.download_fdl at hrun
  unfold fdlRun
  rcases hload : Fdl.load_fdl2memory fuel malloc heap offer image_size file with _ | _ | mem <;> rw [hload] at hrun
  · exact absurd hrun (by simp)
  · rw [← Option.some.inj hrun]
  · dsimp only at hrun ⊢
    split_ifs at hrun ⊢
    · rw [← Option.some.inj hrun]
    rcases hloop : Fdl.fdlLoop ans mem fuel 0 (Fdl.intSize image_size)
      (sendMessage ans (.start (Fdl.intSize image_size) address.toNat) x).2 with _ | loop
    · rw [hloop] at hrun
      exact absurd hrun (by simp)
    · rw [hloop] at hrun
      dsimp only at hrun ⊢
      split_ifs at hrun ⊢
      · rw [← Option.some.inj hrun]
      · rw [← Option.some.inj hrun]
      · rw [← Option.some.inj hrun]

theorem fdlSent_fits {ans : ℕ → Reply} {mem : ℕ → UInt8} {turns buffer : ℕ} {size : ℤ} {x : Xfer}
    (h : All Fitting x) : All Fitting (fdlSent ans mem turns buffer size x) := by
  induction turns generalizing buffer size x with
  | zero => exact h
  | succ turns ih =>
    have hdata : Fitting (.data (cells mem buffer Fdl.FDL_PACKET_SIZE)) := by
      rw [Fitting, Said.Fits, length_cells]
      decide
    have hsent : All Fitting (sendMessage ans (.data (cells mem buffer Fdl.FDL_PACKET_SIZE)) x).2 := h.sendMessage hdata
    rw [fdlSent]
    dsimp only
    split_ifs
    · exact h
    · exact hsent
    · exact ih hsent

theorem fdlRun_fits {reads turns : ℕ} {ans : ℕ → Reply} {malloc : ℕ → Bool} {heap : ℕ → UInt8} {offer : ℕ → ℕ}
    {image_size address : UInt32} {file : Option (List UInt8)} {testBuffer : ℕ → UInt8}
    (hsize : image_size.toNat < 2 ^ 31) :
    All Fitting (fdlRun reads turns ans malloc heap offer image_size address file ⟨[], testBuffer⟩) := by
  have hint := Fdl.intSize_small hsize
  have hnone := All.start Fitting testBuffer
  have hstart : Fitting (.start (Fdl.intSize image_size) address.toNat) := by
    rw [hint]
    exact ⟨Int.natCast_nonneg _, by exact_mod_cast hsize, address.toNat_lt⟩
  have hfirst := @All.sendMessage Fitting ans _ hnone _ hstart
  unfold fdlRun
  dsimp only
  split
  · exact hnone
  · exact hnone
  next mem _ =>
    have hdata : All Fitting (fdlSent ans mem turns 0 (Fdl.intSize image_size)
        (sendMessage ans (.start (Fdl.intSize image_size) address.toNat) ⟨[], testBuffer⟩).2) := fdlSent_fits hfirst
    split_ifs
    · exact hfirst
    split
    · exact hdata
    next loop hloop =>
      rw [fdlLoop_sent hloop] at hdata
      have hend := @All.sendMessage Fitting ans _ hdata .endData trivial
      split_ifs
      · exact hdata
      · exact hend
      · exact hend.sendMessage address.toNat_lt

/-- **The download over the UART.** Whatever the modem answers, whichever reads and allocations fail, and whether or not
the download ever comes back: at every moment a receiver reads from the bytes of CONNECT and of the download of the first
loader exactly the messages that were sent, in order, as long as each send loop takes the whole of its frame; and a burst
of at most 16 bits in any of the packets makes it read none from that packet. -/
theorem download_fdl_wire {reads turns : ℕ} {ans : ℕ → Reply} {malloc : ℕ → Bool} {heap : ℕ → UInt8} {offer : ℕ → ℕ}
    {image_size address : UInt32} {file : Option (List UInt8)} {testBuffer : ℕ → UInt8}
    (hsize : image_size.toNat < 2 ^ 31) {said : List Said}
    (hsaid : said <+: Said.connect ::
      (fdlRun reads turns ans malloc heap offer image_size address file ⟨[], testBuffer⟩).sent.map Said.msg)
    {writes : ℕ → List ℤ} (hwrites : WritesWhole said writes) :
    (deframe (onUart said writes)).map readUart = said.map some ∧
      ∀ m ∈ said, ∀ packet, Burst 16 (byteBits (uartPacket m)) (byteBits packet) → readUart packet = none := by
  have hfits : ∀ m ∈ said, m.Fits := by
    intro m hm
    rcases List.mem_cons.1 (hsaid.subset hm) with rfl | hsent
    · trivial
    · obtain ⟨m', hm', rfl⟩ := List.mem_map.1 hsent
      exact fdlRun_fits hsize m' hm'
  rw [onUart_whole hwrites]
  exact ⟨uart_stream hfits, fun m hm packet hburst => readUart_burst (hfits m hm) hburst⟩

/-- an image of 300 ones, whose data loop steps over 0 and goes on -/
def endlessRun : Xfer :=
  fdlRun 1 3 alwaysAcked (fun _ => true) zeros (fun _ => 299) 300 0x40000000 (some (List.replicate 300 1)) ⟨[], zeros⟩

/-- two failed writes, then one that takes all but the closing flag, and one that takes the flag -/
def tornWrites (ms : List Said) (i : ℕ) : List ℤ :=
  [-1, 0, ((uartBytes (ms.getD i .connect)).length : ℤ) - 1, 1]

theorem tornWrites_whole (ms : List Said) : WritesWhole ms (tornWrites ms) := by
  intro i m hm
  have hget : ms.getD i .connect = m := by rw [List.getD_eq_getElem?_getD, hm, Option.getD_some]
  have hpos : 1 < (translatePacket (uartPacket m)).length := length_frame_ge (uartPacket m)
  rw [tornWrites, hget]
  right
  simpa [uartBytes] using hpos

theorem download_fdl_wire_endless : (Fdl.payloads endlessRun.sent).length = 3 ∧
    let said := Said.connect :: endlessRun.sent.map Said.msg
    (deframe (onUart said (tornWrites said))).map readUart = said.map some ∧
      ∀ m ∈ said, ∀ packet, Burst 16 (byteBits (uartPacket m)) (byteBits packet) → readUart packet = none := by
  refine ⟨by decide +kernel, ?_⟩
  exact download_fdl_wire (by decide) (List.prefix_refl _) (tornWrites_whole _)

end SprdDevice.ModemBoot
