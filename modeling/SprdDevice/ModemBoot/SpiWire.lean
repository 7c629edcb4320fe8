/-
The messages of the modem boot loader over SPI, over `Wire`: what a receiver reads in the bytes that setup_packet makes.

A message has a header of four words, which are its length, its type, a checksum of its data and one of the words
before, and then the data. `readSpi` reads a message if its length and both checksums are right. END comes with four bytes 0 of
its own, and CONNECT with four that its length does not count.

`Whole` says which messages of a download are sent so: the fields fit, and a DATA message is not empty (setup_packet
gives an empty one the length 4, and no bytes).
Results: `readSpi_spiBytes`, `readSpi_word` (a word that has changed is noticed) and `downloadImages_wire`.
-/
import Mathlib.Tactic
import SprdDevice.ModemBoot.Wire

namespace SprdDevice.ModemBoot

open SprdDevice.EndAround SprdDevice.Memory SprdDevice.Word SprdDevice.NvItem

/-! ## The receiver -/

/-- the message with this type and these data, END with its four bytes -/
def parseSpi (type : ℕ) (data : List UInt8) : Option Said :=
  if type = 3 then if data = [0, 0, 0, 0] then some (.msg .endData) else none else parse type data

def readSpi (packet : List UInt8) : Option Said :=
  let mem := ofList packet
  let length := le16 mem 0
  if 8 + length ≤ packet.length ∧ calcChecksum (cells mem 0 6) = le16 mem 6 ∧
      calcChecksum (cells mem 8 length) = le16 mem 4 then
    parseSpi (le16 mem 2) (cells mem 8 length)
  else none

/-- the data behind the header -/
def Said.spiData : Said → List UInt8
  | .msg .endData => [0, 0, 0, 0]
  | m => m.data

def Said.Whole (m : Said) : Prop := m.Fits ∧ m ≠ .msg (.data [])

/-- the words of a header -/
def spiWords (length type check : ℕ) : List UInt8 :=
  let first := le16Bytes length ++ le16Bytes type ++ le16Bytes check
  first ++ le16Bytes (calcChecksum first)

/-! ## The bytes -/

/-- At an even address `boot_checksum` is the checksum of the bytes. -/
theorem bootChecksum_eq (mem : ℕ → UInt8) {src : ℕ} (h : src % 2 = 0) (len : ℕ) :
    bootChecksum mem src len = calcChecksum (cells mem src len) := by
  rw [← calcChecksumAt_even mem h, calcChecksumAt, if_pos h, bootChecksum]
  by_cases hodd : len % 2 = 1
  · have hlast : src + len - 1 = src + 2 * (len / 2) := by omega
    rw [hlast]
  · simp only [if_neg hodd]

theorem cells_words (buffer : ℕ → UInt8) (length type check : ℕ) {b : ℕ → UInt8}
    (hb : b = store (store (store buffer 0 (le16Bytes length)) 2 (le16Bytes type)) 4 (le16Bytes check)) :
    cells (store b 6 (le16Bytes (bootChecksum b 0 6))) 0 8 = spiWords length type check := by
  obtain ⟨first, hf⟩ : ∃ first, first = le16Bytes length ++ le16Bytes type ++ le16Bytes check := ⟨_, rfl⟩
  have hlen : first.length = 6 := by rw [hf]; rfl
  have hstores : b = store buffer 0 first := by
    have h1 := store_append buffer 0 (le16Bytes length) (le16Bytes type)
    have h2 := store_append buffer 0 (le16Bytes length ++ le16Bytes type) (le16Bytes check)
    rw [hf, h2, h1, hb]
    rfl
  have hfirst : cells b 0 6 = first := by
    rw [hstores, ← hlen]
    exact cells_store_self buffer 0 first
  have hjoin := store_append buffer 0 first (le16Bytes (calcChecksum first))
  rw [hlen, ← hstores] at hjoin
  have hwhole : (first ++ le16Bytes (calcChecksum first)).length = 8 := by
    rw [List.length_append, hlen]
    rfl
  rw [bootChecksum_eq b rfl, hfirst, ← Nat.zero_add 6, ← hjoin, ← hwhole, cells_store_self, hf]
  rfl

/-- the header that is set up -/
theorem setupSpi_words {type : CmdType} (h : type ≠ .connect) (buffer : ℕ → UInt8) (n : ℕ) :
    cells (setupSpi type buffer 8 n).1 0 8 =
      spiWords (spiLength type n) type.code (calcChecksum (cells buffer 8 n)) := by
  obtain ⟨b, hb⟩ : ∃ b, b = store (store buffer 0 (le16Bytes (spiLength type n))) 2 (le16Bytes type.code) := ⟨_, rfl⟩
  have hcheck : bootChecksum b 8 n = calcChecksum (cells buffer 8 n) := by
    rw [bootChecksum_eq b rfl, hb, cells_store_apart _ (Or.inr (by simp [le16Bytes])),
      cells_store_apart _ (Or.inr (by simp [le16Bytes]))]
  have hwords := cells_words buffer (spiLength type n) type.code (calcChecksum (cells buffer 8 n)) rfl
  rw [← hb, ← hcheck] at hwords
  rw [← hcheck]
  cases type with
  | connect => exact absurd rfl h
  | startData | midstData | execData => rw [hb] at hwords ⊢; exact hwords
  | endData | switchMode =>
    rw [hb] at hwords ⊢
    exact (cells_store_apart _ (Or.inl le_rfl)).trans hwords

/-- the data behind it -/
theorem setupSpi_data {type : CmdType} (h : type = .startData ∨ type = .midstData ∨ type = .execData)
    (buffer : ℕ → UInt8) (n : ℕ) :
    (setupSpi type buffer 8 n).2 = 8 + n ∧ cells (setupSpi type buffer 8 n).1 8 n = cells buffer 8 n := by
  have hstores : ∀ l2 l3 l4 l1 : List UInt8, l1.length = 2 → l2.length = 2 → l3.length = 2 → l4.length = 2 →
      cells (store (store (store (store buffer 0 l1) 2 l2) 4 l3) 6 l4) 8 n = cells buffer 8 n := by
    intro l2 l3 l4 l1 h1 h2 h3 h4
    rw [cells_store_apart _ (Or.inr (by omega)), cells_store_apart _ (Or.inr (by omega)),
      cells_store_apart _ (Or.inr (by omega)), cells_store_apart _ (Or.inr (by omega))]
  rcases h with rfl | rfl | rfl
  · exact ⟨Nat.add_comm n 8, hstores _ _ _ _ rfl rfl rfl rfl⟩
  · exact ⟨Nat.add_comm n 8, hstores _ _ _ _ rfl rfl rfl rfl⟩
  · exact ⟨Nat.add_comm n 8, hstores _ _ _ _ rfl rfl rfl rfl⟩

/-- **A message over SPI is its header and its data.** -/
theorem spiBytes_msg (before : ℕ → UInt8) {m : Msg} (h : (Said.msg m).Whole) :
    spiBytes before (.msg m) =
      spiWords (Said.msg m).spiData.length (Said.msg m).type.code (calcChecksum (Said.msg m).spiData) ++
        (Said.msg m).spiData := by
  obtain ⟨hfits, hne⟩ := h
  obtain ⟨hdata, hlen⟩ := buffer_data .spi before hfits
  have htype : (Said.msg m).type ≠ .connect := by
    cases m <;> exact fun h => CmdType.noConfusion h
  have hwords := setupSpi_words htype ((Said.msg m).buffer .spi before).1 ((Said.msg m).buffer .spi before).2
  rw [hdata, hlen] at hwords
  have hbehind : ∀ h : (Said.msg m).type = .startData ∨ (Said.msg m).type = .midstData ∨ (Said.msg m).type = .execData,
      spiBytes before (.msg m) =
        spiWords (spiLength (Said.msg m).type (Said.msg m).data.length) (Said.msg m).type.code
            (calcChecksum (Said.msg m).data) ++ (Said.msg m).data := by
    intro h
    obtain ⟨hsize, hcells⟩ := setupSpi_data h ((Said.msg m).buffer .spi before).1 ((Said.msg m).buffer .spi before).2
    unfold spiBytes setupMessage setupPacket
    dsimp only
    rw [hsize, cells_add, Nat.zero_add, hcells, hdata, hlen, hwords]
  cases m with
  | start size addr => exact hbehind (Or.inl rfl)
  | data payload =>
    have hpos : payload.length ≠ 0 := fun hnil => hne (by rw [List.length_eq_zero_iff.1 hnil])
    rw [hbehind (Or.inr (Or.inl rfl))]
    exact congrArg (fun n => spiWords n _ _ ++ payload) (if_neg hpos)
  | endData =>
    have hzeros : spiBytes before (.msg .endData) = spiBytes zeros (.msg .endData) := rfl
    rw [hzeros]
    decide +kernel
  | exec addr => exact hbehind (Or.inr (Or.inr rfl))

/-! ## What is read -/

/-- the words of a header that is read back -/
theorem words_read {length type check : ℕ} (hl : length < 2 ^ 16) (ht : type < 2 ^ 16) (hc : check < 2 ^ 16)
    {packet rest : List UInt8} (hp : packet = spiWords length type check ++ rest) :
    le16 (ofList packet) 0 = length ∧ le16 (ofList packet) 2 = type ∧ le16 (ofList packet) 4 = check ∧
      calcChecksum (cells (ofList packet) 0 6) = le16 (ofList packet) 6 := by
  have hword : ∀ v : ℕ, v < 2 ^ 16 → (UInt8.ofNat v).toNat + 256 * (UInt8.ofNat (v / 256)).toNat = v := by
    intro v hv
    rw [UInt8.toNat_ofNat', UInt8.toNat_ofNat']
    omega
  refine ⟨?_, ?_, ?_, ?_⟩
  · rw [hp]
    exact hword length hl
  · rw [hp]
    exact hword type ht
  · rw [hp]
    exact hword check hc
  · rw [hp]
    exact (hword _ (calcChecksum_lt _)).symm

theorem length_spiData_lt {m : Said} (h : m.Fits) : m.spiData.length < 2 ^ 16 := by
  cases m with
  | connect => decide
  | msg m =>
    cases m with
    | endData => decide
    | _ => exact length_data_lt h

theorem cells_ofList_append (l k : List UInt8) : cells (ofList (l ++ k)) l.length k.length = k := by
  apply List.ext_getElem
  · exact length_cells _ _ _
  · intro i _ hi
    simp only [cells, List.getElem_map, List.getElem_range, ofList]
    rw [List.getD_append_right _ _ _ _ (Nat.le_add_right _ _), Nat.add_sub_cancel_left]
    exact ofList_get hi

/-- **A message over SPI is read as it was sent**, whatever stood in the buffer before. -/
theorem readSpi_spiBytes (before : ℕ → UInt8) {m : Said} (h : m.Whole) : readSpi (spiBytes before m) = some m := by
  cases m with
  | connect =>
    have hzeros : spiBytes before .connect = spiBytes zeros .connect := rfl
    rw [hzeros]
    decide +kernel
  | msg m =>
    have hbytes := spiBytes_msg before h
    obtain ⟨hlength, htype, hcheck, hhead⟩ := words_read (length_spiData_lt h.1) (code_lt _) (calcChecksum_lt _) hbytes
    have hdata : cells (ofList (spiBytes before (.msg m))) 8 (Said.msg m).spiData.length = (Said.msg m).spiData := by
      rw [hbytes]
      exact cells_ofList_append (spiWords _ _ _) _
    have hroom : 8 + (Said.msg m).spiData.length ≤ (spiBytes before (.msg m)).length := by
      rw [hbytes, List.length_append]
      exact le_rfl
    have hparse : parseSpi (Said.msg m).type.code (Said.msg m).spiData = some (.msg m) := by
      cases m with
      | endData => rfl
      | _ => exact parse_data h.1
    rw [readSpi, hlength, htype, hcheck, hdata, if_pos ⟨hroom, hhead, rfl⟩, hparse]

/-! ## What is noticed -/

/-- the two words that are the same modulo 2^16 - 1 -/
def Alike (v w : ℕ) : Prop := v = 0 ∧ w = 0xFFFF ∨ v = 0xFFFF ∧ w = 0

section

variable {mem : ℕ → UInt8} {k : ℕ} {a b : UInt8}

theorem le16_store_self : le16 (store mem (2 * k) [a, b]) (2 * k) = a.toNat + 256 * b.toNat := by
  have h0 : store mem (2 * k) [a, b] (2 * k) = a := store_add mem (2 * k) [a, b] (j := 0) Nat.zero_lt_two
  have h1 : store mem (2 * k) [a, b] (2 * k + 1) = b := store_add mem (2 * k) [a, b] (j := 1) Nat.one_lt_two
  rw [le16, h0, h1]

theorem le16_store_other {i : ℕ} (h : i ≠ k) : le16 (store mem (2 * k) [a, b]) (2 * i) = le16 mem (2 * i) := by
  have hlen : [a, b].length = 2 := rfl
  rw [le16, le16, store_outside _ _ (by omega), store_outside _ _ (by omega)]

/-- a word among those that are summed -/
theorem calcChecksum_store {dat len : ℕ} (hdat : 2 * dat ≤ 2 * k) (hk : 2 * k + 1 < 2 * dat + len)
    (hne : a.toNat + 256 * b.toNat ≠ le16 mem (2 * k)) (halike : ¬ Alike (le16 mem (2 * k)) (a.toNat + 256 * b.toNat)) :
    calcChecksum (cells (store mem (2 * k) [a, b]) (2 * dat) len) ≠ calcChecksum (cells mem (2 * dat) len) := by
  obtain ⟨j, rfl⟩ : ∃ j, k = dat + j := ⟨k - dat, by omega⟩
  have hplace : 2 * (dat + j) = 2 * dat + 2 * j := Nat.mul_add 2 dat j
  have hj : 2 * j + 1 < len := by omega
  have hword := @le16_store_self mem (dat + j) a b
  rw [hplace] at hne halike hword ⊢
  have hbefore : cells (store mem (2 * dat + 2 * j) [a, b]) (2 * dat) (2 * j) = cells mem (2 * dat) (2 * j) :=
    cells_store_apart _ (Or.inl le_rfl)
  have hbehind : cells (store mem (2 * dat + 2 * j) [a, b]) (2 * dat + (2 * j + 2)) (len - (2 * j + 2)) =
      cells mem (2 * dat + (2 * j + 2)) (len - (2 * j + 2)) := cells_store_apart _ (Or.inr le_rfl)
  have hold : le16 mem (2 * dat + 2 * j) < 2 ^ 16 := by
    have h0 := byte_lt (mem (2 * dat + 2 * j))
    have h1 := byte_lt (mem (2 * dat + 2 * j + 1))
    rw [le16]
    omega
  have ha := byte_lt a
  have hb := byte_lt b
  rw [calcChecksum_eq_fold, calcChecksum_eq_fold, sumWords_word hj, sumWords_word hj, hbefore, hbehind, hword]
  unfold Alike at halike
  exact checksum_ne_of_summand _ hne (by omega) (by omega)

end

/-- a word of a packet that has become another -/
def setWord (packet : List UInt8) (k : ℕ) (a b : UInt8) : List UInt8 := (packet.set (2 * k) a).set (2 * k + 1) b

theorem ofList_setWord {packet : List UInt8} {k : ℕ} (hk : 2 * k + 1 < packet.length) (a b : UInt8) :
    ofList (setWord packet k a b) = store (ofList packet) (2 * k) [a, b] := by
  funext i
  unfold setWord ofList
  rw [List.getD_eq_getElem?_getD, List.getElem?_set, List.getElem?_set, List.length_set]
  rcases Nat.lt_trichotomy i (2 * k) with h | rfl | h
  · rw [store_outside _ _ (Or.inl h), if_neg (by omega), if_neg (by omega), List.getD_eq_getElem?_getD]
  · have hfirst := store_add (fun i => packet.getD i 0) (2 * k) [a, b] (j := 0) Nat.zero_lt_two
    rw [if_neg (by omega), if_pos rfl, if_pos (by omega)]
    exact hfirst.symm
  · by_cases hnext : 2 * k + 1 = i
    · subst hnext
      have hsecond := store_add (fun i => packet.getD i 0) (2 * k) [a, b] (j := 1) Nat.one_lt_two
      rw [if_pos rfl, if_pos hk]
      exact hsecond.symm
    · have hbehind : 2 * k + [a, b].length ≤ i := by
        simp only [List.length_cons, List.length_nil]
        omega
      rw [store_outside _ _ (Or.inr hbehind), if_neg hnext, if_neg (by omega), List.getD_eq_getElem?_getD]

/-- **A word that has changed is noticed**, in the header and in the data, but for 0x0000 and 0xFFFF in each other's
place. -/
theorem readSpi_word {packet : List UInt8} {m : Said} (h : readSpi packet = some m) {k : ℕ} {a b : UInt8}
    (hk : 2 * k + 1 < 8 + le16 (ofList packet) 0) (hne : a.toNat + 256 * b.toNat ≠ le16 (ofList packet) (2 * k))
    (halike : ¬ Alike (le16 (ofList packet) (2 * k)) (a.toNat + 256 * b.toNat)) :
    readSpi (setWord packet k a b) = none := by
  rw [readSpi] at h
  split_ifs at h with hok
  obtain ⟨hroom, hhead, hdata⟩ := hok
  rw [readSpi, ofList_setWord (by omega)]
  apply if_neg
  rintro ⟨-, hhead', hdata'⟩
  rcases Nat.lt_or_ge k 3 with hfirst | hlate
  · have hcheck := @le16_store_other (ofList packet) k a b 3 (by omega)
    have hsum := @calcChecksum_store (ofList packet) k a b 0 6 (by omega) (by omega) hne halike
    exact hsum (hhead'.trans (hcheck.trans hhead.symm))
  · rcases Nat.eq_or_lt_of_le hlate with rfl | hbehind
    · have hcells := @cells_store_apart (ofList packet) (2 * 3) 0 6 [a, b] (Or.inl le_rfl)
      rw [hcells, hhead] at hhead'
      exact hne (hhead'.trans le16_store_self).symm
    · have hlength := @le16_store_other (ofList packet) k a b 0 (by omega)
      have hcheck := @le16_store_other (ofList packet) k a b 2 (by omega)
      rw [Nat.mul_zero] at hlength
      rw [hlength] at hdata'
      have hsum := @calcChecksum_store (ofList packet) k a b 4 (le16 (ofList packet) 0) (by omega) (by omega)
        hne halike
      exact hsum (hdata'.trans (hcheck.trans hdata.symm))

/-! ## The download of the images -/

def SentWhole (m : Msg) : Prop := (Said.msg m).Whole

theorem dataLoop_whole {ans : ℕ → Reply} (cmdline : Option (List UInt8)) (flag : Bool) (count : ℤ) {fuel : ℕ}
    {i imageSize : ℤ} {f : File} {x : Xfer} (h : All SentWhole x) :
    All SentWhole (dataLoop ans cmdline flag count fuel i imageSize f x).2 := by
  induction fuel generalizing i imageSize f x with
  | zero => exact h
  | succ fuel ih =>
    have hpacket : ∀ buf : ℕ → UInt8, SentWhole (.data (cells buf 8 HS_PACKET_SIZE)) := by
      intro buf
      refine ⟨?_, ?_⟩
      · rw [Said.Fits, length_cells]
        decide
      · intro hnil
        have hlen := congrArg List.length (Msg.data.inj (Said.msg.inj hnil))
        rw [length_cells] at hlen
        exact absurd hlen (by decide)
    by_cases hi : i < count
    · rw [dataLoop, if_pos hi]
      exact All.orReturn (@All.sendMessage SentWhole ans _ (fun m hm => h m hm) _ (hpacket _)) fun x' hx' => ih hx'
    · rw [dataLoop, if_neg hi]
      exact h

/-- the count of packets, without overflow -/
theorem count_size {n p : ℕ} (hp : 0 < p) (h : n + p ≤ 2 ^ 31) :
    (((n : ℤ).bmod (2 ^ 32) + p - 1).bmod (2 ^ 32)).tdiv p = ((n + p - 1) / p : ℕ) := by
  have hcast : (n : ℤ) + p - 1 = ((n + p - 1 : ℕ) : ℤ) := by omega
  rw [Fdl.bmod_small (by omega), hcast, Fdl.bmod_small (by omega), Int.tdiv_eq_ediv_of_nonneg (Int.natCast_nonneg _),
    ← Int.natCast_ediv]

/-- the size in the START is that of whole packets -/
theorem packetCount_size {imageSize : UInt32} (h : imageSize.toNat + HS_PACKET_SIZE ≤ 2 ^ 31) :
    0 ≤ packetCount imageSize * HS_PACKET_SIZE ∧ packetCount imageSize * HS_PACKET_SIZE < 2 ^ 31 := by
  have hpos : 0 < HS_PACKET_SIZE := by decide
  have hcount : packetCount imageSize = ((imageSize.toNat + HS_PACKET_SIZE - 1) / HS_PACKET_SIZE : ℕ) :=
    count_size hpos h
  have hle := Nat.div_mul_le_self (imageSize.toNat + HS_PACKET_SIZE - 1) HS_PACKET_SIZE
  have hlt : (imageSize.toNat + HS_PACKET_SIZE - 1) / HS_PACKET_SIZE * HS_PACKET_SIZE < 2 ^ 31 := by omega
  rw [hcount, ← Int.natCast_mul]
  exact ⟨Int.natCast_nonneg _, by exact_mod_cast hlt⟩

theorem sentWhole_start {imageSize address : UInt32} (h : imageSize.toNat + HS_PACKET_SIZE ≤ 2 ^ 31) :
    SentWhole (.start (packetCount imageSize * HS_PACKET_SIZE) address.toNat) := by
  obtain ⟨hnonneg, hlt⟩ := packetCount_size h
  generalize packetCount imageSize * HS_PACKET_SIZE = size at hnonneg hlt
  exact ⟨⟨hnonneg, hlt, address.toNat_lt⟩, by simp⟩

theorem transferImage_whole {ans : ℕ → Reply} (cmdline : Option (List UInt8)) {info : ImageInfo}
    (hsize : info.imageSize.toNat + HS_PACKET_SIZE ≤ 2 ^ 31) (f : File) (flag : Bool) {x : Xfer} (h : All SentWhole x) :
    All SentWhole (transferImage ans cmdline info f flag x).2 := by
  have hstart := @sentWhole_start _ info.address hsize
  obtain ⟨n, hn⟩ : ∃ n, n = packetCount info.imageSize := ⟨_, rfl⟩
  rw [← hn] at hstart
  rw [transferImage, ← hn]
  refine All.orReturn (h.sendMessage hstart) fun x' hx' => ?_
  refine All.orReturn (dataLoop_whole cmdline flag n hx') fun x'' hx'' => ?_
  exact hx''.sendMessage ⟨trivial, by simp⟩

theorem downloadImage_whole {ans : ℕ → Reply} (cmdline : Option (List UInt8)) {image : ImageInfo × Option File}
    (hsize : image.1.imageSize.toNat + HS_PACKET_SIZE ≤ 2 ^ 31) (flag : Bool) {x : Xfer} (h : All SentWhole x) :
    All SentWhole (downloadImage ans cmdline image.1 image.2 flag x).2 := by
  unfold downloadImage
  split
  · exact h
  · exact h
  · exact transferImage_whole cmdline hsize _ flag h

theorem imagesLoop_whole {ans : ℕ → Reply} (cmdline : Option (List UInt8)) {images : List (ImageInfo × Option File)}
    (hsize : ∀ image ∈ images, image.1.imageSize.toNat + HS_PACKET_SIZE ≤ 2 ^ 31) {ret : ℤ} {x : Xfer}
    (h : All SentWhole x) : All SentWhole (imagesLoop ans cmdline images ret x).xfer := by
  induction images generalizing ret x with
  | nil => exact h
  | cons image images ih =>
    have himage := @downloadImage_whole ans cmdline image (hsize image List.mem_cons_self) images.isEmpty x h
    rw [imagesLoop]
    split_ifs
    · exact himage
    · exact ih (fun i hi => hsize i (List.mem_cons_of_mem _ hi)) himage

/-- **The download over SPI.** Whatever the modem answers, whichever files open and however short they are: every
message of a download is read as it was sent, and a word of it that has changed is noticed. -/
theorem downloadImages_wire (ans : ℕ → Reply) (cmdline : Option (List UInt8)) (images : List (ImageInfo × Option File))
    (ret : ℤ) (testBuffer : ℕ → UInt8) (hsize : ∀ image ∈ images, image.1.imageSize.toNat + HS_PACKET_SIZE ≤ 2 ^ 31)
    (before : ℕ → UInt8) :
    ∀ m ∈ (downloadImages ans cmdline images ret testBuffer).xfer.sent,
      readSpi (spiBytes before (.msg m)) = some (.msg m) ∧
        ∀ (k : ℕ) (a b : UInt8), 2 * k + 1 < (spiBytes before (.msg m)).length →
          a.toNat + 256 * b.toNat ≠ le16 (ofList (spiBytes before (.msg m))) (2 * k) →
          ¬ Alike (le16 (ofList (spiBytes before (.msg m))) (2 * k)) (a.toNat + 256 * b.toNat) →
          readSpi (setWord (spiBytes before (.msg m)) k a b) = none := by
  have hloop : All SentWhole (imagesLoop ans cmdline images ret ⟨[], testBuffer⟩).xfer :=
    imagesLoop_whole cmdline hsize (All.start SentWhole testBuffer)
  have hexec : SentWhole (.exec EXEC_ADDR) := ⟨(by decide : EXEC_ADDR < 2 ^ 32), fun hnil => nomatch hnil⟩
  have hall : All SentWhole (downloadImages ans cmdline images ret testBuffer).xfer :=
    @All.sendMessage SentWhole ans _ hloop _ hexec
  intro m hm
  have hread := readSpi_spiBytes before (hall m hm)
  refine ⟨hread, fun k a b hk hne halike => readSpi_word hread ?_ hne halike⟩
  have hbytes := spiBytes_msg before (hall m hm)
  have hlength := (words_read (length_spiData_lt (hall m hm).1) (code_lt _) (calcChecksum_lt _) hbytes).1
  rw [hlength]
  rwa [hbytes, List.length_append] at hk

/-- one image, of which the file has three bytes -/
theorem downloadImages_wire_fixnv : (0x1F000 : UInt32).toNat + HS_PACKET_SIZE ≤ 2 ^ 31 ∧
    ∀ m ∈ (downloadImages alwaysAcked none [(⟨some "/fixnv/fixnv.bin", 0x1F000, 0x400⟩, some ⟨[1, 2, 3], [3]⟩)] 0
        zeros).xfer.sent,
      readSpi (spiBytes zeros (.msg m)) = some (.msg m) ∧
        ∀ (k : ℕ) (a b : UInt8), 2 * k + 1 < (spiBytes zeros (.msg m)).length →
          a.toNat + 256 * b.toNat ≠ le16 (ofList (spiBytes zeros (.msg m))) (2 * k) →
          ¬ Alike (le16 (ofList (spiBytes zeros (.msg m))) (2 * k)) (a.toNat + 256 * b.toNat) →
          readSpi (setWord (spiBytes zeros (.msg m)) k a b) = none := by
  refine ⟨by decide, ?_⟩
  apply downloadImages_wire
  intro image himage
  rw [List.mem_singleton.1 himage]
  decide

end SprdDevice.ModemBoot
