/-
The image download of the modem boot loader over SPI (`modem_boot.c`: `download_image`, `download_images`; `packet.c`: the
`send_*_message` family with `flag` 1).

`sent` lists the messages handed to `write` so far, and `ans n` is what the modem answers to the n-th of them, so one
function says every pattern of acknowledgements. A message whose `write` fails has the answer `unwritten`. The
checksums and the packet header are left out; of the six bytes of an answer the code looks at the first two.

An image is handed over with the file its path opens to, or `none`. A file is the rest of its content and the counts its
next `read` calls deliver at most; `test_buffer` is the memory seen from its first byte, and keeps what earlier packets
left there.

Results: `packetLoop_enough` (the packet loop ends by itself), `imagesLoop_runs` (the loop sends the script of the opened
images up to the first negative answer) and `exec_after_success_iff`.
-/
import Mathlib.Tactic
import SprdDevice.Lib.Memory

namespace SprdDevice.ModemBoot

open SprdDevice.Memory

/-! ## Messages -/

def HS_PACKET_SIZE : ℕ := 60 * 1024

def DL_SUCCESS : ℤ := 0

def DL_FAILURE : ℤ := -1

def BSL_REP_ACK : ℕ := 0x80

/-- the messages of a download, with the fields the caller passes -/
inductive Msg where
  | start (size : ℤ) (addr : ℕ)
  | data (payload : List UInt8)
  | endData
  | exec (addr : ℕ)
deriving DecidableEq, Repr

/-- what comes back for a message: its `write` fails, or an answer with these first two bytes arrives -/
inductive Reply where
  | unwritten
  | answered (b0 b1 : UInt8)
deriving DecidableEq, Repr

/-- the answers the loader takes for an acknowledgement -/
def acked : Reply → Bool
  | .unwritten => false
  | .answered b0 b1 => decide (b0.toNat * 256 + b1.toNat = BSL_REP_ACK ∨ b0.toNat * 256 + b1.toNat = 0)

/-- what a download works on; `sent` are the messages that were handed to `write` -/
structure Xfer where
  sent : List Msg
  testBuffer : ℕ → UInt8

/-- `send_start_message`, `send_data_message`, `send_end_message` and `send_exec_message`, which differ in the message -/
def sendMessage (ans : ℕ → Reply) (m : Msg) (x : Xfer) : ℤ × Xfer :=
  (if acked (ans x.sent.length) then DL_SUCCESS else DL_FAILURE, { x with sent := x.sent ++ [m] })

/-- `if(ret != DL_SUCCESS) return DL_FAILURE`, and what comes after it -/
def orReturn (r : ℤ × Xfer) (next : Xfer → ℤ × Xfer) : ℤ × Xfer :=
  if r.1 ≠ DL_SUCCESS then (DL_FAILURE, r.2) else next r.2

theorem success_ne_failure : DL_SUCCESS ≠ DL_FAILURE := by decide

theorem sendMessage_acked {ans : ℕ → Reply} (hack : ∀ n, acked (ans n) = true) (m : Msg) (x : Xfer) :
    sendMessage ans m x = (DL_SUCCESS, ⟨x.sent ++ [m], x.testBuffer⟩) := by
  rw [sendMessage, if_pos (hack _)]

theorem orReturn_success (x : Xfer) (next : Xfer → ℤ × Xfer) : orReturn (DL_SUCCESS, x) next = next x :=
  if_neg (not_not.2 rfl)

/-- a modem that acknowledges everything -/
def alwaysAcked (_ : ℕ) : Reply := .answered 0 0x80

theorem alwaysAcked_acked (n : ℕ) : acked (alwaysAcked n) = true := by
  unfold alwaysAcked
  decide

/-! ## Images -/

structure ImageInfo where
  imagePath : Option String
  imageSize : UInt32
  address : UInt32
deriving DecidableEq, Repr

/-- an open file: what is left of it, and the counts of the next reads -/
structure File where
  rest : List UInt8
  counts : List ℕ

/-- the `do … while` that reads one packet: up to `packetSize` bytes to `ofs`, until a read gives nothing -/
def readPacket (packetSize ofs : ℕ) (rest : List UInt8) (buf : ℕ → UInt8) : List ℕ → (ℕ → UInt8) × File
  | [] => (buf, ⟨rest, []⟩)
  | c :: counts =>
    let got := rest.take (min c packetSize)
    if got = [] then (buf, ⟨rest, counts⟩)
    else if packetSize - got.length > 0 then
      readPacket (packetSize - got.length) (ofs + got.length) (rest.drop got.length) (store buf ofs got) counts
    else (store buf ofs got, ⟨rest.drop got.length, counts⟩)

/-- the kernel command line over byte 16 K of the packet -/
def putCmdline (cmdline : Option (List UInt8)) (buf : ℕ → UInt8) : ℕ → UInt8 :=
  let cleared := store buf (16 * 1024 + 8) (List.replicate 1024 0)
  match cmdline with
  | none => cleared
  | some line => store cleared (16 * 1024 + 8) (line.take 1024)

/-- `count`: the additions and the division of `int` -/
def packetCount (imageSize : UInt32) : ℤ :=
  (((imageSize.toNat : ℤ).bmod (2 ^ 32) + HS_PACKET_SIZE - 1).bmod (2 ^ 32)).tdiv HS_PACKET_SIZE

/-- the buffer one packet is sent from: what is read, the padding of the last packet, the command line -/
def packetBuffer (cmdline : Option (List UInt8)) (productinfoFlag : Bool) (imageSize : ℤ) (buf : ℕ → UInt8) : ℕ → UInt8 :=
  let padded :=
    if imageSize < HS_PACKET_SIZE then
      store buf (8 + imageSize.toNat) (List.replicate (HS_PACKET_SIZE - imageSize.toNat) 0xFF)
    else buf
  if productinfoFlag then putCmdline cmdline padded else padded

/-- the `for` loop over the packets. The padding of the last packet runs on the loop's own variable `i`. -/
def dataLoop (ans : ℕ → Reply) (cmdline : Option (List UInt8)) (productinfoFlag : Bool) (count : ℤ) :
    ℕ → ℤ → ℤ → File → Xfer → ℤ × Xfer
  | 0, _, _, _, x => (DL_SUCCESS, x)
  | fuel + 1, i, imageSize, f, x =>
    if i < count then
      let read := readPacket HS_PACKET_SIZE 8 f.rest x.testBuffer f.counts
      let buf := packetBuffer cmdline productinfoFlag imageSize read.1
      let i := if imageSize < HS_PACKET_SIZE then (HS_PACKET_SIZE : ℤ) else i
      let imageSize := if imageSize < HS_PACKET_SIZE then 0 else imageSize - HS_PACKET_SIZE
      orReturn (sendMessage ans (.data (cells buf 8 HS_PACKET_SIZE)) { x with testBuffer := buf })
        (dataLoop ans cmdline productinfoFlag count fuel (i + 1) imageSize read.2)
    else (DL_SUCCESS, x)

/-- `download_image` once the image is open -/
def transferImage (ans : ℕ → Reply) (cmdline : Option (List UInt8)) (info : ImageInfo) (f : File)
    (productinfoFlag : Bool) (x : Xfer) : ℤ × Xfer :=
  orReturn (sendMessage ans (.start (packetCount info.imageSize * HS_PACKET_SIZE) info.address.toNat) x) fun x =>
    orReturn (dataLoop ans cmdline productinfoFlag (packetCount info.imageSize) (packetCount info.imageSize).toNat 0
      ((info.imageSize.toNat : ℤ).bmod (2 ^ 32)) f x) fun x =>
        sendMessage ans .endData x

/-- `download_image`; `file` is what `open(info->image_path)` gives -/
def downloadImage (ans : ℕ → Reply) (cmdline : Option (List UInt8)) (info : ImageInfo) (file : Option File)
    (productinfoFlag : Bool) (x : Xfer) : ℤ × Xfer :=
  match info.imagePath, file with
  | none, _ => (DL_SUCCESS, x)
  | some _, none => (DL_SUCCESS, x)
  | some _, some f => transferImage ans cmdline info f productinfoFlag x

/-- what the loop of `download_images` leaves: `ret`, the results of its calls in order, the channel -/
structure LoopEnd where
  ret : ℤ
  rets : List ℤ
  xfer : Xfer

/-- the loop of `download_images`; the last image gets the command line -/
def imagesLoop (ans : ℕ → Reply) (cmdline : Option (List UInt8)) :
    List (ImageInfo × Option File) → ℤ → Xfer → LoopEnd
  | [], ret, x => ⟨ret, [], x⟩
  | image :: images, _, x =>
    let r := downloadImage ans cmdline image.1 image.2 images.isEmpty x
    if r.1 ≠ DL_SUCCESS then ⟨r.1, [r.1], r.2⟩
    else
      let e := imagesLoop ans cmdline images r.1 r.2
      { e with rets := r.1 :: e.rets }

/-- where the modem starts to run -/
def EXEC_ADDR : ℕ := 0x400000

/-- `download_images` over the images after the first: the end of its loop, and the messages sent; `ret` holds anything
before the loop, and is the result -/
def downloadImages (ans : ℕ → Reply) (cmdline : Option (List UInt8)) (images : List (ImageInfo × Option File))
    (ret : ℤ) (testBuffer : ℕ → UInt8) : LoopEnd :=
  let e := imagesLoop ans cmdline images ret ⟨[], testBuffer⟩
  { e with xfer := (sendMessage ans (.exec EXEC_ADDR) e.xfer).2 }

/-! ## Scripts

The kinds of message a step sends, and what sending them means: all are acknowledged and the step succeeds, or the step
fails at the first that is not. -/

/-- a message without its fields -/
inductive Kind where
  | start
  | data
  | endData
  | exec
deriving DecidableEq, Repr

def Msg.kind : Msg → Kind
  | .start _ _ => .start
  | .data _ => .data
  | .endData => .endData
  | .exec _ => .exec

/-- START, `n` packets, END -/
def imageScript (n : ℕ) : List Kind := Kind.start :: (List.replicate n Kind.data ++ [Kind.endData])

/-- the messages of one image: none when it is not opened -/
def script : ImageInfo × Option File → List Kind
  | (info, file) =>
    match info.imagePath, file with
    | none, _ => []
    | some _, none => []
    | some _, some _ => imageScript (packetCount info.imageSize).toNat

/-- from `sent` to `sent'`, the script `ks` was sent with result `ret` -/
inductive Runs (ans : ℕ → Reply) (ks : List Kind) (sent : List Msg) : List Msg → ℤ → Prop where
  | ok (ms : List Msg) (hms : ms.map Msg.kind = ks)
      (hack : ∀ n, sent.length ≤ n → n < sent.length + ks.length → acked (ans n) = true) :
      Runs ans ks sent (sent ++ ms) DL_SUCCESS
  | failed (ms : List Msg) (m : Msg) (hms : (ms ++ [m]).map Msg.kind <+: ks)
      (hnack : acked (ans (sent.length + ms.length)) = false) :
      Runs ans ks sent (sent ++ (ms ++ [m])) DL_FAILURE

variable {ans : ℕ → Reply}

theorem Runs.nil (sent : List Msg) : Runs ans [] sent sent DL_SUCCESS := by
  have h : Runs ans [] sent (sent ++ []) DL_SUCCESS := by
    refine Runs.ok [] rfl ?_
    intro n h1 h2
    simp only [List.length_nil] at h2
    omega
  rwa [List.append_nil] at h

/-- A step that fails fails the script it begins. -/
theorem Runs.stop {ks ks' : List Kind} {sent sent' : List Msg} {ret : ℤ} (h : Runs ans ks sent sent' ret)
    (hret : ret ≠ DL_SUCCESS) : Runs ans (ks ++ ks') sent sent' DL_FAILURE := by
  cases h with
  | ok ms hms hack => exact absurd rfl hret
  | failed ms m hms hnack => exact Runs.failed ms m (hms.trans (List.prefix_append ks ks')) hnack

/-- After a step that succeeds the rest of the script is sent. -/
theorem Runs.next {ks ks' : List Kind} {sent sent' sent'' : List Msg} {ret : ℤ}
    (h : Runs ans ks sent sent' DL_SUCCESS) (h' : Runs ans ks' sent' sent'' ret) :
    Runs ans (ks ++ ks') sent sent'' ret := by
  cases h with
  | ok ms hms hack =>
    have hlen : ms.length = ks.length := by rw [← hms, List.length_map]
    cases h' with
    | ok ms' hms' hack' =>
      rw [List.append_assoc]
      refine Runs.ok (ms ++ ms') (by rw [List.map_append, hms, hms']) ?_
      intro n h1 h2
      rw [List.length_append] at h2
      by_cases hn : n < sent.length + ks.length
      · exact hack n h1 hn
      · apply hack' n <;> rw [List.length_append] <;> omega
    | failed ms' m hms' hnack' =>
      rw [List.append_assoc sent ms, ← List.append_assoc ms]
      refine Runs.failed (ms ++ ms') m ?_ ?_
      · rw [List.append_assoc, List.map_append, hms]
        exact (List.prefix_append_right_inj ks).mpr hms'
      · rw [List.length_append] at hnack' ⊢
        rw [← Nat.add_assoc]
        exact hnack'

/-- a step from `x` that ends in `r` sends the script `ks` -/
def Sends (ans : ℕ → Reply) (ks : List Kind) (x : Xfer) (r : ℤ × Xfer) : Prop := Runs ans ks x.sent r.2.sent r.1

theorem Sends.nothing (x : Xfer) : Sends ans [] x (DL_SUCCESS, x) := Runs.nil x.sent

theorem Sends.message (m : Msg) (x : Xfer) : Sends ans [m.kind] x (sendMessage ans m x) := by
  unfold Sends sendMessage
  by_cases hack : acked (ans x.sent.length) = true
  · rw [if_pos hack]
    refine Runs.ok [m] rfl ?_
    intro n h1 h2
    have hn : n = x.sent.length := by simp only [List.length_singleton] at h2; omega
    rw [hn]
    exact hack
  · rw [if_neg hack]
    exact Runs.failed [] m (List.prefix_refl _) (by simpa using hack)

/-- The rule for `orReturn`: the scripts follow each other. -/
theorem Sends.orReturn {ks ks' : List Kind} {x : Xfer} {r : ℤ × Xfer} {next : Xfer → ℤ × Xfer} (h : Sends ans ks x r)
    (h' : ∀ x', Sends ans ks' x' (next x')) : Sends ans (ks ++ ks') x (orReturn r next) := by
  unfold Sends ModemBoot.orReturn at *
  by_cases hr : r.1 = DL_SUCCESS
  · rw [if_neg (not_not.mpr hr)]
    rw [hr] at h
    exact h.next (h' r.2)
  · rw [if_pos hr]
    exact h.stop hr

/-! ## The packet loop -/

theorem dataLoop_done (ans : ℕ → Reply) (cmdline : Option (List UInt8)) (flag : Bool) {count i : ℤ} (hi : count ≤ i)
    (fuel : ℕ) (imageSize : ℤ) (f : File) (x : Xfer) :
    dataLoop ans cmdline flag count fuel i imageSize f x = (DL_SUCCESS, x) := by
  cases fuel with
  | zero => rfl
  | succ fuel => rw [dataLoop, if_neg (not_lt.mpr hi)]

/-- The loop ends by itself: with `count` within the padding's reach, no turn after the `count`-th is ever taken. -/
theorem dataLoop_enough (ans : ℕ → Reply) (cmdline : Option (List UInt8)) (flag : Bool) {count : ℤ}
    (hc : count ≤ HS_PACKET_SIZE + 1) (more n : ℕ) (i imageSize : ℤ) (f : File) (x : Xfer) (hn : count ≤ i + n) :
    dataLoop ans cmdline flag count (n + more) i imageSize f x = dataLoop ans cmdline flag count n i imageSize f x := by
  induction n generalizing i imageSize f x with
  | zero =>
    have hi : count ≤ i := by simpa using hn
    rw [dataLoop_done ans cmdline flag hi, dataLoop_done ans cmdline flag hi]
  | succ n ih =>
    by_cases hi : i < count
    · rw [Nat.add_right_comm, dataLoop, dataLoop, if_pos hi, if_pos hi]
      dsimp only
      congr 1
      funext x'
      apply ih
      split_ifs
      · omega
      · push_cast at hn
        omega
    · rw [dataLoop_done ans cmdline flag (not_lt.mp hi), dataLoop_done ans cmdline flag (not_lt.mp hi)]

/-- With `n` packets of the image left, the loop sends `n` DATA messages. -/
theorem dataLoop_sends (ans : ℕ → Reply) (cmdline : Option (List UInt8)) (flag : Bool) {count : ℤ}
    (n : ℕ) (i imageSize : ℤ) (f : File) (x : Xfer) (hn : i + n = count)
    (hsize : n ≠ 0 → (n - 1 : ℤ) * HS_PACKET_SIZE < imageSize) :
    Sends ans (List.replicate n Kind.data) x (dataLoop ans cmdline flag count n i imageSize f x) := by
  induction n generalizing i imageSize f x with
  | zero => exact Sends.nothing x
  | succ n ih =>
    have hi : i < count := by push_cast at hn; omega
    have hsize' : (n : ℤ) * HS_PACKET_SIZE < imageSize := by simpa using hsize (Nat.succ_ne_zero n)
    rw [dataLoop, if_pos hi, List.replicate_succ, ← List.singleton_append]
    refine Sends.orReturn (Sends.message (Msg.data _) _) ?_
    intro x'
    by_cases hs : imageSize < HS_PACKET_SIZE
    · -- only the last packet is padded
      have hlast : n = 0 := by
        by_contra hpos
        have h1 : (1 : ℤ) * HS_PACKET_SIZE ≤ (n : ℤ) * HS_PACKET_SIZE :=
          mul_le_mul_of_nonneg_right (by omega) (by positivity)
        omega
      subst hlast
      exact Sends.nothing x'
    · rw [if_neg hs, if_neg hs]
      refine ih _ _ _ x' ?_ ?_
      · push_cast at hn
        linarith
      · intro _
        linarith

/-! ## Whole images -/

theorem packetCount_le (imageSize : UInt32) : packetCount imageSize ≤ HS_PACKET_SIZE + 1 := by
  unfold packetCount
  have hb := Int.bmod_lt (x := (imageSize.toNat : ℤ).bmod (2 ^ 32) + HS_PACKET_SIZE - 1) (m := 2 ^ 32) (by decide)
  generalize ((imageSize.toNat : ℤ).bmod (2 ^ 32) + HS_PACKET_SIZE - 1).bmod (2 ^ 32) = z at hb ⊢
  calc z.tdiv HS_PACKET_SIZE ≤ (2 ^ 31 - 1 : ℤ).tdiv HS_PACKET_SIZE := Int.tdiv_le_tdiv (by decide) (by omega)
    _ ≤ HS_PACKET_SIZE + 1 := by decide

/-- When there are packets to send, the last one begins inside the image. -/
theorem packetCount_spec (imageSize : UInt32) (h : (packetCount imageSize).toNat ≠ 0) :
    ((packetCount imageSize).toNat - 1 : ℤ) * HS_PACKET_SIZE < (imageSize.toNat : ℤ).bmod (2 ^ 32) := by
  have hpos : 0 < packetCount imageSize := by omega
  rw [Int.toNat_of_nonneg hpos.le]
  clear h
  unfold packetCount at hpos ⊢
  have hlt := Int.bmod_lt (x := (imageSize.toNat : ℤ)) (m := 2 ^ 32) (by decide)
  have hge := Int.le_bmod (x := (imageSize.toNat : ℤ)) (m := 2 ^ 32) (by decide)
  generalize (imageSize.toNat : ℤ).bmod (2 ^ 32) = size at *
  -- a sum past the range of `int` is negative, and then there is no packet
  have hz : 0 ≤ (size + HS_PACKET_SIZE - 1).bmod (2 ^ 32) := by
    by_contra hneg
    have hle := Int.tdiv_le_tdiv (c := HS_PACKET_SIZE) (by decide) (not_le.mp hneg).le
    rw [Int.zero_tdiv] at hle
    omega
  rw [Int.tdiv_eq_ediv_of_nonneg hz]
  simp only [HS_PACKET_SIZE, Int.bmod_def] at hz hlt hge ⊢
  split_ifs at hz ⊢ <;> push_cast at * <;> omega

theorem packetLoop_sends (ans : ℕ → Reply) (cmdline : Option (List UInt8)) (flag : Bool) (imageSize : UInt32) (f : File)
    (x : Xfer) :
    Sends ans (List.replicate (packetCount imageSize).toNat Kind.data) x
      (dataLoop ans cmdline flag (packetCount imageSize) (packetCount imageSize).toNat 0
        ((imageSize.toNat : ℤ).bmod (2 ^ 32)) f x) := by
  by_cases hc : 0 ≤ packetCount imageSize
  · exact dataLoop_sends ans cmdline flag _ 0 _ f x (by omega) (packetCount_spec imageSize)
  · have hzero : (packetCount imageSize).toNat = 0 := by omega
    rw [hzero]
    exact Sends.nothing x

/-- The turns `transferImage` allows for are enough: more of them change nothing. -/
theorem packetLoop_enough (ans : ℕ → Reply) (cmdline : Option (List UInt8)) (flag : Bool) (imageSize : UInt32) (f : File)
    (x : Xfer) (more : ℕ) :
    dataLoop ans cmdline flag (packetCount imageSize) ((packetCount imageSize).toNat + more) 0
        ((imageSize.toNat : ℤ).bmod (2 ^ 32)) f x =
      dataLoop ans cmdline flag (packetCount imageSize) (packetCount imageSize).toNat 0
        ((imageSize.toNat : ℤ).bmod (2 ^ 32)) f x := by
  apply dataLoop_enough ans cmdline flag (packetCount_le imageSize)
  rw [zero_add]
  exact Int.self_le_toNat _

/-- START, the packets, END: each only after the one before succeeded. -/
theorem transferImage_sends (ans : ℕ → Reply) (cmdline : Option (List UInt8)) (info : ImageInfo) (f : File)
    (flag : Bool) (x : Xfer) :
    Sends ans (imageScript (packetCount info.imageSize).toNat) x (transferImage ans cmdline info f flag x) := by
  unfold transferImage imageScript
  have hdata := packetLoop_sends ans cmdline flag info.imageSize f
  generalize (packetCount info.imageSize).toNat = n at hdata ⊢
  rw [← List.singleton_append]
  refine Sends.orReturn (Sends.message (Msg.start _ _) x) ?_
  intro x1
  refine Sends.orReturn (hdata x1) ?_
  intro x2
  exact Sends.message Msg.endData x2

theorem downloadImage_sends (ans : ℕ → Reply) (cmdline : Option (List UInt8)) (image : ImageInfo × Option File)
    (flag : Bool) (x : Xfer) :
    Sends ans (script image) x (downloadImage ans cmdline image.1 image.2 flag x) := by
  obtain ⟨⟨imagePath, imageSize, address⟩, file⟩ := image
  cases imagePath with
  | none => exact Sends.nothing x
  | some path =>
    cases file with
    | none => exact Sends.nothing x
    | some f => exact transferImage_sends ans cmdline ⟨some path, imageSize, address⟩ f flag x

/-- The loop over the images: the results of its calls are all success exactly when the whole script was. -/
theorem imagesLoop_runs (ans : ℕ → Reply) (cmdline : Option (List UInt8)) (images : List (ImageInfo × Option File))
    (ret : ℤ) (x : Xfer) :
    ∃ last, Runs ans (images.flatMap script) x.sent (imagesLoop ans cmdline images ret x).xfer.sent last ∧
      (last = DL_SUCCESS ↔ (imagesLoop ans cmdline images ret x).rets = List.replicate images.length DL_SUCCESS) := by
  induction images generalizing ret x with
  | nil => exact ⟨DL_SUCCESS, Runs.nil x.sent, by simp [imagesLoop]⟩
  | cons image images ih =>
    have himage := downloadImage_sends ans cmdline image images.isEmpty x
    unfold Sends at himage
    rw [List.flatMap_cons, imagesLoop]
    generalize downloadImage ans cmdline image.1 image.2 images.isEmpty x = r at himage ⊢
    by_cases hr : r.1 = DL_SUCCESS
    · obtain ⟨last, hruns, hlast⟩ := ih r.1 r.2
      rw [hr] at himage
      rw [if_neg (not_not.mpr hr)]
      refine ⟨last, himage.next hruns, ?_⟩
      rw [hlast, List.length_cons, List.replicate_succ, List.cons.injEq]
      exact ⟨fun h => ⟨hr, h⟩, fun h => h.2⟩
    · rw [if_pos hr]
      refine ⟨DL_FAILURE, himage.stop hr, ?_⟩
      rw [List.length_cons, List.replicate_succ, List.cons.injEq]
      exact ⟨fun h => absurd h (by decide), fun h => absurd h.1 hr⟩

/-! ## EXEC -/

theorem downloadImages_sent (ans : ℕ → Reply) (cmdline : Option (List UInt8)) (images : List (ImageInfo × Option File))
    (ret : ℤ) (testBuffer : ℕ → UInt8) :
    (downloadImages ans cmdline images ret testBuffer).xfer.sent =
      (imagesLoop ans cmdline images ret ⟨[], testBuffer⟩).xfer.sent ++ [Msg.exec EXEC_ADDR] := rfl

theorem downloadImages_rets (ans : ℕ → Reply) (cmdline : Option (List UInt8)) (images : List (ImageInfo × Option File))
    (ret : ℤ) (testBuffer : ℕ → UInt8) :
    (downloadImages ans cmdline images ret testBuffer).rets =
      (imagesLoop ans cmdline images ret ⟨[], testBuffer⟩).rets := rfl

/-- EXEC goes out only after `download_image` succeeded for every image: what was sent before it is the whole script of
the opened images, and every message of it was acknowledged -/
def ExecAfterSuccess (ans : ℕ → Reply) (images : List (ImageInfo × Option File)) (e : LoopEnd) : Prop :=
  ∀ pre m post, e.xfer.sent = pre ++ m :: post → m.kind = Kind.exec →
    e.rets = List.replicate images.length DL_SUCCESS ∧ pre.map Msg.kind = images.flatMap script ∧
      ∀ n < pre.length, acked (ans n) = true

/-- an EXEC at the end of a list that has no other stands nowhere else -/
theorem eq_of_append_exec {ms pre post : List Msg} {m last : Msg} (h : ms ++ [last] = pre ++ m :: post)
    (hnot : ∀ e ∈ ms, e.kind ≠ Kind.exec) (hm : m.kind = Kind.exec) : pre = ms := by
  rcases List.eq_nil_or_concat post with hpost | ⟨post', e, hpost⟩
  · rw [hpost] at h
    exact (List.append_inj_left' h rfl).symm
  · rw [hpost, List.concat_eq_append, ← List.cons_append, ← List.append_assoc] at h
    have hms : ms = pre ++ m :: post' := List.append_inj_left' h rfl
    exact absurd hm (hnot m (by rw [hms]; simp))

theorem exec_not_mem_imageScript (n : ℕ) : Kind.exec ∉ imageScript n := by simp [imageScript]

theorem exec_not_mem_script (image : ImageInfo × Option File) : Kind.exec ∉ script image := by
  obtain ⟨⟨imagePath, imageSize, address⟩, file⟩ := image
  cases imagePath with
  | none => exact List.not_mem_nil
  | some path =>
    cases file with
    | none => exact List.not_mem_nil
    | some f => exact exec_not_mem_imageScript _

/-- **EXEC only after success.** The loader keeps its protocol exactly when none of the START, DATA and END messages of
the opened images is answered negatively: after a negative answer it sends EXEC all the same. -/
theorem exec_after_success_iff (ans : ℕ → Reply) (cmdline : Option (List UInt8))
    (images : List (ImageInfo × Option File)) (ret : ℤ) (testBuffer : ℕ → UInt8) :
    ExecAfterSuccess ans images (downloadImages ans cmdline images ret testBuffer) ↔
      ∀ n < (images.flatMap script).length, acked (ans n) = true := by
  obtain ⟨last, hruns, hlast⟩ := imagesLoop_runs ans cmdline images ret ⟨[], testBuffer⟩
  unfold ExecAfterSuccess
  rw [downloadImages_sent, downloadImages_rets]
  generalize imagesLoop ans cmdline images ret ⟨[], testBuffer⟩ = e at hruns hlast ⊢
  generalize e.xfer.sent = sent' at hruns ⊢
  constructor
  · intro h
    obtain ⟨hrets, -, -⟩ := h sent' (Msg.exec EXEC_ADDR) [] rfl rfl
    rw [hlast.mpr hrets] at hruns
    cases hruns with
    | ok ms hms hack => simpa using hack
  · intro hack pre m post hsplit hm
    cases hruns with
    | failed ms m' hms hnack =>
      have hlt : ms.length < (images.flatMap script).length := by simpa using hms.length_le
      rw [hack _ (by simpa using hlt)] at hnack
      simp at hnack
    | ok ms hms _ =>
      have hnot : ∀ e ∈ ms, e.kind ≠ Kind.exec := by
        intro e he hk
        have hmem : Kind.exec ∈ images.flatMap script := by
          rw [← hms, ← hk]
          exact List.mem_map_of_mem he
        obtain ⟨image, -, hin⟩ := List.mem_flatMap.mp hmem
        exact exec_not_mem_script image hin
      have hpre : pre = ms := eq_of_append_exec hsplit hnot hm
      refine ⟨hlast.mp rfl, by rw [hpre]; exact hms, ?_⟩
      intro n hn
      apply hack
      rw [← hms, List.length_map, ← hpre]
      exact hn

/-- the modem refuses the START of the only image, and is told to run -/
theorem exec_after_refused_start :
    ¬ ExecAfterSuccess (fun _ => .answered 0x00 0x84) [(⟨some "/fixnv/fixnv.bin", 0x1F000, 0x400⟩, some ⟨[], []⟩)]
      (downloadImages (fun _ => .answered 0x00 0x84) none
        [(⟨some "/fixnv/fixnv.bin", 0x1F000, 0x400⟩, some ⟨[], []⟩)] 0 fun _ => 0) := by
  intro h
  obtain ⟨hrets, -, -⟩ := h [Msg.start (3 * HS_PACKET_SIZE) 0x400] (Msg.exec EXEC_ADDR) [] (by decide) rfl
  exact absurd hrets (by decide)

end SprdDevice.ModemBoot
