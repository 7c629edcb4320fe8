/-
The download of the first loader over the UART (modem_boot.c, load_fdl2memory and download_fdl): the image is read into
memory as a whole and sent in messages of 256 bytes. The messages and their answers are those of `Download`, with flag 0.

- A loop that has not ended within its fuel gives none.
- `malloc` says which requests succeed, and `heap` what the memory holds before. Sizes are int, the request is unsigned.
- The n-th read gives at most `offer n` + 1 bytes, and none only at the end of the file.

Result: `fdl_iff`.
-/
import Mathlib.Tactic
import SprdDevice.Lib.Memory
import SprdDevice.ModemBoot.Download

namespace SprdDevice.ModemBoot.Fdl

open SprdDevice.Memory SprdDevice.ModemBoot

def FDL_PACKET_SIZE : ℕ := 256

/-! ## Model -/

/-- the loop of load_fdl2memory: what is left of the file, the bytes to read, and how far buffer has come -/
structure Load where
  rest : List UInt8
  size : ℤ
  mem : ℕ → UInt8
  pos : ℕ
  reads : ℕ

/-- the count of a read is an unsigned size -/
def readCount (size : ℤ) : ℕ := (size % 2 ^ 32).toNat

def loadRead (offer : ℕ → ℕ) (s : Load) : Load :=
  let got := s.rest.take (min (offer s.reads + 1) (readCount s.size))
  ⟨s.rest.drop got.length, s.size - got.length, store s.mem s.pos got, s.pos + got.length, s.reads + 1⟩

def loadLoop (offer : ℕ → ℕ) : ℕ → Load → Option Load
  | 0, _ => none
  | fuel + 1, s =>
    let s := loadRead offer s
    if s.size > 0 then loadLoop offer fuel s else some s

/-- an unsigned size as an int -/
def intSize (image_size : UInt32) : ℤ := (image_size.toNat : ℤ).bmod (2 ^ 32)

/-- malloc(size + 4) -/
def request (image_size : UInt32) : ℕ := (image_size.toNat + 4) % 2 ^ 32

/-- the inner none is NULL -/
def load_fdl2memory (fuel : ℕ) (malloc : ℕ → Bool) (heap : ℕ → UInt8) (offer : ℕ → ℕ) (image_size : UInt32)
    (file : Option (List UInt8)) : Option (Option (ℕ → UInt8)) :=
  match file with
  | none => some none
  | some content =>
    if malloc (request image_size) = false then some none
    else (loadLoop offer fuel ⟨content, intSize image_size, heap, 0, 0⟩).map fun s => some s.mem

/-- the data loop: the place of buffer, and the size that is left -/
def fdlLoop (ans : ℕ → Reply) (mem : ℕ → UInt8) : ℕ → ℕ → ℤ → Xfer → Option (ℤ × Xfer)
  | 0, _, _, _ => none
  | fuel + 1, buffer, size, x =>
    if size = 0 then some (DL_SUCCESS, x)
    else
      let r := sendMessage ans (.data (cells mem buffer FDL_PACKET_SIZE)) x
      if r.1 = DL_FAILURE then some (DL_FAILURE, r.2)
      else fdlLoop ans mem fuel (buffer + FDL_PACKET_SIZE) ((size - FDL_PACKET_SIZE).bmod (2 ^ 32)) r.2

def download_fdl (fuel : ℕ) (ans : ℕ → Reply) (malloc : ℕ → Bool) (heap : ℕ → UInt8) (offer : ℕ → ℕ)
    (image_size address : UInt32) (file : Option (List UInt8)) (x : Xfer) : Option (ℤ × Xfer) :=
  match load_fdl2memory fuel malloc heap offer image_size file with
  | none => none
  | some none => some (DL_FAILURE, x)
  | some (some mem) =>
    let start := sendMessage ans (.start (intSize image_size) address.toNat) x
    if start.1 = DL_FAILURE then some start
    else
      match fdlLoop ans mem fuel 0 (intSize image_size) start.2 with
      | none => none
      | some r =>
        if r.1 = DL_FAILURE then some r
        else
          let stop := sendMessage ans .endData r.2
          if stop.1 = DL_FAILURE then some stop else some (sendMessage ans (.exec address.toNat) stop.2)

/-- the payloads of the DATA messages -/
def payloads (sent : List Msg) : List (List UInt8) :=
  sent.filterMap fun m =>
    match m with
    | .data payload => some payload
    | _ => none

/-- both functions come back, after ceil(size / 256) DATA messages that begin with the image -/
def Completes (ans : ℕ → Reply) (malloc : ℕ → Bool) (heap : ℕ → UInt8) (offer : ℕ → ℕ) (image_size address : UInt32)
    (file : List UInt8) (testBuffer : ℕ → UInt8) : Prop :=
  ∃ fuel r, download_fdl fuel ans malloc heap offer image_size address (some file) ⟨[], testBuffer⟩ = some r ∧
    (payloads r.2.sent).length = (image_size.toNat + FDL_PACKET_SIZE - 1) / FDL_PACKET_SIZE ∧
    (payloads r.2.sent).flatten.take image_size.toNat = file.take image_size.toNat

/-! ## The load -/

section Load

variable {offer : ℕ → ℕ} {heap : ℕ → UInt8} {file : List UInt8} {size : ℕ}

/-- the loop with n bytes to go -/
def loading (heap : ℕ → UInt8) (file : List UInt8) (pos : ℕ) (n : ℕ) (reads : ℕ) : Load :=
  ⟨file.drop pos, n, store heap 0 (file.take pos), pos, reads⟩

theorem readCount_nat {n : ℕ} (h : n < 2 ^ 32) : readCount n = n := by
  unfold readCount
  omega

/-- one read -/
theorem loadRead_loading {pos n : ℕ} (hpos : pos ≤ file.length) (hn : n < 2 ^ 32) (reads : ℕ) :
    ∃ g, g = min (min (offer reads + 1) n) (file.length - pos) ∧
      loadRead offer (loading heap file pos n reads) = loading heap file (pos + g) (n - g) (reads + 1) := by
  have hlen : ((file.drop pos).take (min (offer reads + 1) n)).length =
      min (min (offer reads + 1) n) (file.length - pos) := by
    rw [List.length_take, List.length_drop]
  obtain ⟨g, hg⟩ : ∃ g, g = min (min (offer reads + 1) n) (file.length - pos) := ⟨_, rfl⟩
  have hgot : (file.drop pos).take (min (offer reads + 1) n) = (file.drop pos).take g := by
    rw [List.take_eq_take_iff, List.length_drop]
    omega
  have hmem : store (store heap 0 (file.take pos)) pos ((file.drop pos).take g) = store heap 0 (file.take (pos + g)) := by
    have happ := store_append heap 0 (file.take pos) ((file.drop pos).take g)
    rw [List.length_take, Nat.min_eq_left hpos, Nat.zero_add, ← List.take_add] at happ
    exact happ.symm
  refine ⟨g, hg, ?_⟩
  unfold loadRead loading
  dsimp only
  rw [readCount_nat hn, hlen, ← hg, hgot, hmem, List.drop_drop, Int.ofNat_sub (by omega)]

/-- a file that is long enough is loaded; a read that is not the last gives something -/
theorem loadLoop_full (hsize : size ≤ file.length) (hint : size < 2 ^ 32) {pos n fuel : ℕ} (hn : pos + n = size)
    (hfuel : n < fuel) (reads : ℕ) :
    ∃ s, loadLoop offer fuel (loading heap file pos n reads) = some s ∧ s.mem = store heap 0 (file.take size) := by
  induction fuel generalizing pos n reads with
  | zero => exact absurd hfuel (Nat.not_lt_zero n)
  | succ fuel ih =>
    obtain ⟨g, hg, hread⟩ := @loadRead_loading offer heap file pos n (by omega) (by omega) reads
    rw [loadLoop, hread]
    by_cases hmore : n - g = 0
    · have hend : pos + g = size := by omega
      refine ⟨loading heap file (pos + g) (n - g) (reads + 1), if_neg ?_, ?_⟩
      · rw [hmore]
        exact lt_irrefl _
      · rw [hend]
        rfl
    · obtain ⟨s, hloop, hmem⟩ := @ih (pos + g) (n - g) (by omega) (by omega) (reads + 1)
      exact ⟨s, (if_pos (Int.natCast_pos.2 (Nat.pos_of_ne_zero hmore))).trans hloop, hmem⟩

/-- a file that is too short is read again and again -/
theorem loadLoop_short (hsize : file.length < size) (hint : size < 2 ^ 32) (fuel : ℕ) {pos n : ℕ} (hpos : pos ≤ file.length)
    (hn : pos + n = size) (reads : ℕ) : loadLoop offer fuel (loading heap file pos n reads) = none := by
  induction fuel generalizing pos n reads with
  | zero => rfl
  | succ fuel ih =>
    obtain ⟨g, hg, hread⟩ := @loadRead_loading offer heap file pos n hpos (by omega) reads
    rw [loadLoop, hread]
    have hmore : 0 < n - g := by omega
    exact (if_pos (Int.natCast_pos.2 hmore)).trans (@ih (pos + g) (n - g) (by omega) (by omega) (reads + 1))

end Load

/-! ## The data loop -/

section Data

variable {ans : ℕ → Reply} (hack : ∀ n, acked (ans n) = true) (mem : ℕ → UInt8)

theorem bmod_small {n : ℕ} (h : n < 2 ^ 31) : (n : ℤ).bmod (2 ^ 32) = n := by
  rw [Int.bmod_def]
  split_ifs <;> omega

/-- k blocks from a place on -/
def blocks (mem : ℕ → UInt8) : ℕ → ℕ → List (List UInt8)
  | _, 0 => []
  | buffer, k + 1 => cells mem buffer FDL_PACKET_SIZE :: blocks mem (buffer + FDL_PACKET_SIZE) k

theorem length_blocks (buffer k : ℕ) : (blocks mem buffer k).length = k := by
  induction k generalizing buffer with
  | zero => rfl
  | succ k ih => rw [blocks, List.length_cons, ih]

theorem flatten_blocks (buffer k : ℕ) : (blocks mem buffer k).flatten = cells mem buffer (k * FDL_PACKET_SIZE) := by
  induction k generalizing buffer with
  | zero => simp [blocks, cells]
  | succ k ih => rw [blocks, List.flatten_cons, ih, Nat.succ_mul, Nat.add_comm (k * FDL_PACKET_SIZE), cells_add]

include hack

/-- one DATA message -/
theorem fdlLoop_next {size : ℤ} (hne : size ≠ 0) (fuel buffer : ℕ) (x : Xfer) :
    fdlLoop ans mem (fuel + 1) buffer size x =
      fdlLoop ans mem fuel (buffer + FDL_PACKET_SIZE) ((size - FDL_PACKET_SIZE).bmod (2 ^ 32))
        ⟨x.sent ++ [.data (cells mem buffer FDL_PACKET_SIZE)], x.testBuffer⟩ := by
  rw [fdlLoop, if_neg hne, sendMessage_acked hack]
  dsimp only
  rw [if_neg success_ne_failure]

/-- a size in whole blocks is counted down to 0 -/
theorem fdlLoop_blocks {k fuel : ℕ} (hk : k * FDL_PACKET_SIZE < 2 ^ 31) (hfuel : k < fuel) (buffer : ℕ) (x : Xfer) :
    fdlLoop ans mem fuel buffer ((k * FDL_PACKET_SIZE : ℕ) : ℤ) x =
      some (DL_SUCCESS, ⟨x.sent ++ (blocks mem buffer k).map Msg.data, x.testBuffer⟩) := by
  induction k generalizing fuel buffer x with
  | zero =>
    obtain ⟨fuel, rfl⟩ := Nat.exists_eq_add_of_lt hfuel
    simp [fdlLoop, blocks]
  | succ k ih =>
    obtain ⟨fuel, rfl⟩ := Nat.exists_eq_succ_of_ne_zero (Nat.ne_of_gt (Nat.zero_lt_of_lt hfuel))
    have hsucc : (k + 1) * FDL_PACKET_SIZE = k * FDL_PACKET_SIZE + FDL_PACKET_SIZE := Nat.succ_mul ..
    have hpos : 0 < FDL_PACKET_SIZE := by decide
    have hle : k * FDL_PACKET_SIZE < 2 ^ 31 := by omega
    have hne : (((k + 1) * FDL_PACKET_SIZE : ℕ) : ℤ) ≠ 0 := Int.natCast_ne_zero.2 (by omega)
    have hnext : ((((k + 1) * FDL_PACKET_SIZE : ℕ) : ℤ) - FDL_PACKET_SIZE).bmod (2 ^ 32) =
        ((k * FDL_PACKET_SIZE : ℕ) : ℤ) := by
      rw [hsucc, Int.natCast_add, Int.add_sub_cancel, bmod_small hle]
    rw [fdlLoop_next hack mem hne, hnext, ih hle (Nat.lt_of_succ_lt_succ hfuel), blocks, List.map_cons, List.append_assoc,
      List.singleton_append]

/-- any other size never gets there -/
theorem fdlLoop_never {size : ℤ} (hsize : ¬ (FDL_PACKET_SIZE : ℤ) ∣ size) (fuel buffer : ℕ) (x : Xfer) :
    fdlLoop ans mem fuel buffer size x = none := by
  induction fuel generalizing size buffer x with
  | zero => rfl
  | succ fuel ih =>
    have hne : size ≠ 0 := by
      rintro rfl
      exact hsize (dvd_zero _)
    have hnext : ¬ (FDL_PACKET_SIZE : ℤ) ∣ (size - FDL_PACKET_SIZE).bmod (2 ^ 32) := by
      unfold FDL_PACKET_SIZE at *
      rw [Int.bmod_def]
      split_ifs <;> omega
    rw [fdlLoop_next hack mem hne]
    exact ih hnext _ _

end Data

/-! ## The download -/

section Download

variable {ans : ℕ → Reply} (hack : ∀ n, acked (ans n) = true) {malloc : ℕ → Bool} (heap : ℕ → UInt8) (offer : ℕ → ℕ)
  {image_size : UInt32} (address : UInt32) {file : List UInt8} (testBuffer : ℕ → UInt8)

theorem payloads_run (size : ℤ) (l : List (List UInt8)) :
    payloads ([Msg.start size address.toNat] ++ l.map Msg.data ++ [Msg.endData] ++ [Msg.exec address.toNat]) = l := by
  simp [payloads, List.filterMap_map]

theorem payloads_nil : payloads [] = [] := rfl

/-- without memory nothing is sent -/
theorem download_null (hnull : malloc (request image_size) = false) (fuel : ℕ) :
    download_fdl fuel ans malloc heap offer image_size address (some file) ⟨[], testBuffer⟩ =
      some (DL_FAILURE, ⟨[], testBuffer⟩) := by
  unfold download_fdl load_fdl2memory
  dsimp only
  rw [if_pos hnull]

theorem intSize_small (h : image_size.toNat < 2 ^ 31) : intSize image_size = image_size.toNat := bmod_small h

theorem not_null (hmem : malloc (request image_size) = true) : ¬ malloc (request image_size) = false := by
  rw [hmem]
  decide

theorem load_eq (hmem : malloc (request image_size) = true) (fuel : ℕ) :
    load_fdl2memory fuel malloc heap offer image_size (some file) =
      (loadLoop offer fuel ⟨file, intSize image_size, heap, 0, 0⟩).map fun s => some s.mem := by
  unfold load_fdl2memory
  dsimp only
  rw [if_neg (not_null hmem)]

/-- the load as it begins -/
theorem loading_start (heap : ℕ → UInt8) (file : List UInt8) (hint : image_size.toNat < 2 ^ 31) :
    loading heap file 0 image_size.toNat 0 = ⟨file, intSize image_size, heap, 0, 0⟩ := by
  unfold loading
  rw [List.drop_zero, List.take_zero, store_nil, intSize_small hint]

theorem intSize_dvd (image_size : UInt32) :
    (FDL_PACKET_SIZE : ℤ) ∣ intSize image_size ↔ FDL_PACKET_SIZE ∣ image_size.toNat := by
  unfold intSize FDL_PACKET_SIZE
  rw [Int.bmod_def]
  split_ifs <;> omega

include hack

variable {address testBuffer heap offer}

/-- once the image is loaded -/
theorem download_loaded {fuel : ℕ} {mem : ℕ → UInt8}
    (hload : load_fdl2memory fuel malloc heap offer image_size (some file) = some (some mem)) :
    download_fdl fuel ans malloc heap offer image_size address (some file) ⟨[], testBuffer⟩ =
      (fdlLoop ans mem fuel 0 (intSize image_size) ⟨[Msg.start (intSize image_size) address.toNat], testBuffer⟩).map
        fun r => if r.1 = DL_FAILURE then r
          else (DL_SUCCESS, ⟨r.2.sent ++ [Msg.endData] ++ [Msg.exec address.toNat], r.2.testBuffer⟩) := by
  unfold download_fdl
  rw [hload]
  dsimp only
  rw [sendMessage_acked hack]
  dsimp only
  rw [if_neg success_ne_failure, List.nil_append]
  cases fdlLoop ans mem fuel 0 (intSize image_size) ⟨[Msg.start (intSize image_size) address.toNat], testBuffer⟩ with
  | none => rfl
  | some r =>
    rw [Option.map_some]
    dsimp only
    rw [sendMessage_acked hack, sendMessage_acked hack]
    dsimp only
    rw [if_neg success_ne_failure]
    split_ifs <;> rfl

/-- what a download sends when it has the memory, the file and whole blocks -/
theorem download_blocks (hmem : malloc (request image_size) = true) {k : ℕ} (hk : image_size.toNat = k * FDL_PACKET_SIZE)
    (hint : image_size.toNat < 2 ^ 31) (hfile : image_size.toNat ≤ file.length) :
    ∃ fuel r, download_fdl fuel ans malloc heap offer image_size address (some file) ⟨[], testBuffer⟩ = some r ∧
      payloads r.2.sent = blocks (store heap 0 (file.take image_size.toNat)) 0 k := by
  obtain ⟨s, hloop, hs⟩ := @loadLoop_full offer heap file image_size.toNat hfile (by omega) 0 image_size.toNat
    (image_size.toNat + 1) (Nat.zero_add _) (Nat.lt_succ_self _) 0
  have hload : load_fdl2memory (image_size.toNat + 1) malloc heap offer image_size (some file) = some (some s.mem) := by
    rw [load_eq heap offer hmem, ← loading_start heap file hint, hloop, Option.map_some]
  have hle : k ≤ image_size.toNat := by
    unfold FDL_PACKET_SIZE at hk
    omega
  have hdata := fdlLoop_blocks hack s.mem (show k * FDL_PACKET_SIZE < 2 ^ 31 by omega) (Nat.lt_succ_of_le hle) 0
    ⟨[Msg.start (intSize image_size) address.toNat], testBuffer⟩
  rw [← hk, ← intSize_small hint] at hdata
  have hdownload := @download_loaded ans hack malloc heap offer image_size address file testBuffer _ _ hload
  rw [hdata, Option.map_some, if_neg success_ne_failure] at hdownload
  exact ⟨_, _, hdownload, by rw [payloads_run, hs]⟩

/-- a download that has the memory and comes back has loaded the image, in whole blocks -/
theorem download_returns (hmem : malloc (request image_size) = true) {fuel : ℕ} {r : ℤ × Xfer}
    (h : download_fdl fuel ans malloc heap offer image_size address (some file) ⟨[], testBuffer⟩ = some r) :
    (∃ s, loadLoop offer fuel ⟨file, intSize image_size, heap, 0, 0⟩ = some s) ∧ FDL_PACKET_SIZE ∣ image_size.toNat := by
  cases hloop : loadLoop offer fuel ⟨file, intSize image_size, heap, 0, 0⟩ with
  | none =>
    unfold download_fdl at h
    rw [load_eq heap offer hmem, hloop, Option.map_none] at h
    cases h
  | some s =>
    have hload : load_fdl2memory fuel malloc heap offer image_size (some file) = some (some s.mem) := by
      rw [load_eq heap offer hmem, hloop, Option.map_some]
    refine ⟨⟨s, rfl⟩, ?_⟩
    by_contra hdvd
    rw [← intSize_dvd] at hdvd
    rw [download_loaded hack hload, fdlLoop_never hack s.mem hdvd] at h
    cases h

/-- whole blocks of a file that is long enough -/
theorem completes_blocks (hmem : malloc (request image_size) = true) (hint : image_size.toNat < 2 ^ 31)
    (hfile : image_size.toNat ≤ file.length) (hdvd : FDL_PACKET_SIZE ∣ image_size.toNat) :
    Completes ans malloc heap offer image_size address file testBuffer := by
  obtain ⟨k, hk⟩ := hdvd
  rw [Nat.mul_comm] at hk
  obtain ⟨fuel, r, hr, hpayloads⟩ := @download_blocks ans hack malloc heap offer image_size address file testBuffer hmem
    k hk hint hfile
  refine ⟨fuel, r, hr, ?_, ?_⟩
  · rw [hpayloads, length_blocks, hk]
    unfold FDL_PACKET_SIZE
    omega
  · have hlen : (file.take image_size.toNat).length = image_size.toNat := List.length_take_of_le hfile
    have hcells := cells_store_self heap 0 (file.take image_size.toNat)
    rw [hlen] at hcells
    rw [hpayloads, flatten_blocks, ← hk, hcells, List.take_take, Nat.min_self]

/-- a download that comes back has had the whole file -/
theorem file_of_returns (hmem : malloc (request image_size) = true) (hint : image_size.toNat < 2 ^ 31) {fuel : ℕ}
    {r : ℤ × Xfer}
    (h : download_fdl fuel ans malloc heap offer image_size address (some file) ⟨[], testBuffer⟩ = some r) :
    image_size.toNat ≤ file.length := by
  by_contra hshort
  obtain ⟨s, hs⟩ := (download_returns hack hmem h).1
  have hnever := @loadLoop_short offer heap file image_size.toNat (not_le.1 hshort) image_size.toNat_lt fuel 0
    image_size.toNat (Nat.zero_le _) (Nat.zero_add _) 0
  rw [loading_start heap file hint, hs] at hnever
  cases hnever

omit hack in
/-- without memory only the empty image is complete -/
theorem completes_null (hnull : malloc (request image_size) = false) :
    Completes ans malloc heap offer image_size address file testBuffer ↔ image_size.toNat = 0 := by
  have hret := @download_null ans malloc heap offer image_size address file testBuffer hnull
  constructor
  · rintro ⟨fuel, r, hr, hcount, -⟩
    rw [hret fuel, Option.some.injEq] at hr
    rw [← hr] at hcount
    unfold FDL_PACKET_SIZE at hcount
    rw [payloads_nil, List.length_nil] at hcount
    omega
  · intro hzero
    refine ⟨0, _, hret 0, ?_, ?_⟩
    · rw [hzero]
      rfl
    · rw [hzero]
      rfl

omit hack in
/-- whole blocks whose request succeeds are below 2 GB -/
theorem small_of_memory (hmalloc : ∀ n, 2 ^ 31 ≤ n → malloc n = false) (hmem : malloc (request image_size) = true)
    (hdvd : FDL_PACKET_SIZE ∣ image_size.toNat) : image_size.toNat < 2 ^ 31 := by
  have hlt := image_size.toNat_lt
  have hreq : request image_size < 2 ^ 31 := by
    by_contra hge
    exact not_null hmem (hmalloc _ (not_lt.1 hge))
  unfold request at hreq
  unfold FDL_PACKET_SIZE at hdvd
  omega

end Download

/-- **The loader.** With every message acknowledged, both functions come back, after as many DATA messages as the size needs
and with the image in them, exactly when the image has its memory (or is empty), the file is as long as its recorded size,
and the size is a multiple of the block -/
theorem fdl_iff (ans : ℕ → Reply) (hack : ∀ n, acked (ans n) = true) (malloc : ℕ → Bool)
    (hmalloc : ∀ n, 2 ^ 31 ≤ n → malloc n = false) (heap : ℕ → UInt8) (offer : ℕ → ℕ) (image_size address : UInt32)
    (file : List UInt8) (testBuffer : ℕ → UInt8) :
    Completes ans malloc heap offer image_size address file testBuffer ↔
      (image_size.toNat = 0 ∨ malloc (request image_size) = true) ∧ image_size.toNat ≤ file.length ∧
        FDL_PACKET_SIZE ∣ image_size.toNat := by
  by_cases hmem : malloc (request image_size) = true
  · constructor
    · rintro ⟨fuel, r, hr, -, -⟩
      have hdvd := (download_returns hack hmem hr).2
      exact ⟨Or.inr hmem, file_of_returns hack hmem (small_of_memory hmalloc hmem hdvd) hr, hdvd⟩
    · rintro ⟨-, hfile, hdvd⟩
      exact completes_blocks hack hmem (small_of_memory hmalloc hmem hdvd) hfile hdvd
  · rw [completes_null (Bool.not_eq_true _ ▸ hmem)]
    constructor
    · intro hzero
      rw [hzero]
      exact ⟨Or.inl rfl, Nat.zero_le _, dvd_zero _⟩
    · rintro ⟨hzero | htrue, -, -⟩
      · exact hzero
      · exact absurd htrue hmem

/-- every request below 2 GB succeeds -/
def largeHeap (n : ℕ) : Bool := decide (n < 2 ^ 31)

theorem largeHeap_fails (n : ℕ) (h : 2 ^ 31 ≤ n) : largeHeap n = false := decide_eq_false (not_lt.2 h)

theorem fdl_iff_block :
    Completes alwaysAcked largeHeap (fun _ => 0) (fun _ => 99) 256 0 (List.replicate 256 7) (fun _ => 0) ↔
      ((256 : UInt32).toNat = 0 ∨ largeHeap (request 256) = true) ∧
        (256 : UInt32).toNat ≤ (List.replicate 256 (7 : UInt8)).length ∧ FDL_PACKET_SIZE ∣ (256 : UInt32).toNat :=
  fdl_iff alwaysAcked alwaysAcked_acked largeHeap largeHeap_fails (fun _ => 0) (fun _ => 99) 256 0 (List.replicate 256 7)
    fun _ => 0

/-- an image of a byte is sent for ever -/
theorem fdl_one_byte : ¬ ∀ (ans : ℕ → Reply), (∀ n, acked (ans n) = true) → ∀ malloc : ℕ → Bool,
    (∀ n, 2 ^ 31 ≤ n → malloc n = false) → ∀ (heap : ℕ → UInt8) (offer : ℕ → ℕ) (image_size address : UInt32)
      (file : List UInt8) (testBuffer : ℕ → UInt8),
      Completes ans malloc heap offer image_size address file testBuffer := by
  intro h
  obtain ⟨fuel, r, hr, -, -⟩ := h alwaysAcked alwaysAcked_acked largeHeap largeHeap_fails (fun _ => 0) (fun _ => 99) 1 0 [7]
    fun _ => 0
  have hdvd := (download_returns alwaysAcked_acked (by decide) hr).2
  revert hdvd
  decide

end SprdDevice.ModemBoot.Fdl
