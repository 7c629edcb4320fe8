/-
What download_image sends of an image when every message is acknowledged (modem_boot.c), over `Download`.

The buffer of the packets is static and filled from the file; where the file is shorter than the recorded size, it keeps
what stood there a packet before, and only what lies behind the recorded size is padded.
- `seen`: a cell of the buffer before packet k is read;
- `packet`: what packet k sends.
Result: `transfer_iff`.
-/
import Mathlib.Tactic
import SprdDevice.Lib.Memory
import SprdDevice.ModemBoot.Download

namespace SprdDevice.ModemBoot

open SprdDevice.Memory

/-! ## Tables -/

section Tables

variable {α : Type}

/-- equal pieces, one after the other -/
theorem flatten_pieces (n : ℕ) {size : ℕ} (hsize : 0 < size) (f : ℕ → ℕ → α) :
    ((List.range n).map fun k => (List.range size).map (f k)).flatten =
      (List.range (n * size)).map fun q => f (q / size) (q % size) := by
  induction n with
  | zero => simp
  | succ n ih =>
    have hlast : (List.range size).map (f n) =
        (List.range size).map ((fun q => f (q / size) (q % size)) ∘ fun p => n * size + p) := by
      apply List.map_congr_left
      intro p hp
      have hlt := List.mem_range.1 hp
      rw [Function.comp_apply, Nat.add_comm, Nat.add_mul_div_right _ _ hsize, Nat.div_eq_of_lt hlt, Nat.zero_add,
        Nat.add_mul_mod_self_right, Nat.mod_eq_of_lt hlt]
    rw [List.range_succ, List.map_append, List.flatten_append, ih, List.map_singleton, List.flatten_singleton,
      Nat.succ_mul, List.range_add, List.map_append, List.map_map, ← hlast]

/-- a table that is a list and a padding -/
theorem table_eq_padded {m : ℕ} {g : ℕ → α} {l : List α} (hl : l.length ≤ m) (a : α) :
    (List.range m).map g = l ++ List.replicate (m - l.length) a ↔ ∀ q < m, g q = (l[q]?).getD a := by
  have hpad : ∀ q < m, (l ++ List.replicate (m - l.length) a)[q]? = some ((l[q]?).getD a) := by
    intro q hq
    by_cases hql : q < l.length
    · rw [List.getElem?_append_left hql, List.getElem?_eq_getElem hql, Option.getD_some]
    · rw [List.getElem?_append_right (not_lt.1 hql), List.getElem?_replicate_of_lt (by omega),
        List.getElem?_eq_none (not_lt.1 hql), Option.getD_none]
  constructor
  · intro h q hq
    have hget := congrArg (fun t : List α => t[q]?) h
    rw [hpad q hq, List.getElem?_map, List.getElem?_range hq, Option.map_some, Option.some.injEq] at hget
    exact hget
  · intro h
    apply List.ext_getElem?
    intro q
    by_cases hq : q < m
    · rw [hpad q hq, List.getElem?_map, List.getElem?_range hq, Option.map_some, h q hq]
    · rw [List.getElem?_eq_none (by simpa using hq), List.getElem?_eq_none (by simp; omega)]

end Tables

/-! ## Reads -/

/-- an open file whose reads give something as long as there is something -/
structure Readable extends File where
  positive : ∀ c ∈ counts, 0 < c
  enough : rest.length ≤ counts.length

/-- however short the reads are, a packet is as long as what is left of the file -/
theorem readPacket_full {counts : List ℕ} {n : ℕ} (hn : 0 < n) (ofs : ℕ) {rest : List UInt8} (buf : ℕ → UInt8)
    (hpos : ∀ c ∈ counts, 0 < c) (henough : rest.length ≤ counts.length) :
    ∃ counts', readPacket n ofs rest buf counts = (store buf ofs (rest.take n), ⟨rest.drop n, counts'⟩) ∧
      (∀ c ∈ counts', 0 < c) ∧ (rest.drop n).length ≤ counts'.length := by
  induction counts generalizing n ofs rest buf with
  | nil =>
    have hnil : rest = [] := List.length_eq_zero_iff.1 (Nat.le_zero.1 henough)
    subst hnil
    exact ⟨[], by simp [readPacket], by simp, by simp⟩
  | cons c counts ih =>
    have hc := hpos c (List.mem_cons_self ..)
    have htail := fun d hd => hpos d (List.mem_cons_of_mem c hd)
    rw [List.length_cons] at henough
    by_cases hrest : rest = []
    · subst hrest
      exact ⟨counts, by simp [readPacket], htail, by simp⟩
    · have hlen := List.length_pos_iff.2 hrest
      obtain ⟨g, hg⟩ : ∃ g, (rest.take (min c n)).length = g := ⟨_, rfl⟩
      have hmin : g = min (min c n) rest.length := by rw [← hg, List.length_take]
      have hgot : rest.take (min c n) = rest.take g := by
        rw [hmin, List.take_eq_take_iff]
        omega
      have hne : rest.take g ≠ [] := by
        rw [← List.length_pos_iff, List.length_take]
        omega
      rw [readPacket, hg, hgot, if_neg hne]
      by_cases hmore : n - g > 0
      · obtain ⟨counts', hread, hpos', henough'⟩ := @ih (n - g) hmore (ofs + g) (rest.drop g)
          (store buf ofs (rest.take g)) htail (by rw [List.length_drop]; omega)
        have hsum : g + (n - g) = n := by omega
        have hglen : (rest.take g).length = g := by
          rw [List.length_take]
          omega
        have happ := store_append buf ofs (rest.take g) ((rest.drop g).take (n - g))
        rw [hglen, ← List.take_add, hsum] at happ
        rw [List.drop_drop, hsum] at hread henough'
        rw [if_pos hmore, hread, ← happ]
        exact ⟨counts', rfl, hpos', henough'⟩
      · have hgn : g = n := by omega
        rw [if_neg hmore, hgn]
        refine ⟨counts, rfl, htail, ?_⟩
        rw [List.length_drop]
        omega

/-! ## Packets -/

/-- place p of the buffer before packet k is read -/
def seen (file : List UInt8) (init : ℕ → UInt8) : ℕ → ℕ → UInt8
  | 0, p => init p
  | k + 1, p => (file[k * HS_PACKET_SIZE + p]?).getD (seen file init k p)

/-- what packet k of an image of this size sends -/
def packet (file : List UInt8) (init : ℕ → UInt8) (size k : ℕ) : List UInt8 :=
  (List.range HS_PACKET_SIZE).map fun p =>
    if k * HS_PACKET_SIZE + p < size then seen file init (k + 1) p else 0xFF

theorem HS_pos : 0 < HS_PACKET_SIZE := by decide

theorem store_place (m : ℕ → UInt8) (ofs : ℕ) (l : List UInt8) (p : ℕ) :
    store m ofs l (ofs + p) = (l[p]?).getD (m (ofs + p)) := by
  simp [store]

section Loop

variable {ans : ℕ → Reply} {file : List UInt8} {init : ℕ → UInt8} {size k : ℕ} {buf : ℕ → UInt8}

/-- the buffer after packet k is read -/
theorem read_seen (hbuf : ∀ p < HS_PACKET_SIZE, buf (8 + p) = seen file init k p) :
    ∀ p < HS_PACKET_SIZE,
      store buf 8 ((file.drop (k * HS_PACKET_SIZE)).take HS_PACKET_SIZE) (8 + p) = seen file init (k + 1) p := by
  intro p hp
  rw [store_place, List.getElem?_take_of_lt hp, List.getElem?_drop, hbuf p hp, seen]

/-- the last packet, when it is not full -/
theorem padded_cells {rem : ℕ} (hrem : k * HS_PACKET_SIZE + rem = size) (hlt : rem < HS_PACKET_SIZE)
    (hbuf : ∀ p < HS_PACKET_SIZE, buf (8 + p) = seen file init (k + 1) p) :
    cells (packetBuffer none false rem buf) 8 HS_PACKET_SIZE = packet file init size k := by
  have hlt' : (rem : ℤ) < (HS_PACKET_SIZE : ℤ) := Int.ofNat_lt.2 hlt
  unfold cells packet
  apply List.map_congr_left
  intro p hp
  have hpl := List.mem_range.1 hp
  rw [packetBuffer, if_pos hlt', Int.toNat_natCast, if_neg Bool.false_ne_true]
  by_cases hin : p < rem
  · rw [store_outside _ _ (Or.inl (by omega)), hbuf p hpl, if_pos (by omega)]
  · rw [store_inside _ _ (by omega) (by rw [List.length_replicate]; omega), List.getElem_replicate, if_neg (by omega)]

/-- a full packet -/
theorem full_cells {rem : ℕ} (hrem : k * HS_PACKET_SIZE + rem = size) (hge : HS_PACKET_SIZE ≤ rem)
    (hbuf : ∀ p < HS_PACKET_SIZE, buf (8 + p) = seen file init (k + 1) p) :
    packetBuffer none false rem buf = buf ∧ cells buf 8 HS_PACKET_SIZE = packet file init size k := by
  have hge' : ¬ (rem : ℤ) < (HS_PACKET_SIZE : ℤ) := not_lt.2 (Int.ofNat_le.2 hge)
  constructor
  · rw [packetBuffer, if_neg hge', if_neg Bool.false_ne_true]
  · unfold cells packet
    apply List.map_congr_left
    intro p hp
    have hpl := List.mem_range.1 hp
    rw [hbuf p hpl, if_pos (by omega)]

/-- a full packet leaves as many bytes as the other packets have room for -/
theorem bounds_next {n rem : ℕ} (hle : rem ≤ (n + 1) * HS_PACKET_SIZE) (hprev : n * HS_PACKET_SIZE < rem) :
    rem - HS_PACKET_SIZE ≤ n * HS_PACKET_SIZE ∧ (n ≠ 0 → (n - 1) * HS_PACKET_SIZE < rem - HS_PACKET_SIZE) := by
  rw [Nat.succ_mul] at hle
  refine ⟨by omega, fun hne => ?_⟩
  obtain ⟨m, rfl⟩ := Nat.exists_eq_succ_of_ne_zero hne
  have hmul : (m + 1) * HS_PACKET_SIZE = m * HS_PACKET_SIZE + HS_PACKET_SIZE := Nat.succ_mul ..
  rw [Nat.succ_sub_one]
  rw [Nat.succ_eq_add_one] at hprev
  omega

/-- the loop from packet k on -/
theorem dataLoop_packets (hack : ∀ n, acked (ans n) = true) {count : ℤ} (n : ℕ) {rem : ℕ}
    (hcount : (k : ℤ) + n = count) (hrem : k * HS_PACKET_SIZE + rem = size) (hle : rem ≤ n * HS_PACKET_SIZE)
    (hlast : n ≠ 0 → (n - 1) * HS_PACKET_SIZE < rem) {counts : List ℕ} (hpos : ∀ c ∈ counts, 0 < c)
    (henough : (file.drop (k * HS_PACKET_SIZE)).length ≤ counts.length) {x : Xfer}
    (hbuf : ∀ p < HS_PACKET_SIZE, x.testBuffer (8 + p) = seen file init k p) :
    ∃ buf, dataLoop ans none false count n k rem ⟨file.drop (k * HS_PACKET_SIZE), counts⟩ x =
      (DL_SUCCESS, ⟨x.sent ++ (List.range' k n).map (fun j => .data (packet file init size j)), buf⟩) := by
  induction n generalizing k rem counts x with
  | zero => exact ⟨x.testBuffer, by rw [dataLoop]; simp⟩
  | succ n ih =>
    have hi : (k : ℤ) < count := by omega
    obtain ⟨counts', hread, hpos', henough'⟩ :=
      readPacket_full HS_pos 8 x.testBuffer hpos henough
    have hnew := read_seen hbuf
    have hprev : n * HS_PACKET_SIZE < rem := by simpa using hlast (Nat.succ_ne_zero n)
    rw [dataLoop, if_pos hi]
    dsimp only
    rw [hread, sendMessage_acked hack, orReturn_success]
    dsimp only
    by_cases hlt : rem < HS_PACKET_SIZE
    · have hn : n = 0 := by
        by_contra hne
        have hmul := Nat.le_mul_of_pos_left HS_PACKET_SIZE (Nat.pos_of_ne_zero hne)
        omega
      subst hn
      rw [padded_cells hrem hlt hnew, dataLoop]
      exact ⟨_, rfl⟩
    · have hge := not_lt.1 hlt
      have hge' : ¬ (rem : ℤ) < (HS_PACKET_SIZE : ℤ) := not_lt.2 (Int.ofNat_le.2 hge)
      obtain ⟨hsame, hcells⟩ := full_cells hrem hge hnew
      have hsucc : (k + 1) * HS_PACKET_SIZE = k * HS_PACKET_SIZE + HS_PACKET_SIZE := Nat.succ_mul ..
      obtain ⟨hle', hlast'⟩ := bounds_next hle hprev
      have hdrop : (file.drop (k * HS_PACKET_SIZE)).drop HS_PACKET_SIZE = file.drop ((k + 1) * HS_PACKET_SIZE) := by
        rw [List.drop_drop, hsucc]
      rw [hdrop] at henough' ⊢
      have hk : (k : ℤ) + 1 = ((k + 1 : ℕ) : ℤ) := rfl
      have hrest : (rem : ℤ) - (HS_PACKET_SIZE : ℤ) = ((rem - HS_PACKET_SIZE : ℕ) : ℤ) := (Int.ofNat_sub hge).symm
      rw [if_neg hge', if_neg hge', hsame, hcells, hk, hrest]
      obtain ⟨buf', hloop⟩ := @ih (k + 1) (rem - HS_PACKET_SIZE) (by omega) (by omega) hle' hlast' counts' hpos'
        henough' ⟨x.sent ++ [.data (packet file init size k)],
          store x.testBuffer 8 ((file.drop (k * HS_PACKET_SIZE)).take HS_PACKET_SIZE)⟩ hnew
      refine ⟨buf', hloop.trans ?_⟩
      rw [List.range'_succ, List.map_cons, List.append_assoc, List.singleton_append]

end Loop

/-! ## The number of packets -/

/-- ceil(size / HS_PACKET_SIZE) -/
def packets (size : ℕ) : ℕ := (size + HS_PACKET_SIZE - 1) / HS_PACKET_SIZE

theorem packets_bounds (size : ℕ) :
    size ≤ packets size * HS_PACKET_SIZE ∧ (packets size ≠ 0 → (packets size - 1) * HS_PACKET_SIZE < size) := by
  unfold packets HS_PACKET_SIZE
  omega

theorem packets_pos {size : ℕ} (h : 0 < size) : 0 < packets size := by
  unfold packets HS_PACKET_SIZE
  omega

/-- the sizes whose sum with a packet is an int -/
def IntSum (imageSize : UInt32) : Prop := imageSize.toNat + HS_PACKET_SIZE ≤ 2 ^ 31

theorem size_bmod {imageSize : UInt32} (h : IntSum imageSize) :
    (imageSize.toNat : ℤ).bmod (2 ^ 32) = imageSize.toNat := by
  unfold IntSum HS_PACKET_SIZE at h
  rw [Int.bmod_def]
  split_ifs <;> omega

theorem packetCount_int {imageSize : UInt32} (h : IntSum imageSize) :
    packetCount imageSize = (packets imageSize.toNat : ℤ) := by
  have hsum : ((imageSize.toNat : ℤ) + HS_PACKET_SIZE - 1).bmod (2 ^ 32) =
      ((imageSize.toNat + HS_PACKET_SIZE - 1 : ℕ) : ℤ) := by
    unfold IntSum HS_PACKET_SIZE at *
    rw [Int.bmod_def]
    split_ifs <;> omega
  unfold packetCount packets
  rw [size_bmod h, hsum, Int.tdiv_eq_ediv_of_nonneg (Int.natCast_nonneg _), Int.natCast_div]

/-- past them there is no packet -/
theorem packetCount_wraps {imageSize : UInt32} (h : ¬ IntSum imageSize) : packetCount imageSize ≤ 0 := by
  have hlt := imageSize.toNat_lt
  unfold IntSum HS_PACKET_SIZE at h
  have hsum : ((imageSize.toNat : ℤ).bmod (2 ^ 32) + HS_PACKET_SIZE - 1).bmod (2 ^ 32) < HS_PACKET_SIZE := by
    unfold HS_PACKET_SIZE
    rw [Int.bmod_def, Int.bmod_def]
    split_ifs <;> omega
  have hle := Int.tdiv_le_tdiv (c := (HS_PACKET_SIZE : ℤ)) (Int.natCast_nonneg _) (Int.le_sub_one_of_lt hsum)
  have hzero : ((HS_PACKET_SIZE : ℤ) - 1).tdiv HS_PACKET_SIZE = 0 := by decide
  rw [hzero] at hle
  exact hle

/-! ## The whole image -/

/-- START announces the bytes that are sent, the packets are as many as the size needs, and they carry the image and a
padding of 0xFF -/
def Transferred (info : ImageInfo) (file : List UInt8) (before after : List Msg) : Prop :=
  ∃ (total : ℤ) (payloads : List (List UInt8)),
    after = before ++ Msg.start total info.address.toNat :: (payloads.map Msg.data ++ [Msg.endData]) ∧
      total = (payloads.flatten.length : ℤ) ∧ payloads.length = packets info.imageSize.toNat ∧
      payloads.flatten = file.take info.imageSize.toNat ++
        List.replicate (payloads.flatten.length - (file.take info.imageSize.toNat).length) 0xFF

/-- what a place of the image that is not in the file is sent with: a byte of the packet before, or of an earlier image -/
def stale (file : List UInt8) (testBuffer : ℕ → UInt8) (q : ℕ) : UInt8 :=
  if q < HS_PACKET_SIZE then testBuffer (8 + q) else (file[q - HS_PACKET_SIZE]?).getD 0xFF

/-- the sum is an int, and what the file leaves out of the image happens to be 0xFF a packet before -/
def Covered (info : ImageInfo) (file : List UInt8) (testBuffer : ℕ → UInt8) : Prop :=
  IntSum info.imageSize ∧ ∀ q, file.length ≤ q → q < info.imageSize.toNat → q < file.length + HS_PACKET_SIZE →
    stale file testBuffer q = 0xFF

/-- a cell of the buffer, by the place in the image -/
def seenAt (file : List UInt8) (init : ℕ → UInt8) (q : ℕ) : UInt8 :=
  seen file init (q / HS_PACKET_SIZE) (q % HS_PACKET_SIZE)

theorem seenAt_first (file : List UInt8) (init : ℕ → UInt8) {q : ℕ} (h : q < HS_PACKET_SIZE) :
    seenAt file init q = init q := by
  rw [seenAt, Nat.div_eq_of_lt h, Nat.mod_eq_of_lt h, seen]

theorem seenAt_next (file : List UInt8) (init : ℕ → UInt8) (q : ℕ) :
    seenAt file init (q + HS_PACKET_SIZE) = (file[q]?).getD (seenAt file init q) := by
  unfold seenAt
  rw [Nat.add_div_right _ HS_pos, Nat.add_mod_right, seen, Nat.mul_comm, Nat.div_add_mod]

/-- the places that the file leaves out are all 0xFF when those of one packet behind it are -/
theorem seenAt_stale (file : List UInt8) (testBuffer : ℕ → UInt8) (size : ℕ) :
    (∀ q < size, file.length ≤ q → seenAt file (fun p => testBuffer (8 + p)) q = 0xFF) ↔
      ∀ q, file.length ≤ q → q < size → q < file.length + HS_PACKET_SIZE → stale file testBuffer q = 0xFF := by
  have hfirst : ∀ q, file.length ≤ q → q < file.length + HS_PACKET_SIZE →
      seenAt file (fun p => testBuffer (8 + p)) q = stale file testBuffer q := by
    intro q hq hlt
    unfold stale
    split_ifs with hp
    · exact seenAt_first file _ hp
    · obtain ⟨r, rfl⟩ := Nat.exists_eq_add_of_le' (not_lt.1 hp)
      have hr : r < file.length := by omega
      rw [seenAt_next, Nat.add_sub_cancel, List.getElem?_eq_getElem hr, Option.getD_some, Option.getD_some]
  constructor
  · intro h q hq hsize hlt
    rw [← hfirst q hq hlt]
    exact h q hsize hq
  · intro h q hsize hq
    induction q using Nat.strong_induction_on with
    | _ q ih =>
      by_cases hlt : q < file.length + HS_PACKET_SIZE
      · rw [hfirst q hq hlt]
        exact h q hq hsize hlt
      · have hpos := HS_pos
        obtain ⟨r, rfl⟩ := Nat.exists_eq_add_of_le' (show HS_PACKET_SIZE ≤ q by omega)
        rw [seenAt_next, List.getElem?_eq_none (by omega), Option.getD_none]
        exact ih r (by omega) (by omega) (by omega)

/-- the packets together -/
theorem flatten_packets (file : List UInt8) (init : ℕ → UInt8) (size n : ℕ) :
    ((List.range n).map (packet file init size)).flatten = (List.range (n * HS_PACKET_SIZE)).map fun q =>
      if q < size then (file[q]?).getD (seenAt file init q) else 0xFF := by
  have hpieces := flatten_pieces n HS_pos fun k p =>
    if k * HS_PACKET_SIZE + p < size then seen file init (k + 1) p else (0xFF : UInt8)
  have hplace : ∀ q, q / HS_PACKET_SIZE * HS_PACKET_SIZE + q % HS_PACKET_SIZE = q := fun q => Nat.div_add_mod' q _
  refine Eq.trans hpieces (List.map_congr_left fun q _ => ?_)
  rw [hplace, seen, hplace]
  rfl

theorem flatten_packets_iff (file : List UInt8) (testBuffer : ℕ → UInt8) {size m : ℕ} (hsize : size ≤ m) :
    ((List.range m).map fun q => if q < size then (file[q]?).getD (seenAt file (fun p => testBuffer (8 + p)) q) else 0xFF) =
        file.take size ++ List.replicate (m - (file.take size).length) 0xFF ↔
      ∀ q, file.length ≤ q → q < size → q < file.length + HS_PACKET_SIZE → stale file testBuffer q = 0xFF := by
  have hlen : (file.take size).length ≤ m := le_trans (List.length_take_le _ _) hsize
  rw [← seenAt_stale, table_eq_padded hlen]
  constructor
  · intro h q hq hfile
    have hcell := h q (lt_of_lt_of_le hq hsize)
    rw [if_pos hq, List.getElem?_take_of_lt hq, List.getElem?_eq_none hfile] at hcell
    exact hcell
  · intro h q _
    by_cases hq : q < size
    · rw [if_pos hq, List.getElem?_take_of_lt hq]
      by_cases hfile : q < file.length
      · rw [List.getElem?_eq_getElem hfile, Option.getD_some, Option.getD_some]
      · rw [List.getElem?_eq_none (not_lt.1 hfile)]
        exact h q hq (not_lt.1 hfile)
    · rw [if_neg hq, List.getElem?_eq_none (by rw [List.length_take]; omega), Option.getD_none]

section Image

variable {ans : ℕ → Reply} (hack : ∀ n, acked (ans n) = true) (path : String) (size address : UInt32) (f : Readable)
  (x : Xfer)

/-- the packets carry the image exactly when the places that the file leaves out are covered -/
theorem download_payload_iff :
    ((List.range (packets size.toNat)).map (packet f.rest (fun p => x.testBuffer (8 + p)) size.toNat)).flatten =
        f.rest.take size.toNat ++ List.replicate (((List.range (packets size.toNat)).map
          (packet f.rest (fun p => x.testBuffer (8 + p)) size.toNat)).flatten.length - (f.rest.take size.toNat).length)
            0xFF ↔
      ∀ q, f.rest.length ≤ q → q < size.toNat → q < f.rest.length + HS_PACKET_SIZE →
        stale f.rest x.testBuffer q = 0xFF := by
  have hflat := flatten_packets f.rest (fun p => x.testBuffer (8 + p)) size.toNat (packets size.toNat)
  rw [hflat, List.length_map, List.length_range]
  exact flatten_packets_iff f.rest x.testBuffer (packets_bounds size.toNat).1

theorem downloadImage_open : downloadImage ans none ⟨some path, size, address⟩ (some f.toFile) false x =
    orReturn (sendMessage ans (.start (packetCount size * HS_PACKET_SIZE) address.toNat) x) fun x =>
      orReturn (dataLoop ans none false (packetCount size) (packetCount size).toNat 0
        ((size.toNat : ℤ).bmod (2 ^ 32)) f.toFile x) fun x => sendMessage ans .endData x := rfl

include hack

theorem download_sent (h : IntSum size) :
    (downloadImage ans none ⟨some path, size, address⟩ (some f.toFile) false x).2.sent =
      x.sent ++ Msg.start (packets size.toNat * HS_PACKET_SIZE) address.toNat ::
        (((List.range (packets size.toNat)).map (packet f.rest (fun p => x.testBuffer (8 + p)) size.toNat)).map Msg.data ++
          [Msg.endData]) := by
  obtain ⟨hle, hlast⟩ := packets_bounds size.toNat
  have hdrop : f.rest.drop (0 * HS_PACKET_SIZE) = f.rest := by rw [Nat.zero_mul, List.drop_zero]
  have henough : (f.rest.drop (0 * HS_PACKET_SIZE)).length ≤ f.counts.length := by
    rw [hdrop]
    exact f.enough
  obtain ⟨buf, hloop⟩ := @dataLoop_packets ans f.rest (fun p => x.testBuffer (8 + p)) size.toNat 0 hack
    (packets size.toNat) (packets size.toNat) size.toNat (by rw [Nat.cast_zero, Int.zero_add])
    (by rw [Nat.zero_mul, Nat.zero_add]) hle hlast f.counts f.positive henough
    ⟨x.sent ++ [Msg.start (packets size.toNat * HS_PACKET_SIZE) address.toNat], x.testBuffer⟩ fun p _ => rfl
  rw [hdrop, Nat.cast_zero] at hloop
  rw [downloadImage_open, packetCount_int h, size_bmod h, Int.toNat_natCast, sendMessage_acked hack, orReturn_success,
    hloop, orReturn_success, sendMessage_acked hack, List.range_eq_range', List.map_map]
  dsimp only
  rw [List.append_assoc, List.append_assoc, List.singleton_append]
  rfl

theorem download_sent_wraps (h : ¬ IntSum size) :
    (downloadImage ans none ⟨some path, size, address⟩ (some f.toFile) false x).2.sent =
      x.sent ++ [Msg.start (packetCount size * HS_PACKET_SIZE) address.toNat, Msg.endData] := by
  have hnone : (packetCount size).toNat = 0 := Int.toNat_eq_zero.2 (packetCount_wraps h)
  unfold downloadImage transferImage
  dsimp only
  rw [hnone, sendMessage_acked hack, orReturn_success, dataLoop, orReturn_success, sendMessage_acked hack]
  simp only [List.append_assoc, List.singleton_append]

theorem Transferred.covered (h : Transferred ⟨some path, size, address⟩ f.rest x.sent
    (downloadImage ans none ⟨some path, size, address⟩ (some f.toFile) false x).2.sent) :
    Covered ⟨some path, size, address⟩ f.rest x.testBuffer := by
  obtain ⟨total, payloads, hsent, -, hcount, hpayload⟩ := h
  by_cases hint : IntSum size
  · rw [download_sent hack path size address f x hint] at hsent
    have htail := List.append_cancel_left hsent
    rw [List.cons.injEq, List.append_cancel_right_eq] at htail
    have hsame := (Function.Injective.list_map fun _ _ h => Msg.data.inj h) htail.2
    rw [← hsame] at hpayload
    exact ⟨hint, (download_payload_iff size f x).1 hpayload⟩
  · -- no packet is sent, and the size is not zero
    have hpos : 0 < size.toNat := by
      unfold IntSum HS_PACKET_SIZE at hint
      omega
    rw [download_sent_wraps hack path size address f x hint] at hsent
    have hlen := congrArg List.length hsent
    simp only [List.length_append, List.length_cons, List.length_map, List.length_nil] at hlen
    have hpackets := packets_pos hpos
    dsimp only at hcount
    omega

theorem Covered.transferred (h : Covered ⟨some path, size, address⟩ f.rest x.testBuffer) :
    Transferred ⟨some path, size, address⟩ f.rest x.sent
      (downloadImage ans none ⟨some path, size, address⟩ (some f.toFile) false x).2.sent := by
  unfold Transferred
  rw [download_sent hack path size address f x h.1]
  refine ⟨_, _, rfl, ?_, by rw [List.length_map, List.length_range], (download_payload_iff size f x).2 h.2⟩
  rw [flatten_packets, List.length_map, List.length_range, Nat.cast_mul]

end Image

/-- **The image.** With every message acknowledged, and whatever the reads give at a time, START announces what is sent,
the packets are as many as the size needs, and they carry the image with its padding, exactly when the size leaves room for
a packet in an int and the places that the file leaves out happen to be 0xFF -/
theorem transfer_iff (ans : ℕ → Reply) (hack : ∀ n, acked (ans n) = true) (path : String) (size address : UInt32)
    (f : Readable) (x : Xfer) :
    Transferred ⟨some path, size, address⟩ f.rest x.sent
        (downloadImage ans none ⟨some path, size, address⟩ (some f.toFile) false x).2.sent ↔
      Covered ⟨some path, size, address⟩ f.rest x.testBuffer :=
  ⟨fun h => h.covered hack path size address f x, fun h => h.transferred hack path size address f x⟩

/-- a file of one byte -/
def oneByte : Readable := ⟨⟨[7], [1]⟩, by decide, by decide⟩

/-- two packets and a half, read in halves of a packet -/
def halves : Readable :=
  ⟨⟨List.replicate 153600 7, List.replicate 153600 30720⟩, fun c hc => by rw [List.eq_of_mem_replicate hc]; decide,
    by rw [List.length_replicate, List.length_replicate]⟩

theorem transfer_iff_halves :
    Transferred ⟨some "/modem.bin", 153600, 0⟩ halves.rest []
        (downloadImage alwaysAcked none ⟨some "/modem.bin", 153600, 0⟩ (some halves.toFile) false ⟨[], fun _ => 0⟩).2.sent ↔
      Covered ⟨some "/modem.bin", 153600, 0⟩ halves.rest fun _ => 0 :=
  transfer_iff alwaysAcked alwaysAcked_acked "/modem.bin" 153600 0 halves ⟨[], fun _ => 0⟩

/-- a file that is a byte shorter than its recorded size -/
theorem transfer_short_file : ¬ ∀ (ans : ℕ → Reply), (∀ n, acked (ans n) = true) → ∀ (path : String)
    (size address : UInt32) (f : Readable) (x : Xfer),
    Transferred ⟨some path, size, address⟩ f.rest x.sent
      (downloadImage ans none ⟨some path, size, address⟩ (some f.toFile) false x).2.sent := by
  intro h
  have hcovered := (h alwaysAcked alwaysAcked_acked "/modem.bin" 2 0 oneByte ⟨[], fun _ => 0⟩).covered alwaysAcked_acked
    "/modem.bin" 2 0 oneByte ⟨[], fun _ => 0⟩
  have hstale := hcovered.2 1 (by decide) (by decide) (by decide)
  revert hstale
  decide

end SprdDevice.ModemBoot
