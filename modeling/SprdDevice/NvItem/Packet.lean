/-
The packet layer of the NV sync daemon (`nvitem_packet.c` over `nvitem_channe_spipe.c`), and the server's loop over it.

`packeBuf` is the memory seen from its first byte; it holds what the last `read` left there. `channel_read` asks for the
1044 bytes of a header and a full body; a `read` that fails returns -1, which is 2^32 - 1 in `*hasRead`. The ecc checks
of the source always pass. `sizeof` is 32 bits wide, so the sum of the header size and `sizeOfPacket` wraps.

`serve` is one turn of `syncAnalyzer`'s outer loop on one result of `read`. When the packet layer fails, `syncAnalyzer`
returns, and `main` opens the channel again and calls `_initPacket` and `_syncInit`.

Results: `getPacket_frame` (a frame that is received is reported, as START or CONTINUE by its indices, with its own
body) and `getPacket_reported` (what holds of every packet that is reported).
-/
import Mathlib.Tactic
import SprdDevice.Lib.Word
import SprdDevice.NvItem.Sync

namespace SprdDevice.NvItem

open SprdDevice.Memory SprdDevice.Word

/-! ## Model -/

def MAGICNUM : ℕ := 0x524d4e56

/-- `sizeof(PACKET_HEAD)`: MAGICNUM, ecc, idxGrp, idxSub, sizeOfPacket -/
def sizeofHead : ℕ := 20

def PACKETSIZE : ℕ := 1024

/-- the globals of the packet module -/
structure PacketCtl where
  packeBuf : ℕ → UInt8
  idxGrp : ℕ
  idxSub : ℕ

/-- `read`: -1, or the bytes it delivers (of which it takes no more than it was asked for) -/
inductive ReadRes where
  | err
  | got (bytes : List UInt8)
deriving DecidableEq, Repr

/-- the result, the buffer afterwards, and `*hasRead` -/
def channelRead (buf : ℕ → UInt8) (size : ℕ) : ReadRes → Bool × (ℕ → UInt8) × ℕ
  | .err => (!decide (2 ^ 32 - 1 < size), buf, 2 ^ 32 - 1)
  | .got bytes => (!decide ((bytes.take size).length < size), store buf 0 (bytes.take size), (bytes.take size).length)

def initPacket (p : PacketCtl) : PacketCtl := { p with idxGrp := 2 ^ 32 - 1, idxSub := 0 }

/-- the indices of the header continue the current group, or start another one -/
def headerState (p : PacketCtl) (buf : ℕ → UInt8) : PacketState :=
  if p.idxGrp = le32 buf 8 then if (p.idxSub + 1) % 2 ^ 32 = le32 buf 12 then .cont else .skip
  else if 0 = le32 buf 12 then .start else .skip

/-- `_getPacket`: its result, the globals, and `*size`; the body begins at byte 20 of `packeBuf` -/
def getPacket (p : PacketCtl) (r : ReadRes) : PacketState × PacketCtl × ℕ :=
  match channelRead p.packeBuf (sizeofHead + PACKETSIZE) r with
  | (false, buf, _) => (.fail, { p with packeBuf := buf }, 0)
  | (true, buf, hasRead) =>
    if hasRead < sizeofHead then (.skip, { p with packeBuf := buf }, 0)
    else if MAGICNUM ≠ le32 buf 0 then (.skip, { p with packeBuf := buf }, 0)
    else if hasRead < (sizeofHead + le32 buf 16) % 2 ^ 32 then (.skip, { p with packeBuf := buf }, 0)
    else match headerState p buf with
      | .cont => (.cont, ⟨buf, p.idxGrp, (p.idxSub + 1) % 2 ^ 32⟩, le32 buf 16)
      | .start => (.start, ⟨buf, le32 buf 8, 0⟩, le32 buf 16)
      | _ => (.skip, { p with packeBuf := buf }, 0)

/-- the body of a packet -/
def packetBody (p : PacketCtl) (size : ℕ) : List UInt8 := cells p.packeBuf sizeofHead size

structure Server where
  c : RamNvCtl
  s : SyncState
  p : PacketCtl

/-- one turn of the server on one result of `read`, with its effects -/
def serve (e : Env) (d : Server) (r : ReadRes) : Server × List Eff :=
  let g := getPacket d.p r
  let res := onPacket e d.c d.s g.1 (packetBody g.2.1 g.2.2)
  (if g.1 = .fail then ⟨res.ctl, syncInit res.s, initPacket g.2.1⟩ else ⟨res.ctl, res.s, g.2.1⟩, res.effs)

/-- the server on a sequence of results of `read` -/
def serveAll (e : Env) : Server → List ReadRes → Server × List Eff
  | d, [] => (d, [])
  | d, r :: rs =>
    let x := serve e d r
    let y := serveAll e x.1 rs
    (y.1, x.2 ++ y.2)

/-- the server when the channel is opened -/
def serverStart (c : RamNvCtl) (packeBuf : ℕ → UInt8) : Server :=
  ⟨c, syncInit ⟨.head, false, 0, fun _ => 0, 0, noId, 0, 0⟩, initPacket ⟨packeBuf, 0, 0⟩⟩

/-- what the modem sends for a packet: group g, sub-index k, body p, and pad up to a full frame -/
def frame (g k : ℕ) (p pad : List UInt8) : List UInt8 :=
  le32Bytes MAGICNUM ++ le32Bytes 0 ++ le32Bytes g ++ le32Bytes k ++ le32Bytes p.length ++ (p ++ pad)

/-! ## Reported packets -/

/-- **What is reported**: a START or CONTINUE has a header with the magic number whose size passed the test against the
count of `read`, in 32-bit arithmetic -/
theorem getPacket_reported (p : PacketCtl) (r : ReadRes) (h : (getPacket p r).1 = .start ∨ (getPacket p r).1 = .cont) :
    (channelRead p.packeBuf 1044 r).1 = true ∧
      MAGICNUM = le32 (channelRead p.packeBuf 1044 r).2.1 0 ∧
      headerState p (channelRead p.packeBuf 1044 r).2.1 = (getPacket p r).1 ∧
      (getPacket p r).2.1.packeBuf = (channelRead p.packeBuf 1044 r).2.1 ∧
      (getPacket p r).2.2 = le32 (channelRead p.packeBuf 1044 r).2.1 16 ∧
      (20 + (getPacket p r).2.2) % 2 ^ 32 ≤ (channelRead p.packeBuf 1044 r).2.2 := by
  unfold getPacket at h ⊢
  simp only [sizeofHead, PACKETSIZE, Nat.reduceAdd] at h ⊢
  generalize channelRead p.packeBuf 1044 r = x at h ⊢
  rcases x with ⟨_ | _, buf, n⟩
  · simp at h
  · by_cases h1 : n < 20
    · simp [h1] at h
    by_cases h2 : MAGICNUM = le32 buf 0
    · by_cases h3 : n < (20 + le32 buf 16) % 2 ^ 32
      · simp only [h1, h2, h3, if_false, if_true, ne_eq, not_true_eq_false, reduceCtorEq, or_self] at h
      · simp only [h1, h2, h3, if_false, ne_eq, not_true_eq_false] at h ⊢
        cases hs : headerState p buf <;> simp only [hs] at h ⊢
        · exact ⟨trivial, trivial, trivial, trivial, trivial, Nat.le_of_not_lt h3⟩
        · exact ⟨trivial, trivial, trivial, trivial, trivial, Nat.le_of_not_lt h3⟩
        · simp at h
        · simp at h
    · simp [h1, h2] at h

theorem frame_length {g k : ℕ} {p pad : List UInt8} (hpad : p.length + pad.length = PACKETSIZE) :
    (frame g k p pad).length = 1044 := by
  simp only [frame, List.length_append, le32Bytes_length, PACKETSIZE] at hpad ⊢
  omega

theorem le32_mod (m : ℕ → UInt8) (ofs v : ℕ) (h : ∀ j, ∀ hj : j < 4, m (ofs + j) = (le32Bytes v)[j]) :
    le32 m ofs = v % 2 ^ 32 := by
  have h0 : m ofs = UInt8.ofNat v := h 0 (by decide)
  have h1 : m (ofs + 1) = UInt8.ofNat (v / 256) := h 1 (by decide)
  have h2 : m (ofs + 2) = UInt8.ofNat (v / 65536) := h 2 (by decide)
  have h3 : m (ofs + 3) = UInt8.ofNat (v / 16777216) := h 3 (by decide)
  simp only [le32, h0, h1, h2, h3, UInt8.toNat_ofNat']
  omega

section Frame

variable (buf : ℕ → UInt8) (g k : ℕ) (p pad : List UInt8)

theorem frame_magic : le32 (store buf 0 (frame g k p pad)) 0 = MAGICNUM := by
  rw [le32_mod _ _ MAGICNUM fun j hj => ?_]
  · rfl
  · interval_cases j <;> rfl

theorem frame_grp : le32 (store buf 0 (frame g k p pad)) 8 = g % 2 ^ 32 := by
  apply le32_mod
  intro j hj
  interval_cases j <;> rfl

theorem frame_sub : le32 (store buf 0 (frame g k p pad)) 12 = k % 2 ^ 32 := by
  apply le32_mod
  intro j hj
  interval_cases j <;> rfl

theorem frame_size : le32 (store buf 0 (frame g k p pad)) 16 = p.length % 2 ^ 32 := by
  apply le32_mod
  intro j hj
  interval_cases j <;> rfl

theorem frame_body : cells (store buf 0 (frame g k p pad)) 20 p.length = p := by
  apply List.ext_getElem
  · simp [cells]
  · intro i h1 h2
    have hcell : store buf 0 (frame g k p pad) (20 + i) = p[i] := by
      rw [store_zero_get _ _ (by simp [frame]; omega)]
      simp only [frame]
      rw [List.getElem_append_right (by simp)]
      simp [List.getElem_append_left h2]
    simpa [cells] using hcell

/-- **A frame that is received** is reported by its indices, with its own body -/
theorem getPacket_frame (d : PacketCtl) (hpad : p.length + pad.length = PACKETSIZE) :
    let r := getPacket d (.got (frame g k p pad))
    (d.idxGrp = g % 2 ^ 32 → (d.idxSub + 1) % 2 ^ 32 = k % 2 ^ 32 →
      r.1 = .cont ∧ r.2.1.idxGrp = d.idxGrp ∧ r.2.1.idxSub = k % 2 ^ 32 ∧ packetBody r.2.1 r.2.2 = p) ∧
    (d.idxGrp ≠ g % 2 ^ 32 → k % 2 ^ 32 = 0 →
      r.1 = .start ∧ r.2.1.idxGrp = g % 2 ^ 32 ∧ r.2.1.idxSub = 0 ∧ packetBody r.2.1 r.2.2 = p) := by
  have hlen := frame_length (g := g) (k := k) hpad
  have htake : (frame g k p pad).take 1044 = frame g k p pad := List.take_of_length_le hlen.le
  have hsz : p.length % 2 ^ 32 = p.length := Nat.mod_eq_of_lt (by simp only [PACKETSIZE] at hpad; omega)
  have hfit : (20 + p.length) % 2 ^ 32 ≤ 1044 :=
    (Nat.mod_le _ _).trans (by simp only [PACKETSIZE] at hpad; omega)
  have hb := frame_body d.packeBuf g k p pad
  simp only [getPacket, channelRead, sizeofHead, PACKETSIZE, Nat.reduceAdd, htake, hlen, lt_self_iff_false,
    decide_false, Bool.not_false, frame_magic, frame_size, hsz, headerState, frame_grp, frame_sub, ne_eq,
    not_true_eq_false, if_false, Nat.not_lt.2 hfit, show ¬ 1044 < 20 by decide]
  constructor
  · intro h1 h2
    simp only [h1, h2, if_true]
    exact ⟨trivial, trivial, trivial, hb⟩
  · intro h1 h2
    simp only [h1, h2, if_true, if_false]
    exact ⟨trivial, trivial, trivial, hb⟩

end Frame

end SprdDevice.NvItem
