/-
Backup integrity of `nvm_daemon`: the image a sync command writes to the backup partition against the images
`update_fixnvfile` wrote to the primary one.

Both are written from `fixnv_buffer`. Between two requests the buffer holds the last image, and at the header of a fixed-NV
request it is loaded with it again, so a request that is cut off before its first data byte does no harm. One that is cut
off later leaves its bytes in the buffer, and `update_finxn_flag` keeps the value that an earlier request gave it.

Results: `backup_is_last_image` (as long as no sync command meets such a buffer with the flag set, and no piece leaves its
buffer, every backup is the last image) and `sync_writes_mixture` (what happens otherwise).
-/
import Mathlib.Tactic
import SprdDevice.Lib.Run
import SprdDevice.NvmDaemon.Daemon

namespace SprdDevice.NvmDaemon

open SprdDevice.Memory SprdDevice.Word SprdDevice.Run
open SprdDevice.RawData (Partition Block)

/-! ## The property -/

/-- the last image of the primary partition after one more effect -/
def Eff.lastImage (last : Option (List UInt8)) : Eff → Option (List UInt8)
  | .fixnv image => some image
  | .backup _ => last
  | .reply _ => last

/-- the last image written to the primary partition -/
def lastFixnv (log : List Eff) : Option (List UInt8) := log.foldl Eff.lastImage none

/-- every image written to the backup is the last one written to the primary partition before it -/
def BackupsExact (log : List Eff) : Prop :=
  ∀ pre image post, log = pre ++ Eff.backup image :: post → lastFixnv pre = some image

/-- the daemon is in control of its memory and its backups are exact -/
def Faithful (s : St) : Prop := s.phase ≠ .overrun ∧ BackupsExact s.log

/-! ## The condition -/

/-- the `read` of this turn delivers a sync command -/
def SyncArrives (s : St) (t : Turn) : Prop :=
  ∃ bytes, t.read = some bytes ∧ bytes.take HEADER_SIZE ≠ [] ∧
    le16 (store s.reqHeader 0 (bytes.take HEADER_SIZE)) 2 = 1

/-- the piece that the `read` of this turn delivers fits where it goes -/
def PieceFits (s : St) (area : Area) (total : ℤ) (t : Turn) : Prop :=
  ∀ bytes, t.read = some bytes →
    (area = .fixnv → s.fixnvBufferOffset + (bytes.take (min total.toNat DATA_BUF_LEN)).length ≤ FIXNV_SIZE + 4) ∧
    (area = .productinfo →
      s.phasecheckBufferOffset + (bytes.take (min total.toNat DATA_BUF_LEN)).length ≤ PRODUCTINFO_SIZE + 8)

/-- no sync command while the flag is set and the last fixed-NV request was cut off after some of its data, and no piece
that leaves its buffer -/
def TurnOk (s : St) (t : Turn) : Prop :=
  (s.phase = .header → SyncArrives s t → s.updateFinxnFlag = true → s.torn = false) ∧
    ∀ area total, s.phase = .data area total → PieceFits s area total t

/-! ## Logs -/

theorem lastFixnv_append (log : List Eff) (e : Eff) : lastFixnv (log ++ [e]) = e.lastImage (lastFixnv log) := by
  simp [lastFixnv, List.foldl_append]

/-- What is appended to a log keeps it exact if it is no backup, or is the last image. -/
theorem BackupsExact.append {log : List Eff} (h : BackupsExact log) (e : Eff)
    (he : ∀ image, e = Eff.backup image → lastFixnv log = some image) : BackupsExact (log ++ [e]) := by
  intro pre image post hsplit
  rcases List.eq_nil_or_concat post with hpost | ⟨post', e', hpost⟩
  · rw [hpost] at hsplit
    obtain ⟨hlog, hlast⟩ := List.append_inj' hsplit rfl
    rw [← hlog]
    exact he image (List.head_eq_of_cons_eq hlast)
  · rw [hpost, List.concat_eq_append, ← List.cons_append, ← List.append_assoc] at hsplit
    exact h pre image post' (List.append_inj_left' hsplit rfl)

/-! ## The invariant -/

/-- no byte of a fixed-NV request in progress has arrived -/
def Untouched (s : St) : Prop := ∀ total, s.phase = .data .fixnv total → total = sint32 s.size

structure Inv (s : St) : Prop where
  running : s.phase ≠ .overrun
  exact : BackupsExact s.log
  /-- no more is to come than the header says -/
  bound : ∀ area total, s.phase = .data area total → total ≤ sint32 s.size
  /-- a fixed-NV request in progress began with a load -/
  fresh : ∀ total, s.phase = .data .fixnv total → s.torn = false
  /-- the primary partition holds the last image -/
  last : s.updateFinxnFlag = true → lastFixnv s.log = some (cells s.fixNv1 0 (FIXNV_SIZE + 4))
  /-- and so does the buffer, unless a request has written into it -/
  clean : s.updateFinxnFlag = true → s.torn = false → Untouched s →
    Same (FIXNV_SIZE + 4) s.fixnvBuffer s.fixNv1

/-- between two requests the buffer is as the last complete one left it -/
structure Settled (s : St) : Prop where
  exact : BackupsExact s.log
  last : s.updateFinxnFlag = true → lastFixnv s.log = some (cells s.fixNv1 0 (FIXNV_SIZE + 4))
  clean : s.updateFinxnFlag = true → s.torn = false → Same (FIXNV_SIZE + 4) s.fixnvBuffer s.fixNv1

theorem Inv.settled {s : St} (h : Inv s) (hp : s.phase = .header) : Settled s :=
  ⟨h.exact, h.last, fun hf ht => h.clean hf ht fun total hd => by rw [hp] at hd; cases hd⟩

theorem Settled.inv {s : St} (h : Settled s) (hp : s.phase = .header) : Inv s where
  running := by rw [hp]; decide
  exact := h.exact
  bound := fun area total hd => by rw [hp] at hd; cases hd
  fresh := fun total hd => by rw [hp] at hd; cases hd
  last := h.last
  clean := fun hf ht _ => h.clean hf ht

/-! ## A complete request -/

/-- `update_fixnvfile` leaves the same image in the buffer, on the partition and in the log. -/
theorem updateFixnvfile_settled (s : St) (h : BackupsExact s.log) : Settled (updateFixnvfile s FIXNV_SIZE) := by
  have hsame : Same (FIXNV_SIZE + 4) (sealFixnv s.fixnvBuffer s.indexvalue FIXNV_SIZE)
      (copy s.fixNv1 (sealFixnv s.fixnvBuffer s.indexvalue FIXNV_SIZE) (FIXNV_SIZE + 4)) :=
    (copy_same _ _ _).symm
  refine ⟨?_, ?_, ?_⟩
  · apply h.append
    intro image he
    cases he
  · intro _
    unfold updateFixnvfile
    rw [lastFixnv_append, (cells_eq_iff _ _ _).2 hsame]
    rfl
  · intro _ _
    exact hsame

theorem finish_inv (area : Area) (s : St) (h : BackupsExact s.log) (hs : area ≠ .fixnv → Settled s) :
    Inv (finish area s) := by
  cases area with
  | fixnv =>
    have hset := updateFixnvfile_settled { s with updateFinxnFlag := true } h
    exact Settled.inv ⟨hset.exact, hset.last, hset.clean⟩ rfl
  | runtimenv =>
    have hset := hs (by decide)
    exact Settled.inv ⟨hset.exact, hset.last, hset.clean⟩ rfl
  | productinfo =>
    have hset := hs (by decide)
    exact Settled.inv ⟨hset.exact, hset.last, hset.clean⟩ rfl

/-- The head of the data loop. When data is still to come, the buffer may be touched only by a fixed-NV request that has
received some of it. -/
theorem loopHead_inv (area : Area) (total : ℤ) (s : St) (hexact : BackupsExact s.log)
    (hbound : total ≤ sint32 s.size) (hfresh : area = .fixnv → s.torn = false)
    (hlast : s.updateFinxnFlag = true → lastFixnv s.log = some (cells s.fixNv1 0 (FIXNV_SIZE + 4)))
    (hclean : (area = .fixnv → total = sint32 s.size) → s.updateFinxnFlag = true → s.torn = false →
      Same (FIXNV_SIZE + 4) s.fixnvBuffer s.fixNv1) : Inv (loopHead area total s) := by
  unfold loopHead
  by_cases hpos : total > 0
  · rw [if_pos hpos]
    refine ⟨by simp, hexact, ?_, ?_, hlast, ?_⟩
    · intro area' total' hd
      cases hd
      exact hbound
    · intro total' hd
      cases hd
      exact hfresh rfl
    · intro hf ht hun
      apply hclean _ hf ht
      intro harea
      exact hun total (by rw [harea])
  · rw [if_neg hpos]
    apply finish_inv area s hexact
    intro harea
    exact ⟨hexact, hlast, hclean fun h => absurd h harea⟩

/-! ## Headers -/

theorem sync_inv (s : St) (hp : s.phase = .header) (h : Settled s) (ht : s.updateFinxnFlag = true → s.torn = false) :
    Inv (sync s) := by
  have hlog : BackupsExact (if s.updateFinxnFlag then updateBackupfile s FIXNV_SIZE else s).log := by
    by_cases hf : s.updateFinxnFlag = true
    · rw [if_pos hf]
      have hcells := (cells_eq_iff s.fixnvBuffer s.fixNv1 _).2 (h.clean hf (ht hf))
      apply h.exact.append
      intro image he
      rw [h.last hf, ← hcells, ← Eff.backup.inj he]
    · rw [if_neg hf]
      exact h.exact
  refine Settled.inv ⟨?_, ?_, ?_⟩ ?_
  · apply hlog.append
    intro image he
    cases he
  · intro hf
    cases hf
  · intro hf
    cases hf
  · unfold sync
    dsimp only
    split_ifs <;> exact hp

/-- Loading the primary partition makes the buffer whole again. -/
theorem loadFixnv_same (s : St) : Same (FIXNV_SIZE + 4) (loadFixnv s).fixnvBuffer (loadFixnv s).fixNv1 :=
  copy_same _ _ _

theorem dispatch_inv (s : St) (hp : s.phase = .header) (h : Settled s)
    (hsync : s.reqType = 1 → s.updateFinxnFlag = true → s.torn = false) : Inv (dispatch s) := by
  unfold dispatch
  split_ifs with hs h0 h1 h2
  · exact sync_inv s hp h (hsync hs)
  · exact loopHead_inv .fixnv _ (loadFixnv s) h.exact le_rfl (fun _ => rfl) h.last fun _ _ _ => loadFixnv_same s
  · exact loopHead_inv .runtimenv _ (openRuntimenv s) h.exact le_rfl (fun h => by cases h) h.last fun _ => h.clean
  · exact loopHead_inv .productinfo _ (loadProductinfo s) h.exact le_rfl (fun h => by cases h) h.last fun _ => h.clean
  · exact h.inv hp

theorem headerTurn_inv (s : St) (t : Turn) (hp : s.phase = .header) (h : Inv s) (hok : TurnOk s t) :
    Inv (headerTurn s t.read) := by
  cases hread : t.read with
  | none => exact h
  | some bytes =>
    simp only [headerTurn]
    by_cases hnil : bytes.take HEADER_SIZE = []
    · rw [if_pos hnil]
      exact h
    · rw [if_neg hnil]
      have hset := h.settled hp
      refine dispatch_inv _ hp ⟨hset.exact, hset.last, hset.clean⟩ ?_
      intro hreq
      exact hok.1 hp ⟨bytes, hread, hnil, hreq⟩

/-! ## Pieces -/

theorem takePiece_inv (area : Area) (total : ℤ) (t : Turn) (s : St) (piece : List UInt8)
    (hp : s.phase = .data area total) (h : Inv s) (hne : piece ≠ [])
    (hfix : area = .fixnv → s.fixnvBufferOffset + piece.length ≤ FIXNV_SIZE + 4)
    (hprod : area = .productinfo → s.phasecheckBufferOffset + piece.length ≤ PRODUCTINFO_SIZE + 8) :
    Inv (takePiece area total t s piece) := by
  have hbound : total ≤ sint32 s.size := h.bound area total hp
  have hpos : 0 < piece.length := List.length_pos_iff.mpr hne
  have hlt : total - piece.length < sint32 s.size := by omega
  cases area with
  | fixnv =>
    unfold takePiece putPiece
    rw [if_pos (hfix rfl)]
    -- from here on the buffer is touched, and only the end of the request makes it whole
    refine loopHead_inv .fixnv _ _ h.exact hlt.le (fun _ => h.fresh total hp) h.last ?_
    intro hun
    exact absurd (hun rfl) hlt.ne
  | runtimenv =>
    have hclean : s.updateFinxnFlag = true → s.torn = false → Same (FIXNV_SIZE + 4) s.fixnvBuffer s.fixNv1 :=
      fun hf ht => h.clean hf ht fun total' hd => by rw [hp] at hd; cases hd
    unfold takePiece
    dsimp only
    split_ifs with h1 h2
    · exact h
    · exact ⟨h.running, h.exact, h.bound, h.fresh, h.last, h.clean⟩
    · exact loopHead_inv .runtimenv _ _ h.exact hlt.le (fun h => by cases h) h.last fun _ => hclean
  | productinfo =>
    have hclean : s.updateFinxnFlag = true → s.torn = false → Same (FIXNV_SIZE + 4) s.fixnvBuffer s.fixNv1 :=
      fun hf ht => h.clean hf ht fun total' hd => by rw [hp] at hd; cases hd
    unfold takePiece putPiece
    rw [if_pos (hprod rfl)]
    exact loopHead_inv .productinfo _ _ h.exact hlt.le (fun h => by cases h) h.last fun _ => hclean

/-- A request that is cut off leaves a whole buffer, or the mark of a torn one. -/
theorem cutOff_inv (area : Area) (total : ℤ) (s : St) (hp : s.phase = .data area total) (h : Inv s) :
    Inv (cutOff area total s) := by
  refine Settled.inv ⟨h.exact, h.last, ?_⟩ rfl
  intro hf ht
  by_cases harea : area = .fixnv
  · -- the mark is not set, so nothing of the request has arrived
    subst harea
    have hall : total = sint32 s.size := by simpa [cutOff] using ht
    apply h.clean hf (h.fresh total hp)
    intro total' hd
    rw [hp] at hd
    cases hd
    exact hall
  · have huntorn : s.torn = false := by simpa [cutOff, harea] using ht
    apply h.clean hf huntorn
    intro total' hd
    rw [hp] at hd
    cases hd
    exact absurd rfl harea

theorem dataTurn_inv (area : Area) (total : ℤ) (t : Turn) (s : St) (hp : s.phase = .data area total) (h : Inv s)
    (hok : TurnOk s t) : Inv (dataTurn area total t s) := by
  unfold dataTurn
  cases hread : t.read with
  | none => exact h
  | some bytes =>
    dsimp only
    by_cases hnil : bytes.take (min total.toNat DATA_BUF_LEN) = []
    · rw [if_pos hnil]
      exact cutOff_inv area total s hp h
    · rw [if_neg hnil]
      obtain ⟨hfix, hprod⟩ := hok.2 area total hp bytes hread
      exact takePiece_inv area total t s _ hp h hnil hfix hprod

theorem step_inv (s : St) (t : Turn) (h : Inv s) (hok : TurnOk s t) : Inv (step s t) := by
  unfold step
  cases hp : s.phase with
  | header => exact headerTurn_inv s t hp h hok
  | data area total => exact dataTurn_inv area total t s hp h hok
  | overrun => exact absurd hp h.running

/-! ## Whole runs -/

/-- the daemon as it starts -/
structure Start (s : St) : Prop where
  phase : s.phase = .header
  flag : s.updateFinxnFlag = false
  log : s.log = []

theorem Start.inv {s : St} (h : Start s) : Inv s := by
  refine Settled.inv ⟨?_, ?_, ?_⟩ h.phase
  · intro pre image post hsplit
    rw [h.log] at hsplit
    simp at hsplit
  · intro hf
    rw [h.flag] at hf
    cases hf
  · intro hf
    rw [h.flag] at hf
    cases hf

/-- **Backup integrity.** In every run of the daemon in which no sync command with the flag set follows a fixed-NV request
that was cut off after some of its data, and no piece leaves its buffer, every state reached is faithful: each image
written to the backup is the last one `update_fixnvfile` wrote. -/
theorem backup_is_last_image (s : St) (hs : Start s) (ts : List Turn) (hok : Along step TurnOk s ts) :
    Along step (fun s t => Faithful (step s t)) s ts := by
  refine along_of_inv Inv ?_ hs.inv hok
  intro s t hinv ht
  have hnext := step_inv s t hinv ht
  exact ⟨⟨hnext.running, hnext.exact⟩, hnext⟩

/-- the daemon at its start, over partitions of zeros -/
def blank : St where
  phase := .header
  reqHeader := fun _ => 0
  fixnvBuffer := fun _ => 0
  fixnvBufferOffset := 0
  indexvalue := 0
  updateFinxnFlag := false
  phasecheckBuffer := fun _ => 0
  phasecheckBufferOffset := 0
  fixNv1 := fun _ => 0
  fixNv2 := fun _ => 0
  runtimeNv1 := ⟨fun _ => 0, 0⟩
  runtimeNv2 := ⟨fun _ => 0, 0⟩
  prodInfo := fun _ _ => 0
  log := []
  torn := false

/-- a `read` that delivers these bytes -/
def got (bytes : List UInt8) : Turn := ⟨some bytes, 0, 0⟩

/-- a fixed-NV request of `size` bytes at offset 0, and the sync command -/
def fixnvHeader (size : UInt8) : List UInt8 := [0, 0, 0, 0, 0, 0, 0, 0, size, 0, 0, 0]

def syncHeader : List UInt8 := [0, 0, 1, 0, 0, 0, 0, 0, 0, 0, 0, 0]

theorem blank_start : Start blank := ⟨rfl, rfl, rfl⟩

/-- a request of two bytes in one piece each, and a sync command -/
def twoPieces : List Turn := [got (fixnvHeader 2), got [7], got [8], got syncHeader]

theorem backup_is_last_image_twoPieces : Along step (fun s t => Faithful (step s t)) blank twoPieces := by
  apply backup_is_last_image blank blank_start
  refine ⟨⟨fun _ _ _ => rfl, fun area total hd => nomatch hd⟩, ⟨fun hp => ?_, fun area total hd => ?_⟩,
    ⟨fun hp => ?_, fun area total hd => ?_⟩, ⟨fun _ _ _ => ?_, fun area total hd => ?_⟩, trivial⟩
  · exact absurd hp (by decide +kernel)
  · have hphase : (step blank (got (fixnvHeader 2))).phase = .data .fixnv 2 := by decide +kernel
    rw [hphase] at hd
    cases hd
    rintro bytes ⟨⟩
    exact ⟨fun _ => by decide +kernel, fun harea => nomatch harea⟩
  · exact absurd hp (by decide +kernel)
  · have hphase : (step (step blank (got (fixnvHeader 2))) (got [7])).phase = .data .fixnv 1 := by decide +kernel
    rw [hphase] at hd
    cases hd
    rintro bytes ⟨⟩
    exact ⟨fun _ => by decide +kernel, fun harea => nomatch harea⟩
  · decide +kernel
  · have hphase : (step (step (step blank (got (fixnvHeader 2))) (got [7])) (got [8])).phase = .header := by decide +kernel
    rw [hphase] at hd
    cases hd

/-! ## A request that is cut off -/

theorem step_header (s : St) (hp : s.phase = .header) {head : List UInt8} (hlen : head.length = HEADER_SIZE) :
    step s (got head) = dispatch { s with reqHeader := store s.reqHeader 0 head } := by
  have htake : head.take HEADER_SIZE = head := List.take_of_length_le hlen.le
  have hne : head ≠ [] := by
    intro hnil
    rw [hnil] at hlen
    exact absurd hlen (by decide)
  have hturn : step s (got head) = headerTurn s (some head) := by
    unfold step
    rw [hp]
    rfl
  rw [hturn]
  simp only [headerTurn]
  rw [htake, if_neg hne]

theorem step_fixnvHeader (s : St) (hp : s.phase = .header) (size : UInt8) :
    step s (got (fixnvHeader size)) =
      loopHead .fixnv size.toNat (loadFixnv { s with reqHeader := store s.reqHeader 0 (fixnvHeader size) }) := by
  have hsize : le32 (store s.reqHeader 0 (fixnvHeader size)) 8 = size.toNat := by
    simp [le32, store, fixnvHeader]
  have hsint : sint32 size.toNat = size.toNat := if_pos (lt_trans size.toNat_lt (by decide))
  rw [step_header s hp rfl]
  unfold dispatch St.size
  rw [if_neg (by simp [St.reqType, le16, store, fixnvHeader]), if_pos (by simp [St.type, le16, store, fixnvHeader]),
    hsize, hsint]

theorem step_syncHeader (s : St) (hp : s.phase = .header) :
    step s (got syncHeader) = sync { s with reqHeader := store s.reqHeader 0 syncHeader } := by
  rw [step_header s hp rfl]
  unfold dispatch
  rw [if_pos (by simp [St.reqType, le16, store, syncHeader])]

theorem step_piece (s : St) (total : ℤ) (hp : s.phase = .data .fixnv total) (hofs : s.fixnvBufferOffset = 0) (b : UInt8)
    (htotal : 1 < total) :
    step s (got [b]) =
      { s with fixnvBuffer := store s.fixnvBuffer 0 [b], fixnvBufferOffset := 1, phase := .data .fixnv (total - 1) } := by
  have htake : [b].take (min total.toNat DATA_BUF_LEN) = [b] := by
    apply List.take_of_length_le
    unfold DATA_BUF_LEN
    simp only [List.length_singleton]
    omega
  unfold step
  rw [hp]
  simp only [dataTurn, got, htake, takePiece, putPiece, hofs, List.length_singleton]
  rw [if_neg (by simp), if_pos (by decide)]
  simp only [loopHead, Nat.cast_one]
  rw [if_pos (by omega)]

theorem step_cut (s : St) (area : Area) (total : ℤ) (hp : s.phase = .data area total) :
    step s (got []) = cutOff area total s := by
  have hturn : step s (got []) = dataTurn area total (got []) s := by
    unfold step
    rw [hp]
  rw [hturn]
  simp only [dataTurn, got, List.take_nil, if_true]

/-- A request that was cut off behind its first byte leaves that byte in the buffer, and the flag as it was. -/
theorem cut_leaves_byte (s : St) (hp : s.phase = .header) (b : UInt8) :
    (run s [got (fixnvHeader 2), got [b], got []]).phase = .header ∧
      (run s [got (fixnvHeader 2), got [b], got []]).updateFinxnFlag = s.updateFinxnFlag ∧
      (run s [got (fixnvHeader 2), got [b], got []]).log = s.log ∧
      (run s [got (fixnvHeader 2), got [b], got []]).fixnvBuffer = store (loadFixnv s).fixnvBuffer 0 [b] := by
  have hload := step_fixnvHeader s hp 2
  unfold loopHead at hload
  rw [if_pos (by decide)] at hload
  have hpiece := step_piece (step s (got (fixnvHeader 2))) 2 (by rw [hload]; rfl)
    (by rw [hload]; simp [loadFixnv, St.offset, le32, store, fixnvHeader]) b (by decide)
  have hcut := step_cut (step (step s (got (fixnvHeader 2))) (got [b])) .fixnv 1 (by rw [hpiece]; rfl)
  simp only [run, List.foldl_cons, List.foldl_nil]
  rw [hcut, hpiece, hload]
  exact ⟨rfl, rfl, rfl, rfl⟩

/-- what a sync command with the flag set adds to the log -/
theorem sync_log (s : St) (hp : s.phase = .header) (hf : s.updateFinxnFlag = true) :
    ∃ head, (step s (got syncHeader)).log =
      s.log ++ Eff.backup (cells s.fixnvBuffer 0 (FIXNV_SIZE + 4)) :: [Eff.reply head] := by
  rw [step_syncHeader s hp]
  unfold sync
  dsimp only
  rw [if_pos hf]
  exact ⟨_, List.append_assoc s.log [_] [_]⟩

/-- a complete request without data leaves its image in the buffer and in the log -/
theorem empty_request_log (s : St) (hp : s.phase = .header) :
    (step s (got (fixnvHeader 0))).log =
      s.log ++ [Eff.fixnv (cells (step s (got (fixnvHeader 0))).fixnvBuffer 0 (FIXNV_SIZE + 4))] := by
  rw [step_fixnvHeader s hp 0]
  unfold loopHead
  rw [if_neg (by decide)]
  rfl

/-- a complete request; one that is cut off after the first of its two bytes; a sync command -/
def cutThenSync : List Turn := [got (fixnvHeader 0), got (fixnvHeader 2), got [1], got [], got syncHeader]

/-- the sync command writes the byte of the request that was cut off -/
theorem sync_writes_mixture : Start blank ∧ ¬ Along step (fun s t => Faithful (step s t)) blank cutThenSync := by
  refine ⟨blank_start, ?_⟩
  intro h
  obtain ⟨-, -, -, -, ⟨-, hexact⟩, -⟩ := h
  set s1 := step blank (got (fixnvHeader 0)) with hs1
  have hlog1 : s1.log = [Eff.fixnv (cells s1.fixnvBuffer 0 (FIXNV_SIZE + 4))] := empty_request_log blank rfl
  obtain ⟨hp, hflag, hlog, hbuf⟩ := cut_leaves_byte s1 rfl 1
  obtain ⟨head, hsync⟩ := sync_log _ hp (hflag.trans rfl)
  rw [hlog, hbuf, hlog1] at hsync
  have himage := hexact _ _ _ hsync
  have hsame := (cells_eq_iff _ _ _).1 (Option.some.inj himage)
  have hfirst : s1.fixnvBuffer 0 = 0 := by decide +kernel
  have hzero := hsame 0 (by decide)
  rw [hfirst] at hzero
  exact absurd hzero (by decide +kernel)

end SprdDevice.NvmDaemon
