/-
The buffer module of the NV sync daemon (`nvitem_buf.c`). A partition has three copies of its image, each with a dirty
table of one bit per 512-byte sector:
- `fromChannel`: written by the channel thread while a request is being received;
- `backup`: the last committed image, guarded by the mutex;
- `toDisk`: the copy the saver hands to `ramDisk_Write`.

Every function is the C function of the same name, without its leading underscores. The mutex sections (the copy in
`backupData`, `restoreData`, `__getData`) are single functions, so that a two-thread model can run each of them as one
step. A disk buffer is the memory seen from its first byte and a dirty table the memory seen from its first word, so
that writes past the end can be spoken about. A shift by 32 (`_markDirtyInfo` with scts = 0) is undefined in C; it is
the ARM one here, which gives zero.

Results:
- `initBuf_booted`: the state `initBuf` leaves;
- `bit_markTable`: the bits `_markDirtyInfo` sets; `markOps_word`: the words it touches; `markOps_defined`: its shifts;
- `markDirtyInfo_sectors`: the three together, for sectors the table covers;
- `saveToDisk_part`: a pass treats every partition by itself;
- `saveToDisk_calls`: a pass calls `ramDisk_Write` exactly for the partitions whose backup table has a bit.
-/
import Mathlib.Tactic
import SprdDevice.Lib.Memory
import SprdDevice.Lib.BitTable

namespace SprdDevice.NvItem

open SprdDevice.Memory SprdDevice.BitTable

/-! ## Model -/

def RAMNV_SECT_SIZE : ℕ := 512

def RAMNV_DIRTYTABLE_MAXSIZE : ℕ := 32

/-- `_RAMNV_BUF_CTRL` -/
structure BufCtrl where
  diskbuf : ℕ → UInt8
  dirty : ℕ → BitVec 32

/-- `_RAMNV_PART_CTRL`; the file handle is the partition id (`ramDisk_Open`) -/
structure PartCtrl where
  partId : ℕ
  sctNum : ℕ
  fromChannel : BufCtrl
  backup : BufCtrl
  toDisk : BufCtrl

/-- `_RAMNV_CTL` -/
structure RamNvCtl where
  partNum : ℕ
  part : ℕ → PartCtrl

/-- one partition replaced -/
def RamNvCtl.modPart (c : RamNvCtl) (id : ℕ) (f : PartCtrl → PartCtrl) : RamNvCtl :=
  { c with part := Function.update c.part id (f (c.part id)) }

/-- the number of bytes the block copies move: `RAMNV_SECT_SIZE*sctNum` -/
def PartCtrl.size (p : PartCtrl) : ℕ := RAMNV_SECT_SIZE * p.sctNum

/-- `RAM_NV_CONFIG`, the fields the buffer module reads -/
structure RamNvConfig where
  partId : ℕ
  image_size : UInt32

def emptyPart : PartCtrl := ⟨0, 0, ⟨fun _ => 0, fun _ => 0⟩, ⟨fun _ => 0, fun _ => 0⟩, ⟨fun _ => 0, fun _ => 0⟩⟩

/-- the loop of `initBuf` over the configuration. `load` is `ramDisk_Read`: the image it leaves in the buffer, or none
when it returns 0, in which case the slot is used again for the next entry. -/
def initLoop (load : ℕ → Option (ℕ → UInt8)) (c : RamNvCtl) : List RamNvConfig → RamNvCtl
  | [] => c
  | cfg :: rest =>
    if cfg.partId = 0 then c
    else match load cfg.partId with
      | none => initLoop load c rest
      | some img =>
        let p : PartCtrl := ⟨cfg.partId, cfg.image_size.toNat / RAMNV_SECT_SIZE, ⟨img, fun _ => 0⟩, ⟨img, fun _ => 0⟩,
          ⟨img, fun _ => 0⟩⟩
        initLoop load ⟨c.partNum + 1, Function.update c.part c.partNum p⟩ rest

def initBuf (load : ℕ → Option (ℕ → UInt8)) (cfg : List RamNvConfig) : RamNvCtl :=
  initLoop load ⟨0, fun _ => emptyPart⟩ cfg

/-- `(uint32)-1`, the index of no partition -/
def noId : ℕ := 2 ^ 32 - 1

def getCtlId (c : RamNvCtl) (partId : ℕ) : ℕ :=
  ((List.range c.partNum).find? fun i => (c.part i).partId = partId).getD noId

/-- the masks `_markDirtyInfo` or-s into the table, word by word: the `while` loop, then the last line. Every turn of
the loop takes at least one sector off `scts`, which is the fuel. -/
def markOps : ℕ → ℕ → ℕ → ℕ → List (ℕ × BitVec 32)
  | 0, bytes, bits, scts => [(bytes, runMask bits scts)]
  | fuel + 1, bytes, bits, scts =>
    if 32 - bits < scts then
      (bytes, BitVec.allOnes 32 <<< bits) :: markOps fuel (bytes + 1) 0 (scts - (32 - bits))
    else [(bytes, runMask bits scts)]

/-- the table after `_markDirtyInfo` -/
def markTable (t : ℕ → BitVec 32) (start scts : ℕ) : ℕ → BitVec 32 :=
  (markOps scts (start / 32) (start % 32) scts).foldl (fun t x => orAt t x.1 x.2) t

def markDirtyInfo (c : RamNvCtl) (id start scts : ℕ) : RamNvCtl :=
  c.modPart id fun p =>
    { p with fromChannel := { p.fromChannel with dirty := markTable p.fromChannel.dirty start scts } }

def ifHasDirty (c : RamNvCtl) (id : ℕ) : Bool := anySet RAMNV_DIRTYTABLE_MAXSIZE (c.part id).backup.dirty

def writeData (c : RamNvCtl) (id start : ℕ) (buf : List UInt8) : RamNvCtl :=
  if buf.length = 0 then c
  else c.modPart id fun p =>
    { p with fromChannel := { p.fromChannel with diskbuf := store p.fromChannel.diskbuf start buf } }

/-- the mutex section of `backupData`: fromChannel -> backup -/
def backupCopy (c : RamNvCtl) (id : ℕ) : RamNvCtl :=
  c.modPart id fun p =>
    { p with backup := ⟨copy p.backup.diskbuf p.fromChannel.diskbuf p.size,
                        merge RAMNV_DIRTYTABLE_MAXSIZE p.backup.dirty p.fromChannel.dirty⟩ }

/-- backup -> fromChannel -/
def restoreData (c : RamNvCtl) (id : ℕ) : RamNvCtl :=
  c.modPart id fun p =>
    { p with fromChannel := ⟨copy p.fromChannel.diskbuf p.backup.diskbuf p.size,
                             copy p.fromChannel.dirty p.backup.dirty RAMNV_DIRTYTABLE_MAXSIZE⟩ }

/-- backup -> toDisk -/
def getData (c : RamNvCtl) (id : ℕ) : RamNvCtl :=
  c.modPart id fun p =>
    { p with toDisk := ⟨copy p.toDisk.diskbuf p.backup.diskbuf p.size,
                        merge RAMNV_DIRTYTABLE_MAXSIZE p.toDisk.dirty p.backup.dirty⟩
             backup := { p.backup with dirty := clear RAMNV_DIRTYTABLE_MAXSIZE p.backup.dirty } }

/-- the clearing of the toDisk table after a successful `ramDisk_Write` -/
def cleanToDisk (c : RamNvCtl) (id : ℕ) : RamNvCtl :=
  c.modPart id fun p => { p with toDisk := { p.toDisk with dirty := clear RAMNV_DIRTYTABLE_MAXSIZE p.toDisk.dirty } }

/-- the image `saveToDisk` hands to `ramDisk_Write` -/
def toDiskImage (c : RamNvCtl) (id : ℕ) : List UInt8 := cells (c.part id).toDisk.diskbuf 0 (c.part id).size

/-- one turn of the loop of `saveToDisk`; `wr id` is the result of `ramDisk_Write` for partition id. The second
component collects the calls. -/
def saveOne (wr : ℕ → Bool) (x : RamNvCtl × List (ℕ × List UInt8)) (id : ℕ) : RamNvCtl × List (ℕ × List UInt8) :=
  if ifHasDirty x.1 id then
    let c := getData x.1 id
    (if wr id then cleanToDisk c id else c, x.2 ++ [(id, toDiskImage c id)])
  else x

def saveToDisk (wr : ℕ → Bool) (c : RamNvCtl) : RamNvCtl × List (ℕ × List UInt8) :=
  (List.range c.partNum).foldl (saveOne wr) (c, [])

/-! ## Partitions -/

@[simp] theorem modPart_partNum (c : RamNvCtl) (id : ℕ) (f : PartCtrl → PartCtrl) :
    (c.modPart id f).partNum = c.partNum := rfl

@[simp] theorem modPart_self (c : RamNvCtl) (id : ℕ) (f : PartCtrl → PartCtrl) :
    (c.modPart id f).part id = f (c.part id) := by simp [RamNvCtl.modPart]

theorem modPart_other (c : RamNvCtl) {id j : ℕ} (f : PartCtrl → PartCtrl) (h : j ≠ id) :
    (c.modPart id f).part j = c.part j := by simp [RamNvCtl.modPart, h]

theorem writeData_eq (c : RamNvCtl) (id start : ℕ) (buf : List UInt8) :
    writeData c id start buf = c.modPart id fun p =>
      { p with fromChannel := { p.fromChannel with diskbuf := store p.fromChannel.diskbuf start buf } } := by
  unfold writeData
  split_ifs with h
  · rw [List.length_eq_zero_iff] at h
    subst h
    simp [RamNvCtl.modPart]
  · rfl

/-- an index `getCtlId` returns is a partition -/
theorem getCtlId_lt {c : RamNvCtl} {partId : ℕ} (h : getCtlId c partId ≠ noId) : getCtlId c partId < c.partNum := by
  unfold getCtlId at h ⊢
  cases hf : (List.range c.partNum).find? fun i => (c.part i).partId = partId with
  | none => rw [hf] at h; exact absurd rfl h
  | some i => simpa using List.mem_of_find?_eq_some hf

/-! ## Frames: what an operation leaves alone, and the field it changes -/

theorem modPart_field {β : Type} (c : RamNvCtl) (id j : ℕ) (f : PartCtrl → PartCtrl) (g : PartCtrl → β)
    (h : ∀ p, g (f p) = g p) : g ((c.modPart id f).part j) = g (c.part j) := by
  by_cases hj : j = id
  · subst hj; simp [h]
  · rw [modPart_other c f hj]

theorem modPart_ite {β : Type} (c : RamNvCtl) (id j : ℕ) (f : PartCtrl → PartCtrl) (g : PartCtrl → β) :
    g ((c.modPart id f).part j) = if j = id then g (f (c.part j)) else g (c.part j) := by
  by_cases hj : j = id
  · subst hj; simp
  · simp [modPart_other c f hj, hj]

section Frames

variable (c : RamNvCtl) (id start scts j : ℕ) (buf : List UInt8)

@[simp] theorem markDirtyInfo_sctNum : ((markDirtyInfo c id start scts).part j).sctNum = (c.part j).sctNum :=
  modPart_field _ _ _ _ PartCtrl.sctNum fun _ => rfl

@[simp] theorem markDirtyInfo_image :
    ((markDirtyInfo c id start scts).part j).fromChannel.diskbuf = (c.part j).fromChannel.diskbuf :=
  modPart_field _ _ _ _ (fun p => p.fromChannel.diskbuf) fun _ => rfl

@[simp] theorem markDirtyInfo_backup : ((markDirtyInfo c id start scts).part j).backup = (c.part j).backup :=
  modPart_field _ _ _ _ PartCtrl.backup fun _ => rfl

@[simp] theorem markDirtyInfo_toDisk : ((markDirtyInfo c id start scts).part j).toDisk = (c.part j).toDisk :=
  modPart_field _ _ _ _ PartCtrl.toDisk fun _ => rfl

theorem markDirtyInfo_dirty : ((markDirtyInfo c id start scts).part j).fromChannel.dirty =
    if j = id then markTable (c.part j).fromChannel.dirty start scts else (c.part j).fromChannel.dirty :=
  modPart_ite _ _ _ _ fun p => p.fromChannel.dirty

@[simp] theorem writeData_sctNum : ((writeData c id start buf).part j).sctNum = (c.part j).sctNum := by
  rw [writeData_eq]; exact modPart_field _ _ _ _ PartCtrl.sctNum fun _ => rfl

@[simp] theorem writeData_dirty :
    ((writeData c id start buf).part j).fromChannel.dirty = (c.part j).fromChannel.dirty := by
  rw [writeData_eq]; exact modPart_field _ _ _ _ (fun p => p.fromChannel.dirty) fun _ => rfl

@[simp] theorem writeData_backup : ((writeData c id start buf).part j).backup = (c.part j).backup := by
  rw [writeData_eq]; exact modPart_field _ _ _ _ PartCtrl.backup fun _ => rfl

@[simp] theorem writeData_toDisk : ((writeData c id start buf).part j).toDisk = (c.part j).toDisk := by
  rw [writeData_eq]; exact modPart_field _ _ _ _ PartCtrl.toDisk fun _ => rfl

theorem writeData_image : ((writeData c id start buf).part j).fromChannel.diskbuf =
    if j = id then store (c.part j).fromChannel.diskbuf start buf else (c.part j).fromChannel.diskbuf := by
  rw [writeData_eq]; exact modPart_ite _ _ _ _ fun p => p.fromChannel.diskbuf

@[simp] theorem backupCopy_sctNum : ((backupCopy c id).part j).sctNum = (c.part j).sctNum :=
  modPart_field _ _ _ _ PartCtrl.sctNum fun _ => rfl

@[simp] theorem backupCopy_fromChannel : ((backupCopy c id).part j).fromChannel = (c.part j).fromChannel :=
  modPart_field _ _ _ _ PartCtrl.fromChannel fun _ => rfl

@[simp] theorem backupCopy_toDisk : ((backupCopy c id).part j).toDisk = (c.part j).toDisk :=
  modPart_field _ _ _ _ PartCtrl.toDisk fun _ => rfl

theorem backupCopy_backup : ((backupCopy c id).part j).backup =
    if j = id then ⟨copy (c.part j).backup.diskbuf (c.part j).fromChannel.diskbuf (c.part j).size,
      merge RAMNV_DIRTYTABLE_MAXSIZE (c.part j).backup.dirty (c.part j).fromChannel.dirty⟩
    else (c.part j).backup :=
  modPart_ite _ _ _ _ PartCtrl.backup

@[simp] theorem restoreData_sctNum : ((restoreData c id).part j).sctNum = (c.part j).sctNum :=
  modPart_field _ _ _ _ PartCtrl.sctNum fun _ => rfl

@[simp] theorem restoreData_backup : ((restoreData c id).part j).backup = (c.part j).backup :=
  modPart_field _ _ _ _ PartCtrl.backup fun _ => rfl

@[simp] theorem restoreData_toDisk : ((restoreData c id).part j).toDisk = (c.part j).toDisk :=
  modPart_field _ _ _ _ PartCtrl.toDisk fun _ => rfl

theorem restoreData_fromChannel : ((restoreData c id).part j).fromChannel =
    if j = id then ⟨copy (c.part j).fromChannel.diskbuf (c.part j).backup.diskbuf (c.part j).size,
      copy (c.part j).fromChannel.dirty (c.part j).backup.dirty RAMNV_DIRTYTABLE_MAXSIZE⟩
    else (c.part j).fromChannel :=
  modPart_ite _ _ _ _ PartCtrl.fromChannel

@[simp] theorem getData_sctNum : ((getData c id).part j).sctNum = (c.part j).sctNum :=
  modPart_field _ _ _ _ PartCtrl.sctNum fun _ => rfl

@[simp] theorem getData_fromChannel : ((getData c id).part j).fromChannel = (c.part j).fromChannel :=
  modPart_field _ _ _ _ PartCtrl.fromChannel fun _ => rfl

@[simp] theorem getData_image : ((getData c id).part j).backup.diskbuf = (c.part j).backup.diskbuf :=
  modPart_field _ _ _ _ (fun p => p.backup.diskbuf) fun _ => rfl

theorem getData_dirty : ((getData c id).part j).backup.dirty =
    if j = id then clear RAMNV_DIRTYTABLE_MAXSIZE (c.part j).backup.dirty else (c.part j).backup.dirty :=
  modPart_ite _ _ _ _ fun p => p.backup.dirty

theorem getData_toDisk : ((getData c id).part j).toDisk =
    if j = id then ⟨copy (c.part j).toDisk.diskbuf (c.part j).backup.diskbuf (c.part j).size,
      merge RAMNV_DIRTYTABLE_MAXSIZE (c.part j).toDisk.dirty (c.part j).backup.dirty⟩
    else (c.part j).toDisk :=
  modPart_ite _ _ _ _ PartCtrl.toDisk

@[simp] theorem cleanToDisk_sctNum : ((cleanToDisk c id).part j).sctNum = (c.part j).sctNum :=
  modPart_field _ _ _ _ PartCtrl.sctNum fun _ => rfl

@[simp] theorem cleanToDisk_fromChannel : ((cleanToDisk c id).part j).fromChannel = (c.part j).fromChannel :=
  modPart_field _ _ _ _ PartCtrl.fromChannel fun _ => rfl

@[simp] theorem cleanToDisk_backup : ((cleanToDisk c id).part j).backup = (c.part j).backup :=
  modPart_field _ _ _ _ PartCtrl.backup fun _ => rfl

@[simp] theorem cleanToDisk_image : ((cleanToDisk c id).part j).toDisk.diskbuf = (c.part j).toDisk.diskbuf :=
  modPart_field _ _ _ _ (fun p => p.toDisk.diskbuf) fun _ => rfl

end Frames

/-! ## The state after `initBuf` -/

/-- the three buffers of a partition hold one image, all dirty tables are empty, and an image is shorter than 2^32 -/
def Booted (c : RamNvCtl) : Prop :=
  ∀ id, (c.part id).fromChannel = ⟨(c.part id).backup.diskbuf, fun _ => 0⟩ ∧
    (c.part id).toDisk = ⟨(c.part id).backup.diskbuf, fun _ => 0⟩ ∧ (c.part id).backup.dirty = (fun _ => 0) ∧
    (c.part id).size < 2 ^ 32

theorem initLoop_booted (load : ℕ → Option (ℕ → UInt8)) (c : RamNvCtl) (cfg : List RamNvConfig) (h : Booted c) :
    Booted (initLoop load c cfg) := by
  induction cfg generalizing c with
  | nil => exact h
  | cons x rest ih =>
    simp only [initLoop]
    split_ifs with hx
    · exact h
    · cases load x.partId with
      | none => exact ih c h
      | some img =>
        apply ih
        intro id
        by_cases hid : id = c.partNum
        · subst hid
          have hs : (x.image_size.toNat / 512) * 512 < 2 ^ 32 :=
            lt_of_le_of_lt (Nat.div_mul_le_self _ _) x.image_size.toNat_lt
          simp only [Function.update_self, PartCtrl.size, RAMNV_SECT_SIZE, true_and]
          omega
        · simpa [Function.update_of_ne hid] using h id

theorem initBuf_booted (load : ℕ → Option (ℕ → UInt8)) (cfg : List RamNvConfig) : Booted (initBuf load cfg) :=
  initLoop_booted load _ cfg fun _ => ⟨rfl, rfl, rfl, by simp [emptyPart, PartCtrl.size]⟩

/-! ## `_markDirtyInfo` -/

/-- the loop equation of `_markDirtyInfo`: with `scts` turns of fuel or more, the fuel never runs out -/
theorem markOps_eq {fuel bytes bits scts : ℕ} (hf : scts ≤ fuel) :
    markOps fuel bytes bits scts =
      if 32 - bits < scts then
        (bytes, BitVec.allOnes 32 <<< bits) :: markOps (fuel - 1) (bytes + 1) 0 (scts - (32 - bits))
      else [(bytes, runMask bits scts)] := by
  cases fuel with
  | zero => simp [markOps]; omega
  | succ n => simp [markOps]

/-- the words `_markDirtyInfo` touches are those of the sectors it marks (of the first one when there is none) -/
theorem markOps_word {fuel bytes bits scts : ℕ} (hf : scts ≤ fuel) (hb : bits < 32) :
    ∀ x ∈ markOps fuel bytes bits scts, bytes ≤ x.1 ∧ 32 * x.1 < 32 * bytes + bits + max scts 1 := by
  induction fuel generalizing bytes bits scts with
  | zero =>
    intro x hx
    simp only [markOps, List.mem_singleton] at hx
    subst hx
    exact ⟨le_rfl, by simp only; omega⟩
  | succ n ih =>
    intro x hx
    simp only [markOps] at hx
    split_ifs at hx with h
    · rcases List.mem_cons.1 hx with rfl | hx
      · exact ⟨le_rfl, by simp only; omega⟩
      · obtain ⟨h1, h2⟩ := ih (by omega) (by decide) x hx
        exact ⟨by omega, by omega⟩
    · simp only [List.mem_singleton] at hx
      subst hx
      exact ⟨le_rfl, by simp only; omega⟩

/-- a mask of `_markDirtyInfo` whose shifts are all by less than 32 -/
def DefinedMask (m : BitVec 32) : Prop :=
  (∃ bits < 32, m = BitVec.allOnes 32 <<< bits) ∨ ∃ bits scts, 1 ≤ scts ∧ bits + scts ≤ 32 ∧ m = runMask bits scts

/-- with a sector to mark, no shift is by 32 or more: the loop leaves one for the last line -/
theorem markOps_defined {fuel bytes bits scts : ℕ} (hf : scts ≤ fuel) (hb : bits < 32) (h1 : 1 ≤ scts) :
    ∀ x ∈ markOps fuel bytes bits scts, DefinedMask x.2 := by
  induction fuel generalizing bytes bits scts with
  | zero => omega
  | succ n ih =>
    intro x hx
    simp only [markOps] at hx
    split_ifs at hx with h
    · rcases List.mem_cons.1 hx with rfl | hx
      · exact Or.inl ⟨bits, hb, rfl⟩
      · exact ih (by omega) (by decide) (by omega) x hx
    · rw [List.mem_singleton] at hx
      subst hx
      exact Or.inr ⟨bits, scts, h1, by omega, rfl⟩

theorem bit_foldl_markOps {fuel bytes bits scts : ℕ} (hf : scts ≤ fuel) (hb : bits < 32) (t : ℕ → BitVec 32)
    (i : ℕ) :
    bit ((markOps fuel bytes bits scts).foldl (fun t x => orAt t x.1 x.2) t) i =
      (bit t i || decide (32 * bytes + bits ≤ i ∧ i < 32 * bytes + bits + scts)) := by
  have last : ∀ (t : ℕ → BitVec 32) (bytes bits scts : ℕ), bits + scts ≤ 32 →
      bit (orAt t bytes (runMask bits scts)) i =
        (bit t i || decide (32 * bytes + bits ≤ i ∧ i < 32 * bytes + bits + scts)) := by
    intro t bytes bits scts h
    rw [bit_orAt, runMask_getLsbD _ _ _ h (Nat.mod_lt _ (by decide)), ← Bool.decide_and]
    congr 2
    exact propext ⟨fun h => by omega, fun h => by omega⟩
  induction fuel generalizing bytes bits scts t with
  | zero => simpa [markOps] using last t bytes bits scts (by omega)
  | succ n ih =>
    simp only [markOps]
    split_ifs with h
    · -- a full word up to its end, then the rest from the next word on
      rw [List.foldl_cons, ih (by omega) (by decide), bit_orAt,
        ones_shiftLeft_getLsbD _ _ (Nat.mod_lt _ (by decide)), ← Bool.decide_and, Bool.or_assoc, ← Bool.decide_or]
      congr 2
      exact propext ⟨fun h => by omega, fun h => by omega⟩
    · simpa using last t bytes bits scts (by omega)

/-- `_markDirtyInfo` sets the bits of the sectors start .. start+scts-1 and changes no other bit -/
theorem bit_markTable (t : ℕ → BitVec 32) (start scts i : ℕ) :
    bit (markTable t start scts) i = (bit t i || decide (start ≤ i ∧ i < start + scts)) := by
  unfold markTable
  rw [bit_foldl_markOps le_rfl (Nat.mod_lt _ (by decide)), Nat.div_add_mod]

/-- **`_markDirtyInfo` marks its sectors and no other.** The writes lie in the table, and no shift is undefined. -/
theorem markDirtyInfo_sectors (c : RamNvCtl) (id start scts : ℕ) (h1 : 1 ≤ scts) (h2 : start + scts ≤ 1024) :
    (∀ i, start ≤ i → i < start + scts →
      bit ((markDirtyInfo c id start scts).part id).fromChannel.dirty i = true) ∧
    (∀ i, i < start ∨ start + scts ≤ i →
      bit ((markDirtyInfo c id start scts).part id).fromChannel.dirty i = bit (c.part id).fromChannel.dirty i) ∧
    ∀ x ∈ markOps scts (start / 32) (start % 32) scts, x.1 < RAMNV_DIRTYTABLE_MAXSIZE ∧ DefinedMask x.2 := by
  have hbits : start % 32 < 32 := Nat.mod_lt _ (by decide)
  refine ⟨?_, ?_, ?_⟩
  · intro i hlo hhi
    rw [markDirtyInfo_dirty, if_pos rfl, bit_markTable, decide_eq_true ⟨hlo, hhi⟩, Bool.or_true]
  · intro i hout
    have hno : ¬ (start ≤ i ∧ i < start + scts) := by omega
    rw [markDirtyInfo_dirty, if_pos rfl, bit_markTable, decide_eq_false hno, Bool.or_false]
  · intro x hx
    have hword := (markOps_word le_rfl hbits x hx).2
    refine ⟨?_, markOps_defined le_rfl hbits h1 x hx⟩
    rw [RAMNV_DIRTYTABLE_MAXSIZE]
    omega

/-- the last 33 sectors of the table, which end on a word boundary -/
theorem markDirtyInfo_sectors_end :
    bit ((markDirtyInfo ⟨1, fun _ => emptyPart⟩ 0 991 33).part 0).fromChannel.dirty 1023 = true ∧
    bit ((markDirtyInfo ⟨1, fun _ => emptyPart⟩ 0 991 33).part 0).fromChannel.dirty 990 = false :=
  have h := markDirtyInfo_sectors ⟨1, fun _ => emptyPart⟩ 0 991 33 (by decide) (by decide)
  ⟨h.1 1023 (by decide) (by decide), h.2.1 990 (Or.inl (by decide))⟩

/-! ## Passes of the saver -/

theorem saveOne_other (wr : ℕ → Bool) (x : RamNvCtl × List (ℕ × List UInt8)) {id j : ℕ} (h : j ≠ id) :
    (saveOne wr x id).1.part j = x.1.part j := by
  unfold saveOne
  split_ifs
  · simp [cleanToDisk, getData, modPart_other _ _ h]
  · simp [getData, modPart_other _ _ h]
  · rfl

/-- what one turn leaves of its own partition -/
def savedPart (ok : Bool) (p : PartCtrl) : PartCtrl :=
  if anySet RAMNV_DIRTYTABLE_MAXSIZE p.backup.dirty then
    { p with toDisk := ⟨copy p.toDisk.diskbuf p.backup.diskbuf p.size,
                        if ok then clear RAMNV_DIRTYTABLE_MAXSIZE
                          (merge RAMNV_DIRTYTABLE_MAXSIZE p.toDisk.dirty p.backup.dirty)
                        else merge RAMNV_DIRTYTABLE_MAXSIZE p.toDisk.dirty p.backup.dirty⟩
             backup := { p.backup with dirty := clear RAMNV_DIRTYTABLE_MAXSIZE p.backup.dirty } }
  else p

theorem saveOne_self (wr : ℕ → Bool) (x : RamNvCtl × List (ℕ × List UInt8)) (id : ℕ) :
    (saveOne wr x id).1.part id = savedPart (wr id) (x.1.part id) := by
  unfold saveOne savedPart ifHasDirty
  split_ifs <;> simp_all [cleanToDisk, getData]

theorem saveLoop (wr : ℕ → Bool) (ids : List ℕ) (hn : ids.Nodup) (x : RamNvCtl × List (ℕ × List UInt8)) :
    (ids.foldl (saveOne wr) x).1.partNum = x.1.partNum ∧
    (∀ j, (ids.foldl (saveOne wr) x).1.part j = if j ∈ ids then savedPart (wr j) (x.1.part j) else x.1.part j) ∧
    ∀ j, j ∈ (ids.foldl (saveOne wr) x).2.map Prod.fst ↔
      j ∈ x.2.map Prod.fst ∨ (j ∈ ids ∧ ifHasDirty x.1 j = true) := by
  induction ids generalizing x with
  | nil => simp
  | cons id ids ih =>
    obtain ⟨hid, hn⟩ := List.nodup_cons.1 hn
    obtain ⟨h1, h2, h3⟩ := ih hn (saveOne wr x id)
    have hnum : (saveOne wr x id).1.partNum = x.1.partNum := by
      unfold saveOne; split_ifs <;> rfl
    have hcall : ∀ j, j ∈ (saveOne wr x id).2.map Prod.fst ↔
        j ∈ x.2.map Prod.fst ∨ (j = id ∧ ifHasDirty x.1 id = true) := by
      intro j
      unfold saveOne
      by_cases hd : ifHasDirty x.1 id = true <;> simp [hd]
    refine ⟨h1.trans hnum, fun j => ?_, fun j => ?_⟩
    · rw [List.foldl_cons, h2 j]
      by_cases hj : j = id
      · subst hj
        simp [hid, saveOne_self]
      · simp [hj, saveOne_other wr x hj]
    · rw [List.foldl_cons, h3 j, hcall j]
      by_cases hj : j = id
      · subst hj
        simp [hid]
      · have hdirty : ifHasDirty (saveOne wr x id).1 j = ifHasDirty x.1 j := by
          simp [ifHasDirty, saveOne_other wr x hj]
        simp [hj, hdirty]

theorem saveToDisk_partNum (wr : ℕ → Bool) (c : RamNvCtl) : (saveToDisk wr c).1.partNum = c.partNum :=
  (saveLoop wr _ List.nodup_range _).1

/-- a pass treats every partition by itself -/
theorem saveToDisk_part (wr : ℕ → Bool) (c : RamNvCtl) {j : ℕ} (h : j < c.partNum) :
    (saveToDisk wr c).1.part j = savedPart (wr j) (c.part j) := by
  have := (saveLoop wr (List.range c.partNum) List.nodup_range (c, [])).2.1 j
  simpa [saveToDisk, h] using this

/-- a pass calls `ramDisk_Write` exactly for the partitions with a bit in their backup table -/
theorem saveToDisk_calls (wr : ℕ → Bool) (c : RamNvCtl) (j : ℕ) :
    j ∈ (saveToDisk wr c).2.map Prod.fst ↔ j < c.partNum ∧ ifHasDirty c j = true := by
  have := (saveLoop wr (List.range c.partNum) List.nodup_range (c, [])).2.2 j
  simpa [saveToDisk] using this

end SprdDevice.NvItem
