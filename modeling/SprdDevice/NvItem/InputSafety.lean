/-
Input safety of the NV sync daemon: what a reported packet and the sector numbers in it can make the server touch.

The lengths and sector numbers come from the modem. Three tests of the source are not enough: a `read` that fails counts
as 2^32 - 1 bytes, so the header of an old packet is looked at again; the size test wraps for sizes from 2^32 - 20 on;
and the range of a BODY is not tested at all. `InputOk` is the condition on a `read` and on the state before it that
none of the three matters.

Results:
- `loop_fit`: with every BODY of a packet in range, the loop marks and writes in range only, and the data that is still
  to come stays in range (the invariant `Fit`);
- `serve_safe`: one `read`; `input_safe`: whole runs; `input_unsafe`: three runs that are not safe.
-/
import Mathlib.Tactic
import SprdDevice.Lib.Run
import SprdDevice.NvItem.Packet
import SprdDevice.NvItem.Ack

namespace SprdDevice.NvItem

open SprdDevice.Memory SprdDevice.Word SprdDevice.BitTable SprdDevice.Run

/-! ## Safety -/

/-- the indices an effect uses are in range -/
def Eff.SafeIn (c : RamNvCtl) : Eff → Prop
  | .mark id start num => id < c.partNum ∧
      ∀ x ∈ markOps num (start / 32) (start % 32) num, x.1 < RAMNV_DIRTYTABLE_MAXSIZE
  | .write id start buf => id < c.partNum ∧ (buf = [] ∨ start + buf.length ≤ (c.part id).size)
  | _ => True

/-- a packet that is reported was received by this `read`, has at most 1024 bytes, and everything that is done with it
stays in range -/
structure PacketSafe (d : Server) (r : ReadRes) (effs : List Eff) : Prop where
  received : ∃ bytes, r = .got bytes ∧ 1044 ≤ bytes.length ∧
    packetBody (getPacket d.p r).2.1 (getPacket d.p r).2.2 = (bytes.drop 20).take (getPacket d.p r).2.2
  size : (getPacket d.p r).2.2 ≤ PACKETSIZE
  reads : bytesRead effs ≤ (getPacket d.p r).2.2
  range : ∀ x ∈ effs, x.SafeIn d.c

/-- one turn of the server; the operation is the result of `read` and, in calibration mode, those of `ramDisk_Write` -/
def serverStep (cali : Bool) (d : Server) (o : ReadRes × (ℕ → Bool)) : Server := (serve ⟨cali, o.2⟩ d o.1).1

def InputSafe (cali : Bool) (d : Server) (o : ReadRes × (ℕ → Bool)) : Prop :=
  (getPacket d.p o.1).1 = .start ∨ (getPacket d.p o.1).1 = .cont → PacketSafe d o.1 (serve ⟨cali, o.2⟩ d o.1).2

/-! ## The condition -/

/-- the header at the start of m has the magic number and indices that are not skipped -/
def Takes (p : PacketCtl) (m : ℕ → UInt8) : Prop := MAGICNUM = le32 m 0 ∧ headerState p m ≠ .skip

/-- the range of a BODY lies inside the dirty table and, if it has a sector, inside its partition -/
def InTable (c : RamNvCtl) (id start num : ℕ) : Prop :=
  start + max num 1 ≤ 1024 ∧ (num = 0 ∨ start + num ≤ (c.part id).sctNum)

/-- every BODY token of the packet is in range -/
def BodiesOk (c : RamNvCtl) (x : Pos) (buf : List UInt8) : Prop :=
  ∀ y rest, Units (getCtlId c) x buf y rest → BodyAt y rest → InTable c y.id (word rest 3) (word rest 4)

/-- the size field and the body of the frame in bytes -/
def frameSize (bytes : List UInt8) : ℕ := le32 (ofList bytes) 16

def frameBody (bytes : List UInt8) : List UInt8 := (bytes.drop 20).take (frameSize bytes)

/-- a failed `read` does not find an old header that would be taken; a frame that is taken has a size below 2^32 - 20,
and the BODYs in it are in range -/
structure InputOk (d : Server) (r : ReadRes) : Prop where
  read : r = .err → ¬ Takes d.p d.p.packeBuf
  size : ∀ bytes, r = .got bytes → 1044 ≤ bytes.length → Takes d.p (ofList bytes) → frameSize bytes < 2 ^ 32 - 20
  bodies : ∀ bytes, r = .got bytes → 1044 ≤ bytes.length → Takes d.p (ofList bytes) →
    (headerState d.p (ofList bytes) = .cont → d.s.syncBusy = true) →
    BodiesOk d.c (entry d.s (headerState d.p (ofList bytes))) (frameBody bytes)

/-! ## The invariant -/

/-- a request in progress is for a partition, and the data it still expects lies inside the partition -/
structure Fit (c : RamNvCtl) (s : SyncState) : Prop where
  ofst : s.ofst = 0
  size : ∀ id, (c.part id).size < 2 ^ 32
  id : s.syncState ≠ .head → s.id < c.partNum
  data : s.syncState = .data → s.len = 0 ∨ s.start + s.len ≤ (c.part s.id).size

/-- the same partitions, of the same sizes -/
def SameShape (c c' : RamNvCtl) : Prop := c'.partNum = c.partNum ∧ ∀ j, (c'.part j).sctNum = (c.part j).sctNum

theorem SameShape.refl (c : RamNvCtl) : SameShape c c := ⟨rfl, fun _ => rfl⟩

theorem SameShape.trans {a b c : RamNvCtl} (h1 : SameShape a b) (h2 : SameShape b c) : SameShape a c :=
  ⟨h2.1.trans h1.1, fun j => (h2.2 j).trans (h1.2 j)⟩

theorem SameShape.size {c c' : RamNvCtl} (h : SameShape c c') (j : ℕ) : (c'.part j).size = (c.part j).size := by
  simp only [PartCtrl.size, h.2 j]

theorem SameShape.safe {c c' : RamNvCtl} (h : SameShape c c') {e : Eff} (he : e.SafeIn c') : e.SafeIn c := by
  cases e with
  | mark id start num => exact ⟨h.1 ▸ he.1, he.2⟩
  | write id start buf => exact ⟨h.1 ▸ he.1, by rw [← h.size]; exact he.2⟩
  | _ => trivial

theorem SameShape.exec (c : RamNvCtl) (es : List Eff) : SameShape c (es.foldl Eff.exec c) := by
  induction es generalizing c with
  | nil => exact .refl c
  | cons e es ih =>
    refine SameShape.trans ?_ (ih _)
    cases e with
    | mark id start num => exact ⟨rfl, markDirtyInfo_sctNum c id start num⟩
    | write id start buf => exact ⟨by simp [Eff.exec, writeData_eq], fun j => writeData_sctNum c id start j buf⟩
    | backup id => exact ⟨rfl, backupCopy_sctNum c id⟩
    | restore id => exact ⟨rfl, restoreData_sctNum c id⟩
    | _ => exact .refl c

theorem SameShape.backupData (e : Env) (c : RamNvCtl) (id : ℕ) : SameShape c (backupData e c id).1 := by
  have hb : SameShape c (backupCopy c id) := ⟨rfl, backupCopy_sctNum c id⟩
  unfold NvItem.backupData
  split_ifs
  · refine hb.trans ⟨saveToDisk_partNum e.wr _, fun j => ?_⟩
    have hpart := (saveLoop e.wr (List.range (backupCopy c id).partNum) List.nodup_range (backupCopy c id, [])).2.1 j
    simp only [saveToDisk, hpart]
    split_ifs
    · unfold savedPart; split_ifs <;> rfl
    · rfl
  · exact hb

theorem SameShape.syncReset (e : Env) (ifSuc : Bool) (c : RamNvCtl) (s : SyncState) :
    SameShape c (syncReset e ifSuc c s).1 := by
  unfold NvItem.syncReset
  split_ifs
  · exact .backupData e c s.id
  · exact ⟨rfl, restoreData_sctNum c s.id⟩
  · exact .refl c

theorem syncReset_s (e : Env) (ifSuc : Bool) (c : RamNvCtl) (s : SyncState) :
    (syncReset e ifSuc c s).2.1 = syncInit s := by
  unfold syncReset
  split_ifs <;> rfl

theorem SameShape.bodiesOk {c c' : RamNvCtl} (h : SameShape c c') (hk : getCtlId c' = getCtlId c) {x : Pos}
    {buf : List UInt8} (hb : BodiesOk c x buf) : BodiesOk c' x buf := by
  intro y rest hu hbody
  rw [hk] at hu
  obtain ⟨h1, h2⟩ := hb y rest hu hbody
  exact ⟨h1, by rwa [h.2]⟩

theorem Fit.shape {c c' : RamNvCtl} {s : SyncState} (h : Fit c s) (hc : SameShape c c') : Fit c' s :=
  ⟨h.ofst, fun id => by rw [hc.size]; exact h.size id, fun hs => by rw [hc.1]; exact h.id hs,
    fun hs => by rw [hc.size]; exact h.data hs⟩

theorem Fit.init {c : RamNvCtl} {s : SyncState} (h : Fit c s) (s' : SyncState) : Fit c (syncInit s') :=
  ⟨rfl, h.size, fun hs => absurd rfl hs, fun hs => by simp [syncInit] at hs⟩

/-- the words a BODY in range marks are words of the table -/
theorem markOps_inTable {c : RamNvCtl} {id start num : ℕ} (h : InTable c id start num) :
    ∀ x ∈ markOps num (start / 32) (start % 32) num, x.1 < RAMNV_DIRTYTABLE_MAXSIZE := by
  intro x hx
  have hw := (markOps_word le_rfl (Nat.mod_lt _ (by decide)) x hx).2
  have hdiv := Nat.div_add_mod start 32
  have h1 := h.1
  simp only [RAMNV_DIRTYTABLE_MAXSIZE]
  omega

/-- the data of a BODY in range lies inside its partition, without wrapping -/
theorem inTable_data {c : RamNvCtl} {id start num : ℕ} (h : InTable c id start num) :
    num * RAMNV_SECT_SIZE % 2 ^ 32 = 0 ∨
      start * RAMNV_SECT_SIZE % 2 ^ 32 + num * RAMNV_SECT_SIZE % 2 ^ 32 ≤ (c.part id).size := by
  rcases h.2 with rfl | hr
  · exact Or.inl (by simp)
  · right
    have hle : start * RAMNV_SECT_SIZE + num * RAMNV_SECT_SIZE ≤ (c.part id).size := by
      calc start * RAMNV_SECT_SIZE + num * RAMNV_SECT_SIZE = (start + num) * RAMNV_SECT_SIZE := by ring
        _ ≤ (c.part id).sctNum * RAMNV_SECT_SIZE := Nat.mul_le_mul_right _ hr
        _ = (c.part id).size := Nat.mul_comm _ _
    exact (Nat.add_le_add (Nat.mod_le _ _) (Nat.mod_le _ _)).trans hle

theorem safe_read_then {c : RamNvCtl} {n : ℕ} {y : Eff} (h : y.SafeIn c) : ∀ x ∈ [Eff.read n, y], x.SafeIn c := by
  intro x hx
  simp only [List.mem_cons, List.not_mem_nil, or_false] at hx
  rcases hx with rfl | rfl
  · trivial
  · exact h

/-- one turn: its effects are in range, and the invariant holds for the next turn -/
theorem turn_fit {c : RamNvCtl} {s : SyncState} {buf : List UInt8} {g : Got} (hf : Fit c s) (ht : Turn c s buf g)
    (hb : BodiesOk c s.pos buf) :
    (∀ x ∈ g.effs, x.SafeIn c) ∧ (g.ret = .next → Fit c (g.s.goto s.syncState.next)) ∧ (g.ret = .cont → Fit c g.s) := by
  cases ht with
  | short hp hl => exact ⟨by simp, by simp, fun _ => hf⟩
  | headBad hp hl htok => exact ⟨by simp [Eff.SafeIn], by simp, by simp⟩
  | headUnknown hp hl htok hid => exact ⟨by simp [Eff.SafeIn], by simp, by simp⟩
  | headNext hp hl htok hid =>
    refine ⟨by simp [Eff.SafeIn], fun _ => ⟨rfl, hf.size, fun _ => getCtlId_lt hid, fun hs => ?_⟩, by simp⟩
    simp [SyncState.goto, hp, Phase.next] at hs
  | bodyBad hp hl htok => exact ⟨by simp [Eff.SafeIn], by simp, by simp⟩
  | bodyNext hp hl htok hfr =>
    have hid := hf.id (by simp [hp])
    have hin : InTable c s.id (word buf 3) (word buf 4) :=
      hb s.pos buf (.refl _ _) ⟨hp, hl, htok.symm, hfr.symm⟩
    exact ⟨safe_read_then ⟨hid, markOps_inTable hin⟩,
      fun _ => ⟨rfl, hf.size, fun _ => hid, fun _ => inTable_data hin⟩, by simp⟩
  | tail hp hl htok hfr => exact ⟨by simp [Eff.SafeIn], by simp, by simp⟩
  | dataNext hp hl =>
    have hid := hf.id (by simp [hp])
    refine ⟨safe_read_then ⟨hid, ?_⟩, fun _ => ⟨hf.ofst, hf.size, fun _ => hid, fun hs => ?_⟩, by simp⟩
    · refine (hf.data hp).imp (fun h0 => by simp [h0]) fun hle => ?_
      simpa [Nat.min_eq_left hl] using hle
    · simp [SyncState.goto, hp, Phase.next] at hs
  | dataCont hp hl =>
    have hid := hf.id (by simp [hp])
    have hle : s.start + s.len ≤ (c.part s.id).size := (hf.data hp).resolve_left (by omega)
    refine ⟨safe_read_then ⟨hid, Or.inr (by omega)⟩, by simp,
      fun _ => ⟨hf.ofst, hf.size, fun _ => hid, fun _ => Or.inr ?_⟩⟩
    have hmod := Nat.mod_le (s.start + buf.length) (2 ^ 32)
    simp only
    omega

theorem backupData_safe (e : Env) (c c' : RamNvCtl) (id : ℕ) : ∀ x ∈ (backupData e c id).2, x.SafeIn c' := by
  unfold backupData
  split_ifs
  · intro x hx
    simp only [List.mem_cons, List.mem_map] at hx
    rcases hx with rfl | ⟨a, -, rfl⟩ <;> trivial
  · simp [Eff.SafeIn]

theorem syncReset_safe (e : Env) (ifSuc : Bool) (c c' : RamNvCtl) (s : SyncState) :
    ∀ x ∈ (syncReset e ifSuc c s).2.2, x.SafeIn c' := by
  unfold syncReset
  split_ifs
  · exact backupData_safe e c c' s.id
  · simp [Eff.SafeIn]
  · simp

/-- the end of a request, accepted or not -/
theorem reset_fit (e : Env) (ifSuc : Bool) (r : ℕ) {c : RamNvCtl} {s : SyncState} (hf : Fit c s) (g : Got)
    (hsafe : ∀ x ∈ g.effs, x.SafeIn c) :
    (∀ x ∈ g.effs ++ (syncReset e ifSuc (g.effs.foldl Eff.exec c) g.s).2.2 ++ [Eff.rsp r], x.SafeIn c) ∧
      Fit (syncReset e ifSuc (g.effs.foldl Eff.exec c) g.s).1
        (syncReset e ifSuc (g.effs.foldl Eff.exec c) g.s).2.1 := by
  constructor
  · intro x hx
    simp only [List.append_assoc, List.mem_append, List.mem_singleton] at hx
    rcases hx with hx | hx | rfl
    · exact hsafe x hx
    · exact syncReset_safe e ifSuc _ c g.s x hx
    · trivial
  · have hsh := (SameShape.exec c g.effs).trans (SameShape.syncReset e ifSuc (g.effs.foldl Eff.exec c) g.s)
    rw [syncReset_s]
    exact (hf.init g.s).shape hsh

/-- **A packet with every BODY in range** -/
theorem loop_fit (e : Env) (c : RamNvCtl) (s : SyncState) (buf : List UInt8) (hf : Fit c s)
    (hb : BodiesOk c s.pos buf) :
    (∀ x ∈ (loop e c s buf).effs, x.SafeIn c) ∧ Fit (loop e c s buf).ctl (loop e c s buf).s := by
  refine loop_rule e (P := fun c s buf res => Fit c s → BodiesOk c s.pos buf →
    (∀ x ∈ res.effs, x.SafeIn c) ∧ Fit res.ctl res.s) ?_ ?_ c s buf hf.ofst hf hb
  · exact fun c s _ hf _ => ⟨by simp, hf⟩
  · intro c s buf g ho h0 ht hofst ih hf hb
    obtain ⟨hsafe, hnext, hcont⟩ := turn_fit hf ht hb
    have hsh := SameShape.exec c g.effs
    unfold afterGet
    cases hret : g.ret with
    | next =>
      obtain ⟨u, hbuf, hu⟩ := turn_unit ht hret
      have hb' : BodiesOk c (g.s.goto s.syncState.next).pos g.buf := fun y rest hur hbody =>
        hb y rest (hbuf ▸ Units.step hu (hbuf ▸ h0) hur) hbody
      obtain ⟨h1, h2⟩ := ih hret ((hnext hret).shape hsh) (hsh.bodiesOk (getCtlId_exec c g.effs) hb')
      refine ⟨fun x hx => ?_, h2⟩
      rcases List.mem_append.1 hx with hx | hx
      · exact hsafe x hx
      · exact hsh.safe (h1 x hx)
    | cont =>
      refine ⟨fun x hx => ?_, (hcont hret).shape hsh⟩
      rcases List.mem_append.1 hx with hx | hx
      · exact hsafe x hx
      · simp only [List.mem_singleton] at hx; subst hx; trivial
    | fail => exact reset_fit e false 0 hf g hsafe
    | done => exact reset_fit e true 1 hf g hsafe

/-! ## One read -/

section Read

variable {buf : ℕ → UInt8} {bytes : List UInt8} (hl : 1044 ≤ bytes.length)

include hl

theorem got_cell {i : ℕ} (hi : i < 1044) : store buf 0 (bytes.take 1044) i = ofList bytes i := by
  rw [store_zero_get _ _ (by simp; omega), ofList_get (by omega), List.getElem_take]

theorem got_word {k : ℕ} (hk : k ≤ 16) : le32 (store buf 0 (bytes.take 1044)) k = le32 (ofList bytes) k := by
  simp only [le32, got_cell hl (show k < 1044 by omega), got_cell hl (show k + 1 < 1044 by omega),
    got_cell hl (show k + 2 < 1044 by omega), got_cell hl (show k + 3 < 1044 by omega)]

theorem got_headerState (p : PacketCtl) :
    headerState p (store buf 0 (bytes.take 1044)) = headerState p (ofList bytes) := by
  simp only [headerState, got_word hl (show 8 ≤ 16 by decide), got_word hl (show 12 ≤ 16 by decide)]

theorem got_body {n : ℕ} (hn : n ≤ 1024) : cells (store buf 0 (bytes.take 1044)) 20 n = (bytes.drop 20).take n := by
  apply List.ext_getElem
  · simp [cells]; omega
  · intro i h1 h2
    have hi : i < n := by simpa [cells] using h1
    have hcell : store buf 0 (bytes.take 1044) (20 + i) = _ := got_cell hl (by omega)
    rw [ofList_get (by omega)] at hcell
    simpa [cells] using hcell

end Read

/-- a packet that is reported although the input is as it should be: it was received, and what it holds -/
theorem reported_input {d : Server} {r : ReadRes} (h : InputOk d r)
    (hp : (getPacket d.p r).1 = .start ∨ (getPacket d.p r).1 = .cont) :
    ∃ bytes, r = .got bytes ∧ 1044 ≤ bytes.length ∧ Takes d.p (ofList bytes) ∧
      (getPacket d.p r).1 = headerState d.p (ofList bytes) ∧ (getPacket d.p r).2.2 = frameSize bytes ∧
      frameSize bytes ≤ 1024 ∧ packetBody (getPacket d.p r).2.1 (getPacket d.p r).2.2 = frameBody bytes := by
  obtain ⟨hok, hmagic, hstate, hbuf, hsize, hfit⟩ := getPacket_reported d.p r hp
  cases r with
  | err =>
    refine absurd ⟨hmagic, ?_⟩ (h.read rfl)
    rw [show d.p.packeBuf = (channelRead d.p.packeBuf 1044 .err).2.1 from rfl, hstate]
    rcases hp with hx | hx <;> simp [hx]
  | got bytes =>
    have hl : 1044 ≤ bytes.length := by simpa [channelRead] using hok
    simp only [channelRead, got_word hl (show 0 ≤ 16 by decide), got_word hl le_rfl, got_headerState hl]
      at hmagic hstate hbuf hsize hfit
    have htakes : Takes d.p (ofList bytes) := ⟨hmagic, by rw [hstate]; rcases hp with hx | hx <;> simp [hx]⟩
    have hlt : frameSize bytes < 2 ^ 32 - 20 := h.size bytes rfl hl htakes
    have hle : frameSize bytes ≤ 1024 := by
      rw [hsize] at hfit
      change (20 + frameSize bytes) % 2 ^ 32 ≤ (bytes.take 1044).length at hfit
      rw [Nat.mod_eq_of_lt (by omega), List.length_take] at hfit
      omega
    refine ⟨bytes, rfl, hl, htakes, hstate.symm, hsize, hle, ?_⟩
    rw [packetBody, hbuf, hsize]
    exact got_body hl hle

theorem SameShape.entryCtl (c : RamNvCtl) (s : SyncState) (ps : PacketState) : SameShape c (entryCtl c s ps) := by
  refine ⟨?_, entryCtl_sctNum c s ps⟩
  unfold NvItem.entryCtl
  split_ifs <;> rfl

theorem Fit.entry {c : RamNvCtl} {s : SyncState} (h : Fit c s) (ps : PacketState) :
    Fit (entryCtl c s ps) (entryState s ps) := by
  refine Fit.shape ?_ (SameShape.entryCtl c s ps)
  unfold entryState
  split_ifs
  · obtain ⟨h1, h2, h3, h4⟩ := h.init s
    exact ⟨h1, h2, h3, h4⟩
  · exact ⟨h.ofst, h.size, h.id, h.data⟩

/-- a packet of a request whose BODYs are in range -/
theorem onPacket_fit (e : Env) {c : RamNvCtl} {s : SyncState} {ps : PacketState} {buf : List UInt8} (hf : Fit c s)
    (hps : ps = .start ∨ ps = .cont) (hb : (ps = .cont → s.syncBusy = true) → BodiesOk c (entry s ps) buf) :
    bytesRead (onPacket e c s ps buf).effs ≤ buf.length ∧ (∀ x ∈ (onPacket e c s ps buf).effs, x.SafeIn c) ∧
      Fit (onPacket e c s ps buf).ctl (onPacket e c s ps buf).s := by
  by_cases hn : ps = .cont ∧ s.syncBusy = false
  · obtain ⟨rfl, hbusy⟩ := hn
    simp only [onPacket, hbusy, Bool.false_eq_true, not_false_eq_true, if_true]
    exact ⟨Nat.zero_le _, by simp [Eff.SafeIn], hf⟩
  · have hbusy : ps = .cont → s.syncBusy = true := fun h => by simpa [h] using hn
    have hps' : ps = .start ∨ ps = .cont ∧ s.syncBusy = true := hps.imp (fun h => h) fun h => ⟨h, hbusy h⟩
    obtain ⟨es, hon, -, hread, -, hes⟩ := onPacket_loop e c buf hps'
    have hfe := hf.entry ps
    have hshape := SameShape.entryCtl c s ps
    have hbe : BodiesOk (entryCtl c s ps) (entryState s ps).pos buf := by
      rw [entryState_pos]
      exact hshape.bodiesOk (getCtlId_entryCtl c s ps) (hb hbusy)
    obtain ⟨h1, h2⟩ := loop_fit e _ _ buf hfe hbe
    rw [hon]
    refine ⟨?_, fun x hx => ?_, h2⟩
    · simpa [Result.after, hread] using loop_reads e (entryCtl c s ps) (entryState s ps) buf hfe.ofst
    · rcases List.mem_append.1 hx with hx | hx
      · rw [hes x hx]; trivial
      · exact hshape.safe (h1 x hx)

/-- **One read** -/
theorem serve_safe (cali : Bool) {d : Server} {o : ReadRes × (ℕ → Bool)} (hf : Fit d.c d.s) (h : InputOk d o.1) :
    InputSafe cali d o ∧ Fit (serverStep cali d o).c (serverStep cali d o).s := by
  by_cases hp : (getPacket d.p o.1).1 = .start ∨ (getPacket d.p o.1).1 = .cont
  · obtain ⟨bytes, hr, hl, htakes, hstate, hsize, hle, hbody⟩ := reported_input h hp
    have hb : ((getPacket d.p o.1).1 = .cont → d.s.syncBusy = true) →
        BodiesOk d.c (entry d.s (getPacket d.p o.1).1) (frameBody bytes) := by
      rw [hstate]
      exact h.bodies bytes hr hl htakes
    obtain ⟨h1, h2, h3⟩ := onPacket_fit ⟨cali, o.2⟩ hf hp hb
    have hne : (getPacket d.p o.1).1 ≠ .fail := by rcases hp with hx | hx <;> simp [hx]
    have hlen : (frameBody bytes).length ≤ (getPacket d.p o.1).2.2 := by
      rw [hsize, frameBody, List.length_take]
      exact Nat.min_le_left _ _
    simp only [serverStep, InputSafe, serve, hbody, if_neg hne]
    refine ⟨fun _ => ⟨⟨bytes, hr, hl, ?_⟩, by rw [hsize]; exact hle, h1.trans hlen, h2⟩, h3⟩
    rw [hbody, hsize]; rfl
  · refine ⟨fun hx => absurd hx hp, ?_⟩
    simp only [serverStep, serve]
    cases hx : (getPacket d.p o.1).1 with
    | start => exact absurd (Or.inl hx) hp
    | cont => exact absurd (Or.inr hx) hp
    | skip => simpa [onPacket] using hf
    | fail => exact (hf.init _).shape (SameShape.syncReset ⟨cali, o.2⟩ false d.c d.s)

/-! ## The BODYs of a packet, unit by unit -/

theorem length_ge {t l : List UInt8} (ht : t.length = 20) : 20 ≤ (t ++ l).length := by
  rw [List.length_append, ht]
  exact Nat.le_add_right 20 _

theorem bodiesOk_head {c : RamNvCtl} {x : Pos} {buf : List UInt8} (hx : x.phase = .head)
    (h : BodiesOk c ⟨.body, getCtlId c (word buf 2), word buf 1, x.len⟩ (buf.drop 20)) : BodiesOk c x buf := by
  intro y rest hu hbody
  cases hu with
  | refl => exact absurd (hx.symm.trans hbody.1) (by decide)
  | step h1 h0 hr =>
    cases h1 with
    | head hl ht hid =>
      rw [word_append _ hl (by decide), word_append _ hl (by decide), ← hl, List.drop_left] at h
      exact h y rest hr hbody
    | body => cases hx
    | data => cases hx

theorem bodiesOk_body {c : RamNvCtl} {x : Pos} {buf : List UInt8} (hx : x.phase = .body)
    (h : BodyAt x buf → InTable c x.id (word buf 3) (word buf 4) ∧
      BodiesOk c ⟨.data, x.id, (x.frame + 1) % 2 ^ 32, word buf 4 * RAMNV_SECT_SIZE % 2 ^ 32⟩ (buf.drop 20)) :
    BodiesOk c x buf := by
  intro y rest hu hbody
  cases hu with
  | refl => exact (h hbody).1
  | step h1 h0 hr =>
    cases h1 with
    | head => cases hx
    | body hl ht hf =>
      have hrest := (h ⟨rfl, length_ge hl, (word_append _ hl (by decide)).trans ht, (word_append _ hl (by decide)).trans hf⟩).2
      rw [word_append _ hl (by decide), ← hl, List.drop_left] at hrest
      exact hrest y rest hr hbody
    | data => cases hx

theorem bodiesOk_data {c : RamNvCtl} {x : Pos} {buf : List UInt8} (hx : x.phase = .data)
    (h : BodiesOk c ⟨.body, x.id, x.frame, 0⟩ (buf.drop x.len)) : BodiesOk c x buf := by
  intro y rest hu hbody
  cases hu with
  | refl => exact absurd (hx.symm.trans hbody.1) (by decide)
  | step h1 h0 hr =>
    cases h1 with
    | head => cases hx
    | body => cases hx
    | data =>
      rw [List.drop_left] at h
      exact h y rest hr hbody

/-! ## Runs -/

/-- **Input safety.** From the state in which `initBuf` and `_initPacket` leave the server, along every sequence of
results of `read` that are as `InputOk` says: every packet that is reported was received by that call, has at most 1024
bytes and is read within its body, and the server writes only inside the partitions and marks only words of the dirty
tables. -/
theorem input_safe (cali : Bool) (load : ℕ → Option (ℕ → UInt8)) (cfg : List RamNvConfig) (packeBuf : ℕ → UInt8)
    (ops : List (ReadRes × (ℕ → Bool)))
    (h : Along (serverStep cali) (fun d o => InputOk d o.1) (serverStart (initBuf load cfg) packeBuf) ops) :
    Along (serverStep cali) (InputSafe cali) (serverStart (initBuf load cfg) packeBuf) ops := by
  refine along_of_inv (fun d => Fit d.c d.s) (fun d o hf hok => serve_safe cali hf hok) ?_ h
  exact ⟨rfl, fun id => (initBuf_booted load cfg id).2.2.2, fun hs => absurd rfl hs, fun hs => by
    simp [serverStart, syncInit] at hs⟩

def oneSectorServer : Server := serverStart (initBuf (fun _ => some fun _ => 0) oneSectorCfg) fun _ => 0

/-- a frame with the size field n -/
def sizedFrame (n : ℕ) (body : List UInt8) : List UInt8 :=
  le32Bytes MAGICNUM ++ le32Bytes 0 ++ le32Bytes 0 ++ le32Bytes 0 ++ le32Bytes n ++ body ++
    List.replicate (PACKETSIZE - body.length) 0

/-- one frame with a whole request: HEAD, a BODY in range with its data, TAIL -/
def oneSectorFrame : List UInt8 := sizedFrame 572 oneSector.bytes

theorem oneSectorFrame_bodies : BodiesOk oneSectorServer.c
    (entry oneSectorServer.s (headerState oneSectorServer.p (ofList oneSectorFrame))) (frameBody oneSectorFrame) := by
  have hbody : frameBody oneSectorFrame = oneSector.bytes := by decide +kernel
  rw [hbody]
  refine bodiesOk_head (by decide +kernel) (bodiesOk_body rfl fun _ => ⟨?_, bodiesOk_data rfl (bodiesOk_body rfl ?_)⟩)
  · exact ⟨by decide +kernel, Or.inr (by decide +kernel)⟩
  · -- what follows the data is a TAIL
    exact fun htail => absurd htail.2.2.1 (by decide +kernel)

theorem input_safe_oneSector : Along (serverStep false) (InputSafe false) oneSectorServer
    [(.got oneSectorFrame, fun _ => true)] := by
  refine input_safe false _ oneSectorCfg _ _ ⟨⟨fun herr => ReadRes.noConfusion herr, ?_, ?_⟩, trivial⟩
  · intro bytes hb _ _
    obtain rfl : oneSectorFrame = bytes := ReadRes.got.inj hb
    decide +kernel
  · intro bytes hb _ _ _
    obtain rfl : oneSectorFrame = bytes := ReadRes.got.inj hb
    exact oneSectorFrame_bodies

/-- **Unsafe inputs**: a `read` that fails finds the old header again and a START is reported that was not received; a
frame with the size 2^32 - 1 is reported; a BODY that starts at sector 2000 is marked past the end of the table -/
theorem input_unsafe :
    ¬ Along (serverStep false) (InputSafe false) oneSectorServer
      [(.got (sizedFrame 0 []), fun _ => true), (.got [], fun _ => true), (.err, fun _ => true)] ∧
    ¬ Along (serverStep false) (InputSafe false) oneSectorServer [(.got (sizedFrame (2 ^ 32 - 1) []), fun _ => true)] ∧
    ¬ Along (serverStep false) (InputSafe false) oneSectorServer
      [(.got (sizedFrame 40 (oneSector.head ++ token 1 1 1 2000 1)), fun _ => true)] := by
  refine ⟨fun h => ?_, fun h => ?_, fun h => ?_⟩
  · have hstart : (getPacket (serverStep false
        (serverStep false oneSectorServer (.got (sizedFrame 0 []), fun _ => true))
        (.got [], fun _ => true)).p .err).1 = .start := by decide +kernel
    obtain ⟨bytes, hr, -⟩ := (h.2.2.1 (Or.inl hstart)).received
    simp at hr
  · have hstart : (getPacket oneSectorServer.p (.got (sizedFrame (2 ^ 32 - 1) []))).1 = .start := by decide +kernel
    have hsize := (h.1 (Or.inl hstart)).size
    revert hsize
    decide +kernel
  · have hstart : (getPacket oneSectorServer.p
        (.got (sizedFrame 40 (oneSector.head ++ token 1 1 1 2000 1)))).1 = .start := by decide +kernel
    have hrange := (h.1 (Or.inl hstart)).range (.mark 0 2000 1) (by decide +kernel)
    have hword := hrange.2 (62, runMask 16 1) (by decide +kernel)
    simp [RAMNV_DIRTYTABLE_MAXSIZE] at hword

end SprdDevice.NvItem
