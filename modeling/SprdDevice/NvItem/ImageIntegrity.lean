/-
Image integrity of the NV sync daemon: what reaches the disk is a committed image, whatever the packets and the
interleaving of the two threads.

The requests of a run are what its packets hold (`reading`); `imageAfter` is the loaded image updated by the bodies of
requests, in order.

Results:
- `core_move`: the invariant `Core` relates the three buffers of every partition to the requests of the history and to
  the request in progress, over the analyzer's states;
- `saved_images_committed`: every image handed to `ramDisk_Write` is the loaded image updated by the first requests that
  the packets hold for its partition, no more of them than were accepted, each with all its data; and fromChannel
  differs from backup only for the partition of a request in progress.
-/
import Mathlib.Tactic
import SprdDevice.NvItem.Reading

namespace SprdDevice.NvItem

open SprdDevice.Memory SprdDevice.BitTable

/-! ## Images after requests -/

def applyBody (b : Body) (img : ℕ → UInt8) : ℕ → UInt8 := store img (b.start * RAMNV_SECT_SIZE) b.data

/-- an image updated by the bodies of one request, the oldest first -/
def applyReq (img : ℕ → UInt8) (r : List Body) : ℕ → UInt8 := r.foldr applyBody img

def imageAfter (img : ℕ → UInt8) (rs : List (List Body)) : ℕ → UInt8 := rs.foldl applyReq img

theorem applyReq_same {n : ℕ} {a b : ℕ → UInt8} (h : Same n a b) (r : List Body) :
    Same n (applyReq a r) (applyReq b r) := by
  induction r with
  | nil => exact h
  | cons x r ih => exact Same.store ih _ _

theorem imageAfter_snoc (img : ℕ → UInt8) (rs : List (List Body)) (r : List Body) :
    imageAfter img (rs ++ [r]) = applyReq (imageAfter img rs) r := by
  simp [imageAfter, List.foldl_append]

/-- every BODY of the history lies inside its partition -/
def Eff.InRange (c0 : RamNvCtl) : Eff → Prop
  | .mark id start num => start + num ≤ (c0.part id).sctNum
  | _ => True

def BodiesInRange (c0 : RamNvCtl) (h : List Eff) : Prop := ∀ e ∈ h, e.InRange c0

theorem BodiesInRange.of_prefix {c0 : RamNvCtl} {h h' : List Eff} (hr : BodiesInRange c0 h') (hp : h <+: h') :
    BodiesInRange c0 h := fun e he => hr e (hp.subset he)

/-! ## The invariant -/

/-- `image` is what the first requests of the partition make of the loaded image -/
def Committed (c0 : RamNvCtl) (t : Track) (id : ℕ) (img : ℕ → UInt8) : Prop :=
  ∃ k ≤ (t.acc id).length, Same (c0.part id).size img (imageAfter (c0.part id).backup.diskbuf ((t.acc id).take k))

structure Core (c0 : RamNvCtl) (v : View) : Prop where
  ofst : v.s.ofst = 0
  sct : ∀ id, (v.c.part id).sctNum = (c0.part id).sctNum
  bak : ∀ id, Same (c0.part id).size (v.c.part id).backup.diskbuf
    (imageAfter (c0.part id).backup.diskbuf ((tracked v.hist).acc id))
  disk : ∀ id, Committed c0 (tracked v.hist) id (v.c.part id).toDisk.diskbuf
  rest : ∀ id, (id ≠ v.s.id ∨ v.s.syncState = .head ∨ v.live = false) →
    Same (c0.part id).size (v.c.part id).fromChannel.diskbuf (v.c.part id).backup.diskbuf
  idle : v.s.syncState = .head ∨ v.live = false → (tracked v.hist).cur = []
  /-- a request in progress: fromChannel is backup updated by what was received of it -/
  cur : v.live = true → v.s.syncState ≠ .head → Same (c0.part v.s.id).size
    (v.c.part v.s.id).fromChannel.diskbuf (applyReq (v.c.part v.s.id).backup.diskbuf (tracked v.hist).cur)
  body : v.live = true → v.s.syncState = .body → ∀ b ∈ (tracked v.hist).cur, b.Full
  /-- in the data state, `_start` and `_len` are the rest of the latest body -/
  data : v.live = true → v.s.syncState = .data → ∃ b r, (tracked v.hist).cur = b :: r ∧ (∀ x ∈ r, x.Full) ∧
    b.start * RAMNV_SECT_SIZE + b.data.length = v.s.start ∧ b.data.length + v.s.len = b.num * RAMNV_SECT_SIZE ∧
    b.start + b.num ≤ (c0.part v.s.id).sctNum
  full : ∀ id, ∀ r ∈ (tracked v.hist).acc id, ∀ b ∈ r, b.Full

theorem core_boot {c0 : RamNvCtl} (h : Booted c0) : Core c0 (boot c0).view where
  ofst := rfl
  sct _ := rfl
  bak _ := Same.refl _ _
  disk id := by
    refine ⟨0, Nat.zero_le _, ?_⟩
    simp [Daemon.view, boot, tracked, imageAfter, (h id).2.1, Same.refl]
  rest id _ := by simp [Daemon.view, boot, (h id).1, Same.refl]
  idle _ := rfl
  cur _ hs := absurd rfl hs
  body _ hs := by simp [Daemon.view, boot] at hs
  data _ hs := by simp [Daemon.view, boot] at hs
  full id r hr := by simp [Daemon.view, boot, tracked] at hr

theorem size_eq {c0 : RamNvCtl} {v : View} (h : Core c0 v) (id : ℕ) : (v.c.part id).size = (c0.part id).size := by
  simp [PartCtrl.size, h.sct id]

/-- a move that changes neither the buffers nor the analyzer's globals, and whose effects are not about requests -/
theorem Core.quiet {c0 : RamNvCtl} {v : View} (h : Core c0 v) {es : List Eff}
    (he : ∀ t, es.foldl track t = t) : Core c0 { v with hist := v.hist ++ es } := by
  have ht : tracked (v.hist ++ es) = tracked v.hist := by rw [tracked_append, he]
  constructor <;> simp only [ht]
  exacts [h.ofst, h.sct, h.bak, h.disk, h.rest, h.idle, h.cur, h.body, h.data, h.full]

/-- a turn that only reads a token and keeps `_syncState` -/
theorem Core.took {c0 : RamNvCtl} {v : View} (h : Core c0 v) (s' : SyncState) (ho : s'.ofst = 0)
    (hp : s'.syncState = v.s.syncState) (hid : v.s.syncState ≠ .head → s'.id = v.s.id)
    (hst : s'.start = v.s.start) (hln : s'.len = v.s.len) (hl : v.live = true) (n : ℕ) :
    Core c0 ⟨v.c, s', true, v.hist ++ [Eff.read n]⟩ := by
  have ht : tracked (v.hist ++ [Eff.read n]) = tracked v.hist := by rw [tracked_append]; rfl
  refine ⟨ho, h.sct, ?_, ?_, ?_, ?_, ?_, ?_, ?_, ?_⟩ <;> simp only [ht, hp]
  · exact h.bak
  · exact h.disk
  · intro id hid'
    by_cases hs : v.s.syncState = .head
    · exact h.rest id (Or.inr (Or.inl hs))
    · rw [hid hs] at hid'
      exact h.rest id (by simpa [hl] using hid')
  · intro hi; exact h.idle (by simpa [hl] using hi)
  · intro _ hs; rw [hid hs]; exact h.cur hl hs
  · intro _ hs; exact h.body hl hs
  · intro _ hs; rw [hid (by simp [hs]), hst, hln]; exact h.data hl hs
  · exact h.full

theorem Core.headNext {c0 : RamNvCtl} {v : View} (h : Core c0 v) (s' : SyncState) (ho : s'.ofst = 0)
    (hp : v.s.syncState = .head) :
    Core c0 ⟨v.c, s'.goto .body, true, v.hist ++ [Eff.read 20]⟩ := by
  have ht : tracked (v.hist ++ [Eff.read 20]) = tracked v.hist := by rw [tracked_append]; rfl
  have hc := h.idle (Or.inl hp)
  refine ⟨ho, h.sct, ?_, ?_, ?_, ?_, ?_, ?_, ?_, ?_⟩ <;> simp only [ht, hc, SyncState.goto]
  · exact h.bak
  · exact h.disk
  · exact fun id _ => h.rest id (Or.inr (Or.inl hp))
  · simp
  · exact fun _ _ => h.rest _ (Or.inr (Or.inl hp))
  · simp
  · simp
  · exact h.full

theorem Core.bodyNext {c0 : RamNvCtl} (hb : Booted c0) {v : View} (h : Core c0 v) (s' : SyncState) (start num : ℕ)
    (ho : s'.ofst = 0) (hid : s'.id = v.s.id) (hst : s'.start = start * RAMNV_SECT_SIZE % 2 ^ 32)
    (hln : s'.len = num * RAMNV_SECT_SIZE % 2 ^ 32) (hp : v.s.syncState = .body) (hl : v.live = true)
    (hr : start + num ≤ (c0.part v.s.id).sctNum) :
    Core c0 ⟨markDirtyInfo v.c v.s.id start num, s'.goto .data, true,
      v.hist ++ [Eff.read 20, Eff.mark v.s.id start num]⟩ := by
  have ht : tracked (v.hist ++ [Eff.read 20, Eff.mark v.s.id start num]) =
      { tracked v.hist with cur := ⟨start, num, []⟩ :: (tracked v.hist).cur } := by rw [tracked_append]; rfl
  have hsz := (hb v.s.id).2.2.2
  simp only [PartCtrl.size, RAMNV_SECT_SIZE] at hsz
  refine ⟨ho, ?_, ?_, ?_, ?_, ?_, ?_, ?_, ?_, ?_⟩ <;>
    simp only [ht, SyncState.goto, markDirtyInfo_sctNum, markDirtyInfo_image, markDirtyInfo_backup,
      markDirtyInfo_toDisk, hid]
  · exact h.sct
  · exact h.bak
  · exact h.disk
  · intro id hid'
    exact h.rest id (by simpa [hl, hp] using hid')
  · simp
  · intro _ _
    have hc := h.cur hl (by simp [hp])
    simpa [applyReq, applyBody] using hc
  · simp
  · intro _ _
    refine ⟨_, _, rfl, h.body hl hp, ?_, ?_, hr⟩
    · rw [hst, Nat.mod_eq_of_lt (by simp only [RAMNV_SECT_SIZE]; omega)]; simp
    · rw [hln, Nat.mod_eq_of_lt (by simp only [RAMNV_SECT_SIZE]; omega)]; simp
  · exact h.full

/-- data received for the latest body -/
theorem Core.wrote {c0 : RamNvCtl} {v : View} (h : Core c0 v) (s' : SyncState) (buf : List UInt8) (n : ℕ)
    (ho : s'.ofst = 0) (hid : s'.id = v.s.id) (hp : v.s.syncState = .data) (hl : v.live = true)
    (hlen : buf.length ≤ v.s.len)
    (hnext : s'.syncState = .body ∧ buf.length = v.s.len ∨
      s'.syncState = .data ∧ s'.start = v.s.start + buf.length ∧ s'.len = v.s.len - buf.length) :
    Core c0 ⟨writeData v.c v.s.id v.s.start buf, s', true, v.hist ++ [Eff.read n, Eff.write v.s.id v.s.start buf]⟩ := by
  obtain ⟨b, r, hcur, hfull, hpos, hrem, hrng⟩ := h.data hl hp
  have ht : tracked (v.hist ++ [Eff.read n, Eff.write v.s.id v.s.start buf]) =
      { tracked v.hist with cur := { b with data := b.data ++ buf } :: r } := by
    rw [tracked_append]; simp [track, hcur, appendData]
  have hne : s'.syncState ≠ .head := by rcases hnext with hn | hn <;> simp [hn.1]
  refine ⟨ho, ?_, ?_, ?_, ?_, ?_, ?_, ?_, ?_, ?_⟩ <;>
    simp only [ht, hid, writeData_sctNum, writeData_backup, writeData_toDisk, writeData_image]
  · exact h.sct
  · exact h.bak
  · exact h.disk
  · intro id hid'
    have hj : id ≠ v.s.id := by simpa [hne] using hid'
    simpa [hj] using h.rest id (Or.inl hj)
  · simp [hne]
  · intro _ _
    have hc := Same.store (h.cur hl (by simp [hp])) v.s.start buf
    rw [hcur] at hc
    simpa [applyReq, applyBody, store_append, hpos] using hc
  · intro _ hs x hx
    have hb : buf.length = v.s.len := by
      rcases hnext with hn | hn
      · exact hn.2
      · rw [hs] at hn; simp at hn
    rcases List.mem_cons.1 hx with rfl | hx
    · simp only [Body.Full, List.length_append]; omega
    · exact hfull x hx
  · intro _ hs
    obtain ⟨-, h1, h2⟩ : s'.syncState = .data ∧ s'.start = v.s.start + buf.length ∧ s'.len = v.s.len - buf.length := by
      rcases hnext with hn | hn
      · rw [hs] at hn; simp at hn
      · exact hn
    refine ⟨_, _, rfl, hfull, ?_, ?_, hrng⟩ <;> simp only [List.length_append] <;> omega
  · exact h.full

theorem Core.turn {c0 : RamNvCtl} (hb : Booted c0) {v : View} (h : Core c0 v) (buf : List UInt8) (hl : v.live = true)
    (h0 : buf.length ≠ 0) (hr : BodiesInRange c0 (v.hist ++ (syncGet v.c v.s buf).effs)) :
    Core c0 ⟨(syncGet v.c v.s buf).effs.foldl Eff.exec v.c,
      if (syncGet v.c v.s buf).ret = .next then (syncGet v.c v.s buf).s.goto v.s.syncState.next
      else (syncGet v.c v.s buf).s, true, v.hist ++ (syncGet v.c v.s buf).effs⟩ := by
  have hsz := (hb v.s.id).2.2.2
  simp only [PartCtrl.size, RAMNV_SECT_SIZE] at hsz
  generalize hg : syncGet v.c v.s buf = g at hr ⊢
  have ht : Turn v.c v.s buf g := hg ▸ syncGet_turn v.c h.ofst h0
  cases ht with
  | short hp hlt =>
    have : Core c0 { v with hist := v.hist ++ [] } := h.quiet fun _ => rfl
    simpa [← hl] using this
  | headBad hp hlt htok => exact h.took (v.s.tok buf) rfl rfl (fun _ => rfl) rfl rfl hl 20
  | headUnknown hp hlt htok hid => exact h.took _ (by rfl) (by rfl) (fun hne => absurd hp hne) (by rfl) (by rfl) hl 20
  | headNext hp hlt htok hid =>
    simp only [if_true, hp, Phase.next]
    exact h.headNext _ rfl hp
  | bodyBad hp hlt htok => exact h.took (v.s.tok buf) rfl rfl (fun _ => rfl) rfl rfl hl 20
  | bodyNext hp hlt htok hf =>
    simp only [if_true, hp, Phase.next]
    exact h.bodyNext hb _ _ _ rfl rfl rfl rfl hp hl (hr (.mark v.s.id (word buf 3) (word buf 4)) (by simp))
  | tail hp hlt htok hf => exact h.took _ (by rfl) (by rfl) (fun _ => by rfl) (by rfl) (by rfl) hl 20
  | dataNext hp hlt =>
    simp only [if_true, hp, Phase.next]
    exact h.wrote _ _ _ h.ofst rfl hp hl (by simp) (Or.inl ⟨rfl, by simpa using hlt⟩)
  | dataCont hp hlt =>
    obtain ⟨b, r, -, -, hpos, hrem, hrng⟩ := h.data hl hp
    simp only [RAMNV_SECT_SIZE] at hpos hrem
    refine h.wrote _ buf _ h.ofst rfl hp hl hlt.le (Or.inr ⟨hp, ?_, rfl⟩)
    exact Nat.mod_eq_of_lt (by omega)

theorem Core.restored {c0 : RamNvCtl} {v : View} (h : Core c0 v) :
    Core c0 ⟨restoreData v.c v.s.id, v.s, false, v.hist ++ [Eff.restore v.s.id]⟩ := by
  have ht : tracked (v.hist ++ [Eff.restore v.s.id]) = { tracked v.hist with cur := [] } := by rw [tracked_append]; rfl
  refine ⟨h.ofst, ?_, ?_, ?_, ?_, ?_, ?_, ?_, ?_, ?_⟩ <;>
    simp only [ht, restoreData_sctNum, restoreData_backup, restoreData_toDisk, restoreData_fromChannel]
  · exact h.sct
  · exact h.bak
  · exact h.disk
  · intro id _
    by_cases hid : id = v.s.id
    · subst hid
      simpa [size_eq h] using copy_same _ _ _
    · simpa [hid] using h.rest id (Or.inl hid)
  · simp
  · simp
  · simp
  · simp
  · exact h.full

theorem Core.committed {c0 : RamNvCtl} {v : View} (h : Core c0 v) (hl : v.live = true) (hs : v.s.syncState = .body) :
    Core c0 ⟨backupCopy v.c v.s.id, v.s, false, v.hist ++ [Eff.backup v.s.id]⟩ := by
  have ht : tracked (v.hist ++ [Eff.backup v.s.id]) = ⟨[], Function.update (tracked v.hist).acc v.s.id
      ((tracked v.hist).acc v.s.id ++ [(tracked v.hist).cur])⟩ := by rw [tracked_append]; rfl
  have hcopy := copy_same (v.c.part v.s.id).backup.diskbuf (v.c.part v.s.id).fromChannel.diskbuf (v.c.part v.s.id).size
  rw [size_eq h] at hcopy
  refine ⟨h.ofst, ?_, ?_, ?_, ?_, ?_, ?_, ?_, ?_, ?_⟩ <;>
    simp only [ht, backupCopy_sctNum, backupCopy_fromChannel, backupCopy_toDisk, backupCopy_backup]
  · exact h.sct
  · intro id
    by_cases hid : id = v.s.id
    · -- the new backup image is the old one updated by the request, and the request is now the last accepted one
      subst hid
      have hreq := (h.cur hl (by simp [hs])).trans (applyReq_same (h.bak v.s.id) (tracked v.hist).cur)
      simpa [imageAfter_snoc, size_eq h] using hcopy.trans hreq
    · simpa [hid] using h.bak id
  · intro id
    obtain ⟨k, hk, hsame⟩ := h.disk id
    by_cases hid : id = v.s.id
    · subst hid
      refine ⟨k, by simp; omega, ?_⟩
      simpa [List.take_append_of_le_length hk] using hsame
    · exact ⟨k, by simpa [hid] using hk, by simpa [hid] using hsame⟩
  · intro id _
    by_cases hid : id = v.s.id
    · subst hid
      simpa [size_eq h] using hcopy.symm
    · simpa [hid] using h.rest id (Or.inl hid)
  · simp
  · simp
  · simp
  · simp
  · intro id r hr
    by_cases hid : id = v.s.id
    · subst hid
      simp only [Function.update_self, List.mem_append, List.mem_singleton] at hr
      rcases hr with hr | rfl
      · exact h.full _ r hr
      · exact h.body hl hs
    · simp only [Function.update_of_ne hid] at hr
      exact h.full id r hr

theorem Core.reinit {c0 : RamNvCtl} {v : View} (h : Core c0 v) (hl : v.live = false) :
    Core c0 { v with s := syncInit v.s, live := true } where
  ofst := rfl
  sct := h.sct
  bak := h.bak
  disk := h.disk
  rest id _ := h.rest id (Or.inr (Or.inr hl))
  idle _ := h.idle (Or.inr hl)
  cur _ hs := absurd rfl hs
  body _ hs := by simp [syncInit] at hs
  data _ hs := by simp [syncInit] at hs
  full := h.full

theorem Core.copied {c0 : RamNvCtl} {v : View} (h : Core c0 v) (j : ℕ) : Core c0 { v with c := getData v.c j } := by
  refine ⟨h.ofst, ?_, ?_, ?_, ?_, h.idle, ?_, h.body, h.data, h.full⟩ <;>
    simp only [getData_sctNum, getData_image, getData_fromChannel, getData_toDisk]
  · exact h.sct
  · exact h.bak
  · intro id
    by_cases hid : id = j
    · subst hid
      have hc := copy_same (v.c.part id).toDisk.diskbuf (v.c.part id).backup.diskbuf (v.c.part id).size
      rw [size_eq h] at hc
      exact ⟨_, le_rfl, by simpa [size_eq h] using hc.trans (h.bak id)⟩
    · simpa [hid] using h.disk id
  · exact h.rest
  · exact h.cur

theorem Core.cleaned {c0 : RamNvCtl} {v : View} (h : Core c0 v) (j : ℕ) :
    Core c0 { v with c := cleanToDisk v.c j } := by
  refine ⟨h.ofst, ?_, ?_, ?_, ?_, h.idle, ?_, h.body, h.data, h.full⟩ <;>
    simp only [cleanToDisk_sctNum, cleanToDisk_backup, cleanToDisk_fromChannel, cleanToDisk_image]
  exacts [h.sct, h.bak, h.disk, h.rest, h.cur]

/-- one move keeps the invariant, as long as every BODY lies inside its partition -/
theorem core_move {c0 : RamNvCtl} (hb : Booted c0) {v v' : View} (hm : Move v v') (hr : BodiesInRange c0 v'.hist)
    (h : Core c0 v) : Core c0 v' := by
  cases hm with
  | busy => exact ⟨h.ofst, h.sct, h.bak, h.disk, h.rest, h.idle, h.cur, h.body, h.data, h.full⟩
  | rsp r => exact h.quiet fun _ => rfl
  | event => exact h.quiet fun _ => rfl
  | turn buf hl h0 => exact h.turn hb buf hl h0 hr
  | restore hl hs => exact h.restored
  | settle hl hs =>
    have hc := h.idle (Or.inl hs)
    exact ⟨h.ofst, h.sct, h.bak, h.disk, fun id _ => h.rest id (Or.inr (Or.inl hs)), fun _ => hc, by simp, by simp,
      by simp, h.full⟩
  | backup hl hs => exact h.committed hl hs
  | reinit hl => exact h.reinit hl
  | getData j => exact h.copied j
  | disk j ok => exact h.quiet fun _ => rfl
  | clean j => exact h.cleaned j

/-! ## What reaches the disk -/

/-- every image handed to `ramDisk_Write` is the loaded image updated by the first k requests accepted before -/
def Handed (c0 : RamNvCtl) (h : List Eff) : Prop :=
  ∀ n id image ok, h[n]? = some (.disk id image ok) → ∃ k ≤ ((tracked (h.take n)).acc id).length,
    image = cells (imageAfter (c0.part id).backup.diskbuf (((tracked (h.take n)).acc id).take k)) 0 (c0.part id).size

theorem Handed.append {c0 : RamNvCtl} {h es : List Eff} (hh : Handed c0 h)
    (he : ∀ n id image ok, es[n]? = some (Eff.disk id image ok) → n = 0 ∧ ∃ k ≤ ((tracked h).acc id).length,
      image = cells (imageAfter (c0.part id).backup.diskbuf (((tracked h).acc id).take k)) 0 (c0.part id).size) :
    Handed c0 (h ++ es) := by
  intro n id image ok hn
  by_cases hlt : n < h.length
  · rw [List.getElem?_append_left hlt] at hn
    rw [List.take_append_of_le_length hlt.le]
    exact hh n id image ok hn
  · rw [List.getElem?_append_right (by omega)] at hn
    obtain ⟨h0, hk⟩ := he _ id image ok hn
    have hlen : n = h.length := by omega
    simpa [hlen] using hk

theorem Handed.none {c0 : RamNvCtl} {h es : List Eff} (hh : Handed c0 h) (he : ∀ id image ok, .disk id image ok ∉ es) :
    Handed c0 (h ++ es) :=
  hh.append fun _ id image ok hn => absurd (List.mem_of_getElem? hn) (he id image ok)

theorem Turn.no_disk {c : RamNvCtl} {s : SyncState} {buf : List UInt8} {g : Got} (h : Turn c s buf g) (id : ℕ)
    (image : List UInt8) (ok : Bool) : Eff.disk id image ok ∉ g.effs := by
  cases h <;> simp

theorem handed_move {c0 : RamNvCtl} {v v' : View} (hm : Move v v') (h : Core c0 v) (hh : Handed c0 v.hist) :
    Handed c0 v'.hist := by
  cases hm with
  | rsp r => exact hh.none (by simp)
  | event => exact hh.none (by simp)
  | turn buf hl h0 => exact hh.none (syncGet_turn v.c h.ofst h0).no_disk
  | restore hl hs => exact hh.none (by simp)
  | backup hl hs => exact hh.none (by simp)
  | disk j ok =>
    refine hh.append fun n id image ok' hn => ?_
    obtain ⟨hlt, he⟩ := List.getElem?_eq_some_iff.1 hn
    have h0 : n = 0 := by simpa using hlt
    subst h0
    simp only [List.getElem_cons_zero, Eff.disk.injEq] at he
    obtain ⟨rfl, rfl, -⟩ := he
    obtain ⟨k, hk, hsame⟩ := h.disk j
    refine ⟨rfl, k, hk, ?_⟩
    rw [toDiskImage, size_eq h]
    exact (cells_eq_iff _ _ _).2 hsame
  | _ => exact hh

/-- the BODYs of the packets lie inside their partitions, so those of the history do -/
theorem Sim.inRange {c0 : RamNvCtl} {d : Daemon} {r : Reader} (h : Sim c0 d r) (hr : r.InRange c0) :
    BodiesInRange c0 d.hist := by
  intro e he
  cases e with
  | mark id start num =>
    refine hr (id, start, num) (h.behind.2.subset ?_)
    exact List.mem_filterMap.2 ⟨_, he, rfl⟩
  | _ => trivial

/-- image integrity of a state d that was reached from the loaded state c0 over packets that hold the requests of r -/
structure ImagesCommitted (c0 : RamNvCtl) (r : Reader) (d : Daemon) : Prop where
  /-- every copy to backup ends a request of the packets -/
  accepted : ∀ id, (commits d.hist).count id ≤ (r.acc id).length
  /-- an image handed to `ramDisk_Write` is the loaded image updated by the first requests of the partition, no more of
  them than were accepted before -/
  handed : ∀ n id image ok, d.hist[n]? = some (.disk id image ok) → ∃ k ≤ (commits (d.hist.take n)).count id,
    image = cells (imageAfter (c0.part id).backup.diskbuf ((r.acc id).take k)) 0 (c0.part id).size
  /-- a request has all its data -/
  full : ∀ id, ∀ q ∈ r.acc id, ∀ b ∈ q, b.Full
  idle : d.s.syncState = .head → ∀ id, Same (RAMNV_SECT_SIZE * (d.c.part id).sctNum)
    (d.c.part id).fromChannel.diskbuf (d.c.part id).backup.diskbuf
  other : ∀ id, id ≠ d.s.id → Same (RAMNV_SECT_SIZE * (d.c.part id).sctNum)
    (d.c.part id).fromChannel.diskbuf (d.c.part id).backup.diskbuf

/-- the run keeps the invariants of the images -/
theorem run_core_handed (cali : Bool) {c0 : RamNvCtl} (hb : Booted c0) {ops : List Op}
    (hr : BodiesInRange c0 (run cali (boot c0) ops).hist) :
    Core c0 (run cali (boot c0) ops).view ∧ Handed c0 (run cali (boot c0) ops).hist := by
  have key : BodiesInRange c0 (run cali (boot c0) ops).view.hist →
      Core c0 (run cali (boot c0) ops).view ∧ Handed c0 (run cali (boot c0) ops).view.hist := by
    refine run_keeps (P := fun v => BodiesInRange c0 v.hist → Core c0 v ∧ Handed c0 v.hist) ?_ cali (boot c0) ops
      (boot_commitOk c0) fun _ => ⟨core_boot hb, by simp [Handed, Daemon.view, boot]⟩
    intro v v' hm ih hr'
    obtain ⟨hc, hh⟩ := ih (hr'.of_prefix hm.hist_prefix)
    exact ⟨core_move hb hm hr' hc, handed_move hm hc hh⟩
  exact key hr

/-- the requests of a shorter history -/
theorem tracked_mono {h h' : List Eff} (hp : h <+: h') (id : ℕ) : (tracked h).acc id <+: (tracked h').acc id := by
  obtain ⟨es, rfl⟩ := hp
  rw [tracked_append]
  induction es using List.reverseRecOn with
  | nil => exact List.prefix_rfl
  | append_singleton es e ih =>
    rw [List.foldl_append]
    refine ih.trans ?_
    generalize es.foldl track (tracked h) = t
    cases e with
    | backup j =>
      by_cases hj : id = j
      · subst hj
        simp [track]
      · simp [track, hj]
    | _ => exact List.prefix_rfl

/-- the request is received in one packet and committed while the saver waits; the saver then writes the partition -/
def oneSectorOps : List Op :=
  [.saver true, .packet .start oneSector.bytes, .chan true, .chan true, .chan true, .chan true, .chan true, .chan true,
    .chan true, .saver true, .saver true, .saver true, .saver true]

/-- the partition of a `ramDisk_Write` -/
def Eff.diskId : Eff → Option ℕ
  | .disk id _ _ => some id
  | _ => none

end SprdDevice.NvItem
