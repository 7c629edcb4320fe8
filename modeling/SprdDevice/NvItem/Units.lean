/-
What a packet holds, read without running the analyzer: the units it is made of, from the position at which the analyzer
stands when the packet arrives.

A unit is a HEAD token of a partition that look knows (`getCtlId`), a BODY token with the next index, or the whole rest
of the data of a BODY. `Units look x buf y rest` says that buf begins with a sequence of whole units that lead from
position x to position y, with rest left. Conditions on packets are stated over this relation, which mentions none of
the analyzer's functions.

Results:
- `loop_rule`: the induction rule of the analyzer's loop, over the ways a turn can go;
- `loop_units`: the loop on a packet that begins with whole units goes on from the position they lead to;
- `loop_exit`: how the loop leaves a packet, in terms of its units; `loop_reads`: it reads no byte past the packet.
-/
import Mathlib.Tactic
import SprdDevice.NvItem.Request

namespace SprdDevice.NvItem

open SprdDevice.Memory SprdDevice.Word

/-! ## Units -/

/-- what of the analyzer's globals decides how it reads on: `_syncState`, `_id`, `syncReqFrame`, `_len` -/
structure Pos where
  phase : Phase
  id : ℕ
  frame : ℕ
  len : ℕ
deriving DecidableEq, Repr

def SyncState.pos (s : SyncState) : Pos := ⟨s.syncState, s.id, s.syncReqFrame, s.len⟩

inductive Unit1 (look : ℕ → ℕ) : Pos → List UInt8 → Pos → Prop where
  | head {i f n : ℕ} {t : List UInt8} (hl : t.length = 20) (ht : word t 0 = SYNC_REQ_HEAD)
      (hid : look (word t 2) ≠ noId) : Unit1 look ⟨.head, i, f, n⟩ t ⟨.body, look (word t 2), word t 1, n⟩
  | body {i f n : ℕ} {t : List UInt8} (hl : t.length = 20) (ht : word t 0 = SYNC_REQ_BODY)
      (hf : word t 1 = (f + 1) % 2 ^ 32) :
      Unit1 look ⟨.body, i, f, n⟩ t ⟨.data, i, (f + 1) % 2 ^ 32, word t 4 * RAMNV_SECT_SIZE % 2 ^ 32⟩
  | data {i f : ℕ} {d : List UInt8} : Unit1 look ⟨.data, i, f, d.length⟩ d ⟨.body, i, f, 0⟩

inductive Units (look : ℕ → ℕ) : Pos → List UInt8 → Pos → List UInt8 → Prop where
  | refl (x : Pos) (buf : List UInt8) : Units look x buf x buf
  | step {x y z : Pos} {u buf rest : List UInt8} (h : Unit1 look x u y) (h0 : u ++ buf ≠ [])
      (hr : Units look y buf z rest) : Units look x (u ++ buf) z rest

theorem units_length {look : ℕ → ℕ} {x y : Pos} {buf rest : List UInt8} (h : Units look x buf y rest) :
    rest.length ≤ buf.length := by
  induction h with
  | refl => exact le_rfl
  | step _ _ _ ih => rw [List.length_append]; omega

/-- at position y, rest begins with a whole TAIL with the next index -/
def TailAt (y : Pos) (rest : List UInt8) : Prop :=
  y.phase = .body ∧ 20 ≤ rest.length ∧ word rest 0 = SYNC_REQ_TAIL ∧ word rest 1 = (y.frame + 1) % 2 ^ 32

/-- at position y, rest begins with a whole BODY token with the next index -/
def BodyAt (y : Pos) (rest : List UInt8) : Prop :=
  y.phase = .body ∧ 20 ≤ rest.length ∧ word rest 0 = SYNC_REQ_BODY ∧ word rest 1 = (y.frame + 1) % 2 ^ 32

/-- the bytes of the packet that were read -/
def bytesRead : List Eff → ℕ
  | [] => 0
  | .read n :: es => n + bytesRead es
  | _ :: es => bytesRead es

@[simp] theorem bytesRead_append (a b : List Eff) : bytesRead (a ++ b) = bytesRead a + bytesRead b := by
  induction a with
  | nil => simp [bytesRead]
  | cons e a ih => cases e <;> simp [bytesRead, ih, Nat.add_assoc]

/-- the responses, in order -/
def responses : List Eff → List ℕ := List.filterMap fun
  | .rsp r => some r
  | _ => none

@[simp] theorem responses_append (a b : List Eff) : responses (a ++ b) = responses a ++ responses b := by
  simp [responses]

/-! ## The loop -/

/-- the induction rule of the loop -/
theorem loop_rule (e : Env) {P : RamNvCtl → SyncState → List UInt8 → Result → Prop}
    (nil : ∀ c s, s.ofst = 0 → P c s [] ⟨c, s, [], .drained⟩)
    (turn : ∀ c s buf g, s.ofst = 0 → buf ≠ [] → Turn c s buf g → g.s.ofst = 0 →
      (g.ret = .next → P (g.effs.foldl Eff.exec c) (g.s.goto s.syncState.next) g.buf
        (loop e (g.effs.foldl Eff.exec c) (g.s.goto s.syncState.next) g.buf)) →
      P c s buf (afterGet e (loop e) c s.syncState g))
    (c : RamNvCtl) (s : SyncState) (buf : List UInt8) (h : s.ofst = 0) : P c s buf (loop e c s buf) := by
  induction hn : turns s buf using Nat.strong_induction_on generalizing c s buf with
  | _ n ih =>
    by_cases hb : buf = []
    · subst hb; rw [loop_nil]; exact nil c s h
    · have h0 : buf.length ≠ 0 := by simpa using hb
      have hofst := syncGet_ofst c buf h
      rw [loop_eq, if_neg h0]
      refine turn c s buf _ h hb (syncGet_turn c h h0) hofst fun hret => ?_
      exact ih _ (hn ▸ turns_next hret) _ _ _ hofst rfl

theorem word_take {buf : List UInt8} (h : 20 ≤ buf.length) {k : ℕ} (hk : k < 5) :
    word (buf.take 20) k = word buf k := by
  have hl : (buf.take 20).length = 20 := by simp [h]
  have := word_append (buf.drop 20) hl hk
  rwa [List.take_append_drop, eq_comm] at this

/-- a turn that goes on has read a unit -/
theorem turn_unit {c : RamNvCtl} {s : SyncState} {buf : List UInt8} {g : Got} (ht : Turn c s buf g)
    (hn : g.ret = .next) : ∃ u, buf = u ++ g.buf ∧ Unit1 (getCtlId c) s.pos u (g.s.goto s.syncState.next).pos := by
  cases ht with
  | headNext hp hl htok hid =>
    refine ⟨buf.take 20, (List.take_append_drop 20 buf).symm, ?_⟩
    have hu : Unit1 (getCtlId c) ⟨.head, s.id, s.syncReqFrame, s.len⟩ (buf.take 20) _ := .head (by simp [hl])
      (by rw [word_take hl (by decide), htok]) (by rw [word_take hl (by decide)]; exact hid)
    rw [word_take hl (by decide), word_take hl (by decide)] at hu
    simpa [SyncState.pos, SyncState.goto, hp, Phase.next, SyncState.tok] using hu
  | bodyNext hp hl htok hf =>
    refine ⟨buf.take 20, (List.take_append_drop 20 buf).symm, ?_⟩
    have hu : Unit1 (getCtlId c) ⟨.body, s.id, s.syncReqFrame, s.len⟩ (buf.take 20) _ := .body (by simp [hl])
      (by rw [word_take hl (by decide), htok]) (by rw [word_take hl (by decide), hf])
    rw [word_take hl (by decide)] at hu
    simpa [SyncState.pos, SyncState.goto, hp, Phase.next, SyncState.tok] using hu
  | dataNext hp hl =>
    refine ⟨buf.take s.len, (List.take_append_drop _ buf).symm, ?_⟩
    have hu : Unit1 (getCtlId c) ⟨.data, s.id, s.syncReqFrame, _⟩ (buf.take s.len) _ := .data
    rw [List.length_take, Nat.min_eq_left hl] at hu
    simpa [SyncState.pos, SyncState.goto, hp, Phase.next] using hu
  | short => simp at hn
  | headBad => simp at hn
  | headUnknown => simp at hn
  | bodyBad => simp at hn
  | tail => simp at hn
  | dataCont => simp at hn

/-- no effect changes the partitions or their numbers -/
theorem getCtlId_exec (c : RamNvCtl) (es : List Eff) : getCtlId (es.foldl Eff.exec c) = getCtlId c := by
  induction es generalizing c with
  | nil => rfl
  | cons e es ih =>
    rw [List.foldl_cons, ih]
    have hc : (Eff.exec c e).partNum = c.partNum ∧ ∀ j, ((Eff.exec c e).part j).partId = (c.part j).partId := by
      cases e <;> simp only [Eff.exec, markDirtyInfo, writeData_eq, backupCopy, restoreData, modPart_partNum, true_and,
        implies_true] <;> exact fun j => modPart_field _ _ _ _ PartCtrl.partId fun _ => rfl
    funext partId
    simp only [getCtlId, hc.1, hc.2]

/-- the loop on a packet that begins with a unit -/
theorem loop_unit (e : Env) (c : RamNvCtl) {s : SyncState} {u buf : List UInt8} {y : Pos} (ho : s.ofst = 0)
    (h : Unit1 (getCtlId c) s.pos u y) (h0 : u ++ buf ≠ []) :
    ∃ c' s' es, loop e c s (u ++ buf) = (loop e c' s' buf).after es ∧ s'.ofst = 0 ∧ s'.pos = y ∧
      getCtlId c' = getCtlId c ∧ bytesRead es = u.length := by
  generalize hx : s.pos = x at h
  cases h with
  | head hl ht hid =>
    obtain ⟨hs, -⟩ : s.syncState = .head ∧ _ := by simpa [SyncState.pos] using hx
    refine ⟨_, _, _, loop_head e c buf ho hs hl ht hid, rfl, ?_, rfl, hl.symm⟩
    simp_all [SyncState.pos, SyncState.tok]
  | body hl ht hf =>
    obtain ⟨hs, hi, hfr, -⟩ : s.syncState = .body ∧ _ ∧ s.syncReqFrame = _ ∧ _ := by simpa [SyncState.pos] using hx
    rw [← hfr] at hf
    refine ⟨_, _, _, loop_body e c buf ho hs hl ht hf, rfl, ?_, ?_, hl.symm⟩
    · simp [SyncState.pos, SyncState.tok, hfr, hi]
    · exact getCtlId_exec c [.mark _ _ _]
  | data =>
    obtain ⟨hs, hi, hfr, hlen⟩ : s.syncState = .data ∧ _ ∧ s.syncReqFrame = _ ∧ s.len = u.length := by
      simpa [SyncState.pos] using hx
    refine ⟨_, _, _, loop_data e c buf hs hlen (by simpa using h0), ho, ?_, ?_, hlen⟩
    · simp [SyncState.pos, hfr, hi]
    · exact getCtlId_exec c [.write _ _ _]

/-- the loop on a packet that begins with whole units goes on from where they lead -/
theorem loop_units (e : Env) {look : ℕ → ℕ} (c : RamNvCtl) {s : SyncState} {x y : Pos} {buf rest : List UInt8}
    (hk : getCtlId c = look) (ho : s.ofst = 0) (hx : s.pos = x) (h : Units look x buf y rest) :
    ∃ c' s' es, loop e c s buf = (loop e c' s' rest).after es ∧ s'.ofst = 0 ∧ s'.pos = y ∧
      bytesRead es + rest.length = buf.length := by
  induction h generalizing c s with
  | refl x buf => exact ⟨c, s, [], by simp [Result.after], ho, hx, by simp [bytesRead]⟩
  | step hu h0 hr ih =>
    subst hx hk
    obtain ⟨c1, s1, es1, h1, ho1, hp1, hc1, hb1⟩ := loop_unit e c ho hu h0
    obtain ⟨c2, s2, es2, h2, ho2, hp2, hb2⟩ := ih c1 hc1 ho1 hp1
    refine ⟨c2, s2, es1 ++ es2, by rw [h1, h2]; simp [Result.after], ho2, hp2, ?_⟩
    rw [bytesRead_append, hb1, List.length_append, Nat.add_assoc, hb2]

/-! ## How the loop leaves a packet -/

theorem backupData_effs (e : Env) (c : RamNvCtl) (id : ℕ) :
    responses (backupData e c id).2 = [] ∧ bytesRead (backupData e c id).2 = 0 := by
  unfold backupData
  split_ifs
  · constructor
    · simp [responses, List.filterMap_map]
    · simp only [bytesRead]
      generalize (saveToDisk e.wr (backupCopy c id)).2 = calls
      induction calls with
      | nil => rfl
      | cons x calls ih => exact ih
  · exact ⟨rfl, rfl⟩

/-- one turn: the responses it sends and the bytes it reads -/
theorem turn_effs {c : RamNvCtl} {s : SyncState} {buf : List UInt8} {g : Got} (ht : Turn c s buf g) :
    responses g.effs = [] ∧ bytesRead g.effs + g.buf.length = buf.length := by
  cases ht <;> refine ⟨rfl, ?_⟩ <;> simp only [bytesRead, List.length_drop, List.length_nil] <;> omega

/-- how a packet is left: the responses sent, the bytes read, and the units it holds -/
def LeftBy (look : ℕ → ℕ) (x : Pos) (buf : List UInt8) (res : Result) : Prop :=
  match res.exit with
  | .drained => responses res.effs = [] ∧ bytesRead res.effs = buf.length ∧ ∃ y, Units look x buf y []
  | .data => responses res.effs = [1] ∧ bytesRead res.effs = buf.length
  | .token => responses res.effs = [1] ∧ bytesRead res.effs < buf.length ∧
      ∃ y rest, Units look x buf y rest ∧ y.phase ≠ .data ∧ rest ≠ [] ∧ rest.length < 20
  | .tail => responses res.effs = [1] ∧
      ∃ y rest, Units look x buf y rest ∧ TailAt y rest ∧ bytesRead res.effs + rest.length = buf.length + 20
  | .fail => responses res.effs = [0] ∧ bytesRead res.effs ≤ buf.length
  | _ => False

theorem LeftBy.after {look : ℕ → ℕ} {x y : Pos} {u buf : List UInt8} {res : Result} {es : List Eff}
    (h : LeftBy look y buf res) (hu : Unit1 look x u y) (h0 : u ++ buf ≠ []) (hr : responses es = [])
    (hb : bytesRead es = u.length) : LeftBy look x (u ++ buf) (res.after es) := by
  simp only [LeftBy, Result.after, responses_append, bytesRead_append, hr, hb, List.nil_append,
    List.length_append] at h ⊢
  cases hx : res.exit <;> simp only [hx] at h ⊢
  · obtain ⟨h1, h2, z, h3⟩ := h
    exact ⟨h1, by omega, z, .step hu h0 h3⟩
  · obtain ⟨h1, h2, z, rest, h3, h4⟩ := h
    exact ⟨h1, by omega, z, rest, .step hu h0 h3, h4⟩
  · exact ⟨h.1, by omega⟩
  · obtain ⟨h1, z, rest, h3, h4, h5⟩ := h
    exact ⟨h1, z, rest, .step hu h0 h3, h4, by omega⟩
  · exact ⟨h.1, by omega⟩

theorem syncReset_effs (e : Env) (ifSuc : Bool) (c : RamNvCtl) (s : SyncState) :
    responses (syncReset e ifSuc c s).2.2 = [] ∧ bytesRead (syncReset e ifSuc c s).2.2 = 0 := by
  unfold syncReset
  split_ifs
  · exact backupData_effs e c s.id
  · exact ⟨rfl, rfl⟩
  · exact ⟨rfl, rfl⟩

/-- **How the loop leaves a packet** -/
theorem loop_exit (e : Env) (c : RamNvCtl) (s : SyncState) (buf : List UInt8) (h : s.ofst = 0) :
    LeftBy (getCtlId c) s.pos buf (loop e c s buf) := by
  refine loop_rule e (P := fun c s buf res => LeftBy (getCtlId c) s.pos buf res) ?_ ?_ c s buf h
  · intro c s _
    exact ⟨rfl, rfl, _, .refl _ _⟩
  · intro c s buf g ho hb ht hofst ih
    obtain ⟨he1, he2⟩ := turn_effs ht
    unfold afterGet
    cases hret : g.ret with
    | next =>
      obtain ⟨u, hbuf, hu⟩ := turn_unit ht hret
      have hlen : bytesRead g.effs = u.length := by
        rw [hbuf, List.length_append] at he2; omega
      have := ih hret
      rw [getCtlId_exec] at this
      simp only
      rw [hbuf] at hb ⊢
      exact this.after hu hb he1 hlen
    | cont =>
      cases ht with
      | short hp hl =>
        simp only [LeftBy, if_neg hp]
        exact ⟨rfl, by simpa [bytesRead] using List.length_pos_iff.2 hb, s.pos, buf, .refl _ _, hp, hb, hl⟩
      | dataCont hp hl =>
        simp only [LeftBy, if_pos hp]
        exact ⟨rfl, by simp [bytesRead]⟩
      | _ => simp at hret
    | fail =>
      obtain ⟨hr1, hr2⟩ := syncReset_effs e false (g.effs.foldl Eff.exec c) g.s
      simp only [LeftBy, responses_append, bytesRead_append, he1, hr1, hr2]
      exact ⟨rfl, by simp only [bytesRead]; omega⟩
    | done =>
      obtain ⟨hr1, hr2⟩ := syncReset_effs e true (g.effs.foldl Eff.exec c) g.s
      simp only [LeftBy, responses_append, bytesRead_append, he1, hr1, hr2]
      cases ht with
      | tail hp hl htok hf =>
        exact ⟨rfl, s.pos, buf, .refl _ _, ⟨hp, hl, htok.symm, hf.symm⟩, by simp only [bytesRead]; omega⟩
      | _ => simp at hret

/-- no byte past the packet is read -/
theorem loop_reads (e : Env) (c : RamNvCtl) (s : SyncState) (buf : List UInt8) (h : s.ofst = 0) :
    bytesRead (loop e c s buf).effs ≤ buf.length := by
  have hl := loop_exit e c s buf h
  simp only [LeftBy] at hl
  cases hx : (loop e c s buf).exit <;> simp only [hx] at hl
  · exact hl.2.1.le
  · exact hl.2.1.le
  · exact hl.2.le
  · obtain ⟨-, y, rest, -, ⟨-, hlen, -⟩, hsum⟩ := hl
    omega
  · exact hl.2

section Iff

variable (e : Env) (c : RamNvCtl) {s : SyncState} (buf : List UInt8) (h : s.ofst = 0)

include h

theorem loop_drained_iff : (loop e c s buf).exit = .drained ↔ ∃ y, Units (getCtlId c) s.pos buf y [] := by
  constructor
  · intro hx
    have hl := loop_exit e c s buf h
    simp only [LeftBy, hx] at hl
    exact hl.2.2
  · rintro ⟨y, hu⟩
    obtain ⟨c', s', es, hloop, -⟩ := loop_units e c rfl h rfl hu
    rw [hloop, loop_nil]; rfl

theorem loop_token_iff : (loop e c s buf).exit = .token ↔
    ∃ y rest, Units (getCtlId c) s.pos buf y rest ∧ y.phase ≠ .data ∧ rest ≠ [] ∧ rest.length < 20 := by
  constructor
  · intro hx
    have hl := loop_exit e c s buf h
    simp only [LeftBy, hx] at hl
    exact hl.2.2
  · rintro ⟨y, rest, hu, hp, h0, hlt⟩
    obtain ⟨c', s', es, hloop, ho, rfl, -⟩ := loop_units e c rfl h rfl hu
    have hlen : rest.length ≠ 0 := by simpa using h0
    rw [hloop, loop_eq, if_neg hlen, syncGet_short c' ho hp hlt hlen]
    simp only [Result.after, afterGet]
    exact if_neg hp

theorem loop_tail_iff : (loop e c s buf).exit = .tail ∧ bytesRead (loop e c s buf).effs < buf.length ↔
    ∃ y rest, Units (getCtlId c) s.pos buf y rest ∧ TailAt y rest ∧ 20 < rest.length := by
  constructor
  · rintro ⟨hx, hlt⟩
    have hl := loop_exit e c s buf h
    simp only [LeftBy, hx] at hl
    obtain ⟨-, y, rest, hu, ht, hb⟩ := hl
    exact ⟨y, rest, hu, ht, by omega⟩
  · rintro ⟨y, rest, hu, ⟨hp, hlen, htype, hidx⟩, hlt⟩
    obtain ⟨c', s', es, hloop, ho, rfl, hb⟩ := loop_units e c rfl h rfl hu
    have htok : (rest.take 20).length = 20 := by simp [hlen]
    have htail := loop_tail e c' (rest.drop 20) ho hp htok (by rw [word_take hlen (by decide), htype])
      (by rw [word_take hlen (by decide)]; exact hidx)
    rw [List.take_append_drop] at htail
    rw [hloop, htail]
    refine ⟨rfl, ?_⟩
    have hr := (backupData_effs e c' s'.id).2
    simp only [Result.after, bytesRead_append, List.cons_append, bytesRead, hr]
    omega

end Iff

end SprdDevice.NvItem
