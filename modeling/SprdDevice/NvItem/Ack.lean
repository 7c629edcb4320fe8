/-
Acknowledgements of the NV sync daemon: which packets get exactly one response, and for which the response says what
became of the packet.

A response is sent where a turn of the loop leaves it. The `while` condition leaves it too, when a token or the data of
a BODY ends exactly with the packet, and sends nothing. Where the packet ends inside a token, the bytes of the token are
not read and the response is 1; the bytes after a TAIL are not read either.

Results: `ack_discipline` (exactly which packets get one response, and a response that is 1 exactly when the packet was
read to its end without a failure) and `ack_missing`.
-/
import Mathlib.Tactic
import SprdDevice.NvItem.Units

namespace SprdDevice.NvItem

open SprdDevice.Memory SprdDevice.Word

/-! ## Packets and their ends -/

/-- the states of the analyzer: after `_syncInit` and any packets, whatever the buffers are -/
inductive Reached : SyncState → Prop where
  | init (s : SyncState) : Reached (syncInit s)
  | packet (e : Env) (c : RamNvCtl) {s : SyncState} (ps : PacketState) (buf : List UInt8) (h : Reached s) :
      Reached (onPacket e c s ps buf).s

theorem Reached.ofst {s : SyncState} (h : Reached s) : s.ofst = 0 := by
  induction h with
  | init s => rfl
  | packet e c ps buf h ih => exact onPacket_ofst e c _ ps buf ih

/-- the position from which the packet is read: a START while a request is in progress drops the request -/
def entry (s : SyncState) (ps : PacketState) : Pos :=
  if ps = .start ∧ s.syncBusy = true then ⟨.head, noId, 0, 0⟩ else s.pos

/-- the packet ends with a whole unit (or is empty) -/
def EndsWhole (look : ℕ → ℕ) (x : Pos) (buf : List UInt8) : Prop := ∃ y, Units look x buf y []

/-- the packet ends inside a token -/
def EndsInside (look : ℕ → ℕ) (x : Pos) (buf : List UInt8) : Prop :=
  ∃ y rest, Units look x buf y rest ∧ y.phase ≠ .data ∧ rest ≠ [] ∧ rest.length < 20

/-- the packet goes on after a TAIL -/
def PastTail (look : ℕ → ℕ) (x : Pos) (buf : List UInt8) : Prop :=
  ∃ y rest, Units look x buf y rest ∧ TailAt y rest ∧ 20 < rest.length

def OneResponse (res : Result) : Prop := ∃ r, responses res.effs = [r]

/-- one response, and it is 1 exactly when the n bytes of the packet were read without a protocol failure -/
def AckOk (res : Result) (n : ℕ) : Prop :=
  ∃ r, responses res.effs = [r] ∧ (r = 1 ↔ res.exit ≠ .fail ∧ res.exit ≠ .noHead ∧ bytesRead res.effs = n)

/-! ## A packet as a run of the loop -/

/-- the buffers and the globals with which the loop starts on the packet -/
def entryCtl (c : RamNvCtl) (s : SyncState) (ps : PacketState) : RamNvCtl :=
  if (ps = .start ∧ s.syncBusy = true) ∧ s.syncState ≠ .head then restoreData c s.id else c

def entryState (s : SyncState) (ps : PacketState) : SyncState :=
  { (if ps = .start ∧ s.syncBusy = true then syncInit s else s) with syncBusy := true }

theorem entryState_ofst {s : SyncState} (ps : PacketState) (h : s.ofst = 0) : (entryState s ps).ofst = 0 := by
  simp only [entryState]
  split_ifs
  · rfl
  · exact h

theorem entryState_pos (s : SyncState) (ps : PacketState) : (entryState s ps).pos = entry s ps := by
  simp only [entryState, entry]
  split_ifs <;> rfl

theorem getCtlId_entryCtl (c : RamNvCtl) (s : SyncState) (ps : PacketState) :
    getCtlId (entryCtl c s ps) = getCtlId c := by
  unfold entryCtl
  split_ifs
  · exact getCtlId_exec c [.restore s.id]
  · rfl

theorem entryCtl_sctNum (c : RamNvCtl) (s : SyncState) (ps : PacketState) (j : ℕ) :
    ((entryCtl c s ps).part j).sctNum = (c.part j).sctNum := by
  unfold entryCtl
  split_ifs
  · exact restoreData_sctNum c s.id j
  · rfl

/-- a packet of a request: what is left of the request before is dropped on a START, and the loop runs -/
theorem onPacket_loop (e : Env) (c : RamNvCtl) {s : SyncState} {ps : PacketState} (buf : List UInt8)
    (hps : ps = .start ∨ ps = .cont ∧ s.syncBusy = true) :
    ∃ es, onPacket e c s ps buf = (loop e (entryCtl c s ps) (entryState s ps) buf).after es ∧
      responses es = [] ∧ bytesRead es = 0 ∧ commits es = [] ∧ ∀ x ∈ es, x = .restore s.id := by
  rcases hps with rfl | ⟨rfl, hb⟩
  · by_cases hb : s.syncBusy = true
    · by_cases hs : s.syncState = .head
      · exact ⟨[], by simp [onPacket, hb, hs, syncReset, entryCtl, entryState], rfl, rfl, rfl, by simp⟩
      · exact ⟨[.restore s.id], by simp [onPacket, hb, hs, syncReset, entryCtl, entryState], rfl, rfl, rfl, by simp⟩
    · exact ⟨[], by simp [onPacket, hb, Result.after, entryCtl, entryState], rfl, rfl, rfl, by simp⟩
  · exact ⟨[], by simp [onPacket, hb, Result.after, entryCtl, entryState], rfl, rfl, rfl, by simp⟩

/-- the responses of the loop by the way it leaves the packet -/
theorem loop_ack (e : Env) (c : RamNvCtl) {s : SyncState} (buf : List UInt8) (h : s.ofst = 0) {es : List Eff}
    (hr : responses es = []) (hb : bytesRead es = 0) :
    (OneResponse ((loop e c s buf).after es) ↔ (loop e c s buf).exit ≠ .drained) ∧
    (AckOk ((loop e c s buf).after es) buf.length ↔ (loop e c s buf).exit ≠ .drained ∧
      (loop e c s buf).exit ≠ .token ∧
      ¬ ((loop e c s buf).exit = .tail ∧ bytesRead (loop e c s buf).effs < buf.length)) := by
  have hx := loop_exit e c s buf h
  simp only [LeftBy, OneResponse, AckOk, Result.after, responses_append, bytesRead_append, hr, hb, List.nil_append,
    Nat.zero_add] at hx ⊢
  generalize loop e c s buf = res at hx ⊢
  cases hex : res.exit <;> simp only [hex] at hx ⊢
  · simp [hx.1]
  · simp [hx.1, hx.2.1.ne]
  · simp [hx.1, hx.2]
  · obtain ⟨h1, y, rest, -, ⟨-, hl, -⟩, hsum⟩ := hx
    simp [h1]
    omega
  · simp [hx.1]

/-! ## The discipline -/

/-- **Acknowledgements.** For every state of the analyzer and every packet for which `_getPacket` returns START or
CONTINUE: exactly one response is sent if and only if the packet is a CONTINUE while no request is in progress, or does
not end with a whole unit; and the one response is 1 exactly when the whole packet was read without a failure if and
only if, further, the packet neither ends inside a token nor goes on after a TAIL. -/
theorem ack_discipline (e : Env) (c : RamNvCtl) (s : SyncState) (ps : PacketState) (buf : List UInt8)
    (hs : Reached s) (hps : ps = .start ∨ ps = .cont) :
    (OneResponse (onPacket e c s ps buf) ↔
      (ps = .cont ∧ s.syncBusy = false) ∨ ¬ EndsWhole (getCtlId c) (entry s ps) buf) ∧
    (AckOk (onPacket e c s ps buf) buf.length ↔
      (ps = .cont ∧ s.syncBusy = false) ∨
      (¬ EndsWhole (getCtlId c) (entry s ps) buf ∧ ¬ EndsInside (getCtlId c) (entry s ps) buf ∧
        ¬ PastTail (getCtlId c) (entry s ps) buf)) := by
  by_cases hn : ps = .cont ∧ s.syncBusy = false
  · -- no request is in progress: the packet is skipped with response 0
    obtain ⟨rfl, hb⟩ := hn
    simp [onPacket, hb, OneResponse, AckOk, responses]
  · have hps' : ps = .start ∨ ps = .cont ∧ s.syncBusy = true := by
      rcases hps with h | h
      · exact Or.inl h
      · exact Or.inr ⟨h, by simpa [h] using hn⟩
    obtain ⟨es, hon, hr, hb, -⟩ := onPacket_loop e c buf hps'
    have ho := entryState_ofst ps hs.ofst
    obtain ⟨h1, h2⟩ := loop_ack e (entryCtl c s ps) buf ho hr hb
    simp only [hn, false_or, EndsWhole, EndsInside, PastTail, ← entryState_pos, ← getCtlId_entryCtl c s ps]
    rw [hon, h1, h2, ne_eq, ne_eq, loop_drained_iff e _ buf ho, loop_token_iff e _ buf ho, loop_tail_iff e _ buf ho]
    exact ⟨Iff.rfl, Iff.rfl⟩

/-- the analyzer before the first packet -/
def idle : SyncState := syncInit ⟨.head, false, 0, fun _ => 0, 0, noId, 0, 0⟩

/-- the normal mode -/
def normal : Env := ⟨false, fun _ => true⟩

/-- the packet is a HEAD token and ten bytes of the next token: one response, for a packet that was not read to its
end -/
theorem ack_discipline_head :
    let c := initBuf (fun _ => some fun _ => 0) oneSectorCfg
    let buf := oneSector.bytes.take 30
    OneResponse (onPacket normal c idle .start buf) ∧ ¬ EndsWhole (getCtlId c) (entry idle .start) buf := by
  intro c buf
  have h1 : OneResponse (onPacket normal c idle .start buf) := ⟨1, by decide +kernel⟩
  have h2 := ((ack_discipline normal c idle .start buf (.init _) (Or.inl rfl)).1.1 h1).resolve_left (by simp)
  exact ⟨h1, h2⟩

/-- **Missing and wrong acknowledgements**: a packet that is exactly a HEAD token gets no response, and a packet of ten
bytes of one gets response 1 although none of it was read -/
theorem ack_missing :
    let c := initBuf (fun _ => some fun _ => 0) oneSectorCfg
    ¬ OneResponse (onPacket normal c idle .start (oneSector.bytes.take 20)) ∧
      ¬ AckOk (onPacket normal c idle .start (oneSector.bytes.take 10)) 10 := by
  refine ⟨?_, ?_⟩
  · rintro ⟨r, hr⟩
    have hnone : responses (onPacket normal (initBuf (fun _ => some fun _ => 0) oneSectorCfg) idle .start
        (oneSector.bytes.take 20)).effs = [] := by decide +kernel
    rw [hnone] at hr
    simp at hr
  · rintro ⟨r, hr, hiff⟩
    have hone : responses (onPacket normal (initBuf (fun _ => some fun _ => 0) oneSectorCfg) idle .start
        (oneSector.bytes.take 10)).effs = [1] := by decide +kernel
    rw [hone] at hr
    have hread := (hiff.1 (by simpa using hr.symm)).2.2
    revert hread
    decide +kernel

end SprdDevice.NvItem
