/-
The two threads of the NV sync daemon (`nvitem_server.c`, `nvitem_os.c` over the buffer and sync modules).

The channel thread runs `syncAnalyzer` on what `_getPacket` returns; the saver runs `waiteEvent` and `saveToDisk` in a
loop. Every mutex section is one step, and so is every turn of the analyzer's `while` loop, every `__ifHasDirty`, every
`ramDisk_Write` and `giveEvent`. A run is any list of operations, so any interleaving:
- `packet p buf`: `_getPacket` returns p, with the bytes buf (any groups, sub-indices, sizes and contents);
- `chan ok`, `saver ok`: the next step of that thread; ok is the result of `ramDisk_Write` when that is the step;
- `wake`: `pthread_cond_wait` returns without a signal.
`giveEvent` wakes the saver only when it is waiting. In calibration mode the channel thread runs `saveToDisk` itself.
`hist` records the effects of both threads in order.

Results:
- `step_moves`: every step is a short sequence of moves, the ten things a step can do to the buffers, the analyzer's
  globals and the history. `run_keeps`: what every move keeps holds along every run.
-/
import Mathlib.Tactic
import SprdDevice.NvItem.Sync

namespace SprdDevice.NvItem

open SprdDevice.Memory SprdDevice.BitTable

/-! ## Model -/

/-- where a thread stands in `saveToDisk`: before `__ifHasDirty` (or before it leaves the loop), before `__getData`,
before `ramDisk_Write`, before it clears the toDisk table -/
inductive SavePc where
  | test (id : ℕ)
  | copy (id : ℕ)
  | write (id : ℕ)
  | clean (id : ℕ)
deriving DecidableEq, Repr

inductive SaverPc where
  /-- before `waiteEvent` -/
  | enter
  | waiting
  | pass (p : SavePc)
deriving DecidableEq, Repr

/-- what the channel thread does after `_syncReset(SYNC_FAIL_RESET)`: parse the new group's packet, answer 0, leave -/
inductive Resume where
  | parse (buf : List UInt8)
  | reject
  | leave
deriving DecidableEq, Repr

inductive ChanPc where
  /-- in `_getPacket` -/
  | recv
  /-- at the `while` test -/
  | loop (buf : List UInt8)
  /-- in `_syncReset(SYNC_FAIL_RESET)`, before and after the restore -/
  | abort (k : Resume)
  | aborted (k : Resume)
  /-- in `backupData`: before the copy, between the copy and `giveEvent`, in `saveToDisk`, after it -/
  | commit
  | signal
  | save (p : SavePc)
  | committed
deriving DecidableEq, Repr

structure Daemon where
  c : RamNvCtl
  s : SyncState
  chan : ChanPc
  saver : SaverPc
  hist : List Eff

inductive Op where
  | packet (p : PacketState) (buf : List UInt8)
  | chan (ok : Bool)
  | saver (ok : Bool)
  | wake
deriving DecidableEq, Repr

/-- the daemon when the two threads start -/
def boot (c : RamNvCtl) : Daemon := ⟨c, ⟨.head, false, 0, fun _ => 0, 0, noId, 0, 0⟩, .recv, .enter, []⟩

/-- one step of `saveToDisk`; no position is the return from it -/
def saveStep (c : RamNvCtl) (ok : Bool) : SavePc → RamNvCtl × Option SavePc × List Eff
  | .test id =>
    if id < c.partNum then (c, some (if ifHasDirty c id then .copy id else .test (id + 1)), []) else (c, none, [])
  | .copy id => (getData c id, some (.write id), [])
  | .write id => (c, some (if ok then .clean id else .test (id + 1)), [.disk id (toDiskImage c id) ok])
  | .clean id => (cleanToDisk c id, some (.test (id + 1)), [])

/-- what the channel thread does with the return of `_getPacket` -/
def packetStep (d : Daemon) (buf : List UInt8) : PacketState → Daemon
  | .fail => { d with chan := .abort .leave }
  | .start =>
    if d.s.syncBusy then { d with chan := .abort (.parse buf) }
    else { d with s := { d.s with syncBusy := true }, chan := .loop buf }
  | .cont =>
    if ¬ d.s.syncBusy then { d with hist := d.hist ++ [Eff.rsp 0] }
    else { d with s := { d.s with syncBusy := true }, chan := .loop buf }
  | .skip => d

/-- one turn of the `while` loop, up to the next mutex section -/
def turnStep (d : Daemon) (buf : List UInt8) : Daemon :=
  if buf.length = 0 then { d with chan := .recv }
  else
    let g := syncGet d.c d.s buf
    let d' := { d with c := g.effs.foldl Eff.exec d.c, s := g.s, hist := d.hist ++ g.effs }
    match g.ret with
    | .fail => { d' with chan := .abort .reject }
    | .next => { d' with s := g.s.goto d.s.syncState.next, chan := .loop g.buf }
    | .cont => { d' with hist := d'.hist ++ [Eff.rsp 1], chan := .recv }
    | .done => { d' with chan := .commit }

def resumeStep (d : Daemon) : Resume → Daemon
  | .parse buf => { d with s := { syncInit d.s with syncBusy := true }, chan := .loop buf }
  | .reject => { d with s := syncInit d.s, hist := d.hist ++ [Eff.rsp 0], chan := .recv }
  | .leave => { d with s := syncInit d.s, chan := .recv }

def chanStep (cali : Bool) (d : Daemon) (ok : Bool) : Daemon :=
  match d.chan with
  | .recv => d
  | .loop buf => turnStep d buf
  | .abort k =>
    if d.s.syncState ≠ .head then
      { d with c := restoreData d.c d.s.id, hist := d.hist ++ [Eff.restore d.s.id], chan := .aborted k }
    else { d with chan := .aborted k }
  | .aborted k => resumeStep d k
  | .commit => { d with c := backupCopy d.c d.s.id, hist := d.hist ++ [Eff.backup d.s.id], chan := .signal }
  | .signal =>
    if cali then { d with chan := .save (.test 0) }
    else { d with hist := d.hist ++ [Eff.event], chan := .committed
                  saver := if d.saver = .waiting then .pass (.test 0) else d.saver }
  | .save p =>
    let r := saveStep d.c ok p
    { d with c := r.1, hist := d.hist ++ r.2.2
             chan := match r.2.1 with
               | some p' => .save p'
               | none => .committed }
  | .committed => { d with s := syncInit d.s, hist := d.hist ++ [Eff.rsp 1], chan := .recv }

def saverStep (d : Daemon) (ok : Bool) : Daemon :=
  match d.saver with
  | .enter => { d with saver := .waiting }
  | .waiting => d
  | .pass p =>
    let r := saveStep d.c ok p
    { d with c := r.1, hist := d.hist ++ r.2.2
             saver := match r.2.1 with
               | some p' => .pass p'
               | none => .enter }

def step (cali : Bool) (d : Daemon) : Op → Daemon
  | .packet p buf => if d.chan = .recv then packetStep d buf p else d
  | .chan ok => chanStep cali d ok
  | .saver ok => saverStep d ok
  | .wake => if d.saver = .waiting then { d with saver := .pass (.test 0) } else d

def run (cali : Bool) (d : Daemon) (ops : List Op) : Daemon := ops.foldl (step cali) d

theorem run_cons (cali : Bool) (d : Daemon) (o : Op) (ops : List Op) :
    run cali d (o :: ops) = run cali (step cali d o) ops := rfl

theorem run_snoc (cali : Bool) (d : Daemon) (ops : List Op) (o : Op) :
    run cali d (ops ++ [o]) = step cali (run cali d ops) o := by
  simp [run, List.foldl_append]

theorem run_append (cali : Bool) (d : Daemon) (a b : List Op) : run cali d (a ++ b) = run cali (run cali d a) b := by
  simp [run, List.foldl_append]

/-! ## What a step can do -/

/-- whether a request may be in progress: not between the copy or the restore and the following `_syncInit` -/
def ChanPc.live : ChanPc → Bool
  | .recv | .loop _ | .abort _ | .commit => true
  | .aborted _ | .signal | .save _ | .committed => false

/-- the part of the state that the properties of the images are about -/
structure View where
  c : RamNvCtl
  s : SyncState
  live : Bool
  hist : List Eff

def Daemon.view (d : Daemon) : View := ⟨d.c, d.s, d.chan.live, d.hist⟩

inductive Move : View → View → Prop where
  | busy (v : View) : Move v { v with s := { v.s with syncBusy := true } }
  | rsp (v : View) (r : ℕ) : Move v { v with hist := v.hist ++ [Eff.rsp r] }
  | event (v : View) : Move v { v with hist := v.hist ++ [Eff.event] }
  | turn (v : View) (buf : List UInt8) (hl : v.live = true) (hb : buf.length ≠ 0) :
      Move v ⟨(syncGet v.c v.s buf).effs.foldl Eff.exec v.c,
        if (syncGet v.c v.s buf).ret = .next then (syncGet v.c v.s buf).s.goto v.s.syncState.next
        else (syncGet v.c v.s buf).s, true, v.hist ++ (syncGet v.c v.s buf).effs⟩
  | restore (v : View) (hl : v.live = true) (hs : v.s.syncState ≠ .head) :
      Move v ⟨restoreData v.c v.s.id, v.s, false, v.hist ++ [Eff.restore v.s.id]⟩
  | settle (v : View) (hl : v.live = true) (hs : v.s.syncState = .head) : Move v { v with live := false }
  | backup (v : View) (hl : v.live = true) (hs : v.s.syncState = .body) :
      Move v ⟨backupCopy v.c v.s.id, v.s, false, v.hist ++ [Eff.backup v.s.id]⟩
  | reinit (v : View) (hl : v.live = false) : Move v { v with s := syncInit v.s, live := true }
  | getData (v : View) (id : ℕ) : Move v { v with c := getData v.c id }
  | disk (v : View) (id : ℕ) (ok : Bool) : Move v { v with hist := v.hist ++ [Eff.disk id (toDiskImage v.c id) ok] }
  | clean (v : View) (id : ℕ) : Move v { v with c := cleanToDisk v.c id }

/-- the channel thread is about to commit only after a TAIL token, which is read in the body state -/
def CommitOk (d : Daemon) : Prop := d.chan = .commit → d.s.syncState = .body

theorem syncGet_done {c : RamNvCtl} {s : SyncState} {buf : List UInt8} (h : (syncGet c s buf).ret = .done) :
    s.syncState = .body ∧ (syncGet c s buf).s.syncState = .body := by
  unfold syncGet at h ⊢
  cases hs : s.syncState with
  | head =>
    simp only [hs, syncGetHead] at h
    rcases ht : getToken s buf with ⟨ok, s', rest⟩
    cases ok <;> simp only [ht] at h
    · simp at h
    · split_ifs at h
  | body =>
    simp only [hs, syncGetBody] at h ⊢
    rcases ht : getToken s buf with ⟨ok, s', rest⟩
    cases ok <;> simp only [ht] at h ⊢
    · simp at h
    · have hp := (getToken_true ht).2.1
      split_ifs at h ⊢
      exact ⟨trivial, hp.trans hs⟩
  | data => simp only [hs, syncGetData] at h; split_ifs at h

theorem step_commitOk (cali : Bool) (d : Daemon) (o : Op) (h : CommitOk d) : CommitOk (step cali d o) := by
  unfold CommitOk at h ⊢
  cases o with
  | packet p buf =>
    simp only [step]
    split_ifs with hr
    · cases p <;> simp only [packetStep] <;> (try split_ifs) <;> simp [hr]
    · exact h
  | chan ok =>
    simp only [step, chanStep]
    cases hc : d.chan with
    | loop buf =>
      simp only [turnStep]
      split_ifs
      · simp
      · cases hr : (syncGet d.c d.s buf).ret with
        | done => exact fun _ => (syncGet_done hr).2
        | _ => simp
    | recv => simp only; exact hc ▸ h
    | aborted k => cases k <;> simp [resumeStep]
    | save p => simp only; split <;> simp
    | _ => simp only; (try split_ifs) <;> simp
  | saver ok =>
    simp only [step, saverStep]
    cases d.saver <;> exact h
  | wake => simp only [step]; split_ifs <;> exact h

open Relation (ReflTransGen)

theorem Move.steps {a b c : View} (h1 : Move a b) (h2 : Move b c) : ReflTransGen Move a c := .tail (.single h1) h2

/-- a step of `saveToDisk`, by either thread, as a move -/
theorem saveStep_moves (v : View) (ok : Bool) (p : SavePc) :
    ReflTransGen Move v ⟨(saveStep v.c ok p).1, v.s, v.live, v.hist ++ (saveStep v.c ok p).2.2⟩ := by
  cases p with
  | test id => simp only [saveStep]; split_ifs <;> simpa using ReflTransGen.refl
  | copy id => simpa [saveStep] using ReflTransGen.single (Move.getData v id)
  | write id => exact .single (Move.disk v id ok)
  | clean id => simpa [saveStep] using ReflTransGen.single (Move.clean v id)

theorem packetStep_moves {d : Daemon} (hr : d.chan = .recv) (buf : List UInt8) (p : PacketState) :
    ReflTransGen Move d.view (packetStep d buf p).view := by
  cases p with
  | fail => simp only [packetStep, Daemon.view, hr]; exact .refl
  | start =>
    simp only [packetStep]
    split_ifs
    · simp only [Daemon.view, hr]; exact .refl
    · simp only [Daemon.view, hr]; exact .single (Move.busy _)
  | cont =>
    simp only [packetStep]
    split_ifs
    · simp only [Daemon.view, hr]; exact .single (Move.busy _)
    · exact .single (Move.rsp d.view 0)
  | skip => exact .refl

theorem turnStep_moves {d : Daemon} {buf : List UInt8} (hc : d.chan = .loop buf) :
    ReflTransGen Move d.view (turnStep d buf).view := by
  have hv : d.view.live = true := by simp [Daemon.view, hc, ChanPc.live]
  simp only [turnStep]
  split_ifs with hb
  · simp only [Daemon.view, hc]; exact .refl
  · have ht := Move.turn d.view buf hv hb
    simp only [Daemon.view] at ht
    cases hr : (syncGet d.c d.s buf).ret with
    | cont => simp only [hr, reduceCtorEq, if_false] at ht; exact ht.steps (Move.rsp _ 1)
    | _ => simp only [hr, reduceCtorEq, if_false, if_true] at ht; exact .single ht

theorem resumeStep_moves {d : Daemon} {k : Resume} (hc : d.chan = .aborted k) :
    ReflTransGen Move d.view (resumeStep d k).view := by
  have hv : d.view.live = false := by simp [Daemon.view, hc, ChanPc.live]
  have hi := Move.reinit d.view hv
  cases k with
  | parse buf => exact hi.steps (Move.busy _)
  | reject => exact hi.steps (Move.rsp _ 0)
  | leave => exact .single hi

theorem chanStep_moves (cali : Bool) {d : Daemon} (ok : Bool) (h : CommitOk d) :
    ReflTransGen Move d.view (chanStep cali d ok).view := by
  simp only [chanStep]
  cases hc : d.chan with
  | recv => exact .refl
  | loop buf => exact turnStep_moves hc
  | abort k =>
    have hv : d.view.live = true := by simp [Daemon.view, hc, ChanPc.live]
    simp only
    split_ifs with hs
    · exact .single (Move.restore d.view hv hs)
    · exact .single (Move.settle d.view hv (not_not.1 hs))
  | aborted k => exact resumeStep_moves hc
  | commit =>
    have hv : d.view.live = true := by simp [Daemon.view, hc, ChanPc.live]
    exact .single (Move.backup d.view hv (h hc))
  | signal =>
    simp only
    split_ifs
    · simp only [Daemon.view, hc]; exact .refl
    all_goals simp only [Daemon.view, hc]; exact .single (Move.event _)
  | save p =>
    have hsave := saveStep_moves d.view ok p
    simp only [Daemon.view, hc, ChanPc.live] at hsave ⊢
    cases (saveStep d.c ok p).2.1 <;> exact hsave
  | committed =>
    have hv : d.view.live = false := by simp [Daemon.view, hc, ChanPc.live]
    exact (Move.reinit d.view hv).steps (Move.rsp _ 1)

/-- **What a step can do**: every step of either thread is a sequence of moves -/
theorem step_moves (cali : Bool) (d : Daemon) (o : Op) (h : CommitOk d) :
    ReflTransGen Move d.view (step cali d o).view := by
  cases o with
  | packet p buf =>
    simp only [step]
    split_ifs with hr
    · exact packetStep_moves hr buf p
    · exact .refl
  | chan ok => exact chanStep_moves cali ok h
  | saver ok =>
    simp only [step, saverStep]
    cases hs : d.saver with
    | pass p => exact saveStep_moves d.view ok p
    | _ => exact .refl
  | wake => simp only [step]; split_ifs <;> exact .refl

theorem ReflTransGen_keeps {P : View → Prop} (hP : ∀ v v', Move v v' → P v → P v') {v v' : View}
    (h : ReflTransGen Move v v') (hv : P v) : P v' := by
  induction h with
  | refl => exact hv
  | tail _ h2 ih => exact hP _ _ h2 ih

/-- **The invariant rule**: what every move keeps holds along every run of the two threads -/
theorem run_keeps {P : View → Prop} (hP : ∀ v v', Move v v' → P v → P v') (cali : Bool) (d : Daemon) (ops : List Op)
    (hd : CommitOk d) (h : P d.view) : P (run cali d ops).view := by
  induction ops generalizing d with
  | nil => exact h
  | cons o ops ih =>
    rw [run_cons]
    exact ih _ (step_commitOk cali d o hd) (ReflTransGen_keeps hP (step_moves cali d o hd) h)

theorem boot_commitOk (c : RamNvCtl) : CommitOk (boot c) := by simp [CommitOk, boot]

/-- the history only grows -/
theorem Move.hist_prefix {v v' : View} (h : Move v v') : v.hist <+: v'.hist := by
  cases h <;> simp

end SprdDevice.NvItem
