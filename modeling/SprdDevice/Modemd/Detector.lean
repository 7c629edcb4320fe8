/-
The two detector threads of one modem in modemd (`modemd_sipc.c`): `detect_modem_blocked`, which reads the Blocked
messages of the phone server, `detect_sipc_modem`, which reads the Assert, watchdog and Reset events of the modem, and
`load_sipc_modem_img`, which either calls.

- A step is a locked section, a notification of the socket clients, a read of a property, or one step of
  `load_sipc_modem_img`, of either thread.
- The reset property and the partition path are read anew each time (`Env`); a path that cannot be read ends the load.
- `log` has what the socket clients were sent, and where a load came back.

`detect_modem_blocked` takes the modem only while its state is MODEM_READY; `detect_sipc_modem` overwrites the state and
loads, whatever the other thread is doing.

Results: `exclusive` for runs in which no event of the modem meets a Blocked message at work; `reset_in_load` for a Reset that does.
-/
import Mathlib.Tactic
import SprdDevice.Lib.Run

namespace SprdDevice.Modemd

open SprdDevice.Run

/-! ## Model -/

/-- `MODEM_READY`, `MODEM_ASSERT`, `MODEM_RESET` -/
inductive ModemState where
  | ready
  | assert
  | reset
deriving DecidableEq, Repr

/-- a text sent to the socket clients, and the return of a load -/
inductive Record where
  | blocked
  | assert
  | hang
  | alive
  | loaded
deriving DecidableEq, Repr

/-- the steps of `load_sipc_modem_img` -/
inductive LoadStep where
  | partitionPath
  | stop
  | loadModem
  | loadDsp
  | stopService
  | start
  | alive
  | startService
  | ready
deriving DecidableEq, Repr

/-- where a detector thread is -/
inductive Pc where
  /-- before it reads -/
  | idle
  /-- the connection is lost and the modem is not ready -/
  | waiting
  /-- before it sends the text to the clients -/
  | informing (r : Record)
  /-- before it reads the reset property -/
  | property
  /-- before it calls `load_sipc_modem_img` for a Reset -/
  | resetting
  | loading (l : LoadStep)
deriving DecidableEq, Repr

structure Detector where
  pc : Pc
  isAssert : Bool
deriving DecidableEq, Repr

inductive Who where
  | blocked
  | sipc
deriving DecidableEq, Repr

def Who.other : Who → Who
  | .blocked => .sipc
  | .sipc => .blocked

structure Modem where
  /-- `td_modem_state` or `w_modem_state` -/
  state : ModemState
  blocked : Detector
  sipc : Detector
  log : List Record
deriving DecidableEq, Repr

def init : Modem where
  state := .ready
  blocked := ⟨.idle, false⟩
  sipc := ⟨.idle, false⟩
  log := []

namespace Modem

def detector (s : Modem) : Who → Detector
  | .blocked => s.blocked
  | .sipc => s.sipc

def set (s : Modem) (who : Who) (d : Detector) : Modem :=
  match who with
  | .blocked => { s with blocked := d }
  | .sipc => { s with sipc := d }

def goto (s : Modem) (who : Who) (p : Pc) : Modem := s.set who { s.detector who with pc := p }

/-- `loop_info_sockclients` -/
def inform (s : Modem) (r : Record) : Modem := { s with log := s.log ++ [r] }

/-- `load_sipc_modem_img` has come back: `is_assert = 0` -/
def returned (s : Modem) (who : Who) : Modem := (s.inform .loaded).set who ⟨.idle, false⟩

end Modem

/-- what a thread reads: the reset property, and whether the partition path is there -/
structure Env where
  isReset : ℤ
  path : Bool
deriving DecidableEq, Repr

def loadStep (s : Modem) (who : Who) (path : Bool) : LoadStep → Modem
  | .partitionPath => if path then s.goto who (.loading .stop) else s.returned who
  | .stop => s.goto who (.loading .loadModem)
  | .loadModem => s.goto who (.loading .loadDsp)
  | .loadDsp => s.goto who (.loading .stopService)
  | .stopService => s.goto who (.loading .start)
  | .start => s.goto who (.loading .alive)
  | .alive => (if (s.detector who).isAssert then s.inform .alive else s).goto who (.loading .startService)
  | .startService => s.goto who (.loading .ready)
  | .ready => { s with state := .ready }.returned who

/-- the next step of a thread that has read something -/
def runStep (s : Modem) (who : Who) (env : Env) : Modem :=
  match (s.detector who).pc with
  | .idle => s
  | .waiting => s.goto who .idle
  | .informing r => (s.inform r).goto who .property
  | .property => if env.isReset ≠ 0 then s.goto who (.loading .partitionPath) else s.goto who .idle
  | .resetting => s.goto who (.loading .partitionPath)
  | .loading l => loadStep s who env.path l

/-- what `detect_sipc_modem` reads -/
inductive SipcEvent where
  | reset
  | assert
  | wdtirq
  | other
deriving DecidableEq, Repr

/-- the locked section of `detect_modem_blocked` -/
def readBlocked (s : Modem) : Modem :=
  if s.state ≠ .ready then s else { s with state := .assert, blocked := ⟨.informing .blocked, true⟩ }

/-- the locked sections of `detect_sipc_modem` -/
def readSipc (s : Modem) : SipcEvent → Modem
  | .reset => { s with state := .reset, sipc := { s.sipc with pc := .resetting } }
  | .assert => { s with state := .assert, sipc := ⟨.informing .assert, true⟩ }
  | .wdtirq => { s with state := .assert, sipc := ⟨.informing .hang, true⟩ }
  | .other => s

inductive Act where
  | blockedMessage
  /-- `read` of the socket gives nothing -/
  | blockedLost
  | sipcEvent (e : SipcEvent)
  | run (who : Who) (env : Env)
deriving DecidableEq, Repr

def step (s : Modem) : Act → Modem
  | .blockedMessage => if s.blocked.pc = .idle then readBlocked s else s
  | .blockedLost => if s.blocked.pc = .idle ∧ s.state ≠ .ready then s.goto .blocked .waiting else s
  | .sipcEvent e => if s.sipc.pc = .idle then readSipc s e else s
  | .run who env => runStep s who env

/-! ## Exclusive reload -/

def Pc.Loads : Pc → Prop
  | .loading _ => True
  | .idle | .waiting | .informing _ | .property | .resetting => False

instance decidableLoads : (p : Pc) → Decidable p.Loads
  | .loading _ => inferInstanceAs (Decidable True)
  | .idle | .waiting | .informing _ | .property | .resetting => inferInstanceAs (Decidable False)

/-- thread who is inside `load_sipc_modem_img` -/
def Modem.Loads (s : Modem) (who : Who) : Prop := (s.detector who).pc.Loads

instance (s : Modem) (who : Who) : Decidable (s.Loads who) := decidableLoads _

/-- one load at a time, and the state is MODEM_READY only while there is none -/
structure Exclusive (s : Modem) : Prop where
  one : ¬ (s.Loads .blocked ∧ s.Loads .sipc)
  ready : s.state = .ready → ∀ who, ¬ s.Loads who

/-- the step calls `load_sipc_modem_img` -/
def Calls (s : Modem) (who : Who) (env : Env) : Prop :=
  (s.detector who).pc = .resetting ∨ (s.detector who).pc = .property ∧ env.isReset ≠ 0

/-- `load_sipc_modem_img` is called while the other thread is not inside it and the state is not MODEM_READY -/
def Guarded (s : Modem) : Act → Prop
  | .run who env => Calls s who env → ¬ s.Loads who.other ∧ s.state ≠ .ready
  | .blockedMessage | .blockedLost | .sipcEvent _ => True

section Step

variable (s : Modem) (who : Who)

@[simp] theorem set_state (d : Detector) : (s.set who d).state = s.state := by
  cases who <;> rfl

@[simp] theorem detector_set_self (d : Detector) : (s.set who d).detector who = d := by
  cases who <;> rfl

@[simp] theorem detector_set_other (d : Detector) : (s.set who d).detector who.other = s.detector who.other := by
  cases who <;> rfl

@[simp] theorem set_log (d : Detector) : (s.set who d).log = s.log := by
  cases who <;> rfl

@[simp] theorem detector_inform (r : Record) : (s.inform r).detector who = s.detector who := by
  cases who <;> rfl

@[simp] theorem inform_state (r : Record) : (s.inform r).state = s.state := rfl

/-- the two threads, seen from one of them -/
theorem exclusive_at : Exclusive s ↔ ¬ (s.Loads who ∧ s.Loads who.other) ∧
    (s.state = .ready → ¬ s.Loads who ∧ ¬ s.Loads who.other) := by
  constructor
  · intro h
    refine ⟨?_, fun hready => ⟨h.ready hready who, h.ready hready who.other⟩⟩
    cases who with
    | blocked => exact h.one
    | sipc => exact fun hboth => h.one hboth.symm
  · rintro ⟨hone, hready⟩
    cases who with
    | blocked =>
      refine ⟨hone, fun hr who => ?_⟩
      cases who with
      | blocked => exact (hready hr).1
      | sipc => exact (hready hr).2
    | sipc =>
      refine ⟨fun hboth => hone hboth.symm, fun hr who => ?_⟩
      cases who with
      | blocked => exact (hready hr).2
      | sipc => exact (hready hr).1

end Step

section Keep

variable {s s' : Modem} {who : Who}

/-- a step that neither calls `load_sipc_modem_img` nor makes the modem ready -/
theorem Exclusive.keep (h : Exclusive s) (who : Who) (hother : s'.detector who.other = s.detector who.other)
    (hself : s'.Loads who → s.Loads who) (hstate : s'.state = .ready → s.state = .ready) : Exclusive s' := by
  have hloads : s'.Loads who.other ↔ s.Loads who.other := by rw [Modem.Loads, Modem.Loads, hother]
  rw [exclusive_at s who] at h
  rw [exclusive_at s' who, hloads]
  refine ⟨fun hboth => h.1 ⟨hself hboth.1, hboth.2⟩, fun hready => ?_⟩
  obtain ⟨h1, h2⟩ := h.2 (hstate hready)
  exact ⟨fun hl => h1 (hself hl), h2⟩

/-- a thread in a load makes the modem ready and leaves the load -/
theorem Exclusive.finish (h : Exclusive s) (who : Who) (hother : s'.detector who.other = s.detector who.other)
    (hloads : s.Loads who) (hself : ¬ s'.Loads who) : Exclusive s' := by
  have heq : s'.Loads who.other ↔ s.Loads who.other := by rw [Modem.Loads, Modem.Loads, hother]
  rw [exclusive_at s who] at h
  rw [exclusive_at s' who, heq]
  exact ⟨fun hboth => hself hboth.1, fun _ => ⟨hself, fun ho => h.1 ⟨hloads, ho⟩⟩⟩

/-- a call of `load_sipc_modem_img` -/
theorem exclusive_call (who : Who) (hother : s'.detector who.other = s.detector who.other) (hself : s'.Loads who)
    (hstate : s'.state = s.state) : Exclusive s' ↔ ¬ s.Loads who.other ∧ s.state ≠ .ready := by
  have heq : s'.Loads who.other ↔ s.Loads who.other := by rw [Modem.Loads, Modem.Loads, hother]
  rw [exclusive_at s' who, heq, hstate]
  constructor
  · rintro ⟨hone, hready⟩
    exact ⟨fun ho => hone ⟨hself, ho⟩, fun hr => (hready hr).1 hself⟩
  · rintro ⟨ho, hne⟩
    exact ⟨fun hboth => ho hboth.2, fun hr => absurd hr hne⟩

theorem loadStep_exclusive (h : Exclusive s) {l : LoadStep} (hl : (s.detector who).pc = .loading l) (path : Bool) :
    Exclusive (loadStep s who path l) := by
  have hloads : s.Loads who := by
    rw [Modem.Loads, hl]
    trivial
  have hgoto : ∀ l', Exclusive (s.goto who (.loading l')) := fun l' =>
    h.keep who (by simp [Modem.goto]) (fun _ => hloads) (by simp [Modem.goto])
  have hleft : ∀ t : Modem, ¬ (t.returned who).Loads who := by
    intro t
    simp [Modem.returned, Modem.Loads, Pc.Loads]
  cases l with
  | partitionPath =>
    simp only [loadStep]
    split_ifs with hp
    · exact hgoto .stop
    · refine h.keep who ?_ (fun hl => absurd hl (hleft s)) ?_
      · simp [Modem.returned]
      · simp [Modem.returned]
  | stop => exact hgoto .loadModem
  | loadModem => exact hgoto .loadDsp
  | loadDsp => exact hgoto .stopService
  | stopService => exact hgoto .start
  | start => exact hgoto .alive
  | alive =>
    simp only [loadStep]
    split_ifs with ha
    · refine h.keep who ?_ (fun _ => hloads) ?_
      · simp [Modem.goto]
      · simp [Modem.goto]
    · exact hgoto .startService
  | startService => exact hgoto .ready
  | ready =>
    refine h.finish who ?_ hloads (hleft _)
    rw [loadStep, Modem.returned, detector_set_other, detector_inform]
    cases who <;> rfl

theorem runStep_exclusive (h : Exclusive s) (env : Env) :
    (Calls s who env → ¬ s.Loads who.other ∧ s.state ≠ .ready) ↔ Exclusive (runStep s who env) := by
  unfold runStep Calls
  have hgoto : ∀ p : Pc, ¬ p.Loads → Exclusive (s.goto who p) := by
    intro p hp
    refine h.keep who (by simp [Modem.goto]) (fun hl => absurd hl ?_) (by simp [Modem.goto])
    simpa [Modem.goto, Modem.Loads] using hp
  have hcall : Exclusive (s.goto who (.loading .partitionPath)) ↔ ¬ s.Loads who.other ∧ s.state ≠ .ready :=
    exclusive_call who (by simp [Modem.goto]) (by simp [Modem.goto, Modem.Loads, Pc.Loads])
      (by simp [Modem.goto])
  cases hpc : (s.detector who).pc with
  | idle => simpa using h
  | waiting => simpa using hgoto .idle id
  | informing r =>
    have hinform : Exclusive ((s.inform r).goto who .property) := by
      refine h.keep who (by simp [Modem.goto]) (fun hl => absurd hl ?_) (by simp [Modem.goto])
      simp [Modem.goto, Modem.Loads, Pc.Loads]
    simpa using hinform
  | property =>
    by_cases hreset : env.isReset = 0
    · simpa [hreset] using hgoto .idle id
    · simpa [hreset] using hcall.symm
  | resetting => simpa using hcall.symm
  | loading l => simpa using loadStep_exclusive h hpc env.path

end Keep

theorem step_exclusive {s : Modem} {a : Act} (h : Exclusive s) : Guarded s a ↔ Exclusive (step s a) := by
  cases a with
  | blockedMessage =>
    refine iff_of_true trivial ?_
    simp only [step, readBlocked]
    split_ifs with hidle hne
    · exact h
    · refine h.keep .blocked rfl (fun hl => absurd hl ?_) fun hr => absurd hr (by simp)
      simp [Modem.Loads, Modem.detector, Pc.Loads]
    · exact h
  | blockedLost =>
    refine iff_of_true trivial ?_
    simp only [step]
    split_ifs with hidle
    · refine h.keep .blocked rfl (fun hl => absurd hl ?_) (by simp [Modem.goto])
      simp [Modem.goto, Modem.Loads, Pc.Loads]
    · exact h
  | sipcEvent e =>
    refine iff_of_true trivial ?_
    simp only [step]
    split_ifs with hidle
    · cases e with
      | reset =>
        refine h.keep .sipc rfl (fun hl => absurd hl ?_) fun hr => absurd hr (by simp [readSipc])
        simp [readSipc, Modem.Loads, Modem.detector, Pc.Loads]
      | assert =>
        refine h.keep .sipc rfl (fun hl => absurd hl ?_) fun hr => absurd hr (by simp [readSipc])
        simp [readSipc, Modem.Loads, Modem.detector, Pc.Loads]
      | wdtirq =>
        refine h.keep .sipc rfl (fun hl => absurd hl ?_) fun hr => absurd hr (by simp [readSipc])
        simp [readSipc, Modem.Loads, Modem.detector, Pc.Loads]
      | other => exact h
    · exact h
  | run who env => exact runStep_exclusive h env

theorem exclusive_init : Exclusive init := by
  constructor
  · simp [Modem.Loads, Modem.detector, init, Pc.Loads]
  · intro _ who
    cases who <;> simp [Modem.Loads, Modem.detector, init, Pc.Loads]

/-! ## Events that do not meet a Blocked message at work -/

/-- between reading something and being done with it -/
def Pc.Works (p : Pc) : Prop := p ≠ .idle ∧ p ≠ .waiting

instance (p : Pc) : Decidable p.Works := inferInstanceAs (Decidable (_ ∧ _))

/-- `detect_sipc_modem` reads a Reset, an Assert or a watchdog event only while the other thread has no Blocked message
in hand -/
def Serial (s : Modem) : Act → Prop
  | .sipcEvent e => e ≠ .other → s.sipc.pc = .idle → ¬ s.blocked.pc.Works
  | .blockedMessage | .blockedLost | .run _ _ => True

instance (s : Modem) : (a : Act) → Decidable (Serial s a)
  | .sipcEvent e => inferInstanceAs (Decidable (e ≠ .other → s.sipc.pc = .idle → ¬ s.blocked.pc.Works))
  | .blockedMessage | .blockedLost | .run _ _ => inferInstanceAs (Decidable True)

/-- one thread at work, and the state is not MODEM_READY -/
structure SerialInv (s : Modem) : Prop where
  one : ¬ (s.blocked.pc.Works ∧ s.sipc.pc.Works)
  ready : s.state = .ready → ¬ s.blocked.pc.Works ∧ ¬ s.sipc.pc.Works

theorem serialInv_at (s : Modem) (who : Who) : SerialInv s ↔
    ¬ ((s.detector who).pc.Works ∧ (s.detector who.other).pc.Works) ∧
    (s.state = .ready → ¬ (s.detector who).pc.Works ∧ ¬ (s.detector who.other).pc.Works) := by
  constructor
  · intro h
    cases who with
    | blocked => exact ⟨h.one, h.ready⟩
    | sipc => exact ⟨fun hboth => h.one hboth.symm, fun hr => (h.ready hr).symm⟩
  · rintro ⟨hone, hready⟩
    cases who with
    | blocked => exact ⟨hone, hready⟩
    | sipc => exact ⟨fun hboth => hone hboth.symm, fun hr => (hready hr).symm⟩

section Serial

variable {s s' : Modem}

/-- a step of a thread at work, or the end of its work -/
theorem SerialInv.keep (h : SerialInv s) (who : Who) (hother : s'.detector who.other = s.detector who.other)
    (hself : (s.detector who).pc.Works)
    (hstate : (s'.detector who).pc.Works → s'.state = s.state) : SerialInv s' := by
  rw [serialInv_at s who] at h
  have hrest : ¬ (s.detector who.other).pc.Works := fun ho => h.1 ⟨hself, ho⟩
  rw [serialInv_at s' who, hother]
  refine ⟨fun hboth => hrest hboth.2, fun hr => ⟨fun hs => ?_, hrest⟩⟩
  exact (h.2 ((hstate hs).symm.trans hr)).1 hself

theorem SerialInv.begin (who : Who) (hother : s'.detector who.other = s.detector who.other)
    (hrest : ¬ (s.detector who.other).pc.Works) (hstate : s'.state ≠ .ready) : SerialInv s' := by
  rw [serialInv_at s' who, hother]
  exact ⟨fun hboth => hrest hboth.2, fun hr => absurd hr hstate⟩

theorem runStep_other (s : Modem) (who : Who) (env : Env) :
    (runStep s who env).detector who.other = s.detector who.other := by
  unfold runStep
  cases (s.detector who).pc with
  | idle => rfl
  | waiting => simp [Modem.goto]
  | informing r => simp [Modem.goto]
  | property =>
    simp only
    split_ifs <;> simp [Modem.goto]
  | resetting => simp [Modem.goto]
  | loading l =>
    cases l with
    | partitionPath =>
      simp only [loadStep]
      split_ifs <;> simp [Modem.goto, Modem.returned]
    | alive =>
      simp only [loadStep]
      split_ifs <;> simp [Modem.goto]
    | ready =>
      simp only [loadStep, Modem.returned, detector_set_other, detector_inform]
      cases who <;> rfl
    | stop | loadModem | loadDsp | stopService | start | startService => simp [loadStep, Modem.goto]

/-- only the end of a load changes the state, and then the thread is done -/
theorem runStep_state (s : Modem) (who : Who) (env : Env) (h : ((runStep s who env).detector who).pc.Works) :
    (runStep s who env).state = s.state := by
  revert h
  unfold runStep
  cases (s.detector who).pc with
  | idle => simp
  | waiting => simp [Modem.goto]
  | informing r => simp [Modem.goto]
  | property =>
    simp only
    split_ifs <;> simp [Modem.goto]
  | resetting => simp [Modem.goto]
  | loading l =>
    cases l with
    | partitionPath =>
      simp only [loadStep]
      split_ifs <;> simp [Modem.goto, Modem.returned]
    | alive =>
      simp only [loadStep]
      split_ifs <;> simp [Modem.goto]
    | ready => simp [loadStep, Modem.returned, Pc.Works]
    | stop | loadModem | loadDsp | stopService | start | startService => simp [loadStep, Modem.goto]

theorem step_serialInv {a : Act} (h : SerialInv s) (ha : Serial s a) : SerialInv (step s a) := by
  cases a with
  | blockedMessage =>
    simp only [step, readBlocked]
    split_ifs with hidle hne
    · exact h
    · exact SerialInv.begin .blocked rfl (h.ready (not_not.1 hne)).2 (by simp)
    · exact h
  | blockedLost =>
    simp only [step]
    split_ifs with hidle
    · refine ⟨fun hboth => ?_, fun hr => absurd hr ?_⟩
      · exact hboth.1.2 (by simp [Modem.goto, Modem.set])
      · simpa [Modem.goto] using hidle.2
    · exact h
  | sipcEvent e =>
    simp only [step]
    split_ifs with hidle
    · cases e with
      | reset => exact SerialInv.begin .sipc rfl (ha (by decide) hidle) (by simp [readSipc])
      | assert => exact SerialInv.begin .sipc rfl (ha (by decide) hidle) (by simp [readSipc])
      | wdtirq => exact SerialInv.begin .sipc rfl (ha (by decide) hidle) (by simp [readSipc])
      | other => exact h
    · exact h
  | run who env =>
    by_cases hw : (s.detector who).pc.Works
    · exact h.keep who (runStep_other s who env) hw (runStep_state s who env)
    · have hpc : (s.detector who).pc = .idle ∨ (s.detector who).pc = .waiting := by
        unfold Pc.Works at hw
        tauto
      rcases hpc with hpc | hpc
      · simpa only [step, runStep, hpc] using h
      · simp only [step, runStep, hpc]
        rw [serialInv_at s who] at h
        rw [serialInv_at _ who]
        simpa [Modem.goto, Pc.Works, hpc] using h.2

theorem guarded_of_serialInv (h : SerialInv s) (a : Act) : Guarded s a := by
  cases a with
  | run who env =>
    intro hcalls
    have hw : (s.detector who).pc.Works := by
      rcases hcalls with hpc | ⟨hpc, -⟩
      · simp [hpc, Pc.Works]
      · simp [hpc, Pc.Works]
    rw [serialInv_at s who] at h
    refine ⟨fun hl => h.1 ⟨hw, ?_⟩, fun hr => (h.2 hr).1 hw⟩
    constructor
    · rintro hidle
      simp [Modem.Loads, hidle, Pc.Loads] at hl
    · rintro hwaiting
      simp [Modem.Loads, hwaiting, Pc.Loads] at hl
  | blockedMessage | blockedLost | sipcEvent e => trivial

end Serial

theorem serialInv_init : SerialInv init := by
  constructor
  · simp [init, Pc.Works]
  · simp [init, Pc.Works]

/-- **The missing test.** Every call of `load_sipc_modem_img` is as it should be when `detect_sipc_modem` reads no event
while the other thread has a Blocked message in hand -/
theorem guarded_of_serial (as : List Act) (h : Along step Serial init as) : Along step Guarded init as := by
  have hstep : ∀ s a, SerialInv s → Serial s a → Guarded s a ∧ SerialInv (step s a) := fun s a hi ha =>
    ⟨guarded_of_serialInv hi a, step_serialInv hi ha⟩
  exact along_of_inv SerialInv hstep serialInv_init h

/-! ## Every run -/

/-- **Exclusive reload.** Whatever the threads read and in whatever order they take their steps: there is one load at a
time, and none while the state is MODEM_READY, as long as `detect_sipc_modem` reads no Reset, Assert or watchdog event
while `detect_modem_blocked` has a Blocked message in hand -/
theorem exclusive (as : List Act) (h : Along step Serial init as) :
    Along step (fun s a => Exclusive (step s a)) init as := by
  have hstep : ∀ s a, Exclusive s → (Guarded s a ↔ Exclusive (step s a)) := fun _ _ h => step_exclusive h
  exact (along_iff_inv hstep exclusive_init as).1 (guarded_of_serial as h)

/-- a Blocked message answered by a load, an event that is none of the three on the way, then a Reset answered by a load -/
def turnRun : List Act :=
  .blockedMessage :: .sipcEvent .other :: List.replicate 11 (.run .blocked ⟨1, true⟩) ++
    .sipcEvent .reset :: List.replicate 10 (.run .sipc ⟨1, true⟩)

theorem exclusive_turns : (turnRun.foldl step init).log = [.blocked, .alive, .loaded, .loaded] ∧
    Along step (fun s a => Exclusive (step s a)) init turnRun :=
  ⟨by decide, exclusive turnRun (by decide)⟩

/-- a Reset that `detect_sipc_modem` reads during the other thread's load is answered by a second load -/
theorem reset_in_load {s : Modem} (hload : s.Loads .blocked) (hidle : s.sipc.pc = .idle) (env : Env) :
    ¬ Exclusive (step (step s (.sipcEvent .reset)) (.run .sipc env)) := by
  intro h
  refine h.one ⟨?_, ?_⟩
  · simpa [step, hidle, readSipc, runStep, Modem.goto, Modem.set, Modem.detector, Modem.Loads] using hload
  · simp [step, hidle, readSipc, runStep, Modem.goto, Modem.set, Modem.detector, Modem.Loads, Pc.Loads]

/-- a Reset while a Blocked message is answered by a load -/
def overlapRun : List Act :=
  [.blockedMessage, .run .blocked ⟨1, true⟩, .run .blocked ⟨1, true⟩, .sipcEvent .reset, .run .sipc ⟨1, true⟩]

theorem exclusive_broken : ¬ Exclusive (overlapRun.foldl step init) := by
  intro h
  exact h.one (by decide)

end SprdDevice.Modemd
