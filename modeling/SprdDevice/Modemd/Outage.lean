/-
Outages of a modem as the socket clients see them: Blocked, Assert, watchdog and Reset events that the two detector
threads handle one after another, each to its end.

- `handle` takes an event through the steps of its thread.
- `account` goes through what the clients were sent: whether they were told of an outage, and of the modem being alive
  again, since the last load came back, and whether each load so far sent the one exactly where the other was sent.

Each thread remembers in its own `is_assert` that it told of an outage, but either may load next: a Reset behind a
Blocked message that was not followed by a load brings the modem back without a word.

Results: `handle_inv` and `paired`.
-/
import Mathlib.Tactic
import SprdDevice.Modemd.Detector

namespace SprdDevice.Modemd

open SprdDevice.Run

/-! ## Events handled to their end -/

inductive Event where
  | blocked (env : Env)
  | sipc (e : SipcEvent) (env : Env)
deriving DecidableEq, Repr

def Event.env : Event → Env
  | .blocked env => env
  | .sipc _ env => env

/-- the read, and the steps of the thread up to the end of a load -/
def Event.acts : Event → List Act
  | .blocked env => .blockedMessage :: List.replicate 11 (.run .blocked env)
  | .sipc e env => .sipcEvent e :: List.replicate 11 (.run .sipc env)

def handle (s : Modem) (e : Event) : Modem := e.acts.foldl step s

/-! ## The clients' account -/

structure Account where
  told : Bool
  alive : Bool
  paired : Bool
deriving DecidableEq, Repr

def Account.note (a : Account) : Record → Account
  | .blocked | .assert | .hang => { a with told := true }
  | .alive => { a with alive := true }
  | .loaded => { told := false, alive := false, paired := a.paired && (a.alive == a.told) }

def account (log : List Record) : Account := log.foldl Account.note ⟨false, false, true⟩

/-- each load has sent the alive text if and only if an outage was told since the load before it -/
def Paired (s : Modem) : Prop := (account s.log).paired = true

instance (s : Modem) : Decidable (Paired s) := inferInstanceAs (Decidable ((account s.log).paired = true))

/-- the partition path is there; a Reset finds the modem ready or `is_assert` of `detect_sipc_modem` set -/
def Seen (s : Modem) : Event → Prop
  | .blocked env => env.path = true
  | .sipc .reset env => env.path = true ∧ (s.state = .ready ∨ s.sipc.isAssert = true)
  | .sipc _ env => env.path = true

instance decidableSeen (s : Modem) : (e : Event) → Decidable (Seen s e)
  | .blocked env => inferInstanceAs (Decidable (env.path = true))
  | .sipc .reset env =>
    inferInstanceAs (Decidable (env.path = true ∧ (s.state = .ready ∨ s.sipc.isAssert = true)))
  | .sipc .assert env => inferInstanceAs (Decidable (env.path = true))
  | .sipc .wdtirq env => inferInstanceAs (Decidable (env.path = true))
  | .sipc .other env => inferInstanceAs (Decidable (env.path = true))

/-! ## One event -/

structure Idle (s : Modem) : Prop where
  blocked : s.blocked.pc = .idle
  sipc : s.sipc.pc = .idle

theorem run_idle {s : Modem} {who : Who} (h : (s.detector who).pc = .idle) (env : Env) (n : ℕ) :
    (List.replicate n (Act.run who env)).foldl step s = s := by
  induction n with
  | zero => rfl
  | succ n ih =>
    have hstep : step s (.run who env) = s := by simp only [step, runStep, h]
    rw [List.replicate_succ, List.foldl_cons, hstep, ih]

/-- a load to its end -/
def loadEnd (s : Modem) (who : Who) : Modem :=
  { (if (s.detector who).isAssert then s.inform .alive else s) with state := .ready }.returned who

theorem load_run (s : Modem) (who : Who) (env : Env) (hpath : env.path = true) :
    (List.replicate 9 (Act.run who env)).foldl step (s.goto who (.loading .partitionPath)) = loadEnd s who := by
  cases who <;> cases h : s.blocked.isAssert <;> cases h' : s.sipc.isAssert <;>
    simp [List.replicate, step, runStep, loadStep, loadEnd, Modem.goto, Modem.set, Modem.detector, Modem.returned,
      Modem.inform, hpath, h, h']

/-- an outage that a thread has seen, to the end of what it does about it -/
theorem inform_run (s : Modem) (who : Who) (r : Record) (env : Env) (hpath : env.path = true) :
    (List.replicate 11 (Act.run who env)).foldl step (s.set who ⟨.informing r, true⟩) =
      if env.isReset ≠ 0 then loadEnd ((s.inform r).set who ⟨.property, true⟩) who
      else (s.inform r).set who ⟨.idle, true⟩ := by
  have hinform : step (s.set who ⟨.informing r, true⟩) (.run who env) = (s.inform r).set who ⟨.property, true⟩ := by
    cases who <;> rfl
  rw [List.replicate_succ, List.foldl_cons, hinform, List.replicate_succ, List.foldl_cons]
  by_cases hreset : env.isReset = 0
  · have hstep : step ((s.inform r).set who ⟨.property, true⟩) (.run who env) = (s.inform r).set who ⟨.idle, true⟩ := by
      cases who <;> simp [step, runStep, hreset, Modem.goto, Modem.set, Modem.detector]
    rw [hstep, if_neg (not_not.2 hreset)]
    exact run_idle (by simp) env 9
  · have hstep : step ((s.inform r).set who ⟨.property, true⟩) (.run who env) =
        ((s.inform r).set who ⟨.property, true⟩).goto who (.loading .partitionPath) := by
      cases who <;> simp [step, runStep, hreset, Modem.detector, Modem.set]
    rw [hstep, if_pos hreset]
    exact load_run _ who env hpath

/-- a Reset, to the end of its load -/
theorem reset_run {s : Modem} (h : s.sipc.pc = .idle) (env : Env) (hpath : env.path = true) :
    handle s (.sipc .reset env) = loadEnd { s with state := .reset } .sipc := by
  have hread : step s (.sipcEvent .reset) = { s with state := .reset, sipc := { s.sipc with pc := .resetting } } := by
    simp only [step, if_pos h, readSipc]
  have hcall : step { s with state := .reset, sipc := { s.sipc with pc := .resetting } } (.run .sipc env) =
      ({ s with state := .reset } : Modem).goto .sipc (.loading .partitionPath) := rfl
  rw [handle, Event.acts, List.foldl_cons, hread, List.replicate_succ, List.foldl_cons, hcall]
  rw [show (10 : ℕ) = 9 + 1 from rfl, ← List.replicate_append_replicate, List.foldl_append, load_run _ .sipc env hpath]
  exact run_idle (by simp [loadEnd, Modem.returned, Modem.set, Modem.detector]) env 1

/-! ## Invariant -/

@[simp] theorem account_inform (s : Modem) (r : Record) : account (s.inform r).log = (account s.log).note r := by
  simp [account, Modem.inform, List.foldl_append]

/-- between two events: the clients know of an outage exactly when the state is not MODEM_READY -/
structure Known (s : Modem) : Prop where
  idle : Idle s
  alive : (account s.log).alive = false
  paired : Paired s
  told : (account s.log).told = true ↔ s.state ≠ .ready
  isAssert : s.sipc.isAssert = true → s.state ≠ .ready

theorem known_init : Known init where
  idle := ⟨rfl, rfl⟩
  alive := rfl
  paired := rfl
  told := by simp [init, account]
  isAssert := by simp [init]

/-- a load to its end is paired exactly when the thread knows what the clients know -/
theorem loadEnd_paired {s : Modem} {who : Who} (halive : (account s.log).alive = false) (hpaired : Paired s) :
    Paired (loadEnd s who) ↔ (s.detector who).isAssert = (account s.log).told := by
  have hlog : account (loadEnd s who).log =
      ⟨false, false, (account s.log).paired && ((s.detector who).isAssert == (account s.log).told)⟩ := by
    cases hassert : (s.detector who).isAssert
    · have heq : (loadEnd s who).log = (s.inform .loaded).log := by
        cases who <;> simp [loadEnd, Modem.returned, hassert, Modem.set, Modem.inform]
      rw [heq, account_inform, Account.note, halive]
    · have heq : (loadEnd s who).log = ((s.inform .alive).inform .loaded).log := by
        cases who <;> simp [loadEnd, Modem.returned, hassert, Modem.set, Modem.inform]
      rw [heq, account_inform, account_inform]
      rfl
  rw [Paired] at hpaired
  rw [Paired, hlog, hpaired]
  simp

theorem loadEnd_known {s : Modem} {who : Who} (hother : (s.detector who.other).pc = .idle)
    (hassert : who = .blocked → s.sipc.isAssert = false) (hpaired : Paired (loadEnd s who)) : Known (loadEnd s who) := by
  have hstate : (loadEnd s who).state = .ready := by
    cases who <;> simp [loadEnd, Modem.returned]
  have hlog : (account (loadEnd s who).log).told = false ∧ (account (loadEnd s who).log).alive = false := by
    cases who <;> simp [loadEnd, Modem.returned, Account.note]
  have hdone : (loadEnd s who).detector who = ⟨.idle, false⟩ := by simp [loadEnd, Modem.returned]
  have hkept : (loadEnd s who).detector who.other = s.detector who.other := by
    unfold loadEnd
    split_ifs <;> cases who <;> rfl
  cases who with
  | blocked =>
    change (loadEnd s .blocked).blocked = _ at hdone
    change (loadEnd s .blocked).sipc = s.sipc at hkept
    refine ⟨⟨by rw [hdone], by rw [hkept]; exact hother⟩, hlog.2, hpaired, ?_, ?_⟩
    · rw [hlog.1, hstate]
      simp
    · rw [hkept, hassert rfl]
      simp
  | sipc =>
    change (loadEnd s .sipc).sipc = _ at hdone
    change (loadEnd s .sipc).blocked = s.blocked at hkept
    refine ⟨⟨by rw [hkept]; exact hother, by rw [hdone]⟩, hlog.2, hpaired, ?_, ?_⟩
    · rw [hlog.1, hstate]
      simp
    · rw [hdone]
      simp

/-- a Blocked, Assert or watchdog event that its thread takes -/
theorem outage_known {s : Modem} {who : Who} {r : Record} (h : Known s) (hr : r = .blocked ∨ r = .assert ∨ r = .hang)
    (hready : who = .blocked → s.state = .ready) (env : Env) (hpath : env.path = true) :
    Known ((List.replicate 11 (Act.run who env)).foldl step
      (({ s with state := .assert } : Modem).set who ⟨.informing r, true⟩)) := by
  have hnote : (account s.log).note r = { account s.log with told := true } := by
    rcases hr with rfl | rfl | rfl <;> rfl
  have hother : (s.detector who.other).pc = .idle := by
    cases who with
    | blocked => exact h.idle.sipc
    | sipc => exact h.idle.blocked
  rw [inform_run _ who r env hpath]
  split_ifs with hreset
  · refine loadEnd_known ?_ ?_ ?_
    · rw [detector_set_other]
      cases who <;> exact hother
    · rintro rfl
      have hne : s.sipc.isAssert ≠ true := fun ha => h.isAssert ha (hready rfl)
      simpa [Modem.inform, Modem.set] using hne
    · refine (loadEnd_paired ?_ ?_).2 ?_
      · rw [set_log, account_inform]
        change ((account s.log).note r).alive = false
        rw [hnote]
        exact h.alive
      · rw [Paired, set_log, account_inform]
        change ((account s.log).note r).paired = true
        rw [hnote]
        exact h.paired
      · rw [detector_set_self, set_log, account_inform]
        change true = ((account s.log).note r).told
        rw [hnote]
  · have hlog : account (((({ s with state := .assert } : Modem).inform r).set who ⟨.idle, true⟩).log) =
        { account s.log with told := true } := by
      rw [set_log, account_inform]
      exact hnote
    refine ⟨?_, ?_, ?_, ?_, ?_⟩
    · cases who with
      | blocked => exact ⟨rfl, hother⟩
      | sipc => exact ⟨hother, rfl⟩
    · rw [hlog]
      exact h.alive
    · rw [Paired, hlog]
      exact h.paired
    · rw [hlog, set_state]
      simp
    · intro _
      rw [set_state]
      simp

theorem reset_paired {s : Modem} (h : Known s) (env : Env) (hpath : env.path = true) :
    Paired (handle s (.sipc .reset env)) ↔ (s.state = .ready ∨ s.sipc.isAssert = true) := by
  rw [reset_run h.idle.sipc env hpath]
  have hend : Paired (loadEnd { s with state := .reset } .sipc) ↔ s.sipc.isAssert = (account s.log).told :=
    loadEnd_paired (s := { s with state := .reset }) h.alive h.paired
  rw [hend]
  by_cases hready : s.state = .ready
  · have htold : (account s.log).told = false := Bool.eq_false_iff.2 fun ht => h.told.1 ht hready
    have hassert : s.sipc.isAssert = false := Bool.eq_false_iff.2 fun ha => h.isAssert ha hready
    simp only [htold, hassert, hready, true_or]
  · have htold : (account s.log).told = true := h.told.2 hready
    simp only [htold, hready, false_or]

theorem handle_inv {s : Modem} {e : Event} (h : Known s) (he : Seen s e) : Known (handle s e) := by
  cases e with
  | blocked env =>
    rw [handle, Event.acts, List.foldl_cons]
    by_cases hready : s.state = .ready
    · have hread : step s .blockedMessage =
          ({ s with state := .assert } : Modem).set .blocked ⟨.informing .blocked, true⟩ := by
        simp [step, h.idle.blocked, readBlocked, hready, Modem.set]
      rw [hread]
      exact outage_known h (Or.inl rfl) (fun _ => hready) env he
    · have hread : step s .blockedMessage = s := by
        simp [step, readBlocked, hready]
      rw [hread, run_idle (by exact h.idle.blocked)]
      exact h
  | sipc e env =>
    cases e with
    | reset =>
      have hpaired := (reset_paired h env he.1).2 he.2
      rw [reset_run h.idle.sipc env he.1] at hpaired ⊢
      exact loadEnd_known h.idle.blocked (by simp) hpaired
    | assert =>
      have hread : step s (.sipcEvent .assert) =
          ({ s with state := .assert } : Modem).set .sipc ⟨.informing .assert, true⟩ := by
        simp [step, h.idle.sipc, readSipc, Modem.set]
      rw [handle, Event.acts, List.foldl_cons, hread]
      exact outage_known h (Or.inr (Or.inl rfl)) (by simp) env he
    | wdtirq =>
      have hread : step s (.sipcEvent .wdtirq) =
          ({ s with state := .assert } : Modem).set .sipc ⟨.informing .hang, true⟩ := by
        simp [step, h.idle.sipc, readSipc, Modem.set]
      rw [handle, Event.acts, List.foldl_cons, hread]
      exact outage_known h (Or.inr (Or.inr rfl)) (by simp) env he
    | other =>
      have hread : step s (.sipcEvent .other) = s := by simp [step, readSipc]
      rw [handle, Event.acts, List.foldl_cons, hread, run_idle (by exact h.idle.sipc)]
      exact h

/-! ## Every run -/

/-- **Outage notifications are paired.** For every sequence of events handled one after another and every value of the
reset property at each: while the partition path is there and each Reset finds the modem ready or an outage that
`detect_sipc_modem` itself has told of, each load sends the alive text exactly when the clients were told of an outage
since the load before it -/
theorem paired (es : List Event) (h : Along handle Seen init es) :
    Along handle (fun s e => Paired (handle s e)) init es := by
  have hstep : ∀ s e, Known s → Seen s e → Paired (handle s e) ∧ Known (handle s e) := fun s e hs he =>
    ⟨(handle_inv hs he).paired, handle_inv hs he⟩
  exact along_of_inv Known hstep known_init h

/-- an Assert without a load, and a Reset -/
def assertRun : List Event := [.sipc .assert ⟨0, true⟩, .sipc .reset ⟨0, true⟩, .blocked ⟨1, true⟩]

theorem paired_assertRun : Along handle (fun s e => Paired (handle s e)) init assertRun :=
  paired assertRun (by decide)

/-- a Blocked message without a load, and a Reset -/
def silentRun : List Event := [.blocked ⟨0, true⟩, .sipc .reset ⟨0, true⟩]

theorem paired_broken : ¬ Along handle (fun s e => Paired (handle s e)) init silentRun := by
  rintro ⟨-, h, -⟩
  exact absurd h (by decide)

end SprdDevice.Modemd
