/-
The message queue of the camera (`cmr_msg.c`): `cmr_msg_post`, `cmr_msg_get`, `cmr_msg_timedget` and `cmr_msg_peak`,
called by any number of threads in any order of their steps.

- The ring `msg_head` has `msg_count` slots, and the pointers are indices into it. `msg_number` is a 32-bit counter.
- A mutex section is one step. A thread inside a call is at a place between its steps (`Pc`): a post has read the write
  pointer before it takes the lock, and signals the semaphore after it has left; the others first take a unit of the
  semaphore, then the lock.
- The semaphore is a counter: `sem_wait` takes a unit when there is one, `sem_trywait` returns when there is none and
  `sem_timedwait` may return without one at any time.
- Three branches are noted when they are taken: UNDERFLOW in a get, the rollback of the write pointer in a post, and the
  branch of `cmr_msg_peak` that returns without unlocking. After that one no mutex section is entered any more.
- `posted` and `delivered` are the messages in the order of the sections that put them in and took them out.

Invariant: the units of the semaphore and the threads between their two steps (`owed`) are together the messages in the
ring, so a thread that has taken a unit finds a message.

Results: `step_inv` and `fifo`.
-/
import Mathlib.Tactic
import SprdDevice.Lib.Ring

namespace SprdDevice.Camera

open SprdDevice.Ring

/-! ## Model -/

/-- `struct cmr_msg` -/
structure CmrMsg where
  msgType : UInt32
  subMsgType : UInt32
  data : UInt32
  allocFlag : UInt32
deriving DecidableEq, Repr

/-- a cleared slot -/
def CmrMsg.zero : CmrMsg := ⟨0, 0, 0, 0⟩

/-- the `count` of a queue that was created, its block of `count` slots there: the size passed to
`malloc` is cut to 32 bits and is smaller than the slots from a `count` of `2 ^ 28` on -/
structure Capacity where
  count : ℕ
  pos : 0 < count
  lt : count < 2 ^ 32

/-- where a thread is -/
inductive Pc where
  | idle
  /-- in a post, with `ori_node` read -/
  | posting (m : CmrMsg) (oriNode : ℕ)
  /-- in a post, behind its section -/
  | signalling
  /-- in a get or a timed get, with a unit of the semaphore -/
  | getting
  /-- in a peak, with a unit of the semaphore -/
  | peaking
deriving DecidableEq, Repr

structure Queue (n : ℕ) where
  slots : ℕ → CmrMsg
  msgNumber : ℕ
  msgRead : ℕ
  msgWrite : ℕ
  msgSem : ℕ
  pc : Fin n → Pc
  posted : List CmrMsg
  delivered : List CmrMsg
  underflow : Bool
  rollback : Bool
  held : Bool

/-- `cmr_msg_queue_create` -/
def create (n : ℕ) : Queue n where
  slots := fun _ => .zero
  msgNumber := 0
  msgRead := 0
  msgWrite := 0
  msgSem := 0
  pc := fun _ => .idle
  posted := []
  delivered := []
  underflow := false
  rollback := false
  held := false

variable {n : ℕ}

def Queue.at_ (s : Queue n) (i : Fin n) (pc : Pc) : Queue n := { s with pc := Function.update s.pc i pc }

/-- the section of `cmr_msg_post` -/
def lockedPost (c : Capacity) (s : Queue n) (i : Fin n) (m : CmrMsg) (oriNode : ℕ) : Queue n :=
  if (s.msgNumber + 1) % 2 ^ 32 ≥ c.count then s.at_ i .idle
  else
    let write := next c.count s.msgWrite
    { s.at_ i .signalling with
      slots := Function.update s.slots s.msgWrite m
      msgWrite := if write = s.msgRead then oriNode else write
      msgNumber := (s.msgNumber + 1) % 2 ^ 32
      posted := s.posted ++ [m]
      rollback := s.rollback || decide (write = s.msgRead) }

/-- the section of `cmr_msg_get` and of `cmr_msg_timedget` -/
def lockedGet (c : Capacity) (s : Queue n) (i : Fin n) : Queue n :=
  if s.msgNumber = 0 then { s.at_ i .idle with underflow := true }
  else if s.msgRead ≠ s.msgWrite then
    { s.at_ i .idle with
      slots := Function.update s.slots s.msgRead .zero
      msgRead := next c.count s.msgRead
      msgNumber := s.msgNumber - 1
      delivered := s.delivered ++ [s.slots s.msgRead] }
  else { s.at_ i .idle with msgNumber := s.msgNumber - 1 }

/-- the section of `cmr_msg_peak` -/
def lockedPeak (c : Capacity) (s : Queue n) (i : Fin n) : Queue n :=
  if s.msgRead ≠ s.msgWrite then
    { s.at_ i .idle with
      msgRead := next c.count s.msgRead
      msgNumber := (s.msgNumber + 2 ^ 32 - 1) % 2 ^ 32
      delivered := s.delivered ++ [s.slots s.msgRead] }
  else { s.at_ i .idle with held := true }

inductive Act (n : ℕ) where
  /-- a thread calls `cmr_msg_post`, and reads the write pointer -/
  | post (i : Fin n) (m : CmrMsg)
  /-- a thread calls `cmr_msg_get`; without a unit it waits -/
  | get (i : Fin n)
  /-- a thread calls `cmr_msg_timedget` -/
  | timedget (i : Fin n) (timeout : Bool)
  /-- a thread calls `cmr_msg_peak` -/
  | peak (i : Fin n)
  /-- a thread runs its mutex section -/
  | enter (i : Fin n)
  /-- `sem_post` -/
  | signal (i : Fin n)

def step (c : Capacity) (s : Queue n) : Act n → Queue n
  | .post i m => if s.pc i = .idle then s.at_ i (.posting m s.msgWrite) else s
  | .get i => if s.pc i = .idle ∧ 0 < s.msgSem then { s.at_ i .getting with msgSem := s.msgSem - 1 } else s
  | .timedget i timeout =>
    if s.pc i = .idle ∧ 0 < s.msgSem ∧ timeout = false then { s.at_ i .getting with msgSem := s.msgSem - 1 } else s
  | .peak i => if s.pc i = .idle ∧ 0 < s.msgSem then { s.at_ i .peaking with msgSem := s.msgSem - 1 } else s
  | .enter i =>
    if s.held then s
    else match s.pc i with
      | .posting m oriNode => lockedPost c s i m oriNode
      | .getting => lockedGet c s i
      | .peaking => lockedPeak c s i
      | _ => s
  | .signal i => if s.pc i = .signalling then { s.at_ i .idle with msgSem := s.msgSem + 1 } else s

/-! ## Units of the semaphore on their way -/

/-- what a thread owes: a unit it has taken but no message yet, or a message it has put in but no unit yet -/
def Pc.owes : Pc → ℕ
  | .idle => 0
  | .posting _ _ => 0
  | .signalling => 1
  | .getting => 1
  | .peaking => 1

def owed (pc : Fin n → Pc) : ℕ := ∑ i, (pc i).owes

theorem owed_update (pc : Fin n → Pc) (i : Fin n) (a : Pc) :
    owed (Function.update pc i a) + (pc i).owes = owed pc + a.owes := by
  unfold owed
  rw [← Finset.add_sum_erase Finset.univ (fun j => (pc j).owes) (Finset.mem_univ i),
    ← Finset.add_sum_erase Finset.univ (fun j => (Function.update pc i a j).owes) (Finset.mem_univ i)]
  have hrest : ∑ j ∈ Finset.univ.erase i, (Function.update pc i a j).owes = ∑ j ∈ Finset.univ.erase i, (pc j).owes := by
    apply Finset.sum_congr rfl
    intro j hj
    rw [Function.update_of_ne (Finset.ne_of_mem_erase hj)]
  rw [hrest, Function.update_self]
  omega

theorem owes_le_owed (pc : Fin n → Pc) (i : Fin n) : (pc i).owes ≤ owed pc :=
  Finset.single_le_sum (f := fun j => (pc j).owes) (fun _ _ => Nat.zero_le _) (Finset.mem_univ i)

/-! ## The invariant -/

structure Inv (c : Capacity) (s : Queue n) : Prop where
  read_lt : s.msgRead < c.count
  queue : ∃ pend, s.posted = s.delivered ++ pend ∧ s.msgNumber = pend.length ∧ Holds c.count s.slots s.msgRead pend
  write_eq : s.msgWrite = (s.msgRead + s.msgNumber) % c.count
  room : s.msgNumber < c.count
  units : s.msgNumber = s.msgSem + owed s.pc
  no_underflow : s.underflow = false
  no_rollback : s.rollback = false
  not_held : s.held = false

theorem inv_create (c : Capacity) : Inv c (create n) where
  read_lt := c.pos
  queue := ⟨[], rfl, rfl, holds_nil _ _ _⟩
  write_eq := (Nat.zero_mod c.count).symm
  room := c.pos
  units := by simp [create, owed, Pc.owes]
  no_underflow := rfl
  no_rollback := rfl
  not_held := rfl

variable {c : Capacity} {s : Queue n}

/-- a step between the places of one thread that keeps the account -/
theorem Inv.move (h : Inv c s) (i : Fin n) (a : Pc) (sem : ℕ) (hunits : sem + a.owes = s.msgSem + (s.pc i).owes) :
    Inv c { s.at_ i a with msgSem := sem } where
  read_lt := h.read_lt
  queue := h.queue
  write_eq := h.write_eq
  room := h.room
  units := by
    have hupd := owed_update s.pc i a
    have hold := h.units
    show s.msgNumber = sem + owed (Function.update s.pc i a)
    omega
  no_underflow := h.no_underflow
  no_rollback := h.no_rollback
  not_held := h.not_held

/-- the read and the write pointer meet only in an empty ring -/
theorem Inv.read_ne_write (h : Inv c s) (hpos : 0 < s.msgNumber) : s.msgRead ≠ s.msgWrite := by
  rw [h.write_eq]
  have hne : (s.msgRead + 0) % c.count ≠ (s.msgRead + s.msgNumber) % c.count := slot_ne _ hpos (by have := h.room; omega)
  rwa [Nat.add_zero, Nat.mod_eq_of_lt h.read_lt] at hne

/-- a thread that has taken a unit finds a message -/
theorem Inv.number_pos (h : Inv c s) {i : Fin n} (howes : (s.pc i).owes = 1) : 0 < s.msgNumber := by
  have hle := owes_le_owed s.pc i
  have hunits := h.units
  omega

theorem lockedPost_inv (h : Inv c s) {i : Fin n} {m : CmrMsg} {oriNode : ℕ} (hpc : s.pc i = .posting m oriNode) :
    Inv c (lockedPost c s i m oriNode) := by
  have hlt := c.lt
  have hroom := h.room
  unfold lockedPost
  split_ifs with hfull
  · exact h.move i .idle s.msgSem (by rw [hpc]; rfl)
  · have hwrap : (s.msgNumber + 1) % 2 ^ 32 = s.msgNumber + 1 := Nat.mod_eq_of_lt (by omega)
    rw [hwrap] at hfull
    obtain ⟨pend, hposted, hnumber, hholds⟩ := h.queue
    have hwrite_lt : s.msgWrite < c.count := by
      rw [h.write_eq]
      exact Nat.mod_lt _ c.pos
    have hnext : next c.count s.msgWrite = (s.msgRead + (s.msgNumber + 1)) % c.count := by
      rw [next_eq hwrite_lt, h.write_eq, Nat.mod_add_mod, Nat.add_assoc]
    -- with a slot to spare the write pointer does not catch up with the read pointer
    have hne : next c.count s.msgWrite ≠ s.msgRead := by
      have hslot : (s.msgRead + 0) % c.count ≠ (s.msgRead + (s.msgNumber + 1)) % c.count :=
        slot_ne _ (Nat.succ_pos _) (by omega)
      rw [Nat.add_zero, Nat.mod_eq_of_lt h.read_lt] at hslot
      rw [hnext]
      exact hslot.symm
    have hupd := owed_update s.pc i .signalling
    rw [hpc] at hupd
    have howes : Pc.owes (.posting m oriNode) = 0 := rfl
    have howes' : Pc.owes .signalling = 1 := rfl
    have hunits := h.units
    dsimp only
    rw [if_neg hne, hwrap]
    exact
      { read_lt := h.read_lt
        queue := by
          refine ⟨pend ++ [m], ?_, ?_, ?_⟩
          · show s.posted ++ [m] = s.delivered ++ (pend ++ [m])
            rw [hposted, List.append_assoc]
          · show s.msgNumber + 1 = (pend ++ [m]).length
            rw [hnumber]
            simp
          · show Holds c.count (Function.update s.slots s.msgWrite m) s.msgRead (pend ++ [m])
            rw [h.write_eq, hnumber]
            exact hholds.push (by omega) m
        write_eq := hnext
        room := by show s.msgNumber + 1 < c.count; omega
        units := by
          show s.msgNumber + 1 = s.msgSem + owed (Function.update s.pc i .signalling)
          omega
        no_underflow := h.no_underflow
        no_rollback := by
          show (s.rollback || decide (next c.count s.msgWrite = s.msgRead)) = false
          rw [h.no_rollback, decide_eq_false hne]
          rfl
        not_held := h.not_held }

/-- taking the first message out, whatever becomes of its slot -/
theorem Inv.take (h : Inv c s) {i : Fin n} (howes : (s.pc i).owes = 1) {slots : ℕ → CmrMsg}
    (hslots : ∀ l, l.length < c.count → Holds c.count s.slots ((s.msgRead + 1) % c.count) l →
      Holds c.count slots ((s.msgRead + 1) % c.count) l) :
    Inv c { s.at_ i .idle with
      slots := slots
      msgRead := next c.count s.msgRead
      msgNumber := s.msgNumber - 1
      delivered := s.delivered ++ [s.slots s.msgRead] } := by
  have hpos := h.number_pos howes
  have hroom := h.room
  have hnext := next_eq h.read_lt
  have hupd := owed_update s.pc i .idle
  have hidle : Pc.owes .idle = 0 := rfl
  have hunits := h.units
  obtain ⟨pend, hposted, hnumber, hholds⟩ := h.queue
  obtain ⟨m, l, rfl⟩ := List.exists_cons_of_ne_nil (List.ne_nil_of_length_pos (hnumber ▸ hpos))
  rw [List.length_cons] at hnumber
  exact
    { read_lt := by
        show next c.count s.msgRead < c.count
        rw [hnext]
        exact Nat.mod_lt _ c.pos
      queue := by
        refine ⟨l, ?_, ?_, ?_⟩
        · show s.posted = s.delivered ++ [s.slots s.msgRead] ++ l
          rw [hholds.head h.read_lt, hposted]
          simp
        · show s.msgNumber - 1 = l.length
          omega
        · show Holds c.count slots (next c.count s.msgRead) l
          rw [hnext]
          exact hslots l (by omega) hholds.tail
      write_eq := by
        show s.msgWrite = (next c.count s.msgRead + (s.msgNumber - 1)) % c.count
        rw [h.write_eq, hnext, Nat.mod_add_mod]
        congr 1
        omega
      room := by show s.msgNumber - 1 < c.count; omega
      units := by
        show s.msgNumber - 1 = s.msgSem + owed (Function.update s.pc i .idle)
        omega
      no_underflow := h.no_underflow
      no_rollback := h.no_rollback
      not_held := h.not_held }

theorem lockedGet_inv (h : Inv c s) {i : Fin n} (hpc : s.pc i = .getting) : Inv c (lockedGet c s i) := by
  have howes : (s.pc i).owes = 1 := by rw [hpc]; rfl
  have hpos := h.number_pos howes
  unfold lockedGet
  rw [if_neg hpos.ne', if_pos (h.read_ne_write hpos)]
  exact h.take howes fun l hl hholds => hholds.clear h.read_lt hl _

theorem lockedPeak_inv (h : Inv c s) {i : Fin n} (hpc : s.pc i = .peaking) : Inv c (lockedPeak c s i) := by
  have howes : (s.pc i).owes = 1 := by rw [hpc]; rfl
  have hpos := h.number_pos howes
  have hwrap : (s.msgNumber + 2 ^ 32 - 1) % 2 ^ 32 = s.msgNumber - 1 := by
    have hroom := h.room
    have hlt := c.lt
    omega
  unfold lockedPeak
  rw [if_pos (h.read_ne_write hpos), hwrap]
  exact h.take howes fun _ _ hholds => hholds

/-- One step of any thread. -/
theorem step_inv (h : Inv c s) (act : Act n) : Inv c (step c s act) := by
  -- taking a unit of the semaphore, in three of the calls
  have htake : ∀ i a, s.pc i = .idle → 0 < s.msgSem → Pc.owes a = 1 → Inv c { s.at_ i a with msgSem := s.msgSem - 1 } := by
    intro i a hpc hsem ha
    have hidle : Pc.owes .idle = 0 := rfl
    exact h.move i a (s.msgSem - 1) (by rw [hpc]; omega)
  cases act with
  | post i m =>
    simp only [step]
    split_ifs with hpc
    · exact h.move i (.posting m s.msgWrite) s.msgSem (by rw [hpc]; rfl)
    · exact h
  | get i =>
    simp only [step]
    split_ifs with hpc
    · exact htake i .getting hpc.1 hpc.2 rfl
    · exact h
  | timedget i timeout =>
    simp only [step]
    split_ifs with hpc
    · exact htake i .getting hpc.1 hpc.2.1 rfl
    · exact h
  | peak i =>
    simp only [step]
    split_ifs with hpc
    · exact htake i .peaking hpc.1 hpc.2 rfl
    · exact h
  | enter i =>
    simp only [step]
    rw [if_neg (by rw [h.not_held]; exact Bool.false_ne_true)]
    split
    · next m oriNode hpc => exact lockedPost_inv h hpc
    · next hpc => exact lockedGet_inv h hpc
    · next hpc => exact lockedPeak_inv h hpc
    · exact h
  | signal i =>
    simp only [step]
    split_ifs with hpc
    · exact h.move i .idle (s.msgSem + 1) (by rw [hpc]; rfl)
    · exact h

/-- Every state of every run. -/
theorem run_inv (c : Capacity) (acts : List (Act n)) : Inv c (acts.foldl (step c) (create n)) := by
  have hrun : ∀ s : Queue n, Inv c s → Inv c (acts.foldl (step c) s) := by
    induction acts with
    | nil => exact fun s hs => hs
    | cons act acts ih => exact fun s hs => ih (step c s act) (step_inv hs act)
  exact hrun (create n) (inv_create c)

/-- **The queue is a FIFO.** For every capacity, any number of threads and any order of their steps: the messages taken
out are the first of those put in, in their order and each once; `msg_number` is the number of the others, less than the
capacity and the distance from the read to the write pointer; and none of the three branches has been taken. -/
theorem fifo (c : Capacity) (acts : List (Act n)) :
    (acts.foldl (step c) (create n)).delivered <+: (acts.foldl (step c) (create n)).posted ∧
    (acts.foldl (step c) (create n)).msgNumber + (acts.foldl (step c) (create n)).delivered.length =
      (acts.foldl (step c) (create n)).posted.length ∧
    (acts.foldl (step c) (create n)).msgNumber ≤ c.count - 1 ∧
    (acts.foldl (step c) (create n)).msgNumber =
      ((acts.foldl (step c) (create n)).msgWrite + c.count - (acts.foldl (step c) (create n)).msgRead) % c.count ∧
    (acts.foldl (step c) (create n)).underflow = false ∧
    (acts.foldl (step c) (create n)).rollback = false ∧
    (acts.foldl (step c) (create n)).held = false := by
  have h := run_inv c acts
  generalize acts.foldl (step c) (create n) = s at h ⊢
  obtain ⟨pend, hposted, hnumber, -⟩ := h.queue
  have hroom := h.room
  have hread := h.read_lt
  refine ⟨⟨pend, hposted.symm⟩, ?_, by omega, ?_, h.no_underflow, h.no_rollback, h.not_held⟩
  · rw [hposted, hnumber, List.length_append]
    omega
  · rw [h.write_eq]
    by_cases hturn : s.msgRead + s.msgNumber < c.count
    · have hdist : s.msgRead + s.msgNumber + c.count - s.msgRead = s.msgNumber + c.count := by omega
      rw [Nat.mod_eq_of_lt hturn, hdist, Nat.add_mod_right, Nat.mod_eq_of_lt hroom]
    · -- the messages run over the end of the ring
      have hmod : (s.msgRead + s.msgNumber) % c.count = s.msgRead + s.msgNumber - c.count := by
        rw [Nat.mod_eq_sub_mod (by omega), Nat.mod_eq_of_lt (by omega)]
      have hdist : s.msgRead + s.msgNumber - c.count + c.count - s.msgRead = s.msgNumber := by omega
      rw [hmod, hdist, Nat.mod_eq_of_lt hroom]

end SprdDevice.Camera
