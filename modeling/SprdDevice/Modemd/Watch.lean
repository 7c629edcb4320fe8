/-
What detect_sipc_modem waits for (modemd_sipc.c): the set handed to select in each pass of its endless loop, and the
descriptor it reads.

- `select` leaves in the set the descriptors that are ready; where it fails, the set is left alone.
- A pass is one call of select, with the read behind it. `Call` has the set that select was handed, the read with the
  set that select left, and the text that was read, as the detector takes it (`SipcEvent`).
- The set is filled once, before the loop; the descriptor of the last pass is kept.

Result: `watch_iff`. Reads are always on what select has just reported; both devices are waited for exactly as long as
every select reports both.
-/
import Mathlib.Tactic
import SprdDevice.Lib.Trace
import SprdDevice.Modemd.Detector

namespace SprdDevice.Modemd.Watch

open SprdDevice.Trace

structure Devices where
  assert_fd : ℕ
  watchdog_fd : ℕ
deriving DecidableEq, Repr

/-- what a call of select gives: EINTR, another error, or the ready descriptors -/
inductive Selected where
  | interrupted
  | failed
  | ready (fds : Finset ℕ)
deriving DecidableEq

/-- one call of select, and what a read behind it would give: nothing, or a text -/
structure Pass where
  selected : Selected
  text : Option SipcEvent
deriving DecidableEq

inductive Call where
  | select (rfds : Finset ℕ)
  | read (fd : ℤ) (reported : Finset ℕ)
  | handle (e : SipcEvent)
deriving DecidableEq

structure Loop where
  rfds : Finset ℕ
  fd : ℤ
deriving DecidableEq

/-- before the loop -/
def Devices.start (d : Devices) : Loop := ⟨{d.assert_fd, d.watchdog_fd}, -1⟩

/-- the set that is left, and the result -/
def select (rfds : Finset ℕ) : Selected → Finset ℕ × ℤ
  | .interrupted => (rfds, -1)
  | .failed => (rfds, -1)
  | .ready fds => (rfds ∩ fds, (rfds ∩ fds).card)

def Devices.pick (d : Devices) (rfds : Finset ℕ) (fd : ℤ) : ℤ :=
  if d.assert_fd ∈ rfds then d.assert_fd else if d.watchdog_fd ∈ rfds then d.watchdog_fd else fd

def Devices.pass (d : Devices) (s : Loop) (i : Pass) : Loop × List Call :=
  let (rfds, ret) := select s.rfds i.selected
  if ret > 0 then
    let fd := d.pick rfds s.fd
    -- none of the devices is ready
    if fd ≤ 0 then (⟨rfds, fd⟩, [.select s.rfds])
    else
      match i.text with
      | none => (⟨rfds, fd⟩, [.select s.rfds, .read fd rfds])
      | some e => (⟨rfds, fd⟩, [.select s.rfds, .read fd rfds, .handle e])
  else (⟨rfds, s.fd⟩, [.select s.rfds])

def Devices.calls (d : Devices) (passes : List Pass) : List Call := (trace d.pass d.start passes).2

/-- select waits for both devices, and a read is on a reported one -/
def Call.Ok (d : Devices) : Call → Prop
  | .select rfds => d.assert_fd ∈ rfds ∧ d.watchdog_fd ∈ rfds
  | .read fd reported => ∃ n ∈ reported, fd = (n : ℤ)
  | .handle _ => True

/-- select fails, or reports both devices -/
def Pass.Both (d : Devices) (i : Pass) : Prop :=
  match i.selected with
  | .interrupted => True
  | .failed => True
  | .ready fds => d.assert_fd ∈ fds ∧ d.watchdog_fd ∈ fds

/-! ## One pass -/

section Pass

variable {d : Devices} {s : Loop}

theorem pass_rfds (d : Devices) (s : Loop) (i : Pass) : (d.pass s i).1.rfds = (select s.rfds i.selected).1 := by
  unfold Devices.pass
  dsimp only
  split_ifs
  · rfl
  · split <;> rfl
  · rfl

theorem pass_select (d : Devices) (s : Loop) (i : Pass) : Call.select s.rfds ∈ (d.pass s i).2 := by
  unfold Devices.pass
  dsimp only
  split_ifs
  · exact List.mem_singleton_self _
  · split <;> exact List.mem_cons_self ..
  · exact List.mem_singleton_self _

theorem select_subset (rfds : Finset ℕ) (selected : Selected) : (select rfds selected).1 ⊆ rfds := by
  cases selected with
  | interrupted => exact subset_rfl
  | failed => exact subset_rfl
  | ready fds => exact Finset.inter_subset_left

/-- where select reports something, it is one of the devices -/
theorem pick_reported (hs : s.rfds ⊆ {d.assert_fd, d.watchdog_fd}) {i : Pass}
    (hret : (select s.rfds i.selected).2 > 0) :
    ∃ n ∈ (select s.rfds i.selected).1, d.pick (select s.rfds i.selected).1 s.fd = (n : ℤ) := by
  have hnonempty : (select s.rfds i.selected).1.Nonempty := by
    revert hret
    cases i.selected with
    | interrupted => exact fun h => absurd h (by simp [select])
    | failed => exact fun h => absurd h (by simp [select])
    | ready fds =>
      intro hret
      exact Finset.card_pos.1 (Int.natCast_pos.1 hret)
  obtain ⟨n, hn⟩ := hnonempty
  have hdev := hs (select_subset s.rfds i.selected hn)
  rw [Finset.mem_insert, Finset.mem_singleton] at hdev
  unfold Devices.pick
  by_cases ha : d.assert_fd ∈ (select s.rfds i.selected).1
  · exact ⟨d.assert_fd, ha, if_pos ha⟩
  · have hw : d.watchdog_fd ∈ (select s.rfds i.selected).1 := by
      rcases hdev with rfl | rfl
      · exact absurd hn ha
      · exact hn
    exact ⟨d.watchdog_fd, hw, by rw [if_neg ha, if_pos hw]⟩

/-- the calls of a pass that waits for both -/
theorem pass_ok (hs : s.rfds = {d.assert_fd, d.watchdog_fd}) (i : Pass) : ∀ c ∈ (d.pass s i).2, c.Ok d := by
  have hselect : (Call.select s.rfds).Ok d := by
    rw [hs]
    exact ⟨Finset.mem_insert_self .., Finset.mem_insert_of_mem (Finset.mem_singleton_self _)⟩
  unfold Devices.pass
  dsimp only
  split_ifs with hret hfd
  · rwa [List.forall_mem_singleton]
  · have hread := pick_reported hs.subset hret
    split
    · rw [List.forall_mem_cons, List.forall_mem_singleton]
      exact ⟨hselect, hread⟩
    · rw [List.forall_mem_cons, List.forall_mem_cons, List.forall_mem_singleton]
      exact ⟨hselect, hread, trivial⟩
  · rwa [List.forall_mem_singleton]

/-- the set after a pass -/
theorem pass_both (hs : s.rfds = {d.assert_fd, d.watchdog_fd}) (i : Pass) :
    i.Both d ↔ (d.pass s i).1.rfds = {d.assert_fd, d.watchdog_fd} := by
  rw [pass_rfds, Pass.Both]
  cases i.selected with
  | interrupted => exact iff_of_true trivial hs
  | failed => exact iff_of_true trivial hs
  | ready fds =>
    rw [select, hs, Finset.inter_eq_left, Finset.insert_subset_iff, Finset.singleton_subset_iff]

end Pass

/-! ## A run -/

theorem trace_watch_iff {d : Devices} {s : Loop} (hs : s.rfds = {d.assert_fd, d.watchdog_fd}) (passes : List Pass) :
    (∀ c ∈ (trace d.pass s passes).2, c.Ok d) ↔ ∀ i ∈ passes.dropLast, i.Both d := by
  induction passes generalizing s with
  | nil => simp
  | cons i rest ih =>
    rw [trace_cons, List.forall_mem_append]
    cases rest with
    | nil => simpa using pass_ok hs i
    | cons j rest =>
      rw [List.dropLast_cons_of_ne_nil (List.cons_ne_nil j rest), List.forall_mem_cons]
      constructor
      · rintro ⟨-, hrest⟩
        -- the next pass waits for what this one has left
        have hnext : (Call.select (d.pass s i).1.rfds).Ok d := by
          apply hrest
          rw [trace_cons]
          exact List.mem_append_left _ (pass_select d _ j)
        have hsub : (d.pass s i).1.rfds ⊆ {d.assert_fd, d.watchdog_fd} := by
          rw [pass_rfds, ← hs]
          exact select_subset _ _
        have hfull : (d.pass s i).1.rfds = {d.assert_fd, d.watchdog_fd} := by
          refine hsub.antisymm ?_
          rw [Finset.insert_subset_iff, Finset.singleton_subset_iff]
          exact hnext
        exact ⟨(pass_both hs i).2 hfull, (ih hfull).1 hrest⟩
      · rintro ⟨hboth, hrest⟩
        exact ⟨pass_ok hs i, (ih ((pass_both hs i).1 hboth)).2 hrest⟩

/-- **The watch.** Every select waits for both devices, and every read is on a reported one, exactly when every select
but the last fails or reports both -/
theorem watch_iff (d : Devices) (passes : List Pass) :
    (∀ c ∈ d.calls passes, c.Ok d) ↔ ∀ i ∈ passes.dropLast, i.Both d := trace_watch_iff rfl passes

/-- the watchdog is not waited for behind an assert -/
theorem watch_first_event : ¬ ∀ (d : Devices) (passes : List Pass), ∀ c ∈ d.calls passes, c.Ok d := by
  intro h
  have hselect := h ⟨3, 4⟩ [⟨.ready {3}, some .assert⟩, ⟨.ready {4}, none⟩] (.select {3}) (by decide)
  have hwatchdog : 4 ∈ ({3} : Finset ℕ) := hselect.2
  revert hwatchdog
  decide

end SprdDevice.Modemd.Watch
