/-
The snooze of the power-off alarm (apps/alarm/alarm.c, update_alarm_sec_list): the alarm that has rung is due again some
seconds from now, and the next alarm is looked for in the changed list.

Times are absolute, and local time is a constant offset from them; a week begins with Monday. The new second of the week
is stored as it is, also when the week is over before.
Result: `snooze_iff`.
-/
import Mathlib.Tactic
import SprdDevice.Alarm.Latest
import SprdDevice.Lib.Run

namespace SprdDevice.Alarm

open SprdDevice.Search SprdDevice.Run

/-! ## Model -/

/-- the seconds since the last Monday, in a zone that is offset away -/
def weekSecs (offset t : ℤ) : ℕ := ((t + offset) % week).toNat

-- by name, so that the definition has no proof of its own in it
local instance neZero_days : NeZero 7 := ⟨by decide⟩

local instance neZero_hours : NeZero 24 := ⟨by decide⟩

local instance neZero_sixty : NeZero 60 := ⟨by decide⟩

def localtime (offset t : ℤ) : Tm where
  tm_wday := Fin.ofNat 7 (weekSecs offset t / 86400 + 1)
  tm_hour := Fin.ofNat 24 (weekSecs offset t / 3600)
  tm_min := Fin.ofNat 60 (weekSecs offset t / 60)
  tm_sec := Fin.ofNat 60 (weekSecs offset t)

/-- the first alarm of this time gets its new one -/
def update_alarm_sec_list (tm : Tm) (fire_secs snoozetime : ℤ) : List AlarmSec → List AlarmSec
  | [] => []
  | p1 :: rest =>
    if p1.secs = fire_secs then
      { p1 with secs := tm.weekday * 24 * 3600 + tm.tm_hour.val * 3600 + tm.tm_min.val * 60 + tm.tm_sec.val + snoozetime }
        :: rest
    else p1 :: update_alarm_sec_list tm fire_secs snoozetime rest

theorem localtime_now (offset t : ℤ) : (localtime offset t).now = (t + offset) % week := by
  have hweek : (0 : ℤ) < week := by decide
  have hsecs : ((weekSecs offset t : ℕ) : ℤ) = (t + offset) % week :=
    Int.toNat_of_nonneg (Int.emod_nonneg _ hweek.ne')
  have hlt : weekSecs offset t < 604800 := by
    have hmod := Int.emod_lt_of_pos (t + offset) hweek
    unfold week at hmod hsecs
    omega
  rw [← hsecs]
  generalize hw : weekSecs offset t = w at hlt
  unfold Tm.now get_secs_in_weeks Tm.weekday localtime
  dsimp only
  rw [hw]
  simp only [Fin.ext_iff, Fin.val_ofNat]
  split_ifs <;> omega

theorem update_value (tm : Tm) : tm.weekday * 24 * 3600 + tm.tm_hour.val * 3600 + tm.tm_min.val * 60 + tm.tm_sec.val = tm.now := by
  unfold Tm.now get_secs_in_weeks
  dsimp only
  omega

/-- with distinct times, the alarm at i is the one that changes -/
theorem update_eq_set (tm : Tm) (snoozetime : ℤ) {alarms : List AlarmSec} (hnodup : (alarms.map AlarmSec.secs).Nodup)
    {i : ℕ} {p : AlarmSec} (hi : alarms[i]? = some p) :
    update_alarm_sec_list tm p.secs snoozetime alarms = alarms.set i { p with secs := tm.now + snoozetime } := by
  induction alarms generalizing i with
  | nil => cases hi
  | cons q rest ih =>
    rw [List.map_cons, List.nodup_cons] at hnodup
    cases i with
    | zero =>
      obtain rfl := Option.some.inj hi
      rw [update_alarm_sec_list, if_pos rfl, update_value, List.set_cons_zero]
    | succ i =>
      have hmem : p ∈ rest := List.mem_of_getElem? hi
      have hne : q.secs ≠ p.secs := by
        intro heq
        apply hnodup.1
        rw [heq]
        exact List.mem_map_of_mem hmem
      rw [update_alarm_sec_list, if_neg hne, ih hnodup.2 hi, List.set_cons_succ]

/-! ## Calls behind a snooze -/

/-- a call with NULL or a pointer, at an absolute time -/
structure Later where
  time : ℤ
  fire_alarm : Option (Option ℕ)
deriving DecidableEq, Repr

def latest (offset : ℤ) (alarms : List AlarmSec) (f : Flags) (c : Later) : Latest :=
  get_latest_alarm_time (localtime offset c.time) alarms c.fire_alarm f

/-- an alarm counts unless a ring is lost; then those behind the overdue one do -/
def Counts (now : ℤ) (f : Flags) (alarms : List AlarmSec) (j : ℕ) : Prop :=
  ¬ (f.Unused ∧ Lost now alarms) ∨ ∃ k < j, ∃ p, alarms[k]? = some p ∧ Overdue now p

/-- the time returned keeps within b exactly when that to an alarm from lo on does -/
theorem Returns.ret_le_iff {now : ℤ} {alarms : List AlarmSec} {lo : ℕ} {fire_alarm : Option (Option ℕ)} {f : Flags}
    {r : Latest} {i : ℕ} (h : Returns (waits now alarms) lo alarms.length fire_alarm f r i) (b : ℤ) :
    r.ret ≤ b ↔ ∃ j q, lo ≤ j ∧ alarms[j]? = some q ∧ wait now q ≤ b := by
  rw [h.ret, h.least.le_iff]
  constructor
  · rintro ⟨j, hlo, hj, hle⟩
    rw [waits_eq (List.getElem?_eq_getElem hj)] at hle
    exact ⟨j, _, hlo, List.getElem?_eq_getElem hj, hle⟩
  · rintro ⟨j, q, hlo, hj, hle⟩
    refine ⟨j, hlo, (List.getElem?_eq_some_iff.1 hj).1, ?_⟩
    rwa [waits_eq hj]

/-- what a call returns keeps within b exactly when an overdue alarm rings, or the time to an alarm that counts does -/
theorem latest_le_iff {tm : Tm} {alarms : List AlarmSec} (hne : alarms ≠ []) (hpos : ∀ p ∈ alarms, 0 ≤ p.secs)
    (fire_alarm : Option (Option ℕ)) {f : Flags} (hf : f.Inv) {b : ℤ} (hb : 0 ≤ b) :
    (get_latest_alarm_time tm alarms fire_alarm f).ret ≤ b ↔
      (f.Unused ∧ (∃ p ∈ alarms, Overdue tm.now p) ∧ ¬ Lost tm.now alarms) ∨
        ∃ j q, alarms[j]? = some q ∧ Counts tm.now f alarms j ∧ wait tm.now q ≤ b := by
  cases @call_cases tm _ hne hpos fire_alarm _ hf with
  | plain i hnot hi =>
    rw [hi.ret_le_iff]
    constructor
    · rintro ⟨j, q, -, hj, hle⟩
      exact Or.inr ⟨j, q, hj, Or.inl fun h => hnot ⟨h.1, h.2.overdue⟩, hle⟩
    · rintro (⟨hunused, hover, -⟩ | ⟨j, q, hj, -, hle⟩)
      · exact absurd ⟨hunused, hover⟩ hnot
      · exact ⟨j, q, Nat.zero_le j, hj, hle⟩
  | rings i p hunused hkept hget hp hret hfire hflags =>
    rw [hret]
    exact iff_of_true hb (Or.inl ⟨hunused, ⟨p, List.mem_of_getElem? hget, hp⟩, hkept⟩)
  | lost pre l p i hunused hlost heq hpre hone hi =>
    rw [hi.ret_le_iff]
    constructor
    · rintro ⟨j, q, hlo, hj, hle⟩
      refine Or.inr ⟨j, q, hj, Or.inr ⟨pre.length, hlo, p, ?_, ?_⟩, hle⟩
      · rw [heq]
        simp
      · unfold Overdue
        omega
    · rintro (⟨-, -, hkept⟩ | ⟨j, q, hj, hcounts, hle⟩)
      · exact absurd hlost hkept
      · rcases hcounts with hkept | ⟨k, hk, r, hr, hover⟩
        · exact absurd ⟨hunused, hlost⟩ hkept
        · have hge : pre.length ≤ k := by
            by_contra hlt
            rw [heq, List.getElem?_append_left (not_le.1 hlt)] at hr
            exact hpre r (List.mem_of_getElem? hr) hover
          exact ⟨j, q, by omega, hj, hle⟩

/-! ## The snoozed alarm -/

/-- no Monday begins between the two times -/
def SameWeek (offset t u : ℤ) : Prop := (t + offset) / week = (u + offset) / week

theorem wait_snoozed {offset t s u : ℤ} (hu : t ≤ u ∧ u ≤ t + s) (hs : s < week) {p : AlarmSec}
    (hp : p.secs = (t + offset) % week + s) :
    wait ((u + offset) % week) p ≤ t + s - u ↔ SameWeek offset t u := by
  have hweek : week = 604800 := by decide
  unfold wait SameWeek
  rw [hp]
  rw [hweek] at hs ⊢
  split_ifs <;> omega

/-- alarms of the week with times of their own -/
structure DistinctAlarms extends Alarms where
  nodup : (list.map AlarmSec.secs).Nodup

/-- the list after the alarm p is snoozed at time t -/
def snoozed (offset t s : ℤ) (p : AlarmSec) (alarms : List AlarmSec) : List AlarmSec :=
  update_alarm_sec_list (localtime offset t) p.secs s alarms

/-- the call returns at most the rest of the snooze -/
def OnTime (offset t s : ℤ) (alarms : List AlarmSec) (f : Flags) (c : Later) : Prop :=
  (latest offset alarms f c).ret ≤ t + s - c.time

/-- an overdue alarm rings, or an alarm that counts is in time: the snoozed one, at i, as long as the week of the snooze
is not over, and every other one by its distance -/
def InTime (offset t s : ℤ) (i : ℕ) (alarms : List AlarmSec) (f : Flags) (c : Later) : Prop :=
  let now := (localtime offset c.time).now
  (f.Unused ∧ (∃ p ∈ alarms, Overdue now p) ∧ ¬ Lost now alarms) ∨
    ∃ j q, alarms[j]? = some q ∧ Counts now f alarms j ∧
      if j = i then SameWeek offset t c.time else (q.secs - now) % week ≤ t + s - c.time

section Snoozed

variable {offset t s : ℤ} (alarms : DistinctAlarms) {i : ℕ} {p : AlarmSec} (hi : alarms.list[i]? = some p)
include hi

theorem snoozed_eq_set :
    snoozed offset t s p alarms.list = alarms.list.set i { p with secs := (t + offset) % week + s } := by
  rw [snoozed, update_eq_set _ _ alarms.nodup hi, localtime_now]

/-- the alarm at i rings after the snooze, the others are in the week -/
theorem snoozed_cases {j : ℕ} {q : AlarmSec} (hq : (snoozed offset t s p alarms.list)[j]? = some q) :
    (j = i ∧ q.secs = (t + offset) % week + s) ∨ (j ≠ i ∧ 0 ≤ q.secs ∧ q.secs < week) := by
  rw [snoozed_eq_set alarms hi] at hq
  by_cases hji : j = i
  · rw [hji, List.getElem?_set_self (List.getElem?_eq_some_iff.1 hi).1] at hq
    rw [← Option.some.inj hq]
    exact Or.inl ⟨hji, rfl⟩
  · rw [List.getElem?_set_ne (Ne.symm hji)] at hq
    exact Or.inr ⟨hji, alarms.range q (List.mem_of_getElem? hq)⟩

theorem snoozed_nonneg (hs : 0 < s) : ∀ q ∈ snoozed offset t s p alarms.list, 0 ≤ q.secs := by
  intro q hq
  obtain ⟨j, hj⟩ := List.mem_iff_getElem?.1 hq
  rcases snoozed_cases alarms hi hj with ⟨-, heq⟩ | ⟨-, hrange⟩
  · have hnonneg := Int.emod_nonneg (t + offset) (by decide : week ≠ 0)
    omega
  · exact hrange.1

theorem onTime_iff (hs : 0 < s) (hsw : s < week) {f : Flags} (hf : f.Inv) {c : Later}
    (hc : t ≤ c.time ∧ c.time ≤ t + s) :
    (OnTime offset t s (snoozed offset t s p alarms.list) f c ↔
        InTime offset t s i (snoozed offset t s p alarms.list) f c) ∧
      (latest offset (snoozed offset t s p alarms.list) f c).flags.Inv := by
  have hne : snoozed offset t s p alarms.list ≠ [] := by
    rw [snoozed_eq_set alarms hi, Ne, List.set_eq_nil_iff]
    exact alarms.ne
  have hpos := @snoozed_nonneg offset t s alarms i p hi hs
  refine ⟨?_, latest_inv _ hne hpos _ hf⟩
  unfold OnTime InTime latest
  rw [latest_le_iff hne hpos _ hf (by omega)]
  refine or_congr Iff.rfl (exists_congr fun j => exists_congr fun q => and_congr_right fun hj => and_congr_right fun _ => ?_)
  rcases snoozed_cases alarms hi hj with ⟨hji, heq⟩ | ⟨hji, hrange⟩
  · rw [if_pos hji, localtime_now]
    exact wait_snoozed hc hsw heq
  · rw [if_neg hji, wait_eq_emod (Tm.now_range _) hrange]

end Snoozed

/-- **The snooze.** The other alarms keep their times; and behind any earlier calls, every later call of a run returns at
most the rest of the snooze exactly when it meets an alarm in time -/
theorem snooze_iff (history : List Call) (offset t s : ℤ) (hs : 0 < s) (hsw : s < week) (alarms : DistinctAlarms) (i : ℕ)
    (p : AlarmSec) (hi : alarms.list[i]? = some p) (calls : List Later)
    (hcalls : ∀ c ∈ calls, t ≤ c.time ∧ c.time ≤ t + s) :
    (∀ j, j ≠ i → (snoozed offset t s p alarms.list)[j]? = alarms.list[j]?) ∧
      (Along (fun f c => (latest offset (snoozed offset t s p alarms.list) f c).flags)
          (OnTime offset t s (snoozed offset t s p alarms.list)) (flagsAfter history) calls ↔
        Along (fun f c => (latest offset (snoozed offset t s p alarms.list) f c).flags)
          (InTime offset t s i (snoozed offset t s p alarms.list)) (flagsAfter history) calls) := by
  constructor
  · intro j hj
    rw [snoozed, update_eq_set _ _ alarms.nodup hi, List.getElem?_set_ne (Ne.symm hj)]
  · apply along_congr Flags.Inv _ (flagsAfter_inv history) hcalls
    intro f c hf hc
    exact onTime_iff alarms hi hs hsw hf hc

/-- two alarms, of which the second is snoozed for a minute -/
def alarmPair : DistinctAlarms := ⟨⟨[⟨0, 300000, 1⟩, ⟨0, 400000, 2⟩], by decide, by decide⟩, by decide⟩

def afterMinute : List AlarmSec := snoozed 0 400000 60 ⟨0, 400000, 2⟩ alarmPair.list

def twoCalls : List Later := [⟨400010, none⟩, ⟨400050, none⟩]

theorem snooze_iff_minute : (∀ j, j ≠ 1 → afterMinute[j]? = alarmPair.list[j]?) ∧
    (Along (fun f c => (latest 0 afterMinute f c).flags) (OnTime 0 400000 60 afterMinute) (flagsAfter []) twoCalls ↔
      Along (fun f c => (latest 0 afterMinute f c).flags) (InTime 0 400000 60 1 afterMinute) (flagsAfter []) twoCalls) :=
  snooze_iff [] 0 400000 60 (by decide) (by decide) alarmPair 1 ⟨0, 400000, 2⟩ rfl twoCalls (by decide)

/-- an alarm a few seconds before the week is over -/
def oneAlarm : DistinctAlarms := ⟨⟨[⟨0, 604790, 1⟩], by decide, by decide⟩, by decide⟩

/-- the week is over before the snooze is -/
theorem snooze_over_monday : ¬ ∀ (history : List Call) (offset t s : ℤ), 0 < s → s < week →
    ∀ (alarms : DistinctAlarms) (i : ℕ) (p : AlarmSec), alarms.list[i]? = some p → ∀ calls : List Later,
      (∀ c ∈ calls, t ≤ c.time ∧ c.time ≤ t + s) →
        Along (fun f c => (latest offset (snoozed offset t s p alarms.list) f c).flags)
          (OnTime offset t s (snoozed offset t s p alarms.list)) (flagsAfter history) calls := by
  intro h
  have hlate : (latest 0 (snoozed 0 604790 60 ⟨0, 604790, 1⟩ oneAlarm.list) ⟨false, false⟩ ⟨604810, none⟩).ret ≤
      604790 + 60 - 604810 :=
    (h [] 0 604790 60 (by decide) (by decide) oneAlarm 0 ⟨0, 604790, 1⟩ rfl [⟨604810, none⟩] (by decide)).1
  revert hlate
  decide +kernel

end SprdDevice.Alarm
