/-
The next alarm of the power-off alarm (apps/alarm/alarm.c, get_secs_in_weeks and get_latest_alarm_time): the list of the
alarms is searched for the one that is due next, in seconds of the week.

- A pointer to an alarm is its place in the list. `Latest` has what a call returns and stores, and the alarm that is
  disabled in the database because it rings once only.
- Two static flags give the first overdue alarm a grace of a minute: `first_alarm` when it is met, `first_ring` when the
  call is over.
- -1 is the shortest time as long as there is none, and the time of an alarm that is overdue by a second.

Result: `next_alarm_iff`.
-/
import Mathlib.Tactic
import SprdDevice.Lib.Search

namespace SprdDevice.Alarm

open SprdDevice.Search

/-! ## The clock -/

def week : ℤ := 7 * 24 * 60 * 60

/-- what localtime gives; the week of tm_wday begins with Sunday -/
structure Tm where
  tm_wday : Fin 7
  tm_hour : Fin 24
  tm_min : Fin 60
  tm_sec : Fin 60
deriving DecidableEq, Repr

/-- from Monday on -/
def Tm.weekday (tm : Tm) : ℤ := if tm.tm_wday = 0 then 6 else (tm.tm_wday.val : ℤ) - 1

inductive Which where
  | weekdaySecs
  | weekdayRemainSecs
deriving DecidableEq, Repr

def get_secs_in_weeks (tm : Tm) : Which → ℤ
  | .weekdaySecs => tm.weekday * 24 * 60 * 60 + tm.tm_hour.val * 60 * 60 + tm.tm_min.val * 60 + tm.tm_sec.val
  | .weekdayRemainSecs =>
    (6 - tm.weekday) * 24 * 60 * 60 + (23 - tm.tm_hour.val) * 60 * 60 + (59 - tm.tm_min.val) * 60 + (60 - tm.tm_sec.val)

/-- the second of the week -/
def Tm.now (tm : Tm) : ℤ := get_secs_in_weeks tm .weekdaySecs

theorem Tm.now_range (tm : Tm) : 0 ≤ tm.now ∧ tm.now < week := by
  have hwday := tm.tm_wday.isLt
  have hhour := tm.tm_hour.isLt
  have hmin := tm.tm_min.isLt
  have hsec := tm.tm_sec.isLt
  have hweekday : 0 ≤ tm.weekday ∧ tm.weekday ≤ 6 := by
    unfold weekday
    split_ifs with h0
    · decide
    · have hne : tm.tm_wday.val ≠ 0 := fun h => h0 (Fin.ext h)
      omega
  unfold now get_secs_in_weeks week
  dsimp only
  omega

/-! ## Model -/

structure AlarmSec where
  /-- -1 for an alarm that rings once -/
  day : ℤ
  secs : ℤ
  db_id : ℤ
deriving DecidableEq, Repr, Inhabited

structure Flags where
  first_ring : Bool
  first_alarm : Bool
deriving DecidableEq, Repr

/-- the shortest time so far, and whose it is -/
structure Scan where
  min : ℤ
  alarm_cur : Option ℕ
  first_alarm : Bool
deriving DecidableEq, Repr

/-- the time to an alarm, and first_alarm -/
def remaining (cur_time : ℤ) (first_alarm : Bool) (p : AlarmSec) : ℤ × Bool :=
  let tmp := p.secs - cur_time
  if tmp < 0 then
    if first_alarm = true ∨ tmp < -60 then (tmp + week, first_alarm) else (tmp, true)
  else (tmp, first_alarm)

def visit (cur_time : ℤ) (i : ℕ) (p : AlarmSec) (s : Scan) : Scan :=
  let (tmp, first_alarm) := remaining cur_time s.first_alarm p
  if s.min = -1 then ⟨tmp, some i, first_alarm⟩
  else if s.min > tmp then ⟨tmp, some i, first_alarm⟩
  else ⟨s.min, s.alarm_cur, first_alarm⟩

/-- the list from alarm i on -/
def scan (cur_time : ℤ) : ℕ → List AlarmSec → Scan → Scan
  | _, [], s => s
  | i, p :: rest, s => scan cur_time (i + 1) rest (visit cur_time i p s)

structure Latest where
  ret : ℤ
  /-- what the argument points to; none for NULL -/
  fire_alarm : Option (Option ℕ)
  /-- none when it is left alone -/
  alarm_cur : Option ℕ
  disabled : Option ℤ
  flags : Flags
deriving DecidableEq, Repr

/-- behind the loop -/
def finish (tm : Tm) (alarms : List AlarmSec) (fire_alarm : Option (Option ℕ)) (f : Flags) (s : Scan) : Latest :=
  let (min, first_ring) :=
    if s.min < 0 then
      if f.first_ring = true then (s.min + get_secs_in_weeks tm .weekdayRemainSecs, true) else (0, true)
    else (s.min, f.first_ring)
  if min = 0 then
    let cur := s.alarm_cur.bind fun i => alarms[i]?
    ⟨0, fire_alarm.map fun _ => s.alarm_cur, s.alarm_cur, (cur.filter fun p => p.day = -1).map AlarmSec.db_id,
      ⟨first_ring, s.first_alarm⟩⟩
  else ⟨min, fire_alarm.map fun _ => none, s.alarm_cur, none, ⟨first_ring, s.first_alarm⟩⟩

def get_latest_alarm_time (tm : Tm) (alarms : List AlarmSec) (fire_alarm : Option (Option ℕ)) (f : Flags) : Latest :=
  match alarms with
  | [] => ⟨-1, fire_alarm.map fun _ => none, none, none, f⟩
  | _ :: _ => finish tm alarms fire_alarm f (scan tm.now 0 alarms ⟨-1, none, f.first_alarm⟩)

/-! ## One alarm -/

/-- within the grace -/
def Overdue (now : ℤ) (p : AlarmSec) : Prop := -60 ≤ p.secs - now ∧ p.secs - now < 0

instance (now : ℤ) : DecidablePred (Overdue now) := fun _ => inferInstanceAs (Decidable (_ ∧ _))

/-- the time to an alarm without a grace -/
def wait (now : ℤ) (p : AlarmSec) : ℤ := if p.secs - now < 0 then p.secs - now + week else p.secs - now

/-- by the place in the list -/
def waits (now : ℤ) (alarms : List AlarmSec) (i : ℕ) : ℤ := (alarms[i]?).elim 0 (wait now)

theorem wait_nonneg {now : ℤ} (hnow : now < week) {p : AlarmSec} (hp : 0 ≤ p.secs) : 0 ≤ wait now p := by
  unfold wait
  split_ifs with hneg <;> omega

/-- the distance on the circle of the week -/
theorem wait_eq_emod {now : ℤ} (hnow : 0 ≤ now ∧ now < week) {p : AlarmSec} (hp : 0 ≤ p.secs ∧ p.secs < week) :
    wait now p = (p.secs - now) % week := by
  unfold wait week at *
  split_ifs with hneg <;> omega

theorem remaining_plain {now : ℤ} {first_alarm : Bool} {p : AlarmSec} (h : first_alarm = true ∨ ¬ Overdue now p) :
    remaining now first_alarm p = (wait now p, first_alarm) := by
  unfold remaining wait Overdue at *
  dsimp only
  split_ifs with hneg hskip
  · rfl
  · rw [not_or, not_lt] at hskip
    rcases h with h | h
    · exact absurd h hskip.1
    · exact absurd ⟨hskip.2, hneg⟩ h
  · rfl

theorem remaining_overdue {now : ℤ} {p : AlarmSec} (h : Overdue now p) :
    remaining now false p = (p.secs - now, true) := by
  unfold remaining
  dsimp only
  rw [if_pos h.2, if_neg]
  rw [not_or, not_lt]
  exact ⟨Bool.false_ne_true, h.1⟩

theorem visit_overdue {now : ℤ} {p : AlarmSec} (h : Overdue now p) {s : Scan} (hflag : s.first_alarm = false)
    (hmin : s.min = -1 ∨ 0 ≤ s.min) (i : ℕ) : visit now i p s = ⟨p.secs - now, some i, true⟩ := by
  have hneg := h.2
  unfold visit
  rw [hflag, remaining_overdue h]
  dsimp only
  split_ifs with hone hgt
  · rfl
  · rfl
  · omega

/-! ## The list -/

theorem scan_append (now : ℤ) (a b : List AlarmSec) (i : ℕ) (s : Scan) :
    scan now i (a ++ b) s = scan now (i + a.length) b (scan now i a s) := by
  induction a generalizing i s with
  | nil => rfl
  | cons p a ih =>
    rw [List.cons_append, scan, scan, ih, List.length_cons, Nat.add_assoc, Nat.add_comm 1]

/-- nothing is found yet from alarm lo on, or the first of the shortest times -/
def Found (f : ℕ → ℤ) (lo n : ℕ) (s : Scan) : Prop :=
  (lo = n ∧ s.min = -1) ∨ ∃ i, FirstMin f lo n i ∧ s.min = f i ∧ 0 ≤ f i ∧ s.alarm_cur = some i

theorem found_visit {now : ℤ} {f : ℕ → ℤ} {lo n : ℕ} {s : Scan} (h : Found f lo n s) {p : AlarmSec}
    (hp : s.first_alarm = true ∨ ¬ Overdue now p) (hf : f n = wait now p) (hpos : 0 ≤ wait now p) :
    Found f lo (n + 1) (visit now n p s) ∧ (visit now n p s).first_alarm = s.first_alarm := by
  unfold visit
  rw [remaining_plain hp]
  dsimp only
  rcases h with ⟨rfl, hmin⟩ | ⟨i, hi, hmin, hi0, hcur⟩
  · rw [if_pos hmin]
    exact ⟨Or.inr ⟨lo, firstMin_single f lo, hf.symm, hf ▸ hpos, rfl⟩, rfl⟩
  · rw [if_neg (by omega)]
    split_ifs with hgt
    · have hlow : f n < f i := by omega
      exact ⟨Or.inr ⟨n, hi.lower hlow, hf.symm, hf ▸ hpos, rfl⟩, rfl⟩
    · have hkeep : f i ≤ f n := by omega
      exact ⟨Or.inr ⟨i, hi.keep hkeep, hmin, hi0, hcur⟩, rfl⟩

theorem found_scan {now : ℤ} {f : ℕ → ℤ} {lo n : ℕ} {s : Scan} {l : List AlarmSec} (h : Found f lo n s)
    (hl : s.first_alarm = true ∨ ∀ p ∈ l, ¬ Overdue now p) (hf : ∀ j p, l[j]? = some p → f (n + j) = wait now p)
    (hpos : ∀ p ∈ l, 0 ≤ wait now p) :
    Found f lo (n + l.length) (scan now n l s) ∧ (scan now n l s).first_alarm = s.first_alarm := by
  induction l generalizing n s with
  | nil => exact ⟨h, rfl⟩
  | cons p l ih =>
    have hp : s.first_alarm = true ∨ ¬ Overdue now p := hl.imp id fun hno => hno p (List.mem_cons_self ..)
    obtain ⟨hfound, hflag⟩ := found_visit h hp (hf 0 p rfl) (hpos p (List.mem_cons_self ..))
    have hrest : (visit now n p s).first_alarm = true ∨ ∀ q ∈ l, ¬ Overdue now q := by
      rw [hflag]
      exact hl.imp id fun hno q hq => hno q (List.mem_cons_of_mem p hq)
    have hplaces : ∀ j q, l[j]? = some q → f (n + 1 + j) = wait now q := by
      intro j q hq
      rw [Nat.add_assoc, Nat.add_comm 1]
      exact hf (j + 1) q hq
    obtain ⟨hfinal, hsame⟩ := ih hfound hrest hplaces fun q hq => hpos q (List.mem_cons_of_mem p hq)
    rw [List.length_cons, Nat.add_comm l.length, ← Nat.add_assoc]
    exact ⟨hfinal, hsame.trans hflag⟩

/-- a time below -1 stays the shortest -/
theorem scan_low {now : ℤ} {n : ℕ} {s : Scan} {l : List AlarmSec} (hmin : s.min < -1) (hflag : s.first_alarm = true)
    (hpos : ∀ p ∈ l, 0 ≤ wait now p) : scan now n l s = s := by
  induction l generalizing n with
  | nil => rfl
  | cons p l ih =>
    have hp := hpos p (List.mem_cons_self ..)
    have hvisit : visit now n p s = s := by
      unfold visit
      rw [remaining_plain (Or.inl hflag)]
      dsimp only
      rw [if_neg (by omega), if_neg (by omega)]
    rw [scan, hvisit]
    exact ih fun q hq => hpos q (List.mem_cons_of_mem p hq)

theorem waits_eq {now : ℤ} {alarms : List AlarmSec} {i : ℕ} {p : AlarmSec} (h : alarms[i]? = some p) :
    waits now alarms i = wait now p := by rw [waits, h, Option.elim_some]

theorem waits_behind {now : ℤ} {pre l : List AlarmSec} {j : ℕ} {p : AlarmSec} (h : l[j]? = some p) :
    waits now (pre ++ l) (pre.length + j) = wait now p := by
  apply waits_eq
  rwa [List.getElem?_append_right (Nat.le_add_right _ j), Nat.add_sub_cancel_left]

/-! ## One call -/

theorem get_latest_eq (tm : Tm) {alarms : List AlarmSec} (hne : alarms ≠ []) (fire_alarm : Option (Option ℕ)) (f : Flags) :
    get_latest_alarm_time tm alarms fire_alarm f =
      finish tm alarms fire_alarm f (scan tm.now 0 alarms ⟨-1, none, f.first_alarm⟩) := by
  cases alarms with
  | nil => exact absurd rfl hne
  | cons p l => rfl

/-- the call returns the first of the shortest times from alarm lo on -/
structure Returns (f : ℕ → ℤ) (lo n : ℕ) (fire_alarm : Option (Option ℕ)) (flags : Flags) (r : Latest) (i : ℕ) : Prop where
  least : FirstMin f lo n i
  ret : r.ret = f i
  cur : r.alarm_cur = some i
  fire : r.fire_alarm = fire_alarm.map fun _ => if f i = 0 then some i else none
  flags : r.flags = flags

theorem finish_nonneg {tm : Tm} {alarms : List AlarmSec} {fire_alarm : Option (Option ℕ)} {f : Flags} {s : Scan}
    (hmin : ¬ s.min < 0) :
    (finish tm alarms fire_alarm f s).ret = s.min ∧
      (finish tm alarms fire_alarm f s).fire_alarm = (fire_alarm.map fun _ => if s.min = 0 then s.alarm_cur else none) ∧
      (finish tm alarms fire_alarm f s).alarm_cur = s.alarm_cur ∧
      (finish tm alarms fire_alarm f s).flags = ⟨f.first_ring, s.first_alarm⟩ := by
  unfold finish
  rw [if_neg hmin]
  dsimp only
  split_ifs with h0
  · exact ⟨h0.symm, rfl, rfl, rfl⟩
  · exact ⟨rfl, rfl, rfl, rfl⟩

theorem finish_found {tm : Tm} {alarms : List AlarmSec} {fire_alarm : Option (Option ℕ)} {f : Flags} {s : Scan}
    {g : ℕ → ℤ} {lo n : ℕ} (h : Found g lo n s) (hlo : lo < n) :
    ∃ i, Returns g lo n fire_alarm ⟨f.first_ring, s.first_alarm⟩ (finish tm alarms fire_alarm f s) i := by
  rcases h with ⟨heq, -⟩ | ⟨i, hi, hmin, hi0, hcur⟩
  · exact absurd heq (Nat.ne_of_lt hlo)
  · have hnot : ¬ s.min < 0 := by omega
    obtain ⟨hret, hfire, hnew, hflags⟩ := @finish_nonneg tm alarms fire_alarm f s hnot
    refine ⟨i, hi, hret.trans hmin, hnew.trans hcur, ?_, hflags⟩
    rw [hfire, hmin, hcur]

/-- the grace -/
theorem finish_low {tm : Tm} {alarms : List AlarmSec} {fire_alarm : Option (Option ℕ)} {f : Flags} {s : Scan}
    (hring : f.first_ring = false) (hmin : s.min < 0) :
    (finish tm alarms fire_alarm f s).ret = 0 ∧
      (finish tm alarms fire_alarm f s).fire_alarm = (fire_alarm.map fun _ => s.alarm_cur) ∧
      (finish tm alarms fire_alarm f s).alarm_cur = s.alarm_cur ∧
      (finish tm alarms fire_alarm f s).flags = ⟨true, s.first_alarm⟩ := by
  unfold finish
  dsimp only
  rw [if_pos hmin, hring, if_neg Bool.false_ne_true]
  dsimp only
  rw [if_pos rfl]
  exact ⟨rfl, rfl, rfl, rfl⟩

section Call

variable {tm : Tm} {alarms : List AlarmSec} {fire_alarm : Option (Option ℕ)} {f : Flags}

/-- a scan that lets no overdue alarm through returns the first of the shortest times -/
theorem finish_scan {pre l : List AlarmSec} (halarms : alarms = pre ++ l) (hpos : ∀ q ∈ alarms, 0 ≤ q.secs) {lo : ℕ} {s : Scan}
    (h : Found (waits tm.now alarms) lo pre.length s) (hlo : lo < alarms.length)
    (hl : s.first_alarm = true ∨ ∀ q ∈ l, ¬ Overdue tm.now q) :
    ∃ i, Returns (waits tm.now alarms) lo alarms.length fire_alarm ⟨f.first_ring, s.first_alarm⟩
      (finish tm alarms fire_alarm f (scan tm.now pre.length l s)) i := by
  have hplaces : ∀ j q, l[j]? = some q → waits tm.now alarms (pre.length + j) = wait tm.now q := by
    intro j q hq
    rw [halarms]
    exact waits_behind hq
  have hwaits : ∀ q ∈ l, 0 ≤ wait tm.now q := by
    intro q hq
    apply wait_nonneg tm.now_range.2
    apply hpos
    rw [halarms]
    exact List.mem_append_right pre hq
  have hlen : pre.length + l.length = alarms.length := by rw [halarms, List.length_append]
  obtain ⟨hfound, hflag⟩ := found_scan h hl hplaces hwaits
  rw [hlen] at hfound
  obtain ⟨i, hi⟩ := @finish_found tm alarms fire_alarm f _ _ _ _ hfound hlo
  rw [hflag] at hi
  exact ⟨i, hi⟩

/-- without an overdue alarm that is let through -/
theorem latest_plain (hne : alarms ≠ []) (hpos : ∀ p ∈ alarms, 0 ≤ p.secs)
    (hplain : f.first_alarm = true ∨ ∀ p ∈ alarms, ¬ Overdue tm.now p) :
    ∃ i, Returns (waits tm.now alarms) 0 alarms.length fire_alarm f (get_latest_alarm_time tm alarms fire_alarm f) i := by
  have hstart : Found (waits tm.now alarms) 0 ([] : List AlarmSec).length ⟨-1, none, f.first_alarm⟩ := Or.inl ⟨rfl, rfl⟩
  rw [get_latest_eq tm hne]
  exact finish_scan (List.nil_append alarms).symm hpos hstart (List.length_pos_iff.2 hne) hplain

theorem ne_nil_of_eq {pre l : List AlarmSec} {p : AlarmSec} (halarms : alarms = pre ++ p :: l) : alarms ≠ [] := by
  rw [halarms]
  exact List.append_ne_nil_of_right_ne_nil _ (List.cons_ne_nil p l)

/-- the scan up to the first overdue alarm and over it -/
theorem scan_overdue {pre l : List AlarmSec} {p : AlarmSec} (halarms : alarms = pre ++ p :: l)
    (hpos : ∀ q ∈ alarms, 0 ≤ q.secs) (hpre : ∀ q ∈ pre, ¬ Overdue tm.now q) (hp : Overdue tm.now p) :
    scan tm.now 0 alarms ⟨-1, none, false⟩ =
      scan tm.now (pre.length + 1) l ⟨p.secs - tm.now, some pre.length, true⟩ := by
  subst halarms
  have hstart : Found (waits tm.now (pre ++ p :: l)) 0 0 ⟨-1, none, false⟩ := Or.inl ⟨rfl, rfl⟩
  have hplaces : ∀ j q, pre[j]? = some q → waits tm.now (pre ++ p :: l) (0 + j) = wait tm.now q := by
    intro j q hq
    have hj : j < pre.length := (List.getElem?_eq_some_iff.1 hq).1
    rw [Nat.zero_add]
    apply waits_eq
    rwa [List.getElem?_append_left hj]
  obtain ⟨hfound, hflag⟩ := found_scan hstart (Or.inr hpre) hplaces fun q hq =>
    wait_nonneg tm.now_range.2 (hpos q (List.mem_append_left _ hq))
  have hmin : (scan tm.now 0 pre ⟨-1, none, false⟩).min = -1 ∨ 0 ≤ (scan tm.now 0 pre ⟨-1, none, false⟩).min := by
    rcases hfound with ⟨-, hnone⟩ | ⟨i, -, hi, hi0, -⟩
    · exact Or.inl hnone
    · exact Or.inr (hi ▸ hi0)
  rw [scan_append, scan, visit_overdue hp hflag hmin, Nat.zero_add]

/-- an overdue alarm is let through and rings -/
theorem latest_grace {pre l : List AlarmSec} {p : AlarmSec} (halarms : alarms = pre ++ p :: l)
    (hpos : ∀ q ∈ alarms, 0 ≤ q.secs) (hpre : ∀ q ∈ pre, ¬ Overdue tm.now q) (hp : Overdue tm.now p)
    (hf : f = ⟨false, false⟩) (hkept : p.secs - tm.now ≠ -1 ∨ l = []) :
    (get_latest_alarm_time tm alarms fire_alarm f).ret = 0 ∧
      (get_latest_alarm_time tm alarms fire_alarm f).fire_alarm = (fire_alarm.map fun _ => some pre.length) ∧
      (get_latest_alarm_time tm alarms fire_alarm f).alarm_cur = some pre.length ∧
      (get_latest_alarm_time tm alarms fire_alarm f).flags = ⟨true, true⟩ := by
  have hneg := hp.2
  have hend : scan tm.now (pre.length + 1) l ⟨p.secs - tm.now, some pre.length, true⟩ =
      ⟨p.secs - tm.now, some pre.length, true⟩ := by
    rcases hkept with hlow | rfl
    · apply scan_low _ rfl
      · intro q hq
        apply wait_nonneg tm.now_range.2
        apply hpos
        rw [halarms]
        simp [hq]
      · dsimp only
        omega
    · rfl
  rw [get_latest_eq tm (ne_nil_of_eq halarms), hf, scan_overdue halarms hpos hpre hp, hend]
  exact finish_low rfl hneg

/-- an alarm that is overdue by a second is taken for none -/
theorem latest_lost {pre l : List AlarmSec} {p : AlarmSec} (halarms : alarms = pre ++ p :: l)
    (hpos : ∀ q ∈ alarms, 0 ≤ q.secs) (hpre : ∀ q ∈ pre, ¬ Overdue tm.now q) (hone : p.secs - tm.now = -1)
    (hf : f.first_alarm = false) (hl : l ≠ []) :
    ∃ i, Returns (waits tm.now alarms) (pre.length + 1) alarms.length fire_alarm ⟨f.first_ring, true⟩
      (get_latest_alarm_time tm alarms fire_alarm f) i := by
  have hp : Overdue tm.now p := by
    unfold Overdue
    omega
  have hfound : Found (waits tm.now alarms) (pre.length + 1) (pre ++ [p]).length ⟨p.secs - tm.now, some pre.length, true⟩ :=
    Or.inl ⟨by rw [List.length_append, List.length_singleton], hone⟩
  have hsplit : alarms = pre ++ [p] ++ l := by rw [halarms, List.append_assoc, List.singleton_append]
  have hlo : pre.length + 1 < alarms.length := by
    have hpositive := List.length_pos_iff.2 hl
    rw [halarms, List.length_append, List.length_cons]
    omega
  have hscan := @finish_scan tm alarms fire_alarm f _ _ hsplit hpos _ _ hfound hlo (Or.inl rfl)
  rw [List.length_append, List.length_singleton] at hscan
  rw [get_latest_eq tm (ne_nil_of_eq halarms), hf, scan_overdue halarms hpos hpre hp]
  exact hscan

end Call

/-! ## The next alarm -/

/-- alarms of the week -/
structure Alarms where
  list : List AlarmSec
  ne : list ≠ []
  range : ∀ p ∈ list, 0 ≤ p.secs ∧ p.secs < week

structure Call where
  tm : Tm
  alarms : Alarms
  fire_alarm : Option (Option ℕ)

/-- the static flags after earlier calls -/
def flagsAfter (history : List Call) : Flags :=
  history.foldl (fun f c => (get_latest_alarm_time c.tm c.alarms.list c.fire_alarm f).flags) ⟨false, false⟩

def Flags.Unused (f : Flags) : Prop := f = ⟨false, false⟩

def Flags.Inv (f : Flags) : Prop := f.first_ring = true → f.first_alarm = true

theorem Flags.Inv.unused {f : Flags} (h : f.Inv) (hf : f.first_alarm = false) : f.Unused := by
  obtain ⟨ring, al⟩ := f
  cases ring with
  | false => rw [Unused, show al = false from hf]
  | true => exact absurd ((h rfl).symm.trans hf) (by decide)

/-- the first overdue alarm is overdue by a second, and another alarm follows -/
def Lost (now : ℤ) (alarms : List AlarmSec) : Prop :=
  ∃ p q l, alarms.dropWhile (fun p => decide (¬ Overdue now p)) = p :: q :: l ∧ p.secs - now = -1

theorem lost_iff {now : ℤ} {pre l : List AlarmSec} {p : AlarmSec} (hpre : ∀ q ∈ pre, ¬ Overdue now q)
    (hp : Overdue now p) : Lost now (pre ++ p :: l) ↔ p.secs - now = -1 ∧ l ≠ [] := by
  have hdrop : (pre ++ p :: l).dropWhile (fun p => decide (¬ Overdue now p)) = p :: l := by
    rw [List.dropWhile_append_of_pos (by simpa using hpre), List.dropWhile_cons_of_neg (by simpa using hp)]
  unfold Lost
  rw [hdrop]
  constructor
  · rintro ⟨p', q, l', heq, hone⟩
    rw [List.cons.injEq] at heq
    rw [heq.1, heq.2]
    exact ⟨hone, List.cons_ne_nil q l'⟩
  · rintro ⟨hone, hl⟩
    obtain ⟨q, l', rfl⟩ := List.exists_cons_of_ne_nil hl
    exact ⟨p, q, l', rfl, hone⟩

theorem Lost.overdue {now : ℤ} {alarms : List AlarmSec} (h : Lost now alarms) : ∃ p ∈ alarms, Overdue now p := by
  obtain ⟨p, q, l, hdrop, hone⟩ := h
  have hmem : p ∈ alarms := by
    apply List.dropWhile_suffix (fun p => decide (¬ Overdue now p)) |>.subset
    rw [hdrop]
    exact List.mem_cons_self ..
  refine ⟨p, hmem, ?_⟩
  unfold Overdue
  omega

theorem exists_first_overdue {now : ℤ} {alarms : List AlarmSec} (h : ∃ p ∈ alarms, Overdue now p) :
    ∃ pre p l, alarms = pre ++ p :: l ∧ (∀ q ∈ pre, ¬ Overdue now q) ∧ Overdue now p := by
  obtain ⟨p, hp⟩ : ∃ p, alarms.find? (fun p => decide (Overdue now p)) = some p := by
    rw [← Option.isSome_iff_exists, List.find?_isSome]
    simpa using h
  rw [List.find?_eq_some_iff_append] at hp
  obtain ⟨hoverdue, pre, l, heq, hpre⟩ := hp
  refine ⟨pre, p, l, heq, fun q hq => ?_, by simpa using hoverdue⟩
  simpa using hpre q hq

/-- the three kinds of a call: the grace lets nothing through, an overdue alarm rings, or it is lost to those behind it -/
inductive Kind (tm : Tm) (alarms : List AlarmSec) (fire_alarm : Option (Option ℕ)) (f : Flags) : Prop
  | plain (i : ℕ) (hnot : ¬ (f.Unused ∧ ∃ p ∈ alarms, Overdue tm.now p))
    (hi : Returns (waits tm.now alarms) 0 alarms.length fire_alarm f (get_latest_alarm_time tm alarms fire_alarm f) i)
  | rings (i : ℕ) (p : AlarmSec) (hunused : f.Unused) (hkept : ¬ Lost tm.now alarms) (hget : alarms[i]? = some p)
    (hp : Overdue tm.now p) (hret : (get_latest_alarm_time tm alarms fire_alarm f).ret = 0)
    (hfire : (get_latest_alarm_time tm alarms fire_alarm f).fire_alarm = fire_alarm.map fun _ => some i)
    (hflags : (get_latest_alarm_time tm alarms fire_alarm f).flags = ⟨true, true⟩)
  | lost (pre l : List AlarmSec) (p : AlarmSec) (i : ℕ) (hunused : f.Unused) (hlost : Lost tm.now alarms)
    (heq : alarms = pre ++ p :: l) (hpre : ∀ q ∈ pre, ¬ Overdue tm.now q) (hone : p.secs - tm.now = -1)
    (hi : Returns (waits tm.now alarms) (pre.length + 1) alarms.length fire_alarm ⟨false, true⟩
      (get_latest_alarm_time tm alarms fire_alarm f) i)

theorem call_cases {tm : Tm} {alarms : List AlarmSec} (hne : alarms ≠ []) (hpos : ∀ p ∈ alarms, 0 ≤ p.secs)
    (fire_alarm : Option (Option ℕ)) {f : Flags} (hf : f.Inv) : Kind tm alarms fire_alarm f := by
  by_cases hover : ∃ p ∈ alarms, Overdue tm.now p
  · by_cases hflag : f.first_alarm = true
    · obtain ⟨i, hi⟩ := @latest_plain tm alarms fire_alarm f hne hpos (Or.inl hflag)
      refine .plain i ?_ hi
      rintro ⟨hunused, -⟩
      rw [hunused] at hflag
      cases hflag
    · have hunused := hf.unused (Bool.not_eq_true _ ▸ hflag)
      obtain ⟨pre, p, l, heq, hpre, hp⟩ := exists_first_overdue hover
      by_cases hkept : p.secs - tm.now ≠ -1 ∨ l = []
      · obtain ⟨hret, hfire, -, hflags⟩ := @latest_grace tm alarms fire_alarm f pre l p heq hpos hpre hp hunused hkept
        refine .rings pre.length p hunused ?_ (by rw [heq]; simp) hp hret hfire hflags
        rw [heq, lost_iff hpre hp]
        rcases hkept with hlow | hlast
        · exact fun h => hlow h.1
        · exact fun h => h.2 hlast
      · rw [not_or, not_not] at hkept
        obtain ⟨i, hi⟩ := @latest_lost tm alarms fire_alarm f pre l p heq hpos hpre hkept.1
          (Bool.not_eq_true _ ▸ hflag) hkept.2
        rw [show f.first_ring = false from congrArg Flags.first_ring hunused] at hi
        have hlost : Lost tm.now alarms := by
          rw [heq, lost_iff hpre hp]
          exact hkept
        exact .lost pre l p i hunused hlost heq hpre hkept.1 hi
  · obtain ⟨i, hi⟩ := @latest_plain tm alarms fire_alarm f hne hpos (Or.inr fun p hp hp' => hover ⟨p, hp, hp'⟩)
    exact .plain i (fun h => hover h.2) hi

/-- a ring has met an overdue alarm -/
theorem latest_inv (tm : Tm) {alarms : List AlarmSec} (hne : alarms ≠ []) (hpos : ∀ p ∈ alarms, 0 ≤ p.secs)
    (fire_alarm : Option (Option ℕ)) {f : Flags} (hf : f.Inv) :
    (get_latest_alarm_time tm alarms fire_alarm f).flags.Inv := by
  cases @call_cases tm _ hne hpos fire_alarm _ hf with
  | plain i hnot hi =>
    rw [hi.flags]
    exact hf
  | rings i p hunused hkept hget hp hret hfire hflags =>
    rw [hflags]
    exact fun _ => rfl
  | lost pre l p i hunused hlost heq hpre hone hi =>
    rw [hi.flags]
    exact fun _ => rfl

theorem flagsAfter_inv (history : List Call) : (flagsAfter history).Inv := by
  refine List.foldlRecOn history _ (fun h => absurd h (by decide)) fun f hf c _ => ?_
  exact latest_inv c.tm c.alarms.ne (fun p hp => (c.alarms.range p hp).1) c.fire_alarm hf

/-- the times to the alarms, on the circle of the week -/
def dues (now : ℤ) (alarms : List AlarmSec) (i : ℕ) : ℤ := (alarms[i]?).elim 0 fun p => (p.secs - now) % week

theorem waits_eq_dues (tm : Tm) (alarms : Alarms) : waits tm.now alarms.list = dues tm.now alarms.list := by
  funext i
  unfold waits dues
  cases hi : alarms.list[i]? with
  | none => rfl
  | some p => exact wait_eq_emod tm.now_range (alarms.range p (List.mem_of_getElem? hi))

/-- what a call returns: while the grace is unused, an alarm overdue by a minute at most rings and uses it up; otherwise
the next alarm, which rings when it is due -/
structure NextAlarm (now : ℤ) (alarms : List AlarmSec) (f : Flags) (r : Latest) : Prop where
  grace : (f.Unused ∧ ∃ p ∈ alarms, Overdue now p) → r.ret = 0 ∧
    (∃ i p, alarms[i]? = some p ∧ Overdue now p ∧ r.fire_alarm = some (some i)) ∧ ¬ r.flags.Unused
  least : ¬ (f.Unused ∧ ∃ p ∈ alarms, Overdue now p) → ∃ i, FirstMin (dues now alarms) 0 alarms.length i ∧
    r.ret = dues now alarms i ∧ r.alarm_cur = some i ∧
    r.fire_alarm = some (if dues now alarms i = 0 then some i else none)

/-- **The next alarm.** After any earlier calls, a call returns what it should exactly when it does not meet, with the
grace unused, a first overdue alarm that is overdue by a second and not the last one -/
theorem next_alarm_iff (history : List Call) (tm : Tm) (alarms : Alarms) (old : Option ℕ) :
    NextAlarm tm.now alarms.list (flagsAfter history)
        (get_latest_alarm_time tm alarms.list (some old) (flagsAfter history)) ↔
      ¬ ((flagsAfter history).Unused ∧ Lost tm.now alarms.list) := by
  have hrange := alarms.range
  cases @call_cases tm _ alarms.ne (fun p hp => (hrange p hp).1) (some old) _ (flagsAfter_inv history) with
  | plain i hnot hi =>
    refine iff_of_true ⟨fun h => absurd h hnot, fun _ => ?_⟩ fun h => hnot ⟨h.1, h.2.overdue⟩
    rw [waits_eq_dues] at hi
    exact ⟨i, hi.least, hi.ret, hi.cur, hi.fire⟩
  | rings i p hunused hkept hget hp hret hfire hflags =>
    refine iff_of_true ⟨fun _ => ⟨hret, ⟨i, p, hget, hp, hfire⟩, ?_⟩, fun h => ?_⟩ fun h => hkept h.2
    · rw [hflags, Flags.Unused]
      decide
    · exact absurd ⟨hunused, p, List.mem_of_getElem? hget, hp⟩ h
  | lost pre l p i hunused hlost heq hpre hone hi =>
    refine iff_of_false ?_ (not_not.2 ⟨hunused, hlost⟩)
    intro h
    obtain ⟨-, ⟨j, q, hget, hq, hfire⟩, -⟩ := h.grace ⟨hunused, hlost.overdue⟩
    -- what rings is due now, and an overdue alarm is not
    have hring := hi.fire
    rw [hfire, Option.map_some, Option.some.injEq] at hring
    split_ifs at hring with h0
    · obtain rfl := Option.some.inj hring
      rw [waits_eq hget] at h0
      unfold wait week at h0
      unfold Overdue at hq
      split_ifs at h0 <;> omega

/-- an alarm that is overdue by a second, and another one -/
def twoAlarms : Alarms := ⟨[⟨0, 99, 1⟩, ⟨0, 200, 2⟩], by decide, by decide⟩

/-- Monday, 00:01:40 -/
def mondayMorning : Tm := ⟨1, 0, 1, 40⟩

theorem next_alarm_lost : ¬ ∀ (history : List Call) (tm : Tm) (alarms : Alarms) (old : Option ℕ),
    NextAlarm tm.now alarms.list (flagsAfter history)
      (get_latest_alarm_time tm alarms.list (some old) (flagsAfter history)) := by
  intro h
  have hgrace := (h [] mondayMorning twoAlarms none).grace ⟨rfl, by decide⟩
  have hret := hgrace.1
  revert hret
  decide

end SprdDevice.Alarm
