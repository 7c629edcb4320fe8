/-
The snapshot schedule of slog (tools/slog/handler.c, snapshot_log_handler): one thread sleeps for all entries of the
configuration, as long as the shortest remaining time, and counts what it has slept for each of them in its state field.

- `walk`: one pass over the list, with what record_snap was called for and the shortest remaining time (0 is none yet);
- `Handler`: the list and the two sleep times of the thread, while logging stays enabled; `slept` is the sum of all
  sleeps, in seconds;
- `parse_6_entries`: how a snap line of the configuration comes into the list.
Result: `snapshot_schedule`. An entry is recorded exactly at the multiples of its interval, and none is missed.
-/
import Mathlib.Tactic

namespace SprdDevice.Slog.Snapshot

structure SlogInfo where
  level : ℤ
  interval : ℤ
  /-- the seconds since it was recorded -/
  state : ℤ
deriving DecidableEq, Repr

/-- the fields of a snap line, level and interval read by atoi; calloc has cleared the node -/
def parse_6_entries (snapshot_log_head : List SlogInfo) (level interval : ℤ) : List SlogInfo :=
  match snapshot_log_head with
  | [] => [⟨level, interval, 0⟩]
  | head :: rest => head :: ⟨level, interval, 0⟩ :: rest

/-- the state after a sleep, and whether the entry is recorded -/
def visit (sleep_secs : ℤ) (info : SlogInfo) : SlogInfo × Bool :=
  let state := info.state + sleep_secs
  if state ≥ info.interval then ({ info with state := 0 }, true) else ({ info with state := state }, false)

/-- the shorter one, where 0 is unset -/
def shorter (tmp next_sleep_secs : ℤ) : ℤ :=
  if tmp < next_sleep_secs ∨ next_sleep_secs = 0 then tmp else next_sleep_secs

/-- misc_log decides which levels count, and an interval of 0 is left to the user's command -/
def walk (misc_level sleep_secs : ℤ) : List SlogInfo → ℤ → List (SlogInfo × Bool) × ℤ
  | [], next_sleep_secs => ([], next_sleep_secs)
  | info :: rest, next_sleep_secs =>
    if info.level > misc_level then
      let r := walk misc_level sleep_secs rest next_sleep_secs
      ((info, false) :: r.1, r.2)
    else if info.interval = 0 then
      let r := walk misc_level sleep_secs rest next_sleep_secs
      ((info, false) :: r.1, r.2)
    else
      let v := visit sleep_secs info
      let r := walk misc_level sleep_secs rest (shorter (info.interval - v.1.state) next_sleep_secs)
      (v :: r.1, r.2)

structure Handler where
  infos : List SlogInfo
  sleep_secs : ℤ
  slept : ℤ
  running : Bool

/-- the thread ends at once where misc_log is off or there is no entry -/
def start (misc_on : Bool) (infos : List SlogInfo) : Handler := ⟨infos, 0, 0, misc_on && !infos.isEmpty⟩

/-- one turn of the loop with its sleep -/
def turn (misc_level : ℤ) (s : Handler) : Handler :=
  if s.running = false then s
  else
    let r := walk misc_level s.sleep_secs s.infos 0
    let infos := r.1.map Prod.fst
    if r.2 = 0 then { s with infos := infos, running := false }
    else { s with infos := infos, sleep_secs := r.2, slept := s.slept + max r.2 0 }

/-- the thread before pass n -/
def before (misc_level : ℤ) (infos : List SlogInfo) (n : ℕ) : Handler := (turn misc_level)^[n] (start true infos)

/-- entry i is recorded in the pass that follows -/
def Records (misc_level : ℤ) (s : Handler) (i : ℕ) : Prop :=
  s.running = true ∧ ((walk misc_level s.sleep_secs s.infos 0).1[i]?).map Prod.snd = some true

/-- the entries that count -/
def Active (misc_level : ℤ) (info : SlogInfo) : Prop := info.level ≤ misc_level ∧ info.interval ≠ 0

instance (misc_level : ℤ) (info : SlogInfo) : Decidable (Active misc_level info) := inferInstanceAs (Decidable (_ ∧ _))

/-! ## One pass -/

section Walk

variable {misc_level sleep_secs : ℤ}

/-- what a pass does to one entry -/
def turned (misc_level sleep_secs : ℤ) (info : SlogInfo) : SlogInfo × Bool :=
  if Active misc_level info then visit sleep_secs info else (info, false)

theorem walk_cons (info : SlogInfo) (rest : List SlogInfo) (next : ℤ) :
    walk misc_level sleep_secs (info :: rest) next =
      (turned misc_level sleep_secs info ::
        (walk misc_level sleep_secs rest
          (if Active misc_level info then shorter (info.interval - (visit sleep_secs info).1.state) next else next)).1,
        (walk misc_level sleep_secs rest
          (if Active misc_level info then shorter (info.interval - (visit sleep_secs info).1.state) next else next)).2) := by
  unfold turned
  rw [walk]
  by_cases hlevel : info.level > misc_level
  · have hno : ¬ Active misc_level info := fun h => absurd h.1 (not_le.mpr hlevel)
    rw [if_pos hlevel, if_neg hno, if_neg hno]
  · rw [if_neg hlevel]
    by_cases hzero : info.interval = 0
    · have hno : ¬ Active misc_level info := fun h => h.2 hzero
      rw [if_pos hzero, if_neg hno, if_neg hno]
    · have hyes : Active misc_level info := ⟨not_lt.mp hlevel, hzero⟩
      rw [if_neg hzero, if_pos hyes, if_pos hyes]

theorem walk_infos (infos : List SlogInfo) (next : ℤ) :
    (walk misc_level sleep_secs infos next).1 = infos.map (turned misc_level sleep_secs) := by
  induction infos generalizing next with
  | nil => rfl
  | cons info rest ih => rw [walk_cons, List.map_cons, ih]

theorem shorter_le {tmp next : ℤ} (ht : 0 < tmp) (hn : 0 ≤ next) :
    0 < shorter tmp next ∧ shorter tmp next ≤ tmp ∧ (0 < next → shorter tmp next ≤ next) := by
  unfold shorter
  split_ifs with h
  · omega
  · omega

/-- the time left for an entry after the pass -/
def left (sleep_secs : ℤ) (info : SlogInfo) : ℤ := info.interval - (visit sleep_secs info).1.state

/-- the shortest remaining time: none is shorter, and it is 0 only where nothing counts -/
theorem walk_next {infos : List SlogInfo} (hpos : ∀ info ∈ infos, Active misc_level info → 0 < left sleep_secs info)
    {next : ℤ} (hn : 0 ≤ next) :
    0 ≤ (walk misc_level sleep_secs infos next).2 ∧
      (0 < next → 0 < (walk misc_level sleep_secs infos next).2 ∧ (walk misc_level sleep_secs infos next).2 ≤ next) ∧
      ∀ info ∈ infos, Active misc_level info →
        0 < (walk misc_level sleep_secs infos next).2 ∧ (walk misc_level sleep_secs infos next).2 ≤ left sleep_secs info := by
  induction infos generalizing next with
  | nil => exact ⟨hn, fun h => ⟨h, le_rfl⟩, fun info h => absurd h List.not_mem_nil⟩
  | cons info rest ih =>
    have hrest : ∀ x ∈ rest, Active misc_level x → 0 < left sleep_secs x := fun x hx => hpos x (List.mem_cons_of_mem _ hx)
    rw [walk_cons]
    by_cases hact : Active misc_level info
    · have hleft : 0 < info.interval - (visit sleep_secs info).1.state := hpos info List.mem_cons_self hact
      obtain ⟨hs, hst, hsn⟩ := shorter_le hleft hn
      rw [if_pos hact]
      obtain ⟨h0, h1, h2⟩ := ih hrest hs.le
      refine ⟨h0, fun h => ⟨(h1 hs).1, (h1 hs).2.trans (hsn h)⟩, fun x hx hxa => ?_⟩
      rcases List.mem_cons.mp hx with rfl | hx
      · exact ⟨(h1 hs).1, (h1 hs).2.trans hst⟩
      · exact h2 x hx hxa
    · rw [if_neg hact]
      obtain ⟨h0, h1, h2⟩ := ih hrest hn
      refine ⟨h0, h1, fun x hx hxa => ?_⟩
      rcases List.mem_cons.mp hx with rfl | hx
      · exact absurd hxa hact
      · exact h2 x hx hxa

end Walk

/-! ## Every pass -/

/-- a sequence that grows and never passes over M comes to M -/
theorem exists_hit {f : ℕ → ℤ} {M : ℤ} (h0 : f 0 < M) (hgrow : ∀ n, f n < f (n + 1))
    (hskip : ∀ n, f n < M → f (n + 1) ≤ M) : ∃ n, f n = M := by
  by_contra hno
  have hbelow : ∀ n, f n < M := by
    intro n
    induction n with
    | zero => exact h0
    | succ n ih => exact lt_of_le_of_ne (hskip n ih) fun heq => hno ⟨n + 1, heq⟩
  have hfar : ∀ n : ℕ, f 0 + n ≤ f n := by
    intro n
    induction n with
    | zero => simp
    | succ n ih =>
      have hn := hgrow n
      push_cast
      omega
  have hlast := hfar (M - f 0).toNat
  have hM := hbelow (M - f 0).toNat
  omega

/-- where an entry stands before a pass: what it has counted, with the sleep that is not yet added, is the time since
the last multiple of its interval -/
structure Timed (sleep_secs slept : ℤ) (info : SlogInfo) : Prop where
  pos : 0 < info.interval
  nonneg : 0 ≤ info.state
  le : info.state + sleep_secs ≤ info.interval
  le_slept : info.state + sleep_secs ≤ slept
  dvd : info.interval ∣ slept - (info.state + sleep_secs)

structure Inv (misc_level : ℤ) (infos : List SlogInfo) (s : Handler) : Prop where
  sleep_nonneg : 0 ≤ s.sleep_secs
  first : s.slept = 0 ∨ 0 < s.sleep_secs
  timed : ∀ info ∈ s.infos, Active misc_level info → Timed s.sleep_secs s.slept info
  same : s.infos.map (fun x => (x.level, x.interval)) = infos.map fun x => (x.level, x.interval)

section Passes

variable {misc_level sleep_secs slept : ℤ} {info : SlogInfo} {infos : List SlogInfo} {s : Handler}

/-- an entry is due exactly at the multiples of its interval -/
theorem Timed.due_iff (h : Timed sleep_secs slept info) (hfirst : slept = 0 ∨ 0 < sleep_secs) :
    info.state + sleep_secs ≥ info.interval ↔ 0 < slept ∧ info.interval ∣ slept := by
  have hpos := h.pos
  have hle := h.le
  have hslept := h.le_slept
  have hstate := h.nonneg
  constructor
  · intro hdue
    have heq : info.state + sleep_secs = info.interval := le_antisymm hle hdue
    have hdvd := h.dvd
    rw [heq] at hdvd
    exact ⟨by omega, (dvd_sub_self_right).mp hdvd⟩
  · rintro ⟨hs, hdvd⟩
    have helapsed : info.interval ∣ info.state + sleep_secs := (dvd_sub_right hdvd).mp h.dvd
    have hsleep := hfirst.resolve_left hs.ne'
    exact Int.le_of_dvd (by omega) helapsed

theorem visit_due (h : info.state + sleep_secs ≥ info.interval) :
    visit sleep_secs info = ({ info with state := 0 }, true) := if_pos h

theorem visit_early (h : ¬ info.state + sleep_secs ≥ info.interval) :
    visit sleep_secs info = ({ info with state := info.state + sleep_secs }, false) := if_neg h

theorem visit_recorded : (visit sleep_secs info).2 = true ↔ info.state + sleep_secs ≥ info.interval := by
  by_cases h : info.state + sleep_secs ≥ info.interval
  · rw [visit_due h]
    exact iff_of_true rfl h
  · rw [visit_early h]
    exact iff_of_false Bool.false_ne_true h

theorem turned_same : ((turned misc_level sleep_secs info).1.level, (turned misc_level sleep_secs info).1.interval) =
    (info.level, info.interval) := by
  unfold turned
  split_ifs
  · by_cases h : info.state + sleep_secs ≥ info.interval
    · rw [visit_due h]
    · rw [visit_early h]
  · rfl

theorem active_turned : Active misc_level (turned misc_level sleep_secs info).1 ↔ Active misc_level info := by
  obtain ⟨hlevel, hinterval⟩ := Prod.ext_iff.mp (@turned_same misc_level sleep_secs info)
  dsimp only at hlevel hinterval
  rw [Active, Active, hlevel, hinterval]

/-- the entries that count behind a pass -/
theorem exists_of_turned (hin : info ∈ (walk misc_level sleep_secs infos 0).1.map Prod.fst)
    (hact : Active misc_level info) :
    ∃ old ∈ infos, Active misc_level old ∧ info = (visit sleep_secs old).1 := by
  rw [walk_infos, List.map_map] at hin
  obtain ⟨old, hold, rfl⟩ := List.mem_map.mp hin
  have hact' : Active misc_level old := active_turned.mp hact
  have hturned : turned misc_level sleep_secs old = visit sleep_secs old := if_pos hact'
  exact ⟨old, hold, hact', congrArg Prod.fst hturned⟩

/-- behind the pass there is time left, and the entry has counted since the last multiple -/
theorem Timed.behind (h : Timed sleep_secs slept info) (hsleep : 0 ≤ sleep_secs) :
    0 ≤ (visit sleep_secs info).1.state ∧ 0 < left sleep_secs info ∧ (visit sleep_secs info).1.state ≤ slept ∧
      info.interval ∣ slept - (visit sleep_secs info).1.state := by
  have hpos := h.pos
  have hslept := h.le_slept
  have hstate := h.nonneg
  unfold left
  by_cases hdue : info.state + sleep_secs ≥ info.interval
  · have heq : info.state + sleep_secs = info.interval := le_antisymm h.le hdue
    have hdvd := h.dvd
    rw [heq, dvd_sub_self_right] at hdvd
    rw [visit_due hdue]
    dsimp only
    rw [sub_zero, sub_zero]
    exact ⟨le_rfl, hpos, by omega, hdvd⟩
  · rw [visit_early hdue]
    exact ⟨by dsimp only; omega, by dsimp only; omega, hslept, h.dvd⟩

/-- an entry behind the pass and the next sleep -/
theorem Timed.next (h : Timed sleep_secs slept info) (hsleep : 0 ≤ sleep_secs) {next : ℤ}
    (hle : next ≤ left sleep_secs info) : Timed next (slept + next) (visit sleep_secs info).1 := by
  obtain ⟨h0, -, hs, hdvd⟩ := h.behind hsleep
  have hinterval : (visit sleep_secs info).1.interval = info.interval := by
    by_cases hdue : info.state + sleep_secs ≥ info.interval
    · rw [visit_due hdue]
    · rw [visit_early hdue]
  unfold left at hle
  refine ⟨by rw [hinterval]; exact h.pos, h0, by rw [hinterval]; omega, by omega, ?_⟩
  have hsame : slept + next - ((visit sleep_secs info).1.state + next) =
      slept - (visit sleep_secs info).1.state := by ring
  rw [hinterval, hsame]
  exact hdvd

/-- a sleep that ends with the time left does not pass over a multiple of the interval -/
theorem Timed.below_multiple (h : Timed sleep_secs slept info) (hsleep : 0 ≤ sleep_secs) {k : ℕ}
    (hlt : slept < k * info.interval) : slept + left sleep_secs info ≤ k * info.interval := by
  obtain ⟨hstate, -, -, c, hc⟩ := h.behind hsleep
  rw [mul_comm] at hlt ⊢
  have hck : c < k := by
    have hmul : info.interval * c < info.interval * k := by
      rw [← hc]
      exact (sub_le_self _ hstate).trans_lt hlt
    exact (mul_lt_mul_iff_right₀ h.pos).mp hmul
  have hsplit : slept + left sleep_secs info = info.interval * (c + 1) := by
    unfold left
    rw [mul_add, mul_one, ← hc]
    ring
  rw [hsplit]
  exact mul_le_mul_of_nonneg_left (by omega) h.pos.le

theorem inv_start (hinfos : ∀ info ∈ infos, info.state = 0 ∧ (info.level ≤ misc_level → 0 ≤ info.interval)) :
    Inv misc_level infos (start true infos) where
  sleep_nonneg := le_rfl
  first := Or.inl rfl
  timed info hin hact := by
    obtain ⟨hzero, hle⟩ := hinfos info hin
    have hpos : 0 < info.interval := lt_of_le_of_ne (hle hact.1) hact.2.symm
    have hcount : info.state + (start true infos).sleep_secs = 0 := by rw [hzero]; rfl
    exact ⟨hpos, hzero.ge, by rw [hcount]; exact hpos.le, by rw [hcount]; exact le_rfl,
      by rw [hcount]; exact dvd_zero _⟩
  same := rfl

/-- one turn keeps it; where an entry counts, the sleep is the shortest time left -/
theorem Inv.turn (h : Inv misc_level infos s) : Inv misc_level infos (turn misc_level s) := by
  cases hrun : s.running with
  | false =>
    have hstay : Snapshot.turn misc_level s = s := if_pos hrun
    rwa [hstay]
  | true =>
    obtain ⟨h0, -, hleft⟩ := walk_next (fun info hin hact => ((h.timed info hin hact).behind h.sleep_nonneg).2.1) le_rfl
    have hsame : ((walk misc_level s.sleep_secs s.infos 0).1.map Prod.fst).map (fun x => (x.level, x.interval)) =
        infos.map fun x => (x.level, x.interval) := by
      rw [walk_infos, List.map_map, List.map_map, ← h.same]
      exact List.map_congr_left fun info _ => turned_same
    unfold Snapshot.turn
    rw [if_neg (by rw [hrun]; decide)]
    dsimp only
    split_ifs with hnone
    · refine ⟨h.sleep_nonneg, h.first, fun info hin hact => ?_, hsame⟩
      obtain ⟨old, hold, hact', -⟩ := exists_of_turned hin hact
      exact absurd hnone (hleft old hold hact').1.ne'
    · have hpos : 0 < (walk misc_level s.sleep_secs s.infos 0).2 := lt_of_le_of_ne h0 (Ne.symm hnone)
      rw [max_eq_left h0]
      refine ⟨h0, Or.inr hpos, fun info hin hact => ?_, hsame⟩
      obtain ⟨old, hold, hact', rfl⟩ := exists_of_turned hin hact
      exact (h.timed old hold hact').next h.sleep_nonneg (hleft old hold hact').2

/-- a turn in which an entry counts: the thread goes on, and sleeps no longer than the time left -/
theorem Inv.turn_sleeps (h : Inv misc_level infos s) (hrun : s.running = true) (hin : info ∈ s.infos)
    (hact : Active misc_level info) :
    (Snapshot.turn misc_level s).running = true ∧ s.slept < (Snapshot.turn misc_level s).slept ∧
      (Snapshot.turn misc_level s).slept ≤ s.slept + left s.sleep_secs info := by
  obtain ⟨h0, -, hleft⟩ := walk_next (fun x hx hxa => ((h.timed x hx hxa).behind h.sleep_nonneg).2.1) le_rfl
  obtain ⟨hpos, hle⟩ := hleft info hin hact
  unfold Snapshot.turn
  rw [if_neg (by rw [hrun]; decide)]
  dsimp only
  rw [if_neg hpos.ne', max_eq_left h0]
  exact ⟨hrun, lt_add_of_pos_right _ hpos, add_le_add_right hle _⟩

theorem before_succ (n : ℕ) : before misc_level infos (n + 1) = turn misc_level (before misc_level infos n) :=
  Function.iterate_succ_apply' _ _ _

theorem records_iff_turned {i : ℕ} {info : SlogInfo} {n : ℕ} (hrun : (before misc_level infos n).running = true)
    (hinfo : (before misc_level infos n).infos[i]? = some info) :
    Records misc_level (before misc_level infos n) i ↔
      (turned misc_level (before misc_level infos n).sleep_secs info).2 = true := by
  rw [Records, walk_infos, List.getElem?_map, hinfo, and_iff_right hrun, Option.map_some, Option.map_some,
    Option.some.injEq]

variable (hinfos : ∀ info ∈ infos, info.state = 0 ∧ (info.level ≤ misc_level → 0 ≤ info.interval))
include hinfos

theorem inv_before (n : ℕ) : Inv misc_level infos (before misc_level infos n) := by
  induction n with
  | zero => exact inv_start hinfos
  | succ n ih =>
    rw [before_succ]
    exact ih.turn

/-- entry i before a pass -/
theorem exists_info {i : ℕ} (hi : i < infos.length) (n : ℕ) :
    ∃ info, (before misc_level infos n).infos[i]? = some info ∧ info.level = infos[i].level ∧
      info.interval = infos[i].interval := by
  have hget := congrArg (fun l => l[i]?) (inv_before hinfos n).same
  rw [List.getElem?_map, List.getElem?_map, List.getElem?_eq_getElem hi, Option.map_some, Option.map_eq_some_iff] at hget
  obtain ⟨info, hinfo, hsame⟩ := hget
  exact ⟨info, hinfo, congrArg Prod.fst hsame, congrArg Prod.snd hsame⟩

/-- where an entry counts the thread never ends -/
theorem running_before {i : ℕ} (hi : i < infos.length) (hact : Active misc_level infos[i]) (n : ℕ) :
    (before misc_level infos n).running = true := by
  induction n with
  | zero =>
    show (true && !infos.isEmpty) = true
    cases infos with
    | nil => exact absurd hi (Nat.not_lt_zero i)
    | cons info rest => rfl
  | succ n ih =>
    obtain ⟨info, hinfo, hlevel, hinterval⟩ := exists_info hinfos hi n
    have hact' : Active misc_level info := by rwa [Active, hlevel, hinterval]
    rw [before_succ]
    exact ((inv_before hinfos n).turn_sleeps ih (List.mem_of_getElem? hinfo) hact').1

/-- an entry that counts is recorded at the multiples of its interval -/
theorem records_iff {i : ℕ} (hi : i < infos.length) (hact : Active misc_level infos[i]) (n : ℕ) :
    Records misc_level (before misc_level infos n) i ↔
      0 < (before misc_level infos n).slept ∧ infos[i].interval ∣ (before misc_level infos n).slept := by
  obtain ⟨info, hinfo, hlevel, hinterval⟩ := exists_info hinfos hi n
  have hact' : Active misc_level info := by rwa [Active, hlevel, hinterval]
  have hinv := inv_before hinfos n
  have hturned : turned misc_level (before misc_level infos n).sleep_secs info =
      visit (before misc_level infos n).sleep_secs info := if_pos hact'
  rw [records_iff_turned (running_before hinfos hi hact n) hinfo, hturned, visit_recorded, ← hinterval]
  exact (hinv.timed info (List.mem_of_getElem? hinfo) hact').due_iff hinv.first

/-- the others are not recorded -/
theorem not_records {i : ℕ} (hi : i < infos.length) (hno : ¬ Active misc_level infos[i]) (n : ℕ) :
    ¬ Records misc_level (before misc_level infos n) i := by
  obtain ⟨info, hinfo, hlevel, hinterval⟩ := exists_info hinfos hi n
  have hno' : ¬ Active misc_level info := by rwa [Active, hlevel, hinterval]
  have hturned : turned misc_level (before misc_level infos n).sleep_secs info = (info, false) := if_neg hno'
  rintro ⟨hrun, hrec⟩
  rw [walk_infos, List.getElem?_map, hinfo, Option.map_some, Option.map_some, hturned] at hrec
  cases hrec

/-- the slept time grows, and passes over no multiple of the interval of an entry that counts -/
theorem slept_next {i : ℕ} (hi : i < infos.length) (hact : Active misc_level infos[i]) (n : ℕ) :
    (before misc_level infos n).slept < (before misc_level infos (n + 1)).slept ∧
      ∀ k : ℕ, (before misc_level infos n).slept < k * infos[i].interval →
        (before misc_level infos (n + 1)).slept ≤ k * infos[i].interval := by
  obtain ⟨info, hinfo, hlevel, hinterval⟩ := exists_info hinfos hi n
  have hact' : Active misc_level info := by rwa [Active, hlevel, hinterval]
  have hinv := inv_before hinfos n
  have hmem := List.mem_of_getElem? hinfo
  obtain ⟨-, hlt, hle⟩ := hinv.turn_sleeps (running_before hinfos hi hact n) hmem hact'
  rw [before_succ, ← hinterval]
  exact ⟨hlt, fun k hk => hle.trans ((hinv.timed info hmem hact').below_multiple hinv.sleep_nonneg hk)⟩

/-- each multiple is the slept time of a pass -/
theorem exists_pass {i : ℕ} (hi : i < infos.length) (hact : Active misc_level infos[i]) {k : ℕ} (hk : 0 < k) :
    ∃ n, (before misc_level infos n).slept = k * infos[i].interval := by
  have hpos : 0 < infos[i].interval := lt_of_le_of_ne ((hinfos _ (List.getElem_mem hi)).2 hact.1) hact.2.symm
  exact exists_hit (f := fun n => (before misc_level infos n).slept) (mul_pos (Int.natCast_pos.mpr hk) hpos)
    (fun n => (slept_next hinfos hi hact n).1) fun n => (slept_next hinfos hi hact n).2 k

end Passes

/-- **The snapshot schedule.** An entry that counts is recorded exactly in the passes whose slept time is a positive
multiple of its interval, and every such multiple is the slept time of a pass; the others are never recorded -/
theorem snapshot_schedule (misc_level : ℤ) (infos : List SlogInfo)
    (hinfos : ∀ info ∈ infos, info.state = 0 ∧ (info.level ≤ misc_level → 0 ≤ info.interval)) (i : ℕ)
    (hi : i < infos.length) :
    (Active misc_level infos[i] →
      (∀ n, Records misc_level (before misc_level infos n) i ↔
        0 < (before misc_level infos n).slept ∧ infos[i].interval ∣ (before misc_level infos n).slept) ∧
      ∀ k : ℕ, 0 < k → ∃ n, (before misc_level infos n).slept = k * infos[i].interval) ∧
    (¬ Active misc_level infos[i] → ∀ n, ¬ Records misc_level (before misc_level infos n) i) :=
  ⟨fun hact => ⟨records_iff hinfos hi hact, fun _ hk => exists_pass hinfos hi hact hk⟩, not_records hinfos hi⟩

theorem parse_6_entries_state (head : List SlogInfo) (h : ∀ info ∈ head, info.state = 0) (level interval : ℤ) :
    ∀ info ∈ parse_6_entries head level interval, info.state = 0 := by
  intro info hin
  cases head with
  | nil =>
    rw [List.mem_singleton.mp hin]
  | cons first rest =>
    rcases List.mem_cons.mp hin with rfl | hin
    · exact h _ List.mem_cons_self
    · rcases List.mem_cons.mp hin with rfl | hin
      · rfl
      · exact h info (List.mem_cons_of_mem _ hin)

/-- three snap lines, of which the second is recorded only by the user's command -/
theorem snapshot_schedule_lines :
    (∀ n, Records 5 (before 5 (parse_6_entries (parse_6_entries (parse_6_entries [] 3 20) 3 0) 5 30) n) 0 ↔
      0 < (before 5 (parse_6_entries (parse_6_entries (parse_6_entries [] 3 20) 3 0) 5 30) n).slept ∧
        (20 : ℤ) ∣ (before 5 (parse_6_entries (parse_6_entries (parse_6_entries [] 3 20) 3 0) 5 30) n).slept) ∧
      ∀ k : ℕ, 0 < k → ∃ n,
        (before 5 (parse_6_entries (parse_6_entries (parse_6_entries [] 3 20) 3 0) 5 30) n).slept = k * 20 :=
  (snapshot_schedule 5 (parse_6_entries (parse_6_entries (parse_6_entries [] 3 20) 3 0) 5 30) (by decide) 0
    (by decide)).1 (by decide)

end SprdDevice.Slog.Snapshot
