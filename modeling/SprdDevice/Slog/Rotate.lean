/-
Rotation of a stream log (tools/slog/handler.c): gen_outfd, file_name_rotate, rotatelogs and log_size_handler on the
files base, base.1, ..., base.N.

- `Mode`: internal storage, where the limit is internal_log_size in KB (N = 1), or external storage with max_size 0
  (N = 9);
- `Log`: the files, the counter, the limit, and the loop variable of file_name_rotate between two renames. The code does
  not see the rest: `written` are all bytes written, `rotations` the rotations begun, `rotated` the size limit of each
  base.i at the rename of base, and each byte has a mark, the number of rotations begun before it was written;
- `Op`: a chunk is written whole, or its write fails on the way (the daemon opens the file again), the next rename of a
  rotation or its end, and a restart of the daemon at any moment, which sets internal_log_size anew.
Result: `rotation_iff`. The files are the newest bytes whatever limits the starts set; the rotated ones had at least the
size limit when they were rotated exactly when these limits in bytes are ints.
-/
import Mathlib.Tactic
import SprdDevice.Lib.Rotation

namespace SprdDevice.Slog.Rotate

open SprdDevice.Rotation

def DEFAULT_MAX_LOG_SIZE : ℕ := 256

def MAXROLLLOGS : ℕ := 9

def INTERNAL_ROLLLOGS : ℕ := 1

inductive Mode where
  | internal
  | external
deriving DecidableEq, Repr

/-- internal_log_size from the available space in KB: 80% of what is above 5 MB, by 12; an unsigned difference -/
def handler_internal_log_size (available : ℕ) : ℕ := (available + 2 ^ 32 - 5 * 1024) % 2 ^ 32 / 5 * 4 / 12

/-- a C int -/
def int32 (x : ℤ) : ℤ := x.bmod (2 ^ 32)

def Mode.num : Mode → ℕ
  | .internal => INTERNAL_ROLLLOGS
  | .external => MAXROLLLOGS

/-- the size limit in bytes -/
def Mode.size (m : Mode) (internal_log_size : ℕ) : ℕ :=
  match m with
  | .internal => internal_log_size * 1024
  | .external => DEFAULT_MAX_LOG_SIZE * 1024 * 1024

/-- what the counter is compared with -/
def Mode.limit (m : Mode) (internal_log_size : ℕ) : ℤ := int32 (m.size internal_log_size)

structure Byte where
  val : UInt8
  mark : ℕ
deriving DecidableEq, Repr

structure Log where
  internal_log_size : ℕ
  files : ℕ → Option (List Byte)
  outbytecount : ℤ
  turn : Option ℕ
  written : List Byte
  rotations : ℕ
  rotated : ℕ → ℕ

def append (s : Log) (bytes : List UInt8) : Log :=
  let new := bytes.map fun b => ⟨b, s.rotations⟩
  { s with files := Function.update s.files 0 (some ((s.files 0).getD [] ++ new)), written := s.written ++ new }

/-- lseek at the end of a file, an off_t of 32 bits -/
def lseek (size : ℕ) : ℤ := if size < 2 ^ 31 then size else -1

def gen_outfd (s : Log) : Log :=
  let c := (s.files 0).getD []
  { s with files := Function.update s.files 0 (some c), outbytecount := lseek c.length }

def log_size_handler (m : Mode) (s : Log) : Log :=
  if s.outbytecount ≥ m.limit s.internal_log_size then { s with turn := some m.num, rotations := s.rotations + 1 }
  else s

/-- the file is opened, then the time of the start is written past the counter -/
def open_log (s : Log) (timestamp : List UInt8) : Log := append { gen_outfd s with turn := none } timestamp

/-- one turn of file_name_rotate: base.i, or base, becomes base.(i+1) if it is there -/
def file_name_rotate (m : Mode) (s : Log) (i : ℕ) : Log :=
  let size := if i = 0 then m.size s.internal_log_size else s.rotated i
  { s with
    files := move s.files i
    rotated := if s.files i = none then s.rotated else Function.update s.rotated (i + 1) size
    turn := some i }

/-- the next rename, and behind the last one the rest of rotatelogs -/
def rotatelogs (m : Mode) (s : Log) : Log :=
  match s.turn with
  | none => s
  | some 0 => { gen_outfd s with outbytecount := 0, turn := none }
  | some (i + 1) => file_name_rotate m s i

/-- a start finds internal_log_size anew, from the space that is available then -/
inductive Op where
  | chunk (bytes : List UInt8)
  | broken (bytes timestamp : List UInt8)
  | rotate
  | restart (internal_log_size : ℕ) (timestamp : List UInt8)

/-- no chunk is written during a rotation -/
def step (m : Mode) (s : Log) : Op → Log
  | .chunk bytes =>
    match s.turn with
    | some _ => s
    | none =>
      let s := append s bytes
      log_size_handler m { s with outbytecount := int32 (s.outbytecount + bytes.length) }
  | .broken bytes timestamp =>
    match s.turn with
    | some _ => s
    | none => open_log (append s bytes) timestamp
  | .rotate => rotatelogs m s
  | .restart internal_log_size timestamp => open_log { s with internal_log_size := internal_log_size } timestamp

/-- the first start of the daemon -/
def start (internal_log_size : ℕ) (timestamp : List UInt8) : Log :=
  open_log ⟨internal_log_size, fun _ => none, 0, none, [], 0, fun _ => 0⟩ timestamp

/-! ## What the rotation keeps -/

/-- base.N, ..., base.1, base -/
def kept (m : Mode) (s : Log) : List Byte := concat s.files (m.num + 1)

structure Newest (m : Mode) (s : Log) : Prop where
  suffix : ∃ lost, s.written = lost ++ kept m s ∧ ∀ b ∈ lost, b.mark + m.num < s.rotations

/-- each rotated file has at least the size limit of its rotation -/
def FullFiles (s : Log) : Prop := ∀ i c, s.files (i + 1) = some c → s.rotated (i + 1) ≤ c.length

structure Sound (m : Mode) (s : Log) : Prop where
  newest : Newest m s
  full : FullFiles s

/-- the limit in bytes is an int -/
def Mode.Fits (m : Mode) (internal_log_size : ℕ) : Prop := m.size internal_log_size < 2 ^ 31

/-- the limit that a start finds is one of P -/
def Op.Finds (P : ℕ → Prop) : Op → Prop
  | .restart internal_log_size _ => P internal_log_size
  | .chunk _ | .broken _ _ | .rotate => True

/-! ## The invariant -/

/-- 1 for a file that the rotation in progress has still to move -/
def due (turn : Option ℕ) (j : ℕ) : ℕ :=
  match turn with
  | none => 0
  | some i => if j ≤ i then 1 else 0

theorem due_some (i j : ℕ) : due (some i) j = if j ≤ i then 1 else 0 := rfl

theorem due_le (turn : Option ℕ) (j : ℕ) : due turn j ≤ 1 := by
  unfold due
  split
  · exact Nat.zero_le 1
  · split_ifs
    · exact Nat.le_refl 1
    · exact Nat.zero_le 1

/-- what holds of the files at every moment -/
structure Core (m : Mode) (s : Log) : Prop where
  newest : Newest m s
  turn_le : ∀ i, s.turn = some i → i ≤ m.num
  gap : ∀ i, s.turn = some i → i < m.num → s.files i = none
  age : ∀ j c, s.files j = some c → ∀ b ∈ c, b.mark + j + due s.turn j ≤ s.rotations

/-- the counter is not above the size of the open file -/
def Counted (s : Log) : Prop :=
  s.turn = none → ∃ c, s.files 0 = some c ∧ -2 ^ 31 ≤ s.outbytecount ∧ s.outbytecount ≤ c.length

structure Inv (m : Mode) (s : Log) : Prop where
  core : Core m s
  counted : Counted s

section Steps

variable {m : Mode} {s : Log}

theorem update_base {f : ℕ → Option (List Byte)} {d : List Byte} {j : ℕ} {c : List Byte}
    (h : Function.update f 0 (some d) j = some c) : j = 0 ∧ c = d ∨ f j = some c := by
  by_cases hj : j = 0
  · rw [hj, Function.update_self, Option.some.injEq] at h
    exact Or.inl ⟨hj, h.symm⟩
  · rw [Function.update_of_ne hj] at h
    exact Or.inr h

theorem mem_getD {o : Option (List Byte)} {b : Byte} (h : b ∈ o.getD []) : ∃ c, o = some c ∧ b ∈ c := by
  cases o with
  | none => exact absurd h List.not_mem_nil
  | some c => exact ⟨c, rfl, h⟩

theorem kept_base (hn : 0 < m.num + 1) (f : ℕ → Option (List Byte)) :
    concat (Function.update f 0 (some ((f 0).getD []))) (m.num + 1) = concat f (m.num + 1) := by
  have h := @concat_append _ f _ [] hn
  rwa [List.append_nil, List.append_nil] at h

/-- the file is opened -/
theorem core_open (h : Core m s) (count : ℤ) :
    Core m { gen_outfd s with outbytecount := count, turn := none } where
  newest := by
    obtain ⟨lost, hlost, hold⟩ := h.newest.suffix
    refine ⟨lost, hlost.trans ?_, hold⟩
    exact congrArg (lost ++ ·) (kept_base (Nat.succ_pos m.num) s.files).symm
  turn_le i hi := nomatch hi
  gap i hi := nomatch hi
  age j c hc b hb := by
    rcases update_base hc with ⟨rfl, rfl⟩ | hc
    · obtain ⟨d, hd, hb⟩ := mem_getD hb
      exact (Nat.add_le_add_left (Nat.zero_le _) _).trans (h.age 0 d hd b hb)
    · exact (Nat.add_le_add_left (Nat.zero_le _) _).trans (h.age j c hc b hb)

/-- bytes are written to the open file -/
theorem core_append (h : Core m s) (ht : s.turn = none) (bytes : List UInt8) : Core m (append s bytes) where
  newest := by
    obtain ⟨lost, hlost, hold⟩ := h.newest.suffix
    refine ⟨lost, ?_, hold⟩
    show s.written ++ _ = lost ++ concat (Function.update s.files 0 _) (m.num + 1)
    rw [concat_append (Nat.succ_pos m.num), ← List.append_assoc, hlost]
    rfl
  turn_le := h.turn_le
  gap i hi := by
    have hi : s.turn = some i := hi
    rw [ht] at hi
    cases hi
  age j c hc b hb := by
    show b.mark + j + due s.turn j ≤ s.rotations
    rcases update_base hc with ⟨rfl, rfl⟩ | hc
    · rcases List.mem_append.mp hb with hb | hb
      · obtain ⟨d, hd, hb⟩ := mem_getD hb
        exact h.age 0 d hd b hb
      · obtain ⟨x, -, rfl⟩ := List.mem_map.mp hb
        rw [ht]
        exact Nat.le_refl _
    · exact h.age j c hc b hb

/-- a rename of base.i, or of base, to base.(i+1) -/
theorem core_rename (h : Core m s) {i : ℕ} (ht : s.turn = some (i + 1)) :
    Core m (file_name_rotate m s i) where
  newest := by
    obtain ⟨lost, hlost, hold⟩ := h.newest.suffix
    have hle := h.turn_le _ ht
    rcases Nat.lt_or_eq_of_le hle with hlt | heq
    · refine ⟨lost, hlost.trans ?_, hold⟩
      exact congrArg (lost ++ ·) (concat_move (h.gap _ ht hlt) (by omega)).symm
    · -- base.N is overwritten: it was there before this rotation, which has not moved it
      have htop : kept m s = dropped s.files i ++ concat (move s.files i) (m.num + 1) := by
        rw [kept, ← heq]
        exact concat_move_top
      refine ⟨lost ++ dropped s.files i, ?_, fun b hb => ?_⟩
      · show s.written = _
        rw [List.append_assoc, hlost, htop]
        rfl
      · rcases List.mem_append.mp hb with hb | hb
        · exact hold b hb
        · have hb : b ∈ (s.files (i + 1)).getD [] := by
            rw [dropped] at hb
            split_ifs at hb
            · exact absurd hb List.not_mem_nil
            · exact hb
          obtain ⟨c, hc, hb⟩ := mem_getD hb
          have hage := h.age _ c hc b hb
          rw [ht, due_some, if_pos (Nat.le_refl _)] at hage
          show b.mark + m.num < s.rotations
          omega
  turn_le j hj := by
    cases hj
    exact (Nat.le_succ i).trans (h.turn_le _ ht)
  gap j hj _ := by
    cases hj
    exact move_source
  age j c hc b hb := by
    show b.mark + j + due (some i) j ≤ s.rotations
    rcases move_eq_some hc with ⟨hold, -⟩ | ⟨hold, rfl⟩
    · have hage := h.age j c hold b hb
      rw [ht] at hage
      have hdue : due (some i) j ≤ due (some (i + 1)) j := by
        rw [due_some, due_some]
        split_ifs <;> omega
      omega
    · have hage := h.age i c hold b hb
      rw [ht, due_some, if_pos (Nat.le_succ i)] at hage
      rw [due_some, if_neg (Nat.not_succ_le_self i)]
      omega

/-- a rotation begins -/
theorem core_begin (h : Core m s) (ht : s.turn = none) :
    Core m { s with turn := some m.num, rotations := s.rotations + 1 } where
  newest := by
    obtain ⟨lost, hlost, hold⟩ := h.newest.suffix
    exact ⟨lost, hlost, fun b hb => (hold b hb).trans (Nat.lt_succ_self _)⟩
  turn_le j hj := by
    cases hj
    exact Nat.le_refl _
  gap j hj hlt := by
    cases hj
    exact absurd hlt (Nat.lt_irrefl _)
  age j c hc b hb := by
    have hage := h.age j c hc b hb
    have hdue := due_le (some m.num) j
    rw [ht] at hage
    show b.mark + j + due (some m.num) j ≤ s.rotations + 1
    omega

theorem append_base (s : Log) (bytes : List UInt8) :
    (append s bytes).files 0 = some ((s.files 0).getD [] ++ bytes.map fun b => ⟨b, s.rotations⟩) := by
  simp [append]

theorem gen_outfd_base (s : Log) : (gen_outfd s).files 0 = some ((s.files 0).getD []) := by
  simp [gen_outfd]

theorem counted_append (h : Counted s) (bytes : List UInt8) : Counted (append s bytes) := by
  intro ht
  obtain ⟨c, hc, hlo, hhi⟩ := h ht
  refine ⟨_, append_base s bytes, hlo, ?_⟩
  rw [hc, Option.getD_some, List.length_append]
  push_cast
  exact hhi.trans (Int.le_add_of_nonneg_right (Int.natCast_nonneg _))

theorem lseek_le (size : ℕ) : -2 ^ 31 ≤ lseek size ∧ lseek size ≤ size := by
  unfold lseek
  split_ifs <;> omega

theorem core_size (h : Core m s) (internal_log_size : ℕ) : Core m { s with internal_log_size := internal_log_size } where
  newest := ⟨h.newest.suffix⟩
  turn_le := h.turn_le
  gap := h.gap
  age := h.age

theorem inv_open_log (h : Core m s) (timestamp : List UInt8) : Inv m (open_log s timestamp) := by
  have hcore : Core m { gen_outfd s with turn := none } := core_open h (lseek ((s.files 0).getD []).length)
  refine ⟨core_append hcore rfl timestamp, counted_append (fun _ => ?_) timestamp⟩
  exact ⟨_, gen_outfd_base s, lseek_le _⟩

theorem int32_le {x : ℤ} (h : -2 ^ 31 ≤ x) : -2 ^ 31 ≤ int32 x ∧ int32 x ≤ x := by
  unfold int32
  rw [Int.bmod_def]
  split_ifs <;> omega

theorem int32_of_lt {n : ℕ} (h : n < 2 ^ 31) : int32 n = n := by
  unfold int32
  rw [Int.bmod_def]
  split_ifs <;> omega

/-- a chunk on its way into the file, and the counter -/
def counted (s : Log) (bytes : List UInt8) : Log :=
  { append s bytes with outbytecount := int32 (s.outbytecount + bytes.length) }

theorem counted_count (s : Log) (bytes : List UInt8) :
    (counted s bytes).outbytecount = int32 (s.outbytecount + bytes.length) := rfl

theorem counted_base (s : Log) (bytes : List UInt8) :
    (counted s bytes).files 0 = some ((s.files 0).getD [] ++ bytes.map fun b => ⟨b, s.rotations⟩) := append_base s bytes

/-- a chunk while no rotation is going on -/
theorem step_chunk (ht : s.turn = none) (bytes : List UInt8) :
    step m s (.chunk bytes) = log_size_handler m (counted s bytes) := by
  rw [step, ht]
  rfl

/-- **One step.** Nothing, a chunk, a failed write, a restart, the end of a rotation or a rename of one -/
theorem step_cases (m : Mode) (s : Log) (o : Op) :
    step m s o = s ∨
    (∃ bytes, s.turn = none ∧ step m s o = log_size_handler m (counted s bytes)) ∨
    (∃ bytes timestamp, s.turn = none ∧ step m s o = open_log (append s bytes) timestamp) ∨
    (∃ n timestamp, o = .restart n timestamp ∧ step m s o = open_log { s with internal_log_size := n } timestamp) ∨
    step m s o = { gen_outfd s with outbytecount := 0, turn := none } ∨
    ∃ i, s.turn = some (i + 1) ∧ step m s o = file_name_rotate m s i := by
  cases o with
  | chunk bytes =>
    rcases ht : s.turn with _ | i
    · exact Or.inr (Or.inl ⟨bytes, rfl, step_chunk ht bytes⟩)
    · exact Or.inl (by rw [step, ht])
  | broken bytes timestamp =>
    rcases ht : s.turn with _ | i
    · exact Or.inr (Or.inr (Or.inl ⟨bytes, timestamp, rfl, by rw [step, ht]⟩))
    · exact Or.inl (by rw [step, ht])
  | rotate =>
    rcases ht : s.turn with _ | _ | i
    · exact Or.inl (by rw [step, rotatelogs, ht])
    · exact Or.inr (Or.inr (Or.inr (Or.inr (Or.inl (by rw [step, rotatelogs, ht])))))
    · exact Or.inr (Or.inr (Or.inr (Or.inr (Or.inr ⟨i, rfl, by rw [step, rotatelogs, ht]⟩))))
  | restart n timestamp => exact Or.inr (Or.inr (Or.inr (Or.inl ⟨n, timestamp, rfl, rfl⟩)))

theorem inv_counted (h : Inv m s) (ht : s.turn = none) (bytes : List UInt8) : Inv m (counted s bytes) := by
  have hcore := core_append h.core ht bytes
  obtain ⟨c, hc, hlo, hhi⟩ := h.counted ht
  have hint : -2 ^ 31 ≤ s.outbytecount + bytes.length := by omega
  refine ⟨⟨⟨hcore.newest.suffix⟩, hcore.turn_le, hcore.gap, hcore.age⟩, fun _ => ⟨_, append_base s bytes, ?_, ?_⟩⟩
  · exact (int32_le hint).1
  · rw [hc, Option.getD_some, List.length_append, List.length_map]
    push_cast
    exact (int32_le hint).2.trans (Int.add_le_add_right hhi _)

/-- one step keeps the invariant -/
theorem inv_step (h : Inv m s) (o : Op) : Inv m (step m s o) := by
  rcases step_cases m s o with he | ⟨bytes, ht, he⟩ | ⟨bytes, timestamp, ht, he⟩ | ⟨n, timestamp, rfl, he⟩ | he |
    ⟨i, ht, he⟩
  · rwa [he]
  · have hinv := inv_counted h ht bytes
    rw [he, log_size_handler]
    split_ifs
    · exact ⟨core_begin hinv.core ht, fun hno => nomatch hno⟩
    · exact hinv
  · rw [he]
    exact inv_open_log (core_append h.core ht bytes) timestamp
  · rw [he]
    exact inv_open_log (core_size h.core n) timestamp
  · have hzero : -2 ^ 31 ≤ (0 : ℤ) := by decide
    rw [he]
    exact ⟨core_open h.core 0, fun _ => ⟨_, gen_outfd_base s, hzero, Int.natCast_nonneg _⟩⟩
  · rw [he]
    exact ⟨core_rename h.core ht, fun hno => nomatch hno⟩

theorem concat_none (n : ℕ) : concat (fun _ => none : ℕ → Option (List Byte)) n = [] := by
  induction n with
  | zero => rfl
  | succ n ih => rw [concat, ih, Option.getD_none, List.append_nil]

theorem inv_start (m : Mode) (n : ℕ) (timestamp : List UInt8) : Inv m (start n timestamp) := by
  refine inv_open_log ?_ timestamp
  exact
    { newest := ⟨[], by rw [kept, concat_none, List.append_nil], fun b hb => absurd hb List.not_mem_nil⟩
      turn_le := fun i hi => nomatch hi
      gap := fun i hi => nomatch hi
      age := fun j c hc => nomatch hc }

/-! ## The size of the rotated files -/

/-- the rotated files, the one that a rotation in progress is about to move, and the limit -/
structure Full (m : Mode) (s : Log) : Prop where
  files : FullFiles s
  base : ∀ c, s.turn ≠ none → s.files 0 = some c → m.size s.internal_log_size ≤ c.length
  fits : m.Fits s.internal_log_size

theorem append_rotated (s : Log) (bytes : List UInt8) (i : ℕ) : (append s bytes).files (i + 1) = s.files (i + 1) := by
  simp [append]

theorem gen_outfd_rotated (s : Log) (i : ℕ) : (gen_outfd s).files (i + 1) = s.files (i + 1) := by
  simp [gen_outfd]

theorem full_gen_outfd (h : FullFiles s) (hn : m.Fits s.internal_log_size) (count : ℤ) :
    Full m { gen_outfd s with outbytecount := count, turn := none } where
  files i c hc := h i c ((gen_outfd_rotated s i).symm.trans hc)
  base _ ht := absurd rfl ht
  fits := hn

theorem full_append (h : Full m s) (ht : s.turn = none) (bytes : List UInt8) : Full m (append s bytes) where
  files i c hc := h.files i c ((append_rotated s bytes i).symm.trans hc)
  base _ hturn := absurd ht hturn
  fits := h.fits

theorem full_open_log (h : FullFiles s) (hn : m.Fits s.internal_log_size) (timestamp : List UInt8) :
    Full m (open_log s timestamp) :=
  full_append (full_gen_outfd h hn (lseek ((s.files 0).getD []).length)) rfl timestamp

theorem full_counted (h : Full m s) (ht : s.turn = none) (bytes : List UInt8) : Full m (counted s bytes) where
  files := (full_append h ht bytes).files
  base := (full_append h ht bytes).base
  fits := h.fits

theorem limit_of_fits {n : ℕ} (hn : m.Fits n) : m.limit n = m.size n := int32_of_lt hn

/-- the counter has reached the limit, and the file is at least as large -/
theorem full_begin (hi : Inv m s) (h : Full m s) (ht : s.turn = none)
    (hge : s.outbytecount ≥ m.limit s.internal_log_size) :
    Full m { s with turn := some m.num, rotations := s.rotations + 1 } where
  files := h.files
  base c _ hc := by
    obtain ⟨d, hd, -, hcount⟩ := hi.counted ht
    have hc : s.files 0 = some c := hc
    rw [hd, Option.some.injEq] at hc
    rw [limit_of_fits h.fits] at hge
    rw [← hc]
    exact_mod_cast hge.le.trans hcount
  fits := h.fits

/-- base gets the limit of this rotation, an older file takes its own along -/
theorem fullFiles_rename (h : Full m s) (ht : s.turn ≠ none) (i : ℕ) : FullFiles (file_name_rotate m s i) := by
  intro j c hc
  show (if s.files i = none then s.rotated else Function.update s.rotated (i + 1) _) (j + 1) ≤ c.length
  have hc : move s.files i (j + 1) = some c := hc
  rcases hd : s.files i with _ | d
  · rw [move_none hd] at hc
    exact h.files j c hc
  · rw [if_neg (Option.some_ne_none d)]
    by_cases hj : j = i
    · rw [hj, move_target hd, Option.some.injEq] at hc
      rw [hj, Function.update_self, ← hc]
      cases i with
      | zero => exact h.base d ht hd
      | succ k => exact h.files k d hd
    · have hsource : j + 1 ≠ i := by
        rintro rfl
        rw [move_source] at hc
        cases hc
      have htarget : j + 1 ≠ i + 1 := fun he => hj (Nat.succ.inj he)
      rw [move_other hsource htarget] at hc
      rw [Function.update_of_ne htarget]
      exact h.files j c hc

theorem full_rename (h : Full m s) (ht : s.turn ≠ none) (i : ℕ) : Full m (file_name_rotate m s i) where
  files := fullFiles_rename h ht i
  base c _ hc := by
    rcases move_eq_some hc with ⟨hold, -⟩ | ⟨-, h0⟩
    · exact h.base c ht hold
    · exact absurd h0.symm (Nat.succ_ne_zero i)
  fits := h.fits

/-- one step keeps the files full, when the limit of a restart is an int -/
theorem full_step (hi : Inv m s) (h : Full m s) {o : Op} (ho : o.Finds m.Fits) : Full m (step m s o) := by
  rcases step_cases m s o with he | ⟨bytes, ht, he⟩ | ⟨bytes, timestamp, ht, he⟩ | ⟨n, timestamp, rfl, he⟩ | he |
    ⟨i, ht, he⟩
  · rwa [he]
  · have hfull := full_counted h ht bytes
    rw [he, log_size_handler]
    split_ifs with hge
    · exact full_begin (inv_counted hi ht bytes) hfull ht hge
    · exact hfull
  · rw [he]
    have hfull := full_append h ht bytes
    exact full_open_log hfull.files hfull.fits timestamp
  · have hn : m.Fits n := by simpa only [Op.Finds] using ho
    have hfiles : FullFiles { s with internal_log_size := n } := h.files
    rw [he]
    exact full_open_log hfiles hn timestamp
  · rw [he]
    exact full_gen_outfd h.files h.fits 0
  · rw [he]
    exact full_rename h (by rw [ht]; exact Option.some_ne_none _) i

theorem full_start {n : ℕ} (hn : m.Fits n) (timestamp : List UInt8) : Full m (start n timestamp) := by
  refine full_open_log (fun i c hc => ?_) ?_ timestamp
  · exact absurd hc (by simp)
  · exact hn

end Steps

/-! ## Runs -/

/-- the files are the newest bytes, whatever the limits are -/
theorem newest_run (m : Mode) (n : ℕ) (timestamp : List UInt8) (ops : List Op) :
    Newest m (ops.foldl (step m) (start n timestamp)) := by
  have hinv : Inv m (ops.foldl (step m) (start n timestamp)) :=
    List.foldlRecOn ops (step m) (inv_start m n timestamp) fun _ h o _ => inv_step h o
  exact hinv.core.newest

theorem sound_run {m : Mode} {n : ℕ} (hn : m.Fits n) (timestamp : List UInt8) {ops : List Op}
    (hops : ∀ o ∈ ops, o.Finds m.Fits) : Sound m (ops.foldl (step m) (start n timestamp)) := by
  have hinv : Inv m (ops.foldl (step m) (start n timestamp)) ∧ Full m (ops.foldl (step m) (start n timestamp)) :=
    List.foldlRecOn (motive := fun s => Inv m s ∧ Full m s) ops (step m)
      ⟨inv_start m n timestamp, full_start hn timestamp⟩
      fun _ h o ho => ⟨inv_step h.1 o, full_step h.1 h.2 (hops o ho)⟩
  exact ⟨hinv.1.core.newest, hinv.2.files⟩

theorem int32_lt (x : ℤ) : int32 x < 2 ^ 31 := by
  unfold int32
  rw [Int.bmod_def]
  split_ifs <;> omega

theorem start_count (n : ℕ) : (start n []).outbytecount = 0 := by
  simp [start, open_log, append, gen_outfd, lseek]

theorem start_base (n : ℕ) : (start n []).files 0 = some [] := by
  simp [start, open_log, append, gen_outfd]

theorem start_turn (n : ℕ) : (start n []).turn = none := rfl

theorem rotated_base {m : Mode} {s : Log} {c : List Byte} (hc : s.files 0 = some c) :
    (file_name_rotate m s 0).rotated 1 = m.size s.internal_log_size := by
  simp [file_name_rotate, hc]

theorem external_fits {n : ℕ} : Mode.external.Fits n := by
  have hsize : DEFAULT_MAX_LOG_SIZE * 1024 * 1024 < 2 ^ 31 := by decide
  exact hsize

/-- the first chunk, of as many bytes as the wrapped limit asks for -/
theorem wrapped_limit_rotates {n : ℕ} (hn : ¬ Mode.internal.Fits n) :
    ∃ ops : List Op, (∀ P, ∀ o ∈ ops, o.Finds P) ∧
      ¬ Sound .internal (ops.foldl (step .internal) (start n [])) := by
  have hlimit : Mode.internal.limit n < 2 ^ 31 := int32_lt _
  obtain ⟨bytes, hbytes⟩ : ∃ bytes : List UInt8, bytes.length = (Mode.internal.limit n).toNat :=
    ⟨List.replicate (Mode.internal.limit n).toNat 0, List.length_replicate⟩
  have hcount : (counted (start n []) bytes).outbytecount = (Mode.internal.limit n).toNat := by
    rw [counted_count, start_count, hbytes, Int.zero_add]
    exact int32_of_lt (by omega)
  have hge : (counted (start n []) bytes).outbytecount ≥
      Mode.internal.limit (counted (start n []) bytes).internal_log_size := by
    rw [hcount]
    exact Int.self_le_toNat _
  obtain ⟨c, hc, hlen⟩ :
      ∃ c, (counted (start n []) bytes).files 0 = some c ∧ c.length = (Mode.internal.limit n).toNat := by
    refine ⟨_, counted_base _ _, ?_⟩
    rw [start_base, Option.getD_some, List.nil_append, List.length_map, hbytes]
  refine ⟨[.chunk bytes, .rotate], fun P o ho => ?_, fun hs => hn ?_⟩
  · rcases List.mem_cons.1 ho with rfl | ho
    · trivial
    · rw [List.mem_singleton.1 ho]
      trivial
  · rw [List.foldl_cons, List.foldl_cons, List.foldl_nil, step_chunk (start_turn n), log_size_handler, if_pos hge] at hs
    have hsize := hs.full 0 c (move_target hc)
    have hrotated : Mode.internal.size n ≤ c.length := (rotated_base hc).symm.trans_le hsize
    show Mode.internal.size n < 2 ^ 31
    omega

/-- **Rotation.** In every run of a rotating log the files are the newest bytes, what is missing was written more than N
rotations ago, and the rotated files had at least the size limit when they were rotated: whatever limits the starts may
find, all of it holds in every run exactly when each of these limits in bytes is below 2^31 -/
theorem rotation_iff (m : Mode) (P : ℕ → Prop) :
    (∀ (n : ℕ) (timestamp : List UInt8) (ops : List Op), P n → (∀ o ∈ ops, o.Finds P) →
      Sound m (ops.foldl (step m) (start n timestamp))) ↔ ∀ n, P n → m.Fits n := by
  constructor
  · intro h n hn
    by_contra hm
    cases m with
    | internal =>
      obtain ⟨ops, hfinds, hops⟩ := wrapped_limit_rotates hm
      exact hops (h n [] ops hn (hfinds P))
    | external => exact hm external_fits
  · intro h n timestamp ops hn hops
    refine sound_run (h n hn) timestamp fun o ho => ?_
    have hfinds := hops o ho
    cases o with
    | restart size _ => exact h size hfinds
    | chunk | broken | rotate => trivial

/-- 32 GB of available space: internal_log_size is 2236620, and of every two chunks the first is rotated away -/
theorem rotation_wraps : handler_internal_log_size (32 * 2 ^ 20) = 2236620 ∧
    ¬ ∀ (m : Mode) (n : ℕ) (timestamp : List UInt8) (ops : List Op),
      Sound m (ops.foldl (step m) (start n timestamp)) := by
  refine ⟨by decide, fun h => ?_⟩
  have hfull := (h .internal 2236620 [] [.chunk [0x41], .rotate]).full 0 [⟨0x41, 0⟩] (by decide +kernel)
  exact absurd hfull (by decide +kernel)

end SprdDevice.Slog.Rotate
