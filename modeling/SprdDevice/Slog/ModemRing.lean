/-
The ring of modem chunks in slog (tools/slog/handler.c, modem_log_handler): every chunk that is read goes into the next
slot of ring_buffer_table, and a hook request writes what the ring holds to a file of its own.

- `Handler`: the two indices, the lengths, the table and the flag; `dumps` has what each hook dump wrote, one list for
  each write_from_buffer. The writes succeed. The write of the chunk to the log file stands in Rotate.lean;
- `Op`: a chunk is read (and, where a dump is asked for, the file of the dump can be opened or not), a pass without a
  chunk, whose memset has cleared the free slot, and a hook request of another thread.
Result: `modem_ring`, for every run.
-/
import Mathlib.Tactic
import SprdDevice.Lib.Memory
import SprdDevice.Lib.Ring

namespace SprdDevice.Slog.ModemRing

open SprdDevice.Memory SprdDevice.Ring

def MODEM_CIRCULAR_SIZE : ℕ := 2 * 1024 * 1024

def SINGLE_BUFFER_SIZE : ℕ := 16 * 1024

def RING_BUFFER_NUM : ℕ := MODEM_CIRCULAR_SIZE / SINGLE_BUFFER_SIZE

/-- what one read gives -/
structure Chunk where
  bytes : List UInt8
  pos : 0 < bytes.length
  fits : bytes.length ≤ SINGLE_BUFFER_SIZE

structure Handler where
  buffer_start : ℕ
  buffer_end : ℕ
  buffer_len : ℕ → ℕ
  ring_buffer_table : ℕ → UInt8
  hook_modem_flag : Bool
  running : Bool
  dumps : List (List (List UInt8))

/-- what write_from_buffer is given for a slot -/
def slot (table : ℕ → UInt8) (len : ℕ → ℕ) (i : ℕ) : List UInt8 := cells table (i * SINGLE_BUFFER_SIZE) (len i)

/-- the memset of the free slot -/
def clear (table : ℕ → UInt8) (i : ℕ) : ℕ → UInt8 :=
  store table (i * SINGLE_BUFFER_SIZE) (List.replicate SINGLE_BUFFER_SIZE 0)

/-- the writes of a dump, and buffer_start behind them -/
def dumpLoop (table : ℕ → UInt8) (len : ℕ → ℕ) (buffer_end : ℕ) : ℕ → ℕ → List (List UInt8) × ℕ
  | 0, buffer_start => ([], buffer_start)
  | fuel + 1, buffer_start =>
    let next := (buffer_start + 1) % RING_BUFFER_NUM
    if buffer_end = next then ([slot table len buffer_start], next)
    else
      let r := dumpLoop table len buffer_end fuel next
      (slot table len buffer_start :: r.1, r.2)

inductive Op where
  | chunk (c : Chunk) (opened : Bool)
  | nothing
  | hook

/-- the ring with one more chunk -/
def push (s : Handler) (bytes : List UInt8) : Handler :=
  let next := (s.buffer_end + 1) % RING_BUFFER_NUM
  { s with
    ring_buffer_table := store (clear s.ring_buffer_table s.buffer_end) (s.buffer_end * SINGLE_BUFFER_SIZE) bytes
    buffer_len := Function.update s.buffer_len s.buffer_end bytes.length
    buffer_end := next
    buffer_start := if next = s.buffer_start then (s.buffer_start + 1) % RING_BUFFER_NUM else s.buffer_start }

/-- a pass visits every slot once at most, so the fuel of the loop is the number of the slots -/
def dump (s : Handler) : Handler :=
  let r := dumpLoop s.ring_buffer_table s.buffer_len s.buffer_end RING_BUFFER_NUM s.buffer_start
  { s with buffer_start := r.2, hook_modem_flag := false, dumps := s.dumps ++ [r.1] }

def step (s : Handler) (o : Op) : Handler :=
  if s.running = false then s
  else
    match o with
    | .hook => { s with hook_modem_flag := true }
    | .nothing => { s with ring_buffer_table := clear s.ring_buffer_table s.buffer_end }
    | .chunk c opened =>
      let s := push s c.bytes
      if s.hook_modem_flag = false then s
      else if opened = false then { s with running := false }
      else dump s

/-- the lengths and the table are what they are -/
def start (len : ℕ → ℕ) (table : ℕ → UInt8) (flag : Bool) : Handler := ⟨0, 0, len, table, flag, true, []⟩

/-! ## What is to be dumped -/

/-- the last n of a list -/
def newest {α : Type} (n : ℕ) (l : List α) : List α := l.drop (l.length - n)

/-- the dumps of a run, since are the chunks read since the previous dump -/
def dumpsOf : List Chunk → Bool → List Op → List (List (List UInt8))
  | _, _, [] => []
  | since, _, .hook :: ops => dumpsOf since true ops
  | since, asked, .nothing :: ops => dumpsOf since asked ops
  | since, asked, .chunk c opened :: ops =>
    if asked = false then dumpsOf (since ++ [c]) asked ops
    else if opened = false then []
    else (newest (RING_BUFFER_NUM - 1) (since ++ [c])).map Chunk.bytes :: dumpsOf [] false ops

def chunksOf (ops : List Op) : List Chunk :=
  ops.filterMap fun
    | .chunk c _ => some c
    | _ => none

theorem length_newest {α : Type} (n : ℕ) (l : List α) : (newest n l).length = min l.length n := by
  rw [newest, List.length_drop]
  omega

theorem newest_sublist {α : Type} (n : ℕ) (l : List α) : (newest n l).Sublist l := List.drop_sublist _ _

/-- one more element: behind the others where there is room, else in the place of the first -/
theorem newest_snoc {α : Type} {n : ℕ} (hn : 0 < n) (l : List α) (a : α) :
    newest n (l ++ [a]) = (if (newest n l).length = n then (newest n l).tail else newest n l) ++ [a] := by
  rw [length_newest, newest, newest, List.length_append, List.length_singleton]
  split_ifs with hfull
  · have hdrop : l.length + 1 - n = l.length - n + 1 := by omega
    rw [hdrop, List.tail_drop, List.drop_append_of_le_length (by omega)]
  · have hdrop : l.length + 1 - n = 0 := by omega
    have hall : l.length - n = 0 := by omega
    rw [hdrop, hall]
    rfl

/-! ## The ring -/

theorem num_eq : RING_BUFFER_NUM = 128 := by decide

/-- the ring holds l -/
structure Inv (s : Handler) (l : List Chunk) : Prop where
  start_lt : s.buffer_start < RING_BUFFER_NUM
  end_eq : s.buffer_end = (s.buffer_start + l.length) % RING_BUFFER_NUM
  length_lt : l.length < RING_BUFFER_NUM
  holds : Holds RING_BUFFER_NUM (slot s.ring_buffer_table s.buffer_len) s.buffer_start (l.map Chunk.bytes)

section Ring

variable {s : Handler} {l : List Chunk}

/-- a write into a slot leaves the others -/
theorem cells_store_slot (m : ℕ → UInt8) {i j n : ℕ} {bytes : List UInt8} (hij : i ≠ j) (hn : n ≤ SINGLE_BUFFER_SIZE)
    (hb : bytes.length ≤ SINGLE_BUFFER_SIZE) :
    cells (store m (j * SINGLE_BUFFER_SIZE) bytes) (i * SINGLE_BUFFER_SIZE) n =
      cells m (i * SINGLE_BUFFER_SIZE) n := by
  apply cells_congr
  intro k hk
  apply store_outside
  rcases Nat.lt_or_gt_of_ne hij with h | h
  · have hle := Nat.mul_le_mul_right SINGLE_BUFFER_SIZE (Nat.succ_le_of_lt h)
    rw [Nat.succ_mul] at hle
    omega
  · have hle := Nat.mul_le_mul_right SINGLE_BUFFER_SIZE (Nat.succ_le_of_lt h)
    rw [Nat.succ_mul] at hle
    omega

/-- the lengths of the slots in use -/
theorem Inv.len_le (h : Inv s l) {i : ℕ} (hi : i < l.length) :
    s.buffer_len ((s.buffer_start + i) % RING_BUFFER_NUM) ≤ SINGLE_BUFFER_SIZE := by
  have hslot := congrArg List.length (h.holds i (by rwa [List.length_map]))
  rw [slot, length_cells, List.getElem_map] at hslot
  rw [hslot]
  exact (l[i]).fits

/-- the free slot is none of those in use -/
theorem Inv.ne_end (h : Inv s l) {i : ℕ} (hi : i < l.length) :
    (s.buffer_start + i) % RING_BUFFER_NUM ≠ s.buffer_end := by
  have hlen := h.length_lt
  rw [h.end_eq]
  exact slot_ne s.buffer_start hi (by omega)

theorem Inv.nothing (h : Inv s l) : Inv { s with ring_buffer_table := clear s.ring_buffer_table s.buffer_end } l where
  start_lt := h.start_lt
  end_eq := h.end_eq
  length_lt := h.length_lt
  holds := by
    refine h.holds.congr fun i hi => ?_
    rw [List.length_map] at hi
    exact cells_store_slot _ (h.ne_end hi) (h.len_le hi) (List.length_replicate).le

/-- a chunk in the free slot, and behind the ring -/
theorem Inv.holds_push (h : Inv s l) (c : Chunk) :
    Holds RING_BUFFER_NUM (slot (push s c.bytes).ring_buffer_table (push s c.bytes).buffer_len) s.buffer_start
      ((l ++ [c]).map Chunk.bytes) := by
  have hpush := h.holds.push (by rw [List.length_map]; exact h.length_lt) c.bytes
  rw [List.length_map, ← h.end_eq] at hpush
  rw [List.map_append]
  refine hpush.congr fun i hi => ?_
  by_cases hend : (s.buffer_start + i) % RING_BUFFER_NUM = s.buffer_end
  · rw [hend, Function.update_self, slot, push]
    dsimp only
    rw [Function.update_self]
    exact cells_store_self _ _ _
  · have hlt : i < l.length := by
      rw [List.length_append, List.length_map, List.length_singleton] at hi
      refine Nat.lt_of_le_of_ne (Nat.lt_succ_iff.mp hi) fun heq => hend ?_
      rw [h.end_eq, heq]
    rw [Function.update_of_ne hend, slot, slot, push]
    dsimp only
    rw [Function.update_of_ne hend, cells_store_slot _ hend (h.len_le hlt) c.fits]
    exact cells_store_slot _ hend (h.len_le hlt) (List.length_replicate).le

theorem end_push (h : Inv s l) (bytes : List UInt8) :
    (push s bytes).buffer_end = (s.buffer_start + (l.length + 1)) % RING_BUFFER_NUM := by
  rw [push, h.end_eq]
  dsimp only
  rw [Nat.mod_add_mod, Nat.add_assoc]

/-- one chunk more: where the ring is full, its oldest one goes -/
theorem Inv.push (h : Inv s l) (c : Chunk) :
    Inv (push s c.bytes) ((if l.length = RING_BUFFER_NUM - 1 then l.tail else l) ++ [c]) := by
  have hholds := h.holds_push c
  have hend := end_push h c.bytes
  have hlen := h.length_lt
  have hstart := h.start_lt
  rw [num_eq] at hlen hstart hend ⊢
  by_cases hfull : l.length = 128 - 1
  · rw [if_pos hfull]
    have hround : (ModemRing.push s c.bytes).buffer_end = s.buffer_start := by
      rw [hend, hfull]
      omega
    have hnext : (ModemRing.push s c.bytes).buffer_start = (s.buffer_start + 1) % 128 := by
      rw [← num_eq]
      exact if_pos hround
    obtain ⟨a, l', rfl⟩ : ∃ a l', l = a :: l' := List.exists_cons_of_length_pos (by omega)
    rw [List.cons_append, List.map_cons] at hholds
    rw [List.length_cons] at hfull
    refine ⟨?_, ?_, ?_, ?_⟩
    · rw [hnext, num_eq]
      omega
    · rw [hround, hnext, num_eq, List.tail_cons, List.length_append, List.length_singleton]
      omega
    · rw [List.tail_cons, List.length_append, List.length_singleton, num_eq]
      omega
    · rw [hnext, ← num_eq]
      exact hholds.tail
  · rw [if_neg hfull]
    have hapart : ¬ (ModemRing.push s c.bytes).buffer_end = s.buffer_start := by
      rw [hend]
      omega
    have hsame : (ModemRing.push s c.bytes).buffer_start = s.buffer_start := if_neg hapart
    refine ⟨?_, ?_, ?_, ?_⟩
    · rw [hsame, num_eq]
      exact hstart
    · rw [hend, hsame, num_eq, List.length_append, List.length_singleton]
    · rw [List.length_append, List.length_singleton, num_eq]
      omega
    · rw [hsame]
      exact hholds

/-- the loop of a dump writes what the ring holds, and ends where the ring does -/
theorem dumpLoop_eq {table : ℕ → UInt8} {len : ℕ → ℕ} {buffer_end buffer_start fuel : ℕ} {x : List (List UInt8)}
    (h : Holds RING_BUFFER_NUM (slot table len) buffer_start x) (hstart : buffer_start < RING_BUFFER_NUM)
    (hend : buffer_end = (buffer_start + x.length) % RING_BUFFER_NUM) (hx : x ≠ []) (hlen : x.length < RING_BUFFER_NUM)
    (hfuel : x.length ≤ fuel) : dumpLoop table len buffer_end fuel buffer_start = (x, buffer_end) := by
  induction x generalizing buffer_start fuel with
  | nil => exact absurd rfl hx
  | cons a x ih =>
    obtain ⟨fuel, rfl⟩ : ∃ n, fuel = n + 1 := ⟨fuel - 1, by rw [List.length_cons] at hfuel; omega⟩
    have hhead : slot table len buffer_start = a := h.head hstart
    rw [List.length_cons] at hend hlen hfuel
    unfold dumpLoop
    rw [hhead]
    rcases List.eq_nil_or_concat x with rfl | ⟨_, _, hne⟩
    · have hlast : buffer_end = (buffer_start + 1) % RING_BUFFER_NUM := hend
      rw [if_pos hlast, ← hlast]
    · have hpos : 0 < x.length := by rw [hne, List.length_concat]; omega
      have hmore : ¬ buffer_end = (buffer_start + 1) % RING_BUFFER_NUM := by
        rw [hend]
        exact (slot_ne buffer_start (by omega) (by omega)).symm
      have hnext : buffer_end = ((buffer_start + 1) % RING_BUFFER_NUM + x.length) % RING_BUFFER_NUM := by
        rw [hend, Nat.mod_add_mod, Nat.add_assoc, Nat.add_comm 1]
      have hrec := ih h.tail (Nat.mod_lt _ (by decide)) hnext (List.ne_nil_of_length_pos hpos) (by omega)
        (Nat.le_of_succ_le_succ hfuel)
      rw [if_neg hmore, hrec]

/-- a dump writes the ring, and leaves it empty -/
theorem dump_eq (h : Inv s l) (hl : l ≠ []) :
    dump s = { s with
      buffer_start := s.buffer_end, hook_modem_flag := false, dumps := s.dumps ++ [l.map Chunk.bytes] } := by
  have hlen := h.length_lt
  have hloop : dumpLoop s.ring_buffer_table s.buffer_len s.buffer_end RING_BUFFER_NUM s.buffer_start =
      (l.map Chunk.bytes, s.buffer_end) := by
    refine dumpLoop_eq h.holds h.start_lt ?_ (fun hnil => hl (List.map_eq_nil_iff.mp hnil)) ?_ ?_
    · rw [List.length_map]
      exact h.end_eq
    · rwa [List.length_map]
    · rw [List.length_map]
      exact hlen.le
  rw [dump, hloop]

theorem Inv.empty (h : Inv s l) (flag : Bool) (dumps : List (List (List UInt8))) :
    Inv { s with buffer_start := s.buffer_end, hook_modem_flag := flag, dumps := dumps } [] where
  start_lt := by
    show s.buffer_end < RING_BUFFER_NUM
    rw [h.end_eq]
    exact Nat.mod_lt _ (by decide)
  end_eq := by
    show s.buffer_end = s.buffer_end % RING_BUFFER_NUM
    rw [h.end_eq, Nat.mod_mod]
  length_lt := by decide
  holds := holds_nil _ _ _

end Ring

/-! ## Runs -/

section Runs

variable {s : Handler} {since : List Chunk}

/-- the ring holds the newest chunks since the previous dump -/
def Kept (s : Handler) (since : List Chunk) : Prop := Inv s (newest (RING_BUFFER_NUM - 1) since)

theorem Kept.push (h : Kept s since) (c : Chunk) : Kept (push s c.bytes) (since ++ [c]) := by
  have hpush := Inv.push h c
  rwa [← newest_snoc (by decide)] at hpush

theorem newest_ne_nil {n : ℕ} (hn : 0 < n) (l : List Chunk) (c : Chunk) : newest n (l ++ [c]) ≠ [] := by
  have hlen := length_newest n (l ++ [c])
  rw [List.length_append, List.length_singleton] at hlen
  exact List.ne_nil_of_length_pos (by omega)

section Steps

variable (hrun : s.running = true)
include hrun

theorem step_hook : step s .hook = { s with hook_modem_flag := true } := by
  rw [step, if_neg (by rw [hrun]; decide)]

theorem step_nothing : step s .nothing = { s with ring_buffer_table := clear s.ring_buffer_table s.buffer_end } := by
  rw [step, if_neg (by rw [hrun]; decide)]

theorem step_chunk (hflag : s.hook_modem_flag = false) (c : Chunk) (opened : Bool) :
    step s (.chunk c opened) = push s c.bytes := by
  rw [step, if_neg (by rw [hrun]; decide)]
  exact if_pos hflag

/-- the file of the dump cannot be opened -/
theorem step_unopened (hflag : s.hook_modem_flag = true) (c : Chunk) :
    step s (.chunk c false) = { push s c.bytes with running := false } := by
  have hpush : ¬ (ModemRing.push s c.bytes).hook_modem_flag = false := by
    show ¬ s.hook_modem_flag = false
    rw [hflag]
    decide
  rw [step, if_neg (by rw [hrun]; decide)]
  exact (if_neg hpush).trans (if_pos rfl)

/-- a chunk with which a dump comes -/
theorem step_dump (h : Kept s since) (hflag : s.hook_modem_flag = true) (c : Chunk) :
    step s (.chunk c true) = { push s c.bytes with
      buffer_start := (push s c.bytes).buffer_end
      hook_modem_flag := false
      dumps := s.dumps ++ [(newest (RING_BUFFER_NUM - 1) (since ++ [c])).map Chunk.bytes] } := by
  have hpush : (ModemRing.push s c.bytes).hook_modem_flag = true := hflag
  have hdump := dump_eq (h.push c) (newest_ne_nil (by decide) since c)
  rw [step, if_neg (by rw [hrun]; decide)]
  dsimp only
  rw [if_neg (by rw [hpush]; decide), if_neg (by decide), hdump]
  rfl

end Steps

/-- once the file of a dump could not be opened nothing is written any more -/
theorem stopped_run (hrun : s.running = false) (ops : List Op) : ops.foldl step s = s := by
  induction ops with
  | nil => rfl
  | cons o ops ih =>
    have hstep : step s o = s := if_pos hrun
    rw [List.foldl_cons, hstep, ih]

/-- the dumps of a run -/
theorem dumps_run (h : Kept s since) (hrun : s.running = true) (ops : List Op) :
    (ops.foldl step s).dumps = s.dumps ++ dumpsOf since s.hook_modem_flag ops := by
  induction ops generalizing s since with
  | nil => exact (List.append_nil _).symm
  | cons o ops ih =>
    rw [List.foldl_cons]
    cases o with
    | hook =>
      rw [step_hook hrun, dumpsOf]
      exact @ih { s with hook_modem_flag := true } since ⟨h.start_lt, h.end_eq, h.length_lt, h.holds⟩ hrun
    | nothing =>
      rw [step_nothing hrun, dumpsOf]
      exact @ih { s with ring_buffer_table := clear s.ring_buffer_table s.buffer_end } since (Inv.nothing h) hrun
    | chunk c opened =>
      cases hflag : s.hook_modem_flag with
      | false =>
        rw [step_chunk hrun hflag, dumpsOf, if_pos rfl, ← hflag]
        exact ih (h.push c) hrun
      | true =>
        rw [dumpsOf, if_neg (by decide)]
        cases opened with
        | false =>
          rw [step_unopened hrun hflag, stopped_run rfl, if_pos rfl, List.append_nil]
          rfl
        | true =>
          have hnext := @ih _ [] (Inv.empty (h.push c) false
            (s.dumps ++ [(newest (RING_BUFFER_NUM - 1) (since ++ [c])).map Chunk.bytes])) hrun
          rw [step_dump hrun h hflag c, hnext, if_neg (by decide), List.append_assoc]
          rfl

/-- the ring of a running handler is never in disorder -/
theorem kept_step (h : s.running = true → ∃ since, Kept s since) (o : Op) :
    (step s o).running = true → ∃ since, Kept (step s o) since := by
  cases hrun : s.running with
  | false =>
    have hstep : step s o = s := if_pos hrun
    rwa [hstep]
  | true =>
    obtain ⟨since, h⟩ := h hrun
    intro hnext
    cases o with
    | hook =>
      rw [step_hook hrun]
      exact ⟨since, h.start_lt, h.end_eq, h.length_lt, h.holds⟩
    | nothing =>
      rw [step_nothing hrun]
      exact ⟨since, Inv.nothing h⟩
    | chunk c opened =>
      cases hflag : s.hook_modem_flag with
      | false =>
        rw [step_chunk hrun hflag]
        exact ⟨_, h.push c⟩
      | true =>
        cases opened with
        | false =>
          rw [step_unopened hrun hflag] at hnext
          cases hnext
        | true =>
          rw [step_dump hrun h hflag]
          exact ⟨[], Inv.empty (h.push c) false _⟩

/-- a step that dumps leaves the ring empty -/
theorem empty_of_dump (h : s.running = true → ∃ since, Kept s since) {o : Op} (hd : (step s o).dumps ≠ s.dumps) :
    (step s o).buffer_start = (step s o).buffer_end := by
  cases hrun : s.running with
  | false =>
    have hstep : step s o = s := if_pos hrun
    rw [hstep] at hd
    exact absurd rfl hd
  | true =>
    obtain ⟨since, h⟩ := h hrun
    cases o with
    | hook => exact absurd (congrArg Handler.dumps (step_hook hrun)) hd
    | nothing => exact absurd (congrArg Handler.dumps (step_nothing hrun)) hd
    | chunk c opened =>
      cases hflag : s.hook_modem_flag with
      | false => exact absurd (congrArg Handler.dumps (step_chunk hrun hflag c opened)) hd
      | true =>
        cases opened with
        | false => exact absurd (congrArg Handler.dumps (step_unopened hrun hflag c)) hd
        | true => rw [step_dump hrun h hflag]

/-- what is dumped has been read, in this order and once -/
theorem dumpsOf_sublist (since : List Chunk) (asked : Bool) (ops : List Op) :
    (dumpsOf since asked ops).flatten.Sublist ((since ++ chunksOf ops).map Chunk.bytes) := by
  induction ops generalizing since asked with
  | nil => exact List.nil_sublist _
  | cons o ops ih =>
    cases o with
    | hook => exact ih since true
    | nothing => exact ih since asked
    | chunk c opened =>
      have hread : chunksOf (.chunk c opened :: ops) = c :: chunksOf ops := rfl
      have hsplit : since ++ c :: chunksOf ops = (since ++ [c]) ++ chunksOf ops := by
        rw [List.append_assoc, List.singleton_append]
      rw [hread, hsplit, dumpsOf]
      split_ifs
      · exact ih (since ++ [c]) asked
      · exact List.nil_sublist _
      · rw [List.flatten_cons, List.map_append]
        exact ((newest_sublist _ _).map _).append (ih [] false)

theorem kept_start (len : ℕ → ℕ) (table : ℕ → UInt8) (flag : Bool) : Kept (start len table flag) [] :=
  ⟨by show 0 < RING_BUFFER_NUM; decide, rfl, by show 0 < RING_BUFFER_NUM; decide, holds_nil _ _ _⟩

/-- **The modem ring.** In every run each hook dump writes the newest chunks since the previous dump, at most 127 of them
and in order; every dump leaves the ring empty, and no chunk is dumped twice -/
theorem modem_ring (len : ℕ → ℕ) (table : ℕ → UInt8) (flag : Bool) (ops : List Op) :
    (ops.foldl step (start len table flag)).dumps = dumpsOf [] flag ops ∧
      (dumpsOf [] flag ops).flatten.Sublist ((chunksOf ops).map Chunk.bytes) ∧
      ∀ o, (step (ops.foldl step (start len table flag)) o).dumps = (ops.foldl step (start len table flag)).dumps ∨
        (step (ops.foldl step (start len table flag)) o).buffer_start =
          (step (ops.foldl step (start len table flag)) o).buffer_end := by
  have hkept : (ops.foldl step (start len table flag)).running = true →
      ∃ since, Kept (ops.foldl step (start len table flag)) since :=
    List.foldlRecOn (motive := fun s => s.running = true → ∃ since, Kept s since) ops step
      (fun _ => ⟨[], kept_start len table flag⟩) fun _ h o _ => kept_step h o
  refine ⟨?_, dumpsOf_sublist [] flag ops, fun o => or_iff_not_imp_left.mpr (empty_of_dump hkept)⟩
  exact (dumps_run (kept_start len table flag) rfl ops).trans (List.nil_append _)

end Runs

end SprdDevice.Slog.ModemRing
