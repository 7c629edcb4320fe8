/-
Time stamps on the kernel log (tools/slog/handler.c, mstrncpy, obtime, strinst and the kernel branch of
stream_log_handler): a chunk read from the kernel log is written into wbuf_kmsg with the time before its lines.

strinst writes the time, then one line after the other with its newline, and the time again when another newline
follows. What stands behind the last newline is not written, and no write looks at the room of wbuf_kmsg.
The size of a log entry, LOGGER_ENTRY_MAX_LEN, is a parameter. A text under construction is its cells and the place
behind the last byte written.
Result: `stamped_iff`.
-/
import Mathlib.Tactic
import Mathlib.Data.UInt
import SprdDevice.Lib.Buffer
import SprdDevice.Lib.Memory
import SprdDevice.Lib.Text

namespace SprdDevice.Slog.Stamp

open SprdDevice.Memory SprdDevice.Buffer
open SprdDevice.Text (Ended)

def newline : UInt8 := 10

/-! ## The time -/

structure Clock where
  tm_mon : Fin 12
  tm_mday : Fin 32
  tm_hour : Fin 24
  tm_min : Fin 60
  tm_sec : Fin 61
  tv_usec : Fin 1000000
deriving DecidableEq, Repr

def digit (n : ℕ) : UInt8 := UInt8.ofNat (48 + n % 10)

def twoDigits (n : ℕ) : List UInt8 := [digit (n / 10), digit n]

def threeDigits (n : ℕ) : List UInt8 := [digit (n / 100), digit (n / 10), digit n]

/-- "%m-%d %H:%M:%S" and ".%03d " -/
def obtime (c : Clock) : List UInt8 :=
  twoDigits (c.tm_mon + 1) ++ [45] ++ twoDigits c.tm_mday ++ [32] ++ twoDigits c.tm_hour ++ [58] ++
    twoDigits c.tm_min ++ [58] ++ twoDigits c.tm_sec ++ [46] ++ threeDigits (c.tv_usec / 1000) ++ [32]

theorem digit_ne (n : ℕ) : digit n ≠ newline ∧ digit n ≠ 0 := by
  have hall : ∀ d < 10, UInt8.ofNat (48 + d) ≠ newline ∧ UInt8.ofNat (48 + d) ≠ 0 := by decide
  exact hall (n % 10) (Nat.mod_lt _ (by decide))

@[simp] theorem length_obtime (c : Clock) : (obtime c).length = 19 := rfl

theorem obtime_clean (c : Clock) : newline ∉ obtime c ∧ 0 ∉ obtime c := by
  have hline : newline ≠ 45 ∧ newline ≠ 32 ∧ newline ≠ 58 ∧ newline ≠ 46 := by decide
  have hzero : (0 : UInt8) ≠ 45 ∧ (0 : UInt8) ≠ 32 ∧ (0 : UInt8) ≠ 58 ∧ (0 : UInt8) ≠ 46 := by decide
  have hdigit := fun n => And.intro (digit_ne n).1.symm (digit_ne n).2.symm
  simp [obtime, twoDigits, threeDigits, hline, hzero, hdigit]

/-! ## The copy -/

structure Out where
  mem : ℕ → UInt8
  p : ℕ

/-- l behind what was written -/
def Out.put (o : Out) (l : List UInt8) : Out := ⟨store o.mem o.p l, o.p + l.length⟩

theorem Out.put_append (o : Out) (a b : List UInt8) : (o.put a).put b = o.put (a ++ b) := by
  simp only [put, store_append, List.length_append, Nat.add_assoc]

/-- strncpy fills up with zeros -/
def mstrncpy (dest : Out) (src : List UInt8) (pos : ℕ) : Out :=
  dest.put ((cstr src).take pos ++ List.replicate (pos - (cstr src).length) 0)

def strchr (s : List UInt8) (c : UInt8) : Option ℕ := (cstr s).findIdx? (· == c)

theorem mstrncpy_inside (dest : Out) {src : List UInt8} {pos : ℕ} (h : pos ≤ (cstr src).length) :
    mstrncpy dest src pos = dest.put ((cstr src).take pos) := by
  rw [mstrncpy, Nat.sub_eq_zero_of_le h, List.replicate_zero, List.append_nil]

theorem mstrncpy_string (dest : Out) {time : List UInt8} (ht : 0 ∉ time) :
    mstrncpy dest time time.length = dest.put time := by
  rw [mstrncpy_inside dest (by rw [cstr_of_not_mem ht]), cstr_of_not_mem ht, List.take_length]

theorem strchr_none {s : List UInt8} {c : UInt8} (h : c ∉ cstr s) : strchr s c = none := by
  rw [strchr, List.findIdx?_eq_none_iff]
  intro x hx
  simp only [beq_eq_false_iff_ne, ne_eq]
  rintro rfl
  exact h hx

theorem strchr_lt {s : List UInt8} {c : UInt8} {i : ℕ} (h : strchr s c = some i) : i < s.length := by
  have hlt := (List.findIdx?_eq_some_iff_findIdx_eq.1 h).1
  exact lt_of_lt_of_le hlt (cstr_initial s).length_le

theorem strchr_first {a s : List UInt8} {c : UInt8} (ha : c ∉ a) (hs : cstr s = a ++ c :: cstr (s.drop (a.length + 1))) :
    strchr s c = some a.length := by
  have hnone : a.findIdx? (· == c) = none := by
    rw [List.findIdx?_eq_none_iff]
    intro x hx
    simp only [beq_eq_false_iff_ne, ne_eq]
    rintro rfl
    exact ha hx
  rw [strchr, hs, List.findIdx?_append, hnone, List.findIdx?_cons, beq_self_eq_true]
  simp

/-- the loop over the newlines: pos2 is what of src is left -/
def strinstLoop (time pos2 : List UInt8) (p : Out) : Out :=
  match h : strchr pos2 newline with
  | none => p
  | some pos1 =>
    let p := mstrncpy p pos2 (pos1 + 1)
    if strchr (pos2.drop (pos1 + 1)) newline = none then p
    else strinstLoop time (pos2.drop (pos1 + 1)) (mstrncpy p time time.length)
termination_by pos2.length
decreasing_by
  have hlt := strchr_lt h
  rw [List.length_drop]
  omega

def strinst (dest : Out) (src : List UInt8) (now : Clock) : Out :=
  let time := obtime now
  strinstLoop time src (mstrncpy dest time time.length)

/-! ## The lines of a chunk -/

/-- lines with their newlines -/
def joined (ls : List (List UInt8)) : List UInt8 := ls.flatMap (· ++ [newline])

@[simp] theorem joined_cons (l : List UInt8) (ls : List (List UInt8)) : joined (l :: ls) = l ++ newline :: joined ls := by
  simp [joined]

/-- a text is its lines and what stands behind the last newline -/
theorem exists_lines (t : List UInt8) :
    ∃ ls r, t = joined ls ++ r ∧ (∀ l ∈ ls, newline ∉ l) ∧ newline ∉ r := by
  induction t with
  | nil => exact ⟨[], [], rfl, by simp, by simp⟩
  | cons b t ih =>
    obtain ⟨ls, r, rfl, hls, hr⟩ := ih
    by_cases hb : b = newline
    · exact ⟨[] :: ls, r, by simp [hb], by simpa using hls, hr⟩
    · cases ls with
      | nil => exact ⟨[], b :: r, rfl, by simp, by simp [hr, Ne.symm hb]⟩
      | cons l ls =>
        refine ⟨(b :: l) :: ls, r, by simp, ?_, hr⟩
        have hl := hls l (List.mem_cons_self ..)
        intro k hk
        rcases List.mem_cons.1 hk with rfl | hk
        · simp [hl, Ne.symm hb]
        · exact hls k (List.mem_cons_of_mem _ hk)

theorem count_joined {ls : List (List UInt8)} (hls : ∀ l ∈ ls, newline ∉ l) : (joined ls).count newline = ls.length := by
  induction ls with
  | nil => rfl
  | cons l ls ih =>
    have hl : l.count newline = 0 := List.count_eq_zero_of_not_mem (hls l (List.mem_cons_self ..))
    have htail := ih fun k hk => hls k (List.mem_cons_of_mem l hk)
    rw [joined_cons, List.count_append, List.count_cons_self, hl, htail, List.length_cons, Nat.zero_add]

/-- what the loop writes behind the first time -/
def behind (time : List UInt8) : List (List UInt8) → List UInt8
  | [] => []
  | [l] => l ++ [newline]
  | l :: l' :: ls => l ++ newline :: (time ++ behind time (l' :: ls))

theorem length_behind (time : List UInt8) (ls : List (List UInt8)) :
    (time ++ behind time ls).length = (joined ls).length + time.length * max 1 ls.length := by
  induction ls with
  | nil => simp [behind, joined]
  | cons l ls ih =>
    cases ls with
    | nil =>
      simp [behind, joined]
      omega
    | cons l' ls =>
      have hmax : max 1 (l :: l' :: ls).length = max 1 (l' :: ls).length + 1 := by
        simp only [List.length_cons]
        omega
      rw [behind, joined_cons, hmax, Nat.mul_add]
      simp only [List.length_append, List.length_cons] at ih ⊢
      omega

theorem zero_not_mem_behind {time : List UInt8} (ht : 0 ∉ time) {ls : List (List UInt8)} (h : 0 ∉ joined ls) :
    0 ∉ behind time ls := by
  have hnl : (0 : UInt8) ≠ newline := by decide
  induction ls with
  | nil => exact List.not_mem_nil
  | cons l ls ih =>
    rw [joined_cons, List.mem_append, List.mem_cons, not_or, not_or] at h
    have htail := ih h.2.2
    cases ls with
    | nil => simp [behind, h.1, hnl]
    | cons l' ls => simp [behind, h.1, hnl, ht, htail]

/-- one line: what the pass writes, and whether another one follows -/
theorem loop_line (time l : List UInt8) {rest : List UInt8} (o : Out) (hl : newline ∉ l) (h0 : 0 ∉ l)
    (ht : 0 ∉ time) : strinstLoop time (l ++ newline :: rest) o =
      if strchr rest newline = none then o.put (l ++ [newline])
      else strinstLoop time rest (o.put (l ++ newline :: time)) := by
  have hnl : newline ≠ 0 := by decide
  have hsrc : cstr (l ++ newline :: rest) = l ++ newline :: cstr rest := by
    have hall : ∀ b ∈ l ++ [newline], decide (b ≠ 0) = true := fun b hb => by
      have hne : b ≠ 0 := by
        rintro rfl
        simp [h0, hnl.symm] at hb
      simpa using hne
    have happ : cstr (l ++ [newline] ++ rest) = l ++ [newline] ++ cstr rest := List.takeWhile_append_of_pos hall
    simpa using happ
  have hdrop : (l ++ newline :: rest).drop (l.length + 1) = rest := by simp
  have hfirst : strchr (l ++ newline :: rest) newline = some l.length := strchr_first hl (by rw [hdrop, hsrc])
  have hcopy : mstrncpy o (l ++ newline :: rest) (l.length + 1) = o.put (l ++ [newline]) := by
    have hlen : l.length + 1 ≤ (cstr (l ++ newline :: rest)).length := by
      rw [hsrc]
      simp
    have htake : (l ++ newline :: cstr rest).take (l.length + 1) = l ++ [newline] := by
      simp [List.take_append]
    rw [mstrncpy_inside o hlen, hsrc, htake]
  rw [strinstLoop]
  split
  · rename_i hnone
    rw [hfirst] at hnone
    cases hnone
  · rename_i pos1 hsome
    rw [hfirst, Option.some.injEq] at hsome
    subst hsome
    dsimp only
    rw [hdrop, hcopy, mstrncpy_string _ ht, Out.put_append, List.append_assoc, List.singleton_append]

theorem Out.put_nil (o : Out) : o.put [] = o := by simp [put]

theorem cstr_closed {t : List UInt8} (h : 0 ∉ t) (z : List UInt8) : cstr (t ++ 0 :: z) = t := cstr_append h z

/-- the whole loop, on a string that is its lines and an open end -/
theorem loop_writes {time : List UInt8} (ht : 0 ∉ time) {ls : List (List UInt8)} {r : List UInt8}
    (hls : ∀ l ∈ ls, newline ∉ l) (hr : newline ∉ r) (h0 : 0 ∉ joined ls ++ r) (z : List UInt8) (o : Out) :
    strinstLoop time (joined ls ++ r ++ 0 :: z) o = o.put (behind time ls) := by
  induction ls generalizing o with
  | nil =>
    have hnone : strchr (joined [] ++ r ++ 0 :: z) newline = none := strchr_none (by rwa [cstr_closed h0])
    rw [strinstLoop]
    split
    · rw [behind, Out.put_nil]
    · rename_i hsome
      rw [hnone] at hsome
      cases hsome
  | cons l ls ih =>
    rw [joined_cons, List.append_assoc, List.mem_append, not_or, List.cons_append, List.mem_cons, not_or] at h0
    obtain ⟨hl0, -, hrest0⟩ := h0
    have hl := hls l (List.mem_cons_self ..)
    have hsplit : joined (l :: ls) ++ r ++ 0 :: z = l ++ newline :: (joined ls ++ r ++ 0 :: z) := by simp
    rw [hsplit, loop_line time l o hl hl0 ht]
    cases ls with
    | nil =>
      have hnone : strchr (joined [] ++ r ++ 0 :: z) newline = none := strchr_none (by rwa [cstr_closed hrest0])
      rw [if_pos hnone, behind]
    | cons l' ls =>
      have hsome : strchr (joined (l' :: ls) ++ r ++ 0 :: z) newline ≠ none := by
        rw [strchr, cstr_closed hrest0, Ne, List.findIdx?_eq_none_iff]
        intro hall
        have hnl := hall newline (by simp)
        rw [beq_self_eq_true] at hnl
        cases hnl
      rw [if_neg hsome, ih (fun k hk => hls k (List.mem_cons_of_mem l hk)) hrest0, Out.put_append, behind,
        List.append_assoc, List.cons_append]

/-! ## The text without its times -/

def dropStamp (time l : List UInt8) : List UInt8 := if time <+: l then l.drop time.length else l

/-- a text with the time removed from the start of each line -/
def unstamp (time text : List UInt8) : List UInt8 :=
  [newline].intercalate ((text.splitOn newline).map (dropStamp time))

theorem dropStamp_append (time l : List UInt8) : dropStamp time (time ++ l) = l := by
  rw [dropStamp, if_pos (List.prefix_append time l), List.drop_left]

theorem unstamp_open {time l : List UInt8} (ht : newline ∉ time) (hl : newline ∉ l) : unstamp time (time ++ l) = l := by
  have hnot : newline ∉ time ++ l := List.not_mem_append ht hl
  rw [unstamp, List.splitOn_eq_singleton hnot, List.map_singleton, List.intercalate_singleton, dropStamp_append]

theorem unstamp_nil {time : List UInt8} (hne : time ≠ []) : unstamp time [] = [] := by
  rw [unstamp, List.splitOn_nil, List.map_singleton, List.intercalate_singleton, dropStamp, if_neg]
  rwa [List.prefix_nil]

theorem unstamp_line {time l : List UInt8} (ht : newline ∉ time) (hl : newline ∉ l) (t : List UInt8) :
    unstamp time (time ++ (l ++ newline :: t)) = l ++ newline :: unstamp time t := by
  have hnot : newline ∉ time ++ l := List.not_mem_append ht hl
  have hne : (t.splitOn newline).map (dropStamp time) ≠ [] := by
    rw [Ne, List.map_eq_nil_iff]
    exact List.splitOn_ne_nil newline t
  rw [unstamp, ← List.append_assoc, List.splitOn_append_cons_self_of_not_mem hnot, List.map_cons, dropStamp_append,
    List.intercalate_cons_of_ne_nil hne, unstamp]
  simp

theorem unstamp_behind {time : List UInt8} (ht : newline ∉ time) (hne : time ≠ []) {ls : List (List UInt8)}
    (hls : ∀ l ∈ ls, newline ∉ l) : unstamp time (time ++ behind time ls) = joined ls := by
  induction ls with
  | nil => exact unstamp_open ht List.not_mem_nil
  | cons l ls ih =>
    have hl := hls l (List.mem_cons_self ..)
    have htail := ih fun k hk => hls k (List.mem_cons_of_mem l hk)
    cases ls with
    | nil =>
      rw [behind, unstamp_line ht hl, unstamp_nil hne, joined_cons]
      rfl
    | cons l' ls => rw [behind, unstamp_line ht hl, htail, joined_cons l]

/-! ## A chunk -/

/-- the branch of the kernel log behind a read: both buffers zeroed, chunk in buf_kmsg -/
def kernelBranch (loggerEntryMaxLen : ℕ) (now : Clock) (wbuf_kmsg : ℕ → UInt8) (chunk : List UInt8) : Out :=
  let buf_kmsg := chunk ++ List.replicate (loggerEntryMaxLen - chunk.length) 0
  strinst ⟨store wbuf_kmsg 0 (List.replicate (loggerEntryMaxLen * 2) 0), 0⟩ buf_kmsg now

/-- the string in wbuf_kmsg -/
def text (loggerEntryMaxLen : ℕ) (o : Out) : List UInt8 := cstr (cells o.mem 0 (loggerEntryMaxLen * 2))

structure Lossless (loggerEntryMaxLen : ℕ) (now : Clock) (wbuf_kmsg : ℕ → UInt8) (chunk : List UInt8) : Prop where
  kept : unstamp (obtime now) (text loggerEntryMaxLen (kernelBranch loggerEntryMaxLen now wbuf_kmsg chunk)) = chunk
  inside : (kernelBranch loggerEntryMaxLen now wbuf_kmsg chunk).p ≤ 2 * loggerEntryMaxLen

theorem kernelBranch_eq {loggerEntryMaxLen : ℕ} (now : Clock) (wbuf_kmsg : ℕ → UInt8) {ls : List (List UInt8)}
    {r : List UInt8} (hls : ∀ l ∈ ls, newline ∉ l) (hr : newline ∉ r) (h0 : 0 ∉ joined ls ++ r)
    (hlen : (joined ls ++ r).length < loggerEntryMaxLen) :
    kernelBranch loggerEntryMaxLen now wbuf_kmsg (joined ls ++ r) =
      Out.put ⟨store wbuf_kmsg 0 (List.replicate (loggerEntryMaxLen * 2) 0), 0⟩
        (obtime now ++ behind (obtime now) ls) := by
  obtain ⟨n, hn⟩ : ∃ n, loggerEntryMaxLen - (joined ls ++ r).length = n + 1 := ⟨_, (Nat.succ_pred_eq_of_pos (by omega)).symm⟩
  have ht := (obtime_clean now).2
  unfold kernelBranch strinst
  dsimp only
  rw [hn, List.replicate_succ, loop_writes ht hls hr h0, mstrncpy_string _ ht, Out.put_append]

/-- what was written in a zeroed buffer, when it fits -/
theorem text_put {loggerEntryMaxLen : ℕ} {o : Out} (hp : o.p = 0)
    (hzero : ∀ i < loggerEntryMaxLen * 2, o.mem i = 0) {l : List UInt8} (h0 : 0 ∉ l)
    (hfit : l.length ≤ loggerEntryMaxLen * 2) : text loggerEntryMaxLen (o.put l) = l := by
  have hrest : cells o.mem l.length (loggerEntryMaxLen * 2 - l.length) =
      List.replicate (loggerEntryMaxLen * 2 - l.length) 0 := by
    rw [← cells_const 0 l.length]
    exact cells_congr fun i hi => hzero _ (by omega)
  have hcells : cells (o.put l).mem 0 (loggerEntryMaxLen * 2) =
      l ++ List.replicate (loggerEntryMaxLen * 2 - l.length) 0 := by
    rw [Out.put, hp, cells_store_start _ hfit, hrest]
  rw [text, hcells, cstr_append_zeros, cstr_of_not_mem h0]

/-- a chunk is over, and it fits with one time before each line (and one when there is none) -/
def Fits (loggerEntryMaxLen : ℕ) (chunk : List UInt8) : Prop :=
  Ended (· == newline) chunk ∧ chunk.length + 19 * max 1 (chunk.count newline) ≤ 2 * loggerEntryMaxLen

theorem ended_joined (ls : List (List UInt8)) : Ended (· == newline) (joined ls) := by
  induction ls with
  | nil => exact Or.inl rfl
  | cons l ls ih =>
    have hline : Ended (· == newline) (l ++ [newline]) := Or.inr ⟨l, newline, rfl, beq_self_eq_true newline⟩
    have happ := Text.ended_append hline ih
    rwa [List.append_assoc, List.singleton_append, ← joined_cons] at happ

theorem ended_iff {ls : List (List UInt8)} {r : List UInt8} (hr : newline ∉ r) :
    Ended (· == newline) (joined ls ++ r) ↔ r = [] := by
  constructor
  · intro hended
    rcases List.eq_nil_or_concat' r with rfl | ⟨u, x, rfl⟩
    · rfl
    · rcases hended with hnil | ⟨v, y, heq, hy⟩
      · simp at hnil
      · rw [← List.append_assoc] at heq
        have hlast := List.append_inj' heq rfl
        rw [List.singleton_inj] at hlast
        rw [← hlast.2, beq_iff_eq] at hy
        simp [hy] at hr
  · rintro rfl
    rw [List.append_nil]
    exact ended_joined ls

/-! ## What is lost -/

section Branch

variable {loggerEntryMaxLen : ℕ} (now : Clock) (wbuf_kmsg : ℕ → UInt8) {ls : List (List UInt8)} {r : List UInt8}

theorem branch_end (hls : ∀ l ∈ ls, newline ∉ l) (hr : newline ∉ r) (h0 : 0 ∉ joined ls ++ r)
    (hlen : (joined ls ++ r).length < loggerEntryMaxLen) :
    (kernelBranch loggerEntryMaxLen now wbuf_kmsg (joined ls ++ r)).p = (joined ls).length + 19 * max 1 ls.length := by
  have hlength := length_behind (obtime now) ls
  rw [length_obtime] at hlength
  rw [kernelBranch_eq now wbuf_kmsg hls hr h0 hlen, ← hlength]
  exact Nat.zero_add _

/-- what is kept is everything up to the last newline -/
theorem branch_text (hls : ∀ l ∈ ls, newline ∉ l) (hr : newline ∉ r) (h0 : 0 ∉ joined ls ++ r)
    (hlen : (joined ls ++ r).length < loggerEntryMaxLen)
    (hfit : (joined ls).length + 19 * max 1 ls.length ≤ 2 * loggerEntryMaxLen) :
    unstamp (obtime now) (text loggerEntryMaxLen (kernelBranch loggerEntryMaxLen now wbuf_kmsg (joined ls ++ r))) =
      joined ls := by
  obtain ⟨ht, ht0⟩ := obtime_clean now
  have hne : obtime now ≠ [] := List.ne_nil_of_length_pos (by rw [length_obtime]; decide)
  have hnot : 0 ∉ obtime now ++ behind (obtime now) ls := by
    rw [List.mem_append, not_or] at h0 ⊢
    exact ⟨ht0, zero_not_mem_behind ht0 h0.1⟩
  have hzero : ∀ i < loggerEntryMaxLen * 2, store wbuf_kmsg 0 (List.replicate (loggerEntryMaxLen * 2) 0) i = 0 := by
    intro i hi
    simp [store_zero_get, hi]
  have hroom : (obtime now ++ behind (obtime now) ls).length ≤ loggerEntryMaxLen * 2 := by
    rw [length_behind, length_obtime]
    omega
  rw [kernelBranch_eq now wbuf_kmsg hls hr h0 hlen, text_put rfl hzero hnot hroom, unstamp_behind ht hne hls]

theorem Lossless.no_open_end (hls : ∀ l ∈ ls, newline ∉ l) (hr : newline ∉ r) (h0 : 0 ∉ joined ls ++ r)
    (hlen : (joined ls ++ r).length < loggerEntryMaxLen)
    (h : Lossless loggerEntryMaxLen now wbuf_kmsg (joined ls ++ r)) : r = [] := by
  have hinside := h.inside
  rw [branch_end now wbuf_kmsg hls hr h0 hlen] at hinside
  have hkept := h.kept
  rw [branch_text now wbuf_kmsg hls hr h0 hlen hinside] at hkept
  exact List.self_eq_append_right.1 hkept

end Branch

/-- **The stamped log.** The text without its times is the chunk, and lies in the buffer, exactly when the chunk ends with
a newline and leaves room for a time per line -/
theorem stamped_iff (loggerEntryMaxLen : ℕ) (now : Clock) (wbuf_kmsg : ℕ → UInt8) (chunk : List UInt8) (h0 : 0 ∉ chunk)
    (hlen : chunk.length < loggerEntryMaxLen) :
    Lossless loggerEntryMaxLen now wbuf_kmsg chunk ↔ Fits loggerEntryMaxLen chunk := by
  obtain ⟨ls, r, rfl, hls, hr⟩ := exists_lines chunk
  have hend := branch_end now wbuf_kmsg hls hr h0 hlen
  constructor
  · intro h
    obtain rfl := h.no_open_end now wbuf_kmsg hls hr h0 hlen
    refine ⟨(ended_iff hr).2 rfl, ?_⟩
    calc (joined ls ++ []).length + 19 * max 1 ((joined ls ++ []).count newline)
        = (joined ls).length + 19 * max 1 ls.length := by rw [List.append_nil, count_joined hls]
      _ ≤ 2 * loggerEntryMaxLen := hend.symm.trans_le h.inside
  · rintro ⟨hended, hfits⟩
    obtain rfl := (ended_iff hr).1 hended
    have hfit : (joined ls).length + 19 * max 1 ls.length ≤ 2 * loggerEntryMaxLen := by
      rwa [List.append_nil, count_joined hls] at hfits
    refine ⟨?_, hend.trans_le hfit⟩
    rw [branch_text now wbuf_kmsg hls hr h0 hlen hfit, List.append_nil]

local instance neZero_hour : NeZero 24 := ⟨by decide⟩

local instance neZero_minute : NeZero 60 := ⟨by decide⟩

def midnight : Clock := ⟨0, 1, 0, 0, 0, 0⟩

theorem stamped_iff_line : Lossless 4096 midnight (fun _ => 0) [104, 105, newline] ↔ Fits 4096 [104, 105, newline] :=
  stamped_iff 4096 midnight (fun _ => 0) [104, 105, newline] (by decide) (by decide)

/-- the last line of a chunk that ends within it is lost -/
theorem stamped_open_line : ¬ ∀ (loggerEntryMaxLen : ℕ) (now : Clock) (wbuf_kmsg : ℕ → UInt8) (chunk : List UInt8),
    0 ∉ chunk → chunk.length < loggerEntryMaxLen → Lossless loggerEntryMaxLen now wbuf_kmsg chunk := by
  intro h
  have hloss : Lossless 4096 midnight (fun _ => 0) (joined [] ++ [104]) := h _ _ _ [104] (by decide) (by decide)
  have hnil : ([104] : List UInt8) = [] :=
    hloss.no_open_end midnight (fun _ => 0) (by simp) (by decide) (by decide) (by decide)
  cases hnil

end SprdDevice.Slog.Stamp
