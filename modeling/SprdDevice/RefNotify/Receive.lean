/-
The receive loop of refnotify (apps/refnotify/refnotify.c, main): commands from the modem, a header of type and length
and the content behind it, read piece by piece into buf.

- A step is one `read`. Where it comes back with fewer bytes the loop asks again: for a whole header, wherever it stands
  in one; for what the length field leaves of the content.
- `RefNotify_DoCmd` is called with buf, which is put out; then the next pass begins with buf zeroed.
- buf is a memory without end, of which the command function sees the first 128 cells.

Result: `receive_iff`. The calls are the commands exactly when no read takes the end of one and the beginning of the
next.
-/
import Mathlib.Tactic
import SprdDevice.Lib.Memory
import SprdDevice.Lib.Run
import SprdDevice.Lib.Trace

namespace SprdDevice.RefNotify.Receive

open SprdDevice.Memory SprdDevice.Run SprdDevice.Trace

/-! ## Groups -/

section Groups

/-- the counts fall into groups with the sums lens -/
def Groups (lens counts : List ℕ) : Prop := ∃ groups : List (List ℕ), counts = groups.flatten ∧ groups.map List.sum = lens

theorem groups_nil (counts : List ℕ) : Groups [] counts ↔ counts = [] := by
  constructor
  · rintro ⟨groups, rfl, hsum⟩
    rw [List.map_eq_nil_iff.1 hsum, List.flatten_nil]
  · rintro rfl
    exact ⟨[], rfl, rfl⟩

theorem groups_cons (len : ℕ) (lens counts : List ℕ) :
    Groups (len :: lens) counts ↔ ∃ a b, counts = a ++ b ∧ a.sum = len ∧ Groups lens b := by
  constructor
  · rintro ⟨groups, rfl, hsum⟩
    obtain ⟨a, groups, rfl, ha, hrest⟩ := List.map_eq_cons_iff.1 hsum
    exact ⟨a, groups.flatten, List.flatten_cons, ha, groups, rfl, hrest⟩
  · rintro ⟨a, b, rfl, ha, groups, rfl, hrest⟩
    exact ⟨a :: groups, List.flatten_cons.symm, by rw [List.map_cons, ha, hrest]⟩

/-- positive counts that add nothing -/
theorem eq_nil_of_sum {a d : List ℕ} (hpos : ∀ n ∈ d, 1 ≤ n) (hsum : (a ++ d).sum = a.sum) : d = [] := by
  rw [List.sum_append] at hsum
  cases d with
  | nil => rfl
  | cons n d =>
    have hn := hpos n (List.mem_cons_self ..)
    rw [List.sum_cons] at hsum
    omega

/-- a first group that is there is the first one -/
theorem groups_append {lens a b : List ℕ} (hpos : ∀ n ∈ a ++ b, 1 ≤ n) :
    Groups (a.sum :: lens) (a ++ b) ↔ Groups lens b := by
  rw [groups_cons]
  constructor
  · rintro ⟨a', b', heq, hsum, hrest⟩
    rcases List.append_eq_append_iff.1 heq with ⟨d, rfl, rfl⟩ | ⟨d, rfl, rfl⟩
    · have hd : d = [] := eq_nil_of_sum (fun n hn => hpos n (by simp [hn])) hsum
      rwa [hd, List.nil_append]
    · have hd : d = [] := eq_nil_of_sum (fun n hn => hpos n (by simp [hn])) hsum.symm
      rwa [hd, List.nil_append] at hrest
  · intro hrest
    exact ⟨a, b, rfl, rfl, hrest⟩

/-- a count that goes over the first sum -/
theorem not_groups {len : ℕ} {lens a b : List ℕ} {n : ℕ} (hlt : a.sum < len) (hover : len < a.sum + n) :
    ¬ Groups (len :: lens) (a ++ n :: b) := by
  rw [groups_cons]
  rintro ⟨a', b', heq, hsum, -⟩
  rcases List.append_eq_append_iff.1 heq with ⟨d, rfl, hd⟩ | ⟨d, rfl, -⟩
  · rw [List.sum_append] at hsum
    cases d with
    | nil => simp at hsum; omega
    | cons m d =>
      rw [List.cons_append, List.cons.injEq] at hd
      rw [List.sum_cons, ← hd.1] at hsum
      omega
  · rw [List.sum_append] at hlt
    omega

end Groups

/-! ## Model -/

/-- sizeof(struct refnotify_cmd) -/
def headerSize : ℕ := 8

def bufSize : ℕ := 128

/-- `pcmd->length` -/
def cmdLength (buf : ℕ → UInt8) : ℕ :=
  (buf 4).toNat + 2 ^ 8 * (buf 5).toNat + 2 ^ 16 * (buf 6).toNat + 2 ^ 24 * (buf 7).toNat

inductive Phase where
  | readheader
  | readcontent
  | exited
deriving DecidableEq, Repr

inductive Result where
  | interrupted
  | failed
  | bytes (num : ℕ)
deriving DecidableEq, Repr

structure Receiver where
  buf : ℕ → UInt8
  numRead : ℕ
  phase : Phase
  /-- what the modem has sent and no read has taken -/
  rest : List UInt8

/-- the beginning of a pass -/
def start (rest : List UInt8) : Receiver := ⟨fun _ => 0, 0, .readheader, rest⟩

/-- what read is asked for -/
def Receiver.requested (s : Receiver) : ℕ :=
  match s.phase with
  | .readheader => headerSize
  | .readcontent => cmdLength s.buf - s.numRead
  | .exited => 0

def Receiver.read (s : Receiver) (num : ℕ) : Receiver :=
  { s with buf := store s.buf s.numRead (s.rest.take num), numRead := s.numRead + num, rest := s.rest.drop num }

/-- the test behind the header and the content -/
def Receiver.complete (s : Receiver) : Receiver × List (List UInt8) :=
  if s.numRead < cmdLength s.buf then ({ s with phase := .readcontent }, [])
  else (start s.rest, [cells s.buf 0 bufSize])

def step (s : Receiver) : Result → Receiver × List (List UInt8)
  | .interrupted => (s, [])
  | .failed => ({ s with phase := .exited }, [])
  | .bytes num =>
    match s.phase with
    | .readheader => if (s.read num).numRead < headerSize then (s.read num, []) else (s.read num).complete
    | .readcontent => (s.read num).complete
    | .exited => (s, [])

/-- read gives at least one byte, as many as asked for at most, and none that was not sent -/
def Legal (s : Receiver) : Result → Prop
  | .interrupted => True
  | .failed => False
  | .bytes num => 1 ≤ num ∧ num ≤ s.requested ∧ num ≤ s.rest.length

instance (s : Receiver) : DecidablePred (Legal s)
  | .interrupted => inferInstanceAs (Decidable True)
  | .failed => inferInstanceAs (Decidable False)
  | .bytes _ => inferInstanceAs (Decidable (_ ∧ _))

/-- the buffers that RefNotify_DoCmd is called with -/
def doCmdCalls (sent : List UInt8) (reads : List Result) : List (List UInt8) := (trace step (start sent) reads).2

def counts (reads : List Result) : List ℕ :=
  reads.filterMap fun r =>
    match r with
    | .bytes num => some num
    | _ => none

/-! ## Commands -/

/-- bytes at the start of a zeroed buffer -/
def load (l : List UInt8) : ℕ → UInt8 := store (fun _ => 0) 0 l

structure Cmd where
  bytes : List UInt8
  header : headerSize ≤ bytes.length
  fits : bytes.length ≤ bufSize
  length : cmdLength (load bytes) = bytes.length

/-- the bytes of the command, and zeros -/
def Cmd.buffer (c : Cmd) : List UInt8 := c.bytes ++ List.replicate (bufSize - c.bytes.length) 0

def stream (cmds : List Cmd) : List UInt8 := cmds.flatMap Cmd.bytes

/-- every command ends where a read ends -/
def Separate (cmds : List Cmd) (reads : List Result) : Prop :=
  Groups (cmds.map fun c => c.bytes.length) (counts reads)

/-! ## Loaded buffers -/

theorem load_apply (l : List UInt8) (i : ℕ) : load l i = (l[i]?).getD 0 := by simp [load, store]

theorem load_same {l m : List UInt8} (h : l <+: m) {n : ℕ} (hn : n ≤ l.length) : Same n (load l) (load m) := by
  obtain ⟨t, rfl⟩ := h
  intro i hi
  rw [load_apply, load_apply, List.getElem?_append_left (by omega)]

theorem load_drop (l : List UInt8) (j i : ℕ) : load (l.drop j) i = load l (j + i) := by
  rw [load_apply, load_apply, List.getElem?_drop]

theorem cmdLength_congr {a b : ℕ → UInt8} (h : Same headerSize a b) : cmdLength a = cmdLength b := by
  unfold cmdLength
  rw [h 4 (by decide), h 5 (by decide), h 6 (by decide), h 7 (by decide)]

namespace Cmd

variable (c : Cmd)

theorem buffer_eq : c.buffer = cells (load c.bytes) 0 bufSize := by
  rw [load, cells_store_start _ c.fits, cells_const, buffer]

/-- the length field of anything that begins with the command -/
theorem cmdLength_load {l : List UInt8} (h : c.bytes <+: l) {q : ℕ} (hq : headerSize ≤ q) (hql : q ≤ l.length) :
    cmdLength (load (l.take q)) = c.bytes.length := by
  have hlen : (l.take q).length = q := by rw [List.length_take, Nat.min_eq_left hql]
  have htake : Same headerSize (load (l.take q)) (load l) := load_same (List.take_prefix q l) (by rw [hlen]; exact hq)
  rw [cmdLength_congr (htake.trans (load_same h c.header).symm), c.length]

end Cmd

/-! ## One read -/

/-- the bytes since the last pass began are the first p of whole -/
def mid (whole : List UInt8) (p : ℕ) : Receiver :=
  ⟨load (whole.take p), p, if p < headerSize then .readheader else .readcontent, whole.drop p⟩

theorem start_eq (whole : List UInt8) : start whole = mid whole 0 := by
  unfold start mid load
  rw [List.take_zero, List.drop_zero, store_nil, if_pos (by decide)]

theorem read_mid {whole : List UInt8} {p num : ℕ} (h : p + num ≤ whole.length) :
    (mid whole p).read num =
      ⟨load (whole.take (p + num)), p + num, (mid whole p).phase, whole.drop (p + num)⟩ := by
  have hlen : (whole.take p).length = p := by rw [List.length_take, Nat.min_eq_left (by omega)]
  have hbuf : store (load (whole.take p)) p ((whole.drop p).take num) = load (whole.take (p + num)) := by
    have happ := store_append (fun _ => (0 : UInt8)) 0 (whole.take p) ((whole.drop p).take num)
    rw [hlen, Nat.zero_add, ← List.take_add] at happ
    exact happ.symm
  unfold Receiver.read mid
  dsimp only
  rw [hbuf, List.drop_drop]

theorem step_mid {whole : List UInt8} {p num : ℕ} (h : p + num ≤ whole.length) :
    step (mid whole p) (.bytes num) =
      if p + num < headerSize ∨ p + num < cmdLength (load (whole.take (p + num))) then (mid whole (p + num), [])
      else (start (whole.drop (p + num)), [cells (load (whole.take (p + num))) 0 bufSize]) := by
  have hread := read_mid h
  by_cases hp : p < headerSize
  · have hphase : (mid whole p).phase = .readheader := if_pos hp
    rw [hphase] at hread
    simp only [step, hphase, hread]
    by_cases hq : p + num < headerSize
    · rw [if_pos hq, if_pos (Or.inl hq)]
      simp [mid, hq]
    · rw [if_neg hq, Receiver.complete]
      simp [mid, hq]
  · have hphase : (mid whole p).phase = .readcontent := if_neg hp
    have hq : ¬ p + num < headerSize := by omega
    rw [hphase] at hread
    simp only [step, hphase, hread, Receiver.complete]
    simp [mid, hq]

theorem requested_mid_header {whole : List UInt8} {p : ℕ} (hp : p < headerSize) :
    (mid whole p).requested = headerSize := by
  simp [Receiver.requested, mid, hp]

theorem requested_mid_content {whole : List UInt8} {p : ℕ} (hp : ¬ p < headerSize) :
    (mid whole p).requested = cmdLength (load (whole.take p)) - p := by
  simp [Receiver.requested, mid, hp]

theorem legal_mid {whole : List UInt8} {p num : ℕ} (hp : p ≤ whole.length) (h : Legal (mid whole p) (.bytes num)) :
    p + num ≤ whole.length := by
  have hrest := h.2.2
  rw [show (mid whole p).rest = whole.drop p from rfl, List.length_drop] at hrest
  omega

theorem counts_pos {s : Receiver} {reads : List Result} (h : Along (fun s r => (step s r).1) Legal s reads) :
    ∀ n ∈ counts reads, 1 ≤ n := by
  induction reads generalizing s with
  | nil => simp [counts]
  | cons r reads ih =>
    have htail := ih h.2
    cases r with
    | interrupted => exact htail
    | failed => exact htail
    | bytes num =>
      intro n hn
      rcases List.mem_cons.1 (show n ∈ num :: counts reads from hn) with rfl | hn
      · exact h.1.1
      · exact htail n hn

theorem counts_append (a b : List Result) : counts (a ++ b) = counts a ++ counts b := List.filterMap_append ..

theorem sum_counts_cons (r : Result) (reads : List Result) :
    (counts (r :: reads)).sum = (counts [r]).sum + (counts reads).sum := by
  rw [← List.singleton_append, counts_append, List.sum_append]

theorem counts_bytes (num : ℕ) (reads : List Result) : counts (.bytes num :: reads) = num :: counts reads := rfl

/-! ## One command -/

section Command

variable (c : Cmd) (more : List UInt8)

theorem step_before {p num : ℕ} (hlt : p + num < c.bytes.length) :
    step (mid (c.bytes ++ more) p) (.bytes num) = (mid (c.bytes ++ more) (p + num), []) := by
  have hle : p + num ≤ (c.bytes ++ more).length := by
    rw [List.length_append]
    omega
  rw [step_mid hle, if_pos]
  by_cases hq : p + num < headerSize
  · exact Or.inl hq
  · right
    rw [c.cmdLength_load (List.prefix_append _ _) (not_lt.1 hq) hle]
    exact hlt

/-- the read that completes the command, and what it takes of the bytes behind it -/
theorem step_behind {p num j : ℕ} (heq : p + num = c.bytes.length + j) (hj : j ≤ more.length) :
    step (mid (c.bytes ++ more) p) (.bytes num) =
      (start (more.drop j), [cells (load (c.bytes ++ more.take j)) 0 bufSize]) := by
  have hle : c.bytes.length + j ≤ (c.bytes ++ more).length := by
    rw [List.length_append]
    omega
  have hheader : headerSize ≤ c.bytes.length + j := le_trans c.header (Nat.le_add_right _ j)
  rw [step_mid (by rw [heq]; exact hle), heq, if_neg, List.take_length_add_append, List.drop_length_add_append]
  rw [c.cmdLength_load (List.prefix_append _ _) hheader hle]
  omega

theorem step_last {p num : ℕ} (heq : p + num = c.bytes.length) :
    step (mid (c.bytes ++ more) p) (.bytes num) = (start more, [c.buffer]) := by
  rw [step_behind c more (j := 0) heq (Nat.zero_le _), List.drop_zero, List.take_zero, List.append_nil, c.buffer_eq]

/-- only a read for a header goes over the end of a command -/
theorem over_header {p num : ℕ} (hp : p < c.bytes.length) (hlegal : Legal (mid (c.bytes ++ more) p) (.bytes num))
    (hover : c.bytes.length < p + num) : p < headerSize ∧ num ≤ headerSize := by
  have hreq := hlegal.2.1
  by_cases hheader : p < headerSize
  · rw [requested_mid_header hheader] at hreq
    exact ⟨hheader, hreq⟩
  · rw [requested_mid_content hheader, c.cmdLength_load (List.prefix_append _ _) (not_lt.1 hheader)
      (by rw [List.length_append]; omega)] at hreq
    omega

/-- from byte p of the command on, a read ends with it -/
def EndsAt (p : ℕ) (reads : List Result) : Prop :=
  ∃ r1 r2, reads = r1 ++ r2 ∧ trace step (mid (c.bytes ++ more) p) r1 = (start more, [c.buffer]) ∧
    p + (counts r1).sum = c.bytes.length

/-- from byte p of the command on, a read takes bytes from behind it -/
def RunsOver (p : ℕ) (reads : List Result) : Prop :=
  ∃ r1 num r2 j, reads = r1 ++ .bytes num :: r2 ∧ p + (counts r1).sum + num = c.bytes.length + j ∧
    p + (counts r1).sum < c.bytes.length ∧ 1 ≤ j ∧ j ≤ more.length ∧ c.bytes.length + j ≤ bufSize ∧
    trace step (mid (c.bytes ++ more) p) (r1 ++ [.bytes num]) =
      (start (more.drop j), [cells (load (c.bytes ++ more.take j)) 0 bufSize])

section Behind

variable {c more} {p q : ℕ} {r : Result} {reads : List Result}
  (hstep : step (mid (c.bytes ++ more) p) r = (mid (c.bytes ++ more) q, [])) (hq : q = p + (counts [r]).sum)
include hstep

theorem trace_silent (reads : List Result) :
    trace step (mid (c.bytes ++ more) p) (r :: reads) = trace step (mid (c.bytes ++ more) q) reads := by
  rw [trace_cons, hstep]
  rfl

include hq

theorem EndsAt.cons (h : EndsAt c more q reads) : EndsAt c more p (r :: reads) := by
  obtain ⟨r1, r2, rfl, htrace, heq⟩ := h
  refine ⟨r :: r1, r2, rfl, (trace_silent hstep r1).trans htrace, ?_⟩
  rw [sum_counts_cons]
  omega

theorem RunsOver.cons (h : RunsOver c more q reads) : RunsOver c more p (r :: reads) := by
  obtain ⟨r1, num, r2, j, rfl, heq, hlt, hj, hle, hfits, htrace⟩ := h
  refine ⟨r :: r1, num, r2, j, rfl, ?_, ?_, hj, hle, hfits, (trace_silent hstep _).trans htrace⟩
  · rw [sum_counts_cons]
    omega
  · rw [sum_counts_cons]
    omega

end Behind

/-- the reads of a command: the last one ends with it, or takes more -/
theorem first_command {reads : List Result} {p : ℕ} (hp : p < c.bytes.length)
    (hlegal : Along (fun s r => (step s r).1) Legal (mid (c.bytes ++ more) p) reads)
    (hsum : c.bytes.length ≤ p + (counts reads).sum) : EndsAt c more p reads ∨ RunsOver c more p reads := by
  induction reads generalizing p with
  | nil =>
    simp only [counts, List.filterMap_nil, List.sum_nil] at hsum
    omega
  | cons r reads ih =>
    cases r with
    | failed => exact absurd hlegal.1 id
    | interrupted => exact (ih hp hlegal.2 hsum).imp (EndsAt.cons rfl rfl) (RunsOver.cons rfl rfl)
    | bytes num =>
      have hle := legal_mid (by rw [List.length_append]; omega) hlegal.1
      rw [List.length_append] at hle
      rw [counts_bytes, List.sum_cons] at hsum
      rcases lt_trichotomy (p + num) c.bytes.length with hlt | heq | hgt
      · have hstep := step_before c more hlt
        have hrest : Along (fun s r => (step s r).1) Legal (step (mid (c.bytes ++ more) p) (.bytes num)).1 reads :=
          hlegal.2
        rw [hstep] at hrest
        have hq : p + num = p + (counts [.bytes num]).sum := rfl
        exact (ih hlt hrest (by omega)).imp (EndsAt.cons hstep hq) (RunsOver.cons hstep hq)
      · refine Or.inl ⟨[.bytes num], reads, rfl, ?_, heq⟩
        rw [trace_cons, step_last c more heq]
        rfl
      · obtain ⟨i, hi⟩ := Nat.exists_eq_add_of_lt hgt
        have hj : p + num = c.bytes.length + (i + 1) := hi
        have hover := over_header c more hp hlegal.1 hgt
        have hsize : headerSize + headerSize ≤ bufSize := by decide
        refine Or.inr ⟨[], num, reads, i + 1, rfl, hj, hp, by omega, by omega, by omega, ?_⟩
        rw [List.nil_append, trace_cons, step_behind c more hj (by omega)]
        rfl

end Command

/-! ## Behind an over-read -/

/-- the header in a buffer is what the pass has read first -/
theorem first_call {whole : List UInt8} {reads : List Result} {p : ℕ} (hp : p ≤ whole.length)
    (hlegal : Along (fun s r => (step s r).1) Legal (mid whole p) reads) {b : List UInt8} {bs : List (List UInt8)}
    (h : (trace step (mid whole p) reads).2 = b :: bs) :
    ∃ m, b = cells m 0 bufSize ∧ Same headerSize m (load whole) := by
  induction reads generalizing p with
  | nil => cases h
  | cons r reads ih =>
    cases r with
    | failed => exact absurd hlegal.1 id
    | interrupted => exact ih hp hlegal.2 h
    | bytes num =>
      have hle := legal_mid hp hlegal.1
      have hstep := step_mid hle
      have hrest : Along (fun s r => (step s r).1) Legal (step (mid whole p) (.bytes num)).1 reads := hlegal.2
      rw [trace_cons] at h
      split_ifs at hstep with hshort
      · rw [hstep] at hrest h
        exact ih hle hrest h
      · rw [hstep, List.singleton_append, List.cons.injEq] at h
        rw [not_or, not_lt, not_lt] at hshort
        refine ⟨_, h.1.symm, load_same (List.take_prefix _ _) ?_⟩
        rw [List.length_take, Nat.min_eq_left hle]
        exact hshort.1

/-- a list that begins with a zero byte and repeats what stands j cells before -/
theorem same_zero {m : ℕ → UInt8} {j : ℕ} (hj : 1 ≤ j) (hzero : ∀ i < j, m i = 0)
    (hshift : ∀ i < headerSize, m (j + i) = m i) : ∀ i < headerSize, m i = 0 := by
  intro i hi
  induction i using Nat.strong_induction_on with
  | _ i ih =>
    by_cases hlt : i < j
    · exact hzero i hlt
    · have hsub : j + (i - j) = i := by omega
      have hback := hshift (i - j) (by omega)
      rw [hsub] at hback
      rw [hback]
      exact ih (i - j) (by omega) (by omega)

/-- bytes taken from behind a command show, in its buffer or in the next one -/
theorem overread_shows (c : Cmd) (cmds : List Cmd) {j : ℕ} (hj : 1 ≤ j) (hle : j ≤ (stream cmds).length)
    (hfits : c.bytes.length + j ≤ bufSize) {reads : List Result}
    (hlegal : Along (fun s r => (step s r).1) Legal (start ((stream cmds).drop j)) reads) :
    cells (load (c.bytes ++ (stream cmds).take j)) 0 bufSize :: doCmdCalls ((stream cmds).drop j) reads ≠
      c.buffer :: cmds.map Cmd.buffer := by
  intro heq
  rw [List.cons.injEq, c.buffer_eq, cells_eq_iff] at heq
  obtain ⟨hown, hrest⟩ := heq
  cases cmds with
  | nil => exact absurd hle (by simp [stream]; omega)
  | cons d cmds =>
    have hpre : d.bytes <+: stream (d :: cmds) := by
      rw [stream, List.flatMap_cons]
      exact List.prefix_append _ _
    have hzero : ∀ i < j, load (stream (d :: cmds)) i = 0 := by
      intro i hi
      have hcell := hown (c.bytes.length + i) (by omega)
      rw [load_apply, load_apply, List.getElem?_append_right (Nat.le_add_right _ i), Nat.add_sub_cancel_left,
        List.getElem?_take_of_lt hi, List.getElem?_eq_none (Nat.le_add_right _ i)] at hcell
      rw [load_apply, hcell]
      rfl
    have hshift : ∀ i < headerSize, load (stream (d :: cmds)) (j + i) = load (stream (d :: cmds)) i := by
      intro i hi
      rw [start_eq] at hlegal
      obtain ⟨m, hm, hsame⟩ := first_call (Nat.zero_le _) hlegal (by rw [← start_eq]; exact hrest)
      rw [d.buffer_eq, cells_eq_iff] at hm
      rw [← load_drop, ← hsame i hi, ← hm i (lt_of_lt_of_le hi (by decide)), load_same hpre d.header i hi]
    have hall := same_zero hj hzero hshift
    have hlen : cmdLength (load d.bytes) = 0 := by
      rw [cmdLength_congr (load_same hpre d.header)]
      unfold cmdLength
      rw [hall 4 (by decide), hall 5 (by decide), hall 6 (by decide), hall 7 (by decide)]
      rfl
    have hheader := d.header
    rw [← d.length, hlen] at hheader
    exact absurd hheader (by decide)

/-! ## All commands -/

theorem doCmdCalls_nil {reads : List Result} (hlegal : Along (fun s r => (step s r).1) Legal (start []) reads) :
    doCmdCalls [] reads = [] ∧ counts reads = [] := by
  induction reads with
  | nil => exact ⟨rfl, rfl⟩
  | cons r reads ih =>
    cases r with
    | failed => exact absurd hlegal.1 id
    | interrupted => exact ih hlegal.2
    | bytes num =>
      have h1 := hlegal.1.1
      have h3 : num ≤ ([] : List UInt8).length := hlegal.1.2.2
      rw [List.length_nil] at h3
      omega

/-- **Receive.** RefNotify_DoCmd is called once for each command, in order, with the bytes of the command and zeros
behind them, exactly when every command ends where a read ends -/
theorem receive_iff (cmds : List Cmd) (reads : List Result)
    (hlegal : Along (fun s r => (step s r).1) Legal (start (stream cmds)) reads)
    (hall : (counts reads).sum = (stream cmds).length) :
    doCmdCalls (stream cmds) reads = cmds.map Cmd.buffer ↔ Separate cmds reads := by
  induction cmds generalizing reads with
  | nil =>
    obtain ⟨hcalls, hcounts⟩ := doCmdCalls_nil hlegal
    exact iff_of_true hcalls ((groups_nil _).2 hcounts)
  | cons c cmds ih =>
    have hstream : stream (c :: cmds) = c.bytes ++ stream cmds := List.flatMap_cons
    have hpos : 0 < c.bytes.length := lt_of_lt_of_le (by decide) c.header
    have hmid := hlegal
    rw [hstream, start_eq] at hmid
    rw [hstream, List.length_append] at hall
    rcases first_command c (stream cmds) hpos hmid (by omega) with
      ⟨r1, r2, rfl, htrace, heq⟩ | ⟨r1, num, r2, j, rfl, heq, hlt, hj, hle, hfits, htrace⟩
    · have hpositive := counts_pos hlegal
      rw [along_append, ← trace_fst, htrace] at hmid
      rw [Nat.zero_add] at heq
      rw [counts_append] at hpositive hall
      rw [List.sum_append, heq] at hall
      unfold doCmdCalls Separate
      rw [hstream, start_eq, trace_append, htrace, List.map_cons, List.singleton_append, List.cons.injEq,
        eq_self_iff_true, true_and, counts_append, List.map_cons, ← heq, groups_append hpositive]
      exact ih r2 hmid.2 (by omega)
    · have hrest : Along (fun s r => (step s r).1) Legal (start ((stream cmds).drop j)) r2 := by
        rw [← List.singleton_append, ← List.append_assoc, along_append, ← trace_fst, htrace] at hmid
        exact hmid.2
      have hcalls : doCmdCalls (stream (c :: cmds)) (r1 ++ .bytes num :: r2) =
          cells (load (c.bytes ++ (stream cmds).take j)) 0 bufSize :: doCmdCalls ((stream cmds).drop j) r2 := by
        unfold doCmdCalls
        rw [hstream, start_eq, ← List.singleton_append, ← List.append_assoc, trace_append, htrace]
        rfl
      refine iff_of_false ?_ ?_
      · rw [hcalls]
        exact overread_shows c cmds hj hle hfits hrest
      · unfold Separate
        rw [counts_append, counts_bytes, List.map_cons]
        exact not_groups (by omega) (by omega)

/-- a command without content, REF_GETTIME_CMD -/
def getTime : Cmd := ⟨[3, 0, 0, 0, 8, 0, 0, 0], by decide, by decide, by decide⟩

/-- a command with four bytes of content -/
def fourBytes : Cmd := ⟨[2, 0, 0, 0, 12, 0, 0, 0, 1, 2, 3, 4], by decide, by decide, by decide⟩

/-- a header in two pieces, then a header and its content in two pieces -/
def piecesOfTwo : List Result := [.bytes 5, .interrupted, .bytes 3, .bytes 8, .bytes 1, .bytes 3]

theorem receive_iff_two : doCmdCalls (stream [getTime, fourBytes]) piecesOfTwo = [getTime.buffer, fourBytes.buffer] ↔
    Separate [getTime, fourBytes] piecesOfTwo :=
  receive_iff [getTime, fourBytes] piecesOfTwo (by decide +kernel) (by decide)

/-- a header in two pieces, with the next command right behind it -/
theorem receive_overread : ¬ ∀ (cmds : List Cmd) (reads : List Result),
    Along (fun s r => (step s r).1) Legal (start (stream cmds)) reads → (counts reads).sum = (stream cmds).length →
      doCmdCalls (stream cmds) reads = cmds.map Cmd.buffer := by
  intro h
  have hcalls := h [getTime, getTime] [.bytes 3, .bytes 8, .bytes 5] (by decide +kernel) (by decide)
  revert hcalls
  decide +kernel

end SprdDevice.RefNotify.Receive
