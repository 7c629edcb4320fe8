/-
The receiving thread of the engineering mode (`vdiag.c`): `get_user_diag_buf` and the loop of `eng_vdiag_thread`.

- A turn of the loop reads up to 4096 bytes, and when it gets all of them it reads once more behind them; both reads
  make one block of `log_data`. A read that fails or gives nothing has the port opened again, which is taken to work:
  when it does not, the thread is over. After a full first read the result of the second is added to the count as it
  is, so a failure (-1) takes the last byte off the block.
- `get_user_diag_buf` collects a frame in `ext_data_buf`: it starts at a 0x7E, ends at the next one and drops what is
  left of the block. The collected bytes are the list `ext`, with `ext_buf_len` its length. `init_user_diag_buf` clears
  the buffer, so what lies behind them is 0, and behind the buffer stands a byte of another variable (`Env.past`).
- A complete frame goes to `eng_diag`; when its type is not handled there the copy taken before goes to the modem. A
  block that leaves the collector empty goes to the modem as it is. A full buffer is parsed where it lies: with a type
  nobody handles here its bytes go to the modem, and so does all that follows up to a block that ends in 0x7E
  (`ENG_DIAG_RECV_TO_CP`); with any other type the thread goes on receiving, and the buffer stays full.

The loop that writes to the modem writes until everything is written. What `eng_diag` answers to the PC and the flag
`g_ass_start` do not come back to this thread and are left out.

Results: what one turn does to a stream of frames (`takeTurn_frame`), and the thread as the collector run over the turns
that the reads make (`run_eq`).
-/
import Mathlib.Tactic
import SprdDevice.Lib.Trace
import SprdDevice.EngMode.Diag

namespace SprdDevice.EngMode

open SprdDevice.Memory SprdDevice.Trace

/-! ## Model -/

/-- `DATA_EXT_DIAG_SIZE` -/
def extSize : ℕ := 8192

/-- `DATA_BUF_SIZE/2`, the most one read gives -/
def readSize : ℕ := 4096

/-- `get_user_diag_buf` over what is left of the block: whether a frame is complete, and the bytes collected -/
def getUserDiagBuf : List UInt8 → List UInt8 → Bool × List UInt8
  | ext, [] => (false, ext)
  | ext, c :: buf =>
    if c = 0x7E ∧ ext.length = 0 then getUserDiagBuf (ext ++ [c]) buf
    else if 0 < ext.length ∧ ext.length < extSize then
      if c = 0x7E then (true, ext ++ [c]) else getUserDiagBuf (ext ++ [c]) buf
    else getUserDiagBuf ext buf

/-- `g_diag_status` -/
inductive DiagStatus where
  | recvToAp
  | recvToCp
deriving DecidableEq, Repr

/-- `g_diag_status`, and the first `ext_buf_len` bytes of `ext_data_buf` -/
structure Collector where
  status : DiagStatus
  ext : List UInt8
deriving DecidableEq, Repr

def idle : Collector := { status := .recvToAp, ext := [] }

/-- a frame handed to `eng_diag`, or bytes written to the modem -/
inductive Eff where
  | diag (frame : List UInt8)
  | modem (bytes : List UInt8)
deriving DecidableEq, Repr

/-- one block of `log_data` (`bytes` of length `r_cnt`), and what it finds around it -/
structure Turn where
  env : Env
  bytes : List UInt8

/-- `ext_data_buf` and what lies behind it -/
def extMem (env : Env) (ext : List UInt8) : Mem := fun i => if i < extSize then ext.getD i 0 else env.past

/-- a complete frame: `eng_diag` returns 1 when it has handled the command, otherwise the frame goes to the modem, in the
copy that was taken before `eng_diag` decoded it -/
def completeFrame (env : Env) (ext : List UInt8) : List Eff :=
  if (engDiagParse env (extMem env ext) ext.length).1 = .common then [.diag ext, .modem ext] else [.diag ext]

/-- a full buffer without a complete frame in it -/
def fullBuffer (env : Env) (ext : List UInt8) : Collector × List Eff :=
  let parsed := engDiagParse env (extMem env ext) ext.length
  if parsed.1 ≠ .common then ({ status := .recvToAp, ext := cells parsed.2 0 extSize }, [])
  else ({ status := .recvToCp, ext := [] }, [.modem (cells parsed.2 0 extSize)])

/-- the rest of a turn, after its reads -/
def takeTurn (s : Collector) (t : Turn) : Collector × List Eff :=
  match s.status with
  | .recvToCp =>
    ({ s with status := if t.bytes.getLast? = some 0x7E then .recvToAp else .recvToCp }, [.modem t.bytes])
  | .recvToAp =>
    match getUserDiagBuf s.ext t.bytes with
    | (true, ext) => (idle, completeFrame t.env ext)
    | (false, ext) =>
      if ext.length = 0 then ({ status := .recvToAp, ext := ext }, [.modem t.bytes])
      else if ext.length = extSize then fullBuffer t.env ext
      else ({ status := .recvToAp, ext := ext }, [])

/-- what one call of `read` returns: -1, or up to 4096 bytes (none at the end of the file) -/
structure Read where
  env : Env
  got : Option (List UInt8)
  fits : ∀ b, got = some b → b.length ≤ readSize

/-- the reads of a turn; a full first read is pending until the second returns -/
def fillLog (pending : Option (List UInt8)) (r : Read) : Option (List UInt8) × List Turn :=
  match pending, r.got with
  | none, none => (none, [])
  | none, some b =>
    if b.length = readSize then (some b, []) else if b.length = 0 then (none, []) else (none, [⟨r.env, b⟩])
  | some b, none => (none, [⟨r.env, b.take (readSize - 1)⟩])
  | some b, some c => (none, [⟨r.env, b ++ c⟩])

/-- one read of the thread -/
def step : Option (List UInt8) × Collector → Read → (Option (List UInt8) × Collector) × List Eff :=
  cascade fillLog takeTurn

/-- the thread from its start -/
def run (reads : List Read) : (Option (List UInt8) × Collector) × List Eff := trace step (none, idle) reads

/-- the blocks the reads make -/
def turns (reads : List Read) : List Turn := (trace fillLog none reads).2

/-- the frames handed to `eng_diag` -/
def delivered (effs : List Eff) : List (List UInt8) :=
  effs.filterMap fun e => match e with | .diag f => some f | .modem _ => none

/-- the bytes written to the modem -/
def sent (effs : List Eff) : List UInt8 :=
  effs.flatMap fun e => match e with | .diag _ => [] | .modem b => b

/-! ## The collector over a block -/

theorem getUserDiagBuf_append (ext a b : List UInt8) :
    getUserDiagBuf ext (a ++ b) =
      if (getUserDiagBuf ext a).1 then getUserDiagBuf ext a else getUserDiagBuf (getUserDiagBuf ext a).2 b := by
  induction a generalizing ext with
  | nil => simp [getUserDiagBuf]
  | cons c a ih =>
    simp only [List.cons_append, getUserDiagBuf]
    split_ifs <;> simp_all

/-- the first flag starts a frame -/
theorem getUserDiagBuf_start (buf : List UInt8) : getUserDiagBuf [] (0x7E :: buf) = getUserDiagBuf [0x7E] buf := by
  simp [getUserDiagBuf]

/-- bytes other than the flag are added as long as there is room -/
theorem getUserDiagBuf_body (ext body : List UInt8) (hpos : 0 < ext.length) (hbody : 0x7E ∉ body)
    (hroom : ext.length + body.length ≤ extSize) : getUserDiagBuf ext body = (false, ext ++ body) := by
  induction body generalizing ext with
  | nil => simp [getUserDiagBuf]
  | cons c body ih =>
    rw [List.mem_cons, not_or] at hbody
    rw [List.length_cons] at hroom
    have hc : c ≠ 0x7E := Ne.symm hbody.1
    have hopen : 0 < ext.length ∧ ext.length < extSize := ⟨hpos, by omega⟩
    have hnext := ih (ext ++ [c]) (by simp) hbody.2 (by simp; omega)
    simp only [getUserDiagBuf, hc, false_and, if_false, if_pos hopen, hnext, List.append_assoc, List.singleton_append]

/-- the second flag ends it, and the rest of the block is dropped -/
theorem getUserDiagBuf_end (ext buf : List UInt8) (hpos : 0 < ext.length) (hroom : ext.length < extSize) :
    getUserDiagBuf ext (0x7E :: buf) = (true, ext ++ [0x7E]) := by
  simp [getUserDiagBuf, hroom, Nat.ne_of_gt hpos]

/-- a full buffer takes nothing -/
theorem getUserDiagBuf_full {ext : List UInt8} (buf : List UInt8) (hfull : extSize ≤ ext.length) :
    getUserDiagBuf ext buf = (false, ext) := by
  have hpos : 0 < extSize := by decide
  induction buf with
  | nil => rfl
  | cons c buf ih =>
    have hstart : ¬ (c = 0x7E ∧ ext.length = 0) := by omega
    have hopen : ¬ (0 < ext.length ∧ ext.length < extSize) := by omega
    simp only [getUserDiagBuf, if_neg hstart, if_neg hopen, ih]

theorem length_getUserDiagBuf_le {ext : List UInt8} (buf : List UInt8) (h : ext.length ≤ extSize) :
    (getUserDiagBuf ext buf).2.length ≤ extSize := by
  have hpos : 0 < extSize := by decide
  induction buf generalizing ext with
  | nil => exact h
  | cons c buf ih =>
    unfold getUserDiagBuf
    split_ifs with hstart hopen hc
    · exact ih (by simp only [List.length_append, List.length_singleton]; omega)
    · simp only [List.length_append, List.length_singleton]; omega
    · exact ih (by simp only [List.length_append, List.length_singleton]; omega)
    · exact ih h

/-! ## Frames -/

/-- a flag, bytes other than it, a flag -/
def IsFrame (f : List UInt8) : Prop := ∃ body, 0x7E ∉ body ∧ f = 0x7E :: body ++ [0x7E]

section

variable {f p b more : List UInt8}

theorem IsFrame.length_ge (hf : IsFrame f) : 2 ≤ f.length := by
  obtain ⟨body, -, rfl⟩ := hf
  simp

/-- a part of the stream that ends inside its first frame -/
theorem IsFrame.part (hf : IsFrame f) (hp : p <+: f ++ more) (hlt : p.length < f.length) :
    p = [] ∨ ∃ body, p = 0x7E :: body ∧ 0x7E ∉ body := by
  obtain ⟨body, hbody, rfl⟩ := hf
  cases p with
  | nil => exact Or.inl rfl
  | cons c y =>
    right
    simp only [List.cons_append, List.append_assoc, List.cons_prefix_cons] at hp
    obtain ⟨rfl, hy⟩ := hp
    simp only [List.length_append, List.length_cons, List.length_nil] at hlt
    have hyb : y <+: body := List.prefix_of_prefix_length_le hy (List.prefix_append _ _) (by omega)
    exact ⟨y, rfl, fun hmem => hbody (hyb.subset hmem)⟩

/-- inside the first frame everything is collected -/
theorem getUserDiagBuf_part (hf : IsFrame f) (hp : p <+: f ++ more) (hlt : p.length < f.length)
    (hroom : p.length ≤ extSize) : getUserDiagBuf [] p = (false, p) := by
  rcases hf.part hp hlt with rfl | ⟨body, rfl, hbody⟩
  · rfl
  · rw [List.length_cons] at hroom
    rw [getUserDiagBuf_start, getUserDiagBuf_body [0x7E] body (by simp) hbody (by simp; omega)]
    rfl

theorem getUserDiagBuf_whole (hf : IsFrame f) (hroom : f.length ≤ extSize) :
    getUserDiagBuf [] (f ++ more) = (true, f) := by
  obtain ⟨body, hbody, rfl⟩ := hf
  simp only [List.length_append, List.length_cons, List.length_nil] at hroom
  have hcollect := getUserDiagBuf_body [0x7E] body (by simp) hbody (by simp; omega)
  rw [List.append_assoc, List.cons_append, getUserDiagBuf_start, getUserDiagBuf_append, hcollect]
  exact getUserDiagBuf_end ([0x7E] ++ body) more (by simp) (by simp; omega)

/-- a collector that holds a part of the stream goes on as if the part had come with the block -/
theorem getUserDiagBuf_resume (hf : IsFrame f) (hp : p <+: f ++ more) (hlt : p.length < f.length)
    (hroom : p.length ≤ extSize) : getUserDiagBuf p b = getUserDiagBuf [] (p ++ b) := by
  rw [getUserDiagBuf_append, getUserDiagBuf_part hf hp hlt hroom]
  rfl

/-- **A block of a frame stream.** The collector holds a part p of the first frame and b comes in. Either the frame goes
on and fits so far, or it is complete, or it is too long and the buffer is full. -/
theorem getUserDiagBuf_frame (hf : IsFrame f) (hp : p.length < f.length) (hroom : p.length < extSize)
    (hpb : p ++ b <+: f ++ more) :
    ((p ++ b).length < f.length ∧ (p ++ b).length < extSize ∧ getUserDiagBuf p b = (false, p ++ b)) ∨
    (f.length ≤ extSize ∧ (∃ c, p ++ b = f ++ c ∧ c <+: more) ∧ getUserDiagBuf p b = (true, f)) ∨
    (extSize < f.length ∧ f.take extSize <+: p ++ b ∧ getUserDiagBuf p b = (false, f.take extSize)) := by
  rw [getUserDiagBuf_resume hf ((List.prefix_append p b).trans hpb) hp hroom.le]
  by_cases hfit : f.length ≤ extSize
  · by_cases hlt : (p ++ b).length < f.length
    · exact Or.inl ⟨hlt, by omega, getUserDiagBuf_part hf hpb hlt (by omega)⟩
    · obtain ⟨c, hc⟩ := List.prefix_of_prefix_length_le (List.prefix_append f more) hpb (by omega)
      rw [← hc] at hpb ⊢
      exact Or.inr (Or.inl ⟨hfit, ⟨c, rfl, (List.prefix_append_right_inj f).mp hpb⟩, getUserDiagBuf_whole hf hfit⟩)
  · by_cases hlt : (p ++ b).length < extSize
    · exact Or.inl ⟨by omega, hlt, getUserDiagBuf_part hf hpb (by omega) hlt.le⟩
    · -- the first 8192 bytes of the frame fill the buffer
      right; right
      have hlen : (f.take extSize).length = extSize := by rw [List.length_take]; omega
      have hpre : f.take extSize <+: f ++ more := (List.take_prefix _ _).trans (List.prefix_append f more)
      have htake := List.prefix_of_prefix_length_le hpre hpb (by omega)
      obtain ⟨c, hc⟩ := htake
      refine ⟨by omega, ⟨c, hc⟩, ?_⟩
      rw [← hc, getUserDiagBuf_append, getUserDiagBuf_part hf hpre (by omega) hlen.le]
      exact getUserDiagBuf_full c hlen.ge

theorem takeTurn_full {t : Turn} {ext : List UInt8} (hget : getUserDiagBuf p t.bytes = (false, ext))
    (hfull : ext.length = extSize) : takeTurn ⟨.recvToAp, p⟩ t = fullBuffer t.env ext := by
  have hpos : 0 < extSize := by decide
  have hne : ext.length ≠ 0 := by omega
  simp only [takeTurn, hget, if_neg hne, if_pos hfull]

/-- **A turn on a frame stream.** The three cases of `getUserDiagBuf_frame`, for the thread. -/
theorem takeTurn_frame (hf : IsFrame f) (hp : p.length < f.length) (hroom : p.length < extSize) {t : Turn}
    (hne : t.bytes ≠ []) (hpb : p ++ t.bytes <+: f ++ more) :
    ((p ++ t.bytes).length < f.length ∧ (p ++ t.bytes).length < extSize ∧
      takeTurn ⟨.recvToAp, p⟩ t = (⟨.recvToAp, p ++ t.bytes⟩, [])) ∨
    (f.length ≤ extSize ∧ (∃ c, p ++ t.bytes = f ++ c ∧ c <+: more) ∧
      takeTurn ⟨.recvToAp, p⟩ t = (idle, completeFrame t.env f)) ∨
    (extSize < f.length ∧ f.take extSize <+: p ++ t.bytes ∧
      takeTurn ⟨.recvToAp, p⟩ t = fullBuffer t.env (f.take extSize)) := by
  rcases getUserDiagBuf_frame hf hp hroom hpb with ⟨h1, h2, hget⟩ | ⟨h1, h2, hget⟩ | ⟨h1, h2, hget⟩
  · refine Or.inl ⟨h1, h2, ?_⟩
    have hlen : (p ++ t.bytes).length ≠ 0 := by simp [hne]
    simp only [takeTurn, hget, if_neg hlen, if_neg h2.ne]
  · refine Or.inr (Or.inl ⟨h1, h2, ?_⟩)
    simp only [takeTurn, hget]
  · refine Or.inr (Or.inr ⟨h1, h2, ?_⟩)
    exact takeTurn_full hget (by rw [List.length_take]; omega)

end

/-! ## Effects -/

@[simp] theorem delivered_nil : delivered [] = [] := rfl

@[simp] theorem delivered_append (a b : List Eff) : delivered (a ++ b) = delivered a ++ delivered b :=
  List.filterMap_append

@[simp] theorem delivered_modem (b : List UInt8) (effs : List Eff) :
    delivered (.modem b :: effs) = delivered effs := rfl

@[simp] theorem sent_nil : sent [] = [] := rfl

@[simp] theorem sent_append (a b : List Eff) : sent (a ++ b) = sent a ++ sent b := List.flatMap_append

@[simp] theorem delivered_completeFrame (env : Env) (f : List UInt8) : delivered (completeFrame env f) = [f] := by
  unfold completeFrame
  split_ifs <;> rfl

@[simp] theorem delivered_fullBuffer (env : Env) (ext : List UInt8) : delivered (fullBuffer env ext).2 = [] := by
  unfold fullBuffer
  dsimp only
  split_ifs <;> rfl

/-! ## Reads and turns -/

/-- **Reads and turns.** The thread is the collector run over the turns that the reads make. -/
theorem run_eq (reads : List Read) :
    run reads = (((trace fillLog none reads).1, (trace takeTurn idle (turns reads)).1),
      (trace takeTurn idle (turns reads)).2) :=
  trace_cascade fillLog takeTurn none idle reads

theorem run_effs (reads : List Read) : (run reads).2 = (trace takeTurn idle (turns reads)).2 := by rw [run_eq]

/-- a pending read is a full one -/
def Full (pending : Option (List UInt8)) : Prop := ∀ b, pending = some b → b.length = readSize

theorem full_none : Full none := by
  intro b hb
  cases hb

theorem fillLog_full {pending : Option (List UInt8)} (h : Full pending) (r : Read) :
    Full (fillLog pending r).1 ∧ ∀ t ∈ (fillLog pending r).2, t.bytes ≠ [] := by
  have hsize : readSize = 4096 := rfl
  unfold fillLog
  split
  · exact ⟨full_none, by simp⟩
  · next b =>
    split_ifs with hfull hzero
    · refine ⟨fun c hc => ?_, by simp⟩
      rw [← Option.some.inj hc]
      exact hfull
    · exact ⟨full_none, by simp⟩
    · refine ⟨full_none, ?_⟩
      simpa using fun hnil => hzero (by rw [hnil]; rfl)
  · next b _ =>
    refine ⟨full_none, ?_⟩
    have hb := h b rfl
    have hne : b.take (readSize - 1) ≠ [] := by
      apply List.ne_nil_of_length_pos
      rw [List.length_take]
      omega
    simpa using hne
  · next b c _ =>
    refine ⟨full_none, ?_⟩
    have hb := h b rfl
    have hne : b ≠ [] := List.ne_nil_of_length_pos (by omega)
    simp [hne]

theorem turns_ne_nil (reads : List Read) : ∀ t ∈ turns reads, t.bytes ≠ [] :=
  trace_outputs Full (fun _ r h => fillLog_full h r) full_none reads

/-- the bytes of a list of turns, in order -/
def bytes (ts : List Turn) : List UInt8 := ts.flatMap Turn.bytes

@[simp] theorem bytes_nil : bytes [] = [] := rfl

@[simp] theorem bytes_cons (t : Turn) (ts : List Turn) : bytes (t :: ts) = t.bytes ++ bytes ts := rfl

@[simp] theorem bytes_append (a b : List Turn) : bytes (a ++ b) = bytes a ++ bytes b := List.flatMap_append

/-- what the reads gave, in order -/
def stream (reads : List Read) : List UInt8 := reads.flatMap fun r => r.got.getD []

/-- one read that does not fail loses no byte -/
theorem fillLog_bytes (pending : Option (List UInt8)) {r : Read} (h : r.got ≠ none) :
    bytes (fillLog pending r).2 ++ (fillLog pending r).1.getD [] = pending.getD [] ++ r.got.getD [] := by
  unfold fillLog
  split
  · contradiction
  · next b hb =>
    rw [hb]
    split_ifs with hfull hzero
    · simp
    · simp [List.eq_nil_of_length_eq_zero hzero]
    · simp
  · contradiction
  · next b c hc => simp [hc]

/-- The turns of reads that do not fail carry the stream, up to a read that is still pending. -/
theorem bytes_turns {reads : List Read} (h : ∀ r ∈ reads, r.got ≠ none) (pending : Option (List UInt8)) :
    bytes (trace fillLog pending reads).2 ++ (trace fillLog pending reads).1.getD [] =
      pending.getD [] ++ stream reads := by
  induction reads generalizing pending with
  | nil => simp [stream]
  | cons r reads ih =>
    have hr := fillLog_bytes pending (h r List.mem_cons_self)
    have hrest := ih (fun r' hr' => h r' (List.mem_cons_of_mem r hr')) (fillLog pending r).1
    rw [trace_cons, bytes_append, List.append_assoc, hrest, ← List.append_assoc, hr, List.append_assoc]
    rfl

/-- with all of the stream in the turns, no read is pending -/
theorem pending_none {reads : List Read} (h : ∀ r ∈ reads, r.got ≠ none) (hall : bytes (turns reads) = stream reads) :
    (trace fillLog none reads).1 = none := by
  have hfull : Full (trace fillLog none reads).1 := trace_inv Full (fun _ r hp => (fillLog_full hp r).1) full_none reads
  have hbytes := bytes_turns h none
  cases hpend : (trace fillLog none reads).1 with
  | none => rfl
  | some b =>
    have hlen := congrArg List.length hbytes
    rw [hpend] at hlen
    have hb := hfull b hpend
    have hpos : 0 < readSize := by decide
    have hsame := congrArg List.length hall
    simp only [List.length_append, Option.getD_some, Option.getD_none, List.length_nil, turns] at hlen hsame
    omega

/-! ## A bare environment -/

/-- nothing behind the buffer, and no AT command is handled here -/
def bareEnv : Env where
  past := 0
  audioAt := fun mem _ => (false, mem)
  apAt := fun _ _ => false

/-- a read that gives b -/
def dataRead (env : Env) (b : List UInt8) (h : b.length ≤ readSize) : Read where
  env := env
  got := some b
  fits := fun c hc => by rw [← Option.some.inj hc]; exact h

theorem fillLog_short (env : Env) {b : List UInt8} (h : b.length < readSize) (hne : b ≠ []) :
    fillLog none (dataRead env b h.le) = (none, [⟨env, b⟩]) := by
  have hzero : b.length ≠ 0 := fun h0 => hne (List.eq_nil_of_length_eq_zero h0)
  simp only [fillLog, dataRead, if_neg h.ne, if_neg hzero]

/-- a read of a few bytes is a turn -/
theorem trace_fillLog_short (env : Env) {b : List UInt8} (h : b.length < readSize) (hne : b ≠ []) (reads : List Read) :
    trace fillLog none (dataRead env b h.le :: reads) =
      ((trace fillLog none reads).1, ⟨env, b⟩ :: (trace fillLog none reads).2) := by
  rw [trace_cons, fillLog_short env h hne]
  rfl

theorem turns_short (env : Env) {b : List UInt8} (h : b.length < readSize) (hne : b ≠ []) (reads : List Read) :
    turns (dataRead env b h.le :: reads) = ⟨env, b⟩ :: turns reads := by
  unfold turns
  rw [trace_fillLog_short env h hne]

/-- a full read makes a turn with the next one -/
theorem turns_full (env : Env) {b c : List UInt8} (hb : b.length = readSize) (hc : c.length ≤ readSize)
    (reads : List Read) :
    turns (dataRead env b hb.le :: dataRead env c hc :: reads) = ⟨env, b ++ c⟩ :: turns reads := by
  have hfirst : fillLog none (dataRead env b hb.le) = (some b, []) := by simp only [fillLog, dataRead, if_pos hb]
  have hsecond : fillLog (some b) (dataRead env c hc) = (none, [⟨env, b ++ c⟩]) := rfl
  unfold turns
  rw [trace_cons, hfirst, trace_cons, hsecond]
  rfl

/-- n equal bytes -/
def same (b : UInt8) (n : ℕ) : List UInt8 := List.replicate n b

@[simp] theorem length_same (b : UInt8) (n : ℕ) : (same b n).length = n := List.length_replicate

theorem same_append (b : UInt8) (n m : ℕ) : same b n ++ same b m = same b (n + m) := List.replicate_append_replicate

theorem flag_not_mem_same {b : UInt8} (hb : b ≠ 0x7E) (n : ℕ) : 0x7E ∉ same b n :=
  fun hmem => hb (List.eq_of_mem_replicate hmem).symm

theorem extMem_cons_same (env : Env) (c b : UInt8) {n j : ℕ} (hj : j < n) (hn : n < extSize) :
    extMem env (c :: same b n) (j + 1) = b := by
  have hin : j + 1 < extSize := by omega
  simp [extMem, same, hin, hj]

/-- a buffer filled with one byte behind the flag is parsed as it lies -/
theorem engDiagParse_same (env : Env) {b : UInt8} (hb : ¬ Escapes b) (hat : b ≠ 0x68) {len : ℕ} (hlen : len ≤ extSize) :
    engDiagParse env (extMem env (0x7E :: same b (extSize - 1))) len =
      (headCmd b b, extMem env (0x7E :: same b (extSize - 1))) := by
  have hbody : ∀ j, 1 ≤ j → j < extSize → extMem env (0x7E :: same b (extSize - 1)) j = b := by
    intro j h1 h2
    obtain ⟨k, rfl⟩ := Nat.exists_eq_add_of_le' h1
    exact extMem_cons_same env 0x7E b (by omega) (by omega)
  have h7 := hbody 7 (by decide) (by decide)
  have h8 := hbody 8 (by decide) (by decide)
  rw [engDiagParse_clean env (fun j h1 h2 => by rwa [hbody j h1 (by omega)]) (by rwa [h7]), h7, h8]

end SprdDevice.EngMode
