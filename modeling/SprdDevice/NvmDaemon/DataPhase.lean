/-
The data phase of `nvm_daemon` (`nvitem.c`: the loop over the bytes of a request), by what it takes from the pipe and what
the two runtime files get.

The pipe is a stream of bytes, and a read takes the next ones, as many as it returns. A chunk is one pass of the loop: the
number of bytes the read returns and the results of the two writes. What a file gets in a pass are the first bytes of the
piece, as many as the write returns. A read that fails is repeated and changes nothing, so it is no pass.

Results: `handle_ends` (when no piece leaves its buffer), `handle_consumes` (a request takes its bytes, and once more those
of every pass in which a write fails), `handle_writes` (what the two files get), `completes_of_reads` (reads and writes
that do not fail complete a request) and `data_phase_iff`.
-/
import Mathlib.Tactic
import SprdDevice.NvmDaemon.Backup

namespace SprdDevice.NvmDaemon

open SprdDevice.Memory SprdDevice.Word

/-! ## A request and its chunks -/

structure Chunk where
  count : ℕ
  wRuntime : ℤ
  wBackup : ℤ
deriving DecidableEq, Repr

/-- the chunk as the daemon sees it, with the pipe at pos -/
def Chunk.turn (c : Chunk) (pipe : ℕ → UInt8) (pos : ℕ) : Turn := ⟨some (cells pipe pos c.count), c.wRuntime, c.wBackup⟩

/-- what `read` is asked for -/
def asked (total : ℤ) : ℕ := min total.toNat DATA_BUF_LEN

/-- the passes of the data loop up to the next header, or up to a piece that leaves its buffer: the place in the pipe and the
state then, if these chunks are all of them -/
def handle (pipe : ℕ → UInt8) : ℕ → St → List Chunk → Option (ℕ × St)
  | pos, s, [] =>
    match s.phase with
    | .data _ _ => none
    | .header => some (pos, s)
    | .overrun => some (pos, s)
  | pos, s, c :: cs =>
    match s.phase with
    | .data _ total =>
      if 1 ≤ c.count ∧ c.count ≤ asked total then handle pipe (pos + c.count) (step s (c.turn pipe pos)) cs else none
    | .header => none
    | .overrun => none

/-- neither write fails -/
def Chunk.Clean (c : Chunk) : Prop := 0 ≤ c.wRuntime ∧ 0 ≤ c.wBackup

instance decidableClean (c : Chunk) : Decidable c.Clean := inferInstanceAs (Decidable (_ ∧ _))

/-- both writes take as many bytes of the piece -/
def Chunk.Even (c : Chunk) : Prop := min c.wRuntime.toNat c.count = min c.wBackup.toNat c.count

instance decidableEven (c : Chunk) : Decidable c.Even := inferInstanceAs (Decidable (_ = _))

/-- what a file has got since it was moved to the offset of the request -/
def received (s : St) (h : Handle) : List UInt8 := cells h.content s.offset (h.pos - s.offset)

/-- the request in s is handled with these chunks as it should be, whatever the pipe brings -/
def HandledExactly (s : St) (cs : List Chunk) : Prop :=
  ∀ pipe pos pos' s', handle pipe pos (dispatch s) cs = some (pos', s') →
    s'.phase = .header ∧ pos' = pos + s.size ∧ (s.type = 1 → received s s'.runtimeNv1 = received s s'.runtimeNv2)

/-- there is room for n more bytes in the buffer of the area -/
def Room (area : Area) (s : St) (n : ℤ) : Prop :=
  match area with
  | .fixnv => s.fixnvBufferOffset + n ≤ FIXNV_SIZE + 4
  | .runtimenv => True
  | .productinfo => s.phasecheckBufferOffset + n ≤ PRODUCTINFO_SIZE + 8

/-! ## One pass -/

section

variable {s : St} {area : Area} {total : ℤ} {c : Chunk} {pipe : ℕ → UInt8} {pos : ℕ}

theorem finish_phase (area : Area) (s : St) : (finish area s).phase = .header := by
  cases area <;> rfl

theorem finish_files (area : Area) (s : St) :
    (finish area s).runtimeNv1 = s.runtimeNv1 ∧ (finish area s).runtimeNv2 = s.runtimeNv2 := by
  cases area <;> exact ⟨rfl, rfl⟩

theorem loopHead_more (h : 0 < total) : loopHead area total s = { s with phase := .data area total } := if_pos h

theorem loopHead_done (h : ¬ 0 < total) : loopHead area total s = finish area s := if_neg h

theorem loopHead_files (area : Area) (total : ℤ) (s : St) :
    (loopHead area total s).runtimeNv1 = s.runtimeNv1 ∧ (loopHead area total s).runtimeNv2 = s.runtimeNv2 := by
  by_cases h : 0 < total
  · rw [loopHead_more h]
    exact ⟨rfl, rfl⟩
  · rw [loopHead_done h]
    exact finish_files area s

theorem step_chunk (h : s.phase = .data area total) (h1 : 1 ≤ c.count) (h2 : c.count ≤ asked total) :
    step s (c.turn pipe pos) = takePiece area total (c.turn pipe pos) s (cells pipe pos c.count) := by
  have htake : (cells pipe pos c.count).take (min total.toNat DATA_BUF_LEN) = cells pipe pos c.count :=
    List.take_of_length_le (by rw [length_cells]; exact h2)
  have hne : cells pipe pos c.count ≠ [] := by
    apply List.ne_nil_of_length_pos
    rw [length_cells]
    exact h1
  rw [step, h]
  dsimp only
  rw [dataTurn, Chunk.turn]
  dsimp only
  rw [htake, if_neg hne]

/-- Everything a pass can do: a write to the runtime files fails and the count stays; the count goes down by the piece; or
the piece leaves its buffer. -/
theorem chunk_cases (pipe : ℕ → UInt8) (pos : ℕ) (h : s.phase = .data area total) (h1 : 1 ≤ c.count)
    (h2 : c.count ≤ asked total) :
    (area = .runtimenv ∧ ¬ c.Clean ∧ (step s (c.turn pipe pos)).phase = .data area total) ∨
      ((area = .runtimenv → c.Clean) ∧ Room area s c.count ∧
        ∃ s0, step s (c.turn pipe pos) = loopHead area (total - c.count) s0 ∧
          (∀ n, Room area s0 n ↔ Room area s (c.count + n)) ∧
          (area = .runtimenv → s0.runtimeNv1 = s.runtimeNv1.write c.wRuntime (cells pipe pos c.count) ∧
            s0.runtimeNv2 = s.runtimeNv2.write c.wBackup (cells pipe pos c.count))) ∨
      (area ≠ .runtimenv ∧ ¬ Room area s c.count ∧ (step s (c.turn pipe pos)).phase = .overrun) := by
  rw [step_chunk h h1 h2]
  cases area with
  | runtimenv =>
    by_cases hr : c.wRuntime < 0
    · left
      refine ⟨rfl, fun hclean => absurd hclean.1 (by omega), ?_⟩
      rw [takePiece, Chunk.turn, if_pos hr]
      exact h
    · by_cases hb : c.wBackup < 0
      · left
        refine ⟨rfl, fun hclean => absurd hclean.2 (by omega), ?_⟩
        rw [takePiece, Chunk.turn, if_neg hr, if_pos hb]
        exact h
      · right; left
        refine ⟨fun _ => ⟨by omega, by omega⟩, trivial, ?_⟩
        rw [takePiece, Chunk.turn, if_neg hr, if_neg hb, length_cells]
        exact ⟨_, rfl, fun _ => Iff.rfl, fun _ => ⟨rfl, rfl⟩⟩
  | fixnv =>
    have hno : Area.fixnv ≠ .runtimenv := by decide
    have hroom : Room .fixnv s c.count ↔ s.fixnvBufferOffset + c.count ≤ FIXNV_SIZE + 4 := by
      unfold Room
      omega
    rw [takePiece, putPiece, length_cells]
    by_cases hfit : s.fixnvBufferOffset + c.count ≤ FIXNV_SIZE + 4
    · rw [if_pos hfit]
      refine Or.inr (Or.inl ⟨fun h => absurd h hno, hroom.mpr hfit, _, rfl, fun n => ?_, fun h => absurd h hno⟩)
      simp only [Room, Nat.cast_add, add_assoc]
    · rw [if_neg hfit]
      exact Or.inr (Or.inr ⟨hno, mt hroom.mp hfit, rfl⟩)
  | productinfo =>
    have hno : Area.productinfo ≠ .runtimenv := by decide
    have hroom : Room .productinfo s c.count ↔ s.phasecheckBufferOffset + c.count ≤ PRODUCTINFO_SIZE + 8 := by
      unfold Room
      omega
    rw [takePiece, putPiece, length_cells]
    by_cases hfit : s.phasecheckBufferOffset + c.count ≤ PRODUCTINFO_SIZE + 8
    · rw [if_pos hfit]
      refine Or.inr (Or.inl ⟨fun h => absurd h hno, hroom.mpr hfit, _, rfl, fun n => ?_, fun h => absurd h hno⟩)
      simp only [Room, Nat.cast_add, add_assoc]
    · rw [if_neg hfit]
      exact Or.inr (Or.inr ⟨hno, mt hroom.mp hfit, rfl⟩)

end

/-! ## A request -/

theorem handle_header {s : St} (h : s.phase = .header) (pipe : ℕ → UInt8) (pos : ℕ) (cs : List Chunk) :
    handle pipe pos s cs = if cs = [] then some (pos, s) else none := by
  cases cs with
  | nil => rw [handle, h, if_pos rfl]
  | cons c cs => rw [handle, h, if_neg (List.cons_ne_nil c cs)]

theorem handle_overrun {s : St} (h : s.phase = .overrun) (pipe : ℕ → UInt8) (pos : ℕ) (cs : List Chunk) :
    handle pipe pos s cs = if cs = [] then some (pos, s) else none := by
  cases cs with
  | nil => rw [handle, h, if_pos rfl]
  | cons c cs => rw [handle, h, if_neg (List.cons_ne_nil c cs)]

/-- a pass of the loop, from its result -/
theorem handle_cons {s : St} {area : Area} {total : ℤ} (h : s.phase = .data area total) {pipe : ℕ → UInt8} {pos : ℕ}
    {cs : List Chunk} {r : ℕ × St} (hr : handle pipe pos s cs = some r) :
    ∃ c rest, cs = c :: rest ∧ 1 ≤ c.count ∧ c.count ≤ asked total ∧
      handle pipe (pos + c.count) (step s (c.turn pipe pos)) rest = some r := by
  cases cs with
  | nil =>
    rw [handle, h] at hr
    cases hr
  | cons c rest =>
    rw [handle, h] at hr
    dsimp only at hr
    split_ifs at hr with hc
    exact ⟨c, rest, rfl, hc.1, hc.2, hr⟩

/-- the bytes of the passes that are not counted -/
def lost (area : Area) (cs : List Chunk) : ℕ :=
  (cs.map fun c => if area = .runtimenv ∧ ¬ c.Clean then c.count else 0).sum

theorem Room.mono {area : Area} {s : St} {m n : ℤ} (h : Room area s n) (hmn : m ≤ n) : Room area s m := by
  cases area with
  | fixnv =>
    unfold Room at h ⊢
    omega
  | runtimenv => trivial
  | productinfo =>
    unfold Room at h ⊢
    omega

theorem room_loopHead {area : Area} {s : St} {total : ℤ} (hmore : 0 < total) (n : ℤ) :
    Room area (loopHead area total s) n ↔ Room area s n := by
  rw [loopHead_more hmore]
  cases area <;> exact Iff.rfl

/-- The next header is read exactly when all the bytes have room in the buffer. -/
theorem handle_ends (area : Area) (pipe : ℕ → UInt8) (r : ℕ × St) (cs : List Chunk) :
    ∀ (pos : ℕ) (s : St) (total : ℤ), s.phase = .data area total → 0 < total → handle pipe pos s cs = some r →
      (r.2.phase = .header ↔ Room area s total) := by
  induction cs with
  | nil =>
    intro pos s total h _ hr
    obtain ⟨c, rest, hcs, -⟩ := handle_cons h hr
    cases hcs
  | cons c cs ih =>
    intro pos s total h hpos hr
    obtain ⟨c', rest, hcs, h1, h2, hrest⟩ := handle_cons h hr
    cases hcs
    have hle : (c.count : ℤ) ≤ total := by
      unfold asked at h2
      omega
    rcases chunk_cases pipe pos h h1 h2 with ⟨harea, -, hphase⟩ | ⟨-, hroom, s0, hs0, hroom0, -⟩ | ⟨-, hroom, hover⟩
    · rw [ih _ _ total hphase hpos hrest, harea]
      exact Iff.rfl
    · rw [hs0] at hrest
      by_cases hmore : 0 < total - c.count
      · rw [ih _ _ (total - c.count) (by rw [loopHead_more hmore]) hmore hrest, room_loopHead hmore, hroom0,
          add_sub_cancel]
      · rw [loopHead_done hmore, handle_header (finish_phase area s0)] at hrest
        split_ifs at hrest with hnil
        obtain rfl := Option.some.inj hrest
        have hsum : total = c.count := by omega
        rw [hsum]
        exact iff_of_true (finish_phase area s0) hroom
    · rw [handle_overrun hover] at hrest
      split_ifs at hrest with hnil
      obtain rfl := Option.some.inj hrest
      dsimp only
      rw [hover]
      exact iff_of_false (fun h => nomatch h) fun htotal => hroom (htotal.mono hle)

/-- A request takes its bytes from the pipe, and once more those of every pass in which a write fails. -/
theorem handle_consumes (area : Area) (pipe : ℕ → UInt8) (r : ℕ × St) (hend : r.2.phase = .header) (cs : List Chunk) :
    ∀ (pos : ℕ) (s : St) (total : ℤ), s.phase = .data area total → 0 < total → handle pipe pos s cs = some r →
      (r.1 : ℤ) = pos + total + lost area cs := by
  induction cs with
  | nil =>
    intro pos s total h _ hr
    obtain ⟨c, rest, hcs, -⟩ := handle_cons h hr
    cases hcs
  | cons c cs ih =>
    intro pos s total h hpos hr
    obtain ⟨c', rest, hcs, h1, h2, hrest⟩ := handle_cons h hr
    cases hcs
    have hlost : lost area (c :: cs) = (if area = .runtimenv ∧ ¬ c.Clean then c.count else 0) + lost area cs := by
      rw [lost, List.map_cons, List.sum_cons, lost]
    have hle : (c.count : ℤ) ≤ total := by
      unfold asked at h2
      omega
    rcases chunk_cases pipe pos h h1 h2 with ⟨harea, hfail, hphase⟩ | ⟨hclean, -, s0, hs0, -⟩ | ⟨-, -, hover⟩
    · have hnext := ih _ _ total hphase hpos hrest
      rw [hnext, hlost, if_pos ⟨harea, hfail⟩]
      push_cast
      ring
    · rw [hlost, if_neg fun hno => hno.2 (hclean hno.1), zero_add]
      rw [hs0] at hrest
      by_cases hmore : 0 < total - c.count
      · have hnext := ih _ _ (total - c.count) (by rw [loopHead_more hmore]) hmore hrest
        rw [hnext]
        push_cast
        ring
      · rw [loopHead_done hmore, handle_header (finish_phase area s0)] at hrest
        split_ifs at hrest with hnil
        subst hnil
        obtain rfl := Option.some.inj hrest
        have hsum : total = c.count := by omega
        rw [hsum]
        simp [lost]
    · rw [handle_overrun hover] at hrest
      split_ifs at hrest with hnil
      obtain rfl := Option.some.inj hrest
      rw [hover] at hend
      cases hend

/-- what a file gets in these passes, when w is what its writes return -/
def taken (w : Chunk → ℤ) (pipe : ℕ → UInt8) : ℕ → List Chunk → List UInt8
  | _, [] => []
  | pos, c :: cs => (cells pipe pos c.count).take (w c).toNat ++ taken w pipe (pos + c.count) cs

/-- the file after it has got the bytes l -/
def Handle.after (h : Handle) (l : List UInt8) : Handle := { content := store h.content h.pos l, pos := h.pos + l.length }

theorem Handle.write_after (h : Handle) (w : ℤ) (piece l : List UInt8) :
    (h.write w piece).after l = h.after (piece.take w.toNat ++ l) := by
  rw [Handle.after, Handle.after, Handle.write, store_append, List.length_append, Nat.add_assoc]

/-- What the two runtime files get when no write fails. -/
theorem handle_writes (pipe : ℕ → UInt8) (r : ℕ × St) (cs : List Chunk) :
    ∀ (pos : ℕ) (s : St) (total : ℤ), s.phase = .data .runtimenv total → (∀ c ∈ cs, c.Clean) →
      handle pipe pos s cs = some r →
        r.2.runtimeNv1 = s.runtimeNv1.after (taken Chunk.wRuntime pipe pos cs) ∧
          r.2.runtimeNv2 = s.runtimeNv2.after (taken Chunk.wBackup pipe pos cs) := by
  induction cs with
  | nil =>
    intro pos s total h _ hr
    obtain ⟨c, rest, hcs, -⟩ := handle_cons h hr
    cases hcs
  | cons c cs ih =>
    intro pos s total h hall hr
    obtain ⟨c', rest, hcs, h1, h2, hrest⟩ := handle_cons h hr
    cases hcs
    obtain ⟨hc, hcs⟩ := List.forall_mem_cons.mp hall
    rcases chunk_cases pipe pos h h1 h2 with ⟨-, hfail, -⟩ | ⟨-, -, s0, hs0, -, hfiles⟩ | ⟨hno, -⟩
    · exact absurd hc hfail
    · obtain ⟨hf1, hf2⟩ := hfiles rfl
      obtain ⟨hl1, hl2⟩ := loopHead_files .runtimenv (total - c.count) s0
      rw [hs0] at hrest
      have hafter : r.2.runtimeNv1 = s0.runtimeNv1.after (taken Chunk.wRuntime pipe (pos + c.count) cs) ∧
          r.2.runtimeNv2 = s0.runtimeNv2.after (taken Chunk.wBackup pipe (pos + c.count) cs) := by
        by_cases hmore : 0 < total - c.count
        · have hnext := ih _ _ (total - c.count) (by rw [loopHead_more hmore]) hcs hrest
          rwa [hl1, hl2] at hnext
        · rw [loopHead_done hmore, handle_header (finish_phase _ s0)] at hrest
          split_ifs at hrest with hnil
          subst hnil
          obtain rfl := Option.some.inj hrest
          simp only [taken, Handle.after, store_nil, List.length_nil, Nat.add_zero]
          exact finish_files .runtimenv s0
      rw [hafter.1, hafter.2, hf1, hf2, Handle.write_after, Handle.write_after]
      exact ⟨rfl, rfl⟩
    · exact absurd rfl hno

/-- whether the passes end a runtime request does not depend on what the pipe brings -/
theorem handle_any_pipe (pipe pipe' : ℕ → UInt8) (cs : List Chunk) :
    ∀ (pos pos' : ℕ) (s s' : St) (total : ℤ), s.phase = .data .runtimenv total → s'.phase = .data .runtimenv total →
      (handle pipe pos s cs).isSome = true → (handle pipe' pos' s' cs).isSome = true := by
  induction cs with
  | nil =>
    intro pos pos' s s' total h h' hr
    obtain ⟨r, hr⟩ := Option.isSome_iff_exists.mp hr
    obtain ⟨c, rest, hcs, -⟩ := handle_cons h hr
    cases hcs
  | cons c cs ih =>
    intro pos pos' s s' total h h' hr
    obtain ⟨r, hr⟩ := Option.isSome_iff_exists.mp hr
    obtain ⟨c', rest, hcs, h1, h2, hrest⟩ := handle_cons h hr
    cases hcs
    have hsome : (handle pipe (pos + c.count) (step s (c.turn pipe pos)) cs).isSome = true := by
      rw [hrest]
      rfl
    rw [handle, h']
    dsimp only
    rw [if_pos ⟨h1, h2⟩]
    rcases chunk_cases pipe pos h h1 h2 with ⟨-, hfail, hphase⟩ | ⟨hclean, -, s0, hs0, -⟩ | ⟨hno, -⟩
    · rcases chunk_cases pipe' pos' h' h1 h2 with ⟨-, -, hphase'⟩ | ⟨hclean', -⟩ | ⟨hno, -⟩
      · exact ih _ _ _ _ total hphase hphase' hsome
      · exact absurd (hclean' rfl) hfail
      · exact absurd rfl hno
    · rcases chunk_cases pipe' pos' h' h1 h2 with ⟨-, hfail, -⟩ | ⟨-, -, s0', hs0', -⟩ | ⟨hno, -⟩
      · exact absurd (hclean rfl) hfail
      · rw [hs0] at hsome
        rw [hs0']
        by_cases hmore : 0 < total - c.count
        · exact ih _ _ _ _ (total - c.count) (by rw [loopHead_more hmore]) (by rw [loopHead_more hmore]) hsome
        · rw [loopHead_done hmore, handle_header (finish_phase _ _)] at hsome ⊢
          by_cases hnil : cs = []
          · rw [if_pos hnil]
            rfl
          · rw [if_neg hnil] at hsome
            cases hsome
      · exact absurd rfl hno
    · exact absurd rfl hno

/-! ## What the two files get -/

theorem mem_cells_iff {pipe : ℕ → UInt8} {pos n : ℕ} {b : UInt8} : b ∈ cells pipe pos n ↔ ∃ i < n, pipe (pos + i) = b := by
  simp [cells]

theorem take_cells (pipe : ℕ → UInt8) (pos n k : ℕ) : (cells pipe pos n).take k = cells pipe pos (min k n) := by
  apply List.ext_getElem
  · simp
  · intro i h1 h2
    simp [cells]

/-- a byte that a file gets stood at one of the places that its pieces cover -/
theorem mem_taken (w : Chunk → ℤ) {pipe : ℕ → UInt8} {cs : List Chunk} : ∀ {pos : ℕ} {b : UInt8},
    b ∈ taken w pipe pos cs → ∃ i, pos ≤ i ∧ pipe i = b := by
  induction cs with
  | nil =>
    intro pos b h
    exact absurd h List.not_mem_nil
  | cons c cs ih =>
    intro pos b h
    rw [taken, List.mem_append, take_cells, mem_cells_iff] at h
    rcases h with ⟨i, -, hi⟩ | h
    · exact ⟨pos + i, Nat.le_add_right .., hi⟩
    · obtain ⟨i, hle, hi⟩ := ih h
      exact ⟨i, le_trans (Nat.le_add_right ..) hle, hi⟩

/-- a single 1 in the pipe, right behind what the shorter of two first writes takes, reaches one of the files only -/
theorem taken_ne {v w : Chunk → ℤ} {c : Chunk} (h : min (v c).toNat c.count < min (w c).toNat c.count) (pos : ℕ)
    (cs : List Chunk) : ∃ pipe, taken v pipe pos (c :: cs) ≠ taken w pipe pos (c :: cs) := by
  refine ⟨fun i => if i = pos + min (v c).toNat c.count then 1 else 0, fun hsame => ?_⟩
  have hin : (1 : UInt8) ∈ taken w (fun i => if i = pos + min (v c).toNat c.count then 1 else 0) pos (c :: cs) := by
    rw [taken, List.mem_append, take_cells, mem_cells_iff]
    exact Or.inl ⟨min (v c).toNat c.count, h, if_pos rfl⟩
  rw [← hsame, taken, List.mem_append, take_cells, mem_cells_iff] at hin
  rcases hin with ⟨i, hi, hone⟩ | hlater
  · rw [if_neg (by omega)] at hone
    exact absurd hone (by decide)
  · obtain ⟨i, hle, hone⟩ := mem_taken v hlater
    rw [if_neg (by omega)] at hone
    exact absurd hone (by decide)

/-- The files get the same, whatever the pipe brings, exactly when each two writes take as much. -/
theorem taken_same_iff (pos : ℕ) (cs : List Chunk) :
    (∀ pipe, taken Chunk.wRuntime pipe pos cs = taken Chunk.wBackup pipe pos cs) ↔ ∀ c ∈ cs, c.Even := by
  induction cs generalizing pos with
  | nil => exact ⟨fun _ c hc => absurd hc List.not_mem_nil, fun _ _ => rfl⟩
  | cons c cs ih =>
    rw [List.forall_mem_cons, ← ih (pos + c.count)]
    constructor
    · intro h
      have heven : c.Even := by
        rcases Nat.lt_trichotomy (min c.wRuntime.toNat c.count) (min c.wBackup.toNat c.count) with hlt | heq | hgt
        · obtain ⟨pipe, hne⟩ := taken_ne (v := Chunk.wRuntime) (w := Chunk.wBackup) hlt pos cs
          exact absurd (h pipe) hne
        · exact heq
        · obtain ⟨pipe, hne⟩ := taken_ne (v := Chunk.wBackup) (w := Chunk.wRuntime) hgt pos cs
          exact absurd (h pipe).symm hne
      refine ⟨heven, fun pipe => ?_⟩
      have hpipe := h pipe
      rw [taken, taken, take_cells, take_cells, heven] at hpipe
      exact List.append_cancel_left hpipe
    · rintro ⟨heven, hrest⟩ pipe
      rw [taken, taken, take_cells, take_cells, heven, hrest pipe]

theorem received_after {s : St} {h : Handle} (hpos : h.pos = s.offset) (l : List UInt8) : received s (h.after l) = l := by
  rw [received, Handle.after]
  dsimp only
  rw [hpos, Nat.add_sub_cancel_left, cells_store_self]

/-! ## A data request -/

/-- these chunks are all the passes of the request in s, for some pipe -/
def Completes (s : St) (cs : List Chunk) : Prop := ∃ pipe pos, (handle pipe pos (dispatch s) cs).isSome = true

/-- a request without data; or one of a known type with a size that is an int, whose bytes have room in their buffer, and
for the runtime files no write that fails or takes less than the other -/
def HandledWhen (s : St) (cs : List Chunk) : Prop :=
  s.size = 0 ∨
    s.type ≤ 2 ∧ s.size < 2 ^ 31 ∧ (s.type = 0 → s.offset + s.size ≤ FIXNV_SIZE + 4) ∧
      (s.type = 1 → ∀ c ∈ cs, c.Clean ∧ c.Even) ∧ (s.type = 2 → s.offset + s.size ≤ PRODUCTINFO_SIZE + 8)

theorem size_lt (s : St) : s.size < 2 ^ 32 := by
  unfold St.size le32
  have h0 := byte_lt (s.reqHeader 8)
  have h1 := byte_lt (s.reqHeader (8 + 1))
  have h2 := byte_lt (s.reqHeader (8 + 2))
  have h3 := byte_lt (s.reqHeader (8 + 3))
  omega

/-- how a data request begins -/
theorem dispatch_cases {s : St} (hreq : s.reqType ≠ 1) :
    (2 < s.type ∧ dispatch s = s) ∨
      ∃ area s0, s.type ≤ 2 ∧ (s.type = 1 ↔ area = .runtimenv) ∧ dispatch s = loopHead area (sint32 s.size) s0 ∧
        (Room area s0 s.size ↔ (s.type = 0 → s.offset + s.size ≤ FIXNV_SIZE + 4) ∧
          (s.type = 2 → s.offset + s.size ≤ PRODUCTINFO_SIZE + 8)) ∧
        (area = .runtimenv → s0.runtimeNv1.pos = s.offset ∧ s0.runtimeNv2.pos = s.offset) := by
  unfold dispatch
  rw [if_neg hreq]
  split_ifs with h0 h1 h2
  · refine Or.inr ⟨.fixnv, _, by omega, by simp [h0], rfl, ?_, by simp⟩
    have hroom : Room .fixnv (loadFixnv s) s.size ↔ s.offset + s.size ≤ FIXNV_SIZE + 4 := by
      simp only [Room, loadFixnv]
      omega
    simp [hroom, h0]
  · refine Or.inr ⟨.runtimenv, _, by omega, by simp [h1], rfl, ?_, fun _ => ⟨rfl, rfl⟩⟩
    simp [Room, h1]
  · refine Or.inr ⟨.productinfo, _, by omega, by simp [h2], rfl, ?_, by simp⟩
    have hroom : Room .productinfo (loadProductinfo s) s.size ↔ s.offset + s.size ≤ PRODUCTINFO_SIZE + 8 := by
      simp only [Room, loadProductinfo]
      omega
    simp [hroom, h2]
  · exact Or.inl ⟨by omega, rfl⟩

theorem handle_counts {pipe : ℕ → UInt8} {r : ℕ × St} {cs : List Chunk} : ∀ {pos : ℕ} {s : St},
    handle pipe pos s cs = some r → ∀ c ∈ cs, 1 ≤ c.count := by
  induction cs with
  | nil => exact fun _ c hc => absurd hc List.not_mem_nil
  | cons c cs ih =>
    intro pos s hr
    cases hphase : s.phase with
    | header =>
      rw [handle_header hphase, if_neg (List.cons_ne_nil c cs)] at hr
      cases hr
    | overrun =>
      rw [handle_overrun hphase, if_neg (List.cons_ne_nil c cs)] at hr
      cases hr
    | data area total =>
      obtain ⟨c', rest, hcs, h1, -, hrest⟩ := handle_cons hphase hr
      cases hcs
      exact List.forall_mem_cons.mpr ⟨h1, ih hrest⟩

/-- nothing is lost exactly when no write of a runtime request fails -/
theorem lost_eq_zero_iff {area : Area} {cs : List Chunk} (h : ∀ c ∈ cs, 1 ≤ c.count) :
    lost area cs = 0 ↔ (area = .runtimenv → ∀ c ∈ cs, c.Clean) := by
  rw [lost, List.sum_eq_zero_iff, List.forall_mem_map]
  constructor
  · intro hzero harea c hc
    by_contra hfail
    have hcount := hzero c hc
    rw [if_pos ⟨harea, hfail⟩] at hcount
    have := h c hc
    omega
  · intro hclean c hc
    exact if_neg fun hno => hno.2 (hclean hno.1 c hc)

/-- a request that does not come to its data loop -/
theorem handled_at_once {s : St} {cs : List Chunk} {pipe : ℕ → UInt8} {pos : ℕ} (h : (dispatch s).phase = .header)
    (hdone : (handle pipe pos (dispatch s) cs).isSome = true)
    (hfiles : s.type = 1 → received s (dispatch s).runtimeNv1 = received s (dispatch s).runtimeNv2) :
    cs = [] ∧ (HandledExactly s cs ↔ s.size = 0) := by
  have hnil : cs = [] := by
    rw [handle_header h] at hdone
    split_ifs at hdone with hnil
    · exact hnil
    · cases hdone
  subst hnil
  refine ⟨rfl, fun hexact => ?_, fun hzero pipe' pos' p s' hr => ?_⟩
  · have hr : handle pipe pos (dispatch s) [] = some (pos, dispatch s) := by rw [handle_header h, if_pos rfl]
    have := (hexact pipe pos pos (dispatch s) hr).2.1
    omega
  · rw [handle_header h, if_pos rfl] at hr
    obtain ⟨rfl, rfl⟩ := Prod.mk.inj (Option.some.inj hr)
    exact ⟨h, by omega, hfiles⟩

/-- what the files have got from a runtime request, if none of its writes has failed -/
theorem received_taken {s d : St} {cs : List Chunk} {total : ℤ} {pipe : ℕ → UInt8} {pos : ℕ} {r : ℕ × St}
    (hphase : d.phase = .data .runtimenv total) (h1 : d.runtimeNv1.pos = s.offset) (h2 : d.runtimeNv2.pos = s.offset)
    (hclean : ∀ c ∈ cs, c.Clean) (hr : handle pipe pos d cs = some r) :
    received s r.2.runtimeNv1 = taken Chunk.wRuntime pipe pos cs ∧
      received s r.2.runtimeNv2 = taken Chunk.wBackup pipe pos cs := by
  obtain ⟨hw1, hw2⟩ := handle_writes pipe r cs pos d total hphase hclean hr
  rw [hw1, hw2, received_after h1, received_after h2]
  exact ⟨rfl, rfl⟩

/-- a request with data to come -/
theorem handled_by_loop {s s0 : St} {cs : List Chunk} {area : Area} (hpos : 0 < sint32 s.size)
    (hstart : dispatch s = loopHead area (sint32 s.size) s0) (htype : s.type = 1 ↔ area = .runtimenv)
    (hfiles : area = .runtimenv → s0.runtimeNv1.pos = s.offset ∧ s0.runtimeNv2.pos = s.offset)
    {pipe : ℕ → UInt8} {pos : ℕ} (hdone : (handle pipe pos (dispatch s) cs).isSome = true) :
    HandledExactly s cs ↔ Room area s0 s.size ∧ (s.type = 1 → ∀ c ∈ cs, c.Clean ∧ c.Even) := by
  have hsize : sint32 s.size = s.size := by
    have hlt := size_lt s
    unfold sint32 at hpos ⊢
    split_ifs at hpos ⊢ with h
    · rfl
    · omega
  have hphase : (dispatch s).phase = .data area (sint32 s.size) := by rw [hstart, loopHead_more hpos]
  obtain ⟨hl1, hl2⟩ := loopHead_files area (sint32 s.size) s0
  rw [← hstart] at hl1 hl2
  obtain ⟨r, hr⟩ := Option.isSome_iff_exists.mp hdone
  have hcounts := handle_counts hr
  -- what the files have got, if no write of a runtime request has failed
  have hgot : ∀ pipe pos r, area = .runtimenv → (∀ c ∈ cs, c.Clean) → handle pipe pos (dispatch s) cs = some r →
      received s r.2.runtimeNv1 = taken Chunk.wRuntime pipe pos cs ∧
        received s r.2.runtimeNv2 = taken Chunk.wBackup pipe pos cs := by
    intro pipe pos r harea hclean hr
    obtain ⟨hp1, hp2⟩ := hfiles harea
    rw [harea] at hphase
    exact received_taken hphase (by rw [hl1, hp1]) (by rw [hl2, hp2]) hclean hr
  have hroom : ∀ pipe pos r, handle pipe pos (dispatch s) cs = some r → (r.2.phase = .header ↔ Room area s0 s.size) := by
    intro pipe pos r hr
    rw [handle_ends area pipe r cs pos (dispatch s) (sint32 s.size) hphase hpos hr, hstart, room_loopHead hpos, hsize]
  constructor
  · intro hexact
    obtain ⟨hend, hplace, -⟩ := hexact pipe pos r.1 r.2 hr
    refine ⟨(hroom pipe pos r hr).mp hend, fun htype1 => ?_⟩
    have harea := htype.mp htype1
    have hconsumed := handle_consumes area pipe r hend cs pos (dispatch s) (sint32 s.size) hphase hpos hr
    have hlost : lost area cs = 0 := by omega
    have hclean := (lost_eq_zero_iff hcounts).mp hlost harea
    have heven := (taken_same_iff pos cs).mp fun pipe' => by
      rw [harea] at hphase
      have hsome := handle_any_pipe pipe pipe' cs pos pos _ _ _ hphase hphase hdone
      obtain ⟨r', hr'⟩ := Option.isSome_iff_exists.mp hsome
      obtain ⟨h1, h2⟩ := hgot pipe' pos r' harea hclean hr'
      rw [← h1, ← h2]
      exact (hexact pipe' pos r'.1 r'.2 hr').2.2 htype1
    exact fun c hc => ⟨hclean c hc, heven c hc⟩
  · rintro ⟨hfits, hwhen⟩ pipe' pos' p s' hr'
    have hend := (hroom pipe' pos' (p, s') hr').mpr hfits
    have hclean : area = .runtimenv → ∀ c ∈ cs, c.Clean := fun harea c hc => (hwhen (htype.mpr harea) c hc).1
    have hconsumed := handle_consumes area pipe' (p, s') hend cs pos' (dispatch s) (sint32 s.size) hphase hpos hr'
    have hlost : lost area cs = 0 := (lost_eq_zero_iff hcounts).mpr hclean
    refine ⟨hend, by omega, fun htype1 => ?_⟩
    have harea := htype.mp htype1
    obtain ⟨h1, h2⟩ := hgot pipe' pos' (p, s') harea (hclean harea) hr'
    rw [h1, h2]
    exact (taken_same_iff pos' cs).mpr (fun c hc => (hwhen htype1 c hc).2) pipe'

/-- the passes of a loop with total bytes to go, over what its reads have to offer and its writes return -/
def passes : List Chunk → ℤ → List Chunk
  | [], _ => []
  | c :: cs, total =>
    if 0 < total then
      { c with count := min c.count (asked total) } :: passes cs (total - min c.count (asked total))
    else []

theorem handle_passes {offers : List Chunk} (hoffers : ∀ c ∈ offers, 1 ≤ c.count ∧ c.Clean) (pipe : ℕ → UInt8) :
    ∀ (pos : ℕ) (s : St) (area : Area) (total : ℤ), s.phase = .data area total → 0 < total →
      total ≤ offers.length → ∃ cs, cs <+: passes offers total ∧ (handle pipe pos s cs).isSome = true := by
  induction offers with
  | nil =>
    intro pos s area total _ hpos henough
    exact absurd hpos (not_lt.2 henough)
  | cons c offers ih =>
    intro pos s area total hphase hpos henough
    obtain ⟨⟨hone, hclean⟩, hrest⟩ := List.forall_mem_cons.mp hoffers
    obtain ⟨d, hd⟩ : ∃ d : Chunk, d = { c with count := min c.count (asked total) } := ⟨_, rfl⟩
    have hasked : 1 ≤ asked total := by
      unfold asked DATA_BUF_LEN
      omega
    have h1 : 1 ≤ d.count := by rw [hd]; exact le_min hone hasked
    have h2 : d.count ≤ asked total := by rw [hd]; exact min_le_right _ _
    have hdclean : d.Clean := by rw [hd]; exact hclean
    have hnext : ∀ cs, handle pipe pos s (d :: cs) = handle pipe (pos + d.count) (step s (d.turn pipe pos)) cs := by
      intro cs
      rw [handle, hphase]
      dsimp only
      rw [if_pos ⟨h1, h2⟩]
    have hpasses : passes (c :: offers) total = d :: passes offers (total - d.count) := by
      rw [passes, if_pos hpos, hd]
    rw [hpasses]
    -- the pass is the last one, unless the loop goes on with less to do
    have hlast : (step s (d.turn pipe pos)).phase = .header ∨ (step s (d.turn pipe pos)).phase = .overrun →
        ∃ cs, cs <+: d :: passes offers (total - d.count) ∧ (handle pipe pos s cs).isSome = true := by
      intro hend
      refine ⟨[d], List.prefix_cons_inj d |>.2 List.nil_prefix, ?_⟩
      rw [hnext]
      rcases hend with hend | hend
      · rw [handle_header hend, if_pos rfl]
        rfl
      · rw [handle_overrun hend, if_pos rfl]
        rfl
    rcases chunk_cases pipe pos hphase h1 h2 with ⟨-, hfail, -⟩ | ⟨-, -, s0, hs0, -⟩ | ⟨-, -, hover⟩
    · exact absurd hdclean hfail
    · by_cases hmore : 0 < total - d.count
      · have hloop : (step s (d.turn pipe pos)).phase = .data area (total - d.count) := by rw [hs0, loopHead_more hmore]
        rw [List.length_cons] at henough
        obtain ⟨cs, hpre, hsome⟩ := ih hrest (pos + d.count) _ area _ hloop hmore (by omega)
        exact ⟨d :: cs, (List.prefix_cons_inj d).2 hpre, by rwa [hnext]⟩
      · exact hlast (Or.inl (by rw [hs0, loopHead_done hmore]; exact finish_phase area s0))
    · exact hlast (Or.inr hover)

/-- A request is completed by reads of at least one byte and writes that do not fail, as many as it has bytes at most. -/
theorem completes_of_reads {s : St} (hphase : s.phase = .header) (hreq : s.reqType ≠ 1) {offers : List Chunk}
    (hoffers : ∀ c ∈ offers, 1 ≤ c.count ∧ c.Clean) (henough : s.size ≤ offers.length) :
    ∃ cs, cs <+: passes offers (sint32 s.size) ∧ Completes s cs := by
  have hnone : (dispatch s).phase = .header → ∃ cs, cs <+: passes offers (sint32 s.size) ∧ Completes s cs := by
    intro hheader
    refine ⟨[], List.nil_prefix, fun _ => 0, 0, ?_⟩
    rw [handle_header hheader, if_pos rfl]
    rfl
  rcases dispatch_cases hreq with ⟨-, hstart⟩ | ⟨area, s0, -, -, hstart, -, -⟩
  · exact hnone (by rw [hstart]; exact hphase)
  · by_cases hpos : 0 < sint32 s.size
    · have hloop : (dispatch s).phase = .data area (sint32 s.size) := by rw [hstart, loopHead_more hpos]
      have hle : sint32 s.size ≤ offers.length := by
        unfold sint32
        split_ifs <;> omega
      obtain ⟨cs, hpre, hsome⟩ := handle_passes hoffers (fun _ => 0) 0 (dispatch s) area _ hloop hpos hle
      exact ⟨cs, hpre, fun _ => 0, 0, hsome⟩
    · exact hnone (by rw [hstart, loopHead_done hpos]; exact finish_phase area s0)

/-- **The data phase.** A data request is in s, and the chunks are all passes of its loop. Whatever the pipe brings, the
request takes exactly its size from the pipe before the next header and the two runtime files get the same bytes, exactly
when it has no data, or its type is known, its size is below 2^31, its bytes have room in their buffer, and for the runtime
files no write fails and each two take as much. -/
theorem data_phase_iff (s : St) (cs : List Chunk) (hphase : s.phase = .header) (hreq : s.reqType ≠ 1)
    (hdone : Completes s cs) : HandledExactly s cs ↔ HandledWhen s cs := by
  obtain ⟨pipe, pos, hdone⟩ := hdone
  have hlt := size_lt s
  unfold HandledWhen
  rcases dispatch_cases hreq with ⟨hunknown, hstart⟩ | ⟨area, s0, hknown, htype, hstart, hroom, hfiles⟩
  · -- an unknown type: back to the header at once
    obtain ⟨hnil, hexact⟩ := handled_at_once (by rw [hstart]; exact hphase) hdone (fun h => by omega)
    rw [hexact]
    exact ⟨Or.inl, fun hwhen => hwhen.resolve_right fun hknown => by omega⟩
  · by_cases hpos : 0 < sint32 s.size
    · have hsmall : s.size < 2 ^ 31 ∧ s.size ≠ 0 := by
        unfold sint32 at hpos
        split_ifs at hpos with h <;> omega
      rw [handled_by_loop hpos hstart htype hfiles hdone, hroom]
      constructor
      · exact fun ⟨⟨hfix, hprod⟩, hclean⟩ => Or.inr ⟨hknown, hsmall.1, hfix, hclean, hprod⟩
      · intro hwhen
        obtain ⟨-, -, hfix, hclean, hprod⟩ := hwhen.resolve_left hsmall.2
        exact ⟨⟨hfix, hprod⟩, hclean⟩
    · -- the loop has nothing to do: no data, or a size that is negative as an int
      have hheader : (dispatch s).phase = .header := by
        rw [hstart, loopHead_done hpos]
        exact finish_phase area s0
      obtain ⟨hnil, hexact⟩ := handled_at_once hheader hdone (fun htype1 => by
        obtain ⟨hl1, hl2⟩ := loopHead_files area (sint32 s.size) s0
        obtain ⟨hp1, hp2⟩ := hfiles (htype.mp htype1)
        rw [hstart, hl1, hl2, received, received, hp1, hp2, Nat.sub_self]
        rfl)
      have hneg : s.size < 2 ^ 31 → s.size = 0 := by
        unfold sint32 at hpos
        split_ifs at hpos with h <;> omega
      rw [hexact]
      exact ⟨Or.inl, fun hwhen => hwhen.elim id fun hdata => hneg hdata.2.1⟩

/-- a request for two bytes of the runtime files -/
def runtimeRequest : St := { blank with reqHeader := store (fun _ => 0) 0 [1, 0, 0, 0, 0, 0, 0, 0, 2, 0, 0, 0] }

/-- its bytes in two passes -/
theorem data_phase_iff_runtime :
    HandledExactly runtimeRequest [⟨1, 1, 1⟩, ⟨1, 1, 1⟩] ↔ HandledWhen runtimeRequest [⟨1, 1, 1⟩, ⟨1, 1, 1⟩] :=
  data_phase_iff runtimeRequest [⟨1, 1, 1⟩, ⟨1, 1, 1⟩] rfl (by decide) ⟨fun _ => 0, 0, by decide⟩

/-- The two bytes are read, and the first write fails; the next two are read in their place. -/
theorem failed_write_reads_on : ¬ ∀ (s : St) (cs : List Chunk), s.phase = .header → s.reqType ≠ 1 → Completes s cs →
    HandledExactly s cs := by
  intro hall
  have hdone : Completes runtimeRequest [⟨2, -1, 0⟩, ⟨2, 2, 2⟩] := ⟨fun _ => 0, 0, by decide⟩
  have hexact := hall runtimeRequest [⟨2, -1, 0⟩, ⟨2, 2, 2⟩] rfl (by decide) hdone
  have hplace : (handle (fun _ => 0) 0 (dispatch runtimeRequest) [⟨2, -1, 0⟩, ⟨2, 2, 2⟩]).map Prod.fst = some 4 := by decide
  obtain ⟨⟨p, s'⟩, hr, hp⟩ := Option.map_eq_some_iff.mp hplace
  have hsize : runtimeRequest.size = 2 := by decide
  have := (hexact (fun _ => 0) 0 p s' hr).2.1
  dsimp only at hp
  omega

end SprdDevice.NvmDaemon
