/-
The lines of the modem: `eng_readline` with `findNextEOL` and `s_ATBuffer` in `eng_modemclient.c`.

- `buf` is a memory, `s_ATBuffer` its first 2048 cells. `wrote` has the offset and the length of each write, `reads` the
  bytes asked for and returned by each `read`;
- a call is given the sizes its reads deliver; behind the last one `read` would block. A size of 0 is a `read` that
  returns 0, and `EINTR` changes nothing;
- the string at the cursor ends at cell 2048 at the latest.

A read that returns as many bytes as it was asked for puts the terminator behind the buffer, and the next turn throws
the bytes away.

Results: `readLoop_holds`, `engReadline_holds` and `readline_iff`.
-/
import Mathlib.Tactic
import Mathlib.Data.UInt
import SprdDevice.Lib.Text
import SprdDevice.EngService.Request

namespace SprdDevice.EngService

open SprdDevice.Memory SprdDevice.Text

/-! ## Model -/

/-- `s_ATBuffer` with its cursor, and the modem: what it has delivered and what is still to come -/
structure AtBuffer where
  buf : ℕ → UInt8
  cur : ℕ
  delivered : List UInt8
  rest : List UInt8
  reads : List (ℕ × ℕ)
  wrote : List (ℕ × ℕ)

def isEol (b : UInt8) : Bool := b = 13 ∨ b = 10

/-- the string at p -/
def atStr (m : ℕ → UInt8) (p : ℕ) : List UInt8 := cstr m (engBufLen + 1) p

/-- skip over leading newlines -/
def skipEol (m : ℕ → UInt8) (p : ℕ) : ℕ := p + ((atStr m p).takeWhile isEol).length

def findNextEOL (m : ℕ → UInt8) (cur : ℕ) : Option ℕ :=
  -- the SMS prompt
  if atStr m cur = [62, 32] then some (cur + 2)
  else
    let k := ((atStr m cur).takeWhile fun b => !isEol b).length
    if k = (atStr m cur).length then none else some (cur + k)

/-- ditch the buffer when it is full -/
def ditch (s : AtBuffer) (pRead : ℕ) : AtBuffer × ℕ :=
  if engBufLen - pRead = 0 then
    ({ s with buf := Function.update s.buf 0 0, cur := 0, wrote := s.wrote ++ [(0, 1)] }, 0)
  else (s, pRead)

/-- a terminator over the end of the line -/
def takeLine (s : AtBuffer) (eol : ℕ) : Option (List UInt8) × AtBuffer :=
  let buf := Function.update s.buf eol 0
  (some (atStr buf s.cur), { s with buf := buf, cur := eol + 1, wrote := s.wrote ++ [(eol, 1)] })

/-- the bytes of one read, with the terminator, and the cursor over the newlines -/
def takeChunk (s : AtBuffer) (pRead : ℕ) (chunk : List UInt8) : AtBuffer :=
  let buf := store s.buf pRead (chunk ++ [0])
  { buf := buf
    cur := skipEol buf s.cur
    delivered := s.delivered ++ chunk
    rest := s.rest.drop chunk.length
    reads := s.reads ++ [(engBufLen - pRead, chunk.length)]
    wrote := s.wrote ++ [(pRead, chunk.length), (pRead + chunk.length, 1)] }

/-- `while (p_eol == NULL)` -/
def readLoop (s : AtBuffer) (pRead : ℕ) : List ℕ → Option (List UInt8) × AtBuffer
  | [] => (none, (ditch s pRead).1)
  | n :: ns =>
    let (s, pRead) := ditch s pRead
    let chunk := s.rest.take (min n (engBufLen - pRead))
    if chunk = [] then (none, s)
    else
      let s := takeChunk s pRead chunk
      match findNextEOL s.buf s.cur with
      | some eol => takeLine s eol
      | none => readLoop s (pRead + chunk.length) ns

def engReadline (s : AtBuffer) (ns : List ℕ) : Option (List UInt8) × AtBuffer :=
  if s.buf s.cur = 0 then
    readLoop { s with buf := Function.update s.buf 0 0, cur := 0, wrote := s.wrote ++ [(0, 1)] } 0 ns
  else
    let cur := skipEol s.buf s.cur
    match findNextEOL s.buf cur with
    | some eol => takeLine { s with cur := cur } eol
    | none =>
      let len := (atStr s.buf cur).length
      readLoop { s with
        buf := copy s.buf (fun i => s.buf (cur + i)) (len + 1), cur := 0, wrote := s.wrote ++ [(0, len + 1)] } len ns

/-- the calls so far: the lines they returned, and what the last one did -/
structure Session where
  s : AtBuffer
  results : List (List UInt8)
  last : Option (List UInt8)

def call (t : Session) (ns : List ℕ) : Session where
  s := (engReadline t.s ns).2
  results := t.results ++ (engReadline t.s ns).1.toList
  last := (engReadline t.s ns).1

/-- the calls on a stream, each with the sizes of its reads -/
def session (stream : List UInt8) (calls : List (List ℕ)) : Session :=
  calls.foldl call
    { s := { buf := fun _ => 0, cur := 0, delivered := [], rest := stream, reads := [], wrote := [] }
      results := []
      last := none }

/-! ## Statement -/

/-- no NUL, and no line starts with the prompt -/
structure Clean (stream : List UInt8) : Prop where
  nul : 0 ∉ stream
  prompt : ∀ a b, stream = a ++ [62, 32] ++ b → ¬ Ended isEol a

/-- every line with its line ends, and the newlines before the first line, is shorter than 2000 bytes -/
def ShortLines (stream : List UInt8) : Prop :=
  ∀ a l e b, stream = a ++ (l ++ (e ++ b)) → (∀ x ∈ l, isEol x = false) → (∀ x ∈ e, isEol x = true) →
    (l ++ e).length < 2000

/-- the lines come in order and none twice, none that has been delivered is held back, and no write leaves the buffer -/
structure Faithful (stream : List UInt8) (t : Session) : Prop where
  inOrder : t.results <+: lines isEol stream
  complete : t.last = none → t.results = lines isEol t.s.delivered
  delivered : t.s.delivered ++ t.s.rest = stream
  inside : ∀ w ∈ t.s.wrote, w.1 + w.2 ≤ engBufLen

/-! ## Every read leaves its terminator -/

/-- the write behind each read -/
def Logged (s : AtBuffer) : Prop := ∀ r ∈ s.reads, ∃ w ∈ s.wrote, engBufLen + r.2 + 1 ≤ w.1 + w.2 + r.1

theorem Logged.grow {s : AtBuffer} (h : Logged s) (t : AtBuffer) (hreads : t.reads = s.reads) (hwrote : s.wrote ⊆ t.wrote) :
    Logged t := by
  intro r hr
  rw [hreads] at hr
  obtain ⟨w, hw, hle⟩ := h r hr
  exact ⟨w, hwrote hw, hle⟩

theorem Logged.ditch {s : AtBuffer} (h : Logged s) (p : ℕ) : Logged (ditch s p).1 := by
  unfold EngService.ditch
  split_ifs
  · exact h.grow _ rfl (List.subset_append_left _ _)
  · exact h

theorem Logged.takeLine {s : AtBuffer} (h : Logged s) (eol : ℕ) : Logged (takeLine s eol).2 :=
  h.grow _ rfl (List.subset_append_left _ _)

theorem Logged.takeChunk {s : AtBuffer} (h : Logged s) (p : ℕ) (chunk : List UInt8) : Logged (takeChunk s p chunk) := by
  intro r hr
  rcases List.mem_append.1 hr with hr | hr
  · obtain ⟨w, hw, hle⟩ := h r hr
    exact ⟨w, List.mem_append_left _ hw, hle⟩
  · rw [List.mem_singleton.1 hr]
    refine ⟨(p + chunk.length, 1), List.mem_append_right _ (by simp), ?_⟩
    dsimp only
    omega

theorem readLoop_logged {s : AtBuffer} (h : Logged s) (p : ℕ) (ns : List ℕ) : Logged (readLoop s p ns).2 := by
  induction ns generalizing s p with
  | nil => exact h.ditch p
  | cons n ns ih =>
    have hd := h.ditch p
    rw [readLoop]
    dsimp only
    split_ifs
    · exact hd
    · have hc := hd.takeChunk (ditch s p).2 ((ditch s p).1.rest.take (min n (engBufLen - (ditch s p).2)))
      split
      · exact hc.takeLine _
      · exact ih hc _

theorem engReadline_logged {s : AtBuffer} (h : Logged s) (ns : List ℕ) : Logged (engReadline s ns).2 := by
  unfold engReadline
  split_ifs
  · refine readLoop_logged ?_ _ _
    exact h.grow _ rfl (List.subset_append_left _ _)
  · dsimp only
    split
    · exact Logged.takeLine h _
    · refine readLoop_logged ?_ _ _
      exact h.grow _ rfl (List.subset_append_left _ _)

theorem session_logged (stream : List UInt8) (calls : List (List ℕ)) : Logged (session stream calls).s := by
  unfold session
  induction calls using List.reverseRecOn with
  | nil =>
    intro r hr
    exact absurd hr List.not_mem_nil
  | append_singleton calls ns ih =>
    rw [List.foldl_append]
    exact engReadline_logged ih ns

theorem readLoop_reads (s : AtBuffer) (p : ℕ) (ns : List ℕ) : s.reads ⊆ (readLoop s p ns).2.reads := by
  have hditch : ∀ (s : AtBuffer) (p : ℕ), (ditch s p).1.reads = s.reads := fun s p => by
    unfold ditch
    split_ifs <;> rfl
  induction ns generalizing s p with
  | nil => rw [readLoop, hditch]; exact List.Subset.refl _
  | cons n ns ih =>
    rw [readLoop]
    dsimp only
    split_ifs
    · rw [hditch]; exact List.Subset.refl _
    · have hgrow : s.reads ⊆ (takeChunk (ditch s p).1 (ditch s p).2
          ((ditch s p).1.rest.take (min n (engBufLen - (ditch s p).2)))).reads := by
        rw [takeChunk, hditch]
        exact List.subset_append_left _ _
      split
      · exact hgrow
      · exact fun r hr => ih _ _ (hgrow hr)

/-! ## What is behind the cursor -/

/-- `done` is over and its lines are returned, `pending` lies at the cursor -/
structure Keeps (stream : List UInt8) (s : AtBuffer) (results : List (List UInt8)) (done pending : List UInt8) :
    Prop where
  delivered : s.delivered = done ++ pending
  stream : s.delivered ++ s.rest = stream
  ended : Ended isEol done
  lines : lines isEol done = results
  str : IsStr s.buf s.cur pending
  room : s.cur + pending.length < engBufLen
  inside : ∀ w ∈ s.wrote, w.1 + w.2 ≤ engBufLen

/-- no newline yet -/
def Open (t : List UInt8) : Prop := ∀ b ∈ t, isEol b = false

section Keeps

variable {stream done pending : List UInt8} {s : AtBuffer} {results : List (List UInt8)}

theorem Keeps.atStr_eq (h : Keeps stream s results done pending) : atStr s.buf s.cur = pending :=
  h.str.cstr_eq (Nat.lt_succ_of_lt h.room)

theorem takeWhile_isEol (t : List UInt8) : ∀ b ∈ t.takeWhile isEol, isEol b = true := fun _ hb =>
  List.mem_takeWhile_imp hb

/-- the cursor has gone over the newlines -/
theorem Keeps.skip_room (h : Keeps stream s results done pending) :
    skipEol s.buf s.cur + (pending.dropWhile isEol).length = s.cur + pending.length := by
  have hsz := congrArg List.length (List.takeWhile_append_dropWhile (p := isEol) (l := pending))
  rw [List.length_append] at hsz
  rw [skipEol, h.atStr_eq]
  omega

/-- the cursor goes over the newlines -/
theorem Keeps.skip (h : Keeps stream s results done pending) :
    Keeps stream { s with cur := skipEol s.buf s.cur } results (done ++ pending.takeWhile isEol)
      (pending.dropWhile isEol) where
  delivered := by rw [List.append_assoc, List.takeWhile_append_dropWhile]; exact h.delivered
  stream := h.stream
  ended := ended_append h.ended (ended_of_all (takeWhile_isEol pending))
  lines := by rw [lines_append h.ended, lines_seps (takeWhile_isEol pending), List.append_nil, h.lines]
  str := by
    have hstr := h.str
    rw [← List.takeWhile_append_dropWhile (p := isEol) (l := pending)] at hstr
    dsimp only
    rw [skipEol, h.atStr_eq]
    exact hstr.drop
  room := by
    dsimp only
    rw [h.skip_room]
    exact h.room
  inside := h.inside

/-- what lies at the cursor is never the prompt -/
theorem Keeps.not_prompt (h : Keeps stream s results done pending) (hclean : Clean stream) : pending ≠ [62, 32] := by
  rintro rfl
  refine hclean.prompt done s.rest ?_ h.ended
  rw [← h.stream, h.delivered]

theorem head_dropWhile {p : UInt8 → Bool} {t u : List UInt8} {b : UInt8} (h : t.dropWhile p = b :: u) : p b = false := by
  have hne : t.dropWhile p ≠ [] := by
    rw [h]
    exact List.cons_ne_nil b u
  have hhead := List.head_dropWhile_not p hne
  simpa [h] using hhead

/-- the end of the line is found, or there is none -/
theorem findNextEOL_spec {m : ℕ → UInt8} {p : ℕ} {t : List UInt8} (hstr : atStr m p = t) (hprompt : t ≠ [62, 32]) :
    (∃ l x r, t = l ++ x :: r ∧ Open l ∧ isEol x = true ∧ findNextEOL m p = some (p + l.length)) ∨
      Open t ∧ findNextEOL m p = none := by
  have hopen : Open (t.takeWhile fun b => !isEol b) := fun b hb => by
    have hmem := List.mem_takeWhile_imp hb
    simpa using hmem
  have hwhole := List.takeWhile_append_dropWhile (p := fun b => !isEol b) (l := t)
  unfold findNextEOL
  rw [hstr, if_neg hprompt]
  dsimp only
  cases hdrop : t.dropWhile fun b => !isEol b with
  | nil =>
    rw [hdrop, List.append_nil] at hwhole
    refine Or.inr ⟨by rwa [hwhole] at hopen, ?_⟩
    rw [hwhole, if_pos rfl]
  | cons x r =>
    rw [hdrop] at hwhole
    have hlen := congrArg List.length hwhole
    rw [List.length_append, List.length_cons] at hlen
    refine Or.inl ⟨_, x, r, hwhole.symm, hopen, ?_, ?_⟩
    · simpa using head_dropWhile hdrop
    · rw [if_neg (by omega)]

/-- a line is taken -/
theorem Keeps.takeLine {l r : List UInt8} {x : UInt8} (h : Keeps stream s results done (l ++ x :: r)) (hne : l ≠ [])
    (hopen : Open l) (hx : isEol x = true) :
    (takeLine s (s.cur + l.length)).1 = some l ∧
      Keeps stream (takeLine s (s.cur + l.length)).2 (results ++ [l]) (done ++ (l ++ [x])) r := by
  have hroom := h.room
  rw [List.length_append, List.length_cons] at hroom
  obtain ⟨hline, hrest⟩ := h.str.cut
  refine ⟨congrArg some (hline.cstr_eq (by omega)), ?_⟩
  constructor
  case delivered =>
    change s.delivered = _
    rw [h.delivered]
    simp
  case stream => exact h.stream
  case ended => exact ended_append h.ended (Or.inr ⟨l, x, rfl, hx⟩)
  case lines => rw [lines_append h.ended, lines_piece hne hopen hx, h.lines]
  case str => exact hrest
  case room =>
    change s.cur + l.length + 1 + r.length < engBufLen
    omega
  case inside =>
    intro w hw
    rcases List.mem_append.1 hw with hw | hw
    · exact h.inside w hw
    · rw [List.mem_singleton.1 hw]
      dsimp only
      omega

/-- a read that leaves room for its terminator -/
theorem Keeps.takeChunk (h : Keeps stream s results done pending) {chunk : List UInt8} (hchunk : chunk <+: s.rest)
    (hnul : 0 ∉ stream) (hroom : s.cur + pending.length + chunk.length < engBufLen) :
    Keeps stream (takeChunk s (s.cur + pending.length) chunk) results
        (done ++ (pending ++ chunk).takeWhile isEol) ((pending ++ chunk).dropWhile isEol) ∧
      (takeChunk s (s.cur + pending.length) chunk).cur + ((pending ++ chunk).dropWhile isEol).length =
        s.cur + pending.length + chunk.length := by
  obtain ⟨t, ht⟩ := hchunk
  have hdrop : s.rest.drop chunk.length = t := by rw [← ht, List.drop_left]
  have hmem : 0 ∉ chunk := fun h0 => hnul (by
    rw [← h.stream, ← ht]
    exact List.mem_append_right _ (List.mem_append_left _ h0))
  have hnext : Keeps stream { EngService.takeChunk s (s.cur + pending.length) chunk with cur := s.cur } results done
      (pending ++ chunk) := by
    constructor
    case delivered =>
      change s.delivered ++ chunk = _
      rw [h.delivered, List.append_assoc]
    case stream =>
      change s.delivered ++ chunk ++ s.rest.drop chunk.length = stream
      rw [hdrop, List.append_assoc, ht, h.stream]
    case ended => exact h.ended
    case lines => exact h.lines
    case str => exact h.str.append hmem
    case room =>
      rw [List.length_append]
      change s.cur + (pending.length + chunk.length) < engBufLen
      omega
    case inside =>
      intro w hw
      rcases List.mem_append.1 hw with hw | hw
      · exact h.inside w hw
      · rcases List.mem_cons.1 hw with rfl | hw
        · exact hroom.le
        · rw [List.mem_singleton.1 hw]
          exact hroom
  refine ⟨hnext.skip, hnext.skip_room.trans ?_⟩
  rw [List.length_append, Nat.add_assoc]

/-- the bytes at the cursor are moved up -/
theorem Keeps.move (h : Keeps stream s results done pending) :
    Keeps stream { s with
      buf := copy s.buf (fun i => s.buf (s.cur + i)) (pending.length + 1), cur := 0
      wrote := s.wrote ++ [(0, pending.length + 1)] } results done pending where
  delivered := h.delivered
  stream := h.stream
  ended := h.ended
  lines := h.lines
  str := h.str.move
  room := by
    have hroom := h.room
    dsimp only
    omega
  inside w hw := by
    have hroom := h.room
    rcases List.mem_append.1 hw with hw | hw
    · exact h.inside w hw
    · rw [List.mem_singleton.1 hw]
      dsimp only
      omega

/-- an empty buffer starts again -/
theorem Keeps.restart (h : Keeps stream s results done []) :
    Keeps stream { s with buf := Function.update s.buf 0 0, cur := 0, wrote := s.wrote ++ [(0, 1)] } results done []
    where
  delivered := h.delivered
  stream := h.stream
  ended := h.ended
  lines := h.lines
  str := isStr_nil (by
    dsimp only
    rw [Function.update_self])
  room := by
    change 0 < engBufLen
    decide
  inside w hw := by
    rcases List.mem_append.1 hw with hw | hw
    · exact h.inside w hw
    · rw [List.mem_singleton.1 hw]
      decide

/-- what a call leaves: one line more, or no line at the cursor -/
def Turned (stream : List UInt8) (results : List (List UInt8)) (out : Option (List UInt8) × AtBuffer) : Prop :=
  ∃ done pending, Keeps stream out.2 (results ++ out.1.toList) done pending ∧ (out.1 = none → Open pending)

theorem turned_none (h : Keeps stream s results done pending) (hopen : Open pending) :
    Turned stream results (none, s) := by
  refine ⟨done, pending, ?_, fun _ => hopen⟩
  rw [Option.toList_none, List.append_nil]
  exact h

theorem turned_line (h : Keeps stream s results done pending)
    (hfirst : ∀ b t, pending = b :: t → isEol b = false) {l r : List UInt8} {x : UInt8} (hsplit : pending = l ++ x :: r)
    (hopen : Open l) (hx : isEol x = true) : Turned stream results (takeLine s (s.cur + l.length)) := by
  subst hsplit
  have hne : l ≠ [] := by
    rintro rfl
    exact absurd hx (by rw [hfirst x r rfl]; decide)
  obtain ⟨hline, hkeeps⟩ := h.takeLine hne hopen hx
  refine ⟨done ++ (l ++ [x]), r, ?_, fun hnone => ?_⟩
  · rw [hline]
    exact hkeeps
  · rw [hline] at hnone
    exact absurd hnone (Option.some_ne_none l)

/-- behind the newlines the string at the cursor has a line, or is the beginning of one -/
theorem turned_find (hclean : Clean stream) (h : Keeps stream s results done (pending.dropWhile isEol)) :
    (∃ eol, findNextEOL s.buf s.cur = some eol ∧ Turned stream results (takeLine s eol)) ∨
      findNextEOL s.buf s.cur = none ∧ Open (pending.dropWhile isEol) := by
  rcases findNextEOL_spec h.atStr_eq (h.not_prompt hclean) with ⟨l, x, r, hsplit, hopen, hx, hfind⟩ | ⟨hopen, hfind⟩
  · exact Or.inl ⟨_, hfind, turned_line h (fun _ _ => head_dropWhile) hsplit hopen hx⟩
  · exact Or.inr ⟨hfind, hopen⟩

theorem ditch_of_room {p : ℕ} (h : p < engBufLen) : ditch s p = (s, p) := if_neg (by omega)

theorem readLoop_keeps (hclean : Clean stream) (ns : List ℕ) (h : Keeps stream s results done pending)
    (hopen : Open pending)
    (hreads : ∀ r ∈ (readLoop s (s.cur + pending.length) ns).2.reads, r.2 < r.1) :
    Turned stream results (readLoop s (s.cur + pending.length) ns) := by
  induction ns generalizing s done pending with
  | nil =>
    rw [readLoop, ditch_of_room h.room]
    exact turned_none h hopen
  | cons n ns ih =>
    rw [readLoop, ditch_of_room h.room] at hreads ⊢
    dsimp only at hreads ⊢
    by_cases hchunk : s.rest.take (min n (engBufLen - (s.cur + pending.length))) = []
    · rw [if_pos hchunk]
      exact turned_none h hopen
    · rw [if_neg hchunk] at hreads ⊢
      generalize hc : s.rest.take (min n (engBufLen - (s.cur + pending.length))) = chunk at hreads ⊢
      have hprefix : chunk <+: s.rest := hc ▸ List.take_prefix _ _
      have hread : (engBufLen - (s.cur + pending.length), chunk.length) ∈
          (takeChunk s (s.cur + pending.length) chunk).reads := List.mem_append_right _ (List.mem_singleton_self _)
      have hlt : chunk.length < engBufLen - (s.cur + pending.length) →
          s.cur + pending.length + chunk.length < engBufLen := fun hlt => by omega
      cases hfind : findNextEOL (takeChunk s (s.cur + pending.length) chunk).buf
          (takeChunk s (s.cur + pending.length) chunk).cur with
      | some eol =>
        rw [hfind] at hreads
        dsimp only at hreads ⊢
        obtain ⟨hk, -⟩ := h.takeChunk hprefix hclean.nul (hlt (hreads _ hread))
        rcases turned_find hclean hk with ⟨eol', hfind', hturned⟩ | ⟨hnone, -⟩
        · rw [hfind] at hfind'
          rwa [Option.some.inj hfind']
        · rw [hfind] at hnone
          exact absurd hnone (Option.some_ne_none eol)
      | none =>
        rw [hfind] at hreads
        dsimp only at hreads ⊢
        obtain ⟨hk, hcur⟩ := h.takeChunk hprefix hclean.nul (hlt (hreads _ (readLoop_reads _ _ _ hread)))
        rcases turned_find hclean hk with ⟨eol', hfind', -⟩ | ⟨-, hopen'⟩
        · rw [hfind] at hfind'
          exact absurd hfind'.symm (Option.some_ne_none eol')
        · rw [← hcur] at hreads ⊢
          exact ih hk hopen' hreads

theorem engReadline_keeps (hclean : Clean stream) (ns : List ℕ) (h : Keeps stream s results done pending)
    (hreads : ∀ r ∈ (engReadline s ns).2.reads, r.2 < r.1) : Turned stream results (engReadline s ns) := by
  have hnil : Open [] := fun b hb => absurd hb List.not_mem_nil
  unfold engReadline at hreads ⊢
  by_cases h0 : s.buf s.cur = 0
  · obtain rfl : pending = [] := h.str.head_eq_zero_iff.1 h0
    rw [if_pos h0] at hreads ⊢
    exact readLoop_keeps hclean ns h.restart hnil hreads
  · rw [if_neg h0] at hreads ⊢
    dsimp only at hreads ⊢
    rcases turned_find hclean h.skip with ⟨eol, hfind, hturned⟩ | ⟨hfind, hopen⟩
    · dsimp only at hfind
      rw [hfind]
      exact hturned
    · have hstr := h.skip.atStr_eq
      have hmove := readLoop_keeps hclean ns h.skip.move hopen
      dsimp only at hfind hstr hmove
      rw [Nat.zero_add] at hmove
      rw [hfind, hstr] at hreads ⊢
      exact hmove hreads

theorem engReadline_reads (s : AtBuffer) (ns : List ℕ) : s.reads ⊆ (engReadline s ns).2.reads := by
  unfold engReadline
  split_ifs
  · exact fun r hr => readLoop_reads _ _ _ hr
  · dsimp only
    split
    · exact List.Subset.refl _
    · exact fun r hr => readLoop_reads _ _ _ hr

end Keeps

/-! ## Sessions -/

theorem session_snoc (stream : List UInt8) (calls : List (List ℕ)) (ns : List ℕ) :
    session stream (calls ++ [ns]) = call (session stream calls) ns := by
  rw [session, List.foldl_append]
  rfl

theorem session_keeps {stream : List UInt8} (hclean : Clean stream) (calls : List (List ℕ))
    (hreads : ∀ r ∈ (session stream calls).s.reads, r.2 < r.1) :
    ∃ done pending, Keeps stream (session stream calls).s (session stream calls).results done pending ∧
      ((session stream calls).last = none → Open pending) := by
  induction calls using List.reverseRecOn with
  | nil =>
    refine ⟨[], [], ?_, fun _ b hb => absurd hb List.not_mem_nil⟩
    exact ⟨rfl, rfl, Or.inl rfl, lines_nil, isStr_nil rfl, by change 0 < engBufLen; decide,
      fun w hw => absurd hw List.not_mem_nil⟩
  | append_singleton calls ns ih =>
    rw [session_snoc] at hreads ⊢
    obtain ⟨done, pending, hkeeps, -⟩ := ih fun r hr => hreads r (engReadline_reads _ ns hr)
    exact engReadline_keeps hclean ns hkeeps hreads

theorem faithful_of_short {stream : List UInt8} (hclean : Clean stream) (calls : List (List ℕ))
    (hreads : ∀ r ∈ (session stream calls).s.reads, r.2 < r.1) : Faithful stream (session stream calls) := by
  obtain ⟨done, pending, h, hopen⟩ := session_keeps hclean calls hreads
  constructor
  case inOrder =>
    have hlines : lines isEol stream =
        (session stream calls).results ++ lines isEol (pending ++ (session stream calls).s.rest) := by
      conv_lhs => rw [← h.stream, h.delivered, List.append_assoc, lines_append h.ended, h.lines]
    rw [hlines]
    exact List.prefix_append _ _
  case complete =>
    intro hlast
    rw [h.delivered, lines_append h.ended, lines_open (hopen hlast), List.append_nil, h.lines]
  case delivered => exact h.stream
  case inside => exact h.inside

/-- with all its writes inside, the terminator of every read had room -/
theorem short_of_faithful {stream : List UInt8} {calls : List (List ℕ)} (h : Faithful stream (session stream calls)) :
    ∀ r ∈ (session stream calls).s.reads, r.2 < r.1 := by
  intro r hr
  obtain ⟨w, hw, hle⟩ := session_logged stream calls r hr
  have hinside := h.inside w hw
  omega

/-- **The lines of the modem.** Whatever the sizes of the reads, the lines come through and every write is inside the
buffer, just when no read returns all the bytes it was asked for -/
theorem readline_iff (stream : List UInt8) (hclean : Clean stream) (calls : List (List ℕ)) :
    Faithful stream (session stream calls) ↔ ∀ r ∈ (session stream calls).s.reads, r.2 < r.1 :=
  ⟨short_of_faithful, faithful_of_short hclean calls⟩

/-- `OK` -/
def okLine : List UInt8 := [79, 75, 13, 10]

theorem readline_iff_okLine : Faithful okLine (session okLine [[3], [1]]) ↔
    ∀ r ∈ (session okLine [[3], [1]]).s.reads, r.2 < r.1 := by
  refine readline_iff okLine ⟨by decide, fun a b h => ?_⟩ [[3], [1]]
  have hmem : (62 : UInt8) ∈ okLine := by
    rw [h]
    simp
  exact absurd hmem (by decide)

/-- lines of one byte -/
def pairs (n : ℕ) : List UInt8 := (List.replicate n [65, 10]).flatten

theorem pairs_succ (n : ℕ) : pairs (n + 1) = 65 :: 10 :: pairs n := rfl

theorem length_pairs (n : ℕ) : (pairs n).length = 2 * n := by
  induction n with
  | zero => rfl
  | succ n ih =>
    rw [pairs_succ, List.length_cons, List.length_cons, ih]
    ring

theorem mem_pairs {n : ℕ} {b : UInt8} (h : b ∈ pairs n) : b = 65 ∨ b = 10 := by
  induction n with
  | zero => exact absurd h List.not_mem_nil
  | succ n ih =>
    rw [pairs_succ, List.mem_cons, List.mem_cons] at h
    rcases h with h | h | h
    · exact Or.inl h
    · exact Or.inr h
    · exact ih h

theorem pairs_clean (n : ℕ) : Clean (pairs n) where
  nul h := by
    rcases mem_pairs h with h | h
    · exact absurd h (by decide)
    · exact absurd h (by decide)
  prompt a b h := by
    have hmem : (62 : UInt8) ∈ pairs n := by
      rw [h]
      simp
    rcases mem_pairs hmem with h | h
    · exact absurd h (by decide)
    · exact absurd h (by decide)

/-- no two bytes in a row are newlines, and none are not -/
theorem pairs_change {n : ℕ} {a t : List UInt8} {x y : UInt8} (h : pairs n = a ++ x :: y :: t) : isEol x ≠ isEol y := by
  induction n generalizing a with
  | zero =>
    have hlen := congrArg List.length h
    rw [List.length_append] at hlen
    simp [pairs] at hlen
  | succ n ih =>
    rw [pairs_succ] at h
    cases a with
    | nil =>
      rw [List.nil_append, List.cons.injEq, List.cons.injEq] at h
      obtain ⟨rfl, rfl, -⟩ := h
      decide
    | cons c a =>
      rw [List.cons_append, List.cons.injEq] at h
      obtain ⟨-, h⟩ := h
      cases a with
      | nil =>
        rw [List.nil_append, List.cons.injEq] at h
        obtain ⟨rfl, h⟩ := h
        cases n with
        | zero => exact absurd h (by simp [pairs])
        | succ n =>
          rw [pairs_succ, List.cons.injEq] at h
          obtain ⟨rfl, -⟩ := h
          decide
      | cons d a =>
        rw [List.cons_append, List.cons.injEq] at h
        exact ih h.2

theorem pairs_short (n : ℕ) : ShortLines (pairs n) := by
  intro a l e b h hl he
  have hone : l.length ≤ 1 := by
    rcases l with _ | ⟨x, _ | ⟨y, l⟩⟩
    · simp
    · simp
    · refine absurd ?_ (pairs_change h)
      rw [hl x (by simp), hl y (by simp)]
  have hend : e.length ≤ 1 := by
    rw [← List.append_assoc] at h
    rcases e with _ | ⟨x, _ | ⟨y, e⟩⟩
    · simp
    · simp
    · refine absurd ?_ (pairs_change h)
      rw [he x (by simp), he y (by simp)]
  rw [List.length_append]
  omega

/-- what a first read returns is logged -/
theorem first_read {stream : List UInt8} {n : ℕ} (hne : stream ≠ []) (h : stream.length = n) (hn : n ≤ engBufLen) :
    (engBufLen, n) ∈ (session stream [[n]]).s.reads := by
  have htake : stream.take (min n (engBufLen - 0)) = stream := by
    rw [Nat.sub_zero, min_eq_left hn, ← h, List.take_length]
  have hsession : session stream [[n]] = call (session stream []) [n] := session_snoc stream [] [n]
  have hcall : (call (session stream []) [n]).s = (engReadline (session stream []).s [n]).2 := rfl
  have hzero : (session stream []).s.buf (session stream []).s.cur = 0 := rfl
  have hrest : (session stream []).s.rest = stream := rfl
  rw [hsession, hcall, engReadline, if_pos hzero, readLoop, ditch_of_room (by decide)]
  dsimp only
  rw [hrest, htake, if_neg hne]
  have hread : ∀ s : AtBuffer, (engBufLen, n) ∈ (takeChunk s 0 stream).reads := fun s => by
    rw [takeChunk, h, Nat.sub_zero]
    exact List.mem_append_right _ (List.mem_singleton_self _)
  split
  · exact hread _
  · exact readLoop_reads _ _ _ (hread _)

/-- 1024 lines of one byte in one read -/
theorem readline_broken : ¬ ∀ stream, Clean stream → ShortLines stream → ∀ calls,
    Faithful stream (session stream calls) := by
  intro h
  have hfaithful := h (pairs 1024) (pairs_clean 1024) (pairs_short 1024) [[2 * 1024]]
  have hne : pairs 1024 ≠ [] := by rw [pairs_succ]; exact List.cons_ne_nil _ _
  have hread := first_read hne (length_pairs 1024) le_rfl
  have hlt := short_of_faithful hfaithful (engBufLen, 2 * 1024) hread
  exact lt_irrefl engBufLen hlt

end SprdDevice.EngService
