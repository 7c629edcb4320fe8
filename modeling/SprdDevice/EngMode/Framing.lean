/-
What the collector makes of a stream of frames, whatever blocks it comes in.

The collector takes one frame out of a block and drops the rest. Two flags are spent on each frame it hands over, and a
stream of n frames has 2n of them, so a single lost flag costs a frame: `opened` is the flag a collector has spent on a
frame it has not handed over yet, and `takeTurn_flags` is the account of one turn.

Results: `delivered_flags` (at most one frame for two flags) and `framing_iff` (the frames handed over are the frames of
the stream exactly when each fits the buffer and ends a block).
-/
import Mathlib.Tactic
import SprdDevice.EngMode.Collector

namespace SprdDevice.EngMode

open SprdDevice.Memory SprdDevice.Trace

/-! ## The account of flags -/

/-- the number of flags in a byte string -/
def flags (l : List UInt8) : ℕ := l.count 0x7E

@[simp] theorem flags_nil : flags [] = 0 := rfl

@[simp] theorem flags_append (a b : List UInt8) : flags (a ++ b) = flags a + flags b := List.count_append

theorem flags_flag (l : List UInt8) : flags (0x7E :: l) = flags l + 1 := List.count_cons_self

theorem flags_plain {c : UInt8} (h : c ≠ 0x7E) (l : List UInt8) : flags (c :: l) = flags l :=
  List.count_cons_of_ne h

theorem flags_eq_zero {l : List UInt8} (h : 0x7E ∉ l) : flags l = 0 := List.count_eq_zero_of_not_mem h

theorem flags_pos {l : List UInt8} (h : 0x7E ∈ l) : 0 < flags l := List.count_pos_iff.mpr h

/-- whether a frame has been started that can still be ended -/
def Open (ext : List UInt8) : Prop := 0 < ext.length ∧ ext.length < extSize

instance decidableOpen (ext : List UInt8) : Decidable (Open ext) :=
  inferInstanceAs (Decidable (0 < ext.length ∧ ext.length < extSize))

/-- the flags a collector holds -/
def opened (s : Collector) : ℕ := if s.status = .recvToAp ∧ Open s.ext then 1 else 0

theorem opened_le_one (s : Collector) : opened s ≤ 1 := by
  unfold opened
  split_ifs <;> simp

theorem opened_of_not_open {s : Collector} (h : ¬ Open s.ext) : opened s = 0 := if_neg fun hs => h hs.2

/-- a full buffer is not open -/
theorem not_open_cells (m : Mem) : ¬ Open (cells m 0 extSize) := by
  intro h
  have hlt := h.2
  rw [length_cells] at hlt
  exact Nat.lt_irrefl extSize hlt

theorem opened_open {ext : List UInt8} (h : Open ext) : opened ⟨.recvToAp, ext⟩ = 1 := if_pos ⟨rfl, h⟩

/-- a block that completes a frame spends two flags on it, and one that does not has a flag for a frame it leaves open -/
theorem getUserDiagBuf_flags (ext buf : List UInt8) :
    ((getUserDiagBuf ext buf).1 = true → 2 ≤ opened ⟨.recvToAp, ext⟩ + flags buf) ∧
    opened ⟨.recvToAp, (getUserDiagBuf ext buf).2⟩ ≤ opened ⟨.recvToAp, ext⟩ + flags buf := by
  induction buf generalizing ext with
  | nil => simp [getUserDiagBuf]
  | cons c buf ih =>
    unfold getUserDiagBuf
    split_ifs with hstart hopen hc
    · obtain ⟨rfl, hnil⟩ := hstart
      obtain ⟨ih1, ih2⟩ := ih (ext ++ [0x7E])
      have hone := opened_le_one ⟨.recvToAp, ext ++ [0x7E]⟩
      rw [flags_flag]
      exact ⟨fun hfound => by have := ih1 hfound; omega, by omega⟩
    · subst hc
      rw [opened_open hopen, flags_flag]
      have hone := opened_le_one ⟨.recvToAp, ext ++ [0x7E]⟩
      refine ⟨fun _ => by omega, ?_⟩
      dsimp only
      omega
    · obtain ⟨ih1, ih2⟩ := ih (ext ++ [c])
      have hone := opened_le_one ⟨.recvToAp, ext ++ [c]⟩
      rw [opened_open hopen, flags_plain hc]
      exact ⟨fun hfound => by have := ih1 hfound; omega, by omega⟩
    · obtain ⟨ih1, ih2⟩ := ih ext
      have hle : flags buf ≤ flags (c :: buf) := List.count_le_count_cons
      exact ⟨fun hfound => by have := ih1 hfound; omega, by omega⟩

theorem opened_fullBuffer (env : Env) (ext : List UInt8) : opened (fullBuffer env ext).1 = 0 := by
  unfold fullBuffer
  dsimp only
  split_ifs
  · apply opened_of_not_open
    dsimp only
    apply not_open_cells
  · exact opened_of_not_open fun h => lt_irrefl 0 h.1

/-- **The account of one turn.** -/
theorem takeTurn_flags (s : Collector) (t : Turn) :
    2 * (delivered (takeTurn s t).2).length + opened (takeTurn s t).1 ≤ opened s + flags t.bytes := by
  obtain ⟨status, ext⟩ := s
  cases status with
  | recvToCp =>
    -- a frame may be open again only after a block that ends in a flag
    simp only [takeTurn]
    have hnone : (delivered [Eff.modem t.bytes]).length = 0 := rfl
    rw [hnone]
    split_ifs with hlast
    · have hpos := flags_pos (List.mem_of_getLast? hlast)
      have hone := opened_le_one ⟨.recvToAp, ext⟩
      omega
    · have hzero : opened ⟨.recvToCp, ext⟩ = 0 := if_neg fun h => by simpa using h.1
      omega
  | recvToAp =>
    obtain ⟨hfound, hopen⟩ := getUserDiagBuf_flags ext t.bytes
    simp only [takeTurn]
    split
    · next ext' hget =>
      have h2 := hfound (by rw [hget])
      have hidle : opened idle = 0 := opened_of_not_open fun h => lt_irrefl 0 h.1
      simp only [delivered_completeFrame, List.length_singleton, hidle]
      omega
    · next ext' hget =>
      rw [hget] at hopen
      have hnone : (delivered [Eff.modem t.bytes]).length = 0 := rfl
      dsimp only at hopen
      split_ifs with hempty hfull
      · dsimp only
        omega
      · rw [delivered_fullBuffer, opened_fullBuffer]
        simp
      · dsimp only
        rw [delivered_nil, List.length_nil]
        omega

/-- At most one frame is handed over for two flags. -/
theorem delivered_flags (s : Collector) (ts : List Turn) :
    2 * (delivered (trace takeTurn s ts).2).length ≤ opened s + flags (bytes ts) := by
  induction ts generalizing s with
  | nil => simp
  | cons t ts ih =>
    have hturn := takeTurn_flags s t
    have hrest := ih (takeTurn s t).1
    rw [trace_cons, delivered_append, List.length_append, bytes_cons, flags_append]
    omega

/-! ## Streams of frames -/

section

variable {p : List UInt8} {fs : List (List UInt8)}

theorem flags_frame {f : List UInt8} (hf : IsFrame f) : flags f = 2 := by
  obtain ⟨body, hbody, rfl⟩ := hf
  rw [flags_append, flags_flag, flags_eq_zero hbody]
  rfl

theorem flags_flatten (hfs : ∀ f ∈ fs, IsFrame f) : flags fs.flatten = 2 * fs.length := by
  induction fs with
  | nil => rfl
  | cons f fs ih =>
    rw [List.flatten_cons, flags_append, flags_frame (hfs f List.mem_cons_self),
      ih fun g hg => hfs g (List.mem_cons_of_mem f hg), List.length_cons]
    omega

/-- a stream of frames starts with a flag -/
theorem flags_start_pos (hfs : ∀ f ∈ fs, IsFrame f) {x : List UInt8} (hx : x <+: fs.flatten) (hne : x ≠ []) :
    0 < flags x := by
  cases fs with
  | nil => exact absurd (List.prefix_nil.mp hx) hne
  | cons f fs =>
    obtain ⟨body, -, hf⟩ := hfs f List.mem_cons_self
    obtain ⟨c, y, rfl⟩ := List.exists_cons_of_ne_nil hne
    rw [List.flatten_cons, hf, List.cons_append, List.cons_append, List.cons_prefix_cons] at hx
    rw [hx.1, flags_flag]
    omega

/-- what the collector holds are the first bytes of the first frame, and it has room for more -/
def Holds (p : List UInt8) (fs : List (List UInt8)) : Prop :=
  ∀ f rest, fs = f :: rest → p.length < f.length ∧ p.length < extSize

theorem holds_nil (hfs : ∀ f ∈ fs, IsFrame f) : Holds [] fs := by
  rintro f rest rfl
  have hlen := (hfs f List.mem_cons_self).length_ge
  exact ⟨by simp only [List.length_nil]; omega, by decide⟩

/-- the turns can be cut behind each frame, with p the bytes that came before them -/
def Cuts (p : List UInt8) (fs : List (List UInt8)) (ts : List Turn) : Prop :=
  ∀ pre suf, pre ≠ [] → fs = pre ++ suf → ∃ a b, ts = a ++ b ∧ p ++ bytes a = pre.flatten

theorem cuts_no_frame (p : List UInt8) (ts : List Turn) : Cuts p [] ts :=
  fun _ _ hpre h => absurd (List.append_eq_nil_iff.mp h.symm).1 hpre

/-- cuts behind a turn are cuts with the turn among what came before -/
theorem Cuts.cons {t : Turn} {ts : List Turn} (h : Cuts (p ++ t.bytes) fs ts) : Cuts p fs (t :: ts) := by
  intro pre suf hpre heq
  obtain ⟨a, b, rfl, hflat⟩ := h pre suf hpre heq
  exact ⟨t :: a, b, rfl, by rw [← hflat]; simp⟩

/-- a first frame that came before the turns -/
theorem Cuts.cons_frame {f : List UInt8} {ts : List Turn} (h : Cuts [] fs ts) : Cuts f (f :: fs) ts := by
  intro pre suf hpre heq
  obtain ⟨g, pre', rfl⟩ := List.exists_cons_of_ne_nil hpre
  obtain ⟨rfl, heq'⟩ := List.cons.inj heq
  by_cases hpre' : pre' = []
  · exact ⟨[], ts, rfl, by simp [hpre']⟩
  · obtain ⟨a, b, rfl, hflat⟩ := h pre' suf hpre' heq'
    exact ⟨a, b, rfl, by rw [List.flatten_cons, ← hflat]; rfl⟩

theorem Cuts.of_cons_frame {f : List UInt8} {ts : List Turn} (h : Cuts f (f :: fs) ts) : Cuts [] fs ts := by
  intro pre suf _ heq
  obtain ⟨a, b, hab, hflat⟩ := h (f :: pre) suf (by simp) (by rw [heq]; rfl)
  rw [List.flatten_cons] at hflat
  exact ⟨a, b, hab, List.append_cancel_left hflat⟩

/-- with the first frame not complete before the turns, every cut lies behind the first turn -/
theorem Cuts.of_cons {f : List UInt8} {t : Turn} {ts : List Turn} (h : Cuts p (f :: fs) (t :: ts))
    (hlt : p.length < f.length) : Cuts (p ++ t.bytes) (f :: fs) ts := by
  intro pre suf hpre heq
  obtain ⟨a, b, hab, hflat⟩ := h pre suf hpre heq
  obtain ⟨g, pre', rfl⟩ := List.exists_cons_of_ne_nil hpre
  obtain ⟨rfl, -⟩ := List.cons.inj heq
  cases a with
  | nil =>
    have hlen := congrArg List.length hflat
    simp only [bytes_nil, List.append_nil, List.flatten_cons, List.length_append] at hlen
    omega
  | cons u a =>
    obtain ⟨rfl, rfl⟩ := List.cons.inj hab
    exact ⟨a, b, rfl, by rw [← hflat]; simp⟩

theorem holds_cons {f : List UInt8} (h1 : p.length < f.length) (h2 : p.length < extSize) : Holds p (f :: fs) := by
  intro g rest heq
  obtain ⟨rfl, -⟩ := List.cons.inj heq
  exact ⟨h1, h2⟩

/-- A stream whose frames are all handed over was cut behind each of them. -/
theorem cuts_of_delivered (hfs : ∀ f ∈ fs, IsFrame f) (ts : List Turn) (hts : ∀ t ∈ ts, t.bytes ≠ [])
    (hp : Holds p fs) {rest : List UInt8} (hstream : p ++ bytes ts ++ rest = fs.flatten)
    (hall : fs.length ≤ (delivered (trace takeTurn ⟨.recvToAp, p⟩ ts).2).length) :
    (∀ f ∈ fs, f.length ≤ extSize) ∧ Cuts p fs ts := by
  induction ts generalizing p fs with
  | nil =>
    have hnil : fs = [] := List.eq_nil_of_length_eq_zero (Nat.le_zero.mp hall)
    subst hnil
    exact ⟨by simp, cuts_no_frame p []⟩
  | cons t ts ih =>
    cases fs with
    | nil => exact ⟨by simp, cuts_no_frame p (t :: ts)⟩
    | cons f fs =>
      obtain ⟨hf, hfs'⟩ := List.forall_mem_cons.mp hfs
      obtain ⟨hne, hts'⟩ := List.forall_mem_cons.mp hts
      obtain ⟨hlt, hroom⟩ := hp f fs rfl
      have hcat : p ++ t.bytes ++ bytes ts ++ rest = f ++ fs.flatten := by
        rw [← List.flatten_cons, ← hstream, bytes_cons]
        simp
      have hpb : p ++ t.bytes <+: f ++ fs.flatten := ⟨bytes ts ++ rest, by rw [← hcat]; simp⟩
      have hflags : flags (p ++ t.bytes) + flags (bytes ts) + flags rest = 2 * (fs.length + 1) := by
        rw [← flags_append, ← flags_append, hcat, ← List.flatten_cons]
        exact flags_flatten hfs
      rw [trace_cons, delivered_append, List.length_append, List.length_cons] at hall
      rcases takeTurn_frame hf hlt hroom hne hpb with ⟨h1, h2, hturn⟩ | ⟨h1, ⟨c, hc, hcpre⟩, hturn⟩ | ⟨h1, h2, hturn⟩
      · -- the frame goes on
        rw [hturn] at hall
        obtain ⟨hsize, hcuts⟩ := ih hfs hts' (holds_cons h1 h2) hcat (by simpa using hall)
        exact ⟨hsize, hcuts.cons⟩
      · -- the frame is complete; a byte behind it in the block would be a flag, and one frame less would come
        rw [hturn, delivered_completeFrame, List.length_singleton] at hall
        have hrest := delivered_flags idle ts
        have hidle : opened idle = 0 := opened_of_not_open fun h => lt_irrefl 0 h.1
        rw [hc, flags_append, flags_frame hf] at hflags
        have hleft : fs.length ≤ (delivered (trace takeTurn idle ts).2).length := by
          dsimp only at hall
          omega
        have hcnil : c = [] := by
          by_contra hcne
          have hpos := flags_start_pos hfs' hcpre hcne
          omega
        rw [hcnil, List.append_nil] at hc
        rw [hc, List.append_assoc] at hcat
        obtain ⟨hsize, hcuts⟩ := ih hfs' hts' (holds_nil hfs') (List.append_cancel_left hcat) hleft
        refine ⟨List.forall_mem_cons.mpr ⟨h1, hsize⟩, Cuts.cons ?_⟩
        rw [hc]
        exact hcuts.cons_frame
      · -- the frame is too long: the flag spent on it is lost
        rw [hturn, delivered_fullBuffer, List.length_nil, Nat.zero_add] at hall
        have hrest := delivered_flags (fullBuffer t.env (f.take extSize)).1 ts
        rw [opened_fullBuffer] at hrest
        have hpos : 0 < flags (p ++ t.bytes) := flags_start_pos hfs hpb (by simp [hne])
        omega

/-- A stream of frames that fit, cut behind each of them, is handed over. -/
theorem delivered_of_cuts (hfs : ∀ f ∈ fs, IsFrame f) (hsize : ∀ f ∈ fs, f.length ≤ extSize) (ts : List Turn)
    (hts : ∀ t ∈ ts, t.bytes ≠ []) (hp : Holds p fs) (hstream : p ++ bytes ts <+: fs.flatten) (hcuts : Cuts p fs ts) :
    delivered (trace takeTurn ⟨.recvToAp, p⟩ ts).2 = fs := by
  induction ts generalizing p fs with
  | nil =>
    cases fs with
    | nil => rfl
    | cons f fs =>
      obtain ⟨a, b, hab, hflat⟩ := hcuts [f] fs (by simp) rfl
      have hlt := (hp f fs rfl).1
      obtain ⟨rfl, -⟩ := List.append_eq_nil_iff.mp hab.symm
      have hlen := congrArg List.length hflat
      simp at hlen
      omega
  | cons t ts ih =>
    cases fs with
    | nil =>
      have hnil := List.prefix_nil.mp hstream
      simp [hts t List.mem_cons_self] at hnil
    | cons f fs =>
      obtain ⟨hf, hfs'⟩ := List.forall_mem_cons.mp hfs
      obtain ⟨hfit, hsize'⟩ := List.forall_mem_cons.mp hsize
      obtain ⟨hne, hts'⟩ := List.forall_mem_cons.mp hts
      obtain ⟨hlt, hroom⟩ := hp f fs rfl
      rw [bytes_cons, ← List.append_assoc] at hstream
      have hpb : p ++ t.bytes <+: f ++ fs.flatten := (List.prefix_append _ _).trans hstream
      have hcuts' := hcuts.of_cons hlt
      rcases takeTurn_frame hf hlt hroom hne hpb with ⟨h1, h2, hturn⟩ | ⟨h1, ⟨c, hc, hcpre⟩, hturn⟩ | ⟨h1, h2, hturn⟩
      · rw [trace_cons, hturn]
        simpa using ih hfs hsize hts' (holds_cons h1 h2) hstream hcuts'
      · -- the cut behind the frame leaves no byte of the next one in the block
        obtain ⟨a, b, -, hflat⟩ := hcuts' [f] fs (by simp) rfl
        have hcnil : c = [] := by
          have hlen := congrArg List.length hflat
          rw [hc] at hlen
          simp only [List.length_append, List.flatten_cons, List.flatten_nil, List.length_nil] at hlen
          exact List.eq_nil_of_length_eq_zero (by omega)
        rw [hcnil, List.append_nil] at hc
        rw [hc] at hcuts' hstream
        have hstream' : [] ++ bytes ts <+: fs.flatten := (List.prefix_append_right_inj f).mp hstream
        have hrest := ih hfs' hsize' hts' (holds_nil hfs') hstream' hcuts'.of_cons_frame
        rw [trace_cons, hturn, delivered_append, delivered_completeFrame]
        exact congrArg (f :: ·) hrest
      · exact absurd hfit h1.not_ge

end

/-- **Framing.** A stream of frames comes in any reads that do not fail. The frames handed to `eng_diag` are the frames
of the stream, once and in order, exactly when none of them is longer than the collecting buffer and the blocks can be
cut behind each of them: no block holds bytes of two frames, and none is still waiting for its second read. -/
theorem framing_iff (fs : List (List UInt8)) (hfs : ∀ f ∈ fs, IsFrame f) (reads : List Read)
    (hdata : ∀ r ∈ reads, r.got ≠ none) (hstream : stream reads = fs.flatten) :
    delivered (run reads).2 = fs ↔
      (∀ f ∈ fs, f.length ≤ extSize) ∧
        ∀ pre suf, fs = pre ++ suf → ∃ a b, turns reads = a ++ b ∧ bytes a = pre.flatten := by
  have hbytes := bytes_turns hdata none
  rw [hstream] at hbytes
  rw [run_eq]
  constructor
  · intro hdel
    obtain ⟨hsize, hcuts⟩ := cuts_of_delivered hfs (turns reads) (turns_ne_nil reads) (holds_nil hfs) hbytes
      (le_of_eq (congrArg List.length hdel.symm))
    refine ⟨hsize, fun pre suf heq => ?_⟩
    by_cases hpre : pre = []
    · exact ⟨[], turns reads, rfl, by simp [hpre]⟩
    · exact hcuts pre suf hpre heq
  · rintro ⟨hsize, hcuts⟩
    exact delivered_of_cuts hfs hsize (turns reads) (turns_ne_nil reads) (holds_nil hfs) ⟨_, hbytes⟩
      fun pre suf _ heq => hcuts pre suf heq

/-- a frame that comes in two reads -/
theorem framing_iff_two_reads :
    delivered (run [dataRead bareEnv [0x7E, 0x01] (by decide), dataRead bareEnv [0x02, 0x7E] (by decide)]).2 =
        [[0x7E, 0x01, 0x02, 0x7E]] ↔
      (∀ f ∈ [[(0x7E : UInt8), 0x01, 0x02, 0x7E]], f.length ≤ extSize) ∧
        ∀ pre suf, [[(0x7E : UInt8), 0x01, 0x02, 0x7E]] = pre ++ suf →
          ∃ a b, turns [dataRead bareEnv [0x7E, 0x01] (by decide), dataRead bareEnv [0x02, 0x7E] (by decide)] = a ++ b ∧
            bytes a = pre.flatten := by
  apply framing_iff
  · intro f hf
    rw [List.mem_singleton.mp hf]
    exact ⟨[0x01, 0x02], by decide, rfl⟩
  · simp [dataRead]
  · rfl

/-- two frames in two reads are both handed over, in one read the second is dropped -/
theorem framing_drops_second :
    delivered (run [dataRead bareEnv [0x7E, 0x01, 0x7E] (by decide), dataRead bareEnv [0x7E, 0x02, 0x7E] (by decide)]).2 =
        [[0x7E, 0x01, 0x7E], [0x7E, 0x02, 0x7E]] ∧
      delivered (run [dataRead bareEnv [0x7E, 0x01, 0x7E, 0x7E, 0x02, 0x7E] (by decide)]).2 = [[0x7E, 0x01, 0x7E]] := by
  decide

end SprdDevice.EngMode
