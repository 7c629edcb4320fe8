/-
Whether the thread can still hand a frame to `eng_diag`.

A turn jams the collector when it fills the buffer with the start of a command that this side handles: the thread goes
on receiving into a full buffer, which takes nothing, and no branch empties it. Each later block has the same buffer
parsed again.

Results: a run without such a turn can hand over a frame from every state of the loop (`progress`), and after two reads
that bring such a turn no further read is ever answered (`jammed_forever`).
-/
import Mathlib.Tactic
import SprdDevice.Lib.Run
import SprdDevice.EngMode.Collector

namespace SprdDevice.EngMode

open SprdDevice.Memory SprdDevice.Trace SprdDevice.Run

/-- the turn fills the buffer with a command that this side handles -/
structure Jams (s : Collector) (t : Turn) : Prop where
  status : s.status = .recvToAp
  open_ : (getUserDiagBuf s.ext t.bytes).1 = false
  full : (getUserDiagBuf s.ext t.bytes).2.length = extSize
  handled : (engDiagParse t.env (extMem t.env (getUserDiagBuf s.ext t.bytes).2)
    (getUserDiagBuf s.ext t.bytes).2.length).1 ≠ .common

/-- no turn of the run jams the collector -/
def NoJam (ts : List Turn) : Prop := Along (fun s t => (takeTurn s t).1) (fun s t => ¬ Jams s t) idle ts

/-- the collector has room, and holds nothing while blocks go to the modem -/
structure Live (s : Collector) : Prop where
  room : s.ext.length < extSize
  passing : s.status = .recvToCp → s.ext = []

theorem live_idle : Live idle := ⟨by decide, fun _ => rfl⟩

/-! ## A live collector stays live -/

/-- One turn that does not jam. -/
theorem takeTurn_live {s : Collector} (t : Turn) (hs : Live s) (hjam : ¬ Jams s t) : Live (takeTurn s t).1 := by
  have hpos : 0 < extSize := by decide
  cases hstatus : s.status with
  | recvToCp =>
    simp only [takeTurn, hstatus]
    exact ⟨hs.room, fun _ => hs.passing hstatus⟩
  | recvToAp =>
    have hlen := length_getUserDiagBuf_le t.bytes hs.room.le
    simp only [takeTurn, hstatus]
    split
    · exact live_idle
    · next ext hget =>
      rw [hget] at hlen
      split_ifs with hempty hfull
      · exact ⟨by rw [hempty]; exact hpos, fun h => absurd h (by simp)⟩
      · have hcommon : (engDiagParse t.env (extMem t.env ext) ext.length).1 = .common := by
          by_contra hne
          apply hjam
          exact ⟨hstatus, by rw [hget], by rw [hget]; exact hfull, by rw [hget]; exact hne⟩
        unfold fullBuffer
        dsimp only
        rw [if_neg (not_not.mpr hcommon)]
        exact ⟨hpos, fun _ => rfl⟩
      · exact ⟨lt_of_le_of_ne hlen hfull, fun h => absurd h (by simp)⟩

theorem trace_takeTurn_fst (s : Collector) (ts : List Turn) :
    (trace takeTurn s ts).1 = ts.foldl (fun s t => (takeTurn s t).1) s := by
  induction ts generalizing s with
  | nil => rfl
  | cons t ts ih => exact ih (takeTurn s t).1

theorem run_live {ts : List Turn} (h : NoJam ts) : Live (trace takeTurn idle ts).1 := by
  rw [trace_takeTurn_fst]
  exact inv_of_along (fun _ t hs hjam => takeTurn_live t hs hjam) live_idle h

/-! ## A live collector can hand over a frame -/

/-- a flag ends the frame that is being collected -/
theorem takeTurn_end (env : Env) {ext : List UInt8} (hpos : 0 < ext.length) (hroom : ext.length < extSize) :
    takeTurn ⟨.recvToAp, ext⟩ ⟨env, [0x7E]⟩ = (idle, completeFrame env (ext ++ [0x7E])) := by
  simp only [takeTurn, getUserDiagBuf_end ext [] hpos hroom]

/-- two flags are a frame -/
theorem takeTurn_pair (env : Env) : takeTurn idle ⟨env, [0x7E, 0x7E]⟩ = (idle, completeFrame env [0x7E, 0x7E]) := by
  simp only [takeTurn, idle, getUserDiagBuf_start, getUserDiagBuf_end [0x7E] [] (by decide) (by decide)]
  rfl

/-- One or two short reads are enough. -/
theorem live_delivers {s : Collector} (hs : Live s) (env : Env) :
    ∃ more : List Read, (∀ r ∈ more, r.env = env) ∧ ∃ f, delivered (trace step (none, s) more).2 = [f] := by
  have htwo : ([0x7E, 0x7E] : List UInt8).length < readSize := by decide
  have hone : ([0x7E] : List UInt8).length < readSize := by decide
  obtain ⟨status, ext⟩ := s
  cases status with
  | recvToCp =>
    -- the first flag ends what goes to the modem, the other two are a frame
    have hnil : ext = [] := hs.passing rfl
    subst hnil
    refine ⟨[dataRead env [0x7E] hone.le, dataRead env [0x7E, 0x7E] htwo.le], by simp [dataRead], [0x7E, 0x7E], ?_⟩
    have hpass : takeTurn ⟨.recvToCp, []⟩ ⟨env, [0x7E]⟩ = (idle, [.modem [0x7E]]) := rfl
    unfold step
    rw [trace_cascade, trace_fillLog_short env hone (by simp), trace_fillLog_short env htwo (by simp), trace_nil,
      trace_cons, hpass, trace_cons, takeTurn_pair, trace_nil]
    simp
  | recvToAp =>
    by_cases hnil : ext = []
    · subst hnil
      refine ⟨[dataRead env [0x7E, 0x7E] htwo.le], by simp [dataRead], [0x7E, 0x7E], ?_⟩
      have hpair : takeTurn ⟨.recvToAp, []⟩ ⟨env, [0x7E, 0x7E]⟩ = (idle, completeFrame env [0x7E, 0x7E]) :=
        takeTurn_pair env
      unfold step
      rw [trace_cascade, trace_fillLog_short env htwo (by simp), trace_nil, trace_cons, hpair, trace_nil]
      simp
    · refine ⟨[dataRead env [0x7E] hone.le], by simp [dataRead], ext ++ [0x7E], ?_⟩
      unfold step
      rw [trace_cascade, trace_fillLog_short env hone (by simp), trace_nil, trace_cons,
        takeTurn_end env (List.length_pos_of_ne_nil hnil) hs.room, trace_nil]
      simp

/-- **Progress.** In every run of reads in which no turn jams the collector, from every state of the loop (no read
pending), further reads can have a frame handed to `eng_diag`, whatever the environment they meet. -/
theorem progress (reads : List Read) (hjam : NoJam (turns reads)) (hloop : (run reads).1.1 = none) (env : Env) :
    ∃ more : List Read, (∀ r ∈ more, r.env = env) ∧
      ∃ f, delivered (run (reads ++ more)).2 = delivered (run reads).2 ++ [f] := by
  have hlive : Live (run reads).1.2 := by
    rw [run_eq]
    exact run_live hjam
  obtain ⟨more, henv, f, hf⟩ := live_delivers hlive env
  refine ⟨more, henv, f, ?_⟩
  have hstate : (none, (run reads).1.2) = (run reads).1 := by rw [← hloop]
  rw [hstate] at hf
  have happ : (run (reads ++ more)).2 = (run reads).2 ++ (trace step (run reads).1 more).2 := by
    unfold run
    rw [trace_append]
  rw [happ, delivered_append, hf]

/-- a thread in the middle of a frame -/
theorem progress_open_frame :
    ∃ more : List Read, (∀ r ∈ more, r.env = bareEnv) ∧
      ∃ f, delivered (run ([dataRead bareEnv [0x7E, 0x01] (by decide)] ++ more)).2 =
        delivered (run [dataRead bareEnv [0x7E, 0x01] (by decide)]).2 ++ [f] := by
  apply progress
  · exact ⟨fun h => absurd h.full (by decide), trivial⟩
  · rfl

/-! ## The jam -/

/-- a full buffer that the parser leaves as it is and takes for a command of this side -/
structure Sticks (ext : List UInt8) : Prop where
  full : ext.length = extSize
  stays : ∀ env, fullBuffer env ext = (⟨.recvToAp, ext⟩, [])

/-- A jammed collector stays as it is. -/
theorem trace_jammed {ext : List UInt8} (h : Sticks ext) (ts : List Turn) :
    trace takeTurn ⟨.recvToAp, ext⟩ ts = (⟨.recvToAp, ext⟩, []) := by
  induction ts with
  | nil => rfl
  | cons t ts ih =>
    have hturn : takeTurn ⟨.recvToAp, ext⟩ t = (⟨.recvToAp, ext⟩, []) := by
      rw [takeTurn_full (getUserDiagBuf_full t.bytes h.full.ge) h.full, h.stays]
    rw [trace_cons, hturn, ih]
    rfl

/-- a frame start that fills the buffer jams the idle collector, and nothing is handed over from then on -/
theorem delivered_jammed {ext : List UInt8} (h : Sticks ext) (hget : getUserDiagBuf [] ext = (false, ext)) (env : Env)
    (ts : List Turn) : delivered (trace takeTurn idle (⟨env, ext⟩ :: ts)).2 = [] := by
  have hturn : takeTurn idle ⟨env, ext⟩ = (⟨.recvToAp, ext⟩, []) := by
    have hfull : takeTurn ⟨.recvToAp, []⟩ ⟨env, ext⟩ = fullBuffer env ext := takeTurn_full hget h.full
    rw [h.stays] at hfull
    exact hfull
  rw [trace_cons, hturn, trace_jammed h]
  rfl

/-- the buffer reads back as it was collected -/
theorem cells_extMem (env : Env) {ext : List UInt8} (h : ext.length = extSize) : cells (extMem env ext) 0 extSize = ext := by
  apply cells_eq_list h
  intro i hi
  have hin : i < extSize := by omega
  simp [extMem, hin, hi]

/-- the start of a calibration command that fills the buffer -/
theorem sticks_apcali : Sticks (0x7E :: same 0x62 (extSize - 1)) := by
  have hlen : (0x7E :: same 0x62 (extSize - 1)).length = extSize := by
    rw [List.length_cons, length_same]
    rfl
  refine ⟨hlen, fun env => ?_⟩
  unfold fullBuffer
  dsimp only
  rw [engDiagParse_same env (by decide) (by decide) hlen.le, cells_extMem env hlen]
  rfl

theorem getUserDiagBuf_apcali :
    getUserDiagBuf [] (0x7E :: same 0x62 (extSize - 1)) = (false, 0x7E :: same 0x62 (extSize - 1)) := by
  have hbody := flag_not_mem_same (b := 0x62) (by decide) (extSize - 1)
  rw [getUserDiagBuf_start, getUserDiagBuf_body [0x7E] _ (by simp) hbody (by rw [length_same]; decide)]
  rfl

theorem length_jam_first : (0x7E :: same 0x62 4095).length = readSize := by
  rw [List.length_cons, length_same]
  rfl

theorem length_jam_second : (same 0x62 4096).length ≤ readSize := by
  rw [length_same]
  rfl

/-- After two full reads with the start of a calibration command no frame is handed over, whatever comes. -/
theorem jammed_forever :
    ¬ ∃ more : List Read, delivered (run (dataRead bareEnv (0x7E :: same 0x62 4095) length_jam_first.le ::
      dataRead bareEnv (same 0x62 4096) length_jam_second :: more)).2 ≠ [] := by
  rintro ⟨more, hmore⟩
  apply hmore
  have hblock : 0x7E :: same 0x62 4095 ++ same 0x62 4096 = 0x7E :: same 0x62 (extSize - 1) := by
    have hsum : 4095 + 4096 = extSize - 1 := by decide
    rw [List.cons_append, same_append, hsum]
  rw [run_effs, turns_full bareEnv length_jam_first, hblock]
  exact delivered_jammed sticks_apcali getUserDiagBuf_apcali bareEnv (turns more)

end SprdDevice.EngMode
