/-
A frame that nobody on this side handles, on its way to the modem.

A frame that fits the collecting buffer goes there in the copy taken before it was decoded. A longer one goes in parts:
its first 8192 bytes from the buffer, after the parser has decoded them in place, then each block as it comes. What is
left of the block that fills the buffer is dropped.

Results: the run over a frame that fits (`fit_run`) and over a longer one (`long_run`), and `forwarding_iff` (exactly
when the modem gets the frame).
-/
import Mathlib.Tactic
import SprdDevice.EngMode.Collector

namespace SprdDevice.EngMode

open SprdDevice.Memory SprdDevice.Trace

/-- nobody here handles the frame: the verdict of the parser on the part of it that the buffer holds -/
def Unhandled (env : Env) (f : List UInt8) : Prop :=
  (engDiagParse env (extMem env (f.take extSize)) (f.take extSize).length).1 = .common

instance decidableUnhandled (env : Env) (f : List UInt8) : Decidable (Unhandled env f) :=
  inferInstanceAs (Decidable (_ = Cmd.common))

/-- the part of the frame that the buffer holds, as the parser leaves it -/
def parsedPart (env : Env) (f : List UInt8) : List UInt8 :=
  cells (engDiagParse env (extMem env (f.take extSize)) (f.take extSize).length).2 0 extSize

theorem length_parsedPart (env : Env) (f : List UInt8) : (parsedPart env f).length = extSize := length_cells _ 0 extSize

theorem sent_completeFrame {env : Env} {f : List UInt8} (h : Unhandled env f) (hfit : f.length ≤ extSize) :
    sent (completeFrame env f) = f := by
  unfold Unhandled at h
  rw [List.take_of_length_le hfit] at h
  rw [completeFrame, if_pos h]
  simp [sent]

theorem fullBuffer_unhandled {env : Env} {f : List UInt8} (h : Unhandled env f) :
    fullBuffer env (f.take extSize) = (⟨.recvToCp, []⟩, [.modem (parsedPart env f)]) := by
  unfold Unhandled at h
  unfold fullBuffer parsedPart
  dsimp only
  rw [if_neg (not_not.mpr h)]

/-! ## The runs -/

section

variable {f : List UInt8}

/-- blocks inside the frame are collected and nothing is written -/
theorem collect_run (hf : IsFrame f) {a : List Turn} (ha : ∀ t ∈ a, t.bytes ≠ []) {p : List UInt8}
    (hpre : p ++ bytes a <+: f) (hlt : (p ++ bytes a).length < f.length) (hroom : (p ++ bytes a).length < extSize) :
    trace takeTurn ⟨.recvToAp, p⟩ a = (⟨.recvToAp, p ++ bytes a⟩, []) := by
  induction a generalizing p with
  | nil => simp
  | cons t a ih =>
    obtain ⟨hne, ha'⟩ := List.forall_mem_cons.mp ha
    rw [bytes_cons, ← List.append_assoc] at hpre hlt hroom ⊢
    have hlen : (p ++ t.bytes).length ≤ (p ++ t.bytes ++ bytes a).length := by simp
    have hplen : p.length ≤ (p ++ t.bytes).length := by simp
    have hpb : p ++ t.bytes <+: f ++ [] := by
      rw [List.append_nil]
      exact (List.prefix_append _ _).trans hpre
    rcases takeTurn_frame hf (by omega) (by omega) hne hpb with ⟨-, -, hturn⟩ | ⟨-, ⟨c, hc, -⟩, -⟩ | ⟨h1, h2, -⟩
    · rw [trace_cons, hturn, ih ha' hpre hlt hroom]
      rfl
    · have hclen := congrArg List.length hc
      simp only [List.length_append] at hclen hlen hlt
      omega
    · have htake := h2.length_le
      rw [List.length_take] at htake
      omega

/-- what is left of a frame behind its first byte -/
theorem IsFrame.rest (hf : IsFrame f) {x y : List UInt8} (hxy : x ++ y = f) (hx : x ≠ []) :
    y = [] ∨ ∃ l, 0x7E ∉ l ∧ y = l ++ [0x7E] := by
  obtain ⟨body, hbody, rfl⟩ := hf
  obtain ⟨c, x', rfl⟩ := List.exists_cons_of_ne_nil hx
  rcases List.eq_nil_or_concat y with rfl | ⟨l, d, rfl⟩
  · exact Or.inl rfl
  · right
    have htail : x' ++ l ++ [d] = body ++ [0x7E] := by
      have h := (List.cons.inj hxy).2
      simpa using h
    obtain ⟨hinit, hlast⟩ := List.append_inj' htail rfl
    rw [List.cons.inj hlast |>.1]
    refine ⟨l, fun hmem => hbody ?_, by simp⟩
    rw [← hinit]
    exact List.mem_append_right x' hmem

/-- the blocks behind a full buffer go to the modem, and the last one ends the frame -/
theorem cp_run {ts : List Turn} (hts : ∀ t ∈ ts, t.bytes ≠ []) {l : List UInt8} (hl : 0x7E ∉ l)
    (hbytes : bytes ts = l ++ [0x7E]) :
    (trace takeTurn ⟨.recvToCp, []⟩ ts).1 = idle ∧ sent (trace takeTurn ⟨.recvToCp, []⟩ ts).2 = bytes ts := by
  induction ts generalizing l with
  | nil => simp at hbytes
  | cons t ts ih =>
    obtain ⟨hne, hts'⟩ := List.forall_mem_cons.mp hts
    have hturn : takeTurn ⟨.recvToCp, []⟩ t =
        (⟨if t.bytes.getLast? = some 0x7E then .recvToAp else .recvToCp, []⟩, [.modem t.bytes]) := rfl
    have hsent : sent [Eff.modem t.bytes] = t.bytes := by simp [sent]
    rw [bytes_cons] at hbytes
    rw [trace_cons, hturn, sent_append, hsent, bytes_cons]
    cases ts with
    | nil =>
      rw [bytes_nil, List.append_nil] at hbytes
      rw [hbytes, List.getLast?_concat, if_pos rfl]
      exact ⟨rfl, by simp⟩
    | cons u ts =>
      -- the block is not the last one, so its bytes lie before the closing flag
      have hrest : bytes (u :: ts) ≠ [] := by simp [hts' u List.mem_cons_self]
      obtain ⟨l', d, hl'⟩ := (List.eq_nil_or_concat (bytes (u :: ts))).resolve_left hrest
      rw [List.concat_eq_append] at hl'
      have hsplit : t.bytes ++ l' ++ [d] = l ++ [0x7E] := by rw [← hbytes, hl']; simp
      obtain ⟨hinit, hlast⟩ := List.append_inj' hsplit rfl
      rw [(List.cons.inj hlast).1] at hl'
      have hcp : t.bytes.getLast? ≠ some 0x7E := by
        intro hlast
        apply hl
        rw [← hinit]
        exact List.mem_append_left l' (List.mem_of_getLast? hlast)
      have hl'' : 0x7E ∉ l' := fun hmem => hl (by rw [← hinit]; exact List.mem_append_right _ hmem)
      rw [if_neg hcp]
      obtain ⟨h1, h2⟩ := ih hts' hl'' hl'
      exact ⟨h1, by rw [h2]⟩

/-- A frame that fits is written as it came. -/
theorem fit_run (hf : IsFrame f) (hfit : f.length ≤ extSize) {ts : List Turn} (hts : ∀ t ∈ ts, t.bytes ≠ [])
    (hbytes : bytes ts = f) (hun : ∀ t ∈ ts, Unhandled t.env f) :
    (trace takeTurn idle ts).1 = idle ∧ sent (trace takeTurn idle ts).2 = f := by
  have hlen := hf.length_ge
  rcases List.eq_nil_or_concat ts with rfl | ⟨a, t, rfl⟩
  · rw [← hbytes] at hlen
    simp at hlen
  · rw [List.concat_eq_append] at *
    have hne : t.bytes ≠ [] := hts t (by simp)
    have hcat : bytes a ++ t.bytes = f := by rw [← hbytes]; simp
    have hlt : (bytes a).length < f.length := by
      have hpos := List.length_pos_of_ne_nil hne
      rw [← hcat, List.length_append]
      omega
    have hcollect : trace takeTurn idle a = (⟨.recvToAp, bytes a⟩, []) :=
      collect_run hf (fun u hu => hts u (by simp [hu])) (p := []) ⟨t.bytes, hcat⟩ hlt (by simpa using by omega)
    have hpb : bytes a ++ t.bytes <+: f ++ [] := by rw [hcat, List.append_nil]
    rcases takeTurn_frame hf hlt (by omega) hne hpb with ⟨h1, -, -⟩ | ⟨-, -, hturn⟩ | ⟨h1, -, -⟩
    · rw [hcat] at h1
      exact absurd h1 (lt_irrefl _)
    · rw [trace_append, hcollect, trace_cons, hturn]
      exact ⟨rfl, by simpa using sent_completeFrame (hun t (by simp)) hfit⟩
    · omega

/-- A frame that does not fit: the block t fills the buffer, and the modem gets the parsed part and the blocks behind t. -/
theorem long_run (hf : IsFrame f) (hlong : extSize < f.length) {a b : List Turn} {t : Turn}
    (hts : ∀ u ∈ a ++ t :: b, u.bytes ≠ []) (hbytes : bytes (a ++ t :: b) = f) (hun : Unhandled t.env f)
    (hbelow : (bytes a).length < extSize) (hover : extSize ≤ (bytes (a ++ [t])).length) :
    sent (trace takeTurn idle (a ++ t :: b)).2 = parsedPart t.env f ++ bytes b ∧
      (b ≠ [] → (trace takeTurn idle (a ++ t :: b)).1 = idle) := by
  have hne : t.bytes ≠ [] := hts t (by simp)
  have hcat : bytes a ++ t.bytes ++ bytes b = f := by rw [← hbytes]; simp
  have hcollect : trace takeTurn idle a = (⟨.recvToAp, bytes a⟩, []) :=
    collect_run hf (fun u hu => hts u (by simp [hu])) (p := [])
      ⟨t.bytes ++ bytes b, by rw [← hcat]; simp⟩ (by simpa using by omega) (by simpa using hbelow)
  have hpb : bytes a ++ t.bytes <+: f ++ [] := ⟨bytes b, by rw [hcat, List.append_nil]⟩
  have hover' : extSize ≤ (bytes a ++ t.bytes).length := by simpa using hover
  rcases takeTurn_frame hf (by omega) hbelow hne hpb with ⟨-, h2, -⟩ | ⟨h1, -, -⟩ | ⟨-, -, hturn⟩
  · omega
  · omega
  · rw [fullBuffer_unhandled hun] at hturn
    have hsent : sent [Eff.modem (parsedPart t.env f)] = parsedPart t.env f := by simp [sent]
    rw [trace_append, hcollect, trace_cons, hturn]
    dsimp only
    rw [List.nil_append, sent_append, hsent]
    by_cases hb : b = []
    · subst hb
      exact ⟨by simp, fun h => absurd rfl h⟩
    · -- behind the buffer only the closing flag is a flag
      have hbts : ∀ u ∈ b, u.bytes ≠ [] := fun u hu => hts u (by simp [hu])
      have hbne : bytes b ≠ [] := by
        obtain ⟨u, b', rfl⟩ := List.exists_cons_of_ne_nil hb
        simp [hbts u List.mem_cons_self]
      obtain ⟨l, hl, hlb⟩ := (hf.rest hcat (by simp [hne])).resolve_left hbne
      obtain ⟨h1, h2⟩ := cp_run hbts hl hlb
      exact ⟨by rw [h2], fun _ => h1⟩

end

/-- some turn brings the bytes over any bound they reach -/
theorem exists_turn_over (ts : List Turn) {p : List UInt8} {n : ℕ} (h1 : p.length < n)
    (h2 : n ≤ (p ++ bytes ts).length) :
    ∃ a t b, ts = a ++ t :: b ∧ (p ++ bytes a).length < n ∧ n ≤ (p ++ bytes (a ++ [t])).length := by
  induction ts generalizing p with
  | nil =>
    rw [bytes_nil, List.append_nil] at h2
    omega
  | cons t ts ih =>
    by_cases hover : n ≤ (p ++ t.bytes).length
    · exact ⟨[], t, ts, rfl, by simpa using h1, by simpa using hover⟩
    · rw [bytes_cons, ← List.append_assoc] at h2
      obtain ⟨a, u, b, rfl, h3, h4⟩ := ih (not_le.mp hover) h2
      exact ⟨t :: a, u, b, rfl, by simpa using h3, by simpa using h4⟩

/-- **Transparent forwarding.** A single frame that nobody here handles comes in any reads that do not fail. The modem
gets the frame, and the thread is idle again, exactly when no read is left pending and the frame fits the collecting
buffer, or a block ends behind its 8192nd byte and the parser leaves these 8192 bytes as they are. -/
theorem forwarding_iff (f : List UInt8) (hf : IsFrame f) (reads : List Read) (hdata : ∀ r ∈ reads, r.got ≠ none)
    (hstream : stream reads = f) (hun : ∀ t ∈ turns reads, Unhandled t.env f) :
    (sent (run reads).2 = f ∧ (run reads).1 = (none, idle)) ↔
      bytes (turns reads) = f ∧
        (f.length ≤ extSize ∨
          ∃ a t b, turns reads = a ++ t :: b ∧ bytes (a ++ [t]) = f.take extSize ∧
            parsedPart t.env f = f.take extSize) := by
  have hts := turns_ne_nil reads
  have hpos : 0 < extSize := by decide
  rw [run_eq]
  constructor
  · rintro ⟨hsent, hidle⟩
    have hbytes : bytes (turns reads) = f := by
      have h := bytes_turns hdata none
      rw [(Prod.mk.inj hidle).1, hstream] at h
      simpa [turns] using h
    refine ⟨hbytes, ?_⟩
    by_cases hfit : f.length ≤ extSize
    · exact Or.inl hfit
    · right
      obtain ⟨a, t, b, heq, hbelow, hover⟩ :=
        exists_turn_over (turns reads) (p := []) (n := extSize) hpos (by rw [hbytes, List.nil_append]; omega)
      rw [heq] at hts hbytes hun hsent
      have hrun := long_run hf (not_le.mp hfit) hts hbytes (hun t (by simp)) hbelow hover
      have hboth : parsedPart t.env f ++ bytes b = bytes (a ++ [t]) ++ bytes b := by
        calc parsedPart t.env f ++ bytes b = f := by rw [← hrun.1]; exact hsent
          _ = bytes (a ++ [t]) ++ bytes b := by rw [← hbytes]; simp
      have hpart := List.append_cancel_right hboth
      have htake : f.take extSize = parsedPart t.env f := by
        conv_lhs => rw [← hsent, hrun.1]
        exact List.take_left' (length_parsedPart t.env f)
      exact ⟨a, t, b, heq, by rw [htake, hpart], htake.symm⟩
  · rintro ⟨hbytes, hcond⟩
    have hnone := pending_none hdata (by rw [hbytes, hstream])
    rw [hnone]
    by_cases hfit : f.length ≤ extSize
    · obtain ⟨h1, h2⟩ := fit_run hf hfit hts hbytes hun
      exact ⟨h2, by rw [h1]⟩
    · obtain ⟨a, t, b, heq, hcut, hsame⟩ := hcond.resolve_left hfit
      rw [heq] at hts hbytes hun ⊢
      have hcutlen : (bytes (a ++ [t])).length = extSize := by
        rw [hcut, List.length_take]
        omega
      have hbelow : (bytes a).length < extSize := by
        have ht := List.length_pos_of_ne_nil (hts t (by simp))
        rw [← hcutlen]
        simp only [bytes_append, bytes_cons, bytes_nil, List.length_append, List.length_nil]
        omega
      have hcat : bytes (a ++ [t]) ++ bytes b = f := by rw [← hbytes]; simp
      have hb : b ≠ [] := by
        rintro rfl
        have hlen := congrArg List.length hcat
        rw [List.length_append, bytes_nil, List.length_nil] at hlen
        omega
      obtain ⟨h1, h2⟩ := long_run hf (not_le.mp hfit) hts hbytes (hun t (by simp)) hbelow hcutlen.ge
      exact ⟨by rw [h1, hsame, ← hcut, hcat], by rw [h2 hb]⟩

/-- a frame of the modem that comes in two reads -/
theorem forwarding_iff_two_reads :
    (sent (run [dataRead bareEnv [0x7E, 0x01] (by decide), dataRead bareEnv [0x02, 0x7E] (by decide)]).2 = [0x7E, 0x01, 0x02, 0x7E] ∧
        (run [dataRead bareEnv [0x7E, 0x01] (by decide), dataRead bareEnv [0x02, 0x7E] (by decide)]).1 = (none, idle)) ↔
      bytes (turns [dataRead bareEnv [0x7E, 0x01] (by decide), dataRead bareEnv [0x02, 0x7E] (by decide)]) =
          [0x7E, 0x01, 0x02, 0x7E] ∧
        ([(0x7E : UInt8), 0x01, 0x02, 0x7E].length ≤ extSize ∨
          ∃ a t b, turns [dataRead bareEnv [0x7E, 0x01] (by decide), dataRead bareEnv [0x02, 0x7E] (by decide)] = a ++ t :: b ∧
            bytes (a ++ [t]) = [0x7E, 0x01, 0x02, 0x7E].take extSize ∧
            parsedPart t.env [0x7E, 0x01, 0x02, 0x7E] = [0x7E, 0x01, 0x02, 0x7E].take extSize) := by
  apply forwarding_iff
  · exact ⟨[0x01, 0x02], by decide, rfl⟩
  · simp [dataRead]
  · rfl
  · intro t ht
    have hbare : t.env = bareEnv := by
      rcases List.mem_pair.mp ht with rfl | rfl <;> rfl
    rw [hbare]
    decide

/-- a frame of 8193 bytes for the modem -/
def longFrame : List UInt8 := 0x7E :: same 0x01 (extSize - 1) ++ [0x7E]

theorem length_longFrame : longFrame.length = 8193 := by
  rw [longFrame, List.length_append, List.length_cons, length_same]
  rfl

theorem take_longFrame : longFrame.take extSize = 0x7E :: same 0x01 (extSize - 1) := by
  unfold longFrame
  apply List.take_left'
  rw [List.length_cons, length_same]
  rfl

theorem unhandled_longFrame (env : Env) : Unhandled env longFrame := by
  have hlen : (longFrame.take extSize).length ≤ extSize := List.length_take_le extSize longFrame
  unfold Unhandled
  rw [take_longFrame] at hlen ⊢
  rw [engDiagParse_same env (by decide) (by decide) hlen]
  rfl

/-- the long frame in three reads -/
def longReads : List Read :=
  [dataRead bareEnv (0x7E :: same 0x01 3999) (by simp [readSize]), dataRead bareEnv (same 0x01 4000) (by simp [readSize]),
    dataRead bareEnv (same 0x01 192 ++ [0x7E]) (by simp [readSize])]

theorem turns_longReads :
    turns longReads =
      [⟨bareEnv, 0x7E :: same 0x01 3999⟩, ⟨bareEnv, same 0x01 4000⟩] ++ [⟨bareEnv, same 0x01 192 ++ [0x7E]⟩] := by
  have hne : same 0x01 4000 ≠ [] := List.ne_nil_of_length_pos (by simp)
  unfold longReads
  rw [turns_short bareEnv (by simp [readSize]) (by simp), turns_short bareEnv (by simp [readSize]) hne,
    turns_short bareEnv (by simp [readSize]) (by simp)]
  rfl

/-- The closing flag lies in the block that fills the buffer: it is lost. -/
theorem forwarding_drops_flag :
    stream longReads = longFrame ∧ (∀ t ∈ turns longReads, Unhandled t.env longFrame) ∧
      sent (run longReads).2 ≠ longFrame := by
  have hframe : IsFrame longFrame := ⟨same 0x01 (extSize - 1), flag_not_mem_same (by decide) _, rfl⟩
  have hstream : 0x7E :: same 0x01 3999 ++ (same 0x01 4000 ++ (same 0x01 192 ++ [0x7E])) = longFrame := by
    have hsum : 3999 + (4000 + 192) = extSize - 1 := by decide
    unfold longFrame
    rw [← List.append_assoc (same 0x01 4000), same_append, ← List.append_assoc, List.cons_append, same_append, hsum]
  refine ⟨by simpa [stream, longReads, dataRead] using hstream, fun t _ => unhandled_longFrame t.env, ?_⟩
  have hne := turns_ne_nil longReads
  rw [turns_longReads] at hne
  have hlong : extSize < longFrame.length := by
    rw [length_longFrame]
    unfold extSize
    norm_num
  have hfirst : (bytes [⟨bareEnv, 0x7E :: same 0x01 3999⟩, ⟨bareEnv, same 0x01 4000⟩]).length = 8000 := by
    rw [bytes_cons, bytes_cons, bytes_nil, List.append_nil, List.length_append, List.length_cons, length_same, length_same]
  have hlast : (bytes [⟨bareEnv, same 0x01 192 ++ [0x7E]⟩]).length = 193 := by
    rw [bytes_cons, bytes_nil, List.append_nil, List.length_append, length_same]
    rfl
  have hbelow : (bytes [⟨bareEnv, 0x7E :: same 0x01 3999⟩, ⟨bareEnv, same 0x01 4000⟩]).length < extSize := by
    rw [hfirst]
    decide
  have hover : extSize ≤ (bytes ([⟨bareEnv, 0x7E :: same 0x01 3999⟩, ⟨bareEnv, same 0x01 4000⟩] ++
      [⟨bareEnv, same 0x01 192 ++ [0x7E]⟩])).length := by
    rw [bytes_append, List.length_append, hfirst, hlast]
    decide
  have hrun := long_run hframe hlong hne (by simpa using hstream) (unhandled_longFrame bareEnv) hbelow hover
  have hsent : sent (run longReads).2 = parsedPart bareEnv longFrame ++ bytes [] := by
    rw [run_effs, turns_longReads, hrun.1]
  rw [hsent, bytes_nil, List.append_nil]
  intro heq
  have hbad : extSize = longFrame.length := by
    calc extSize = (parsedPart bareEnv longFrame).length := (length_parsedPart bareEnv longFrame).symm
      _ = longFrame.length := congrArg List.length heq
  exact hlong.ne hbad

end SprdDevice.EngMode
