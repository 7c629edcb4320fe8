/-
Machines with output: a step takes a state and an input to a new state and a list of outputs.

- `trace step s ops`: the state after the inputs and everything put out on the way;
- `cascade f g`: two machines in a row, the second fed with what the first puts out.

Results: a run in two parts (`trace_append`), two machines in a row as one run after the other (`trace_cascade`), and the
invariant rules `trace_inv` and `trace_outputs`.
-/
import Mathlib.Tactic

namespace SprdDevice.Trace

variable {S T O P E : Type}

def trace (step : S → O → S × List E) : S → List O → S × List E
  | s, [] => (s, [])
  | s, o :: ops =>
    let (s', e) := step s o
    let (s'', es) := trace step s' ops
    (s'', e ++ es)

def cascade (f : S → O → S × List P) (g : T → P → T × List E) (st : S × T) (o : O) : (S × T) × List E :=
  let (s', ps) := f st.1 o
  let (t', es) := trace g st.2 ps
  ((s', t'), es)

@[simp] theorem trace_nil (step : S → O → S × List E) (s : S) : trace step s [] = (s, []) := rfl

theorem trace_cons (step : S → O → S × List E) (s : S) (o : O) (ops : List O) :
    trace step s (o :: ops) =
      ((trace step (step s o).1 ops).1, (step s o).2 ++ (trace step (step s o).1 ops).2) := rfl

theorem trace_append (step : S → O → S × List E) (s : S) (a b : List O) :
    trace step s (a ++ b) =
      ((trace step (trace step s a).1 b).1, (trace step s a).2 ++ (trace step (trace step s a).1 b).2) := by
  induction a generalizing s with
  | nil => simp
  | cons o a ih => simp only [List.cons_append, trace_cons, ih, List.append_assoc]

theorem trace_fst (step : S → O → S × List E) (s : S) (ops : List O) :
    (trace step s ops).1 = ops.foldl (fun s o => (step s o).1) s := by
  induction ops generalizing s with
  | nil => rfl
  | cons o ops ih => exact ih _

/-- **Cascade.** Two machines in a row: the first runs on the inputs, the second on what the first has put out. -/
theorem trace_cascade (f : S → O → S × List P) (g : T → P → T × List E) (s : S) (t : T) (ops : List O) :
    trace (cascade f g) (s, t) ops =
      (((trace f s ops).1, (trace g t (trace f s ops).2).1), (trace g t (trace f s ops).2).2) := by
  induction ops generalizing s t with
  | nil => rfl
  | cons o ops ih =>
    rw [trace_cons, trace_cons f, trace_append g]
    have hstep : cascade f g (s, t) o = (((f s o).1, (trace g t (f s o).2).1), (trace g t (f s o).2).2) := rfl
    rw [hstep, ih]

/-- an invariant that every step keeps holds after the run -/
theorem trace_inv {step : S → O → S × List E} (Inv : S → Prop) (h : ∀ s o, Inv s → Inv (step s o).1) {s : S}
    (hs : Inv s) (ops : List O) : Inv (trace step s ops).1 := by
  induction ops generalizing s with
  | nil => exact hs
  | cons o ops ih => exact ih (h s o hs)

/-- under an invariant that every step keeps, what holds of the outputs of one step holds of the outputs of the run -/
theorem trace_outputs {step : S → O → S × List E} (Inv : S → Prop) {P : E → Prop}
    (h : ∀ s o, Inv s → Inv (step s o).1 ∧ ∀ e ∈ (step s o).2, P e) {s : S} (hs : Inv s) (ops : List O) :
    ∀ e ∈ (trace step s ops).2, P e := by
  induction ops generalizing s with
  | nil => simp
  | cons o ops ih =>
    intro e he
    rw [trace_cons, List.mem_append] at he
    obtain ⟨hinv, hout⟩ := h s o hs
    rcases he with he | he
    · exact hout e he
    · exact ih hinv e he

end SprdDevice.Trace
