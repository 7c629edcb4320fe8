/-
Runs of a step function, and what holds along them: `Along step P s ops` says that P holds of every step of the run from
s, of the state before the step and the operation.

Results: an invariant that every step keeps under a condition holds along every run whose steps meet the condition
(`along_of_inv`, `inv_of_along`; `along_iff_inv` where the condition is exact, `along_congr` for two conditions), and
`Along` splits over a run in two parts (`along_append`). A loop whose turns each write a slot of their own leaves each slot as its own turn does
(`foldl_slot`); a loop with one turn that does something does what that turn does (`foldl_only`).
-/
import Mathlib.Tactic

namespace SprdDevice.Run

variable {S O : Type}

def Along (step : S → O → S) (P : S → O → Prop) : S → List O → Prop
  | _, [] => True
  | s, o :: ops => P s o ∧ Along step P (step s o) ops

instance decidableAlong (step : S → O → S) (P : S → O → Prop) [∀ s o, Decidable (P s o)] :
    (s : S) → (ops : List O) → Decidable (Along step P s ops)
  | _, [] => inferInstanceAs (Decidable True)
  | s, o :: ops =>
    have := decidableAlong step P (step s o) ops
    inferInstanceAs (Decidable (P s o ∧ Along step P (step s o) ops))

theorem along_append {step : S → O → S} {P : S → O → Prop} (s : S) (a b : List O) :
    Along step P s (a ++ b) ↔ Along step P s a ∧ Along step P (a.foldl step s) b := by
  induction a generalizing s with
  | nil => simp [Along]
  | cons o a ih => simp [Along, ih, and_assoc]

/-- a run along which P does not hold has a first step without it -/
theorem exists_of_not_along {step : S → O → S} {P : S → O → Prop} {s : S} {ops : List O}
    (h : ¬ Along step P s ops) :
    ∃ pre o suf, ops = pre ++ o :: suf ∧ Along step P s pre ∧ ¬ P (pre.foldl step s) o := by
  induction ops generalizing s with
  | nil => exact absurd trivial h
  | cons o ops ih =>
    by_cases hp : P s o
    · obtain ⟨pre, o', suf, rfl, h1, h2⟩ := ih fun ha => h ⟨hp, ha⟩
      exact ⟨o :: pre, o', suf, rfl, ⟨hp, h1⟩, h2⟩
    · exact ⟨[], o, ops, rfl, trivial, hp⟩

theorem along_and {step : S → O → S} {P Q : S → O → Prop} {s : S} {ops : List O} (hp : Along step P s ops)
    (hq : Along step Q s ops) : Along step (fun s o => P s o ∧ Q s o) s ops := by
  induction ops generalizing s with
  | nil => trivial
  | cons o ops ih => exact ⟨⟨hp.1, hq.1⟩, ih hp.2 hq.2⟩

theorem along_forall {step : S → O → S} {P : O → Prop} {s : S} {ops : List O} (h : ∀ o ∈ ops, P o) :
    Along step (fun _ o => P o) s ops := by
  induction ops generalizing s with
  | nil => trivial
  | cons o ops ih => exact ⟨h o List.mem_cons_self, ih fun o' ho' => h o' (List.mem_cons_of_mem _ ho')⟩

/-- **Invariant rule.** Under the condition Q, a step from a state with the invariant has P and keeps the invariant;
then P holds along every run whose steps meet Q -/
theorem along_of_inv {step : S → O → S} (Inv : S → Prop) {P Q : S → O → Prop}
    (h : ∀ s o, Inv s → Q s o → P s o ∧ Inv (step s o)) {s : S} {ops : List O} (hs : Inv s)
    (hq : Along step Q s ops) : Along step P s ops := by
  induction ops generalizing s with
  | nil => trivial
  | cons o ops ih =>
    obtain ⟨h1, h2⟩ := h s o hs hq.1
    exact ⟨h1, ih h2 hq.2⟩

theorem inv_of_along {step : S → O → S} {Inv : S → Prop} {Q : S → O → Prop}
    (h : ∀ s o, Inv s → Q s o → Inv (step s o)) {s : S} {ops : List O} (hs : Inv s) (hq : Along step Q s ops) :
    Inv (ops.foldl step s) := by
  induction ops generalizing s with
  | nil => exact hs
  | cons o ops ih => exact ih (h s o hs hq.1) hq.2

/-- where a step from a state with the invariant keeps it exactly under Q, a run keeps it exactly when all its steps
meet Q -/
theorem along_iff_inv {step : S → O → S} {Inv : S → Prop} {Q : S → O → Prop}
    (h : ∀ s o, Inv s → (Q s o ↔ Inv (step s o))) {s : S} (hs : Inv s) (ops : List O) :
    Along step Q s ops ↔ Along step (fun s o => Inv (step s o)) s ops := by
  induction ops generalizing s with
  | nil => exact Iff.rfl
  | cons o ops ih =>
    constructor
    · rintro ⟨hq, hrest⟩
      have hinv := (h s o hs).1 hq
      exact ⟨hinv, (ih hinv).1 hrest⟩
    · rintro ⟨hinv, hrest⟩
      exact ⟨(h s o hs).2 hinv, (ih hinv).2 hrest⟩

/-- two conditions that agree where the invariant holds, on the operations with R -/
theorem along_congr {step : S → O → S} (Inv : S → Prop) {P Q : S → O → Prop} {R : O → Prop}
    (h : ∀ s o, Inv s → R o → (P s o ↔ Q s o) ∧ Inv (step s o)) {s : S} (hs : Inv s) {ops : List O}
    (hR : ∀ o ∈ ops, R o) : Along step P s ops ↔ Along step Q s ops := by
  induction ops generalizing s with
  | nil => exact Iff.rfl
  | cons o ops ih =>
    obtain ⟨hiff, hinv⟩ := h s o hs (hR o (List.mem_cons_self ..))
    exact and_congr hiff (ih hinv fun o' ho' => hR o' (List.mem_cons_of_mem o ho'))

/-! ## Loops -/

theorem foldl_idle {step : S → O → S} {l : List O} (h : ∀ o ∈ l, ∀ s, step s o = s) (s : S) : l.foldl step s = s := by
  induction l with
  | nil => rfl
  | cons o l ih =>
    rw [List.foldl_cons, h o List.mem_cons_self]
    exact ih fun o' ho' => h o' (List.mem_cons_of_mem _ ho')

/-- A loop in which at most one turn does anything is that turn -/
theorem foldl_only {step : S → O → S} {l : List O} {o : O} (hl : l.Nodup) (ho : o ∈ l)
    (h : ∀ o' ∈ l, o' ≠ o → ∀ s, step s o' = s) (s : S) : l.foldl step s = step s o := by
  obtain ⟨a, b, rfl⟩ := List.append_of_mem ho
  have hother := (List.nodup_middle.1 hl).notMem
  have hrest : ∀ o' ∈ a ++ b, ∀ s, step s o' = s := by
    intro o' ho'
    apply h o' (List.perm_middle.mem_iff.2 (List.mem_cons_of_mem _ ho'))
    rintro rfl
    exact hother ho'
  rw [List.foldl_append, List.foldl_cons, foldl_idle fun o' ho' => hrest o' (List.mem_append_left _ ho')]
  exact foldl_idle (fun o' ho' => hrest o' (List.mem_append_right _ ho')) _

/-- what holds between the states before and after each turn, and composes, holds over the loop -/
theorem foldl_rel {step : S → O → S} {R : S → S → Prop} (refl : ∀ s, R s s)
    (trans : ∀ {a b c}, R a b → R b c → R a c) (h : ∀ s o, R s (step s o)) (s : S) (l : List O) :
    R s (l.foldl step s) := by
  induction l generalizing s with
  | nil => exact refl s
  | cons o l ih => exact trans (h s o) (ih (step s o))

theorem foldl_slot_frame {B : Type} {step : S → O → S} {get : S → O → B}
    (frame : ∀ s i j, j ≠ i → get (step s i) j = get s j) (s : S) {l : List O} {i : O} (hi : i ∉ l) :
    get (l.foldl step s) i = get s i := by
  induction l generalizing s with
  | nil => rfl
  | cons j l ih =>
    rw [List.mem_cons, not_or] at hi
    rw [List.foldl_cons, ih (step s j) hi.2, frame s j i hi.1]

/-- **Slot rule.** In a loop whose turn i writes slot i only, a slot ends as its own turn leaves it, and that turn finds
it as it was before the loop -/
theorem foldl_slot {B : Type} {step : S → O → S} {get : S → O → B}
    (frame : ∀ s i j, j ≠ i → get (step s i) j = get s j) (s : S) {l : List O} (hl : l.Nodup) {i : O} (hi : i ∈ l) :
    ∃ s', get s' i = get s i ∧ get (l.foldl step s) i = get (step s' i) i := by
  induction l generalizing s with
  | nil => exact absurd hi List.not_mem_nil
  | cons j l ih =>
    rw [List.nodup_cons] at hl
    rw [List.foldl_cons]
    by_cases hj : i = j
    · subst hj
      exact ⟨s, rfl, foldl_slot_frame frame (step s i) hl.1⟩
    · obtain ⟨s', h1, h2⟩ := ih (step s j) hl.2 ((List.mem_cons.1 hi).resolve_left hj)
      exact ⟨s', h1.trans (frame s j i hj), h2⟩

end SprdDevice.Run
