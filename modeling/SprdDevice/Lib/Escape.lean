/-
Byte stuffing as HDLC does it: a flag byte 0x7E marks the ends of a frame, and inside the frame 0x7E is sent as 0x7D 0x5E
and 0x7D as 0x7D 0x5D.

`stuff` is the escaped form of a byte string and `frame` the string between two flags. `unstuff` undoes the escapes, and
`deframe` gives the strings that stand between the flags of a stream, the empty ones left out.

Results: `flag_not_mem_stuff` (a stuffed string carries no flag), `stuff_append`, `length_stuff` and `deframe_frames` (a
stream of frames has the strings they were made of).
-/
import Mathlib.Tactic

namespace SprdDevice.Escape

/-- the byte that ends a frame -/
def flag : UInt8 := 0x7E

/-- the byte that announces an escaped one -/
def esc : UInt8 := 0x7D

/-- one byte as it is sent -/
def stuffByte (b : UInt8) : List UInt8 :=
  if b = 0x7E then [0x7D, 0x5E] else if b = 0x7D then [0x7D, 0x5D] else [b]

/-- a byte string as it is sent -/
def stuff (p : List UInt8) : List UInt8 := p.flatMap stuffByte

/-- a whole frame: the string between two flags -/
def frame (p : List UInt8) : List UInt8 := flag :: stuff p ++ [flag]

/-- an escaped byte differs from the one it is sent for in this bit -/
def escMask : UInt8 := 0x20

def unstuff : List UInt8 → List UInt8
  | [] => []
  | [a] => if a = esc then [] else [a]
  | a :: b :: rest => if a = esc then (b ^^^ escMask) :: unstuff rest else a :: unstuff (b :: rest)

def deframe (stream : List UInt8) : List (List UInt8) :=
  ((stream.splitOn flag).filter fun piece => piece ≠ []).map unstuff

@[simp] theorem stuff_nil : stuff [] = [] := rfl

@[simp] theorem stuff_cons (b : UInt8) (p : List UInt8) : stuff (b :: p) = stuffByte b ++ stuff p := rfl

theorem stuff_append (p q : List UInt8) : stuff (p ++ q) = stuff p ++ stuff q := by
  unfold stuff
  exact List.flatMap_append

theorem flag_not_mem_stuffByte (b : UInt8) : flag ∉ stuffByte b := by
  unfold stuffByte flag
  split_ifs with hf he
  · decide
  · decide
  · simpa using Ne.symm hf

/-- A stuffed string carries no flag. -/
theorem flag_not_mem_stuff (p : List UInt8) : flag ∉ stuff p := by
  intro hmem
  obtain ⟨b, -, hb⟩ := List.mem_flatMap.mp hmem
  exact flag_not_mem_stuffByte b hb

/-- each flag and each escape byte costs one more -/
theorem length_stuff (p : List UInt8) : (stuff p).length = p.length + p.countP (fun b => b = 0x7D ∨ b = 0x7E) := by
  induction p with
  | nil => rfl
  | cons b p ih =>
    have hb : (stuffByte b).length = if b = 0x7D ∨ b = 0x7E then 2 else 1 := by
      unfold stuffByte
      split_ifs <;> simp_all
    rw [stuff_cons, List.length_append, ih, hb, List.countP_cons, List.length_cons]
    split_ifs <;> simp_all <;> omega

theorem length_le_stuff (p : List UInt8) : p.length ≤ (stuff p).length := by
  rw [length_stuff]
  exact Nat.le_add_right ..

theorem length_frame (p : List UInt8) : (frame p).length = (stuff p).length + 2 := by
  simp [frame]

/-! ## Receiving -/

theorem unstuff_cons {a : UInt8} (h : a ≠ esc) (rest : List UInt8) : unstuff (a :: rest) = a :: unstuff rest := by
  cases rest <;> simp [unstuff, h]

theorem unstuff_stuffByte (b : UInt8) (rest : List UInt8) : unstuff (stuffByte b ++ rest) = b :: unstuff rest := by
  unfold stuffByte
  split_ifs with hf he
  · subst hf
    rfl
  · subst he
    rfl
  · exact unstuff_cons he rest

theorem unstuff_stuff (p : List UInt8) : unstuff (stuff p) = p := by
  induction p with
  | nil => rfl
  | cons b p ih => rw [stuff_cons, unstuff_stuffByte, ih]

theorem stuff_ne_nil {p : List UInt8} (h : p ≠ []) : stuff p ≠ [] := by
  intro hnil
  have hlen := length_le_stuff p
  rw [hnil, List.length_nil, Nat.le_zero, List.length_eq_zero_iff] at hlen
  exact h hlen

theorem deframe_frame_append {p : List UInt8} (h : p ≠ []) (stream : List UInt8) :
    deframe (frame p ++ stream) = p :: deframe stream := by
  have hpiece : ∀ c ∈ stuff p, (c == flag) = false := by
    intro c hc
    rw [beq_eq_false_iff_ne]
    rintro rfl
    exact flag_not_mem_stuff p hc
  have hsplit : (frame p ++ stream).splitOn flag = [] :: stuff p :: stream.splitOn flag := by
    have hframe : frame p ++ stream = [] ++ flag :: (stuff p ++ flag :: stream) := by simp [frame]
    simp only [List.splitOn_eq_splitOnP]
    rw [hframe, List.splitOnP_append_cons_of_forall_mem (by simp) flag (by simp),
      List.splitOnP_append_cons_of_forall_mem hpiece flag (by simp)]
  unfold deframe
  rw [hsplit, List.filter_cons_of_neg (by simp), List.filter_cons_of_pos (by simpa using stuff_ne_nil h), List.map_cons,
    unstuff_stuff]

/-- **A stream of frames has their packets, in order.** -/
theorem deframe_frames {ps : List (List UInt8)} (h : ∀ p ∈ ps, p ≠ []) : deframe (ps.flatMap frame) = ps := by
  induction ps with
  | nil => rfl
  | cons p ps ih =>
    rw [List.flatMap_cons, deframe_frame_append (h p List.mem_cons_self),
      ih fun q hq => h q (List.mem_cons_of_mem p hq)]

end SprdDevice.Escape
