/-
Folds over the whole blocks of a stream that arrives in pieces.

- `blocks n xs`: the whole blocks of n elements of xs, in order; `rest n xs`: what is left behind them;
- `feed n f (s, r) xs`: a state s with the elements r that do not fill a block yet, after xs has arrived;
Results: the induction over the blocks (`blocks_induction`), a piece joins what was left of the pieces before it
(`blocks_append`, `rest_append`), and a stream in pieces is the stream in one piece (`foldl_feed`).
-/
import Mathlib.Tactic

namespace SprdDevice.BlockFold

variable {α σ : Type} {n : ℕ}

def blocks (n : ℕ) (xs : List α) : List (List α) := (List.range (xs.length / n)).map fun k => (xs.drop (n * k)).take n

def rest (n : ℕ) (xs : List α) : List α := xs.drop (n * (xs.length / n))

def feed (n : ℕ) (f : σ → List α → σ) (p : σ × List α) (xs : List α) : σ × List α :=
  ((blocks n (p.2 ++ xs)).foldl f p.1, rest n (p.2 ++ xs))

/-! ## One block -/

theorem length_rest (n : ℕ) (xs : List α) : (rest n xs).length = xs.length % n := by
  rw [rest, List.length_drop]
  exact (Nat.mod_eq_sub_mul_div).symm

theorem length_rest_lt (hn : 0 < n) (xs : List α) : (rest n xs).length < n := by
  rw [length_rest]
  exact Nat.mod_lt _ hn

theorem blocks_short {xs : List α} (h : xs.length < n) : blocks n xs = [] := by
  rw [blocks, Nat.div_eq_of_lt h]
  rfl

theorem rest_short {xs : List α} (h : xs.length < n) : rest n xs = xs := by
  rw [rest, Nat.div_eq_of_lt h]
  rfl

theorem blocks_cons (hn : 0 < n) {b : List α} (hb : b.length = n) (xs : List α) :
    blocks n (b ++ xs) = b :: blocks n xs := by
  have hdiv : (b ++ xs).length / n = xs.length / n + 1 := by
    rw [List.length_append, hb, Nat.add_div_left _ hn]
  rw [blocks, hdiv, List.range_succ_eq_map, List.map_cons, List.map_map]
  congr 1
  · rw [Nat.mul_zero, List.drop_zero, ← hb, List.take_left]
  · apply List.map_congr_left
    intro k _
    have hk : n * (k + 1) = b.length + n * k := by rw [hb]; ring
    simp only [Function.comp_apply, Nat.succ_eq_add_one, hk, List.drop_length_add_append]

theorem rest_cons (hn : 0 < n) {b : List α} (hb : b.length = n) (xs : List α) : rest n (b ++ xs) = rest n xs := by
  have hdiv : (b ++ xs).length / n = xs.length / n + 1 := by
    rw [List.length_append, hb, Nat.add_div_left _ hn]
  have hmul : n * (xs.length / n + 1) = b.length + n * (xs.length / n) := by rw [hb]; ring
  rw [rest, hdiv, hmul, List.drop_length_add_append, rest]

/-- a list is short, or it starts with a block -/
theorem blocks_induction (hn : 0 < n) {P : List α → Prop} (short : ∀ xs, xs.length < n → P xs)
    (block : ∀ b xs, b.length = n → P xs → P (b ++ xs)) (xs : List α) : P xs := by
  generalize hl : xs.length = l
  induction l using Nat.strong_induction_on generalizing xs with
  | _ l ih =>
    by_cases hs : xs.length < n
    · exact short xs hs
    · have hb : (xs.take n).length = n := List.length_take_of_le (by omega)
      have hd : (xs.drop n).length < l := by
        rw [List.length_drop]
        omega
      have hp := block _ _ hb (ih _ hd (xs.drop n) rfl)
      rwa [List.take_append_drop] at hp

/-! ## A stream in pieces -/

theorem blocks_append (hn : 0 < n) (xs ys : List α) : blocks n (xs ++ ys) = blocks n xs ++ blocks n (rest n xs ++ ys) := by
  induction xs using blocks_induction hn with
  | short xs hs => rw [blocks_short hs, rest_short hs, List.nil_append]
  | block b xs hb ih =>
    rw [List.append_assoc, blocks_cons hn hb, ih, blocks_cons hn hb, rest_cons hn hb, List.cons_append]

theorem rest_append (hn : 0 < n) (xs ys : List α) : rest n (xs ++ ys) = rest n (rest n xs ++ ys) := by
  induction xs using blocks_induction hn with
  | short xs hs => rw [rest_short hs]
  | block b xs hb ih => rw [List.append_assoc, rest_cons hn hb, ih, rest_cons hn hb]

/-- what has arrived so far, and one piece more -/
theorem feed_feed (hn : 0 < n) (f : σ → List α → σ) (s : σ) (xs ys : List α) :
    feed n f (feed n f (s, []) xs) ys = feed n f (s, []) (xs ++ ys) := by
  simp only [feed, List.nil_append, Prod.mk.injEq]
  exact ⟨by rw [blocks_append hn xs ys, List.foldl_append], (rest_append hn xs ys).symm⟩

/-- **A stream in pieces is the stream in one piece.** -/
theorem foldl_feed (hn : 0 < n) (f : σ → List α → σ) (s : σ) (pieces : List (List α)) :
    pieces.foldl (feed n f) (s, []) = feed n f (s, []) pieces.flatten := by
  induction pieces using List.reverseRecOn with
  | nil =>
    simp only [List.foldl_nil, List.flatten_nil, feed, List.append_nil]
    rw [blocks_short (by simpa using hn), rest_short (by simpa using hn), List.foldl_nil]
  | append_singleton pieces p ih =>
    rw [List.foldl_concat, ih, feed_feed hn, List.flatten_append]
    simp

end SprdDevice.BlockFold
