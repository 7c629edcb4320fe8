/-
Search in a text: occurrences of a pattern, and the first index from a place on.

- `Occ pat m i`: the pattern lies at index i of the text m;
- `First p s i`: i is the least index from s on with the property p;
- `firstFrom p s e`: this index, when it lies below e;
- `FirstMin f s e i`: f is least at i between s and e, and nowhere before;
- `Unbordered pat`: the pattern does not overlap itself, so that two occurrences do not overlap;
- `Miss pat w`: a try at the pattern that breaks off at the last character of w; `AfterMisses pat m`: an occurrence that
  is found by one try after another, each beginning behind the character at which the one before broke off.
Result on these tries: `afterMisses_every_iff` (they find the pattern in every text only if its characters are all equal).
-/
import Mathlib.Tactic

namespace SprdDevice.Search

/-! ## The first index -/

structure First (p : ℕ → Prop) (s i : ℕ) : Prop where
  le : s ≤ i
  holds : p i
  least : ∀ j, s ≤ j → j < i → ¬ p j

def firstFrom (p : ℕ → Prop) [DecidablePred p] (s e : ℕ) : Option ℕ :=
  (List.range' s (e - s)).find? fun i => decide (p i)

section FirstFrom

variable {p : ℕ → Prop} {s s' e i j : ℕ}

theorem First.unique (hi : First p s i) (hj : First p s j) : i = j := by
  rcases Nat.lt_trichotomy i j with h | h | h
  · exact absurd hi.holds (hj.least i hi.le h)
  · exact h
  · exact absurd hj.holds (hi.least j hj.le h)

/-- a later start, when nothing lies between -/
theorem First.of_later (h : First p s' i) (hs : s ≤ s') (hno : ∀ j, s ≤ j → j < s' → ¬ p j) : First p s i := by
  refine ⟨hs.trans h.le, h.holds, fun j hj hji => ?_⟩
  by_cases hjs : j < s'
  · exact hno j hj hjs
  · exact h.least j (Nat.not_lt.mp hjs) hji

theorem First.later (h : First p s i) (hs : s ≤ s') (hi : s' ≤ i) : First p s' i :=
  ⟨hi, h.holds, fun j hj hji => h.least j (hs.trans hj) hji⟩

theorem exists_first (h : ∃ i, s ≤ i ∧ p i) : ∃ i, First p s i := by
  classical
  obtain ⟨hle, hp⟩ := Nat.find_spec h
  exact ⟨Nat.find h, hle, hp, fun j hj hji hpj => Nat.find_min h hji ⟨hj, hpj⟩⟩

variable [DecidablePred p]

theorem firstFrom_eq_some : firstFrom p s e = some i ↔ First p s i ∧ i < e := by
  rw [firstFrom, List.find?_range'_eq_some, List.mem_range'_1, decide_eq_true_eq]
  constructor
  · rintro ⟨hp, hi, hleast⟩
    refine ⟨⟨hi.1, hp, fun j hj hji => ?_⟩, by omega⟩
    simpa using hleast j hj hji
  · rintro ⟨h, hi⟩
    refine ⟨h.holds, ⟨h.le, ?_⟩, fun j hj hji => ?_⟩
    · have hle := h.le
      omega
    · simpa using h.least j hj hji

theorem firstFrom_eq_none : firstFrom p s e = none ↔ ∀ i, s ≤ i → i < e → ¬ p i := by
  rw [firstFrom, List.find?_range'_eq_none]
  constructor
  · intro h i hi hie
    simpa using h i hi (by omega)
  · intro h i hi hie
    simpa using h i hi (by omega)

end FirstFrom

/-! ## The first least value -/

structure FirstMin {β : Type} [LinearOrder β] (f : ℕ → β) (s e i : ℕ) : Prop where
  le : s ≤ i
  lt : i < e
  least : ∀ j, s ≤ j → j < e → f i ≤ f j
  before : ∀ j, s ≤ j → j < i → f i < f j

section FirstMin

variable {β : Type} [LinearOrder β] {f : ℕ → β} {s e i : ℕ}

theorem firstMin_single (f : ℕ → β) (n : ℕ) : FirstMin f n (n + 1) n where
  le := le_rfl
  lt := Nat.lt_succ_self n
  least j hj hjn := by rw [Nat.le_antisymm hj (Nat.lt_succ_iff.1 hjn)]
  before j hj hjn := absurd hjn (Nat.not_lt.2 hj)

/-- a lower value behind the end -/
theorem FirstMin.lower (h : FirstMin f s e i) (hlt : f e < f i) : FirstMin f s (e + 1) e where
  le := h.le.trans h.lt.le
  lt := Nat.lt_succ_self e
  least j hj hje := by
    rcases Nat.lt_succ_iff_lt_or_eq.1 hje with hlow | rfl
    · exact hlt.le.trans (h.least j hj hlow)
    · exact le_rfl
  before j hj hje := hlt.trans_le (h.least j hj hje)

/-- a value behind the end that is not lower -/
theorem FirstMin.keep (h : FirstMin f s e i) (hle : f i ≤ f e) : FirstMin f s (e + 1) i where
  le := h.le
  lt := Nat.lt_succ_of_lt h.lt
  least j hj hje := by
    rcases Nat.lt_succ_iff_lt_or_eq.1 hje with hlow | rfl
    · exact h.least j hj hlow
    · exact hle
  before := h.before

/-- the least value keeps within a bound when some value does -/
theorem FirstMin.le_iff (h : FirstMin f s e i) (b : β) : f i ≤ b ↔ ∃ j, s ≤ j ∧ j < e ∧ f j ≤ b := by
  constructor
  · intro hi
    exact ⟨i, h.le, h.lt, hi⟩
  · rintro ⟨j, hj, hje, hb⟩
    exact (h.least j hj hje).trans hb

end FirstMin

/-! ## Occurrences -/

section Occurrences

variable {α : Type}

def Occ (pat m : List α) (i : ℕ) : Prop := pat <+: m.drop i

instance [DecidableEq α] (pat m : List α) : DecidablePred (Occ pat m) := fun i =>
  inferInstanceAs (Decidable (pat <+: m.drop i))

/-- no end of the pattern is a beginning of it -/
def Unbordered (pat : List α) : Prop := ∀ k < pat.length, 0 < k → ¬ pat.drop k <+: pat

instance [DecidableEq α] (pat : List α) : Decidable (Unbordered pat) :=
  inferInstanceAs (Decidable (∀ k < pat.length, 0 < k → ¬ pat.drop k <+: pat))

variable {pat m : List α} {i j : ℕ}

theorem Occ.length_le (h : Occ pat m i) (hne : pat ≠ []) : i + pat.length ≤ m.length := by
  have hle := List.IsPrefix.length_le h
  have hpos := List.length_pos_iff.mpr hne
  rw [List.length_drop] at hle
  omega

/-- the characters of an occurrence -/
theorem Occ.getElem? (h : Occ pat m i) {k : ℕ} (hk : k < pat.length) : m[i + k]? = pat[k]? := by
  obtain ⟨rest, hrest⟩ := h
  rw [← List.getElem?_drop, ← hrest, List.getElem?_append_left hk]

/-- an index whose character the pattern does not have lies outside of an occurrence -/
theorem Occ.outside (h : Occ pat m i) {c : α} (hc : c ∉ pat) {q : ℕ} (hq : m[q]? = some c) : q < i ∨ i + pat.length ≤ q := by
  by_contra hin
  have hk : q - i < pat.length := by omega
  have hget := h.getElem? hk
  rw [Nat.add_sub_cancel' (by omega), hq] at hget
  exact hc (List.mem_of_getElem? hget.symm)

/-- **Two occurrences do not overlap.** -/
theorem Occ.apart (hb : Unbordered pat) (hi : Occ pat m i) (hj : Occ pat m j) (hij : i < j) : i + pat.length ≤ j := by
  by_contra hlt
  have hk : j - i < pat.length := by omega
  apply hb (j - i) hk (by omega)
  have hdrop : pat.drop (j - i) <+: m.drop j := by
    have hd := List.IsPrefix.drop hi (j - i)
    rw [List.drop_drop, Nat.add_sub_cancel' hij.le] at hd
    exact hd
  exact List.prefix_of_prefix_length_le hdrop hj (by rw [List.length_drop]; omega)

end Occurrences

/-! ## Tries that begin again behind a mismatch -/

section Misses

variable {α : Type}

/-- a beginning of the pattern, and a character with which the pattern does not go on -/
def Miss (pat w : List α) : Prop := ∃ k c, k < pat.length ∧ pat[k]? ≠ some c ∧ w = pat.take k ++ [c]

/-- the characters before some occurrence are misses, one behind the other -/
def AfterMisses (pat m : List α) : Prop := ∃ ws : List (List α), (∀ w ∈ ws, Miss pat w) ∧ ws.flatten ++ pat <+: m

variable {pat m w w' : List α} {a c : α}

theorem miss_here (h : a ≠ c) : Miss (a :: pat) [c] :=
  ⟨0, c, Nat.succ_pos _, by simpa using h, rfl⟩

theorem Miss.there (h : Miss pat w) : Miss (a :: pat) (a :: w) := by
  obtain ⟨k, c, hk, hc, rfl⟩ := h
  exact ⟨k + 1, c, Nat.succ_lt_succ hk, by simpa using hc, rfl⟩

/-- every text is a beginning of the pattern, or begins with the pattern or with a miss -/
theorem try_cases (pat m : List α) :
    (∃ k < pat.length, m = pat.take k) ∨ pat <+: m ∨ ∃ w m', Miss pat w ∧ m = w ++ m' := by
  classical
  induction pat generalizing m with
  | nil => exact Or.inr (Or.inl List.nil_prefix)
  | cons a pat ih =>
    cases m with
    | nil => exact Or.inl ⟨0, Nat.succ_pos _, rfl⟩
    | cons c m =>
      by_cases h : a = c
      · subst h
        rcases ih m with ⟨k, hk, rfl⟩ | hpat | ⟨w, m', hw, rfl⟩
        · exact Or.inl ⟨k + 1, Nat.succ_lt_succ hk, rfl⟩
        · exact Or.inr (Or.inl (by simpa using hpat))
        · exact Or.inr (Or.inr ⟨a :: w, m', hw.there, rfl⟩)
      · exact Or.inr (Or.inr ⟨[c], m, miss_here h, rfl⟩)

/-- induction over the tries -/
theorem try_induction (pat : List α) {P : List α → Prop} (short : ∀ k < pat.length, P (pat.take k))
    (found : ∀ m, pat <+: m → P m) (miss : ∀ w m, Miss pat w → P m → P (w ++ m)) (m : List α) : P m := by
  induction hn : m.length using Nat.strong_induction_on generalizing m with
  | _ n ih =>
    rcases try_cases pat m with ⟨k, hk, rfl⟩ | hpat | ⟨w, m', hw, rfl⟩
    · exact short k hk
    · exact found m hpat
    · have hpos : 0 < w.length := by
        obtain ⟨k, c, -, -, rfl⟩ := hw
        simp
      have hlt : m'.length < n := by
        rw [← hn, List.length_append]
        omega
      exact miss w m' hw (ih _ hlt m' rfl)

/-- a miss ends at the first place where text and pattern differ -/
theorem Miss.first (h : Miss pat w) (hw : w <+: m) :
    ∃ k < pat.length, First (fun j => m[j]? ≠ pat[j]?) 0 k ∧ w = m.take (k + 1) := by
  obtain ⟨k, c, hk, hc, rfl⟩ := h
  obtain ⟨rest, rfl⟩ := hw
  have hlen : (pat.take k).length = k := List.length_take_of_le hk.le
  refine ⟨k, hk, ⟨Nat.zero_le _, ?_, fun j _ hj => ?_⟩, ?_⟩
  · intro heq
    apply hc
    rw [← heq, List.append_assoc, List.getElem?_append_right (by rw [hlen]), hlen, Nat.sub_self]
    rfl
  · rw [not_not, List.append_assoc, List.getElem?_append_left (by rw [hlen]; exact hj), List.getElem?_take_of_lt hj]
  · rw [List.take_left' (by simp [hlen])]

theorem Miss.unique (h : Miss pat w) (h' : Miss pat w') (hw : w <+: m) (hw' : w' <+: m) : w = w' := by
  obtain ⟨k, -, hk, rfl⟩ := h.first hw
  obtain ⟨k', -, hk', rfl⟩ := h'.first hw'
  rw [hk.unique hk']

theorem Miss.not_begins (h : Miss pat w) (hw : w <+: m) : ¬ pat <+: m := by
  rintro ⟨rest, rfl⟩
  obtain ⟨k, hlt, hk, -⟩ := h.first hw
  exact hk.holds (List.getElem?_append_left hlt)

theorem afterMisses_found (h : pat <+: m) : AfterMisses pat m := ⟨[], by simp, h⟩

theorem AfterMisses.isInfix (h : AfterMisses pat m) : pat <:+: m := by
  obtain ⟨ws, -, rest, rfl⟩ := h
  exact ⟨ws.flatten, rest, rfl⟩

/-- a miss at the beginning of the text can be left out -/
theorem afterMisses_append (h : Miss pat w) : AfterMisses pat (w ++ m) ↔ AfterMisses pat m := by
  constructor
  · rintro ⟨ws, hws, hpre⟩
    cases ws with
    | nil => exact absurd hpre (h.not_begins (List.prefix_append w m))
    | cons w' ws =>
      rw [List.flatten_cons, List.append_assoc] at hpre
      have hfirst : w' <+: w ++ m := (List.prefix_append w' _).trans hpre
      obtain rfl := h.unique (hws w' List.mem_cons_self) (List.prefix_append w m) hfirst
      exact ⟨ws, fun v hv => hws v (List.mem_cons_of_mem _ hv), (List.prefix_append_right_inj w).1 hpre⟩
  · rintro ⟨ws, hws, hpre⟩
    refine ⟨w :: ws, List.forall_mem_cons.2 ⟨h, hws⟩, ?_⟩
    rw [List.flatten_cons, List.append_assoc]
    exact (List.prefix_append_right_inj w).2 hpre

/-- characters that are not the first one of the pattern do no harm -/
theorem afterMisses_clean (pre rest : List α) (h : a ∉ pre) : AfterMisses (a :: pat) (pre ++ (a :: pat ++ rest)) := by
  induction pre with
  | nil => exact afterMisses_found (List.prefix_append _ _)
  | cons c pre ih =>
    rw [List.mem_cons, not_or] at h
    exact (afterMisses_append (miss_here h.1)).2 (ih h.2)

theorem occ_of_infix (h : pat <:+: m) : ∃ i, Occ pat m i := by
  obtain ⟨pre, rest, rfl⟩ := h
  refine ⟨pre.length, ?_⟩
  rw [Occ, List.append_assoc, List.drop_left]
  exact List.prefix_append pat rest

/-- a miss whose last character the pattern does not have overlaps no occurrence -/
theorem infix_behind (hc : c ∉ pat) (pre : List α) (hpre : pre.length < pat.length) (h : pat <:+: pre ++ c :: m) :
    pat <:+: m := by
  obtain ⟨i, hi⟩ := occ_of_infix h
  have hplace : (pre ++ c :: m)[pre.length]? = some c := by
    rw [List.getElem?_append_right le_rfl, Nat.sub_self]
    rfl
  have hlt : pre.length < i := by
    rcases hi.outside hc hplace with h1 | h2
    · exact h1
    · omega
  have hdrop : (pre ++ c :: m).drop i = m.drop (i - pre.length - 1) := by
    rw [List.drop_append, List.drop_eq_nil_of_le hlt.le, List.nil_append]
    obtain ⟨j, hj⟩ : ∃ j, i - pre.length = j + 1 := ⟨i - pre.length - 1, by omega⟩
    rw [hj, List.drop_succ_cons, Nat.add_sub_cancel]
  rw [Occ, hdrop] at hi
  exact hi.isInfix.trans (List.drop_suffix _ _).isInfix

theorem eq_of_prefix_cons (h : pat <+: a :: pat) : ∀ x ∈ pat, x = a := by
  induction pat generalizing a with
  | nil => simp
  | cons b pat ih =>
    obtain ⟨rfl, hpat⟩ := List.cons_prefix_cons.1 h
    exact List.forall_mem_cons.2 ⟨rfl, ih hpat⟩

/-- **When the tries miss nothing.** A pattern with two different characters has a text in which it is missed. -/
theorem afterMisses_every_iff (pat : List α) :
    (∀ m, pat <:+: m → AfterMisses pat m) ↔ ∀ x ∈ pat, ∀ y ∈ pat, x = y := by
  constructor
  · intro hall
    cases pat with
    | nil => simp
    | cons a t =>
      -- the pattern behind one more of its first character
      have hpre : a :: t <+: a :: a :: t := by
        rcases try_cases (a :: t) (a :: a :: t) with ⟨k, hk, htake⟩ | hpat | ⟨w, m', hw, hm⟩
        · have hlen := congrArg List.length htake
          rw [List.length_take_of_le hk.le, List.length_cons] at hlen
          omega
        · exact hpat
        · have hin : a :: t <:+: w ++ m' := hm ▸ (List.suffix_cons a (a :: t)).isInfix
          have hlen := ((afterMisses_append hw).1 (hall _ hin)).isInfix.length_le
          obtain ⟨k, c, hk, hc, rfl⟩ := hw
          have hk0 : k = 0 := by
            have hsum := congrArg List.length hm
            simp only [List.length_append, List.length_cons, List.length_nil, List.length_take_of_le hk.le] at hsum hlen
            omega
          subst hk0
          exact absurd (congrArg List.head? hm) hc
      have heq := eq_of_prefix_cons hpre
      intro x hx y hy
      rw [heq x hx, heq y hy]
  · intro hall m
    induction m using try_induction pat with
    | short k hk =>
      intro h
      have hlen := h.length_le
      rw [List.length_take_of_le hk.le] at hlen
      omega
    | found m hm => exact fun _ => afterMisses_found hm
    | miss w m hw ih =>
      intro h
      rw [afterMisses_append hw]
      obtain ⟨k, c, hk, hc, rfl⟩ := hw
      have hnot : c ∉ pat := by
        intro hmem
        apply hc
        rw [List.getElem?_eq_getElem hk, hall _ (List.getElem_mem hk) c hmem]
      rw [List.append_assoc] at h
      exact ih (infix_behind hnot _ (by rw [List.length_take_of_le hk.le]; exact hk) h)

end Misses

end SprdDevice.Search
