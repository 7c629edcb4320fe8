/-
Parsers that read a byte list from its front, keep a state and log the accesses they make. A run gives a value, or none
where the parser fails, and what is unread, the state and the log as they are then.

- `Wp p l s Q`: if p succeeds on l and s, Q holds of its value, of what it leaves unread and of its state.
- `Counts p n`: p consumes n bytes whenever it succeeds.
- `Reads p l s Q`: p in the state s reads l, whatever stands behind it, and Q holds of its value and of its state.
- `Succeeds p l s`: p succeeds on l and s. `Takes p n`: p succeeds where there are n bytes, and consumes them.
- `Keeps p I`: p keeps an invariant of the state. `Logs P p l s`: P holds of every access p makes on l and s.

Results: a rule for each operation and for the loop (`wp_bind`, `Counts.loop`, `Reads.loop`, `succeeds_bind`,
`Takes.loop`, `Keeps.loop`, `logs_bind`, `Logs.loop`).
-/
import Mathlib.Tactic

namespace SprdDevice.Parse

structure Out (σ A α : Type) where
  val : Option α
  rest : List UInt8
  st : σ
  log : List A

def Parser (σ A α : Type) : Type := List UInt8 → σ → Out σ A α

section Operations

variable {σ A α β : Type}

def bind (p : Parser σ A α) (f : α → Parser σ A β) : Parser σ A β := fun l s =>
  let o := p l s
  match o.val with
  | none => ⟨none, o.rest, o.st, o.log⟩
  | some a =>
    let o' := f a o.rest o.st
    ⟨o'.val, o'.rest, o'.st, o.log ++ o'.log⟩

instance : Monad (Parser σ A) where
  pure a := fun l s => ⟨some a, l, s, []⟩
  bind := bind

def fail : Parser σ A α := fun l s => ⟨none, l, s, []⟩

/-- fail unless P -/
def demand (P : Prop) [Decidable P] : Parser σ A Unit := if P then pure () else fail

def getChar : Parser σ A UInt8
  | [], s => ⟨none, [], s, []⟩
  | c :: r, s => ⟨some c, r, s, []⟩

/-- two bytes, the high one first -/
def getShortWord : Parser σ A ℕ := do
  let high ← getChar
  let low ← getChar
  pure (256 * high.toNat + low.toNat)

def get : Parser σ A σ := fun l s => ⟨some s, l, s, []⟩

def modify (f : σ → σ) : Parser σ A Unit := fun l s => ⟨some (), l, f s, []⟩

def touch (a : A) : Parser σ A Unit := fun l s => ⟨some (), l, s, [a]⟩

/-- f at i, i + 1, .., n times -/
def loop (f : ℕ → Parser σ A Unit) : ℕ → ℕ → Parser σ A Unit
  | _, 0 => pure ()
  | i, n + 1 => do
    f i
    loop f (i + 1) n

theorem bind_of_none {p : Parser σ A α} {l : List UInt8} {s : σ} (h : (p l s).val = none) (f : α → Parser σ A β) :
    (p >>= f) l s = ⟨none, (p l s).rest, (p l s).st, (p l s).log⟩ := by
  change bind p f l s = _
  simp only [bind, h]

theorem bind_of_some {p : Parser σ A α} {l : List UInt8} {s : σ} {a : α} (h : (p l s).val = some a)
    (f : α → Parser σ A β) : (p >>= f) l s = ⟨(f a (p l s).rest (p l s).st).val, (f a (p l s).rest (p l s).st).rest,
      (f a (p l s).rest (p l s).st).st, (p l s).log ++ (f a (p l s).rest (p l s).st).log⟩ := by
  change bind p f l s = _
  simp only [bind, h]

end Operations

/-! ## What holds when a parser succeeds -/

section Wp

variable {σ A α β : Type} {l : List UInt8} {s : σ}

def Wp (p : Parser σ A α) (l : List UInt8) (s : σ) (Q : α → List UInt8 → σ → Prop) : Prop :=
  ∀ a, (p l s).val = some a → Q a (p l s).rest (p l s).st

theorem Wp.mono {p : Parser σ A α} {Q Q' : α → List UInt8 → σ → Prop} (h : Wp p l s Q)
    (hq : ∀ a r t, Q a r t → Q' a r t) : Wp p l s Q' :=
  fun a ha => hq a _ _ (h a ha)

@[simp] theorem wp_pure {Q : α → List UInt8 → σ → Prop} {a : α} :
    Wp (pure a : Parser σ A α) l s Q ↔ Q a l s := by
  constructor
  · intro h
    exact h a rfl
  · intro h b hb
    change some a = some b at hb
    rw [← Option.some.inj hb]
    exact h

@[simp] theorem wp_bind {Q : β → List UInt8 → σ → Prop} {p : Parser σ A α} {f : α → Parser σ A β} :
    Wp (p >>= f) l s Q ↔ Wp p l s fun a r t => Wp (f a) r t Q := by
  cases hp : (p l s).val with
  | none => simp [Wp, bind_of_none hp, hp]
  | some a => simp [Wp, bind_of_some hp, hp]

@[simp] theorem wp_fail {Q : α → List UInt8 → σ → Prop} : Wp (fail : Parser σ A α) l s Q := by
  intro a ha
  exact absurd ha (by simp [fail])

@[simp] theorem wp_demand {P : Prop} [Decidable P] {Q : Unit → List UInt8 → σ → Prop} :
    Wp (demand P : Parser σ A Unit) l s Q ↔ (P → Q () l s) := by
  unfold demand
  split_ifs with h
  · simp [h]
  · simp [h]

@[simp] theorem wp_getChar {Q : UInt8 → List UInt8 → σ → Prop} :
    Wp (getChar : Parser σ A UInt8) l s Q ↔ ∀ c r, l = c :: r → Q c r s := by
  cases l with
  | nil => simp [Wp, getChar]
  | cons c r => simp [Wp, getChar]

@[simp] theorem wp_getShortWord {Q : ℕ → List UInt8 → σ → Prop} :
    Wp (getShortWord : Parser σ A ℕ) l s Q ↔
      ∀ high low r, l = high :: low :: r → Q (256 * high.toNat + low.toNat) r s := by
  simp only [getShortWord, wp_bind, wp_getChar, wp_pure]
  constructor
  · intro h high low r hl
    exact h high (low :: r) hl low r rfl
  · rintro h high r' rfl low r rfl
    exact h high low r rfl

@[simp] theorem wp_get {Q : σ → List UInt8 → σ → Prop} : Wp (get : Parser σ A σ) l s Q ↔ Q s l s := by
  simp [Wp, get]

@[simp] theorem wp_modify {Q : Unit → List UInt8 → σ → Prop} {f : σ → σ} :
    Wp (modify f : Parser σ A Unit) l s Q ↔ Q () l (f s) :=
  ⟨fun h => h () rfl, fun h _ _ => h⟩

@[simp] theorem wp_touch {Q : Unit → List UInt8 → σ → Prop} {a : A} :
    Wp (touch a : Parser σ A Unit) l s Q ↔ Q () l s :=
  ⟨fun h => h () rfl, fun h _ _ => h⟩

end Wp

/-! ## How much a parser consumes -/

section Counts

variable {σ A α β : Type}

/-- r is l without its first n bytes, which are there -/
def Consumed (l : List UInt8) (n : ℕ) (r : List UInt8) : Prop := ∃ seg, l = seg ++ r ∧ seg.length = n

theorem consumed_zero (l : List UInt8) : Consumed l 0 l := ⟨[], rfl, rfl⟩

theorem Consumed.trans {l r t : List UInt8} {m n : ℕ} (h : Consumed l m r) (h' : Consumed r n t) :
    Consumed l (m + n) t := by
  obtain ⟨a, rfl, rfl⟩ := h
  obtain ⟨b, rfl, rfl⟩ := h'
  exact ⟨a ++ b, by rw [List.append_assoc], List.length_append⟩

theorem Consumed.length {l r : List UInt8} {n : ℕ} (h : Consumed l n r) : l.length = n + r.length := by
  obtain ⟨a, rfl, rfl⟩ := h
  exact List.length_append

theorem Consumed.unique {l r : List UInt8} {m n : ℕ} (h : Consumed l m r) (h' : Consumed l n r) : m = n := by
  have h1 := h.length
  have h2 := h'.length
  omega

def Counts (p : Parser σ A α) (n : ℕ) : Prop := ∀ l s, Wp p l s fun _ r _ => Consumed l n r

theorem Counts.bind {p : Parser σ A α} {f : α → Parser σ A β} {m n : ℕ} (hp : Counts p m)
    (hf : ∀ a, Counts (f a) n) : Counts (p >>= f) (m + n) := by
  intro l s
  rw [wp_bind]
  exact (hp l s).mono fun a r t hr => (hf a r t).mono fun _ _ _ hr' => hr.trans hr'

theorem counts_pure (a : α) : Counts (pure a : Parser σ A α) 0 := by
  intro l s
  rw [wp_pure]
  exact consumed_zero l

theorem counts_demand (P : Prop) [Decidable P] : Counts (demand P : Parser σ A Unit) 0 := by
  intro l s
  rw [wp_demand]
  exact fun _ => consumed_zero l

theorem counts_getChar : Counts (getChar : Parser σ A UInt8) 1 := by
  intro l s
  rw [wp_getChar]
  rintro c r rfl
  exact ⟨[c], rfl, rfl⟩

theorem counts_getShortWord : Counts (getShortWord : Parser σ A ℕ) 2 := by
  intro l s
  rw [wp_getShortWord]
  rintro high low r rfl
  exact ⟨[high, low], rfl, rfl⟩

theorem counts_get : Counts (get : Parser σ A σ) 0 := by
  intro l s
  rw [wp_get]
  exact consumed_zero l

theorem counts_modify (f : σ → σ) : Counts (modify f : Parser σ A Unit) 0 := by
  intro l s
  rw [wp_modify]
  exact consumed_zero l

theorem counts_touch (a : A) : Counts (touch a : Parser σ A Unit) 0 := by
  intro l s
  rw [wp_touch]
  exact consumed_zero l

/-- a loop whose turns consume k bytes each -/
theorem Counts.loop {f : ℕ → Parser σ A Unit} {k : ℕ} (h : ∀ i, Counts (f i) k) (i n : ℕ) :
    Counts (loop f i n) (n * k) := by
  induction n generalizing i with
  | zero =>
    rw [Nat.zero_mul]
    exact counts_pure ()
  | succ n ih =>
    rw [Nat.succ_mul, Nat.add_comm (n * k)]
    exact (h i).bind fun _ => ih (i + 1)

end Counts

/-! ## What a parser makes of a given segment -/

section Reads

variable {σ A α β : Type} {s : σ}

def Reads (p : Parser σ A α) (l : List UInt8) (s : σ) (Q : α → σ → Prop) : Prop :=
  ∀ r, ∃ a, (p (l ++ r) s).val = some a ∧ (p (l ++ r) s).rest = r ∧ Q a (p (l ++ r) s).st

theorem Reads.mono {p : Parser σ A α} {l : List UInt8} {Q Q' : α → σ → Prop} (h : Reads p l s Q)
    (hq : ∀ a t, Q a t → Q' a t) : Reads p l s Q' := by
  intro r
  obtain ⟨a, hval, hrest, hst⟩ := h r
  exact ⟨a, hval, hrest, hq a _ hst⟩

theorem Reads.bind {p : Parser σ A α} {f : α → Parser σ A β} {l m : List UInt8} {Q : α → σ → Prop}
    {Q' : β → σ → Prop} (hp : Reads p l s Q) (hf : ∀ a t, Q a t → Reads (f a) m t Q') :
    Reads (p >>= f) (l ++ m) s Q' := by
  intro r
  rw [List.append_assoc]
  obtain ⟨a, hval, hrest, hst⟩ := hp (m ++ r)
  rw [bind_of_some hval, hrest]
  exact hf a _ hst r

theorem reads_pure {Q : α → σ → Prop} {a : α} (h : Q a s) : Reads (pure a : Parser σ A α) [] s Q :=
  fun _ => ⟨a, rfl, rfl, h⟩

theorem reads_demand {P : Prop} [Decidable P] {Q : Unit → σ → Prop} (hp : P) (h : Q () s) :
    Reads (demand P : Parser σ A Unit) [] s Q := by
  rw [demand, if_pos hp]
  exact reads_pure h

theorem reads_modify {f : σ → σ} {Q : Unit → σ → Prop} (h : Q () (f s)) :
    Reads (modify f : Parser σ A Unit) [] s Q :=
  fun _ => ⟨(), rfl, rfl, h⟩

/-! What stands in front of the rest of a parser -/

variable {Q : β → σ → Prop} {l : List UInt8}

theorem reads_getChar_bind {f : UInt8 → Parser σ A β} {c : UInt8} (h : Reads (f c) l s Q) :
    Reads (getChar >>= f) (c :: l) s Q :=
  Reads.bind (p := getChar) (l := [c]) (Q := fun a t => a = c ∧ t = s) (fun _ => ⟨c, rfl, rfl, rfl, rfl⟩) (by
    rintro a t ⟨rfl, rfl⟩
    exact h)

theorem reads_getShortWord_bind {f : ℕ → Parser σ A β} {high low : UInt8}
    (h : Reads (f (256 * high.toNat + low.toNat)) l s Q) :
    Reads (getShortWord >>= f) (high :: low :: l) s Q :=
  Reads.bind (p := getShortWord) (l := [high, low]) (Q := fun a t => a = 256 * high.toNat + low.toNat ∧ t = s)
    (fun _ => ⟨_, rfl, rfl, rfl, rfl⟩) (by
    rintro a t ⟨rfl, rfl⟩
    exact h)

theorem reads_demand_bind {P : Prop} [Decidable P] {f : Unit → Parser σ A β} (hp : P) (h : Reads (f ()) l s Q) :
    Reads (demand P >>= f) l s Q :=
  Reads.bind (l := []) (reads_demand (Q := fun _ t => t = s) hp rfl) (by
    rintro _ t rfl
    exact h)

theorem reads_get_bind {f : σ → Parser σ A β} (h : Reads (f s) l s Q) : Reads (get >>= f) l s Q :=
  Reads.bind (p := get) (l := []) (Q := fun a t => a = s ∧ t = s) (fun _ => ⟨s, rfl, rfl, rfl, rfl⟩) (by
    rintro a t ⟨rfl, rfl⟩
    exact h)

theorem reads_modify_bind {g : σ → σ} {f : Unit → Parser σ A β} (h : Reads (f ()) l (g s) Q) :
    Reads (modify g >>= f) l s Q :=
  Reads.bind (l := []) (reads_modify (Q := fun _ t => t = g s) rfl) (by
    rintro _ t rfl
    exact h)

/-- the new state under a name of its own -/
theorem reads_modify_then {g : σ → σ} {f : Unit → Parser σ A β} (h : ∀ t, t = g s → Reads (f ()) l t Q) :
    Reads (modify g >>= f) l s Q := reads_modify_bind (h _ rfl)

theorem reads_touch_bind {a : A} {f : Unit → Parser σ A β} (h : Reads (f ()) l s Q) :
    Reads (touch a >>= f) l s Q :=
  Reads.bind (p := touch a) (l := []) (Q := fun _ t => t = s) (fun _ => ⟨(), rfl, rfl, rfl⟩) (by
    rintro _ t rfl
    exact h)

/-- a loop whose turn i reads seg i, with an invariant -/
theorem Reads.loop {f : ℕ → Parser σ A Unit} {seg : ℕ → List UInt8} (I : ℕ → σ → Prop) (i n : ℕ)
    (h : ∀ j t, i ≤ j → j < i + n → I j t → Reads (f j) (seg j) t fun _ => I (j + 1)) (h0 : I i s) :
    Reads (loop f i n) ((List.range' i n).flatMap seg) s fun _ => I (i + n) := by
  induction n generalizing i s with
  | zero => exact reads_pure h0
  | succ n ih =>
    rw [List.range'_succ, List.flatMap_cons]
    refine Reads.bind (h i s le_rfl (by omega) h0) ?_
    intro _ t ht
    have hrest := ih (i + 1) (fun j t hij hj => h j t (by omega) (by omega)) ht
    rwa [Nat.add_assoc, Nat.add_comm 1] at hrest

end Reads

/-! ## Where a parser succeeds -/

section Succeeds

variable {σ A α β : Type} {l : List UInt8} {s : σ}

def Succeeds (p : Parser σ A α) (l : List UInt8) (s : σ) : Prop := (p l s).val.isSome

@[simp] theorem succeeds_pure {a : α} : Succeeds (pure a : Parser σ A α) l s := rfl

@[simp] theorem succeeds_bind {p : Parser σ A α} {f : α → Parser σ A β} :
    Succeeds (p >>= f) l s ↔ Succeeds p l s ∧ Wp p l s fun a r t => Succeeds (f a) r t := by
  cases hp : (p l s).val with
  | none => simp [Succeeds, bind_of_none hp, hp]
  | some a => simp [Succeeds, Wp, bind_of_some hp, hp]

@[simp] theorem not_succeeds_fail : ¬ Succeeds (fail : Parser σ A α) l s := by
  simp [Succeeds, fail]

@[simp] theorem succeeds_demand {P : Prop} [Decidable P] : Succeeds (demand P : Parser σ A Unit) l s ↔ P := by
  unfold demand
  split_ifs with h
  · exact iff_of_true rfl h
  · exact iff_of_false not_succeeds_fail h

@[simp] theorem succeeds_getChar : Succeeds (getChar : Parser σ A UInt8) l s ↔ ∃ c r, l = c :: r := by
  cases l with
  | nil => simp [Succeeds, getChar]
  | cons c r => simp [Succeeds, getChar]

@[simp] theorem succeeds_getShortWord :
    Succeeds (getShortWord : Parser σ A ℕ) l s ↔ ∃ high low r, l = high :: low :: r := by
  simp only [getShortWord, succeeds_bind, succeeds_getChar, wp_getChar, succeeds_pure]
  constructor
  · rintro ⟨⟨high, r, rfl⟩, h⟩
    obtain ⟨⟨low, r', rfl⟩, -⟩ := h high r rfl
    exact ⟨high, low, r', rfl⟩
  · rintro ⟨high, low, r, rfl⟩
    refine ⟨⟨high, low :: r, rfl⟩, ?_⟩
    rintro _ _ h
    obtain ⟨rfl, rfl⟩ := List.cons.inj h
    exact ⟨⟨low, r, rfl⟩, fun _ _ _ => trivial⟩

@[simp] theorem succeeds_get : Succeeds (get : Parser σ A σ) l s := rfl

@[simp] theorem succeeds_modify {f : σ → σ} : Succeeds (modify f : Parser σ A Unit) l s := rfl

@[simp] theorem succeeds_touch {a : A} : Succeeds (touch a : Parser σ A Unit) l s := rfl

theorem succeeds_getChar_bind {f : UInt8 → Parser σ A β} :
    Succeeds (getChar >>= f) l s ↔ ∃ c r, l = c :: r ∧ Succeeds (f c) r s := by
  rw [succeeds_bind, succeeds_getChar, wp_getChar]
  constructor
  · rintro ⟨⟨c, r, rfl⟩, h⟩
    exact ⟨c, r, rfl, h c r rfl⟩
  · rintro ⟨c, r, rfl, h⟩
    refine ⟨⟨c, r, rfl⟩, ?_⟩
    rintro _ _ heq
    obtain ⟨rfl, rfl⟩ := List.cons.inj heq
    exact h

theorem succeeds_getShortWord_bind {f : ℕ → Parser σ A β} : Succeeds (getShortWord >>= f) l s ↔
    ∃ high low r, l = high :: low :: r ∧ Succeeds (f (256 * high.toNat + low.toNat)) r s := by
  rw [succeeds_bind, succeeds_getShortWord, wp_getShortWord]
  constructor
  · rintro ⟨⟨high, low, r, rfl⟩, h⟩
    exact ⟨high, low, r, rfl, h high low r rfl⟩
  · rintro ⟨high, low, r, rfl, h⟩
    refine ⟨⟨high, low, r, rfl⟩, ?_⟩
    rintro _ _ _ heq
    obtain ⟨rfl, htail⟩ := List.cons.inj heq
    obtain ⟨rfl, rfl⟩ := List.cons.inj htail
    exact h

theorem succeeds_demand_bind {P : Prop} [Decidable P] {f : Unit → Parser σ A β} :
    Succeeds (demand P >>= f) l s ↔ P ∧ Succeeds (f ()) l s := by
  rw [succeeds_bind, succeeds_demand, wp_demand]
  exact and_congr_right fun hp => forall_prop_of_true hp

theorem Wp.and {p : Parser σ A α} {Q Q' : α → List UInt8 → σ → Prop} (h : Wp p l s Q) (h' : Wp p l s Q') :
    Wp p l s fun a r t => Q a r t ∧ Q' a r t :=
  fun a ha => ⟨h a ha, h' a ha⟩

/-- what is asked of an outcome, given a fact about it -/
theorem Wp.congr {p : Parser σ A α} {R Q Q' : α → List UInt8 → σ → Prop} (h : Wp p l s R)
    (hq : ∀ a r t, R a r t → (Q a r t ↔ Q' a r t)) : Wp p l s Q ↔ Wp p l s Q' :=
  ⟨fun hQ a ha => (hq a _ _ (h a ha)).1 (hQ a ha), fun hQ a ha => (hq a _ _ (h a ha)).2 (hQ a ha)⟩

theorem wp_const {p : Parser σ A α} {C : Prop} : Wp p l s (fun _ _ _ => C) ↔ (Succeeds p l s → C) := by
  constructor
  · intro h hsucc
    obtain ⟨a, ha⟩ := Option.isSome_iff_exists.1 hsucc
    exact h a ha
  · intro h a ha
    exact h (Option.isSome_iff_exists.2 ⟨a, ha⟩)

/-- an invariant of a loop's turns -/
theorem Wp.loop {f : ℕ → Parser σ A Unit} (I : ℕ → List UInt8 → σ → Prop) (i n : ℕ)
    (h : ∀ j l s, I j l s → Wp (f j) l s fun _ => I (j + 1)) (h0 : I i l s) :
    Wp (loop f i n) l s fun _ => I (i + n) := by
  induction n generalizing i l s with
  | zero =>
    rw [Parse.loop, wp_pure]
    exact h0
  | succ n ih =>
    rw [Parse.loop, wp_bind]
    refine (h i l s h0).mono ?_
    intro _ r t ht
    have hrest := ih (i + 1) ht
    rwa [Nat.add_assoc, Nat.add_comm 1] at hrest

end Succeeds

/-! ## Parsers that ask for nothing but bytes -/

section Takes

variable {σ A α β : Type}

theorem Consumed.le {l r : List UInt8} {n : ℕ} (h : Consumed l n r) : n ≤ l.length := by
  rw [h.length]
  exact Nat.le_add_right n _

theorem Consumed.drop {l r : List UInt8} {n : ℕ} (h : Consumed l n r) : l.drop n = r := by
  obtain ⟨seg, rfl, rfl⟩ := h
  exact List.drop_left

structure Takes (p : Parser σ A α) (n : ℕ) : Prop where
  counts : Counts p n
  succeeds : ∀ l s, n ≤ l.length → Succeeds p l s

theorem Takes.bind {p : Parser σ A α} {f : α → Parser σ A β} {m n : ℕ} (hp : Takes p m) (hf : ∀ a, Takes (f a) n) :
    Takes (p >>= f) (m + n) := by
  refine ⟨hp.counts.bind fun a => (hf a).counts, ?_⟩
  intro l s hl
  rw [succeeds_bind]
  refine ⟨hp.succeeds l s (by omega), ?_⟩
  refine (hp.counts l s).mono ?_
  intro a r t hr
  have hlen := hr.length
  exact (hf a).succeeds r t (by omega)

theorem takes_pure (a : α) : Takes (pure a : Parser σ A α) 0 := ⟨counts_pure a, fun _ _ _ => succeeds_pure⟩

theorem takes_getChar : Takes (getChar : Parser σ A UInt8) 1 := by
  refine ⟨counts_getChar, ?_⟩
  intro l s hl
  rw [succeeds_getChar]
  exact List.exists_cons_of_length_pos hl

theorem takes_getShortWord : Takes (getShortWord : Parser σ A ℕ) 2 :=
  takes_getChar.bind (n := 1) fun _ => takes_getChar.bind (n := 0) fun _ => takes_pure _

theorem takes_modify (f : σ → σ) : Takes (modify f : Parser σ A Unit) 0 :=
  ⟨counts_modify f, fun _ _ _ => succeeds_modify⟩

theorem takes_touch (a : A) : Takes (touch a : Parser σ A Unit) 0 := ⟨counts_touch a, fun _ _ _ => succeeds_touch⟩

theorem Takes.loop {f : ℕ → Parser σ A Unit} {k : ℕ} (h : ∀ i, Takes (f i) k) (i n : ℕ) :
    Takes (loop f i n) (n * k) := by
  induction n generalizing i with
  | zero =>
    rw [Nat.zero_mul]
    exact takes_pure ()
  | succ n ih =>
    rw [Nat.succ_mul, Nat.add_comm (n * k)]
    exact (h i).bind fun _ => ih (i + 1)

theorem Takes.succeeds_iff {p : Parser σ A α} {n : ℕ} (h : Takes p n) (l : List UInt8) (s : σ) :
    Succeeds p l s ↔ n ≤ l.length := by
  constructor
  · intro hs
    have hwp : Wp p l s fun _ _ _ => n ≤ l.length := (h.counts l s).mono fun _ _ _ hr => hr.le
    exact wp_const.1 hwp hs
  · exact h.succeeds l s

/-- what is asked of the unread bytes, of a parser that consumes a given number -/
theorem Counts.wp_iff {p : Parser σ A α} {n : ℕ} (h : Counts p n) {C : List UInt8 → Prop} (l : List UInt8) (s : σ) :
    Wp p l s (fun _ r _ => C r) ↔ (Succeeds p l s → C (l.drop n)) := by
  have hcongr : Wp p l s (fun _ r _ => C r) ↔ Wp p l s fun _ _ _ => C (l.drop n) := by
    refine (h l s).congr ?_
    intro _ r _ hr
    rw [hr.drop]
  rw [hcongr, wp_const]

theorem Takes.wp_iff {p : Parser σ A α} {n : ℕ} (h : Takes p n) {C : List UInt8 → Prop} (l : List UInt8) (s : σ) :
    Wp p l s (fun _ r _ => C r) ↔ (n ≤ l.length → C (l.drop n)) := by
  rw [h.counts.wp_iff, h.succeeds_iff]

end Takes

/-! ## Invariants of the state -/

section Keeps

variable {σ A α β : Type} {I : σ → Prop}

def Keeps (p : Parser σ A α) (I : σ → Prop) : Prop := ∀ l s, I s → Wp p l s fun _ _ t => I t

theorem Keeps.bind {p : Parser σ A α} {f : α → Parser σ A β} (hp : Keeps p I) (hf : ∀ a, Keeps (f a) I) :
    Keeps (p >>= f) I := by
  intro l s hs
  rw [wp_bind]
  exact (hp l s hs).mono fun a r t ht => hf a r t ht

theorem keeps_pure (a : α) : Keeps (pure a : Parser σ A α) I := fun _ _ hs => wp_pure.2 hs

theorem keeps_fail : Keeps (fail : Parser σ A α) I := fun _ _ _ => wp_fail

theorem keeps_demand (P : Prop) [Decidable P] : Keeps (demand P : Parser σ A Unit) I :=
  fun _ _ hs => wp_demand.2 fun _ => hs

theorem keeps_getChar : Keeps (getChar : Parser σ A UInt8) I := fun _ _ hs => wp_getChar.2 fun _ _ _ => hs

theorem keeps_getShortWord : Keeps (getShortWord : Parser σ A ℕ) I :=
  fun _ _ hs => wp_getShortWord.2 fun _ _ _ _ => hs

theorem keeps_get : Keeps (get : Parser σ A σ) I := fun _ _ hs => wp_get.2 hs

theorem keeps_modify {f : σ → σ} (h : ∀ s, I s → I (f s)) : Keeps (modify f : Parser σ A Unit) I :=
  fun _ s hs => wp_modify.2 (h s hs)

theorem keeps_touch (a : A) : Keeps (touch a : Parser σ A Unit) I := fun _ _ hs => wp_touch.2 hs

theorem Keeps.loop {f : ℕ → Parser σ A Unit} (h : ∀ j, Keeps (f j) I) (i n : ℕ) : Keeps (loop f i n) I :=
  fun _ _ hs => Wp.loop (fun _ _ t => I t) i n (fun j l s => h j l s) hs

end Keeps

/-! ## The accesses a parser makes -/

section Logs

variable {σ A α β : Type} {l : List UInt8} {s : σ} {P : A → Prop}

def Logs (P : A → Prop) (p : Parser σ A α) (l : List UInt8) (s : σ) : Prop := ∀ a ∈ (p l s).log, P a

@[simp] theorem logs_pure {a : α} : Logs P (pure a : Parser σ A α) l s := fun _ h => absurd h List.not_mem_nil

@[simp] theorem logs_bind {p : Parser σ A α} {f : α → Parser σ A β} :
    Logs P (p >>= f) l s ↔ Logs P p l s ∧ Wp p l s fun a r t => Logs P (f a) r t := by
  cases hp : (p l s).val with
  | none => simp [Logs, Wp, bind_of_none hp, hp]
  | some a => simp [Logs, Wp, bind_of_some hp, hp, or_imp, forall_and]

@[simp] theorem logs_fail : Logs P (fail : Parser σ A α) l s := fun _ h => absurd h List.not_mem_nil

@[simp] theorem logs_demand {C : Prop} [Decidable C] : Logs P (demand C : Parser σ A Unit) l s := by
  unfold demand
  split_ifs
  · exact logs_pure
  · exact logs_fail

@[simp] theorem logs_getChar : Logs P (getChar : Parser σ A UInt8) l s := by
  cases l with
  | nil => exact fun _ h => absurd h List.not_mem_nil
  | cons c r => exact fun _ h => absurd h List.not_mem_nil

@[simp] theorem logs_getShortWord : Logs P (getShortWord : Parser σ A ℕ) l s := by
  simp [getShortWord]

@[simp] theorem logs_get : Logs P (get : Parser σ A σ) l s := fun _ h => absurd h List.not_mem_nil

@[simp] theorem logs_modify {f : σ → σ} : Logs P (modify f : Parser σ A Unit) l s :=
  fun _ h => absurd h List.not_mem_nil

@[simp] theorem logs_touch {a : A} : Logs P (touch a : Parser σ A Unit) l s ↔ P a := by
  simp [Logs, touch]

/-- a loop whose turns make such accesses only, under an invariant of the state -/
theorem Logs.loop {f : ℕ → Parser σ A Unit} {I : σ → Prop} (i n : ℕ) (hkeep : ∀ j, Keeps (f j) I)
    (h : ∀ j l s, i ≤ j → j < i + n → I s → Logs P (f j) l s) (hs : I s) : Logs P (loop f i n) l s := by
  induction n generalizing i l s with
  | zero => exact logs_pure
  | succ n ih =>
    rw [Parse.loop, logs_bind]
    refine ⟨h i l s le_rfl (by omega) hs, ?_⟩
    refine (hkeep i l s hs).mono ?_
    intro _ r t ht
    exact ih (i + 1) (fun j l s hij hj => h j l s (by omega) (by omega)) ht

end Logs

end SprdDevice.Parse
