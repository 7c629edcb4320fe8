/-
Segment framing of the JPEG header parser: how much of the stream a handler has consumed when it succeeds, against the
16-bit length of its segment.

Two handlers do not keep to the length: `GetAPP0` reads nothing of a segment that is too short for a JFIF header, and
`GetQuantTbl` reads 128 bytes for a table of any precision but 0 and counts 64 for each step of it.

Results: one lemma for each handler, and `segment_framing_iff`.
-/
import Mathlib.Tactic
import SprdDevice.Jpeg.DecParse

namespace SprdDevice.Jpeg

open SprdDevice.Parse

/-! ## Statement -/

/-- the 16-bit length a segment begins with -/
def segmentLength : List UInt8 → ℕ
  | high :: low :: _ => 256 * high.toNat + low.toNat
  | _ => 0

/-- what is unread begins behind the segment -/
def Framed (l r : List UInt8) : Prop := Consumed l (segmentLength l) r

/-- every table of a DQT segment, each behind the one before it, has precision 0 or 1 -/
def QuantPrecise : ℕ → ℕ → List UInt8 → Prop
  | 0, _, _ => True
  | fuel + 1, length, l =>
    let prec := (l.headD 0).toNat / 16
    length = 0 ∨ prec ≤ 1 ∧ QuantPrecise fuel (length - (64 + 1 + 64 * prec)) (l.drop (64 + 1 + 64 * prec))

/-- an APP0 segment is empty or long enough for a JFIF header, a DQT segment has tables of precision 0 and 1 only -/
def FramesWhen : Segment → List UInt8 → Prop
  | .app0, l => segmentLength l = 2 ∨ 2 + JFIF_LEN ≤ segmentLength l
  | .dqt, l => QuantPrecise (segmentLength l - 2) (segmentLength l - 2) (l.drop 2)
  | .sof _, _ | .sos, _ | .dht, _ | .dri, _ | .other, _ => True

variable {l : List UInt8} {s : Codec}

theorem consumed_cons {c : UInt8} {t r : List UInt8} {n : ℕ} (h : Consumed t n r) : Consumed (c :: t) (n + 1) r := by
  obtain ⟨seg, rfl, rfl⟩ := h
  exact ⟨c :: seg, rfl, rfl⟩

theorem consumed_pair {a b : UInt8} {t r : List UInt8} {n : ℕ} (h : Consumed t n r) :
    Consumed (a :: b :: t) (n + 2) r := consumed_cons (consumed_cons h)

/-! ## Handlers that keep to the length -/

theorem counts_skipChar (i : ℕ) : Counts (skipChar i) 1 := counts_getChar.bind fun _ => counts_pure ()

theorem skip_consumed (i n : ℕ) : Wp (loop skipChar i n) l s fun _ r _ => Consumed l n r := by
  have hloop := (Counts.loop counts_skipChar i n) l s
  rwa [Nat.mul_one] at hloop

theorem counts_sofComponent (componentNum ci : ℕ) : Counts (sofComponent componentNum ci) 3 := by
  intro l s
  simp only [sofComponent, wp_bind, wp_getChar, wp_touch, wp_modify, wp_demand]
  rintro id r rfl - c r rfl q r rfl -
  exact ⟨[id, c, q], rfl, rfl⟩

theorem counts_sofFormat (componentNum : ℕ) : Counts (sofFormat componentNum) 0 := by
  intro l s
  simp only [sofFormat, wp_bind, wp_touch, wp_get]
  by_cases h1 : componentNum = 1
  · rw [if_pos h1, wp_modify]
    exact consumed_zero l
  · rw [if_neg h1]
    cases sampleFormat (s.compInfo 0).ratio with
    | none => exact wp_fail
    | some f =>
      simp only [wp_bind, wp_modify, wp_touch, wp_demand]
      intro _
      by_cases h2 : 2 < componentNum
      · simp only [if_pos h2, wp_bind, wp_touch, wp_demand]
        exact fun _ => consumed_zero l
      · rw [if_neg h2, wp_pure]
        exact consumed_zero l

theorem getSOF_framed (ndebug isProgressive : Bool) : Wp (getSOF ndebug isProgressive) l s fun _ r _ => Framed l r := by
  simp only [getSOF, wp_bind, wp_getShortWord, wp_getChar, wp_modify, wp_demand]
  rintro high low t rfl hlen precision t rfl hprec h1 h2 t rfl w1 w2 t rfl c t rfl hlength hmem
  refine ((Counts.loop (counts_sofComponent c.toNat) 0 c.toNat) t _).mono ?_
  intro _ r s' hr
  refine (counts_sofFormat c.toNat r s').mono ?_
  intro _ r' _ hr'
  have hconsumed := consumed_pair (a := high) (b := low) (consumed_cons (c := precision)
    (consumed_pair (a := h1) (b := h2) (consumed_pair (a := w1) (b := w2) (consumed_cons (c := c) (hr.trans hr')))))
  have hsum : c.toNat * 3 + 0 + 1 + 2 + 2 + 1 + 2 = segmentLength (high :: low :: precision :: h1 :: h2 :: w1 :: w2 ::
      c :: t) := by
    simp only [segmentLength]
    omega
  rwa [hsum] at hconsumed

theorem counts_findComponent (i : ℕ) (cc : UInt8) (ci n : ℕ) : Counts (findComponent i cc ci n) 0 := by
  induction n generalizing ci with
  | zero => exact counts_pure ()
  | succ n ih =>
    intro l s
    simp only [findComponent, wp_bind, wp_get, wp_touch]
    split_ifs with h
    · simp only [wp_bind, wp_touch, wp_modify]
      exact consumed_zero l
    · exact ih (ci + 1) l s

theorem counts_sosComponent (i : ℕ) : Counts (sosComponent i) 2 := by
  intro l s
  simp only [sosComponent, wp_bind, wp_getChar, wp_touch, wp_modify, wp_demand, wp_get]
  rintro cc r rfl c r rfl -
  refine (counts_findComponent i cc 0 _ r _).mono ?_
  intro _ r' _ hr
  exact consumed_pair hr

theorem getSOS_framed : Wp getSOS l s fun _ r _ => Framed l r := by
  simp only [getSOS, wp_bind, wp_getShortWord, wp_getChar, wp_modify, wp_demand]
  rintro high low t rfl hlen n t rfl hlength
  refine ((Counts.loop counts_sosComponent 0 n.toNat) t _).mono ?_
  rintro _ r s' hr ss r rfl se r rfl c r rfl
  have hlast : Consumed (ss :: se :: c :: r) 3 r := ⟨[ss, se, c], rfl, rfl⟩
  have hconsumed := consumed_pair (a := high) (b := low) (consumed_cons (c := n) (hr.trans hlast))
  have hsum : n.toNat * 2 + 3 + 1 + 2 = segmentLength (high :: low :: n :: t) := by
    simp only [segmentLength]
    omega
  rwa [hsum] at hconsumed

theorem skipVariable_framed : Wp skipVariable l s fun _ r _ => Framed l r := by
  simp only [skipVariable, wp_bind, wp_getShortWord, wp_demand]
  rintro high low t rfl hlen
  refine (skip_consumed 0 _).mono ?_
  intro _ r _ hr
  have hconsumed := consumed_pair (a := high) (b := low) hr
  rwa [Nat.sub_add_cancel hlen] at hconsumed

theorem getDRI_framed : Wp getDRI l s fun _ r _ => Framed l r := by
  simp only [getDRI, wp_bind, wp_getShortWord, wp_demand, wp_modify]
  rintro high low t rfl hlen i1 i2 t rfl
  have hconsumed : Consumed (high :: low :: i1 :: i2 :: t) 4 t := ⟨[high, low, i1, i2], rfl, rfl⟩
  rwa [← hlen] at hconsumed

/-! ## Huffman tables -/

theorem counts_huffBit (k : HuffClass) (n i : ℕ) : Counts (huffBit k n i) 1 :=
  counts_getChar.bind fun _ => (counts_touch _).bind fun _ => (counts_touch _).bind fun _ => counts_modify _

theorem counts_huffValue (k : HuffClass) (n i : ℕ) : Counts (huffValue k n i) 1 :=
  counts_getChar.bind fun _ => (counts_touch _).bind fun _ => (counts_touch _).bind fun _ => counts_modify _

theorem huffTable_consumed : Wp huffTable l s fun count r _ => Consumed l (1 + 16 + count) r := by
  simp only [huffTable, wp_bind, wp_getChar, wp_touch, wp_modify, wp_get, wp_demand, wp_pure]
  rintro c t rfl
  refine ((Counts.loop (counts_huffBit (huffPick c).1 (huffPick c).2) 1 16) t _).mono ?_
  intro _ r s' hr hcount
  refine ((Counts.loop (counts_huffValue (huffPick c).1 (huffPick c).2) 0 _) r _).mono ?_
  intro _ r' _ hr'
  have hconsumed := consumed_cons (c := c) (hr.trans hr')
  have hsum : ∀ n : ℕ, 16 * 1 + n * 1 + 1 = 1 + 16 + n := fun n => by ring
  rwa [hsum] at hconsumed

theorem huffTables_consumed {fuel length : ℕ} (h : length ≤ fuel) :
    Wp (huffTables fuel length) l s fun _ r _ => Consumed l length r := by
  induction fuel generalizing length l s with
  | zero =>
    rw [Nat.le_zero] at h
    subst h
    rw [huffTables, wp_pure]
    exact consumed_zero l
  | succ fuel ih =>
    rw [huffTables]
    split_ifs with hzero
    · rw [wp_pure, hzero]
      exact consumed_zero l
    · simp only [wp_bind, wp_demand]
      refine huffTable_consumed.mono ?_
      intro count r s' hr hle
      refine (ih (by omega)).mono ?_
      intro _ r' _ hr'
      have hconsumed := hr.trans hr'
      rwa [Nat.add_sub_cancel' hle] at hconsumed

theorem getHuffTbl_framed : Wp getHuffTbl l s fun _ r _ => Framed l r := by
  simp only [getHuffTbl, wp_bind, wp_getShortWord, wp_demand]
  rintro high low t rfl hlen
  refine (huffTables_consumed le_rfl).mono ?_
  intro _ r _ hr
  have hconsumed := consumed_pair (a := high) (b := low) hr
  rwa [Nat.sub_add_cancel hlen] at hconsumed

/-! ## The two that do not -/

theorem getAPP0_framed : Wp getAPP0 l s fun _ r _ =>
    Framed l r ↔ (segmentLength l = 2 ∨ 2 + JFIF_LEN ≤ segmentLength l) := by
  simp only [getAPP0, wp_bind, wp_getShortWord, wp_demand]
  rintro high low t rfl hlen
  have hlength : segmentLength (high :: low :: t) = 256 * high.toNat + low.toNat := rfl
  simp only [Framed, hlength]
  split_ifs with hjfif
  · rw [wp_bind]
    refine (skip_consumed 0 _).mono ?_
    intro _ r _ hr
    refine (skip_consumed 0 _).mono ?_
    intro _ r' _ hr'
    have hconsumed := consumed_pair (a := high) (b := low) (hr.trans hr')
    rw [Nat.add_sub_cancel' hjfif, Nat.sub_add_cancel hlen] at hconsumed
    exact iff_of_true hconsumed (Or.inr (by omega))
  · rw [wp_pure]
    have htwo : Consumed (high :: low :: t) 2 t := ⟨[high, low], rfl, rfl⟩
    constructor
    · intro hr
      exact Or.inl (hr.unique htwo)
    · rintro (htwo' | hlong)
      · rwa [htwo']
      · omega

/-- the bytes behind the byte of a table -/
def quantBytes (prec : ℕ) : ℕ := if prec = 0 then 64 else 128

theorem counts_quantEntry (prec n j : ℕ) : Counts (quantEntry prec n j) (if prec = 0 then 1 else 2) := by
  unfold quantEntry
  split_ifs with h
  · exact (counts_getChar.bind fun _ => counts_pure _).bind fun _ => (counts_touch _).bind fun _ =>
      (counts_touch _).bind fun _ => counts_modify _
  · exact counts_getShortWord.bind fun _ => (counts_touch _).bind fun _ => (counts_touch _).bind fun _ =>
      counts_modify _

theorem quantTable_consumed : Wp quantTable l s fun pn r _ =>
    pn.1 = (l.headD 0).toNat / 16 ∧ Consumed l (1 + quantBytes pn.1) r := by
  simp only [quantTable, wp_bind, wp_getChar, wp_demand, wp_touch, wp_modify, wp_pure]
  rintro c t rfl hn
  refine ((Counts.loop (counts_quantEntry (c.toNat / 16) (c.toNat % 16)) 0 64) t _).mono ?_
  intro _ r _ hr
  refine ⟨rfl, ?_⟩
  have hconsumed := consumed_cons (c := c) hr
  have hsum : 64 * (if c.toNat / 16 = 0 then 1 else 2) + 1 = 1 + quantBytes (c.toNat / 16) := by
    unfold quantBytes
    split_ifs <;> rfl
  rwa [hsum] at hconsumed

/-- a table takes as many bytes as are counted for it, or fewer, and then its precision is above 1 -/
theorem quantBytes_le (prec : ℕ) : quantBytes prec ≤ 64 + 64 * prec ∧
    (quantBytes prec = 64 + 64 * prec ↔ prec ≤ 1) := by
  unfold quantBytes
  split_ifs with h
  · subst h
    simp
  · omega

theorem quantTables_consumed {fuel length : ℕ} {two : Bool} (h : length ≤ fuel) :
    Wp (quantTables fuel length two) l s fun _ r _ =>
      ∃ m ≤ length, Consumed l m r ∧ (m = length ↔ QuantPrecise fuel length l) := by
  induction fuel generalizing length two l s with
  | zero =>
    rw [Nat.le_zero] at h
    subst h
    rw [quantTables, wp_pure]
    exact ⟨0, le_rfl, consumed_zero l, iff_of_true rfl trivial⟩
  | succ fuel ih =>
    rw [quantTables]
    split_ifs with hzero
    · rw [wp_pure, hzero]
      exact ⟨0, le_rfl, consumed_zero l, iff_of_true rfl (Or.inl rfl)⟩
    · simp only [wp_bind, wp_demand]
      refine quantTable_consumed.mono ?_
      rintro ⟨prec, n⟩ r s' ⟨hprec, hr⟩ hle
      dsimp only at hprec hr hle ⊢
      refine (ih (by omega)).mono ?_
      rintro _ r' _ ⟨m, hm, hr', hiff⟩
      obtain ⟨hbytes, hbytes_iff⟩ := quantBytes_le prec
      refine ⟨1 + quantBytes prec + m, by omega, hr.trans hr', ?_⟩
      simp only [QuantPrecise, ← hprec, hzero, false_or]
      constructor
      · intro heq
        have hfull : quantBytes prec = 64 + 64 * prec := by omega
        refine ⟨hbytes_iff.1 hfull, ?_⟩
        have hrest : l.drop (64 + 1 + 64 * prec) = r := by
          have hdrop := hr.drop
          rwa [hfull, show 1 + (64 + 64 * prec) = 64 + 1 + 64 * prec by ring] at hdrop
        rw [hrest]
        exact hiff.1 (by omega)
      · rintro ⟨hone, hprecise⟩
        have hfull := hbytes_iff.2 hone
        have hrest : l.drop (64 + 1 + 64 * prec) = r := by
          have hdrop := hr.drop
          rwa [hfull, show 1 + (64 + 64 * prec) = 64 + 1 + 64 * prec by ring] at hdrop
        rw [hrest] at hprecise
        have hrest_len := hiff.2 hprecise
        omega

theorem counts_quantSame (j : ℕ) : Counts (quantSame j) 0 :=
  counts_get.bind fun _ => (counts_touch _).bind fun _ => (counts_touch _).bind fun _ => counts_demand _

theorem getQuantTbl_framed : Wp getQuantTbl l s fun _ r _ =>
    Framed l r ↔ QuantPrecise (segmentLength l - 2) (segmentLength l - 2) (l.drop 2) := by
  simp only [getQuantTbl, wp_bind, wp_modify, wp_getShortWord, wp_demand]
  rintro high low t rfl hlen
  have hlength : segmentLength (high :: low :: t) = 256 * high.toNat + low.toNat := rfl
  rw [hlength, List.drop_succ_cons, List.drop_succ_cons, List.drop_zero]
  refine (quantTables_consumed le_rfl).mono ?_
  rintro two r s' ⟨m, hm, hr, hiff⟩
  have hsame : Wp (if two then loop quantSame 0 64 else pure () : Dec Unit) r s' fun _ r' _ => Consumed r 0 r' := by
    split_ifs
    · exact (Counts.loop counts_quantSame 0 64) r s'
    · rw [wp_pure]
      exact consumed_zero r
  refine hsame.mono ?_
  intro _ r' _ hr'
  have hconsumed := consumed_pair (a := high) (b := low) (hr.trans hr')
  rw [← hiff]
  simp only [Framed, hlength]
  constructor
  · intro hframed
    have heq := hframed.unique hconsumed
    omega
  · intro heq
    have hsum : m + 0 + 2 = 256 * high.toNat + low.toNat := by omega
    rwa [hsum] at hconsumed

/-! ## Every handler -/

theorem handler_framed (ndebug : Bool) (g : Segment) :
    Wp (handler ndebug g) l s fun _ r _ => Framed l r ↔ FramesWhen g l := by
  cases g with
  | sof isProgressive => exact (getSOF_framed ndebug isProgressive).mono fun _ _ _ h => iff_of_true h trivial
  | sos => exact getSOS_framed.mono fun _ _ _ h => iff_of_true h trivial
  | dht => exact getHuffTbl_framed.mono fun _ _ _ h => iff_of_true h trivial
  | dqt => exact getQuantTbl_framed
  | app0 => exact getAPP0_framed
  | dri => exact getDRI_framed.mono fun _ _ _ h => iff_of_true h trivial
  | other => exact skipVariable_framed.mono fun _ _ _ h => iff_of_true h trivial

/-- **Segment framing.** On every stream and in every state: a handler that succeeds has consumed exactly its segment if
and only if the segment is no APP0 too short for a JFIF header and no DQT with a table of precision above 1 -/
theorem segment_framing_iff (ndebug : Bool) (g : Segment) (l : List UInt8) (s : Codec)
    (h : (handler ndebug g l s).val = some ()) :
    Framed l (handler ndebug g l s).rest ↔ FramesWhen g l :=
  handler_framed ndebug g () h

/-- a DQT segment with a table of bytes and one of shorts, and the marker behind it -/
def twoTables : List UInt8 := [0, 196, 0x00] ++ List.replicate 64 16 ++ 0x11 :: List.replicate 128 1 ++ [0xFF]

theorem segment_framing_iff_dqt :
    Framed twoTables (handler false .dqt twoTables Codec.init).rest ↔ FramesWhen .dqt twoTables :=
  segment_framing_iff false .dqt twoTables Codec.init (by decide +kernel)

/-- an APP0 segment of one byte -/
theorem framing_broken : ¬ ∀ (ndebug : Bool) (g : Segment) (l : List UInt8) (s : Codec),
    (handler ndebug g l s).val = some () → Framed l (handler ndebug g l s).rest := by
  intro h
  have hframed : Consumed [0, 3, 7, 0xFF] 3 [7, 0xFF] := h false .app0 [0, 3, 7, 0xFF] Codec.init rfl
  exact absurd hframed.length (by decide)

end SprdDevice.Jpeg
