/-
Safety of the JPEG header parser: the accesses of a header's handlers, and what a header that is accepted says of its
frame and of its scan.

- `headCalls` are the calls of the handlers in a run of `ParseHead`, each with what is unread and the codec before it.
- `Call.Meets` is a condition on a call. It fails for a frame without components where assertions are off, for a scan
  that names a fourth component, has none or has one that is not in the frame, or follows a frame of more than three or
  none, for a DC table of more than 12 symbols and for a second chroma quantiser table without the first.

Results: one lemma for each handler, and `header_safe_iff`.
-/
import Mathlib.Tactic
import SprdDevice.Jpeg.DecParse
import SprdDevice.Jpeg.Framing

namespace SprdDevice.Jpeg

open SprdDevice.Parse

/-! ## Runs -/

/-- a handler, what is unread and the codec before it -/
structure Call where
  segment : Segment
  input : List UInt8
  codec : Codec

/-- the calls of `ProcessTables` -/
def tableCalls (ndebug : Bool) : ℕ → List UInt8 → Codec → List Call
  | 0, _, _ => []
  | fuel + 1, l, s =>
    match nextMarker false l with
    | none => []
    | some (c, r) =>
      match marker c with
      | .stop => []
      | .unexpected => []
      | .segment g =>
        let o := handler ndebug g r s
        match o.val with
        | none => [⟨g, r, s⟩]
        | some _ => ⟨g, r, s⟩ :: tableCalls ndebug fuel o.rest o.st

/-- the call of the scan's handler behind an outcome of `ProcessTables` -/
def scanCall (o : Out Codec Access UInt8) : List Call :=
  match o.val with
  | none => []
  | some c => if c = 0xDA then [⟨.sos, o.rest, o.st⟩] else []

/-- the calls of `ParseHead` -/
def headCalls (ndebug : Bool) (l : List UInt8) (s : Codec) : List Call :=
  let o := findSOI (l.length + 1) l s
  match o.val with
  | none => []
  | some _ =>
    tableCalls ndebug (l.length + 1) o.rest o.st ++ scanCall (processTables ndebug (l.length + 1) o.rest o.st)

/-! ## Statement -/

/-- the id that the scan's i-th component must have is a component's of the frame -/
def InFrame (s : Codec) (i : ℕ) : Prop := ∃ ci < s.numComponents, (s.compInfo ci).componentId.toNat = i + 1

structure HeaderOk (s : Codec) : Prop where
  components : 1 ≤ s.numComponents ∧ s.numComponents ≤ 3
  scan : 1 ≤ s.compsInScan ∧ s.compsInScan ≤ s.numComponents
  named : ∀ i < s.compsInScan, InFrame s i

def HeaderSafe (ndebug : Bool) (l : List UInt8) : Prop :=
  Logs Access.Inside (parseHead ndebug) l Codec.init ∧
    ((parseHead ndebug l Codec.init).val = some () → HeaderOk (parseHead ndebug l Codec.init).st ∧
      ∃ k ∈ headCalls ndebug l Codec.init, ∃ isProgressive, k.segment = .sof isProgressive)

/-- no frame without components, which assertions stop -/
def SofMeets (ndebug : Bool) (l : List UInt8) : Prop :=
  ¬ (ndebug = true ∧ segmentLength l = 8 ∧ l[2]? = some 8 ∧ l[7]? = some 0)

/-- a scan's components are the i-th and those that follow it, m in all -/
def ScanIds : ℕ → ℕ → List UInt8 → Prop
  | _, 0, _ => True
  | i, m + 1, cc :: _ :: r => cc.toNat = i + 1 ∧ ScanIds (i + 1) m r
  | _, _ + 1, _ => False

def scanCount (l : List UInt8) : ℕ := (l.getD 2 0).toNat

/-- a whole SOS segment, its components in order -/
def ScanWhole (l : List UInt8) : Prop :=
  segmentLength l = 2 * scanCount l + 6 ∧ segmentLength l ≤ l.length ∧ ScanIds 0 (scanCount l) (l.drop 3)

/-- no fourth component; a whole scan has one or more, in a frame of three or fewer -/
def SosMeets (l : List UInt8) (s : Codec) : Prop :=
  (segmentLength l = 2 * scanCount l + 6 → 4 ≤ scanCount l → ¬ ScanIds 0 4 (l.drop 3)) ∧
    (ScanWhole l → 0 < scanCount l ∧ s.numComponents ≤ 3 ∧ ∀ i < scanCount l, InFrame s i)

/-- the number of symbols by the counts of a DHT table -/
def huffCount (l : List UInt8) : ℕ := ((l.take 16).map UInt8.toNat).sum

/-- the tables of a DHT segment: a DC table has 12 symbols at most, or the stream ends before the next -/
def DhtMeets : ℕ → ℕ → List UInt8 → Prop
  | 0, _, _ => True
  | _ + 1, _, [] => True
  | fuel + 1, length, c :: r =>
    length = 0 ∨ r.length < 16 ∨ 256 < huffCount r ∨
      ((huffPick c).1 = .dc → huffCount r ≤ 12 ∨ r.length ≤ 16 + 12) ∧
        (16 + huffCount r ≤ r.length → 1 + 16 + huffCount r ≤ length →
          DhtMeets fuel (length - (1 + 16 + huffCount r)) (r.drop (16 + huffCount r)))

/-- the tables of a DQT segment: where there is a table 2, there is a table 1 -/
def DqtMeets : ℕ → ℕ → List UInt8 → Bool → Bool → Prop
  | 0, _, _, two, one => two = true → one = true
  | _ + 1, 0, _, two, one => two = true → one = true
  | _ + 1, _ + 1, [], _, _ => True
  | fuel + 1, length + 1, c :: r, two, one =>
    let prec := c.toNat / 16
    let n := c.toNat % 16
    n ≤ 2 → quantBytes prec ≤ r.length → 64 + 1 + 64 * prec ≤ length + 1 →
      DqtMeets fuel (length + 1 - (64 + 1 + 64 * prec)) (r.drop (quantBytes prec)) (two || decide (1 < n))
        (one || decide (n = 1))

/-- what is asked of a call -/
def Call.Meets (ndebug : Bool) (k : Call) : Prop :=
  match k.segment with
  | .sof _ => SofMeets ndebug k.input
  | .sos => SosMeets k.input k.codec
  | .dht => 2 ≤ segmentLength k.input → DhtMeets (segmentLength k.input - 2) (segmentLength k.input - 2) (k.input.drop 2)
  | .dqt => 2 ≤ segmentLength k.input → DqtMeets (segmentLength k.input - 2) (segmentLength k.input - 2)
      (k.input.drop 2) false (k.codec.quantTbl 1).isSome
  | .app0 | .dri | .other => True

variable {ndebug : Bool} {l : List UInt8} {s : Codec}

/-! ## Frames -/

/-- a state whose `comp_info` has an entry for each component -/
def Fits (s : Codec) : Prop := s.numComponents ≤ s.compInfoLen

theorem logs_sofComponent {n ci : ℕ} (h : ci < n) : Logs Access.Inside (sofComponent n ci) l s := by
  simp only [sofComponent, logs_bind, logs_getChar, logs_touch, logs_modify, logs_demand, wp_getChar, wp_touch,
    wp_modify, wp_demand, Access.Inside, true_and]
  rintro id r -
  refine ⟨h, ?_⟩
  rintro hid c r' - q r'' - -
  refine ⟨?_, trivial⟩
  omega

theorem keeps_sofComponent {I : Codec → Prop} (h : ∀ s ci tm, I s → I { s with compInfo := ci, tblMap := tm })
    (n ci : ℕ) : Keeps (sofComponent n ci) I := by
  intro l s hs
  simp only [sofComponent, wp_bind, wp_getChar, wp_touch, wp_modify, wp_demand]
  intro id r _ hid c r' _ q r'' _ _
  exact h _ _ _ hs

theorem logs_sofFormat (n : ℕ) : Logs Access.Inside (sofFormat n) l s ↔ 0 < n := by
  simp only [sofFormat, logs_bind, logs_touch, logs_get, wp_touch, wp_get, Access.Inside, true_and]
  refine and_iff_left_of_imp ?_
  intro hn
  by_cases h1 : n = 1
  · rw [if_pos h1]
    exact logs_modify
  · rw [if_neg h1]
    cases sampleFormat (s.compInfo 0).ratio with
    | none => exact logs_fail
    | some f =>
      simp only [logs_bind, logs_modify, logs_touch, logs_demand, wp_modify, wp_touch, wp_demand, Access.Inside,
        true_and]
      refine ⟨by omega, ?_⟩
      intro _
      by_cases h2 : 2 < n
      · rw [if_pos h2]
        simp only [logs_bind, logs_touch, logs_demand, wp_touch, Access.Inside, and_true]
        exact h2
      · rw [if_neg h2]
        exact logs_pure

/-- the end of `GetSOF`, behind the number of components -/
theorem logs_sofComponents (n : ℕ) : (Logs Access.Inside (loop (sofComponent n) 0 n) l s ∧
    Wp (loop (sofComponent n) 0 n) l s fun _ r t => Logs Access.Inside (sofFormat n) r t) ↔ 0 < n := by
  have hloop : Logs Access.Inside (loop (sofComponent n) 0 n) l s := by
    refine Logs.loop (I := fun _ => True) 0 n (keeps_sofComponent (fun _ _ _ h => h) n) ?_ trivial
    intro j l s _ hj _
    exact logs_sofComponent (by omega)
  rw [and_iff_right hloop]
  simp only [logs_sofFormat, wp_const]
  constructor
  · intro h
    cases n with
    | zero => exact h succeeds_pure
    | succ n => exact Nat.succ_pos n
  · exact fun h _ => h

theorem exists_eight {c : UInt8} (h : l[7]? = some c) :
    ∃ high low precision h1 h2 w1 w2 r, l = high :: low :: precision :: h1 :: h2 :: w1 :: w2 :: c :: r := by
  rcases l with _ | ⟨high, _ | ⟨low, _ | ⟨precision, _ | ⟨h1, _ | ⟨h2, _ | ⟨w1, _ | ⟨w2, _ | ⟨d, r⟩⟩⟩⟩⟩⟩⟩⟩
  all_goals simp at h
  rw [h]
  exact ⟨high, low, precision, h1, h2, w1, w2, r, rfl⟩

theorem logs_getSOF (isProgressive : Bool) :
    Logs Access.Inside (getSOF ndebug isProgressive) l s ↔ SofMeets ndebug l := by
  simp only [getSOF, logs_bind, logs_modify, logs_getShortWord, logs_demand, logs_getChar, wp_modify, wp_getShortWord,
    wp_demand, wp_getChar, true_and, logs_sofComponents]
  constructor
  · rintro h ⟨hndebug, hlen, hprec, hcomp⟩
    obtain ⟨high, low, precision, h1, h2, w1, w2, r, rfl⟩ := exists_eight hcomp
    have hp : precision = 8 := by simpa using hprec
    simp only [segmentLength] at hlen
    refine absurd (h high low _ rfl (by omega) precision _ rfl hp h1 h2 _ rfl w1 w2 _ rfl 0 r rfl ?_ (Or.inr hndebug))
      (Nat.lt_irrefl 0)
    rw [hlen]
    rfl
  · rintro h high low t rfl hlen precision t rfl rfl h1 h2 t rfl w1 w2 t rfl c r rfl hlength hmem
    by_contra hc
    have hzero : c.toNat = 0 := by omega
    refine h ⟨hmem.resolve_left (not_not.2 hzero), ?_, rfl, ?_⟩
    · simp only [segmentLength]
      omega
    · exact congrArg some (UInt8.toNat_inj.1 hzero)

/-! ## Scans -/

theorem takes_findComponent (i : ℕ) (cc : UInt8) (ci n : ℕ) : Takes (findComponent i cc ci n) 0 := by
  refine ⟨counts_findComponent i cc ci n, ?_⟩
  intro l s _
  induction n generalizing ci with
  | zero => exact succeeds_pure
  | succ n ih =>
    simp only [findComponent, succeeds_bind, succeeds_get, succeeds_touch, wp_get, wp_touch, true_and]
    split_ifs with h
    · simp only [succeeds_bind, succeeds_touch, succeeds_modify, wp_touch, and_self]
    · exact ih (ci + 1)

theorem logs_findComponent {i ci n : ℕ} (cc : UInt8) (hi : i < 3) (h : ci + n ≤ s.compInfoLen) :
    Logs Access.Inside (findComponent i cc ci n) l s := by
  induction n generalizing ci with
  | zero => exact logs_pure
  | succ n ih =>
    simp only [findComponent, logs_bind, logs_get, logs_touch, wp_get, wp_touch, true_and]
    have hinside : ci < s.compInfoLen := by omega
    refine ⟨hinside, ?_⟩
    split_ifs with heq
    · simp only [logs_bind, logs_touch, logs_modify, wp_touch, and_true]
      exact hi
    · exact ih (by omega)

theorem keeps_findComponent {I : Codec → Prop} (h : ∀ s map, I s → I { s with compIdMap := map }) (i : ℕ)
    (cc : UInt8) (ci n : ℕ) : Keeps (findComponent i cc ci n) I := by
  induction n generalizing ci with
  | zero => exact keeps_pure ()
  | succ n ih =>
    refine keeps_get.bind fun s => (keeps_touch _).bind fun _ => ?_
    split_ifs
    · exact (keeps_touch _).bind fun _ => keeps_modify fun t ht => h t _ ht
    · exact ih (ci + 1)

theorem keeps_sosComponent {I : Codec → Prop} (hmap : ∀ s map, I s → I { s with compIdMap := map })
    (htbl : ∀ s tm, I s → I { s with tblMap := tm }) (i : ℕ) : Keeps (sosComponent i) I :=
  keeps_getChar.bind fun _ => keeps_getChar.bind fun _ => (keeps_demand _).bind fun _ => (keeps_touch _).bind fun _ =>
    (keeps_modify fun s hs => htbl s _ hs).bind fun _ => keeps_get.bind fun _ => keeps_findComponent hmap _ _ _ _

theorem keeps_fits_sosComponent (i : ℕ) : Keeps (sosComponent i) Fits :=
  keeps_sosComponent (fun _ _ h => h) (fun _ _ h => h) i

/-- a component that is the i-th -/
theorem succeeds_sosComponent {i : ℕ} :
    Succeeds (sosComponent i) l s ↔ ∃ cc c r, l = cc :: c :: r ∧ cc.toNat = i + 1 := by
  simp only [sosComponent, succeeds_bind, succeeds_getChar, succeeds_demand, succeeds_touch, succeeds_modify,
    succeeds_get, (takes_findComponent _ _ _ _).succeeds_iff, wp_getChar, wp_demand, wp_touch, wp_modify, wp_get,
    Nat.zero_le, and_true, implies_true]
  constructor
  · rintro ⟨⟨cc, r, rfl⟩, h⟩
    obtain ⟨⟨c, r', rfl⟩, hid⟩ := h cc r rfl
    exact ⟨cc, c, r', rfl, hid c r' rfl⟩
  · rintro ⟨cc, c, r, rfl, hid⟩
    refine ⟨⟨cc, c :: r, rfl⟩, ?_⟩
    rintro _ _ h
    obtain ⟨rfl, rfl⟩ := List.cons.inj h
    exact ⟨⟨c, r, rfl⟩, fun _ _ _ => hid⟩

theorem succeeds_sosLoop {i n : ℕ} : Succeeds (loop sosComponent i n) l s ↔ ScanIds i n l := by
  induction n generalizing i l s with
  | zero => exact iff_of_true succeeds_pure trivial
  | succ n ih =>
    simp only [loop, succeeds_bind, ih, (counts_sosComponent i).wp_iff, succeeds_sosComponent]
    rcases l with _ | ⟨cc, _ | ⟨c, r⟩⟩
    · simp [ScanIds]
    · simp [ScanIds]
    · simp only [ScanIds, List.drop_succ_cons, List.drop_zero]
      constructor
      · rintro ⟨⟨_, _, _, heq, hid⟩, h⟩
        obtain ⟨rfl, -⟩ := List.cons.inj heq
        exact ⟨hid, h ⟨cc, c, r, rfl, hid⟩⟩
      · rintro ⟨hid, h⟩
        exact ⟨⟨cc, c, r, rfl, hid⟩, fun _ => h⟩

/-- the first three turns are safe -/
theorem logs_sosComponent {i : ℕ} (hi : i < 3) (hs : Fits s) : Logs Access.Inside (sosComponent i) l s := by
  simp only [sosComponent, logs_bind, logs_getChar, logs_demand, logs_touch, logs_modify, logs_get, wp_getChar,
    wp_demand, wp_touch, wp_modify, wp_get, true_and]
  intro cc r _ c r' _ _
  refine ⟨hi, logs_findComponent cc hi ?_⟩
  rw [Nat.zero_add]
  exact hs

/-- the fourth is not -/
theorem logs_sosComponent_three : Logs Access.Inside (sosComponent 3) l s ↔ ¬ ScanIds 3 1 l := by
  simp only [sosComponent, logs_bind, logs_getChar, logs_demand, logs_touch, logs_modify, logs_get, wp_getChar,
    wp_demand, wp_touch, wp_modify, wp_get, true_and, Access.Inside, Nat.lt_irrefl, false_and]
  rcases l with _ | ⟨cc, _ | ⟨c, r⟩⟩
  · simp [ScanIds]
  · simp [ScanIds]
  · simp [ScanIds]

theorem logs_sosLoop {i n : ℕ} (hi : i ≤ 3) (hs : Fits s) :
    Logs Access.Inside (loop sosComponent i n) l s ↔ (3 < i + n → ¬ ScanIds i (4 - i) l) := by
  induction n generalizing i l s with
  | zero => exact iff_of_true logs_pure fun h => absurd h (by omega)
  | succ n ih =>
    rw [loop, logs_bind]
    rcases Nat.lt_or_eq_of_le hi with hlt | rfl
    · have hrest : Wp (sosComponent i) l s (fun _ r t => Logs Access.Inside (loop sosComponent (i + 1) n) r t) ↔
          Wp (sosComponent i) l s fun _ r _ => 3 < i + 1 + n → ¬ ScanIds (i + 1) (4 - (i + 1)) r := by
        refine (keeps_fits_sosComponent i l s hs).congr ?_
        intro _ r t ht
        exact ih (by omega) ht
      rw [and_iff_right (logs_sosComponent hlt hs), hrest, (counts_sosComponent i).wp_iff, succeeds_sosComponent,
        show i + 1 + n = i + (n + 1) by ring, show 4 - i = 4 - (i + 1) + 1 by omega]
      rcases l with _ | ⟨cc, _ | ⟨c, r⟩⟩
      · simp [ScanIds]
      · simp [ScanIds]
      · simp only [ScanIds, List.drop_succ_cons, List.drop_zero, not_and]
        constructor
        · exact fun h hn hid => h ⟨cc, c, r, rfl, hid⟩ hn
        · rintro h ⟨_, _, _, heq, hid⟩ hn
          obtain ⟨rfl, -⟩ := List.cons.inj heq
          exact h hn hid
    · rw [logs_sosComponent_three]
      constructor
      · exact fun h _ => h.1
      · intro h
        have hids : ¬ ScanIds 3 1 l := h (by omega)
        refine ⟨hids, ?_⟩
        -- there is no turn behind a fourth that fails
        have hfail : ¬ Succeeds (sosComponent 3) l s := by
          rw [succeeds_sosComponent]
          rintro ⟨cc, c, r, rfl, hid⟩
          exact hids ⟨hid, trivial⟩
        intro a ha
        exact absurd (Option.isSome_iff_exists.2 ⟨a, ha⟩) hfail

theorem logs_getSOS (hs : Fits s) : Logs Access.Inside getSOS l s ↔
    (segmentLength l = 2 * scanCount l + 6 → 4 ≤ scanCount l → ¬ ScanIds 0 4 (l.drop 3)) := by
  simp only [getSOS, logs_bind, logs_getShortWord, logs_demand, logs_getChar, logs_modify, wp_getShortWord, wp_demand,
    wp_getChar, wp_modify, true_and, and_true, implies_true, wp_const]
  constructor
  · intro h hlen hcount
    rcases l with _ | ⟨high, _ | ⟨low, _ | ⟨n, r⟩⟩⟩
    · exact absurd hcount (by simp [scanCount])
    · exact absurd hcount (by simp [scanCount])
    · exact absurd hcount (by simp [scanCount])
    · simp only [segmentLength] at hlen
      have hloop := h high low _ rfl (by omega) n r rfl (by simp [scanCount] at hlen; omega)
      exact (logs_sosLoop (s := { s with compsInScan := n.toNat }) (Nat.zero_le 3) hs).1 hloop
        (by rw [Nat.zero_add]; exact hcount)
  · rintro h high low t rfl hlen n r rfl hcount
    refine (logs_sosLoop (s := { s with compsInScan := n.toNat }) (Nat.zero_le 3) hs).2 ?_
    intro hn
    refine h ?_ ?_
    · simp only [segmentLength, scanCount, List.getD_cons_succ, List.getD_cons_zero]
      omega
    · simp only [scanCount, List.getD_cons_succ, List.getD_cons_zero]
      omega

/-- a scan's components and a parser behind them -/
theorem succeeds_scan {n k : ℕ} {p : Dec Unit} (hp : Takes p k) :
    Succeeds (loop sosComponent 0 n >>= fun _ => p) l s ↔ ScanIds 0 n l ∧ k ≤ l.length - n * 2 := by
  simp only [succeeds_bind, hp.succeeds_iff]
  rw [(Counts.loop counts_sosComponent 0 n).wp_iff, succeeds_sosLoop, List.length_drop]
  exact and_congr_right fun h => forall_prop_of_true h

theorem succeeds_getSOS : Succeeds getSOS l s ↔ ScanWhole l := by
  simp only [getSOS, succeeds_getShortWord_bind, succeeds_demand_bind, succeeds_getChar_bind]
  have hend : Takes (do
      let ss ← getChar
      let se ← getChar
      modify fun s => { s with ss := ss.toNat, se := se.toNat }
      let c ← getChar
      modify fun s => { s with
        ah := c.toNat / 16
        al := c.toNat % 16
        nextRestartNum := 0
        inputScanNumber := (s.inputScanNumber + 1) % 256 } : Dec Unit) 3 :=
    takes_getChar.bind fun _ => takes_getChar.bind fun _ => (takes_modify _).bind fun _ =>
      takes_getChar.bind fun _ => takes_modify _
  constructor
  · rintro ⟨high, low, _, rfl, hlen, n, r, rfl, hcount, h⟩
    rw [succeeds_bind, wp_modify, succeeds_scan hend] at h
    obtain ⟨-, hids, hrest⟩ := h
    refine ⟨?_, ?_, hids⟩
    · simp only [segmentLength, scanCount, List.getD_cons_succ, List.getD_cons_zero]
      omega
    · simp only [segmentLength, List.length_cons]
      omega
  · rintro ⟨hlen, hwhole, hids⟩
    rcases l with _ | ⟨high, _ | ⟨low, _ | ⟨n, r⟩⟩⟩
    · exact absurd hlen (by simp [segmentLength])
    · exact absurd hlen (by simp [segmentLength])
    · simp only [scanCount, List.length_cons, List.length_nil] at hlen hwhole
      omega
    · simp only [segmentLength, scanCount, List.getD_cons_succ, List.getD_cons_zero] at hlen
      simp only [segmentLength, List.length_cons] at hwhole
      refine ⟨high, low, _, rfl, by omega, n, r, rfl, by omega, ?_⟩
      rw [succeeds_bind, wp_modify, succeeds_scan hend]
      exact ⟨succeeds_modify, hids, by omega⟩

/-- what a scan says of the codec -/
def ScanRead (n : ℕ) (s t : Codec) : Prop :=
  t.compsInScan = n ∧ t.numComponents = s.numComponents ∧ t.compInfo = s.compInfo

theorem wp_getSOS : Wp getSOS l s fun _ _ => ScanRead (scanCount l) s := by
  simp only [getSOS, wp_bind, wp_getShortWord, wp_demand, wp_getChar, wp_modify]
  rintro high low t rfl _ n r rfl _
  have hloop : Keeps (loop sosComponent 0 n.toNat) (ScanRead n.toNat s) :=
    Keeps.loop (keeps_sosComponent (fun _ _ h => h) fun _ _ h => h) 0 n.toNat
  refine (hloop r { s with compsInScan := n.toNat } ⟨rfl, rfl, rfl⟩).mono ?_
  intro _ r' u hu ss _ _ se _ _ c _ _
  exact hu

/-! ## Huffman tables -/

theorem length_defaultBits (k : HuffClass) (n : ℕ) : (defaultBits k n).length = 17 := by
  cases k <;> simp only [defaultBits] <;> split_ifs <;> rfl

/-- the entries of a class's default values -/
def defaultValues : HuffClass → ℕ
  | .dc => 12
  | .ac => 256

theorem length_defaultHuffval (k : HuffClass) (n : ℕ) : (defaultHuffval k n).length = defaultValues k := by
  cases k <;> simp only [defaultHuffval] <;> split_ifs <;> decide +kernel

theorem huffPick_lt (c : UInt8) : (huffPick c).2 < JPEG_FW_NUM_HUFF_TBLS := by
  have hle : c.toNat &&& 0x13 ≤ 0x13 := Nat.and_le_right
  have hsub : (c.toNat &&& 0x13) &&& 0x13 = c.toNat &&& 0x13 := by rw [Nat.and_assoc, Nat.and_self]
  unfold huffPick
  generalize c.toNat &&& 0x13 = index at hle hsub
  interval_cases index <;> first | decide | exact absurd hsub (by decide)

theorem logs_huffBit {k : HuffClass} {n i : ℕ} (h : i < 17) : Logs Access.Inside (huffBit k n i) l s := by
  simp only [huffBit, logs_bind, logs_getChar, logs_touch, logs_modify, wp_getChar, wp_touch, Access.Inside,
    length_defaultBits, true_and, and_true]
  exact fun _ _ _ => ⟨h, h⟩

theorem logs_huffBits {k : HuffClass} {n : ℕ} : Logs Access.Inside (loop (huffBit k n) 1 16) l s := by
  refine Logs.loop (I := fun _ => True) 1 16 (fun _ _ _ _ => wp_const.2 fun _ => trivial) ?_ trivial
  intro j l s _ hj _
  exact logs_huffBit (by omega)

/-- the values of a table: those behind the last default one are read if the stream has them -/
theorem logs_huffValues {k : HuffClass} {n i m : ℕ} (hi : i ≤ defaultValues k) (hm : i + m ≤ 256) :
    Logs Access.Inside (loop (huffValue k n) i m) l s ↔
      (i + m ≤ defaultValues k ∨ l.length ≤ defaultValues k - i) := by
  induction m generalizing i l s with
  | zero => exact iff_of_true logs_pure (Or.inl hi)
  | succ m ih =>
    simp only [loop, huffValue, logs_bind, logs_getChar, logs_touch, logs_modify, wp_getChar, wp_touch, wp_modify,
      wp_bind, Access.Inside, length_defaultHuffval, true_and, and_true]
    cases l with
    | nil => simp
    | cons c r =>
      rw [List.length_cons]
      rcases Nat.lt_or_eq_of_le hi with hlt | heq
      · have hrest := fun t => ih (l := r) (s := t) (i := i + 1) hlt (by omega)
        constructor
        · rintro ⟨-, h⟩
          have hr := (hrest _).1 (h c r rfl)
          omega
        · intro h
          refine ⟨fun _ _ _ => ⟨by omega, hlt⟩, ?_⟩
          rintro _ _ heq
          obtain ⟨rfl, rfl⟩ := List.cons.inj heq
          exact (hrest _).2 (by omega)
      · constructor
        · rintro ⟨h, -⟩
          have hin := (h c r rfl).2
          omega
        · intro h
          omega

theorem takes_huffBit (k : HuffClass) (n i : ℕ) : Takes (huffBit k n i) 1 :=
  takes_getChar.bind fun _ => (takes_touch _).bind fun _ => (takes_touch _).bind fun _ => takes_modify _

theorem takes_huffValue (k : HuffClass) (n i : ℕ) : Takes (huffValue k n i) 1 :=
  takes_getChar.bind fun _ => (takes_touch _).bind fun _ => (takes_touch _).bind fun _ => takes_modify _

theorem bits_setBits (k : HuffClass) (n i : ℕ) (c d : UInt8) :
    (((s.setBits k n i c).noteDefault c d).huffTbl k n).bits = Function.update (s.huffTbl k n).bits i c := by
  simp [Codec.setBits, Codec.setHuff, Codec.noteDefault]

/-- the counts that are read are the bytes of the segment -/
theorem wp_huffBits (k : HuffClass) (n : ℕ) : Wp (loop (huffBit k n) 1 16) l s fun _ r t =>
    r = l.drop 16 ∧ (t.huffTbl k n).count = huffCount l := by
  have hloop := Wp.loop (l := l) (s := s) (f := huffBit k n) (fun j r t => ∃ pre, l = pre ++ r ∧ pre.length + 1 = j ∧
    ∀ i < pre.length, (t.huffTbl k n).bits (1 + i) = pre.getD i 0) 1 16 ?_ ⟨[], rfl, rfl, by simp⟩
  · refine hloop.mono ?_
    rintro _ r t ⟨pre, rfl, hlen, hbits⟩
    have hpre : pre.length = 16 := by omega
    have htake : (pre ++ r).take 16 = pre := by rw [← hpre, List.take_left]
    refine ⟨by rw [← hpre, List.drop_left], ?_⟩
    unfold HuffTbl.count huffCount
    rw [htake]
    refine congrArg List.sum (List.ext_getElem (by simp [hpre]) ?_)
    intro i h1 h2
    have hi : i < pre.length := by simpa using h2
    simp [hbits i hi, hi]
  · rintro j r t ⟨pre, rfl, rfl, hbits⟩
    simp only [huffBit, wp_bind, wp_getChar, wp_touch, wp_modify]
    rintro c r rfl
    refine ⟨pre ++ [c], by simp, by simp, ?_⟩
    intro i hi
    rw [List.length_append, List.length_singleton] at hi
    rw [bits_setBits]
    rcases Nat.lt_succ_iff_lt_or_eq.1 hi with hlt | rfl
    · rw [Function.update_of_ne (by omega), hbits i hlt]
      simp [hlt, List.getElem?_append_left]
    · rw [Nat.add_comm 1, Function.update_self]
      simp

/-- what is asked of the unread bytes behind a table, and of its number of symbols -/
theorem wp_huffTable {C : ℕ → List UInt8 → Prop} (c : UInt8) (r : List UInt8) :
    Wp huffTable (c :: r) s (fun count r' _ => C count r') ↔
      (16 ≤ r.length → huffCount r ≤ 256 → 16 + huffCount r ≤ r.length → C (huffCount r) (r.drop (16 + huffCount r))) := by
  have hvals : ∀ count r' u, Wp (loop (huffValue (huffPick c).1 (huffPick c).2) 0 count) r' u
      (fun _ r'' _ => C count r'') ↔ (count ≤ r'.length → C count (r'.drop count)) := by
    intro count r' u
    have hloop := (Takes.loop (takes_huffValue (huffPick c).1 (huffPick c).2) 0 count).wp_iff (C := C count) r' u
    rwa [Nat.mul_one] at hloop
  have hbits : ∀ t, Wp (loop (huffBit (huffPick c).1 (huffPick c).2) 1 16) r t (fun _ r' u =>
        (u.huffTbl (huffPick c).1 (huffPick c).2).count ≤ 256 →
          Wp (loop (huffValue (huffPick c).1 (huffPick c).2) 0 (u.huffTbl (huffPick c).1 (huffPick c).2).count) r' u
            fun _ r'' _ => C (u.huffTbl (huffPick c).1 (huffPick c).2).count r'') ↔
      (16 ≤ r.length → huffCount r ≤ 256 → huffCount r ≤ (r.drop 16).length →
        C (huffCount r) ((r.drop 16).drop (huffCount r))) := by
    intro t
    rw [← (Takes.loop (takes_huffBit (huffPick c).1 (huffPick c).2) 1 16).succeeds_iff r t, ← wp_const]
    refine (wp_huffBits _ _).congr ?_
    rintro _ r' u ⟨rfl, hcount⟩
    rw [hcount, hvals]
  simp only [huffTable, wp_bind, wp_getChar, wp_touch, wp_modify, wp_get, wp_demand, wp_pure]
  constructor
  · intro h h16 h256 hlen
    have hb := (hbits _).1 (h c r rfl) h16 h256 (by rw [List.length_drop]; omega)
    rwa [List.drop_drop] at hb
  · rintro h _ _ heq
    obtain ⟨rfl, rfl⟩ := List.cons.inj heq
    refine (hbits _).2 ?_
    intro h16 h256 hlen
    rw [List.length_drop] at hlen
    rw [List.drop_drop]
    exact h h16 h256 (by omega)

theorem logs_huffTable (c : UInt8) (r : List UInt8) : Logs Access.Inside huffTable (c :: r) s ↔
    (16 ≤ r.length → huffCount r ≤ 256 → (huffPick c).1 = .dc → huffCount r ≤ 12 ∨ r.length ≤ 16 + 12) := by
  have hvals : ∀ (t : Codec), huffCount r ≤ 256 →
      (Logs Access.Inside (loop (huffValue (huffPick c).1 (huffPick c).2) 0 (huffCount r)) (r.drop 16) t ↔
        ((huffPick c).1 = .dc → huffCount r ≤ 12 ∨ r.length ≤ 16 + 12)) := by
    intro t hcount
    rw [logs_huffValues (Nat.zero_le _) (by omega), List.length_drop]
    cases (huffPick c).1 with
    | dc =>
      simp only [defaultValues, forall_const]
      omega
    | ac =>
      simp only [defaultValues, reduceCtorEq, false_imp_iff, iff_true]
      omega
  have hbits : ∀ t, Wp (loop (huffBit (huffPick c).1 (huffPick c).2) 1 16) r t (fun _ r' u =>
        (u.huffTbl (huffPick c).1 (huffPick c).2).count ≤ 256 →
          Logs Access.Inside (loop (huffValue (huffPick c).1 (huffPick c).2) 0
            (u.huffTbl (huffPick c).1 (huffPick c).2).count) r' u) ↔
      (16 ≤ r.length → huffCount r ≤ 256 → (huffPick c).1 = .dc → huffCount r ≤ 12 ∨ r.length ≤ 16 + 12) := by
    intro t
    rw [← (Takes.loop (takes_huffBit (huffPick c).1 (huffPick c).2) 1 16).succeeds_iff r t, ← wp_const]
    refine (wp_huffBits _ _).congr ?_
    rintro _ r' u ⟨rfl, hcount⟩
    rw [hcount]
    exact forall_congr' fun h256 => hvals u h256
  simp only [huffTable, logs_bind, logs_getChar, logs_touch, logs_modify, logs_get, logs_demand, logs_pure, wp_getChar,
    wp_touch, wp_modify, wp_get, wp_demand, wp_const, true_and, and_true, implies_true, Access.Inside]
  constructor
  · intro h
    exact (hbits _).1 (h c r rfl).2.2.2
  · rintro h _ _ heq
    obtain ⟨rfl, rfl⟩ := List.cons.inj heq
    exact ⟨huffPick_lt c, by decide, logs_huffBits, (hbits _).2 h⟩

/-- on no bytes there is nothing to access -/
theorem logs_huffTable_nil : Logs Access.Inside huffTable [] s := by
  simp only [huffTable, logs_bind, logs_getChar, wp_getChar, true_and]
  exact fun _ _ h => absurd h (List.cons_ne_nil _ _).symm

theorem logs_huffTables {fuel length : ℕ} :
    Logs Access.Inside (huffTables fuel length) l s ↔ DhtMeets fuel length l := by
  induction fuel generalizing length l s with
  | zero => exact iff_of_true logs_pure trivial
  | succ fuel ih =>
    rw [huffTables]
    cases l with
    | nil =>
      refine iff_of_true ?_ trivial
      split_ifs
      · exact logs_pure
      · rw [logs_bind]
        refine ⟨logs_huffTable_nil, ?_⟩
        simp only [huffTable, wp_bind, wp_getChar]
        exact fun _ _ h => absurd h (List.cons_ne_nil _ _).symm
    | cons c r =>
      rw [DhtMeets]
      split_ifs with hzero
      · exact iff_of_true logs_pure (Or.inl hzero)
      · have hrest : ∀ count r' t, Logs Access.Inside (demand (1 + 16 + count ≤ length) >>= fun _ =>
            huffTables fuel (length - (1 + 16 + count))) r' t ↔
              (1 + 16 + count ≤ length → DhtMeets fuel (length - (1 + 16 + count)) r') := by
          intro count r' t
          simp only [logs_bind, logs_demand, wp_demand, ih, true_and]
        rw [logs_bind, logs_huffTable]
        simp only [hrest]
        rw [wp_huffTable (C := fun count r' => 1 + 16 + count ≤ length →
          DhtMeets fuel (length - (1 + 16 + count)) r')]
        by_cases h16 : 16 ≤ r.length
        · by_cases h256 : huffCount r ≤ 256
          · simp only [h16, h256, hzero, Nat.not_lt.2 h16, Nat.not_lt.2 h256, forall_const, false_or]
          · simp only [h256, Nat.lt_of_not_le h256, false_imp_iff, imp_true_iff, true_or, or_true, and_self]
        · simp only [h16, Nat.lt_of_not_le h16, false_imp_iff, true_or, or_true, and_self]

theorem logs_getHuffTbl : Logs Access.Inside getHuffTbl l s ↔
    (2 ≤ segmentLength l → DhtMeets (segmentLength l - 2) (segmentLength l - 2) (l.drop 2)) := by
  simp only [getHuffTbl, logs_bind, logs_getShortWord, logs_demand, wp_getShortWord, wp_demand, logs_huffTables,
    true_and]
  rcases l with _ | ⟨high, _ | ⟨low, r⟩⟩
  · simp [segmentLength]
  · simp [segmentLength]
  · simp [segmentLength]

/-! ## Quantiser tables -/

theorem takes_quantEntry (prec n j : ℕ) : Takes (quantEntry prec n j) (if prec = 0 then 1 else 2) := by
  unfold quantEntry
  split_ifs with h
  · exact (takes_getChar.bind fun _ => takes_pure _).bind fun _ => (takes_touch _).bind fun _ =>
      (takes_touch _).bind fun _ => takes_modify _
  · exact takes_getShortWord.bind fun _ => (takes_touch _).bind fun _ => (takes_touch _).bind fun _ => takes_modify _

theorem takes_quantEntries (prec n : ℕ) : Takes (loop (quantEntry prec n) 0 64) (quantBytes prec) := by
  have hloop := Takes.loop (takes_quantEntry prec n) 0 64
  have hsum : 64 * (if prec = 0 then 1 else 2) = quantBytes prec := by
    unfold quantBytes
    split_ifs <;> rfl
  rwa [hsum] at hloop

/-- which of the tables are there -/
def Present (f : ℕ → Bool) (s : Codec) : Prop := ∀ n, (s.quantTbl n).isSome = f n

theorem keeps_quantEntry (f : ℕ → Bool) (prec n j : ℕ) : Keeps (quantEntry prec n j) (Present f) := by
  have hmodify : ∀ c, Keeps (modify fun s : Codec => { s with
      quantTbl := Function.update s.quantTbl n
        ((s.quantTbl n).map fun t => Function.update t (zigzag j) (UInt8.ofNat c)) } : Dec Unit) (Present f) := by
    intro c
    refine keeps_modify ?_
    intro s hs m
    by_cases hm : m = n
    · subst hm
      simpa using hs m
    · simpa [hm] using hs m
  unfold quantEntry
  split_ifs with h
  · exact (keeps_getChar.bind fun _ => keeps_pure _).bind fun _ => (keeps_touch _).bind fun _ =>
      (keeps_touch _).bind fun _ => hmodify _
  · exact keeps_getShortWord.bind fun _ => (keeps_touch _).bind fun _ => (keeps_touch _).bind fun _ => hmodify _

theorem logs_quantEntries (prec n : ℕ) : Logs Access.Inside (loop (quantEntry prec n) 0 64) l s := by
  refine Logs.loop (I := fun _ => True) 0 64 (fun _ _ _ _ => wp_const.2 fun _ => trivial) ?_ trivial
  intro j l s _ hj _
  have hzigzag : j < 80 := by omega
  have hquant : zigzag j < 64 := zigzag_lt (by omega)
  unfold quantEntry
  split_ifs with h
  · simp only [logs_bind, logs_getChar, logs_pure, logs_touch, logs_modify, wp_bind, wp_getChar, wp_pure, wp_touch,
      Access.Inside, true_and, and_true]
    exact ⟨fun _ _ _ => trivial, fun _ _ _ => ⟨hzigzag, hquant⟩⟩
  · simp only [logs_bind, logs_getShortWord, logs_touch, logs_modify, wp_getShortWord, wp_touch, Access.Inside,
      true_and, and_true]
    exact fun _ _ _ _ => ⟨hzigzag, hquant⟩

theorem logs_quantTable : Logs Access.Inside quantTable l s := by
  simp only [quantTable, logs_bind, logs_getChar, logs_demand, logs_touch, logs_modify, logs_pure, wp_getChar,
    wp_demand, wp_touch, wp_modify, wp_const, Access.Inside, true_and, and_true, implies_true]
  exact fun c _ _ hn => ⟨by omega, logs_quantEntries _ _⟩

/-- the tables that are there when one is read -/
def addTable (f : ℕ → Bool) (n : ℕ) : ℕ → Bool := Function.update f n true

theorem succeeds_quantTable (c : UInt8) (r : List UInt8) :
    Succeeds quantTable (c :: r) s ↔ c.toNat % 16 ≤ 2 ∧ quantBytes (c.toNat / 16) ≤ r.length := by
  simp only [quantTable, succeeds_getChar_bind, succeeds_demand_bind]
  simp only [succeeds_bind, succeeds_touch, succeeds_modify, succeeds_pure, wp_touch, wp_modify,
    (takes_quantEntries _ _).succeeds_iff, wp_const, true_and, and_true, implies_true]
  constructor
  · rintro ⟨_, _, heq, hn, hlen⟩
    obtain ⟨rfl, rfl⟩ := List.cons.inj heq
    exact ⟨hn, hlen⟩
  · exact fun h => ⟨c, r, rfl, h⟩

theorem wp_quantTable {f : ℕ → Bool} (hs : Present f s) (c : UInt8) (r : List UInt8) :
    Wp quantTable (c :: r) s fun pn r' t => pn = (c.toNat / 16, c.toNat % 16) ∧
      r' = r.drop (quantBytes (c.toNat / 16)) ∧ c.toNat % 16 ≤ 2 ∧ Present (addTable f (c.toNat % 16)) t := by
  have hset : Present (addTable f (c.toNat % 16))
      { s with quantTbl := Function.update s.quantTbl (c.toNat % 16) (some fun _ => 0) } := by
    intro m
    unfold addTable
    dsimp only
    by_cases hm : m = c.toNat % 16
    · rw [hm, Function.update_self, Function.update_self]
      rfl
    · rw [Function.update_of_ne hm, Function.update_of_ne hm]
      exact hs m
  simp only [quantTable, wp_bind, wp_getChar, wp_demand, wp_touch, wp_modify, wp_pure]
  rintro _ _ heq hn
  obtain ⟨rfl, rfl⟩ := List.cons.inj heq
  refine (((takes_quantEntries _ _).counts r _).and
    (Keeps.loop (keeps_quantEntry (addTable f (c.toNat % 16)) _ _) 0 64 r _ hset)).mono ?_
  rintro _ r' t ⟨hr, ht⟩
  exact ⟨rfl, hr.drop.symm, hn, ht⟩

theorem logs_quantTables {fuel length : ℕ} {two : Bool} : Logs Access.Inside (quantTables fuel length two) l s := by
  induction fuel generalizing length two l s with
  | zero => exact logs_pure
  | succ fuel ih =>
    rw [quantTables]
    split_ifs
    · exact logs_pure
    · simp only [logs_bind, logs_demand, wp_demand, true_and]
      exact ⟨logs_quantTable, (wp_const.2 fun _ => trivial : Wp quantTable l s fun _ _ _ => True).mono
        fun _ _ _ _ _ => ih⟩

/-- what is asked of the tables that are there behind a segment's tables -/
theorem wp_quantTables {fuel length : ℕ} {two : Bool} {f : ℕ → Bool} (hs : Present f s) (htwo : two = true → f 2 = true) :
    Wp (quantTables fuel length two) l s (fun two' _ t => two' = true →
      (t.quantTbl 1).isSome = true ∧ (t.quantTbl 2).isSome = true) ↔ DqtMeets fuel length l two (f 1) := by
  induction fuel generalizing length two l s f with
  | zero =>
    rw [quantTables, wp_pure, hs 1, hs 2]
    exact ⟨fun h h2 => (h h2).1, fun h h2 => ⟨h h2, htwo h2⟩⟩
  | succ fuel ih =>
    rw [quantTables]
    split_ifs with hzero
    · subst hzero
      rw [wp_pure, hs 1, hs 2]
      exact ⟨fun h h2 => (h h2).1, fun h h2 => ⟨h h2, htwo h2⟩⟩
    · obtain ⟨length, rfl⟩ := Nat.exists_eq_succ_of_ne_zero hzero
      cases l with
      | nil =>
        refine iff_of_true ?_ trivial
        simp only [quantTable, wp_bind, wp_getChar]
        exact fun _ _ h => absurd h (List.cons_ne_nil _ _).symm
      | cons c r =>
        have hrest : Wp quantTable (c :: r) s (fun pn r' t => Wp (demand (64 + 1 + 64 * pn.1 ≤ length + 1) >>= fun _ =>
            quantTables fuel (length + 1 - (64 + 1 + 64 * pn.1)) (two || decide (1 < pn.2))) r' t fun two' _ u =>
              two' = true → (u.quantTbl 1).isSome = true ∧ (u.quantTbl 2).isSome = true) ↔
            Wp quantTable (c :: r) s fun _ _ _ => 64 + 1 + 64 * (c.toNat / 16) ≤ length + 1 →
              DqtMeets fuel (length + 1 - (64 + 1 + 64 * (c.toNat / 16))) (r.drop (quantBytes (c.toNat / 16)))
                (two || decide (1 < c.toNat % 16)) (f 1 || decide (c.toNat % 16 = 1)) := by
          refine (wp_quantTable hs c r).congr ?_
          rintro _ _ t ⟨rfl, rfl, hn, ht⟩
          have hone : addTable f (c.toNat % 16) 1 = (f 1 || decide (c.toNat % 16 = 1)) := by
            by_cases h : c.toNat % 16 = 1
            · simp [addTable, h]
            · simp [addTable, h, Ne.symm h]
          simp only [wp_bind, wp_demand]
          refine forall_congr' fun hlen => ?_
          rw [← hone]
          refine ih ht ?_
          intro h
          by_cases h2 : c.toNat % 16 = 2
          · simp [addTable, h2]
          · have h1 : ¬ 1 < c.toNat % 16 := by omega
            have htwo' : two = true := by simpa [h1] using h
            simp [addTable, Ne.symm h2, htwo htwo']
        rw [wp_bind]
        refine hrest.trans ?_
        rw [wp_const, succeeds_quantTable, DqtMeets]
        exact ⟨fun h hn hq => h ⟨hn, hq⟩, fun h hq => h hq.1 hq.2⟩

/-- an entry of the two chroma tables -/
theorem logs_quantSame {j : ℕ} (hj : j < 64) (h1 : (s.quantTbl 1).isSome = true) (h2 : (s.quantTbl 2).isSome = true) :
    Logs Access.Inside (quantSame j) l s := by
  simp only [quantSame, logs_bind, logs_get, logs_touch, logs_demand, wp_get, wp_touch, Access.Inside, quantSize, h1,
    h2, if_true, true_and, and_true]
  exact ⟨hj, hj⟩

theorem logs_quantSames : Logs Access.Inside (loop quantSame 0 64) l s ↔
    (s.quantTbl 1).isSome = true ∧ (s.quantTbl 2).isSome = true := by
  constructor
  · intro h
    rw [loop, logs_bind] at h
    have hfirst := h.1
    simp only [quantSame, logs_bind, logs_get, logs_touch, logs_demand, wp_get, wp_touch, Access.Inside, quantSize,
      true_and, and_true] at hfirst
    constructor
    · by_contra hnone
      exact absurd hfirst.1 (by simp [hnone])
    · by_contra hnone
      exact absurd hfirst.2 (by simp [hnone])
  · rintro ⟨h1, h2⟩
    refine Logs.loop (I := fun t => (t.quantTbl 1).isSome = true ∧ (t.quantTbl 2).isSome = true) 0 64 ?_ ?_ ⟨h1, h2⟩
    · exact fun _ => keeps_get.bind fun _ => (keeps_touch _).bind fun _ => (keeps_touch _).bind fun _ => keeps_demand _
    · intro j l t _ hj ht
      exact logs_quantSame (by omega) ht.1 ht.2

theorem logs_getQuantTbl : Logs Access.Inside getQuantTbl l s ↔ (2 ≤ segmentLength l →
    DqtMeets (segmentLength l - 2) (segmentLength l - 2) (l.drop 2) false (s.quantTbl 1).isSome) := by
  have htables : ∀ length r, Wp (quantTables length length false) r { s with usingDefaultQuantTab := false }
      (fun two r' t => Logs Access.Inside (if two then loop quantSame 0 64 else pure () : Dec Unit) r' t) ↔
        DqtMeets length length r false (s.quantTbl 1).isSome := by
    intro length r
    rw [← wp_quantTables (s := { s with usingDefaultQuantTab := false }) (f := fun n => (s.quantTbl n).isSome)
      (fun _ => rfl) (by simp)]
    refine (wp_const.2 fun _ => trivial : Wp _ r _ fun _ _ _ => True).congr ?_
    intro two r' t _
    cases two with
    | false => simp
    | true => simp [logs_quantSames]
  simp only [getQuantTbl, logs_bind, logs_modify, logs_getShortWord, logs_demand, wp_modify, wp_getShortWord, wp_demand,
    logs_quantTables, htables, true_and]
  rcases l with _ | ⟨high, _ | ⟨low, r⟩⟩
  · simp [segmentLength]
  · simp [segmentLength]
  · simp [segmentLength]

/-! ## Every handler -/

theorem logs_skip (i n : ℕ) : Logs Access.Inside (loop skipChar i n) l s := by
  refine Logs.loop (I := fun _ => True) i n (fun _ _ _ _ => wp_const.2 fun _ => trivial) ?_ trivial
  intro j l s _ _ _
  simp only [skipChar, logs_bind, logs_getChar, logs_pure, wp_const, implies_true, and_self]

theorem logs_getAPP0 : Logs Access.Inside getAPP0 l s := by
  simp only [getAPP0, logs_bind, logs_getShortWord, logs_demand, wp_getShortWord, wp_demand, true_and]
  intro high low r _ _
  split_ifs
  · rw [logs_bind]
    exact ⟨logs_skip _ _, (wp_const.2 fun _ => trivial : Wp _ r s fun _ _ _ => True).mono fun _ _ _ _ =>
      logs_skip _ _⟩
  · exact logs_pure

theorem logs_skipVariable : Logs Access.Inside skipVariable l s := by
  simp only [skipVariable, logs_bind, logs_getShortWord, logs_demand, wp_getShortWord, wp_demand, true_and]
  exact fun _ _ _ _ _ => logs_skip _ _

theorem logs_getDRI : Logs Access.Inside getDRI l s := by
  simp only [getDRI, logs_bind, logs_getShortWord, logs_demand, logs_modify, wp_const, implies_true, and_self]

/-- a handler that `ProcessTables` calls makes no access outside if and only if its call meets the condition -/
theorem logs_handler {g : Segment} (hg : g ≠ .sos) :
    Logs Access.Inside (handler ndebug g) l s ↔ Call.Meets ndebug ⟨g, l, s⟩ := by
  cases g with
  | sof isProgressive => exact logs_getSOF isProgressive
  | sos => exact absurd rfl hg
  | dht => exact logs_getHuffTbl
  | dqt => exact logs_getQuantTbl
  | app0 => exact iff_of_true logs_getAPP0 trivial
  | dri => exact iff_of_true logs_getDRI trivial
  | other => exact iff_of_true logs_skipVariable trivial

/-- the number of components and the entries of `comp_info` -/
def Sized (n m : ℕ) (s : Codec) : Prop := s.numComponents = n ∧ s.compInfoLen = m

theorem keeps_skip {I : Codec → Prop} (i n : ℕ) : Keeps (loop skipChar i n) I :=
  Keeps.loop (fun _ => keeps_getChar.bind fun _ => keeps_pure ()) i n

theorem keeps_huffBit (n m : ℕ) (k : HuffClass) (h i : ℕ) : Keeps (huffBit k h i) (Sized n m) := by
  intro l s hs
  simp only [huffBit, wp_bind, wp_getChar, wp_touch, wp_modify]
  exact fun _ _ _ => hs

theorem keeps_huffValue (n m : ℕ) (k : HuffClass) (h i : ℕ) : Keeps (huffValue k h i) (Sized n m) := by
  intro l s hs
  simp only [huffValue, wp_bind, wp_getChar, wp_touch, wp_modify]
  exact fun _ _ _ => hs

theorem keeps_huffTable (n m : ℕ) : Keeps huffTable (Sized n m) := by
  intro l s hs
  simp only [huffTable, wp_bind, wp_getChar, wp_touch, wp_modify, wp_get, wp_demand, wp_pure]
  intro c r _
  have hset : Sized n m (s.setBits (huffPick c).1 (huffPick c).2 0 0) := hs
  refine (Keeps.loop (keeps_huffBit n m (huffPick c).1 (huffPick c).2) 1 16 r _ hset).mono ?_
  intro _ r' t ht _
  exact Keeps.loop (keeps_huffValue n m (huffPick c).1 (huffPick c).2) 0 _ r' t ht

theorem keeps_huffTables (n m fuel length : ℕ) : Keeps (huffTables fuel length) (Sized n m) := by
  induction fuel generalizing length with
  | zero => exact keeps_pure ()
  | succ fuel ih =>
    rw [huffTables]
    split_ifs
    · exact keeps_pure ()
    · exact (keeps_huffTable n m).bind fun _ => (keeps_demand _).bind fun _ => ih _

theorem keeps_sized_quantEntry (n m prec i j : ℕ) : Keeps (quantEntry prec i j) (Sized n m) := by
  unfold quantEntry
  split_ifs
  · exact (keeps_getChar.bind fun _ => keeps_pure _).bind fun _ => (keeps_touch _).bind fun _ =>
      (keeps_touch _).bind fun _ => keeps_modify fun _ h => h
  · exact keeps_getShortWord.bind fun _ => (keeps_touch _).bind fun _ => (keeps_touch _).bind fun _ =>
      keeps_modify fun _ h => h

theorem keeps_quantTable (n m : ℕ) : Keeps quantTable (Sized n m) := by
  intro l s hs
  simp only [quantTable, wp_bind, wp_getChar, wp_demand, wp_touch, wp_modify, wp_pure]
  intro c r _ _
  exact Keeps.loop (keeps_sized_quantEntry n m (c.toNat / 16) (c.toNat % 16)) 0 64 r _ hs

theorem keeps_quantTables (n m fuel length : ℕ) (two : Bool) : Keeps (quantTables fuel length two) (Sized n m) := by
  induction fuel generalizing length two with
  | zero => exact keeps_pure two
  | succ fuel ih =>
    rw [quantTables]
    split_ifs
    · exact keeps_pure two
    · refine (keeps_quantTable n m).bind ?_
      intro pn
      refine (keeps_demand _).bind ?_
      intro _
      exact ih _ _

theorem keeps_quantSame {I : Codec → Prop} (j : ℕ) : Keeps (quantSame j) I := by
  intro l s hs
  simp only [quantSame, wp_bind, wp_get, wp_touch, wp_demand]
  exact fun _ => hs

theorem keeps_getQuantTbl (n m : ℕ) : Keeps getQuantTbl (Sized n m) := by
  intro l s hs
  simp only [getQuantTbl, wp_bind, wp_modify, wp_getShortWord, wp_demand]
  intro high low r _ _
  have hset : Sized n m { s with usingDefaultQuantTab := false } := hs
  refine (keeps_quantTables n m _ _ false r _ hset).mono ?_
  intro two r' t ht
  cases two with
  | false => exact wp_pure.2 ht
  | true => exact Keeps.loop keeps_quantSame 0 64 r' t ht

theorem keeps_getAPP0 {I : Codec → Prop} : Keeps getAPP0 I := by
  refine keeps_getShortWord.bind fun _ => (keeps_demand _).bind fun _ => ?_
  split_ifs
  · exact (keeps_skip _ _).bind fun _ => keeps_skip _ _
  · exact keeps_pure ()

/-- a handler that is not the frame's or the scan's leaves the frame as it is -/
theorem keeps_handler {g : Segment} (hsof : ∀ isProgressive, g ≠ .sof isProgressive) (hsos : g ≠ .sos) (n m : ℕ) :
    Keeps (handler ndebug g) (Sized n m) := by
  cases g with
  | sof isProgressive => exact absurd rfl (hsof isProgressive)
  | sos => exact absurd rfl hsos
  | dht => exact keeps_getShortWord.bind fun _ => (keeps_demand _).bind fun _ => keeps_huffTables n m _ _
  | dqt => exact keeps_getQuantTbl n m
  | app0 => exact keeps_getAPP0
  | dri =>
    exact keeps_getShortWord.bind fun _ => (keeps_demand _).bind fun _ => keeps_getShortWord.bind fun _ =>
      keeps_modify fun _ h => h
  | other => exact keeps_getShortWord.bind fun _ => (keeps_demand _).bind fun _ => keeps_skip _ _

theorem keeps_sofFormat {I : Codec → Prop} (h : ∀ s f, I s → I { s with inputMcuInfo := f }) (n : ℕ) :
    Keeps (sofFormat n) I := by
  refine (keeps_touch _).bind fun _ => keeps_get.bind fun s => ?_
  by_cases h1 : n = 1
  · rw [if_pos h1]
    exact keeps_modify fun t ht => h t _ ht
  · rw [if_neg h1]
    cases sampleFormat (s.compInfo 0).ratio with
    | none => exact keeps_fail
    | some f =>
      refine (keeps_modify fun t ht => h t f ht).bind fun _ => (keeps_touch _).bind fun _ =>
        (keeps_demand _).bind fun _ => ?_
      split_ifs
      · exact (keeps_touch _).bind fun _ => keeps_demand _
      · exact keeps_pure ()

theorem wp_getSOF (isProgressive : Bool) : Wp (getSOF ndebug isProgressive) l s fun _ _ t => Fits t := by
  simp only [getSOF, wp_bind, wp_modify, wp_getShortWord, wp_demand, wp_getChar]
  rintro high low r _ _ precision r _ _ h1 h2 r _ w1 w2 r _ c r _ _ _
  refine (Keeps.loop (I := Fits) (keeps_sofComponent (fun _ _ _ h => h) c.toNat) 0 c.toNat r _ ?_).mono ?_
  · exact Nat.le_refl c.toNat
  · intro _ r' t ht
    exact keeps_sofFormat (I := Fits) (fun _ _ h => h) c.toNat r' t ht

/-! ## Runs of the parser -/

theorem marker_not_sos {c : UInt8} {g : Segment} (h : marker c = .segment g) : g ≠ .sos := by
  rintro rfl
  unfold marker at h
  split_ifs at h <;> simp at h

/-- a frame is among the calls -/
def FrameCalled (ks : List Call) : Prop := ∃ k ∈ ks, ∃ isProgressive, k.segment = .sof isProgressive

/-- a call leaves a state with entries for its components, which it has if it had or the call is a frame's -/
theorem wp_handler {g : Segment} (hg : g ≠ .sos) (hs : Fits s) : Wp (handler ndebug g) l s fun _ _ t =>
    Fits t ∧ (t.numComponents = s.numComponents ∨ ∃ isProgressive, g = .sof isProgressive) := by
  by_cases hsof : ∃ isProgressive, g = .sof isProgressive
  · obtain ⟨isProgressive, rfl⟩ := hsof
    exact (wp_getSOF isProgressive).mono fun _ _ _ ht => ⟨ht, Or.inr ⟨isProgressive, rfl⟩⟩
  · refine (keeps_handler (fun p hp => hsof ⟨p, hp⟩) hg s.numComponents s.compInfoLen l s ⟨rfl, rfl⟩).mono ?_
    rintro _ _ t ⟨hn, hm⟩
    refine ⟨?_, Or.inl hn⟩
    unfold Fits
    rw [hn, hm]
    exact hs

theorem getNextMarker_none {l : List UInt8} (h : nextMarker false l = none) : getNextMarker l s = ⟨none, [], s, []⟩ := by
  unfold getNextMarker
  rw [h]

theorem getNextMarker_some {l r : List UInt8} {c : UInt8} (h : nextMarker false l = some (c, r)) :
    getNextMarker l s = ⟨some c, r, s, []⟩ := by
  unfold getNextMarker
  rw [h]

@[simp] theorem logs_getNextMarker : Logs Access.Inside getNextMarker l s := by
  cases h : nextMarker false l with
  | none => simp [Logs, getNextMarker_none h]
  | some cr => simp [Logs, getNextMarker_some (show nextMarker false l = some (cr.1, cr.2) from h)]

theorem wp_getNextMarker {Q : UInt8 → List UInt8 → Codec → Prop} :
    Wp getNextMarker l s Q ↔ ∀ c r, nextMarker false l = some (c, r) → Q c r s := by
  cases h : nextMarker false l with
  | none => simp [Wp, getNextMarker_none h]
  | some cr =>
    obtain ⟨c, r⟩ := cr
    simp only [Wp, getNextMarker_some h, Option.some.injEq, Prod.mk.injEq, and_imp]
    constructor
    · rintro hq _ _ rfl rfl
      exact hq c rfl
    · rintro hq _ rfl
      exact hq c r rfl rfl

theorem wp_getNextMarker_some {Q : UInt8 → List UInt8 → Codec → Prop} {c : UInt8} {r : List UInt8}
    (h : nextMarker false l = some (c, r)) : Wp getNextMarker l s Q ↔ Q c r s := by
  simp [Wp, getNextMarker_some h]

theorem logs_processTables (fuel : ℕ) : Logs Access.Inside (processTables ndebug fuel) l s ↔
    ∀ k ∈ tableCalls ndebug fuel l s, k.Meets ndebug := by
  induction fuel generalizing l s with
  | zero => exact iff_of_true logs_fail (fun _ h => absurd h List.not_mem_nil)
  | succ fuel ih =>
    rw [processTables, logs_bind, and_iff_right logs_getNextMarker, tableCalls]
    cases hmarker : nextMarker false l with
    | none => simp [wp_getNextMarker, hmarker]
    | some cr =>
      rw [wp_getNextMarker_some (show nextMarker false l = some (cr.1, cr.2) from hmarker)]
      dsimp only
      cases hc : marker cr.1 with
      | stop => simp
      | unexpected => simp
      | segment g =>
        dsimp only
        simp only [logs_bind, logs_handler (marker_not_sos hc), ih]
        cases hval : (handler ndebug g cr.2 s).val with
        | none => simp [Wp, hval]
        | some u => simp [Wp, hval]

theorem wp_processTables (fuel : ℕ) (hs : Fits s) : Wp (processTables ndebug fuel) l s fun _ _ t =>
    Fits t ∧ (t.numComponents = s.numComponents ∨ FrameCalled (tableCalls ndebug fuel l s)) := by
  induction fuel generalizing l s with
  | zero => exact wp_fail
  | succ fuel ih =>
    rw [processTables, wp_bind, wp_getNextMarker, tableCalls]
    intro c r hmarker
    rw [hmarker]
    dsimp only
    cases hc : marker c with
    | stop => exact wp_pure.2 ⟨hs, Or.inl rfl⟩
    | unexpected => exact wp_fail
    | segment g =>
      dsimp only
      rw [wp_bind]
      intro a hval
      obtain ⟨hfits, hframe⟩ := wp_handler (marker_not_sos hc) hs a hval
      refine (ih hfits).mono ?_
      rintro _ _ t ⟨ht, htail⟩
      refine ⟨ht, ?_⟩
      rw [hval]
      rcases htail with hsame | ⟨k, hk, hsof⟩
      · rcases hframe with hsame' | hsof
        · exact Or.inl (hsame.trans hsame')
        · exact Or.inr ⟨⟨g, r, s⟩, List.mem_cons_self, hsof⟩
      · exact Or.inr ⟨k, List.mem_cons_of_mem _ hk, hsof⟩

theorem logs_findSOI (fuel : ℕ) : Logs Access.Inside (findSOI fuel) l s := by
  induction fuel generalizing l s with
  | zero => exact logs_fail
  | succ fuel ih =>
    rw [findSOI, logs_bind, and_iff_right logs_getNextMarker, wp_getNextMarker]
    intro c r _
    split_ifs
    · exact logs_fail
    · exact logs_pure
    · exact ih

theorem wp_findSOI (fuel : ℕ) : Wp (findSOI fuel) l s fun _ _ t => t = s := by
  induction fuel generalizing l s with
  | zero => exact wp_fail
  | succ fuel ih =>
    rw [findSOI, wp_bind, wp_getNextMarker]
    intro c r _
    split_ifs
    · exact wp_fail
    · exact wp_pure.2 rfl
    · exact ih

/-! ## The scan of a header -/

/-- as many components are in the frame as the scan names -/
theorem scan_le {n : ℕ} (h : ∀ i < n, InFrame s i) : n ≤ s.numComponents := by
  choose! f hf hid using h
  have hinj : Set.InjOn f (Finset.range n) := by
    intro i hi j hj heq
    have h1 := hid i (Finset.mem_range.1 hi)
    have h2 := hid j (Finset.mem_range.1 hj)
    rw [heq, h2] at h1
    omega
  have hmaps : Set.MapsTo f (Finset.range n) (Finset.range s.numComponents) :=
    fun i hi => Finset.mem_coe.2 (Finset.mem_range.2 (hf i (Finset.mem_range.1 hi)))
  have hcard := Finset.card_le_card_of_injOn f hmaps hinj
  rwa [Finset.card_range, Finset.card_range] at hcard

theorem headerOk_iff {n : ℕ} {t : Codec} (h : ScanRead n s t) :
    HeaderOk t ↔ 0 < n ∧ s.numComponents ≤ 3 ∧ ∀ i < n, InFrame s i := by
  obtain ⟨rfl, hcomp, hinfo⟩ := h
  have hframe : ∀ i, InFrame t i ↔ InFrame s i := by
    intro i
    unfold InFrame
    rw [hcomp, hinfo]
  constructor
  · intro ht
    exact ⟨ht.scan.1, hcomp ▸ ht.components.2, fun i hi => (hframe i).1 (ht.named i hi)⟩
  · rintro ⟨hpos, hle, hnamed⟩
    have hscan := scan_le hnamed
    exact ⟨⟨by omega, by omega⟩, ⟨hpos, by omega⟩, fun i hi => (hframe i).2 (hnamed i hi)⟩

theorem scan_safe_iff (hs : Fits s) : (Logs Access.Inside getSOS l s ∧
    ((getSOS l s).val = some () → HeaderOk (getSOS l s).st)) ↔ SosMeets l s := by
  have hok : ((getSOS l s).val = some () → HeaderOk (getSOS l s).st) ↔
      (ScanWhole l → 0 < scanCount l ∧ s.numComponents ≤ 3 ∧ ∀ i < scanCount l, InFrame s i) := by
    rw [← succeeds_getSOS (s := s), ← wp_const]
    have hcongr : Wp getSOS l s (fun _ _ t => HeaderOk t) ↔ Wp getSOS l s fun _ _ _ =>
        0 < scanCount l ∧ s.numComponents ≤ 3 ∧ ∀ i < scanCount l, InFrame s i :=
      wp_getSOS.congr fun _ _ _ ht => headerOk_iff ht
    rw [← hcongr]
    exact ⟨fun h a ha => h ha, fun h ha => h () ha⟩
  unfold SosMeets
  rw [logs_getSOS hs, hok]

/-- what `ParseHead` does behind SOI -/
def tables (ndebug : Bool) (fuel : ℕ) : Dec Unit := do
  let c ← processTables ndebug fuel
  demand (c = 0xDA)
  getSOS

theorem tables_stop {fuel : ℕ} (h : (processTables ndebug fuel l s).val ≠ some 0xDA) :
    (tables ndebug fuel l s).val = none ∧
      (Logs Access.Inside (tables ndebug fuel) l s ↔ Logs Access.Inside (processTables ndebug fuel) l s) := by
  unfold tables
  cases hval : (processTables ndebug fuel l s).val with
  | none =>
    rw [bind_of_none hval]
    refine ⟨rfl, ?_⟩
    rw [logs_bind, and_iff_left]
    intro a ha
    exact absurd (ha.symm.trans hval) (Option.some_ne_none a)
  | some c =>
    have hc : c ≠ 0xDA := fun hc => h (by rw [hval, hc])
    rw [bind_of_some hval, demand, if_neg hc]
    refine ⟨rfl, ?_⟩
    rw [logs_bind, and_iff_left]
    intro a ha
    have hac : a = c := Option.some.inj (ha.symm.trans hval)
    rw [hac, demand, if_neg hc, logs_bind]
    exact ⟨logs_fail, wp_fail⟩

theorem tables_scan {fuel : ℕ} {o : Out Codec Access UInt8} (ho : processTables ndebug fuel l s = o)
    (h : o.val = some 0xDA) :
    (tables ndebug fuel l s).val = (getSOS o.rest o.st).val ∧ (tables ndebug fuel l s).st = (getSOS o.rest o.st).st ∧
      (Logs Access.Inside (tables ndebug fuel) l s ↔
        Logs Access.Inside (processTables ndebug fuel) l s ∧ Logs Access.Inside getSOS o.rest o.st) := by
  subst ho
  have hdemand : (demand ((0xDA : UInt8) = 0xDA) >>= fun _ => getSOS : Dec Unit) = getSOS := by
    rw [demand, if_pos rfl]
    rfl
  unfold tables
  rw [bind_of_some h, hdemand]
  refine ⟨rfl, rfl, ?_⟩
  rw [logs_bind]
  refine and_congr_right fun _ => ?_
  constructor
  · intro hwp
    have hlog := hwp _ h
    dsimp only at hlog
    rwa [hdemand] at hlog
  · intro hlog a ha
    have hac : a = 0xDA := Option.some.inj (ha.symm.trans h)
    rw [hac, hdemand]
    exact hlog

theorem fits_init : Fits Codec.init := Nat.le_refl 0

/-- behind SOI, on a codec without a frame -/
theorem tables_safe_iff (fuel : ℕ) (l : List UInt8) : (Logs Access.Inside (tables ndebug fuel) l Codec.init ∧
    ((tables ndebug fuel l Codec.init).val = some () → HeaderOk (tables ndebug fuel l Codec.init).st ∧
      FrameCalled (tableCalls ndebug fuel l Codec.init ++ scanCall (processTables ndebug fuel l Codec.init)))) ↔
    ∀ k ∈ tableCalls ndebug fuel l Codec.init ++ scanCall (processTables ndebug fuel l Codec.init),
      k.Meets ndebug := by
  obtain ⟨o, ho⟩ : ∃ o, processTables ndebug fuel l Codec.init = o := ⟨_, rfl⟩
  have hlogs : Logs Access.Inside (processTables ndebug fuel) l Codec.init ↔
      ∀ k ∈ tableCalls ndebug fuel l Codec.init, k.Meets ndebug := logs_processTables fuel
  by_cases hscan : o.val = some 0xDA
  · obtain ⟨hval, hst, hlog⟩ := tables_scan ho hscan
    have hval' : (processTables ndebug fuel l Codec.init).val = some 0xDA := by rw [ho, hscan]
    obtain ⟨hfits, hframe⟩ := wp_processTables fuel fits_init _ hval'
    rw [ho] at hfits hframe
    have hcall : scanCall o = [⟨.sos, o.rest, o.st⟩] := by simp [scanCall, hscan]
    have hsafe := scan_safe_iff (l := o.rest) hfits
    rw [hval, hst, hlog, hlogs, ho, hcall]
    simp only [List.forall_mem_append, List.forall_mem_singleton]
    constructor
    · rintro ⟨⟨htables, hsos⟩, hok⟩
      exact ⟨htables, hsafe.1 ⟨hsos, fun h => (hok h).1⟩⟩
    · rintro ⟨htables, hsos⟩
      obtain ⟨hlogsos, hok⟩ := hsafe.2 hsos
      refine ⟨⟨htables, hlogsos⟩, fun h => ⟨hok h, ?_⟩⟩
      -- a scan names a component, so there is a frame
      have hwhole : ScanWhole o.rest := succeeds_getSOS.1 (Option.isSome_iff_exists.2 ⟨(), h⟩)
      obtain ⟨hpos, -, hnamed⟩ := hsos.2 hwhole
      obtain ⟨ci, hci, -⟩ := hnamed 0 hpos
      rcases hframe with hnone | ⟨k, hk, hsof⟩
      · rw [hnone] at hci
        exact absurd hci (Nat.not_lt_zero ci)
      · exact ⟨k, List.mem_append_left _ hk, hsof⟩
  · have hstop : (processTables ndebug fuel l Codec.init).val ≠ some 0xDA := by rwa [ho]
    obtain ⟨hval, hlog⟩ := tables_stop hstop
    have hcall : scanCall o = [] := by
      unfold scanCall
      cases hv : o.val with
      | none => rfl
      | some c => exact if_neg fun hc => hscan (by rw [hv, hc])
    rw [hval, hlog, hlogs, ho, hcall, List.append_nil]
    exact and_iff_left fun h => absurd h (Option.some_ne_none ()).symm

theorem headCalls_none (h : (findSOI (l.length + 1) l s).val = none) : headCalls ndebug l s = [] := by
  simp [headCalls, h]

theorem headCalls_some {u : Unit} {o : Out Codec Access Unit} (ho : findSOI (l.length + 1) l s = o)
    (h : o.val = some u) : headCalls ndebug l s = tableCalls ndebug (l.length + 1) o.rest o.st ++
      scanCall (processTables ndebug (l.length + 1) o.rest o.st) := by
  simp [headCalls, ho, h]

end SprdDevice.Jpeg
