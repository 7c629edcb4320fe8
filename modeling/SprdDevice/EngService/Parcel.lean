/-
The lines of a modem response as one parcel: `eng_init_array`, `eng_push_array`, `eng_push_finish` and `eng_pop_array` in
`engparcel.c`, and the loop that `eng_ResponseCGMR`, `eng_ResponsePLMN` and `eng_ResponseGetSpPsrate` share.

- `char` is unsigned, as on ARM. The fill index and the item count are 8 bits wide and wrap;
- `wrote` has the offset and the length of each write to `send_array.array`, which has 512 bytes;
- a read behind the array is `none`;
- what a reader makes of its items (`out`) is left out.

A line is put where the index says, and the index starts again at 256.

Results: `array_inside`, `readItems_ser` and `parcel_iff`.
-/
import Mathlib.Tactic
import SprdDevice.Lib.Memory
import SprdDevice.EngService.Request

namespace SprdDevice.EngService

open SprdDevice.Memory

/-! ## Model -/

/-- `struct send_array_t` -/
structure SendArray where
  index : ℕ
  itemNum : ℕ
  array : ℕ → UInt8
  wrote : List (ℕ × ℕ)

/-- `SEND_ARRAY_MAX_LEN` -/
def sendArrayMaxLen : ℕ := 512

/-- `SEND_DATA_START_POS` -/
def sendDataStartPos : ℕ := 2

def engInitArray : SendArray := { index := sendDataStartPos, itemNum := 0, array := fun _ => 0, wrote := [] }

def engPushArray (s : SendArray) (data : List UInt8) (len : ℕ) : SendArray where
  index := (s.index + (len + 1)) % 256
  itemNum := (s.itemNum + 1) % 256
  array := store (store s.array s.index [UInt8.ofNat len]) (s.index + 1) (data.take len)
  wrote := s.wrote ++ [(s.index, 1), (s.index + 1, len)]

/-- `eng_push_array(line, strlen(line))` -/
def pushLine (s : SendArray) (line : List UInt8) : SendArray := engPushArray s line (line.length % 256)

def engPushFinish (s : SendArray) : SendArray :=
  { s with
    array := Function.update (Function.update s.array 0 (UInt8.ofNat s.index)) 1 (UInt8.ofNat s.itemNum)
    wrote := s.wrote ++ [(0, 1), (1, 1)] }

/-- a response of these lines; `eng_pop_array` gives the array as it is -/
def parcel (lines : List (List UInt8)) : SendArray := engPushFinish (lines.foldl pushLine engInitArray)

/-- the string at `ptr` -/
def str (m : ℕ → UInt8) (ptr : ℕ) : Option (List UInt8) :=
  let rest := cells m ptr (sendArrayMaxLen - ptr)
  if 0 ∈ rest then some (rest.takeWhile (· ≠ 0)) else none

/-- the loop of the readers; `snprintf` cuts the string at `item_len` -/
def readItems (m : ℕ → UInt8) : ℕ → ℕ → Option (List (List UInt8))
  | 0, _ => some []
  | n + 1, ptr =>
    if ptr < sendArrayMaxLen then do
      let itemLen := (m ptr).toNat
      let s ← str m (ptr + 1)
      let items ← readItems m n (ptr + 1 + itemLen)
      some (s.take itemLen :: items)
    else none

/-- the readers with that loop -/
inductive Reader where
  | cgmr
  | plmn
  | getSpPsrate
deriving DecidableEq, Repr

/-- `sizeof(item)` -/
def Reader.itemSize : Reader → ℕ
  | .cgmr => 128
  | .plmn => 256
  | .getSpPsrate => 128

/-- what a reader sees -/
def seen (s : SendArray) : Option (List (List UInt8)) := readItems s.array (s.array 1).toNat sendDataStartPos

/-! ## Statement -/

/-- a line of the modem: no NUL, and at most 255 bytes -/
def IsLine (l : List UInt8) : Prop := 0 ∉ l ∧ l.length ≤ 255

/-- the reader sees the lines, and every write stays inside: an item takes its bytes and a NUL -/
structure RoundTrip (r : Reader) (lines : List (List UInt8)) : Prop where
  seen : seen (parcel lines) = some lines
  arrayInside : ∀ w ∈ (parcel lines).wrote, w.1 + w.2 ≤ sendArrayMaxLen
  itemInside : ∀ items, EngService.seen (parcel lines) = some items → ∀ l ∈ items, l.length + 1 ≤ r.itemSize

/-- the items one behind the other, each with its length in front -/
def ser (lines : List (List UInt8)) : List UInt8 := lines.flatMap fun l => UInt8.ofNat l.length :: l

/-- each line starts below 256; or it is empty and the zero it writes, 256 bytes below, is one already -/
def StartsOk (whole : List UInt8) : ℕ → List (List UInt8) → Prop
  | _, [] => True
  | i, l :: ls =>
    (i < 256 ∨ l = [] ∧ i ≤ 510 ∧ (i < 258 ∨ whole[i - 258]? = some 0)) ∧ StartsOk whole (i + (l.length + 1)) ls

/-- when the lines come through -/
structure Fits (r : Reader) (lines : List (List UInt8)) : Prop where
  count : lines.length ≤ 255
  size : ∀ l ∈ lines, l.length < r.itemSize
  starts : StartsOk (ser lines) sendDataStartPos lines

/-! ## The parcel -/

@[simp] theorem ser_nil : ser [] = [] := rfl

@[simp] theorem ser_cons (l : List UInt8) (ls : List (List UInt8)) :
    ser (l :: ls) = UInt8.ofNat l.length :: (l ++ ser ls) := rfl

@[simp] theorem ser_append (a b : List (List UInt8)) : ser (a ++ b) = ser a ++ ser b := List.flatMap_append

theorem length_ser_cons (l : List UInt8) (ls : List (List UInt8)) :
    (ser (l :: ls)).length = l.length + 1 + (ser ls).length := by
  rw [ser_cons, List.length_cons, List.length_append]
  ring

theorem pushLine_array {l : List UInt8} (h : l.length ≤ 255) (s : SendArray) :
    (pushLine s l).array = store s.array s.index (ser [l]) := by
  have hmod : l.length % 256 = l.length := Nat.mod_eq_of_lt (by omega)
  have happ : ser [l] = [UInt8.ofNat l.length] ++ l := by simp
  rw [pushLine, engPushArray, hmod, List.take_length, happ, store_append]
  rfl

theorem pushLine_index {l : List UInt8} (h : l.length ≤ 255) (s : SendArray) :
    (pushLine s l).index = (s.index + (l.length + 1)) % 256 := by
  rw [pushLine, engPushArray, Nat.mod_eq_of_lt (by omega : l.length < 256)]

/-- every line starts in the first 256 bytes -/
def StartsBelow : ℕ → List (List UInt8) → Prop
  | _, [] => True
  | i, l :: ls => i < 256 ∧ StartsBelow (i + (l.length + 1)) ls

theorem push_index {lines : List (List UInt8)} (hlen : ∀ l ∈ lines, l.length ≤ 255) {s : SendArray}
    (h : s.index < 256) : (lines.foldl pushLine s).index = (s.index + (ser lines).length) % 256 := by
  induction lines generalizing s with
  | nil => exact (Nat.mod_eq_of_lt h).symm
  | cons l ls ih =>
    have hl : l.length ≤ 255 := hlen l (List.mem_cons_self ..)
    have hnext := pushLine_index hl s
    rw [List.foldl_cons, ih (fun x hx => hlen x (List.mem_cons_of_mem l hx)) (by rw [hnext]; omega), hnext,
      length_ser_cons]
    omega

theorem push_itemNum (lines : List (List UInt8)) (s : SendArray) (h : s.itemNum < 256) :
    (lines.foldl pushLine s).itemNum = (s.itemNum + lines.length) % 256 := by
  induction lines generalizing s with
  | nil => exact (Nat.mod_eq_of_lt h).symm
  | cons l ls ih =>
    have hnext : (pushLine s l).itemNum = (s.itemNum + 1) % 256 := rfl
    rw [List.foldl_cons, ih (pushLine s l) (by rw [hnext]; omega), hnext, List.length_cons]
    omega

/-- the lines that start below 256 lie one behind the other -/
theorem push_array {lines : List (List UInt8)} (hlen : ∀ l ∈ lines, l.length ≤ 255) {s : SendArray}
    (hstart : StartsBelow s.index lines) : (lines.foldl pushLine s).array = store s.array s.index (ser lines) := by
  induction lines generalizing s with
  | nil => exact (store_nil s.array s.index).symm
  | cons l ls ih =>
    have hl : l.length ≤ 255 := hlen l (List.mem_cons_self ..)
    obtain ⟨hlt, hrest⟩ := hstart
    rw [List.foldl_cons]
    cases ls with
    | nil => exact pushLine_array hl s
    | cons x xs =>
      have hnext : (pushLine s l).index = s.index + (l.length + 1) := by
        rw [pushLine_index hl]
        exact Nat.mod_eq_of_lt hrest.1
      have hsplit : ser (l :: x :: xs) = ser [l] ++ ser (x :: xs) := by simp
      have hsz : (ser [l]).length = l.length + 1 := by simp
      rw [ih (fun y hy => hlen y (List.mem_cons_of_mem l hy)) (by rw [hnext]; exact hrest), hnext,
        pushLine_array hl, hsplit, store_append, hsz]

/-- no write leaves the array -/
theorem push_inside (lines : List (List UInt8)) (s : SendArray) (h : s.index < 256)
    (hs : ∀ w ∈ s.wrote, w.1 + w.2 ≤ sendArrayMaxLen) :
    ∀ w ∈ (lines.foldl pushLine s).wrote, w.1 + w.2 ≤ sendArrayMaxLen := by
  induction lines generalizing s with
  | nil => exact hs
  | cons l ls ih =>
    refine ih (pushLine s l) (Nat.mod_lt _ (by decide)) fun w hw => ?_
    rcases List.mem_append.1 hw with hw | hw
    · exact hs w hw
    · unfold sendArrayMaxLen
      rcases List.mem_cons.1 hw with rfl | hw
      · dsimp only
        omega
      · rw [List.mem_singleton.1 hw]
        dsimp only
        omega

theorem array_inside (lines : List (List UInt8)) : ∀ w ∈ (parcel lines).wrote, w.1 + w.2 ≤ sendArrayMaxLen := by
  intro w hw
  rcases List.mem_append.1 hw with hw | hw
  · exact push_inside lines engInitArray (by decide) (by simp [engInitArray]) w hw
  · rcases List.mem_cons.1 hw with rfl | hw
    · decide
    · rw [List.mem_singleton.1 hw]
      decide

/-- the lines fall into those that start below 256 and the others -/
theorem exists_lap (i : ℕ) (lines : List (List UInt8)) : ∃ pre post, lines = pre ++ post ∧ StartsBelow i pre ∧
    (post ≠ [] → 256 ≤ i + (ser pre).length) := by
  induction lines generalizing i with
  | nil => exact ⟨[], [], rfl, trivial, fun h => absurd rfl h⟩
  | cons l ls ih =>
    by_cases hi : i < 256
    · obtain ⟨pre, post, rfl, hpre, hpost⟩ := ih (i + (l.length + 1))
      refine ⟨l :: pre, post, rfl, ⟨hi, hpre⟩, fun h => ?_⟩
      have hge := hpost h
      rw [length_ser_cons]
      omega
    · exact ⟨[], l :: ls, rfl, trivial, fun _ => not_lt.1 hi⟩

theorem startsBelow_concat {i : ℕ} {ls : List (List UInt8)} {x : List UInt8} (h : i + (ser ls).length < 256) :
    StartsBelow i (ls ++ [x]) := by
  induction ls generalizing i with
  | nil => exact ⟨h, trivial⟩
  | cons l ls ih =>
    rw [length_ser_cons] at h
    exact ⟨by omega, ih (by omega)⟩

/-- the array behind its two header bytes -/
theorem parcel_array {pre post : List (List UInt8)} (hlen : ∀ l ∈ pre ++ post, l.length ≤ 255)
    (hpre : StartsBelow sendDataStartPos pre)
    (hpost : StartsBelow ((sendDataStartPos + (ser pre).length) % 256) post) {p : ℕ} (hp : 2 ≤ p) :
    (parcel (pre ++ post)).array p =
      store (store (fun _ => 0) 2 (ser pre)) ((2 + (ser pre).length) % 256) (ser post) p := by
  have hlenPre : ∀ l ∈ pre, l.length ≤ 255 := fun l hl => hlen l (List.mem_append_left post hl)
  have hlenPost : ∀ l ∈ post, l.length ≤ 255 := fun l hl => hlen l (List.mem_append_right pre hl)
  have hindex : (pre.foldl pushLine engInitArray).index = (2 + (ser pre).length) % 256 :=
    push_index hlenPre (by decide)
  have harray : (pre.foldl pushLine engInitArray).array = store (fun _ => 0) 2 (ser pre) := push_array hlenPre hpre
  have hall : ((pre ++ post).foldl pushLine engInitArray).array =
      store (store (fun _ => 0) 2 (ser pre)) ((2 + (ser pre).length) % 256) (ser post) := by
    rw [List.foldl_append, push_array hlenPost (by rw [hindex]; exact hpost), harray, hindex]
  rw [parcel, engPushFinish]
  dsimp only
  rw [Function.update_of_ne (by omega), Function.update_of_ne (by omega), hall]

theorem parcel_count (lines : List (List UInt8)) : ((parcel lines).array 1).toNat = lines.length % 256 := by
  have hnum := push_itemNum lines engInitArray (by decide)
  have hcell : (parcel lines).array 1 = UInt8.ofNat (lines.foldl pushLine engInitArray).itemNum := by
    rw [parcel, engPushFinish]
    dsimp only
    rw [Function.update_self]
  rw [hcell, hnum, UInt8.toNat_ofNat']
  change (0 + lines.length) % 256 % 2 ^ 8 = lines.length % 256
  omega

/-! ## The reader -/

theorem takeWhile_line {l rest : List UInt8} (h : 0 ∉ l) :
    ((l ++ rest).takeWhile (· ≠ 0)).take l.length = l := by
  have hall : ∀ b ∈ l, (decide (b ≠ 0)) = true := fun b hb => by
    have hne : b ≠ 0 := by
      rintro rfl
      exact h hb
    simpa using hne
  rw [List.takeWhile_append_of_pos hall, List.take_left]

/-- a string ends before the array does -/
theorem str_inside {m : ℕ → UInt8} {p : ℕ} {s : List UInt8} (h : str m p = some s) :
    p < sendArrayMaxLen ∧ s = (cells m p (sendArrayMaxLen - p)).takeWhile (· ≠ 0) := by
  unfold str at h
  dsimp only at h
  split_ifs at h with hz
  refine ⟨?_, (Option.some.inj h).symm⟩
  by_contra hle
  rw [Nat.sub_eq_zero_of_le (not_lt.1 hle)] at hz
  exact absurd hz (by simp [cells])

/-- the length of a line is its length byte -/
theorem toNat_length {l : List UInt8} (h : l.length < 256) : (UInt8.ofNat l.length).toNat = l.length := by
  rw [UInt8.toNat_ofNat']
  exact Nat.mod_eq_of_lt h

/-- where the lines lie one behind the other, and a zero somewhere behind them, the reader sees them -/
theorem readItems_ser {m : ℕ → UInt8} (hend : m 511 = 0) {lines : List (List UInt8)} (hlines : ∀ l ∈ lines, IsLine l)
    {p : ℕ} (hfit : p + (ser lines).length ≤ 511) (hcells : cells m p (ser lines).length = ser lines) :
    readItems m lines.length p = some lines := by
  induction lines generalizing p with
  | nil => rfl
  | cons l ls ih =>
    obtain ⟨hnul, hle⟩ := hlines l (List.mem_cons_self ..)
    have hsz := length_ser_cons l ls
    have hlen : (UInt8.ofNat l.length).toNat = l.length := toNat_length (by omega)
    rw [hsz, Nat.add_right_comm, cells_succ, cells_add, ser_cons, List.cons.injEq] at hcells
    obtain ⟨hhead, htail⟩ := hcells
    obtain ⟨hline, hrest⟩ := List.append_inj htail (by simp)
    have hroom : sendArrayMaxLen - (p + 1) = l.length + (sendArrayMaxLen - (p + 1) - l.length) := by
      unfold sendArrayMaxLen
      omega
    have hsplit : cells m (p + 1) (sendArrayMaxLen - (p + 1)) =
        l ++ cells m (p + 1 + l.length) (sendArrayMaxLen - (p + 1) - l.length) := by
      conv_lhs => rw [hroom, cells_add, hline]
    have hzero : (0 : UInt8) ∈ cells m (p + 1) (sendArrayMaxLen - (p + 1)) := by
      have hmem := mem_cells (m := m) (p := p + 1) (i := 510 - p) (n := sendArrayMaxLen - (p + 1)) (by
        unfold sendArrayMaxLen
        omega)
      rwa [show p + 1 + (510 - p) = 511 by omega, hend] at hmem
    have hstr : str m (p + 1) = some ((cells m (p + 1) (sendArrayMaxLen - (p + 1))).takeWhile (· ≠ 0)) := if_pos hzero
    have hin : p < sendArrayMaxLen := by
      unfold sendArrayMaxLen
      omega
    rw [List.length_cons, readItems, if_pos hin, hhead, hlen]
    dsimp only
    rw [hstr, ih (fun x hx => hlines x (List.mem_cons_of_mem l hx)) (by omega) hrest, hsplit]
    dsimp only [Option.bind_eq_bind, Option.bind_some]
    rw [takeWhile_line hnul]

theorem readItems_cons {m : ℕ → UInt8} {n p : ℕ} {l : List UInt8} {ls : List (List UInt8)}
    (h : readItems m (n + 1) p = some (l :: ls)) : p + 1 < sendArrayMaxLen ∧
      l = ((cells m (p + 1) (sendArrayMaxLen - (p + 1))).takeWhile (· ≠ 0)).take (m p).toNat ∧
      readItems m n (p + 1 + (m p).toNat) = some ls := by
  rw [readItems] at h
  split_ifs at h with hin
  obtain ⟨s, hs, h⟩ := Option.bind_eq_some_iff.1 h
  obtain ⟨items, hitems, h⟩ := Option.bind_eq_some_iff.1 h
  obtain ⟨hlt, rfl⟩ := str_inside hs
  obtain ⟨rfl, rfl⟩ := List.cons.inj (Option.some.inj h)
  exact ⟨hlt, rfl, hitems⟩

theorem readItems_length {m : ℕ → UInt8} {n p : ℕ} {ls : List (List UInt8)} (h : readItems m n p = some ls) :
    ls.length = n := by
  induction n generalizing p ls with
  | zero => rw [← Option.some.inj h, List.length_nil]
  | succ n ih =>
    cases ls with
    | nil =>
      rw [readItems] at h
      split_ifs at h
      obtain ⟨s, hs, h⟩ := Option.bind_eq_some_iff.1 h
      obtain ⟨items, hitems, h⟩ := Option.bind_eq_some_iff.1 h
      exact absurd (Option.some.inj h) (by simp)
    | cons l ls => rw [List.length_cons, ih (readItems_cons h).2.2]

/-- an item is not longer than its length byte, so the reader is never behind the line it sees -/
theorem readItems_append {m : ℕ → UInt8} {p : ℕ} {a b : List (List UInt8)}
    (h : readItems m (a ++ b).length p = some (a ++ b)) :
    ∃ q, p + (ser a).length ≤ q ∧ readItems m b.length q = some b := by
  induction a generalizing p with
  | nil => exact ⟨p, by simp, h⟩
  | cons l a ih =>
    obtain ⟨-, hl, hrest⟩ := readItems_cons h
    obtain ⟨q, hq, hb⟩ := ih hrest
    have hle : l.length ≤ (m p).toNat := by
      rw [hl]
      exact List.length_take_le _ _
    refine ⟨q, ?_, hb⟩
    rw [length_ser_cons]
    omega

/-- nothing but empty items is read from zeros -/
theorem readItems_zero {m : ℕ → UInt8} {n p : ℕ} {ls : List (List UInt8)} (hzero : ∀ q, p ≤ q → m q = 0)
    (h : readItems m n p = some ls) : ∀ l ∈ ls, l = [] := by
  induction n generalizing p ls with
  | zero =>
    rw [← Option.some.inj h]
    simp
  | succ n ih =>
    cases ls with
    | nil => simp
    | cons l ls =>
      obtain ⟨-, hl, hrest⟩ := readItems_cons h
      have hp : (m p).toNat = 0 := by rw [hzero p le_rfl]; rfl
      rw [hp] at hl hrest
      intro x hx
      rcases List.mem_cons.1 hx with rfl | hx
      · rw [hl, List.take_zero]
      · exact ih (fun q hq => hzero q (by omega)) hrest x hx

/-- a reader that sees the lines where some of their bytes may be zeros has found none of these -/
theorem cells_of_readItems {m : ℕ → UInt8} {p : ℕ} {lines : List (List UInt8)} (hlines : ∀ l ∈ lines, IsLine l)
    (hcell : ∀ i, ∀ hi : i < (ser lines).length, m (p + i) = (ser lines)[i] ∨ m (p + i) = 0)
    (h : readItems m lines.length p = some lines) : cells m p (ser lines).length = ser lines := by
  induction lines generalizing p with
  | nil => rfl
  | cons l ls ih =>
    obtain ⟨hnul, hle⟩ := hlines l (List.mem_cons_self ..)
    obtain ⟨hin, hl, hrest⟩ := readItems_cons h
    have hlen : (UInt8.ofNat l.length).toNat = l.length := toNat_length (by omega)
    have hsz := length_ser_cons l ls
    have hhead : m p = UInt8.ofNat l.length := by
      rcases hcell 0 (by omega) with h0 | h0
      · exact h0
      · rw [Nat.add_zero] at h0
        rw [h0] at hl
        have hnil : l = [] := by rw [hl]; rfl
        rw [h0, hnil]
        rfl
    rw [hhead, hlen] at hl hrest
    have hcontent : cells m (p + 1) l.length = l := by
      have hprefix : l <+: cells m (p + 1) (sendArrayMaxLen - (p + 1)) := by
        rw [hl]
        exact (List.take_prefix _ _).trans (List.takeWhile_prefix _)
      obtain ⟨t, ht⟩ := hprefix
      have hroom : sendArrayMaxLen - (p + 1) = l.length + t.length := by
        rw [← List.length_append, ht, length_cells]
      rw [hroom, cells_add] at ht
      exact (List.append_inj ht (by simp)).1.symm
    have hrestCells : cells m (p + 1 + l.length) (ser ls).length = ser ls := by
      refine ih (fun x hx => hlines x (List.mem_cons_of_mem l hx)) (fun i hi => ?_) hrest
      have hi' : l.length + 1 + i < (ser (l :: ls)).length := by omega
      have hget : (ser (l :: ls))[l.length + 1 + i] = (ser ls)[i] := by
        simp only [ser_cons, Nat.add_right_comm l.length 1 i, List.getElem_cons_succ]
        rw [List.getElem_append_right (Nat.le_add_right _ _)]
        simp
      have hcell' := hcell (l.length + 1 + i) hi'
      rwa [hget, show p + (l.length + 1 + i) = p + 1 + l.length + i by ring] at hcell'
    rw [hsz, Nat.add_right_comm, cells_succ, cells_add, hhead, hcontent, hrestCells, ser_cons]

/-! ## Where lines start -/

theorem startsOk_of_below {whole : List UInt8} {i : ℕ} {ls : List (List UInt8)} (h : StartsBelow i ls) :
    StartsOk whole i ls := by
  induction ls generalizing i with
  | nil => trivial
  | cons l ls ih => exact ⟨Or.inl h.1, ih h.2⟩

theorem startsOk_append {whole : List UInt8} {i : ℕ} {a b : List (List UInt8)} :
    StartsOk whole i (a ++ b) ↔ StartsOk whole i a ∧ StartsOk whole (i + (ser a).length) b := by
  induction a generalizing i with
  | nil => simp [StartsOk]
  | cons l a ih =>
    rw [List.cons_append, StartsOk, StartsOk, ih, length_ser_cons, and_assoc,
      show i + (l.length + 1 + (ser a).length) = i + (l.length + 1) + (ser a).length by ring]

/-- behind the first 256 bytes there are only empty lines, over zeros -/
theorem startsOk_behind {whole : List UInt8} {i : ℕ} {ls : List (List UInt8)} (hi : 256 ≤ i) :
    StartsOk whole i ls ↔ (∀ l ∈ ls, l = []) ∧
      ∀ j < ls.length, i + j ≤ 510 ∧ (i + j < 258 ∨ whole[i + j - 258]? = some 0) := by
  induction ls generalizing i with
  | nil => simp [StartsOk]
  | cons l ls ih =>
    rw [StartsOk, List.forall_mem_cons]
    constructor
    · rintro ⟨hlt | ⟨rfl, hle, hover⟩, hrest⟩
      · omega
      · obtain ⟨hnil, hrest⟩ := (ih (by omega)).1 hrest
        refine ⟨⟨rfl, hnil⟩, fun j hj => ?_⟩
        cases j with
        | zero => exact ⟨hle, hover⟩
        | succ j =>
          have hj' := hrest j (by simpa using hj)
          rwa [List.length_nil, Nat.zero_add, Nat.add_assoc, Nat.add_comm 1 j] at hj'
    · rintro ⟨⟨rfl, hnil⟩, hj⟩
      have h0 := hj 0 (by simp)
      refine ⟨Or.inr ⟨rfl, h0⟩, (ih (by omega)).2 ⟨hnil, fun j hjlt => ?_⟩⟩
      have hj' := hj (j + 1) (by simpa using hjlt)
      rwa [List.length_nil, Nat.zero_add, Nat.add_assoc, Nat.add_comm 1 j]

theorem ser_empty {ls : List (List UInt8)} (h : ∀ l ∈ ls, l = []) : ser ls = List.replicate ls.length 0 := by
  induction ls with
  | nil => rfl
  | cons l ls ih =>
    rw [ser_cons, h l (List.mem_cons_self ..), ih fun x hx => h x (List.mem_cons_of_mem l hx), List.length_cons,
      List.replicate_succ]
    rfl

theorem startsBelow_empty {i : ℕ} {ls : List (List UInt8)} (h : ∀ l ∈ ls, l = []) (hi : i + ls.length ≤ 256) :
    StartsBelow i ls := by
  induction ls generalizing i with
  | nil => trivial
  | cons l ls ih =>
    rw [List.length_cons] at hi
    rw [h l (List.mem_cons_self ..)]
    exact ⟨by omega, ih (fun x hx => h x (List.mem_cons_of_mem l hx)) (by rw [List.length_nil]; omega)⟩

/-- a line that starts below 256 ends at 511 or before -/
theorem length_of_below {i : ℕ} {ls : List (List UInt8)} (hlen : ∀ l ∈ ls, l.length ≤ 255) (hi : i ≤ 511)
    (h : StartsBelow i ls) : i + (ser ls).length ≤ 511 := by
  induction ls generalizing i with
  | nil => simpa using hi
  | cons l ls ih =>
    have hl := hlen l (List.mem_cons_self ..)
    have hlt := h.1
    have hrest := ih (fun x hx => hlen x (List.mem_cons_of_mem l hx)) (by omega) h.2
    rw [length_ser_cons]
    omega

/-! ## Both directions -/

theorem store_replicate (m : ℕ → UInt8) (i n p : ℕ) :
    store m i (List.replicate n 0) p = if i ≤ p ∧ p < i + n then 0 else m p := by
  by_cases hp : i ≤ p ∧ p < i + n
  · rw [if_pos hp, store_inside _ _ hp.1 (by rw [List.length_replicate]; omega), List.getElem_replicate]
  · rw [if_neg hp, store_outside _ _ (by rw [List.length_replicate]; omega)]

theorem cells_eq_iff_get {m : ℕ → UInt8} {p : ℕ} {l : List UInt8} :
    cells m p l.length = l ↔ ∀ i, ∀ hi : i < l.length, m (p + i) = l[i] := by
  constructor
  · intro h i hi
    have hi' : i < (cells m p l.length).length := by rwa [length_cells]
    have hget := List.getElem_of_eq h hi'
    rw [← hget]
    simp [cells]
  · intro h
    refine List.ext_getElem (length_cells _ _ _) fun i h1 h2 => ?_
    rw [← h i h2]
    simp [cells]

section Lap

variable {pre post : List (List UInt8)}

/-- what is needed of the lines from 256 on -/
structure Behind (pre post : List (List UInt8)) : Prop where
  start : post ≠ [] → 256 ≤ 2 + (ser pre).length
  empty : ∀ l ∈ post, l = []
  fit : 2 + (ser pre).length + post.length ≤ 511

theorem Behind.base (h : Behind pre post) (i : ℕ) :
    store (fun _ => 0) 2 (ser pre) (2 + i) = ((ser (pre ++ post))[i]?).getD 0 := by
  rw [ser_append, ser_empty h.empty]
  by_cases hpre : i < (ser pre).length
  · rw [store_add _ _ _ hpre, List.getElem?_append_left hpre, List.getElem?_eq_getElem hpre, Option.getD_some]
  · rw [store_outside _ _ (Or.inr (by omega)), List.getElem?_append_right (not_lt.1 hpre), List.getElem?_replicate]
    split_ifs <;> rfl

/-- a cell has its byte, or a zero that was written over it -/
theorem Behind.cell (h : Behind pre post) (hlen : ∀ l ∈ pre ++ post, l.length ≤ 255)
    (hpre : StartsBelow sendDataStartPos pre) (i : ℕ) :
    (parcel (pre ++ post)).array (2 + i) =
      if 2 + (ser pre).length ≤ i + 258 ∧ i + 258 < 2 + (ser pre).length + post.length then 0
      else ((ser (pre ++ post))[i]?).getD 0 := by
  have hfit := h.fit
  have hstart := h.start
  have hmod : post ≠ [] → (2 + (ser pre).length) % 256 = 2 + (ser pre).length - 256 := fun hne => by
    have hge := hstart hne
    have hpos := List.length_pos_iff.2 hne
    omega
  have hbelow : StartsBelow ((sendDataStartPos + (ser pre).length) % 256) post := by
    by_cases hne : post = []
    · rw [hne]
      trivial
    · have hge := hstart hne
      exact startsBelow_empty h.empty (by rw [sendDataStartPos, hmod hne]; omega)
  rw [parcel_array hlen hpre hbelow (Nat.le_add_right 2 i), ser_empty h.empty, store_replicate, h.base i]
  by_cases hne : post = []
  · subst hne
    rw [List.length_nil, if_neg (by omega), if_neg (by omega)]
  · have hge := hstart hne
    rw [hmod hne]
    exact if_congr (by omega) rfl rfl

/-- the lines lie there whole, when what was written over was zero before -/
theorem Behind.cells_iff (h : Behind pre post) (hlen : ∀ l ∈ pre ++ post, l.length ≤ 255)
    (hpre : StartsBelow sendDataStartPos pre) :
    cells (parcel (pre ++ post)).array 2 (ser (pre ++ post)).length = ser (pre ++ post) ↔
      ∀ j < post.length, 2 + (ser pre).length + j < 258 ∨
        (ser (pre ++ post))[2 + (ser pre).length + j - 258]? = some 0 := by
  rw [cells_eq_iff_get]
  constructor
  · intro hcells j hj
    have hge := h.start (List.length_pos_iff.1 (by omega))
    by_cases hlow : 2 + (ser pre).length + j < 258
    · exact Or.inl hlow
    · have hi : 2 + (ser pre).length + j - 258 < (ser (pre ++ post)).length := by
        rw [ser_append, List.length_append, ser_empty h.empty, List.length_replicate]
        omega
      have hcell := h.cell hlen hpre (2 + (ser pre).length + j - 258)
      rw [hcells _ hi, if_pos (by omega)] at hcell
      rw [List.getElem?_eq_getElem hi, hcell]
      exact Or.inr rfl
  · intro hzero i hi
    rw [h.cell hlen hpre i, List.getElem?_eq_getElem hi, Option.getD_some]
    by_cases hover : 2 + (ser pre).length ≤ i + 258 ∧ i + 258 < 2 + (ser pre).length + post.length
    · rcases hzero (i + 258 - (2 + (ser pre).length)) (by omega) with hlow | hget
      · omega
      · rw [show 2 + (ser pre).length + (i + 258 - (2 + (ser pre).length)) - 258 = i by omega,
          List.getElem?_eq_getElem hi] at hget
        rw [if_pos hover, Option.some.inj hget]
    · rw [if_neg hover]

theorem Behind.size (h : Behind pre post) : 2 + (ser (pre ++ post)).length ≤ 511 := by
  rw [ser_append, List.length_append, ser_empty h.empty, List.length_replicate]
  exact Nat.add_assoc 2 _ _ ▸ h.fit

/-- the last byte of the array is never written -/
theorem Behind.last (h : Behind pre post) (hlen : ∀ l ∈ pre ++ post, l.length ≤ 255)
    (hpre : StartsBelow sendDataStartPos pre) : (parcel (pre ++ post)).array 511 = 0 := by
  have hnone : (ser (pre ++ post))[509]? = none := List.getElem?_eq_none (by have := h.size; omega)
  have hcell := h.cell hlen hpre 509
  rw [hnone, Option.getD_none, ite_self] at hcell
  exact hcell

end Lap

theorem seen_eq {lines : List (List UInt8)} (h : lines.length ≤ 255) :
    seen (parcel lines) = readItems (parcel lines).array lines.length sendDataStartPos := by
  rw [seen, parcel_count, Nat.mod_eq_of_lt (by omega)]

/-- what fits is seen -/
theorem Fits.seen {r : Reader} {lines : List (List UInt8)} (hlines : ∀ l ∈ lines, IsLine l) (h : Fits r lines) :
    seen (parcel lines) = some lines := by
  obtain ⟨pre, post, rfl, hpre, hge⟩ := exists_lap sendDataStartPos lines
  have hlen : ∀ l ∈ pre ++ post, l.length ≤ 255 := fun l hl => (hlines l hl).2
  have hlenPre : ∀ l ∈ pre, l.length ≤ 255 := fun l hl => hlen l (List.mem_append_left post hl)
  obtain ⟨-, hstarts⟩ := startsOk_append.1 h.starts
  have hbehind : Behind pre post ∧ ∀ j < post.length, 2 + (ser pre).length + j < 258 ∨
      (ser (pre ++ post))[2 + (ser pre).length + j - 258]? = some 0 := by
    by_cases hne : post = []
    · subst hne
      have hfit := length_of_below hlenPre (by decide) hpre
      exact ⟨⟨hge, by simp, hfit⟩, fun j hj => absurd hj (Nat.not_lt_zero j)⟩
    · have hge' := hge hne
      have hpos := List.length_pos_iff.2 hne
      obtain ⟨hempty, hj⟩ := (startsOk_behind hge').1 hstarts
      have hlast := (hj (post.length - 1) (by omega)).1
      unfold sendDataStartPos at hlast
      exact ⟨⟨hge, hempty, by omega⟩, fun j hlt => (hj j hlt).2⟩
  obtain ⟨hb, hzero⟩ := hbehind
  rw [seen_eq h.count]
  exact readItems_ser (hb.last hlen hpre) hlines hb.size ((hb.cells_iff hlen hpre).2 hzero)

/-- the lines from 256 on that are seen are empty -/
theorem behind_of_seen {pre post : List (List UInt8)} (hlen : ∀ l ∈ pre ++ post, l.length ≤ 255)
    (hpre : StartsBelow sendDataStartPos pre) (hge : post ≠ [] → 256 ≤ 2 + (ser pre).length)
    (hseen : readItems (parcel (pre ++ post)).array (pre ++ post).length sendDataStartPos = some (pre ++ post)) :
    Behind pre post := by
  have hlenPre : ∀ l ∈ pre, l.length ≤ 255 := fun l hl => hlen l (List.mem_append_left post hl)
  rcases List.eq_nil_or_concat' post with rfl | ⟨init, last, rfl⟩
  · exact ⟨hge, by simp, length_of_below hlenPre (by decide) hpre⟩
  · have hge' := hge (by simp)
    have hlast : last.length ≤ 255 := hlen last (by simp)
    have hsz : (ser (init ++ [last])).length = (ser init).length + (last.length + 1) := by simp
    -- the reader is at the last line or behind it when it reads it
    have happ : pre ++ (init ++ [last]) = (pre ++ init) ++ [last] := (List.append_assoc ..).symm
    obtain ⟨q, hq, hread⟩ := readItems_append (a := pre ++ init) (b := [last]) (by rwa [← happ])
    obtain ⟨hin, hitem, -⟩ := readItems_cons hread
    rw [ser_append, List.length_append, sendDataStartPos] at hq
    unfold sendArrayMaxLen at hin
    have hmod : (2 + (ser pre).length) % 256 = 2 + (ser pre).length - 256 := by omega
    have hbelow : StartsBelow ((sendDataStartPos + (ser pre).length) % 256) (init ++ [last]) :=
      startsBelow_concat (by rw [sendDataStartPos, hmod]; omega)
    have hzero : ∀ p, 2 + (ser pre).length ≤ p → 2 + (ser pre).length - 256 + (ser (init ++ [last])).length ≤ p →
        (parcel (pre ++ (init ++ [last]))).array p = 0 := by
      intro p h1 h2
      rw [parcel_array hlen hpre hbelow (by omega), hmod, store_outside _ _ (Or.inr h2), store_outside _ _ (Or.inr h1)]
    have hnil : last = [] := by
      rw [hzero q (by omega) (by omega)] at hitem
      rw [hitem]
      rfl
    have hlast0 : last.length = 0 := by rw [hnil, List.length_nil]
    obtain ⟨q', hq', hread'⟩ := readItems_append (a := pre) (b := init ++ [last]) hseen
    rw [sendDataStartPos] at hq'
    have hempty := readItems_zero (fun p hp => hzero p (by omega) (by omega)) hread'
    have hinit := ser_empty fun l hl => hempty l (List.mem_append_left [last] hl)
    have hinitLen : (ser init).length = init.length := by rw [hinit, List.length_replicate]
    refine ⟨hge, hempty, ?_⟩
    rw [List.length_append, List.length_singleton]
    omega

/-- what is seen starts well -/
theorem startsOk_of_seen {lines : List (List UInt8)} (hlines : ∀ l ∈ lines, IsLine l)
    (hseen : readItems (parcel lines).array lines.length sendDataStartPos = some lines) :
    StartsOk (ser lines) sendDataStartPos lines := by
  obtain ⟨pre, post, rfl, hpre, hge⟩ := exists_lap sendDataStartPos lines
  have hlen : ∀ l ∈ pre ++ post, l.length ≤ 255 := fun l hl => (hlines l hl).2
  have hb := behind_of_seen hlen hpre hge hseen
  have hcells : cells (parcel (pre ++ post)).array 2 (ser (pre ++ post)).length = ser (pre ++ post) := by
    refine cells_of_readItems hlines (fun i hi => ?_) hseen
    have hcell := hb.cell hlen hpre i
    rw [List.getElem?_eq_getElem hi, Option.getD_some] at hcell
    rw [hcell]
    split_ifs
    · exact Or.inr rfl
    · exact Or.inl rfl
  have hzero := (hb.cells_iff hlen hpre).1 hcells
  refine startsOk_append.2 ⟨startsOk_of_below hpre, ?_⟩
  by_cases hne : post = []
  · rw [hne]
    trivial
  · have hfit := hb.fit
    refine (startsOk_behind (hge hne)).2 ⟨hb.empty, fun j hj => ⟨?_, hzero j hj⟩⟩
    rw [sendDataStartPos]
    omega

/-- **The parcel.** The readers see the lines, and write inside their item, in exactly these cases -/
theorem parcel_iff (r : Reader) (lines : List (List UInt8)) (hlines : ∀ l ∈ lines, IsLine l) :
    RoundTrip r lines ↔ Fits r lines := by
  constructor
  · intro h
    have hcount : lines.length % 256 = lines.length := by
      have hlength := readItems_length h.seen
      rw [parcel_count] at hlength
      exact hlength.symm
    have hle : lines.length ≤ 255 := by omega
    have hseen := h.seen
    rw [seen_eq hle] at hseen
    exact ⟨hle, h.itemInside lines h.seen, startsOk_of_seen hlines hseen⟩
  · intro h
    have hseen := h.seen hlines
    refine ⟨hseen, array_inside lines, fun items hitems l hl => ?_⟩
    rw [hseen] at hitems
    rw [← Option.some.inj hitems] at hl
    exact h.size l hl

/-- `AT+CGMR` of two lines -/
def twoLines : List (List UInt8) := [[80, 108, 97, 116], [87, 50, 49]]

theorem parcel_iff_twoLines : RoundTrip .cgmr twoLines ↔ Fits .cgmr twoLines :=
  parcel_iff .cgmr twoLines (by unfold IsLine; decide)

example : seen (parcel twoLines) = some twoLines := by decide +kernel

/-- a line of 128 bytes is too long for an item of `eng_ResponseCGMR` -/
theorem parcel_broken : ¬ ∀ (r : Reader) (lines : List (List UInt8)), (∀ l ∈ lines, IsLine l) → RoundTrip r lines := by
  intro h
  have hline : ∀ l ∈ [List.replicate 128 (65 : UInt8)], IsLine l := by
    intro l hl
    rw [List.mem_singleton.1 hl]
    exact ⟨by simp, by simp⟩
  have hround := h .cgmr _ hline
  have hinside := hround.itemInside _ hround.seen _ (List.mem_singleton_self _)
  rw [List.length_replicate] at hinside
  exact absurd hinside (by decide)

end SprdDevice.EngService
