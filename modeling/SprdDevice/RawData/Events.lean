/-
The event loop of rawdatad (`rawdata.c`: `main`, `read_productinfo`, `rawdata_nofeadback_block`): what an inotify event in
`/productinfo/` makes the daemon write to flash.

An event carries a name and its mask; with it come the files as they are when the daemon looks at them, which of them
open, how many bytes `fread` delivers, and what the device does. Files are compared with the name by `strstr`: the name
is looked for inside the path. All blocks go through `rawdata_buffer[0]`, which keeps what the last event left when a
file does not open. `fread` takes a file of any size; `rawdata_buffer` has room for two blocks, and when a file leaves it
nothing is known of the daemon any more (`overrun`).

`log` lists the writes: the block and the 3076 data bytes handed to `write_mmc_partition`.

Results: `feedBack_extends` (what one write does), `loop_eq` (a loop for an exact name is the turn of one block),
`events_isolated` (the runs in which every write is the content of exactly the file named, or 0xFF, are those whose events
have exact names and find the file whole) and `partial_name_writes`.
-/
import Mathlib.Tactic
import SprdDevice.Lib.Run
import SprdDevice.RawData.Durability

namespace SprdDevice.RawData

open SprdDevice.Memory SprdDevice.Run

/-! ## Model -/

def NO_FEADBACK : List String := ["/productinfo/productinfo.bin"]

/-- the names of the product-info files in the watched directory -/
def PRODUCT_NAME : List String := ["productinfo.bin", "factorymode.file", "alarm_flag", "poweron_timeinmillis"]

theorem productInfo_eq : PRODUCT_INFO = PRODUCT_NAME.map ("/productinfo/" ++ ·) := by decide

/-- `strstr(haystack, needle) != NULL` -/
def strstr (haystack needle : String) : Bool := decide (needle.toList <:+: haystack.toList)

/-- an event, and what the daemon finds when it handles it -/
structure Event where
  name : String
  modify : Bool
  delete : Bool
  move : Bool
  /-- the content of the file of each block, if it exists -/
  file : ℕ → Option (List UInt8)
  opens : ℕ → Bool
  /-- bytes that `fread` delivers, if the file has as many -/
  delivered : ℕ → ℕ
  io : Io
  csize : ℕ → ℕ
  stack : ℕ → Block

structure Write where
  block : ℕ
  data : List UInt8
deriving DecidableEq, Repr

structure Daemon where
  st : St
  log : List Write
  overrun : Bool

/-- `rawdata_nofeadback_block(name) != 0` -/
def rawdataNofeadbackBlock (name : String) : Bool := NO_FEADBACK.any fun path => strstr path name

/-- the buffer after the read; none when the file leaves it -/
def readProductinfo (e : Event) (block : ℕ) (pdata : Block) : Option Block :=
  if block ≥ PRODUCT_INFO.length then some pdata
  else
    match e.file block with
    | none => some pdata
    | some content =>
      if ¬ e.opens block then some pdata
      else
        let got := content.take (e.delivered block)
        if got.length > 2 * RAWDATA_BUFFER_SIZE then none
        else some (store (copy pdata (fun _ => 0xff) RAWDATA_BUFFER_SIZE) 0 got)

/-- `rawdata_buffer[0]` set -/
def Daemon.setBuffer (d : Daemon) (ptr : Block) : Daemon :=
  { d with st := { d.st with rawdataBuffer := Function.update d.st.rawdataBuffer .partition0 ptr } }

/-- the block written from `rawdata_buffer[0]`, unless the name is in `NO_FEADBACK` -/
def feedBack (e : Event) (d : Daemon) (i : ℕ) : Daemon :=
  if rawdataNofeadbackBlock e.name then d
  else
    let st := writePartition e.io (e.csize i) (e.stack i) d.st i
    { d with st := st, log := d.log ++ [⟨i, cells (st.rawdataBuffer .partition0) 0 RAWDATA_DATASIZE⟩] }

/-- the loop body of IN_MODIFY -/
def modifyBlock (e : Event) (d : Daemon) (i : ℕ) : Daemon :=
  if d.overrun then d
  else if strstr (PRODUCT_INFO.getD i "") e.name then
    match readProductinfo e i (d.st.rawdataBuffer .partition0) with
    | none => { d with overrun := true }
    | some ptr => feedBack e (d.setBuffer ptr) i
  else d

/-- the loop body of IN_DELETE and IN_MOVE -/
def eraseBlock (e : Event) (d : Daemon) (i : ℕ) : Daemon :=
  if d.overrun then d
  else if strstr (PRODUCT_INFO.getD i "") e.name then
    feedBack e (d.setBuffer (copy (d.st.rawdataBuffer .partition0) (fun _ => 0xff) RAWDATA_BUFFER_SIZE)) i
  else d

def handleEvent (d : Daemon) (e : Event) : Daemon :=
  let d := if e.modify then (List.range PRODUCT_INFO.length).foldl (modifyBlock e) d else d
  if e.delete || e.move then (List.range PRODUCT_INFO.length).foldl (eraseBlock e) d else d

/-! ## The property and its condition -/

/-- a file's content, cut or filled up with 0xFF to the data of a block -/
def padded (content : List UInt8) : List UInt8 :=
  (content ++ List.replicate RAWDATA_DATASIZE 0xff).take RAWDATA_DATASIZE

/-- a write that the event may cause: it is about exactly the file of the block, and the data is the file's content, or
0xFF after a deletion or a move -/
def Allowed (e : Event) (w : Write) : Prop :=
  PRODUCT_NAME[w.block]? = some e.name ∧
    ((e.modify = true ∧ ∃ content, e.file w.block = some content ∧ w.data = padded content) ∨
      ((e.delete = true ∨ e.move = true) ∧ w.data = List.replicate RAWDATA_DATASIZE 0xff))

/-- from d to d' the daemon made writes that the event allows, and no other block was touched -/
structure Extends (e : Event) (d d' : Daemon) : Prop where
  running : d'.overrun = false
  writes : ∃ ws, d'.log = d.log ++ ws ∧ (∀ w ∈ ws, Allowed e w) ∧
    ∀ i, (∀ w ∈ ws, w.block ≠ i) → d'.st.cell i = d.st.cell i

/-- the event is isolated from the blocks of other files -/
def Isolated (d : Daemon) (e : Event) : Prop := Extends e d (handleEvent d e)

/-- inotify reports a modification, or a deletion or move, not both at once -/
def Event.OneKind (e : Event) : Prop := e.modify = true → e.delete = false ∧ e.move = false

/-- the event is about the block: the path of its file holds the name -/
def Event.About (e : Event) (i : ℕ) : Prop :=
  i < PRODUCT_INFO.length ∧ strstr (PRODUCT_INFO.getD i "") e.name = true

/-- the file of the block is there, and is read as far as the block takes it; for one that does not open the buffer has
the bytes already -/
def Holds (e : Event) (i : ℕ) (pdata : Block) : Prop :=
  ∃ content, e.file i = some content ∧
    (if e.opens i then padded (content.take (e.delivered i)) else cells pdata 0 RAWDATA_DATASIZE) = padded content

/-- no file that is read for a modification leaves the buffer; and an event that is fed back has exactly the name of each
file it is about, and on a modification the buffer gets what that file has -/
structure EventOk (d : Daemon) (e : Event) : Prop where
  fits : e.modify = true → ∀ i, e.About i → ∀ content, e.file i = some content → e.opens i = true →
    (content.take (e.delivered i)).length ≤ 2 * RAWDATA_BUFFER_SIZE
  exact : e.modify = true ∨ e.delete = true ∨ e.move = true → rawdataNofeadbackBlock e.name = false →
    ∀ i, e.About i → PRODUCT_NAME[i]? = some e.name
  reads : e.modify = true → rawdataNofeadbackBlock e.name = false →
    ∀ i, e.About i → Holds e i (d.st.rawdataBuffer .partition0)

/-! ## Writes -/

theorem Extends.refl {e : Event} {d : Daemon} (h : d.overrun = false) : Extends e d d :=
  ⟨h, [], by simp, by simp, fun _ _ => rfl⟩

theorem Extends.trans {e : Event} {d d' d'' : Daemon} (h1 : Extends e d d') (h2 : Extends e d' d'') :
    Extends e d d'' := by
  obtain ⟨ws1, hlog1, hall1, hframe1⟩ := h1.writes
  obtain ⟨ws2, hlog2, hall2, hframe2⟩ := h2.writes
  refine ⟨h2.running, ws1 ++ ws2, by rw [hlog2, hlog1, List.append_assoc], ?_, ?_⟩
  · intro w hw
    rcases List.mem_append.1 hw with hw | hw
    · exact hall1 w hw
    · exact hall2 w hw
  · intro i hi
    rw [hframe2 i fun w hw => hi w (List.mem_append_right _ hw), hframe1 i fun w hw => hi w (List.mem_append_left _ hw)]

/-- Setting the buffer touches no block. -/
theorem setBuffer_extends {e : Event} {d d' : Daemon} (ptr : Block) (h : Extends e (d.setBuffer ptr) d') :
    Extends e d d' := ⟨h.running, h.writes⟩

theorem writePartition_frame (io : Io) (csize : ℕ) (buf : Block) (s : St) {i j : ℕ} (h : j ≠ i) :
    (writePartition io csize buf s i).cell j = s.cell j := by
  unfold writePartition St.setCell
  dsimp only
  exact Function.update_of_ne h _ _

/-- `write_partition` sets the counter and the checksum behind the data -/
theorem writePartition_data (io : Io) (csize : ℕ) (buf : Block) (s : St) (i : ℕ) :
    Same RAWDATA_DATASIZE ((writePartition io csize buf s i).rawdataBuffer .partition0)
      (s.rawdataBuffer .partition0) := by
  unfold writePartition St.setCell
  dsimp only
  rw [Function.update_self]
  exact stamp_data _ _

/-- One write: it is allowed if the data in the buffer is. -/
theorem feedBack_extends {e : Event} {d : Daemon} (hrun : d.overrun = false) (i : ℕ)
    (h : rawdataNofeadbackBlock e.name = false →
      Allowed e ⟨i, cells (d.st.rawdataBuffer .partition0) 0 RAWDATA_DATASIZE⟩) : Extends e d (feedBack e d i) := by
  unfold feedBack
  by_cases hno : rawdataNofeadbackBlock e.name = true
  · rw [if_pos hno]
    exact Extends.refl hrun
  · rw [if_neg hno]
    have hdata := (cells_eq_iff _ _ _).2 (writePartition_data e.io (e.csize i) (e.stack i) d.st i)
    refine ⟨hrun, [_], rfl, ?_, ?_⟩
    · intro w hw
      rw [List.mem_singleton] at hw
      rw [hw, hdata]
      exact h (Bool.not_eq_true _ ▸ hno)
    · intro j hj
      exact writePartition_frame _ _ _ _ (hj _ List.mem_cons_self).symm

/-- A loop makes only allowed writes if each of its turns does. -/
theorem foldl_extends {e : Event} {body : Daemon → ℕ → Daemon} {l : List ℕ}
    (h : ∀ i ∈ l, ∀ d : Daemon, d.overrun = false → Extends e d (body d i)) {d : Daemon} (hrun : d.overrun = false) :
    Extends e d (l.foldl body d) := by
  induction l generalizing d with
  | nil => exact Extends.refl hrun
  | cons i l ih =>
    have hstep := h i List.mem_cons_self d hrun
    exact hstep.trans (ih (fun j hj => h j (List.mem_cons_of_mem _ hj)) hstep.running)

/-! ## Reading -/

/-- a file read over a buffer of 0xFF is its content, cut or filled up -/
theorem cells_read (pdata : Block) (content : List UInt8) :
    cells (store (copy pdata (fun _ => 0xff) RAWDATA_BUFFER_SIZE) 0 content) 0 RAWDATA_DATASIZE = padded content := by
  unfold padded
  refine cells_eq_list (by simp) ?_
  intro i hi
  have hdata : i < RAWDATA_DATASIZE := lt_of_lt_of_le hi (List.length_take_le _ _)
  have hbuf : i < RAWDATA_BUFFER_SIZE := lt_of_lt_of_le hdata (by decide)
  rw [List.getElem_take]
  by_cases hc : i < content.length
  · rw [store_zero_get _ _ hc, List.getElem_append_left hc]
  · rw [store_outside _ _ (Or.inr (by omega)), List.getElem_append_right (by omega), List.getElem_replicate]
    exact if_pos hbuf

theorem cells_erased (pdata : Block) :
    cells (copy pdata (fun _ => 0xff) RAWDATA_BUFFER_SIZE) 0 RAWDATA_DATASIZE = List.replicate RAWDATA_DATASIZE 0xff := by
  refine cells_eq_list (by simp) ?_
  intro i hi
  rw [List.length_replicate] at hi
  rw [List.getElem_replicate]
  exact if_pos (lt_of_lt_of_le hi (by decide))

/-- **Read.** Either the file leaves the buffer, or the buffer then has the bytes read and, of a file that does not open,
those it had. -/
theorem readProductinfo_cases (e : Event) {i : ℕ} (hi : i < PRODUCT_INFO.length) (pdata : Block) :
    (readProductinfo e i pdata = none ∧ ∃ content, e.file i = some content ∧ e.opens i = true ∧
      2 * RAWDATA_BUFFER_SIZE < (content.take (e.delivered i)).length) ∨
    ∃ ptr, readProductinfo e i pdata = some ptr ∧
      ∀ content, e.file i = some content →
        (e.opens i = true → (content.take (e.delivered i)).length ≤ 2 * RAWDATA_BUFFER_SIZE) ∧
        cells ptr 0 RAWDATA_DATASIZE =
          if e.opens i then padded (content.take (e.delivered i)) else cells pdata 0 RAWDATA_DATASIZE := by
  unfold readProductinfo
  rw [if_neg (not_le.mpr hi)]
  cases hfile : e.file i with
  | none =>
    right
    refine ⟨pdata, rfl, ?_⟩
    intro content h
    cases h
  | some content =>
    by_cases hopen : e.opens i = true
    · simp only [hopen, not_true_eq_false, if_false, if_true]
      by_cases hbig : (content.take (e.delivered i)).length > 2 * RAWDATA_BUFFER_SIZE
      · left
        rw [if_pos hbig]
        exact ⟨rfl, content, rfl, trivial, hbig⟩
      · right
        rw [if_neg hbig]
        refine ⟨_, rfl, ?_⟩
        rintro _ ⟨rfl⟩
        exact ⟨fun _ => not_lt.mp hbig, cells_read _ _⟩
    · right
      simp only [hopen]
      refine ⟨pdata, rfl, ?_⟩
      intro _ _
      exact ⟨fun h => absurd h Bool.false_ne_true, rfl⟩

theorem setBuffer_cells (d : Daemon) (ptr : Block) :
    (d.setBuffer ptr).st.rawdataBuffer .partition0 = ptr := by
  unfold Daemon.setBuffer
  dsimp only
  rw [Function.update_self]

/-- **Modification of one block.** Either its file leaves the buffer, or the bytes the buffer gets are fed back. -/
theorem modifyBlock_cases {e : Event} {d : Daemon} (hrun : d.overrun = false) {i : ℕ} (h : e.About i) :
    ((modifyBlock e d i).overrun = true ∧ ∃ content, e.file i = some content ∧ e.opens i = true ∧
      2 * RAWDATA_BUFFER_SIZE < (content.take (e.delivered i)).length) ∨
    ∃ ptr, modifyBlock e d i = feedBack e (d.setBuffer ptr) i ∧
      ∀ content, e.file i = some content →
        (e.opens i = true → (content.take (e.delivered i)).length ≤ 2 * RAWDATA_BUFFER_SIZE) ∧
        cells ptr 0 RAWDATA_DATASIZE = if e.opens i then padded (content.take (e.delivered i))
          else cells (d.st.rawdataBuffer .partition0) 0 RAWDATA_DATASIZE := by
  have hbody : modifyBlock e d i = match readProductinfo e i (d.st.rawdataBuffer .partition0) with
      | none => { d with overrun := true }
      | some ptr => feedBack e (d.setBuffer ptr) i := by
    unfold modifyBlock
    rw [hrun, if_neg Bool.false_ne_true, if_pos h.2]
  rw [hbody]
  rcases readProductinfo_cases e h.1 (d.st.rawdataBuffer .partition0) with ⟨hread, hbig⟩ | ⟨ptr, hread, hdata⟩
  · rw [hread]
    exact Or.inl ⟨rfl, hbig⟩
  · rw [hread]
    exact Or.inr ⟨ptr, rfl, hdata⟩

theorem eraseBlock_eq {e : Event} {d : Daemon} (hrun : d.overrun = false) {i : ℕ} (h : e.About i) :
    eraseBlock e d i =
      feedBack e (d.setBuffer (copy (d.st.rawdataBuffer .partition0) (fun _ => 0xff) RAWDATA_BUFFER_SIZE)) i := by
  unfold eraseBlock
  rw [hrun, if_neg Bool.false_ne_true, if_pos h.2]

/-! ## Turns of the two loops -/

/-- the log grew, and what is lost stays lost -/
def Grows (d d' : Daemon) : Prop := d.log <+: d'.log ∧ (d'.overrun = false → d.overrun = false)

theorem Grows.refl (d : Daemon) : Grows d d := ⟨List.prefix_refl _, id⟩

theorem Grows.trans {a b c : Daemon} (h1 : Grows a b) (h2 : Grows b c) : Grows a c :=
  ⟨h1.1.trans h2.1, fun h => h1.2 (h2.2 h)⟩

theorem feedBack_grows (e : Event) (d : Daemon) (ptr : Block) (i : ℕ) : Grows d (feedBack e (d.setBuffer ptr) i) := by
  unfold feedBack
  split
  · exact Grows.refl d
  · exact ⟨List.prefix_append _ _, id⟩

/-- what the bodies of the two loops share: nothing is done for a block that the event is not about -/
structure Turn (e : Event) (body : Daemon → ℕ → Daemon) : Prop where
  skip : ∀ d i, strstr (PRODUCT_INFO.getD i "") e.name = false → body d i = d
  grows : ∀ d i, Grows d (body d i)
  writes : ∀ d i, e.About i → (body d i).overrun = false → ∃ ptr, body d i = feedBack e (d.setBuffer ptr) i

theorem modifyBlock_turn (e : Event) : Turn e (modifyBlock e) where
  skip d i h := by
    unfold modifyBlock
    rw [h, if_neg Bool.false_ne_true, ite_self]
  grows d i := by
    unfold modifyBlock
    split
    · exact Grows.refl d
    split
    · split
      · exact ⟨List.prefix_refl _, fun h => nomatch h⟩
      · exact feedBack_grows e d _ i
    · exact Grows.refl d
  writes d i h hafter := by
    cases hrun : d.overrun with
    | true =>
      unfold modifyBlock at hafter
      rw [hrun, if_pos rfl, hrun] at hafter
      cases hafter
    | false =>
      rcases modifyBlock_cases hrun h with ⟨hover, -⟩ | ⟨ptr, heq, -⟩
      · rw [hover] at hafter
        cases hafter
      · exact ⟨ptr, heq⟩

theorem eraseBlock_turn (e : Event) : Turn e (eraseBlock e) where
  skip d i h := by
    unfold eraseBlock
    rw [h, if_neg Bool.false_ne_true, ite_self]
  grows d i := by
    unfold eraseBlock
    split
    · exact Grows.refl d
    split
    · exact feedBack_grows e d _ i
    · exact Grows.refl d
  writes d i h hafter := by
    cases hrun : d.overrun with
    | true =>
      unfold eraseBlock at hafter
      rw [hrun, if_pos rfl, hrun] at hafter
      cases hafter
    | false => exact ⟨_, eraseBlock_eq hrun h⟩

/-- the loop over all blocks -/
def loop (body : Daemon → ℕ → Daemon) (d : Daemon) : Daemon := (List.range PRODUCT_INFO.length).foldl body d

/-- Each turn of a loop lies between its two ends. -/
theorem loop_turn {e : Event} {body : Daemon → ℕ → Daemon} (ht : Turn e body) (d : Daemon) {i : ℕ}
    (hi : i < PRODUCT_INFO.length) : ∃ d', Grows d d' ∧ Grows (body d' i) (loop body d) := by
  have hfold := foldl_rel (R := Grows) Grows.refl Grows.trans ht.grows
  obtain ⟨a, b, hab⟩ := List.append_of_mem (List.mem_range.2 hi)
  refine ⟨a.foldl body d, hfold d a, ?_⟩
  unfold loop
  rw [hab, List.foldl_append, List.foldl_cons]
  exact hfold _ b

/-- names that are exact tell the blocks apart -/
theorem about_unique {e : Event} (hexact : ∀ i, e.About i → PRODUCT_NAME[i]? = some e.name) {i j : ℕ} (hi : e.About i)
    (hj : e.About j) : i = j := by
  have hlt : i < PRODUCT_NAME.length := hi.1
  have hnames : PRODUCT_NAME.Nodup := by decide
  exact (List.getElem?_inj hlt hnames).1 ((hexact i hi).trans (hexact j hj).symm)

/-- A loop for an exact name is the turn of the one block. -/
theorem loop_eq {e : Event} {body : Daemon → ℕ → Daemon} (ht : Turn e body)
    (hexact : ∀ i, e.About i → PRODUCT_NAME[i]? = some e.name) {i : ℕ} (hi : e.About i) (d : Daemon) :
    loop body d = body d i := by
  refine foldl_only List.nodup_range (List.mem_range.2 hi.1) ?_ d
  intro j hj hne s
  apply ht.skip
  rw [Bool.eq_false_iff]
  intro hname
  exact hne (about_unique hexact ⟨List.mem_range.1 hj, hname⟩ hi)

theorem handleEvent_eq (d : Daemon) (e : Event) :
    handleEvent d e = if e.delete || e.move then loop (eraseBlock e) (if e.modify then loop (modifyBlock e) d else d)
      else if e.modify then loop (modifyBlock e) d else d := rfl

/-! ## Events that meet the condition -/

/-- A loop makes only allowed writes if each turn for a block of the event does, and where the event is fed back if the
one such turn does, from the start of the loop. -/
theorem loop_extends {e : Event} {body : Daemon → ℕ → Daemon} (ht : Turn e body) {d : Daemon} (hrun : d.overrun = false)
    (hexact : rawdataNofeadbackBlock e.name = false → ∀ i, e.About i → PRODUCT_NAME[i]? = some e.name)
    (hquiet : rawdataNofeadbackBlock e.name = true → ∀ i, e.About i → ∀ d' : Daemon, d'.overrun = false →
      Extends e d' (body d' i))
    (hone : rawdataNofeadbackBlock e.name = false → ∀ i, e.About i → Extends e d (body d i)) :
    Extends e d (loop body d) := by
  cases hfed : rawdataNofeadbackBlock e.name with
  | true =>
    have hturn : ∀ i ∈ List.range PRODUCT_INFO.length, ∀ d', d'.overrun = false → Extends e d' (body d' i) := by
      intro i hi d' hd'
      cases hname : strstr (PRODUCT_INFO.getD i "") e.name with
      | false =>
        rw [ht.skip d' i hname]
        exact Extends.refl hd'
      | true => exact hquiet hfed i ⟨List.mem_range.1 hi, hname⟩ d' hd'
    exact foldl_extends hturn hrun
  | false =>
    by_cases hsome : ∃ i, e.About i
    · obtain ⟨i, hi⟩ := hsome
      rw [loop_eq ht (hexact hfed) hi]
      exact hone hfed i hi
    · have hidle : loop body d = d := by
        refine foldl_idle ?_ d
        intro j hj s
        apply ht.skip
        rw [Bool.eq_false_iff]
        exact fun hname => hsome ⟨j, List.mem_range.1 hj, hname⟩
      rw [hidle]
      exact Extends.refl hrun

/-- One write: it is allowed if the bytes set are. -/
theorem feedBack_set {e : Event} {d : Daemon} (hrun : d.overrun = false) (ptr : Block) (i : ℕ)
    (h : rawdataNofeadbackBlock e.name = false → Allowed e ⟨i, cells ptr 0 RAWDATA_DATASIZE⟩) :
    Extends e d (feedBack e (d.setBuffer ptr) i) := by
  apply setBuffer_extends ptr
  apply feedBack_extends (d := d.setBuffer ptr) hrun i
  rw [setBuffer_cells]
  exact h

theorem modify_extends {d : Daemon} {e : Event} (hok : EventOk d e) (hm : e.modify = true) (hrun : d.overrun = false) :
    Extends e d (loop (modifyBlock e) d) := by
  have hexact := hok.exact (Or.inl hm)
  -- a turn is allowed if it is not fed back or the buffer gets what the file has
  have hturn : ∀ i, e.About i → ∀ d' : Daemon, d'.overrun = false →
      (rawdataNofeadbackBlock e.name = false → Holds e i (d'.st.rawdataBuffer .partition0)) →
      Extends e d' (modifyBlock e d' i) := by
    intro i hi d' hd' hholds
    rcases modifyBlock_cases hd' hi with ⟨-, content, hfile, hopen, hbig⟩ | ⟨ptr, heq, hdata⟩
    · exact absurd (hok.fits hm i hi content hfile hopen) (not_le.mpr hbig)
    · rw [heq]
      apply feedBack_set hd'
      intro hfed
      obtain ⟨content, hfile, hbytes⟩ := hholds hfed
      have hcells := (hdata content hfile).2
      rw [hbytes] at hcells
      refine ⟨hexact hfed i hi, Or.inl ⟨hm, content, hfile, ?_⟩⟩
      dsimp only
      exact hcells
  apply loop_extends (modifyBlock_turn e) hrun hexact
  · intro hquiet i hi d' hd'
    apply hturn i hi d' hd'
    intro hfed
    rw [hquiet] at hfed
    cases hfed
  · intro hfed i hi
    exact hturn i hi d hrun fun _ => hok.reads hm hfed i hi

theorem erase_extends {d : Daemon} {e : Event} (hd : e.delete = true ∨ e.move = true)
    (hexact : rawdataNofeadbackBlock e.name = false → ∀ i, e.About i → PRODUCT_NAME[i]? = some e.name)
    (hrun : d.overrun = false) : Extends e d (loop (eraseBlock e) d) := by
  have hturn : ∀ i, e.About i → ∀ d' : Daemon, d'.overrun = false → Extends e d' (eraseBlock e d' i) := by
    intro i hi d' hd'
    rw [eraseBlock_eq hd' hi]
    apply feedBack_set hd'
    rw [cells_erased]
    exact fun hfed => ⟨hexact hfed i hi, Or.inr ⟨hd, rfl⟩⟩
  apply loop_extends (eraseBlock_turn e) hrun hexact
  · exact fun _ => hturn
  · exact fun _ i hi => hturn i hi d hrun

theorem handleEvent_isolated {d : Daemon} {e : Event} (hok : EventOk d e) (hrun : d.overrun = false) : Isolated d e := by
  have hmodify : Extends e d (if e.modify then loop (modifyBlock e) d else d) := by
    split_ifs with hm
    · exact modify_extends hok hm hrun
    · exact Extends.refl hrun
  unfold Isolated
  rw [handleEvent_eq]
  by_cases hd : (e.delete || e.move) = true
  · rw [if_pos hd]
    rw [Bool.or_eq_true] at hd
    exact hmodify.trans (erase_extends hd (hok.exact (Or.inr hd)) hmodify.running)
  · rw [if_neg hd]
    exact hmodify

/-! ## Events that are isolated -/

/-- A write that lies between the ends of an isolated stretch is allowed. -/
theorem Extends.allowed {e : Event} {d d1 d2 d' : Daemon} (h : Extends e d d') (h1 : Grows d d1) (h2 : Grows d2 d')
    {w : Write} (hw : d2.log = d1.log ++ [w]) : Allowed e w := by
  obtain ⟨ws, hlog, hall, -⟩ := h.writes
  obtain ⟨us, hus⟩ := h1.1
  have hpre := h2.1
  rw [hw, hlog, ← hus, List.append_assoc, List.prefix_append_right_inj] at hpre
  exact hall w (hpre.subset (by simp))

theorem feedBack_log {e : Event} (hfed : rawdataNofeadbackBlock e.name = false) (d : Daemon) (ptr : Block) (i : ℕ) :
    (feedBack e (d.setBuffer ptr) i).log = d.log ++ [⟨i, cells ptr 0 RAWDATA_DATASIZE⟩] := by
  have hdata := (cells_eq_iff _ _ _).2 (writePartition_data e.io (e.csize i) (e.stack i) (d.setBuffer ptr).st i)
  rw [setBuffer_cells] at hdata
  unfold feedBack
  rw [if_neg (Bool.not_eq_true _ ▸ hfed), ← hdata]
  rfl

/-- an isolated loop that feeds back has exactly the name of each of its blocks -/
theorem loop_exact {e : Event} {body : Daemon → ℕ → Daemon} (ht : Turn e body) {d : Daemon}
    (h : Extends e d (loop body d)) (hfed : rawdataNofeadbackBlock e.name = false) {i : ℕ} (hi : e.About i) :
    PRODUCT_NAME[i]? = some e.name := by
  obtain ⟨d', hbefore, hafter⟩ := loop_turn ht d hi.1
  obtain ⟨ptr, heq⟩ := ht.writes d' i hi (hafter.2 h.running)
  rw [heq] at hafter
  exact (h.allowed hbefore hafter (feedBack_log hfed d' ptr i)).1

theorem eventOk_of_isolated {d : Daemon} {e : Event} (hkind : e.OneKind) (h : Isolated d e) : EventOk d e := by
  unfold Isolated at h
  rw [handleEvent_eq] at h
  by_cases hm : e.modify = true
  · obtain ⟨hdelete, hmove⟩ := hkind hm
    rw [hm, hdelete, hmove] at h
    change Extends e d (loop (modifyBlock e) d) at h
    have ht := modifyBlock_turn e
    have hexact := fun hfed i (hi : e.About i) => loop_exact ht h hfed hi
    refine ⟨?_, fun _ => hexact, ?_⟩
    · intro _ i hi content hfile hopen
      obtain ⟨d', -, hafter⟩ := loop_turn ht d hi.1
      have hrun := hafter.2 h.running
      rcases modifyBlock_cases ((ht.grows d' i).2 hrun) hi with ⟨hover, -⟩ | ⟨ptr, -, hdata⟩
      · rw [hover] at hrun
        cases hrun
      · exact (hdata content hfile).1 hopen
    · intro _ hfed i hi
      have hone := loop_eq ht (hexact hfed) hi d
      rw [hone] at h
      rcases modifyBlock_cases ((ht.grows d i).2 h.running) hi with ⟨hover, -⟩ | ⟨ptr, heq, hdata⟩
      · have hrun := h.running
        rw [hover] at hrun
        cases hrun
      · rw [heq] at h
        have hallowed := h.allowed (Grows.refl d) (Grows.refl _) (feedBack_log hfed d ptr i)
        rcases hallowed.2 with ⟨-, content, hfile, hbytes⟩ | ⟨hd | hd, -⟩
        · dsimp only at hbytes
          rw [(hdata content hfile).2] at hbytes
          exact ⟨content, hfile, hbytes⟩
        · rw [hdelete] at hd
          cases hd
        · rw [hmove] at hd
          cases hd
  · refine ⟨fun h => absurd h hm, ?_, fun h => absurd h hm⟩
    intro hmask hfed i hi
    have hd : (e.delete || e.move) = true := by
      rw [Bool.or_eq_true]
      exact hmask.resolve_left hm
    rw [if_pos hd, if_neg hm] at h
    exact loop_exact (eraseBlock_turn e) h hfed hi

/-! ## Runs -/

/-- **Event isolation.** In every run whose events meet the condition every write is the content of exactly the file
named, or 0xFF after its deletion, and touches its block alone. Conversely, where inotify reports one kind of change at a
time, every event of an isolated run meets it. -/
theorem events_isolated (d : Daemon) (hrun : d.overrun = false) (evs : List Event) :
    (Along handleEvent EventOk d evs → Along handleEvent Isolated d evs) ∧
    ((∀ e ∈ evs, e.OneKind) → Along handleEvent Isolated d evs → Along handleEvent EventOk d evs) := by
  constructor
  · apply along_of_inv (fun d => d.overrun = false) ?_ hrun
    intro d e hd hok
    have hiso := handleEvent_isolated hok hd
    exact ⟨hiso, hiso.running⟩
  · intro hkind hiso
    refine along_of_inv (fun _ => True) ?_ trivial (along_and (along_forall hkind) hiso)
    intro d e _ h
    exact ⟨eventOk_of_isolated h.1 h.2, trivial⟩

/-- the daemon over erased flash, and an event that finds an alarm flag of one byte -/
def freshDaemon : Daemon := ⟨equalCopies, [], false⟩

def modified (name : String) : Event where
  name := name
  modify := true
  delete := false
  move := false
  file := fun i => if i = 2 then some [0x31] else none
  opens := fun _ => true
  delivered := fun _ => 1
  io := readingIo RAWDATA_BUFFER_SIZE
  csize := fun _ => RAWDATA_COUNTER_SIZE
  stack := fun _ _ => 0

/-- a change of `alarm_flag`, an open of a file `alarm`, and the deletion of `alarm_flag` -/
def alarmRun : List Event :=
  [modified "alarm_flag", { modified "alarm" with modify := false },
    { modified "alarm_flag" with modify := false, delete := true }]

theorem alarm_about {e : Event} (h : e.name = "alarm_flag") {i : ℕ} (hi : e.About i) : i = 2 := by
  obtain ⟨hlt, hname⟩ := hi
  have hlt4 : i < 4 := hlt
  rw [h] at hname
  interval_cases i <;> first | rfl | exact absurd hname (by decide +kernel)

theorem events_isolated_alarm : Along handleEvent Isolated freshDaemon alarmRun := by
  apply (events_isolated freshDaemon rfl alarmRun).1
  have hexact : ∀ i, (modified "alarm_flag").About i → PRODUCT_NAME[i]? = some "alarm_flag" := by
    intro i hi
    rw [alarm_about rfl hi]
    rfl
  have hmodified : EventOk freshDaemon (modified "alarm_flag") := by
    refine ⟨?_, fun _ _ => hexact, ?_⟩
    · intro _ i hi content hfile _
      rw [alarm_about rfl hi] at hfile
      rw [← Option.some.inj hfile]
      rw [alarm_about rfl hi]
      decide
    · intro _ _ i hi
      rw [alarm_about rfl hi]
      exact ⟨[0x31], rfl, rfl⟩
  have hopened : ∀ d, EventOk d { modified "alarm" with modify := false } := by
    intro d
    refine ⟨(fun h => nomatch h), ?_, (fun h => nomatch h)⟩
    rintro (h | h | h) <;> cases h
  have hdeleted : ∀ d, EventOk d { modified "alarm_flag" with modify := false, delete := true } := by
    intro d
    exact ⟨(fun h => nomatch h), fun _ _ => hexact, (fun h => nomatch h)⟩
  exact ⟨hmodified, hopened _, hdeleted _, trivial⟩

/-- A file `alarm` in the watched directory is none of the product-info files, and a change of it writes the block of
`alarm_flag`. -/
theorem partial_name_writes :
    freshDaemon.overrun = false ∧ "alarm" ∉ PRODUCT_NAME ∧ ¬ Along handleEvent Isolated freshDaemon [modified "alarm"] := by
  refine ⟨rfl, by decide, ?_⟩
  rintro ⟨hiso, -⟩
  obtain ⟨ws, hlog, hall, -⟩ := hiso.writes
  have hblocks : (handleEvent freshDaemon (modified "alarm")).log.map Write.block = [2] := by decide +kernel
  have hws : ws.map Write.block = [2] := by
    rw [← hblocks, hlog]
    rfl
  obtain ⟨w, hw, hblock⟩ := List.mem_map.1 (hws ▸ List.mem_cons_self : 2 ∈ ws.map Write.block)
  have hname := (hall w hw).1
  rw [hblock] at hname
  exact absurd hname (by decide)

end SprdDevice.RawData
