/-
The requests of a run, read off the bytes of its packets without the daemon's buffers.

`Reader` takes the bytes of the packets one after the other. A START opens a request and drops what was in progress. A
HEAD token of a known partition begins it, a BODY token with the next index begins a body, the bytes of its sectors are
its data, and a TAIL token with the next index ends it: it is then one of the requests of its partition (`acc`). Any
other token drops the request, and what follows in that packet is not looked at. A token that its packet does not
complete is lost.

`delivered` are the packets that the channel thread took in a run. `tracked` reads the requests off the effects of the
daemon: a BODY token opens a body, the data written for it is appended to it, the copy of `backupData` closes the
request and a restore drops it.

Results:
- `reads_step`, `reads_run`: the two agree at every moment of every run, with the reader ahead by what the channel
  thread has not read yet;
- `acc_eq`: the accepted requests are the first ones the packets hold, as many as there were copies to backup;
- `full_run`: a request has all the data of its BODYs.
-/
import Mathlib.Tactic
import SprdDevice.NvItem.Daemon
import SprdDevice.NvItem.Units

namespace SprdDevice.NvItem

open SprdDevice.Memory

/-! ## The requests of the packets -/

/-- a BODY of a request and the data received for it so far -/
structure Body where
  start : ℕ
  num : ℕ
  data : List UInt8
deriving DecidableEq, Repr

def Body.Full (b : Body) : Prop := b.data.length = b.num * RAMNV_SECT_SIZE

instance (b : Body) : Decidable b.Full := inferInstanceAs (Decidable (_ = _))

def appendData (buf : List UInt8) : List Body → List Body
  | [] => []
  | b :: rest => { b with data := b.data ++ buf } :: rest

/-- what the next token may be: none is looked for, a HEAD, a BODY or a TAIL -/
inductive Place where
  | idle
  | head
  | body
deriving DecidableEq, Repr

structure Reader where
  place : Place
  /-- the bytes of the token so far -/
  tok : List UInt8
  /-- partition and last index of the request -/
  id : ℕ
  frame : ℕ
  /-- the data that are still missing -/
  need : ℕ
  /-- the bodies of the request in progress, the latest first -/
  cur : List Body
  /-- partition, first sector and number of sectors of every BODY so far -/
  bodies : List (ℕ × ℕ × ℕ)
  /-- the requests of each partition that a TAIL ended, the oldest first -/
  acc : ℕ → List (List Body)

namespace Reader

def start : Reader := ⟨.idle, [], noId, 0, 0, [], [], fun _ => []⟩

def drop (r : Reader) : Reader := { r with place := .idle, need := 0, cur := [] }

section Bytes

variable (look : ℕ → ℕ)

def judge (r : Reader) (t : List UInt8) : Reader :=
  match r.place with
  | .idle => r
  | .head =>
    if word t 0 = SYNC_REQ_HEAD ∧ look (word t 2) ≠ noId then
      { r with place := .body, id := look (word t 2), frame := word t 1, tok := [] }
    else r.drop
  | .body =>
    if word t 1 ≠ (r.frame + 1) % 2 ^ 32 then r.drop
    else if word t 0 = SYNC_REQ_BODY then
      { r with
        frame := (r.frame + 1) % 2 ^ 32
        tok := []
        need := word t 4 * RAMNV_SECT_SIZE
        cur := ⟨word t 3, word t 4, []⟩ :: r.cur
        bodies := r.bodies ++ [(r.id, word t 3, word t 4)] }
    else if word t 0 = SYNC_REQ_TAIL then
      { r with place := .idle, cur := [], acc := Function.update r.acc r.id (r.acc r.id ++ [r.cur]) }
    else r.drop

def feed (r : Reader) (b : UInt8) : Reader :=
  if r.place = .idle then r
  else if r.need ≠ 0 then { r with need := r.need - 1, cur := appendData [b] r.cur }
  else if (r.tok ++ [b]).length < 20 then { r with tok := r.tok ++ [b] }
  else judge look { r with tok := [] } (r.tok ++ [b])

def feeds (r : Reader) (buf : List UInt8) : Reader := buf.foldl (feed look) r

/-- a START, with nothing in progress -/
def opened (r : Reader) : Reader := { r with place := .head, tok := [], need := 0, cur := [] }

def packet (r : Reader) : PacketState × List UInt8 → Reader
  | (.start, buf) => feeds look r.opened buf
  | (.cont, buf) => feeds look { r with tok := [] } buf
  | (.skip, _) => r
  | (.fail, _) => r.drop

end Bytes

end Reader

/-- the packet that a step delivers -/
def deliver (d : Daemon) : Op → List (PacketState × List UInt8)
  | .packet p buf => if d.chan = .recv then [(p, buf)] else []
  | .chan _ | .saver _ | .wake => []

/-- the packets that the channel thread takes in a run -/
def delivered (cali : Bool) (d : Daemon) : List Op → List (PacketState × List UInt8)
  | [] => []
  | o :: ops => deliver d o ++ delivered cali (step cali d o) ops

/-- the requests of the packets of a run, for the partitions of the loaded state -/
def reading (c0 : RamNvCtl) (cali : Bool) (ops : List Op) : Reader :=
  (delivered cali (boot c0) ops).foldl (Reader.packet (getCtlId c0)) Reader.start

/-- every BODY lies inside its partition -/
def Reader.InRange (c0 : RamNvCtl) (r : Reader) : Prop :=
  ∀ x ∈ r.bodies, x.2.1 + x.2.2 ≤ (c0.part x.1).sctNum

instance (c0 : RamNvCtl) (r : Reader) : Decidable (r.InRange c0) := inferInstanceAs (Decidable (∀ x ∈ r.bodies, _ ≤ _))

/-! ## The reader by units -/

section Units

variable {look : ℕ → ℕ} {r : Reader}

open Reader

@[simp] theorem feeds_nil (r : Reader) : feeds look r [] = r := rfl

theorem feeds_append (r : Reader) (a b : List UInt8) : feeds look r (a ++ b) = feeds look (feeds look r a) b :=
  List.foldl_append

theorem feeds_idle (h : r.place = .idle) (buf : List UInt8) : feeds look r buf = r := by
  induction buf with
  | nil => rfl
  | cons b buf ih => rw [feeds, List.foldl_cons, feed, if_pos h]; exact ih

theorem appendData_nil (cur : List Body) : appendData [] cur = cur := by
  cases cur with
  | nil => rfl
  | cons b rest => simp [appendData]

theorem appendData_append (a b : List UInt8) (cur : List Body) :
    appendData b (appendData a cur) = appendData (a ++ b) cur := by
  cases cur with
  | nil => rfl
  | cons x rest => simp [appendData]

theorem feeds_data (h : r.place ≠ .idle) {buf : List UInt8} (hlen : buf.length ≤ r.need) :
    feeds look r buf = { r with need := r.need - buf.length, cur := appendData buf r.cur } := by
  induction buf generalizing r with
  | nil => simp [appendData_nil]
  | cons b buf ih =>
    rw [List.length_cons] at hlen
    have hfeed : feed look r b = { r with need := r.need - 1, cur := appendData [b] r.cur } := by
      rw [feed, if_neg h, if_pos (by omega)]
    have hrest := @ih { r with need := r.need - 1, cur := appendData [b] r.cur } h (by simp only; omega)
    rw [feeds, List.foldl_cons, ← feeds, hfeed, hrest]
    simp only [appendData_append, List.singleton_append, List.length_cons, Reader.mk.injEq, and_true, true_and]
    omega

theorem feeds_short (h : r.place ≠ .idle) (hn : r.need = 0) {buf : List UInt8} (hlen : r.tok.length + buf.length < 20) :
    feeds look r buf = { r with tok := r.tok ++ buf } := by
  induction buf generalizing r with
  | nil => simp
  | cons b buf ih =>
    rw [List.length_cons] at hlen
    have hfeed : feed look r b = { r with tok := r.tok ++ [b] } := by
      rw [feed, if_neg h, if_neg (not_not_intro hn), if_pos (by simp; omega)]
    rw [feeds, List.foldl_cons, ← feeds, hfeed, @ih { r with tok := r.tok ++ [b] } h hn (by simp; omega)]
    simp

theorem feeds_judge (h : r.place ≠ .idle) (hn : r.need = 0) (ht : r.tok = []) {t : List UInt8} (hlen : t.length = 20) :
    feeds look r t = judge look r t := by
  obtain ⟨a, b, rfl⟩ : ∃ a b, t = a ++ [b] := by
    rcases List.eq_nil_or_concat t with rfl | ⟨a, b, rfl⟩
    · simp at hlen
    · exact ⟨a, b, List.concat_eq_append⟩
  have ha : a.length = 19 := by simpa using hlen
  have hr : { r with tok := [] } = r := by rw [← ht]
  rw [feeds_append, feeds_short h hn (by rw [ht, ha]; decide), ht, List.nil_append, feeds, List.foldl_cons, List.foldl_nil,
    feed, if_neg h, if_neg (not_not_intro hn), if_neg (by simp [ha]), hr]

/-- what goes on after the token at the front -/
theorem feeds_front (h : r.place ≠ .idle) (hn : r.need = 0) (ht : r.tok = []) {buf : List UInt8} (hlen : 20 ≤ buf.length) :
    feeds look r buf = feeds look (judge look r (buf.take 20)) (buf.drop 20) := by
  rw [← feeds_judge h hn ht (by simp [hlen]), ← feeds_append, List.take_append_drop]

/-- the HEAD of a known partition -/
theorem judge_head (hp : r.place = .head) {buf : List UInt8} (hlen : 20 ≤ buf.length) (h0 : SYNC_REQ_HEAD = word buf 0)
    (hid : look (word buf 2) ≠ noId) : judge look r (buf.take 20) =
      { r with place := .body, id := look (word buf 2), frame := word buf 1, tok := [] } := by
  simp only [judge, hp, @word_take _ hlen 0 (by decide), @word_take _ hlen 1 (by decide), @word_take _ hlen 2 (by decide)]
  exact if_pos ⟨h0.symm, hid⟩

/-- a BODY with the next index -/
theorem judge_body (hp : r.place = .body) {buf : List UInt8} (hlen : 20 ≤ buf.length) (h0 : SYNC_REQ_BODY = word buf 0)
    (hf : (r.frame + 1) % 2 ^ 32 = word buf 1) : judge look r (buf.take 20) =
      { r with
        frame := (r.frame + 1) % 2 ^ 32
        tok := []
        need := word buf 4 * RAMNV_SECT_SIZE
        cur := ⟨word buf 3, word buf 4, []⟩ :: r.cur
        bodies := r.bodies ++ [(r.id, word buf 3, word buf 4)] } := by
  simp only [judge, hp, @word_take _ hlen 0 (by decide), @word_take _ hlen 1 (by decide),
    @word_take _ hlen 3 (by decide), @word_take _ hlen 4 (by decide)]
  rw [if_neg (not_not_intro hf.symm), if_pos h0.symm]

/-- a TAIL with the next index -/
theorem judge_tail (hp : r.place = .body) {buf : List UInt8} (hlen : 20 ≤ buf.length) (h0 : SYNC_REQ_TAIL = word buf 0)
    (hf : (r.frame + 1) % 2 ^ 32 = word buf 1) : judge look r (buf.take 20) =
      { r with place := .idle, cur := [], acc := Function.update r.acc r.id (r.acc r.id ++ [r.cur]) } := by
  have hbody : word buf 0 ≠ SYNC_REQ_BODY := by rw [← h0]; decide
  simp only [judge, hp, @word_take _ hlen 0 (by decide), @word_take _ hlen 1 (by decide)]
  rw [if_neg (not_not_intro hf.symm), if_neg hbody, if_pos h0.symm]

/-! ### What only grows -/

/-- nothing is taken back -/
structure Grows (r r' : Reader) : Prop where
  bodies : r.bodies <+: r'.bodies
  acc : ∀ id, r.acc id <+: r'.acc id

theorem Grows.refl (r : Reader) : Grows r r := ⟨List.prefix_rfl, fun _ => List.prefix_rfl⟩

theorem Grows.trans {r r' r'' : Reader} (h : Grows r r') (h' : Grows r' r'') : Grows r r'' :=
  ⟨h.bodies.trans h'.bodies, fun id => (h.acc id).trans (h'.acc id)⟩

theorem grows_judge (r : Reader) (t : List UInt8) : Grows r (judge look r t) := by
  unfold judge
  cases r.place with
  | idle => exact .refl r
  | head =>
    simp only
    split_ifs <;> exact ⟨List.prefix_rfl, fun _ => List.prefix_rfl⟩
  | body =>
    simp only
    split_ifs
    · exact ⟨List.prefix_rfl, fun _ => List.prefix_rfl⟩
    · exact ⟨List.prefix_append _ _, fun _ => List.prefix_rfl⟩
    · refine ⟨List.prefix_rfl, fun id => ?_⟩
      by_cases hid : id = r.id
      · subst hid
        simp
      · simp [hid]
    · exact ⟨List.prefix_rfl, fun _ => List.prefix_rfl⟩

theorem grows_feed (r : Reader) (b : UInt8) : Grows r (feed look r b) := by
  unfold feed
  split_ifs
  · exact .refl r
  · exact ⟨List.prefix_rfl, fun _ => List.prefix_rfl⟩
  · exact ⟨List.prefix_rfl, fun _ => List.prefix_rfl⟩
  · have hgrows := @grows_judge look { r with tok := [] } (r.tok ++ [b])
    exact ⟨hgrows.bodies, hgrows.acc⟩

theorem grows_feeds (r : Reader) (buf : List UInt8) : Grows r (feeds look r buf) := by
  induction buf generalizing r with
  | nil => exact .refl r
  | cons b buf ih => exact (grows_feed r b).trans (ih _)

theorem grows_packet (r : Reader) (p : PacketState × List UInt8) : Grows r (packet look r p) := by
  obtain ⟨p, buf⟩ := p
  have hsame (r' : Reader) (hb : r'.bodies = r.bodies) (ha : r'.acc = r.acc) : Grows r r' :=
    ⟨by rw [hb], fun id => by rw [ha]⟩
  cases p with
  | start => exact (hsame r.opened rfl rfl).trans (grows_feeds _ buf)
  | cont => exact (hsame { r with tok := [] } rfl rfl).trans (grows_feeds _ buf)
  | skip => exact .refl r
  | fail => exact hsame _ rfl rfl

theorem InRange.of_grows {c0 : RamNvCtl} {r r' : Reader} (h : r'.InRange c0) (hg : Grows r r') : r.InRange c0 :=
  fun x hx => h x (hg.bodies.subset hx)

/-! ### Requests have all their data -/

/-- the bodies of a request are complete, but for the data that the latest one still misses -/
structure Filled (r : Reader) : Prop where
  acc : ∀ id, ∀ q ∈ r.acc id, ∀ b ∈ q, b.Full
  cur : r.need = 0 → ∀ b ∈ r.cur, b.Full
  rest : r.need ≠ 0 → ∃ b q, r.cur = b :: q ∧ b.data.length + r.need = b.num * RAMNV_SECT_SIZE ∧ ∀ x ∈ q, x.Full

theorem filled_drop (h : Filled r) : Filled r.drop :=
  ⟨h.acc, fun _ b hb => absurd hb (by simp [Reader.drop]), fun hn => absurd rfl hn⟩

theorem filled_judge (h : Filled r) (hn : r.need = 0) (t : List UInt8) : Filled (judge look r t) := by
  unfold judge
  cases r.place with
  | idle => exact h
  | head =>
    simp only
    split_ifs
    · exact ⟨h.acc, h.cur, h.rest⟩
    · exact filled_drop h
  | body =>
    simp only
    split_ifs
    · exact filled_drop h
    · refine ⟨h.acc, fun hnum b hb => ?_, fun _ => ⟨_, _, rfl, by simp, h.cur hn⟩⟩
      rcases List.mem_cons.1 hb with rfl | hb
      · exact hnum.symm
      · exact h.cur hn b hb
    · refine ⟨fun id q hq => ?_, fun _ b hb => absurd hb (by simp), fun hn' => absurd hn hn'⟩
      by_cases hid : id = r.id
      · subst hid
        simp only [Function.update_self, List.mem_append, List.mem_singleton] at hq
        rcases hq with hq | rfl
        · exact h.acc _ q hq
        · exact h.cur hn
      · simp only [Function.update_of_ne hid] at hq
        exact h.acc id q hq
    · exact filled_drop h

theorem filled_feed (h : Filled r) (b : UInt8) : Filled (feed look r b) := by
  unfold feed
  split_ifs with hp hn hl
  · exact h
  · obtain ⟨x, q, hcur, hlen, hq⟩ := h.rest hn
    simp only [hcur, appendData]
    refine ⟨h.acc, fun hz y hy => ?_, fun hz => ⟨_, _, rfl, ?_, hq⟩⟩
    · rcases List.mem_cons.1 hy with rfl | hy
      · simp only [Body.Full, List.length_append, List.length_singleton]
        simp only at hz
        omega
      · exact hq y hy
    · simp only [List.length_append, List.length_singleton] at hz ⊢
      omega
  · exact ⟨h.acc, h.cur, h.rest⟩
  · exact @filled_judge look { r with tok := [] } ⟨h.acc, h.cur, h.rest⟩ (not_not.1 hn) _

theorem filled_feeds (h : Filled r) (buf : List UInt8) : Filled (feeds look r buf) := by
  induction buf generalizing r with
  | nil => exact h
  | cons b buf ih => exact ih (filled_feed h b)

theorem filled_packet (h : Filled r) (p : PacketState × List UInt8) : Filled (packet look r p) := by
  obtain ⟨p, buf⟩ := p
  cases p with
  | start =>
    exact @filled_feeds look r.opened ⟨h.acc, fun _ b hb => absurd hb (by simp [opened]), fun hn => absurd rfl hn⟩ buf
  | cont => exact @filled_feeds look { r with tok := [] } ⟨h.acc, h.cur, h.rest⟩ buf
  | skip => exact h
  | fail => exact filled_drop h

end Units

/-- **A request has all its data** -/
theorem full_run (c0 : RamNvCtl) (cali : Bool) (ops : List Op) :
    ∀ id, ∀ q ∈ (reading c0 cali ops).acc id, ∀ b ∈ q, b.Full := by
  have hall : ∀ (ps : List (PacketState × List UInt8)) (r : Reader), Filled r →
      Filled (ps.foldl (Reader.packet (getCtlId c0)) r) := by
    intro ps
    induction ps with
    | nil => exact fun _ h => h
    | cons p ps ih => exact fun r h => ih _ (filled_packet h p)
  refine (hall _ Reader.start ⟨?_, ?_, ?_⟩).acc
  · intro id q hq
    simp [Reader.start] at hq
  · intro _ b hb
    simp [Reader.start] at hb
  · intro hn
    exact absurd rfl hn

/-! ## The requests of a history -/

/-- `cur`: the bodies of the request in progress, the latest first; `acc`: the accepted requests of each partition,
the oldest first -/
structure Track where
  cur : List Body
  acc : ℕ → List (List Body)

def track (t : Track) : Eff → Track
  | .mark _ start num => { t with cur := ⟨start, num, []⟩ :: t.cur }
  | .write _ _ buf => { t with cur := appendData buf t.cur }
  | .backup id => ⟨[], Function.update t.acc id (t.acc id ++ [t.cur])⟩
  | .restore _ => { t with cur := [] }
  | _ => t

def tracked (h : List Eff) : Track := h.foldl track ⟨[], fun _ => []⟩

theorem tracked_append (h es : List Eff) : tracked (h ++ es) = es.foldl track (tracked h) := by
  simp [tracked, List.foldl_append]

/-- the BODYs that were marked -/
def marks : List Eff → List (ℕ × ℕ × ℕ) := List.filterMap fun
  | .mark id start num => some (id, start, num)
  | _ => none

@[simp] theorem marks_append (a b : List Eff) : marks (a ++ b) = marks a ++ marks b := by
  simp [marks]

/-- an effect that is not about requests -/
theorem quiet (h : List Eff) {e : Eff} (ht : ∀ t, track t e = t) (hm : marks [e] = []) :
    tracked (h ++ [e]) = tracked h ∧ marks (h ++ [e]) = marks h := by
  constructor
  · rw [tracked_append]
    exact ht _
  · rw [marks_append, hm, List.append_nil]

/-- there are as many accepted requests as copies to backup -/
theorem length_tracked (h : List Eff) (id : ℕ) : ((tracked h).acc id).length = (commits h).count id := by
  induction h using List.reverseRecOn with
  | nil => simp [tracked, commits]
  | append_singleton h e ih =>
    rw [tracked_append, commits_append, List.count_append, ← ih]
    cases e with
    | backup j =>
      by_cases hid : id = j
      · subst hid
        simp [track, commits]
      · simp [track, commits, hid, Ne.symm hid]
    | _ => simp [track, commits]

/-! ## The reader and the daemon -/

/-- the reader stands where the analyzer does -/
def Standing (s : SyncState) (r : Reader) : Prop :=
  if s.syncBusy = true then
    match s.syncState with
    | .head => r.place = .head ∧ r.need = 0
    | .body => r.place = .body ∧ r.need = 0 ∧ r.id = s.id ∧ r.frame = s.syncReqFrame
    | .data => r.place = .body ∧ r.need = s.len ∧ r.id = s.id ∧ r.frame = s.syncReqFrame
  else r.place = .idle

/-- the requests that were read and the ones of the history are the same -/
structure Agree (d : Daemon) (r : Reader) : Prop where
  acc : r.acc = (tracked d.hist).acc
  cur : r.cur = (tracked d.hist).cur
  bodies : r.bodies = marks d.hist

/-- the analyzer, about to read buf: the reader is ahead of it by buf -/
structure Reads (look : ℕ → ℕ) (d : Daemon) (r : Reader) (buf : List UInt8) : Prop where
  busy : d.s.syncBusy = true
  ahead : ∃ r0, r = Reader.feeds look r0 buf ∧ r0.tok = [] ∧ Standing d.s r0 ∧ Agree d r0

/-- no request is read; what is in progress in the daemon is about to be dropped or copied -/
structure Between (d : Daemon) (r : Reader) : Prop where
  place : r.place = .idle
  cur : r.cur = []
  bodies : r.bodies = marks d.hist

/-- a new request is opened, and buf is its first packet -/
structure Opens (look : ℕ → ℕ) (d : Daemon) (r : Reader) (buf : List UInt8) : Prop where
  ahead : ∃ r0, r = Reader.feeds look r0 buf ∧ r0.tok = [] ∧ r0.place = .head ∧ r0.need = 0 ∧ r0.cur = [] ∧
    r0.acc = (tracked d.hist).acc ∧ r0.bodies = marks d.hist

/-- the reader and the daemon, by what the channel thread is doing -/
def Follows (look : ℕ → ℕ) (d : Daemon) (r : Reader) : ChanPc → Prop
  | .recv => Standing d.s r ∧ Agree d r
  | .loop buf => Reads look d r buf
  | .abort (.parse buf) => Opens look d r buf
  | .aborted (.parse buf) => Opens look d r buf ∧ (tracked d.hist).cur = []
  | .abort .reject | .abort .leave => Between d r ∧ r.acc = (tracked d.hist).acc
  | .commit => Between d r ∧
      r.acc = Function.update (tracked d.hist).acc d.s.id ((tracked d.hist).acc d.s.id ++ [(tracked d.hist).cur])
  | .aborted .reject | .aborted .leave | .signal | .save _ | .committed =>
    Between d r ∧ r.acc = (tracked d.hist).acc ∧ (tracked d.hist).cur = []

structure Sim (c0 : RamNvCtl) (d : Daemon) (r : Reader) : Prop where
  ofst : d.s.ofst = 0
  look : getCtlId d.c = getCtlId c0
  /-- before a HEAD no request is in progress -/
  idle : d.s.syncState = .head → (tracked d.hist).cur = []
  rest : d.s.syncBusy = false → d.s.syncState = .head
  follows : Follows (getCtlId c0) d r d.chan

theorem Agree.effs {d : Daemon} {r : Reader} (h : Agree d r) {d' : Daemon} (ht : tracked d'.hist = tracked d.hist)
    (hm : marks d'.hist = marks d.hist) : Agree d' r :=
  ⟨by rw [ht]; exact h.acc, by rw [ht]; exact h.cur, by rw [hm]; exact h.bodies⟩

/-- effects that are not about requests change nothing -/
theorem Follows.effs {look : ℕ → ℕ} {d d' : Daemon} {r : Reader} {pc : ChanPc} (h : Follows look d r pc)
    (hs : d'.s = d.s) (ht : tracked d'.hist = tracked d.hist) (hm : marks d'.hist = marks d.hist) :
    Follows look d' r pc := by
  have hb : Between d r → Between d' r := fun h => ⟨h.place, h.cur, by rw [hm]; exact h.bodies⟩
  have hopen {buf : List UInt8} : Opens look d r buf → Opens look d' r buf := fun h => ⟨by rw [ht, hm]; exact h.ahead⟩
  cases pc with
  | recv => exact ⟨by rw [hs]; exact h.1, h.2.effs ht hm⟩
  | loop buf =>
    obtain ⟨r0, h1, h2, h3, h4⟩ := h.ahead
    exact ⟨by rw [hs]; exact h.busy, r0, h1, h2, by rw [hs]; exact h3, h4.effs ht hm⟩
  | abort k =>
    cases k with
    | parse buf => exact hopen h
    | reject => exact ⟨hb h.1, by rw [ht]; exact h.2⟩
    | leave => exact ⟨hb h.1, by rw [ht]; exact h.2⟩
  | aborted k =>
    cases k with
    | parse buf => exact ⟨hopen h.1, by rw [ht]; exact h.2⟩
    | reject => exact ⟨hb h.1, by rw [ht]; exact h.2⟩
    | leave => exact ⟨hb h.1, by rw [ht]; exact h.2⟩
  | commit => exact ⟨hb h.1, by rw [ht, hs]; exact h.2⟩
  | signal => exact ⟨hb h.1, by rw [ht]; exact h.2⟩
  | save p => exact ⟨hb h.1, by rw [ht]; exact h.2⟩
  | committed => exact ⟨hb h.1, by rw [ht]; exact h.2⟩

theorem getCtlId_modPart (c : RamNvCtl) (id : ℕ) {f : PartCtrl → PartCtrl} (hf : ∀ p, (f p).partId = p.partId) :
    getCtlId (c.modPart id f) = getCtlId c := by
  funext partId
  simp only [getCtlId, modPart_partNum, modPart_field c id _ f PartCtrl.partId hf]

/-- a step of `saveToDisk`, by either thread, is not about requests -/
theorem saveStep_quiet (c : RamNvCtl) (ok : Bool) (p : SavePc) (h : List Eff) :
    getCtlId (saveStep c ok p).1 = getCtlId c ∧ tracked (h ++ (saveStep c ok p).2.2) = tracked h ∧
      marks (h ++ (saveStep c ok p).2.2) = marks h := by
  cases p with
  | test id =>
    simp only [saveStep]
    split_ifs <;> exact ⟨rfl, by rw [List.append_nil], by rw [List.append_nil]⟩
  | copy id =>
    simp only [saveStep, getData, List.append_nil]
    exact ⟨getCtlId_modPart c id fun _ => rfl, trivial, trivial⟩
  | write id => exact ⟨rfl, by rw [tracked_append]; rfl, by rw [marks_append]; exact List.append_nil _⟩
  | clean id =>
    simp only [saveStep, cleanToDisk, List.append_nil]
    exact ⟨getCtlId_modPart c id fun _ => rfl, trivial, trivial⟩

section Steps

variable {c0 : RamNvCtl} {d : Daemon} {r : Reader}

theorem sim_packet (h : Sim c0 d r) (hc : d.chan = .recv) (p : PacketState) (buf : List UInt8) :
    Sim c0 (packetStep d buf p) (r.packet (getCtlId c0) (p, buf)) := by
  obtain ⟨ho, hlook, hidle, hrest, hfollows⟩ := h
  rw [hc] at hfollows
  obtain ⟨hstand, hagree⟩ := hfollows
  cases p with
  | fail => exact ⟨ho, hlook, hidle, hrest, ⟨rfl, rfl, hagree.bodies⟩, hagree.acc⟩
  | skip =>
    refine ⟨ho, hlook, hidle, hrest, ?_⟩
    rw [show (packetStep d buf .skip).chan = .recv from hc]
    exact ⟨hstand, hagree⟩
  | start =>
    simp only [packetStep]
    split_ifs with hb
    · exact ⟨ho, hlook, hidle, hrest, r.opened, rfl, rfl, rfl, rfl, rfl, hagree.acc, hagree.bodies⟩
    · have hhead := hrest (by simpa using hb)
      refine ⟨ho, hlook, hidle, fun hb' => absurd hb' (by simp), rfl, r.opened, rfl, rfl, ?_, hagree.acc, ?_, hagree.bodies⟩
      · simp [Standing, hhead, Reader.opened]
      · exact (hidle hhead).symm
  | cont =>
    simp only [packetStep]
    split_ifs with hb
    · refine ⟨ho, hlook, hidle, fun hb' => absurd hb' (by simp), rfl, { r with tok := [] }, rfl, rfl, ?_,
        ⟨hagree.acc, hagree.cur, hagree.bodies⟩⟩
      have hsame : { d.s with syncBusy := true } = d.s := by rw [← hb]
      simp only [hsame]
      exact hstand
    · have hplace : r.place = .idle := by simpa [Standing, hb] using hstand
      have hread : r.packet (getCtlId c0) (.cont, buf) = { r with tok := [] } :=
        @feeds_idle _ { r with tok := [] } hplace buf
      obtain ⟨ht, hm⟩ := quiet d.hist (e := Eff.rsp 0) (fun _ => rfl) rfl
      have hagree' : Agree { d with hist := d.hist ++ [Eff.rsp 0] } r := hagree.effs ht hm
      rw [hread]
      refine ⟨ho, hlook, by rw [ht]; exact hidle, hrest, ?_⟩
      rw [hc]
      exact ⟨hstand, hagree'.acc, hagree'.cur, hagree'.bodies⟩

/-- the reader on the data of a BODY -/
theorem reads_data (hs : d.s.syncState = .data) (hbusy : d.s.syncBusy = true) (hr : Standing d.s r) {u : List UInt8}
    (hlen : u.length ≤ d.s.len) : Reader.feeds (getCtlId c0) r u =
      { r with need := d.s.len - u.length, cur := appendData u r.cur } ∧
    r.place = .body ∧ r.id = d.s.id ∧ r.frame = d.s.syncReqFrame := by
  simp only [Standing, hbusy, if_true, hs] at hr
  obtain ⟨hp, hn, hid, hf⟩ := hr
  rw [feeds_data (by rw [hp]; decide) (by rw [hn]; exact hlen), hn]
  exact ⟨rfl, hp, hid, hf⟩

/-- the reader before a token -/
theorem reads_place (hbusy : d.s.syncBusy = true) (hp : d.s.syncState ≠ .data) (hr : Standing d.s r) :
    r.place ≠ .idle ∧ r.need = 0 := by
  simp only [Standing, hbusy, if_true] at hr
  cases hs : d.s.syncState with
  | head => simp only [hs] at hr; simp [hr]
  | body => simp only [hs] at hr; simp [hr]
  | data => exact absurd hs hp

/-- a token that was taken, with no effect on the requests -/
theorem Agree.took {d : Daemon} {r : Reader} (h : Agree d r) (n : ℕ) (c : RamNvCtl) (s : SyncState) (pc : ChanPc)
    (saver : SaverPc) : Agree ⟨c, s, pc, saver, d.hist ++ [Eff.read n]⟩ r :=
  h.effs (by rw [tracked_append]; rfl) (by rw [marks_append]; exact List.append_nil _)

/-- a token that is not accepted -/
theorem sim_rejected (h : Sim c0 d r) {buf : List UInt8} {r0 : Reader} (hr : r = Reader.feeds (getCtlId c0) r0 buf)
    (hbusy : d.s.syncBusy = true) (hp : d.s.syncState ≠ .data) (hl : 20 ≤ buf.length) (htok : r0.tok = [])
    (hstand : Standing d.s r0) (hagree : Agree d r0)
    (hdrop : r0.judge (getCtlId c0) (buf.take 20) = r0.drop) {s' : SyncState} (ho : s'.ofst = 0)
    (hb : s'.syncBusy = true) (hs : s'.syncState = d.s.syncState) :
    Sim c0 ⟨d.c, s', .abort .reject, d.saver, d.hist ++ [Eff.read 20]⟩ r := by
  obtain ⟨hplace, hneed⟩ := reads_place hbusy hp hstand
  have hread : r = r0.drop := by rw [hr, feeds_front hplace hneed htok hl, hdrop, feeds_idle rfl]
  have htook := hagree.took 20 d.c s' (.abort .reject) d.saver
  refine ⟨ho, h.look, fun hhead => ?_, fun hb' => absurd hb' (by simp [hb]), ⟨?_, ?_, ?_⟩, ?_⟩
  · rw [← htook.cur, hagree.cur]
    exact h.idle (hs.symm.trans hhead)
  all_goals rw [hread]
  · rfl
  · rfl
  · exact htook.bodies
  · exact htook.acc

/-- a turn behind which the loop goes on, with the reader ahead by the rest of the packet -/
theorem sim_next {d' : Daemon} {buf : List UInt8} {r0 : Reader} (hr : r = Reader.feeds (getCtlId c0) r0 buf)
    (hc : d'.chan = .loop buf) (ho : d'.s.ofst = 0) (hlook : getCtlId d'.c = getCtlId c0) (hbusy : d'.s.syncBusy = true)
    (hp : d'.s.syncState ≠ .head) (htok : r0.tok = []) (hstand : Standing d'.s r0) (hagree : Agree d' r0) :
    Sim c0 d' r := by
  refine ⟨ho, hlook, fun hs => absurd hs hp, fun hb' => absurd hb' (by simp [hbusy]), ?_⟩
  rw [hc]
  exact ⟨hbusy, r0, hr, htok, hstand, hagree⟩

/-- a HEAD begins the request -/
theorem sim_head {buf : List UInt8} (hreads : Reads (getCtlId c0) d r buf) (hlook : getCtlId d.c = getCtlId c0)
    (hp : d.s.syncState = .head) (hl : 20 ≤ buf.length) (htype : SYNC_REQ_HEAD = word buf 0)
    (hid : getCtlId d.c (word buf 2) ≠ noId) {c' : RamNvCtl} (hlook' : getCtlId c' = getCtlId c0) :
    Sim c0 ⟨c', SyncState.goto { d.s.tok buf with syncReqFrame := word buf 1, id := getCtlId d.c (word buf 2) }
      d.s.syncState.next, .loop (buf.drop 20), d.saver, d.hist ++ [Eff.read 20]⟩ r := by
  obtain ⟨hbusy, r0, hread, htok, hstand, hagree⟩ := hreads
  obtain ⟨hplace, hneed⟩ := reads_place hbusy (by rw [hp]; decide) hstand
  have htook := hagree.took 20 d.c d.s .recv d.saver
  simp only [Standing, hbusy, if_true, hp] at hstand
  have hjudge := judge_head hstand.1 hl htype (hlook ▸ hid)
  refine sim_next (hread.trans (feeds_front hplace hneed htok hl)) rfl rfl hlook' hbusy
    (by simp [SyncState.goto, hp, Phase.next]) (by rw [hjudge]) ?_ ?_
  · rw [hjudge, hlook]
    simp [Standing, SyncState.goto, SyncState.tok, hbusy, hp, Phase.next, hneed]
  · rw [hjudge]
    exact ⟨htook.acc, htook.cur, htook.bodies⟩

/-- a BODY begins a body -/
theorem sim_body (hb : Booted c0) {buf : List UInt8} (hreads : Reads (getCtlId c0) d r buf) (hr : r.InRange c0)
    (hp : d.s.syncState = .body) (hl : 20 ≤ buf.length) (htype : SYNC_REQ_BODY = word buf 0)
    (hf : (d.s.syncReqFrame + 1) % 2 ^ 32 = word buf 1) {c' : RamNvCtl} (hlook : getCtlId c' = getCtlId c0) :
    Sim c0 ⟨c', SyncState.goto
      { d.s.tok buf with
        syncReqFrame := (d.s.syncReqFrame + 1) % 2 ^ 32
        start := word buf 3 * RAMNV_SECT_SIZE % 2 ^ 32
        len := word buf 4 * RAMNV_SECT_SIZE % 2 ^ 32 } d.s.syncState.next,
      .loop (buf.drop 20), d.saver, d.hist ++ [Eff.read 20, Eff.mark d.s.id (word buf 3) (word buf 4)]⟩ r := by
  obtain ⟨hbusy, r0, hread, htok, hstand, hagree⟩ := hreads
  have hat := reads_place hbusy (by rw [hp]; decide) hstand
  have hfront := hread.trans (feeds_front hat.1 hat.2 htok hl)
  simp only [Standing, hbusy, if_true, hp] at hstand
  obtain ⟨hplace, -, hid, hframe⟩ := hstand
  have hjudge := @judge_body (getCtlId c0) r0 hplace buf hl htype (hframe ▸ hf)
  -- the BODY lies inside its partition, so its size is no number of more than 32 bits
  have hin : word buf 3 + word buf 4 ≤ (c0.part d.s.id).sctNum := by
    have hgrows := @grows_feeds (getCtlId c0) (r0.judge (getCtlId c0) (buf.take 20)) (buf.drop 20)
    rw [← hfront, hjudge, hid] at hgrows
    exact hr (d.s.id, word buf 3, word buf 4) (hgrows.bodies.subset (by simp))
  have hsize := (hb d.s.id).2.2.2
  have hlen : word buf 4 * RAMNV_SECT_SIZE % 2 ^ 32 = word buf 4 * RAMNV_SECT_SIZE := by
    simp only [PartCtrl.size, RAMNV_SECT_SIZE] at hsize ⊢
    exact Nat.mod_eq_of_lt (by omega)
  have ht : tracked (d.hist ++ [Eff.read 20, Eff.mark d.s.id (word buf 3) (word buf 4)]) =
      { tracked d.hist with cur := ⟨word buf 3, word buf 4, []⟩ :: (tracked d.hist).cur } := by
    rw [tracked_append]
    rfl
  refine sim_next hfront rfl rfl hlook hbusy (by simp [SyncState.goto, hp, Phase.next]) (by rw [hjudge]) ?_ ⟨?_, ?_, ?_⟩
  · rw [hjudge]
    simp only [Standing, SyncState.goto, SyncState.tok, hbusy, hp, Phase.next, hplace, hid, hframe, hlen, if_true, and_self]
  · rw [hjudge, ht]
    exact hagree.acc
  · rw [hjudge, ht]
    exact congrArg _ hagree.cur
  · rw [hjudge, marks_append, hid]
    exact congrArg (· ++ [(d.s.id, word buf 3, word buf 4)]) hagree.bodies

/-- a TAIL ends the request: the reader has accepted it, and the daemon is about to copy it -/
theorem sim_tail {buf : List UInt8} (hreads : Reads (getCtlId c0) d r buf) (hp : d.s.syncState = .body)
    (hl : 20 ≤ buf.length) (htype : SYNC_REQ_TAIL = word buf 0)
    (hf : (d.s.syncReqFrame + 1) % 2 ^ 32 = word buf 1) {c' : RamNvCtl} (hlook : getCtlId c' = getCtlId c0) :
    Sim c0 ⟨c', { d.s.tok buf with syncReqFrame := (d.s.syncReqFrame + 1) % 2 ^ 32 }, .commit, d.saver,
      d.hist ++ [Eff.read 20]⟩ r := by
  obtain ⟨hbusy, r0, hread, htok, hstand, hagree⟩ := hreads
  have hat := reads_place hbusy (by rw [hp]; decide) hstand
  have htook := hagree.took 20 d.c d.s .recv d.saver
  simp only [Standing, hbusy, if_true, hp] at hstand
  obtain ⟨hplace, -, hid, hframe⟩ := hstand
  have hjudge := @judge_tail (getCtlId c0) r0 hplace buf hl htype (hframe ▸ hf)
  rw [hread, feeds_front hat.1 hat.2 htok hl, feeds_idle (by rw [hjudge]), hjudge, hid]
  refine ⟨rfl, hlook, fun hs => absurd hs (by simp [SyncState.tok, hp]),
    fun hb' => absurd hb' (by simp [SyncState.tok, hbusy]), ⟨rfl, rfl, htook.bodies⟩, ?_⟩
  simp only [htook.acc, htook.cur]
  rfl

/-- the end of the data of a BODY -/
theorem sim_dataNext (h : Sim c0 d r) {buf : List UInt8} (hreads : Reads (getCtlId c0) d r buf)
    (hp : d.s.syncState = .data) (hl : d.s.len ≤ buf.length) {c' : RamNvCtl} (hlook : getCtlId c' = getCtlId c0) :
    Sim c0 ⟨c', SyncState.goto { d.s with start := (d.s.start + d.s.len) % 2 ^ 32, len := 0 } d.s.syncState.next,
      .loop (buf.drop d.s.len), d.saver,
      d.hist ++ [Eff.read d.s.len, Eff.write d.s.id d.s.start (buf.take d.s.len)]⟩ r := by
  obtain ⟨hbusy, r0, hread, htok, hstand, hagree⟩ := hreads
  obtain ⟨hfeeds, hplace, hid, hframe⟩ := @reads_data c0 d r0 hp hbusy hstand (buf.take d.s.len) (by simp)
  have hsplit : r = Reader.feeds (getCtlId c0) (Reader.feeds (getCtlId c0) r0 (buf.take d.s.len)) (buf.drop d.s.len) := by
    rw [hread, ← feeds_append, List.take_append_drop]
  have ht : tracked (d.hist ++ [Eff.read d.s.len, Eff.write d.s.id d.s.start (buf.take d.s.len)]) =
      { tracked d.hist with cur := appendData (buf.take d.s.len) (tracked d.hist).cur } := by
    rw [tracked_append]
    rfl
  refine sim_next hsplit rfl h.ofst hlook hbusy (by simp [SyncState.goto, hp, Phase.next]) (by rw [hfeeds]; exact htok) ?_
    ⟨?_, ?_, ?_⟩
  · rw [hfeeds]
    simp [Standing, SyncState.goto, hbusy, hp, Phase.next, hplace, hid, hframe, hl]
  · rw [hfeeds, ht]
    exact hagree.acc
  · rw [hfeeds, ht]
    exact congrArg (appendData _) hagree.cur
  · rw [hfeeds, marks_append]
    exact hagree.bodies.trans (List.append_nil _).symm

/-- a piece of the data of a BODY -/
theorem sim_dataCont (h : Sim c0 d r) {buf : List UInt8} (hreads : Reads (getCtlId c0) d r buf)
    (hp : d.s.syncState = .data) (hl : buf.length < d.s.len) {c' : RamNvCtl} (hlook : getCtlId c' = getCtlId c0) :
    Sim c0 ⟨c', { d.s with start := (d.s.start + buf.length) % 2 ^ 32, len := d.s.len - buf.length }, .recv, d.saver,
      d.hist ++ [Eff.read buf.length, Eff.write d.s.id d.s.start buf] ++ [Eff.rsp 1]⟩ r := by
  obtain ⟨hbusy, r0, hread, htok, hstand, hagree⟩ := hreads
  obtain ⟨hfeeds, hplace, hid, hframe⟩ := @reads_data c0 d r0 hp hbusy hstand buf hl.le
  have ht : tracked (d.hist ++ [Eff.read buf.length, Eff.write d.s.id d.s.start buf] ++ [Eff.rsp 1]) =
      { tracked d.hist with cur := appendData buf (tracked d.hist).cur } := by
    rw [tracked_append, tracked_append]
    rfl
  rw [hread, hfeeds]
  refine ⟨h.ofst, hlook, fun hs => absurd hs (by simp [hp]), fun hb' => absurd hb' (by simp [hbusy]), ?_, ?_, ?_, ?_⟩
  · simp [Standing, hbusy, hp, hplace, hid, hframe]
  · rw [ht]
    exact hagree.acc
  · rw [ht]
    exact congrArg (appendData _) hagree.cur
  · rw [marks_append, marks_append]
    exact hagree.bodies.trans (by simp [marks])

/-- a token that its packet does not complete -/
theorem sim_short (h : Sim c0 d r) {buf : List UInt8} (hreads : Reads (getCtlId c0) d r buf)
    (hp : d.s.syncState ≠ .data) (hl : buf.length < 20) :
    Sim c0 { d with chan := .recv, hist := d.hist ++ [Eff.rsp 1] } r := by
  obtain ⟨hbusy, r0, hread, htok, hstand, hagree⟩ := hreads
  obtain ⟨hplace, hneed⟩ := reads_place hbusy hp hstand
  obtain ⟨ht, hm⟩ := quiet d.hist (e := Eff.rsp 1) (fun _ => rfl) rfl
  have hagree' : Agree { d with hist := d.hist ++ [Eff.rsp 1] } r0 := hagree.effs ht hm
  rw [hread, feeds_short hplace hneed (by rw [htok]; simpa using hl)]
  exact ⟨h.ofst, h.look, by rw [ht]; exact h.idle, h.rest, hstand, hagree'.acc, hagree'.cur, hagree'.bodies⟩

/-- one turn of the loop: the reader is where the analyzer leaves the packet -/
theorem sim_turn (hb : Booted c0) (h : Sim c0 d r) {buf : List UInt8} (hc : d.chan = .loop buf) (hr : r.InRange c0) :
    Sim c0 (turnStep d buf) r := by
  have hreads : Reads (getCtlId c0) d r buf := by
    have hfollows := h.follows
    rw [hc] at hfollows
    exact hfollows
  have hbusy := hreads.busy
  obtain ⟨r0, hread, htok, hstand, hagree⟩ := hreads.ahead
  simp only [turnStep]
  split_ifs with h0
  · rw [hread, List.length_eq_zero_iff.1 h0]
    exact ⟨h.ofst, h.look, h.idle, h.rest, hstand, hagree.acc, hagree.cur, hagree.bodies⟩
  have hexec : getCtlId ((syncGet d.c d.s buf).effs.foldl Eff.exec d.c) = getCtlId c0 := (getCtlId_exec _ _).trans h.look
  have ht := syncGet_turn d.c h.ofst h0
  generalize syncGet d.c d.s buf = g at hexec ht
  have hw (hl : 20 ≤ buf.length) (k : ℕ) (hk : k < 5) : word (buf.take 20) k = word buf k := word_take hl hk
  cases ht with
  | short hp hl => simpa using sim_short h hreads hp hl
  | headBad hp hl htype =>
    refine sim_rejected h hread hbusy (by rw [hp]; decide) hl htok hstand hagree ?_ rfl hbusy rfl
    simp only [Standing, hbusy, if_true, hp] at hstand
    simp only [Reader.judge, hstand.1]
    exact if_neg fun hand => htype ((hw hl 0 (by decide)).symm.trans hand.1).symm
  | headUnknown hp hl htype hid =>
    refine sim_rejected h hread hbusy (by rw [hp]; decide) hl htok hstand hagree ?_ (by rfl) hbusy (by rfl)
    simp only [Standing, hbusy, if_true, hp] at hstand
    simp only [Reader.judge, hstand.1]
    refine if_neg fun hand => hand.2 ?_
    rw [hw hl 2 (by decide), ← h.look]
    exact hid
  | headNext hp hl htype hid => exact sim_head hreads h.look hp hl htype hid hexec
  | bodyBad hp hl htype =>
    refine sim_rejected h hread hbusy (by rw [hp]; decide) hl htok hstand hagree ?_ rfl hbusy rfl
    simp only [Standing, hbusy, if_true, hp] at hstand
    simp only [Reader.judge, hstand.1, hw hl 0 (by decide), hw hl 1 (by decide), hstand.2.2.2]
    split_ifs with h1 h2 h3
    · rfl
    · exact absurd ⟨Or.inl h2.symm, (not_not.1 h1).symm⟩ htype
    · exact absurd ⟨Or.inr h3.symm, (not_not.1 h1).symm⟩ htype
    · rfl
  | bodyNext hp hl htype hf => exact sim_body hb hreads hr hp hl htype hf hexec
  | tail hp hl htype hf => exact sim_tail hreads hp hl htype hf hexec
  | dataNext hp hl => exact sim_dataNext h hreads hp hl hexec
  | dataCont hp hl => exact sim_dataCont h hreads hp hl hexec

theorem Between.effs {d' : Daemon} (h : Between d r) (hm : marks d'.hist = marks d.hist) : Between d' r :=
  ⟨h.place, h.cur, by rw [hm]; exact h.bodies⟩

/-- the analyzer starts anew, with no request read and none in progress in the daemon -/
theorem sim_anew (hbetween : Between d r) (hlook : getCtlId d.c = getCtlId c0) (hacc : r.acc = (tracked d.hist).acc)
    (hnone : (tracked d.hist).cur = []) : Sim c0 { d with s := syncInit d.s, chan := .recv } r := by
  refine ⟨rfl, hlook, fun _ => hnone, fun _ => rfl, ?_, hacc, hbetween.cur.trans hnone.symm, hbetween.bodies⟩
  simp [Standing, syncInit, hbetween.place]

/-- what is in progress is dropped, if there is anything -/
theorem sim_abort (h : Sim c0 d r) {k : Resume} (hc : d.chan = .abort k) (cali : Bool) (ok : Bool) :
    Sim c0 (chanStep cali d ok) r := by
  have hfollows := h.follows
  rw [hc] at hfollows
  have ht : tracked (d.hist ++ [Eff.restore d.s.id]) = { tracked d.hist with cur := [] } := by rw [tracked_append]; rfl
  have hm : marks (d.hist ++ [Eff.restore d.s.id]) = marks d.hist := by
    rw [marks_append]
    exact List.append_nil _
  simp only [chanStep, hc]
  split_ifs with hs
  · refine ⟨h.ofst, (getCtlId_exec d.c [.restore d.s.id]).trans h.look, fun hhead => absurd hhead hs, h.rest, ?_⟩
    cases k with
    | parse buf => exact ⟨⟨by rw [ht, hm]; exact hfollows.ahead⟩, by rw [ht]⟩
    | reject => exact ⟨hfollows.1.effs hm, by rw [ht]; exact hfollows.2, by rw [ht]⟩
    | leave => exact ⟨hfollows.1.effs hm, by rw [ht]; exact hfollows.2, by rw [ht]⟩
  · have hcur := h.idle (not_not.1 hs)
    refine ⟨h.ofst, h.look, h.idle, h.rest, ?_⟩
    cases k with
    | parse buf => exact ⟨⟨hfollows.ahead⟩, hcur⟩
    | reject => exact ⟨hfollows.1.effs rfl, hfollows.2, hcur⟩
    | leave => exact ⟨hfollows.1.effs rfl, hfollows.2, hcur⟩

/-- behind the drop -/
theorem sim_resume (h : Sim c0 d r) {k : Resume} (hc : d.chan = .aborted k) : Sim c0 (resumeStep d k) r := by
  have hfollows := h.follows
  rw [hc] at hfollows
  cases k with
  | parse buf =>
    obtain ⟨⟨r0, hread, htok, hplace, hneed, hcur, hacc, hbodies⟩, hnone⟩ := hfollows
    refine ⟨rfl, h.look, fun _ => hnone, fun hb' => absurd hb' (by simp [resumeStep]), rfl, r0, hread, htok, ?_, hacc, ?_,
      hbodies⟩
    · simp [Standing, resumeStep, syncInit, hplace, hneed]
    · rw [hcur]
      exact hnone.symm
  | reject =>
    obtain ⟨hbetween, hacc, hnone⟩ := hfollows
    obtain ⟨ht, hm⟩ := quiet d.hist (e := Eff.rsp 0) (fun _ => rfl) rfl
    exact sim_anew (d := { d with hist := d.hist ++ [Eff.rsp 0] }) (hbetween.effs hm) h.look (by rw [ht]; exact hacc)
      (by rw [ht]; exact hnone)
  | leave =>
    obtain ⟨hbetween, hacc, hnone⟩ := hfollows
    exact sim_anew hbetween h.look hacc hnone

/-- a step of the channel thread -/
theorem sim_chan (hb : Booted c0) (cali : Bool) (ok : Bool) (h : Sim c0 d r) (hr : r.InRange c0) :
    Sim c0 (chanStep cali d ok) r := by
  have hfollows := h.follows
  cases hc : d.chan with
  | recv =>
    simp only [chanStep, hc]
    exact h
  | loop buf =>
    simp only [chanStep, hc]
    exact sim_turn hb h hc hr
  | abort k => exact sim_abort h hc cali ok
  | aborted k =>
    simp only [chanStep, hc]
    exact sim_resume h hc
  | commit =>
    rw [hc] at hfollows
    obtain ⟨hbetween, hacc⟩ := hfollows
    have ht : tracked (d.hist ++ [Eff.backup d.s.id]) = ⟨[], Function.update (tracked d.hist).acc d.s.id
        ((tracked d.hist).acc d.s.id ++ [(tracked d.hist).cur])⟩ := by rw [tracked_append]; rfl
    have hm : marks (d.hist ++ [Eff.backup d.s.id]) = marks d.hist := by
      rw [marks_append]
      exact List.append_nil _
    simp only [chanStep, hc]
    refine ⟨h.ofst, (getCtlId_exec d.c [.backup d.s.id]).trans h.look, fun _ => by rw [ht], h.rest, hbetween.effs hm, ?_, ?_⟩
    · rw [ht]
      exact hacc
    · rw [ht]
  | signal =>
    rw [hc] at hfollows
    obtain ⟨hbetween, hacc, hnone⟩ := hfollows
    obtain ⟨ht, hm⟩ := quiet d.hist (e := Eff.event) (fun _ => rfl) rfl
    simp only [chanStep, hc]
    split_ifs
    · exact ⟨h.ofst, h.look, h.idle, h.rest, hbetween.effs rfl, hacc, hnone⟩
    all_goals
      exact ⟨h.ofst, h.look, fun _ => by rw [ht]; exact hnone, h.rest, hbetween.effs hm, by rw [ht]; exact hacc,
        by rw [ht]; exact hnone⟩
  | save p =>
    rw [hc] at hfollows
    obtain ⟨hbetween, hacc, hnone⟩ := hfollows
    obtain ⟨hlook, ht, hm⟩ := saveStep_quiet d.c ok p d.hist
    have hkeep (pc : ChanPc) : Between ⟨(saveStep d.c ok p).1, d.s, pc, d.saver, d.hist ++ (saveStep d.c ok p).2.2⟩ r ∧
        r.acc = (tracked (d.hist ++ (saveStep d.c ok p).2.2)).acc ∧
          (tracked (d.hist ++ (saveStep d.c ok p).2.2)).cur = [] :=
      ⟨hbetween.effs hm, by rw [ht]; exact hacc, by rw [ht]; exact hnone⟩
    simp only [chanStep, hc]
    refine ⟨h.ofst, hlook.trans h.look, fun _ => (hkeep .committed).2.2, h.rest, ?_⟩
    simp only
    cases (saveStep d.c ok p).2.1 with
    | none => exact hkeep _
    | some p' => exact hkeep _
  | committed =>
    rw [hc] at hfollows
    obtain ⟨hbetween, hacc, hnone⟩ := hfollows
    obtain ⟨ht, hm⟩ := quiet d.hist (e := Eff.rsp 1) (fun _ => rfl) rfl
    simp only [chanStep, hc]
    exact sim_anew (d := { d with hist := d.hist ++ [Eff.rsp 1] }) (hbetween.effs hm) h.look (by rw [ht]; exact hacc)
      (by rw [ht]; exact hnone)

/-- a step of either thread -/
theorem reads_step (hb : Booted c0) (cali : Bool) (o : Op) (h : Sim c0 d r)
    (hr : ((deliver d o).foldl (Reader.packet (getCtlId c0)) r).InRange c0) :
    Sim c0 (step cali d o) ((deliver d o).foldl (Reader.packet (getCtlId c0)) r) := by
  cases o with
  | packet p buf =>
    by_cases hc : d.chan = .recv
    · simp only [step, deliver, if_pos hc]
      exact sim_packet h hc p buf
    · simp only [step, deliver, if_neg hc]
      exact h
  | chan ok => exact sim_chan hb cali ok h hr
  | saver ok =>
    simp only [step, saverStep]
    cases hs : d.saver with
    | pass p =>
      obtain ⟨hlook, ht, hm⟩ := saveStep_quiet d.c ok p d.hist
      exact ⟨h.ofst, hlook.trans h.look, fun hhead => by simp only; rw [ht]; exact h.idle hhead, h.rest,
        h.follows.effs rfl ht hm⟩
    | enter => exact ⟨h.ofst, h.look, h.idle, h.rest, h.follows.effs rfl rfl rfl⟩
    | waiting => exact h
  | wake =>
    simp only [step]
    split_ifs
    · exact ⟨h.ofst, h.look, h.idle, h.rest, h.follows.effs rfl rfl rfl⟩
    · exact h

end Steps

/-! ## Runs -/

theorem delivered_snoc (cali : Bool) (d : Daemon) (ops : List Op) (o : Op) :
    delivered cali d (ops ++ [o]) = delivered cali d ops ++ deliver (run cali d ops) o := by
  induction ops generalizing d with
  | nil => simp [delivered, run]
  | cons o' ops ih => simp only [List.cons_append, delivered, ih, run_cons, List.append_assoc]

theorem reading_snoc (c0 : RamNvCtl) (cali : Bool) (ops : List Op) (o : Op) : reading c0 cali (ops ++ [o]) =
    (deliver (run cali (boot c0) ops) o).foldl (Reader.packet (getCtlId c0)) (reading c0 cali ops) := by
  rw [reading, delivered_snoc, List.foldl_append, ← reading]

theorem grows_packets {look : ℕ → ℕ} (ps : List (PacketState × List UInt8)) (r : Reader) :
    Grows r (ps.foldl (Reader.packet look) r) := by
  induction ps generalizing r with
  | nil => exact .refl r
  | cons p ps ih => exact (grows_packet r p).trans (ih _)

theorem sim_boot (c0 : RamNvCtl) : Sim c0 (boot c0) Reader.start :=
  ⟨rfl, rfl, fun _ => rfl, fun _ => rfl, rfl, rfl, rfl, rfl⟩

/-- **The reader and the daemon agree** at every moment of a run -/
theorem reads_run {c0 : RamNvCtl} (hb : Booted c0) (cali : Bool) (ops : List Op) (hr : (reading c0 cali ops).InRange c0) :
    Sim c0 (run cali (boot c0) ops) (reading c0 cali ops) := by
  induction ops using List.reverseRecOn with
  | nil => exact sim_boot c0
  | append_singleton ops o ih =>
    rw [reading_snoc] at hr ⊢
    rw [run_snoc]
    exact reads_step hb cali o (ih (InRange.of_grows hr (grows_packets _ _))) hr

/-- the reader is behind nothing: the requests of the history are the first ones that the packets hold, and the BODYs
that were marked are BODYs of the packets -/
theorem Sim.behind {c0 : RamNvCtl} {d : Daemon} {r : Reader} (h : Sim c0 d r) :
    (∀ id, (tracked d.hist).acc id <+: r.acc id) ∧ marks d.hist <+: r.bodies := by
  have hf := h.follows
  have hgrows {r0 : Reader} (hr : Grows r0 r) (ha : r0.acc = (tracked d.hist).acc) (hb : r0.bodies = marks d.hist) :
      (∀ id, (tracked d.hist).acc id <+: r.acc id) ∧ marks d.hist <+: r.bodies := by
    rw [← ha, ← hb]
    exact ⟨hr.acc, hr.bodies⟩
  have hahead {r0 : Reader} {buf : List UInt8} (hr : r = Reader.feeds (getCtlId c0) r0 buf) : Grows r0 r := by
    rw [hr]
    exact grows_feeds r0 buf
  cases hc : d.chan with
  | recv => rw [hc] at hf; exact hgrows (.refl r) hf.2.acc hf.2.bodies
  | loop buf =>
    rw [hc] at hf
    obtain ⟨-, r0, hr, -, -, ha⟩ := hf
    exact hgrows (hahead hr) ha.acc ha.bodies
  | abort k =>
    rw [hc] at hf
    cases k with
    | parse buf =>
      obtain ⟨r0, hr, -, -, -, -, ha, hb⟩ := hf
      exact hgrows (hahead hr) ha hb
    | reject => exact hgrows (.refl r) hf.2 hf.1.bodies
    | leave => exact hgrows (.refl r) hf.2 hf.1.bodies
  | aborted k =>
    rw [hc] at hf
    cases k with
    | parse buf =>
      obtain ⟨⟨r0, hr, -, -, -, -, ha, hb⟩, -⟩ := hf
      exact hgrows (hahead hr) ha hb
    | reject => exact hgrows (.refl r) hf.2.1 hf.1.bodies
    | leave => exact hgrows (.refl r) hf.2.1 hf.1.bodies
  | commit =>
    rw [hc] at hf
    obtain ⟨hbetween, hacc⟩ := hf
    refine ⟨fun id => ?_, by rw [hbetween.bodies]⟩
    rw [hacc]
    by_cases hid : id = d.s.id
    · subst hid
      simp
    · simp [hid]
  | signal => rw [hc] at hf; exact hgrows (.refl r) hf.2.1 hf.1.bodies
  | save p => rw [hc] at hf; exact hgrows (.refl r) hf.2.1 hf.1.bodies
  | committed => rw [hc] at hf; exact hgrows (.refl r) hf.2.1 hf.1.bodies

/-- **Accepted requests** are the first ones that the packets hold, as many as there were copies to backup -/
theorem acc_eq {c0 : RamNvCtl} (hb : Booted c0) (cali : Bool) (ops : List Op) (hr : (reading c0 cali ops).InRange c0)
    (id : ℕ) : (tracked (run cali (boot c0) ops).hist).acc id =
      ((reading c0 cali ops).acc id).take ((commits (run cali (boot c0) ops).hist).count id) := by
  rw [← length_tracked]
  exact List.prefix_iff_eq_take.1 ((reads_run hb cali ops hr).behind.1 id)

end SprdDevice.NvItem
