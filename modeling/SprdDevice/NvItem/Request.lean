/-
Requests of the NV sync daemon as byte streams: a HEAD token, BODY tokens each followed by the data of its sectors, and
a TAIL token. A token is kept as its 20 bytes, so that the words the analyzer does not read are arbitrary.

`Left` is what of a request is still to be read, and `At c s l` says that the analyzer, in state s, is about to read l.
`receive` is what the BODY tokens and their data do to the buffers, and `acceptRequest` what a whole accepted request
does.

Results:
- `loop_head`, `loop_body`, `loop_tail`, `loop_data`, `loop_data_part`: the loop on one unit of a stream;
- `loop_left`: on a part of a stream that does not end inside a token, the loop either accepts the request or stops at
  the rest of the stream, with nothing lost.
-/
import Mathlib.Tactic
import SprdDevice.NvItem.Sync

namespace SprdDevice.NvItem

open SprdDevice.Memory SprdDevice.Word

/-! ## Streams -/

/-- a BODY token and the data of its sectors -/
structure ReqBody where
  tok : List UInt8
  data : List UInt8
deriving DecidableEq, Repr

def ReqBody.start (b : ReqBody) : ℕ := word b.tok 3

def ReqBody.num (b : ReqBody) : ℕ := word b.tok 4

structure Req where
  head : List UInt8
  bodies : List ReqBody
  tail : List UInt8
deriving DecidableEq, Repr

/-- the index of the partition a request is for -/
def Req.id (r : Req) (c : RamNvCtl) : ℕ := getCtlId c (word r.head 2)

def bodyBytes : List ReqBody → List UInt8 → List UInt8
  | [], tail => tail
  | b :: bs, tail => b.tok ++ (b.data ++ bodyBytes bs tail)

def Req.bytes (r : Req) : List UInt8 := r.head ++ bodyBytes r.bodies r.tail

/-- a BODY after the token with index f: in range, with all its data -/
def ReqBody.Ok (sctNum f : ℕ) (b : ReqBody) : Prop :=
  b.tok.length = 20 ∧ word b.tok 0 = SYNC_REQ_BODY ∧ word b.tok 1 = (f + 1) % 2 ^ 32 ∧ b.start + b.num ≤ sctNum ∧
    b.data.length = b.num * RAMNV_SECT_SIZE

instance (sctNum f : ℕ) (b : ReqBody) : Decidable (b.Ok sctNum f) := by unfold ReqBody.Ok; infer_instance

def restOk (sctNum : ℕ) : ℕ → List ReqBody → List UInt8 → Prop
  | f, [], tail => tail.length = 20 ∧ word tail 0 = SYNC_REQ_TAIL ∧ word tail 1 = (f + 1) % 2 ^ 32
  | f, b :: bs, tail => b.Ok sctNum f ∧ restOk sctNum ((f + 1) % 2 ^ 32) bs tail

instance decidableRestOk (sctNum : ℕ) : (f : ℕ) → (bs : List ReqBody) → (tail : List UInt8) →
    Decidable (restOk sctNum f bs tail)
  | f, [], tail => by unfold restOk; infer_instance
  | f, b :: bs, tail => by
    unfold restOk
    have := decidableRestOk sctNum ((f + 1) % 2 ^ 32) bs tail
    infer_instance

/-- HEAD of a known partition, BODY tokens and TAIL with consecutive indices, sectors in range -/
def Req.WellFormed (c : RamNvCtl) (r : Req) : Prop :=
  r.head.length = 20 ∧ word r.head 0 = SYNC_REQ_HEAD ∧ r.id c ≠ noId ∧
    restOk (c.part (r.id c)).sctNum (word r.head 1) r.bodies r.tail

instance (c : RamNvCtl) (r : Req) : Decidable (r.WellFormed c) := by unfold Req.WellFormed; infer_instance

def receiveBody (id : ℕ) (c : RamNvCtl) (b : ReqBody) : RamNvCtl :=
  writeData (markDirtyInfo c id b.start b.num) id (b.start * RAMNV_SECT_SIZE % 2 ^ 32) b.data

/-- the BODY tokens of a request and their data, into fromChannel -/
def receive (id : ℕ) (c : RamNvCtl) (bs : List ReqBody) : RamNvCtl := bs.foldl (receiveBody id) c

/-- a whole request for partition id, up to and with the copy to backup -/
def acceptRequest (c : RamNvCtl) (id : ℕ) (bs : List ReqBody) : RamNvCtl := backupCopy (receive id c bs) id

/-- one partition of one sector -/
def oneSectorCfg : List RamNvConfig := [⟨1, 512⟩]

def oneSectorBody : ReqBody := ⟨token 1 1 1 0 1, List.replicate 512 7⟩

/-- a request that writes the sector: HEAD, BODY with its data, TAIL -/
def oneSector : Req := ⟨token 0 0 1 512 0, [oneSectorBody], token 2 2 1 0 0⟩

/-- the partitions whose requests were accepted -/
def commits : List Eff → List ℕ := List.filterMap fun
  | .backup id => some id
  | _ => none

@[simp] theorem commits_append (a b : List Eff) : commits (a ++ b) = commits a ++ commits b := by
  simp [commits]

theorem commits_backupData (e : Env) (c : RamNvCtl) (id : ℕ) : commits (backupData e c id).2 = [id] := by
  unfold backupData
  split_ifs
  · simp [commits, List.filterMap_map]
  · rfl

/-! ## The loop on one unit -/

theorem word_append {t : List UInt8} (rest : List UInt8) (ht : t.length = 20) {k : ℕ} (hk : k < 5) :
    word (t ++ rest) k = word t k := by
  have cell : ∀ i < 20, ofList (t ++ rest) i = ofList t i := by
    intro i hi
    simp [ofList, List.getElem?_append_left (show i < t.length by omega)]
  simp only [word, le32, cell (4 * k) (by omega), cell (4 * k + 1) (by omega), cell (4 * k + 2) (by omega),
    cell (4 * k + 3) (by omega)]

section Units

variable (e : Env) (c : RamNvCtl) {s : SyncState} {t : List UInt8} (p : List UInt8)

theorem loop_head (ho : s.ofst = 0) (hs : s.syncState = .head) (ht : t.length = 20) (hw : word t 0 = SYNC_REQ_HEAD)
    (hid : getCtlId c (word t 2) ≠ noId) :
    loop e c s (t ++ p) = (loop e c { s.tok (t ++ p) with
      syncReqFrame := word t 1, id := getCtlId c (word t 2), syncState := .body } p).after [.read 20] := by
  have hl : 20 ≤ (t ++ p).length := by simp [ht]
  have hd : (t ++ p).drop 20 = p := by rw [← ht]; exact List.drop_left
  rw [loop_eq, if_neg (by omega)]
  simp only [syncGet, hs, syncGetHead_full c ho hl, word_append p ht (show 0 < 5 by decide),
    word_append p ht (show 1 < 5 by decide), word_append p ht (show 2 < 5 by decide), hw, hid.symm, hd, ne_eq,
    not_true_eq_false, if_false]
  rfl

theorem loop_body (ho : s.ofst = 0) (hs : s.syncState = .body) (ht : t.length = 20) (hw : word t 0 = SYNC_REQ_BODY)
    (hf : word t 1 = (s.syncReqFrame + 1) % 2 ^ 32) :
    loop e c s (t ++ p) = (loop e (markDirtyInfo c s.id (word t 3) (word t 4)) { s.tok (t ++ p) with
      syncReqFrame := (s.syncReqFrame + 1) % 2 ^ 32, start := word t 3 * RAMNV_SECT_SIZE % 2 ^ 32
      len := word t 4 * RAMNV_SECT_SIZE % 2 ^ 32, syncState := .data } p).after
        [.read 20, .mark s.id (word t 3) (word t 4)] := by
  have hl : 20 ≤ (t ++ p).length := by simp [ht]
  have hd : (t ++ p).drop 20 = p := by rw [← ht]; exact List.drop_left
  rw [loop_eq, if_neg (by omega)]
  simp only [syncGet, hs, syncGetBody_full ho hl, word_append p ht (show 0 < 5 by decide),
    word_append p ht (show 1 < 5 by decide), word_append p ht (show 3 < 5 by decide),
    word_append p ht (show 4 < 5 by decide), hw, hf, hd, ne_eq, not_true_eq_false, if_false, if_true]
  rfl

theorem loop_tail (ho : s.ofst = 0) (hs : s.syncState = .body) (ht : t.length = 20) (hw : word t 0 = SYNC_REQ_TAIL)
    (hf : word t 1 = (s.syncReqFrame + 1) % 2 ^ 32) :
    loop e c s (t ++ p) = ⟨(backupData e c s.id).1, syncInit (s.tok (t ++ p)),
      Eff.read 20 :: (backupData e c s.id).2 ++ [Eff.rsp 1], .tail⟩ := by
  have hl : 20 ≤ (t ++ p).length := by simp [ht]
  have hne : SYNC_REQ_BODY ≠ SYNC_REQ_TAIL := by decide
  rw [loop_eq, if_neg (by omega)]
  simp only [syncGet, hs, syncGetBody_full ho hl, word_append p ht (show 0 < 5 by decide),
    word_append p ht (show 1 < 5 by decide), hw, hf, hne, ne_eq, not_true_eq_false, if_false, if_true]
  rfl

/-- the data of a BODY up to its end -/
theorem loop_data {d : List UInt8} (hs : s.syncState = .data) (hd : s.len = d.length) (h0 : (d ++ p).length ≠ 0) :
    loop e c s (d ++ p) = (loop e (writeData c s.id s.start d) { s with
      start := (s.start + s.len) % 2 ^ 32, len := 0, syncState := .body } p).after
        [.read s.len, .write s.id s.start d] := by
  rw [loop_eq, if_neg h0]
  have hle : s.len ≤ (d ++ p).length := by simp [hd]
  simp only [syncGet, hs, syncGetData, if_pos hle]
  simp only [afterGet, hd, List.drop_left, List.take_left]
  rfl

/-- data of a BODY that ends with the packet -/
theorem loop_data_part (hs : s.syncState = .data) (hd : p.length < s.len) (h0 : p.length ≠ 0) :
    loop e c s p = ⟨writeData c s.id s.start p, { s with
      start := (s.start + p.length) % 2 ^ 32, len := s.len - p.length },
        [.read p.length, .write s.id s.start p, .rsp 1], .data⟩ := by
  rw [loop_eq, if_neg h0]
  simp only [syncGet, hs, syncGetData, if_neg (Nat.not_le.2 hd)]
  simp [afterGet, Eff.exec]

theorem loop_nil : loop e c s [] = ⟨c, s, [], .drained⟩ := by rw [loop_eq]; rfl

end Units

theorem writeData_append (c : RamNvCtl) (id start : ℕ) (a b : List UInt8) :
    writeData (writeData c id start a) id (start + a.length) b = writeData c id start (a ++ b) := by
  simp [writeData_eq, RamNvCtl.modPart, store_append]

/-! ## A stream in pieces -/

/-- what of a request is still to be read; f is the index of the last token -/
inductive Left where
  | head (r : Req)
  | bodies (f : ℕ) (bs : List ReqBody) (tail : List UInt8)
  | data (d : List UInt8) (f : ℕ) (bs : List ReqBody) (tail : List UInt8)

def Left.bytes : Left → List UInt8
  | .head r => r.bytes
  | .bodies _ bs tail => bodyBytes bs tail
  | .data d _ bs tail => d ++ bodyBytes bs tail

/-- where the tokens of the BODYs and of the TAIL begin, from offset o on -/
def bodyStarts : ℕ → List ReqBody → List ℕ
  | o, [] => [o]
  | o, b :: bs => o :: bodyStarts (o + 20 + b.data.length) bs

/-- where the tokens begin in a stream -/
def Req.tokenStarts (r : Req) : List ℕ := 0 :: bodyStarts 20 r.bodies

/-- where the tokens that are left begin, when o bytes of the stream were read -/
def Left.starts (o : ℕ) : Left → List ℕ
  | .head r => o :: bodyStarts (o + 20) r.bodies
  | .bodies _ bs _ => bodyStarts o bs
  | .data d _ bs _ => bodyStarts (o + d.length) bs

/-- offset n falls strictly inside one of the tokens -/
def Inside (starts : List ℕ) (n : ℕ) : Prop := ∃ t ∈ starts, t < n ∧ n < t + 20

instance (starts : List ℕ) (n : ℕ) : Decidable (Inside starts n) := by unfold Inside; infer_instance

def Left.id (c : RamNvCtl) (s : SyncState) : Left → ℕ
  | .head r => r.id c
  | _ => s.id

/-- the buffers once the rest of the request is received -/
def Left.received (c : RamNvCtl) (s : SyncState) : Left → RamNvCtl
  | .head r => receive (r.id c) c r.bodies
  | .bodies _ bs _ => receive s.id c bs
  | .data d _ bs _ => receive s.id (writeData c s.id s.start d) bs

/-- the analyzer is about to read l -/
def At (c : RamNvCtl) (s : SyncState) (l : Left) : Prop :=
  s.ofst = 0 ∧ (c.part (l.id c s)).size < 2 ^ 32 ∧ match l with
  | .head r => s.syncState = .head ∧ r.WellFormed c
  | .bodies f bs tail => s.syncState = .body ∧ s.syncReqFrame = f ∧ restOk (c.part s.id).sctNum f bs tail
  | .data d f bs tail => s.syncState = .data ∧ s.syncReqFrame = f ∧ s.len = d.length ∧
      s.start + d.length ≤ (c.part s.id).size ∧ restOk (c.part s.id).sctNum f bs tail

/-- the packet ended the request: it is accepted -/
structure Accepts (e : Env) (c : RamNvCtl) (s : SyncState) (l : Left) (res : Result) : Prop where
  ctl : res.ctl = (backupData e (l.received c s) (l.id c s)).1
  idle : res.s.syncBusy = false
  commits : commits res.effs = [l.id c s]

/-- the packet ended before the request did: the analyzer waits for exactly the rest q, after n more bytes -/
structure Waits (c : RamNvCtl) (s : SyncState) (l : Left) (n : ℕ) (q : List UInt8) (res : Result) (l' : Left) :
    Prop where
  at' : At res.ctl res.s l'
  bytes : l'.bytes = q
  starts : ∀ o, l'.starts (o + n) ⊆ l.starts o
  received : l'.received res.ctl res.s = l.received c s
  id : l'.id res.ctl res.s = l.id c s
  busy : res.s.syncBusy = s.syncBusy
  commits : NvItem.commits res.effs = []

/-- the loop on the first part p of what is left -/
def ReadsWell (e : Env) (l : Left) : Prop :=
  ∀ c s o p q, At c s l → l.bytes = p ++ q → ¬ Inside (l.starts o) (o + p.length) →
    (q = [] ∧ Accepts e c s l (loop e c s p)) ∨ (q ≠ [] ∧ ∃ l', Waits c s l p.length q (loop e c s p) l')

theorem Accepts.after {e : Env} {c c' : RamNvCtl} {s s' : SyncState} {l l' : Left} {res : Result} {es : List Eff}
    (h : Accepts e c' s' l' res) (hr : l'.received c' s' = l.received c s) (hid : l'.id c' s' = l.id c s)
    (hc : NvItem.commits es = []) : Accepts e c s l (res.after es) := by
  refine ⟨?_, h.idle, ?_⟩
  · rw [← hr, ← hid]; exact h.ctl
  · simpa [Result.after, hc, ← hid] using h.commits

theorem Waits.after {c c' : RamNvCtl} {s s' : SyncState} {l l' l'' : Left} {n m : ℕ} {q : List UInt8} {res : Result}
    {es : List Eff} (h : Waits c' s' l' n q res l'') (hr : l'.received c' s' = l.received c s)
    (hid : l'.id c' s' = l.id c s) (hs : ∀ o, l'.starts (o + m) ⊆ l.starts o) (hb : s'.syncBusy = s.syncBusy)
    (hc : NvItem.commits es = []) : Waits c s l (m + n) q (res.after es) l'' := by
  refine ⟨h.at', h.bytes, fun o => ?_, h.received.trans hr, h.id.trans hid, h.busy.trans hb, ?_⟩
  · rw [← Nat.add_assoc]
    exact List.Subset.trans (h.starts (o + m)) (hs o)
  · simpa [Result.after, hc] using h.commits

theorem Waits.refl {c : RamNvCtl} {s : SyncState} {l : Left} (h : At c s l) (x : Exit) :
    Waits c s l 0 l.bytes ⟨c, s, [], x⟩ l := ⟨h, rfl, fun _ => List.Subset.refl _, rfl, rfl, rfl, rfl⟩

theorem bodyBytes_length {sctNum f : ℕ} {bs : List ReqBody} {tail : List UInt8} (h : restOk sctNum f bs tail) :
    20 ≤ (bodyBytes bs tail).length := by
  cases bs with
  | nil => exact h.1.ge
  | cons b bs => simp only [bodyBytes, List.length_append, h.1.1]; omega

theorem at_bytes {c : RamNvCtl} {s : SyncState} {l : Left} (h : At c s l) : l.bytes ≠ [] := by
  obtain ⟨-, -, h⟩ := h
  apply List.ne_nil_of_length_pos
  cases l with
  | head r => simp only [Left.bytes, Req.bytes, List.length_append, h.2.1]; omega
  | bodies f bs tail => exact lt_of_lt_of_le (by decide) (bodyBytes_length h.2.2)
  | data d f bs tail =>
    have hb := bodyBytes_length h.2.2.2.2
    simp only [Left.bytes, List.length_append]; omega

/-- nothing was received -/
theorem reads_nil {e : Env} {c : RamNvCtl} {s : SyncState} {l : Left} {q : List UInt8} (h : At c s l)
    (hq : l.bytes = [] ++ q) : q ≠ [] ∧ ∃ l', Waits c s l ([] : List UInt8).length q (loop e c s []) l' := by
  rw [List.nil_append] at hq
  subst hq
  rw [loop_nil]
  exact ⟨at_bytes h, l, Waits.refl h _⟩

/-- a piece that does not end inside the first token takes it whole -/
theorem take_token {t rest p q : List UInt8} (ht : t.length = 20) (h : t ++ rest = p ++ q) (hp : 20 ≤ p.length) :
    ∃ p', p = t ++ p' ∧ rest = p' ++ q := by
  rcases List.append_eq_append_iff.1 h with ⟨a, h1, h2⟩ | ⟨a, h1, h2⟩
  · exact ⟨a, h1, h2⟩
  · have hlen : t.length = p.length + a.length := by rw [h1, List.length_append]
    have ha : a = [] := List.length_eq_zero_iff.1 (by omega)
    subst ha
    exact ⟨[], by simpa using h1.symm, by simpa using h2.symm⟩

/-- a piece has all the data, or ends inside it -/
theorem split_data {d rest p q : List UInt8} (h : d ++ rest = p ++ q) :
    (∃ p', p = d ++ p' ∧ rest = p' ++ q) ∨ ∃ d', d = p ++ d' ∧ q = d' ++ rest ∧ d' ≠ [] := by
  rcases List.append_eq_append_iff.1 h with ⟨a, h1, h2⟩ | ⟨a, h1, h2⟩
  · exact Or.inl ⟨a, h1, h2⟩
  · by_cases ha : a = []
    · subst ha
      exact Or.inl ⟨[], by simpa using h1.symm, by simpa using h2.symm⟩
    · exact Or.inr ⟨a, h1, h2, ha⟩

theorem token_whole {starts : List ℕ} {o n : ℕ} (ho : o ∈ starts) (h : ¬ Inside starts (o + n)) (hn : n ≠ 0) :
    20 ≤ n := by
  by_contra hlt
  exact h ⟨o, ho, by omega, by omega⟩

theorem tail_reads (e : Env) (f : ℕ) (tail : List UInt8) : ReadsWell e (.bodies f [] tail) := by
  intro c s o p q hat hb hin
  by_cases hp : p = []
  · subst hp; exact Or.inr (reads_nil hat hb)
  · obtain ⟨hofst, -, hs, rfl, hlen, htype, hidx⟩ := hat
    have hp20 : 20 ≤ p.length := token_whole (by simp [Left.starts, bodyStarts]) hin (by simpa using hp)
    obtain ⟨p', rfl, hrest⟩ := take_token hlen ((List.append_nil tail).trans hb) hp20
    obtain ⟨rfl, rfl⟩ : p' = [] ∧ q = [] := by simpa using hrest.symm
    refine Or.inl ⟨rfl, ?_⟩
    rw [loop_tail e c [] hofst hs hlen htype hidx]
    refine ⟨rfl, rfl, ?_⟩
    have hc := commits_backupData e c s.id
    simp only [List.cons_append, commits, List.filterMap_cons, List.filterMap_append] at hc ⊢
    rw [hc]; rfl

theorem data_reads {e : Env} {d : List UInt8} {f : ℕ} {bs : List ReqBody} {tail : List UInt8}
    (ih : ReadsWell e (.bodies f bs tail)) : ReadsWell e (.data d f bs tail) := by
  intro c s o p q hat hb hin
  by_cases hp : p = []
  · subst hp; exact Or.inr (reads_nil hat hb)
  obtain ⟨hofst, hsz, hs, hf, hlen, hrng, hok⟩ := hat
  simp only [Left.id] at hsz
  simp only [Left.bytes] at hb
  rcases split_data hb with ⟨p', rfl, hrest⟩ | ⟨d', rfl, hrest, hd⟩
  · -- the piece has all the data: the rest of it is read from the next token on
    have h0 : (d ++ p').length ≠ 0 := by simpa using hp
    rw [loop_data e c p' hs hlen h0]
    have hat' : At (writeData c s.id s.start d)
        { s with start := (s.start + s.len) % 2 ^ 32, len := 0, syncState := .body } (.bodies f bs tail) :=
      ⟨hofst, by simpa [Left.id, PartCtrl.size] using hsz, rfl, hf, by simpa using hok⟩
    have hin' : ¬ Inside (Left.starts (o + d.length) (.bodies f bs tail)) (o + d.length + p'.length) := by
      simpa [Left.starts, Nat.add_assoc] using hin
    rcases ih _ _ _ p' q hat' hrest hin' with ⟨hq, ha⟩ | ⟨hq, l', hw⟩
    · exact Or.inl ⟨hq, ha.after rfl rfl rfl⟩
    · refine Or.inr ⟨hq, l', ?_⟩
      rw [List.length_append]
      exact hw.after rfl rfl (fun o => List.Subset.refl _) rfl rfl
  · -- the piece ends inside the data
    have hlt : p.length < s.len := by
      have : 0 < d'.length := List.length_pos_iff.2 hd
      rw [hlen, List.length_append]; omega
    rw [loop_data_part e c p hs hlt (by simpa using hp)]
    have hmod : (s.start + p.length) % 2 ^ 32 = s.start + p.length := by
      simp only [List.length_append] at hrng
      exact Nat.mod_eq_of_lt (by omega)
    simp only [List.length_append] at hlen hrng
    refine Or.inr ⟨by simp [hrest, hd], .data d' f bs tail, ⟨⟨hofst, ?_, hs, hf, ?_, ?_, ?_⟩, hrest.symm, ?_, ?_, rfl,
      rfl, rfl⟩⟩
    · simpa [Left.id, PartCtrl.size] using hsz
    · simp only; omega
    · simp only [hmod, PartCtrl.size, writeData_sctNum] at hrng ⊢; omega
    · simpa using hok
    · intro o; simp [Left.starts, Nat.add_assoc]
    · simp only [Left.received, hmod, writeData_append]

theorem bodies_reads (e : Env) (f : ℕ) (bs : List ReqBody) (tail : List UInt8) : ReadsWell e (.bodies f bs tail) := by
  induction bs generalizing f with
  | nil => exact tail_reads e f tail
  | cons b bs ih =>
    intro c s o p q hat hb hin
    by_cases hp : p = []
    · subst hp; exact Or.inr (reads_nil hat hb)
    obtain ⟨hofst, hsz, hs, rfl, ⟨hlen, htype, hidx, hrng, hdata⟩, hok⟩ := hat
    simp only [Left.id] at hsz
    have hp20 : 20 ≤ p.length := token_whole (by simp [Left.starts, bodyStarts]) hin (by simpa using hp)
    obtain ⟨p', rfl, hrest⟩ := take_token hlen hb hp20
    rw [loop_body e c p' hofst hs hlen htype hidx]
    have hsmall : b.start * RAMNV_SECT_SIZE + b.num * RAMNV_SECT_SIZE ≤ (c.part s.id).size := by
      calc b.start * RAMNV_SECT_SIZE + b.num * RAMNV_SECT_SIZE = (b.start + b.num) * RAMNV_SECT_SIZE := by ring
        _ ≤ (c.part s.id).sctNum * RAMNV_SECT_SIZE := Nat.mul_le_mul_right _ hrng
        _ = (c.part s.id).size := Nat.mul_comm _ _
    have hstart : b.start * RAMNV_SECT_SIZE % 2 ^ 32 = b.start * RAMNV_SECT_SIZE := Nat.mod_eq_of_lt (by omega)
    have hnum : b.num * RAMNV_SECT_SIZE % 2 ^ 32 = b.num * RAMNV_SECT_SIZE := Nat.mod_eq_of_lt (by omega)
    change (_ ∧ Accepts e c s _ (Result.after _ (loop e (markDirtyInfo c s.id b.start b.num) { s.tok _ with
      syncReqFrame := _, start := b.start * RAMNV_SECT_SIZE % 2 ^ 32, len := b.num * RAMNV_SECT_SIZE % 2 ^ 32
      syncState := .data } p'))) ∨ _
    have hat' : At (markDirtyInfo c s.id b.start b.num) { s.tok (b.tok ++ p') with
        syncReqFrame := (s.syncReqFrame + 1) % 2 ^ 32, start := b.start * RAMNV_SECT_SIZE % 2 ^ 32
        len := b.num * RAMNV_SECT_SIZE % 2 ^ 32, syncState := .data }
        (.data b.data ((s.syncReqFrame + 1) % 2 ^ 32) bs tail) := by
      refine ⟨rfl, ?_, rfl, rfl, hnum.trans hdata.symm, ?_, ?_⟩
      · simpa [Left.id, PartCtrl.size, SyncState.tok] using hsz
      · simp only [PartCtrl.size, SyncState.tok, hstart, hdata, markDirtyInfo_sctNum] at hsmall ⊢
        exact hsmall
      · simpa [SyncState.tok] using hok
    have hin' : ¬ Inside (Left.starts (o + 20) (.data b.data ((s.syncReqFrame + 1) % 2 ^ 32) bs tail))
        (o + 20 + p'.length) := by
      rintro ⟨t, ht, h1, h2⟩
      refine hin ⟨t, List.mem_cons_of_mem _ ht, ?_, ?_⟩ <;> simp only [List.length_append, hlen] <;> omega
    rcases data_reads (ih _) _ _ _ p' q hat' hrest hin' with ⟨hq, ha⟩ | ⟨hq, l', hw⟩
    · exact Or.inl ⟨hq, ha.after rfl rfl rfl⟩
    · refine Or.inr ⟨hq, l', ?_⟩
      rw [List.length_append, hlen]
      exact hw.after rfl rfl (fun o => List.subset_cons_self _ _) rfl rfl

theorem head_reads (e : Env) (r : Req) : ReadsWell e (.head r) := by
  intro c s o p q hat hb hin
  by_cases hp : p = []
  · subst hp; exact Or.inr (reads_nil hat hb)
  obtain ⟨hofst, hsz, hs, hlen, htype, hid, hok⟩ := hat
  have hp20 : 20 ≤ p.length := token_whole (by simp [Left.starts]) hin (by simpa using hp)
  obtain ⟨p', rfl, hrest⟩ := take_token hlen hb hp20
  rw [loop_head e c p' hofst hs hlen htype hid]
  have hat' : At c { s.tok (r.head ++ p') with
      syncReqFrame := word r.head 1, id := getCtlId c (word r.head 2), syncState := .body }
      (.bodies (word r.head 1) r.bodies r.tail) := ⟨rfl, hsz, rfl, rfl, hok⟩
  have hin' : ¬ Inside (Left.starts (o + 20) (.bodies (word r.head 1) r.bodies r.tail)) (o + 20 + p'.length) := by
    rintro ⟨t, ht, h1, h2⟩
    refine hin ⟨t, List.mem_cons_of_mem _ ht, ?_, ?_⟩ <;> simp only [List.length_append, hlen] <;> omega
  rcases bodies_reads e _ _ _ _ _ _ p' q hat' hrest hin' with ⟨hq, ha⟩ | ⟨hq, l', hw⟩
  · exact Or.inl ⟨hq, ha.after rfl rfl rfl⟩
  · refine Or.inr ⟨hq, l', ?_⟩
    rw [List.length_append, hlen]
    exact hw.after rfl rfl (fun o => List.subset_cons_self _ _) rfl rfl

/-- **A piece of a stream**: the loop on a piece that does not end inside a token accepts the request when the stream
ends there, and otherwise waits for exactly the rest -/
theorem loop_left (e : Env) (l : Left) : ReadsWell e l := by
  cases l with
  | head r => exact head_reads e r
  | bodies f bs tail => exact bodies_reads e f bs tail
  | data d f bs tail => exact data_reads (bodies_reads e f bs tail)

end SprdDevice.NvItem
