/-
The request analyzer of the NV sync daemon (`nvitem_sync.c`), for one packet at a time.

A request is a HEAD token, BODY tokens each followed by the data of its sectors, and a TAIL token; a token is 20 bytes
(`SYNC_REQ`). `syncAnalyzer` runs a `while` loop over the bytes of a packet. Each turn calls `_syncGetHead`,
`_syncGetBody` or `_syncGetData` by the value of `_syncState`, and the parse goes on in the next packet from the saved
globals (`SyncState`).

Model: the packet is the list of the bytes that are left (the pointer `*buf` and the count `*size`). A step returns what
it does besides its new globals as a list of effects, in order: bytes taken from the packet, `_markDirtyInfo`,
`writeData`, the mutex sections, `giveEvent`, `ramDisk_Write` and responses. `Eff.exec` is the meaning of an effect on
the buffers. `__getToken` is kept as the source has it: `syncReqBuf` is an array of pointers, so `syncReqBuf+_ofst` is 4
bytes per unit, and a token that is not complete in the packet is neither taken nor saved.

Results:
- `syncGet_turn`: the nine ways a turn of the loop can go, in terms of the packet's bytes;
- `syncLoop_fuel`, `loop_eq`: the loop ends on every packet and satisfies its own equation;
- `onPacket_ofst`: `_ofst` stays 0 over every packet.
-/
import Mathlib.Tactic
import SprdDevice.Lib.Word
import SprdDevice.NvItem.Buf

namespace SprdDevice.NvItem

open SprdDevice.Memory SprdDevice.Word

/-! ## Model -/

/-- `_syncState`: 0 head, 1 body and tail, 2 data -/
inductive Phase where
  | head
  | body
  | data
deriving DecidableEq, Repr

/-- SYNC_CONTINUE, SYNC_NEXT, SYNC_DONE, SYNC_FAIL -/
inductive SyncRet where
  | cont
  | next
  | done
  | fail
deriving DecidableEq, Repr

/-- _PACKET_START, _PACKET_CONTINUE, _PACKET_SKIP, _PACKET_FAIL -/
inductive PacketState where
  | start
  | cont
  | skip
  | fail
deriving DecidableEq, Repr

/-- the globals of the module -/
structure SyncState where
  syncState : Phase
  syncBusy : Bool
  syncReqFrame : ℕ
  syncReqBuf : ℕ → UInt8
  ofst : ℕ
  id : ℕ
  start : ℕ
  len : ℕ

inductive Eff where
  /-- the next n bytes of the packet are read -/
  | read (n : ℕ)
  | mark (id start scts : ℕ)
  | write (id start : ℕ) (buf : List UInt8)
  /-- the mutex section of `backupData` -/
  | backup (id : ℕ)
  | restore (id : ℕ)
  /-- `giveEvent` -/
  | event
  /-- `ramDisk_Write` with the image and its result -/
  | disk (id : ℕ) (image : List UInt8) (ok : Bool)
  /-- `_sendPacktRsp` -/
  | rsp (r : ℕ)
deriving DecidableEq, Repr

def Eff.exec (c : RamNvCtl) : Eff → RamNvCtl
  | .mark id start scts => markDirtyInfo c id start scts
  | .write id start buf => writeData c id start buf
  | .backup id => backupCopy c id
  | .restore id => restoreData c id
  | _ => c

/-- what a call of `_syncGetHead`, `_syncGetBody` or `_syncGetData` returns and does -/
structure Got where
  ret : SyncRet
  s : SyncState
  buf : List UInt8
  effs : List Eff

def SYNC_REQ_HEAD : ℕ := 0

def SYNC_REQ_BODY : ℕ := 1

def SYNC_REQ_TAIL : ℕ := 2

/-- `sizeof(SYNC_REQ)` -/
def sizeofReq : ℕ := 20

def syncInit (s : SyncState) : SyncState := ⟨.head, false, 0, s.syncReqBuf, 0, noId, 0, 0⟩

/-- `sizeof(SYNC_REQ)-_ofst`, unsigned -/
def need (s : SyncState) : ℕ := (2 ^ 32 + sizeofReq - s.ofst) % 2 ^ 32

def getToken (s : SyncState) (buf : List UInt8) : Bool × SyncState × List UInt8 :=
  if need s > buf.length then
    if buf.length ≠ 0 then (false, s, buf)
    else (false, { s with syncReqBuf := store s.syncReqBuf (4 * s.ofst) buf, ofst := s.ofst + buf.length }, [])
  else if need s = 0 then (true, { s with ofst := 0 }, buf)
  else (true, { s with syncReqBuf := store s.syncReqBuf (4 * s.ofst) (buf.take (need s)), ofst := 0 },
    buf.drop (need s))

/-- word k of the token in `syncReqBuf`: packet_type, reqIdx, partId, then sctSize or start, num -/
def reqWord (s : SyncState) (k : ℕ) : ℕ := le32 s.syncReqBuf (4 * k)

def syncGetHead (c : RamNvCtl) (s : SyncState) (buf : List UInt8) : Got :=
  match getToken s buf with
  | (false, s, rest) => ⟨.cont, s, rest, []⟩
  | (true, s, rest) =>
    let took := [Eff.read (buf.length - rest.length)]
    if SYNC_REQ_HEAD ≠ reqWord s 0 then ⟨.fail, s, rest, took⟩
    else
      let s := { s with syncReqFrame := reqWord s 1, id := getCtlId c (reqWord s 2) }
      if noId = s.id then ⟨.fail, s, rest, took⟩ else ⟨.next, s, rest, took⟩

def syncGetBody (s : SyncState) (buf : List UInt8) : Got :=
  match getToken s buf with
  | (false, s, rest) => ⟨.cont, s, rest, []⟩
  | (true, s, rest) =>
    let took := Eff.read (buf.length - rest.length)
    if SYNC_REQ_BODY = reqWord s 0 then
      if (s.syncReqFrame + 1) % 2 ^ 32 ≠ reqWord s 1 then ⟨.fail, s, rest, [took]⟩
      else
        ⟨.next, { s with syncReqFrame := (s.syncReqFrame + 1) % 2 ^ 32
                         start := reqWord s 3 * RAMNV_SECT_SIZE % 2 ^ 32
                         len := reqWord s 4 * RAMNV_SECT_SIZE % 2 ^ 32 },
          rest, [took, .mark s.id (reqWord s 3) (reqWord s 4)]⟩
    else if SYNC_REQ_TAIL = reqWord s 0 then
      if (s.syncReqFrame + 1) % 2 ^ 32 ≠ reqWord s 1 then ⟨.fail, s, rest, [took]⟩
      else ⟨.done, { s with syncReqFrame := (s.syncReqFrame + 1) % 2 ^ 32 }, rest, [took]⟩
    else ⟨.fail, s, rest, [took]⟩

def syncGetData (s : SyncState) (buf : List UInt8) : Got :=
  if s.len ≤ buf.length then
    ⟨.next, { s with start := (s.start + s.len) % 2 ^ 32, len := 0 }, buf.drop s.len,
      [.read s.len, .write s.id s.start (buf.take s.len)]⟩
  else
    ⟨.cont, { s with start := (s.start + buf.length) % 2 ^ 32, len := s.len - buf.length }, [],
      [.read buf.length, .write s.id s.start buf]⟩

def syncGet (c : RamNvCtl) (s : SyncState) (buf : List UInt8) : Got :=
  match s.syncState with
  | .head => syncGetHead c s buf
  | .body => syncGetBody s buf
  | .data => syncGetData s buf

/-- the state after SYNC_NEXT -/
def Phase.next : Phase → Phase
  | .head => .body
  | .body => .data
  | .data => .body

/-- `_syncState = p` -/
def SyncState.goto (s : SyncState) (p : Phase) : SyncState := { s with syncState := p }

/-- the mode of the daemon: in calibration mode a commit saves in the channel thread; `wr` are the results of
`ramDisk_Write` there -/
structure Env where
  is_cali_mode : Bool
  wr : ℕ → Bool

/-- `backupData` always returns 1 -/
def backupData (e : Env) (c : RamNvCtl) (id : ℕ) : RamNvCtl × List Eff :=
  if e.is_cali_mode then
    let r := saveToDisk e.wr (backupCopy c id)
    (r.1, .backup id :: r.2.map fun x => .disk x.1 x.2 (e.wr x.1))
  else (backupCopy c id, [.backup id, .event])

def syncReset (e : Env) (ifSuc : Bool) (c : RamNvCtl) (s : SyncState) : RamNvCtl × SyncState × List Eff :=
  if ifSuc then
    let r := backupData e c s.id
    (r.1, syncInit s, r.2)
  else if s.syncState ≠ .head then (restoreData c s.id, syncInit s, [.restore s.id])
  else (c, syncInit s, [])

/-- how the analyzer leaves a packet: the `while` condition, SYNC_CONTINUE on a token or on data, SYNC_DONE, SYNC_FAIL,
no request for a _PACKET_CONTINUE, _PACKET_SKIP, _PACKET_FAIL -/
inductive Exit where
  | drained
  | token
  | data
  | tail
  | fail
  | noHead
  | skipped
  | closed
deriving DecidableEq, Repr

structure Result where
  ctl : RamNvCtl
  s : SyncState
  effs : List Eff
  exit : Exit

def Result.after (effs : List Eff) (r : Result) : Result := { r with effs := effs ++ r.effs }

/-- the rest of a turn after `_syncGetHead`, `_syncGetBody` or `_syncGetData` was called in state p; `k` is the next
turn -/
def afterGet (e : Env) (k : RamNvCtl → SyncState → List UInt8 → Result) (c : RamNvCtl) (p : Phase) (g : Got) : Result :=
  let c := g.effs.foldl Eff.exec c
  match g.ret with
  | .fail =>
    let r := syncReset e false c g.s
    ⟨r.1, r.2.1, g.effs ++ r.2.2 ++ [Eff.rsp 0], .fail⟩
  | .next => (k c (g.s.goto p.next) g.buf).after g.effs
  | .cont => ⟨c, g.s, g.effs ++ [Eff.rsp 1], if p = .data then .data else .token⟩
  | .done =>
    let r := syncReset e true c g.s
    ⟨r.1, r.2.1, g.effs ++ r.2.2 ++ [Eff.rsp 1], .tail⟩

/-- the `while(0 != size)` loop; the fuel does not run out (`syncLoop_fuel`) -/
def syncLoop (e : Env) : ℕ → RamNvCtl → SyncState → List UInt8 → Result
  | 0, c, s, _ => ⟨c, s, [], .drained⟩
  | n + 1, c, s, buf =>
    if buf.length = 0 then ⟨c, s, [], .drained⟩ else afterGet e (syncLoop e n) c s.syncState (syncGet c s buf)

/-- the loop with enough fuel for its packet -/
def loop (e : Env) (c : RamNvCtl) (s : SyncState) (buf : List UInt8) : Result := syncLoop e (2 * buf.length + 5) c s buf

/-- one turn of the outer loop of `syncAnalyzer`, from the return of `_getPacket` on -/
def onPacket (e : Env) (c : RamNvCtl) (s : SyncState) (packetState : PacketState) (buf : List UInt8) : Result :=
  match packetState with
  | .fail =>
    let r := syncReset e false c s
    ⟨r.1, r.2.1, r.2.2, .closed⟩
  | .start =>
    if s.syncBusy then
      let r := syncReset e false c s
      (loop e r.1 { r.2.1 with syncBusy := true } buf).after r.2.2
    else loop e c { s with syncBusy := true } buf
  | .cont =>
    if ¬ s.syncBusy then ⟨c, s, [.rsp 0], .noHead⟩
    else loop e c { s with syncBusy := true } buf
  | .skip => ⟨c, s, [], .skipped⟩

/-- the packets of one connection, one after the other -/
def onPackets (e : Env) (c : RamNvCtl) (s : SyncState) :
    List (PacketState × List UInt8) → RamNvCtl × SyncState × List Eff
  | [] => (c, s, [])
  | p :: ps =>
    let r := onPacket e c s p.1 p.2
    let rest := onPackets e r.ctl r.s ps
    (rest.1, rest.2.1, r.effs ++ rest.2.2)

/-! ## Tokens -/

/-- word k of the token at the front of the packet -/
def word (buf : List UInt8) (k : ℕ) : ℕ := le32 (ofList buf) (4 * k)

/-- the 20 bytes of a token: packet_type, reqIdx, partId, then sctSize or start, num -/
def token (packet_type reqIdx partId w3 w4 : ℕ) : List UInt8 :=
  le32Bytes packet_type ++ le32Bytes reqIdx ++ le32Bytes partId ++ le32Bytes w3 ++ le32Bytes w4

theorem need_zero {s : SyncState} (h : s.ofst = 0) : need s = 20 := by simp [need, h, sizeofReq]

/-- the globals after a complete token was taken -/
def SyncState.tok (s : SyncState) (buf : List UInt8) : SyncState :=
  { s with syncReqBuf := store s.syncReqBuf 0 (buf.take 20), ofst := 0 }

theorem getToken_full {s : SyncState} {buf : List UInt8} (h : s.ofst = 0) (hl : 20 ≤ buf.length) :
    getToken s buf = (true, s.tok buf, buf.drop 20) := by
  simp [getToken, SyncState.tok, need_zero h, h, Nat.not_lt.2 hl]

theorem getToken_short {s : SyncState} {buf : List UInt8} (h : s.ofst = 0) (hl : buf.length < 20)
    (h0 : buf.length ≠ 0) : getToken s buf = (false, s, buf) := by
  simp [getToken, need_zero h, hl, h0]

theorem reqWord_tok (s : SyncState) {buf : List UInt8} (hl : 20 ≤ buf.length) {k : ℕ} (hk : k < 5) :
    reqWord (s.tok buf) k = word buf k := by
  have cell : ∀ i < 20, store s.syncReqBuf 0 (buf.take 20) i = ofList buf i := by
    intro i hi
    rw [store_zero_get _ _ (by simp; omega), ofList_get (by omega), List.getElem_take]
  simp only [reqWord, word, SyncState.tok, le32, cell (4 * k) (by omega), cell (4 * k + 1) (by omega),
    cell (4 * k + 2) (by omega), cell (4 * k + 3) (by omega)]

/-- a token that the packet does not complete is left in place -/
theorem syncGet_short (c : RamNvCtl) {s : SyncState} {buf : List UInt8} (h : s.ofst = 0) (hp : s.syncState ≠ .data)
    (hl : buf.length < 20) (h0 : buf.length ≠ 0) : syncGet c s buf = ⟨.cont, s, buf, []⟩ := by
  unfold syncGet
  cases hs : s.syncState with
  | head => simp [syncGetHead, getToken_short h hl h0]
  | body => simp [syncGetBody, getToken_short h hl h0]
  | data => exact absurd hs hp

/-- `_syncGetHead` on a complete token -/
theorem syncGetHead_full (c : RamNvCtl) {s : SyncState} {buf : List UInt8} (h : s.ofst = 0) (hl : 20 ≤ buf.length) :
    syncGetHead c s buf =
      if SYNC_REQ_HEAD ≠ word buf 0 then ⟨.fail, s.tok buf, buf.drop 20, [.read 20]⟩
      else if noId = getCtlId c (word buf 2) then
        ⟨.fail, { s.tok buf with syncReqFrame := word buf 1, id := getCtlId c (word buf 2) }, buf.drop 20, [.read 20]⟩
      else
        ⟨.next, { s.tok buf with syncReqFrame := word buf 1, id := getCtlId c (word buf 2) }, buf.drop 20,
          [.read 20]⟩ := by
  have h20 : buf.length - (buf.length - 20) = 20 := by omega
  simp only [syncGetHead, getToken_full h hl, reqWord_tok s hl (show 0 < 5 by decide),
    reqWord_tok s hl (show 1 < 5 by decide), reqWord_tok s hl (show 2 < 5 by decide), List.length_drop, h20]

/-- `_syncGetBody` on a complete token -/
theorem syncGetBody_full {s : SyncState} {buf : List UInt8} (h : s.ofst = 0) (hl : 20 ≤ buf.length) :
    syncGetBody s buf =
      if SYNC_REQ_BODY = word buf 0 then
        if (s.syncReqFrame + 1) % 2 ^ 32 ≠ word buf 1 then ⟨.fail, s.tok buf, buf.drop 20, [.read 20]⟩
        else
          ⟨.next, { s.tok buf with syncReqFrame := (s.syncReqFrame + 1) % 2 ^ 32
                                   start := word buf 3 * RAMNV_SECT_SIZE % 2 ^ 32
                                   len := word buf 4 * RAMNV_SECT_SIZE % 2 ^ 32 },
            buf.drop 20, [.read 20, .mark s.id (word buf 3) (word buf 4)]⟩
      else if SYNC_REQ_TAIL = word buf 0 then
        if (s.syncReqFrame + 1) % 2 ^ 32 ≠ word buf 1 then ⟨.fail, s.tok buf, buf.drop 20, [.read 20]⟩
        else ⟨.done, { s.tok buf with syncReqFrame := (s.syncReqFrame + 1) % 2 ^ 32 }, buf.drop 20, [.read 20]⟩
      else ⟨.fail, s.tok buf, buf.drop 20, [.read 20]⟩ := by
  have h20 : buf.length - (buf.length - 20) = 20 := by omega
  simp only [syncGetBody, getToken_full h hl, reqWord_tok s hl (show 0 < 5 by decide),
    reqWord_tok s hl (show 1 < 5 by decide), reqWord_tok s hl (show 3 < 5 by decide),
    reqWord_tok s hl (show 4 < 5 by decide), List.length_drop, h20]
  rfl

/-- the ways a turn of the loop can go, with `_ofst` 0 -/
inductive Turn (c : RamNvCtl) (s : SyncState) (buf : List UInt8) : Got → Prop where
  | short (hp : s.syncState ≠ .data) (hl : buf.length < 20) : Turn c s buf ⟨.cont, s, buf, []⟩
  | headBad (hp : s.syncState = .head) (hl : 20 ≤ buf.length) (ht : SYNC_REQ_HEAD ≠ word buf 0) :
      Turn c s buf ⟨.fail, s.tok buf, buf.drop 20, [.read 20]⟩
  | headUnknown (hp : s.syncState = .head) (hl : 20 ≤ buf.length) (ht : SYNC_REQ_HEAD = word buf 0)
      (hid : getCtlId c (word buf 2) = noId) :
      Turn c s buf ⟨.fail, { s.tok buf with syncReqFrame := word buf 1, id := getCtlId c (word buf 2) }, buf.drop 20,
        [.read 20]⟩
  | headNext (hp : s.syncState = .head) (hl : 20 ≤ buf.length) (ht : SYNC_REQ_HEAD = word buf 0)
      (hid : getCtlId c (word buf 2) ≠ noId) :
      Turn c s buf ⟨.next, { s.tok buf with syncReqFrame := word buf 1, id := getCtlId c (word buf 2) }, buf.drop 20,
        [.read 20]⟩
  | bodyBad (hp : s.syncState = .body) (hl : 20 ≤ buf.length)
      (ht : ¬ ((SYNC_REQ_BODY = word buf 0 ∨ SYNC_REQ_TAIL = word buf 0) ∧
        (s.syncReqFrame + 1) % 2 ^ 32 = word buf 1)) :
      Turn c s buf ⟨.fail, s.tok buf, buf.drop 20, [.read 20]⟩
  | bodyNext (hp : s.syncState = .body) (hl : 20 ≤ buf.length) (ht : SYNC_REQ_BODY = word buf 0)
      (hf : (s.syncReqFrame + 1) % 2 ^ 32 = word buf 1) :
      Turn c s buf ⟨.next, { s.tok buf with syncReqFrame := (s.syncReqFrame + 1) % 2 ^ 32
                                            start := word buf 3 * RAMNV_SECT_SIZE % 2 ^ 32
                                            len := word buf 4 * RAMNV_SECT_SIZE % 2 ^ 32 },
        buf.drop 20, [.read 20, .mark s.id (word buf 3) (word buf 4)]⟩
  | tail (hp : s.syncState = .body) (hl : 20 ≤ buf.length) (ht : SYNC_REQ_TAIL = word buf 0)
      (hf : (s.syncReqFrame + 1) % 2 ^ 32 = word buf 1) :
      Turn c s buf ⟨.done, { s.tok buf with syncReqFrame := (s.syncReqFrame + 1) % 2 ^ 32 }, buf.drop 20, [.read 20]⟩
  | dataNext (hp : s.syncState = .data) (hl : s.len ≤ buf.length) :
      Turn c s buf ⟨.next, { s with start := (s.start + s.len) % 2 ^ 32, len := 0 }, buf.drop s.len,
        [.read s.len, .write s.id s.start (buf.take s.len)]⟩
  | dataCont (hp : s.syncState = .data) (hl : buf.length < s.len) :
      Turn c s buf ⟨.cont, { s with start := (s.start + buf.length) % 2 ^ 32, len := s.len - buf.length }, [],
        [.read buf.length, .write s.id s.start buf]⟩

theorem syncGetData_turn (c : RamNvCtl) {s : SyncState} (buf : List UInt8) (hs : s.syncState = .data) :
    Turn c s buf (syncGetData s buf) := by
  unfold syncGetData
  split_ifs with h1
  · exact .dataNext hs h1
  · exact .dataCont hs (Nat.lt_of_not_le h1)

/-- **One turn of the loop**: `_syncGetHead`, `_syncGetBody` or `_syncGetData` goes one of these ways -/
theorem syncGet_turn (c : RamNvCtl) {s : SyncState} {buf : List UInt8} (h : s.ofst = 0) (h0 : buf.length ≠ 0) :
    Turn c s buf (syncGet c s buf) := by
  by_cases hl : 20 ≤ buf.length
  · unfold syncGet
    cases hs : s.syncState with
    | head =>
      simp only [syncGetHead_full c h hl]
      split_ifs with h1 h2
      · exact .headBad hs hl h1
      · exact .headUnknown hs hl (not_not.1 h1) h2.symm
      · exact .headNext hs hl (not_not.1 h1) fun he => h2 he.symm
    | body =>
      simp only [syncGetBody_full h hl]
      split_ifs with h1 h2 h2 h3
      · exact .bodyBad hs hl fun hb => h2 hb.2
      · exact .bodyNext hs hl h1 (not_not.1 h2)
      · exact .bodyBad hs hl fun hb => h3 hb.2
      · exact .tail hs hl h2 (not_not.1 h3)
      · exact .bodyBad hs hl fun hb => hb.1.elim h1 h2
    | data => exact syncGetData_turn c buf hs
  · by_cases hs : s.syncState = .data
    · have hd : syncGet c s buf = syncGetData s buf := by simp [syncGet, hs]
      rw [hd]
      exact syncGetData_turn c buf hs
    · rw [syncGet_short c h hs (Nat.lt_of_not_le hl) h0]
      exact .short hs (Nat.lt_of_not_le hl)

/-! ## The loop ends -/

/-- the turns the loop can still make: a NEXT on a token takes bytes of the packet, a NEXT on data leaves the data
state -/
def turns (s : SyncState) (buf : List UInt8) : ℕ :=
  2 * buf.length + (if s.syncState = .data then 1 else 0) + (if s.ofst = 0 then 0 else 3)

theorem getToken_true {s s' : SyncState} {buf rest : List UInt8} (h : getToken s buf = (true, s', rest)) :
    s'.ofst = 0 ∧ s'.syncState = s.syncState ∧ rest.length ≤ buf.length ∧
      (s.ofst = 0 → rest.length + 20 ≤ buf.length) := by
  unfold getToken at h
  split_ifs at h with h1 h2 h3
  · simp at h
  · simp at h
  · simp only [Prod.mk.injEq, true_and] at h
    obtain ⟨rfl, rfl⟩ := h
    refine ⟨rfl, rfl, le_rfl, fun h0 => ?_⟩
    rw [need_zero h0] at h3; omega
  · simp only [Prod.mk.injEq, true_and] at h
    obtain ⟨rfl, rfl⟩ := h
    refine ⟨rfl, rfl, by simp, fun h0 => ?_⟩
    rw [need_zero h0] at h1 ⊢; simp; omega

theorem getToken_ofst {s : SyncState} {buf : List UInt8} (h : s.ofst = 0) : (getToken s buf).2.1.ofst = 0 := by
  unfold getToken
  split_ifs with h1 h2 h3
  · exact h
  · have : buf.length = 0 := by omega
    simp [h, this]
  · rfl
  · rfl

theorem turns_next {c : RamNvCtl} {s : SyncState} {buf : List UInt8} (h : (syncGet c s buf).ret = .next) :
    turns ((syncGet c s buf).s.goto s.syncState.next) (syncGet c s buf).buf < turns s buf := by
  unfold syncGet at h ⊢
  cases hs : s.syncState with
  | head =>
    simp only [hs, syncGetHead] at h ⊢
    rcases ht : getToken s buf with ⟨ok, s', rest⟩
    cases ok with
    | false => simp [ht] at h
    | true =>
      obtain ⟨h1, -, h3, h4⟩ := getToken_true ht
      simp only [ht] at h ⊢
      split_ifs at h ⊢ with ha hb
      simp only [turns, SyncState.goto, Phase.next, hs, h1]
      by_cases h0 : s.ofst = 0
      · have := h4 h0; simp [h0]; omega
      · simp [h0]; omega
  | body =>
    simp only [hs, syncGetBody] at h ⊢
    rcases ht : getToken s buf with ⟨ok, s', rest⟩
    cases ok with
    | false => simp [ht] at h
    | true =>
      obtain ⟨h1, -, h3, h4⟩ := getToken_true ht
      simp only [ht] at h ⊢
      split_ifs at h ⊢ with ha hb
      simp only [turns, SyncState.goto, Phase.next, hs, h1]
      by_cases h0 : s.ofst = 0
      · have := h4 h0; simp [h0]; omega
      · simp [h0]; omega
  | data =>
    simp only [hs, syncGetData] at h ⊢
    split_ifs at h ⊢ with ha
    simp only [turns, SyncState.goto, Phase.next, hs, List.length_drop]
    split_ifs <;> simp_all

theorem syncLoop_fuel (e : Env) {n m : ℕ} {c : RamNvCtl} {s : SyncState} {buf : List UInt8} (hn : turns s buf < n)
    (hm : turns s buf < m) : syncLoop e n c s buf = syncLoop e m c s buf := by
  induction n generalizing m c s buf with
  | zero => omega
  | succ n ih =>
    cases m with
    | zero => omega
    | succ m =>
      simp only [syncLoop]
      split_ifs with hb
      · rfl
      · unfold afterGet
        cases hr : (syncGet c s buf).ret with
        | next =>
          have ht := turns_next hr
          simp only
          rw [ih (m := m) (by omega) (by omega)]
        | _ => rfl

theorem turns_lt (s : SyncState) (buf : List UInt8) : turns s buf < 2 * buf.length + 5 := by
  unfold turns; split_ifs <;> omega

/-- the loop's own equation, without fuel -/
theorem loop_eq (e : Env) (c : RamNvCtl) (s : SyncState) (buf : List UInt8) :
    loop e c s buf =
      if buf.length = 0 then ⟨c, s, [], .drained⟩ else afterGet e (loop e) c s.syncState (syncGet c s buf) := by
  unfold loop
  rw [syncLoop]
  split_ifs with hb
  · rfl
  · unfold afterGet
    cases hr : (syncGet c s buf).ret with
    | next =>
      have h1 := turns_next hr
      have h2 := turns_lt s buf
      simp only
      rw [syncLoop_fuel e (m := 2 * (syncGet c s buf).buf.length + 5) (by omega) (turns_lt _ _)]
    | _ => rfl

/-! ## `_ofst` stays 0 -/

theorem syncGet_ofst (c : RamNvCtl) {s : SyncState} (buf : List UInt8) (h : s.ofst = 0) :
    (syncGet c s buf).s.ofst = 0 := by
  have ht : (getToken s buf).2.1.ofst = 0 := getToken_ofst h
  unfold syncGet
  cases hs : s.syncState with
  | head =>
    simp only [syncGetHead]
    rcases hg : getToken s buf with ⟨ok, s', rest⟩
    rw [hg] at ht
    cases ok <;> simp only <;> (try split_ifs) <;> exact ht
  | body =>
    simp only [syncGetBody]
    rcases hg : getToken s buf with ⟨ok, s', rest⟩
    rw [hg] at ht
    cases ok <;> simp only <;> (try split_ifs) <;> exact ht
  | data => simp only [syncGetData]; split_ifs <;> exact h

theorem syncReset_ofst (e : Env) (ifSuc : Bool) (c : RamNvCtl) (s : SyncState) :
    (syncReset e ifSuc c s).2.1.ofst = 0 := by
  unfold syncReset; split_ifs <;> rfl

theorem syncLoop_ofst (e : Env) (n : ℕ) (c : RamNvCtl) (s : SyncState) (buf : List UInt8) (h : s.ofst = 0) :
    (syncLoop e n c s buf).s.ofst = 0 := by
  induction n generalizing c s buf with
  | zero => exact h
  | succ n ih =>
    simp only [syncLoop]
    split_ifs with hb
    · exact h
    · unfold afterGet
      cases hr : (syncGet c s buf).ret with
      | fail => exact syncReset_ofst e _ _ _
      | next => exact ih _ _ _ (syncGet_ofst c buf h)
      | cont => exact syncGet_ofst c buf h
      | done => exact syncReset_ofst e _ _ _

theorem onPacket_ofst (e : Env) (c : RamNvCtl) (s : SyncState) (ps : PacketState) (buf : List UInt8)
    (h : s.ofst = 0) : (onPacket e c s ps buf).s.ofst = 0 := by
  cases ps with
  | fail => exact syncReset_ofst e _ _ _
  | start =>
    simp only [onPacket]
    split_ifs
    · exact syncLoop_ofst e _ _ _ _ (syncReset_ofst e _ _ _)
    · exact syncLoop_ofst e _ _ _ _ h
  | cont =>
    simp only [onPacket]
    split_ifs
    · exact syncLoop_ofst e _ _ _ _ h
    · exact h
  | skip => exact h

end SprdDevice.NvItem
