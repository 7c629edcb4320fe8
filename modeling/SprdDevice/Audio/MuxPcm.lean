/-
The PCM transfers over the mux channels (audio_mux_pcm.c): mux_pcm_read and mux_pcm_write, with int and size_t of 32 bits.

- `saudio_send_common_cmd`, `saudio_wait_common_cmd`: the commands on the control channel; `Ctrl` is what that channel
  does to the start command of a stream;
- `mux_pcm_read`: `rs` are the results of its read calls. The capture stream is the sequence of its bytes and a position;
- `mux_pcm_write`: `io` are the results of its write calls, each with the command read back as the acknowledgement;
- `Reads n rs`: results of reads that ask for what is left of n bytes, each positive and at most what was asked for, until
  nothing is left; `Writes left io`: the same for the writes, with every acknowledgement the right one.
A list that ends before the call returns makes the function `none`.
Result: `mux_pcm_transfer_iff`. A read that is not the only one of its call goes to the start of the buffer again, and
after a short write the next one starts where a full one would have ended.
-/
import Mathlib.Tactic
import SprdDevice.Lib.Word

namespace SprdDevice.Audio.MuxPcm

open SprdDevice.Memory SprdDevice.Word

def SAUDIO_CMD_START : ℕ := 0x00000004

def SAUDIO_CMD_RECEIVE : ℕ := 0x00000040

def AUDIO_PLAYBACK_BUFFER : ℤ := 1200

structure mux_pcm where
  mux_fd : ℤ
  stream_type : ℕ
  state : ℕ

structure cmd_common where
  command : ℕ
  sub_cmd : ℕ

/-- the control channel: its descriptor, the result of the write, the command that comes back -/
structure Ctrl where
  audio_ctrl_fd : ℤ
  result : ℤ
  common_ret : cmd_common

def saudio_send_common_cmd (c : Ctrl) (cmd : ℕ) : ℤ :=
  if c.audio_ctrl_fd < 0 then -1
  else if c.result < 0 then c.result
  else if c.common_ret.command = cmd * 2 ^ 16 % 2 ^ 32 then 0
  else -1

/-- `common` is what the control channel gives -/
def saudio_wait_common_cmd (audio_ctrl_fd : ℤ) (common : cmd_common) (cmd subcmd : ℕ) : ℤ :=
  if audio_ctrl_fd < 0 then -1
  else if subcmd ≠ 0 then
    if common.command = cmd ∧ common.sub_cmd = subcmd then 0 else -1
  else
    if common.command = cmd then 0 else -1

/-- the first transfer starts the stream; the state is set before the start command is sent -/
def startStream (c : Ctrl) (pcm : mux_pcm) : ℤ × mux_pcm :=
  if pcm.state = 0 then (saudio_send_common_cmd c SAUDIO_CMD_START, { pcm with state := 1 }) else (0, pcm)

/-! ## Capture -/

/-- `bytes` has the bits of the int that counts what is left -/
structure ReadState where
  data : ℕ → UInt8
  bytes : ℕ
  pos : ℕ

/-- one read call, of result r: to the start of the buffer -/
def readTurn (stream : ℕ → UInt8) (s : ReadState) (r : ℤ) : ReadState where
  data := store s.data 0 (cells stream s.pos r.toNat)
  bytes := ((s.bytes - r) % 2 ^ 32).toNat
  pos := s.pos + r.toNat

def readLoop (stream : ℕ → UInt8) : ReadState → List ℤ → Option ReadState
  | s, [] => if s.bytes = 0 then some s else none
  | s, r :: rs => if s.bytes = 0 then some s else readLoop stream (readTurn stream s r) rs

def mux_pcm_read (c : Ctrl) (pcm : mux_pcm) (stream : ℕ → UInt8) (pos : ℕ) (data : ℕ → UInt8) (count : ℕ)
    (rs : List ℤ) : Option (ℤ × ReadState × mux_pcm) :=
  let s : ReadState := ⟨data, count, pos⟩
  if pcm.mux_fd > 0 then
    let (ret, pcm) := startStream c pcm
    if ret ≠ 0 then some (-1, s, pcm) else (readLoop stream s rs).map fun s => (sint32 s.bytes, s, pcm)
  else
    some (sint32 count, s, pcm)

/-! ## Playback -/

def sendlen (left : ℤ) : ℤ := if left < AUDIO_PLAYBACK_BUFFER then left else AUDIO_PLAYBACK_BUFFER

/-- the result of the call and the bytes on the stream; `bytes` is the result of the write before -/
def writeLoop (audio_ctrl_fd : ℤ) (pcm : mux_pcm) (data : ℕ → UInt8) :
    ℤ → ℤ → ℤ → List UInt8 → List (ℤ × cmd_common) → Option (ℤ × List UInt8)
  | left, _, bytes, sent, [] => if left = 0 then some (bytes, sent) else none
  | left, offset, bytes, sent, (r, common) :: io =>
    if left = 0 then some (bytes, sent)
    else if r ≠ 0 ∧ saudio_wait_common_cmd audio_ctrl_fd common (SAUDIO_CMD_RECEIVE * 2 ^ 16) pcm.stream_type ≠ 0 then
      some (0, sent ++ cells data offset.toNat r.toNat)
    else
      -- by what was asked for, not by r
      writeLoop audio_ctrl_fd pcm data (left - sendlen left) (offset + sendlen left) r
        (sent ++ cells data offset.toNat r.toNat) io

def mux_pcm_write (c : Ctrl) (pcm : mux_pcm) (data : ℕ → UInt8) (count : ℕ) (io : List (ℤ × cmd_common)) :
    Option (ℤ × List UInt8 × mux_pcm) :=
  if pcm.mux_fd > 0 then
    let (ret, pcm) := startStream c pcm
    if ret ≠ 0 then some (0, [], pcm)
    else (writeLoop c.audio_ctrl_fd pcm data (sint32 count) 0 0 [] io).map fun (bytes, sent) => (bytes, sent, pcm)
  else
    some (0, [], pcm)

/-! ## What the channels do -/

/-- the stream is open, and starts when it has to -/
def Ready (c : Ctrl) (pcm : mux_pcm) : Prop := 0 < pcm.mux_fd ∧ (startStream c pcm).1 = 0

def Reads : ℕ → List ℤ → Prop
  | n, [] => n = 0
  | n, r :: rs => 0 < r ∧ r ≤ n ∧ r < 2 ^ 31 ∧ Reads (n - r.toNat) rs

/-- what the write call asks for, a size_t -/
def request (left : ℤ) : ℤ := sendlen left % 2 ^ 32

def Acked (c : Ctrl) (pcm : mux_pcm) (common : cmd_common) : Prop :=
  saudio_wait_common_cmd c.audio_ctrl_fd common (SAUDIO_CMD_RECEIVE * 2 ^ 16) pcm.stream_type = 0

instance (c : Ctrl) (pcm : mux_pcm) (common : cmd_common) : Decidable (Acked c pcm common) :=
  inferInstanceAs (Decidable (_ = _))

def Writes (c : Ctrl) (pcm : mux_pcm) : ℤ → List (ℤ × cmd_common) → Prop
  | left, [] => left = 0
  | left, (r, common) :: io =>
    left ≠ 0 ∧ 0 < r ∧ r ≤ request left ∧ r < 2 ^ 31 ∧ Acked c pcm common ∧ Writes c pcm (left - sendlen left) io

/-- every write takes all it is asked to -/
def Full : ℤ → List (ℤ × cmd_common) → Prop
  | _, [] => True
  | left, (r, _) :: io => r = request left ∧ Full (left - sendlen left) io

/-! ## Reading -/

section Reading

variable {stream : ℕ → UInt8} {s : ReadState}

theorem reads_le {n : ℕ} {rs : List ℤ} (h : Reads n rs) : ∀ r ∈ rs, r.toNat ≤ n := by
  induction rs generalizing n with
  | nil => exact fun r hr => absurd hr List.not_mem_nil
  | cons r rs ih =>
    obtain ⟨hpos, hle, -, hrest⟩ := h
    intro r' hr'
    rcases List.mem_cons.mp hr' with rfl | hr'
    · omega
    · exact (ih hrest r' hr').trans (Nat.sub_le n r.toNat)

/-- with two reads or more, none of them has the whole count -/
theorem reads_lt {n : ℕ} {rs : List ℤ} (h : Reads n rs) (hlen : 2 ≤ rs.length) : ∀ r ∈ rs, r.toNat < n := by
  match rs, h, hlen with
  | r1 :: r2 :: rs, ⟨hpos, hle, _, hrest⟩, _ =>
    have hpos2 := hrest.1
    have hle2 := hrest.2.1
    intro r hr
    rcases List.mem_cons.mp hr with rfl | hr
    · omega
    · have hr := reads_le hrest r hr
      omega

theorem readTurn_bytes {r : ℤ} (hs : s.bytes < 2 ^ 32) (h0 : 0 < r) (hr : r ≤ s.bytes) :
    (readTurn stream s r).bytes = s.bytes - r.toNat := by
  have hmod : ((s.bytes : ℤ) - r) % 2 ^ 32 = s.bytes - r := Int.emod_eq_of_lt (by omega) (by omega)
  show (((s.bytes : ℤ) - r) % 2 ^ 32).toNat = _
  rw [hmod]
  omega

/-- the call returns, and a byte behind every single read is as it was -/
theorem readLoop_frame {rs : List ℤ} {k : ℕ} (hs : s.bytes < 2 ^ 32) (h : Reads s.bytes rs)
    (hk : ∀ r ∈ rs, r.toNat ≤ k) :
    ∃ s', readLoop stream s rs = some s' ∧ s'.bytes = 0 ∧ s'.data k = s.data k := by
  induction rs generalizing s with
  | nil => exact ⟨s, if_pos h, h, rfl⟩
  | cons r rs ih =>
    obtain ⟨hpos, hle, -, hrest⟩ := h
    have hne : s.bytes ≠ 0 := by omega
    have hbytes : (readTurn stream s r).bytes = s.bytes - r.toNat := readTurn_bytes hs hpos hle
    rw [← hbytes] at hrest
    obtain ⟨s', hrun, hzero, hdata⟩ :=
      ih (by omega : (readTurn stream s r).bytes < 2 ^ 32) hrest fun r' hr' => hk r' (List.mem_cons_of_mem r hr')
    refine ⟨s', ?_, hzero, hdata.trans ?_⟩
    · rw [readLoop, if_neg hne, hrun]
    · have hcells : 0 + (cells stream s.pos r.toNat).length ≤ k := by
        rw [length_cells, Nat.zero_add]
        exact hk r List.mem_cons_self
      exact store_outside s.data (cells stream s.pos r.toNat) (Or.inr hcells)

/-- a single read -/
theorem readLoop_one {rs : List ℤ} (hs : s.bytes < 2 ^ 32) (h : Reads s.bytes rs) (hlen : rs.length ≤ 1) :
    ∃ s', readLoop stream s rs = some s' ∧ s'.bytes = 0 ∧ cells s'.data 0 s.bytes = cells stream s.pos s.bytes := by
  rcases rs with _ | ⟨r, _ | ⟨r', rs⟩⟩
  · have h : s.bytes = 0 := h
    exact ⟨s, if_pos h, h, by rw [h]; rfl⟩
  · obtain ⟨hpos, hle, -, hrest⟩ := h
    have hrest : s.bytes - r.toNat = 0 := hrest
    have hall : r.toNat = s.bytes := by omega
    have hne : s.bytes ≠ 0 := by omega
    have hzero : (readTurn stream s r).bytes = 0 := (readTurn_bytes hs hpos hle).trans hrest
    refine ⟨readTurn stream s r, ?_, hzero, ?_⟩
    · rw [readLoop, if_neg hne, readLoop, if_pos hzero]
    · show cells (store s.data 0 (cells stream s.pos r.toNat)) 0 s.bytes = _
      rw [hall]
      refine cells_congr fun i hi => ?_
      rw [Nat.zero_add, store_zero_get _ _ (by rwa [length_cells])]
      simp [cells]
  · simp only [List.length_cons] at hlen
    omega

end Reading

/-! ## Writing -/

section Writing

variable {c : Ctrl} {pcm : mux_pcm} {data : ℕ → UInt8}

/-- what the writes put on the stream -/
def pieces (data : ℕ → UInt8) : ℤ → ℤ → List (ℤ × cmd_common) → List UInt8
  | _, _, [] => []
  | left, offset, (r, _) :: io =>
    cells data offset.toNat r.toNat ++ pieces data (left - sendlen left) (offset + sendlen left) io

theorem writeLoop_eq {left : ℤ} {io : List (ℤ × cmd_common)} (h : Writes c pcm left io) (offset bytes : ℤ)
    (sent : List UInt8) :
    ∃ ret, writeLoop c.audio_ctrl_fd pcm data left offset bytes sent io =
      some (ret, sent ++ pieces data left offset io) := by
  induction io generalizing left offset bytes sent with
  | nil =>
    have h : left = 0 := h
    exact ⟨bytes, by rw [writeLoop, if_pos h, pieces, List.append_nil]⟩
  | cons x io ih =>
    obtain ⟨r, common⟩ := x
    obtain ⟨hne, -, -, -, hack, hrest⟩ := h
    obtain ⟨ret, hret⟩ := ih hrest (offset + sendlen left) r (sent ++ cells data offset.toNat r.toNat)
    refine ⟨ret, ?_⟩
    have hgo : ¬ (r ≠ 0 ∧ saudio_wait_common_cmd c.audio_ctrl_fd common (SAUDIO_CMD_RECEIVE * 2 ^ 16)
        pcm.stream_type ≠ 0) := fun hno => hno.2 hack
    rw [writeLoop, if_neg hne, if_neg hgo, hret, pieces, List.append_assoc]

theorem sendlen_le {left : ℤ} (h : 0 ≤ left) : 0 ≤ sendlen left ∧ sendlen left ≤ left := by
  rw [sendlen, AUDIO_PLAYBACK_BUFFER]
  split_ifs <;> omega

theorem request_eq {left : ℤ} (h : 0 ≤ left) (hlt : left < 2 ^ 31) : request left = sendlen left := by
  have hs := sendlen_le h
  exact Int.emod_eq_of_lt hs.1 (by omega)

theorem length_pieces_le {left : ℤ} {io : List (ℤ × cmd_common)} (h : Writes c pcm left io) (h0 : 0 ≤ left)
    (hlt : left < 2 ^ 31) (offset : ℤ) : ((pieces data left offset io).length : ℤ) ≤ left := by
  induction io generalizing left offset with
  | nil => exact h0
  | cons x io ih =>
    obtain ⟨r, common⟩ := x
    obtain ⟨-, hpos, hr, -, -, hrest⟩ := h
    have hs := sendlen_le h0
    rw [request_eq h0 hlt] at hr
    have hlen := ih hrest (by omega) (by omega) (offset + sendlen left)
    rw [pieces, List.length_append, length_cells]
    omega

/-- full writes put the data on the stream, and no other ones do -/
theorem pieces_eq_iff {left : ℤ} {io : List (ℤ × cmd_common)} (h : Writes c pcm left io) (h0 : 0 ≤ left)
    (hlt : left < 2 ^ 31) {offset : ℤ} (hofs : 0 ≤ offset) :
    pieces data left offset io = cells data offset.toNat left.toNat ↔ Full left io := by
  induction io generalizing left offset with
  | nil =>
    have h : left = 0 := h
    rw [h]
    exact iff_of_true rfl trivial
  | cons x io ih =>
    obtain ⟨r, common⟩ := x
    obtain ⟨-, hpos, hr, -, -, hrest⟩ := h
    have hs := sendlen_le h0
    have hreq := request_eq h0 hlt
    rw [hreq] at hr
    have hlen : ((pieces data (left - sendlen left) (offset + sendlen left) io).length : ℤ) ≤ left - sendlen left :=
      length_pieces_le hrest (by omega) (by omega) _
    rw [pieces, Full, hreq]
    by_cases hfull : r = sendlen left
    · have hsplit : cells data offset.toNat left.toNat = cells data offset.toNat r.toNat ++
          cells data (offset + sendlen left).toNat (left - sendlen left).toNat := by
        have hofs' : (offset + sendlen left).toNat = offset.toNat + r.toNat := by omega
        rw [hofs', ← cells_add]
        congr 1
        omega
      rw [hsplit, List.append_cancel_left_eq, ih hrest (by omega) (by omega) (by omega)]
      exact (and_iff_right hfull).symm
    · refine iff_of_false (fun he => ?_) fun h => hfull h.1
      have hl := congrArg List.length he
      rw [List.length_append, length_cells, length_cells] at hl
      omega

end Writing

/-! ## Both directions -/

/-- the call returns with the next count bytes of the stream in its buffer -/
def ReadsNext (c : Ctrl) (pcm : mux_pcm) (count : ℕ) (rs : List ℤ) : Prop :=
  ∀ stream pos data, ∃ s pcm', mux_pcm_read c pcm stream pos data count rs = some (0, s, pcm') ∧
    cells s.data 0 count = cells stream pos count

/-- the call returns with the count bytes of data on the stream -/
def WritesData (c : Ctrl) (pcm : mux_pcm) (data : ℕ → UInt8) (count : ℕ) (io : List (ℤ × cmd_common)) : Prop :=
  ∃ ret pcm', mux_pcm_write c pcm data count io = some (ret, cells data 0 count, pcm')

section Transfer

variable {c : Ctrl} {pcm : mux_pcm} {count : ℕ}

theorem mux_pcm_read_eq (h : Ready c pcm) (stream : ℕ → UInt8) (pos : ℕ) (data : ℕ → UInt8) (rs : List ℤ) :
    mux_pcm_read c pcm stream pos data count rs =
      (readLoop stream ⟨data, count, pos⟩ rs).map fun s => (sint32 s.bytes, s, (startStream c pcm).2) := by
  unfold mux_pcm_read
  rw [if_pos h.1]
  exact if_neg (not_not.mpr h.2)

theorem mux_pcm_write_eq (h : Ready c pcm) (data : ℕ → UInt8) (io : List (ℤ × cmd_common)) :
    mux_pcm_write c pcm data count io =
      (writeLoop c.audio_ctrl_fd (startStream c pcm).2 data (sint32 count) 0 0 [] io).map
        fun r => (r.1, r.2, (startStream c pcm).2) := by
  unfold mux_pcm_write
  rw [if_pos h.1]
  exact if_neg (not_not.mpr h.2)

theorem readsNext_iff (h : Ready c pcm) (hcount : count < 2 ^ 32) {rs : List ℤ} (hrs : Reads count rs) :
    ReadsNext c pcm count rs ↔ rs.length ≤ 1 := by
  constructor
  · intro hnext
    by_contra hlen
    have hlt := reads_lt hrs (by omega)
    have hpos : 0 < count := (Nat.zero_le _).trans_lt (hlt _ (List.getElem_mem (by omega : 0 < rs.length)))
    -- a stream of zeros, into a buffer of ones: no read reaches its last byte
    obtain ⟨s, pcm', hs, hcells⟩ := hnext (fun _ => 0) 0 fun _ => 1
    obtain ⟨s', hrun, -, hlast⟩ := @readLoop_frame (fun _ => 0) ⟨fun _ => 1, count, 0⟩ rs (count - 1) hcount hrs
      fun r hr => Nat.le_sub_one_of_lt (hlt r hr)
    rw [mux_pcm_read_eq h, hrun] at hs
    simp only [Option.map_some, Option.some.injEq, Prod.mk.injEq] at hs
    obtain ⟨-, rfl, -⟩ := hs
    have hget := congrArg (fun l => l[count - 1]?) hcells
    simp only [cells, List.getElem?_map, List.getElem?_range (by omega : count - 1 < count), Nat.zero_add,
      Option.map_some, Option.some.injEq] at hget
    have hone : s'.data (count - 1) = 1 := hlast
    exact absurd (hone.symm.trans hget) (by decide)
  · intro hlen stream pos data
    obtain ⟨s', hrun, hzero, hcells⟩ := @readLoop_one stream ⟨data, count, pos⟩ rs hcount hrs hlen
    refine ⟨s', (startStream c pcm).2, ?_, hcells⟩
    rw [mux_pcm_read_eq h, hrun, Option.map_some, hzero]
    rfl

theorem acked_start {common : cmd_common} (h : Acked c pcm common) : Acked c (startStream c pcm).2 common := by
  unfold startStream
  split_ifs
  · exact h
  · exact h

theorem writes_start {left : ℤ} {io : List (ℤ × cmd_common)} (h : Writes c pcm left io) :
    Writes c (startStream c pcm).2 left io := by
  induction io generalizing left with
  | nil => exact h
  | cons x io ih =>
    obtain ⟨hne, hpos, hr, hlt, hack, hrest⟩ := h
    exact ⟨hne, hpos, hr, hlt, acked_start hack, ih hrest⟩

theorem writesData_iff (h : Ready c pcm) (hcount : count < 2 ^ 32) (data : ℕ → UInt8) {io : List (ℤ × cmd_common)}
    (hio : Writes c pcm (sint32 count) io) : WritesData c pcm data count io ↔ Full (sint32 count) io := by
  obtain ⟨ret, hret⟩ := @writeLoop_eq c _ data _ io (writes_start hio) 0 0 []
  have hsent : WritesData c pcm data count io ↔ pieces data (sint32 count) 0 io = cells data 0 count := by
    unfold WritesData
    rw [mux_pcm_write_eq h, hret, List.nil_append]
    simp
  rw [hsent]
  by_cases hsmall : count < 2 ^ 31
  · have hleft : sint32 count = count := if_pos hsmall
    rw [hleft] at hio ⊢
    exact pieces_eq_iff hio (by omega) (by omega) (le_refl 0)
  · -- the count is negative as an int: one write that asks for all of it and cannot get it
    have hleft : sint32 count = (count : ℤ) - 2 ^ 32 := if_neg hsmall
    have hneg : sint32 count < 0 := by omega
    have hsend : sendlen (sint32 count) = sint32 count := if_pos (by rw [AUDIO_PLAYBACK_BUFFER]; omega)
    have hreq : request (sint32 count) = count := by
      rw [request, hsend, hleft, Int.sub_emod_right]
      exact Int.emod_eq_of_lt (by omega) (by omega)
    rcases io with _ | ⟨⟨r, common⟩, io⟩
    · exact absurd (show sint32 count = 0 from hio) (by omega)
    · obtain ⟨-, hpos, -, hlt, -, hrest⟩ := hio
      rw [hsend, Int.sub_self] at hrest
      rcases io with _ | ⟨x, io⟩
      · refine iff_of_false (fun he => ?_) fun hfull => ?_
        · have hl := congrArg List.length he
          rw [pieces, pieces, List.append_nil, length_cells, length_cells] at hl
          omega
        · have hr : r = request (sint32 count) := hfull.1
          omega
      · exact absurd rfl hrest.1

end Transfer

/-- **PCM transfer.** A call of mux_pcm_read gets the next bytes of the stream, whatever they are, exactly when it makes
one read at most; a call of mux_pcm_write puts its data on the stream exactly when every write is full -/
theorem mux_pcm_transfer_iff (c : Ctrl) (pcm : mux_pcm) (h : Ready c pcm) (count : ℕ) (hcount : count < 2 ^ 32) :
    (∀ rs, Reads count rs → (ReadsNext c pcm count rs ↔ rs.length ≤ 1)) ∧
      ∀ data io, Writes c pcm (sint32 count) io → (WritesData c pcm data count io ↔ Full (sint32 count) io) :=
  ⟨fun _ hrs => readsNext_iff h hcount hrs, fun data _ hio => writesData_iff h hcount data hio⟩

/-- more than one write takes -/
theorem mux_pcm_transfer_pieces : ReadsNext ⟨3, 16, ⟨0x40000, 0⟩⟩ ⟨4, 1, 0⟩ 1201 [1201] ∧
    WritesData ⟨3, 16, ⟨0x40000, 0⟩⟩ ⟨4, 0, 0⟩ (fun _ => 7) 1201 [(1200, ⟨0x400000, 0⟩), (1, ⟨0x400000, 0⟩)] := by
  have hreads : Reads 1201 [1201] := ⟨by decide, by decide, by decide, rfl⟩
  have hwrites : Writes ⟨3, 16, ⟨0x40000, 0⟩⟩ ⟨4, 0, 0⟩ (sint32 1201) [(1200, ⟨0x400000, 0⟩), (1, ⟨0x400000, 0⟩)] :=
    ⟨by decide, by decide, by decide, by decide, by decide, by decide, by decide, by decide, by decide, by decide, rfl⟩
  have hfull : Full (sint32 1201) [(1200, ⟨0x400000, 0⟩), (1, ⟨0x400000, 0⟩)] := ⟨by decide, by decide, trivial⟩
  exact ⟨((mux_pcm_transfer_iff _ _ ⟨by decide, by decide⟩ 1201 (by decide)).1 [1201] hreads).mpr (by decide),
    ((mux_pcm_transfer_iff _ _ ⟨by decide, by decide⟩ 1201 (by decide)).2 _ _ hwrites).mpr hfull⟩

/-- of two bytes that come one by one, both go to the first place of the buffer -/
theorem mux_pcm_short_transfers : ¬ ∀ (c : Ctrl) (pcm : mux_pcm), Ready c pcm → ∀ count < 2 ^ 32,
    (∀ rs, Reads count rs → ReadsNext c pcm count rs) ∧
      ∀ data io, Writes c pcm (sint32 count) io → WritesData c pcm data count io := by
  intro h
  have hready : Ready ⟨3, 16, ⟨0x40000, 0⟩⟩ ⟨4, 1, 0⟩ := ⟨by decide, by decide⟩
  have hreads : Reads 2 [1, 1] := ⟨by decide, by decide, by decide, by decide, by decide, by decide, rfl⟩
  have hnext := (h _ _ hready 2 (by decide)).1 _ hreads
  exact absurd ((readsNext_iff hready (by decide) hreads).mp hnext) (by decide)

end SprdDevice.Audio.MuxPcm
