/-
Requests on their way from the engineering service to the modem client: `setup_send_data` in `engservice.c`, and
`get_send_fd` and the loop of `eng_servermodem_comm` in `eng_modemclient.c`.

A request is one text of four fields: the length, the descriptor of the application that asked, the type (the SIM) and
the payload. The client reads up to 2047 bytes into the zeroed `tmp`, and goes through the requests there.

- `tmp` and `data.buf` are memories; the cells behind the 2048 of `tmp` are whatever the stack holds (`past`).
- A field of 8 bytes or more overruns `strtmp`, a missing `;` is a null pointer, a copy below zero or past `data.buf`
  leaves the buffer, and so does a string without an end: all of these are `none`.
- `eng_parsecmd` cuts its argument up in place: what it leaves in `data.buf` is the parameter `parsecmd`.

`get_send_fd` counts the bytes to copy from the wrong end and takes two too many. They are zero behind the last request
and the start of the next one's length field otherwise.

Results: `getSendFd_encoded`, `comm_one`, `comm_more` and `request_framing_iff`.
-/
import Mathlib.Tactic
import SprdDevice.Lib.Decimal
import SprdDevice.Lib.Memory

namespace SprdDevice.EngService

open SprdDevice.Decimal SprdDevice.Memory

/-! ## Model -/

/-- `ENG_BUF_LEN` -/
def engBufLen : ℕ := 2048

/-- what an application asks for: the arguments of `setup_send_data` -/
structure Request where
  fd : ℕ
  type : ℕ
  payload : List UInt8
  fd_lt : fd < 100000
  type_le : type ≤ 9
  payload_ne : payload ≠ []
  payload_str : 0 ∉ payload

/-- what the client hands on: `eng_fdtype_t` and the string for `eng_parsecmd` -/
structure Parsed where
  fd : ℤ
  type : ℤ
  payload : List UInt8
deriving DecidableEq, Repr

def Request.parsed (r : Request) : Parsed := ⟨r.fd, r.type, r.payload⟩

/-- `setup_send_data`: `%5d;%5d;%d;%s` -/
def setupSendData (r : Request) : List UInt8 :=
  padded 5 (6 + 6 + 2 + r.payload.length) ++ 59 :: (padded 5 r.fd ++ 59 :: (decimal r.type ++ 59 :: r.payload))

/-- `strchr` over at most the given number of cells -/
def strchr (m : ℕ → UInt8) (c : UInt8) : ℕ → ℕ → Option ℕ
  | 0, _ => none
  | fuel + 1, p => if m p = c then some p else if m p = 0 then none else strchr m c fuel (p + 1)

/-- the text from p up to q through `strtmp[8]` and `atoi` -/
def field (m : ℕ → UInt8) (p q : ℕ) : Option ℤ := if q - p < 8 then some (atoi (cells m p (q - p))) else none

/-- what `get_send_fd` leaves: `inbuf` and `outbuf`, `*len`, and the two of `fdtype` -/
structure Fields where
  inbuf : ℕ → UInt8
  outbuf : ℕ → UInt8
  len : ℤ
  fd : ℤ
  type : ℤ

/-- `get_send_fd` -/
def getSendFd (fuel : ℕ) (m outbuf : ℕ → UInt8) (inbuf : ℕ) : Option Fields := do
  let ptr ← strchr m 59 fuel inbuf
  let len ← field m inbuf ptr
  let m1 := Function.update m ptr 0
  let ptr1 ← strchr m1 59 fuel (ptr + 1)
  let fd ← field m1 (ptr + 1) ptr1
  let m2 := Function.update m1 ptr1 0
  let ptr2 ← strchr m2 59 fuel (ptr1 + 1)
  let type ← field m2 (ptr1 + 1) ptr2
  let m3 := Function.update m2 ptr2 0
  let n := len - ((ptr2 : ℤ) - inbuf - 1)
  if n < 0 ∨ (engBufLen : ℤ) < n then none
  else some ⟨m3, copy outbuf (fun i => m3 (ptr2 + 1 + i)) n.toNat, len, fd, type⟩

/-- the string in `data.buf` -/
def dataStr (buf : ℕ → UInt8) : Option (List UInt8) := (strchr buf 0 engBufLen 0).map (cells buf 0)

variable (parsecmd : (ℕ → UInt8) → ℕ → UInt8)

/-- the loop of `eng_servermodem_comm`, with `words` and `length` as it keeps them -/
def commLoop : ℕ → (ℕ → UInt8) → (ℕ → UInt8) → ℕ → ℤ → Option (List Parsed)
  | 0, _, _, _, _ => none
  | fuel + 1, tmp, buf, words, length => do
    let f ← getSendFd fuel tmp buf words
    let payload ← dataStr f.outbuf
    let r : Parsed := ⟨f.fd, f.type, payload⟩
    if (engBufLen : ℤ) ≤ length + f.len then some [r]
    else if words + (length + f.len) < 0 then none
    else if f.inbuf (words + (length + f.len)).toNat = 0 then some [r]
    else (commLoop fuel f.inbuf (parsecmd f.outbuf) (words + (length + f.len)).toNat (length + f.len)).map (r :: ·)

/-- `tmp` with the bytes read -/
def tmpBuf (past : ℕ → UInt8) (bytes : List UInt8) : ℕ → UInt8 :=
  store (fun i => if i < engBufLen then 0 else past i) 0 bytes

/-- `eng_servermodem_comm` on one read: the requests in the order they go to `eng_parsecmd` -/
def comm (past : ℕ → UInt8) (fuel : ℕ) (bytes : List UInt8) : Option (List Parsed) :=
  if bytes = [] then some [] else commLoop parsecmd fuel (tmpBuf past bytes) (fun _ => 0) 0 0

/-! ## Fields -/

theorem mem_cells {m : ℕ → UInt8} {p n i : ℕ} (h : i < n) : m (p + i) ∈ cells m p n := by
  simp only [cells, List.mem_map, List.mem_range]
  exact ⟨i, h, rfl⟩

theorem strchr_found {m : ℕ → UInt8} {c : UInt8} {fuel p k : ℕ} (hk : k < fuel)
    (hne : ∀ i < k, m (p + i) ≠ c ∧ m (p + i) ≠ 0) (hc : m (p + k) = c) : strchr m c fuel p = some (p + k) := by
  induction fuel generalizing p k with
  | zero => exact absurd hk (Nat.not_lt_zero k)
  | succ fuel ih =>
    cases k with
    | zero =>
      rw [Nat.add_zero] at hc
      simp [strchr, hc]
    | succ k =>
      have h0 := hne 0 (Nat.succ_pos k)
      rw [Nat.add_zero] at h0
      rw [strchr, if_neg h0.1, if_neg h0.2, ih (Nat.lt_of_succ_lt_succ hk)]
      · congr 1
        omega
      · intro i hi
        have h := hne (i + 1) (Nat.succ_lt_succ hi)
        rwa [show p + (i + 1) = p + 1 + i by omega] at h
      · rwa [show p + (k + 1) = p + 1 + k by omega] at hc

theorem strchr_none {m : ℕ → UInt8} {c : UInt8} {fuel p : ℕ} (hne : ∀ i < fuel, m (p + i) ≠ c) :
    strchr m c fuel p = none := by
  induction fuel generalizing p with
  | zero => rfl
  | succ fuel ih =>
    have h0 : m p ≠ c := hne 0 (Nat.succ_pos fuel)
    rw [strchr, if_neg h0]
    split_ifs
    · rfl
    · apply ih
      intro i hi
      have h := hne (i + 1) (Nat.succ_lt_succ hi)
      rwa [show p + (i + 1) = p + 1 + i by omega] at h

/-- a field without `;` and without an end is found up to its `;` -/
theorem strchr_field {m : ℕ → UInt8} {fuel p n : ℕ} {l : List UInt8} (hl : cells m p n = l)
    (hclean : ∀ c ∈ l, c ≠ 59 ∧ c ≠ 0) (hend : m (p + n) = 59) (hf : n < fuel) : strchr m 59 fuel p = some (p + n) := by
  apply strchr_found hf _ hend
  intro i hi
  have hmem : m (p + i) ∈ cells m p n := mem_cells hi
  rw [hl] at hmem
  exact hclean _ hmem

theorem field_cells {m : ℕ → UInt8} {p n : ℕ} {l : List UInt8} (hl : cells m p n = l) (hlt : n < 8) :
    field m p (p + n) = some (atoi l) := by
  have hsub : p + n - p = n := Nat.add_sub_cancel_left p n
  rw [field, hsub, if_pos hlt, hl]

theorem padded_clean {w n : ℕ} : ∀ c ∈ padded w n, c ≠ 59 ∧ c ≠ 0 := by
  intro c hc
  rcases mem_padded hc with rfl | hd
  · decide
  · exact ⟨ne_of_isDigit hd (by decide), ne_of_isDigit hd (by decide)⟩

theorem padded_zero (n : ℕ) : padded 0 n = decimal n := by simp [padded]

theorem decimal_length_one {n : ℕ} (h : n ≤ 9) : (decimal n).length = 1 := by
  have hle : (decimal n).length ≤ 1 := decimal_length_le Nat.one_pos (by omega)
  have hpos : 0 < (decimal n).length := List.length_pos_iff.mpr (decimal_ne_nil n)
  omega

theorem cells_update_above {m : ℕ → UInt8} {i p : ℕ} (v : UInt8) (n : ℕ) (h : i < p) :
    cells (Function.update m i v) p n = cells m p n := by
  apply cells_congr
  intro j _
  rw [Function.update_of_ne (by omega)]

theorem cells_split {m : ℕ → UInt8} {p : ℕ} {l1 l2 : List UInt8} {c : UInt8}
    (h : cells m p (l1 ++ c :: l2).length = l1 ++ c :: l2) :
    cells m p l1.length = l1 ∧ m (p + l1.length) = c ∧ cells m (p + l1.length + 1) l2.length = l2 := by
  rw [List.length_append, cells_add, List.length_cons, cells_succ] at h
  obtain ⟨h1, h2⟩ := List.append_inj h (length_cells m p l1.length)
  obtain ⟨h3, h4⟩ := List.cons.inj h2
  exact ⟨h1, h3, h4⟩

/-! ## One request -/

/-- the memory from w on holds the text of r -/
def Holds (m : ℕ → UInt8) (w : ℕ) (r : Request) : Prop :=
  cells m w (setupSendData r).length = setupSendData r

theorem setupSendData_length (r : Request) (h : 14 + r.payload.length < 100000) :
    (setupSendData r).length = 14 + r.payload.length := by
  have hl : (padded 5 (6 + 6 + 2 + r.payload.length)).length = 5 := padded_length (by norm_num) (by omega)
  have hfd : (padded 5 r.fd).length = 5 := padded_length (by norm_num) r.fd_lt
  simp only [setupSendData, List.length_append, List.length_cons, hl, hfd, decimal_length_one r.type_le]
  omega

theorem le_setupSendData_length (r : Request) : r.payload.length ≤ (setupSendData r).length := by
  simp only [setupSendData, List.length_append, List.length_cons]
  omega

/-- what stays of the text once its three `;` are overwritten -/
def cut (m : ℕ → UInt8) (w : ℕ) : ℕ → UInt8 :=
  Function.update (Function.update (Function.update m (w + 5) 0) (w + 11) 0) (w + 13) 0

theorem cut_above (m : ℕ → UInt8) {w i : ℕ} (h : w + 13 < i) : cut m w i = m i := by
  rw [cut, Function.update_of_ne (by omega), Function.update_of_ne (by omega), Function.update_of_ne (by omega)]

/-- the texts of the fields, at their places -/
theorem Holds.fields {m : ℕ → UInt8} {w : ℕ} {r : Request} (h : Holds m w r) (hlen : 14 + r.payload.length < 100000) :
    (cells m w 5 = padded 5 (14 + r.payload.length) ∧ m (w + 5) = 59) ∧
      (cells m (w + 6) 5 = padded 5 r.fd ∧ m (w + 11) = 59) ∧
      (cells m (w + 12) 1 = padded 0 r.type ∧ m (w + 13) = 59) ∧ cells m (w + 14) r.payload.length = r.payload := by
  have hL : (padded 5 (14 + r.payload.length)).length = 5 := padded_length (by norm_num) (by omega)
  have hF : (padded 5 r.fd).length = 5 := padded_length (by norm_num) r.fd_lt
  have hT : (decimal r.type).length = 1 := decimal_length_one r.type_le
  obtain ⟨hlenField, hsemi1, hrest1⟩ := cells_split h
  obtain ⟨hfdField, hsemi2, hrest2⟩ := cells_split hrest1
  obtain ⟨htypeField, hsemi3, hpayload⟩ := cells_split hrest2
  simp only [Nat.reduceAdd, hL, hF, hT, Nat.add_assoc] at hlenField hsemi1 hfdField hsemi2 htypeField hsemi3 hpayload
  rw [padded_zero]
  exact ⟨⟨hlenField, hsemi1⟩, ⟨hfdField, hsemi2⟩, ⟨htypeField, hsemi3⟩, hpayload⟩

/-- `get_send_fd` reads the three numbers of a request, and copies its payload and the two bytes behind it -/
theorem getSendFd_encoded {m out : ℕ → UInt8} {w fuel : ℕ} {r : Request} (h : Holds m w r)
    (hlen : r.payload.length + 2 ≤ engBufLen) (hf : 5 < fuel) :
    getSendFd fuel m out w = some ⟨cut m w, copy out (fun i => m (w + 14 + i)) (r.payload.length + 2),
      14 + r.payload.length, r.fd, r.type⟩ := by
  have hlen' : r.payload.length + 2 ≤ 2048 := hlen
  obtain ⟨⟨hL, hsemi1⟩, ⟨hF, hsemi2⟩, ⟨hT, hsemi3⟩, -⟩ := h.fields (by omega)
  -- each search runs in the memory the one before it left
  have hptr : strchr m 59 fuel w = some (w + 5) := strchr_field hL padded_clean hsemi1 hf
  have hF1 : cells (Function.update m (w + 5) 0) (w + 5 + 1) 5 = padded 5 r.fd := by
    rw [cells_update_above 0 5 (Nat.lt_succ_self (w + 5))]
    exact hF
  have hptr1 : strchr (Function.update m (w + 5) 0) 59 fuel (w + 5 + 1) = some (w + 5 + 1 + 5) := by
    apply strchr_field hF1 padded_clean _ hf
    rw [Function.update_of_ne (by omega)]
    exact hsemi2
  have hT2 : cells (Function.update (Function.update m (w + 5) 0) (w + 11) 0) (w + 11 + 1) 1 = padded 0 r.type := by
    rw [cells_update_above 0 1 (Nat.lt_succ_self (w + 11)), cells_update_above 0 1 (by omega)]
    exact hT
  have hptr2 : strchr (Function.update (Function.update m (w + 5) 0) (w + 11) 0) 59 fuel (w + 11 + 1)
      = some (w + 11 + 1 + 1) := by
    apply strchr_field hT2 padded_clean _ (by omega)
    rw [Function.update_of_ne (by omega), Function.update_of_ne (by omega)]
    exact hsemi3
  have hcount : ((14 + r.payload.length : ℕ) : ℤ) - (((w + 13 : ℕ) : ℤ) - w - 1) = ((r.payload.length + 2 : ℕ) : ℤ) := by
    push_cast
    ring
  have hbound : ¬(((r.payload.length + 2 : ℕ) : ℤ) < 0 ∨ (engBufLen : ℤ) < ((r.payload.length + 2 : ℕ) : ℤ)) := by
    simp only [engBufLen]
    omega
  have hcopy : ∀ i, cut m w (w + 13 + 1 + i) = m (w + 14 + i) := fun i => cut_above m (by omega)
  simp only [getSendFd, hptr, Option.bind_eq_bind, Option.bind_some, field_cells hL (by norm_num : 5 < 8), hptr1,
    field_cells hF1 (by norm_num : 5 < 8), hptr2, field_cells hT2 (by norm_num : 1 < 8), atoi_padded, hcount,
    if_neg hbound]
  change some (Fields.mk (cut m w) (copy out (fun i => cut m w (w + 13 + 1 + i)) _) _ _ _) = _
  rw [Int.toNat_natCast]
  simp only [hcopy, Nat.cast_add, Nat.cast_ofNat]

/-! ## One read -/

theorem dataStr_of {buf : ℕ → UInt8} {k : ℕ} (hk : k < engBufLen) (hne : ∀ i < k, buf i ≠ 0) (hend : buf k = 0) :
    dataStr buf = some (cells buf 0 k) := by
  have hfound : strchr buf 0 engBufLen 0 = some (0 + k) := by
    apply strchr_found hk
    · intro i hi
      rw [Nat.zero_add]
      exact ⟨hne i hi, hne i hi⟩
    · rwa [Nat.zero_add]
  rw [dataStr, hfound, Option.map_some, Nat.zero_add]

/-- the bytes of a list behind n others -/
theorem tmpBuf_holds (past : ℕ → UInt8) (pre l post : List UInt8) :
    cells (tmpBuf past (pre ++ l ++ post)) pre.length l.length = l := by
  apply List.ext_getElem
  · simp
  · intro i _ hi
    have hin : pre.length + i < (pre ++ l ++ post).length := by
      simp only [List.length_append]
      omega
    simp only [cells, List.getElem_map, List.getElem_range, tmpBuf]
    rw [store_zero_get _ _ hin, List.getElem_append_left (by simpa using hi), List.getElem_append_right (by omega)]
    simp

theorem tmpBuf_behind (past : ℕ → UInt8) {bytes : List UInt8} {i : ℕ} (h1 : bytes.length ≤ i) (h2 : i < engBufLen) :
    tmpBuf past bytes i = 0 := by
  rw [tmpBuf, store_outside _ _ (Or.inr (by omega)), if_pos h2]

/-- the string left by a copy over the zeroed buffer -/
theorem dataStr_copy {m : ℕ → UInt8} {p n k : ℕ} (hkn : k ≤ n) (hk : k < engBufLen) (hne : ∀ i < k, m (p + i) ≠ 0)
    (hend : k < n → m (p + k) = 0) : dataStr (copy (fun _ => 0) (fun i => m (p + i)) n) = some (cells m p k) := by
  have hcell : ∀ i < n, copy (fun _ => 0) (fun i => m (p + i)) n i = m (p + i) := copy_same _ _ n
  rw [dataStr_of hk]
  · congr 1
    apply cells_congr
    intro i hi
    rw [Nat.zero_add]
    exact hcell i (by omega)
  · intro i hi
    rw [hcell i (by omega)]
    exact hne i hi
  · by_cases hlt : k < n
    · rw [hcell k hlt]
      exact hend hlt
    · rw [copy, if_neg hlt]

theorem payload_cell_ne {m : ℕ → UInt8} {p : ℕ} {r : Request} (h : cells m p r.payload.length = r.payload) :
    ∀ i < r.payload.length, m (p + i) ≠ 0 := by
  intro i hi h0
  have hmem : m (p + i) ∈ cells m p r.payload.length := mem_cells hi
  rw [h, h0] at hmem
  exact r.payload_str hmem

/-- the first round of the loop -/
theorem commLoop_first {m : ℕ → UInt8} {fuel : ℕ} {r : Request} {str : List UInt8} (h : Holds m 0 r)
    (hlen : 14 + r.payload.length ≤ 2047) (hf : 5 < fuel)
    (hstr : dataStr (copy (fun _ => 0) (fun i => m (14 + i)) (r.payload.length + 2)) = some str) :
    commLoop parsecmd (fuel + 1) m (fun _ => 0) 0 0 =
      if m (14 + r.payload.length) = 0 then some [⟨r.fd, r.type, str⟩]
      else (commLoop parsecmd fuel (cut m 0)
        (parsecmd (copy (fun _ => 0) (fun i => m (14 + i)) (r.payload.length + 2)))
        (14 + r.payload.length) (14 + r.payload.length)).map (⟨r.fd, r.type, str⟩ :: ·) := by
  have hget : getSendFd fuel m (fun _ => 0) 0 = _ := getSendFd_encoded h (by simp only [engBufLen]; omega) hf
  rw [Nat.zero_add] at hget
  have hsmall : ¬(engBufLen : ℤ) ≤ 0 + (14 + r.payload.length) := by
    simp only [engBufLen]
    omega
  have hpos : ¬((0 : ℕ) : ℤ) + (0 + (14 + r.payload.length)) < 0 := by omega
  have hwords : (((0 : ℕ) : ℤ) + (0 + (14 + r.payload.length))).toNat = 14 + r.payload.length := by omega
  have hcut : cut m 0 (14 + r.payload.length) = m (14 + r.payload.length) := cut_above m (by omega)
  simp only [commLoop, hget, hstr, Option.bind_eq_bind, Option.bind_some, if_neg hsmall, if_neg hpos, hwords, hcut]
  rw [zero_add]

theorem setupSendData_ne (r : Request) : setupSendData r ≠ [] := by
  simp [setupSendData]

/-- a request alone in a read comes out as it went in -/
theorem comm_one (past : ℕ → UInt8) (r : Request) (h : (setupSendData r).length ≤ 2047) :
    comm parsecmd past 7 (setupSendData r) = some [r.parsed] := by
  have hlong := le_setupSendData_length r
  have hlen := setupSendData_length r (by omega)
  have hholds : Holds (tmpBuf past (setupSendData r)) 0 r := by
    have := tmpBuf_holds past [] (setupSendData r) []
    rwa [List.nil_append, List.append_nil] at this
  have hzero : tmpBuf past (setupSendData r) (14 + r.payload.length) = 0 :=
    tmpBuf_behind past (by omega) (by simp only [engBufLen]; omega)
  obtain ⟨-, -, -, hpayload⟩ := hholds.fields (by omega)
  rw [Nat.zero_add] at hpayload
  have hstr := dataStr_copy (Nat.le_add_right r.payload.length 2) (by simp only [engBufLen]; omega)
    (payload_cell_ne hpayload) fun _ => hzero
  rw [hpayload] at hstr
  rw [comm, if_neg (setupSendData_ne r), commLoop_first parsecmd hholds (by omega) (by norm_num) hstr, if_pos hzero]
  rfl

/-- with too little fuel the loop does not get past the first field -/
theorem commLoop_starved {m : ℕ → UInt8} {fuel : ℕ} {r : Request} (h : Holds m 0 r)
    (hlen : 14 + r.payload.length ≤ 2047) (hf : fuel ≤ 5) : commLoop parsecmd (fuel + 1) m (fun _ => 0) 0 0 = none := by
  obtain ⟨⟨hL, -⟩, -⟩ := h.fields (by omega)
  have hnone : strchr m 59 fuel 0 = none := by
    apply strchr_none
    intro i hi
    have hmem : m (0 + i) ∈ cells m 0 5 := mem_cells (by omega)
    rw [hL] at hmem
    exact (padded_clean _ hmem).1
  simp only [commLoop, getSendFd, hnone, Option.bind_eq_bind, Option.bind_none]

/-- two requests in a row: the first is followed by two bytes of the length field of the second -/
theorem next_field_ne {m : ℕ → UInt8} {w : ℕ} {s : Request} (h : Holds m w s) (hlen : 14 + s.payload.length < 100000) :
    m w ≠ 0 ∧ m (w + 1) ≠ 0 := by
  obtain ⟨⟨hL, -⟩, -⟩ := h.fields hlen
  have hcell : ∀ i < 5, m (w + i) ≠ 0 := by
    intro i hi
    have hmem : m (w + i) ∈ cells m w 5 := mem_cells hi
    rw [hL] at hmem
    exact (padded_clean _ hmem).2
  exact ⟨hcell 0 (by norm_num), hcell 1 (by norm_num)⟩

/-- the first of several requests takes the start of the second one with it -/
theorem comm_more (past : ℕ → UInt8) (fuel : ℕ) (r s : Request) (rest : List UInt8)
    (h : (setupSendData r ++ setupSendData s ++ rest).length ≤ 2047) {out : Parsed} {outs : List Parsed}
    (hc : comm parsecmd past fuel (setupSendData r ++ setupSendData s ++ rest) = some (out :: outs)) :
    out.payload.length = r.payload.length + 2 := by
  have hlong := le_setupSendData_length r
  have hlongs := le_setupSendData_length s
  have hne : setupSendData r ++ setupSendData s ++ rest ≠ [] := by simp [setupSendData_ne r]
  have hr : Holds (tmpBuf past (setupSendData r ++ setupSendData s ++ rest)) 0 r := by
    have := tmpBuf_holds past [] (setupSendData r) (setupSendData s ++ rest)
    rwa [List.nil_append, ← List.append_assoc] at this
  have hs : Holds (tmpBuf past (setupSendData r ++ setupSendData s ++ rest)) (setupSendData r).length s :=
    tmpBuf_holds past (setupSendData r) (setupSendData s) rest
  rw [comm, if_neg hne] at hc
  simp only [List.length_append] at h
  have hlen := setupSendData_length r (by omega)
  rw [hlen] at hs h
  generalize tmpBuf past (setupSendData r ++ setupSendData s ++ rest) = m at hr hs hc
  obtain ⟨h0, h1⟩ := next_field_ne hs (by omega)
  obtain ⟨-, -, -, hpayload⟩ := hr.fields (by omega)
  rw [Nat.zero_add] at hpayload
  have hstr := dataStr_copy (m := m) (p := 14) (le_refl (r.payload.length + 2)) (by simp only [engBufLen]; omega)
    (by
      intro i hi
      rcases Nat.lt_trichotomy i r.payload.length with hlt | rfl | hgt
      · exact payload_cell_ne hpayload i hlt
      · exact h0
      · rwa [show 14 + i = 14 + r.payload.length + 1 by omega])
    (fun hlt => absurd hlt (lt_irrefl _))
  cases fuel with
  | zero => exact absurd hc (by simp [commLoop])
  | succ fuel =>
    rcases Nat.lt_or_ge 5 fuel with hf | hf
    · rw [commLoop_first parsecmd hr (by omega) hf hstr, if_neg h0, Option.map_eq_some_iff] at hc
      obtain ⟨_, -, hout⟩ := hc
      rw [← (List.cons.inj hout).1]
      exact length_cells m 14 _
    · rw [commLoop_starved parsecmd hr (by omega) hf] at hc
      exact absurd hc (by simp)

/-- **Framing.** The requests in one read come out as they went in exactly when there is at most one of them. -/
theorem request_framing_iff (past : ℕ → UInt8) (reqs : List Request) (h : (reqs.flatMap setupSendData).length ≤ 2047) :
    (∃ fuel, comm parsecmd past fuel (reqs.flatMap setupSendData) = some (reqs.map Request.parsed)) ↔
      reqs.length ≤ 1 := by
  constructor
  · rintro ⟨fuel, hc⟩
    match reqs, hc, h with
    | [], _, _ => exact Nat.zero_le 1
    | [_], _, _ => exact le_refl 1
    | r :: s :: rest, hc, h =>
      simp only [List.flatMap_cons, ← List.append_assoc] at hc h
      have hbad := comm_more parsecmd past fuel r s _ h hc
      simp only [Request.parsed] at hbad
      omega
  · intro hone
    match reqs, h, hone with
    | [], _, _ => exact ⟨0, rfl⟩
    | [r], h, _ =>
      simp only [List.flatMap_cons, List.flatMap_nil, List.append_nil] at h ⊢
      exact ⟨7, comm_one parsecmd past r h⟩

/-- "1" for descriptor 4 -/
def askOne : Request := ⟨4, 0, [49], by decide, by decide, by decide, by decide⟩

theorem request_framing_iff_one :
    (([askOne] : List Request).flatMap setupSendData).length ≤ 2047 ∧
      ((∃ fuel, comm id (fun _ => 0) fuel ([askOne].flatMap setupSendData) = some ([askOne].map Request.parsed)) ↔
        [askOne].length ≤ 1) :=
  ⟨by decide +kernel, request_framing_iff id (fun _ => 0) [askOne] (by decide +kernel)⟩

/-- two requests of one byte each: the first comes out with two blanks behind it -/
theorem request_framing_two :
    ¬∃ fuel, comm id (fun _ => 0) fuel ([askOne, askOne].flatMap setupSendData)
      = some ([askOne, askOne].map Request.parsed) := by
  rintro ⟨fuel, hc⟩
  have hlen : (setupSendData askOne ++ setupSendData askOne ++ []).length ≤ 2047 := by decide +kernel
  have hbad := comm_more id (fun _ => 0) fuel askOne askOne [] hlen hc
  exact absurd hbad (by decide)

end SprdDevice.EngService
