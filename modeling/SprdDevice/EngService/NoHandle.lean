/-
A reply that is passed on as it comes: the `ENG_AT_NOHANDLE_CMD` branch of `eng_modem2server` with `rstrstr` and
`isAtNoHandleEnd` in `eng_modemclient.c`.

- a result of `read` is `none` where it is negative, and else the bytes;
- `s_ATDictBuf` is a memory, cleared before the loop, and its string ends inside its 2048 bytes;
- the loop on no more results is `none`: it waits in `read`.

The pointer is advanced by the bytes of all reads so far instead of those of the last one. It is right behind the first
chunk, and past the end of the string behind the second.

Results: `loop_lost` and `no_handle_iff`.
-/
import Mathlib.Tactic
import Mathlib.Data.UInt
import SprdDevice.Lib.Text
import SprdDevice.EngService.Request

namespace SprdDevice.EngService

open SprdDevice.Memory SprdDevice.Text

/-! ## Model -/

/-- `strstr`: where the needle first occurs -/
def strstr (needle : List UInt8) : List UInt8 → Option ℕ
  | [] => if needle = [] then some 0 else none
  | b :: t => if needle.isPrefixOf (b :: t) then some 0 else (strstr needle t).map (· + 1)

/-- `for (;;)` of `rstrstr`, from offset `ofs` of the haystack on -/
def rstrstrLoop (needle haystack : List UInt8) : ℕ → ℕ → Option ℕ → Option ℕ
  | 0, _, result => result
  | fuel + 1, ofs, result =>
    match strstr needle (haystack.drop ofs) with
    | none => result
    | some p => rstrstrLoop needle haystack fuel (ofs + p + 1) (some (ofs + p))

/-- the last occurrence of needle in haystack; it moves on by a byte each time -/
def rstrstr (haystack needle : List UInt8) : Option ℕ :=
  if needle = [] then some 0 else rstrstrLoop needle haystack (haystack.length + 1) 0 none

/-- `s_AllResponse` -/
def allResponse : List (List UInt8) :=
  [ [79, 75]                                             -- OK
  , [67, 79, 78, 78, 69, 67, 84]                         -- CONNECT
  , [69, 82, 82, 79, 82]                                 -- ERROR
  , [43, 67, 77, 83, 32, 69, 82, 82, 79, 82, 58]         -- +CMS ERROR:
  , [43, 67, 77, 69, 32, 69, 82, 82, 79, 82, 58]         -- +CME ERROR:
  , [78, 79, 32, 67, 65, 82, 82, 73, 69, 82]             -- NO CARRIER
  , [78, 79, 32, 65, 78, 83, 87, 69, 82]                 -- NO ANSWER
  , [78, 79, 32, 68, 73, 65, 76, 84, 79, 78, 69]         -- NO DIALTONE
  , [62] ]                                               -- >

/-- `\r\n` or `\n\r` right before p -/
def startsAt (data : List UInt8) (p : ℕ) : Bool :=
  decide (2 ≤ p) && (let two := (data.drop (p - 2)).take 2; two == [10, 13] || two == [13, 10])

/-- the last two bytes; a string that has a response behind `startsAt` has them -/
def endsWell (data : List UInt8) : Bool :=
  let two := data.drop (data.length - 2)
  two == [13, 10] || two == [32, 10] || two == [10, 13]

def isAtNoHandleEnd (data : List UInt8) : Bool :=
  allResponse.any fun response =>
    match rstrstr data response with
    | some p => startsAt data p && endsWell data
    | none => false

/-- the variables of the branch -/
structure DictBuf where
  buf : ℕ → UInt8
  ptr : ℕ
  counter : ℕ

def dictStart : DictBuf := { buf := fun _ => 0, ptr := 0, counter := 0 }

/-- the string in `s_ATDictBuf` -/
def DictBuf.str (s : DictBuf) : List UInt8 := cstr s.buf engBufLen 0

/-- `counter += tmp; ptr += counter;` -/
def readInto (s : DictBuf) : Option (List UInt8) → DictBuf
  | none => s
  | some c => { buf := store s.buf s.ptr c, ptr := s.ptr + (s.counter + c.length), counter := s.counter + c.length }

/-- the loop: what it leaves and the results it has not read -/
def noHandleLoop (s : DictBuf) : List (Option (List UInt8)) → Option (DictBuf × List (Option (List UInt8)))
  | [] => none
  | r :: rs => if isAtNoHandleEnd (readInto s r).str then some (readInto s r, rs) else noHandleLoop (readInto s r) rs

/-! ## Statement -/

/-- the bytes of all results -/
def bytesOf (rs : List (Option (List UInt8))) : List UInt8 := rs.flatMap fun r => r.getD []

/-- a division of a reply: no chunk is empty, and the last result is one -/
structure Division (reply : List UInt8) (rs : List (Option (List UInt8))) : Prop where
  bytes : bytesOf rs = reply
  nonempty : some [] ∉ rs
  last : none ∉ rs.getLast?

/-- the loop ends behind the last result, and `eng_write2server` gets these bytes and this length -/
def HandsOn (s : DictBuf) (rs : List (Option (List UInt8))) (reply : List UInt8) : Prop :=
  ∃ t, noHandleLoop s rs = some (t, []) ∧ cells t.buf 0 t.counter = reply ∧ t.counter = reply.length

/-- a modem reply -/
structure Reply (reply : List UInt8) : Prop where
  nul : 0 ∉ reply
  length : reply.length < engBufLen
  early : ∀ p, p <+: reply → p ≠ reply → isAtNoHandleEnd p = false

/-- the number of chunks -/
def chunks (rs : List (Option (List UInt8))) : ℕ := rs.countP Option.isSome

/-! ## The loop -/

/-- once the pointer is past the end of the string, the string stays -/
theorem loop_lost {s : DictBuf} {u : List UInt8} (hstr : IsStr s.buf 0 u) (hlt : u.length < engBufLen)
    (hptr : u.length < s.ptr) (hnot : isAtNoHandleEnd u = false) (rs : List (Option (List UInt8))) :
    noHandleLoop s rs = none := by
  induction rs generalizing s with
  | nil => rfl
  | cons r rs ih =>
    have hnext : IsStr (readInto s r).buf 0 u ∧ u.length < (readInto s r).ptr := by
      cases r with
      | none => exact ⟨hstr, hptr⟩
      | some c =>
        have hsame : ∀ i ≤ u.length, store s.buf s.ptr c i = s.buf i := fun i hi =>
          store_outside _ _ (Or.inl (lt_of_le_of_lt hi hptr))
        refine ⟨⟨?_, hstr.nul, ?_⟩, ?_⟩
        · calc cells (store s.buf s.ptr c) 0 u.length = cells s.buf 0 u.length :=
                cells_congr fun i hi => hsame (0 + i) (by omega)
            _ = u := hstr.cells
        · rw [Nat.zero_add, readInto]
          dsimp only
          rw [hsame _ le_rfl]
          have hstop := hstr.stop
          rwa [Nat.zero_add] at hstop
        · rw [readInto]
          dsimp only
          omega
    have hread : (readInto s r).str = u := hnext.1.cstr_eq (by omega)
    rw [noHandleLoop, hread, if_neg (by simp [hnot])]
    exact ih hnext.1 hnext.2

/-- everything read so far lies in front, and zeros behind it -/
structure Filled (s : DictBuf) (done : List UInt8) : Prop where
  str : IsStr s.buf 0 done
  zero : ∀ i, done.length ≤ i → s.buf i = 0
  ptr : s.ptr = done.length
  counter : s.counter = done.length

theorem filled_start : Filled dictStart [] := ⟨isStr_nil rfl, fun _ _ => rfl, rfl, rfl⟩

/-- a chunk at the end of the string -/
theorem Filled.chunk {s : DictBuf} {done c : List UInt8} (h : Filled s done) (hc : 0 ∉ c) :
    IsStr (readInto s (some c)).buf 0 (done ++ c) ∧
      (∀ i, (done ++ c).length ≤ i → (readInto s (some c)).buf i = 0) ∧
      (readInto s (some c)).counter = (done ++ c).length ∧
      (readInto s (some c)).ptr = done.length + (done ++ c).length := by
  have hbuf : store s.buf (0 + done.length) (c ++ [0]) = store s.buf s.ptr c := by
    have hptr : 0 + done.length = s.ptr := by rw [h.ptr, Nat.zero_add]
    have hstop : s.buf (s.ptr + c.length) = 0 := h.zero _ (by rw [h.ptr]; exact Nat.le_add_right _ _)
    rw [hptr, store_append]
    funext i
    by_cases hi : i = s.ptr + c.length
    · have hone := store_add (store s.buf s.ptr c) (s.ptr + c.length) [(0 : UInt8)] (j := 0) (by simp)
      rw [Nat.add_zero] at hone
      rw [hi, hone, store_outside _ c (Or.inr le_rfl), hstop]
      rfl
    · exact store_outside _ _ (by rw [List.length_singleton]; omega)
  have hlen : (done ++ c).length = done.length + c.length := List.length_append
  refine ⟨?_, fun i hi => ?_, ?_, ?_⟩
  · rw [readInto]
    dsimp only
    rw [← hbuf]
    exact h.str.append hc
  · rw [readInto]
    dsimp only
    rw [store_outside _ _ (Or.inr (by rw [h.ptr]; omega))]
    exact h.zero i (by omega)
  · rw [readInto, hlen]
    dsimp only
    rw [h.counter]
  · rw [readInto, hlen]
    dsimp only
    rw [h.ptr, h.counter]

/-- a division without bytes has no results -/
theorem Division.eq_nil {rs : List (Option (List UInt8))} (h : Division [] rs) : rs = [] := by
  rcases List.eq_nil_or_concat' rs with rfl | ⟨init, r, rfl⟩
  · rfl
  · cases r with
    | none => exact absurd (by simp) h.last
    | some c =>
      have hbytes := h.bytes
      rw [bytesOf, List.flatMap_append, List.append_eq_nil_iff] at hbytes
      have hc : c = [] := by simpa using hbytes.2
      exact absurd (by simp [hc]) h.nonempty

theorem Division.tail {reply : List UInt8} {r : Option (List UInt8)} {rs : List (Option (List UInt8))}
    (h : Division reply (r :: rs)) (hne : rs ≠ []) : Division (bytesOf rs) rs where
  bytes := rfl
  nonempty hmem := h.nonempty (List.mem_cons_of_mem r hmem)
  last := by
    have hlast := h.last
    rwa [List.getLast?_cons_of_ne_nil hne] at hlast

theorem bytesOf_ne_nil {rs : List (Option (List UInt8))} (h : Division (bytesOf rs) rs) (hne : rs ≠ []) :
    bytesOf rs ≠ [] := by
  intro hnil
  rw [hnil] at h
  exact hne h.eq_nil

theorem chunks_pos {rs : List (Option (List UInt8))} (h : bytesOf rs ≠ []) : 0 < chunks rs := by
  rw [chunks, List.countP_pos_iff]
  by_contra hnone
  refine h (List.flatMap_eq_nil_iff.2 fun r hr => ?_)
  cases r with
  | none => rfl
  | some c => exact absurd ⟨some c, hr, rfl⟩ hnone

/-- a part of the reply does not end as one -/
theorem Reply.not_end {reply done rest : List UInt8} (hreply : Reply reply) (hsplit : done ++ rest = reply)
    (hrest : rest ≠ []) : isAtNoHandleEnd done = false := by
  refine hreply.early done ⟨_, hsplit⟩ fun heq => hrest ?_
  rw [← hsplit] at heq
  exact List.self_eq_append_right.1 heq

/-- from a good start two chunks may come, and behind the first one more -/
theorem handsOn_iff {reply done : List UInt8} (hreply : Reply reply) {rs : List (Option (List UInt8))} {s : DictBuf}
    (h : Filled s done) (hsplit : done ++ bytesOf rs = reply) (hdiv : Division (bytesOf rs) rs) (hne : rs ≠ []) :
    HandsOn s rs reply ↔ isAtNoHandleEnd reply = true ∧ chunks rs + (if done = [] then 0 else 1) ≤ 2 := by
  induction rs generalizing s done with
  | nil => exact absurd rfl hne
  | cons r rs ih =>
    have hlen := hreply.length
    have hrest := bytesOf_ne_nil hdiv hne
    cases r with
    | none =>
      have hrs : rs ≠ [] := by
        rintro rfl
        exact hrest rfl
      have hproper : isAtNoHandleEnd done = false := hreply.not_end hsplit hrest
      have hstr : (readInto s none).str = done := h.str.cstr_eq (by
        have hle := congrArg List.length hsplit
        rw [List.length_append] at hle
        omega)
      have hrec := ih h hsplit (hdiv.tail hrs) hrs
      unfold HandsOn at hrec ⊢
      rw [noHandleLoop, hstr, if_neg (by simp [hproper])]
      exact hrec
    | some c =>
      have hc : c ≠ [] := by
        rintro rfl
        exact hdiv.nonempty (List.mem_cons_self ..)
      have hbytes : bytesOf (some c :: rs) = c ++ bytesOf rs := rfl
      rw [hbytes, ← List.append_assoc] at hsplit
      have hnul : 0 ∉ c := fun h0 => hreply.nul (by
        rw [← hsplit]
        exact List.mem_append_left _ (List.mem_append_right _ h0))
      obtain ⟨hstr, hzero, hcounter, hptr⟩ := h.chunk hnul
      have hdoneLen := congrArg List.length hsplit
      rw [List.length_append] at hdoneLen
      have hread : (readInto s (some c)).str = done ++ c := hstr.cstr_eq (by omega)
      have hcount : chunks (some c :: rs) = chunks rs + 1 := List.countP_cons_of_pos rfl
      by_cases hrs : rs = []
      · -- the last chunk
        subst hrs
        have hwhole : done ++ c = reply := by rw [← hsplit]; exact (List.append_nil _).symm
        unfold HandsOn
        rw [noHandleLoop, hread, hwhole]
        cases hend : isAtNoHandleEnd reply with
        | true =>
          rw [if_pos rfl]
          refine iff_of_true ⟨_, rfl, ?_, by rw [hcounter, hwhole]⟩ ⟨rfl, ?_⟩
          · rw [hcounter]
            exact hstr.cells.trans hwhole
          · rw [hcount]
            split_ifs <;> simp [chunks]
        | false =>
          rw [if_neg (by decide)]
          exact iff_of_false (fun ⟨_, ht, _⟩ => absurd ht (by simp [noHandleLoop])) (fun ht => absurd ht.1 (by decide))
      · have hdiv' := hdiv.tail hrs
        have hmore := bytesOf_ne_nil hdiv' hrs
        have hproper : isAtNoHandleEnd (done ++ c) = false := hreply.not_end hsplit hmore
        by_cases hdone : done = []
        · subst hdone
          have hfilled : Filled (readInto s (some c)) c := ⟨hstr, hzero, hptr.trans (Nat.zero_add _), hcounter⟩
          have hrec := ih hfilled hsplit hdiv' hrs
          have hturn : noHandleLoop s (some c :: rs) = noHandleLoop (readInto s (some c)) rs := by
            rw [noHandleLoop, hread, hproper]
            rfl
          unfold HandsOn at hrec ⊢
          rw [hturn, hrec, hcount, if_neg hc, if_pos rfl]
        · -- the pointer is too far for a third chunk
          have hpos := List.length_pos_iff.2 hdone
          have hlost := loop_lost hstr (by omega) (by rw [hptr]; omega) hproper rs
          have hchunks := chunks_pos hmore
          unfold HandsOn
          rw [noHandleLoop, hread, if_neg (by simp [hproper]), hlost, hcount, if_neg hdone]
          exact iff_of_false (fun ⟨_, ht, _⟩ => absurd ht (by simp)) (fun ht => by omega)

/-- **Pass-through.** The reply is handed on whole and at once, just when it ends as one and comes in at most two chunks -/
theorem no_handle_iff (reply : List UInt8) (hreply : Reply reply) (rs : List (Option (List UInt8)))
    (hdiv : Division reply rs) :
    HandsOn dictStart rs reply ↔ isAtNoHandleEnd reply = true ∧ chunks rs ≤ 2 := by
  by_cases hne : rs = []
  · subst hne
    have hnil : reply = [] := hdiv.bytes.symm
    rw [hnil]
    exact iff_of_false (fun ⟨_, ht, _⟩ => absurd ht (by simp [noHandleLoop])) (fun ht => absurd ht.1 (by decide))
  · have hbytes := hdiv.bytes
    subst hbytes
    have hiff := handsOn_iff hreply filled_start (List.nil_append _) hdiv hne
    rwa [if_pos rfl, Nat.add_zero] at hiff

/-- `\r\nOK\r\n` -/
def okReply : List UInt8 := [13, 10, 79, 75, 13, 10]

theorem okReply_reply : Reply okReply where
  nul := by decide
  length := by decide
  early p hp hne := by
    have hle := hp.length_le
    have htake := List.prefix_iff_eq_take.1 hp
    have hlt : p.length < 6 := by
      refine lt_of_le_of_ne hle fun heq => hne ?_
      exact hp.eq_of_length heq
    have hall : ∀ k < 6, isAtNoHandleEnd (okReply.take k) = false := by decide +kernel
    rw [htake]
    exact hall p.length hlt

theorem no_handle_iff_two : HandsOn dictStart [some [13, 10, 79], none, some [75, 13, 10]] okReply ↔
    isAtNoHandleEnd okReply = true ∧ chunks [some [13, 10, 79], none, some [75, 13, 10]] ≤ 2 :=
  no_handle_iff okReply okReply_reply _ ⟨rfl, by decide, by decide⟩

/-- in three chunks the reply is never recognized -/
theorem no_handle_broken : ¬ ∀ reply, Reply reply → isAtNoHandleEnd reply = true → ∀ rs, Division reply rs →
    HandsOn dictStart rs reply := by
  intro h
  have hdiv : Division okReply [some [13, 10], some [79, 75], some [13, 10]] := ⟨rfl, by decide, by decide⟩
  have hon := h okReply okReply_reply (by decide +kernel) _ hdiv
  have hsplit : [] ++ bytesOf [some [13, 10], some [79, 75], some [13, 10]] = okReply := rfl
  have hiff := handsOn_iff okReply_reply filled_start hsplit hdiv (by simp)
  exact absurd (hiff.1 hon).2 (by decide)

end SprdDevice.EngService
