/-
The base64 codec of the device management library: `mmidm_base64Encode`, which may be fed block by block, and
`DM_Base64_decode`.

- `Coder`: what the encoder works on. The bytes written at `pbTarget` are the list `out`, the bytes that are left of the
  data the list `data`, so that `cbCopySize` and `cbDataProcessed` are their lengths;
- `Dec`: what the decoder works on. `staged` is the part of the 128 byte array `dst` below `temp_dst`, and `cur` the byte
  at `temp_dst`;
- `text t brk o x`: the text of the bytes x, of which the first is the o-th, with a line break every 45 bytes.
Lengths are natural numbers: data and text lie in one address space of 4 GiB, so that no length reaches 2^31.
Results: `encode_last` (the last call writes the text of what was saved and of its data), `encode_next` (a call before
it writes the text of the whole groups) and `decode_encode` (the round trip, for every length).
-/
import Mathlib.Data.List.GetD
import Mathlib.Tactic
import SprdDevice.Lib.Base64
import SprdDevice.Lib.Buffer

namespace SprdDevice.Dm.Base64

open SprdDevice.Base64 SprdDevice.Buffer

/-! ## The encoder -/

def MAX_COLUMNS : ℕ := 45

def tChars : List Char :=
  ['A', 'B', 'C', 'D', 'E', 'F', 'G', 'H', 'I', 'J', 'K', 'L', 'M',
   'N', 'O', 'P', 'Q', 'R', 'S', 'T', 'U', 'V', 'W', 'X', 'Y', 'Z',
   'a', 'b', 'c', 'd', 'e', 'f', 'g', 'h', 'i', 'j', 'k', 'l', 'm',
   'n', 'o', 'p', 'q', 'r', 's', 't', 'u', 'v', 'w', 'x', 'y', 'z',
   '0', '1', '2', '3', '4', '5', '6', '7', '8', '9',
   '+', '/', '=']

/-- the static array t of the encoder -/
def t (i : ℕ) : UInt8 := UInt8.ofNat (tChars.getD i (Char.ofNat 0)).toNat

structure Coder where
  cbTargetSize : ℕ
  out : List UInt8
  data : List UInt8
  pcbOffset : ℕ
  pbSaveBytes : Option (List UInt8)
  iSave : ℕ
deriving DecidableEq, Repr

/-- pbSaveBytes [0], and 0 without an array -/
def Coder.saved (s : Coder) : ℕ :=
  match s.pbSaveBytes with
  | none => 0
  | some v => (v.getD 0 0).toNat

def Coder.savedByte (s : Coder) : ℕ × Coder :=
  match s.pbSaveBytes with
  | none => (0, s)
  | some v => ((v.getD s.iSave 0).toNat, { s with pbSaveBytes := some (v.set 0 (v.getD 0 0 - 1)), iSave := s.iSave + 1 })

def Coder.dataByte (s : Coder) : ℕ × Coder := ((s.data.headD 0).toNat, { s with data := s.data.tail })

/-- byt: the next saved byte, or the next one of the data -/
def Coder.byt (s : Coder) : ℕ × Coder := if s.saved ≠ 0 then s.savedByte else s.dataByte

def Coder.count (s : Coder) : Coder := { s with pcbOffset := s.pcbOffset + 1 }

def Coder.emit (s : Coder) (i0 i1 i2 i3 : ℕ) : Coder :=
  { s with out := s.out ++ [t i0, t i1, t i2, t i3], cbTargetSize := s.cbTargetSize - 4 }

/-- is it time to send a CRLF? -/
def Coder.lineFull (s : Coder) : Bool := decide (0 < s.pcbOffset ∧ s.pcbOffset % MAX_COLUMNS = 0)

def Coder.crlf (s : Coder) : Coder := { s with out := s.out ++ [0x0D, 0x0A], cbTargetSize := s.cbTargetSize - 2 }

/-- the body of the loop behind the line break -/
def Coder.group (s : Coder) : Coder :=
  let r0 := s.byt
  let i0 := r0.1 >>> 2
  let i1 := (r0.1 &&& 0x0003) <<< 4
  let s0 := r0.2.count
  if 0 < s0.data.length then
    let r1 := s0.byt
    let i1 := i1 + r1.1 >>> 4
    let i2 := (r1.1 &&& 0x000F) <<< 2
    let s1 := r1.2.count
    if 0 < s1.data.length then
      let r2 := s1.byt
      let i2 := i2 + (r2.1 &&& 0x00C0) >>> 6
      let i3 := r2.1 &&& 0x003F
      r2.2.count.emit i0 i1 i2 i3
    else s1.emit i0 i1 i2 64
  else s0.emit i0 i1 64 64

/-- the loop. A turn takes four bytes of the target at least, so that its size is enough fuel. -/
def encodeLoop (bLast : ℕ) : ℕ → Coder → Coder
  | 0, s => s
  | fuel + 1, s =>
    if 4 ≤ s.cbTargetSize ∧ ((3 ≤ s.data.length ∧ bLast = 0) ∨ (0 < s.data.length ∧ bLast = 1)) then
      if s.lineFull then
        if s.cbTargetSize < 6 then s else encodeLoop bLast fuel s.crlf.group
      else encodeLoop bLast fuel s.group
    else s

/-- the branch without data: what was saved is sent as two bytes, whatever their number -/
def Coder.flushSaved (s : Coder) : Coder :=
  let s := if s.lineFull then s.crlf else s
  let r0 := s.savedByte
  let r1 := r0.2.count.savedByte
  r1.2.emit (r0.1 >>> 2) ((r0.1 &&& 0x0003) <<< 4 + r1.1 >>> 4) ((r1.1 &&& 0x000F) <<< 2) 0

/-- what a call gives back: the bytes at pbTarget, and its four arguments that are written -/
structure Encoded where
  out : List UInt8
  pbData : Option (List UInt8)
  pcbDataLength : ℕ
  pcbOffset : ℕ
  pbSaveBytes : Option (List UInt8)
deriving DecidableEq, Repr

/-- at most two bytes are saved for the next call, and then none are left -/
def Coder.save (s : Coder) (bLast : ℕ) : Coder :=
  match s.pbSaveBytes with
  | none => s
  | some v =>
    if bLast = 0 ∧ s.data.length ≤ 2 then
      { s with pbSaveBytes := some (write v 0 (UInt8.ofNat s.data.length :: s.data)), data := [] }
    else s

/-- the end of a call: what was neither encoded nor saved moves to the front of the data -/
def Coder.finish (s : Coder) (pbData : Option (List UInt8)) (bLast : ℕ) : Encoded :=
  let s := s.save bLast
  { out := s.out
    pbData := if 0 < s.data.length then pbData.map fun d => write d 0 s.data else pbData
    pcbDataLength := s.data.length
    pcbOffset := s.pcbOffset
    pbSaveBytes := s.pbSaveBytes }

/-- `pbData` is the `*pcbDataLength` bytes at pbData, or NULL with the length 0 -/
def mmidm_base64Encode (cbTargetSize : ℕ) (pbData : Option (List UInt8)) (pcbOffset bLast : ℕ)
    (pbSaveBytes : Option (List UInt8)) : Encoded :=
  let s : Coder := ⟨cbTargetSize, [], pbData.getD [], pcbOffset, pbSaveBytes, 1⟩
  match pbData with
  | none => (if bLast ≠ 0 ∧ s.saved ≠ 0 then s.flushSaved else s).finish none bLast
  | some d => (encodeLoop bLast cbTargetSize s).finish (some d) bLast

/-! ## The decoder -/

def BASE64_BUF_LEN : ℕ := 128

def BJNK : UInt8 := 0o177

def BPAD : UInt8 := 0o100

def decodeTable : List UInt8 :=
  [BJNK, BJNK, BJNK, BJNK, BJNK, BJNK, BJNK, BJNK, BJNK, BJNK, BJNK, BJNK, BJNK, BJNK, BJNK, BJNK,
   BJNK, BJNK, BJNK, BJNK, BJNK, BJNK, BJNK, BJNK, BJNK, BJNK, BJNK, BJNK, BJNK, BJNK, BJNK, BJNK,
   BJNK, BJNK, BJNK, BJNK, BJNK, BJNK, BJNK, BJNK, BJNK, BJNK, BJNK, 0o76, BJNK, BJNK, BJNK, 0o77,
   0o64, 0o65, 0o66, 0o67, 0o70, 0o71, 0o72, 0o73, 0o74, 0o75, BJNK, BJNK, BJNK, BPAD, BJNK, BJNK,
   BJNK, 0o00, 0o01, 0o02, 0o03, 0o04, 0o05, 0o06, 0o07, 0o10, 0o11, 0o12, 0o13, 0o14, 0o15, 0o16,
   0o17, 0o20, 0o21, 0o22, 0o23, 0o24, 0o25, 0o26, 0o27, 0o30, 0o31, BJNK, BJNK, BJNK, BJNK, BJNK,
   BJNK, 0o32, 0o33, 0o34, 0o35, 0o36, 0o37, 0o40, 0o41, 0o42, 0o43, 0o44, 0o45, 0o46, 0o47, 0o50,
   0o51, 0o52, 0o53, 0o54, 0o55, 0o56, 0o57, 0o60, 0o61, 0o62, 0o63, BJNK, BJNK, BJNK, BJNK, BJNK,
   BJNK, BJNK, BJNK, BJNK, BJNK, BJNK, BJNK, BJNK, BJNK, BJNK, BJNK, BJNK, BJNK, BJNK, BJNK, BJNK,
   BJNK, BJNK, BJNK, BJNK, BJNK, BJNK, BJNK, BJNK, BJNK, BJNK, BJNK, BJNK, BJNK, BJNK, BJNK, BJNK,
   BJNK, BJNK, BJNK, BJNK, BJNK, BJNK, BJNK, BJNK, BJNK, BJNK, BJNK, BJNK, BJNK, BJNK, BJNK, BJNK,
   BJNK, BJNK, BJNK, BJNK, BJNK, BJNK, BJNK, BJNK, BJNK, BJNK, BJNK, BJNK, BJNK, BJNK, BJNK, BJNK,
   BJNK, BJNK, BJNK, BJNK, BJNK, BJNK, BJNK, BJNK, BJNK, BJNK, BJNK, BJNK, BJNK, BJNK, BJNK, BJNK,
   BJNK, BJNK, BJNK, BJNK, BJNK, BJNK, BJNK, BJNK, BJNK, BJNK, BJNK, BJNK, BJNK, BJNK, BJNK, BJNK,
   BJNK, BJNK, BJNK, BJNK, BJNK, BJNK, BJNK, BJNK, BJNK, BJNK, BJNK, BJNK, BJNK, BJNK, BJNK, BJNK,
   BJNK, BJNK, BJNK, BJNK, BJNK, BJNK, BJNK, BJNK, BJNK, BJNK, BJNK, BJNK, BJNK, BJNK, BJNK, BJNK]

def decode_table (c : UInt8) : UInt8 := decodeTable.getD c.toNat BJNK

structure Dec where
  e : ℕ
  cntr : ℕ
  staged : List UInt8
  cur : UInt8
  rt : ℕ
  destl : ℕ
  dest : List UInt8
deriving DecidableEq, Repr

/-- num -/
def Dec.num : ℕ := BASE64_BUF_LEN / 3 * 4 - 4

/-- the staged bytes go behind those that are written already; the error is the return of -1 -/
def Dec.copyOut (s : Dec) : Except Dec Dec :=
  if s.destl < s.staged.length then .error s
  else
    .ok { s with
      destl := s.destl - s.staged.length
      dest := write s.dest s.rt s.staged
      rt := s.rt + s.staged.length
      staged := []
      cur := 0 }

def Dec.flush (s : Dec) : Except Dec Dec := if s.staged = [] then .ok s else s.copyOut

/-- a valid character of the value c -/
def Dec.digit (s : Dec) (c : UInt8) : Except Dec Dec :=
  match s.e with
  | 0 => .ok { s with e := 1, cur := c <<< 2 }
  | 1 => .ok { s with e := 2, staged := s.staged ++ [s.cur ||| c >>> 4], cur := c <<< 4 }
  | 2 => .ok { s with e := 3, staged := s.staged ++ [s.cur ||| c >>> 2], cur := c <<< 6 }
  | 3 =>
    -- the byte at the new temp_dst is still 0
    let s1 := { s with e := 0, cntr := s.cntr + 4, staged := s.staged ++ [s.cur ||| c], cur := 0 }
    if s1.cntr = Dec.num then s1.copyOut.map fun s2 => { s2 with cntr := 0 } else .ok s1
  | e + 1 => .ok { s with e := e + 2 }

def decodeLoop : List UInt8 → Dec → Except Dec Dec
  | [], s => .ok s
  | x :: src, s =>
    if decode_table x = BJNK then decodeLoop src s
    else if decode_table x = BPAD then
      match s.e with
      | 2 =>
        -- the second padding character has to follow at once
        if src.head? = some 0x3D then decodeLoop src { s with e := 3 }
        else if src = [] then s.flush.bind .error
        else .error s
      | 3 =>
        -- whatever follows is passed over
        { s with e := 4 }.flush
      | _ => .error s
    else (s.digit (decode_table x)).bind fun s' => decodeLoop src s'

/-- what is returned, and what then stands in the buffer dest -/
def DM_Base64_decode (src dest : List UInt8) (destl : ℕ) : ℤ × List UInt8 :=
  match (decodeLoop src ⟨0, 0, [], 0, 0, destl, dest⟩).bind Dec.flush with
  | .error s => (-1, s.dest)
  | .ok s => if s.destl < 1 then (-1, s.dest) else (s.rt, write s.dest s.rt [0])

/-! ## The encoder writes the text -/

/-- the line break before the group that begins at byte o -/
def brk (o : ℕ) : List UInt8 := if 0 < o ∧ o % MAX_COLUMNS = 0 then [0x0D, 0x0A] else []

theorem length_group3 (a b c : UInt8) : (group3 t a b c).length = 4 := rfl

/-- the length of the text of n bytes, of which the first is the o-th of the data -/
def textSize (o n : ℕ) : ℕ := 4 * ((n + 2) / 3) + ((groupStarts o n).map fun p => (brk p).length).sum

theorem length_text (o : ℕ) (x : List UInt8) : (text t brk o x).length = textSize o x.length := text_length t brk o x

/-- the coder has the bytes ks saved, and the bytes d before it -/
structure Coding (s : Coder) (ks d out : List UInt8) (size o : ℕ) : Prop where
  saved : s.saved = ks.length
  bytes : ∀ v, s.pbSaveBytes = some v → ks <+: v.drop s.iSave
  none : s.pbSaveBytes = none → ks = []
  iSave : 1 ≤ s.iSave
  data : s.data = d
  out : s.out = out
  size : s.cbTargetSize = size
  offset : s.pcbOffset = o

variable {s : Coder} {ks d out : List UInt8} {size o : ℕ}

theorem Coding.byt_data {b : UInt8} (h : Coding s [] (b :: d) out size o) :
    s.byt.1 = b.toNat ∧ Coding s.byt.2 [] d out size o := by
  have hs : s.saved = 0 := h.saved
  have hbyt : s.byt = s.dataByte := by
    unfold Coder.byt
    rw [if_neg (not_not.mpr hs)]
  rw [hbyt, Coder.dataByte, h.data]
  exact ⟨rfl, ⟨h.saved, h.bytes, h.none, h.iSave, rfl, h.out, h.size, h.offset⟩⟩

theorem Coding.byt_saved {k : UInt8} (h : Coding s (k :: ks) d out size o) :
    s.byt.1 = k.toNat ∧ Coding s.byt.2 ks d out size o := by
  have hs : s.saved ≠ 0 := by
    rw [h.saved]
    exact Nat.succ_ne_zero _
  have hbyt : s.byt = s.savedByte := by
    unfold Coder.byt
    rw [if_pos hs]
  cases hv : s.pbSaveBytes with
  | none => cases h.none hv
  | some v =>
    obtain ⟨rest, hrest⟩ := h.bytes v hv
    have hlt : s.iSave < v.length := by
      by_contra hge
      rw [List.drop_eq_nil_of_le (Nat.not_lt.mp hge)] at hrest
      cases hrest
    have hsplit := List.drop_eq_getElem_cons hlt
    rw [hsplit, List.cons_append, List.cons.injEq] at hrest
    have hcount : s.saved = (v.getD 0 0).toNat := by
      unfold Coder.saved
      rw [hv]
    rw [hbyt, Coder.savedByte, hv]
    refine ⟨?_, ?_, ?_, ?_, ?_, h.data, h.out, h.size, h.offset⟩
    · change (v.getD s.iSave 0).toNat = k.toNat
      rw [List.getD_eq_getElem v 0 hlt, hrest.1]
    · have hpos : 0 < v.length := by omega
      have hle : (v.getD 0 0).toNat = ks.length + 1 := hcount.symm.trans h.saved
      change ((v.set 0 (v.getD 0 0 - 1)).getD 0 0).toNat = ks.length
      have hget : (v.set 0 (v.getD 0 0 - 1)).getD 0 0 = v.getD 0 0 - 1 := by
        rw [List.getD_eq_getElem _ 0 (by rwa [List.length_set]), List.getElem_set_self]
      have hone : (1 : UInt8) ≤ v.getD 0 0 := by
        rw [UInt8.le_iff_toNat_le, hle]
        exact Nat.le_add_left _ _
      rw [hget, UInt8.toNat_sub_of_le _ _ hone, hle]
      rfl
    · intro w hw
      have hw' : v.set 0 (v.getD 0 0 - 1) = w := Option.some.inj hw
      rw [← hw']
      change ks <+: (v.set 0 (v.getD 0 0 - 1)).drop (s.iSave + 1)
      rw [List.drop_set_of_lt (Nat.succ_pos _)]
      exact ⟨rest, hrest.2⟩
    · intro hn
      cases hn
    · exact Nat.le_add_left 1 _

theorem Coding.count (h : Coding s ks d out size o) : Coding s.count ks d out size (o + 1) :=
  ⟨h.saved, h.bytes, h.none, h.iSave, h.data, h.out, h.size, congrArg (· + 1) h.offset⟩

theorem Coding.emit (h : Coding s ks d out size o) (i0 i1 i2 i3 : ℕ) :
    Coding (s.emit i0 i1 i2 i3) ks d (out ++ [t i0, t i1, t i2, t i3]) (size - 4) o :=
  ⟨h.saved, h.bytes, h.none, h.iSave, h.data, congrArg (· ++ [t i0, t i1, t i2, t i3]) h.out,
    congrArg (· - 4) h.size, h.offset⟩

theorem Coding.crlf (h : Coding s ks d out size o) : Coding s.crlf ks d (out ++ [0x0D, 0x0A]) (size - 2) o :=
  ⟨h.saved, h.bytes, h.none, h.iSave, h.data, congrArg (· ++ [0x0D, 0x0A]) h.out, congrArg (· - 2) h.size, h.offset⟩

/-- the next byte is the first of what is saved and of what lies before the coder -/
theorem Coding.byt {b : UInt8} {r : List UInt8} (h : Coding s ks d out size o) (hb : ks ++ d = b :: r) :
    s.byt.1 = b.toNat ∧ ∃ d', Coding s.byt.2 ks.tail d' out size o ∧ ks.tail ++ d' = r := by
  cases ks with
  | nil =>
    rw [List.nil_append] at hb
    rw [hb] at h
    exact ⟨h.byt_data.1, r, h.byt_data.2, rfl⟩
  | cons k ks =>
    rw [List.cons_append, List.cons.injEq] at hb
    rw [← hb.1, ← hb.2]
    exact ⟨h.byt_saved.1, d, h.byt_saved.2, rfl⟩

section Digits

variable (a b : UInt8)

theorem digit0 : a.toNat >>> 2 = a.toNat / 4 := Nat.shiftRight_eq_div_pow _ 2

theorem digit1 : (a.toNat &&& 0x0003) <<< 4 = a.toNat % 4 * 16 := by
  rw [Nat.shiftLeft_eq, Nat.and_two_pow_sub_one_eq_mod a.toNat 2]

theorem digit2 : (a.toNat &&& 0x000F) <<< 2 = a.toNat % 16 * 4 := by
  rw [Nat.shiftLeft_eq, Nat.and_two_pow_sub_one_eq_mod a.toNat 4]

theorem digit3 : a.toNat &&& 0x003F = a.toNat % 64 := Nat.and_two_pow_sub_one_eq_mod a.toNat 6

theorem carry1 : a.toNat >>> 4 = a.toNat / 16 := Nat.shiftRight_eq_div_pow _ 4

theorem carry2 : (a.toNat &&& 0x00C0) >>> 6 = a.toNat / 64 := by
  have hlt : a.toNat / 64 < 4 := by
    have := a.toNat_lt
    omega
  rw [Nat.shiftRight_and_distrib, Nat.shiftRight_eq_div_pow]
  calc a.toNat / 2 ^ 6 &&& 0x00C0 >>> 6 = a.toNat / 64 % 4 := Nat.and_two_pow_sub_one_eq_mod _ 2
    _ = a.toNat / 64 := Nat.mod_eq_of_lt hlt

end Digits

section Group

variable {a b c : UInt8} {r : List UInt8}

theorem Coding.full (h : Coding s ks d out size o) (hf : ks ++ d = a :: b :: c :: r) (hk : ks.length ≤ 2) :
    Coding s.group [] r (out ++ group3 t a b c) (size - 4) (o + 3) := by
  obtain ⟨ha, d1, h1, hf1⟩ := h.byt hf
  obtain ⟨hb, d2, h2, hf2⟩ := h1.count.byt hf1
  obtain ⟨hc, d3, h3, hf3⟩ := h2.count.byt hf2
  have hlen1 := congrArg List.length hf1
  have hlen2 := congrArg List.length hf2
  simp only [List.length_append, List.length_tail, List.length_cons] at hlen1 hlen2
  have hd1 : 0 < s.byt.2.count.data.length := by
    rw [h1.count.data]
    omega
  have hd2 : 0 < s.byt.2.count.byt.2.count.data.length := by
    rw [h2.count.data]
    omega
  have hks : ks.tail.tail.tail = [] := by
    apply List.eq_nil_of_length_eq_zero
    simp only [List.length_tail]
    omega
  rw [hks] at h3 hf3
  rw [List.nil_append] at hf3
  rw [hf3] at h3
  have hgroup : s.group = s.byt.2.count.byt.2.count.byt.2.count.emit (a.toNat / 4) (a.toNat % 4 * 16 + b.toNat / 16)
      (b.toNat % 16 * 4 + c.toNat / 64) (c.toNat % 64) := by
    unfold Coder.group
    simp only [if_pos hd1, if_pos hd2, ha, hb, hc, digit0, digit1, digit2, digit3, carry1, carry2]
  rw [hgroup]
  exact h3.count.emit _ _ _ _

theorem Coding.pair (h : Coding s ks d out size o) (hf : ks ++ d = [a, b]) (hd : d ≠ []) :
    Coding s.group [] [] (out ++ group2 t a b) (size - 4) (o + 2) := by
  obtain ⟨ha, d1, h1, hf1⟩ := h.byt hf
  obtain ⟨hb, d2, h2, hf2⟩ := h1.count.byt hf1
  have hlen := congrArg List.length hf
  have hlen1 := congrArg List.length hf1
  have hpos := List.length_pos_iff.mpr hd
  simp only [List.length_append, List.length_tail, List.length_cons, List.length_nil] at hlen hlen1
  have hd1 : 0 < s.byt.2.count.data.length := by
    rw [h1.count.data]
    omega
  obtain ⟨hks, hd2⟩ := List.append_eq_nil_iff.mp hf2
  rw [hks, hd2] at h2
  have hstop : ¬ 0 < s.byt.2.count.byt.2.count.data.length := by
    rw [h2.count.data]
    exact Nat.lt_irrefl 0
  have hgroup : s.group = s.byt.2.count.byt.2.count.emit (a.toNat / 4) (a.toNat % 4 * 16 + b.toNat / 16)
      (b.toNat % 16 * 4) 64 := by
    unfold Coder.group
    simp only [if_pos hd1, if_neg hstop, ha, hb, digit0, digit1, digit2, carry1]
  rw [hgroup]
  exact h2.count.emit _ _ _ _

theorem Coding.single (h : Coding s ks d out size o) (hf : ks ++ d = [a]) :
    Coding s.group [] [] (out ++ group1 t a) (size - 4) (o + 1) := by
  obtain ⟨ha, d1, h1, hf1⟩ := h.byt hf
  obtain ⟨hks, hd1⟩ := List.append_eq_nil_iff.mp hf1
  rw [hks, hd1] at h1
  have hstop : ¬ 0 < s.byt.2.count.data.length := by
    rw [h1.count.data]
    exact Nat.lt_irrefl 0
  have hgroup : s.group = s.byt.2.count.emit (a.toNat / 4) (a.toNat % 4 * 16) 64 64 := by
    unfold Coder.group
    simp only [if_neg hstop, ha, digit0, digit1]
  rw [hgroup]
  exact h1.count.emit _ _ _ _

end Group

/-! ## The loop -/

/-- does the loop make a turn? -/
def Turns (bLast : ℕ) (d : List UInt8) : Prop := (3 ≤ d.length ∧ bLast = 0) ∨ (0 < d.length ∧ bLast = 1)

variable {bLast fuel : ℕ}

theorem Coding.line (h : Coding s ks d out size o) : s.lineFull = true ↔ 0 < o ∧ o % MAX_COLUMNS = 0 := by
  unfold Coder.lineFull
  rw [h.offset, decide_eq_true_eq]

/-- one turn, when the line break and the group still fit -/
theorem Coding.turn (h : Coding s ks d out size o) (ht : Turns bLast d) (hsize : (brk o).length + 4 ≤ size)
    (hfuel : size ≤ fuel) : ∃ fuel' s', size ≤ fuel' + 4 ∧ encodeLoop bLast fuel s = encodeLoop bLast fuel' s'.group ∧
      Coding s' ks d (out ++ brk o) (size - (brk o).length) o := by
  obtain ⟨fuel', rfl⟩ : ∃ fuel', fuel = fuel' + 1 := ⟨fuel - 1, by omega⟩
  have hcond : 4 ≤ s.cbTargetSize ∧ ((3 ≤ s.data.length ∧ bLast = 0) ∨ (0 < s.data.length ∧ bLast = 1)) := by
    rw [h.size, h.data]
    exact ⟨by omega, ht⟩
  rw [encodeLoop, if_pos hcond]
  by_cases hline : 0 < o ∧ o % MAX_COLUMNS = 0
  · have hbrk : brk o = [0x0D, 0x0A] := if_pos hline
    rw [hbrk] at hsize ⊢
    have hsix : ¬ s.cbTargetSize < 6 := by
      rw [h.size]
      exact Nat.not_lt.mpr hsize
    rw [if_pos (h.line.mpr hline), if_neg hsix]
    exact ⟨fuel', s.crlf, by omega, rfl, h.crlf⟩
  · have hbrk : brk o = [] := if_neg hline
    rw [if_neg (fun hl => hline (h.line.mp hl)), hbrk, List.append_nil]
    exact ⟨fuel', s, by omega, rfl, h⟩

/-- the loop ends where no turn is made -/
theorem Coding.stop (h : Coding s ks d out size o) (ht : ¬ Turns bLast d ∨ size < 4) : encodeLoop bLast fuel s = s := by
  cases fuel with
  | zero => rfl
  | succ fuel =>
    have hcond : ¬ (4 ≤ s.cbTargetSize ∧ ((3 ≤ s.data.length ∧ bLast = 0) ∨ (0 < s.data.length ∧ bLast = 1))) := by
      rw [h.size, h.data]
      rcases ht with ht | ht
      · exact fun hc => ht hc.2
      · exact fun hc => absurd hc.1 (Nat.not_le.mpr ht)
    rw [encodeLoop, if_neg hcond]

/-- a turn that takes a whole group -/
theorem Coding.step {a b c : UInt8} {r : List UInt8} (h : Coding s ks d out size o) (hf : ks ++ d = a :: b :: c :: r)
    (hk : ks.length ≤ 2) (ht : Turns bLast d) (hsize : (brk o).length + 4 ≤ size) (hfuel : size ≤ fuel) :
    ∃ fuel' s', size - ((brk o).length + 4) ≤ fuel' ∧ encodeLoop bLast fuel s = encodeLoop bLast fuel' s' ∧
      Coding s' [] r (out ++ (brk o ++ group3 t a b c)) (size - ((brk o).length + 4)) (o + 3) := by
  obtain ⟨fuel', s', hf', heq, h'⟩ := h.turn ht hsize hfuel
  have hgroup := h'.full hf hk
  rw [List.append_assoc, Nat.sub_sub] at hgroup
  exact ⟨fuel', s'.group, by omega, heq, hgroup⟩

/-- a turn that takes a group, and the turns that take the groups p behind it -/
theorem Coding.consGroup {a b c : UInt8} {p q : List UInt8} (h : Coding s ks d out size o)
    (hf : ks ++ d = a :: b :: c :: p ++ q) (hk : ks.length ≤ 2) (ht : Turns bLast d)
    (hsize : (text t brk o (a :: b :: c :: p)).length ≤ size) (hfuel : size ≤ fuel)
    (hrest : ∀ {s1 out1 size1 fuel1}, Coding s1 [] (p ++ q) out1 size1 (o + 3) →
      (text t brk (o + 3) p).length ≤ size1 → size1 ≤ fuel1 →
      ∃ fuel' s', size1 - (text t brk (o + 3) p).length ≤ fuel' ∧ encodeLoop bLast fuel1 s1 = encodeLoop bLast fuel' s' ∧
        Coding s' [] q (out1 ++ text t brk (o + 3) p) (size1 - (text t brk (o + 3) p).length) (o + 3 + p.length)) :
    ∃ fuel' s', size - (text t brk o (a :: b :: c :: p)).length ≤ fuel' ∧
      encodeLoop bLast fuel s = encodeLoop bLast fuel' s' ∧
      Coding s' [] q (out ++ text t brk o (a :: b :: c :: p)) (size - (text t brk o (a :: b :: c :: p)).length)
        (o + (a :: b :: c :: p).length) := by
  have hlen : (text t brk o (a :: b :: c :: p)).length = (brk o).length + 4 + (text t brk (o + 3) p).length := by
    rw [text_group, List.length_append, List.length_append, length_group3]
  obtain ⟨fuel1, s1, hf1, heq1, h1⟩ := h.step hf hk ht (by omega) hfuel
  obtain ⟨fuel2, s2, hf2, heq2, h2⟩ := hrest h1 (by omega) hf1
  have hend : o + (a :: b :: c :: p).length = o + 3 + p.length := by
    simp only [List.length_cons]
    omega
  rw [hlen, ← Nat.sub_sub, hend, text_group, ← List.append_assoc]
  exact ⟨fuel2, s2, hf2, heq1.trans heq2, h2⟩

theorem length_mod_three_tail {a b c : UInt8} {p : List UInt8} (hp : (a :: b :: c :: p).length % 3 = 0) :
    p.length % 3 = 0 := by
  simp only [List.length_cons] at hp
  omega

/-- the turns that take the groups p, when nothing is saved -/
theorem Coding.groups {p q : List UInt8} (hp : p.length % 3 = 0) (h : Coding s [] (p ++ q) out size o)
    (hb : bLast = 0 ∨ bLast = 1) (hsize : (text t brk o p).length ≤ size) (hfuel : size ≤ fuel) :
    ∃ fuel' s', size - (text t brk o p).length ≤ fuel' ∧ encodeLoop bLast fuel s = encodeLoop bLast fuel' s' ∧
      Coding s' [] q (out ++ text t brk o p) (size - (text t brk o p).length) (o + p.length) := by
  induction o, p using text.induct generalizing s out size fuel with
  | case1 o =>
    rw [text_nil, List.append_nil]
    exact ⟨fuel, s, by simpa using hfuel, rfl, h⟩
  | case2 o a => simp at hp
  | case3 o a b => simp at hp
  | case4 o a b c p ih =>
    have hturns : Turns bLast (a :: b :: c :: p ++ q) := by
      have hlen : 3 ≤ (a :: b :: c :: p ++ q).length := by
        simp only [List.cons_append, List.length_cons]
        omega
      rcases hb with hb | hb
      · exact Or.inl ⟨hlen, hb⟩
      · exact Or.inr ⟨by omega, hb⟩
    exact h.consGroup rfl (Nat.zero_le 2) hturns hsize hfuel fun h1 => ih (length_mod_three_tail hp) h1

/-- the same with saved bytes, which the first group takes -/
theorem Coding.someGroups {p q : List UInt8} (hp : p.length % 3 = 0) (h : Coding s ks d out size o)
    (hf : ks ++ d = p ++ q) (hne : p ≠ []) (hk : ks.length ≤ 2) (ht : Turns bLast d)
    (hsize : (text t brk o p).length ≤ size) (hfuel : size ≤ fuel) :
    ∃ fuel' s', size - (text t brk o p).length ≤ fuel' ∧ encodeLoop bLast fuel s = encodeLoop bLast fuel' s' ∧
      Coding s' [] q (out ++ text t brk o p) (size - (text t brk o p).length) (o + p.length) := by
  have hb : bLast = 0 ∨ bLast = 1 := ht.imp And.right And.right
  rcases p with _ | ⟨a, _ | ⟨b, _ | ⟨c, p⟩⟩⟩
  · exact absurd rfl hne
  · simp at hp
  · simp at hp
  · exact h.consGroup hf hk ht hsize hfuel fun h1 => h1.groups (length_mod_three_tail hp) hb

/-- the turn that takes what is less than a group, at the end of the data -/
theorem Coding.lastGroup {q : List UInt8} (h : Coding s ks d out size o) (hf : ks ++ d = q) (hq : q.length < 3)
    (hd : d ≠ [] ∨ ks = []) (hsize : (text t brk o q).length ≤ size) (hfuel : size ≤ fuel) :
    ∃ size', Coding (encodeLoop 1 fuel s) [] [] (out ++ text t brk o q) size' (o + q.length) := by
  have hstop : ¬ Turns 1 ([] : List UInt8) := by
    unfold Turns
    simp
  by_cases hnil : d = []
  · have hks : ks = [] := hd.resolve_left (fun hne => hne hnil)
    rw [hnil, hks, List.append_nil] at hf
    rw [← hf, text_nil, List.append_nil]
    rw [hks, hnil] at h
    rw [h.stop (Or.inl hstop)]
    exact ⟨size, h⟩
  · have hturns : Turns 1 d := Or.inr ⟨List.length_pos_iff.mpr hnil, rfl⟩
    rcases q with _ | ⟨a, _ | ⟨b, _ | ⟨c, q⟩⟩⟩
    · exact absurd (List.append_eq_nil_iff.mp hf).2 hnil
    · rw [text_one, List.length_append] at hsize
      obtain ⟨fuel', s', -, heq, h'⟩ := h.turn hturns hsize hfuel
      have hend := h'.single hf
      rw [heq, hend.stop (Or.inl hstop), text_one, ← List.append_assoc]
      exact ⟨_, hend⟩
    · rw [text_two, List.length_append] at hsize
      obtain ⟨fuel', s', -, heq, h'⟩ := h.turn hturns hsize hfuel
      have hend := h'.pair hf hnil
      rw [heq, hend.stop (Or.inl hstop), text_two, ← List.append_assoc]
      exact ⟨_, hend⟩
    · simp only [List.length_cons] at hq
      omega

/-! ## A whole call -/

/-- the array p holds the bytes ks, saved for the next call -/
def Kept (p : Option (List UInt8)) (ks : List UInt8) : Prop :=
  match p with
  | none => ks = []
  | some v => (v.getD 0 0).toNat = ks.length ∧ ks <+: v.drop 1

theorem Kept.coding {p : Option (List UInt8)} (h : Kept p ks) (size : ℕ) (d : List UInt8) (o : ℕ) :
    Coding ⟨size, [], d, o, p, 1⟩ ks d [] size o := by
  cases p with
  | none =>
    have hks : ks = [] := h
    subst hks
    exact ⟨rfl, fun v hv => (nomatch hv), fun _ => rfl, le_refl 1, rfl, rfl, rfl, rfl⟩
  | some v =>
    refine ⟨h.1, fun w hw => ?_, fun hn => (nomatch hn), le_refl 1, rfl, rfl, rfl, rfl⟩
    rw [← Option.some.inj hw]
    exact h.2

theorem save_last (s : Coder) : s.save 1 = s := by
  unfold Coder.save
  split
  · rfl
  · rw [if_neg fun h => absurd h.1 (by decide)]

theorem save_out (s : Coder) (bLast : ℕ) : (s.save bLast).out = s.out := by
  unfold Coder.save
  split
  · rfl
  · split_ifs <;> rfl

theorem save_offset (s : Coder) (bLast : ℕ) : (s.save bLast).pcbOffset = s.pcbOffset := by
  unfold Coder.save
  split
  · rfl
  · split_ifs <;> rfl

/-- **The last call** writes the text of what was saved and of its data. -/
theorem encode_last {p : Option (List UInt8)} (h : Kept p ks) (hk : ks.length ≤ 2) (hd : d ≠ [] ∨ ks = [])
    (hsize : (text t brk o (ks ++ d)).length ≤ size) :
    (mmidm_base64Encode size (some d) o 1 p).out = text t brk o (ks ++ d) ∧
      (mmidm_base64Encode size (some d) o 1 p).pcbDataLength = 0 := by
  have h0 := h.coding size d o
  obtain ⟨size', hend⟩ : ∃ size', Coding (encodeLoop 1 size ⟨size, [], d, o, p, 1⟩) [] [] (text t brk o (ks ++ d)) size'
      (o + (ks ++ d).length) := by
    have hsplit := List.take_append_drop ((ks ++ d).length / 3 * 3) (ks ++ d)
    generalize hp : (ks ++ d).take ((ks ++ d).length / 3 * 3) = x at hsplit
    generalize hq : (ks ++ d).drop ((ks ++ d).length / 3 * 3) = y at hsplit
    have hx : x.length % 3 = 0 := by
      rw [← hp, List.length_take]
      omega
    have hy : y.length < 3 := by
      rw [← hq, List.length_drop]
      omega
    have htext : text t brk o (ks ++ d) = text t brk o x ++ text t brk (o + x.length) y := by
      rw [← hsplit]
      exact text_append t brk o x y hx
    have hlen := congrArg List.length htext
    rw [List.length_append] at hlen
    by_cases hnil : x = []
    · rw [hnil, List.nil_append] at hsplit
      rw [hsplit] at hy
      exact h0.lastGroup rfl hy hd hsize (le_refl size)
    · have hdne : d ≠ [] := by
        rcases hd with hd | hks
        · exact hd
        · rintro rfl
          rw [hks, List.nil_append] at hsplit
          exact hnil (List.append_eq_nil_iff.mp hsplit).1
      have hturns : Turns 1 d := Or.inr ⟨List.length_pos_iff.mpr hdne, rfl⟩
      obtain ⟨fuel', s', hf', heq, h'⟩ := h0.someGroups hx hsplit.symm hnil hk hturns (by omega) (le_refl size)
      obtain ⟨size', hend⟩ := h'.lastGroup (List.nil_append y) hy (Or.inr rfl) (by omega) hf'
      rw [heq, htext, ← hsplit, List.length_append, ← Nat.add_assoc]
      exact ⟨size', hend⟩
  refine ⟨(save_out _ 1).trans hend.out, ?_⟩
  rw [mmidm_base64Encode, Coder.finish, save_last]
  exact congrArg List.length hend.data

/-- what a call before the last one encodes, and what it saves: a block of less than three bytes is only saved -/
def keep (ks d : List UInt8) : List UInt8 × List UInt8 :=
  if d.length < 3 then ([], d) else ((ks ++ d).take ((ks ++ d).length / 3 * 3), (ks ++ d).drop ((ks ++ d).length / 3 * 3))

theorem length_keep_fst (ks d : List UInt8) : (keep ks d).1.length % 3 = 0 := by
  unfold keep
  split_ifs with hd
  · rfl
  · rw [List.length_take]
    omega

theorem length_keep_snd (ks d : List UInt8) : (keep ks d).2.length ≤ 2 := by
  unfold keep
  split_ifs with hd
  · exact Nat.le_of_lt_succ hd
  · rw [List.length_drop]
    omega

/-- the length of the array that the bytes are saved in -/
def Coder.room (s : Coder) : Option ℕ := s.pbSaveBytes.map List.length

theorem room_count (s : Coder) : s.count.room = s.room := rfl

theorem room_emit (s : Coder) (i0 i1 i2 i3 : ℕ) : (s.emit i0 i1 i2 i3).room = s.room := rfl

theorem room_byt (s : Coder) : s.byt.2.room = s.room := by
  unfold Coder.byt
  split_ifs
  · unfold Coder.savedByte
    cases hp : s.pbSaveBytes with
    | none => rfl
    | some v =>
      rw [Coder.room, Coder.room, hp]
      exact congrArg some (List.length_set ..)
  · rfl

theorem room_group (s : Coder) : s.group.room = s.room := by
  unfold Coder.group
  dsimp only
  split_ifs
  · rw [room_emit, room_count, room_byt, room_count, room_byt, room_count, room_byt]
  · rw [room_emit, room_count, room_byt, room_count, room_byt]
  · rw [room_emit, room_count, room_byt]

theorem room_encodeLoop (bLast fuel : ℕ) (s : Coder) : (encodeLoop bLast fuel s).room = s.room := by
  induction fuel generalizing s with
  | zero => rfl
  | succ fuel ih =>
    rw [encodeLoop]
    split_ifs
    · rfl
    · rw [ih, room_group]
      rfl
    · rw [ih, room_group]
    · rfl

/-- a call leaves the data as long as they were -/
theorem data_encodeLoop_le (bLast fuel : ℕ) (s : Coder) : (encodeLoop bLast fuel s).data.length ≤ s.data.length := by
  have hbyt (s : Coder) : s.byt.2.data.length ≤ s.data.length := by
    unfold Coder.byt
    split_ifs
    · unfold Coder.savedByte
      split <;> exact le_refl _
    · exact List.length_tail.le.trans (Nat.sub_le _ 1)
  have hgroup (s : Coder) : s.group.data.length ≤ s.data.length := by
    have h0 : s.byt.2.count.data.length ≤ s.data.length := hbyt s
    have h1 : s.byt.2.count.byt.2.count.data.length ≤ s.data.length := (hbyt _).trans h0
    have h2 : s.byt.2.count.byt.2.count.byt.2.count.data.length ≤ s.data.length := (hbyt _).trans h1
    unfold Coder.group
    dsimp only
    split_ifs
    · exact h2
    · exact h1
    · exact h0
  induction fuel generalizing s with
  | zero => exact le_refl _
  | succ fuel ih =>
    rw [encodeLoop]
    split_ifs
    · exact le_refl _
    · exact (ih _).trans (hgroup s.crlf)
    · exact (ih _).trans (hgroup s)
    · exact le_refl _

theorem data_save_le (s : Coder) (bLast : ℕ) : (s.save bLast).data.length ≤ s.data.length := by
  unfold Coder.save
  split
  · exact le_refl _
  · split_ifs
    · exact Nat.zero_le _
    · exact le_refl _

theorem length_pbData (size : ℕ) (d : List UInt8) (o bLast : ℕ) (p : Option (List UInt8)) :
    ((mmidm_base64Encode size (some d) o bLast p).pbData.getD []).length = d.length := by
  have hle := data_encodeLoop_le bLast size ⟨size, [], d, o, p, 1⟩
  have hfit : 0 + ((encodeLoop bLast size ⟨size, [], d, o, p, 1⟩).save bLast).data.length ≤ d.length := by
    rw [Nat.zero_add]
    exact (data_save_le _ bLast).trans hle
  rw [mmidm_base64Encode, Coder.finish]
  dsimp only [Option.getD_some]
  split_ifs
  · exact length_write hfit
  · rfl

/-- a target that ends behind the groups p gets no more than their text -/
theorem encode_cut {p : Option (List UInt8)} {x y : List UInt8} (h : Kept p []) (hx : x.length % 3 = 0)
    (hsize : textSize o x.length ≤ size) (hfull : size < textSize o x.length + 4) :
    (mmidm_base64Encode size (some (x ++ y)) o 1 p).out = text t brk o x := by
  rw [← length_text] at hsize hfull
  obtain ⟨fuel', s', -, heq, h'⟩ := (h.coding size (x ++ y) o).groups hx (Or.inr rfl) hsize (le_refl size)
  have hstop : encodeLoop 1 size ⟨size, [], x ++ y, o, p, 1⟩ = s' :=
    heq.trans (h'.stop (Or.inr (by omega)))
  have hout := h'.out
  rw [← hstop] at hout
  exact (save_out _ 1).trans hout

/-- **A call before the last one** writes the text of the whole groups and saves what is left of its data. -/
theorem encode_next {v : List UInt8} (h : Kept (some v) ks) (hv : 3 ≤ v.length) (hk : ks.length ≤ 2)
    (hsize : (text t brk o (keep ks d).1).length ≤ size) :
    (mmidm_base64Encode size (some d) o 0 (some v)).out = text t brk o (keep ks d).1 ∧
      (mmidm_base64Encode size (some d) o 0 (some v)).pcbOffset = o + (keep ks d).1.length ∧
      ∃ v', (mmidm_base64Encode size (some d) o 0 (some v)).pbSaveBytes = some v' ∧ 3 ≤ v'.length ∧
        Kept (some v') (keep ks d).2 := by
  have h0 := h.coding size d o
  have hleft := length_keep_snd ks d
  have hno {l : List UInt8} (hl : l.length ≤ 2) : ¬ Turns 0 l := by
    unfold Turns
    omega
  obtain ⟨ks', size', hend⟩ : ∃ ks' size', Coding (encodeLoop 0 size ⟨size, [], d, o, some v, 1⟩) ks' (keep ks d).2
      (text t brk o (keep ks d).1) size' (o + (keep ks d).1.length) := by
    by_cases hd : d.length < 3
    · have hkeep : keep ks d = ([], d) := if_pos hd
      rw [h0.stop (Or.inl (hno (Nat.le_of_lt_succ hd))), hkeep, text_nil]
      exact ⟨ks, size, h0⟩
    · have hkeep : keep ks d = (_, _) := if_neg hd
      have hsplit : ks ++ d = (keep ks d).1 ++ (keep ks d).2 := by
        rw [hkeep, List.take_append_drop]
      have hne : (keep ks d).1 ≠ [] := by
        rw [hkeep]
        apply List.ne_nil_of_length_pos
        rw [List.length_take, List.length_append]
        omega
      have hturns : Turns 0 d := Or.inl ⟨Nat.not_lt.mp hd, rfl⟩
      obtain ⟨fuel', s', -, heq, h'⟩ := h0.someGroups (length_keep_fst ks d) hsplit hne hk hturns hsize (le_refl size)
      rw [heq, h'.stop (Or.inl (hno hleft))]
      exact ⟨[], _, h'⟩
  refine ⟨(save_out _ 0).trans hend.out, (save_offset _ 0).trans hend.offset, ?_⟩
  have hroom := room_encodeLoop 0 size ⟨size, [], d, o, some v, 1⟩
  rw [Coder.room] at hroom
  cases hw : (encodeLoop 0 size ⟨size, [], d, o, some v, 1⟩).pbSaveBytes with
  | none =>
    rw [hw] at hroom
    cases hroom
  | some w =>
    rw [hw] at hroom
    have hlen : w.length = v.length := Option.some.inj hroom
    have hsave : (mmidm_base64Encode size (some d) o 0 (some v)).pbSaveBytes =
        some (write w 0 (UInt8.ofNat (keep ks d).2.length :: (keep ks d).2)) := by
      rw [mmidm_base64Encode, Coder.finish]
      simp only [Option.getD_some, Coder.save, hw, hend.data]
      rw [if_pos ⟨trivial, hleft⟩]
    have hfit : 0 + (UInt8.ofNat (keep ks d).2.length :: (keep ks d).2).length ≤ w.length := by
      rw [List.length_cons]
      omega
    refine ⟨_, hsave, by rw [length_write hfit]; omega, ?_⟩
    have hnat : (UInt8.ofNat (keep ks d).2.length).toNat = (keep ks d).2.length := toNat_ofNat_of_lt_64 (by omega)
    exact ⟨hnat, w.drop (0 + (UInt8.ofNat (keep ks d).2.length :: (keep ks d).2).length), rfl⟩

/-! ## The decoder reads the text back -/

theorem decode_table_t {i : ℕ} (h : i < 64) : decode_table (t i) = UInt8.ofNat i := by
  have hall : ∀ i < 64, decode_table (t i) = UInt8.ofNat i := by decide +kernel
  exact hall i h

theorem decode_table_pad : decode_table (t 64) = BPAD := by decide +kernel

theorem decodeLoop_digit {i : ℕ} (h : i < 64) (src : List UInt8) (s : Dec) :
    decodeLoop (t i :: src) s = (s.digit (UInt8.ofNat i)).bind fun s' => decodeLoop src s' := by
  have hnat : (UInt8.ofNat i).toNat = i := toNat_ofNat_of_lt_64 h
  have hjunk : UInt8.ofNat i ≠ BJNK := by
    intro heq
    have hv : i = 127 := by rw [← hnat, heq]; rfl
    omega
  have hpad : UInt8.ofNat i ≠ BPAD := by
    intro heq
    have hv : i = 64 := by rw [← hnat, heq]; rfl
    omega
  rw [decodeLoop, decode_table_t h, if_neg hjunk, if_neg hpad]

theorem decodeLoop_junk {l : List UInt8} (h : ∀ c ∈ l, decode_table c = BJNK) (src : List UInt8) (s : Dec) :
    decodeLoop (l ++ src) s = decodeLoop src s := by
  induction l with
  | nil => rfl
  | cons c l ih =>
    rw [List.cons_append, decodeLoop, if_pos (h c (List.mem_cons_self ..))]
    exact ih fun c' hc' => h c' (List.mem_cons_of_mem c hc')

/-- between two groups: x is decoded, of which the staged part is not yet in the buffer -/
structure Decoding (dest : List UInt8) (destl : ℕ) (s : Dec) (x : List UInt8) : Prop where
  e : s.e = 0
  staged : s.staged.length * 4 = s.cntr * 3
  cntr : s.cntr + 4 ≤ Dec.num
  out : ∃ y, x = y ++ s.staged ∧ s.rt = y.length ∧ s.dest = write dest 0 y ∧ s.destl + y.length = destl

/-- at the end: everything is in the buffer -/
structure Decoded (dest : List UInt8) (destl : ℕ) (s : Dec) (x : List UInt8) : Prop where
  staged : s.staged = []
  rt : s.rt = x.length
  dest : s.dest = write dest 0 x
  destl : s.destl + x.length = destl

section Decode

variable {dest : List UInt8} {destl : ℕ} {s : Dec} {x : List UInt8}

/-- the copy behind what is in the buffer already -/
theorem copyOut_decoded {y : List UInt8} (hd : destl ≤ dest.length) (hy : s.rt = y.length) (hdest : s.dest = write dest 0 y)
    (hl : s.destl + y.length = destl) (hx : y.length + s.staged.length ≤ destl) :
    ∃ s', s.copyOut = .ok s' ∧ Decoded dest destl s' (y ++ s.staged) ∧ s'.e = s.e := by
  have hroom : ¬ s.destl < s.staged.length := by omega
  have hfit : 0 + y.length ≤ dest.length := by omega
  rw [Dec.copyOut, if_neg hroom]
  refine ⟨_, rfl, ⟨rfl, ?_, ?_, ?_⟩, rfl⟩
  · change s.rt + s.staged.length = _
    rw [List.length_append, hy]
  · change write s.dest s.rt s.staged = _
    rw [write_append y s.staged hfit, hdest, hy, Nat.zero_add]
  · change s.destl - s.staged.length + (y ++ s.staged).length = destl
    rw [List.length_append]
    omega

theorem flush_decoded {y : List UInt8} (hd : destl ≤ dest.length) (hy : s.rt = y.length) (hdest : s.dest = write dest 0 y)
    (hl : s.destl + y.length = destl) (hx : y.length + s.staged.length ≤ destl) :
    ∃ s', s.flush = .ok s' ∧ Decoded dest destl s' (y ++ s.staged) := by
  unfold Dec.flush
  split_ifs with hnil
  · refine ⟨s, rfl, hnil, ?_, ?_, ?_⟩ <;> rw [hnil, List.append_nil] <;> assumption
  · obtain ⟨s', heq, hs', -⟩ := copyOut_decoded hd hy hdest hl hx
    exact ⟨s', heq, hs'⟩

theorem Decoded.flush (h : Decoded dest destl s x) : s.flush = .ok s := if_pos h.staged

section Digit

variable (c : UInt8)

theorem digit_first (h : s.e = 0) : s.digit c = .ok { s with e := 1, cur := c <<< 2 } := by
  simp only [Dec.digit, h]

theorem digit_second (h : s.e = 1) :
    s.digit c = .ok { s with e := 2, staged := s.staged ++ [s.cur ||| c >>> 4], cur := c <<< 4 } := by
  simp only [Dec.digit, h]

theorem digit_third (h : s.e = 2) :
    s.digit c = .ok { s with e := 3, staged := s.staged ++ [s.cur ||| c >>> 2], cur := c <<< 6 } := by
  simp only [Dec.digit, h]

theorem digit_fourth (h : s.e = 3) :
    s.digit c =
      if s.cntr + 4 = Dec.num then
        (Dec.copyOut { s with e := 0, cntr := s.cntr + 4, staged := s.staged ++ [s.cur ||| c], cur := 0 }).map
          fun s2 => { s2 with cntr := 0 }
      else .ok { s with e := 0, cntr := s.cntr + 4, staged := s.staged ++ [s.cur ||| c], cur := 0 } := by
  simp only [Dec.digit, h]

end Digit

/-- the first two digits of a group -/
theorem decodeLoop_two {a : UInt8} {i : ℕ} (h : s.e = 0) (hi : i < 16) (src : List UInt8) :
    decodeLoop (t (a.toNat / 4) :: t (a.toNat % 4 * 16 + i) :: src) s =
      decodeLoop src { s with e := 2, staged := s.staged ++ [a], cur := UInt8.ofNat (a.toNat % 4 * 16 + i) <<< 4 } := by
  have ha := a.toNat_lt
  rw [decodeLoop_digit (by omega), digit_first _ h]
  dsimp only [Except.bind]
  rw [decodeLoop_digit (by omega), digit_second _ rfl]
  dsimp only [Except.bind]
  rw [join_first a hi]

/-- and the third -/
theorem decodeLoop_three {a b : UInt8} {i : ℕ} (h : s.e = 0) (hi : i < 4) (src : List UInt8) :
    decodeLoop (t (a.toNat / 4) :: t (a.toNat % 4 * 16 + b.toNat / 16) :: t (b.toNat % 16 * 4 + i) :: src) s =
      decodeLoop src { s with e := 3, staged := s.staged ++ [a, b], cur := UInt8.ofNat (b.toNat % 16 * 4 + i) <<< 6 } := by
  have hb := b.toNat_lt
  rw [decodeLoop_two h (by omega), decodeLoop_digit (by omega), digit_third _ rfl]
  dsimp only [Except.bind]
  rw [join_second b (by omega) hi, List.append_assoc]
  rfl

/-- the padding in the place of the fourth character -/
theorem decodeLoop_pad_fourth (h : s.e = 3) (src : List UInt8) :
    decodeLoop (t 64 :: src) s = Dec.flush { s with e := 4 } := by
  rw [decodeLoop, decode_table_pad, if_neg (by decide), if_pos rfl]
  simp only [h]

/-- the padding in the place of the third character -/
theorem decodeLoop_pad_third (h : s.e = 2) (src : List UInt8) :
    decodeLoop (t 64 :: t 64 :: src) s = decodeLoop (t 64 :: src) { s with e := 3 } := by
  have hhead : (t 64 :: src).head? = some 0x3D := congrArg some (by decide +kernel : t 64 = 0x3D)
  rw [decodeLoop, decode_table_pad, if_neg (by decide), if_pos rfl]
  simp only [h]
  rw [if_pos hhead]

theorem decode_group3 (hd : destl ≤ dest.length) (h : Decoding dest destl s x) (a b c : UInt8)
    (hl : x.length + 3 ≤ destl) (src : List UInt8) :
    ∃ s', decodeLoop (group3 t a b c ++ src) s = decodeLoop src s' ∧ Decoding dest destl s' (x ++ [a, b, c]) := by
  have hc := c.toNat_lt
  have hb := b.toNat_lt
  obtain ⟨y, hx, hrt, hdest, hdestl⟩ := h.out
  have hstaged := h.staged
  have hcntr := h.cntr
  have hxlen : x.length = y.length + s.staged.length := by rw [hx, List.length_append]
  simp only [group3, List.cons_append, List.nil_append]
  rw [decodeLoop_three h.e (by omega), decodeLoop_digit (by omega), digit_fourth _ rfl]
  dsimp only
  rw [join_third c (by omega), List.append_assoc]
  have hxabc : x ++ [a, b, c] = y ++ (s.staged ++ ([a, b] ++ [c])) := by
    rw [hx, List.append_assoc]
    rfl
  have hlen : (s.staged ++ ([a, b] ++ [c])).length = s.staged.length + 3 := by simp
  split_ifs with hnum
  · obtain ⟨s', heq, hs', he⟩ := copyOut_decoded (s := { s with
        e := 0, cntr := s.cntr + 4, staged := s.staged ++ ([a, b] ++ [c]), cur := 0 }) hd hrt hdest hdestl
      (by rw [hlen]; omega)
    rw [heq]
    refine ⟨{ s' with cntr := 0 }, rfl, he, by rw [hs'.staged]; rfl, (by decide : 0 + 4 ≤ Dec.num), x ++ [a, b, c], ?_⟩
    rw [hxabc, hs'.staged, List.append_nil]
    exact ⟨rfl, hs'.rt, hs'.dest, hs'.destl⟩
  · refine ⟨_, rfl, rfl, ?_, ?_, y, hxabc, hrt, hdest, hdestl⟩
    · change (s.staged ++ ([a, b] ++ [c])).length * 4 = (s.cntr + 4) * 3
      rw [hlen]
      omega
    · change s.cntr + 4 + 4 ≤ Dec.num
      have hn : Dec.num = 164 := rfl
      omega

/-- the whole text, with line breaks of characters that the decoder passes over -/
theorem decode_text {brk' : ℕ → List UInt8} (hbrk : ∀ o, ∀ c ∈ brk' o, decode_table c = BJNK) (hd : destl ≤ dest.length)
    (o : ℕ) (y : List UInt8) (h : Decoding dest destl s x) (hl : x.length + y.length ≤ destl) :
    ∃ s', (decodeLoop (text t brk' o y) s).bind Dec.flush = .ok s' ∧ Decoded dest destl s' (x ++ y) := by
  induction o, y using text.induct generalizing s x with
  | case1 o =>
    obtain ⟨y, hx, hrt, hdest, hdestl⟩ := h.out
    have hxlen : y.length + s.staged.length ≤ destl := by
      rw [← List.length_append, ← hx]
      exact hl
    rw [text_nil, List.append_nil, hx]
    exact flush_decoded hd hrt hdest hdestl hxlen
  | case2 o a =>
    obtain ⟨y, hx, hrt, hdest, hdestl⟩ := h.out
    have hxa : x ++ [a] = y ++ (s.staged ++ [a]) := by rw [hx, List.append_assoc]
    have hlen := congrArg List.length hxa
    simp only [List.length_append, List.length_cons, List.length_nil] at hl hlen
    obtain ⟨s', heq, hs'⟩ := flush_decoded (s := { s with
        e := 4, staged := s.staged ++ [a], cur := UInt8.ofNat (a.toNat % 4 * 16 + 0) <<< 4 }) hd hrt hdest hdestl
      (by simp only [List.length_append, List.length_cons, List.length_nil]; omega)
    have hloop : decodeLoop (text t brk' o [a]) s = .ok s' := by
      rw [text_one, decodeLoop_junk (hbrk o), group1]
      have htwo := decodeLoop_two (a := a) (i := 0) h.e (by omega) [t 64, t 64]
      rw [Nat.add_zero] at htwo
      rw [htwo, decodeLoop_pad_third rfl, decodeLoop_pad_fourth rfl]
      exact heq
    rw [hloop, hxa]
    exact ⟨s', hs'.flush, hs'⟩
  | case3 o a b =>
    obtain ⟨y, hx, hrt, hdest, hdestl⟩ := h.out
    have hxab : x ++ [a, b] = y ++ (s.staged ++ [a, b]) := by rw [hx, List.append_assoc]
    have hlen := congrArg List.length hxab
    simp only [List.length_append, List.length_cons, List.length_nil] at hl hlen
    obtain ⟨s', heq, hs'⟩ := flush_decoded (s := { s with
        e := 4, staged := s.staged ++ [a, b], cur := UInt8.ofNat (b.toNat % 16 * 4 + 0) <<< 6 }) hd hrt hdest hdestl
      (by simp only [List.length_append, List.length_cons, List.length_nil]; omega)
    have hloop : decodeLoop (text t brk' o [a, b]) s = .ok s' := by
      rw [text_two, decodeLoop_junk (hbrk o), group2]
      have hthree := decodeLoop_three (a := a) (b := b) (i := 0) h.e (by omega) [t 64]
      rw [Nat.add_zero] at hthree
      rw [hthree, decodeLoop_pad_fourth rfl]
      exact heq
    rw [hloop, hxab]
    exact ⟨s', hs'.flush, hs'⟩
  | case4 o a b c y ih =>
    simp only [List.length_cons] at hl
    obtain ⟨s', heq, hs'⟩ := decode_group3 hd h a b c (by omega) (text t brk' (o + 3) y)
    obtain ⟨s'', hend, hs''⟩ := ih hs' (by simp only [List.length_append, List.length_cons, List.length_nil]; omega)
    rw [text_group, List.append_assoc, decodeLoop_junk (hbrk o), heq]
    refine ⟨s'', hend, ?_⟩
    rw [List.append_assoc] at hs''
    exact hs''

/-- **The decoder gives back what a text is the text of**, and a terminator. -/
theorem decode_of_text {brk' : ℕ → List UInt8} (hbrk : ∀ o, ∀ c ∈ brk' o, decode_table c = BJNK) (o : ℕ)
    (y : List UInt8) (hd : destl ≤ dest.length) (hl : y.length + 1 ≤ destl) :
    DM_Base64_decode (text t brk' o y) dest destl = ((y.length : ℤ), write dest 0 (y ++ [0])) := by
  have h0 : Decoding dest destl ⟨0, 0, [], 0, 0, destl, dest⟩ [] :=
    ⟨rfl, rfl, (by decide : 0 + 4 ≤ Dec.num), [], rfl, rfl, (write_nil dest 0).symm, Nat.add_zero destl⟩
  obtain ⟨s', heq, hs'⟩ := decode_text hbrk hd o y h0 (by rw [List.length_nil]; omega)
  rw [List.nil_append] at hs'
  have hroom : ¬ s'.destl < 1 := by
    have := hs'.destl
    omega
  have hfit : 0 + y.length ≤ dest.length := by omega
  rw [DM_Base64_decode, heq]
  dsimp only
  rw [if_neg hroom, hs'.rt, hs'.dest, write_append y [0] hfit, Nat.zero_add]

end Decode

theorem brk_junk (o : ℕ) : ∀ c ∈ brk o, decode_table c = BJNK := by
  unfold brk
  split_ifs
  · decide +kernel
  · exact fun c hc => absurd hc List.not_mem_nil

/-- **Decoding what was encoded in one call gives the bytes back**, behind them a terminator, and their number. The
target has room for the text. -/
theorem decode_encode (x : List UInt8) (cbTargetSize : ℕ) (pbSaveBytes : Option (List UInt8)) (dest : List UInt8)
    (destl : ℕ) (hsaved : Kept pbSaveBytes []) (htarget : textSize 0 x.length ≤ cbTargetSize)
    (hdest : destl ≤ dest.length) (hdestl : x.length + 1 ≤ destl) :
    DM_Base64_decode (mmidm_base64Encode cbTargetSize (some x) 0 1 pbSaveBytes).out dest destl =
      ((x.length : ℤ), x ++ 0 :: dest.drop (x.length + 1)) := by
  rw [(encode_last hsaved (Nat.zero_le 2) (Or.inr rfl) (by rwa [List.nil_append, length_text])).1, List.nil_append,
    decode_of_text brk_junk 0 x hdest hdestl]
  simp [write]

/-- over two line breaks, and once through the decoder's array -/
theorem decode_encode_three_lines :
    DM_Base64_decode (mmidm_base64Encode 180 (some (List.replicate 130 7)) 0 1 none).out (List.replicate 140 1) 131 =
      (130, List.replicate 130 7 ++ 0 :: List.replicate 9 1) := by
  have h := decode_encode (List.replicate 130 7) 180 none (List.replicate 140 1) 131 rfl (by decide +kernel) (by simp)
    (by simp)
  simpa only [List.length_replicate, List.drop_replicate, Nat.cast_ofNat] using h

end SprdDevice.Dm.Base64
