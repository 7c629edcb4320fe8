/-
The credentials of the device management library.

- basic: `mmidm_calc_b64_cred` writes the base64 text of a string over the string. It passes the encoder the target size
  80, whatever the length of the string;
- digest: `MMIDM_GetCreddata` is meant to give b64(md5(b64(md5(name:password)):nonce)), for the nonce whose base64 text is
  `s_g_nonce`. `MMIDM_B64_Md5` copies as many bytes as it is told to and then hashes the string among them.
Buffers are lists of their cells. `none` is an access outside of a buffer. The md5 code is a function `md5` from byte
strings to 16 bytes.
Results: `calc_b64_cred_iff` (the basic credential is complete exactly up to 57 bytes) and `getCreddata_iff` (the digest
credential is right exactly for nonces of 16 to 45 bytes without a NUL).
-/
import Mathlib.Tactic
import Mathlib.Data.UInt
import SprdDevice.Dm.Base64Stream

namespace SprdDevice.Dm.Credential

open SprdDevice.Base64 SprdDevice.Buffer SprdDevice.Dm.Base64

/-! ## The code -/

/-- the block that is allocated is not read before it is written, so that what it holds at first does not matter -/
def mmidm_calc_b64_cred (creddata : List UInt8) (cbLength : ℕ) : Option (List UInt8) :=
  if cbLength = 0 then put creddata 0 [0]
  else do
    let cbDigestSize := 80
    let abSave := [0, 0, 0, 0]
    let outputdata := List.replicate (cbLength * 2 + 4) 0
    let data ← fetch creddata cbLength
    let r := mmidm_base64Encode cbDigestSize (some data) 0 1 (some abSave)
    let cbCopied := r.out.length
    let outputdata ← put outputdata 0 r.out
    let creddata ← put creddata 0 (r.pbData.getD [])
    let outputdata ← put outputdata cbCopied [0]
    let copy ← fetch outputdata cbCopied
    let creddata ← put creddata 0 copy
    put creddata cbCopied [0]

def HASHLEN : ℕ := 16

def mmidm_calc_md5_cred (md5 : List UInt8 → Vector UInt8 HASHLEN) (creddata : List UInt8) : Option (List UInt8) := do
  let n ← strlen creddata
  let data ← fetch creddata n
  let creddata ← put creddata 0 (md5 data).toList
  put creddata HASHLEN [0]

def MMIDM_B64_Md5 (md5 : List UInt8 → Vector UInt8 HASHLEN) (outbuf : List UInt8) (buf_size len : ℕ) :
    Option (List UInt8) := do
  let copy ← fetch outbuf len
  let buf ← put (List.replicate 128 0) 0 copy
  let outbuf ← put outbuf 0 (List.replicate buf_size 0)
  let buf ← mmidm_calc_md5_cred md5 buf
  let buf ← mmidm_calc_b64_cred buf 16
  let n ← strlen buf
  put outbuf 0 (buf.take n ++ [0])

def chars (l : List Char) : List UInt8 := l.map fun c => UInt8.ofNat c.toNat

def MAX_NONCE_LEN : ℕ := 64

/-- the name and the password -/
def mvpdm : List UInt8 := chars ['m', 'v', 'p', 'd', 'm']

def colon : List UInt8 := chars [':']

/-- the nonce of a device that has not been given one -/
def defaultNonce : List UInt8 :=
  chars ['J', 'E', '4', '8', 'd', 'm', 'g', 'i', 'O', 'y', 'o', 'g', 'P', 'z', 'x', 'X', 'P', 'k', 'd', 'U', 'J', 'Q', '=', '=']

/-- outbuf and s_g_nonce behind the call -/
def MMIDM_GetCreddata (md5 : List UInt8 → Vector UInt8 HASHLEN) (outbuf : List UInt8) (buf_size : ℕ)
    (s_g_nonce : List UInt8) : Option (List UInt8 × List UInt8) := do
  let outbuf ← put outbuf 0 (List.replicate buf_size 0)
  let buf ← put (List.replicate 128 0) 0 (mvpdm ++ colon ++ mvpdm ++ [0])
  let n ← strlen buf
  let buf ← MMIDM_B64_Md5 md5 buf 128 n
  let len ← strlen s_g_nonce
  let s_g_nonce ← if len = 0 then put s_g_nonce 0 (defaultNonce ++ [0]) else some s_g_nonce
  let len ← strlen s_g_nonce
  let text ← fetch s_g_nonce len
  let r := DM_Base64_decode text (List.replicate MAX_NONCE_LEN 0) MAX_NONCE_LEN
  if r.1 = -1 then some (outbuf, s_g_nonce)
  else do
    let n ← strlen buf
    let outbuf ← put outbuf 0 (buf.take n ++ colon ++ [0])
    let n ← strlen outbuf
    let nonce ← fetch r.2 r.1.toNat
    let outbuf ← put outbuf n nonce
    let outbuf ← MMIDM_B64_Md5 md5 outbuf buf_size (len + 1 + r.1.toNat)
    some (outbuf, s_g_nonce)

/-! ## Texts in buffers -/

/-- base64 without line breaks -/
def b64 (x : List UInt8) : List UInt8 := text t (fun _ => []) 0 x

theorem t_ne_zero {i : ℕ} (h : i ≤ 64) : t i ≠ 0 := by
  have hall : ∀ i ≤ 64, t i ≠ 0 := by decide +kernel
  exact hall i h

theorem zero_not_mem_text {brk' : ℕ → List UInt8} (hbrk : ∀ o, 0 ∉ brk' o) (o : ℕ) (x : List UInt8) :
    0 ∉ text t brk' o x := by
  have hall := forall_mem_text (fun _ hi => t_ne_zero hi) (fun o c hc h0 => hbrk o (h0 ▸ hc)) o x (P := (· ≠ 0))
  exact fun h0 => hall 0 h0 rfl

theorem zero_not_mem_lines (o : ℕ) (x : List UInt8) : 0 ∉ text t brk o x := by
  apply zero_not_mem_text
  intro o
  unfold brk
  split_ifs <;> decide

theorem zero_not_mem_b64 (x : List UInt8) : 0 ∉ b64 x := zero_not_mem_text (fun _ => List.not_mem_nil) 0 x

theorem length_b64 (x : List UInt8) : (b64 x).length = 4 * ((x.length + 2) / 3) := by
  rw [b64, text_length]
  simp

/-- up to 45 bytes there is one line only -/
theorem lines_eq_b64 {x : List UInt8} (h : x.length ≤ 45) : text t brk 0 x = b64 x := by
  apply text_congr
  intro p hp
  obtain ⟨k, hk, rfl⟩ := List.mem_map.mp hp
  have hk' := List.mem_range.mp hk
  unfold brk MAX_COLUMNS
  rw [if_neg]
  omega

theorem decode_b64 {dest : List UInt8} {destl : ℕ} (x : List UInt8) (hd : destl ≤ dest.length) (hl : x.length + 1 ≤ destl) :
    DM_Base64_decode (b64 x) dest destl = ((x.length : ℤ), write dest 0 (x ++ [0])) :=
  decode_of_text (fun _ _ hc => absurd hc List.not_mem_nil) 0 x hd hl

theorem b64_injective {x y : List UInt8} (h : b64 x = b64 y) : x = y := by
  have hdest : x.length + y.length + 1 ≤ (List.replicate (x.length + y.length + 1) (0 : UInt8)).length := by
    rw [List.length_replicate]
  have hx := decode_b64 x hdest (by omega)
  have hy := decode_b64 y hdest (by omega)
  rw [h, hy, Prod.mk.injEq] at hx
  have hlen : y.length = x.length := Int.ofNat.inj hx.1
  have hcells := hx.2
  rw [write_cstr, write_cstr] at hcells
  exact (List.append_inj hcells hlen).1.symm

/-! ## The basic credential -/

/-- the code on a string of n bytes, when the encoder writes `out` -/
theorem calc_b64_cred_eq {creddata out : List UInt8} {n : ℕ} (h1 : 1 ≤ n) (hn : n ≤ creddata.length)
    (hout : (mmidm_base64Encode 80 (some (creddata.take n)) 0 1 (some [0, 0, 0, 0])).out = out)
    (hblock : out.length + 1 ≤ n * 2 + 4) (hroom : out.length + 1 ≤ creddata.length) :
    ∃ rest, mmidm_calc_b64_cred creddata n = some (out ++ 0 :: rest) ∧
      (out ++ 0 :: rest).length = creddata.length := by
  obtain ⟨r, hr⟩ : ∃ r, r = mmidm_base64Encode 80 (some (creddata.take n)) 0 1 (some [0, 0, 0, 0]) := ⟨_, rfl⟩
  rw [← hr] at hout
  have hdata : (r.pbData.getD []).length = n := by
    rw [hr, length_pbData, List.length_take]
    omega
  have hblockOut : 0 + out.length ≤ (List.replicate (n * 2 + 4) (0 : UInt8)).length := by
    rw [List.length_replicate]
    omega
  have hblockLen := length_write hblockOut
  have hblockNul : out.length + [(0 : UInt8)].length ≤ (write (List.replicate (n * 2 + 4) 0) 0 out).length := by
    rw [hblockLen, List.length_replicate]
    exact hblock
  have hmoved : 0 + (r.pbData.getD []).length ≤ creddata.length := by omega
  have hmovedLen := length_write hmoved
  have hcopy : 0 + out.length ≤ (write creddata 0 (r.pbData.getD [])).length := by omega
  have hcopyLen := length_write hcopy
  have hnul : out.length + [(0 : UInt8)].length ≤ (write (write creddata 0 (r.pbData.getD [])) 0 out).length := by
    rw [hcopyLen, hmovedLen]
    exact hroom
  have hfetch : fetch (write (write (List.replicate (n * 2 + 4) 0) 0 out) out.length [0]) out.length = some out := by
    have happ := write_append out [0] hblockOut
    rw [Nat.zero_add] at happ
    rw [← happ, write_cstr, fetch_inside (by simp), List.take_left]
  have happ := write_append out [0] hcopy
  rw [Nat.zero_add, write_cstr] at happ
  refine ⟨(write creddata 0 (r.pbData.getD [])).drop (out.length + 1), ?_, ?_⟩
  · rw [mmidm_calc_b64_cred, if_neg (by omega)]
    simp only [fetch_inside hn, Option.bind_eq_bind, Option.bind_some, ← hr, hout, put_inside hblockOut,
      put_inside hmoved, put_inside hblockNul, hfetch, put_inside hcopy, put_inside hnul, happ]
  · rw [happ, length_write hnul, hcopyLen, hmovedLen]

/-- what the encoder writes into a target of 80 bytes -/
theorem encode_80 {x : List UInt8} : (mmidm_base64Encode 80 (some x) 0 1 (some [0, 0, 0, 0])).out = text t brk 0 (x.take 57) := by
  have hkept : Kept (some [0, 0, 0, 0]) [] := ⟨rfl, List.nil_prefix⟩
  by_cases hx : x.length ≤ 57
  · have hsize : textSize 0 x.length ≤ 80 := by
      have hall : ∀ n ≤ 57, textSize 0 n ≤ 80 := by decide +kernel
      exact hall x.length hx
    have hfit : (text t brk 0 ([] ++ x)).length ≤ 80 := by rwa [List.nil_append, length_text]
    have hlast := (encode_last hkept (Nat.zero_le 2) (Or.inr rfl) hfit).1
    rw [hlast, List.nil_append, List.take_of_length_le hx]
  · have hlen : (x.take 57).length = 57 := by
      rw [List.length_take]
      omega
    have hfit : textSize 0 (x.take 57).length ≤ 80 := by
      rw [hlen]
      decide +kernel
    have hfull : 80 < textSize 0 (x.take 57).length + 4 := by
      rw [hlen]
      decide +kernel
    have hcut := encode_cut hkept (y := x.drop 57) (by rw [hlen]) hfit hfull
    rwa [List.take_append_drop] at hcut

theorem length_encode_80 (x : List UInt8) : (text t brk 0 (x.take 57)).length ≤ 78 ∧
    (1 ≤ x.length → (text t brk 0 (x.take 57)).length + 1 ≤ x.length * 2 + 4) := by
  have hall : ∀ n ≤ 57, textSize 0 n ≤ 78 ∧ (1 ≤ n → textSize 0 n + 1 ≤ n * 2 + 4) := by decide +kernel
  have hlen : (x.take 57).length ≤ x.length := by
    rw [List.length_take]
    exact Nat.min_le_right _ _
  have h57 : (x.take 57).length ≤ 57 := List.length_take_le 57 x
  rw [length_text]
  refine ⟨(hall _ h57).1, fun h1 => ?_⟩
  have hpos : 1 ≤ (x.take 57).length := by
    rw [List.length_take]
    omega
  have hle := (hall _ h57).2 hpos
  omega

/-- **Nothing is written outside of the buffers**, and the string becomes the text of its first 57 bytes. -/
theorem calc_b64_cred_text {creddata : List UInt8} {cbLength : ℕ} (h1 : 1 ≤ cbLength) (hin : cbLength ≤ creddata.length)
    (hroom : (text t brk 0 ((creddata.take cbLength).take 57)).length + 1 ≤ creddata.length) :
    ∃ rest, mmidm_calc_b64_cred creddata cbLength = some (text t brk 0 ((creddata.take cbLength).take 57) ++ 0 :: rest) ∧
      (text t brk 0 ((creddata.take cbLength).take 57) ++ 0 :: rest).length = creddata.length := by
  have hlen : (creddata.take cbLength).length = cbLength := by
    rw [List.length_take]
    omega
  have hblock := (length_encode_80 (creddata.take cbLength)).2
  rw [hlen] at hblock
  exact calc_b64_cred_eq h1 hin encode_80 (hblock h1) hroom

/-- **The basic credential is complete exactly up to 57 bytes.** For every length the code stays inside the buffers. -/
theorem calc_b64_cred_iff (creddata : List UInt8) (cbLength : ℕ) (h1 : 1 ≤ cbLength) (hin : cbLength ≤ creddata.length)
    (hroom : textSize 0 cbLength + 1 ≤ creddata.length) :
    (∃ creddata', mmidm_calc_b64_cred creddata cbLength = some creddata' ∧
      ∀ dest destl, destl ≤ dest.length → cbLength + 1 ≤ destl →
        DM_Base64_decode (cstr creddata') dest destl = ((cbLength : ℤ), write dest 0 (creddata.take cbLength ++ [0]))) ↔
      cbLength ≤ 57 := by
  have hlen : (creddata.take cbLength).length = cbLength := by
    rw [List.length_take]
    omega
  have htext : (text t brk 0 ((creddata.take cbLength).take 57)).length + 1 ≤ creddata.length := by
    by_cases h57 : cbLength ≤ 57
    · rwa [List.take_of_length_le (by omega), length_text, hlen]
    · have hsize : 4 * ((cbLength + 2) / 3) ≤ textSize 0 cbLength := Nat.le_add_right _ _
      have hle := (length_encode_80 (creddata.take cbLength)).1
      omega
  obtain ⟨rest, hcalc, -⟩ := calc_b64_cred_text h1 hin htext
  have hcstr := cstr_append (zero_not_mem_lines 0 ((creddata.take cbLength).take 57)) rest
  constructor
  · rintro ⟨creddata', heq, hdec⟩
    rw [hcalc, Option.some.injEq] at heq
    have hroomy : cbLength + 1 ≤ (List.replicate (cbLength + 1) (0 : UInt8)).length := by rw [List.length_replicate]
    have hfull := hdec (List.replicate (cbLength + 1) 0) (cbLength + 1) hroomy (le_refl _)
    have hcut := decode_of_text brk_junk 0 ((creddata.take cbLength).take 57) hroomy
      (by rw [List.length_take]; omega)
    rw [← heq, hcstr, hcut, Prod.mk.injEq] at hfull
    have hcount : ((creddata.take cbLength).take 57).length = cbLength := Int.ofNat.inj hfull.1
    rw [← hcount]
    exact List.length_take_le 57 _
  · intro h57
    refine ⟨_, hcalc, fun dest destl hd hl => ?_⟩
    rw [hcstr, List.take_of_length_le (by omega), decode_of_text brk_junk 0 (creddata.take cbLength) hd (by omega), hlen]

/-- 50 bytes, of which the last five stand behind a line break -/
theorem calc_b64_cred_two_lines :
    (∃ creddata', mmidm_calc_b64_cred (List.replicate 100 1) 50 = some creddata' ∧
      ∀ dest destl, destl ≤ dest.length → 50 + 1 ≤ destl →
        DM_Base64_decode (cstr creddata') dest destl =
          (((50 : ℕ) : ℤ), write dest 0 ((List.replicate 100 1).take 50 ++ [0]))) ↔ 50 ≤ 57 :=
  calc_b64_cred_iff (List.replicate 100 1) 50 (by decide) (by simp) (by decide +kernel)

/-- The credential of 58 bytes: the last one is missing. -/
theorem calc_b64_cred_cut : textSize 0 58 + 1 ≤ (List.replicate 100 (1 : UInt8)).length ∧
    ¬ ∃ creddata', mmidm_calc_b64_cred (List.replicate 100 1) 58 = some creddata' ∧
      ∀ dest destl, destl ≤ dest.length → 58 + 1 ≤ destl →
        DM_Base64_decode (cstr creddata') dest destl =
          (((58 : ℕ) : ℤ), write dest 0 ((List.replicate 100 1).take 58 ++ [0])) := by
  refine ⟨by decide +kernel, ?_⟩
  rintro ⟨creddata', heq, hdec⟩
  have hcut : mmidm_calc_b64_cred (List.replicate 100 1) 58 = some creddata' →
      (DM_Base64_decode (cstr creddata') (List.replicate 59 0) 59).1 ≠ 58 := by
    intro h
    have hval : (mmidm_calc_b64_cred (List.replicate 100 1) 58).map
        (fun c => (DM_Base64_decode (cstr c) (List.replicate 59 0) 59).1) = some 57 := by decide +kernel
    rw [h, Option.map_some, Option.some.injEq] at hval
    rw [hval]
    decide
  exact hcut heq (congrArg Prod.fst (hdec (List.replicate 59 0) 59 (by decide) (by decide)))

/-! ## The digest credential -/

section Digest

variable (md5 : List UInt8 → Vector UInt8 HASHLEN)

/-- the base64 text of a digest -/
def digestText (x : List UInt8) : List UInt8 := b64 (md5 x).toList

theorem length_digest (x : List UInt8) : (md5 x).toList.length = 16 := Vector.length_toList

theorem length_digestText (x : List UInt8) : (digestText md5 x).length = 24 := by
  rw [digestText, length_b64, length_digest]

theorem zero_not_mem_digestText (x : List UInt8) : 0 ∉ digestText md5 x := zero_not_mem_b64 _

theorem calc_md5_cred_eq {creddata : List UInt8} (hlen : 17 ≤ creddata.length)
    (hs : (cstr creddata).length < creddata.length) :
    ∃ creddata', mmidm_calc_md5_cred md5 creddata = some creddata' ∧ creddata'.length = creddata.length ∧
      creddata'.take 16 = (md5 (cstr creddata)).toList := by
  have hdigest := length_digest md5 (cstr creddata)
  have hfit : 0 + (md5 (cstr creddata)).toList.length ≤ creddata.length := by omega
  have hfitLen := length_write hfit
  have hnul : HASHLEN + [(0 : UInt8)].length ≤ (write creddata 0 (md5 (cstr creddata)).toList).length := by
    rw [hfitLen]
    exact hlen
  have hstrlen : strlen creddata = some (cstr creddata).length := if_pos hs
  have hfetch : fetch creddata (cstr creddata).length = some (cstr creddata) := by
    rw [fetch_inside hs.le, ← List.prefix_iff_eq_take.mp (cstr_initial creddata)]
  refine ⟨write (write creddata 0 (md5 (cstr creddata)).toList) HASHLEN [0], ?_, ?_, ?_⟩
  · rw [mmidm_calc_md5_cred]
    simp only [hstrlen, Option.bind_eq_bind, Option.bind_some, hfetch, put_inside hfit, put_inside hnul]
  · rw [length_write hnul, hfitLen]
  · have happ := write_append (md5 (cstr creddata)).toList [0] hfit
    rw [Nat.zero_add, hdigest, write_cstr] at happ
    change (write (write creddata 0 (md5 (cstr creddata)).toList) 16 [0]).take 16 = _
    rw [← happ, ← hdigest, List.take_left]

/-- what `MMIDM_B64_Md5` hashes is the string among the bytes it copies -/
theorem b64_Md5_eq {outbuf : List UInt8} {buf_size len : ℕ} (hlen : len ≤ 127) (hin : len ≤ outbuf.length)
    (hsize : buf_size ≤ outbuf.length) (hout : 25 ≤ outbuf.length) :
    ∃ rest, MMIDM_B64_Md5 md5 outbuf buf_size len = some (digestText md5 (cstr (outbuf.take len)) ++ 0 :: rest) := by
  have htake : (outbuf.take len).length = len := by
    rw [List.length_take]
    omega
  have hcopy : 0 + (outbuf.take len).length ≤ (List.replicate 128 (0 : UInt8)).length := by
    rw [htake, List.length_replicate]
    omega
  have hcopyLen := length_write hcopy
  rw [List.length_replicate] at hcopyLen
  have hclear : 0 + (List.replicate buf_size (0 : UInt8)).length ≤ outbuf.length := by
    rw [List.length_replicate]
    omega
  have hcstr : cstr (write (List.replicate 128 0) 0 (outbuf.take len)) = cstr (outbuf.take len) := by
    rw [write, List.take_zero, List.nil_append, List.drop_replicate, cstr_append_zeros]
  have hshort : (cstr (write (List.replicate 128 0) 0 (outbuf.take len))).length <
      (write (List.replicate 128 0) 0 (outbuf.take len)).length := by
    have hle := (cstr_initial (outbuf.take len)).length_le
    rw [hcstr, hcopyLen]
    omega
  obtain ⟨buf, hmd5, hbufLen, hbuf⟩ := calc_md5_cred_eq md5 (by rw [hcopyLen]; decide) hshort
  rw [hcstr] at hbuf
  rw [hcopyLen] at hbufLen
  have hdigest := length_digest md5 (cstr (outbuf.take len))
  have htext : text t brk 0 ((buf.take 16).take 57) = digestText md5 (cstr (outbuf.take len)) := by
    rw [hbuf, List.take_of_length_le (by omega), lines_eq_b64 (by omega), digestText]
  obtain ⟨rest, hcalc, -⟩ := calc_b64_cred_text (by decide : 1 ≤ 16) (by omega : 16 ≤ buf.length)
    (by rw [htext, length_digestText]; omega)
  rw [htext] at hcalc
  have hfit : 0 + (digestText md5 (cstr (outbuf.take len)) ++ [0]).length ≤
      (write outbuf 0 (List.replicate buf_size 0)).length := by
    rw [length_write hclear, List.length_append, length_digestText]
    simpa using hout
  refine ⟨(write outbuf 0 (List.replicate buf_size 0)).drop ((digestText md5 (cstr (outbuf.take len))).length + 1), ?_⟩
  rw [MMIDM_B64_Md5]
  simp only [fetch_inside hin, Option.bind_eq_bind, Option.bind_some, put_inside hcopy, put_inside hclear, hmd5, hcalc,
    strlen_append (zero_not_mem_digestText md5 _), List.take_left, put_inside hfit]
  rw [write_cstr]

/-- name:password -/
def login : List UInt8 := mvpdm ++ colon ++ mvpdm

theorem b64_Md5_login {d : List UInt8} (hd : d.length = 128) :
    ∃ rest, MMIDM_B64_Md5 md5 (write d 0 (login ++ [0])) 128 login.length = some (digestText md5 login ++ 0 :: rest) := by
  have hlogin : login.length = 11 := rfl
  have hfit : 0 + (login ++ [0]).length ≤ d.length := by
    rw [hd]
    decide
  have hlen := length_write hfit
  obtain ⟨rest, hrest⟩ := @b64_Md5_eq md5 (write d 0 (login ++ [0])) 128 login.length (by omega) (by omega) (by omega)
    (by omega)
  rw [write_cstr, List.take_left, cstr_of_not_mem (by decide), ← write_cstr] at hrest
  exact ⟨rest, hrest⟩

variable {n : List UInt8}

/-- the text of the first digest, a colon and the nonce in a buffer -/
theorem put_joined {d x : List UInt8} (hx : x.length = 24) (hnul : 0 ∉ x) (h1 : 1 ≤ n.length)
    (hroom : 26 + n.length ≤ d.length) :
    put d 0 (x ++ colon ++ [0]) = some (write d 0 (x ++ colon ++ [0])) ∧
      strlen (write d 0 (x ++ colon ++ [0])) = some 25 ∧
      put (write d 0 (x ++ colon ++ [0])) 25 n = some (x ++ colon ++ n ++ d.drop (25 + n.length)) := by
  have hhead : (x ++ colon).length = 25 := by
    rw [List.length_append, hx]
    rfl
  have hheadNul : 0 ∉ x ++ colon := by
    rw [List.mem_append, not_or]
    exact ⟨hnul, by decide⟩
  have hput : 0 + (x ++ colon ++ [0]).length ≤ d.length := by
    rw [List.length_append, hhead, List.length_singleton]
    omega
  have hputNonce : 25 + n.length ≤ (write d 0 (x ++ colon ++ [0])).length := by
    rw [length_write hput]
    omega
  have hbehind := write_behind (x ++ colon) (d := d) (k := [0]) (i := 0) h1 (by rw [hhead]; omega)
  rw [Nat.zero_add, hhead] at hbehind
  refine ⟨put_inside hput, ?_, ?_⟩
  · rw [write_cstr, strlen_append hheadNul, hhead]
  · rw [put_inside hputNonce, hbehind, write, List.take_zero, List.nil_append, Nat.zero_add, List.length_append, hhead]

/-- behind the bytes x a cleared buffer ends the string -/
theorem cstr_take_cleared {x tail : List UInt8} {k m : ℕ} (h : m ≤ x.length + k) :
    cstr ((x ++ (List.replicate k 0 ++ tail)).take m) = cstr (x.take m) := by
  have hzeros : (List.replicate k (0 : UInt8) ++ tail).take (m - x.length) = List.replicate (m - x.length) 0 := by
    rw [List.take_append_of_le_length (by rw [List.length_replicate]; omega), List.take_replicate,
      Nat.min_eq_left (by omega)]
  rw [List.take_append, hzeros, cstr_append_zeros]

theorem drop_cleared {d : List UInt8} {size m : ℕ} (hm : m ≤ size) :
    (write d 0 (List.replicate size 0)).drop m = List.replicate (size - m) 0 ++ d.drop size := by
  rw [write, List.take_zero, List.nil_append, List.length_replicate, Nat.zero_add,
    List.drop_append_of_le_length (by rw [List.length_replicate]; exact hm), List.drop_replicate]

/-- the bytes that are hashed in the end: as many as the text of the nonce and the nonce have, and one -/
def hashed (n : List UInt8) : List UInt8 :=
  cstr ((digestText md5 login ++ colon ++ n).take ((b64 n).length + 1 + n.length))

variable {s_g_nonce outbuf : List UInt8} {buf_size : ℕ}

theorem getCreddata_eq (h1 : 1 ≤ n.length) (h45 : n.length ≤ 45) (hlen : s_g_nonce.length = MAX_NONCE_LEN)
    (hnonce : cstr s_g_nonce = b64 n) (hsize : 128 ≤ buf_size) (hbuf : buf_size ≤ outbuf.length) :
    ∃ rest, MMIDM_GetCreddata md5 outbuf buf_size s_g_nonce = some (digestText md5 (hashed md5 n) ++ 0 :: rest, s_g_nonce) := by
  have hmax : MAX_NONCE_LEN = 64 := rfl
  have hb64 := length_b64 n
  have hclear : 0 + (List.replicate buf_size (0 : UInt8)).length ≤ outbuf.length := by
    rw [List.length_replicate]
    omega
  have hclearLen := length_write hclear
  have hlogin : 0 + (mvpdm ++ colon ++ mvpdm ++ [0]).length ≤ (List.replicate 128 (0 : UInt8)).length := by
    rw [List.length_replicate]
    decide
  have hloginLen : strlen (write (List.replicate 128 0) 0 (mvpdm ++ colon ++ mvpdm ++ [0])) = some login.length := by
    rw [write_cstr, strlen_append (by decide)]
    rfl
  obtain ⟨rest, hfirst⟩ := b64_Md5_login md5 (List.length_replicate : (List.replicate 128 (0 : UInt8)).length = 128)
  have hstrlen : strlen s_g_nonce = some (b64 n).length := by
    rw [strlen, hnonce]
    exact if_pos (by omega)
  have hnz : ¬ (b64 n).length = 0 := by omega
  have hfetch : fetch s_g_nonce (b64 n).length = some (b64 n) := by
    rw [fetch_inside (by omega), ← hnonce, ← List.prefix_iff_eq_take.mp (cstr_initial s_g_nonce)]
  have hdec : DM_Base64_decode (b64 n) (List.replicate MAX_NONCE_LEN 0) MAX_NONCE_LEN =
      ((n.length : ℤ), write (List.replicate MAX_NONCE_LEN 0) 0 (n ++ [0])) :=
    decode_b64 n (by rw [List.length_replicate]) (by omega)
  have hne : ¬ (n.length : ℤ) = -1 := by omega
  have hnonceBuf : fetch (write (List.replicate MAX_NONCE_LEN 0) 0 (n ++ [0])) n.length = some n := by
    rw [write_cstr, fetch_inside (by simp), List.take_left]
  have hfullLen : (digestText md5 login ++ colon ++ n).length = 25 + n.length := by
    rw [List.length_append, List.length_append, length_digestText]
    rfl
  obtain ⟨hput, hput25, hputNonce⟩ := put_joined (d := write outbuf 0 (List.replicate buf_size 0))
    (length_digestText md5 login) (zero_not_mem_digestText md5 login) h1 (by omega)
  rw [drop_cleared (by omega)] at hputNonce
  obtain ⟨full, hfull⟩ : ∃ full, full = digestText md5 login ++ colon ++ n ++
      (List.replicate (buf_size - (25 + n.length)) 0 ++ outbuf.drop buf_size) := ⟨_, rfl⟩
  have hfullOut : full.length = outbuf.length := by
    rw [hfull, List.length_append, hfullLen, List.length_append, List.length_replicate, List.length_drop]
    omega
  obtain ⟨rest', hsecond⟩ := b64_Md5_eq md5 (by omega : (b64 n).length + 1 + n.length ≤ 127) (by omega)
    (by omega : buf_size ≤ full.length) (by omega)
  have hcut : cstr (full.take ((b64 n).length + 1 + n.length)) = hashed md5 n := by
    rw [hfull, cstr_take_cleared (by omega), hashed]
  rw [hcut] at hsecond
  rw [← hfull] at hputNonce
  refine ⟨rest', ?_⟩
  rw [MMIDM_GetCreddata]
  rw [login] at hfirst hloginLen hput hput25 hputNonce
  simp only [put_inside hclear, Option.bind_eq_bind, Option.bind_some, put_inside hlogin, hloginLen, hfirst, hstrlen,
    if_neg hnz, hfetch, hdec, if_neg hne, strlen_append (zero_not_mem_digestText md5 _), List.take_left, hput, hput25,
    Int.toNat_natCast, hnonceBuf, hputNonce, hsecond]

/-- the whole is hashed exactly when the text of the nonce is long enough and nothing ends the string -/
theorem hashed_eq_iff (h45 : n.length ≤ 45) :
    hashed md5 n = digestText md5 login ++ colon ++ n ↔ 16 ≤ n.length ∧ 0 ∉ n := by
  have hb64 := length_b64 n
  have hfullLen : (digestText md5 login ++ colon ++ n).length = 25 + n.length := by
    rw [List.length_append, List.length_append, length_digestText]
    rfl
  constructor
  · intro heq
    have hle := (cstr_initial ((digestText md5 login ++ colon ++ n).take ((b64 n).length + 1 + n.length))).length_le
    have hnul := zero_not_mem_cstr ((digestText md5 login ++ colon ++ n).take ((b64 n).length + 1 + n.length))
    rw [hashed] at heq
    rw [heq, List.length_take] at hle
    rw [heq, List.mem_append, not_or] at hnul
    exact ⟨by omega, hnul.2⟩
  · intro h
    have hnul : 0 ∉ digestText md5 login ++ colon ++ n := by
      rw [List.mem_append, List.mem_append, not_or, not_or]
      exact ⟨⟨zero_not_mem_digestText md5 login, by decide⟩, h.2⟩
    rw [hashed, List.take_of_length_le (by omega), cstr_of_not_mem hnul]

end Digest

/-- **The digest credential is right exactly for nonces of 16 to 45 bytes without a NUL**, whatever the digest is. -/
theorem getCreddata_iff (n : List UInt8) (h1 : 1 ≤ n.length) (h47 : n.length ≤ 47) (s_g_nonce : List UInt8)
    (hlen : s_g_nonce.length = MAX_NONCE_LEN) (hnonce : cstr s_g_nonce = b64 n) (outbuf : List UInt8) (buf_size : ℕ)
    (hsize : 128 ≤ buf_size) (hbuf : buf_size ≤ outbuf.length) :
    (∀ md5 : List UInt8 → Vector UInt8 HASHLEN, ∃ r, MMIDM_GetCreddata md5 outbuf buf_size s_g_nonce = some r ∧
      cstr r.1 = b64 (md5 (b64 (md5 (mvpdm ++ colon ++ mvpdm)).toList ++ colon ++ n)).toList) ↔
      16 ≤ n.length ∧ n.length ≤ 45 ∧ 0 ∉ n := by
  have hb64 := length_b64 n
  have hmax : MAX_NONCE_LEN = 64 := rfl
  constructor
  · intro hall
    have h45 : n.length ≤ 45 := by
      by_contra h46
      obtain ⟨r, hr, -⟩ := hall fun _ => Vector.replicate HASHLEN 0
      have hstrlen : strlen s_g_nonce = none := by
        rw [strlen, hnonce]
        exact if_neg (by omega)
      rw [MMIDM_GetCreddata, hstrlen] at hr
      simp at hr
    -- a digest that tells strings of the right length from all others
    obtain ⟨md5, hmd5⟩ : ∃ md5 : List UInt8 → Vector UInt8 HASHLEN,
        ∀ x, md5 x = Vector.replicate HASHLEN (if x.length = 25 + n.length then 1 else 0) := ⟨_, fun _ => rfl⟩
    obtain ⟨r, hr, htext⟩ := hall md5
    obtain ⟨rest, heq⟩ := getCreddata_eq md5 h1 h45 hlen hnonce hsize hbuf
    rw [heq, Option.some.injEq] at hr
    rw [← hr, cstr_append (zero_not_mem_digestText md5 _)] at htext
    have hfullLen : (b64 (md5 (mvpdm ++ colon ++ mvpdm)).toList ++ colon ++ n).length = 25 + n.length := by
      have hdigest := length_digestText md5 login
      rw [List.length_append, List.length_append, ← login, ← digestText, hdigest]
      rfl
    have hdig := b64_injective htext
    have hhashed : (hashed md5 n).length = 25 + n.length := by
      by_contra hne
      rw [hmd5, hmd5, if_neg hne, if_pos hfullLen] at hdig
      exact absurd hdig (by decide)
    have hpre := (cstr_initial ((digestText md5 login ++ colon ++ n).take ((b64 n).length + 1 + n.length))).trans
      (List.take_prefix _ _)
    have hwhole : hashed md5 n = digestText md5 login ++ colon ++ n :=
      hpre.eq_of_length (hhashed.trans hfullLen.symm)
    have hcond := (hashed_eq_iff md5 h45).mp hwhole
    exact ⟨hcond.1, h45, hcond.2⟩
  · rintro ⟨h16, h45, hnul⟩ md5
    obtain ⟨rest, heq⟩ := getCreddata_eq md5 h1 h45 hlen hnonce hsize hbuf
    refine ⟨_, heq, ?_⟩
    rw [cstr_append (zero_not_mem_digestText md5 _), (hashed_eq_iff md5 h45).mpr ⟨h16, hnul⟩]
    rfl

theorem getCreddata_sixteen :
    (∀ md5 : List UInt8 → Vector UInt8 HASHLEN, ∃ r, MMIDM_GetCreddata md5 (List.replicate 128 0) 128
        (b64 (List.replicate 16 1) ++ List.replicate 40 0) = some r ∧
      cstr r.1 = b64 (md5 (b64 (md5 (mvpdm ++ colon ++ mvpdm)).toList ++ colon ++ List.replicate 16 1)).toList) ↔
      16 ≤ (List.replicate 16 (1 : UInt8)).length ∧ (List.replicate 16 (1 : UInt8)).length ≤ 45 ∧
        0 ∉ List.replicate 16 (1 : UInt8) :=
  getCreddata_iff (List.replicate 16 1) (by decide) (by decide) (b64 (List.replicate 16 1) ++ List.replicate 40 0)
    (by decide +kernel) (by decide +kernel) (List.replicate 128 0) 128 (by decide)
    (by rw [List.length_replicate])

/-- the sum of the bytes, sixteen times -/
def sumDigest (x : List UInt8) : Vector UInt8 HASHLEN := Vector.replicate HASHLEN x.sum

/-- A nonce of one byte, and one of sixteen bytes with a NUL: other strings are hashed. -/
theorem getCreddata_short_or_nul :
    (MMIDM_GetCreddata sumDigest (List.replicate 128 0) 128 (b64 [7] ++ List.replicate 60 0)).map (fun r => cstr r.1) ≠
        some (b64 (sumDigest (b64 (sumDigest (mvpdm ++ colon ++ mvpdm)).toList ++ colon ++ [7])).toList) ∧
      (MMIDM_GetCreddata sumDigest (List.replicate 128 0) 128
          (b64 (0 :: List.replicate 15 1) ++ List.replicate 40 0)).map (fun r => cstr r.1) ≠
        some (b64 (sumDigest
          (b64 (sumDigest (mvpdm ++ colon ++ mvpdm)).toList ++ colon ++ 0 :: List.replicate 15 1)).toList) :=
  ⟨by decide +kernel, by decide +kernel⟩

end SprdDevice.Dm.Credential
