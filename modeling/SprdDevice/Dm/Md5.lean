/-
The md5 code of the device management library.

- `DMMD5Init`, `DMMD5Update`, `DMMD5Final`: a digest of a message that comes in any number of pieces. The context keeps
  the bytes that do not fill a block of 64 yet. Its buffer is not cleared, neither at the start nor behind a block;
- `digest`: what an md5 digest is, for a message as a whole: a padding to whole blocks, and for each block a loop of 64
  turns of the four words.
`unsigned int` and `unsigned long` have 32 bits. Buffers are lists of their cells. `none` is an access outside of one.
Results: the written out steps of a block are the loop (`DM_MD5Transform_eq`), an update keeps the context of a message
(`DMMD5Update_kept`), the digest does not depend on the pieces (`digest_of_pieces`), and the credential of a string is
its digest (`calc_md5_cred_digest`).
-/
import Mathlib.Tactic
import Mathlib.Data.UInt
import SprdDevice.Dm.Credential
import SprdDevice.Lib.BlockFold
import SprdDevice.Lib.Word

namespace SprdDevice.Dm.Md5

open SprdDevice.BlockFold SprdDevice.Buffer SprdDevice.Word SprdDevice.Dm.Credential

/-! ## A block -/

/-- state[4], or the four variables of a block -/
structure Words where
  a : UInt32
  b : UInt32
  c : UInt32
  d : UInt32
  deriving DecidableEq, Repr

inductive Reg
  | a | b | c | d

def Words.get (w : Words) : Reg → UInt32
  | .a => w.a
  | .b => w.b
  | .c => w.c
  | .d => w.d

def Words.set (w : Words) (r : Reg) (v : UInt32) : Words :=
  match r with
  | .a => { w with a := v }
  | .b => { w with b := v }
  | .c => { w with c := v }
  | .d => { w with d := v }

def F (x y z : UInt32) : UInt32 := z ^^^ (x &&& (y ^^^ z))

def G (x y z : UInt32) : UInt32 := y ^^^ (z &&& (y ^^^ x))

def H (x y z : UInt32) : UInt32 := x ^^^ y ^^^ z

def I (x y z : UInt32) : UInt32 := y ^^^ (x ||| ~~~z)

def ROTATE_LEFT (x n : UInt32) : UInt32 := (x <<< n) ||| (x >>> (32 - n))

/-- the four macros differ in their function only -/
def mix (f : UInt32 → UInt32 → UInt32 → UInt32) (p q r t : Reg) (x s ac : UInt32) (w : Words) : Words :=
  w.set p (ROTATE_LEFT (w.get p + (f (w.get q) (w.get r) (w.get t) + x + ac)) s + w.get q)

def FF : Reg → Reg → Reg → Reg → UInt32 → UInt32 → UInt32 → Words → Words := mix F

def GG : Reg → Reg → Reg → Reg → UInt32 → UInt32 → UInt32 → Words → Words := mix G

def HH : Reg → Reg → Reg → Reg → UInt32 → UInt32 → UInt32 → Words → Words := mix H

def II : Reg → Reg → Reg → Reg → UInt32 → UInt32 → UInt32 → Words → Words := mix I

def S11 : UInt32 := 7
def S12 : UInt32 := 12
def S13 : UInt32 := 17
def S14 : UInt32 := 22
def S21 : UInt32 := 5
def S22 : UInt32 := 9
def S23 : UInt32 := 14
def S24 : UInt32 := 20
def S31 : UInt32 := 4
def S32 : UInt32 := 11
def S33 : UInt32 := 16
def S34 : UInt32 := 23
def S41 : UInt32 := 6
def S42 : UInt32 := 10
def S43 : UInt32 := 15
def S44 : UInt32 := 21

/-- the statements of `DM_MD5Transform` between the decoding and the sums -/
def rounds (x : ℕ → UInt32) : List (Words → Words) := [
    FF .a .b .c .d (x 0) S11 0xd76aa478,
    FF .d .a .b .c (x 1) S12 0xe8c7b756,
    FF .c .d .a .b (x 2) S13 0x242070db,
    FF .b .c .d .a (x 3) S14 0xc1bdceee,
    FF .a .b .c .d (x 4) S11 0xf57c0faf,
    FF .d .a .b .c (x 5) S12 0x4787c62a,
    FF .c .d .a .b (x 6) S13 0xa8304613,
    FF .b .c .d .a (x 7) S14 0xfd469501,
    FF .a .b .c .d (x 8) S11 0x698098d8,
    FF .d .a .b .c (x 9) S12 0x8b44f7af,
    FF .c .d .a .b (x 10) S13 0xffff5bb1,
    FF .b .c .d .a (x 11) S14 0x895cd7be,
    FF .a .b .c .d (x 12) S11 0x6b901122,
    FF .d .a .b .c (x 13) S12 0xfd987193,
    FF .c .d .a .b (x 14) S13 0xa679438e,
    FF .b .c .d .a (x 15) S14 0x49b40821,
    GG .a .b .c .d (x 1) S21 0xf61e2562,
    GG .d .a .b .c (x 6) S22 0xc040b340,
    GG .c .d .a .b (x 11) S23 0x265e5a51,
    GG .b .c .d .a (x 0) S24 0xe9b6c7aa,
    GG .a .b .c .d (x 5) S21 0xd62f105d,
    GG .d .a .b .c (x 10) S22 0x2441453,
    GG .c .d .a .b (x 15) S23 0xd8a1e681,
    GG .b .c .d .a (x 4) S24 0xe7d3fbc8,
    GG .a .b .c .d (x 9) S21 0x21e1cde6,
    GG .d .a .b .c (x 14) S22 0xc33707d6,
    GG .c .d .a .b (x 3) S23 0xf4d50d87,
    GG .b .c .d .a (x 8) S24 0x455a14ed,
    GG .a .b .c .d (x 13) S21 0xa9e3e905,
    GG .d .a .b .c (x 2) S22 0xfcefa3f8,
    GG .c .d .a .b (x 7) S23 0x676f02d9,
    GG .b .c .d .a (x 12) S24 0x8d2a4c8a,
    HH .a .b .c .d (x 5) S31 0xfffa3942,
    HH .d .a .b .c (x 8) S32 0x8771f681,
    HH .c .d .a .b (x 11) S33 0x6d9d6122,
    HH .b .c .d .a (x 14) S34 0xfde5380c,
    HH .a .b .c .d (x 1) S31 0xa4beea44,
    HH .d .a .b .c (x 4) S32 0x4bdecfa9,
    HH .c .d .a .b (x 7) S33 0xf6bb4b60,
    HH .b .c .d .a (x 10) S34 0xbebfbc70,
    HH .a .b .c .d (x 13) S31 0x289b7ec6,
    HH .d .a .b .c (x 0) S32 0xeaa127fa,
    HH .c .d .a .b (x 3) S33 0xd4ef3085,
    HH .b .c .d .a (x 6) S34 0x4881d05,
    HH .a .b .c .d (x 9) S31 0xd9d4d039,
    HH .d .a .b .c (x 12) S32 0xe6db99e5,
    HH .c .d .a .b (x 15) S33 0x1fa27cf8,
    HH .b .c .d .a (x 2) S34 0xc4ac5665,
    II .a .b .c .d (x 0) S41 0xf4292244,
    II .d .a .b .c (x 7) S42 0x432aff97,
    II .c .d .a .b (x 14) S43 0xab9423a7,
    II .b .c .d .a (x 5) S44 0xfc93a039,
    II .a .b .c .d (x 12) S41 0x655b59c3,
    II .d .a .b .c (x 3) S42 0x8f0ccc92,
    II .c .d .a .b (x 10) S43 0xffeff47d,
    II .b .c .d .a (x 1) S44 0x85845dd1,
    II .a .b .c .d (x 8) S41 0x6fa87e4f,
    II .d .a .b .c (x 15) S42 0xfe2ce6e0,
    II .c .d .a .b (x 6) S43 0xa3014314,
    II .b .c .d .a (x 13) S44 0x4e0811a1,
    II .a .b .c .d (x 4) S41 0xf7537e82,
    II .d .a .b .c (x 11) S42 0xbd3af235,
    II .c .d .a .b (x 2) S43 0x2ad7d2bb,
    II .b .c .d .a (x 9) S44 0xeb86d391]

def DM_Decode (input : List UInt8) (i : ℕ) : UInt32 :=
  (ofList input (4 * i)).toUInt32 ||| (ofList input (4 * i + 1)).toUInt32 <<< 8 |||
    (ofList input (4 * i + 2)).toUInt32 <<< 16 ||| (ofList input (4 * i + 3)).toUInt32 <<< 24

def DM_Encode (input : List UInt32) : List UInt8 :=
  input.flatMap fun w : UInt32 =>
    [(w &&& 0xff).toUInt8, (w >>> 8 &&& 0xff).toUInt8, (w >>> 16 &&& 0xff).toUInt8, (w >>> 24 &&& 0xff).toUInt8]

def DM_MD5Transform (state : Words) (block : List UInt8) : Words :=
  let x := DM_Decode block
  let w := (rounds x).foldl (fun w step => step w) state
  ⟨state.a + w.a, state.b + w.b, state.c + w.c, state.d + w.d⟩

/-! ## A context -/

structure MD5_CTX where
  state : Words
  /-- the number of bits, the low word -/
  count0 : UInt32
  count1 : UInt32
  buffer : Vector UInt8 64

/-- `DM_MD5_memcpy` into the buffer of a context -/
def memcpy (buffer : Vector UInt8 64) (index : ℕ) (l : List UInt8) : Option (Vector UInt8 64) :=
  if h : index + l.length ≤ buffer.toList.length then
    some ⟨(write buffer.toList index l).toArray, by rw [List.size_toArray, length_write h, Vector.length_toList]⟩
  else none

def DMMD5Init (context : MD5_CTX) : MD5_CTX :=
  { context with count0 := 0, count1 := 0, state := ⟨0x67452301, 0xefcdab89, 0x98badcfe, 0x10325476⟩ }

/-- the for loop of `DMMD5Update`. Its index may wrap around: then it leaves the input, or the loop. -/
def DMMD5Update.loop (input : List UInt8) (inputLen : UInt32) : ℕ → Words → UInt32 → Option (Words × UInt32)
  | 0, _, _ => none
  | fuel + 1, state, i =>
    if i + 63 < inputLen then do
      let block ← fetch (input.drop i.toNat) 64
      loop input inputLen fuel (DM_MD5Transform state block) (i + 64)
    else some (state, i)

def DMMD5Update (context : MD5_CTX) (input : List UInt8) (inputLen : UInt32) : Option MD5_CTX := do
  let index := context.count0 >>> 3 &&& 0x3F
  let count0 := context.count0 + inputLen <<< 3
  let count1 := if count0 < inputLen <<< 3 then context.count1 + 1 else context.count1
  let count1 := count1 + inputLen >>> 29
  let partLen := 64 - index
  if partLen ≤ inputLen then do
    let first ← fetch input partLen.toNat
    let buffer ← memcpy context.buffer index.toNat first
    let state := DM_MD5Transform context.state buffer.toList
    let (state, i) ← DMMD5Update.loop input inputLen (inputLen.toNat + 1) state partLen
    let last ← fetch (input.drop i.toNat) (inputLen - i).toNat
    let buffer ← memcpy buffer 0 last
    some ⟨state, count0, count1, buffer⟩
  else do
    let last ← fetch input inputLen.toNat
    let buffer ← memcpy context.buffer index.toNat last
    some ⟨context.state, count0, count1, buffer⟩

def PADDING : List UInt8 := 0x80 :: List.replicate 63 0

/-- the digest, and the context that is left behind -/
def DMMD5Final (context : MD5_CTX) : Option (List UInt8 × MD5_CTX) := do
  let bits := DM_Encode [context.count0, context.count1]
  let index := context.count0 >>> 3 &&& 0x3f
  let padLen := if index < 56 then 56 - index else 120 - index
  let context ← DMMD5Update context PADDING padLen
  let context ← DMMD5Update context bits 8
  let digest := DM_Encode [context.state.a, context.state.b, context.state.c, context.state.d]
  some (digest, ⟨⟨0, 0, 0, 0⟩, 0, 0, Vector.replicate 64 0⟩)

/-! ## What md5 is -/

def rotate (x : UInt32) (n : ℕ) : UInt32 := ⟨x.toBitVec.rotateLeft n⟩

/-- the function of a turn -/
def choice (i : ℕ) (x y z : UInt32) : UInt32 :=
  match i / 16 with
  | 0 => x &&& y ||| ~~~x &&& z
  | 1 => x &&& z ||| y &&& ~~~z
  | 2 => x ^^^ y ^^^ z
  | _ => y ^^^ (x ||| ~~~z)

/-- the word of the block that a turn takes -/
def place (i : ℕ) : ℕ :=
  match i / 16 with
  | 0 => i
  | 1 => (5 * i + 1) % 16
  | 2 => (3 * i + 5) % 16
  | _ => 7 * i % 16

def shifts : List ℕ := [7, 12, 17, 22, 5, 9, 14, 20, 4, 11, 16, 23, 6, 10, 15, 21]

def shift (i : ℕ) : ℕ := shifts.getD (4 * (i / 16) + i % 4) 1

/-- 2^32 |sin (i + 1)|, rounded down -/
def sine : List UInt32 := [
   0xd76aa478, 0xe8c7b756, 0x242070db, 0xc1bdceee, 0xf57c0faf, 0x4787c62a, 0xa8304613, 0xfd469501,
   0x698098d8, 0x8b44f7af, 0xffff5bb1, 0x895cd7be, 0x6b901122, 0xfd987193, 0xa679438e, 0x49b40821,
   0xf61e2562, 0xc040b340, 0x265e5a51, 0xe9b6c7aa, 0xd62f105d, 0x2441453, 0xd8a1e681, 0xe7d3fbc8,
   0x21e1cde6, 0xc33707d6, 0xf4d50d87, 0x455a14ed, 0xa9e3e905, 0xfcefa3f8, 0x676f02d9, 0x8d2a4c8a,
   0xfffa3942, 0x8771f681, 0x6d9d6122, 0xfde5380c, 0xa4beea44, 0x4bdecfa9, 0xf6bb4b60, 0xbebfbc70,
   0x289b7ec6, 0xeaa127fa, 0xd4ef3085, 0x4881d05, 0xd9d4d039, 0xe6db99e5, 0x1fa27cf8, 0xc4ac5665,
   0xf4292244, 0x432aff97, 0xab9423a7, 0xfc93a039, 0x655b59c3, 0x8f0ccc92, 0xffeff47d, 0x85845dd1,
   0x6fa87e4f, 0xfe2ce6e0, 0xa3014314, 0x4e0811a1, 0xf7537e82, 0xbd3af235, 0x2ad7d2bb, 0xeb86d391]

def turn (x : ℕ → UInt32) (w : Words) (i : ℕ) : Words :=
  ⟨w.d, rotate (w.a + (choice i w.b w.c w.d + x (place i) + sine.getD i 0)) (shift i) + w.b, w.b, w.c⟩

def compress (state : Words) (block : List UInt8) : Words :=
  let w := (List.range 64).foldl (turn (DM_Decode block)) state
  ⟨state.a + w.a, state.b + w.b, state.c + w.c, state.d + w.d⟩

def initial : Words := ⟨0x67452301, 0xefcdab89, 0x98badcfe, 0x10325476⟩

/-- a number of 64 bits, the low byte first -/
def le64Bytes (v : ℕ) : List UInt8 := (List.range 8).map fun k => UInt8.ofNat (v / 256 ^ k)

/-- a one bit, zeros up to 8 bytes before the end of a block, and the number of bits -/
def padding (n : ℕ) : List UInt8 := 0x80 :: List.replicate ((119 - n % 64) % 64) 0 ++ le64Bytes (8 * n)

def digest (message : List UInt8) : List UInt8 :=
  let w := (blocks 64 (message ++ padding message.length)).foldl compress initial
  DM_Encode [w.a, w.b, w.c, w.d]

/-! ## The written out steps are the loop -/

theorem F_eq (x y z : UInt32) : F x y z = (x &&& y ||| ~~~x &&& z) := by
  apply UInt32.toBitVec_inj.1
  apply BitVec.eq_of_getLsbD_eq
  intro i hi
  simp only [F, UInt32.toBitVec_xor, UInt32.toBitVec_and, UInt32.toBitVec_or, UInt32.toBitVec_not, BitVec.getLsbD_xor,
    BitVec.getLsbD_and, BitVec.getLsbD_or, BitVec.getLsbD_not]
  cases x.toBitVec.getLsbD i <;> cases y.toBitVec.getLsbD i <;> cases z.toBitVec.getLsbD i <;> simp [hi]

theorem G_eq (x y z : UInt32) : G x y z = (x &&& z ||| y &&& ~~~z) := by
  apply UInt32.toBitVec_inj.1
  apply BitVec.eq_of_getLsbD_eq
  intro i hi
  simp only [G, UInt32.toBitVec_xor, UInt32.toBitVec_and, UInt32.toBitVec_or, UInt32.toBitVec_not, BitVec.getLsbD_xor,
    BitVec.getLsbD_and, BitVec.getLsbD_or, BitVec.getLsbD_not]
  cases x.toBitVec.getLsbD i <;> cases y.toBitVec.getLsbD i <;> cases z.toBitVec.getLsbD i <;> simp [hi]

/-- the macro of a turn -/
def macroOf (i : ℕ) : UInt32 → UInt32 → UInt32 → UInt32 :=
  match i / 16 with
  | 0 => F
  | 1 => G
  | 2 => H
  | _ => I

theorem macroOf_eq (i : ℕ) : macroOf i = choice i := by
  funext x y z
  unfold macroOf choice
  generalize i / 16 = k
  match k with
  | 0 => exact F_eq x y z
  | 1 => exact G_eq x y z
  | 2 => rfl
  | _ + 3 => rfl

theorem ROTATE_LEFT_eq (x : UInt32) {n : ℕ} (h0 : 0 < n) (h32 : n < 32) :
    ROTATE_LEFT x (UInt32.ofNat n) = rotate x n := by
  have hn : (UInt32.ofNat n).toNat = n := UInt32.toNat_ofNat_of_lt' (h32.trans (by decide))
  have hsub : (32 - UInt32.ofNat n).toNat = 32 - n := by
    rw [UInt32.toNat_sub_of_le, hn]
    · rfl
    · rw [UInt32.le_iff_toNat_le, hn]
      exact h32.le
  have hl : x.toBitVec <<< ((UInt32.ofNat n).toBitVec % 32) = x.toBitVec <<< n := by
    rw [BitVec.shiftLeft_eq', BitVec.toNat_umod, UInt32.toNat_toBitVec, hn]
    exact congrArg _ (Nat.mod_eq_of_lt h32)
  have hr : x.toBitVec >>> ((32 - UInt32.ofNat n).toBitVec % 32) = x.toBitVec >>> (32 - n) := by
    rw [BitVec.ushiftRight_eq', BitVec.toNat_umod, UInt32.toNat_toBitVec, hsub]
    exact congrArg _ (Nat.mod_eq_of_lt (by simp; omega))
  apply UInt32.toBitVec_inj.1
  rw [ROTATE_LEFT, rotate, UInt32.toBitVec_or, UInt32.toBitVec_shiftLeft, UInt32.toBitVec_shiftRight, hl, hr,
    BitVec.rotateLeft_def, Nat.mod_eq_of_lt h32]

theorem shift_pos_lt {i : ℕ} (hi : i < 64) : 0 < shift i ∧ shift i < 32 := by
  have hall : ∀ i < 64, 0 < shift i ∧ shift i < 32 := by decide
  exact hall i hi

/-- one step, with the variables in the order that they have in it -/
def stepOf (x : ℕ → UInt32) (i : ℕ) (p q r t : Reg) : Words → Words :=
  mix (macroOf i) p q r t (x (place i)) (UInt32.ofNat (shift i)) (sine.getD i 0)

/-- four steps, after which the variables stand as before -/
def four (x : ℕ → UInt32) (g : ℕ) : List (Words → Words) :=
  [stepOf x (4 * g) .a .b .c .d, stepOf x (4 * g + 1) .d .a .b .c, stepOf x (4 * g + 2) .c .d .a .b,
    stepOf x (4 * g + 3) .b .c .d .a]

theorem rounds_eq (x : ℕ → UInt32) : rounds x = (List.range 16).flatMap (four x) := by
  rfl

theorem stepOf_eq (x : ℕ → UInt32) {i : ℕ} (hi : i < 64) (p q r t : Reg) (w : Words) :
    stepOf x i p q r t w = w.set p (rotate (w.get p + (choice i (w.get q) (w.get r) (w.get t) + x (place i) +
      sine.getD i 0)) (shift i) + w.get q) := by
  obtain ⟨h0, h32⟩ := shift_pos_lt hi
  rw [stepOf, mix, macroOf_eq, ROTATE_LEFT_eq _ h0 h32]

theorem foldl_four (x : ℕ → UInt32) {g : ℕ} (hg : g < 16) (w : Words) :
    (four x g).foldl (fun w step => step w) w = [4 * g, 4 * g + 1, 4 * g + 2, 4 * g + 3].foldl (turn x) w := by
  simp only [four, List.foldl_cons, List.foldl_nil]
  rw [stepOf_eq x (by omega), stepOf_eq x (by omega), stepOf_eq x (by omega), stepOf_eq x (by omega)]
  rfl

theorem foldl_rounds (x : ℕ → UInt32) (w : Words) :
    (rounds x).foldl (fun w step => step w) w = (List.range 64).foldl (turn x) w := by
  have hrange : List.range 64 = (List.range 16).flatMap fun g => [4 * g, 4 * g + 1, 4 * g + 2, 4 * g + 3] := by decide
  rw [rounds_eq, hrange, List.foldl_flatMap, List.foldl_flatMap]
  apply List.foldl_ext
  intro w g hg
  exact foldl_four x (List.mem_range.1 hg) w

/-- **The written out steps are the loop.** -/
theorem DM_MD5Transform_eq : DM_MD5Transform = compress := by
  funext state block
  simp only [DM_MD5Transform, compress, foldl_rounds]

/-! ## The words -/

theorem index_eq (n : ℕ) : (UInt32.ofNat (8 * n) >>> 3 &&& 0x3F).toNat = n % 64 := by
  have hmask : ∀ v : ℕ, v &&& 63 = v % 64 := fun v => Nat.and_two_pow_sub_one_eq_mod v 6
  simp only [UInt32.toNat_and, UInt32.toNat_shiftRight, UInt32.toNat_ofNat', UInt32.reduceToNat, hmask,
    Nat.shiftRight_eq_div_pow, Nat.reduceMod, Nat.reducePow]
  omega

theorem byte_eq (v : ℕ) {k : ℕ} (hk : k < 4) :
    (UInt32.ofNat v >>> UInt32.ofNat (8 * k) &&& 0xff).toUInt8 = UInt8.ofNat (v / 256 ^ k) := by
  have hmask : ∀ v : ℕ, v &&& 255 = v % 256 := fun v => Nat.and_two_pow_sub_one_eq_mod v 8
  apply UInt8.toNat_inj.1
  simp only [UInt32.toNat_toUInt8, UInt32.toNat_and, UInt32.toNat_shiftRight, UInt32.toNat_ofNat', UInt32.reduceToNat,
    hmask, Nat.shiftRight_eq_div_pow, UInt8.toNat_ofNat']
  interval_cases k <;> norm_num <;> omega

theorem DM_Encode_word (v : ℕ) :
    DM_Encode [UInt32.ofNat v] = (List.range 4).map fun k => UInt8.ofNat (v / 256 ^ k) := by
  have hlow : (UInt32.ofNat v &&& 0xff).toUInt8 = UInt8.ofNat (v / 256 ^ 0) := by
    have hzero : UInt32.ofNat (8 * 0) = 0 := rfl
    have hb := byte_eq v (k := 0) (by decide)
    rwa [hzero, UInt32.shiftRight_zero] at hb
  change [_, _, _, _] = [_, _, _, _]
  rw [hlow]
  congr 1
  have h1 := byte_eq v (k := 1) (by decide)
  have h2 := byte_eq v (k := 2) (by decide)
  have h3 := byte_eq v (k := 3) (by decide)
  exact congrArg₂ List.cons h1 (congrArg₂ List.cons h2 (congrArg₂ List.cons h3 rfl))

/-- the two words of the count, as bytes -/
theorem DM_Encode_count (v : ℕ) : DM_Encode [UInt32.ofNat v, UInt32.ofNat (v / 2 ^ 32)] = le64Bytes v := by
  have hsplit : DM_Encode [UInt32.ofNat v, UInt32.ofNat (v / 2 ^ 32)] =
      DM_Encode [UInt32.ofNat v] ++ DM_Encode [UInt32.ofNat (v / 2 ^ 32)] := rfl
  have hrange : List.range 8 = List.range 4 ++ (List.range 4).map (4 + ·) := by decide
  rw [hsplit, DM_Encode_word, DM_Encode_word, le64Bytes, hrange, List.map_append, List.map_map]
  congr 1
  apply List.map_congr_left
  intro k _
  simp only [Function.comp_apply, Nat.div_div_eq_div_mul, pow_add]
  norm_num

theorem count0_add (n l : ℕ) : UInt32.ofNat (8 * n) + UInt32.ofNat l <<< 3 = UInt32.ofNat (8 * (n + l)) := by
  apply UInt32.toNat_inj.1
  simp only [UInt32.toNat_add, UInt32.toNat_shiftLeft, UInt32.toNat_ofNat', UInt32.reduceToNat, Nat.shiftLeft_eq,
    Nat.reduceMod, Nat.reducePow]
  omega

theorem count1_add (n : ℕ) {l : ℕ} (hl : l < 2 ^ 32) :
    (if UInt32.ofNat (8 * (n + l)) < UInt32.ofNat l <<< 3 then UInt32.ofNat (8 * n / 2 ^ 32) + 1
      else UInt32.ofNat (8 * n / 2 ^ 32)) + UInt32.ofNat l >>> 29 = UInt32.ofNat (8 * (n + l) / 2 ^ 32) := by
  have hcarry : UInt32.ofNat (8 * (n + l)) < UInt32.ofNat l <<< 3 ↔ 2 ^ 32 ≤ 8 * n % 2 ^ 32 + 8 * l % 2 ^ 32 := by
    rw [UInt32.lt_iff_toNat_lt]
    simp only [UInt32.toNat_shiftLeft, UInt32.toNat_ofNat', UInt32.reduceToNat, Nat.shiftLeft_eq, Nat.reduceMod,
      Nat.reducePow]
    omega
  apply UInt32.toNat_inj.1
  rw [if_congr hcarry rfl rfl, UInt32.toNat_add]
  split_ifs with hc
  · simp only [UInt32.toNat_add, UInt32.toNat_shiftRight, UInt32.toNat_ofNat', UInt32.reduceToNat,
      Nat.shiftRight_eq_div_pow, Nat.reduceMod, Nat.reducePow]
    omega
  · simp only [UInt32.toNat_shiftRight, UInt32.toNat_ofNat', UInt32.reduceToNat,
      Nat.shiftRight_eq_div_pow, Nat.reduceMod, Nat.reducePow]
    omega

/-! ## Pieces -/

/-- The context of a message: its whole blocks are in the state, the rest of it stands at the start of the buffer. -/
structure Kept (message : List UInt8) (context : MD5_CTX) : Prop where
  state : context.state = (blocks 64 message).foldl compress initial
  buffer : context.buffer.toList.take (message.length % 64) = rest 64 message
  count0 : context.count0 = UInt32.ofNat (8 * message.length)
  count1 : context.count1 = UInt32.ofNat (8 * message.length / 2 ^ 32)

theorem DMMD5Init_kept (context : MD5_CTX) : Kept [] (DMMD5Init context) where
  state := rfl
  buffer := rfl
  count0 := rfl
  count1 := rfl

theorem memcpy_inside (buffer : Vector UInt8 64) (index : ℕ) (l : List UInt8) (h : index + l.length ≤ 64) :
    ∃ buffer', memcpy buffer index l = some buffer' ∧ buffer'.toList = write buffer.toList index l := by
  have hlen : index + l.length ≤ buffer.toList.length := by rwa [Vector.length_toList]
  exact ⟨_, dif_pos hlen, by simp⟩

theorem DMMD5Update.loop_eq {input : List UInt8} {inputLen : UInt32} (hin : inputLen.toNat ≤ input.length)
    (hwrap : inputLen.toNat + 64 ≤ 2 ^ 32) (fuel : ℕ) (state : Words) (i : UInt32) (hi : i ≤ inputLen)
    (hfuel : inputLen.toNat - i.toNat < fuel) :
    ∃ j : UInt32, DMMD5Update.loop input inputLen fuel state i =
        some ((blocks 64 ((input.take inputLen.toNat).drop i.toNat)).foldl compress state, j) ∧
      j ≤ inputLen ∧ (input.take inputLen.toNat).drop j.toNat = rest 64 ((input.take inputLen.toNat).drop i.toNat) := by
  induction fuel generalizing state i with
  | zero => omega
  | succ fuel ih =>
    have hile := UInt32.le_iff_toNat_le.1 hi
    have h63 : (i + 63).toNat = i.toNat + 63 := by
      rw [UInt32.toNat_add]
      exact Nat.mod_eq_of_lt (by simp; omega)
    have hlen : ((input.take inputLen.toNat).drop i.toNat).length = inputLen.toNat - i.toNat := by
      rw [List.length_drop, List.length_take_of_le hin]
    rw [DMMD5Update.loop]
    by_cases hc : i + 63 < inputLen
    · have hlt := UInt32.lt_iff_toNat_lt.1 hc
      rw [h63] at hlt
      have h64 : (i + 64).toNat = i.toNat + 64 := by
        rw [UInt32.toNat_add]
        exact Nat.mod_eq_of_lt (by simp; omega)
      have hblock : ((input.take inputLen.toNat).drop i.toNat).take 64 = (input.drop i.toNat).take 64 := by
        rw [List.drop_take, List.take_take, Nat.min_eq_left (by omega)]
      have hsplit : (input.take inputLen.toNat).drop i.toNat =
          (input.drop i.toNat).take 64 ++ (input.take inputLen.toNat).drop (i + 64).toNat := by
        rw [← hblock, h64, ← List.drop_drop, List.take_append_drop]
      have hsize : ((input.drop i.toNat).take 64).length = 64 := by
        rw [List.length_take_of_le]
        rw [List.length_drop]
        omega
      obtain ⟨j, hj, hjle, hjrest⟩ := ih (compress state ((input.drop i.toNat).take 64)) (i + 64)
        (UInt32.le_iff_toNat_le.2 (by omega)) (by omega)
      refine ⟨j, ?_, hjle, ?_⟩
      · rw [if_pos hc, fetch_inside (by rw [List.length_drop]; omega), Option.bind_eq_bind, Option.bind_some,
          DM_MD5Transform_eq, hj, hsplit, blocks_cons (by decide) hsize, List.foldl_cons]
      · rw [hjrest, hsplit, rest_cons (by decide) hsize]
    · have hge : inputLen.toNat - i.toNat < 64 := by
        have hnlt := mt UInt32.lt_iff_toNat_lt.2 hc
        omega
      refine ⟨i, ?_, hi, ?_⟩
      · rw [if_neg hc, blocks_short (by omega), List.foldl_nil]
      · rw [rest_short (by omega)]

/-- the counts behind an update -/
theorem counts_kept {message xs : List UInt8} {context : MD5_CTX} {inputLen : UInt32} (h : Kept message context)
    (hlen : xs.length = inputLen.toNat) :
    context.count0 + inputLen <<< 3 = UInt32.ofNat (8 * (message ++ xs).length) ∧
      (if context.count0 + inputLen <<< 3 < inputLen <<< 3 then context.count1 + 1 else context.count1) +
        inputLen >>> 29 = UInt32.ofNat (8 * (message ++ xs).length / 2 ^ 32) := by
  have hl : inputLen = UInt32.ofNat xs.length := by rw [hlen, UInt32.ofNat_toNat]
  have hlt : xs.length < 2 ^ 32 := hlen ▸ inputLen.toNat_lt
  rw [h.count0, h.count1, hl, count0_add, List.length_append]
  exact ⟨rfl, count1_add message.length hlt⟩

/-- **An update keeps the context of a message.** -/
theorem DMMD5Update_kept {message : List UInt8} {context : MD5_CTX} (h : Kept message context) (input : List UInt8)
    (inputLen : UInt32) (hin : inputLen.toNat ≤ input.length) (hwrap : inputLen.toNat + 64 ≤ 2 ^ 32) :
    ∃ context', DMMD5Update context input inputLen = some context' ∧
      Kept (message ++ input.take inputLen.toNat) context' := by
  obtain ⟨xs, hxs⟩ : ∃ xs, xs = input.take inputLen.toNat := ⟨_, rfl⟩
  have hlen : xs.length = inputLen.toNat := by rw [hxs, List.length_take_of_le hin]
  obtain ⟨hcount0, hcount1⟩ := counts_kept h hlen
  obtain ⟨index, hi⟩ : ∃ index : UInt32, index = context.count0 >>> 3 &&& 0x3F := ⟨_, rfl⟩
  have hindex : index.toNat = message.length % 64 := by rw [hi, h.count0, index_eq]
  have hlt : message.length % 64 < 64 := Nat.mod_lt _ (by decide)
  have hpart : (64 - index).toNat = 64 - message.length % 64 := by
    rw [UInt32.toNat_sub_of_le _ _ (UInt32.le_iff_toNat_le.2 (by rw [hindex]; exact hlt.le)), hindex]
    rfl
  have hrest : (rest 64 message).length = message.length % 64 := length_rest 64 message
  rw [← hxs]
  simp only [DMMD5Update, ← hi]
  by_cases hc : 64 - index ≤ inputLen
  · -- the buffer is filled up to a block, and the loop takes the other ones from the input
    have hle := UInt32.le_iff_toNat_le.1 hc
    rw [hpart] at hle
    have hfirst : (input.take (64 - message.length % 64)).length = 64 - message.length % 64 :=
      List.length_take_of_le (by omega)
    have htake : input.take (64 - message.length % 64) = xs.take (64 - message.length % 64) := by
      rw [hxs, List.take_take, Nat.min_eq_left hle]
    obtain ⟨buffer, hbuffer, hcells⟩ := memcpy_inside context.buffer (message.length % 64)
      (input.take (64 - message.length % 64)) (by omega)
    have hblock : buffer.toList = rest 64 message ++ xs.take (64 - message.length % 64) := by
      have hend : context.buffer.toList.drop (message.length % 64 + (64 - message.length % 64)) = [] :=
        List.drop_eq_nil_of_le (by rw [Vector.length_toList]; omega)
      rw [hcells, write, h.buffer, hfirst, hend, List.append_nil, htake]
    have hsize : (rest 64 message ++ xs.take (64 - message.length % 64)).length = 64 := by
      rw [← hblock, Vector.length_toList]
    have hsplit : rest 64 message ++ xs = (rest 64 message ++ xs.take (64 - message.length % 64)) ++
        xs.drop (64 - message.length % 64) := by
      rw [List.append_assoc, List.take_append_drop]
    obtain ⟨j, hj, hjle, hjrest⟩ := DMMD5Update.loop_eq hin hwrap (inputLen.toNat + 1)
      (compress context.state buffer.toList) (64 - index) hc (by omega)
    rw [← hxs, hpart] at hj hjrest
    have hjle' := UInt32.le_iff_toNat_le.1 hjle
    have hlast : (input.drop j.toNat).take (inputLen - j).toNat = xs.drop j.toNat := by
      rw [UInt32.toNat_sub_of_le _ _ hjle, hxs, List.drop_take]
    have hlastLen : (xs.drop j.toNat).length < 64 := by
      rw [hjrest]
      exact length_rest_lt (by decide) _
    obtain ⟨buffer', hbuffer', hcells'⟩ := memcpy_inside buffer 0 (xs.drop j.toNat) (by omega)
    have hrest' : rest 64 (message ++ xs) = xs.drop j.toNat := by
      rw [rest_append (by decide), hsplit, rest_cons (by decide) hsize, hjrest]
    refine ⟨⟨(blocks 64 (xs.drop (64 - message.length % 64))).foldl compress (compress context.state buffer.toList),
      _, _, buffer'⟩, ?_, ⟨?_, ?_, hcount0, hcount1⟩⟩
    · rw [if_pos hc, hpart, fetch_inside (by omega)]
      simp only [Option.bind_eq_bind, Option.bind_some, hindex, hbuffer, DM_MD5Transform_eq, hj]
      rw [fetch_inside (by rw [List.length_drop, UInt32.toNat_sub_of_le _ _ hjle]; omega), hlast]
      simp only [Option.bind_some, hbuffer']
    · rw [blocks_append (by decide), List.foldl_append, hsplit, blocks_cons (by decide) hsize, List.foldl_cons, h.state,
        hblock]
    · have hmod : (message ++ xs).length % 64 = (xs.drop j.toNat).length := by rw [← length_rest, hrest']
      rw [hrest', hcells', hmod, write, List.take_zero, List.nil_append, Nat.zero_add, List.take_left]
  · -- there is not enough for a block yet
    have hgt : xs.length < 64 - message.length % 64 := by
      have hnle := mt UInt32.le_iff_toNat_le.2 hc
      omega
    have hshort : (rest 64 message ++ xs).length < 64 := by
      rw [List.length_append, hrest]
      omega
    obtain ⟨buffer, hbuffer, hcells⟩ := memcpy_inside context.buffer (message.length % 64) xs (by omega)
    have hrest' : rest 64 (message ++ xs) = rest 64 message ++ xs := by rw [rest_append (by decide), rest_short hshort]
    refine ⟨⟨context.state, _, _, buffer⟩, ?_, ⟨?_, ?_, hcount0, hcount1⟩⟩
    · rw [if_neg hc, fetch_inside hin, ← hxs]
      simp only [Option.bind_eq_bind, Option.bind_some, hindex, hbuffer]
    · rw [blocks_append (by decide), blocks_short hshort, List.append_nil, h.state]
    · have hmod : (message ++ xs).length % 64 = message.length % 64 + xs.length := by
        rw [← length_rest, hrest', List.length_append, hrest]
      rw [hrest', hcells, hmod, take_write (by rw [Vector.length_toList]; omega), h.buffer]

/-! ## The digest -/

/-- the padding and the count finish a message -/
theorem DMMD5Final_eq {message : List UInt8} {context : MD5_CTX} (h : Kept message context) :
    DMMD5Final context = some (digest message, ⟨⟨0, 0, 0, 0⟩, 0, 0, Vector.replicate 64 0⟩) := by
  have hlt : message.length % 64 < 64 := Nat.mod_lt _ (by decide)
  obtain ⟨index, hi⟩ : ∃ index : UInt32, index = context.count0 >>> 3 &&& 0x3f := ⟨_, rfl⟩
  have hindex : index.toNat = message.length % 64 := by rw [hi, h.count0, index_eq]
  have hpad : (if index < 56 then 56 - index else 120 - index).toNat = (119 - message.length % 64) % 64 + 1 := by
    have h56 : index < 56 ↔ message.length % 64 < 56 := by
      rw [UInt32.lt_iff_toNat_lt, hindex]
      rfl
    split_ifs with hc
    · rw [UInt32.toNat_sub_of_le _ _ (UInt32.le_of_lt hc), hindex]
      have hc' := h56.1 hc
      change 56 - message.length % 64 = _
      omega
    · have hle : index ≤ 120 := by
        rw [UInt32.le_iff_toNat_le, hindex]
        change message.length % 64 ≤ 120
        omega
      rw [UInt32.toNat_sub_of_le _ _ hle, hindex]
      have hc' := mt h56.2 hc
      change 120 - message.length % 64 = _
      omega
  have hpadding : PADDING.take ((119 - message.length % 64) % 64 + 1) =
      0x80 :: List.replicate ((119 - message.length % 64) % 64) 0 := by
    rw [PADDING, List.take_succ_cons, List.take_replicate, Nat.min_eq_left (by omega)]
  have hbits : DM_Encode [context.count0, context.count1] = le64Bytes (8 * message.length) := by
    rw [h.count0, h.count1, DM_Encode_count]
  have hbitsLen : (le64Bytes (8 * message.length)).length = 8 := by simp [le64Bytes]
  have hpadLen : PADDING.length = 64 := rfl
  obtain ⟨context1, hrun1, hkept1⟩ := DMMD5Update_kept h PADDING _ (by rw [hpad, hpadLen]; omega)
    (by rw [hpad]; omega)
  obtain ⟨context2, hrun2, hkept2⟩ := DMMD5Update_kept hkept1 (le64Bytes (8 * message.length)) 8
    (by rw [hbitsLen]; decide) (by decide)
  have hall : message ++ PADDING.take ((119 - message.length % 64) % 64 + 1) ++
      (le64Bytes (8 * message.length)).take (8 : UInt32).toNat = message ++ padding message.length := by
    have h8 : (8 : UInt32).toNat = (le64Bytes (8 * message.length)).length := hbitsLen.symm
    rw [h8, List.take_length, hpadding, List.append_assoc, padding]
  rw [hpad, hall] at hkept2
  simp only [DMMD5Final, ← hi, hrun1, Option.bind_eq_bind, Option.bind_some, hbits, hrun2, hkept2.state, digest]

/-- the code on a message in pieces -/
def run (context : MD5_CTX) (pieces : List (List UInt8)) : Option (List UInt8 × MD5_CTX) := do
  let context ← pieces.foldlM (fun context p => DMMD5Update context p (UInt32.ofNat p.length)) (DMMD5Init context)
  DMMD5Final context

theorem foldlM_kept (pieces : List (List UInt8)) (hwrap : ∀ p ∈ pieces, p.length + 64 ≤ 2 ^ 32) :
    ∀ {message : List UInt8} {context : MD5_CTX}, Kept message context →
      ∃ context', pieces.foldlM (fun context p => DMMD5Update context p (UInt32.ofNat p.length)) context =
        some context' ∧ Kept (message ++ pieces.flatten) context' := by
  induction pieces with
  | nil =>
    intro message context h
    exact ⟨context, rfl, by rwa [List.flatten_nil, List.append_nil]⟩
  | cons p pieces ih =>
    intro message context h
    have hp := hwrap p List.mem_cons_self
    have hlen : (UInt32.ofNat p.length).toNat = p.length := UInt32.toNat_ofNat_of_lt' (by
      change p.length < 2 ^ 32
      omega)
    obtain ⟨context1, hrun, hkept⟩ := DMMD5Update_kept h p (UInt32.ofNat p.length) hlen.le
      (by rwa [hlen])
    rw [hlen, List.take_length] at hkept
    obtain ⟨context2, hrun2, hkept2⟩ := ih (fun q hq => hwrap q (List.mem_cons_of_mem p hq)) hkept
    refine ⟨context2, ?_, ?_⟩
    · rw [List.foldlM_cons, hrun, Option.bind_eq_bind, Option.bind_some, hrun2]
    · rwa [List.flatten_cons, ← List.append_assoc]

/-- **The digest of a message does not depend on its pieces**, nor on what the context held before. -/
theorem digest_of_pieces (context : MD5_CTX) (pieces : List (List UInt8))
    (hwrap : ∀ p ∈ pieces, p.length + 64 ≤ 2 ^ 32) :
    run context pieces = some (digest pieces.flatten, ⟨⟨0, 0, 0, 0⟩, 0, 0, Vector.replicate 64 0⟩) := by
  obtain ⟨context', hrun, hkept⟩ := foldlM_kept pieces hwrap (DMMD5Init_kept context)
  rw [List.nil_append] at hkept
  rw [run, hrun, Option.bind_eq_bind, Option.bind_some, DMMD5Final_eq hkept]

/-- 190 bytes, whose second and third piece each fill up a block -/
def crossing : List (List UInt8) := [List.replicate 40 97, List.replicate 40 98, List.replicate 110 99]

theorem digest_of_pieces_crossing :
    run ⟨⟨1, 2, 3, 4⟩, 5, 6, Vector.replicate 64 7⟩ crossing =
      some (digest crossing.flatten, ⟨⟨0, 0, 0, 0⟩, 0, 0, Vector.replicate 64 0⟩) :=
  digest_of_pieces _ crossing (by decide)

example : digest [97, 98, 99] =
    [0x90, 0x01, 0x50, 0x98, 0x3c, 0xd2, 0x4f, 0xb0, 0xd6, 0x96, 0x3f, 0x7d, 0x28, 0xe1, 0x7f, 0x72] := by
  decide +kernel

/-! ## The credential -/

theorem length_digest (message : List UInt8) : (digest message).length = HASHLEN := rfl

/-- the digest as the credentials take it -/
def md5 (message : List UInt8) : Vector UInt8 HASHLEN := ⟨(digest message).toArray, length_digest message⟩

/-- `mmidm_calc_md5_cred` with its context, of which nothing is set before -/
def calc_md5_cred (context : MD5_CTX) (creddata : List UInt8) : Option (List UInt8) := do
  let n ← strlen creddata
  let data ← fetch creddata n
  let (HA1, _) ← run context [data]
  let creddata ← put creddata 0 HA1
  put creddata HASHLEN [0]

theorem calc_md5_cred_digest (context : MD5_CTX) {creddata : List UInt8} (hwrap : creddata.length + 64 ≤ 2 ^ 32) :
    calc_md5_cred context creddata = mmidm_calc_md5_cred md5 creddata := by
  unfold calc_md5_cred mmidm_calc_md5_cred
  apply Option.bind_congr
  intro n _
  apply Option.bind_congr
  intro data hdata
  have hlen : data.length ≤ creddata.length := by
    unfold fetch at hdata
    split_ifs at hdata
    rw [← Option.some.inj hdata]
    exact List.length_take_le' n creddata
  obtain ⟨context', hrun, hkept⟩ := foldlM_kept [data] (by
    intro p hp
    rw [List.mem_singleton.1 hp]
    omega) (DMMD5Init_kept context)
  rw [List.nil_append, List.flatten_singleton] at hkept
  have hdigest : run context [data] = some (digest data, ⟨⟨0, 0, 0, 0⟩, 0, 0, Vector.replicate 64 0⟩) := by
    rw [run, hrun, Option.bind_eq_bind, Option.bind_some, DMMD5Final_eq hkept]
  rw [hdigest]
  rfl

end SprdDevice.Dm.Md5
