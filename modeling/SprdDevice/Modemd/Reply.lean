/-
The search for a reply in what the modem sends (modemd.c: findInBuf). The buffer is the list of its len bytes; the needle
is the list of its bytes, and what is read behind the last one is the NUL. A char is unsigned.

The loop keeps how many bytes of the needle it has matched. Where the next byte is another one it begins again with the
byte behind, so it tries the needle only where the try before broke off.

Results: `findInBuf_tries` (what is found) and `findInBuf_iff` (when this is the substring search that the comment on the
function promises; for a needle with two different bytes some buffer has it and is not recognised).
-/
import Mathlib.Tactic
import Mathlib.Data.List.GetD
import SprdDevice.Lib.Search

namespace SprdDevice.Modemd.Reply

open SprdDevice.Search

/-- the loop: the bytes from `buf[i]` on, and needleMatchedPos -/
def findLoop (needle : List UInt8) : List UInt8 → ℕ → ℤ
  | [], _ => 0
  | b :: buf, needleMatchedPos =>
    if needle.getD needleMatchedPos 0 = b then
      -- the entire needle was found
      if needle.getD (needleMatchedPos + 1) 0 = 0 then 1
      else findLoop needle buf (needleMatchedPos + 1)
    else findLoop needle buf 0

def findInBuf (buf needle : List UInt8) : ℤ := if needle.getD 0 0 = 0 then 1 else findLoop needle buf 0

/-! ## The loop -/

section Loop

variable {needle : List UInt8} {k : ℕ}

/-- a byte of the needle is never the NUL, and behind the last one there is the NUL -/
theorem getD_eq_zero_iff (h0 : 0 ∉ needle) (k : ℕ) : needle.getD k 0 = 0 ↔ needle.length ≤ k := by
  constructor
  · intro h
    by_contra hk
    rw [Nat.not_le] at hk
    rw [List.getD_eq_getElem _ _ hk] at h
    exact h0 (h ▸ List.getElem_mem hk)
  · intro hk
    exact List.getD_eq_default _ _ hk

/-- the bytes of the needle are matched one after the other -/
theorem findLoop_take (h0 : 0 ∉ needle) (hk : k < needle.length) (buf : List UInt8) :
    findLoop needle (needle.take k ++ buf) 0 = findLoop needle buf k := by
  induction k generalizing buf with
  | zero => rfl
  | succ k ih =>
    have hlt : k < needle.length := by omega
    have hgo : needle.getD (k + 1) 0 ≠ 0 := by
      rw [ne_eq, getD_eq_zero_iff h0, Nat.not_le]
      exact hk
    rw [List.take_succ_eq_append_getElem hlt, List.append_assoc, ih hlt, List.singleton_append, findLoop,
      if_pos (List.getD_eq_getElem _ _ hlt), if_neg hgo]

theorem findLoop_short (h0 : 0 ∉ needle) (hk : k < needle.length) : findLoop needle (needle.take k) 0 = 0 := by
  have h := findLoop_take h0 hk []
  rw [List.append_nil] at h
  exact h

theorem findLoop_found (h0 : 0 ∉ needle) (hne : needle ≠ []) {buf : List UInt8} (h : needle <+: buf) :
    findLoop needle buf 0 = 1 := by
  obtain ⟨rest, rfl⟩ := h
  obtain ⟨k, hk⟩ : ∃ k, needle.length = k + 1 := Nat.exists_eq_succ_of_ne_zero (by simpa using hne)
  have hlt : k < needle.length := by omega
  have hlast : needle.take k ++ (needle[k] :: rest) = needle ++ rest := by
    rw [List.append_cons, ← List.take_succ_eq_append_getElem hlt, List.take_of_length_le hk.le]
  rw [← hlast, findLoop_take h0 hlt, findLoop, if_pos (List.getD_eq_getElem _ _ hlt),
    if_pos ((getD_eq_zero_iff h0 _).2 hk.le)]

theorem findLoop_miss (h0 : 0 ∉ needle) {w : List UInt8} (hw : Miss needle w) (buf : List UInt8) :
    findLoop needle (w ++ buf) 0 = findLoop needle buf 0 := by
  obtain ⟨k, c, hk, hc, rfl⟩ := hw
  have hother : needle.getD k 0 ≠ c := by
    intro h
    apply hc
    rw [List.getElem?_eq_getElem hk, ← h, List.getD_eq_getElem _ _ hk]
  rw [List.append_assoc, findLoop_take h0 hk, List.singleton_append, findLoop, if_neg hother]

/-- **What is found.** An occurrence that tries reach, each beginning behind the byte where the one before broke off. -/
theorem findInBuf_tries (h0 : 0 ∉ needle) (buf : List UInt8) : findInBuf buf needle = 1 ↔ AfterMisses needle buf := by
  by_cases hne : needle = []
  · subst hne
    simpa [findInBuf] using afterMisses_found List.nil_prefix
  · have hgo : needle.getD 0 0 ≠ 0 := by
      rw [ne_eq, getD_eq_zero_iff h0, Nat.le_zero, List.length_eq_zero_iff]
      exact hne
    rw [findInBuf, if_neg hgo]
    induction buf using try_induction needle with
    | short k hk =>
      rw [findLoop_short h0 hk]
      refine iff_of_false (by decide) fun h => ?_
      have hlen := h.isInfix.length_le
      rw [List.length_take_of_le hk.le] at hlen
      omega
    | found buf h => exact iff_of_true (findLoop_found h0 hne h) (afterMisses_found h)
    | miss w buf hw ih =>
      rw [findLoop_miss h0 hw]
      exact ih.trans (afterMisses_append hw).symm

end Loop

/-! ## The search that the comment promises -/

/-- garbage without the first byte of the needle is passed over -/
theorem findInBuf_garbage {c : UInt8} {needle : List UInt8} (h0 : 0 ∉ c :: needle) (garbage rest : List UInt8)
    (h : c ∉ garbage) : findInBuf (garbage ++ (c :: needle ++ rest)) (c :: needle) = 1 :=
  (findInBuf_tries h0 _).2 (afterMisses_clean garbage rest h)

/-- **When findInBuf is a substring search**: for a needle and a buffer, and for a needle and every buffer. -/
theorem findInBuf_iff (needle : List UInt8) (h0 : 0 ∉ needle) :
    (∀ buf, (findInBuf buf needle = 1 ↔ needle <:+: buf) ↔ (needle <:+: buf → AfterMisses needle buf)) ∧
    ((∀ buf, findInBuf buf needle = 1 ↔ needle <:+: buf) ↔ ∀ x ∈ needle, ∀ y ∈ needle, x = y) := by
  have hone : ∀ buf, (findInBuf buf needle = 1 ↔ needle <:+: buf) ↔ (needle <:+: buf → AfterMisses needle buf) := by
    intro buf
    rw [findInBuf_tries h0]
    exact ⟨fun h => h.2, fun h => ⟨fun hm => hm.isInfix, h⟩⟩
  refine ⟨hone, ?_⟩
  rw [← afterMisses_every_iff]
  exact forall_congr' hone

/-- the needle of the handshake: its two bytes differ -/
theorem findInBuf_iff_ok : ¬ ∀ buf, findInBuf buf [79, 75] = 1 ↔ [79, 75] <:+: buf := by
  rw [(findInBuf_iff [79, 75] (by decide)).2]
  intro h
  exact absurd (h 79 (by simp) 75 (by simp)) (by decide)

/-- OOK has OK in it -/
theorem second_o_lost :
    ¬ ∀ needle buf : List UInt8, 0 ∉ needle → (findInBuf buf needle = 1 ↔ needle <:+: buf) := by
  intro h
  have hfind : findInBuf [79, 79, 75] [79, 75] = 1 := (h [79, 75] [79, 79, 75] (by decide)).2 ⟨[79], [], rfl⟩
  exact absurd hfind (by decide)

end SprdDevice.Modemd.Reply
