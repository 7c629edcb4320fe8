/-
A stream of blocks through `mmidm_base64Encode`: one call after the other, with the offset and the saved bytes handed on.

A call before the last one saves up to two bytes for the next. It saves them over those that are saved already when its
own block has less than three bytes, for then the loop does not run. So the pieces are the text of `kept`, the bytes that
were not overwritten, and this is the text of the whole exactly when nothing was (`pieces_whole_iff`).
-/
import Mathlib.Tactic
import SprdDevice.Dm.Base64

namespace SprdDevice.Dm.Base64

open SprdDevice.Base64 SprdDevice.Buffer

variable {ks : List UInt8} {o : ℕ}

/-! ## Block by block -/

/-- the calls for the blocks of `calls` in order, each with the size of its target. The last one has bLast = 1, and the
offset and the saved bytes are handed on. -/
def encodeCalls (pcbOffset : ℕ) (pbSaveBytes : Option (List UInt8)) : List (List UInt8 × ℕ) → List Encoded
  | [] => []
  | [c] => [mmidm_base64Encode c.2 (some c.1) pcbOffset 1 pbSaveBytes]
  | c :: c' :: cs =>
    mmidm_base64Encode c.2 (some c.1) pcbOffset 0 pbSaveBytes ::
      encodeCalls (mmidm_base64Encode c.2 (some c.1) pcbOffset 0 pbSaveBytes).pcbOffset
        (mmidm_base64Encode c.2 (some c.1) pcbOffset 0 pbSaveBytes).pbSaveBytes (c' :: cs)

/-- the pieces that the calls write, one behind the other -/
def pieces (pcbOffset : ℕ) (pbSaveBytes : Option (List UInt8)) (calls : List (List UInt8 × ℕ)) : List UInt8 :=
  (encodeCalls pcbOffset pbSaveBytes calls).flatMap Encoded.out

def savedCount (p : Option (List UInt8)) : ℕ := ((p.getD []).getD 0 0).toNat

/-- every call has a target for what it can encode -/
def Sufficient (pcbOffset : ℕ) (pbSaveBytes : Option (List UInt8)) : List (List UInt8 × ℕ) → Prop
  | [] => True
  | [c] => textSize pcbOffset (savedCount pbSaveBytes + c.1.length) ≤ c.2
  | c :: c' :: cs =>
    textSize pcbOffset (if c.1.length < 3 then 0 else (savedCount pbSaveBytes + c.1.length) / 3 * 3) ≤ c.2 ∧
      Sufficient (mmidm_base64Encode c.2 (some c.1) pcbOffset 0 pbSaveBytes).pcbOffset
        (mmidm_base64Encode c.2 (some c.1) pcbOffset 0 pbSaveBytes).pbSaveBytes (c' :: cs)

instance decidableSufficient : ∀ o p calls, Decidable (Sufficient o p calls)
  | _, _, [] => inferInstanceAs (Decidable True)
  | o, p, [c] => inferInstanceAs (Decidable (textSize o (savedCount p + c.1.length) ≤ c.2))
  | o, p, c :: c' :: cs =>
    have : Decidable (Sufficient (mmidm_base64Encode c.2 (some c.1) o 0 p).pcbOffset
      (mmidm_base64Encode c.2 (some c.1) o 0 p).pbSaveBytes (c' :: cs)) := decidableSufficient _ _ (c' :: cs)
    inferInstanceAs (Decidable (textSize o (if c.1.length < 3 then 0 else (savedCount p + c.1.length) / 3 * 3) ≤ c.2 ∧
      Sufficient (mmidm_base64Encode c.2 (some c.1) o 0 p).pcbOffset
        (mmidm_base64Encode c.2 (some c.1) o 0 p).pbSaveBytes (c' :: cs)))

/-- the bytes that are encoded in the end, of those saved and those of the blocks -/
def kept (ks : List UInt8) : List (List UInt8) → List UInt8
  | [] => ks
  | [d] => ks ++ d
  | d :: d' :: ds => (keep ks d).1 ++ kept (keep ks d).2 (d' :: ds)

theorem length_keep_fst_eq (ks d : List UInt8) :
    (keep ks d).1.length = if d.length < 3 then 0 else (ks.length + d.length) / 3 * 3 := by
  unfold keep
  split_ifs with hd
  · rfl
  · rw [List.length_take, List.length_append]
    omega

theorem Kept.count {v : List UInt8} (h : Kept (some v) ks) : savedCount (some v) = ks.length := h.1

/-- **The pieces are the text of the bytes that were not lost.** -/
theorem pieces_eq (calls : List (List UInt8 × ℕ)) (hblocks : ∀ c ∈ calls, c.1 ≠ []) {v : List UInt8}
    (h : Kept (some v) ks) (hv : 3 ≤ v.length) (hk : ks.length ≤ 2) (hend : calls = [] → ks = [])
    (hroom : Sufficient o (some v) calls) :
    pieces o (some v) calls = text t brk o (kept ks (calls.map Prod.fst)) := by
  induction calls generalizing o ks v with
  | nil =>
    rw [hend rfl]
    exact (text_nil t brk o).symm
  | cons c cs ih =>
    have hc : c.1 ≠ [] := hblocks c (List.mem_cons_self ..)
    cases cs with
    | nil =>
      have hsize : (text t brk o (ks ++ c.1)).length ≤ c.2 := by
        rw [length_text, List.length_append, ← h.count]
        exact hroom
      have hlast := (encode_last h hk (Or.inl hc) hsize).1
      calc pieces o (some v) [c] = (mmidm_base64Encode c.2 (some c.1) o 1 (some v)).out ++ [] := rfl
        _ = text t brk o (ks ++ c.1) := by rw [hlast, List.append_nil]
    | cons c' cs =>
      have hsize : (text t brk o (keep ks c.1).1).length ≤ c.2 := by
        rw [length_text, length_keep_fst_eq, ← h.count]
        exact hroom.1
      obtain ⟨hout, hoff, v', hsave, hv', hkept⟩ := encode_next h hv hk hsize
      have hrest := hroom.2
      rw [hoff, hsave] at hrest
      have hih := ih (fun b hb => hblocks b (List.mem_cons_of_mem c hb)) hkept hv' (length_keep_snd ks c.1)
        (fun hnil => absurd hnil (List.cons_ne_nil c' cs)) hrest
      calc pieces o (some v) (c :: c' :: cs) =
            (mmidm_base64Encode c.2 (some c.1) o 0 (some v)).out ++
              pieces (mmidm_base64Encode c.2 (some c.1) o 0 (some v)).pcbOffset
                (mmidm_base64Encode c.2 (some c.1) o 0 (some v)).pbSaveBytes (c' :: cs) := rfl
        _ = text t brk o (keep ks c.1).1 ++
              text t brk (o + (keep ks c.1).1.length) (kept (keep ks c.1).2 ((c' :: cs).map Prod.fst)) := by
            rw [hout, hoff, hsave, hih]
        _ = text t brk o (kept ks ((c :: c' :: cs).map Prod.fst)) :=
            (text_append t brk o _ _ (length_keep_fst ks c.1)).symm

/-- no block but the last is so short that it takes the place of saved bytes -/
def NoneLost (ks : List UInt8) : List (List UInt8) → Prop
  | [] => True
  | [_] => True
  | d :: d' :: ds => (ks = [] ∨ 3 ≤ d.length) ∧ NoneLost (keep ks d).2 (d' :: ds)

theorem keep_append (ks : List UInt8) {d : List UInt8} (h : ks = [] ∨ 3 ≤ d.length) :
    (keep ks d).1 ++ (keep ks d).2 = ks ++ d := by
  unfold keep
  split_ifs with hd
  · rw [h.resolve_right (Nat.not_le.mpr hd)]
  · rw [List.take_append_drop]

theorem keep_lost {ks d : List UInt8} (h : ¬ (ks = [] ∨ 3 ≤ d.length)) :
    (keep ks d).1.length + (keep ks d).2.length < ks.length + d.length := by
  rw [not_or] at h
  have hpos := List.length_pos_iff.mpr h.1
  have hkeep : keep ks d = ([], d) := if_pos (Nat.not_le.mp h.2)
  rw [hkeep, List.length_nil]
  change 0 + d.length < ks.length + d.length
  omega

theorem kept_eq (ds : List (List UInt8)) (h : NoneLost ks ds) : kept ks ds = ks ++ ds.flatten := by
  induction ds generalizing ks with
  | nil => rw [kept, List.flatten_nil, List.append_nil]
  | cons d ds ih =>
    cases ds with
    | nil => rw [kept, List.flatten_cons, List.flatten_nil, List.append_nil]
    | cons d' ds =>
      rw [kept, ih h.2, ← List.append_assoc, keep_append ks h.1, List.append_assoc, ← List.flatten_cons]

theorem length_kept_le (ds : List (List UInt8)) : (kept ks ds).length ≤ ks.length + ds.flatten.length := by
  induction ds generalizing ks with
  | nil => exact Nat.le_add_right _ _
  | cons d ds ih =>
    cases ds with
    | nil => rw [kept, List.flatten_cons, List.flatten_nil, List.append_nil, List.length_append]
    | cons d' ds =>
      have hstep : (keep ks d).1.length + (keep ks d).2.length ≤ ks.length + d.length := by
        by_cases hd : ks = [] ∨ 3 ≤ d.length
        · have hlen := congrArg List.length (keep_append ks hd)
          rw [List.length_append, List.length_append] at hlen
          exact hlen.le
        · exact (keep_lost hd).le
      have hrest := @ih (keep ks d).2
      rw [kept, List.length_append, List.flatten_cons, List.length_append]
      omega

theorem length_kept_lt (ds : List (List UInt8)) (h : ¬ NoneLost ks ds) :
    (kept ks ds).length < ks.length + ds.flatten.length := by
  induction ds generalizing ks with
  | nil => exact absurd trivial h
  | cons d ds ih =>
    cases ds with
    | nil => exact absurd trivial h
    | cons d' ds =>
      rw [kept, List.length_append, List.flatten_cons, List.length_append]
      by_cases hd : ks = [] ∨ 3 ≤ d.length
      · have hrest := ih (fun hn => h ⟨hd, hn⟩)
        have hlen := congrArg List.length (keep_append ks hd)
        rw [List.length_append, List.length_append] at hlen
        omega
      · have hlost := keep_lost hd
        have hrest := @length_kept_le (keep ks d).2 (d' :: ds)
        omega

/-- the same without the saved bytes: their number is what the blocks before leave over -/
theorem noneLost_iff (ds : List (List UInt8)) (hk : ks.length ≤ 2) :
    NoneLost ks ds ↔ ∀ pre d post, ds = pre ++ d :: post → post ≠ [] →
      (ks.length + pre.flatten.length) % 3 = 0 ∨ 3 ≤ d.length := by
  induction ds generalizing ks with
  | nil => exact iff_of_true trivial fun pre d post h => absurd h.symm (by simp)
  | cons d ds ih =>
    cases ds with
    | nil =>
      refine iff_of_true trivial fun pre d' post h hpost => ?_
      have hlen := congrArg List.length h
      have hpos := List.length_pos_iff.mpr hpost
      simp only [List.length_append, List.length_cons, List.length_nil] at hlen
      omega
    | cons d' ds =>
      have hnil : ks = [] ↔ ks.length % 3 = 0 := by
        rw [← List.length_eq_zero_iff]
        omega
      have hmod (hd : ks = [] ∨ 3 ≤ d.length) (n : ℕ) :
          ((keep ks d).2.length + n) % 3 = (ks.length + (d.length + n)) % 3 := by
        have hlen := congrArg List.length (keep_append ks hd)
        have hfst := length_keep_fst ks d
        rw [List.length_append, List.length_append] at hlen
        omega
      constructor
      · rintro ⟨hd, hrest⟩ pre c post heq hpost
        cases pre with
        | nil =>
          rw [List.nil_append, List.cons.injEq] at heq
          rw [← heq.1]
          exact hd.imp_left hnil.mp
        | cons b pre =>
          rw [List.cons_append, List.cons.injEq] at heq
          rw [← heq.1, List.flatten_cons, List.length_append, ← hmod hd]
          exact (ih (length_keep_snd ks d)).mp hrest pre c post heq.2 hpost
      · intro hall
        have hd : ks = [] ∨ 3 ≤ d.length := (hall [] d (d' :: ds) rfl (List.cons_ne_nil d' ds)).imp_left hnil.mpr
        refine ⟨hd, (ih (length_keep_snd ks d)).mpr fun pre c post heq hpost => ?_⟩
        have hc := hall (d :: pre) c post (by rw [heq, List.cons_append]) hpost
        rwa [List.flatten_cons, List.length_append, ← hmod hd] at hc

/-- a text tells how many bytes it is the text of -/
theorem length_eq_of_text {x y : List UInt8} (h : text t brk o x = text t brk o y) : x.length = y.length := by
  have hdest : x.length + y.length + 1 ≤ (List.replicate (x.length + y.length + 1) (0 : UInt8)).length := by
    rw [List.length_replicate]
  have hx := decode_of_text brk_junk o x hdest (by omega)
  have hy := decode_of_text brk_junk o y hdest (by omega)
  rw [h, hy] at hx
  exact (Int.ofNat.inj (congrArg Prod.fst hx)).symm

/-- **The pieces of a stream are the text of the whole, exactly when every block but the last one has three bytes or
begins behind a multiple of three.** A shorter block takes the place of the bytes that the calls before it have saved. -/
theorem pieces_whole_iff (calls : List (List UInt8 × ℕ)) (hblocks : ∀ c ∈ calls, c.1 ≠ []) (pbSaveBytes : List UInt8)
    (hlength : 3 ≤ pbSaveBytes.length) (hempty : pbSaveBytes.getD 0 0 = 0)
    (hroom : Sufficient 0 (some pbSaveBytes) calls) (cbTargetSize : ℕ)
    (hwhole : textSize 0 (calls.map Prod.fst).flatten.length ≤ cbTargetSize) :
    pieces 0 (some pbSaveBytes) calls =
        (mmidm_base64Encode cbTargetSize (some (calls.map Prod.fst).flatten) 0 1 (some pbSaveBytes)).out ↔
      ∀ pre d post, calls.map Prod.fst = pre ++ d :: post → post ≠ [] →
        pre.flatten.length % 3 = 0 ∨ 3 ≤ d.length := by
  have h : Kept (some pbSaveBytes) [] := ⟨by rw [hempty]; rfl, List.nil_prefix⟩
  have hpieces := pieces_eq calls hblocks h hlength (Nat.zero_le 2) (fun _ => rfl) hroom
  have hsize : (text t brk 0 ([] ++ (calls.map Prod.fst).flatten)).length ≤ cbTargetSize := by
    rwa [List.nil_append, length_text]
  have hone := (encode_last h (Nat.zero_le 2) (Or.inr rfl) hsize).1
  have hcond := @noneLost_iff [] (calls.map Prod.fst) (Nat.zero_le 2)
  simp only [List.length_nil, Nat.zero_add] at hcond
  rw [hpieces, hone, List.nil_append, ← hcond]
  constructor
  · intro heq
    by_contra hlost
    have hlt := length_kept_lt _ hlost
    rw [length_eq_of_text heq, List.length_nil, Nat.zero_add] at hlt
    exact absurd hlt (Nat.lt_irrefl _)
  · intro hnone
    rw [kept_eq _ hnone, List.nil_append]

theorem pieces_whole_two_blocks :
    pieces 0 (some [0, 0, 0, 0]) [([1, 2, 3, 4], 4), ([5], 4)] =
        (mmidm_base64Encode 8 (some [1, 2, 3, 4, 5]) 0 1 (some [0, 0, 0, 0])).out ↔
      ∀ (pre : List (List UInt8)) d post, [[1, 2, 3, 4], [5]] = pre ++ d :: post → post ≠ [] →
        pre.flatten.length % 3 = 0 ∨ 3 ≤ d.length :=
  pieces_whole_iff [([1, 2, 3, 4], 4), ([5], 4)] (by decide) [0, 0, 0, 0] (by decide) rfl (by decide +kernel) 8
    (by decide +kernel)

/-- The second of three blocks of one byte takes the place of the first, which is never encoded. -/
theorem pieces_lose_a_byte :
    Sufficient 0 (some [0, 0, 0, 0]) [([1], 4), ([2], 4), ([3], 4)] ∧
      pieces 0 (some [0, 0, 0, 0]) [([1], 4), ([2], 4), ([3], 4)] ≠
        (mmidm_base64Encode 4 (some [1, 2, 3]) 0 1 (some [0, 0, 0, 0])).out :=
  ⟨by decide +kernel, by decide +kernel⟩

end SprdDevice.Dm.Base64
