/-
The tag search of the device management library, on a message from the server.

- `m`: the message, without its terminating NUL. A `char *` into it is the index it points to, from 0 to `m.length`,
  where the NUL is;
- `rd m k`: the byte read at index k. Outside of the message and its NUL this is the error `access`, as is a write
  outside of the content buffer;
- `getNextXmlTagBuf`: `MMIDM_getNextXmlTagBuf`, with the message and the name of the tag. It calls itself on the rest of
  the message, and the error `fuel` would be a loop or a recursion that does not end.
A tag is sought as the name alone, and the byte before it is looked at afterwards.

- `Element m tag p q r`: behind the name of a start tag at p its '>' is at q, and the next occurrence of the name, at r,
  is that of an end tag.
Result: `getNextXmlTagBuf_inside_iff`, for which messages every access stays inside.
-/
import Mathlib.Tactic
import SprdDevice.Lib.Buffer
import SprdDevice.Lib.Search

namespace SprdDevice.Dm.XmlTag

open SprdDevice.Buffer SprdDevice.Search

/-! ## The code -/

inductive MMI_DM_TAGID_E where
  | TAG_VERDTD
  | TAG_VERPROTO
  | TAG_SESSIONID
  | TAG_MSGID
  | TAG_TARGETID
  | TAG_SOURCEID
  | TAG_LOCURIID
  | TAG_LOCNAMEID
  | TAG_CREDID
  | TAG_METAID
  | TAG_MAXMSGID
  | TAG_MAXOBJID
  | TAG_DATAID
  | TAG_SYNCHDRID
  | TAG_SYNCBODYID
  | TAG_ALERTID
  | TAG_REPLACEID
  | TAG_STATUSID
  | TAG_RESULTID
  | TAG_CMDID
  | TAG_CMDIDID
  | TAG_MSGREFID
  | TAG_CMDREFID
  | TAG_TARGETREFID
  | TAG_SOURCEREFID
  | TAG_CHALID
  | TAG_ITEMID
  | TAG_FORMATID
  | TAG_TYPEID
  | TAG_NEXTNONCEID
  | TAG_RESURIID
  | TAG_GETID
  | TAG_SYNCMLID
  | TAG_EXECID
deriving DecidableEq, Repr

/-- the names of `s_dmxml_tag_tab` -/
def tagtype : MMI_DM_TAGID_E → List Char
  | .TAG_VERDTD => ['V', 'e', 'r', 'D', 'T', 'D']
  | .TAG_VERPROTO => ['V', 'e', 'r', 'P', 'r', 'o', 't', 'o']
  | .TAG_SESSIONID => ['S', 'e', 's', 's', 'i', 'o', 'n', 'I', 'D']
  | .TAG_MSGID => ['M', 's', 'g', 'I', 'D']
  | .TAG_TARGETID => ['T', 'a', 'r', 'g', 'e', 't']
  | .TAG_SOURCEID => ['S', 'o', 'u', 'r', 'c', 'e']
  | .TAG_LOCURIID => ['L', 'o', 'c', 'U', 'R', 'I']
  | .TAG_LOCNAMEID => ['L', 'o', 'c', 'N', 'a', 'm', 'e']
  | .TAG_CREDID => ['C', 'r', 'e', 'd']
  | .TAG_METAID => ['M', 'e', 't', 'a']
  | .TAG_MAXMSGID => ['M', 'a', 'x', 'M', 's', 'g', 'S', 'i', 'z', 'e']
  | .TAG_MAXOBJID => ['M', 'a', 'x', 'O', 'b', 'j', 'S', 'i', 'z', 'e']
  | .TAG_DATAID => ['D', 'a', 't', 'a']
  | .TAG_SYNCHDRID => ['S', 'y', 'n', 'c', 'H', 'd', 'r']
  | .TAG_SYNCBODYID => ['S', 'y', 'n', 'c', 'B', 'o', 'd', 'y']
  | .TAG_ALERTID => ['A', 'l', 'e', 'r', 't']
  | .TAG_REPLACEID => ['R', 'e', 'p', 'l', 'a', 'c', 'e']
  | .TAG_STATUSID => ['S', 't', 'a', 't', 'u', 's']
  | .TAG_RESULTID => ['R', 'e', 's', 'u', 'l', 't', 's']
  | .TAG_CMDID => ['C', 'm', 'd']
  | .TAG_CMDIDID => ['C', 'm', 'd', 'I', 'D']
  | .TAG_MSGREFID => ['M', 's', 'g', 'R', 'e', 'f']
  | .TAG_CMDREFID => ['C', 'm', 'd', 'R', 'e', 'f']
  | .TAG_TARGETREFID => ['T', 'a', 'r', 'g', 'e', 't', 'R', 'e', 'f']
  | .TAG_SOURCEREFID => ['S', 'o', 'u', 'r', 'c', 'e', 'R', 'e', 'f']
  | .TAG_CHALID => ['C', 'h', 'a', 'l']
  | .TAG_ITEMID => ['I', 't', 'e', 'm']
  | .TAG_FORMATID => ['F', 'o', 'r', 'm', 'a', 't']
  | .TAG_TYPEID => ['T', 'y', 'p', 'e']
  | .TAG_NEXTNONCEID => ['N', 'e', 'x', 't', 'N', 'o', 'n', 'c', 'e']
  | .TAG_RESURIID => ['R', 'e', 's', 'p', 'U', 'R', 'I']
  | .TAG_GETID => ['G', 'e', 't']
  | .TAG_SYNCMLID => ['S', 'y', 'n', 'c', 'M', 'L']
  | .TAG_EXECID => ['E', 'x', 'e', 'c']

def MMIDM_GetTagStr (id : MMI_DM_TAGID_E) : List UInt8 := (tagtype id).map fun c => UInt8.ofNat c.toNat

inductive Stop where
  | access
  | fuel
deriving DecidableEq, Repr

def rd (m : List UInt8) (k : ℤ) : Except Stop UInt8 :=
  if 0 ≤ k ∧ k ≤ m.length then .ok (m.getD k.toNat 0) else .error .access

def strlen (m : List UInt8) (p : ℕ) : ℤ := (m.length : ℤ) - p

/-- the first occurrence from index p on -/
def strstr (m : List UInt8) (p : ℕ) (tag : List UInt8) : Option ℕ := firstFrom (Occ tag m) p (m.length + 1)

section Code

variable (m tag : List UInt8)

/-- the first loop. It leaves scanner_ptr at the name behind a '<', or at the NUL; nothing is the return of PNULL. -/
def seek (xmlbuf : ℕ) : ℕ → ℕ → Except Stop (Option ℕ)
  | 0, _ => .error .fuel
  | fuel + 1, scanner_ptr =>
    if strlen m scanner_ptr = 0 then .ok (some scanner_ptr)
    else
      match strstr m scanner_ptr tag with
      | none => .ok none
      | some scanner_ptr => do
        let len := strlen m xmlbuf - strlen m scanner_ptr
        let c ← rd m (xmlbuf + (len - 1))
        if c = 0x3C then .ok (some scanner_ptr) else seek xmlbuf fuel (scanner_ptr + tag.length)

/-- the second loop: behind the next '>', or at the NUL -/
def skipTag (scanner_ptr : ℕ) : ℕ :=
  match firstFrom (fun i => m[i]? = some 0x3E) scanner_ptr m.length with
  | none => m.length
  | some i => i + 1

/-- is the name at len_end + 3 that of an end tag? -/
def closes (xmlbuf : ℕ) (len_end : ℤ) : Except Stop Bool := do
  let slash ← rd m (xmlbuf + (len_end + 2))
  if slash ≠ 0x2F then .ok false
  else do
    let lt ← rd m (xmlbuf + (len_end + 1))
    if lt ≠ 0x3C then .ok false
    else do
      let gt ← rd m (xmlbuf + (len_end + 3 + tag.length))
      .ok (decide (gt = 0x3E))

/-- strncpy of n bytes to the start of a buffer: the n cells are all written -/
def strncpy (buf src : List UInt8) (n : ℤ) : Except Stop (List UInt8) :=
  if n < 0 then .error .access
  else
    match put buf 0 (src.take n.toNat ++ List.replicate (n.toNat - src.length) 0) with
    | none => .error .access
    | some buf => .ok buf

/-- what is returned (nothing is PNULL), and the content buffer -/
def getNextXmlTagBuf (buf_size : ℕ) : ℕ → ℕ → Except Stop (Option ℕ × List UInt8)
  | 0, _ => .error .fuel
  | fuel + 1, xmlbuf => do
    let content := List.replicate buf_size 0
    match ← seek m tag xmlbuf (m.length + 1) xmlbuf with
    | none => .ok (none, content)
    | some scanner_ptr =>
      let scanner_ptr := scanner_ptr + tag.length
      -- behind the NUL nothing may be read any more
      if m.length < scanner_ptr then .error .access
      else
        let scanner_ptr := skipTag m scanner_ptr
        if scanner_ptr = m.length then .ok (none, content)
        else
          let len_head := strlen m xmlbuf - strlen m scanner_ptr
          match strstr m scanner_ptr tag with
          | none => .ok (none, content)
          | some scanner_ptr => do
            let len_end := strlen m xmlbuf - strlen m scanner_ptr - 3
            if ← closes m tag xmlbuf len_end then do
              let content ← strncpy content (m.drop (xmlbuf + len_head).toNat) (len_end - len_head + 1)
              .ok (some (xmlbuf + len_end + tag.length + 3 + 1).toNat, content)
            else do
              -- what the inner call returns is dropped, and its content kept
              let r ← getNextXmlTagBuf buf_size fuel scanner_ptr
              .ok (none, r.2)

end Code

def MMIDM_getNextXmlTagBuf (m : List UInt8) (tagid : MMI_DM_TAGID_E) (buf_size : ℕ) :
    Except Stop (Option ℕ × List UInt8) :=
  getNextXmlTagBuf m (MMIDM_GetTagStr tagid) buf_size (m.length + 1) 0

/-! ## Where the search stops -/

/-- what is used of a name -/
structure TagName (tag : List UInt8) : Prop where
  ne : tag ≠ []
  unbordered : Unbordered tag
  gt : 0x3E ∉ tag
  lt : 0x3C ∉ tag
  space : 0x20 ∉ tag
  slash : 0x2F ∉ tag

theorem tagName (id : MMI_DM_TAGID_E) : TagName (MMIDM_GetTagStr id) := by
  have hall : ∀ id, MMIDM_GetTagStr id ≠ [] ∧ Unbordered (MMIDM_GetTagStr id) ∧ 0x3E ∉ MMIDM_GetTagStr id ∧
      0x3C ∉ MMIDM_GetTagStr id ∧ 0x20 ∉ MMIDM_GetTagStr id ∧ 0x2F ∉ MMIDM_GetTagStr id := by
    intro id
    cases id <;> decide +kernel
  obtain ⟨h1, h2, h3, h4, h5, h6⟩ := hall id
  exact ⟨h1, h2, h3, h4, h5, h6⟩

/-- the name of a start tag, or something that looks like one -/
def Open (m tag : List UInt8) (p : ℕ) : Prop := Occ tag m p ∧ 1 ≤ p ∧ m[p - 1]? = some 0x3C

/-- the name of an end tag -/
def Closing (m tag : List UInt8) (r : ℕ) : Prop :=
  m[r - 1]? = some 0x2F ∧ m[r - 2]? = some 0x3C ∧ m[r + tag.length]? = some 0x3E

instance (m tag : List UInt8) (r : ℕ) : Decidable (Closing m tag r) :=
  inferInstanceAs (Decidable (m[r - 1]? = some 0x2F ∧ m[r - 2]? = some 0x3C ∧ m[r + tag.length]? = some 0x3E))

def Gt (m : List UInt8) (q : ℕ) : Prop := m[q]? = some 0x3E

/-- the tag that is found: the '>' behind the name at p, and the next occurrence of the name -/
structure Element (m tag : List UInt8) (p q r : ℕ) : Prop where
  opened : Open m tag p
  gt : First (Gt m) (p + tag.length) q
  next : First (Occ tag m) (q + 1) r
  closing : Closing m tag r

variable {m tag : List UInt8} {x s p q r fuel : ℕ}

theorem rd_inside {k : ℕ} (h : k ≤ m.length) : rd m k = .ok (m.getD k 0) := by
  rw [rd, if_pos ⟨Int.natCast_nonneg k, by omega⟩, Int.toNat_natCast]

theorem getD_eq_iff {k : ℕ} {c : UInt8} (hc : c ≠ 0) : m.getD k 0 = c ↔ m[k]? = some c := by
  rw [List.getD_eq_getElem?_getD]
  cases hk : m[k]? with
  | none => simpa using Ne.symm hc
  | some b => simp

theorem strstr_eq_some (ht : TagName tag) : strstr m s tag = some p ↔ First (Occ tag m) s p := by
  rw [strstr, firstFrom_eq_some]
  refine and_iff_left_of_imp fun h => ?_
  have hle := h.holds.length_le ht.ne
  omega

theorem strstr_eq_none (ht : TagName tag) : strstr m s tag = none ↔ ∀ i, s ≤ i → ¬ Occ tag m i := by
  rw [strstr, firstFrom_eq_none]
  constructor
  · intro h i hi hocc
    have hle := hocc.length_le ht.ne
    exact h i hi (by omega) hocc
  · exact fun h i hi _ => h i hi

/-- one turn of the first loop -/
theorem seek_turn (ht : TagName tag) (hp : First (Occ tag m) s p) (h1 : 1 ≤ p) :
    seek m tag x (fuel + 1) s = if m[p - 1]? = some 0x3C then .ok (some p) else seek m tag x fuel (p + tag.length) := by
  have hpos := List.length_pos_iff.mpr ht.ne
  have hle := hp.holds.length_le ht.ne
  have hsp := hp.le
  have hlen : ¬ strlen m s = 0 := by
    unfold strlen
    omega
  have hidx : (x : ℤ) + (strlen m x - strlen m p - 1) = ((p - 1 : ℕ) : ℤ) := by
    unfold strlen
    omega
  rw [seek, if_neg hlen, (strstr_eq_some ht).mpr hp]
  dsimp only
  rw [hidx, rd_inside (by omega)]
  exact if_congr (getD_eq_iff (by decide)) rfl rfl

theorem seek_zero (ht : TagName tag) (h0 : Occ tag m 0) : seek m tag 0 (fuel + 1) 0 = .error .access := by
  have hpos := List.length_pos_iff.mpr ht.ne
  have hle := h0.length_le ht.ne
  have hlen : ¬ strlen m 0 = 0 := by
    unfold strlen
    omega
  have hfirst : First (Occ tag m) 0 0 := ⟨le_refl 0, h0, fun j _ hj => absurd hj (Nat.not_lt_zero j)⟩
  rw [seek, if_neg hlen, (strstr_eq_some ht).mpr hfirst]
  dsimp only
  have hidx : ((0 : ℕ) : ℤ) + (strlen m 0 - strlen m 0 - 1) = -1 := by
    unfold strlen
    omega
  rw [hidx, rd, if_neg (by omega)]
  rfl

theorem seek_open (ht : TagName tag) (hs : s ≤ m.length) (h0 : s = 0 → ¬ Occ tag m 0) (hp : First (Open m tag) s p)
    (hfuel : m.length < s + fuel) : seek m tag x fuel s = .ok (some p) := by
  induction fuel generalizing s with
  | zero => omega
  | succ fuel ih =>
    obtain ⟨i, hi⟩ := exists_first ⟨p, hp.le, hp.holds.1⟩
    have hip : i ≤ p := by
      by_contra hlt
      exact hi.least p hp.le (Nat.not_le.mp hlt) hp.holds.1
    have h1 : 1 ≤ i := by
      rcases Nat.eq_zero_or_pos i with hz | hpos
      · have hsz : s = 0 := Nat.le_zero.mp (hz ▸ hi.le)
        exact absurd (hz ▸ hi.holds) (h0 hsz)
      · exact hpos
    rw [seek_turn ht hi h1]
    split_ifs with hlt
    · have hpi : p = i := hp.unique ⟨hi.le, ⟨hi.holds, h1, hlt⟩, fun j hj hji hopen => hi.least j hj hji hopen.1⟩
      rw [hpi]
    · have hne : i ≠ p := by
        rintro rfl
        exact hlt hp.holds.2.2
      have happart := hi.holds.apart ht.unbordered hp.holds.1 (by omega)
      have hpos := List.length_pos_iff.mpr ht.ne
      have hle := hi.holds.length_le ht.ne
      exact ih hle (fun hz => absurd hz (by omega)) (hp.later (by have := hi.le; omega) happart)
        (by have := hi.le; omega)

/-- the last bytes of the message are the name -/
def EndsAt (m tag : List UInt8) (s : ℕ) : Prop := s = m.length ∨ ∃ j, s ≤ j ∧ Occ tag m j ∧ j + tag.length = m.length

theorem seek_no_open (ht : TagName tag) (hs : s ≤ m.length) (h0 : s = 0 → ¬ Occ tag m 0) (hno : ∀ p, s ≤ p → ¬ Open m tag p)
    (hfuel : m.length < s + fuel) :
    (EndsAt m tag s → seek m tag x fuel s = .ok (some m.length)) ∧ (¬ EndsAt m tag s → seek m tag x fuel s = .ok none) := by
  induction fuel generalizing s with
  | zero => omega
  | succ fuel ih =>
    by_cases hend : s = m.length
    · have hlen : strlen m s = 0 := by
        unfold strlen
        omega
      refine ⟨fun _ => ?_, fun h => absurd (Or.inl hend) h⟩
      rw [seek, if_pos hlen, hend]
    · by_cases hocc : ∃ i, s ≤ i ∧ Occ tag m i
      · obtain ⟨i, hi⟩ := exists_first hocc
        have h1 : 1 ≤ i := by
          rcases Nat.eq_zero_or_pos i with hz | hpos
          · have hsz : s = 0 := Nat.le_zero.mp (hz ▸ hi.le)
            exact absurd (hz ▸ hi.holds) (h0 hsz)
          · exact hpos
        have hlt : ¬ m[i - 1]? = some 0x3C := fun hlt => hno i hi.le ⟨hi.holds, h1, hlt⟩
        have hsi := hi.le
        have hpos := List.length_pos_iff.mpr ht.ne
        have hle := hi.holds.length_le ht.ne
        have hends : EndsAt m tag s ↔ EndsAt m tag (i + tag.length) := by
          constructor
          · rintro (heq | ⟨j, hj, hjocc, hjend⟩)
            · exact absurd heq hend
            · rcases Nat.lt_trichotomy i j with hij | hij | hij
              · exact Or.inr ⟨j, hi.holds.apart ht.unbordered hjocc hij, hjocc, hjend⟩
              · exact Or.inl (by omega)
              · exact absurd hjocc (hi.least j hj hij)
          · rintro (heq | ⟨j, hj, hjocc, hjend⟩)
            · exact Or.inr ⟨i, hi.le, hi.holds, heq⟩
            · exact Or.inr ⟨j, by omega, hjocc, hjend⟩
        rw [seek_turn ht hi h1, if_neg hlt, hends]
        exact ih hle (fun hz => absurd hz (by omega)) (fun p hp => hno p (by omega)) (by omega)
      · have hnone : strstr m s tag = none := (strstr_eq_none ht).mpr fun i hi hio => hocc ⟨i, hi, hio⟩
        have hlen : ¬ strlen m s = 0 := by
          unfold strlen
          omega
        refine ⟨?_, fun _ => ?_⟩
        · rintro (heq | ⟨j, hj, hjocc, -⟩)
          · exact absurd heq hend
          · exact absurd ⟨j, hj, hjocc⟩ hocc
        · rw [seek, if_neg hlen, hnone]

/-! ## One call -/

theorem closes_eq (h3 : 2 ≤ r) (hr : r + tag.length ≤ m.length) :
    closes m tag x (r - x - 3) = .ok (decide (Closing m tag r)) := by
  have h2 : (x : ℤ) + ((r : ℤ) - x - 3 + 2) = ((r - 1 : ℕ) : ℤ) := by omega
  have h1 : (x : ℤ) + ((r : ℤ) - x - 3 + 1) = ((r - 2 : ℕ) : ℤ) := by omega
  have h0 : (x : ℤ) + ((r : ℤ) - x - 3 + 3 + tag.length) = ((r + tag.length : ℕ) : ℤ) := by
    push_cast
    omega
  have hslash := @getD_eq_iff m (r - 1) 0x2F (by decide)
  have hlt := @getD_eq_iff m (r - 2) 0x3C (by decide)
  have hgt := @getD_eq_iff m (r + tag.length) 0x3E (by decide)
  rw [closes, h2, h1, h0, rd_inside (by omega), rd_inside (by omega), rd_inside hr]
  simp only [bind, Except.bind, ne_eq, hslash, hlt, hgt, ite_not]
  unfold Closing
  split_ifs with h1 h2 <;> simp [*]

theorem skipTag_eq (h : First (Gt m) s q) : skipTag m s = q + 1 := by
  have hlt : q < m.length := (List.getElem?_eq_some_iff.mp h.holds).1
  have hfirst : firstFrom (fun i => m[i]? = some 0x3E) s m.length = some q := firstFrom_eq_some.mpr ⟨h, hlt⟩
  rw [skipTag, hfirst]

theorem skipTag_none (h : ∀ q, s ≤ q → ¬ Gt m q) : skipTag m s = m.length := by
  have hnone : firstFrom (fun i => m[i]? = some 0x3E) s m.length = none := firstFrom_eq_none.mpr fun i hi _ => h i hi
  rw [skipTag, hnone]

variable {buf_size : ℕ}

/-- a call on a place of the message: its start, or a place where the name lies -/
structure Start (m tag : List UInt8) (x : ℕ) : Prop where
  le : x ≤ m.length
  zero : x = 0 → ¬ Occ tag m 0
  name : x = 0 ∨ Occ tag m x

theorem Start.endsAt_iff (h : Start m tag x) (hx : x < m.length) : EndsAt m tag x ↔ tag <:+ m := by
  constructor
  · rintro (heq | ⟨j, -, hocc, hend⟩)
    · omega
    · have hlen : (m.drop j).length ≤ tag.length := by
        rw [List.length_drop]
        omega
      have heq : tag = m.drop j := hocc.eq_of_length_le hlen
      rw [heq]
      exact List.drop_suffix j m
  · intro hsuf
    have hle := hsuf.length_le
    have hdrop : m.drop (m.length - tag.length) = tag := List.suffix_iff_eq_drop.mp hsuf ▸ rfl
    refine Or.inr ⟨m.length - tag.length, ?_, ?_, by omega⟩
    · rcases h.name with hz | hocc
      · omega
      · have hocc' : tag.length ≤ (m.drop x).length := List.IsPrefix.length_le hocc
        rw [List.length_drop] at hocc'
        omega
    · rw [Occ, hdrop]

section Call

variable (ht : TagName tag) (h : Start m tag x)
include ht h

theorem getNext_no_open (hno : ∀ p, x ≤ p → ¬ Open m tag p) (hend : ¬ EndsAt m tag x) :
    getNextXmlTagBuf m tag buf_size (fuel + 1) x = .ok (none, List.replicate buf_size 0) := by
  have hseek : seek m tag x (m.length + 1) x = .ok none := (seek_no_open ht h.le h.zero hno (by omega)).2 hend
  rw [getNextXmlTagBuf, hseek]
  rfl

theorem getNext_past_end (hno : ∀ p, x ≤ p → ¬ Open m tag p) (hend : EndsAt m tag x) :
    getNextXmlTagBuf m tag buf_size (fuel + 1) x = .error .access := by
  have hseek : seek m tag x (m.length + 1) x = .ok (some m.length) :=
    (seek_no_open ht h.le h.zero hno (by omega)).1 hend
  have hpos := List.length_pos_iff.mpr ht.ne
  rw [getNextXmlTagBuf, hseek]
  dsimp only [bind, Except.bind]
  rw [if_pos (by omega)]

variable (hp : First (Open m tag) x p)
include hp

theorem getNext_open : getNextXmlTagBuf m tag buf_size (fuel + 1) x =
    (if skipTag m (p + tag.length) = m.length then .ok (none, List.replicate buf_size 0)
    else
      match strstr m (skipTag m (p + tag.length)) tag with
      | none => .ok (none, List.replicate buf_size 0)
      | some r => do
        if ← closes m tag x (strlen m x - strlen m r - 3) then do
          let content ← strncpy (List.replicate buf_size 0)
            (m.drop (x + (strlen m x - strlen m (skipTag m (p + tag.length)))).toNat)
            (strlen m x - strlen m r - 3 - (strlen m x - strlen m (skipTag m (p + tag.length))) + 1)
          .ok (some (x + (strlen m x - strlen m r - 3) + tag.length + 3 + 1).toNat, content)
        else do
          let r ← getNextXmlTagBuf m tag buf_size fuel r
          .ok (none, r.2)) := by
  have hseek : seek m tag x (m.length + 1) x = .ok (some p) := seek_open ht h.le h.zero hp (by omega)
  have hle := hp.holds.1.length_le ht.ne
  rw [getNextXmlTagBuf, hseek]
  dsimp only [bind, Except.bind]
  rw [if_neg (by omega)]

theorem getNext_no_gt (hno : ∀ q, p + tag.length ≤ q → q + 1 < m.length → ¬ Gt m q) :
    getNextXmlTagBuf m tag buf_size (fuel + 1) x = .ok (none, List.replicate buf_size 0) := by
  have hskip : skipTag m (p + tag.length) = m.length := by
    by_cases hq : ∃ q, p + tag.length ≤ q ∧ Gt m q
    · obtain ⟨q, hfirst⟩ := exists_first hq
      have hlt : q < m.length := (List.getElem?_eq_some_iff.mp hfirst.holds).1
      have hlast : ¬ q + 1 < m.length := fun hlt' => hno q hfirst.le hlt' hfirst.holds
      rw [skipTag_eq hfirst]
      omega
    · exact skipTag_none fun q hq' hgt => hq ⟨q, hq', hgt⟩
  rw [getNext_open ht h hp, if_pos hskip]

variable (hq : First (Gt m) (p + tag.length) q) (hlast : q + 1 < m.length)
include hq hlast

theorem getNext_no_next (hno : ∀ r, q + 1 ≤ r → ¬ Occ tag m r) :
    getNextXmlTagBuf m tag buf_size (fuel + 1) x = .ok (none, List.replicate buf_size 0) := by
  rw [getNext_open ht h hp, skipTag_eq hq, if_neg (by omega), (strstr_eq_none ht).mpr hno]

variable (hr : First (Occ tag m) (q + 1) r)
include hr

theorem getNext_next : getNextXmlTagBuf m tag buf_size (fuel + 1) x =
    (if Closing m tag r then do
      let content ← strncpy (List.replicate buf_size 0) (m.drop (q + 1)) ((r : ℤ) - q - 3)
      .ok (some (r + tag.length + 1), content)
    else (getNextXmlTagBuf m tag buf_size fuel r).map fun c => (none, c.2)) := by
  have hpos := List.length_pos_iff.mpr ht.ne
  have h1 := hp.le
  have h2 := hq.le
  have h3 := hr.le
  have hle := hr.holds.length_le ht.ne
  have hopen := hp.holds.2.1
  have hend : strlen m x - strlen m r - 3 = (r : ℤ) - x - 3 := by
    unfold strlen
    omega
  have hhead : ((x : ℤ) + (strlen m x - strlen m (q + 1))).toNat = q + 1 := by
    unfold strlen
    omega
  have hn : (r : ℤ) - x - 3 - (strlen m x - strlen m (q + 1)) + 1 = (r : ℤ) - q - 3 := by
    unfold strlen
    omega
  have hret : ((x : ℤ) + ((r : ℤ) - x - 3) + tag.length + 3 + 1).toNat = r + tag.length + 1 := by omega
  rw [getNext_open ht h hp, skipTag_eq hq, if_neg (by omega), (strstr_eq_some ht).mpr hr]
  dsimp only
  rw [hend, closes_eq (by omega) hle, hhead, hn, hret]
  by_cases hclose : Closing m tag r
  · rw [if_pos hclose]
    simp [hclose, bind, Except.bind]
  · rw [if_neg hclose]
    simp only [hclose, decide_false, bind, Except.bind, Bool.false_eq_true, if_false]
    cases getNextXmlTagBuf m tag buf_size fuel r <;> rfl

end Call

/-- the copy of the inner text -/
theorem strncpy_inner {n : ℕ} (hn : q + n ≤ m.length) :
    strncpy (List.replicate buf_size 0) (m.drop q) n =
      if n ≤ buf_size then .ok ((m.drop q).take n ++ List.replicate (buf_size - n) 0) else .error .access := by
  have hlen : ((m.drop q).take n).length = n := by
    rw [List.length_take, List.length_drop]
    omega
  have hpad : n - (m.drop q).length = 0 := by
    rw [List.length_drop]
    omega
  rw [strncpy, if_neg (by omega), Int.toNat_natCast, hpad, List.replicate_zero, List.append_nil]
  split_ifs with hfit
  · rw [put_inside (by rw [hlen, List.length_replicate]; omega)]
    simp [write, hlen]
  · rw [put, if_neg (by rw [hlen, List.length_replicate]; omega)]

/-! ## Which messages are read inside -/

/-- the text of the tag that is found first fits into the buffer, of those whose start tag lies at x or behind -/
def FitsFrom (m tag : List UInt8) (buf_size x : ℕ) : Prop :=
  ∀ p q r, x ≤ p → Element m tag p q r → (∀ p' q' r', x ≤ p' → Element m tag p' q' r' → r ≤ r') → r - q - 3 ≤ buf_size

/-- when none is found, a message that ends with the name has a start tag without a '>' -/
def CaughtFrom (m tag : List UInt8) (x : ℕ) : Prop :=
  (∀ p q r, x ≤ p → ¬ Element m tag p q r) → tag <:+ m → ∃ p, x ≤ p ∧ Open m tag p ∧ ∀ q, p + tag.length ≤ q → ¬ Gt m q

/-- the '>' and the occurrences that an element begins with lie behind those of the first start tag -/
theorem Element.behind (ht : TagName tag) (hp : First (Open m tag) x p) {p' q' r' : ℕ} (hx : x ≤ p')
    (he : Element m tag p' q' r') : p ≤ p' ∧ p + tag.length ≤ q' ∧ q' + 1 ≤ r' ∧ r' + tag.length ≤ m.length := by
  have hpp : p ≤ p' := by
    by_contra hlt
    exact hp.least p' hx (Nat.not_le.mp hlt) he.opened
  have hq := he.gt.le
  exact ⟨hpp, by omega, he.next.le, he.next.holds.length_le ht.ne⟩

theorem not_gt_of_suffix (ht : TagName tag) (hsuf : tag <:+ m) (hq : Gt m q) : q + tag.length < m.length := by
  have hle := hsuf.length_le
  have hocc : Occ tag m (m.length - tag.length) := by
    rw [Occ, ← List.suffix_iff_eq_drop.mp hsuf]
  have hlt : q < m.length := (List.getElem?_eq_some_iff.mp hq).1
  rcases hocc.outside ht.gt hq with h | h <;> omega

/-- when the name found behind a start tag is not that of an end tag, what matters lies at this name or behind -/
theorem later_iff (ht : TagName tag) (hp : First (Open m tag) x p) (hq : First (Gt m) (p + tag.length) q)
    (hr : First (Occ tag m) (q + 1) r) (hclose : ¬ Closing m tag r) :
    (FitsFrom m tag buf_size x ↔ FitsFrom m tag buf_size r) ∧ (CaughtFrom m tag x ↔ CaughtFrom m tag r) := by
  have hxp := hp.le
  have hpq := hq.le
  have hqr := hr.le
  -- a start tag before r has its '>' at q
  have hbefore {p' : ℕ} (hx : x ≤ p') (hopen : Open m tag p') (hlt : p' < r) : p' + tag.length ≤ q ∧ p ≤ p' := by
    have hpp : p ≤ p' := by
      by_contra hlt
      exact hp.least p' hx (Nat.not_le.mp hlt) hopen
    have hpq' : p' ≤ q := by
      by_contra hgt
      exact hr.least p' (by omega) hlt hopen.1
    rcases hopen.1.outside ht.gt hq.holds with h | h
    · omega
    · exact ⟨h, hpp⟩
  have helem {p' q' r' : ℕ} (hx : x ≤ p') (he : Element m tag p' q' r') : r ≤ p' := by
    by_contra hlt
    obtain ⟨hle, hpp⟩ := hbefore hx he.opened (Nat.not_le.mp hlt)
    have hqq : q' = q := he.gt.unique (hq.later (by omega) hle)
    have hrr : r' = r := (hqq ▸ he.next).unique hr
    exact hclose (hrr ▸ he.closing)
  have hiff (p' q' r' : ℕ) : (x ≤ p' ∧ Element m tag p' q' r') ↔ (r ≤ p' ∧ Element m tag p' q' r') :=
    ⟨fun h => ⟨helem h.1 h.2, h.2⟩, fun h => ⟨by omega, h.2⟩⟩
  constructor
  · constructor
    · intro h p' q' r' hp' he hleast
      exact h p' q' r' (by omega) he fun p'' q'' r'' hx he' => hleast p'' q'' r'' (helem hx he') he'
    · intro h p' q' r' hx he hleast
      exact h p' q' r' (helem hx he) he fun p'' q'' r'' hr' he' => hleast p'' q'' r'' (by omega) he'
  · constructor
    · intro h hno hsuf
      obtain ⟨p', hx, hopen, hgt⟩ := h (fun p' q' r' hx he => hno p' q' r' (helem hx he) he) hsuf
      refine ⟨p', ?_, hopen, hgt⟩
      by_contra hlt
      exact hgt q (hbefore hx hopen (Nat.not_le.mp hlt)).1 hq.holds
    · intro h hno hsuf
      obtain ⟨p', hr', hopen, hgt⟩ := h (fun p' q' r' hr' he => hno p' q' r' (by omega) he) hsuf
      exact ⟨p', by omega, hopen, hgt⟩

/-- without an element the size of the buffer does not matter -/
theorem fitsFrom_of_none (hno : ∀ p q r, x ≤ p → ¬ Element m tag p q r) : FitsFrom m tag buf_size x :=
  fun p q r hx he _ => absurd he (hno p q r hx)

/-- an element has its '>' at the first one behind the first start tag, or behind it -/
theorem Element.le_gt (ht : TagName tag) (hp : First (Open m tag) x p) (hq : First (Gt m) (p + tag.length) q)
    {p' q' r' : ℕ} (hx : x ≤ p') (he : Element m tag p' q' r') : q ≤ q' := by
  by_contra hlt
  exact hq.least q' (he.behind ht hp hx).2.1 (Nat.not_le.mp hlt) he.gt.holds

/-- the element that is found is the first -/
theorem fitsFrom_found (ht : TagName tag) (hp : First (Open m tag) x p) (hq : First (Gt m) (p + tag.length) q)
    (hr : First (Occ tag m) (q + 1) r) (hclose : Closing m tag r) :
    FitsFrom m tag buf_size x ↔ r - q - 3 ≤ buf_size := by
  have he : Element m tag p q r := ⟨hp.holds, hq, hr, hclose⟩
  constructor
  · intro hf
    refine hf p q r hp.le he fun p' q' r' hx' he' => ?_
    by_contra hlt
    have hqq := he'.le_gt ht hp hq hx'
    have hle := he'.next.le
    exact hr.least r' (by omega) (Nat.not_le.mp hlt) he'.next.holds
  · intro hle p' q' r' hx' he' hleast
    have hrr := hleast p q r hp.le he
    have hqq := he'.le_gt ht hp hq hx'
    omega

/-- where the name does not come again behind a '>', the message does not end with it -/
theorem caughtFrom_no_next (ht : TagName tag) (hq : Gt m q) (hnext : ∀ r, q + 1 ≤ r → ¬ Occ tag m r) :
    CaughtFrom m tag x := by
  intro _ hsuf
  have hlt := not_gt_of_suffix ht hsuf hq
  have hocc : Occ tag m (m.length - tag.length) := by
    rw [Occ, ← List.suffix_iff_eq_drop.mp hsuf]
  exact absurd hocc (hnext (m.length - tag.length) (by omega))

/-- without a start tag -/
theorem caughtFrom_no_open (h : Start m tag x) (hx : x < m.length) (hno : ∀ p, x ≤ p → ¬ Open m tag p) :
    CaughtFrom m tag x ↔ ¬ EndsAt m tag x := by
  rw [h.endsAt_iff hx]
  constructor
  · intro hc hsuf
    obtain ⟨p, hp, ho, -⟩ := hc (fun p q r hp he => hno p hp he.opened) hsuf
    exact hno p hp ho
  · exact fun hn _ hsuf => absurd hsuf hn

/-- the text of an element is between its '>' and the two bytes before the name of its end tag -/
theorem Closing.ne_gt (hclose : Closing m tag r) (hq : Gt m q) : r - 1 ≠ q ∧ r - 2 ≠ q := by
  constructor
  · intro heq
    have hboth := hclose.1
    rw [heq, hq] at hboth
    exact absurd hboth (by decide)
  · intro heq
    have hboth := hclose.2.1
    rw [heq, hq] at hboth
    exact absurd hboth (by decide)

/-- **One call and all those that it makes**: they stay inside exactly under the two conditions, and always end. -/
theorem getNext_inside (ht : TagName tag) (h : Start m tag x) (hx : x < m.length) (hfuel : m.length < x + fuel) :
    (FitsFrom m tag buf_size x ∧ CaughtFrom m tag x → ∃ c, getNextXmlTagBuf m tag buf_size fuel x = .ok c) ∧
      (¬ (FitsFrom m tag buf_size x ∧ CaughtFrom m tag x) →
        getNextXmlTagBuf m tag buf_size fuel x = .error .access) := by
  induction fuel generalizing x with
  | zero => omega
  | succ fuel ih =>
    have hpos := List.length_pos_iff.mpr ht.ne
    by_cases hopen : ∃ p, x ≤ p ∧ Open m tag p
    swap
    · -- no start tag: the search runs to the end of the message
      have hno : ∀ p, x ≤ p → ¬ Open m tag p := fun p hp ho => hopen ⟨p, hp, ho⟩
      have hfits : FitsFrom m tag buf_size x := fitsFrom_of_none fun p q r hp he => hno p hp he.opened
      rw [caughtFrom_no_open h hx hno]
      refine ⟨fun hc => ⟨_, getNext_no_open ht h hno hc.2⟩, fun hc => getNext_past_end ht h hno ?_⟩
      by_contra hend
      exact hc ⟨hfits, hend⟩
    obtain ⟨p, hp⟩ := exists_first hopen
    have hxp := hp.le
    -- the cases in which the call returns at once
    have hdone (hno : ∀ p q r, x ≤ p → ¬ Element m tag p q r) (hcaught : CaughtFrom m tag x)
        (heq : getNextXmlTagBuf m tag buf_size (fuel + 1) x = .ok (none, List.replicate buf_size 0)) :
        (FitsFrom m tag buf_size x ∧ CaughtFrom m tag x → ∃ c, getNextXmlTagBuf m tag buf_size (fuel + 1) x = .ok c) ∧
          (¬ (FitsFrom m tag buf_size x ∧ CaughtFrom m tag x) →
            getNextXmlTagBuf m tag buf_size (fuel + 1) x = .error .access) :=
      ⟨fun _ => ⟨_, heq⟩, fun hn => absurd ⟨fitsFrom_of_none hno, hcaught⟩ hn⟩
    by_cases hgt : ∃ q, p + tag.length ≤ q ∧ Gt m q
    swap
    · refine hdone (fun p' q' r' hx' he => ?_) (fun _ _ => ⟨p, hxp, hp.holds, fun q hq hg => hgt ⟨q, hq, hg⟩⟩)
        (getNext_no_gt ht h hp fun q hq _ hg => hgt ⟨q, hq, hg⟩)
      exact hgt ⟨q', (he.behind ht hp hx').2.1, he.gt.holds⟩
    obtain ⟨q, hq⟩ := exists_first hgt
    have hqlt : q < m.length := (List.getElem?_eq_some_iff.mp hq.holds).1
    by_cases hnext : ∃ r, q + 1 ≤ r ∧ Occ tag m r
    swap
    · have hnone : ∀ r, q + 1 ≤ r → ¬ Occ tag m r := fun r hr ho => hnext ⟨r, hr, ho⟩
      have hno : ∀ p' q' r', x ≤ p' → ¬ Element m tag p' q' r' := by
        intro p' q' r' hx' he
        have hqq := he.le_gt ht hp hq hx'
        have hle := he.next.le
        exact hnone r' (by omega) he.next.holds
      have hcaught : CaughtFrom m tag x := caughtFrom_no_next ht hq.holds hnone
      by_cases hlast : q + 1 < m.length
      · exact hdone hno hcaught (getNext_no_next ht h hp hq hlast hnone)
      · refine hdone hno hcaught (getNext_no_gt ht h hp fun q' hq' hlt hg => ?_)
        exact hq.least q' hq' (by omega) hg
    obtain ⟨r, hr⟩ := exists_first hnext
    have hqr := hr.le
    have hrle := hr.holds.length_le ht.ne
    have hcall := @getNext_next _ _ _ _ _ _ fuel buf_size ht h hp hq (by omega) hr
    by_cases hclose : Closing m tag r
    · -- the element is found
      have hcaught : CaughtFrom m tag x := fun hno => absurd ⟨hp.holds, hq, hr, hclose⟩ (hno p q r hxp)
      obtain ⟨hslash, hlt⟩ := hclose.ne_gt hq.holds
      have hn : (r : ℤ) - q - 3 = ((r - q - 3 : ℕ) : ℤ) := by omega
      rw [hcall, if_pos hclose, hn, strncpy_inner (by omega), fitsFrom_found ht hp hq hr hclose]
      constructor
      · intro hc
        rw [if_pos hc.1]
        exact ⟨_, rfl⟩
      · intro hc
        rw [if_neg fun hle => hc ⟨hle, hcaught⟩]
        rfl
    · -- the call on what lies behind the start tag
      have hstart : Start m tag r := ⟨by omega, fun hz => by omega, Or.inr hr.holds⟩
      have hpq := hq.le
      obtain ⟨hok, herr⟩ := ih hstart (by omega) (by omega)
      obtain ⟨hf, hc⟩ := @later_iff _ _ _ _ _ _ buf_size ht hp hq hr hclose
      rw [hcall, if_neg hclose, hf, hc]
      constructor
      · intro hin
        obtain ⟨c, hc'⟩ := hok hin
        exact ⟨(none, c.2), by rw [hc']; rfl⟩
      · intro hout
        rw [herr hout]
        rfl

/-- a message and a buffer for which everything stays inside -/
structure Inside (m tag : List UInt8) (buf_size : ℕ) : Prop where
  ne : m ≠ []
  start : ¬ tag <+: m
  fits : FitsFrom m tag buf_size 0
  caught : CaughtFrom m tag 0

/-- every message: either all accesses stay inside, or one does not -/
theorem getNextXmlTagBuf_cases (m : List UInt8) (tagid : MMI_DM_TAGID_E) (buf_size : ℕ) :
    (Inside m (MMIDM_GetTagStr tagid) buf_size → ∃ c, MMIDM_getNextXmlTagBuf m tagid buf_size = .ok c) ∧
      (¬ Inside m (MMIDM_GetTagStr tagid) buf_size → MMIDM_getNextXmlTagBuf m tagid buf_size = .error .access) := by
  have ht := tagName tagid
  rw [MMIDM_getNextXmlTagBuf]
  by_cases hne : m = []
  · refine ⟨fun hin => absurd hne hin.ne, fun _ => ?_⟩
    have hocc (i : ℕ) : ¬ Occ (MMIDM_GetTagStr tagid) m i := by
      rw [Occ, hne, List.drop_nil, List.prefix_nil]
      exact ht.ne
    have hstart : Start m (MMIDM_GetTagStr tagid) 0 := ⟨Nat.zero_le _, fun _ => hocc 0, Or.inl rfl⟩
    exact getNext_past_end ht hstart (fun p _ ho => hocc p ho.1) (Or.inl (by rw [hne]; rfl))
  · by_cases hzero : MMIDM_GetTagStr tagid <+: m
    · refine ⟨fun hin => absurd hzero hin.start, fun _ => ?_⟩
      rw [getNextXmlTagBuf, seek_zero ht hzero]
      rfl
    · have hstart : Start m (MMIDM_GetTagStr tagid) 0 := ⟨Nat.zero_le _, fun _ => hzero, Or.inl rfl⟩
      have hcall := @getNext_inside _ _ _ _ buf_size ht hstart (List.length_pos_iff.mpr hne)
        (by omega : m.length < 0 + (m.length + 1))
      exact ⟨fun hin => hcall.1 ⟨hin.fits, hin.caught⟩, fun hout => hcall.2 fun hc => hout ⟨hne, hzero, hc.1, hc.2⟩⟩

/-- **The search ends on every message, and every access stays inside exactly when** the message is not empty, does not
begin with the name, the text of the tag that is found has room in the buffer, and, if none is found, the message does
not end with the name (or some start tag has no '>'). -/
theorem getNextXmlTagBuf_inside_iff (m : List UInt8) (tagid : MMI_DM_TAGID_E) (buf_size : ℕ) :
    MMIDM_getNextXmlTagBuf m tagid buf_size ≠ .error .fuel ∧
      ((∃ c, MMIDM_getNextXmlTagBuf m tagid buf_size = .ok c) ↔ Inside m (MMIDM_GetTagStr tagid) buf_size) := by
  obtain ⟨hok, herr⟩ := getNextXmlTagBuf_cases m tagid buf_size
  by_cases hin : Inside m (MMIDM_GetTagStr tagid) buf_size
  · obtain ⟨c, hc⟩ := hok hin
    rw [hc]
    exact ⟨fun h => (nomatch h), iff_of_true ⟨c, rfl⟩ hin⟩
  · rw [herr hin]
    refine ⟨by decide, iff_of_false ?_ hin⟩
    rintro ⟨c, hc⟩
    cases hc

/-- A message that is the name alone: the byte before the message is read. One that ends with the name: what lies behind
its NUL is. A text of three bytes in a buffer of two is written past its end. -/
theorem getNextXmlTagBuf_outside :
    MMIDM_getNextXmlTagBuf (MMIDM_GetTagStr .TAG_CMDID) .TAG_CMDID 20 = .error .access ∧
      MMIDM_getNextXmlTagBuf (0x20 :: MMIDM_GetTagStr .TAG_CMDID) .TAG_CMDID 20 = .error .access ∧
      MMIDM_getNextXmlTagBuf ([0x3C] ++ MMIDM_GetTagStr .TAG_CMDID ++ [0x3E, 0x31, 0x32, 0x33, 0x3C, 0x2F] ++
        MMIDM_GetTagStr .TAG_CMDID ++ [0x3E]) .TAG_CMDID 2 = .error .access :=
  ⟨by decide +kernel, by decide +kernel, by decide +kernel⟩

end SprdDevice.Dm.XmlTag
