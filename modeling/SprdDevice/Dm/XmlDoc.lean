/-
The tag search on documents that the library itself would write.

- `MMIDM_CreateTag`: the text of an element, from its name, its attribute and its content, in a buffer that has room;
- `Doc`: a sequence of elements, each with a text and the elements inside it; `Doc.render` is its text;
- `Doc.find t`: the first element named t in document order, as its content and the index behind it;
- `Doc.Plain t`: the first element whose name BEGINS with that of t is named t, and no element inside it has such a name.
Cmd is a beginning of CmdID and CmdRef, Target of TargetRef, Source of SourceRef. No name lies inside another one.
Result: `getNextXmlTagBuf_doc_iff`, on which documents the search finds the first element named t.
-/
import Mathlib.Tactic
import SprdDevice.Dm.XmlTag

namespace SprdDevice.Dm.XmlTag

open SprdDevice.Search

/-! ## Documents -/

/-- the start tag of an element -/
def startTag (tag : MMI_DM_TAGID_E) (tagArr : List UInt8) : List UInt8 :=
  0x3C :: (MMIDM_GetTagStr tag ++ (if tagArr = [] then [] else 0x20 :: tagArr)) ++ [0x3E]

def endTag (tag : MMI_DM_TAGID_E) : List UInt8 := 0x3C :: 0x2F :: MMIDM_GetTagStr tag ++ [0x3E]

def MMIDM_CreateTag (tagId : MMI_DM_TAGID_E) (tagArr tagContent : List UInt8) : List UInt8 :=
  startTag tagId tagArr ++ tagContent ++ endTag tagId

/-- an element, the elements inside it and those behind it -/
inductive Doc where
  | nil
  | elem (tag : MMI_DM_TAGID_E) (tagArr text : List UInt8) (inner rest : Doc)
deriving DecidableEq, Repr

namespace Doc

def render : Doc → List UInt8
  | nil => []
  | elem tag tagArr text inner rest => MMIDM_CreateTag tag tagArr (text ++ inner.render) ++ rest.render

/-- no '<', no '>' and no name of the table -/
def Harmless (s : List UInt8) : Prop := 0x3C ∉ s ∧ 0x3E ∉ s ∧ ∀ t, ¬ MMIDM_GetTagStr t <:+: s

def WellFormed : Doc → Prop
  | nil => True
  | elem _ tagArr text inner rest => Harmless tagArr ∧ Harmless text ∧ inner.WellFormed ∧ rest.WellFormed

/-- some element has the property -/
def Has (P : MMI_DM_TAGID_E → Prop) : Doc → Prop
  | nil => False
  | elem tag _ _ inner rest => P tag ∨ inner.Has P ∨ rest.Has P

/-- some element is named t -/
def Named (t : MMI_DM_TAGID_E) (d : Doc) : Prop := d.Has (· = t)

/-- the name of some element begins with that of t -/
def Begun (t : MMI_DM_TAGID_E) (d : Doc) : Prop := d.Has fun u => MMIDM_GetTagStr t <+: MMIDM_GetTagStr u

instance decidableHas (P : MMI_DM_TAGID_E → Prop) [DecidablePred P] : ∀ d : Doc, Decidable (d.Has P)
  | nil => inferInstanceAs (Decidable False)
  | elem tag _ _ inner rest =>
    have := decidableHas P inner
    have := decidableHas P rest
    inferInstanceAs (Decidable (P tag ∨ inner.Has P ∨ rest.Has P))

instance (t : MMI_DM_TAGID_E) (d : Doc) : Decidable (d.Named t) := inferInstanceAs (Decidable (d.Has (· = t)))

instance (t : MMI_DM_TAGID_E) (d : Doc) : Decidable (d.Begun t) :=
  inferInstanceAs (Decidable (d.Has fun u => MMIDM_GetTagStr t <+: MMIDM_GetTagStr u))

def Plain (t : MMI_DM_TAGID_E) : Doc → Prop
  | nil => False
  | elem tag _ _ inner rest =>
    if MMIDM_GetTagStr t <+: MMIDM_GetTagStr tag then tag = t ∧ ¬ inner.Begun t
    else if inner.Begun t then inner.Plain t else rest.Plain t

/-- the content of the first element named t in a document that begins at index o, and the index behind its end tag -/
def find (t : MMI_DM_TAGID_E) : Doc → ℕ → Option (List UInt8 × ℕ)
  | nil, _ => none
  | elem tag tagArr text inner rest, o =>
    let size := (MMIDM_CreateTag tag tagArr (text ++ inner.render)).length
    if tag = t then some (text ++ inner.render, o + size)
    else
      match inner.find t (o + (startTag tag tagArr ++ text).length) with
      | some e => some e
      | none => rest.find t (o + size)

theorem find_isSome_iff (t : MMI_DM_TAGID_E) (d : Doc) (o : ℕ) : (d.find t o).isSome ↔ d.Named t := by
  induction d generalizing o with
  | nil => simp [find, Named, Has]
  | elem tag tagArr text inner rest ihi ihr =>
    have hi := ihi (o + (startTag tag tagArr ++ text).length)
    have hr := ihr (o + (MMIDM_CreateTag tag tagArr (text ++ inner.render)).length)
    unfold Named at hi hr ⊢
    rw [find, Has, ← hi, ← hr]
    by_cases htag : tag = t
    · simp [htag]
    · cases hf : inner.find t (o + (startTag tag tagArr ++ text).length) <;> simp [htag]

theorem begun_of_named {t : MMI_DM_TAGID_E} {d : Doc} (h : d.Named t) : d.Begun t := by
  induction d with
  | nil => exact h
  | elem tag tagArr text inner rest ihi ihr =>
    rcases h with rfl | h | h
    · exact Or.inl (List.prefix_refl _)
    · exact Or.inr (Or.inl (ihi h))
    · exact Or.inr (Or.inr (ihr h))

theorem begun_of_plain {t : MMI_DM_TAGID_E} {d : Doc} (h : d.Plain t) : d.Begun t := by
  induction d with
  | nil => exact h
  | elem tag tagArr text inner rest ihi ihr =>
    rw [Plain] at h
    split_ifs at h with hpre hin
    · exact Or.inl hpre
    · exact Or.inr (Or.inl hin)
    · exact Or.inr (Or.inr (ihr h))

end Doc

/-! ## Occurrences of a name in a text -/

def allTags : List MMI_DM_TAGID_E :=
  [.TAG_VERDTD, .TAG_VERPROTO, .TAG_SESSIONID, .TAG_MSGID, .TAG_TARGETID, .TAG_SOURCEID, .TAG_LOCURIID,
   .TAG_LOCNAMEID, .TAG_CREDID, .TAG_METAID, .TAG_MAXMSGID, .TAG_MAXOBJID, .TAG_DATAID, .TAG_SYNCHDRID,
   .TAG_SYNCBODYID, .TAG_ALERTID, .TAG_REPLACEID, .TAG_STATUSID, .TAG_RESULTID, .TAG_CMDID, .TAG_CMDIDID,
   .TAG_MSGREFID, .TAG_CMDREFID, .TAG_TARGETREFID, .TAG_SOURCEREFID, .TAG_CHALID, .TAG_ITEMID, .TAG_FORMATID,
   .TAG_TYPEID, .TAG_NEXTNONCEID, .TAG_RESURIID, .TAG_GETID, .TAG_SYNCMLID, .TAG_EXECID]

theorem mem_allTags (t : MMI_DM_TAGID_E) : t ∈ allTags := by
  cases t <;> decide

/-- a name that lies in another one is its beginning, and different tags have different names -/
theorem names_facts (t u : MMI_DM_TAGID_E) :
    (MMIDM_GetTagStr t <:+: MMIDM_GetTagStr u → MMIDM_GetTagStr t <+: MMIDM_GetTagStr u) ∧
      (MMIDM_GetTagStr t = MMIDM_GetTagStr u → t = u) := by
  have hall : ∀ t ∈ allTags, ∀ u ∈ allTags,
      (MMIDM_GetTagStr t <:+: MMIDM_GetTagStr u → MMIDM_GetTagStr t <+: MMIDM_GetTagStr u) ∧
        (MMIDM_GetTagStr t = MMIDM_GetTagStr u → t = u) := by decide +kernel
  exact hall t (mem_allTags t) u (mem_allTags u)

variable {m tag : List UInt8} {o : ℕ}

/-- no occurrence begins between the two places -/
def NoOcc (tag m : List UInt8) (a b : ℕ) : Prop := ∀ i, a ≤ i → i < b → ¬ Occ tag m i

theorem NoOcc.append {a b c : ℕ} (h1 : NoOcc tag m a b) (h2 : NoOcc tag m b c) : NoOcc tag m a c := by
  intro i ha hc
  by_cases hb : i < b
  · exact h1 i ha hb
  · exact h2 i (Nat.not_lt.mp hb) hc

/-- a piece of text that does not hold the name, up to a character that the name does not have -/
theorem noOcc_piece (hne : tag ≠ []) {seg post : List UInt8} {c : UInt8} (hm : m.drop o = seg ++ c :: post) (hc : c ∉ tag)
    (hfree : ¬ tag <:+: seg) : NoOcc tag m o (o + seg.length + 1) := by
  intro i hi hle hocc
  have hget : m[o + seg.length]? = some c := by
    rw [← List.getElem?_drop, hm, List.getElem?_append_right (le_refl _), Nat.sub_self, List.getElem?_cons_zero]
  have hpos := List.length_pos_iff.mpr hne
  rcases hocc.outside hc hget with h | h
  · omega
  · apply hfree
    have hdrop : tag <+: (seg ++ c :: post).drop (i - o) := by
      rw [← hm, List.drop_drop, Nat.add_sub_cancel' hi]
      exact hocc
    rw [List.drop_append_of_le_length (by omega)] at hdrop
    have hpre : tag <+: seg.drop (i - o) :=
      List.prefix_of_prefix_length_le hdrop (List.prefix_append _ _) (by rw [List.length_drop]; omega)
    exact hpre.isInfix.trans (List.drop_suffix (i - o) seg).isInfix

theorem drop_behind {seg post : List UInt8} (hm : m.drop o = seg ++ post) : m.drop (o + seg.length) = post := by
  rw [← List.drop_drop, hm, List.drop_left]

theorem getElem?_behind {seg post : List UInt8} {c : UInt8} (hm : m.drop o = seg ++ c :: post) :
    m[o + seg.length]? = some c := by
  rw [← List.getElem?_drop, hm, List.getElem?_append_right (le_refl _), Nat.sub_self, List.getElem?_cons_zero]

theorem drop_succ {c : UInt8} {post : List UInt8} (hm : m.drop o = c :: post) : m.drop (o + 1) = post := by
  rw [← List.drop_drop, hm, List.drop_one, List.tail_cons]

theorem getElem?_of_drop {c : UInt8} {post : List UInt8} (hm : m.drop o = c :: post) : m[o]? = some c := by
  rw [← List.head?_drop, hm, List.head?_cons]

theorem first_gt {seg post : List UInt8} {s : ℕ} (hm : m.drop o = seg ++ 0x3E :: post) (hno : 0x3E ∉ seg) (hs : o ≤ s)
    (hle : s ≤ o + seg.length) : First (Gt m) s (o + seg.length) := by
  refine ⟨hle, getElem?_behind hm, fun j hj hlt hgt => hno ?_⟩
  have hget : m[j]? = seg[j - o]? := by
    have hsplit : m[o + (j - o)]? = seg[j - o]? := by
      rw [← List.getElem?_drop, hm, List.getElem?_append_left (by omega)]
    rwa [Nat.add_sub_cancel' (by omega)] at hsplit
  exact List.mem_of_getElem? (hget.symm.trans hgt)

section Regions

variable {t u : MMI_DM_TAGID_E} {tagArr post : List UInt8}

theorem noOcc_name {c : UInt8} (hpre : ¬ MMIDM_GetTagStr t <+: MMIDM_GetTagStr u)
    (hm : m.drop o = MMIDM_GetTagStr u ++ c :: post) (hc : c ∉ MMIDM_GetTagStr t) :
    NoOcc (MMIDM_GetTagStr t) m o (o + (MMIDM_GetTagStr u).length + 1) :=
  noOcc_piece (tagName t).ne hm hc fun hin => hpre ((names_facts t u).1 hin)

/-- a single character that the name does not have -/
theorem noOcc_char {c : UInt8} (hm : m.drop o = c :: post) (hc : c ∉ MMIDM_GetTagStr t) :
    NoOcc (MMIDM_GetTagStr t) m o (o + 1) :=
  @noOcc_piece m _ o (tagName t).ne [] post c hm hc fun hin => (tagName t).ne (List.infix_nil.mp hin)

theorem noOcc_startTag (hpre : ¬ MMIDM_GetTagStr t <+: MMIDM_GetTagStr u) (harr : Doc.Harmless tagArr)
    (hm : m.drop o = startTag u tagArr ++ post) :
    NoOcc (MMIDM_GetTagStr t) m o (o + (startTag u tagArr).length) := by
  have ht := tagName t
  by_cases hnil : tagArr = []
  · have hname : m.drop o = 0x3C :: (MMIDM_GetTagStr u ++ 0x3E :: post) := by
      rw [hm, startTag, if_pos hnil]
      simp
    have hlt := noOcc_char hname ht.lt
    have hrest := noOcc_name hpre (drop_succ hname) ht.gt
    have hlen : (startTag u tagArr).length = 1 + (MMIDM_GetTagStr u).length + 1 := by
      rw [startTag, if_pos hnil]
      simp
      omega
    rw [hlen, ← Nat.add_assoc, ← Nat.add_assoc]
    exact hlt.append hrest
  · have hname : m.drop o = 0x3C :: (MMIDM_GetTagStr u ++ 0x20 :: (tagArr ++ 0x3E :: post)) := by
      rw [hm, startTag, if_neg hnil]
      simp
    have hlt := noOcc_char hname ht.lt
    have hdrop := drop_succ hname
    have hrest := noOcc_name hpre hdrop ht.space
    have hspace : m.drop (o + 1) = (MMIDM_GetTagStr u ++ [0x20]) ++ (tagArr ++ 0x3E :: post) := by
      rw [List.append_assoc]
      exact hdrop
    have hdrop' := drop_behind hspace
    rw [List.length_append, List.length_singleton, ← Nat.add_assoc] at hdrop'
    have harr' := noOcc_piece ht.ne hdrop' ht.gt (harr.2.2 t)
    have hlen : (startTag u tagArr).length = 1 + (MMIDM_GetTagStr u).length + 1 + tagArr.length + 1 := by
      rw [startTag, if_neg hnil]
      simp
      omega
    rw [hlen]
    have hall := (hlt.append hrest).append harr'
    simp only [← Nat.add_assoc]
    exact hall

theorem noOcc_slash (hm : m.drop o = endTag u ++ post) : NoOcc (MMIDM_GetTagStr t) m o (o + 2) := by
  have hlt := noOcc_char hm (tagName t).lt
  have hslash := noOcc_char (drop_succ hm) (tagName t).slash
  exact hlt.append hslash

theorem drop_endTag (hm : m.drop o = endTag u ++ post) : m.drop (o + 2) = MMIDM_GetTagStr u ++ 0x3E :: post := by
  have hsplit : m.drop o = [0x3C, 0x2F] ++ (MMIDM_GetTagStr u ++ 0x3E :: post) := by
    rw [hm, endTag]
    simp
  exact drop_behind hsplit

theorem length_endTag (u : MMI_DM_TAGID_E) : (endTag u).length = 2 + (MMIDM_GetTagStr u).length + 1 := by
  simp [endTag]
  omega

theorem noOcc_endTag (hpre : ¬ MMIDM_GetTagStr t <+: MMIDM_GetTagStr u) (hm : m.drop o = endTag u ++ post) :
    NoOcc (MMIDM_GetTagStr t) m o (o + (endTag u).length) := by
  have hname := noOcc_name hpre (drop_endTag hm) (tagName t).gt
  rw [length_endTag, ← Nat.add_assoc, ← Nat.add_assoc]
  exact (noOcc_slash hm).append hname

/-- what is behind the text of an element begins with a '<' -/
theorem noOcc_text {text : List UInt8} (htext : Doc.Harmless text) (inner : Doc)
    (hm : m.drop o = text ++ (inner.render ++ (endTag u ++ post))) : NoOcc (MMIDM_GetTagStr t) m o (o + text.length) := by
  obtain ⟨w, hw⟩ : ∃ w, inner.render ++ (endTag u ++ post) = 0x3C :: w := by
    cases inner with
    | nil => exact ⟨_, rfl⟩
    | elem tag tagArr text inner rest => exact ⟨_, rfl⟩
  rw [hw] at hm
  have hpiece := noOcc_piece (tagName t).ne hm (tagName t).lt (htext.2.2 t)
  exact fun i hi hlt => hpiece i hi (by omega)

end Regions

/-! ## Occurrences of a name in a document -/

section Documents

variable {t : MMI_DM_TAGID_E} {post : List UInt8}

/-- the parts of an element, where they lie -/
theorem drop_elem {tag : MMI_DM_TAGID_E} {tagArr text : List UInt8} {inner rest : Doc}
    (hm : m.drop o = (Doc.elem tag tagArr text inner rest).render ++ post) :
    m.drop o = startTag tag tagArr ++ (text ++ (inner.render ++ (endTag tag ++ (rest.render ++ post)))) := by
  rw [hm, Doc.render, MMIDM_CreateTag]
  simp only [List.append_assoc]

/-- **Where no name begins with that of t, it does not occur.** -/
theorem noOcc_doc (d : Doc) (hwf : d.WellFormed) (hno : ¬ d.Begun t) (hm : m.drop o = d.render ++ post) :
    NoOcc (MMIDM_GetTagStr t) m o (o + d.render.length) := by
  induction d generalizing o post with
  | nil =>
    intro i hi hlt
    simp only [Doc.render, List.length_nil] at hlt
    omega
  | elem tag tagArr text inner rest ihi ihr =>
    obtain ⟨harr, htext, hin, hrest⟩ := hwf
    have hpre : ¬ MMIDM_GetTagStr t <+: MMIDM_GetTagStr tag := fun h => hno (Or.inl h)
    have h0 := drop_elem hm
    have h1 := drop_behind h0
    have h2 := drop_behind h1
    have h3 := drop_behind h2
    have h4 := drop_behind h3
    have hinner := ihi hin (fun h => hno (Or.inr (Or.inl h))) h2
    have hbehind := ihr hrest (fun h => hno (Or.inr (Or.inr h))) h4
    have hall := ((((noOcc_startTag hpre harr h0).append (noOcc_text htext inner h1)).append hinner).append
      (noOcc_endTag hpre h3)).append hbehind
    have hlen : o + (Doc.elem tag tagArr text inner rest).render.length = o + (startTag tag tagArr).length + text.length +
        inner.render.length + (endTag tag).length + rest.render.length := by
      simp only [Doc.render, MMIDM_CreateTag, List.length_append]
      omega
    rw [hlen]
    exact hall

/-- a name that begins with that of t, behind its '<' -/
theorem first_occ_startTag {tag : MMI_DM_TAGID_E} {tagArr : List UInt8}
    (hpre : MMIDM_GetTagStr t <+: MMIDM_GetTagStr tag) (hm : m.drop o = startTag tag tagArr ++ post) :
    First (Occ (MMIDM_GetTagStr t) m) o (o + 1) ∧ Open m (MMIDM_GetTagStr t) (o + 1) := by
  have hname : m.drop o = 0x3C :: (MMIDM_GetTagStr tag ++ ((if tagArr = [] then [] else 0x20 :: tagArr) ++ 0x3E :: post)) := by
    rw [hm, startTag]
    simp
  have hocc : Occ (MMIDM_GetTagStr t) m (o + 1) := by
    rw [Occ, drop_succ hname]
    exact hpre.trans (List.prefix_append _ _)
  have hlt : m[o]? = some 0x3C := getElem?_of_drop hname
  refine ⟨⟨Nat.le_succ o, hocc, fun j hj hlt => noOcc_char hname (tagName t).lt j hj hlt⟩, hocc, Nat.le_add_left 1 o, hlt⟩

/-- **The first occurrence in a document is the name of a start tag.** -/
theorem first_occ_doc (d : Doc) (hwf : d.WellFormed) (hbegun : d.Begun t) (hm : m.drop o = d.render ++ post) :
    ∃ p, First (Occ (MMIDM_GetTagStr t) m) o p ∧ Open m (MMIDM_GetTagStr t) p := by
  induction d generalizing o post with
  | nil => exact absurd hbegun id
  | elem tag tagArr text inner rest ihi ihr =>
    obtain ⟨harr, htext, hin, hrest⟩ := hwf
    have h0 := drop_elem hm
    have h1 := drop_behind h0
    have h2 := drop_behind h1
    have h3 := drop_behind h2
    have h4 := drop_behind h3
    by_cases hpre : MMIDM_GetTagStr t <+: MMIDM_GetTagStr tag
    · exact ⟨o + 1, first_occ_startTag hpre h0⟩
    · have hhead := (noOcc_startTag hpre harr h0).append (noOcc_text htext inner h1)
      by_cases hinner : inner.Begun t
      · obtain ⟨p, hp, hopen⟩ := ihi hin hinner h2
        exact ⟨p, hp.of_later (by omega) hhead, hopen⟩
      · have hno := (hhead.append (noOcc_doc inner hin hinner h2)).append (noOcc_endTag hpre h3)
        obtain ⟨p, hp, hopen⟩ := ihr hrest ((hbegun.resolve_left hpre).resolve_left hinner) h4
        exact ⟨p, hp.of_later (by omega) hno, hopen⟩

/-- what the search meets first in a document: a start tag at p with its '>' at q, and the next occurrence at r -/
structure Meets (t : MMI_DM_TAGID_E) (d : Doc) (m : List UInt8) (o p q r : ℕ) : Prop where
  opened : First (Open m (MMIDM_GetTagStr t)) o p
  gt : First (Gt m) (p + (MMIDM_GetTagStr t).length) q
  next : First (Occ (MMIDM_GetTagStr t) m) (q + 1) r
  plain : d.Plain t → Closing m (MMIDM_GetTagStr t) r ∧ ∃ n, r = q + 3 + n ∧ q + 1 + n ≤ m.length ∧
    d.find t o = some ((m.drop (q + 1)).take n, r + (MMIDM_GetTagStr t).length + 1)
  other : ¬ d.Plain t → ¬ Closing m (MMIDM_GetTagStr t) r

/-- the part of a start tag before its '>' -/
theorem startTag_split (tag : MMI_DM_TAGID_E) {tagArr : List UInt8} (harr : Doc.Harmless tagArr) :
    ∃ seg, startTag tag tagArr = seg ++ [0x3E] ∧ 0x3E ∉ seg ∧ 1 + (MMIDM_GetTagStr tag).length ≤ seg.length := by
  refine ⟨0x3C :: (MMIDM_GetTagStr tag ++ (if tagArr = [] then [] else 0x20 :: tagArr)), rfl, ?_, ?_⟩
  · rw [List.mem_cons, List.mem_append, not_or, not_or]
    refine ⟨by decide, (tagName tag).gt, ?_⟩
    split_ifs
    · exact List.not_mem_nil
    · rw [List.mem_cons, not_or]
      exact ⟨by decide, harr.2.1⟩
  · rw [List.length_cons, List.length_append]
    omega

/-- the end tag of an element whose name begins with that of t is one of t exactly when the element is named t -/
theorem closing_iff {tag : MMI_DM_TAGID_E} (hpre : MMIDM_GetTagStr t <+: MMIDM_GetTagStr tag)
    (hm : m.drop o = endTag tag ++ post) : Closing m (MMIDM_GetTagStr t) (o + 2) ↔ tag = t := by
  have hlt : m[o]? = some 0x3C := getElem?_of_drop hm
  have hslash : m[o + 1]? = some 0x2F := getElem?_of_drop (drop_succ hm)
  obtain ⟨k, hk⟩ := hpre
  have hname := drop_endTag hm
  rw [← hk, List.append_assoc] at hname
  have hbehind := drop_behind hname
  unfold Closing
  rw [Nat.add_sub_cancel, (rfl : o + 2 - 1 = o + 1)]
  constructor
  · rintro ⟨-, -, hgt⟩
    cases k with
    | nil => exact ((names_facts t tag).2 (by rw [← hk, List.append_nil])).symm
    | cons c k =>
      rw [List.cons_append] at hbehind
      rw [getElem?_of_drop hbehind, Option.some.injEq] at hgt
      have hmem : (0x3E : UInt8) ∈ MMIDM_GetTagStr tag := by
        rw [← hk, hgt]
        exact List.mem_append_right _ (List.mem_cons_self ..)
      exact absurd hmem (tagName tag).gt
  · rintro rfl
    have hnil : k = [] := by
      have hlen := congrArg List.length hk
      rw [List.length_append] at hlen
      exact List.eq_nil_of_length_eq_zero (by omega)
    rw [hnil, List.nil_append] at hbehind
    exact ⟨hslash, hlt, getElem?_of_drop hbehind⟩

/-- an element whose name begins with that of t -/
theorem meets_elem {tag : MMI_DM_TAGID_E} {tagArr text : List UInt8} {inner rest : Doc}
    (hwf : (Doc.elem tag tagArr text inner rest).WellFormed) (hpre : MMIDM_GetTagStr t <+: MMIDM_GetTagStr tag)
    (hm : m.drop o = (Doc.elem tag tagArr text inner rest).render ++ post) :
    ∃ p q r, Meets t (Doc.elem tag tagArr text inner rest) m o p q r := by
  obtain ⟨harr, htext, hin, hrest⟩ := hwf
  have h0 := drop_elem hm
  have h1 := drop_behind h0
  have h2 := drop_behind h1
  have h3 := drop_behind h2
  obtain ⟨hocc, hopen⟩ := first_occ_startTag hpre h0
  obtain ⟨seg, hseg, hgt, hlen⟩ := startTag_split tag harr
  have hstart : (startTag tag tagArr).length = seg.length + 1 := by
    rw [hseg, List.length_append, List.length_singleton]
  have hq : First (Gt m) (o + 1 + (MMIDM_GetTagStr t).length) (o + seg.length) := by
    have hle := hpre.length_le
    have hdrop : m.drop o = seg ++ 0x3E :: (text ++ (inner.render ++ (endTag tag ++ (rest.render ++ post)))) := by
      rw [h0, hseg, List.append_assoc, List.singleton_append]
    exact first_gt hdrop hgt (by omega) (by omega)
  have hbehind : o + (startTag tag tagArr).length = o + seg.length + 1 := by omega
  rw [hbehind] at h1 h2 h3
  have hnoText : NoOcc (MMIDM_GetTagStr t) m _ _ := noOcc_text htext inner h1
  have hplain : (Doc.elem tag tagArr text inner rest).Plain t ↔ tag = t ∧ ¬ inner.Begun t := by
    rw [Doc.Plain, if_pos hpre]
  have hfirst : First (Open m (MMIDM_GetTagStr t)) o (o + 1) :=
    ⟨hocc.le, hopen, fun j hj hlt ho => hocc.least j hj hlt ho.1⟩
  by_cases hinner : inner.Begun t
  · -- the next occurrence is that of a start tag inside
    obtain ⟨r, hr, hro⟩ := first_occ_doc inner hin hinner h2
    refine ⟨o + 1, o + seg.length, r, hfirst, hq, hr.of_later (by omega) hnoText,
      fun hp => absurd hinner (hplain.mp hp).2, fun _ hclose => ?_⟩
    have hboth := hro.2.2
    rw [hclose.1] at hboth
    exact absurd hboth (by decide)
  · -- the next occurrence is that of the end tag
    have hno := (hnoText.append (noOcc_doc inner hin hinner h2)).append (noOcc_slash h3)
    have hclosing := closing_iff hpre h3
    have hend : Occ (MMIDM_GetTagStr t) m (o + seg.length + 1 + text.length + inner.render.length + 2) := by
      rw [Occ, drop_endTag h3]
      exact hpre.trans (List.prefix_append _ _)
    refine ⟨o + 1, o + seg.length, o + seg.length + 1 + text.length + inner.render.length + 2, hfirst, hq,
      ⟨by omega, hend, hno⟩, fun hp => ?_, fun hp hclose => hp (hplain.mpr ⟨hclosing.mp hclose, hinner⟩)⟩
    obtain ⟨htag, -⟩ := hplain.mp hp
    have hin' : o + seg.length + 1 + (text.length + inner.render.length) ≤ m.length := by
      have hle := hend.length_le (tagName t).ne
      omega
    refine ⟨hclosing.mpr htag, text.length + inner.render.length, by omega, hin', ?_⟩
    have htake : (m.drop (o + seg.length + 1)).take (text.length + inner.render.length) = text ++ inner.render := by
      rw [h1, ← List.append_assoc, ← List.length_append, List.take_left]
    have hsize : o + (MMIDM_CreateTag tag tagArr (text ++ inner.render)).length =
        o + seg.length + 1 + text.length + inner.render.length + 2 + (MMIDM_GetTagStr t).length + 1 := by
      rw [← htag]
      simp only [MMIDM_CreateTag, List.length_append, hstart, length_endTag]
      omega
    rw [htake, Doc.find]
    simp only [if_pos htag, hsize]

/-- **What the search meets in a document in which some name begins with that of t.** -/
theorem meets_doc (d : Doc) (hwf : d.WellFormed) (hbegun : d.Begun t) (hm : m.drop o = d.render ++ post) :
    ∃ p q r, Meets t d m o p q r := by
  induction d generalizing o post with
  | nil => exact absurd hbegun id
  | elem tag tagArr text inner rest ihi ihr =>
    by_cases hpre : MMIDM_GetTagStr t <+: MMIDM_GetTagStr tag
    · exact meets_elem hwf hpre hm
    obtain ⟨harr, htext, hin, hrest⟩ := hwf
    have h0 := drop_elem hm
    have h1 := drop_behind h0
    have h2 := drop_behind h1
    have h3 := drop_behind h2
    have h4 := drop_behind h3
    have hne : tag ≠ t := by
      rintro rfl
      exact hpre (List.prefix_refl _)
    have hhead := (noOcc_startTag hpre harr h0).append (noOcc_text htext inner h1)
    have hlen : (startTag tag tagArr ++ text).length = (startTag tag tagArr).length + text.length := List.length_append
    have hsize : (MMIDM_CreateTag tag tagArr (text ++ inner.render)).length =
        (startTag tag tagArr).length + text.length + inner.render.length + (endTag tag).length := by
      simp only [MMIDM_CreateTag, List.length_append]
      omega
    by_cases hinner : inner.Begun t
    · obtain ⟨p, q, r, h⟩ := ihi hin hinner h2
      have hplain : (Doc.elem tag tagArr text inner rest).Plain t ↔ inner.Plain t := by
        rw [Doc.Plain, if_neg hpre, if_pos hinner]
      refine ⟨p, q, r, h.opened.of_later (by omega) fun j hj hlt ho => hhead j hj hlt ho.1, h.gt, h.next, fun hp => ?_,
        fun hp => h.other fun hi => hp (hplain.mpr hi)⟩
      obtain ⟨hclose, n, hr, hn, hfind⟩ := h.plain (hplain.mp hp)
      rw [Nat.add_assoc o, ← hlen] at hfind
      exact ⟨hclose, n, hr, hn, by rw [Doc.find]; simp only [if_neg hne, hfind]⟩
    · have hno := (hhead.append (noOcc_doc inner hin hinner h2)).append (noOcc_endTag hpre h3)
      obtain ⟨p, q, r, h⟩ := ihr hrest ((hbegun.resolve_left hpre).resolve_left hinner) h4
      have hplain : (Doc.elem tag tagArr text inner rest).Plain t ↔ rest.Plain t := by
        rw [Doc.Plain, if_neg hpre, if_neg hinner]
      refine ⟨p, q, r, h.opened.of_later (by omega) fun j hj hlt ho => hno j hj hlt ho.1, h.gt, h.next, fun hp => ?_,
        fun hp => h.other fun hi => hp (hplain.mpr hi)⟩
      obtain ⟨hclose, n, hr, hn, hfind⟩ := h.plain (hplain.mp hp)
      have hnone : inner.find t (o + (startTag tag tagArr ++ text).length) = none := by
        rw [← Option.not_isSome_iff_eq_none, Doc.find_isSome_iff]
        exact fun hnamed => hinner (Doc.begun_of_named hnamed)
      have hofs : o + (startTag tag tagArr).length + text.length + inner.render.length + (endTag tag).length =
          o + (MMIDM_CreateTag tag tagArr (text ++ inner.render)).length := by
        rw [hsize]
        omega
      rw [hofs] at hfind
      exact ⟨hclose, n, hr, hn, by rw [Doc.find]; simp only [if_neg hne, hnone, hfind]⟩

end Documents

/-! ## The search on a document -/

/-- The search does what its users expect: the content of the first element named t, followed by NULs, and the index
behind it; or PNULL when there is no such element. -/
def FindsFirst (t : MMI_DM_TAGID_E) (d : Doc) (buf_size : ℕ) : Prop :=
  match d.find t 0 with
  | some (c, behind) =>
    MMIDM_getNextXmlTagBuf d.render t buf_size = .ok (some behind, c ++ List.replicate (buf_size - c.length) 0)
  | none => ∃ content, MMIDM_getNextXmlTagBuf d.render t buf_size = .ok (none, content)

variable {t : MMI_DM_TAGID_E} {d : Doc} {buf_size : ℕ}

theorem render_last (hd : d ≠ .nil) : ∃ a, d.render = a ++ [0x3E] := by
  induction d with
  | nil => exact absurd rfl hd
  | elem tag tagArr text inner rest ihi ihr =>
    by_cases hrest : rest = .nil
    · refine ⟨startTag tag tagArr ++ (text ++ inner.render) ++ 0x3C :: 0x2F :: MMIDM_GetTagStr tag, ?_⟩
      simp [Doc.render, MMIDM_CreateTag, hrest, endTag]
    · obtain ⟨a, ha⟩ := ihr hrest
      refine ⟨MMIDM_CreateTag tag tagArr (text ++ inner.render) ++ a, ?_⟩
      rw [Doc.render, ha, List.append_assoc]

theorem start_doc (t : MMI_DM_TAGID_E) (d : Doc) : Start d.render (MMIDM_GetTagStr t) 0 := by
  have ht := tagName t
  refine ⟨Nat.zero_le _, fun _ hocc => ?_, Or.inl rfl⟩
  have hle := hocc.length_le ht.ne
  have hpos := List.length_pos_iff.mpr ht.ne
  cases d with
  | nil =>
    simp only [Doc.render, List.length_nil] at hle
    omega
  | elem tag tagArr text inner rest => exact noOcc_char rfl ht.lt 0 (le_refl 0) Nat.zero_lt_one hocc

/-- a document that is not empty is searched without leaving it -/
theorem inside_doc (hd : d ≠ .nil) (hbuf : d.render.length ≤ buf_size) : Inside d.render (MMIDM_GetTagStr t) buf_size := by
  have ht := tagName t
  obtain ⟨a, ha⟩ := render_last hd
  have hzero := (start_doc t d).zero rfl
  refine ⟨by rw [ha]; simp, hzero, fun p q r _ he _ => ?_, fun _ hsuf => ?_⟩
  · have hle := he.next.holds.length_le ht.ne
    omega
  · have hgt : Gt d.render a.length := by
      rw [Gt, ha, List.getElem?_concat_length]
    have hlt := not_gt_of_suffix ht hsuf hgt
    have hpos := List.length_pos_iff.mpr ht.ne
    rw [ha, List.length_append, List.length_singleton] at hlt
    omega

theorem find_zero_none (hno : ¬ d.Named t) : d.find t 0 = none := by
  rwa [← Option.not_isSome_iff_eq_none, Doc.find_isSome_iff]

/-- when the first name that begins with that of t is not a plain element of t, PNULL is returned -/
theorem returns_pnull (hwf : d.WellFormed) (hplain : ¬ d.Plain t) {c : Option ℕ × List UInt8}
    (hc : MMIDM_getNextXmlTagBuf d.render t buf_size = .ok c) : c.1 = none := by
  have ht := tagName t
  have hstart := start_doc t d
  have hdrop : d.render.drop 0 = d.render ++ [] := by rw [List.drop_zero, List.append_nil]
  rw [MMIDM_getNextXmlTagBuf] at hc
  by_cases hbegun : d.Begun t
  · obtain ⟨p, q, r, h⟩ := meets_doc d hwf hbegun hdrop
    have hlast : q + 1 < d.render.length := by
      have hle := h.next.holds.length_le ht.ne
      have hqr := h.next.le
      have hpos := List.length_pos_iff.mpr ht.ne
      omega
    rw [getNext_next ht hstart h.opened h.gt hlast h.next, if_neg (h.other hplain)] at hc
    cases hr : getNextXmlTagBuf d.render (MMIDM_GetTagStr t) buf_size d.render.length r with
    | error e =>
      rw [hr] at hc
      cases hc
    | ok c' =>
      rw [hr] at hc
      cases hc
      rfl
  · have hno := noOcc_doc d hwf hbegun hdrop
    have hocc (i : ℕ) : ¬ Occ (MMIDM_GetTagStr t) d.render i := by
      intro ho
      have hle := ho.length_le ht.ne
      have hpos := List.length_pos_iff.mpr ht.ne
      exact hno i (Nat.zero_le i) (by omega) ho
    by_cases hend : EndsAt d.render (MMIDM_GetTagStr t) 0
    · rw [getNext_past_end ht hstart (fun p _ ho => hocc p ho.1) hend] at hc
      cases hc
    · rw [getNext_no_open ht hstart (fun p _ ho => hocc p ho.1) hend] at hc
      cases hc
      rfl

theorem finds_plain (hwf : d.WellFormed) (hplain : d.Plain t) (hbuf : d.render.length ≤ buf_size) :
    FindsFirst t d buf_size := by
  have ht := tagName t
  have hdrop : d.render.drop 0 = d.render ++ [] := by rw [List.drop_zero, List.append_nil]
  obtain ⟨p, q, r, h⟩ := meets_doc d hwf (Doc.begun_of_plain hplain) hdrop
  obtain ⟨hclose, n, hr, hn, hfind⟩ := h.plain hplain
  have hlast : q + 1 < d.render.length := by
    have hle := h.next.holds.length_le ht.ne
    omega
  have hlen : ((d.render.drop (q + 1)).take n).length = n := by
    rw [List.length_take, List.length_drop]
    omega
  have hcount : (r : ℤ) - q - 3 = (n : ℤ) := by omega
  rw [FindsFirst, hfind]
  dsimp only
  rw [MMIDM_getNextXmlTagBuf, getNext_next ht (start_doc t d) h.opened h.gt hlast h.next, if_pos hclose, hcount,
    strncpy_inner hn, if_pos (by omega), hlen]
  rfl

/-- **The search finds the first element named t exactly in the documents that are not empty and in which**, if an element
is named t, the first one whose name begins with that of t is named t and has no such element inside. -/
theorem getNextXmlTagBuf_doc_iff (t : MMI_DM_TAGID_E) (d : Doc) (hwf : d.WellFormed) (buf_size : ℕ)
    (hbuf : d.render.length ≤ buf_size) : FindsFirst t d buf_size ↔ d ≠ .nil ∧ (d.Named t → d.Plain t) := by
  constructor
  · intro h
    constructor
    · rintro rfl
      obtain ⟨content, hc⟩ : ∃ content, MMIDM_getNextXmlTagBuf [] t buf_size = .ok (none, content) := h
      have herr := (getNextXmlTagBuf_cases [] t buf_size).2 fun hin => hin.ne rfl
      rw [hc] at herr
      cases herr
    · intro hnamed
      by_contra hplain
      obtain ⟨e, he⟩ := Option.isSome_iff_exists.mp ((Doc.find_isSome_iff t d 0).mpr hnamed)
      rw [FindsFirst, he] at h
      exact absurd (returns_pnull hwf hplain h) (Option.some_ne_none _)
  · rintro ⟨hd, hplain⟩
    by_cases hnamed : d.Named t
    · exact finds_plain hwf (hplain hnamed) hbuf
    · by_cases hp : d.Plain t
      · exact finds_plain hwf hp hbuf
      · obtain ⟨c, hc⟩ := (getNextXmlTagBuf_cases d.render t buf_size).1 (inside_doc hd hbuf)
        have hnone := returns_pnull hwf hp hc
        rw [FindsFirst, find_zero_none hnamed]
        exact ⟨c.2, hc.trans (congrArg Except.ok (Prod.ext hnone rfl))⟩

/-- a header: Meta with an attribute and Format inside it, then MsgID -/
def headerDoc : Doc :=
  .elem .TAG_SYNCHDRID [] []
    (.elem .TAG_METAID [0x61, 0x3D, 0x31] [] (.elem .TAG_FORMATID [] [0x62, 0x36, 0x34] .nil .nil)
      (.elem .TAG_MSGID [] [0x31] .nil .nil))
    .nil

theorem getNextXmlTagBuf_doc_header :
    FindsFirst .TAG_MSGID headerDoc 100 ↔ headerDoc ≠ .nil ∧ (headerDoc.Named .TAG_MSGID → headerDoc.Plain .TAG_MSGID) := by
  have hnone : Doc.Harmless [] := ⟨by decide, by decide, by intro t; cases t <;> decide +kernel⟩
  have hattr : Doc.Harmless [0x61, 0x3D, 0x31] := ⟨by decide, by decide, by intro t; cases t <;> decide +kernel⟩
  have hb64 : Doc.Harmless [0x62, 0x36, 0x34] := ⟨by decide, by decide, by intro t; cases t <;> decide +kernel⟩
  have hone : Doc.Harmless [0x31] := ⟨by decide, by decide, by intro t; cases t <;> decide +kernel⟩
  have hformat : Doc.WellFormed (.elem .TAG_FORMATID [] [0x62, 0x36, 0x34] .nil .nil) := ⟨hnone, hb64, trivial, trivial⟩
  have hmsgId : Doc.WellFormed (.elem .TAG_MSGID [] [0x31] .nil .nil) := ⟨hnone, hone, trivial, trivial⟩
  exact getNextXmlTagBuf_doc_iff .TAG_MSGID headerDoc ⟨hnone, hnone, ⟨hattr, hnone, hformat, hmsgId⟩, trivial⟩ 100
    (by decide +kernel)

/-- the two tags of a status that begin with the name of a third one -/
def statusDoc : Doc := .elem .TAG_CMDREFID [] [0x31] .nil (.elem .TAG_CMDID [] [0x32] .nil .nil)

/-- An element before the one that is sought, whose name begins with the same letters: PNULL is returned. -/
theorem getNextXmlTagBuf_misses : statusDoc.find .TAG_CMDID 0 = some ([0x32], 30) ∧
    (MMIDM_getNextXmlTagBuf statusDoc.render .TAG_CMDID 20).map Prod.fst = .ok none := by
  decide +kernel

end SprdDevice.Dm.XmlTag
