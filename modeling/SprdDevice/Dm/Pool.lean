/-
The memory pool of a device management session (sprd_dm_parsexml.c, LOCAL_MEMPOOL), on 32-bit addresses.

- `MemPool`: the pointers into the pool, its bump cursor, the slots of the tag and of the xml area (max_tag_count with
  first_tag, max_xml_count with first_xml; char is unsigned, so 0xff is a value of first_xml), and the memory;
- `SCI_ALLOCA`, `SCI_FREEAA`, `MMIDM_setSessionId`; `heap` is what malloc gives, 0 when it fails;
- `Session`: a pool and its live blocks, the ones SCI_ALLOCA gave out of the pool and that were not freed since;
- `Legal`: sizes are non-negative ints, malloc's blocks lie outside the pool, a pointer into the pool is freed while it
  is live. Between the calls the owners write what they like (`Op.touch`);
- `NoWrap`: the request is served from a slot, or the end of its block in the bump area is below 2^32.
Results: with NoWrap at every request, every state reached is `Sound` (`MMIDM_setSessionId_sound`). The bound of the
bump area is checked on a pointer sum: where it wraps, the block leaves the area (`wrap_not_sound`).
-/
import Mathlib.Tactic
import SprdDevice.Lib.Run
import SprdDevice.Lib.Slots

namespace SprdDevice.Dm.Pool

open SprdDevice.Run SprdDevice.Slots SprdDevice.Search

def MAX_TAG_COUNT : ℕ := 50

def MAX_XML_COUNT : ℕ := 20

def MAX_TAG_BUF_SIZE : ℕ := 1024

def MAX_XML_BUF_SIZE : ℕ := 1024 * 9

def MAX_LOCAL_POOL_LEN : ℕ := 512 * 1024

structure MemPool where
  g_memptr : ℕ
  tag_memptr : ℕ
  xml_memptr : ℕ
  oth_memptr : ℕ
  g_mem_size : ℕ
  g_mem_used : ℕ
  tag : SlotMap
  xml : SlotMap
  mem : ℕ → UInt8

def memset0 (m : ℕ → UInt8) (a n : ℕ) : ℕ → UInt8 := fun x => if a ≤ x ∧ x < a + n then 0 else m x

/-- the pointer given out, and the pool -/
def SCI_ALLOCA (s : MemPool) (size heap : ℕ) : ℕ × MemPool :=
  if s.g_memptr ≠ 0 then
    if size = MAX_TAG_BUF_SIZE ∧ s.tag.first ≠ 0xff then
      if s.tag.count s.tag.first = 0 then
        let p := s.tag_memptr + MAX_TAG_BUF_SIZE * s.tag.first
        (p, { s with tag := s.tag.take MAX_TAG_COUNT 0xff, mem := memset0 s.mem p MAX_TAG_BUF_SIZE })
      else
        (0, s)
    else if size = MAX_XML_BUF_SIZE ∧ s.xml.first ≠ 0xff then
      if s.xml.count s.xml.first = 0 then
        let p := s.xml_memptr + MAX_XML_BUF_SIZE * s.xml.first
        (p, { s with xml := s.xml.take MAX_XML_COUNT 0xff, mem := memset0 s.mem p MAX_XML_BUF_SIZE })
      else
        (0, s)
    -- both sides are pointers, so the sum of the size and the cursor wraps
    else if (s.oth_memptr + size + 1 + s.g_mem_used) % 2 ^ 32 < (s.g_memptr + s.g_mem_size) % 2 ^ 32 then
      let p := (s.oth_memptr + s.g_mem_used) % 2 ^ 32
      (p, { s with g_mem_used := (s.g_mem_used + (size + 1)) % 2 ^ 32, mem := memset0 s.mem p (size + 1) })
    else
      (heap, s)
  else
    (heap, s)

def SCI_FREEAA (s : MemPool) (p : ℕ) : MemPool :=
  if s.tag_memptr ≤ p ∧ p < s.xml_memptr then
    let i := (p - s.tag_memptr) / MAX_TAG_BUF_SIZE
    if p ≠ s.tag_memptr + i * MAX_TAG_BUF_SIZE then s else { s with tag := s.tag.give i }
  else if s.xml_memptr ≤ p ∧ p < s.oth_memptr then
    let i := (p - s.xml_memptr) / MAX_XML_BUF_SIZE
    if p ≠ s.xml_memptr + i * MAX_XML_BUF_SIZE then s else { s with xml := s.xml.give i }
  else
    -- a block of the bump area is not taken back, one from the heap goes to free
    s

/-- base is the block malloc gives -/
def MMIDM_setSessionId (s : MemPool) (base : ℕ) : MemPool where
  g_memptr := base
  tag_memptr := base
  xml_memptr := base + MAX_TAG_COUNT * MAX_TAG_BUF_SIZE
  oth_memptr := base + MAX_TAG_COUNT * MAX_TAG_BUF_SIZE + MAX_XML_COUNT * MAX_XML_BUF_SIZE
  g_mem_size := MAX_LOCAL_POOL_LEN
  g_mem_used := 0
  tag := SlotMap.empty
  xml := SlotMap.empty
  mem := memset0 s.mem base MAX_LOCAL_POOL_LEN

/-! ## Sessions -/

structure Block where
  addr : ℕ
  size : ℕ
deriving DecidableEq, Repr

structure Session where
  pool : MemPool
  live : List Block

def InPool (s : MemPool) (p : ℕ) : Prop := s.g_memptr ≤ p ∧ p < s.g_memptr + MAX_LOCAL_POOL_LEN

instance (s : MemPool) (p : ℕ) : Decidable (InPool s p) := inferInstanceAs (Decidable (_ ∧ _))

inductive Op where
  | alloca (size heap : ℕ)
  | freeaa (p : ℕ)
  | touch (mem : ℕ → UInt8)

def step (s : Session) : Op → Session
  | .alloca size heap =>
    let r := SCI_ALLOCA s.pool size heap
    ⟨r.2, if InPool s.pool r.1 then ⟨r.1, size⟩ :: s.live else s.live⟩
  | .freeaa p => ⟨SCI_FREEAA s.pool p, s.live.filter fun b => b.addr ≠ p⟩
  | .touch mem => ⟨{ s.pool with mem := mem }, s.live⟩

def start (s : MemPool) (base : ℕ) : Session := ⟨MMIDM_setSessionId s base, []⟩

def Live (s : Session) (p : ℕ) : Prop := ∃ b ∈ s.live, b.addr = p

def Legal (s : Session) : Op → Prop
  | .alloca size heap => size < 2 ^ 31 ∧ ¬ InPool s.pool heap
  | .freeaa p => InPool s.pool p → Live s p
  | .touch _ => True

def NoWrap (s : Session) : Op → Prop
  | .alloca size _ =>
    (size = MAX_TAG_BUF_SIZE ∧ s.pool.tag.first ≠ 0xff) ∨ (size = MAX_XML_BUF_SIZE ∧ s.pool.xml.first ≠ 0xff) ∨
      s.pool.oth_memptr + size + 1 + s.pool.g_mem_used < 2 ^ 32
  | _ => True

/-! ## What a session owes its users -/

def Apart (b c : Block) : Prop := b.addr ≠ c.addr ∧ (b.addr + b.size ≤ c.addr ∨ c.addr + c.size ≤ b.addr)

def tagSlot (s : MemPool) (i : ℕ) : ℕ := s.tag_memptr + MAX_TAG_BUF_SIZE * i

def xmlSlot (s : MemPool) (i : ℕ) : ℕ := s.xml_memptr + MAX_XML_BUF_SIZE * i

def InTag (s : MemPool) (b : Block) : Prop := ∃ i < MAX_TAG_COUNT, b.addr = tagSlot s i ∧ b.size ≤ MAX_TAG_BUF_SIZE

def InXml (s : MemPool) (b : Block) : Prop := ∃ i < MAX_XML_COUNT, b.addr = xmlSlot s i ∧ b.size ≤ MAX_XML_BUF_SIZE

def InOther (s : MemPool) (b : Block) : Prop := s.oth_memptr ≤ b.addr ∧ b.addr + b.size ≤ s.g_memptr + s.g_mem_size

/-- first is the least free index below n, and 0xff exactly when there is none -/
def LeastFree (first n : ℕ) (free : ℕ → Prop) : Prop :=
  (first = 0xff ↔ ∀ i < n, ¬ free i) ∧ (first ≠ 0xff → first < n ∧ First free 0 first)

structure Sound (s : Session) : Prop where
  apart : s.live.Pairwise Apart
  inside : ∀ b ∈ s.live, InTag s.pool b ∨ InXml s.pool b ∨ InOther s.pool b
  first_tag : LeastFree s.pool.tag.first MAX_TAG_COUNT fun i => ¬ Live s (tagSlot s.pool i)
  first_xml : LeastFree s.pool.xml.first MAX_XML_COUNT fun i => ¬ Live s (xmlSlot s.pool i)
  /-- the next block out of the pool is zeroed -/
  zeroed : ∀ size heap, Legal s (.alloca size heap) → InPool s.pool (SCI_ALLOCA s.pool size heap).1 →
    ∀ k < size, (SCI_ALLOCA s.pool size heap).2.mem ((SCI_ALLOCA s.pool size heap).1 + k) = 0
  /-- the next request of slot size gets a free slot, when there is one -/
  tag_served : ∀ heap, (∃ i < MAX_TAG_COUNT, ¬ Live s (tagSlot s.pool i)) →
    ∃ i < MAX_TAG_COUNT, ¬ Live s (tagSlot s.pool i) ∧ (SCI_ALLOCA s.pool MAX_TAG_BUF_SIZE heap).1 = tagSlot s.pool i
  xml_served : ∀ heap, (∃ i < MAX_XML_COUNT, ¬ Live s (xmlSlot s.pool i)) →
    ∃ i < MAX_XML_COUNT, ¬ Live s (xmlSlot s.pool i) ∧ (SCI_ALLOCA s.pool MAX_XML_BUF_SIZE heap).1 = xmlSlot s.pool i

/-! ## The invariant -/

/-- where the areas of a pool at base lie -/
structure Layout (base : ℕ) (s : MemPool) : Prop where
  pos : 0 < base
  fits : base + 524288 < 2 ^ 32
  g : s.g_memptr = base
  tag : s.tag_memptr = base
  xml : s.xml_memptr = base + 51200
  oth : s.oth_memptr = base + 235520
  size : s.g_mem_size = 524288
  used : s.g_mem_used < 288768

/-- in the part of the bump area that was given out, with the byte behind it -/
def InUsed (s : MemPool) (b : Block) : Prop :=
  s.oth_memptr ≤ b.addr ∧ b.addr + b.size + 1 ≤ s.oth_memptr + s.g_mem_used

def Held (s : MemPool) (b : Block) : Prop := InTag s b ∨ InXml s b ∨ InUsed s b

structure Inv (base : ℕ) (s : Session) : Prop where
  layout : Layout base s.pool
  tag : s.pool.tag.Cached MAX_TAG_COUNT 0xff
  xml : s.pool.xml.Cached MAX_XML_COUNT 0xff
  tag_live : s.pool.tag.Backed MAX_TAG_COUNT (tagSlot s.pool) (Live s)
  xml_live : s.pool.xml.Backed MAX_XML_COUNT (xmlSlot s.pool) (Live s)
  held : ∀ b ∈ s.live, Held s.pool b
  apart : s.live.Pairwise Apart

section Layout

variable {base : ℕ} {s : MemPool} {i j : ℕ} {b : Block}

theorem tagSlot_eq (L : Layout base s) (i : ℕ) : tagSlot s i = base + 1024 * i := by
  rw [tagSlot, L.tag, MAX_TAG_BUF_SIZE]

theorem xmlSlot_eq (L : Layout base s) (i : ℕ) : xmlSlot s i = base + 51200 + 9216 * i := by
  rw [xmlSlot, L.xml, MAX_XML_BUF_SIZE]

theorem tagSlot_inj (L : Layout base s) (h : tagSlot s i = tagSlot s j) : i = j := by
  rw [tagSlot_eq L, tagSlot_eq L] at h
  omega

theorem xmlSlot_inj (L : Layout base s) (h : xmlSlot s i = xmlSlot s j) : i = j := by
  rw [xmlSlot_eq L, xmlSlot_eq L] at h
  omega

theorem tagSlot_lt (L : Layout base s) (hi : i < MAX_TAG_COUNT) : tagSlot s i + 1024 ≤ base + 51200 := by
  rw [tagSlot_eq L]
  rw [MAX_TAG_COUNT] at hi
  omega

theorem xmlSlot_lt (L : Layout base s) (hi : i < MAX_XML_COUNT) : xmlSlot s i + 9216 ≤ base + 235520 := by
  rw [xmlSlot_eq L]
  rw [MAX_XML_COUNT] at hi
  omega

theorem tagSlot_ne_xmlSlot (L : Layout base s) (hi : i < MAX_TAG_COUNT) : tagSlot s i ≠ xmlSlot s j := by
  have h := tagSlot_lt L hi
  rw [xmlSlot_eq L]
  omega

theorem inPool_iff (L : Layout base s) (p : ℕ) : InPool s p ↔ base ≤ p ∧ p < base + 524288 := by
  rw [InPool, L.g, show MAX_LOCAL_POOL_LEN = 524288 from rfl]

/-- the areas stay where they are -/
theorem Layout.update (L : Layout base s) (tag xml : SlotMap) {used : ℕ} (h : used < 288768) (mem : ℕ → UInt8) :
    Layout base { s with tag := tag, xml := xml, g_mem_used := used, mem := mem } :=
  ⟨L.pos, L.fits, L.g, L.tag, L.xml, L.oth, L.size, h⟩

theorem index_of_slot (a : ℕ) {n : ℕ} (hn : 0 < n) (i : ℕ) : (a + n * i - a) / n = i := by
  rw [Nat.add_sub_cancel_left]
  exact Nat.mul_div_cancel_left i hn

/-- a block in a tag slot, a block in an xml slot and one of the bump area, by their addresses -/
theorem held_cases (L : Layout base s) (h : Held s b) :
    (∃ i < MAX_TAG_COUNT, b.addr = base + 1024 * i ∧ b.size ≤ 1024) ∨
    (∃ i < MAX_XML_COUNT, b.addr = base + 51200 + 9216 * i ∧ b.size ≤ 9216) ∨
    (base + 235520 ≤ b.addr ∧ b.addr + b.size + 1 ≤ base + 235520 + s.g_mem_used) := by
  rcases h with ⟨i, hi, ha, hs⟩ | ⟨i, hi, ha, hs⟩ | ⟨h1, h2⟩
  · exact Or.inl ⟨i, hi, ha.trans (tagSlot_eq L i), hs⟩
  · exact Or.inr (Or.inl ⟨i, hi, ha.trans (xmlSlot_eq L i), hs⟩)
  · rw [L.oth] at h1 h2
    exact Or.inr (Or.inr ⟨h1, h2⟩)

theorem tag_apart (L : Layout base s) (hi : i < MAX_TAG_COUNT) (h : Held s b) (hne : b.addr ≠ tagSlot s i) :
    Apart ⟨tagSlot s i, MAX_TAG_BUF_SIZE⟩ b := by
  rw [tagSlot_eq L] at hne ⊢
  rw [MAX_TAG_COUNT] at hi
  refine ⟨hne.symm, ?_⟩
  show base + 1024 * i + 1024 ≤ b.addr ∨ b.addr + b.size ≤ base + 1024 * i
  rcases held_cases L h with ⟨j, hj, ha, hs⟩ | ⟨j, hj, ha, hs⟩ | ⟨h1, h2⟩ <;> omega

theorem xml_apart (L : Layout base s) (hi : i < MAX_XML_COUNT) (h : Held s b) (hne : b.addr ≠ xmlSlot s i) :
    Apart ⟨xmlSlot s i, MAX_XML_BUF_SIZE⟩ b := by
  rw [xmlSlot_eq L] at hne ⊢
  rw [MAX_XML_COUNT] at hi
  refine ⟨hne.symm, ?_⟩
  show base + 51200 + 9216 * i + 9216 ≤ b.addr ∨ b.addr + b.size ≤ base + 51200 + 9216 * i
  rcases held_cases L h with ⟨j, hj, ha, hs⟩ | ⟨j, hj, ha, hs⟩ | ⟨h1, h2⟩
  · rw [MAX_TAG_COUNT] at hj
    omega
  · omega
  · omega

theorem bump_apart (L : Layout base s) (size : ℕ) (h : Held s b) :
    Apart ⟨s.oth_memptr + s.g_mem_used, size⟩ b := by
  have hbelow : b.addr + b.size ≤ base + 235520 + s.g_mem_used ∧ b.addr < base + 235520 + s.g_mem_used := by
    rcases held_cases L h with ⟨j, hj, ha, hs⟩ | ⟨j, hj, ha, hs⟩ | ⟨h1, h2⟩
    · rw [MAX_TAG_COUNT] at hj
      omega
    · rw [MAX_XML_COUNT] at hj
      omega
    · omega
  rw [← L.oth] at hbelow
  exact ⟨hbelow.2.ne', Or.inr hbelow.1⟩

end Layout

/-! ## Requests -/

section Alloca

variable {base size heap : ℕ} {s : Session}

/-- **One request.** It gets the first free tag slot, the first free xml slot, the next bytes of the bump area, or what
malloc gives -/
theorem SCI_ALLOCA_cases (hi : Inv base s) (size heap : ℕ) :
    (size = MAX_TAG_BUF_SIZE ∧ s.pool.tag.first ≠ 0xff ∧
      SCI_ALLOCA s.pool size heap = (tagSlot s.pool s.pool.tag.first,
        { s.pool with
          tag := s.pool.tag.take MAX_TAG_COUNT 0xff
          mem := memset0 s.pool.mem (tagSlot s.pool s.pool.tag.first) MAX_TAG_BUF_SIZE })) ∨
    (size = MAX_XML_BUF_SIZE ∧ s.pool.xml.first ≠ 0xff ∧
      SCI_ALLOCA s.pool size heap = (xmlSlot s.pool s.pool.xml.first,
        { s.pool with
          xml := s.pool.xml.take MAX_XML_COUNT 0xff
          mem := memset0 s.pool.mem (xmlSlot s.pool s.pool.xml.first) MAX_XML_BUF_SIZE })) ∨
    (¬ (size = MAX_TAG_BUF_SIZE ∧ s.pool.tag.first ≠ 0xff) ∧ ¬ (size = MAX_XML_BUF_SIZE ∧ s.pool.xml.first ≠ 0xff) ∧
      (s.pool.oth_memptr + size + 1 + s.pool.g_mem_used) % 2 ^ 32 < base + 524288 ∧
      SCI_ALLOCA s.pool size heap = (s.pool.oth_memptr + s.pool.g_mem_used,
        { s.pool with
          g_mem_used := (s.pool.g_mem_used + (size + 1)) % 2 ^ 32
          mem := memset0 s.pool.mem (s.pool.oth_memptr + s.pool.g_mem_used) (size + 1) })) ∨
    (¬ (size = MAX_TAG_BUF_SIZE ∧ s.pool.tag.first ≠ 0xff) ∧ ¬ (size = MAX_XML_BUF_SIZE ∧ s.pool.xml.first ≠ 0xff) ∧
      base + 524288 ≤ (s.pool.oth_memptr + size + 1 + s.pool.g_mem_used) % 2 ^ 32 ∧
      SCI_ALLOCA s.pool size heap = (heap, s.pool)) := by
  have hg : s.pool.g_memptr ≠ 0 := by
    rw [hi.layout.g]
    exact hi.layout.pos.ne'
  unfold SCI_ALLOCA
  rw [if_pos hg]
  by_cases ht : size = MAX_TAG_BUF_SIZE ∧ s.pool.tag.first ≠ 0xff
  · have hfree := (hi.tag.first ht.2).1.holds
    rw [if_pos ht, if_pos hfree]
    exact Or.inl ⟨ht.1, ht.2, rfl⟩
  rw [if_neg ht]
  by_cases hx : size = MAX_XML_BUF_SIZE ∧ s.pool.xml.first ≠ 0xff
  · have hfree := (hi.xml.first hx.2).1.holds
    rw [if_pos hx, if_pos hfree]
    exact Or.inr (Or.inl ⟨hx.1, hx.2, rfl⟩)
  rw [if_neg hx]
  have hend : (s.pool.g_memptr + s.pool.g_mem_size) % 2 ^ 32 = base + 524288 := by
    rw [hi.layout.g, hi.layout.size, Nat.mod_eq_of_lt hi.layout.fits]
  have hcur : (s.pool.oth_memptr + s.pool.g_mem_used) % 2 ^ 32 = s.pool.oth_memptr + s.pool.g_mem_used := by
    have hoth := hi.layout.oth
    have hused := hi.layout.used
    have hfits := hi.layout.fits
    exact Nat.mod_eq_of_lt (by omega)
  rw [hend, hcur]
  by_cases hlt : (s.pool.oth_memptr + size + 1 + s.pool.g_mem_used) % 2 ^ 32 < base + 524288
  · rw [if_pos hlt]
    exact Or.inr (Or.inr (Or.inl ⟨ht, hx, hlt, rfl⟩))
  · rw [if_neg hlt]
    exact Or.inr (Or.inr (Or.inr ⟨ht, hx, Nat.not_lt.mp hlt, rfl⟩))

theorem step_alloca {p : ℕ} {q : MemPool} (h : SCI_ALLOCA s.pool size heap = (p, q)) :
    step s (.alloca size heap) = ⟨q, if InPool s.pool p then ⟨p, size⟩ :: s.live else s.live⟩ := by
  rw [step, h]

/-- a block that comes to the live ones -/
theorem live_cons {q : MemPool} {p a : ℕ} : Live ⟨q, ⟨p, size⟩ :: s.live⟩ a ↔ a = p ∨ Live s a := by
  rw [Live, List.exists_mem_cons_iff, eq_comm]
  rfl

theorem not_live_tag (hi : Inv base s) (h : s.pool.tag.first ≠ 0xff) :
    s.pool.tag.first < MAX_TAG_COUNT ∧ ¬ Live s (tagSlot s.pool s.pool.tag.first) := by
  obtain ⟨hfirst, hlt⟩ := hi.tag.first h
  exact ⟨hlt, (hi.tag_live _ hlt).mp hfirst.holds⟩

theorem not_live_xml (hi : Inv base s) (h : s.pool.xml.first ≠ 0xff) :
    s.pool.xml.first < MAX_XML_COUNT ∧ ¬ Live s (xmlSlot s.pool s.pool.xml.first) := by
  obtain ⟨hfirst, hlt⟩ := hi.xml.first h
  exact ⟨hlt, (hi.xml_live _ hlt).mp hfirst.holds⟩

theorem inv_tag (hi : Inv base s) (h : s.pool.tag.first ≠ 0xff) (mem : ℕ → UInt8) :
    Inv base ⟨{ s.pool with tag := s.pool.tag.take MAX_TAG_COUNT 0xff, mem := mem },
      ⟨tagSlot s.pool s.pool.tag.first, MAX_TAG_BUF_SIZE⟩ :: s.live⟩ := by
  obtain ⟨hlt, hfree⟩ := not_live_tag hi h
  have L := hi.layout
  refine
    { layout := L.update _ _ L.used _
      tag := hi.tag.take h
      xml := hi.xml
      tag_live := ?_
      xml_live := ?_
      held := ?_
      apart := ?_ }
  · have hnew := @SlotMap.Backed.take _ _ 0xff _ _ hi.tag_live hlt fun i _ j _ => tagSlot_inj L
    exact hnew.congr fun i _ => live_cons
  · refine hi.xml_live.congr fun i _ => live_cons.trans (or_iff_right ?_)
    exact (tagSlot_ne_xmlSlot L hlt).symm
  · intro b hb
    rcases List.mem_cons.mp hb with rfl | hb
    · exact Or.inl ⟨_, hlt, rfl, le_rfl⟩
    · exact hi.held b hb
  · refine List.pairwise_cons.mpr ⟨fun b hb => ?_, hi.apart⟩
    exact tag_apart L hlt (hi.held b hb) fun he => hfree ⟨b, hb, he⟩

theorem inv_xml (hi : Inv base s) (h : s.pool.xml.first ≠ 0xff) (mem : ℕ → UInt8) :
    Inv base ⟨{ s.pool with xml := s.pool.xml.take MAX_XML_COUNT 0xff, mem := mem },
      ⟨xmlSlot s.pool s.pool.xml.first, MAX_XML_BUF_SIZE⟩ :: s.live⟩ := by
  obtain ⟨hlt, hfree⟩ := not_live_xml hi h
  have L := hi.layout
  refine
    { layout := L.update _ _ L.used _
      tag := hi.tag
      xml := hi.xml.take h
      tag_live := ?_
      xml_live := ?_
      held := ?_
      apart := ?_ }
  · refine hi.tag_live.congr fun i hin => live_cons.trans (or_iff_right ?_)
    exact tagSlot_ne_xmlSlot L hin
  · have hnew := @SlotMap.Backed.take _ _ 0xff _ _ hi.xml_live hlt fun i _ j _ => xmlSlot_inj L
    exact hnew.congr fun i _ => live_cons
  · intro b hb
    rcases List.mem_cons.mp hb with rfl | hb
    · exact Or.inr (Or.inl ⟨_, hlt, rfl, le_rfl⟩)
    · exact hi.held b hb
  · refine List.pairwise_cons.mpr ⟨fun b hb => ?_, hi.apart⟩
    exact xml_apart L hlt (hi.held b hb) fun he => hfree ⟨b, hb, he⟩

theorem inv_bump (hi : Inv base s) (hsize : s.pool.g_mem_used + size + 1 < 288768) (mem : ℕ → UInt8) :
    Inv base ⟨{ s.pool with g_mem_used := s.pool.g_mem_used + (size + 1), mem := mem },
      ⟨s.pool.oth_memptr + s.pool.g_mem_used, size⟩ :: s.live⟩ := by
  have L := hi.layout
  have hoth := L.oth
  refine
    { layout := L.update _ _ hsize _
      tag := hi.tag
      xml := hi.xml
      tag_live := ?_
      xml_live := ?_
      held := ?_
      apart := ?_ }
  · refine hi.tag_live.congr fun i hin => live_cons.trans (or_iff_right ?_)
    have hi := tagSlot_lt L hin
    omega
  · refine hi.xml_live.congr fun i hin => live_cons.trans (or_iff_right ?_)
    have hi := xmlSlot_lt L hin
    omega
  · have hmore : s.pool.oth_memptr + s.pool.g_mem_used + size + 1 ≤
        s.pool.oth_memptr + (s.pool.g_mem_used + (size + 1)) := by omega
    intro b hb
    rcases List.mem_cons.mp hb with rfl | hb
    · exact Or.inr (Or.inr ⟨Nat.le_add_right _ _, hmore⟩)
    · rcases hi.held b hb with h | h | ⟨h1, h2⟩
      · exact Or.inl h
      · exact Or.inr (Or.inl h)
      · exact Or.inr (Or.inr ⟨h1, h2.trans (le_trans (by omega) hmore)⟩)
  · refine List.pairwise_cons.mpr ⟨fun b hb => ?_, hi.apart⟩
    exact bump_apart L size (hi.held b hb)

/-- a request keeps the invariant -/
theorem inv_alloca (hi : Inv base s) (hl : Legal s (.alloca size heap)) (hw : NoWrap s (.alloca size heap)) :
    Inv base (step s (.alloca size heap)) := by
  have L := hi.layout
  rcases SCI_ALLOCA_cases hi size heap with ⟨rfl, hf, he⟩ | ⟨rfl, hf, he⟩ | ⟨ht, hx, hlt, he⟩ | ⟨-, -, -, he⟩
  · have hin : InPool s.pool (tagSlot s.pool s.pool.tag.first) := by
      have hend := tagSlot_lt L (not_live_tag hi hf).1
      rw [inPool_iff L]
      exact ⟨by rw [tagSlot_eq L]; omega, by omega⟩
    rw [step_alloca he, if_pos hin]
    exact inv_tag hi hf _
  · have hin : InPool s.pool (xmlSlot s.pool s.pool.xml.first) := by
      have hend := xmlSlot_lt L (not_live_xml hi hf).1
      rw [inPool_iff L]
      exact ⟨by rw [xmlSlot_eq L]; omega, by omega⟩
    rw [step_alloca he, if_pos hin]
    exact inv_xml hi hf _
  · have hsum : s.pool.oth_memptr + size + 1 + s.pool.g_mem_used < 2 ^ 32 := (hw.resolve_left ht).resolve_left hx
    have hoth := L.oth
    have hfits := L.fits
    rw [Nat.mod_eq_of_lt hsum] at hlt
    have hsize : s.pool.g_mem_used + size + 1 < 288768 := by omega
    have hin : InPool s.pool (s.pool.oth_memptr + s.pool.g_mem_used) := by
      rw [inPool_iff L]
      omega
    rw [Nat.mod_eq_of_lt (by omega)] at he
    rw [step_alloca he, if_pos hin]
    exact inv_bump hi hsize _
  · rw [step_alloca he, if_neg hl.2]
    exact hi

end Alloca

/-! ## Releases -/

section Freeaa

variable {base p : ℕ} {s : Session}

theorem live_filter {q : MemPool} {a : ℕ} :
    Live ⟨q, s.live.filter fun b => b.addr ≠ p⟩ a ↔ Live s a ∧ a ≠ p := by
  constructor
  · rintro ⟨b, hb, rfl⟩
    obtain ⟨hb, hne⟩ := List.mem_filter.mp hb
    exact ⟨⟨b, hb, rfl⟩, of_decide_eq_true hne⟩
  · rintro ⟨⟨b, hb, rfl⟩, hne⟩
    exact ⟨b, List.mem_filter.mpr ⟨hb, decide_eq_true hne⟩, rfl⟩

/-- one block less, in a pool that gained no slot -/
theorem inv_filter (hi : Inv base s) (ht : ∀ i < MAX_TAG_COUNT, tagSlot s.pool i ≠ p)
    (hx : ∀ i < MAX_XML_COUNT, xmlSlot s.pool i ≠ p) : Inv base ⟨s.pool, s.live.filter fun b => b.addr ≠ p⟩ where
  layout := hi.layout
  tag := hi.tag
  xml := hi.xml
  tag_live := hi.tag_live.congr fun i hin => live_filter.trans (and_iff_left (ht i hin))
  xml_live := hi.xml_live.congr fun i hin => live_filter.trans (and_iff_left (hx i hin))
  held b hb := hi.held b (List.mem_filter.mp hb).1
  apart := hi.apart.filter _

theorem inv_give_tag {i : ℕ} (hi : Inv base s) (hin : i < MAX_TAG_COUNT) :
    Inv base ⟨{ s.pool with tag := s.pool.tag.give i }, s.live.filter fun b => b.addr ≠ tagSlot s.pool i⟩ where
  layout := hi.layout.update _ _ hi.layout.used _
  tag := hi.tag.give (by decide) hin
  xml := hi.xml
  tag_live := (hi.tag_live.give hin fun i _ j _ => tagSlot_inj hi.layout).congr fun _ _ => live_filter
  xml_live := hi.xml_live.congr fun _ _ =>
    live_filter.trans (and_iff_left (tagSlot_ne_xmlSlot hi.layout hin).symm)
  held b hb := hi.held b (List.mem_filter.mp hb).1
  apart := hi.apart.filter _

theorem inv_give_xml {i : ℕ} (hi : Inv base s) (hin : i < MAX_XML_COUNT) :
    Inv base ⟨{ s.pool with xml := s.pool.xml.give i }, s.live.filter fun b => b.addr ≠ xmlSlot s.pool i⟩ where
  layout := hi.layout.update _ _ hi.layout.used _
  tag := hi.tag
  xml := hi.xml.give (by decide) hin
  tag_live := hi.tag_live.congr fun _ hjn => live_filter.trans (and_iff_left (tagSlot_ne_xmlSlot hi.layout hjn))
  xml_live := (hi.xml_live.give hin fun i _ j _ => xmlSlot_inj hi.layout).congr fun _ _ => live_filter
  held b hb := hi.held b (List.mem_filter.mp hb).1
  apart := hi.apart.filter _

/-- a live pointer into the tag area is a slot of it -/
theorem tagSlot_of_live (hi : Inv base s) (hl : Live s p) (hp : p < base + 51200) :
    ∃ i < MAX_TAG_COUNT, p = tagSlot s.pool i := by
  obtain ⟨b, hb, rfl⟩ := hl
  rcases held_cases hi.layout (hi.held b hb) with ⟨i, hin, ha, -⟩ | ⟨i, -, ha, -⟩ | ⟨h1, -⟩
  · exact ⟨i, hin, ha.trans (tagSlot_eq hi.layout i).symm⟩
  · omega
  · omega

theorem xmlSlot_of_live (hi : Inv base s) (hl : Live s p) (hp : base + 51200 ≤ p) (hp' : p < base + 235520) :
    ∃ i < MAX_XML_COUNT, p = xmlSlot s.pool i := by
  obtain ⟨b, hb, rfl⟩ := hl
  rcases held_cases hi.layout (hi.held b hb) with ⟨i, hin, ha, -⟩ | ⟨i, hin, ha, -⟩ | ⟨h1, -⟩
  · rw [MAX_TAG_COUNT] at hin
    omega
  · exact ⟨i, hin, ha.trans (xmlSlot_eq hi.layout i).symm⟩
  · omega

theorem SCI_FREEAA_tag (L : Layout base s.pool) {i : ℕ} (hin : i < MAX_TAG_COUNT) :
    SCI_FREEAA s.pool (tagSlot s.pool i) = { s.pool with tag := s.pool.tag.give i } := by
  have hend := tagSlot_lt L hin
  have hindex : (tagSlot s.pool i - s.pool.tag_memptr) / MAX_TAG_BUF_SIZE = i := index_of_slot _ (by decide) i
  have hat : ¬ tagSlot s.pool i ≠ s.pool.tag_memptr + i * MAX_TAG_BUF_SIZE := by
    rw [tagSlot, Nat.mul_comm]
    exact not_not.mpr rfl
  have harea : s.pool.tag_memptr ≤ tagSlot s.pool i ∧ tagSlot s.pool i < s.pool.xml_memptr :=
    ⟨Nat.le_add_right _ _, by rw [L.xml]; omega⟩
  unfold SCI_FREEAA
  rw [if_pos harea, hindex]
  exact if_neg hat

theorem SCI_FREEAA_xml (L : Layout base s.pool) {i : ℕ} (hin : i < MAX_XML_COUNT) :
    SCI_FREEAA s.pool (xmlSlot s.pool i) = { s.pool with xml := s.pool.xml.give i } := by
  have hend := xmlSlot_lt L hin
  have hindex : (xmlSlot s.pool i - s.pool.xml_memptr) / MAX_XML_BUF_SIZE = i := index_of_slot _ (by decide) i
  have hat : ¬ xmlSlot s.pool i ≠ s.pool.xml_memptr + i * MAX_XML_BUF_SIZE := by
    rw [xmlSlot, Nat.mul_comm]
    exact not_not.mpr rfl
  have hbelow : s.pool.xml_memptr ≤ xmlSlot s.pool i := Nat.le_add_right _ _
  have harea : s.pool.xml_memptr ≤ xmlSlot s.pool i ∧ xmlSlot s.pool i < s.pool.oth_memptr :=
    ⟨hbelow, by rw [L.oth]; omega⟩
  unfold SCI_FREEAA
  rw [if_neg (fun h => absurd h.2 (Nat.not_lt.mpr hbelow)), if_pos harea, hindex]
  exact if_neg hat

/-- a release of a live pointer, or of one outside the pool, keeps the invariant -/
theorem inv_freeaa (hi : Inv base s) (hl : Legal s (.freeaa p)) : Inv base (step s (.freeaa p)) := by
  have L := hi.layout
  have hlive : base ≤ p → p < base + 235520 → Live s p := fun h1 h2 => hl ((inPool_iff L p).mpr ⟨h1, by omega⟩)
  show Inv base ⟨SCI_FREEAA s.pool p, s.live.filter fun b => b.addr ≠ p⟩
  by_cases ht : base ≤ p ∧ p < base + 51200
  · obtain ⟨i, hin, rfl⟩ := tagSlot_of_live hi (hlive ht.1 (by omega)) ht.2
    rw [SCI_FREEAA_tag L hin]
    exact inv_give_tag hi hin
  by_cases hx : base + 51200 ≤ p ∧ p < base + 235520
  · obtain ⟨i, hin, rfl⟩ := xmlSlot_of_live hi (hlive (by omega) hx.2) hx.1 hx.2
    rw [SCI_FREEAA_xml L hin]
    exact inv_give_xml hi hin
  have hnone : SCI_FREEAA s.pool p = s.pool := by
    unfold SCI_FREEAA
    rw [L.tag, L.xml, L.oth, if_neg ht, if_neg hx]
  rw [hnone]
  refine inv_filter hi (fun i hin he => ht ?_) fun i hin he => hx ?_
  · have hend := tagSlot_lt L hin
    rw [tagSlot_eq L] at he hend
    omega
  · have hend := xmlSlot_lt L hin
    rw [xmlSlot_eq L] at he hend
    omega

end Freeaa

/-! ## Runs -/

section Run

variable {base : ℕ} {s : Session}

theorem layout_start (old : MemPool) (hbase : 0 < base) (hend : base + MAX_LOCAL_POOL_LEN < 2 ^ 32) :
    Layout base (MMIDM_setSessionId old base) := by
  rw [MAX_LOCAL_POOL_LEN] at hend
  refine ⟨hbase, by omega, rfl, rfl, ?_, ?_, ?_, ?_⟩
  · simp [MMIDM_setSessionId, MAX_TAG_COUNT, MAX_TAG_BUF_SIZE]
  · have hareas : MAX_TAG_COUNT * MAX_TAG_BUF_SIZE + MAX_XML_COUNT * MAX_XML_BUF_SIZE = 235520 := by decide
    rw [MMIDM_setSessionId, Nat.add_assoc, hareas]
  · simp [MMIDM_setSessionId, MAX_LOCAL_POOL_LEN]
  · simp [MMIDM_setSessionId]

theorem inv_start (old : MemPool) (hbase : 0 < base) (hend : base + MAX_LOCAL_POOL_LEN < 2 ^ 32) :
    Inv base (start old base) where
  layout := layout_start old hbase hend
  tag := SlotMap.Cached.empty (by decide)
  xml := SlotMap.Cached.empty (by decide)
  tag_live i _ := ⟨fun _ ⟨_, hb, _⟩ => absurd hb List.not_mem_nil, fun _ => rfl⟩
  xml_live i _ := ⟨fun _ ⟨_, hb, _⟩ => absurd hb List.not_mem_nil, fun _ => rfl⟩
  held b hb := absurd hb List.not_mem_nil
  apart := List.Pairwise.nil

theorem inv_step (hi : Inv base s) {o : Op} (h : Legal s o ∧ NoWrap s o) : Inv base (step s o) := by
  cases o with
  | alloca size heap => exact inv_alloca hi h.1 h.2
  | freeaa p => exact inv_freeaa hi h.1
  | touch mem =>
    exact ⟨hi.layout.update _ _ hi.layout.used _, hi.tag, hi.xml, hi.tag_live, hi.xml_live, hi.held, hi.apart⟩

theorem leastFree_of_cached {m : SlotMap} {n : ℕ} {addr : ℕ → ℕ} {live : ℕ → Prop} (hc : m.Cached n 0xff)
    (hb : m.Backed n addr live) (hn : n ≤ 0xff) : LeastFree m.first n fun i => ¬ live (addr i) := by
  constructor
  · rw [hc.eq_nil_iff hn]
    exact forall₂_congr fun i hi => not_congr (hb i hi)
  · intro hne
    obtain ⟨hfirst, hlt⟩ := hc.first hne
    refine ⟨hlt, hfirst.le, (hb _ hlt).mp hfirst.holds, fun j h0 hj => ?_⟩
    exact fun hfree => hfirst.least j h0 hj ((hb j (hj.trans hlt)).mpr hfree)

theorem LeastFree.ne {first n : ℕ} {free : ℕ → Prop} (h : LeastFree first n free) (hfree : ∃ i < n, free i) :
    first ≠ 0xff := by
  intro hnil
  obtain ⟨i, hi, hf⟩ := hfree
  exact h.1.mp hnil i hi hf

theorem memset0_zero (m : ℕ → UInt8) (a n : ℕ) {k : ℕ} (hk : k < n) : memset0 m a n (a + k) = 0 :=
  if_pos ⟨Nat.le_add_right _ _, by omega⟩

/-- what the invariant promises the users -/
theorem Inv.sound (hi : Inv base s) : Sound s where
  apart := hi.apart
  inside b hb := by
    rcases hi.held b hb with h | h | ⟨h1, h2⟩
    · exact Or.inl h
    · exact Or.inr (Or.inl h)
    · refine Or.inr (Or.inr ⟨h1, ?_⟩)
      have hused := hi.layout.used
      rw [hi.layout.oth] at h2
      rw [hi.layout.g, hi.layout.size]
      omega
  first_tag := leastFree_of_cached hi.tag hi.tag_live (by decide)
  first_xml := leastFree_of_cached hi.xml hi.xml_live (by decide)
  zeroed size heap hl hin k hk := by
    rcases SCI_ALLOCA_cases hi size heap with ⟨rfl, -, he⟩ | ⟨rfl, -, he⟩ | ⟨-, -, -, he⟩ | ⟨-, -, -, he⟩
    · rw [he]
      exact memset0_zero _ _ _ hk
    · rw [he]
      exact memset0_zero _ _ _ hk
    · rw [he]
      exact memset0_zero _ _ _ (hk.trans (Nat.lt_succ_self size))
    · rw [he] at hin
      exact absurd hin hl.2
  tag_served heap h := by
    have hne : s.pool.tag.first ≠ 0xff := (leastFree_of_cached hi.tag hi.tag_live (by decide)).ne h
    obtain ⟨hlt, hfree⟩ := not_live_tag hi hne
    refine ⟨_, hlt, hfree, ?_⟩
    rcases SCI_ALLOCA_cases hi MAX_TAG_BUF_SIZE heap with ⟨-, -, he⟩ | ⟨hsize, -⟩ | ⟨hno, -⟩ | ⟨hno, -⟩
    · rw [he]
    · exact absurd hsize (by decide)
    · exact absurd ⟨rfl, hne⟩ hno
    · exact absurd ⟨rfl, hne⟩ hno
  xml_served heap h := by
    have hne : s.pool.xml.first ≠ 0xff := (leastFree_of_cached hi.xml hi.xml_live (by decide)).ne h
    obtain ⟨hlt, hfree⟩ := not_live_xml hi hne
    refine ⟨_, hlt, hfree, ?_⟩
    rcases SCI_ALLOCA_cases hi MAX_XML_BUF_SIZE heap with ⟨hsize, -⟩ | ⟨-, -, he⟩ | ⟨-, hno, -⟩ | ⟨-, hno, -⟩
    · exact absurd hsize (by decide)
    · rw [he]
    · exact absurd ⟨rfl, hne⟩ hno
    · exact absurd ⟨rfl, hne⟩ hno

/-- a request that wraps gets a block that leaves the bump area (malloc aligns the pool) -/
theorem wrap_not_sound (hi : Inv base s) (halign : 8 ∣ base) {size heap : ℕ} (hl : Legal s (.alloca size heap))
    (hw : ¬ NoWrap s (.alloca size heap)) : ¬ Sound (step s (.alloca size heap)) := by
  have L := hi.layout
  have hoth := L.oth
  have hused := L.used
  have hfits := L.fits
  obtain ⟨ht, hx, hge⟩ : ¬ (size = MAX_TAG_BUF_SIZE ∧ s.pool.tag.first ≠ 0xff) ∧
      ¬ (size = MAX_XML_BUF_SIZE ∧ s.pool.xml.first ≠ 0xff) ∧
      ¬ s.pool.oth_memptr + size + 1 + s.pool.g_mem_used < 2 ^ 32 := by
    rwa [NoWrap, not_or, not_or] at hw
  have hsize := hl.1
  rcases SCI_ALLOCA_cases hi size heap with ⟨h1, h2, -⟩ | ⟨h1, h2, -⟩ | ⟨-, -, -, he⟩ | ⟨-, -, hle, -⟩
  · exact absurd ⟨h1, h2⟩ ht
  · exact absurd ⟨h1, h2⟩ hx
  · have hin : InPool s.pool (s.pool.oth_memptr + s.pool.g_mem_used) := by
      rw [inPool_iff L]
      omega
    rw [step_alloca he, if_pos hin]
    intro hs
    obtain hheld := hs.inside _ List.mem_cons_self
    rcases hheld with ⟨i, hin, ha, -⟩ | ⟨i, hin, ha, -⟩ | ⟨-, h2⟩
    · have hend := tagSlot_lt L hin
      have ha : s.pool.oth_memptr + s.pool.g_mem_used = tagSlot s.pool i := ha
      omega
    · have hend := xmlSlot_lt L hin
      have ha : s.pool.oth_memptr + s.pool.g_mem_used = xmlSlot s.pool i := ha
      omega
    · have h2 : s.pool.oth_memptr + s.pool.g_mem_used + size ≤ s.pool.g_memptr + s.pool.g_mem_size := h2
      rw [L.g, L.size] at h2
      omega
  · omega

/-- **The memory pool.** After MMIDM_setSessionId, in every run of legal calls in which no request wraps, every state
reached is sound -/
theorem MMIDM_setSessionId_sound (old : MemPool) (base : ℕ) (hbase : 0 < base)
    (hend : base + MAX_LOCAL_POOL_LEN < 2 ^ 32) (ops : List Op)
    (h : Along step (fun s o => Legal s o ∧ NoWrap s o) (start old base) ops) :
    Sound (ops.foldl step (start old base)) := by
  have hkeep : ∀ s o, Inv base s → Legal s o ∧ NoWrap s o → Inv base (step s o) := fun _ _ hi h => inv_step hi h
  exact (inv_of_along hkeep (inv_start old hbase hend) h).sound

theorem MMIDM_setSessionId_sound_calls :
    Sound (([.alloca 1024 0, .freeaa 0x40000000, .alloca 100 0] : List Op).foldl step
      (start ⟨0, 0, 0, 0, 0, 0, SlotMap.empty, SlotMap.empty, fun _ => 0⟩ 0x40000000)) :=
  MMIDM_setSessionId_sound _ _ (by decide) (by decide) _
    ⟨⟨⟨by decide, by decide +kernel⟩, Or.inl (by decide +kernel)⟩,
      ⟨fun _ => ⟨⟨0x40000000, 1024⟩, by decide +kernel⟩, trivial⟩,
      ⟨⟨by decide, by decide +kernel⟩, Or.inr (Or.inr (by decide +kernel))⟩, trivial⟩

/-- a pool at 0xb6000000, and a request of 2^31 - 1 bytes: the end of its block is 0x36039800 on 32 bits -/
theorem alloca_wraps :
    ¬ ∀ (old : MemPool) (base : ℕ), 0 < base → base + MAX_LOCAL_POOL_LEN < 2 ^ 32 → ∀ ops : List Op,
      Along step Legal (start old base) ops → Sound (ops.foldl step (start old base)) := by
  intro h
  have hs := h ⟨0, 0, 0, 0, 0, 0, SlotMap.empty, SlotMap.empty, fun _ => 0⟩ 0xb6000000 (by decide) (by decide)
    [.alloca 0x7fffffff 0] ⟨⟨by decide, by decide +kernel⟩, trivial⟩
  have hlive : (step (start ⟨0, 0, 0, 0, 0, 0, SlotMap.empty, SlotMap.empty, fun _ => 0⟩ 0xb6000000)
      (.alloca 0x7fffffff 0)).live = [⟨0xb6039800, 0x7fffffff⟩] := by decide +kernel
  have hin := hs.inside ⟨0xb6039800, 0x7fffffff⟩ (by rw [List.foldl_cons, List.foldl_nil, hlive]; simp)
  rcases hin with ⟨i, -, -, hsize⟩ | ⟨i, -, -, hsize⟩ | ⟨-, hend⟩
  · exact absurd hsize (by decide)
  · exact absurd hsize (by decide)
  · exact absurd hend (by decide +kernel)

end Run

end SprdDevice.Dm.Pool
