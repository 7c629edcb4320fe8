/-
Fragmentation of a request: a request stream is cut into packets with the sub-indices 0, 1, .. of one group, and every
packet is a frame that the packet layer receives.

`__getToken` keeps nothing of a token that the packet does not complete: it leaves the bytes in the packet, the response
is 1, and the next packet is read from its first byte. So the end of a run depends on the cutting only through the cuts
that fall strictly inside a token.

Results:
- `run_pieces`: cut anywhere but inside a token, a request ends as if it were received whole;
- `run_crumbs`: cut into packets shorter than a token, it is never accepted;
- `fragmentation_independent`: any two cuttings without a cut inside a token end in the same buffers and the same
  outcome, and every stream also has a cutting that does not; `fragmentation_dependent`: a stream and two cuttings.
-/
import Mathlib.Tactic
import SprdDevice.NvItem.Packet
import SprdDevice.NvItem.Ack

namespace SprdDevice.NvItem

open SprdDevice.Memory SprdDevice.Word

/-! ## Cuttings -/

/-- the bodies of the packets, each with the padding of its frame -/
abbrev Cut := List (List UInt8 × List UInt8)

def Cut.bytes (cut : Cut) : List UInt8 := (cut.map Prod.fst).flatten

/-- the packets are frames and their bodies make up the stream -/
def Cutting (r : Req) (cut : Cut) : Prop :=
  Cut.bytes cut = r.bytes ∧ ∀ x ∈ cut, x.1.length + x.2.length = PACKETSIZE

/-- no packet ends inside a token -/
def Aligned (r : Req) (cut : Cut) : Prop := ∀ j, ¬ Inside r.tokenStarts (Cut.bytes (cut.take j)).length

/-- the frames of a cutting, from sub-index k on -/
def frames (g : ℕ) : ℕ → Cut → List ReadRes
  | _, [] => []
  | k, x :: cut => .got (frame g k x.1 x.2) :: frames g (k + 1) cut

/-- the two cuttings end in the same buffers, and the same requests were accepted -/
def SameEnd (e : Env) (d : Server) (g : ℕ) (a b : Cut) : Prop :=
  (serveAll e d (frames g 0 a)).1.c = (serveAll e d (frames g 0 b)).1.c ∧
    commits (serveAll e d (frames g 0 a)).2 = commits (serveAll e d (frames g 0 b)).2

theorem Cut.bytes_cons (x : List UInt8 × List UInt8) (cut : Cut) : Cut.bytes (x :: cut) = x.1 ++ Cut.bytes cut := by
  simp [Cut.bytes]

/-! ## States between requests -/

theorem loop_busy (e : Env) (c : RamNvCtl) {s : SyncState} (buf : List UInt8) (h : s.ofst = 0)
    (hb : s.syncBusy = true) :
    (loop e c s buf).s.syncBusy = true ∨ (loop e c s buf).s.syncState = .head := by
  refine loop_rule e (P := fun _ s _ res => s.syncBusy = true → res.s.syncBusy = true ∨ res.s.syncState = .head)
    ?_ ?_ c s buf h hb
  · exact fun c s _ hb => Or.inl hb
  · intro c s buf g ho hbuf ht hofst ih hb
    have hg : g.s.syncBusy = true := by cases ht <;> exact hb
    unfold afterGet
    cases hret : g.ret with
    | next => exact ih hret hg
    | cont => exact Or.inl hg
    | fail => right; simp only [syncReset]; split_ifs <;> rfl
    | done => exact Or.inr rfl

/-- between requests the analyzer waits for a HEAD -/
theorem Reached.idle {s : SyncState} (h : Reached s) : s.syncBusy = false → s.syncState = .head := by
  induction h with
  | init s => exact fun _ => rfl
  | packet e c ps buf h ih =>
    rename_i s
    by_cases hps : ps = .start ∨ ps = .cont ∧ s.syncBusy = true
    · obtain ⟨es, hon, -⟩ := onPacket_loop e c buf hps
      have hbusy := loop_busy e (entryCtl c s ps) buf (entryState_ofst ps h.ofst) rfl
      rw [hon]
      exact fun hb => hbusy.resolve_left (by simpa [Result.after] using hb)
    · cases ps with
      | start => exact absurd (Or.inl rfl) hps
      | cont =>
        have hb : s.syncBusy = false := by simpa using hps
        simpa [onPacket, hb] using ih
      | skip => exact ih
      | fail => intro _; simp only [onPacket, syncReset]; split_ifs <;> rfl

/-- a CONTINUE while a request is in progress goes straight to the loop -/
theorem onPacket_busy (e : Env) (c : RamNvCtl) {s : SyncState} (buf : List UInt8) (hbusy : s.syncBusy = true) :
    onPacket e c s .cont buf = loop e c s buf := by
  have hsame : { s with syncBusy := true } = s := by rw [← hbusy]
  simp [onPacket, hbusy, hsame]

/-! ## The server on the frames of a group -/

/-- the last packet was packet k of group g -/
def InGroup (g k : ℕ) (p : PacketCtl) : Prop := p.idxGrp = g % 2 ^ 32 ∧ p.idxSub = k % 2 ^ 32

theorem serve_start (e : Env) (d : Server) {g : ℕ} {x : List UInt8 × List UInt8}
    (hx : x.1.length + x.2.length = PACKETSIZE) (hg : d.p.idxGrp ≠ g % 2 ^ 32) :
    ∃ p', serve e d (.got (frame g 0 x.1 x.2)) = (⟨(onPacket e d.c d.s .start x.1).ctl,
      (onPacket e d.c d.s .start x.1).s, p'⟩, (onPacket e d.c d.s .start x.1).effs) ∧ InGroup g 0 p' := by
  obtain ⟨h1, h2, h3, h4⟩ := (getPacket_frame g 0 x.1 x.2 d.p hx).2 hg rfl
  refine ⟨_, ?_, h2, h3⟩
  simp only [serve, h1, h4, reduceCtorEq, if_false]

theorem serve_cont (e : Env) (d : Server) {g k : ℕ} {x : List UInt8 × List UInt8}
    (hx : x.1.length + x.2.length = PACKETSIZE) (hg : InGroup g k d.p) :
    ∃ p', serve e d (.got (frame g (k + 1) x.1 x.2)) = (⟨(onPacket e d.c d.s .cont x.1).ctl,
      (onPacket e d.c d.s .cont x.1).s, p'⟩, (onPacket e d.c d.s .cont x.1).effs) ∧ InGroup g (k + 1) p' := by
  obtain ⟨h1, h2, h3, h4⟩ := (getPacket_frame g (k + 1) x.1 x.2 d.p hx).1 hg.1 (by rw [hg.2]; omega)
  refine ⟨_, ?_, h2.trans hg.1, h3⟩
  simp only [serve, h1, h4, reduceCtorEq, if_false]

/-- packets after the end of the request, with nothing in them -/
theorem run_rest (e : Env) {g : ℕ} (cut : Cut) : ∀ (k : ℕ) (d : Server), InGroup g k d.p → d.s.syncBusy = false →
    Cut.bytes cut = [] → (∀ x ∈ cut, x.1.length + x.2.length = PACKETSIZE) →
    (serveAll e d (frames g (k + 1) cut)).1.c = d.c ∧ commits (serveAll e d (frames g (k + 1) cut)).2 = [] := by
  induction cut with
  | nil => intro k d _ _ _ _; exact ⟨rfl, rfl⟩
  | cons x cut ih =>
    intro k d hg hb hbytes hpad
    rw [Cut.bytes_cons, List.append_eq_nil_iff] at hbytes
    obtain ⟨p', hserve, hg'⟩ := serve_cont e d (hpad x List.mem_cons_self) hg
    have hon : onPacket e d.c d.s .cont x.1 = ⟨d.c, d.s, [.rsp 0], .noHead⟩ := by simp [onPacket, hb]
    rw [hon] at hserve
    obtain ⟨h1, h2⟩ := ih (k + 1) ⟨d.c, d.s, p'⟩ hg' hb hbytes.2 fun y hy => hpad y (List.mem_cons_of_mem _ hy)
    simp only [frames, serveAll, hserve]
    exact ⟨h1, by rw [commits_append, h2]; rfl⟩

/-- what the packets after packet k make of the rest l of a request, when they hold all of it -/
def PiecesEnd (e : Env) (g : ℕ) (cut : Cut) : Prop :=
  ∀ (k o : ℕ) (d : Server) (l : Left), At d.c d.s l → d.s.syncBusy = true → InGroup g k d.p → Cut.bytes cut = l.bytes →
    (∀ x ∈ cut, x.1.length + x.2.length = PACKETSIZE) →
    (∀ j, ¬ Inside (l.starts o) (o + (Cut.bytes (cut.take j)).length)) →
    (serveAll e d (frames g (k + 1) cut)).1.c = (backupData e (l.received d.c d.s) (l.id d.c d.s)).1 ∧
      commits (serveAll e d (frames g (k + 1) cut)).2 = [l.id d.c d.s]

/-- one piece, and then the others -/
theorem piece_then {e : Env} {g k o : ℕ} {c : RamNvCtl} {s : SyncState} {l : Left} {x : List UInt8 × List UInt8}
    {cut : Cut} {p' : PacketCtl} (ih : PiecesEnd e g cut) (hat : At c s l) (hbusy : s.syncBusy = true)
    (hg : InGroup g k p') (hb : Cut.bytes (x :: cut) = l.bytes)
    (hpad : ∀ y ∈ cut, y.1.length + y.2.length = PACKETSIZE)
    (hal : ∀ j, ¬ Inside (l.starts o) (o + (Cut.bytes ((x :: cut).take j)).length)) :
    (serveAll e ⟨(loop e c s x.1).ctl, (loop e c s x.1).s, p'⟩ (frames g (k + 1) cut)).1.c =
        (backupData e (l.received c s) (l.id c s)).1 ∧
      commits (loop e c s x.1).effs ++
        commits (serveAll e ⟨(loop e c s x.1).ctl, (loop e c s x.1).s, p'⟩ (frames g (k + 1) cut)).2 = [l.id c s] := by
  have hin : ¬ Inside (l.starts o) (o + x.1.length) := by simpa [Cut.bytes] using hal 1
  rcases loop_left e l c s o x.1 (Cut.bytes cut) hat (by rw [← hb, Cut.bytes_cons]) hin with ⟨hq, ha⟩ | ⟨-, l', hw⟩
  · -- the request ends with this packet
    obtain ⟨h1, h2⟩ := run_rest e cut k ⟨_, _, p'⟩ hg ha.idle hq hpad
    exact ⟨h1.trans ha.ctl, by rw [ha.commits, h2]; rfl⟩
  · -- the rest of the request is in the packets that follow
    have hal' : ∀ j, ¬ Inside (l'.starts (o + x.1.length)) (o + x.1.length + (Cut.bytes (cut.take j)).length) := by
      rintro j ⟨t, ht, h1, h2⟩
      refine hal (j + 1) ⟨t, hw.starts o ht, ?_, ?_⟩ <;>
        simp only [List.take_succ_cons, Cut.bytes_cons, List.length_append] <;> omega
    obtain ⟨h1, h2⟩ := ih k (o + x.1.length) ⟨_, _, p'⟩ l' hw.at' (hw.busy.trans hbusy) hg hw.bytes.symm hpad hal'
    refine ⟨h1.trans ?_, ?_⟩
    · rw [hw.received, hw.id]
    · rw [hw.commits, h2, hw.id]; rfl

theorem run_pieces (e : Env) (g : ℕ) (cut : Cut) : PiecesEnd e g cut := by
  induction cut with
  | nil => intro k o d l hat _ _ hb; exact absurd hb.symm (at_bytes hat)
  | cons x cut ih =>
    intro k o d l hat hbusy hg hb hpad hal
    obtain ⟨p', hserve, hg'⟩ := serve_cont e d (hpad x List.mem_cons_self) hg
    rw [onPacket_busy e d.c x.1 hbusy] at hserve
    simp only [frames, serveAll, hserve, commits_append]
    exact piece_then ih hat hbusy hg' hb (fun y hy => hpad y (List.mem_cons_of_mem _ hy)) hal

/-- the analyzer at the START of a group is about to read the request -/
theorem entry_at {c : RamNvCtl} {s : SyncState} {r : Req} (hs : Reached s) (hr : r.WellFormed c)
    (hsz : (c.part (r.id c)).size < 2 ^ 32) : At (entryCtl c s .start) (entryState s .start) (.head r) := by
  have hid : r.id (entryCtl c s .start) = r.id c := by simp only [Req.id, getCtlId_entryCtl]
  obtain ⟨h1, h2, h3, h4⟩ := hr
  refine ⟨entryState_ofst _ hs.ofst, ?_, ?_, h1, h2, ?_, ?_⟩
  · simpa [Left.id, hid, PartCtrl.size, entryCtl_sctNum] using hsz
  · by_cases hb : s.syncBusy = true
    · simp [entryState, hb, syncInit]
    · simpa [entryState, hb] using hs.idle (by simpa using hb)
  · rwa [hid]
  · rwa [hid, entryCtl_sctNum]

/-- **A request in pieces**: cut anywhere but inside a token, it ends as if it were received whole -/
theorem run_request (e : Env) {d : Server} {g : ℕ} {r : Req} {cut : Cut} (hs : Reached d.s)
    (hg : d.p.idxGrp ≠ g % 2 ^ 32) (hr : r.WellFormed d.c) (hsz : (d.c.part (r.id d.c)).size < 2 ^ 32)
    (hc : Cutting r cut) (ha : Aligned r cut) :
    (serveAll e d (frames g 0 cut)).1.c =
        (backupData e (receive (r.id d.c) (entryCtl d.c d.s .start) r.bodies) (r.id d.c)).1 ∧
      commits (serveAll e d (frames g 0 cut)).2 = [r.id d.c] := by
  have hat := entry_at hs hr hsz
  have hid : r.id (entryCtl d.c d.s .start) = r.id d.c := by simp only [Req.id, getCtlId_entryCtl]
  cases cut with
  | nil => exact absurd hc.1.symm (at_bytes hat)
  | cons x cut =>
    obtain ⟨p', hserve, hg'⟩ := serve_start e d (hc.2 x List.mem_cons_self) hg
    obtain ⟨es, hon, -, -, hes, -⟩ := onPacket_loop e d.c x.1 (Or.inl (Eq.refl PacketState.start))
    have hal : ∀ j, ¬ Inside (Left.starts 0 (.head r)) (0 + (Cut.bytes ((x :: cut).take j)).length) := by
      intro j
      simpa [Left.starts, Req.tokenStarts] using ha j
    have := piece_then (run_pieces e g cut) hat rfl hg' hc.1 (fun y hy => hc.2 y (List.mem_cons_of_mem _ hy)) hal
    rw [hon] at hserve
    simp only [frames, serveAll, hserve, Result.after, commits_append, hes, List.nil_append]
    simpa only [Left.received, Left.id, hid] using this

/-! ## Packets shorter than a token -/

theorem loop_crumb (e : Env) (c : RamNvCtl) {s : SyncState} {p : List UInt8} (ho : s.ofst = 0)
    (hs : s.syncState = .head) (hp : p.length < 20) :
    (loop e c s p).ctl = c ∧ (loop e c s p).s = s ∧ commits (loop e c s p).effs = [] := by
  by_cases h0 : p.length = 0
  · rw [List.length_eq_zero_iff.1 h0, loop_nil]
    exact ⟨rfl, rfl, rfl⟩
  · rw [loop_eq, if_neg h0, syncGet_short c ho (by simp [hs]) hp h0]
    exact ⟨rfl, rfl, rfl⟩

theorem run_crumbs (e : Env) (g : ℕ) (cut : Cut) : ∀ (k : ℕ) (d : Server), d.s.ofst = 0 → d.s.syncState = .head →
    d.s.syncBusy = true → InGroup g k d.p → (∀ x ∈ cut, x.1.length + x.2.length = PACKETSIZE ∧ x.1.length < 20) →
    commits (serveAll e d (frames g (k + 1) cut)).2 = [] := by
  induction cut with
  | nil => intro k d _ _ _ _ _; rfl
  | cons x cut ih =>
    intro k d ho hs hbusy hg hcut
    obtain ⟨hpad, hlt⟩ := hcut x List.mem_cons_self
    obtain ⟨p', hserve, hg'⟩ := serve_cont e d hpad hg
    obtain ⟨h1, h2, h3⟩ := loop_crumb e d.c ho hs hlt
    rw [onPacket_busy e d.c x.1 hbusy, h1, h2] at hserve
    simp only [frames, serveAll, hserve, commits_append, h3, List.nil_append]
    exact ih (k + 1) ⟨d.c, d.s, p'⟩ ho hs hbusy hg' fun y hy => hcut y (List.mem_cons_of_mem _ hy)

/-- the stream in packets of one byte -/
def crumbs (r : Req) : Cut := r.bytes.map fun b => ([b], List.replicate (PACKETSIZE - 1) 0)

theorem crumbs_frame {r : Req} {x : List UInt8 × List UInt8} (hx : x ∈ crumbs r) :
    x.1.length + x.2.length = PACKETSIZE ∧ x.1.length < 20 := by
  obtain ⟨b, -, rfl⟩ := List.mem_map.1 hx
  simp only [List.length_singleton, List.length_replicate]
  decide

theorem crumbs_cutting (r : Req) : Cutting r (crumbs r) := by
  refine ⟨?_, fun x hx => (crumbs_frame hx).1⟩
  unfold crumbs
  induction r.bytes with
  | nil => rfl
  | cons b bytes ih => rw [List.map_cons, Cut.bytes_cons, ih]; rfl

/-- a stream in packets of one byte is never accepted -/
theorem crumbs_refused (e : Env) {d : Server} {g : ℕ} {r : Req} (hs : Reached d.s) (hg : d.p.idxGrp ≠ g % 2 ^ 32)
    (hr : r.WellFormed d.c) (hsz : (d.c.part (r.id d.c)).size < 2 ^ 32) :
    commits (serveAll e d (frames g 0 (crumbs r))).2 = [] := by
  have hcut : ∀ x ∈ crumbs r, x.1.length + x.2.length = PACKETSIZE ∧ x.1.length < 20 := fun x hx => crumbs_frame hx
  have hat := entry_at hs hr hsz
  generalize crumbs r = cut at hcut
  cases cut with
  | nil => rfl
  | cons x cut =>
    obtain ⟨hpad, hlt⟩ := hcut x List.mem_cons_self
    obtain ⟨p', hserve, hg'⟩ := serve_start e d hpad hg
    obtain ⟨es, hon, -, -, hes, -⟩ := onPacket_loop e d.c x.1 (Or.inl (Eq.refl PacketState.start))
    obtain ⟨h1, h2, h3⟩ := loop_crumb e (entryCtl d.c d.s .start) hat.1 hat.2.2.1 hlt
    rw [hon] at hserve
    simp only [frames, serveAll, hserve, Result.after, commits_append, hes, h1, h2, h3, List.nil_append]
    exact run_crumbs e g cut 0 ⟨_, _, p'⟩ hat.1 hat.2.2.1 rfl hg' fun y hy => hcut y (List.mem_cons_of_mem _ hy)

/-! ## Independence -/

/-- **Fragmentation.** For every well-formed request stream, sent in a new group to a server between any packets: any
two cuttings of it in which no packet ends inside a token end in the same buffers, tables and outcome; and against each
such cutting there is another cutting of the same stream that does not. -/
theorem fragmentation_independent (e : Env) (d : Server) (g : ℕ) (r : Req) (hs : Reached d.s)
    (hg : d.p.idxGrp ≠ g % 2 ^ 32) (hr : r.WellFormed d.c) (hsz : (d.c.part (r.id d.c)).size < 2 ^ 32) :
    (∀ a b, Cutting r a → Cutting r b → Aligned r a → Aligned r b → SameEnd e d g a b) ∧
    (∀ a, Cutting r a → Aligned r a → ∃ b, Cutting r b ∧ ¬ SameEnd e d g a b) := by
  constructor
  · intro a b ha hb hla hlb
    obtain ⟨a1, a2⟩ := run_request e hs hg hr hsz ha hla
    obtain ⟨b1, b2⟩ := run_request e hs hg hr hsz hb hlb
    exact ⟨a1.trans b1.symm, a2.trans b2.symm⟩
  · intro a ha hla
    refine ⟨crumbs r, crumbs_cutting r, fun hsame => ?_⟩
    have haccept := (run_request e hs hg hr hsz ha hla).2
    have hrefuse := crumbs_refused e hs hg hr hsz
    rw [← hsame.2, haccept] at hrefuse
    exact absurd hrefuse (by simp)

/-- a request without a BODY: HEAD, TAIL -/
def bareReq : Req := ⟨token 0 0 1 512 0, [], token 2 1 1 0 0⟩

/-- a packet that holds l, in a full frame -/
def piece (l : List UInt8) : List UInt8 × List UInt8 := (l, List.replicate (PACKETSIZE - l.length) 0)

def bareServer : Server := serverStart (initBuf (fun _ => some fun _ => 0) oneSectorCfg) fun _ => 0

/-- a request with data in one packet, and in two with the cut inside the data -/
def dataWhole : Cut := [piece oneSector.bytes]

def dataHalves : Cut := [piece (oneSector.bytes.take 300), piece (oneSector.bytes.drop 300)]

theorem aligned_of_le {r : Req} {cut : Cut}
    (h : ∀ j ≤ cut.length, ¬ Inside r.tokenStarts (Cut.bytes (cut.take j)).length) : Aligned r cut := by
  intro j
  rcases le_total j cut.length with hj | hj
  · exact h j hj
  · rw [List.take_of_length_le hj, ← List.take_length (l := cut)]
    exact h cut.length (le_refl _)

theorem fragmentation_independent_data : SameEnd normal bareServer 0 dataWhole dataHalves :=
  (fragmentation_independent normal bareServer 0 oneSector (.init _) (by decide) (by decide +kernel)
    (by decide +kernel)).1 dataWhole dataHalves ⟨by decide +kernel, by decide +kernel⟩
    ⟨by decide +kernel, by decide +kernel⟩ (aligned_of_le (by decide +kernel)) (aligned_of_le (by decide +kernel))

/-- **A cut inside a token**: the request without a BODY is accepted when it comes in one packet, and is not when it is
cut after ten bytes of its HEAD -/
theorem fragmentation_dependent :
    Cutting bareReq [piece bareReq.bytes] ∧
      Cutting bareReq [piece (bareReq.bytes.take 10), piece (bareReq.bytes.drop 10)] ∧
      ¬ SameEnd normal bareServer 0 [piece bareReq.bytes]
        [piece (bareReq.bytes.take 10), piece (bareReq.bytes.drop 10)] := by
  refine ⟨⟨by decide +kernel, by decide +kernel⟩, ⟨by decide +kernel, by decide +kernel⟩, fun h => ?_⟩
  have hc := h.2
  revert hc
  decide +kernel

end SprdDevice.NvItem
