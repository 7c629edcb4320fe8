/-
The command server of slog (`slog.c`): the accept loop (`command_handler`) and the threads it starts (`handle_request`).

- Connections and threads are numbered as they come; `table` says which connection a descriptor of the process is.
  `accept` gives any descriptor that is not in use.
- The accept loop hands a thread the address of its own `client_sock`. A step is what one thread does between two points
  where another can see a difference: the write of `client_sock`, `pthread_create`, the thread's read of `client_sock`,
  and each call on the socket.
- What the work of a command gives (`Work`) is any value. What `recv_socket` gives on a connection, its result and the
  buffer behind it, is the connection's `request`; a second receiver of one connection gets anything.
- `reload` raises SIGTERM; a run ends where the signal is delivered.

A thread may find another connection in `client_sock` than the one it was started for. And after RELOAD a thread goes
through the reply and the `close` a second time with a descriptor that may be somebody else's by then.

Results: `step_inv`, and `one_answer` with the two runs of `one_answer_broken`.
-/
import Mathlib.Tactic
import SprdDevice.Lib.Run

namespace SprdDevice.Slog

open SprdDevice.Run

/-! ## Commands -/

/-- `CTRL_CMD_TYPE_` -/
inductive CmdType where
  | reload
  | snap
  | snapAll
  | exec
  | on
  | off
  | query
  | clear
  | dump
  | screen
  | hookModem
  | rsp
  | other (type : ℤ)
deriving DecidableEq, Repr

structure SlogCmd where
  type : CmdType
  content : String
deriving DecidableEq, Repr

/-- what the work of a command gives: the result of its function, the configuration of `gen_config_string`, whether
a screenshot is taken at all, and what is received where the connection's command has been taken already -/
structure Work where
  ret : ℤ
  config : String
  screenshot : Bool
  received : ℤ × SlogCmd
deriving DecidableEq, Repr

/-- the switch of `handle_request` -/
def dispatch (ret : ℤ) (cmd : SlogCmd) (w : Work) : ℤ × SlogCmd :=
  match cmd.type with
  | .snap | .snapAll | .off | .clear | .dump => (w.ret, cmd)
  | .exec | .on => (-1, cmd)
  | .query => (w.ret, { cmd with content := w.config })
  | .hookModem => (0, cmd)
  | .screen => (if w.screenshot then w.ret else ret, cmd)
  | .reload | .rsp | .other _ => (ret, cmd)

/-- what `handle_request` sends behind its switch -/
def reply (ret : ℤ) (cmd : SlogCmd) : SlogCmd :=
  { type := .rsp
    content := if cmd.content = "" then (if ret ≠ 0 then "FAIL" else "OK") else cmd.content }

/-- the answer to RELOAD -/
def reloadReply : SlogCmd := { type := .rsp, content := "OK" }

/-- r answers the command that was received with result ret -/
def Answers (ret : ℤ) (cmd r : SlogCmd) : Prop :=
  if cmd.type = .reload then r = reloadReply
  else ∃ w, r = reply (dispatch ret cmd w).1 (dispatch ret cmd w).2

/-! ## Model -/

structure Conn where
  /-- the result of `recv_socket` and the command behind it -/
  request : ℤ × SlogCmd
  receivers : List ℕ
  responses : List SlogCmd
  closes : ℕ
deriving DecidableEq, Repr

/-- where a thread in `handle_request` is, with its `client_sock`, `ret` and `cmd` -/
inductive Thread where
  /-- before it reads the accept loop's variable -/
  | started
  /-- before `recv_socket` -/
  | copied (sock : ℤ)
  /-- before the `close` of a failed receive -/
  | failed (sock : ℤ)
  /-- before the `send_socket` of RELOAD -/
  | reloading (sock ret : ℤ) (cmd : SlogCmd)
  /-- before the `close` of RELOAD -/
  | replied (sock ret : ℤ) (cmd : SlogCmd)
  /-- before the switch -/
  | received (sock ret : ℤ) (cmd : SlogCmd)
  /-- before the `send_socket` behind the switch -/
  | answering (sock : ℤ) (cmd : SlogCmd)
  /-- before the last `close` -/
  | closing (sock : ℤ)
  | done
deriving DecidableEq, Repr

/-- the descriptor a thread has in hand -/
def Thread.sock : Thread → Option ℤ
  | .copied sock | .failed sock | .reloading sock _ _ | .replied sock _ _ | .received sock _ _ | .answering sock _
  | .closing sock => some sock
  | .started | .done => none

structure Server where
  /-- the variable of the accept loop -/
  clientSock : ℤ
  /-- between `accept` and `pthread_create` -/
  creating : Bool
  threads : ℕ
  thread : ℕ → Thread
  conns : ℕ
  conn : ℕ → Conn
  table : ℤ → Option ℕ

def start : Server where
  clientSock := 0
  creating := false
  threads := 0
  thread := fun _ => .done
  conns := 0
  conn := fun _ => { request := (0, reloadReply), receivers := [], responses := [], closes := 0 }
  table := fun _ => none

inductive Event where
  | accept (sock : ℕ) (request : ℤ × SlogCmd)
  | acceptFailed
  | create
  | createFailed
  | thread (t : ℕ) (w : Work)
deriving DecidableEq, Repr

def Server.goto (s : Server) (t : ℕ) (p : Thread) : Server := { s with thread := Function.update s.thread t p }

def Server.receive (s : Server) (c t : ℕ) : Server :=
  { s with conn := Function.update s.conn c { s.conn c with receivers := (s.conn c).receivers ++ [t] } }

/-- `send_socket` -/
def Server.send (s : Server) (sock : ℤ) (cmd : SlogCmd) : Server :=
  match s.table sock with
  | none => s
  | some c =>
    if 0 < sock then
      { s with conn := Function.update s.conn c { s.conn c with responses := (s.conn c).responses ++ [cmd] } }
    else s

def Server.close (s : Server) (sock : ℤ) : Server :=
  match s.table sock with
  | none => s
  | some c =>
    { s with
      conn := Function.update s.conn c { s.conn c with closes := (s.conn c).closes + 1 }
      table := Function.update s.table sock none }

/-- `handle_request`, its next step -/
def threadStep (s : Server) (t : ℕ) (w : Work) : Server :=
  match s.thread t with
  | .started => s.goto t (.copied s.clientSock)
  | .copied sock =>
    match s.table sock with
    | none => s.goto t (.failed sock)
    | some c =>
      let r := if (s.conn c).receivers = [] then (s.conn c).request else w.received
      if r.1 < 0 then (s.receive c t).goto t (.failed sock)
      else if r.2.type = .reload then (s.receive c t).goto t (.reloading sock r.1 reloadReply)
      else (s.receive c t).goto t (.received sock r.1 r.2)
  | .failed sock => (s.close sock).goto t .done
  | .reloading sock ret cmd => (s.send sock cmd).goto t (.replied sock ret cmd)
  -- `reload` comes next, and then the switch
  | .replied sock ret cmd => (s.close sock).goto t (.received sock ret cmd)
  | .received sock ret cmd =>
    s.goto t (.answering sock (reply (dispatch ret cmd w).1 (dispatch ret cmd w).2))
  | .answering sock cmd => (s.send sock cmd).goto t (.closing sock)
  | .closing sock => (s.close sock).goto t .done
  | .done => s

/-- `accept` with a descriptor that is not in use -/
def Server.accepted (s : Server) (sock : ℕ) (request : ℤ × SlogCmd) : Server :=
  { s with
    clientSock := sock
    creating := true
    conns := s.conns + 1
    conn := Function.update s.conn s.conns { request, receivers := [], responses := [], closes := 0 }
    table := Function.update s.table sock (some s.conns) }

/-- `pthread_create` -/
def Server.created (s : Server) : Server :=
  { s with creating := false, threads := s.threads + 1, thread := Function.update s.thread s.threads .started }

def step (s : Server) : Event → Server
  | .accept sock request => if s.creating ∨ s.table sock ≠ none then s else s.accepted sock request
  | .acceptFailed => if s.creating then s else { s with clientSock := -1 }
  | .create => if s.creating then s.created else s
  | .createFailed => { s with creating := false }
  | .thread t w => if t < s.threads then threadStep s t w else s

/-! ## What the server owes a connection -/

/-- received by one thread, answered once where a command came, closed once -/
structure Served (k : Conn) : Prop where
  receivers : k.receivers.length = 1
  closes : k.closes = 1
  answered : 0 ≤ k.request.1 → ∃ r, k.responses = [r] ∧ Answers k.request.1 k.request.2 r
  unanswered : k.request.1 < 0 → k.responses = []

structure AtMostOnce (k : Conn) : Prop where
  receivers : k.receivers.length ≤ 1
  closes : k.closes ≤ 1
  responses : k.responses.length ≤ 1
  own : ∀ r ∈ k.responses, Answers k.request.1 k.request.2 r

/-- no connection gets anything twice, and when no thread is at work every connection has got everything -/
def OneAnswer (s : Server) : Prop :=
  ∀ c < s.conns, AtMostOnce (s.conn c) ∧
    (s.creating = false → (∀ t < s.threads, s.thread t = .done) → Served (s.conn c))

/-- `client_sock` is written when every thread has read it, `pthread_create` succeeds, and `accept` gives a descriptor
that is not 0 and that no thread still has in hand -/
def Meets (s : Server) : Event → Prop
  | .accept sock _ => (∀ t < s.threads, s.thread t ≠ .started) ∧ sock ≠ 0 ∧
      ∀ t < s.threads, (s.thread t).sock ≠ some (sock : ℤ)
  | .acceptFailed => ∀ t < s.threads, s.thread t ≠ .started
  | .createFailed => False
  | .create | .thread _ _ => True

instance decidableMeets (s : Server) : (e : Event) → Decidable (Meets s e)
  | .accept sock _ => inferInstanceAs (Decidable ((∀ t < s.threads, s.thread t ≠ .started) ∧ sock ≠ 0 ∧
      ∀ t < s.threads, (s.thread t).sock ≠ some (sock : ℤ)))
  | .acceptFailed => inferInstanceAs (Decidable (∀ t < s.threads, s.thread t ≠ .started))
  | .createFailed => inferInstanceAs (Decidable False)
  | .create | .thread _ _ => inferInstanceAs (Decidable True)

/-! ## Invariant -/

structure Untouched (k : Conn) : Prop where
  receivers : k.receivers = []
  responses : k.responses = []
  closes : k.closes = 0

structure Taken (t : ℕ) (k : Conn) : Prop where
  receivers : k.receivers = [t]
  responses : k.responses = []
  closes : k.closes = 0

structure Answered (t : ℕ) (k : Conn) : Prop where
  receivers : k.receivers = [t]
  came : 0 ≤ k.request.1
  responses : ∃ r, k.responses = [r] ∧ Answers k.request.1 k.request.2 r
  closes : k.closes = 0

/-- the descriptor is the connection of the thread's own number -/
def Holds (s : Server) (t : ℕ) (sock : ℤ) : Prop := s.table sock = some t ∧ 0 < sock

theorem Holds.table {s : Server} {t : ℕ} {sock : ℤ} (h : Holds s t sock) : s.table sock = some t := h.1

theorem Holds.pos {s : Server} {t : ℕ} {sock : ℤ} (h : Holds s t sock) : 0 < sock := h.2

/-- what thread t has done with connection t so far; behind the `close` of RELOAD its descriptor is nobody's -/
def Stage (s : Server) (t : ℕ) : Thread → Prop
  | .started => s.creating = false ∧ Holds s t s.clientSock ∧ Untouched (s.conn t)
  | .copied sock => Holds s t sock ∧ Untouched (s.conn t)
  | .failed sock => Holds s t sock ∧ Taken t (s.conn t) ∧ (s.conn t).request.1 < 0
  | .reloading sock _ cmd => Holds s t sock ∧ Taken t (s.conn t) ∧ 0 ≤ (s.conn t).request.1 ∧
      Answers (s.conn t).request.1 (s.conn t).request.2 cmd
  | .replied sock _ _ => Holds s t sock ∧ Answered t (s.conn t)
  | .received sock ret cmd =>
      (Holds s t sock ∧ Taken t (s.conn t) ∧ 0 ≤ (s.conn t).request.1 ∧ cmd.type ≠ .reload ∧
        (s.conn t).request = (ret, cmd)) ∨ (s.table sock = none ∧ Served (s.conn t))
  | .answering sock cmd =>
      (Holds s t sock ∧ Taken t (s.conn t) ∧ 0 ≤ (s.conn t).request.1 ∧
        Answers (s.conn t).request.1 (s.conn t).request.2 cmd) ∨ (s.table sock = none ∧ Served (s.conn t))
  | .closing sock => (Holds s t sock ∧ Answered t (s.conn t)) ∨ (s.table sock = none ∧ Served (s.conn t))
  | .done => Served (s.conn t)

structure Inv (s : Server) : Prop where
  conns : s.conns = s.threads + if s.creating then 1 else 0
  stage : ∀ t < s.threads, Stage s t (s.thread t)
  created : s.creating = true → Holds s s.threads s.clientSock ∧ Untouched (s.conn s.threads)

theorem inv_start : Inv start where
  conns := rfl
  stage := fun t ht => absurd ht (Nat.not_lt_zero t)
  created := by
    intro h
    exact absurd h (by decide)

/-- what a stage depends on -/
theorem Stage.congr {s s' : Server} {t : ℕ} {p : Thread} (h : Stage s t p) (hconn : s'.conn t = s.conn t)
    (hheld : ∀ sock, s.table sock = some t → s'.table sock = some t)
    (hfree : ∀ sock, p.sock = some sock → s.table sock = none → s'.table sock = none)
    (hstarted : p = .started → s'.creating = s.creating ∧ s'.clientSock = s.clientSock) : Stage s' t p := by
  have hold : ∀ {sock}, Holds s t sock → Holds s' t sock := fun hs => ⟨hheld _ hs.table, hs.pos⟩
  cases p with
  | started =>
    obtain ⟨hc, hs, hu⟩ := h
    obtain ⟨hcreating, hsock⟩ := hstarted rfl
    refine ⟨hcreating.trans hc, ?_, hconn ▸ hu⟩
    rw [hsock]
    exact hold hs
  | copied sock =>
    obtain ⟨hs, hu⟩ := h
    exact ⟨hold hs, hconn ▸ hu⟩
  | failed sock =>
    obtain ⟨hs, hk⟩ := h
    exact ⟨hold hs, hconn ▸ hk⟩
  | reloading sock ret cmd =>
    obtain ⟨hs, hk⟩ := h
    exact ⟨hold hs, hconn ▸ hk⟩
  | replied sock ret cmd =>
    obtain ⟨hs, hk⟩ := h
    exact ⟨hold hs, hconn ▸ hk⟩
  | received sock ret cmd =>
    rcases h with ⟨hs, hk⟩ | ⟨hs, hk⟩
    · exact Or.inl ⟨hold hs, hconn ▸ hk⟩
    · exact Or.inr ⟨hfree sock rfl hs, hconn ▸ hk⟩
  | answering sock cmd =>
    rcases h with ⟨hs, hk⟩ | ⟨hs, hk⟩
    · exact Or.inl ⟨hold hs, hconn ▸ hk⟩
    · exact Or.inr ⟨hfree sock rfl hs, hconn ▸ hk⟩
  | closing sock =>
    rcases h with ⟨hs, hk⟩ | ⟨hs, hk⟩
    · exact Or.inl ⟨hold hs, hconn ▸ hk⟩
    · exact Or.inr ⟨hfree sock rfl hs, hconn ▸ hk⟩
  | done =>
    have hk : Served (s'.conn t) := hconn ▸ h
    exact hk

/-! ## What a thread's step leaves alone -/

/-- all but thread t and connection t is as it was -/
structure Frame (t : ℕ) (s s' : Server) : Prop where
  clientSock : s'.clientSock = s.clientSock
  creating : s'.creating = s.creating
  threads : s'.threads = s.threads
  conns : s'.conns = s.conns
  thread : ∀ t', t' ≠ t → s'.thread t' = s.thread t'
  conn : ∀ t', t' ≠ t → s'.conn t' = s.conn t'
  held : ∀ sock t', t' ≠ t → s.table sock = some t' → s'.table sock = some t'
  free : ∀ sock, s.table sock = none → s'.table sock = none

namespace Frame

variable {s s' s'' : Server} {t : ℕ}

theorem refl (s : Server) : Frame t s s :=
  ⟨rfl, rfl, rfl, rfl, fun _ _ => rfl, fun _ _ => rfl, fun _ _ _ h => h, fun _ h => h⟩

theorem trans (h : Frame t s s') (h' : Frame t s' s'') : Frame t s s'' where
  clientSock := h'.clientSock.trans h.clientSock
  creating := h'.creating.trans h.creating
  threads := h'.threads.trans h.threads
  conns := h'.conns.trans h.conns
  thread := fun t' ht => (h'.thread t' ht).trans (h.thread t' ht)
  conn := fun t' ht => (h'.conn t' ht).trans (h.conn t' ht)
  held := fun sock t' ht hs => h'.held sock t' ht (h.held sock t' ht hs)
  free := fun sock hs => h'.free sock (h.free sock hs)

theorem goto (s : Server) (t : ℕ) (p : Thread) : Frame t s (s.goto t p) :=
  { refl s with thread := fun _ ht => Function.update_of_ne ht _ _ }

theorem receive (s : Server) (t : ℕ) : Frame t s (s.receive t t) :=
  { refl s with conn := fun _ ht => Function.update_of_ne ht _ _ }

theorem send (cmd : SlogCmd) {sock : ℤ} (h : s.table sock = some t ∨ s.table sock = none) :
    Frame t s (s.send sock cmd) := by
  rcases h with h | h
  · simp only [Server.send, h]
    split_ifs with hpos
    · exact { refl s with conn := fun _ ht => Function.update_of_ne ht _ _ }
    · exact refl s
  · simp only [Server.send, h]
    exact refl s

theorem close {sock : ℤ} (h : s.table sock = some t ∨ s.table sock = none) : Frame t s (s.close sock) := by
  rcases h with h | h
  · simp only [Server.close, h]
    refine { refl s with conn := fun _ ht => Function.update_of_ne ht _ _, held := ?_, free := ?_ }
    · intro sock' t' ht hs
      have hne : sock' ≠ sock := by
        rintro rfl
        rw [h] at hs
        exact ht (Option.some.inj hs).symm
      simpa only [Function.update_of_ne hne] using hs
    · intro sock' hs
      by_cases heq : sock' = sock
      · subst heq
        exact Function.update_self _ _ _
      · simpa only [Function.update_of_ne heq] using hs
  · simp only [Server.close, h]
    exact refl s

/-- the stage of another thread stays -/
theorem stage (h : Frame t s s') {t' : ℕ} (ht : t' ≠ t) {p : Thread} (hp : Stage s t' p) : Stage s' t' p :=
  hp.congr (h.conn t' ht) (fun sock hs => h.held sock t' ht hs) (fun sock _ hs => h.free sock hs)
    fun _ => ⟨h.creating, h.clientSock⟩

end Frame

/-! ## The thread's own stage -/

section Own

variable {s : Server} {t : ℕ} {sock : ℤ}

theorem Stage.of_goto {p : Thread} (h : Stage s t p) : Stage (s.goto t p) t ((s.goto t p).thread t) := by
  have hp : (s.goto t p).thread t = p := Function.update_self _ _ _
  rw [hp]
  cases p <;> exact h

theorem send_none (h : s.table sock = none) (cmd : SlogCmd) : s.send sock cmd = s := by
  simp only [Server.send, h]

theorem close_none (h : s.table sock = none) : s.close sock = s := by
  simp only [Server.close, h]

theorem Holds.send (h : Holds s t sock) (cmd : SlogCmd) : Holds (s.send sock cmd) t sock := by
  refine ⟨?_, h.pos⟩
  simp only [Server.send, h.table, if_pos h.pos]

/-- the answer goes to the connection -/
theorem Taken.send (hk : Taken t (s.conn t)) (h : Holds s t sock) (hret : 0 ≤ (s.conn t).request.1) {cmd : SlogCmd}
    (hcmd : Answers (s.conn t).request.1 (s.conn t).request.2 cmd) : Answered t ((s.send sock cmd).conn t) := by
  have hconn : (s.send sock cmd).conn t = { s.conn t with responses := (s.conn t).responses ++ [cmd] } := by
    simp only [Server.send, h.table, if_pos h.pos, Function.update_self]
  rw [hconn]
  refine ⟨hk.receivers, hret, ⟨cmd, ?_, hcmd⟩, hk.closes⟩
  rw [hk.responses, List.nil_append]

theorem Holds.close (h : Holds s t sock) :
    (s.close sock).conn t = { s.conn t with closes := (s.conn t).closes + 1 } ∧ (s.close sock).table sock = none := by
  simp only [Server.close, h.table, Function.update_self, and_self]

theorem Answered.close (hk : Answered t (s.conn t)) (h : Holds s t sock) : Served ((s.close sock).conn t) := by
  rw [h.close.1]
  refine ⟨by rw [hk.receivers]; rfl, by rw [hk.closes], fun _ => hk.responses, fun hneg => ?_⟩
  exact absurd hk.came (not_le.2 hneg)

theorem Taken.close (hk : Taken t (s.conn t)) (h : Holds s t sock) (hneg : (s.conn t).request.1 < 0) :
    Served ((s.close sock).conn t) := by
  rw [h.close.1]
  refine ⟨by rw [hk.receivers]; rfl, by rw [hk.closes], fun hret => ?_, fun _ => hk.responses⟩
  exact absurd hret (not_le.2 hneg)

theorem Untouched.receive (hk : Untouched (s.conn t)) :
    Taken t ((s.receive t t).conn t) ∧ ((s.receive t t).conn t).request = (s.conn t).request := by
  have hconn : (s.receive t t).conn t = { s.conn t with receivers := (s.conn t).receivers ++ [t] } :=
    Function.update_self _ _ _
  rw [hconn]
  refine ⟨⟨?_, hk.responses, hk.closes⟩, rfl⟩
  rw [hk.receivers, List.nil_append]

end Own

/-- a thread's step keeps it at its own connection -/
theorem threadStep_own {s : Server} {t : ℕ} (w : Work) (h : Stage s t (s.thread t)) :
    Frame t s (threadStep s t w) ∧ Stage (threadStep s t w) t ((threadStep s t w).thread t) := by
  unfold threadStep
  cases hp : s.thread t with
  | started =>
    rw [hp] at h
    obtain ⟨-, hs, hu⟩ := h
    have hstage : Stage s t (.copied s.clientSock) := ⟨hs, hu⟩
    exact ⟨Frame.goto _ _ _, hstage.of_goto⟩
  | copied sock =>
    rw [hp] at h
    obtain ⟨hs, hu⟩ := h
    obtain ⟨htaken, hreq⟩ := hu.receive
    have hold : Holds (s.receive t t) t sock := ⟨hs.table, hs.pos⟩
    have hframe : ∀ p, Frame t s ((s.receive t t).goto t p) := fun p => (Frame.receive s t).trans (Frame.goto _ t p)
    simp only [hs.table, if_pos hu.receivers]
    by_cases hneg : (s.conn t).request.1 < 0
    · rw [if_pos hneg]
      have hstage : Stage (s.receive t t) t (.failed sock) := ⟨hold, htaken, hreq ▸ hneg⟩
      exact ⟨hframe _, hstage.of_goto⟩
    · rw [if_neg hneg]
      have hret : 0 ≤ ((s.receive t t).conn t).request.1 := hreq ▸ not_lt.1 hneg
      by_cases hreload : (s.conn t).request.2.type = .reload
      · rw [if_pos hreload]
        have hans : Answers ((s.receive t t).conn t).request.1 ((s.receive t t).conn t).request.2 reloadReply := by
          rw [hreq, Answers, if_pos hreload]
        have hstage : Stage (s.receive t t) t (.reloading sock (s.conn t).request.1 reloadReply) :=
          ⟨hold, htaken, hret, hans⟩
        exact ⟨hframe _, hstage.of_goto⟩
      · rw [if_neg hreload]
        have hstage : Stage (s.receive t t) t (.received sock (s.conn t).request.1 (s.conn t).request.2) :=
          Or.inl ⟨hold, htaken, hret, hreload, hreq⟩
        exact ⟨hframe _, hstage.of_goto⟩
  | failed sock =>
    rw [hp] at h
    obtain ⟨hs, hk, hneg⟩ := h
    have hstage : Stage (s.close sock) t .done := hk.close hs hneg
    exact ⟨(Frame.close (Or.inl hs.table)).trans (Frame.goto _ _ _), hstage.of_goto⟩
  | reloading sock ret cmd =>
    rw [hp] at h
    obtain ⟨hs, hk, hret, hans⟩ := h
    have hstage : Stage (s.send sock cmd) t (.replied sock ret cmd) := ⟨hs.send cmd, hk.send hs hret hans⟩
    exact ⟨(Frame.send cmd (Or.inl hs.table)).trans (Frame.goto _ _ _), hstage.of_goto⟩
  | replied sock ret cmd =>
    rw [hp] at h
    obtain ⟨hs, hk⟩ := h
    have hstage : Stage (s.close sock) t (.received sock ret cmd) := Or.inr ⟨hs.close.2, hk.close hs⟩
    exact ⟨(Frame.close (Or.inl hs.table)).trans (Frame.goto _ _ _), hstage.of_goto⟩
  | received sock ret cmd =>
    rw [hp] at h
    have hstage : Stage s t (.answering sock (reply (dispatch ret cmd w).1 (dispatch ret cmd w).2)) := by
      rcases h with ⟨hs, hk, hret, hne, hreq⟩ | h
      · refine Or.inl ⟨hs, hk, hret, ?_⟩
        rw [hreq, Answers, if_neg hne]
        exact ⟨w, rfl⟩
      · exact Or.inr h
    exact ⟨Frame.goto _ _ _, hstage.of_goto⟩
  | answering sock cmd =>
    rw [hp] at h
    rcases h with ⟨hs, hk, hret, hans⟩ | ⟨hnone, hk⟩
    · have hstage : Stage (s.send sock cmd) t (.closing sock) := Or.inl ⟨hs.send cmd, hk.send hs hret hans⟩
      exact ⟨(Frame.send cmd (Or.inl hs.table)).trans (Frame.goto _ _ _), hstage.of_goto⟩
    · have hstage : Stage s t (.closing sock) := Or.inr ⟨hnone, hk⟩
      simp only [send_none hnone]
      exact ⟨Frame.goto _ _ _, hstage.of_goto⟩
  | closing sock =>
    rw [hp] at h
    rcases h with ⟨hs, hk⟩ | ⟨hnone, hk⟩
    · have hstage : Stage (s.close sock) t .done := hk.close hs
      exact ⟨(Frame.close (Or.inl hs.table)).trans (Frame.goto _ _ _), hstage.of_goto⟩
    · have hstage : Stage s t .done := hk
      simp only [close_none hnone]
      exact ⟨Frame.goto _ _ _, hstage.of_goto⟩
  | done =>
    simp only [hp]
    exact ⟨Frame.refl s, hp ▸ h⟩

/-! ## Every run -/

theorem inv_thread {s : Server} (hi : Inv s) {t : ℕ} (ht : t < s.threads) (w : Work) : Inv (threadStep s t w) := by
  obtain ⟨hframe, hstage⟩ := threadStep_own w (hi.stage t ht)
  refine ⟨?_, ?_, ?_⟩
  · rw [hframe.conns, hframe.threads, hframe.creating]
    exact hi.conns
  · intro t' ht'
    rw [hframe.threads] at ht'
    by_cases heq : t' = t
    · subst heq
      exact hstage
    · rw [hframe.thread t' heq]
      exact hframe.stage heq (hi.stage t' ht')
  · intro hc
    rw [hframe.creating] at hc
    obtain ⟨hs, hu⟩ := hi.created hc
    have hne : s.threads ≠ t := ht.ne'
    rw [hframe.threads, hframe.clientSock, hframe.conn _ hne]
    exact ⟨⟨hframe.held _ _ hne hs.table, hs.pos⟩, hu⟩

theorem inv_accepted {s : Server} (hi : Inv s) {sock : ℕ} {request : ℤ × SlogCmd}
    (hm : Meets s (.accept sock request)) (hc : s.creating = false) (hfree : s.table sock = none) :
    Inv (s.accepted sock request) := by
  obtain ⟨hstarted, hzero, hhand⟩ := hm
  have hconns : s.conns = s.threads := by
    have hconns := hi.conns
    rw [hc] at hconns
    simpa using hconns
  refine ⟨?_, ?_, ?_⟩
  · simp only [Server.accepted, hconns, if_true]
  · intro t ht
    change t < s.threads at ht
    refine (hi.stage t ht).congr ?_ ?_ ?_ ?_
    · exact Function.update_of_ne (by rw [hconns]; exact ht.ne) _ _
    · intro sock' hs
      have hne : sock' ≠ sock := by
        rintro rfl
        rw [hfree] at hs
        exact absurd hs (by simp)
      simpa only [Server.accepted, Function.update_of_ne hne] using hs
    · intro sock' hp hs
      have hne : sock' ≠ sock := by
        rintro rfl
        exact hhand t ht hp
      simpa only [Server.accepted, Function.update_of_ne hne] using hs
    · intro hp
      exact absurd hp (hstarted t ht)
  · intro _
    refine ⟨⟨?_, ?_⟩, ?_⟩
    · simp only [Server.accepted, Function.update_self, hconns]
    · simp only [Server.accepted]
      omega
    · have hconn : (s.accepted sock request).conn s.threads =
          { request, receivers := [], responses := [], closes := 0 } := by
        simp only [Server.accepted, hconns, Function.update_self]
      change Untouched ((s.accepted sock request).conn s.threads)
      rw [hconn]
      exact ⟨rfl, rfl, rfl⟩

theorem inv_created {s : Server} (hi : Inv s) (hc : s.creating = true) : Inv s.created := by
  obtain ⟨hs, hu⟩ := hi.created hc
  refine ⟨?_, ?_, ?_⟩
  · have hconns := hi.conns
    rw [hc, if_pos rfl] at hconns
    simpa only [Server.created, Bool.false_eq_true, if_false, Nat.add_zero] using hconns
  · intro t ht
    change t < s.threads + 1 at ht
    by_cases heq : t = s.threads
    · subst heq
      have hthread : s.created.thread s.threads = .started := Function.update_self _ _ _
      rw [hthread]
      exact ⟨rfl, hs, hu⟩
    · have hlt : t < s.threads := by omega
      have hthread : s.created.thread t = s.thread t := Function.update_of_ne heq _ _
      rw [hthread]
      refine (hi.stage t hlt).congr rfl (fun _ h => h) (fun _ _ h => h) fun hp => ?_
      -- a thread that has not read the variable yet excludes a second one
      have hstage := hi.stage t hlt
      rw [hp] at hstage
      exact absurd (hc.symm.trans hstage.1) (by decide)
  · intro hfalse
    exact absurd hfalse (by simp [Server.created])

theorem step_inv {s : Server} {e : Event} (hi : Inv s) (hm : Meets s e) : Inv (step s e) := by
  cases e with
  | accept sock request =>
    simp only [step]
    split_ifs with h
    · exact hi
    · rw [not_or, not_not, Bool.not_eq_true] at h
      exact inv_accepted hi hm h.1 h.2
  | acceptFailed =>
    simp only [step]
    split_ifs with h
    · exact hi
    · refine ⟨hi.conns, fun t ht => ?_, fun hc => absurd hc h⟩
      refine (hi.stage t ht).congr rfl (fun _ h => h) (fun _ _ h => h) fun hp => ?_
      exact absurd hp (hm t ht)
  | create =>
    simp only [step]
    split_ifs with h
    · exact inv_created hi h
    · exact hi
  | createFailed => exact absurd hm (by simp [Meets])
  | thread t w =>
    simp only [step]
    split_ifs with h
    · exact inv_thread hi h w
    · exact hi

theorem Untouched.atMostOnce {k : Conn} (h : Untouched k) : AtMostOnce k := by
  refine ⟨?_, ?_, ?_, ?_⟩
  · simp [h.receivers]
  · simp [h.closes]
  · simp [h.responses]
  · simp [h.responses]

theorem Taken.atMostOnce {t : ℕ} {k : Conn} (h : Taken t k) : AtMostOnce k := by
  refine ⟨?_, ?_, ?_, ?_⟩
  · simp [h.receivers]
  · simp [h.closes]
  · simp [h.responses]
  · simp [h.responses]

theorem Answered.atMostOnce {t : ℕ} {k : Conn} (h : Answered t k) : AtMostOnce k := by
  obtain ⟨r, hr, hans⟩ := h.responses
  refine ⟨?_, ?_, ?_, ?_⟩
  · simp [h.receivers]
  · simp [h.closes]
  · simp [hr]
  · simpa [hr] using hans

theorem Served.atMostOnce {k : Conn} (h : Served k) : AtMostOnce k := by
  by_cases hret : 0 ≤ k.request.1
  · obtain ⟨r, hr, hans⟩ := h.answered hret
    exact ⟨h.receivers.le, h.closes.le, by simp [hr], by simpa [hr] using hans⟩
  · have hr := h.unanswered (not_le.1 hret)
    exact ⟨h.receivers.le, h.closes.le, by simp [hr], by simp [hr]⟩

theorem Stage.atMostOnce {s : Server} {t : ℕ} {p : Thread} (h : Stage s t p) : AtMostOnce (s.conn t) := by
  cases p with
  | started => exact h.2.2.atMostOnce
  | copied sock => exact h.2.atMostOnce
  | failed sock => exact h.2.1.atMostOnce
  | reloading sock ret cmd => exact h.2.1.atMostOnce
  | replied sock ret cmd => exact h.2.atMostOnce
  | received sock ret cmd => exact h.elim (fun h => h.2.1.atMostOnce) fun h => h.2.atMostOnce
  | answering sock cmd => exact h.elim (fun h => h.2.1.atMostOnce) fun h => h.2.atMostOnce
  | closing sock => exact h.elim (fun h => h.2.atMostOnce) fun h => h.2.atMostOnce
  | done => exact Served.atMostOnce h

theorem Inv.oneAnswer {s : Server} (hi : Inv s) : OneAnswer s := by
  intro c hc
  have hconns := hi.conns
  by_cases hlt : c < s.threads
  · refine ⟨(hi.stage c hlt).atMostOnce, fun _ hdone => ?_⟩
    have hstage := hi.stage c hlt
    rw [hdone c hlt] at hstage
    exact hstage
  · by_cases hcreating : s.creating = true
    · rw [if_pos hcreating] at hconns
      have heq : c = s.threads := by omega
      subst heq
      exact ⟨(hi.created hcreating).2.atMostOnce, fun hfalse => absurd (hcreating.symm.trans hfalse) (by decide)⟩
    · rw [if_neg hcreating] at hconns
      exact absurd hc (by omega)

/-- **One answer per connection.** In every run in which `client_sock` is written only when every thread has read it,
no `pthread_create` fails, and `accept` gives no descriptor that a thread still has in hand, every connection is received
from by one thread, answered once and closed once -/
theorem one_answer (es : List Event) (h : Along step Meets start es) : OneAnswer (es.foldl step start) := by
  have hstep : ∀ s e, Inv s → Meets s e → Inv (step s e) := fun _ _ => step_inv
  exact (inv_of_along hstep inv_start h).oneAnswer

def on : SlogCmd := { type := .on, content := "" }

def quiet : Work := { ret := 0, config := "", screenshot := false, received := (0, on) }

def reload : SlogCmd := { type := .reload, content := "" }

/-- RELOAD and another command, whose threads take turns -/
def turnsRun : List Event :=
  [.accept 5 (2052, reload), .create, .thread 0 quiet, .thread 0 quiet, .accept 6 (2052, on), .create] ++
    (List.replicate 6 [.thread 1 quiet, .thread 0 quiet]).flatten

theorem one_answer_turnsRun : (∀ t < 2, (turnsRun.foldl step start).thread t = .done) ∧
    OneAnswer (turnsRun.foldl step start) :=
  ⟨by decide +kernel, one_answer turnsRun (by decide +kernel)⟩

/-- two clients close in time: the second `accept` comes before the first thread has read -/
def raceRun : List Event :=
  [.accept 5 (2052, on), .create, .accept 6 (2052, on), .create, .thread 0 quiet, .thread 1 quiet, .thread 0 quiet,
    .thread 1 quiet]

/-- RELOAD, and a client that is given its descriptor before the thread goes through the switch -/
def reloadRun : List Event :=
  [.accept 5 (2052, reload), .create] ++ List.replicate 4 (.thread 0 quiet) ++
    [.accept 5 (2052, on)] ++ List.replicate 2 (.thread 0 quiet)

theorem raceRun_receivers : ((raceRun.foldl step start).conn 1).receivers = [0, 1] := by decide +kernel

theorem reloadRun_conn : (reloadRun.foldl step start).conn 1 =
    { request := (2052, on), receivers := [], responses := [reloadReply], closes := 0 } := by
  decide +kernel

/-- Two threads receive from the second connection; a thread that reloads answers a connection it was not started for. -/
theorem one_answer_broken :
    ¬ OneAnswer (raceRun.foldl step start) ∧ ¬ OneAnswer (reloadRun.foldl step start) := by
  constructor
  · intro h
    have hmost := (h 1 (by decide +kernel)).1.receivers
    rw [raceRun_receivers] at hmost
    exact absurd hmost (by decide)
  · intro h
    have hown := (h 1 (by decide +kernel)).1.own
    rw [reloadRun_conn] at hown
    obtain ⟨w, hw⟩ := hown reloadReply List.mem_cons_self
    exact absurd hw (by simp [dispatch, reply, on, reloadReply])

end SprdDevice.Slog
