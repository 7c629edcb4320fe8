/-
The engineering service between its clients (`engservice.c`, with the descriptor table of `fdevent.c`): the accept
thread (`main`, `eng_event_reg`), the event loop (`appclient_event_func`, `modemclient_event_func`, `eng_event_unreg`),
clients that connect, ask and disconnect, and modem clients that answer.

- Connections are numbered as they are accepted; `table` says which connection a descriptor of the process is. `accept`
  takes the lowest free descriptor; the first `own` are the service's own.
- Both threads read into `eng_read_buf`. A step is one access of a thread to it, or one call that the other thread can
  see: a registration clears the buffer, waits for the name, takes it from the buffer and creates the event, and then
  fills a slot; a request or an answer is four steps (the buffer cleared, read into, taken apart, the result written); a
  removal is three (`fdevent_destroy`, which closes the descriptor; the slot; and the `close` of `eng_event_unreg`).
- `eng_write_buf` is used by the accept thread only as long as there is no monitor, and the loop is started behind the
  first registration, which is the monitor's.
- `readBuf` and `writeBuf` list the bytes from the start of the buffers, zero behind. A byte of an answer carries the
  connection that asked.
- A request carries the number of a descriptor: `inbox m` are the requests written to connection m and not yet
  answered. An answer is the text `%d;%s`, and a read of the modem's socket takes any piece of what has come, `stream m`.
- For the statements `written` has a pair for every byte of an answer, with the connection that asked and the one that
  got it, and `closed` a pair for every connection a removal closed.
- `FATAL` ends the process (`dead`); a text that leaves its buffer ends what the model knows (`overrun`).

Results: `step_inv` and `isolation`; `isolation_broken` has a run for each of the three ways in which it fails (the
descriptor of a request belongs to somebody else when it is answered; the second `close` of a removal; a name read over
an answer).
-/
import Mathlib.Tactic
import SprdDevice.Lib.Decimal
import SprdDevice.Lib.Run

namespace SprdDevice.EngService

open SprdDevice.Decimal SprdDevice.Run

/-! ## Model -/

/-- the event function a name is given -/
inductive Kind where
  | pc
  | modem
  | app
  | adrv
  | log
  | monitor
deriving DecidableEq, Repr

/-- what a descriptor of the process is -/
inductive Owner where
  | own
  | conn (c : ℕ)
deriving DecidableEq, Repr

/-- `fdevent`, known by its connection -/
structure FdEvent where
  fd : ℕ
  conn : ℕ
  kind : Kind
deriving DecidableEq, Repr

/-- `eng_client_info` of a slot in use -/
structure ClientInfo where
  fe : FdEvent
  type : ℤ
deriving DecidableEq, Repr

/-- where the accept thread is -/
inductive AcceptPc where
  | idle
  /-- in `eng_event_reg` -/
  | accepted (fd conn : ℕ)
  /-- in `eng_read`, `eng_read_buf` cleared -/
  | cleared (fd conn : ℕ)
  /-- before `clinet_info_getnametype` -/
  | named (fd conn : ℕ)
  /-- before `client_info_update` -/
  | created (info : ClientInfo)
deriving DecidableEq, Repr

/-- where the event loop is -/
inductive LoopPc where
  | idle
  /-- in `appclient_event_func` before `eng_read`, with the socket of the modem client -/
  | appCleared (fd conn : ℕ) (dest : Option ℕ)
  /-- before `setup_send_data` -/
  | appFilled (fd conn : ℕ) (dest : Option ℕ)
  /-- in `modemclient_event_func` before `eng_read` -/
  | modemCleared (fd conn : ℕ)
  /-- before `get_send_fd` -/
  | modemFilled (fd conn : ℕ)
  /-- before `eng_write` of `eng_write_buf` -/
  | modemWriting (dest : ℤ)
  /-- in `eng_event_unreg`, behind `fdevent_destroy` of the entry in the slot -/
  | destroyed (slot fd conn : ℕ)
  /-- before the `close` of `eng_event_unreg` -/
  | closing (fd conn : ℕ)
deriving DecidableEq, Repr

/-- an answer of the modem client -/
structure Answer where
  fd : ℕ
  data : List UInt8
  asker : ℕ
deriving DecidableEq, Repr

/-- bytes, those of an answer with the connection they are for -/
abbrev Text := List (UInt8 × Option ℕ)

/-- what lies in the modem's socket: answers, and what a read left of one -/
inductive Chunk where
  | answer (a : Answer)
  | rest (text : Text)
deriving DecidableEq, Repr

def tag (asker : ℕ) (l : List UInt8) : Text := l.map fun b => (b, some asker)

def plain (l : List UInt8) : Text := l.map fun b => (b, none)

/-- `eng_write2server`: `%d;%s` -/
def Answer.text (a : Answer) : Text := tag a.asker (decimal a.fd ++ 59 :: a.data)

def Chunk.text : Chunk → Text
  | .answer a => a.text
  | .rest l => l

/-- the string in a buffer -/
def upToNul (buf : Text) : Text := buf.takeWhile fun b => b.1 ≠ 0

/-- bytes read to the start of a buffer -/
def fill (buf got : Text) : Text := got ++ buf.drop got.length

structure Service where
  table : List (Option Owner)
  conns : ℕ
  gone : ℕ → Bool
  fdTable : ℕ → Option FdEvent
  fdTableMax : ℕ
  clientInfo : List (Option ClientInfo)
  monitorSvcFd : Option ℕ
  readBuf : Text
  writeBuf : Text
  accept : AcceptPc
  loop : LoopPc
  inbox : ℕ → List (ℕ × ℕ)
  stream : ℕ → List Chunk
  dead : Bool
  overrun : Bool
  written : List (ℕ × ℕ)
  closed : List (ℕ × ℕ)

/-- `ENG_MAX_CONNECT_NUM` -/
def engMaxConnectNum : ℕ := 60

/-- `ENG_MAX_RW_SIZE` -/
def engMaxRwSize : ℕ := 2048 - 20

/-- `ENG_MAX_CLIENT_NAME_LEN` -/
def engMaxClientNameLen : ℕ := 20

/-- "appclient" -/
def ENG_APPCLIENT : List UInt8 := [97, 112, 112, 99, 108, 105, 101, 110, 116]

/-- "pcclient" -/
def ENG_PCCLIENT : List UInt8 := [112, 99, 99, 108, 105, 101, 110, 116]

/-- "modem" -/
def ENG_MODEM : List UInt8 := [109, 111, 100, 101, 109]

/-- "adrvclient" -/
def ENG_ADRV : List UInt8 := [97, 100, 114, 118, 99, 108, 105, 101, 110, 116]

/-- "logclient" -/
def ENG_LOGECLIENT : List UInt8 := [108, 111, 103, 99, 108, 105, 101, 110, 116]

/-- "engmonitor" -/
def ENG_MONITOR : List UInt8 := [101, 110, 103, 109, 111, 110, 105, 116, 111, 114]

/-- "desterr" -/
def ENG_DESTERROR : List UInt8 := [100, 101, 115, 116, 101, 114, 114]

/-- "CMD:" -/
def CMD : List UInt8 := [67, 77, 68, 58]

/-- the service before its first client -/
def boot (own : ℕ) : Service where
  table := List.replicate own (some .own)
  conns := 0
  gone := fun _ => false
  fdTable := fun _ => none
  fdTableMax := 0
  clientInfo := List.replicate engMaxConnectNum none
  monitorSvcFd := none
  readBuf := []
  writeBuf := []
  accept := .idle
  loop := .idle
  inbox := fun _ => []
  stream := fun _ => []
  dead := false
  overrun := false
  written := []
  closed := []

def lowestFree (table : List (Option Owner)) : ℕ := table.findIdx Option.isNone

/-- the connection a descriptor is -/
def Service.conn (s : Service) (fd : ℕ) : Option ℕ :=
  match s.table[fd]? with
  | some (some (.conn c)) => some c
  | _ => none

/-- `close` -/
def Service.close (s : Service) (fd : ℕ) : Service := { s with table := s.table.set fd none }

/-- `close` in the removal of a connection -/
def Service.closeFor (s : Service) (fd removed : ℕ) : Service :=
  { s.close fd with closed := s.closed ++ ((s.conn fd).toList.map fun c => (removed, c)) }

/-- `accept` -/
def acceptConn (s : Service) : Service :=
  let fd := lowestFree s.table
  { s with
    table := if fd < s.table.length then s.table.set fd (some (.conn s.conns)) else s.table ++ [some (.conn s.conns)]
    conns := s.conns + 1
    accept := .accepted fd s.conns }

/-- `eng_event_can_reg` -/
def engEventCanReg (s : Service) : Bool := s.clientInfo.any Option.isNone

/-- `clinet_info_getnametype`: the name and the type; none when the name leaves `regname` -/
def clinetInfoGetnametype (input : List UInt8) : Option (List UInt8 × ℤ) :=
  match input.dropWhile (· ≠ 58) with
  | [] => if input.length < engMaxClientNameLen then some (input, 0) else none
  | _ :: type =>
    -- `strlen(input)-2` is unsigned
    if input.length < 2 ∨ engMaxClientNameLen ≤ input.length - 2 then none
    else some (input.take (input.length - 2), atoi type)

/-- `getclientfunc` -/
def getclientfunc (regname : List UInt8) : Option Kind :=
  if ENG_PCCLIENT <+: regname then some .pc
  else if ENG_MODEM <+: regname then some .modem
  else if ENG_APPCLIENT <+: regname then some .app
  else if ENG_ADRV <+: regname then some .adrv
  else if ENG_LOGECLIENT <+: regname then some .log
  else if ENG_MONITOR <+: regname then some .monitor
  else none

/-- the doubling of `fd_table` in `fdevent_register` -/
def growTable : ℕ → ℕ → ℕ → ℕ
  | 0, max, _ => max
  | fuel + 1, max, fd => if max ≤ fd then growTable fuel (2 * max) fd else max

/-- `fdevent_register` -/
def fdeventRegister (s : Service) (fe : FdEvent) : Service :=
  if s.fdTableMax ≤ fe.fd ∧ 32000 < fe.fd then { s with dead := true }
  else
    { s with
      fdTableMax := if s.fdTableMax ≤ fe.fd then growTable fe.fd (max s.fdTableMax 256) fe.fd else s.fdTableMax
      fdTable := Function.update s.fdTable fe.fd (some fe) }

/-- `eng_event_reg` up to `eng_read` -/
def regClear (s : Service) (fd c : ℕ) : Service :=
  if engEventCanReg s then { s with readBuf := [], accept := .cleared fd c } else { s with accept := .idle }

/-- its `eng_read`: none when it fails -/
def regRead (s : Service) (fd c : ℕ) : Option (List UInt8) → Service
  | none => { s.close fd with accept := .idle }
  | some got => { s with readBuf := fill s.readBuf (plain (got.take engMaxRwSize)), accept := .named fd c }

/-- `eng_event_reg` from `clinet_info_getnametype` to `fdevent_add` -/
def regCreate (s : Service) (fd c : ℕ) : Service :=
  match clinetInfoGetnametype ((upToNul s.readBuf).map Prod.fst) with
  | none => { s with overrun := true }
  | some (regname, type) =>
    if s.monitorSvcFd = none ∧ ¬ ENG_MONITOR <+: regname then
      { s.close fd with writeBuf := plain ENG_DESTERROR, accept := .idle }
    else
      match getclientfunc regname with
      | none => { s.close fd with accept := .idle }
      | some k =>
        { fdeventRegister s ⟨fd, c, k⟩ with
          monitorSvcFd := if k = .monitor then some fd else s.monitorSvcFd
          accept := .created ⟨⟨fd, c, k⟩, type⟩ }

/-- `client_info_update` -/
def clientInfoUpdate (s : Service) (info : ClientInfo) : Service :=
  { s with
    clientInfo := s.clientInfo.set (s.clientInfo.findIdx Option.isNone) (some info)
    accept := .idle }

/-- `client_info_gettype` -/
def clientInfoGettype (s : Service) (fd : ℕ) : ℤ :=
  ((s.clientInfo.findSome? fun e => e.filter fun i => i.fe.fd = fd).map ClientInfo.type).getD 0

/-- `client_info_get_socketid(ENG_MODEM)` -/
def modemSocketId (s : Service) : Option ℕ :=
  (s.clientInfo.findSome? fun e => e.filter fun i => i.fe.kind = .modem).map fun i => i.fe.fd

/-- `%d` -/
def decimalInt (z : ℤ) : List UInt8 := if z < 0 then 45 :: decimal z.natAbs else decimal z.natAbs

/-- `setup_send_data`: `%5d;%5d;%d;%s`, with any type -/
def setupSendText (fd : ℕ) (type : ℤ) (inbuf : Text) : Text :=
  plain (padded 5 (6 + 6 + 2 + inbuf.length) ++ 59 :: (padded 5 fd ++ 59 :: (decimalInt type ++ [59]))) ++ inbuf

/-- `appclient_event_func` behind its `eng_read` -/
def appSend (s : Service) (fd c : ℕ) (dest : Option ℕ) : Service :=
  match dest with
  | none => { s with writeBuf := plain ENG_DESTERROR, loop := .idle }
  | some d =>
    let inbuf := upToNul s.readBuf
    if engMaxRwSize ≤ inbuf.length then { s with overrun := true }
    else if CMD <+: inbuf.map Prod.fst then { s with writeBuf := [], loop := .idle }
    else
      let out := setupSendText fd (clientInfoGettype s fd) inbuf
      if engMaxRwSize ≤ out.length then { s with overrun := true }
      else
        { s with
          writeBuf := out
          loop := .idle
          inbox := match s.conn d with
            | some m => Function.update s.inbox m (s.inbox m ++ [(fd, c)])
            | none => s.inbox }

/-- `eng_event_unreg` up to `fdevent_destroy` -/
def engEventUnreg (s : Service) (fd c : ℕ) : Service :=
  let i := s.clientInfo.findIdx fun e => e.any fun i => i.fe.fd = fd
  match s.clientInfo[i]? with
  | some (some info) =>
    -- `fd_table out of sync`
    if s.fdTable fd ≠ some info.fe then { s with dead := true }
    else { s.closeFor fd c with fdTable := Function.update s.fdTable fd none, loop := .destroyed i fd c }
  | _ => { s with loop := .closing fd c }

/-- `get_send_fd` of the service: the descriptor, and the text behind the `;`; none when a buffer is left -/
def getSendFdApp (inbuf : Text) : Option (ℤ × Text) :=
  let str := upToNul inbuf
  let head := str.takeWhile fun b => b.1 ≠ 59
  if engMaxRwSize ≤ str.length then none
  else
    match str.drop head.length with
    | [] => some (0, [])
    | _ :: out => if head.length < 8 then some (atoi (head.map Prod.fst), out) else none

/-- `*ptr='\0'` at the first `;` of the string -/
def cutText (buf : Text) : Text :=
  let head := buf.takeWhile fun b => b.1 ≠ 0 ∧ b.1 ≠ 59
  match buf.drop head.length with
  | [] => buf
  | b :: rest => if b.1 = 59 then head ++ (0, none) :: rest else buf

/-- what is left of the chunks behind n bytes -/
def dropBytes : ℕ → List Chunk → List Chunk
  | _, [] => []
  | 0, chunks => chunks
  | n, ch :: chunks =>
    if ch.text.length ≤ n then dropBytes (n - ch.text.length) chunks else .rest (ch.text.drop n) :: chunks

/-- `eng_read` of n bytes in `modemclient_event_func` -/
def modemRead (s : Service) (fd m n : ℕ) : Service :=
  { s with
    readBuf := fill s.readBuf (((s.stream m).flatMap Chunk.text).take n)
    stream := Function.update s.stream m (dropBytes n (s.stream m))
    loop := .modemFilled fd m }

/-- its `get_send_fd` -/
def modemParse (s : Service) : Service :=
  match getSendFdApp s.readBuf with
  | none => { s with overrun := true }
  | some (dest, out) => { s with readBuf := cutText s.readBuf, writeBuf := out, loop := .modemWriting dest }

/-- its `eng_write` -/
def modemWrite (s : Service) (dest : ℤ) : Service :=
  if dest < 0 then { s with writeBuf := plain ENG_DESTERROR, loop := .idle }
  else
    { s with
      written := s.written ++ (s.conn dest.toNat).toList.flatMap fun c =>
        s.writeBuf.filterMap fun b => b.2.map fun asker => (asker, c)
      loop := .idle }

/-- the end of a modem client: `get_send_fd` looks at the cleared buffer before the result of `eng_read` is tested -/
def modemEof (s : Service) (fd m : ℕ) : Service :=
  match getSendFdApp s.readBuf with
  | none => { s with overrun := true }
  | some (_, out) => engEventUnreg { s with readBuf := cutText s.readBuf, writeBuf := out } fd m

inductive Act where
  /-- the accept thread: `accept` -/
  | accept
  /-- the accept thread: `eng_read_buf` cleared -/
  | regClear
  /-- the accept thread: the name read -/
  | regRead (got : Option (List UInt8))
  /-- the accept thread: the name taken, and the event created -/
  | regCreate
  /-- the accept thread: `client_info_update` -/
  | update
  /-- client c closes its end -/
  | disconnect (c : ℕ)
  /-- the event loop: an event of an application or a modem client on a descriptor -/
  | begin (fd : ℕ)
  /-- the event loop: a request read -/
  | ask (text : List UInt8)
  /-- the event loop: the request sent on -/
  | send
  /-- the event loop: n bytes from a modem client -/
  | read (n : ℕ)
  /-- the event loop: the answer taken apart -/
  | parse
  /-- the event loop: the answer written -/
  | write
  /-- the event loop: nothing read, the client is gone -/
  | eof
  /-- the event loop: the end of a monitor on a descriptor -/
  | monitorEof (fd : ℕ)
  /-- the event loop: bytes of another client on a descriptor -/
  | drain (fd : ℕ) (text : List UInt8)
  /-- the event loop: the slot of a removed client -/
  | clear
  /-- the event loop: the `close` of `eng_event_unreg` -/
  | close
  /-- a modem client answers its first request -/
  | answer (m : ℕ) (data : List UInt8)
deriving DecidableEq, Repr

/-- the registered event function of a descriptor, and the connection the descriptor is, when the loop is free -/
def Service.ready (s : Service) (fd : ℕ) : Option (Kind × ℕ) :=
  match s.loop, s.fdTable fd, s.conn fd with
  | .idle, some fe, some c => some (fe.kind, c)
  | _, _, _ => none

def step (s : Service) (a : Act) : Service :=
  if s.dead ∨ s.overrun then s
  else
    match a with
    | .accept => if s.accept = .idle then acceptConn s else s
    | .regClear =>
      match s.accept with
      | .accepted fd c => regClear s fd c
      | _ => s
    | .regRead got =>
      match s.accept with
      | .cleared fd c => regRead s fd c got
      | _ => s
    | .regCreate =>
      match s.accept with
      | .named fd c => regCreate s fd c
      | _ => s
    | .update =>
      match s.accept with
      | .created info => clientInfoUpdate s info
      | _ => s
    | .disconnect c => { s with gone := Function.update s.gone c true }
    | .begin fd =>
      match s.ready fd with
      | some (.app, c) => { s with readBuf := [], loop := .appCleared fd c (modemSocketId s) }
      | some (.modem, m) => { s with readBuf := [], loop := .modemCleared fd m }
      | _ => s
    | .ask text =>
      match s.loop with
      | .appCleared fd c dest =>
        { s with readBuf := fill s.readBuf (plain (text.take engMaxRwSize)), loop := .appFilled fd c dest }
      | _ => s
    | .send =>
      match s.loop with
      | .appFilled fd c dest => appSend s fd c dest
      | _ => s
    | .read n =>
      match s.loop with
      | .modemCleared fd m => if 0 < n ∧ n ≤ engMaxRwSize then modemRead s fd m n else s
      | _ => s
    | .parse =>
      match s.loop with
      | .modemFilled _ _ => modemParse s
      | _ => s
    | .write =>
      match s.loop with
      | .modemWriting dest => modemWrite s dest
      | _ => s
    | .eof =>
      match s.loop with
      | .appCleared fd c _ => if s.gone c then engEventUnreg s fd c else s
      | .modemCleared fd m => if s.gone m then modemEof s fd m else s
      | _ => s
    | .monitorEof fd =>
      match s.ready fd with
      | some (.monitor, c) => if s.gone c then engEventUnreg s fd c else s
      | _ => s
    | .drain fd text =>
      match s.ready fd with
      | some (k, _) =>
        if k = .pc ∨ k = .adrv ∨ k = .log then { s with readBuf := fill s.readBuf (plain (text.take engMaxRwSize)) }
        else s
      | none => s
    | .clear =>
      match s.loop with
      | .destroyed i fd c => { s with clientInfo := s.clientInfo.set i none, loop := .closing fd c }
      | _ => s
    | .close =>
      match s.loop with
      | .closing fd c => { s.closeFor fd c with loop := .idle }
      | _ => s
    | .answer m data =>
      match s.inbox m with
      | (fd, asker) :: inbox =>
        { s with
          inbox := Function.update s.inbox m inbox
          stream := Function.update s.stream m
            (s.stream m ++ [.answer ⟨fd, data.takeWhile fun b => b ≠ 0, asker⟩]) }
      | [] => s

/-- no text has left its buffer, every byte of an answer went to the connection that asked, and every connection a removal
closed is the removed -/
def Isolated (s : Service) : Prop :=
  s.overrun = false ∧ (∀ p ∈ s.written, p.1 = p.2) ∧ ∀ p ∈ s.closed, p.1 = p.2

/-- the event loop counts on what it has read into `eng_read_buf`, or is about to read there -/
def Service.usesReadBuf (s : Service) : Prop :=
  (∃ fd c dest, s.loop = .appCleared fd c dest) ∨ (∃ fd c dest, s.loop = .appFilled fd c dest) ∨
    (∃ fd m, s.loop = .modemCleared fd m) ∨ ∃ fd m, s.loop = .modemFilled fd m

/-- the client whose event the loop is handling: its descriptor and its connection -/
def Service.handling (s : Service) : Option (ℕ × ℕ) :=
  match s.loop with
  | .idle => none
  | .appCleared fd c _ => some (fd, c)
  | .appFilled fd c _ => some (fd, c)
  | .modemCleared fd m => some (fd, m)
  | .modemFilled fd m => some (fd, m)
  | .modemWriting _ => none
  | .destroyed _ fd c => some (fd, c)
  | .closing fd c => some (fd, c)

/-- a request or an answer with this descriptor is under way, the answer perhaps in `eng_read_buf` -/
def Carried (s : Service) (fd asker : ℕ) : Prop :=
  (∃ m, (fd, asker) ∈ s.inbox m) ∨ (∃ m data, Chunk.answer ⟨fd, data, asker⟩ ∈ s.stream m) ∨
    (∃ i m, s.loop = .modemFilled i m) ∧ (∃ out, getSendFdApp s.readBuf = some ((fd : ℤ), out)) ∧
      ∃ p ∈ s.readBuf, p.2 = some asker

/-- the request in `eng_read_buf` fits `eng_write_buf` -/
def RequestFits (s : Service) (fd : ℕ) : Prop :=
  (upToNul s.readBuf).length < engMaxRwSize ∧ (¬ CMD <+: (upToNul s.readBuf).map Prod.fst →
    (setupSendText fd (clientInfoGettype s fd) (upToNul s.readBuf)).length < engMaxRwSize)

/-- The condition on a step.
- `accept` returns no descriptor that the loop is still handling (a removal closes it once more), or that a request or an
  answer under way carries;
- the accept thread touches `eng_read_buf` only while the loop does not count on it, and the name that it takes from there
  fits `regname`;
- a request fits `eng_write_buf`, and a read of a modem client takes one answer, shorter than the buffer. -/
def Meets (s : Service) : Act → Prop
  | .accept => s.accept = .idle → (∀ c, s.handling ≠ some (lowestFree s.table, c)) ∧
      (∀ c, ¬Carried s (lowestFree s.table) c) ∧ s.loop ≠ .modemWriting (lowestFree s.table)
  | .regClear => ∀ fd c, s.accept = .accepted fd c → engEventCanReg s = true → ¬ s.usesReadBuf
  | .regRead got => ∀ fd c, s.accept = .cleared fd c → got.isSome = true → ¬ s.usesReadBuf
  | .regCreate => ∀ fd c, s.accept = .named fd c →
      (clinetInfoGetnametype ((upToNul s.readBuf).map Prod.fst)).isSome = true
  | .send => ∀ fd c d, s.loop = .appFilled fd c (some d) → RequestFits s fd
  | .read n => ∀ fd m, s.loop = .modemCleared fd m →
      ∃ a rest, s.stream m = .answer a :: rest ∧ n = a.text.length ∧ n < engMaxRwSize
  | _ => True

/-! ## Descriptors -/

theorem conn_close {s : Service} {fd i c : ℕ} (h : (s.close fd).conn i = some c) : s.conn i = some c ∧ i ≠ fd := by
  have hne : i ≠ fd := by
    rintro rfl
    simp only [Service.conn, Service.close, List.getElem?_set_self'] at h
    cases ht : s.table[i]? <;> simp [ht] at h
  rw [Service.conn, Service.close, List.getElem?_set_ne hne.symm] at h
  exact ⟨h, hne⟩

theorem lowestFree_le (table : List (Option Owner)) : lowestFree table ≤ table.length := List.findIdx_le_length

theorem conn_acceptConn (s : Service) (i : ℕ) :
    (acceptConn s).conn i = if i = lowestFree s.table then some s.conns else s.conn i := by
  have hle := lowestFree_le s.table
  simp only [Service.conn, acceptConn]
  by_cases hlt : lowestFree s.table < s.table.length
  · rw [if_pos hlt]
    by_cases hi : i = lowestFree s.table
    · rw [if_pos hi, hi, List.getElem?_set_self hlt]
    · rw [if_neg hi, List.getElem?_set_ne (Ne.symm hi)]
  · have hlen : lowestFree s.table = s.table.length := by omega
    rw [if_neg hlt, hlen]
    by_cases hi : i = s.table.length
    · rw [if_pos hi, hi, List.getElem?_concat_length]
    · rw [if_neg hi]
      rcases Nat.lt_or_ge i s.table.length with h | h
      · rw [List.getElem?_append_left h]
      · have h1 : (s.table ++ [some (Owner.conn s.conns)])[i]? = none := by
          apply List.getElem?_eq_none
          rw [List.length_append, List.length_singleton]
          omega
        rw [h1, List.getElem?_eq_none h]

theorem growTable_le (fuel max fd : ℕ) (hfd : fd ≤ 32000) (hmax : max ≤ 64000) : growTable fuel max fd ≤ 64000 := by
  induction fuel generalizing max with
  | zero => exact hmax
  | succ fuel ih =>
    rw [growTable]
    split_ifs with h
    · exact ih (2 * max) (by omega)
    · exact hmax

/-! ## Answers -/

theorem takeWhile_tag (asker : ℕ) (p : UInt8 → Bool) (l : List UInt8) :
    (tag asker l).takeWhile (fun b => p b.1) = tag asker (l.takeWhile p) := by
  simp only [tag, List.takeWhile_map]
  rfl

theorem mem_tag {asker : ℕ} {l : List UInt8} {p : UInt8 × Option ℕ} (h : p ∈ tag asker l) : p.2 = some asker := by
  obtain ⟨b, -, rfl⟩ := List.mem_map.1 h
  rfl

theorem mem_plain {l : List UInt8} {p : UInt8 × Option ℕ} (h : p ∈ plain l) : p.2 = none := by
  obtain ⟨b, -, rfl⟩ := List.mem_map.1 h
  rfl

/-- an answer read as it was sent goes to its descriptor -/
theorem getSendFdApp_answer (a : Answer) (hfd : a.fd < 10000000) (hdata : 0 ∉ a.data)
    (hlen : a.text.length < engMaxRwSize) : getSendFdApp a.text = some ((a.fd : ℤ), tag a.asker a.data) := by
  have hdigit : ∀ c ∈ decimal a.fd, c ≠ 59 ∧ c ≠ 0 := by
    intro c hc
    have hd := decimal_isDigit a.fd c hc
    exact ⟨ne_of_isDigit hd (by decide), ne_of_isDigit hd (by decide)⟩
  have hstr : (decimal a.fd ++ 59 :: a.data).takeWhile (fun b => decide (b ≠ 0)) = decimal a.fd ++ 59 :: a.data := by
    apply List.takeWhile_eq_self_iff.mpr
    intro c hc
    rcases List.mem_append.mp hc with hc | hc
    · exact decide_eq_true (hdigit c hc).2
    · rcases List.mem_cons.mp hc with rfl | hc
      · decide
      · apply decide_eq_true
        rintro rfl
        exact hdata hc
  have hhead : (decimal a.fd ++ 59 :: a.data).takeWhile (fun b => decide (b ≠ 59)) = decimal a.fd := by
    rw [List.takeWhile_append_of_pos fun c hc => decide_eq_true (hdigit c hc).1]
    simp
  have hshort : (decimal a.fd).length < 8 := by
    have : (decimal a.fd).length ≤ 7 := decimal_length_le (by norm_num) (by omega)
    omega
  have hatoi : atoi (decimal a.fd) = a.fd := by
    have := atoi_padded 0 a.fd
    rwa [padded, Nat.zero_sub, List.replicate_zero, List.nil_append] at this
  have h0 : upToNul (tag a.asker (decimal a.fd ++ 59 :: a.data)) = tag a.asker (decimal a.fd ++ 59 :: a.data) := by
    rw [upToNul, takeWhile_tag a.asker (fun b => decide (b ≠ 0)), hstr]
  have h1 : (tag a.asker (decimal a.fd ++ 59 :: a.data)).takeWhile (fun b => decide (b.1 ≠ 59))
      = tag a.asker (decimal a.fd) := by
    rw [takeWhile_tag a.asker (fun b => decide (b ≠ 59)), hhead]
  have hsplit : tag a.asker (decimal a.fd ++ 59 :: a.data)
      = tag a.asker (decimal a.fd) ++ (59, some a.asker) :: tag a.asker a.data := by simp [tag]
  have hfst : (tag a.asker (decimal a.fd)).map Prod.fst = decimal a.fd := by simp [tag, Function.comp_def]
  have hhl : (tag a.asker (decimal a.fd)).length = (decimal a.fd).length := by simp [tag]
  rw [Answer.text] at hlen
  simp only [getSendFdApp, Answer.text, h0, h1, if_neg (not_le.mpr hlen)]
  rw [hsplit, List.drop_left]
  simp only [hhl, hfst, if_pos hshort, hatoi]

/-! ## Invariant -/

structure Inv (s : Service) : Prop where
  tableMax : s.fdTableMax ≤ 64000
  registered : ∀ fd fe, s.fdTable fd = some fe → fd < 64000
  carried : ∀ fd asker, Carried s fd asker → fd < 64000 ∧ ∀ c, s.conn fd = some c → c = asker
  answers : ∀ m a, Chunk.answer a ∈ s.stream m → 0 ∉ a.data
  handling : ∀ fd c, s.handling = some (fd, c) → fd < 64000 ∧ ∀ c', s.conn fd = some c' → c' = c
  cleared : ∀ fd m, s.loop = .modemCleared fd m → s.readBuf = []
  filled : ∀ fd m, s.loop = .modemFilled fd m →
    ∃ a : Answer, s.readBuf = a.text ∧ a.fd < 64000 ∧ 0 ∉ a.data ∧ a.text.length < engMaxRwSize
  writing : ∀ dest, s.loop = .modemWriting dest → 0 ≤ dest → ∀ p ∈ s.writeBuf, ∀ asker, p.2 = some asker →
    ∀ c, s.conn dest.toNat = some c → c = asker
  isolated : Isolated s

theorem boot_inv (own : ℕ) : Inv (boot own) where
  tableMax := Nat.zero_le _
  registered := fun _ _ h => absurd h (by simp [boot])
  carried := fun _ _ h => absurd h (by simp [boot, Carried])
  answers := fun _ _ h => absurd h (by simp [boot])
  handling := fun _ _ h => absurd h (by simp [boot, Service.handling])
  cleared := fun _ _ h => absurd h (by simp [boot])
  filled := fun _ _ h => absurd h (by simp [boot])
  writing := fun _ h => absurd h (by simp [boot])
  isolated := by simp [boot, Isolated]

theorem not_usesReadBuf {s : Service} (h : ¬ s.usesReadBuf) :
    (∀ fd m, s.loop ≠ .modemCleared fd m) ∧ ∀ fd m, s.loop ≠ .modemFilled fd m := by
  unfold Service.usesReadBuf at h
  push Not at h
  exact ⟨h.2.2.1, h.2.2.2⟩

/-- a step of the accept thread or of a client that opens no connection, and leaves the messages and the logs as they are;
it may change the buffers while the loop does not count on them -/
theorem Inv.mono {s t : Service} (h : Inv s) (hconn : ∀ fd c, t.conn fd = some c → s.conn fd = some c)
    (hmax : t.fdTableMax ≤ 64000) (hreg : ∀ fd fe, t.fdTable fd = some fe → fd < 64000)
    (hinbox : t.inbox = s.inbox) (hstream : t.stream = s.stream) (hloop : t.loop = s.loop)
    (hread : t.readBuf = s.readBuf ∨ ¬ s.usesReadBuf) (hwrite : ∀ p ∈ t.writeBuf, p ∈ s.writeBuf ∨ p.2 = none)
    (hiso : Isolated t) : Inv t := by
  have hcarried : ∀ fd asker, Carried t fd asker → Carried s fd asker := by
    intro fd asker hc
    unfold Carried at hc ⊢
    rw [hinbox, hstream, hloop] at hc
    rcases hread with hread | hno
    · rwa [hread] at hc
    · rcases hc with hc | hc | ⟨⟨i, m, hfilled⟩, -⟩
      · exact Or.inl hc
      · exact Or.inr (Or.inl hc)
      · exact absurd hfilled ((not_usesReadBuf hno).2 i m)
  refine ⟨hmax, hreg, ?_, ?_, ?_, ?_, ?_, ?_, hiso⟩
  · intro fd asker hc
    obtain ⟨h1, h2⟩ := h.carried fd asker (hcarried fd asker hc)
    exact ⟨h1, fun c hi => h2 c (hconn fd c hi)⟩
  · rw [hstream]
    exact h.answers
  · intro fd c hh
    rw [Service.handling, hloop] at hh
    obtain ⟨h1, h2⟩ := h.handling fd c hh
    exact ⟨h1, fun c' hi => h2 c' (hconn fd c' hi)⟩
  · intro fd m hl
    rw [hloop] at hl
    rcases hread with hread | hno
    · rw [hread]
      exact h.cleared fd m hl
    · exact absurd hl ((not_usesReadBuf hno).1 fd m)
  · intro fd m hl
    rw [hloop] at hl
    rcases hread with hread | hno
    · rw [hread]
      exact h.filled fd m hl
    · exact absurd hl ((not_usesReadBuf hno).2 fd m)
  · intro dest hl hpos p hp asker ht c hi
    rw [hloop] at hl
    rcases hwrite p hp with hp | hp
    · exact h.writing dest hl hpos p hp asker ht c (hconn _ c hi)
    · rw [hp] at ht
      cases ht

/-- the same for a step that leaves `fd_table` and the buffers alone -/
theorem Inv.mono' {s t : Service} (h : Inv s) (hconn : ∀ fd c, t.conn fd = some c → s.conn fd = some c)
    (hmax : t.fdTableMax = s.fdTableMax) (hreg : t.fdTable = s.fdTable) (hinbox : t.inbox = s.inbox)
    (hstream : t.stream = s.stream) (hloop : t.loop = s.loop) (hread : t.readBuf = s.readBuf)
    (hwrite : t.writeBuf = s.writeBuf) (hover : t.overrun = s.overrun) (hwritten : t.written = s.written)
    (hclosed : t.closed = s.closed) : Inv t := by
  refine h.mono hconn (by rw [hmax]; exact h.tableMax) (by rw [hreg]; exact h.registered) hinbox hstream hloop
    (Or.inl hread) (fun p hp => Or.inl (by rwa [hwrite] at hp)) ?_
  unfold Isolated
  rw [hover, hwritten, hclosed]
  exact h.isolated

/-! ## The accept thread -/

theorem acceptConn_inv {s : Service} (h : Inv s) (hq : (∀ c, s.handling ≠ some (lowestFree s.table, c)) ∧
    (∀ c, ¬Carried s (lowestFree s.table) c) ∧ s.loop ≠ .modemWriting (lowestFree s.table)) : Inv (acceptConn s) := by
  obtain ⟨hhandling, hcarried, hwriting⟩ := hq
  -- a descriptor that is not the new one is the connection it was
  have hother : ∀ fd c, fd ≠ lowestFree s.table → (acceptConn s).conn fd = some c → s.conn fd = some c := by
    intro fd c hne hc
    rwa [conn_acceptConn, if_neg hne] at hc
  refine ⟨h.tableMax, h.registered, ?_, h.answers, ?_, h.cleared, h.filled, ?_, h.isolated⟩
  · intro fd asker hc
    obtain ⟨h1, h2⟩ := h.carried fd asker hc
    refine ⟨h1, fun c hi => h2 c (hother fd c ?_ hi)⟩
    rintro rfl
    exact hcarried asker hc
  · intro fd removed hh
    obtain ⟨h1, h2⟩ := h.handling fd removed hh
    refine ⟨h1, fun c hi => h2 c (hother fd c ?_ hi)⟩
    rintro rfl
    exact hhandling removed hh
  · intro dest hl hpos p hp asker ht c hi
    refine h.writing dest hl hpos p hp asker ht c (hother _ c ?_ hi)
    intro hfd
    apply hwriting
    rw [← hfd, Int.toNat_of_nonneg hpos]
    exact hl

theorem Inv.registered_update {s : Service} (h : Inv s) {fd : ℕ} {v : Option FdEvent} (hv : v = none ∨ fd < 64000) :
    ∀ i fe, Function.update s.fdTable fd v i = some fe → i < 64000 := by
  intro i fe hi
  by_cases hfd : i = fd
  · subst hfd
    rw [Function.update_self] at hi
    rcases hv with hv | hv
    · exact absurd (hv.symm.trans hi) (by simp)
    · exact hv
  · rw [Function.update_of_ne hfd] at hi
    exact h.registered i fe hi

theorem fdeventRegister_inv {s : Service} (h : Inv s) (fe : FdEvent) : Inv (fdeventRegister s fe) := by
  have hmax := h.tableMax
  have hkeep : ∀ p ∈ s.writeBuf, p ∈ s.writeBuf ∨ p.2 = none := fun _ hp => Or.inl hp
  unfold fdeventRegister
  split_ifs with hbad hgrow
  · exact h.mono' (fun _ _ hc => hc) rfl rfl rfl rfl rfl rfl rfl rfl rfl rfl
  · have hfd : fe.fd ≤ 32000 := by omega
    have hgrown : growTable fe.fd (max s.fdTableMax 256) fe.fd ≤ 64000 :=
      growTable_le _ _ _ hfd (max_le hmax (by norm_num))
    exact h.mono (fun _ _ hc => hc) hgrown (h.registered_update (Or.inr (by omega))) rfl rfl rfl (Or.inl rfl) hkeep
      h.isolated
  · exact h.mono (fun _ _ hc => hc) hmax (h.registered_update (Or.inr (by omega))) rfl rfl rfl (Or.inl rfl) hkeep
      h.isolated

theorem close_inv {s : Service} (h : Inv s) (fd : ℕ) : Inv (s.close fd) :=
  h.mono' (fun _ _ hc => (conn_close hc).1) rfl rfl rfl rfl rfl rfl rfl rfl rfl rfl

theorem accept_inv {s : Service} (h : Inv s) (pc : AcceptPc) : Inv { s with accept := pc } :=
  h.mono' (fun _ _ hc => hc) rfl rfl rfl rfl rfl rfl rfl rfl rfl rfl

theorem regClear_inv {s : Service} (h : Inv s) (fd c : ℕ) (hfree : engEventCanReg s = true → ¬ s.usesReadBuf) :
    Inv (regClear s fd c) := by
  unfold regClear
  split_ifs with hroom
  · exact h.mono (fun _ _ hc => hc) h.tableMax h.registered rfl rfl rfl (Or.inr (hfree hroom)) (fun _ hp => Or.inl hp)
      h.isolated
  · exact accept_inv h .idle

theorem regRead_inv {s : Service} (h : Inv s) (fd c : ℕ) (got : Option (List UInt8))
    (hfree : got.isSome = true → ¬ s.usesReadBuf) : Inv (regRead s fd c got) := by
  cases got with
  | none => exact accept_inv (close_inv h fd) .idle
  | some got =>
    exact h.mono (fun _ _ hc => hc) h.tableMax h.registered rfl rfl rfl (Or.inr (hfree rfl)) (fun _ hp => Or.inl hp)
      h.isolated

theorem regCreate_inv {s : Service} (h : Inv s) (fd c : ℕ)
    (hname : (clinetInfoGetnametype ((upToNul s.readBuf).map Prod.fst)).isSome = true) : Inv (regCreate s fd c) := by
  unfold regCreate
  split
  · rename_i hnone
    rw [hnone] at hname
    cases hname
  · rename_i regname type _
    by_cases hmon : s.monitorSvcFd = none ∧ ¬ ENG_MONITOR <+: regname
    · rw [if_pos hmon]
      exact (close_inv h fd).mono (fun _ _ hc => hc) h.tableMax h.registered rfl rfl rfl (Or.inl rfl)
        (fun p hp => Or.inr (mem_plain hp)) (close_inv h fd).isolated
    · rw [if_neg hmon]
      split
      · exact accept_inv (close_inv h fd) .idle
      · rename_i k _
        exact (fdeventRegister_inv h ⟨fd, c, k⟩).mono' (fun _ _ hc => hc) rfl rfl rfl rfl rfl rfl rfl rfl rfl rfl

/-! ## The event loop -/

/-- a step of the loop to a place where no answer is in the buffers -/
theorem Inv.move {s t : Service} (h : Inv s) (hconn : ∀ fd c, t.conn fd = some c → s.conn fd = some c)
    (hmax : t.fdTableMax = s.fdTableMax) (hreg : ∀ fd fe, t.fdTable fd = some fe → fd < 64000)
    (hinbox : ∀ m p, p ∈ t.inbox m → p ∈ s.inbox m ∨ s.handling = some p) (hstream : t.stream = s.stream)
    (hfilled : ∀ fd m, t.loop ≠ .modemFilled fd m) (hwriting : ∀ dest, t.loop ≠ .modemWriting dest)
    (hcleared : ∀ fd m, t.loop = .modemCleared fd m → t.readBuf = [])
    (hhandling : ∀ fd c, t.handling = some (fd, c) → fd < 64000 ∧ ∀ c', t.conn fd = some c' → c' = c)
    (hiso : Isolated t) : Inv t where
  tableMax := by rw [hmax]; exact h.tableMax
  registered := hreg
  carried := by
    intro fd asker hc
    have hold : fd < 64000 ∧ ∀ c, s.conn fd = some c → c = asker := by
      rcases hc with ⟨m, hin⟩ | ⟨m, data, hin⟩ | ⟨⟨i, m, hl⟩, -⟩
      · rcases hinbox m _ hin with hin | hin
        · exact h.carried fd asker (Or.inl ⟨m, hin⟩)
        · exact h.handling fd asker hin
      · rw [hstream] at hin
        exact h.carried fd asker (Or.inr (Or.inl ⟨m, data, hin⟩))
      · exact absurd hl (hfilled i m)
    exact ⟨hold.1, fun c hi => hold.2 c (hconn fd c hi)⟩
  answers := by rw [hstream]; exact h.answers
  handling := hhandling
  cleared := hcleared
  filled := fun fd m hl => absurd hl (hfilled fd m)
  writing := fun dest hl => absurd hl (hwriting dest)
  isolated := hiso

/-- closing the descriptor of a removal, when it is the removed connection or nothing -/
theorem closeFor_isolated {s : Service} {fd removed : ℕ} (h : Inv s) (hown : ∀ c, s.conn fd = some c → c = removed) :
    Isolated (s.closeFor fd removed) := by
  refine ⟨h.isolated.1, h.isolated.2.1, ?_⟩
  intro p hp
  rcases List.mem_append.mp hp with hp | hp
  · exact h.isolated.2.2 p hp
  · obtain ⟨c, hc, rfl⟩ := List.mem_map.mp hp
    exact (hown c (by simpa using hc)).symm

theorem conn_closeFor (s : Service) (fd removed : ℕ) {i c : ℕ} (h : (s.closeFor fd removed).conn i = some c) :
    s.conn i = some c ∧ i ≠ fd := conn_close h

theorem engEventUnreg_inv {s : Service} (h : Inv s) {fd c : ℕ} (hfd : fd < 64000)
    (hown : ∀ c', s.conn fd = some c' → c' = c) : Inv (engEventUnreg s fd c) := by
  unfold engEventUnreg
  dsimp only
  split
  · split_ifs with hsync
    · exact h.mono' (fun _ _ hc => hc) rfl rfl rfl rfl rfl rfl rfl rfl rfl rfl
    · refine h.move (fun _ _ hi => (conn_closeFor s fd c hi).1) rfl (h.registered_update (Or.inl rfl))
        (fun _ _ hp => Or.inl hp) rfl (by simp) (by simp) (by simp) ?_ (closeFor_isolated h hown)
      intro i removed hr
      obtain ⟨rfl, rfl⟩ := Prod.mk.inj (Option.some.inj hr)
      exact ⟨hfd, fun c' hc' => absurd rfl (conn_closeFor s fd c hc').2⟩
  · refine h.move (fun _ _ hi => hi) rfl h.registered (fun _ _ hp => Or.inl hp) rfl (by simp) (by simp) (by simp) ?_
      h.isolated
    intro i removed hr
    obtain ⟨rfl, rfl⟩ := Prod.mk.inj (Option.some.inj hr)
    exact ⟨hfd, hown⟩

/-- the loop is done with its event -/
theorem idle_inv {s : Service} (h : Inv s) (buf : Text) : Inv { s with writeBuf := buf, loop := .idle } :=
  h.move (fun _ _ hi => hi) rfl h.registered (fun _ _ hp => Or.inl hp) rfl (by simp) (by simp) (by simp)
    (fun _ _ hr => by simp [Service.handling] at hr) h.isolated

/-- a request is carried under the descriptor its connection has now -/
theorem appSend_inv {s : Service} (h : Inv s) {fd c : ℕ} {dest : Option ℕ} (hloop : s.loop = .appFilled fd c dest)
    (hfits : ∀ d, dest = some d → RequestFits s fd) : Inv (appSend s fd c dest) := by
  cases dest with
  | none => exact idle_inv h _
  | some d =>
    obtain ⟨hshort, hout⟩ := hfits d rfl
    simp only [appSend]
    rw [if_neg (not_le.mpr hshort)]
    by_cases hcmd : CMD <+: (upToNul s.readBuf).map Prod.fst
    · rw [if_pos hcmd]
      exact idle_inv h _
    · rw [if_neg hcmd, if_neg (not_le.mpr (hout hcmd))]
      refine h.move (fun _ _ hi => hi) rfl h.registered ?_ rfl (by simp) (by simp) (by simp)
        (fun _ _ hr => by simp [Service.handling] at hr) h.isolated
      intro m p hp
      cases hm' : s.conn d with
      | none =>
        simp only [hm'] at hp
        exact Or.inl hp
      | some m' =>
        simp only [hm'] at hp
        by_cases hm : m = m'
        · subst hm
          rw [Function.update_self, List.mem_append, List.mem_singleton] at hp
          rcases hp with hp | rfl
          · exact Or.inl hp
          · right
            rw [Service.handling, hloop]
        · rw [Function.update_of_ne hm] at hp
          exact Or.inl hp

theorem dropBytes_answer (a : Answer) (rest : List Chunk) : dropBytes a.text.length (.answer a :: rest) = rest := by
  obtain ⟨n, hn⟩ : ∃ n, a.text.length = n + 1 := ⟨a.text.length - 1, by simp [Answer.text, tag]; omega⟩
  have htext : (Chunk.answer a).text.length = n + 1 := hn
  rw [hn, dropBytes, if_pos (le_of_eq htext), htext, Nat.sub_self]
  · cases rest <;> rfl
  · simp

/-- one answer read whole into the cleared buffer -/
theorem modemRead_inv {s : Service} (h : Inv s) {fd m : ℕ} (hloop : s.loop = .modemCleared fd m) {a : Answer}
    {rest : List Chunk} (hstream : s.stream m = .answer a :: rest) (hlen : a.text.length < engMaxRwSize) :
    Inv (modemRead s fd m a.text.length) := by
  have hmem : Chunk.answer a ∈ s.stream m := by simp [hstream]
  obtain ⟨hfd, hown⟩ := h.carried a.fd a.asker (Or.inr (Or.inl ⟨m, a.data, hmem⟩))
  have hread : (modemRead s fd m a.text.length).readBuf = a.text := by
    simp only [modemRead, hstream, List.flatMap_cons]
    rw [h.cleared fd m hloop]
    simp [fill, Chunk.text]
  have hdrop : dropBytes a.text.length (s.stream m) = rest := by rw [hstream, dropBytes_answer]
  have hsub : ∀ m' ch, ch ∈ (modemRead s fd m a.text.length).stream m' → ch ∈ s.stream m' := by
    intro m' ch hch
    simp only [modemRead, hdrop] at hch
    by_cases hmm : m' = m
    · subst hmm
      rw [Function.update_self] at hch
      simp [hstream, hch]
    · rwa [Function.update_of_ne hmm] at hch
  have hget := getSendFdApp_answer a (by omega) (h.answers m a hmem) hlen
  -- what the buffer holds is this answer
  have hbuffer : ∀ i asker : ℕ, (∃ out, getSendFdApp (modemRead s fd m a.text.length).readBuf = some ((i : ℤ), out)) →
      (∃ p ∈ (modemRead s fd m a.text.length).readBuf, p.2 = some asker) → i = a.fd ∧ asker = a.asker := by
    rintro i asker ⟨out, hout⟩ ⟨p, hp, ht⟩
    rw [hread, hget] at hout
    rw [hread] at hp
    have hi := (Prod.mk.inj (Option.some.inj hout)).1
    rw [mem_tag hp] at ht
    exact ⟨by exact_mod_cast hi.symm, (Option.some.inj ht).symm⟩
  refine ⟨h.tableMax, h.registered, ?_, fun m' a' h' => h.answers m' a' (hsub m' _ h'), ?_, ?_, ?_, ?_, h.isolated⟩
  · intro i asker hc
    rcases hc with hc | ⟨m', data, hc⟩ | ⟨-, hout, hp⟩
    · exact h.carried i asker (Or.inl hc)
    · exact h.carried i asker (Or.inr (Or.inl ⟨m', data, hsub m' _ hc⟩))
    · obtain ⟨rfl, rfl⟩ := hbuffer i asker hout hp
      exact ⟨hfd, hown⟩
  · intro i c hr
    apply h.handling i c
    rw [Service.handling, hloop]
    exact hr
  · intro i m' hl
    cases hl
  · intro i m' _
    exact ⟨a, hread, hfd, h.answers m a hmem, hlen⟩
  · intro dest hl
    cases hl

/-- the answer in the buffer is for its descriptor, and that is the connection that asked or nothing -/
theorem modemParse_inv {s : Service} (h : Inv s) {fd m : ℕ} (hloop : s.loop = .modemFilled fd m) :
    Inv (modemParse s) := by
  obtain ⟨a, hread, hfd, hdata, hlen⟩ := h.filled fd m hloop
  have hget := getSendFdApp_answer a (by omega) hdata hlen
  obtain ⟨p, hp⟩ : ∃ p, p ∈ a.text := List.exists_mem_of_ne_nil _ (by simp [Answer.text, tag])
  obtain ⟨-, hown⟩ := h.carried a.fd a.asker
    (Or.inr (Or.inr ⟨⟨fd, m, hloop⟩, ⟨_, by rw [hread, hget]⟩, p, by rwa [hread], mem_tag hp⟩))
  simp only [modemParse, hread, hget]
  refine ⟨h.tableMax, h.registered, ?_, h.answers, fun _ _ hr => by simp [Service.handling] at hr, by simp, by simp, ?_,
    h.isolated⟩
  · intro i asker hc
    apply h.carried i asker
    rcases hc with hc | hc | ⟨⟨_, _, hl⟩, -⟩
    · exact Or.inl hc
    · exact Or.inr (Or.inl hc)
    · cases hl
  · intro dest hl _ p hp asker ht c hi
    obtain rfl : (a.fd : ℤ) = dest := LoopPc.modemWriting.inj hl
    rw [mem_tag hp] at ht
    rw [← Option.some.inj ht]
    exact hown c hi

theorem modemWrite_inv {s : Service} (h : Inv s) {dest : ℤ} (hloop : s.loop = .modemWriting dest) :
    Inv (modemWrite s dest) := by
  unfold modemWrite
  split_ifs with hneg
  · exact idle_inv h _
  · refine h.move (fun _ _ hi => hi) rfl h.registered (fun _ _ hp => Or.inl hp) rfl (by simp) (by simp) (by simp)
      (fun _ _ hr => by simp [Service.handling] at hr) ⟨h.isolated.1, ?_, h.isolated.2.2⟩
    intro p hp
    rcases List.mem_append.mp hp with hp | hp
    · exact h.isolated.2.1 p hp
    · obtain ⟨c, hc, hp⟩ := List.mem_flatMap.mp hp
      obtain ⟨b, hb, hpair⟩ := List.mem_filterMap.mp hp
      obtain ⟨asker, hasker, rfl⟩ := Option.map_eq_some_iff.mp hpair
      exact (h.writing dest hloop (not_lt.mp hneg) b hb asker hasker c (Option.mem_toList.mp hc)).symm

theorem getSendFdApp_nil : getSendFdApp [] = some (0, []) := by decide

theorem modemEof_inv {s : Service} (h : Inv s) {fd m : ℕ} (hloop : s.loop = .modemCleared fd m) :
    Inv (modemEof s fd m) := by
  obtain ⟨hfd, hown⟩ := h.handling fd m (by rw [Service.handling, hloop])
  have hempty := h.cleared fd m hloop
  simp only [modemEof, hempty, getSendFdApp_nil]
  have hcut : cutText [] = [] := rfl
  have hsame : Inv { s with readBuf := cutText [], writeBuf := [] } := by
    refine h.mono (fun _ _ hc => hc) h.tableMax h.registered rfl rfl rfl (Or.inl ?_) (by simp) h.isolated
    rw [hcut, hempty]
  exact engEventUnreg_inv hsame hfd hown

/-- a modem client answers with the descriptor it was asked under -/
theorem answer_inv {s : Service} (h : Inv s) {m fd asker : ℕ} {inbox : List (ℕ × ℕ)} (data : List UInt8)
    (hin : s.inbox m = (fd, asker) :: inbox) :
    Inv { s with
      inbox := Function.update s.inbox m inbox
      stream := Function.update s.stream m
        (s.stream m ++ [.answer ⟨fd, data.takeWhile fun b => b ≠ 0, asker⟩]) } := by
  have hin' : ∀ m' p, p ∈ Function.update s.inbox m inbox m' → p ∈ s.inbox m' := by
    intro m' p hp
    by_cases hm : m' = m
    · subst hm
      rw [Function.update_self] at hp
      simp [hin, hp]
    · rwa [Function.update_of_ne hm] at hp
  have hout : ∀ m' a, Chunk.answer a ∈ Function.update s.stream m
      (s.stream m ++ [.answer ⟨fd, data.takeWhile fun b => b ≠ 0, asker⟩]) m' →
      Chunk.answer a ∈ s.stream m' ∨ a = ⟨fd, data.takeWhile fun b => b ≠ 0, asker⟩ := by
    intro m' a ha
    by_cases hm : m' = m
    · subst hm
      rw [Function.update_self, List.mem_append, List.mem_singleton] at ha
      exact ha.imp id fun h => Chunk.answer.inj h
    · rw [Function.update_of_ne hm] at ha
      exact Or.inl ha
  refine ⟨h.tableMax, h.registered, ?_, ?_, h.handling, h.cleared, h.filled, h.writing, h.isolated⟩
  · intro i c hc
    apply h.carried i c
    rcases hc with ⟨m', hc⟩ | ⟨m', d, hc⟩ | hc
    · exact Or.inl ⟨m', hin' m' _ hc⟩
    · rcases hout m' _ hc with hold | hnew
      · exact Or.inr (Or.inl ⟨m', d, hold⟩)
      · obtain ⟨rfl, -, rfl⟩ := Answer.mk.inj hnew
        exact Or.inl ⟨m, by simp [hin]⟩
    · exact Or.inr (Or.inr hc)
  · intro m' a ha
    rcases hout m' a ha with hold | hnew
    · exact h.answers m' a hold
    · subst hnew
      intro h0
      exact absurd (List.mem_takeWhile_imp h0) (by simp)

/-! ## Runs -/

theorem ready_spec {s : Service} {fd c : ℕ} {k : Kind} (h : s.ready fd = some (k, c)) :
    s.loop = .idle ∧ (∃ fe, s.fdTable fd = some fe) ∧ s.conn fd = some c := by
  unfold Service.ready at h
  split at h
  · rename_i fe c' hloop hfe hc
    obtain ⟨-, rfl⟩ := Prod.mk.inj (Option.some.inj h)
    exact ⟨hloop, ⟨fe, hfe⟩, hc⟩
  · exact absurd h (by simp)

/-- what the loop takes up is a registered connection -/
theorem ready_own {s : Service} (h : Inv s) {fd c : ℕ} {k : Kind} (hready : s.ready fd = some (k, c)) :
    fd < 64000 ∧ ∀ c', s.conn fd = some c' → c' = c := by
  obtain ⟨-, ⟨fe, hfe⟩, hc⟩ := ready_spec hready
  exact ⟨h.registered fd fe hfe, fun c' hc' => Option.some.inj (hc'.symm.trans hc)⟩

/-- the loop takes up an event of an application or of a modem client -/
theorem begin_inv {s : Service} (h : Inv s) {fd c : ℕ} {k : Kind} (hready : s.ready fd = some (k, c)) {pc : LoopPc}
    (hpc : (∃ dest, pc = .appCleared fd c dest) ∨ pc = .modemCleared fd c) :
    Inv { s with readBuf := [], loop := pc } := by
  have hhandling : Service.handling { s with readBuf := [], loop := pc } = some (fd, c) := by
    rcases hpc with ⟨dest, rfl⟩ | rfl <;> rfl
  refine h.move (fun _ _ hi => hi) rfl h.registered (fun _ _ hp => Or.inl hp) rfl ?_ ?_ (fun _ _ _ => rfl) ?_ h.isolated
  · rcases hpc with ⟨dest, rfl⟩ | rfl <;> simp
  · rcases hpc with ⟨dest, rfl⟩ | rfl <;> simp
  · intro i c' hr
    obtain ⟨rfl, rfl⟩ := Prod.mk.inj (Option.some.inj (hhandling.symm.trans hr))
    exact ready_own h hready

theorem step_inv {s : Service} (h : Inv s) (a : Act) (hq : Meets s a) : Inv (step s a) := by
  unfold step
  by_cases hdead : s.dead = true ∨ s.overrun = true
  · rw [if_pos hdead]
    exact h
  rw [if_neg hdead]
  cases a with
  | accept =>
    dsimp only
    split_ifs with hidle
    · exact acceptConn_inv h (hq hidle)
    · exact h
  | regClear =>
    dsimp only
    split
    · rename_i fd c hpc
      exact regClear_inv h fd c (hq fd c hpc)
    · exact h
  | regRead got =>
    dsimp only
    split
    · rename_i fd c hpc
      exact regRead_inv h fd c got (hq fd c hpc)
    · exact h
  | regCreate =>
    dsimp only
    split
    · rename_i fd c hpc
      exact regCreate_inv h fd c (hq fd c hpc)
    · exact h
  | update =>
    dsimp only
    split
    · exact h.mono' (fun _ _ hc => hc) rfl rfl rfl rfl rfl rfl rfl rfl rfl rfl
    · exact h
  | disconnect c => exact h.mono' (fun _ _ hc => hc) rfl rfl rfl rfl rfl rfl rfl rfl rfl rfl
  | begin fd =>
    dsimp only
    split
    · rename_i c hready
      exact begin_inv h hready (Or.inl ⟨_, rfl⟩)
    · rename_i m hready
      exact begin_inv h hready (Or.inr rfl)
    · exact h
  | ask text =>
    dsimp only
    split
    · rename_i fd c dest hloop
      refine h.move (fun _ _ hi => hi) rfl h.registered (fun _ _ hp => Or.inl hp) rfl (by simp) (by simp) (by simp) ?_
        h.isolated
      intro i c' hr
      exact h.handling i c' (by rw [Service.handling, hloop]; exact hr)
    · exact h
  | send =>
    dsimp only
    split
    · rename_i fd c dest hloop
      refine appSend_inv h hloop ?_
      rintro d rfl
      exact hq fd c d hloop
    · exact h
  | read n =>
    dsimp only
    split
    · rename_i fd m hloop
      split_ifs
      · obtain ⟨a, rest, hstream, rfl, hlen⟩ := hq fd m hloop
        exact modemRead_inv h hloop hstream hlen
      · exact h
    · exact h
  | parse =>
    dsimp only
    split
    · rename_i fd m hloop
      exact modemParse_inv h hloop
    · exact h
  | write =>
    dsimp only
    split
    · rename_i dest hloop
      exact modemWrite_inv h hloop
    · exact h
  | eof =>
    dsimp only
    split
    · rename_i fd c dest hloop
      obtain ⟨hfd, hown⟩ := h.handling fd c (by rw [Service.handling, hloop])
      split_ifs
      · exact engEventUnreg_inv h hfd hown
      · exact h
    · rename_i fd m hloop
      split_ifs
      · exact modemEof_inv h hloop
      · exact h
    · exact h
  | monitorEof fd =>
    dsimp only
    split
    · rename_i c hready
      obtain ⟨hfd, hown⟩ := ready_own h hready
      split_ifs
      · exact engEventUnreg_inv h hfd hown
      · exact h
    · exact h
  | drain fd text =>
    dsimp only
    split
    · rename_i k c hready
      split_ifs
      · have hidle := (ready_spec hready).1
        exact h.mono (fun _ _ hc => hc) h.tableMax h.registered rfl rfl rfl (Or.inr (by simp [Service.usesReadBuf, hidle]))
          (fun _ hp => Or.inl hp) h.isolated
      · exact h
    · exact h
  | clear =>
    dsimp only
    split
    · rename_i i fd c hloop
      refine h.move (fun _ _ hi => hi) rfl h.registered (fun _ _ hp => Or.inl hp) rfl (by simp) (by simp) (by simp) ?_
        h.isolated
      intro j c' hr
      exact h.handling j c' (by rw [Service.handling, hloop]; exact hr)
    · exact h
  | close =>
    dsimp only
    split
    · rename_i fd c hloop
      obtain ⟨-, hown⟩ := h.handling fd c (by rw [Service.handling, hloop])
      exact h.move (fun _ _ hi => (conn_closeFor s fd c hi).1) rfl h.registered (fun _ _ hp => Or.inl hp) rfl (by simp)
        (by simp) (by simp) (fun _ _ hr => by simp [Service.handling] at hr) (closeFor_isolated h hown)
    · exact h
  | answer m data =>
    dsimp only
    split
    · rename_i fd asker inbox hin
      exact answer_inv h data hin
    · exact h

/-- **Isolation.** In every run whose steps meet the condition, no text leaves its buffer, every answer goes to the
connection that asked for it, and every removal closes the connection it removes and no other. -/
theorem isolation (own : ℕ) (acts : List Act) (h : Along step Meets (boot own) acts) (n : ℕ) :
    Isolated ((acts.take n).foldl step (boot own)) := by
  have hsplit : Along step Meets (boot own) (acts.take n ++ acts.drop n) := by rwa [List.take_append_drop]
  have hpre := ((along_append (boot own) (acts.take n) (acts.drop n)).mp hsplit).1
  have hstep : ∀ s a, Inv s → Meets s a → Inv (step s a) := fun _ a hs hq => step_inv hs a hq
  exact (inv_of_along hstep (boot_inv own) hpre).isolated

/-- a client that connects and gives this name -/
def connect (name : List UInt8) : List Act := [.accept, .regClear, .regRead (some name), .regCreate, .update]

/-- a monitor, a modem client and an application on descriptors 3, 4 and 5 -/
def threeClients : List Act := connect ENG_MONITOR ++ (connect ENG_MODEM ++ connect ENG_APPCLIENT)

/-- the application asks "1" -/
def request : List Act := [.begin 5, .ask [49], .send]

/-- the modem client answers "OK" -/
def reply : List Act := [.answer 1 [79, 75], .begin 4, .read 4]

/-- the application asks and is answered -/
def askAndAnswer : List Act := threeClients ++ (request ++ (reply ++ [.parse, .write]))

/-- the application's end is noticed -/
def leave : List Act := [.disconnect 2, .begin 5, .eof]

/-- the application asks and leaves, and the next client is given its descriptor before the answer -/
def askAndLeave : List Act :=
  threeClients ++ (request ++ (leave ++ ([.clear, .close, .accept] ++ (reply ++ [.parse, .write]))))

/-- the application leaves, and the next client is given its descriptor within the removal -/
def leaveAndConnect : List Act := threeClients ++ (leave ++ [.accept, .clear, .close])

/-- the next client, on descriptor 6, gives the name "6" while the answer for 5 is in `eng_read_buf` -/
def askAndName : List Act :=
  threeClients ++ (request ++ ([.accept, .regClear] ++ (reply ++ [.regRead (some [54]), .parse, .write])))

/-- with the loop idle and nothing under way a client may connect -/
theorem meets_quiet {s : Service} (hloop : s.loop = .idle) (hinbox : s.inbox = fun _ => [])
    (hstream : s.stream = fun _ => []) : Meets s .accept ∧ Meets s .regClear ∧ ∀ got, Meets s (.regRead got) := by
  simp [Meets, Service.handling, Service.usesReadBuf, Carried, hloop, hinbox, hstream]

theorem isolation_askAndAnswer :
    Along step Meets (boot 3) askAndAnswer ∧ ∀ n, Isolated ((askAndAnswer.take n).foldl step (boot 3)) := by
  have h : Along step Meets (boot 3) askAndAnswer := by
    refine ⟨(meets_quiet rfl rfl rfl).1, (meets_quiet rfl rfl rfl).2.1, (meets_quiet rfl rfl rfl).2.2 _,
      fun _ _ _ => rfl, trivial, (meets_quiet rfl rfl rfl).1, (meets_quiet rfl rfl rfl).2.1,
      (meets_quiet rfl rfl rfl).2.2 _, fun _ _ _ => rfl, trivial, (meets_quiet rfl rfl rfl).1,
      (meets_quiet rfl rfl rfl).2.1, (meets_quiet rfl rfl rfl).2.2 _, fun _ _ _ => rfl, trivial, trivial, trivial, ?_,
      trivial, trivial, ?_, trivial, trivial, trivial⟩
    · intro fd c d hloop
      obtain ⟨rfl, -, -⟩ := LoopPc.appFilled.inj hloop
      exact ⟨by decide +kernel, fun _ => by decide +kernel⟩
    · intro fd m hloop
      obtain ⟨-, rfl⟩ := LoopPc.modemCleared.inj hloop
      exact ⟨⟨5, [79, 75], 2⟩, [], rfl, by decide +kernel, by decide +kernel⟩
  exact ⟨h, isolation 3 askAndAnswer h⟩

/-- An answer is for a descriptor that is somebody else's by now, a removal closes its descriptor twice, and a name is read
over an answer. -/
theorem isolation_broken :
    ¬(∀ p ∈ (askAndLeave.foldl step (boot 3)).written, p.1 = p.2) ∧
      ¬(∀ p ∈ (leaveAndConnect.foldl step (boot 3)).closed, p.1 = p.2) ∧
      ¬∀ p ∈ (askAndName.foldl step (boot 3)).written, p.1 = p.2 := by
  decide +kernel

end SprdDevice.EngService
