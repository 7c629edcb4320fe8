/-
The NV daemon `nvm_daemon` (`nvitem.c`: `main`, `update_fixnvfile`, `update_backupfile`), one turn for each `read` of
the pipe.

A request is a header of 12 bytes (type, req_type, offset, size) and `size` bytes of data, which arrive in pieces. A data
request for the fixed NV first loads the primary partition into `fixnv_buffer`, then stores the pieces over it, and after
the last one `update_fixnvfile` puts the checksum and the index in and writes the primary partition. A sync command
writes the same buffer to the backup partition if `update_finxn_flag` is set. A read that gives 0 bytes closes the pipe
and starts over with the next header; a negative one is repeated.

The partitions are memories seen from their first byte, and every access to the fixed-NV and product-info partitions
succeeds; the runtime files take what `wRuntime` and `wBackup` say. The buffers are memories of the sizes the source
declares: the source logs a request that is too big and takes it all the same, so a piece can leave its buffer, and then
nothing is known of the daemon any more (`overrun`). A header shorter than 12 bytes leaves the rest of the last one.

`log` lists the images written to the fixed-NV partitions and the sync replies; `torn` says that the last fixed-NV request
was cut off after some of its data. Neither is read by the code.
-/
import Mathlib.Tactic
import SprdDevice.Lib.Word
import SprdDevice.NvItem.Fs
import SprdDevice.NvmDaemon.PhaseCheck

namespace SprdDevice.NvmDaemon

open SprdDevice.Memory SprdDevice.Word
open SprdDevice.RawData (Partition Block)

/-! ## State -/

def DATA_BUF_LEN : ℕ := 2048 * 10

def FIXNV_SIZE : ℕ := 64 * 1024

/-- `sizeof(request_header_t)` -/
def HEADER_SIZE : ℕ := 12

/-- what a data request is for: the three values of `length` -/
inductive Area where
  | fixnv
  | runtimenv
  | productinfo
deriving DecidableEq, Repr

/-- where `main` waits: for a header, or for data with `total` bytes to come -/
inductive Phase where
  | header
  | data (area : Area) (total : ℤ)
  | overrun
deriving DecidableEq, Repr

/-- what the daemon writes to the fixed-NV partitions and to the pipe -/
inductive Eff where
  | fixnv (image : List UInt8)
  | backup (image : List UInt8)
  | reply (head : List UInt8)
deriving DecidableEq, Repr

/-- an open file: its content and the position of the descriptor -/
structure Handle where
  content : Block
  pos : ℕ

structure St where
  phase : Phase
  reqHeader : ℕ → UInt8
  fixnvBuffer : Block
  fixnvBufferOffset : ℕ
  indexvalue : ℕ
  updateFinxnFlag : Bool
  phasecheckBuffer : Block
  phasecheckBufferOffset : ℕ
  fixNv1 : Block
  fixNv2 : Block
  runtimeNv1 : Handle
  runtimeNv2 : Handle
  prodInfo : Partition → Block
  log : List Eff
  torn : Bool

/-- `req_header.type`, `req_type`, `offset` and `size` -/
def St.type (s : St) : ℕ := le16 s.reqHeader 0

def St.reqType (s : St) : ℕ := le16 s.reqHeader 2

def St.offset (s : St) : ℕ := le32 s.reqHeader 4

def St.size (s : St) : ℕ := le32 s.reqHeader 8

/-- what a `read` of the pipe delivers (of which it takes no more than it was asked for), and what the `write` calls on
the two runtime files return -/
structure Turn where
  read : Option (List UInt8)
  wRuntime : ℤ
  wBackup : ℤ

/-! ## The images -/

/-- the checksum, the next index and the end marks set in the image -/
def sealFixnv (buf : Block) (indexvalue size : ℕ) : Block :=
  let sum := NvItem.calcChecksum (cells buf 0 (size - 4))
  let buf := store buf (size - 4) (le16Bytes sum)
  let buf := store buf (size - 2) (le16Bytes ((indexvalue + 1) % 100))
  store buf size [0x5a, 0x5a, 0x5a, 0x5a]

def updateFixnvfile (s : St) (size : ℕ) : St :=
  let buf := sealFixnv s.fixnvBuffer s.indexvalue size
  { s with
    fixnvBuffer := buf
    fixNv1 := copy s.fixNv1 buf (size + 4)
    log := s.log ++ [Eff.fixnv (cells buf 0 (size + 4))] }

def updateBackupfile (s : St) (size : ℕ) : St :=
  { s with
    fixNv2 := copy s.fixNv2 s.fixnvBuffer (size + 4)
    log := s.log ++ [Eff.backup (cells s.fixnvBuffer 0 (size + 4))] }

/-! ## A header -/

/-- the sync command: the backup if the flag is set, and the header sent back with type 0 -/
def sync (s : St) : St :=
  let s := if s.updateFinxnFlag then updateBackupfile s FIXNV_SIZE else s
  let head := store s.reqHeader 0 (le16Bytes 0)
  { s with updateFinxnFlag := false, reqHeader := head, log := s.log ++ [Eff.reply (cells head 0 HEADER_SIZE)] }

/-- the buffer filled with 0xFF and read over from the partition; the index is in its last two bytes -/
def loadFixnv (s : St) : St :=
  let buf := copy (copy s.fixnvBuffer (fun _ => 0xff) (FIXNV_SIZE + 4)) s.fixNv1 (FIXNV_SIZE + 4)
  { s with
    fixnvBuffer := buf
    indexvalue := le16 buf (FIXNV_SIZE - 2)
    fixnvBufferOffset := s.offset
    torn := false }

/-- both runtime files opened and moved to the offset -/
def openRuntimenv (s : St) : St :=
  { s with
    runtimeNv1 := { s.runtimeNv1 with pos := s.offset }
    runtimeNv2 := { s.runtimeNv2 with pos := s.offset } }

def loadProductinfo (s : St) : St :=
  { s with
    phasecheckBuffer := copy (copy s.phasecheckBuffer (fun _ => 0xff) (PRODUCTINFO_SIZE + 8)) (s.prodInfo .partition0)
      (PRODUCTINFO_SIZE + 8)
    phasecheckBufferOffset := s.offset }

/-- what comes after the data loop -/
def finish (area : Area) (s : St) : St :=
  match area with
  | .runtimenv => { s with phase := .header }
  | .productinfo =>
    let (_, buf, flash) := updateProductinfofileEmmc wholeDev s.phasecheckBuffer s.prodInfo .partition0 .partition1
      PRODUCTINFO_SIZE
    { s with phasecheckBuffer := buf, prodInfo := flash, phase := .header }
  | .fixnv => { updateFixnvfile { s with updateFinxnFlag := true } FIXNV_SIZE with phase := .header }

/-- the head of the data loop -/
def loopHead (area : Area) (total : ℤ) (s : St) : St :=
  if total > 0 then { s with phase := .data area total } else finish area s

/-- a header that is there -/
def dispatch (s : St) : St :=
  if s.reqType = 1 then sync s
  else if s.type = 0 then loopHead .fixnv (sint32 s.size) (loadFixnv s)
  else if s.type = 1 then loopHead .runtimenv (sint32 s.size) (openRuntimenv s)
  else if s.type = 2 then loopHead .productinfo (sint32 s.size) (loadProductinfo s)
  else s

def headerTurn (s : St) : Option (List UInt8) → St
  | none => s
  | some bytes =>
    if bytes.take HEADER_SIZE = [] then s
    else dispatch { s with reqHeader := store s.reqHeader 0 (bytes.take HEADER_SIZE) }

/-! ## A piece of data -/

/-- `memcpy` into a buffer of `cap` bytes at `ofs`: none when the piece leaves it -/
def putPiece (buf : Block) (cap ofs : ℕ) (piece : List UInt8) : Option Block :=
  if ofs + piece.length ≤ cap then some (store buf ofs piece) else none

/-- `write` to a runtime file, with its result -/
def Handle.write (h : Handle) (w : ℤ) (piece : List UInt8) : Handle :=
  { content := store h.content h.pos (piece.take w.toNat), pos := h.pos + (piece.take w.toNat).length }

/-- a piece that has arrived, with `total` bytes to come before it -/
def takePiece (area : Area) (total : ℤ) (t : Turn) (s : St) (piece : List UInt8) : St :=
  match area with
  | .runtimenv =>
    -- a failed write goes back to the loop's head with `total` as it was
    if t.wRuntime < 0 then s
    else
      let s := { s with runtimeNv1 := s.runtimeNv1.write t.wRuntime piece }
      if t.wBackup < 0 then s
      else loopHead area (total - piece.length) { s with runtimeNv2 := s.runtimeNv2.write t.wBackup piece }
  | .fixnv =>
    match putPiece s.fixnvBuffer (FIXNV_SIZE + 4) s.fixnvBufferOffset piece with
    | none => { s with phase := .overrun }
    | some buf =>
      loopHead area (total - piece.length)
        { s with fixnvBuffer := buf, fixnvBufferOffset := s.fixnvBufferOffset + piece.length }
  | .productinfo =>
    match putPiece s.phasecheckBuffer (PRODUCTINFO_SIZE + 8) s.phasecheckBufferOffset piece with
    | none => { s with phase := .overrun }
    | some buf =>
      loopHead area (total - piece.length)
        { s with phasecheckBuffer := buf, phasecheckBufferOffset := s.phasecheckBufferOffset + piece.length }

/-- the request is cut off: the pipe is opened again -/
def cutOff (area : Area) (total : ℤ) (s : St) : St :=
  { s with phase := .header, torn := if area = .fixnv then decide (total ≠ sint32 s.size) else s.torn }

def dataTurn (area : Area) (total : ℤ) (t : Turn) (s : St) : St :=
  match t.read with
  | none => s
  | some bytes =>
    let piece := bytes.take (min total.toNat DATA_BUF_LEN)
    if piece = [] then cutOff area total s else takePiece area total t s piece

/-- one `read` of the pipe and what the daemon does with it -/
def step (s : St) (t : Turn) : St :=
  match s.phase with
  | .header => headerTurn s t.read
  | .data area total => dataTurn area total t s
  | .overrun => s

def run (s : St) (ts : List Turn) : St := ts.foldl step s

end SprdDevice.NvmDaemon
