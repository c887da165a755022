import Libx.Fer.Receiver

/-!
# Libx.Fer.Sender — the sending side of a file transfer

xfer_sender.c, and what xTransferSendFile of xfer.c sets up.
-/

namespace Libx.Fer

open Libx.Agent (Bytes)
open Libx.Turn (Text)

/-- `XFER_DEFAULT_CHUNK_SIZE`. -/
def defaultChunkSize : ℕ := 65536

/-- The file that is sent: the name without its directory, and the content, whose size `ftell` can tell. -/
structure Source where
  filename : Text 255
  content : Bytes
  small : content.length < 9223372036854775808

namespace Source

/-- `send_total_chunks`. -/
def totalChunks (f : Source) : ℕ := chunkCount f.content.length defaultChunkSize

def chunk (i : ℕ) (f : Source) : Bytes := (f.content.drop (i * defaultChunkSize)).take defaultChunkSize

def fileMeta (f : Source) : FileMeta :=
  { filename := f.filename.1.bytes, fileSize := f.content.length, chunkSize := defaultChunkSize
    sha1 := ⟨List.replicate 20 0, List.length_replicate⟩ }

def chunkMessage (i : ℕ) (f : Source) : Bytes := encodeChunkHeader i ++ f.chunk i

def doneMessage (sha1 : Bytes → Digest) (f : Source) : Bytes := encodeFileDone ⟨f.totalChunks, sha1 f.content⟩

end Source

/-- What `xDataChannelSendBinary` returns. -/
inductive SendResult
  | ok | again | error
  deriving DecidableEq, Repr

/-- What one call of `sender_send_next_chunk` meets: whether more is buffered than the high-water mark, whether the
file can be read, what sending a chunk returns, and whether a FILE_DONE is sent. -/
structure Env where
  high : Bool
  read : Bool
  chunk : SendResult
  done : Bool
  deriving DecidableEq

/-- The part of `xTransfer_` that the sender uses; `timers` are the scheduled calls of `sender_schedule_next`. -/
structure Sender where
  state : TransferState := .waitingPeer
  file : Source
  nextChunk : ℕ := 0
  resumeBitmap : Bitmap := {}
  hasResume : Bool := false
  waitingResume : Bool := false
  paused : Bool := false
  waitingAck : Bool := false
  timers : ℕ := 0
  faulted : Bool := false

namespace Sender

/-- `xfer_report_error`. -/
def reportError (s : Sender) : Sender := { s with state := .failed }

/-- The loop that skips what the receiver has, for at most as many chunks as there is fuel. -/
def skipLoop : ℕ → Sender → Sender
  | 0, s => s
  | k + 1, s =>
    if s.nextChunk < s.file.totalChunks ∧ s.hasResume then
      match s.resumeBitmap.test s.nextChunk with
      | none => { s with faulted := true }
      | some true => skipLoop k { s with nextChunk := s.nextChunk + 1 }
      | some false => s
    else s

def skip (s : Sender) : Sender := skipLoop (s.file.totalChunks - s.nextChunk) s

/-- `sender_send_next_chunk`. -/
def sendNextChunk (sha1 : Bytes → Digest) (env : Env) (s : Sender) : Sender × List Bytes :=
  let s := s.skip
  if s.faulted then (s, [])
  else if s.file.totalChunks ≤ s.nextChunk then
    if env.read then
      ({ s with waitingAck := true }, if env.done then [s.file.doneMessage sha1] else [])
    else (s.reportError, [])
  else if env.high then ({ s with paused := true }, [])
  else
    let data := s.file.chunk s.nextChunk
    if ¬ env.read ∨ data = [] ∧ s.nextChunk * defaultChunkSize < s.file.content.length then (s.reportError, [])
    else
      match env.chunk with
      | .again => ({ s with paused := true }, [])
      | .error => (s.reportError, [])
      | .ok =>
        ({ s with nextChunk := s.nextChunk + 1, timers := s.timers + 1 }, [s.file.chunkMessage s.nextChunk])

/-- `sender_on_dc_open`; `ok` tells whether FILE_META is sent. -/
def onOpen (ok : Bool) (s : Sender) : Sender × List Bytes :=
  match encodeFileMeta s.file.fileMeta 512 with
  | none => (s.reportError, [])
  | some buf => ({ s with state := .transferring, waitingResume := true }, if ok then [buf] else [])

/-- `sender_schedule_next`. -/
def onTimer (sha1 : Bytes → Digest) (env : Env) (s : Sender) : Sender × List Bytes :=
  sendNextChunk sha1 env { s with timers := s.timers - 1 }

/-- `sender_on_buffered_amount_low`. -/
def onBufferedAmountLow (sha1 : Bytes → Digest) (env : Env) (s : Sender) : Sender × List Bytes :=
  if s.paused then sendNextChunk sha1 env { s with paused := false } else (s, [])

/-- The bitmap of a FILE_RESUME is taken over; `none` where `xBitmapInit` fails. -/
def takeResume (m : FileResume) (s : Sender) : Option Sender :=
  if m.bitmapLen = 0 then some s
  else
    (Bitmap.init m.totalChunks).map fun bm =>
      let copyLen := min m.bitmapLen bm.data.length
      if m.bitmap.length < copyLen then { s with faulted := true }
      else
        { s with
          resumeBitmap := { bm with data := m.bitmap.take copyLen ++ bm.data.drop copyLen }, hasResume := true }

/-- `sender_on_dc_message`. -/
def onMessage (sha1 : Bytes → Digest) (data : Bytes) (env : Env) (s : Sender) : Sender × List Bytes :=
  match data with
  | [] => (s, [])
  | type :: payload =>
    if type = msgAck then
      if ¬ s.waitingAck then (s, [])
      else
        match decodeFileAck payload with
        | none => (reportError { s with waitingAck := false }, [])
        | some status =>
          ({ s with waitingAck := false, state := if status = 0 then .done else .failed }, [])
    else if type = msgFileResume then
      match decodeFileResume payload with
      | none => (s.reportError, [])
      | some m =>
        if m.totalChunks ≠ s.file.totalChunks then (s.reportError, [])
        else
          match s.takeResume m with
          | none => (s.reportError, [])
          | some s =>
            if s.faulted then (s, [])
            else if s.waitingResume then sendNextChunk sha1 env { s with waitingResume := false } else (s, [])
    else (s, [])

end Sender

end Libx.Fer
