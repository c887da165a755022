import Libx.Core.Overwrite
import Libx.Fer.Bitmap
import Libx.Fer.Protocol
import Libx.Turn.Client

/-!
# Libx.Fer.Receiver — the receiving side of a file transfer

xfer_receiver.c over the VFS of xfer_vfs_posix.c.  A handler is the operations that it goes through, one at a time,
so that a process can stop between any two of them.
-/

namespace Libx.Fer

open Libx.Core (overwrite overwrites)
open Libx.Agent (Bytes cstr)
open Libx.Turn (Text)

/-- `xTransferState`. -/
inductive TransferState
  | idle | waitingPeer | connecting | transferring | done | failed
  deriving DecidableEq, Repr

/-- The content of the files, by path. -/
abbrev Disk := Bytes → Option Bytes

/-- The file at a path, for reading; there is none at the empty path. -/
def Disk.read (path : Bytes) (d : Disk) : Option Bytes := if path = [] then none else d path

def Disk.write (path content : Bytes) (d : Disk) : Disk := Function.update d path (some content)

def Disk.remove (path : Bytes) (d : Disk) : Disk := Function.update d path none

/-- A handle of the VFS: the path, and the writes since the last flush. -/
structure Handle where
  path : Bytes
  pending : List (ℕ × Bytes) := []

def Handle.sync (h : Handle) (d : Disk) : Disk :=
  match d h.path with
  | none => d
  | some content => d.write h.path (overwrites 0 h.pending content)

/-- `posix_truncate`. -/
def posixTruncate (size : ℕ) (content : Bytes) : Bytes :=
  if size = 0 then content else overwrite 0 (size - 1) [0] content

/-- What the handlers of the receiver do, in between which the process can stop. -/
inductive Op
  | loadBitmap | openResume | openPart | truncate | reopen | sendResume | transferring
  | saveOpen | saveHeader | saveBody
  | pwrite (chunkId : ℕ) (data : Bytes)
  | flush | close | verify (sha1 : Digest) | ack (status : UInt8) | fail | rename | remove | finish
  deriving DecidableEq

/-- `xfer_bitmap_save`. -/
def saveBitmap : List Op := [.saveOpen, .saveHeader, .saveBody]

def resumeOps : List Op := .sendResume :: saveBitmap ++ [.transferring]

/-- `XFER_BITMAP_PERSIST_INTERVAL`. -/
def persistInterval : ℕ := 32

/-- The part of `xTransfer_` that the receiver uses; `faulted`: it divided by zero or left a buffer. -/
structure Receiver where
  state : TransferState := .waitingPeer
  destDir : Text 511
  handle : Option Handle := none
  filename : Bytes := []
  filepath : Bytes := []
  bitmapPath : Bytes := []
  filesize : ℕ := 0
  chunkSize : ℕ := 0
  totalChunks : ℕ := 0
  chunksReceived : ℕ := 0
  bytesReceived : ℕ := 0
  bitmap : Bitmap := {}
  todo : List Op := []
  faulted : Bool := false

/-- `snprintf` of a path under the directory into 1024 bytes. -/
def pathIn (dir : Text 511) (name suffix : Bytes) : Bytes := (dir.1.bytes ++ [47] ++ name ++ suffix).take 1023

def partSuffix : Bytes := [46, 112, 97, 114, 116]
def bitmapSuffix : Bytes := [46, 98, 105, 116, 109, 97, 112]

/-- The number of chunks, `(uint32_t)((size + chunk - 1) / chunk)`. -/
def chunkCount (size chunkSize : ℕ) : ℕ :=
  (size + chunkSize - 1) % 18446744073709551616 / chunkSize % 4294967296

namespace Receiver

/-- `xfer_report_error` and the return of the handler. -/
def reportError (r : Receiver) : Receiver := { r with state := .failed, todo := [] }

def startFresh (r : Receiver) : Receiver :=
  match Bitmap.init r.totalChunks with
  | none => r.reportError
  | some bitmap => { r with bitmap, todo := [.openPart, .truncate, .reopen] ++ resumeOps }

/-- `xfer_bitmap_load` of a file into the bitmap of the receiver, and whether it succeeds. -/
def loadInto (content : Option Bytes) (bm : Bitmap) : Bitmap × Bool :=
  match content with
  | none => (bm, false)
  | some content =>
    match bitmapLoad content with
    | some loaded => (loaded, true)
    | none => (if content.length < 4 ∨ Bitmap.init (Libx.Ice.readBE (content.take 4)) = none then bm else {}, false)

/-- A chunk is marked as received, and the bitmap saved once in a while. -/
def mark (chunkId len : ℕ) (r : Receiver) : Receiver :=
  match r.bitmap.set chunkId with
  | none => { r with faulted := true }
  | some bitmap =>
    let chunksReceived := (r.chunksReceived + 1) % 4294967296
    { r with
      bitmap, chunksReceived
      bytesReceived := (r.bytesReceived + len) % 18446744073709551616
      todo := if chunksReceived % persistInterval = 0 then saveBitmap else [] }

/-- One operation of a handler, of which `r.todo` is the rest; `ok` tells whether what it calls succeeds. -/
def exec (sha1 : Bytes → Digest) (op : Op) (ok : Bool) (r : Receiver) (d : Disk) : Receiver × Disk × List Bytes :=
  match op with
  | .loadBitmap =>
    let (bitmap, loaded) := loadInto (if ok then d.read r.bitmapPath else none) r.bitmap
    if loaded then
      if bitmap.nbits = r.totalChunks then ({ r with bitmap, todo := [.openResume] }, d, [])
      else (startFresh { r with bitmap := {} }, d, [])
    else (startFresh { r with bitmap }, d, [])
  | .openResume =>
    if ok ∧ (d.read r.filepath).isSome then
      match r.bitmap.count with
      | none => ({ r with faulted := true }, d, [])
      | some n =>
        ({ r with
          handle := some ⟨r.filepath, []⟩, chunksReceived := n
          bytesReceived := min (n * r.chunkSize) r.filesize, todo := resumeOps }, d, [])
    else (startFresh { r with handle := none, bitmap := {} }, d, [])
  | .openPart =>
    if ok ∧ r.filepath ≠ [] then ({ r with handle := some ⟨r.filepath, []⟩ }, d.write r.filepath [], [])
    else (reportError { r with handle := none }, d, [])
  | .truncate =>
    match d r.filepath with
    | none => (r, d, [])
    | some content => (r, if ok then d.write r.filepath (posixTruncate r.filesize content) else d, [])
  | .reopen =>
    if ok ∧ (d.read r.filepath).isSome then ({ r with handle := some ⟨r.filepath, []⟩ }, d, [])
    else (reportError { r with handle := none }, d, [])
  | .sendResume => (r, d, if ok then [encodeFileResume r.totalChunks r.bitmap.data] else [])
  | .transferring => ({ r with state := .transferring }, d, [])
  | .saveOpen =>
    if ok ∧ r.bitmapPath ≠ [] then (r, d.write r.bitmapPath [], []) else ({ r with todo := r.todo.drop 2 }, d, [])
  | .saveHeader =>
    if ok then (r, d.write r.bitmapPath (bitmapHeader r.totalChunks), []) else ({ r with todo := r.todo.drop 1 }, d, [])
  | .saveBody =>
    (r, if ok then d.write r.bitmapPath (bitmapHeader r.totalChunks ++ r.bitmap.data) else d, [])
  | .pwrite chunkId data =>
    match r.handle with
    | none => (r.mark chunkId data.length, d, [])
    | some h =>
      if ok then
        (mark chunkId data.length
          { r with handle := some { h with pending := h.pending ++ [(chunkId * r.chunkSize, data)] } }, d, [])
      else (r.reportError, d, [])
  | .flush =>
    match r.handle with
    | none => (r, d, [])
    | some h => if ok then ({ r with handle := some { h with pending := [] } }, h.sync d, []) else (r, d, [])
  | .close =>
    match r.handle with
    | none => (r, d, [])
    | some h => ({ r with handle := none }, if ok then h.sync d else d, [])
  | .verify digest =>
    if (if ok then d.read r.filepath else none).map sha1 = some digest then
      ({ r with todo := [.ack 0, .rename, .remove, .finish] }, d, [])
    else ({ r with todo := [.ack 1, .fail] }, d, [])
  | .ack status => (r, d, if ok then [encodeFileAck status] else [])
  | .fail => (r.reportError, d, [])
  | .rename =>
    match (if ok then d.read r.filepath else none) with
    | none => (r, d, [])
    | some content => (r, (d.remove r.filepath).write (pathIn r.destDir r.filename []) content, [])
  | .remove => (r, if ok then d.remove r.bitmapPath else d, [])
  | .finish => ({ r with bitmap := {}, state := .done }, d, [])

/-- `receiver_on_dc_message`, up to the first operation. -/
def onMessage (data : Bytes) (r : Receiver) : Receiver :=
  match data with
  | [] => r
  | type :: payload =>
    if type = msgFileMeta then
      match decodeFileMeta payload with
      | none => r.reportError
      | some m =>
        let filename := (cstr m.filename).bytes
        let r := { r with filename, filesize := m.fileSize, chunkSize := m.chunkSize }
        if m.chunkSize = 0 then { r with faulted := true }
        else
          { r with
            totalChunks := chunkCount m.fileSize m.chunkSize
            filepath := pathIn r.destDir filename partSuffix
            bitmapPath := pathIn r.destDir filename bitmapSuffix
            todo := [.loadBitmap] }
    else if type = msgFileChunk then
      match decodeChunkHeader payload with
      | none => r.reportError
      | some (chunkId, data) =>
        match r.bitmap.test chunkId with
        | none => { r with faulted := true }
        | some true => r
        | some false => { r with todo := [.pwrite chunkId data] }
    else if type = msgFileDone then
      match decodeFileDone payload with
      | none => r.reportError
      | some done =>
        { r with todo := (if r.handle.isSome then [.flush, .close] else []) ++ saveBitmap ++ [.verify done.sha1] }
    else r

end Receiver

/-- A receiver and its disk. -/
structure Host where
  receiver : Receiver
  disk : Disk

namespace Host

/-- The next operation of the handler that is under way. -/
def run (sha1 : Bytes → Digest) (ok : Bool) (h : Host) : Option (Host × List Bytes) :=
  if h.receiver.faulted then none
  else
    match h.receiver.todo with
    | [] => none
    | op :: todo =>
      let (receiver, disk, out) := Receiver.exec sha1 op ok { h.receiver with todo } h.disk
      some ({ receiver, disk }, out)

def deliver (data : Bytes) (h : Host) : Option Host :=
  if h.receiver.faulted ∨ h.receiver.todo ≠ [] then none
  else some { h with receiver := h.receiver.onMessage data }

end Host

end Libx.Fer
