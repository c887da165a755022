import Libx.Ice.Writer

/-!
# Libx.Fer.Protocol — the messages of a file transfer

xfer_protocol.c: the five messages, and that the readers take back what the writers put down.
-/

namespace Libx.Fer

open Libx.Agent (Bytes)
open Libx.Ice (readBE writeU16 writeU32 writeU64 readBE_writeU16 readBE_writeU32 readBE_writeU64)
open List

def msgFileMeta : UInt8 := 1
def msgFileChunk : UInt8 := 2
def msgFileDone : UInt8 := 3
def msgAck : UInt8 := 4
def msgFileResume : UInt8 := 7

/-- A SHA-1 digest: `XFER_SHA1_SIZE` bytes. -/
abbrev Digest := {b : Bytes // b.length = 20}

/-- `xTransferFileMeta`; `filename` is the first `filename_len` bytes of the field. -/
structure FileMeta where
  filename : Bytes
  fileSize : ℕ
  chunkSize : ℕ
  sha1 : Digest

/-- `xTransferFileDone`. -/
structure FileDone where
  totalChunks : ℕ
  sha1 : Digest

/-- `xTransferFileResume`; `bitmap` is what the pointer points to, up to the end of the message. -/
structure FileResume where
  totalChunks : ℕ
  bitmapLen : ℕ
  bitmap : Bytes

/-- `xTransferEncodeFileMeta`. -/
def encodeFileMeta (m : FileMeta) (cap : ℕ) : Option Bytes :=
  if cap < 35 + m.filename.length then none
  else
    some (msgFileMeta :: (writeU16 m.filename.length ++ (m.filename ++ (writeU64 m.fileSize ++
      (writeU32 m.chunkSize ++ m.sha1.1)))))

/-- `xTransferDecodeFileMeta`. -/
def decodeFileMeta (data : Bytes) : Option FileMeta :=
  let nameLen := readBE (data.take 2)
  if data.length < 34 then none
  else if h : nameLen > 255 ∨ data.length < 2 + nameLen + 8 + 4 + 20 then none
  else
    let p := (data.drop 2).drop nameLen
    some
      { filename := (data.drop 2).take nameLen
        fileSize := readBE (p.take 8)
        chunkSize := readBE ((p.drop 8).take 4)
        sha1 := ⟨((p.drop 8).drop 4).take 20, by
          rw [List.length_take, List.length_drop, List.length_drop, List.length_drop, List.length_drop]
          omega⟩ }

/-- `xTransferEncodeChunkHeader` into a buffer of five bytes. -/
def encodeChunkHeader (chunkId : ℕ) : Bytes := msgFileChunk :: writeU32 chunkId

/-- `xTransferDecodeChunkHeader`: the chunk number and the bytes of the chunk, whose number has 32 bits. -/
def decodeChunkHeader (data : Bytes) : Option (ℕ × Bytes) :=
  if data.length < 4 then none
  else some (readBE (data.take 4), (data.drop 4).take ((data.length - 4) % 4294967296))

/-- `xTransferEncodeFileDone`. -/
def encodeFileDone (m : FileDone) : Bytes := msgFileDone :: (writeU32 m.totalChunks ++ m.sha1.1)

/-- `xTransferDecodeFileDone`. -/
def decodeFileDone (data : Bytes) : Option FileDone :=
  if h : data.length < 24 then none
  else
    some
      { totalChunks := readBE (data.take 4)
        sha1 := ⟨(data.drop 4).take 20, by
          rw [List.length_take, List.length_drop]
          omega⟩ }

/-- `xTransferEncodeFileResume` of a whole bitmap, into a buffer that holds it. -/
def encodeFileResume (totalChunks : ℕ) (bitmap : Bytes) : Bytes :=
  msgFileResume :: (writeU32 totalChunks ++ (writeU32 bitmap.length ++ bitmap))

/-- `xTransferDecodeFileResume`; the length that is needed is added up in 32 bits. -/
def decodeFileResume (data : Bytes) : Option FileResume :=
  let bitmapLen := readBE ((data.drop 4).take 4)
  if data.length < 8 then none
  else if data.length < (8 + bitmapLen) % 4294967296 then none
  else some { totalChunks := readBE (data.take 4), bitmapLen, bitmap := (data.drop 4).drop 4 }

/-- `xTransferEncodeFileAck`. -/
def encodeFileAck (status : UInt8) : Bytes := [msgAck, status]

/-- `xTransferDecodeFileAck`. -/
def decodeFileAck (data : Bytes) : Option UInt8 := data.head?

/-! ### Round trips -/

theorem decode_encodeFileMeta {m : FileMeta} {cap : ℕ} {buf : Bytes} (h : encodeFileMeta m cap = some buf)
    (hname : m.filename.length ≤ 255) (hsize : m.fileSize < 18446744073709551616) (hchunk : m.chunkSize < 4294967296) :
    ∃ data, buf = msgFileMeta :: data ∧ decodeFileMeta data = some m := by
  obtain ⟨name, size, chunk, sha1, hsha1⟩ := m
  unfold encodeFileMeta at h
  split_ifs at h
  refine ⟨_, (Option.some.inj h).symm, ?_⟩
  dsimp only at hname hsize hchunk ⊢
  have hlen : readBE ((writeU16 name.length ++ (name ++ (writeU64 size ++ (writeU32 chunk ++ sha1)))).take 2) =
      name.length := by
    rw [take_left' (by rfl), readBE_writeU16]
    omega
  have hdrop : (writeU16 name.length ++ (name ++ (writeU64 size ++ (writeU32 chunk ++ sha1)))).drop 2 =
      name ++ (writeU64 size ++ (writeU32 chunk ++ sha1)) := drop_left' rfl
  have htotal : (writeU16 name.length ++ (name ++ (writeU64 size ++ (writeU32 chunk ++ sha1)))).length =
      34 + name.length := by
    simp only [length_append, hsha1, Libx.Ice.length_writeU16, Libx.Ice.length_writeU64, Libx.Ice.length_writeU32]
    omega
  unfold decodeFileMeta
  simp only [hlen, htotal, hdrop]
  rw [if_neg (by omega), dif_neg (by omega)]
  rw [take_left' rfl]
  simp only [drop_left' (rfl : name.length = name.length), take_left' (Libx.Ice.length_writeU64 size),
    drop_left' (Libx.Ice.length_writeU64 size), take_left' (Libx.Ice.length_writeU32 chunk),
    drop_left' (Libx.Ice.length_writeU32 chunk), readBE_writeU64, readBE_writeU32, Nat.mod_eq_of_lt hsize,
    Nat.mod_eq_of_lt hchunk, take_of_length_le (Nat.le_of_eq hsha1)]

theorem decode_encodeChunk {chunkId : ℕ} (data : Bytes) (hid : chunkId < 4294967296)
    (hlen : data.length < 4294967296) : decodeChunkHeader (writeU32 chunkId ++ data) = some (chunkId, data) := by
  unfold decodeChunkHeader
  rw [take_left' (by rfl), drop_left' (by rfl), readBE_writeU32, length_append,
    Libx.Ice.length_writeU32, if_neg (by omega), Nat.add_sub_cancel_left, Nat.mod_eq_of_lt hid, Nat.mod_eq_of_lt hlen,
    take_length]

theorem decode_encodeFileDone {m : FileDone} (h : m.totalChunks < 4294967296) :
    decodeFileDone (writeU32 m.totalChunks ++ m.sha1.1) = some m := by
  obtain ⟨total, sha1, hsha1⟩ := m
  unfold decodeFileDone
  rw [dif_neg (by rw [length_append, Libx.Ice.length_writeU32, hsha1]; decide)]
  simp only [take_left' (Libx.Ice.length_writeU32 total), drop_left' (Libx.Ice.length_writeU32 total),
    readBE_writeU32, Nat.mod_eq_of_lt h, take_of_length_le (Nat.le_of_eq hsha1)]

theorem decode_encodeFileResume {totalChunks : ℕ} {bitmap : Bytes} (h : totalChunks < 4294967296)
    (hlen : 8 + bitmap.length < 4294967296) :
    decodeFileResume (writeU32 totalChunks ++ (writeU32 bitmap.length ++ bitmap)) =
      some ⟨totalChunks, bitmap.length, bitmap⟩ := by
  unfold decodeFileResume
  simp only [take_left' (Libx.Ice.length_writeU32 totalChunks),
    drop_left' (Libx.Ice.length_writeU32 totalChunks), take_left' (Libx.Ice.length_writeU32 bitmap.length),
    drop_left' (Libx.Ice.length_writeU32 bitmap.length), readBE_writeU32, length_append,
    Libx.Ice.length_writeU32]
  rw [if_neg (by omega), if_neg (by omega), Nat.mod_eq_of_lt h, Nat.mod_eq_of_lt (by omega)]

end Libx.Fer
