import Libx.Fer.Sender

/-!
# Libx.Fer.Honest — the messages about one file, and the paths that they lead to
-/

namespace Libx.Fer

open Libx.Core (overwrite overwrites overwrites_cons getElem?_overwrite_mem getElem?_overwrite_of_lt)
open Libx.Agent (Bytes cstr_bytes)
open Libx.Turn (Text)
open List

variable {f : Source} {dir : Text 511} {sha1 : Bytes → Digest}

/-! ### Paths -/

def Source.partPath (dir : Text 511) (f : Source) : Bytes := pathIn dir f.filename.1.bytes partSuffix
def Source.bitmapPath (dir : Text 511) (f : Source) : Bytes := pathIn dir f.filename.1.bytes bitmapSuffix
def Source.finalPath (dir : Text 511) (f : Source) : Bytes := pathIn dir f.filename.1.bytes []

theorem length_pathIn (dir : Text 511) (f : Source) {suffix : Bytes} (h : suffix.length ≤ 7) :
    (pathIn dir f.filename.1.bytes suffix).length = dir.1.bytes.length + 1 + f.filename.1.bytes.length + suffix.length := by
  have hname := f.filename.2
  unfold pathIn
  rw [length_take, length_append, length_append, length_append, length_singleton]
  omega

theorem length_partPath (dir : Text 511) (f : Source) :
    (f.partPath dir).length = dir.1.bytes.length + 1 + f.filename.1.bytes.length + 5 := length_pathIn dir f (by decide)

theorem length_bitmapPath (dir : Text 511) (f : Source) :
    (f.bitmapPath dir).length = dir.1.bytes.length + 1 + f.filename.1.bytes.length + 7 := length_pathIn dir f (by decide)

theorem length_finalPath (dir : Text 511) (f : Source) :
    (f.finalPath dir).length = dir.1.bytes.length + 1 + f.filename.1.bytes.length := length_pathIn dir f (by decide)

theorem ne_of_length {a b : Bytes} (h : a.length ≠ b.length) : a ≠ b := fun hab => h (by rw [hab])

theorem partPath_ne_nil (dir : Text 511) (f : Source) : f.partPath dir ≠ [] :=
  ne_of_length (by rw [length_partPath, length_nil]; omega)

theorem bitmapPath_ne_nil (dir : Text 511) (f : Source) : f.bitmapPath dir ≠ [] :=
  ne_of_length (by rw [length_bitmapPath, length_nil]; omega)

theorem partPath_ne_bitmapPath (dir : Text 511) (f : Source) : f.partPath dir ≠ f.bitmapPath dir :=
  ne_of_length (by rw [length_partPath, length_bitmapPath]; omega)

theorem partPath_ne_finalPath (dir : Text 511) (f : Source) : f.partPath dir ≠ f.finalPath dir :=
  ne_of_length (by rw [length_partPath, length_finalPath]; omega)

theorem bitmapPath_ne_finalPath (dir : Text 511) (f : Source) : f.bitmapPath dir ≠ f.finalPath dir :=
  ne_of_length (by rw [length_bitmapPath, length_finalPath]; omega)

namespace Disk

variable {d : Disk} {path other content : Bytes}

theorem read_of_ne (h : path ≠ []) : d.read path = d path := if_neg h

theorem read_nil : d.read [] = none := if_pos rfl

@[simp] theorem write_self : d.write path content path = some content := Function.update_self ..

theorem write_of_ne (h : other ≠ path) : d.write path content other = d other := Function.update_of_ne h ..

@[simp] theorem remove_self : d.remove path path = none := Function.update_self ..

theorem remove_of_ne (h : other ≠ path) : d.remove path other = d other := Function.update_of_ne h ..

end Disk

/-! ### Messages -/

theorem totalChunks_lt (f : Source) : f.totalChunks < 4294967296 := Nat.mod_lt _ (by decide)

theorem totalChunks_eq (f : Source) : f.totalChunks = (f.content.length + 65535) / 65536 % 4294967296 := by
  have h := f.small
  unfold Source.totalChunks chunkCount defaultChunkSize
  rw [Nat.mod_eq_of_lt (a := f.content.length + 65536 - 1) (by omega), Nat.add_sub_assoc (by decide)]

variable {i : ℕ}

theorem lt_of_lt_totalChunks (h : i < f.totalChunks) : i * defaultChunkSize < f.content.length := by
  rw [totalChunks_eq] at h
  unfold defaultChunkSize
  omega

theorem length_chunk (f : Source) (i : ℕ) : (f.chunk i).length ≤ 65536 := length_take_le _ _

theorem chunk_ne_nil (h : i < f.totalChunks) : f.chunk i ≠ [] := by
  have hlt := lt_of_lt_totalChunks h
  unfold Source.chunk
  rw [Ne, take_eq_nil_iff, drop_eq_nil_iff]
  rintro (h | h)
  · exact absurd h (by decide)
  · omega

theorem getElem?_chunk {q : ℕ} (h : q < 65536) : (f.chunk i)[q]? = f.content[i * defaultChunkSize + q]? := by
  unfold Source.chunk
  rw [List.getElem?_take_of_lt (show q < defaultChunkSize from h), List.getElem?_drop]

def Source.Honest (sha1 : Bytes → Digest) (data : Bytes) (f : Source) : Prop :=
  encodeFileMeta f.fileMeta 512 = some data ∨ (∃ i < f.totalChunks, data = f.chunkMessage i) ∨ data = f.doneMessage sha1

/-- The receiver knows the file. -/
structure Receiver.Named (dir : Text 511) (f : Source) (r : Receiver) : Prop where
  destDir : r.destDir = dir
  filename : r.filename = f.filename.1.bytes
  filepath : r.filepath = f.partPath dir
  bitmapPath : r.bitmapPath = f.bitmapPath dir
  filesize : r.filesize = f.content.length
  chunkSize : r.chunkSize = defaultChunkSize
  totalChunks : r.totalChunks = f.totalChunks

/-- What the receiver knows of a file. -/
def Receiver.subject (r : Receiver) := (r.destDir, r.filename, r.filepath, r.bitmapPath, r.filesize, r.chunkSize, r.totalChunks)

theorem Receiver.Named.congr {r r' : Receiver} (h : r.Named dir f) (he : r'.subject = r.subject) :
    r'.Named dir f := by
  obtain ⟨h1, h2, h3, h4, h5, h6, h7⟩ := h
  simp only [Receiver.subject, Prod.mk.injEq] at he
  obtain ⟨e1, e2, e3, e4, e5, e6, e7⟩ := he
  exact ⟨e1.trans h1, e2.trans h2, e3.trans h3, e4.trans h4, e5.trans h5, e6.trans h6, e7.trans h7⟩

def Receiver.named (f : Source) (r : Receiver) : Receiver :=
  { r with
    filename := f.filename.1.bytes, filesize := f.content.length, chunkSize := defaultChunkSize
    totalChunks := f.totalChunks, filepath := f.partPath r.destDir, bitmapPath := f.bitmapPath r.destDir
    todo := [.loadBitmap] }

theorem Receiver.named_named (f : Source) (r : Receiver) : (r.named f).Named r.destDir f := ⟨rfl, rfl, rfl, rfl, rfl, rfl, rfl⟩

theorem encodeFileMeta_isSome (f : Source) : ∃ data, encodeFileMeta f.fileMeta 512 = some data := by
  have h := f.filename.2
  unfold encodeFileMeta
  rw [if_neg (by unfold Source.fileMeta; dsimp only; omega)]
  exact ⟨_, rfl⟩

theorem onMessage_fileMeta {data : Bytes} (h : encodeFileMeta f.fileMeta 512 = some data) (r : Receiver) :
    r.onMessage data = r.named f := by
  have hsmall := f.small
  obtain ⟨payload, rfl, hdec⟩ := decode_encodeFileMeta h (f.filename.2)
    (by unfold Source.fileMeta; dsimp only; omega) (show defaultChunkSize < 4294967296 by decide)
  unfold Receiver.onMessage
  dsimp only
  rw [if_pos rfl, hdec]
  unfold Source.fileMeta
  dsimp only
  rw [if_neg (show ¬ defaultChunkSize = 0 by decide), cstr_bytes]
  rfl

theorem onMessage_msgFileChunk {payload data : Bytes} (h : decodeChunkHeader payload = some (i, data)) (r : Receiver) :
    (r.bitmap.test i = none → r.onMessage (msgFileChunk :: payload) = { r with faulted := true }) ∧
      (r.bitmap.test i = some true → r.onMessage (msgFileChunk :: payload) = r) ∧
      (r.bitmap.test i = some false → r.onMessage (msgFileChunk :: payload) = { r with todo := [.pwrite i data] }) := by
  unfold Receiver.onMessage
  dsimp only
  rw [if_neg (by decide), if_pos rfl, h]
  refine ⟨fun ht => ?_, fun ht => ?_, fun ht => ?_⟩ <;> simp only [ht]

theorem onMessage_chunk (h : i < f.totalChunks) (r : Receiver) :
    (r.bitmap.test i = none → r.onMessage (f.chunkMessage i) = { r with faulted := true }) ∧
      (r.bitmap.test i = some true → r.onMessage (f.chunkMessage i) = r) ∧
      (r.bitmap.test i = some false → r.onMessage (f.chunkMessage i) = { r with todo := [.pwrite i (f.chunk i)] }) := by
  have hi := h.trans (totalChunks_lt f)
  have hlen := length_chunk f i
  have hdec := decode_encodeChunk (f.chunk i) hi (by omega)
  unfold Source.chunkMessage encodeChunkHeader
  rw [cons_append]
  exact onMessage_msgFileChunk hdec r

theorem onMessage_done (sha1 : Bytes → Digest) (f : Source) (r : Receiver) :
    r.onMessage (f.doneMessage sha1) =
      { r with
        todo := (if r.handle.isSome then [.flush, .close] else []) ++ saveBitmap ++ [.verify (sha1 f.content)] } := by
  have hdec := decode_encodeFileDone (m := ⟨f.totalChunks, sha1 f.content⟩) (totalChunks_lt f)
  unfold Receiver.onMessage Source.doneMessage encodeFileDone
  dsimp only at hdec ⊢
  rw [if_neg (by decide), if_neg (by decide), if_pos rfl, hdec]

/-! ### Chunks in place -/

/-- The bytes of the chunk are in the file in full. -/
def Source.InPlace (i : ℕ) (p : Bytes) (f : Source) : Prop :=
  i * defaultChunkSize < f.content.length ∧
    ∀ q, i * defaultChunkSize ≤ q → q < (i + 1) * defaultChunkSize → q < f.content.length → p[q]? = f.content[q]?

theorem not_inPlace_nil : ¬ f.InPlace i [] := by
  rintro ⟨hlt, h⟩
  have hq := h _ le_rfl (by rw [Nat.succ_mul]; exact Nat.lt_add_of_pos_right (by decide)) hlt
  rw [List.getElem?_nil, List.getElem?_eq_getElem hlt] at hq
  cases hq

theorem inPlace_overwrite {j : ℕ} {p : Bytes} (h : f.InPlace i p) :
    f.InPlace i (overwrite 0 (j * defaultChunkSize) (f.chunk j) p) := by
  refine ⟨h.1, fun q h1 h2 h3 => ?_⟩
  have hq := h.2 q h1 h2 h3
  by_cases hc : j * defaultChunkSize ≤ q ∧ q < j * defaultChunkSize + (f.chunk j).length
  · have hlen := length_chunk f j
    rw [getElem?_overwrite_mem hc.1 hc.2, getElem?_chunk (by omega), Nat.add_sub_cancel' hc.1]
  · rw [getElem?_overwrite_of_lt, hq]
    · rw [List.getElem?_eq_getElem h3] at hq
      exact (List.getElem?_eq_some_iff.mp hq).1
    · omega

theorem inPlace_overwrites {ws : List (ℕ × Bytes)} {p : Bytes} (h : f.InPlace i p)
    (hws : ∀ w ∈ ws, ∃ j, w = (j * defaultChunkSize, f.chunk j)) : f.InPlace i (overwrites 0 ws p) := by
  induction ws generalizing p with
  | nil => exact h
  | cons w ws ih =>
    obtain ⟨j, rfl⟩ := hws w mem_cons_self
    rw [overwrites_cons]
    exact ih (inPlace_overwrite h) (fun v hv => hws v (mem_cons_of_mem _ hv))

end Libx.Fer
