import Libx.Fer.Sender

/-!
# Libx.Fer.Wire — the writers and readers of xfer_protocol.c over buffers of any size
-/

namespace Libx.Fer

open Libx.Agent (Bytes)
open Libx.Ice (readBE writeU32 readBE_writeU16 readBE_writeU32 length_writeU16 length_writeU32 length_writeU64)

/-- A value of one of the five structures; of a chunk, the header and the bytes that follow it. -/
inductive Message
  | fileMeta (m : FileMeta)
  | fileChunk (chunkId : ℕ) (payload : Bytes)
  | fileDone (m : FileDone)
  | fileResume (m : FileResume)
  | ack (status : UInt8)

/-- `xTransferEncodeChunkHeader`. -/
def encodeChunkHeaderIn (chunkId cap : ℕ) : Option Bytes := if cap < 5 then none else some (encodeChunkHeader chunkId)

/-- `xTransferEncodeFileDone`. -/
def encodeFileDoneIn (m : FileDone) (cap : ℕ) : Option Bytes := if cap < 1 + 4 + 20 then none else some (encodeFileDone m)

/-- `xTransferEncodeFileResume`; a pointer to nothing is NULL, and the size that is needed is added up in 32 bits. -/
def encodeFileResumeIn (m : FileResume) (cap : ℕ) : Option Bytes :=
  if m.bitmap = [] ∧ 0 < m.bitmapLen then none
  else if cap < (1 + 4 + 4 + m.bitmapLen) % 4294967296 then none
  else some (msgFileResume :: (writeU32 m.totalChunks ++ (writeU32 m.bitmapLen ++ m.bitmap.take m.bitmapLen)))

/-- `xTransferEncodeFileAck`. -/
def encodeFileAckIn (status : UInt8) (cap : ℕ) : Option Bytes := if cap < 1 + 1 then none else some (encodeFileAck status)

namespace Message

def type : Message → UInt8
  | fileMeta _ => msgFileMeta
  | fileChunk _ _ => msgFileChunk
  | fileDone _ => msgFileDone
  | fileResume _ => msgFileResume
  | ack _ => msgAck

/-- The bytes that the writer puts into a buffer, from its first one on. -/
def encode (cap : ℕ) : Message → Option Bytes
  | fileMeta m => encodeFileMeta m cap
  | fileChunk chunkId _ => encodeChunkHeaderIn chunkId cap
  | fileDone m => encodeFileDoneIn m cap
  | fileResume m => encodeFileResumeIn m cap
  | ack status => encodeFileAckIn status cap

def tail : Message → Bytes
  | fileChunk _ payload => payload
  | _ => []

def decode (type : UInt8) (data : Bytes) : Option Message :=
  if type = msgFileMeta then (decodeFileMeta data).map fileMeta
  else if type = msgFileChunk then (decodeChunkHeader data).map fun x => fileChunk x.1 x.2
  else if type = msgFileDone then (decodeFileDone data).map fileDone
  else if type = msgFileResume then (decodeFileResume data).map fileResume
  else if type = msgAck then (decodeFileAck data).map ack
  else none

/-- The fields are in the ranges of their types, and the pointer is NULL or points to as many bytes as it says. -/
def Valid : Message → Prop
  | fileMeta m => m.filename.length < 65536 ∧ m.fileSize < 18446744073709551616 ∧ m.chunkSize < 4294967296
  | fileChunk chunkId payload => chunkId < 4294967296 ∧ payload.length < 4294967296
  | fileDone m => m.totalChunks < 4294967296
  | fileResume m =>
    m.totalChunks < 4294967296 ∧ m.bitmapLen < 4294967296 ∧ (m.bitmap = [] ∨ m.bitmap.length = m.bitmapLen)
  | ack _ => True

/-- How many bytes after the type byte the value says that it takes. -/
def extent : Message → ℕ
  | fileMeta m => 2 + m.filename.length + 8 + 4 + 20
  | fileChunk _ payload => 4 + payload.length
  | fileDone _ => 4 + 20
  | fileResume m => 4 + 4 + m.bitmapLen
  | ack _ => 1

/-- What is written is within the buffer and is read back as the value. -/
def Exact (cap : ℕ) (m : Message) : Prop :=
  ∀ out, m.encode cap = some out →
    out.length ≤ cap ∧ ∃ data, out ++ m.tail = m.type :: data ∧ decode m.type data = some m

/-- What the reader describes lies in the message, and so does what a sender copies of it. -/
def Inside (type : UInt8) (data : Bytes) : Prop :=
  (∀ m, decode type data = some m → m.extent ≤ data.length) ∧
    ∀ (s s' : Sender) (m : FileResume), decode type data = some (.fileResume m) → s.faulted = false →
      s.takeResume m = some s' → s'.faulted = false

/-- The name has a length that a reader takes, and the length of the bitmap does not wrap beyond the buffer; or the
writer says no. -/
def Fits (cap : ℕ) : Message → Prop
  | fileMeta m => m.filename.length ≤ 255 ∨ cap < 35 + m.filename.length
  | fileResume m => 9 + m.bitmapLen ≤ cap ∨ cap < (9 + m.bitmapLen) % 4294967296 ∨ m.bitmap = [] ∧ 0 < m.bitmapLen
  | _ => True

variable {data : Bytes}

/-- Of a FILE_RESUME: the bytes that its length names are there, or the reader says no. -/
def Told (type : UInt8) (data : Bytes) : Prop :=
  type = msgFileResume →
    8 + readBE ((data.drop 4).take 4) ≤ data.length ∨
      data.length < max 8 ((8 + readBE ((data.drop 4).take 4)) % 4294967296)

end Message

/-! ### Writers -/

open Message

variable {cap : ℕ}

theorem exact_fileMeta_iff {m : FileMeta} (h : (fileMeta m).Valid) :
    (fileMeta m).Exact cap ↔ (fileMeta m).Fits cap := by
  obtain ⟨hname, hsize, hchunk⟩ := h
  unfold Exact Fits
  dsimp only [encode, tail, type]
  by_cases hcap : cap < 35 + m.filename.length
  · have hnone : encodeFileMeta m cap = none := if_pos hcap
    rw [hnone]
    exact ⟨fun _ => .inr hcap, fun _ out hout => nomatch hout⟩
  have hsome : ∃ out, encodeFileMeta m cap = some out := by
    unfold encodeFileMeta
    rw [if_neg hcap]
    exact ⟨_, rfl⟩
  obtain ⟨out, hout⟩ := hsome
  have hlen : out.length = 35 + m.filename.length := by
    have hsha := m.sha1.2
    unfold encodeFileMeta at hout
    rw [if_neg hcap] at hout
    rw [← Option.some.inj hout]
    simp only [List.length_cons, List.length_append, length_writeU16, length_writeU64, length_writeU32, hsha]
    omega
  rw [hout]
  constructor
  · intro hexact
    obtain ⟨-, data, hdata, hdec⟩ := hexact out rfl
    by_contra hno
    -- the reader rejects the length
    have hread : readBE (data.take 2) = m.filename.length := by
      unfold encodeFileMeta at hout
      rw [if_neg hcap] at hout
      rw [← Option.some.inj hout, List.append_nil] at hdata
      rw [← (List.cons.inj hdata).2, List.take_left' (by rfl), readBE_writeU16, Nat.mod_eq_of_lt hname]
    unfold decode at hdec
    obtain ⟨m', hdec, -⟩ := Option.map_eq_some_iff.mp hdec
    unfold decodeFileMeta at hdec
    dsimp only at hdec
    split_ifs at hdec with h1 h2
    exact h2 (.inl (by omega))
  · rintro (hle | hlt) out' hout'
    · obtain rfl := Option.some.inj hout'
      refine ⟨by omega, ?_⟩
      obtain ⟨data, hdata, hdec⟩ := decode_encodeFileMeta hout hle hsize hchunk
      refine ⟨data, by rw [List.append_nil, hdata], ?_⟩
      unfold decode
      rw [if_pos rfl, hdec]
      rfl
    · exact absurd hlt hcap

theorem exact_fileChunk {chunkId : ℕ} {payload : Bytes} (h : (fileChunk chunkId payload).Valid) :
    (fileChunk chunkId payload).Exact cap := by
  obtain ⟨hid, hlen⟩ := h
  intro out hout
  dsimp only [encode] at hout
  unfold encodeChunkHeaderIn at hout
  split_ifs at hout with hcap
  obtain rfl := Option.some.inj hout
  refine ⟨by unfold encodeChunkHeader; rw [List.length_cons, length_writeU32]; omega, writeU32 chunkId ++ payload, rfl, ?_⟩
  change decode msgFileChunk _ = _
  unfold decode
  rw [if_neg (by decide), if_pos rfl, decode_encodeChunk payload hid hlen]
  rfl

theorem exact_fileDone {m : FileDone} (h : (fileDone m).Valid) : (fileDone m).Exact cap := by
  intro out hout
  have hsha := m.sha1.2
  dsimp only [encode] at hout
  unfold encodeFileDoneIn at hout
  split_ifs at hout with hcap
  obtain rfl := Option.some.inj hout
  refine ⟨?_, writeU32 m.totalChunks ++ m.sha1.1, List.append_nil _, ?_⟩
  · unfold encodeFileDone
    rw [List.length_cons, List.length_append, length_writeU32, hsha]
    omega
  change decode msgFileDone _ = _
  unfold decode
  rw [if_neg (by decide), if_neg (by decide), if_pos rfl, decode_encodeFileDone h]
  rfl

theorem exact_ack (status : UInt8) (cap : ℕ) : (ack status).Exact cap := by
  intro out hout
  dsimp only [encode] at hout
  unfold encodeFileAckIn at hout
  split_ifs at hout with hcap
  obtain rfl := Option.some.inj hout
  refine ⟨?_, [status], rfl, rfl⟩
  unfold encodeFileAck
  rw [List.length_cons, List.length_singleton]
  omega

variable {m : FileResume}

theorem decode_fileResume (htotal : m.totalChunks < 4294967296) (hlen : m.bitmapLen < 4294967296)
    (hbm : m.bitmap.length = m.bitmapLen) :
    decode msgFileResume (writeU32 m.totalChunks ++ (writeU32 m.bitmapLen ++ m.bitmap)) = some (fileResume m) := by
  have hread : readBE (((writeU32 m.totalChunks ++ (writeU32 m.bitmapLen ++ m.bitmap)).drop 4).take 4) = m.bitmapLen := by
    rw [List.drop_left' (length_writeU32 _), List.take_left' (length_writeU32 _), readBE_writeU32, Nat.mod_eq_of_lt hlen]
  have hlength : (writeU32 m.totalChunks ++ (writeU32 m.bitmapLen ++ m.bitmap)).length = 8 + m.bitmapLen := by
    rw [List.length_append, List.length_append, length_writeU32, length_writeU32, hbm]
    omega
  unfold decode decodeFileResume
  rw [if_neg (by decide), if_neg (by decide), if_neg (by decide), if_pos rfl, hread, hlength, if_neg (by omega),
    if_neg (by omega), List.take_left' (length_writeU32 _), List.drop_left' (length_writeU32 _),
    List.drop_left' (length_writeU32 _), readBE_writeU32, Nat.mod_eq_of_lt htotal]
  rfl

theorem exact_fileResume_iff (h : (fileResume m).Valid) :
    (fileResume m).Exact cap ↔ (fileResume m).Fits cap := by
  obtain ⟨htotal, hlen, hptr⟩ := h
  unfold Exact Fits
  dsimp only [encode, tail, type]
  by_cases hnull : m.bitmap = [] ∧ 0 < m.bitmapLen
  · have hnone : encodeFileResumeIn m cap = none := if_pos hnull
    rw [hnone]
    exact ⟨fun _ => .inr (.inr hnull), fun _ out hout => nomatch hout⟩
  have hbm : m.bitmap.length = m.bitmapLen := by
    rcases hptr with hnil | hbm
    · rw [hnil, List.length_nil]
      by_contra hne
      exact hnull ⟨hnil, by omega⟩
    · exact hbm
  by_cases hcap : cap < (1 + 4 + 4 + m.bitmapLen) % 4294967296
  · have hnone : encodeFileResumeIn m cap = none := by
      unfold encodeFileResumeIn
      rw [if_neg hnull, if_pos hcap]
    rw [hnone]
    exact ⟨fun _ => .inr (.inl hcap), fun _ out hout => nomatch hout⟩
  have hsome : encodeFileResumeIn m cap =
      some (msgFileResume :: (writeU32 m.totalChunks ++ (writeU32 m.bitmapLen ++ m.bitmap))) := by
    unfold encodeFileResumeIn
    rw [if_neg hnull, if_neg hcap, List.take_of_length_le (Nat.le_of_eq hbm)]
  have hout : (msgFileResume :: (writeU32 m.totalChunks ++ (writeU32 m.bitmapLen ++ m.bitmap))).length =
      9 + m.bitmapLen := by
    rw [List.length_cons, List.length_append, List.length_append, length_writeU32, length_writeU32, hbm]
    omega
  rw [hsome]
  constructor
  · intro hexact
    refine .inl ?_
    rw [← hout]
    exact (hexact _ rfl).1
  · rintro (hle | hlt | hbad) out hout'
    · obtain rfl := Option.some.inj hout'
      exact ⟨hout.trans_le hle, _, List.append_nil _, decode_fileResume htotal hlen hbm⟩
    · exact absurd hlt hcap
    · exact absurd hbad hnull

theorem exact_iff {m : Message} (h : m.Valid) : m.Exact cap ↔ m.Fits cap := by
  cases m with
  | fileMeta m => exact exact_fileMeta_iff h
  | fileChunk chunkId payload => exact ⟨fun _ => trivial, fun _ => exact_fileChunk h⟩
  | fileDone m => exact ⟨fun _ => trivial, fun _ => exact_fileDone h⟩
  | fileResume m => exact exact_fileResume_iff h
  | ack status => exact ⟨fun _ => trivial, fun _ => exact_ack status cap⟩

/-! ### Readers -/

theorem decodeFileResume_eq (h : decodeFileResume data = some m) :
    m.bitmapLen = readBE ((data.drop 4).take 4) ∧ m.bitmap = (data.drop 4).drop 4 ∧ 8 ≤ data.length ∧
      (8 + m.bitmapLen) % 4294967296 ≤ data.length := by
  unfold decodeFileResume at h
  dsimp only at h
  split_ifs at h with h1 h2
  obtain rfl := Option.some.inj h
  exact ⟨rfl, rfl, Nat.le_of_not_lt h1, Nat.le_of_not_lt h2⟩

theorem extent_fileMeta {m : FileMeta} (h : decodeFileMeta data = some m) :
    m.filename.length = readBE (data.take 2) ∧ (fileMeta m).extent ≤ data.length := by
  unfold decodeFileMeta at h
  dsimp only at h
  split_ifs at h with h1 h2
  obtain rfl := Option.some.inj h
  unfold extent
  dsimp only
  rw [List.length_take, List.length_drop]
  omega

theorem extent_fileChunk {payload : Bytes} {chunkId : ℕ} (h : decodeChunkHeader data = some (chunkId, payload)) :
    (fileChunk chunkId payload).extent ≤ data.length := by
  unfold decodeChunkHeader at h
  split_ifs at h with h1
  obtain ⟨-, rfl⟩ := Prod.mk.inj (Option.some.inj h)
  unfold extent
  dsimp only
  rw [List.length_take, List.length_drop]
  omega

theorem extent_le {type : UInt8} {m : Message} (h : decode type data = some m)
    (hres : ∀ r, m = fileResume r → 8 + r.bitmapLen ≤ data.length) : m.extent ≤ data.length := by
  unfold decode at h
  split_ifs at h
  · obtain ⟨x, hx, rfl⟩ := Option.map_eq_some_iff.mp h
    exact (extent_fileMeta hx).2
  · obtain ⟨x, hx, rfl⟩ := Option.map_eq_some_iff.mp h
    exact extent_fileChunk hx
  · obtain ⟨x, hx, rfl⟩ := Option.map_eq_some_iff.mp h
    unfold decodeFileDone at hx
    split_ifs at hx with hlen
    exact Nat.le_of_not_lt hlen
  · obtain ⟨x, hx, rfl⟩ := Option.map_eq_some_iff.mp h
    exact hres x rfl
  · obtain ⟨x, hx, rfl⟩ := Option.map_eq_some_iff.mp h
    cases data with
    | nil => cases hx
    | cons b data => exact Nat.le_add_left 1 _

theorem decode_msgFileResume (data : Bytes) :
    decode msgFileResume data = (decodeFileResume data).map fileResume := by
  unfold decode
  rw [if_neg (by decide), if_neg (by decide), if_neg (by decide), if_pos rfl]

theorem eq_of_decode_fileResume {type : UInt8}
    (h : decode type data = some (fileResume m)) : type = msgFileResume ∧ decodeFileResume data = some m := by
  unfold decode at h
  split_ifs at h with h1 h2 h3 h4 h5
  · obtain ⟨x, -, hx⟩ := Option.map_eq_some_iff.mp h
    cases hx
  · obtain ⟨x, -, hx⟩ := Option.map_eq_some_iff.mp h
    cases hx
  · obtain ⟨x, -, hx⟩ := Option.map_eq_some_iff.mp h
    cases hx
  · obtain ⟨x, hdec, hx⟩ := Option.map_eq_some_iff.mp h
    cases hx
    exact ⟨h4, hdec⟩
  · obtain ⟨x, -, hx⟩ := Option.map_eq_some_iff.mp h
    cases hx

theorem not_faulted_takeResume {s s' : Sender} (h : s.takeResume m = some s')
    (hs : s.faulted = false) (hm : m.bitmapLen ≤ m.bitmap.length) : s'.faulted = false := by
  unfold Sender.takeResume at h
  split_ifs at h
  · obtain rfl := Option.some.inj h
    exact hs
  · obtain ⟨bm, -, rfl⟩ := Option.map_eq_some_iff.mp h
    rw [if_neg (by omega)]
    exact hs

theorem inside_iff (type : UInt8) (data : Bytes) : Inside type data ↔ Told type data := by
  constructor
  · rintro ⟨hextent, -⟩ rfl
    cases hdec : decodeFileResume data with
    | none =>
      unfold decodeFileResume at hdec
      dsimp only at hdec
      split_ifs at hdec <;> omega
    | some m =>
      obtain ⟨hlen, -, -, -⟩ := decodeFileResume_eq hdec
      have hle := hextent (fileResume m) (by rw [decode_msgFileResume, hdec]; rfl)
      unfold extent at hle
      dsimp only at hle
      omega
  · intro htold
    have hres (r : FileResume) (h : decode type data = some (fileResume r)) : 8 + r.bitmapLen ≤ data.length := by
      obtain ⟨htype, hdec⟩ := eq_of_decode_fileResume h
      obtain ⟨hlen, -, h8, hmod⟩ := decodeFileResume_eq hdec
      rcases htold htype with hle | hlt
      · rw [hlen]
        exact hle
      · omega
    refine ⟨fun m hm => extent_le hm (fun r hr => hres r (hr ▸ hm)), fun s s' m hm hs htake => ?_⟩
    refine not_faulted_takeResume htake hs ?_
    have hle := hres m hm
    obtain ⟨-, hdec⟩ := eq_of_decode_fileResume hm
    obtain ⟨-, hbm, -, -⟩ := decodeFileResume_eq hdec
    rw [hbm, List.length_drop, List.length_drop]
    omega

/-- **The wire format is exact** but for names that no reader takes and lengths that wrap. -/
theorem wire_exact_iff (m : Message) (cap : ℕ) (type : UInt8) (data : Bytes) :
    (m.Valid → (m.Exact cap ↔ m.Fits cap)) ∧ (Inside type data ↔ Told type data) :=
  ⟨exact_iff, inside_iff type data⟩

/-- A FILE_RESUME of eight chunks, the first of which is there. -/
theorem wire_exact_resume :
    (fileResume ⟨8, 1, [1]⟩).Exact 10 ∧ Inside msgFileResume [0, 0, 0, 8, 0, 0, 0, 1, 1] :=
  let h := wire_exact_iff (fileResume ⟨8, 1, [1]⟩) 10 msgFileResume [0, 0, 0, 8, 0, 0, 0, 1, 1]
  ⟨(h.1 ⟨by decide, by decide, .inr rfl⟩).mpr (.inl (by decide)), h.2.mpr (fun _ => .inl (by decide))⟩

/-- A FILE_RESUME without a bitmap whose length is 2³² − 8. -/
theorem not_inside_wrapped :
    ¬ ∀ (type : UInt8) (data : Bytes), Inside type data := by
  intro h
  have hle := (h msgFileResume [0, 0, 0, 1, 255, 255, 255, 248]).1
    (fileResume ⟨1, 4294967288, []⟩) (by rw [decode_msgFileResume]; rfl)
  exact absurd hle (by decide)

end Libx.Fer
