import Libx.Fer.Confined
import Libx.Fer.Count

/-!
# Libx.Fer.Bounded — a receiver and any peer
-/

namespace Libx.Fer

open Libx.Core (Run)
open Libx.Agent (Bytes)
open Libx.Turn (Text)
open List Option

/-- What a peer must not be able to break: the receiver neither divides by zero nor leaves a buffer, the number of
chunks is exact, a write goes to the .part file and ends within the size of the file; and between two messages the
counters agree with the bitmap and the size. -/
structure Host.Bounded (h : Host) : Prop where
  sound : h.receiver.faulted = false
  total : h.receiver.totalChunks = (h.receiver.filesize + h.receiver.chunkSize - 1) / h.receiver.chunkSize
  write : ∀ i data todo x, h.receiver.todo = .pwrite i data :: todo → h.receiver.handle = some x →
    x.path = h.receiver.filepath ∧ i * h.receiver.chunkSize + data.length ≤ h.receiver.filesize
  count : h.receiver.todo = [] → h.receiver.chunksReceived = h.receiver.bitmap.setBits
  bytes : h.receiver.todo = [] → h.receiver.bytesReceived ≤ h.receiver.filesize

/-- A FILE_META has a chunk size, and a number of chunks that the arithmetic of 64 bits and of the bitmap holds; a
chunk that is new is one of the file, with a bit of its own, and not longer than its slot.  A fresh start finds no
chunk counted; a resumed one has all chunks, or not the last one, or the last one is full; and what is freed in the
end has counted nothing. -/
def Host.Meets (h : Host) : Host.Input → Prop
  | .message data =>
    (∀ payload m, data = msgFileMeta :: payload → decodeFileMeta payload = some m →
        m.chunkSize ≠ 0 ∧ m.fileSize + m.chunkSize ≤ 18446744073709551616 ∧
          (m.fileSize + m.chunkSize - 1) / m.chunkSize + 7 < 4294967296) ∧
      ∀ payload i bytes, data = msgFileChunk :: payload → decodeChunkHeader payload = some (i, bytes) →
        ¬ h.receiver.bitmap.Has i → i < h.receiver.totalChunks ∧ i < h.receiver.bitmap.nbits ∧
          bytes.length ≤ slot h.receiver.chunkSize h.receiver.filesize i
  | .op ok =>
    match h.receiver.todo.head? with
    | some .loadBitmap =>
      (∃ content bm, ok = true ∧ h.disk.read h.receiver.bitmapPath = some content ∧ bitmapLoad content = some bm ∧
        bm.nbits = h.receiver.totalChunks) ∨ h.receiver.chunksReceived = 0
    | some .openResume =>
      if ok = true ∧ (h.disk.read h.receiver.filepath).isSome then
        h.receiver.chunkSize ∣ h.receiver.filesize ∨ ¬ h.receiver.bitmap.Has (h.receiver.totalChunks - 1) ∨
          ∀ i < h.receiver.totalChunks, h.receiver.bitmap.Has i
      else h.receiver.chunksReceived = 0
    | some .finish => h.receiver.chunksReceived = 0
    | _ => True

/-! ### Bitmaps -/

/-- The buffer has just the bytes for the bits. -/
structure Bitmap.Fitted (bm : Bitmap) : Prop where
  length : bm.data.length = (bm.nbits + 7) / 8
  small : bm.nbits + 7 < 4294967296

namespace Bitmap

variable {bm bm' : Bitmap} {i n : ℕ}

theorem Fitted.fits (h : bm.Fitted) : bm.Fits := by
  have := h.length
  unfold Fits
  omega

theorem fitted_empty : Fitted {} := ⟨rfl, by decide⟩

theorem Fitted.set (h : bm.Fitted) (hs : bm.set i = some bm') : bm'.Fitted :=
  ⟨by rw [length_set hs, nbits_set hs, h.length], by rw [nbits_set hs]; exact h.small⟩

theorem fitted_init (hn : n + 7 < 4294967296) (h : init n = some bm) : bm.Fitted ∧ bm.nbits = n := by
  unfold init at h
  split_ifs at h
  obtain rfl := some.inj h
  refine ⟨⟨?_, hn⟩, rfl⟩
  rw [length_replicate]
  unfold bitsToBytes
  rw [Nat.mod_eq_of_lt hn]

theorem fitted_load {content : Bytes} (h : bitmapLoad content = some bm) (hn : bm.nbits + 7 < 4294967296) :
    bm.Fitted ∧ bm.nbits ≠ 0 := by
  unfold bitmapLoad at h
  dsimp only at h
  split_ifs at h with h1
  cases hinit : Bitmap.init (Libx.Ice.readBE (content.take 4)) with
  | none =>
    rw [hinit] at h
    cases h
  | some new =>
    rw [hinit] at h
    dsimp only at h
    split_ifs at h with h2
    obtain rfl := some.inj h
    obtain ⟨hfit, hnew⟩ := fitted_init hn hinit
    refine ⟨⟨?_, hn⟩, ?_⟩
    · rw [length_take, Nat.min_eq_left (Nat.le_of_not_lt h2), hfit.length, hnew]
    · intro hzero
      unfold init at hinit
      rw [if_pos hzero] at hinit
      cases hinit

theorem filled_eq_zero {g : ℕ → ℕ} (h : bm.setBits = 0) : bm.filled g = 0 := by
  rw [filled_const (c := 0) (fun i hi => absurd hi (not_has_of_setBits h)), Nat.mul_zero]

end Bitmap

/-! ### Between two operations -/

namespace Receiver

variable {r r' : Receiver} {sha1 : Bytes → Digest} {d : Disk} {ok : Bool} {op : Op} {todo : List Op}

/-- The number of chunks is exact and fits. -/
structure Sized (r : Receiver) : Prop where
  total : r.totalChunks = (r.filesize + r.chunkSize - 1) / r.chunkSize
  small : r.totalChunks + 7 < 4294967296
  size : r.filesize < 18446744073709551616

/-- The counters agree with the bitmap. -/
structure Counted (r : Receiver) : Prop where
  fitted : r.bitmap.Fitted
  count : r.chunksReceived = r.bitmap.setBits
  bytes : r.bytesReceived ≤ r.bitmap.filled (slot r.chunkSize r.filesize)

/-- An open handle is one of the .part file, where the file has a chunk at all. -/
def Held (r : Receiver) : Prop := r.totalChunks = 0 ∨ ∀ x, r.handle = some x → x.path = r.filepath

end Receiver

/-- Neither part of how a FILE_META begins, nor a write. -/
def Op.Plain : Op → Prop
  | .loadBitmap | .openResume | .openPart | .pwrite _ _ => False
  | _ => True

/-- What holds of a receiver before the operations of a list. -/
inductive Receiver.Doing (r : Receiver) : List Op → Prop
  | load : r.bitmap.Fitted → r.chunksReceived = r.bitmap.setBits →
      (r.chunksReceived = 0 → r.bytesReceived = 0) → Doing r [.loadBitmap]
  | resume : r.bitmap.Fitted → r.bitmap.nbits = r.totalChunks → r.totalChunks ≠ 0 →
      (r.chunksReceived = 0 → r.bytesReceived = 0) → Doing r [.openResume]
  | opening {todo} : r.Counted → (∀ op ∈ todo, op.Plain) → Doing r (.openPart :: todo)
  | plain {todo} : r.Counted → r.Held → (∀ op ∈ todo, op.Plain) → Doing r todo
  | write {i data} : r.Counted → r.Held → i < r.totalChunks → i < r.bitmap.nbits → ¬ r.bitmap.Has i →
      data.length ≤ slot r.chunkSize r.filesize i → Doing r [.pwrite i data]

namespace Receiver

variable {r r' : Receiver} {sha1 : Bytes → Digest} {d : Disk} {ok : Bool} {op : Op} {todo : List Op}

/-- What holds in every state of a run that meets the condition. -/
structure Sane (r : Receiver) : Prop where
  sound : r.faulted = false
  sized : r.Sized
  doing : r.Doing r.todo

theorem Counted.bytes_zero (h : r.Counted) (h0 : r.chunksReceived = 0) : r.bytesReceived = 0 := by
  have hle := h.bytes
  rw [Bitmap.filled_eq_zero (h.count ▸ h0)] at hle
  exact Nat.le_zero.mp hle

theorem counted_zero (hf : r.bitmap.Fitted) (h0 : r.chunksReceived = 0) (hset : r.bitmap.setBits = 0)
    (hb : r.bytesReceived = 0) : r.Counted := ⟨hf, h0.trans hset.symm, hb ▸ Nat.zero_le _⟩

theorem plain_saveBitmap : ∀ op ∈ saveBitmap, op.Plain := by
  simp only [saveBitmap, mem_cons, not_mem_nil, or_false, forall_eq_or_imp, forall_eq, Op.Plain, and_self]

theorem plain_resumeOps : ∀ op ∈ resumeOps, op.Plain := by
  simp only [resumeOps, saveBitmap, cons_append, nil_append, mem_cons, not_mem_nil, or_false,
    forall_eq_or_imp, forall_eq, Op.Plain, and_self]

theorem plain_nil : ∀ op ∈ ([] : List Op), op.Plain := fun _ h => (not_mem_nil h).elim

theorem sane_startFresh (hs : r.faulted = false) (hz : r.Sized) (hf : r.bitmap.Fitted) (h0 : r.chunksReceived = 0)
    (hset : r.bitmap.setBits = 0) (hb : r.bytesReceived = 0) : Sane r.startFresh := by
  unfold startFresh
  cases hinit : Bitmap.init r.totalChunks with
  | none =>
    have hzero : r.totalChunks = 0 := by
      unfold Bitmap.init at hinit
      split_ifs at hinit with hzero
      exact hzero
    exact ⟨hs, ⟨hz.total, hz.small, hz.size⟩, .plain (counted_zero hf h0 hset hb) (.inl hzero) plain_nil⟩
  | some bm =>
    obtain ⟨hfit, -⟩ := Bitmap.fitted_init hz.small hinit
    refine ⟨hs, ⟨hz.total, hz.small, hz.size⟩, .opening
      (counted_zero hfit h0 (Bitmap.setBits_eq_zero fun i => Bitmap.not_has_init hinit) hb) ?_⟩
    intro op hop
    rcases mem_cons.mp hop with rfl | hop
    · trivial
    rcases mem_cons.mp hop with rfl | hop
    · trivial
    exact plain_resumeOps op hop

theorem loadInto_false {content : Option Bytes} {bm : Bitmap} (h : (loadInto content bm).2 = false) :
    (loadInto content bm).1 = bm ∨ (loadInto content bm).1 = {} := by
  unfold loadInto at h ⊢
  cases content with
  | none => exact .inl rfl
  | some content =>
    dsimp only at h ⊢
    cases hload : bitmapLoad content with
    | some loaded =>
      rw [hload] at h
      cases h
    | none =>
      split_ifs
      · exact .inl rfl
      · exact .inr rfl

theorem loadInto_true {content : Option Bytes} {bm : Bitmap} (h : (loadInto content bm).2 = true) :
    ∃ c, content = some c ∧ bitmapLoad c = some (loadInto content bm).1 := by
  unfold loadInto at h ⊢
  cases content with
  | none => cases h
  | some c =>
    dsimp only at h ⊢
    cases hload : bitmapLoad c with
    | some loaded => exact ⟨c, rfl, hload⟩
    | none =>
      rw [hload] at h
      cases h

theorem loadInto_some {c : Bytes} {bm loaded : Bitmap} (h : bitmapLoad c = some loaded) :
    loadInto (some c) bm = (loaded, true) := by
  unfold loadInto
  dsimp only
  rw [h]

theorem sane_loadBitmap (sha1 : Bytes → Digest) (hs : r.faulted = false) (hz : r.Sized) (hf : r.bitmap.Fitted)
    (hcount : r.chunksReceived = r.bitmap.setBits) (hb : r.chunksReceived = 0 → r.bytesReceived = 0)
    (hmeets : (∃ content bm, ok = true ∧ d.read r.bitmapPath = some content ∧ bitmapLoad content = some bm ∧
      bm.nbits = r.totalChunks) ∨ r.chunksReceived = 0) : Sane (exec sha1 .loadBitmap ok r d).1 := by
  have hread : ∀ c, ok = true → d.read r.bitmapPath = some c → (if ok = true then d.read r.bitmapPath else none) = some c := by
    rintro c rfl hc
    rw [if_pos rfl, hc]
  unfold exec
  dsimp only
  revert hread
  generalize (if ok = true then d.read r.bitmapPath else none) = content
  intro hread
  cases hload : (loadInto content r.bitmap).2 with
  | true =>
    obtain ⟨c, rfl, hbm⟩ := loadInto_true hload
    rw [if_pos rfl]
    by_cases hn : (loadInto (some c) r.bitmap).1.nbits = r.totalChunks
    · rw [if_pos hn]
      obtain ⟨hfit, hne⟩ := Bitmap.fitted_load hbm (by rw [hn]; exact hz.small)
      exact ⟨hs, ⟨hz.total, hz.small, hz.size⟩, .resume hfit hn (hn ▸ hne) hb⟩
    · rw [if_neg hn]
      have h0 : r.chunksReceived = 0 := by
        refine hmeets.resolve_left ?_
        rintro ⟨content, bm, hok, hc, hcontent, hbits⟩
        rw [hread content hok hc, loadInto_some hcontent] at hn
        exact hn hbits
      exact sane_startFresh (r := { r with bitmap := {} }) hs ⟨hz.total, hz.small, hz.size⟩ Bitmap.fitted_empty h0 rfl
        (hb h0)
  | false =>
    rw [if_neg Bool.false_ne_true]
    have h0 : r.chunksReceived = 0 := by
      refine hmeets.resolve_left ?_
      rintro ⟨c, bm, hok, hc, hcontent, -⟩
      rw [hread c hok hc, loadInto_some hcontent] at hload
      cases hload
    rcases loadInto_false hload with hbm | hbm
    · rw [hbm]
      exact sane_startFresh (r := { r with bitmap := r.bitmap }) hs ⟨hz.total, hz.small, hz.size⟩ hf h0 (hcount ▸ h0) (hb h0)
    · rw [hbm]
      exact sane_startFresh (r := { r with bitmap := {} }) hs ⟨hz.total, hz.small, hz.size⟩ Bitmap.fitted_empty h0 rfl
        (hb h0)

theorem slot_full {chunkSize size i : ℕ} (hi : i < (size + chunkSize - 1) / chunkSize)
    (h : chunkSize ∣ size ∨ i ≠ (size + chunkSize - 1) / chunkSize - 1) : slot chunkSize size i = chunkSize := by
  have hpos : 0 < chunkSize := by
    by_contra hzero
    rw [Nat.eq_zero_of_not_pos hzero, Nat.div_zero] at hi
    exact absurd hi (Nat.not_lt_zero i)
  have hlt : i * chunkSize < size := by
    have := (Nat.le_div_iff_mul_le hpos).mp (Nat.succ_le_of_lt hi)
    rw [Nat.succ_mul] at this
    omega
  unfold slot
  have hfull : (i + 1) * chunkSize ≤ size := by
    rcases h with ⟨k, rfl⟩ | hne
    · rw [Nat.mul_comm chunkSize k] at hlt ⊢
      exact Nat.mul_le_mul_right _ (Nat.succ_le_of_lt (Nat.lt_of_mul_lt_mul_right hlt))
    · have hnext : i + 1 < (size + chunkSize - 1) / chunkSize := by omega
      have := (Nat.le_div_iff_mul_le hpos).mp (Nat.succ_le_of_lt hnext)
      rw [Nat.succ_mul] at this
      omega
  rw [Nat.succ_mul] at hfull
  omega

theorem resumed_bytes (hz : r.Sized) (hn : r.bitmap.nbits = r.totalChunks)
    (h : r.chunkSize ∣ r.filesize ∨ ¬ r.bitmap.Has (r.totalChunks - 1) ∨ ∀ i < r.totalChunks, r.bitmap.Has i) :
    min (r.bitmap.setBits * r.chunkSize) r.filesize ≤ r.bitmap.filled (slot r.chunkSize r.filesize) := by
  have hpart (hfull : ∀ i, r.bitmap.Has i → r.chunkSize ∣ r.filesize ∨ i ≠ r.totalChunks - 1) :
      min (r.bitmap.setBits * r.chunkSize) r.filesize ≤ r.bitmap.filled (slot r.chunkSize r.filesize) := by
    rw [Bitmap.filled_const (c := r.chunkSize) (fun i hi => slot_full (hz.total ▸ hn ▸ hi.lt) (hz.total ▸ hfull i hi))]
    exact Nat.min_le_left _ _
  rcases h with hdvd | hlast | hall
  · exact hpart (fun _ _ => .inl hdvd)
  · exact hpart (fun i hi => .inr (fun heq => hlast (heq ▸ hi)))
  · rw [Bitmap.filled_all (fun i hi => hall i (hn ▸ hi)), sum_slot]
    have := r.bitmap.setBits_le
    exact min_le_min (Nat.mul_le_mul_right _ this) le_rfl

theorem sane_openResume (sha1 : Bytes → Digest) (hs : r.faulted = false) (hz : r.Sized) (hf : r.bitmap.Fitted)
    (hn : r.bitmap.nbits = r.totalChunks) (hb : r.chunksReceived = 0 → r.bytesReceived = 0)
    (hmeets : if ok = true ∧ (d.read r.filepath).isSome then
        r.chunkSize ∣ r.filesize ∨ ¬ r.bitmap.Has (r.totalChunks - 1) ∨ ∀ i < r.totalChunks, r.bitmap.Has i
      else r.chunksReceived = 0) : Sane (exec sha1 .openResume ok r d).1 := by
  unfold exec
  by_cases hopen : ok = true ∧ (d.read r.filepath).isSome
  · rw [if_pos hopen] at hmeets ⊢
    rw [Bitmap.count_eq hf.length]
    refine ⟨hs, ⟨hz.total, hz.small, hz.size⟩, .plain ⟨hf, rfl, resumed_bytes hz hn hmeets⟩ (.inr ?_) plain_resumeOps⟩
    rintro x ⟨⟩
    rfl
  · rw [if_neg hopen] at hmeets ⊢
    exact sane_startFresh (r := { r with handle := none, bitmap := {} }) hs ⟨hz.total, hz.small, hz.size⟩
      Bitmap.fitted_empty hmeets rfl (hb hmeets)

theorem sane_openPart (sha1 : Bytes → Digest) (hs : r.faulted = false) (hz : r.Sized) (hc : r.Counted) (htodo : ∀ op ∈ r.todo, op.Plain) :
    Sane (exec sha1 .openPart ok r d).1 := by
  unfold exec
  dsimp only
  split_ifs
  · refine ⟨hs, ⟨hz.total, hz.small, hz.size⟩, .plain ⟨hc.fitted, hc.count, hc.bytes⟩ (.inr ?_) htodo⟩
    rintro x ⟨⟩
    rfl
  · refine ⟨hs, ⟨hz.total, hz.small, hz.size⟩, .plain ⟨hc.fitted, hc.count, hc.bytes⟩ (.inr ?_) plain_nil⟩
    rintro x ⟨⟩

theorem sane_mark {i len : ℕ} (hs : r.faulted = false) (hz : r.Sized) (hc : r.Counted) (hh : r.Held)
    (hi : i < r.bitmap.nbits) (hnot : ¬ r.bitmap.Has i) (hlen : len ≤ slot r.chunkSize r.filesize i) :
    Sane (r.mark i len) := by
  obtain ⟨bm, hset⟩ := Bitmap.set_of_fits (i := i) hc.fitted.fits
  have hfit := hc.fitted.set hset
  have hone := Bitmap.setBits_set hset hi hnot
  have hbytes : r.bytesReceived + len ≤ bm.filled (slot r.chunkSize r.filesize) := by
    rw [Bitmap.filled_set hset hi hnot]
    exact Nat.add_le_add hc.bytes hlen
  have hbound : r.bytesReceived + len < 18446744073709551616 := by
    have hle := hbytes.trans (bm.filled_le _)
    rw [sum_slot] at hle
    exact (hle.trans (Nat.min_le_right _ _)).trans_lt hz.size
  have hcount : (r.chunksReceived + 1) % 4294967296 = bm.setBits := by
    have hle := bm.setBits_le
    have hsmall := hfit.small
    rw [hone, hc.count, Nat.mod_eq_of_lt]
    omega
  unfold mark
  rw [hset]
  refine ⟨hs, ⟨hz.total, hz.small, hz.size⟩, .plain ⟨hfit, hcount, ?_⟩ hh ?_⟩
  · rw [Nat.mod_eq_of_lt hbound]
    exact hbytes
  · dsimp only
    split_ifs
    · exact plain_saveBitmap
    · exact plain_nil

theorem sane_pwrite (sha1 : Bytes → Digest) {i : ℕ} {data : Bytes} (hs : r.faulted = false) (hz : r.Sized) (hc : r.Counted) (hh : r.Held)
    (hi : i < r.bitmap.nbits) (hnot : ¬ r.bitmap.Has i) (hlen : data.length ≤ slot r.chunkSize r.filesize i) :
    Sane (exec sha1 (.pwrite i data) ok r d).1 := by
  unfold exec
  cases hx : r.handle with
  | none => exact sane_mark hs hz hc hh hi hnot hlen
  | some x =>
    dsimp only
    split_ifs
    · refine sane_mark (r := { r with handle := some { x with pending := x.pending ++ [(i * r.chunkSize, data)] } }) hs
        ⟨hz.total, hz.small, hz.size⟩ ⟨hc.fitted, hc.count, hc.bytes⟩ (hh.imp_right ?_) hi hnot hlen
      rintro hpath y ⟨⟩
      exact hpath x hx
    · exact ⟨hs, ⟨hz.total, hz.small, hz.size⟩, .plain ⟨hc.fitted, hc.count, hc.bytes⟩ hh plain_nil⟩

theorem sane_plain (sha1 : Bytes → Digest) (hs : r.faulted = false) (hz : r.Sized) (hc : r.Counted) (hh : r.Held) (hop : op.Plain)
    (htodo : ∀ op ∈ r.todo, op.Plain) (hfinish : op = .finish → r.chunksReceived = 0) :
    Sane (exec sha1 op ok r d).1 := by
  have hdrop (k : ℕ) : ∀ op ∈ r.todo.drop k, op.Plain := fun op hmem => htodo op (mem_of_mem_drop hmem)
  have hstay : Sane r := ⟨hs, hz, .plain hc hh htodo⟩
  have hclosed : Sane { r with handle := none } :=
    ⟨hs, ⟨hz.total, hz.small, hz.size⟩, .plain ⟨hc.fitted, hc.count, hc.bytes⟩ (.inr fun x hx => (nomatch hx)) htodo⟩
  unfold exec
  cases op with
  | loadBitmap | openResume | openPart | pwrite => exact hop.elim
  | truncate =>
    cases d r.filepath with
    | none | some content => exact hstay
  | reopen =>
    dsimp only
    split_ifs
    · refine ⟨hs, ⟨hz.total, hz.small, hz.size⟩, .plain ⟨hc.fitted, hc.count, hc.bytes⟩ (.inr ?_) htodo⟩
      rintro x ⟨⟩
      rfl
    · exact ⟨hs, ⟨hz.total, hz.small, hz.size⟩, .plain ⟨hc.fitted, hc.count, hc.bytes⟩ (.inr fun x hx => (nomatch hx))
        plain_nil⟩
  | saveOpen =>
    dsimp only
    split_ifs
    · exact hstay
    · exact ⟨hs, ⟨hz.total, hz.small, hz.size⟩, .plain ⟨hc.fitted, hc.count, hc.bytes⟩ hh (hdrop 2)⟩
  | saveHeader =>
    dsimp only
    split_ifs
    · exact hstay
    · exact ⟨hs, ⟨hz.total, hz.small, hz.size⟩, .plain ⟨hc.fitted, hc.count, hc.bytes⟩ hh (hdrop 1)⟩
  | flush =>
    cases hx : r.handle with
    | none => exact hstay
    | some x =>
      dsimp only
      split_ifs
      · refine ⟨hs, ⟨hz.total, hz.small, hz.size⟩, .plain ⟨hc.fitted, hc.count, hc.bytes⟩ (hh.imp_right ?_) htodo⟩
        rintro hpath y ⟨⟩
        exact hpath x hx
      · exact hstay
  | close =>
    cases r.handle with
    | none => exact hstay
    | some x => exact hclosed
  | verify digest =>
    dsimp only
    generalize (if ok = true then d.read r.filepath else none).map sha1 = x
    split_ifs
    all_goals
      refine ⟨hs, ⟨hz.total, hz.small, hz.size⟩, .plain ⟨hc.fitted, hc.count, hc.bytes⟩ hh ?_⟩
      simp only [mem_cons, not_mem_nil, or_false, forall_eq_or_imp, forall_eq, Op.Plain, and_self]
  | rename =>
    cases (if ok = true then d.read r.filepath else none) with
    | none | some content => exact hstay
  | finish =>
    have h0 := hfinish rfl
    exact ⟨hs, ⟨hz.total, hz.small, hz.size⟩, .plain ⟨Bitmap.fitted_empty, h0, (hc.bytes_zero h0).le⟩ hh htodo⟩
  | fail => exact ⟨hs, ⟨hz.total, hz.small, hz.size⟩, .plain ⟨hc.fitted, hc.count, hc.bytes⟩ hh plain_nil⟩
  | _ => exact ⟨hs, ⟨hz.total, hz.small, hz.size⟩, .plain ⟨hc.fitted, hc.count, hc.bytes⟩ hh htodo⟩

theorem Doing.nil (h : r.Doing []) : r.Counted ∧ r.Held := by
  cases h with
  | plain hc hh _ => exact ⟨hc, hh⟩

end Receiver

/-! ### Runs -/

namespace Host

variable {dir : Text 511} {d : Disk} {sha1 : Bytes → Digest} {h t : Host}

open Receiver

theorem sane_run {ok : Bool} {out : List Bytes} (hs : h.receiver.Sane) (hmeets : h.Meets (.op ok))
    (ht : h.run sha1 ok = some (t, out)) : t.receiver.Sane := by
  obtain ⟨hsound, hz, hdoing⟩ := hs
  unfold run at ht
  rw [hsound, if_neg Bool.false_ne_true] at ht
  unfold Meets at hmeets
  cases htodo : h.receiver.todo with
  | nil =>
    rw [htodo] at ht
    cases ht
  | cons op todo =>
    rw [htodo] at ht hdoing hmeets
    obtain ⟨rfl, -⟩ := Prod.mk.inj (some.inj ht)
    have hz' : Sized { h.receiver with todo } := ⟨hz.total, hz.small, hz.size⟩
    cases hdoing with
    | load hf hcount hb => exact sane_loadBitmap sha1 (r := { h.receiver with todo := [] }) hsound hz' hf hcount hb hmeets
    | resume hf hn hne hb => exact sane_openResume sha1 (r := { h.receiver with todo := [] }) hsound hz' hf hn hb hmeets
    | opening hc hplain =>
      exact sane_openPart sha1 (r := { h.receiver with todo }) hsound hz' ⟨hc.fitted, hc.count, hc.bytes⟩ hplain
    | plain hc hh hplain =>
      obtain ⟨hop, hrest⟩ := forall_mem_cons.mp hplain
      refine sane_plain sha1 (r := { h.receiver with todo }) hsound hz' ⟨hc.fitted, hc.count, hc.bytes⟩ hh hop hrest ?_
      rintro rfl
      exact hmeets
    | write hc hh hi hbit hnot hlen =>
      exact sane_pwrite sha1 (r := { h.receiver with todo := [] }) hsound hz' ⟨hc.fitted, hc.count, hc.bytes⟩ hh hbit hnot hlen

theorem sane_onMessage {data : Bytes} (hs : h.receiver.Sane) (htodo : h.receiver.todo = [])
    (hmeets : h.Meets (.message data)) : (h.receiver.onMessage data).Sane := by
  obtain ⟨hsound, hz, hdoing⟩ := hs
  obtain ⟨hmeta, hchunk⟩ := hmeets
  have hstay : Sane h.receiver := ⟨hsound, hz, hdoing⟩
  rw [htodo] at hdoing
  obtain ⟨hc, hh⟩ := hdoing.nil
  have herror : Sane h.receiver.reportError :=
    ⟨hsound, ⟨hz.total, hz.small, hz.size⟩, .plain ⟨hc.fitted, hc.count, hc.bytes⟩ hh plain_nil⟩
  unfold onMessage
  cases data with
  | nil => exact hstay
  | cons type payload =>
    dsimp only
    by_cases h1 : type = msgFileMeta
    · rw [if_pos h1]
      cases hdec : decodeFileMeta payload with
      | none => exact herror
      | some m =>
        obtain ⟨hne, hsize, hsmall⟩ := hmeta payload m (h1 ▸ rfl) hdec
        have htotal : chunkCount m.fileSize m.chunkSize = (m.fileSize + m.chunkSize - 1) / m.chunkSize := by
          unfold chunkCount
          rw [Nat.mod_eq_of_lt (a := m.fileSize + m.chunkSize - 1) (by omega), Nat.mod_eq_of_lt (by omega)]
        dsimp only
        rw [if_neg hne]
        refine ⟨hsound, ⟨htotal, ?_, ?_⟩, .load hc.fitted hc.count hc.bytes_zero⟩
        · rw [htotal]
          exact hsmall
        · dsimp only
          omega
    rw [if_neg h1]
    by_cases h2 : type = msgFileChunk
    · rw [if_pos h2]
      cases hdec : decodeChunkHeader payload with
      | none => exact herror
      | some x =>
        obtain ⟨b, hb⟩ := Bitmap.test_of_fits (i := x.1) hc.fitted.fits
        dsimp only
        rw [hb]
        cases b with
        | true => exact hstay
        | false =>
          have hnot : ¬ h.receiver.bitmap.Has x.1 := by
            intro hhas
            cases hb.symm.trans hhas
          obtain ⟨hi, hbit, hlen⟩ := hchunk payload x.1 x.2 (h2 ▸ rfl) hdec hnot
          exact ⟨hsound, ⟨hz.total, hz.small, hz.size⟩,
            .write ⟨hc.fitted, hc.count, hc.bytes⟩ hh hi hbit hnot hlen⟩
    rw [if_neg h2]
    by_cases h3 : type = msgFileDone
    · rw [if_pos h3]
      cases decodeFileDone payload with
      | none => exact herror
      | some m =>
        refine ⟨hsound, ⟨hz.total, hz.small, hz.size⟩, .plain ⟨hc.fitted, hc.count, hc.bytes⟩ hh ?_⟩
        split_ifs <;>
          simp only [saveBitmap, cons_append, nil_append, mem_cons, not_mem_nil, or_false,
            forall_eq_or_imp, forall_eq, Op.Plain, and_self]
    rw [if_neg h3]
    exact hstay

theorem sane_step (hs : h.receiver.Sane) (i : Input) (hmeets : h.Meets i) (ht : h.step sha1 i = some t) :
    t.receiver.Sane := by
  cases i with
  | message data =>
    unfold step deliver at ht
    split_ifs at ht with hbusy
    obtain rfl := some.inj ht
    exact sane_onMessage hs (not_ne_iff.mp (not_or.mp hbusy).2) hmeets
  | op ok =>
    obtain ⟨⟨t', out⟩, hrun, rfl⟩ := map_eq_some_iff.mp ht
    exact sane_run hs hmeets hrun

theorem mul_lt_of_lt_ceil {size chunkSize i : ℕ} (h : i < (size + chunkSize - 1) / chunkSize) : i * chunkSize < size := by
  have hpos : 0 < chunkSize := by
    by_contra hzero
    rw [Nat.eq_zero_of_not_pos hzero, Nat.div_zero] at h
    exact absurd h (Nat.not_lt_zero i)
  have hle := (Nat.le_div_iff_mul_le hpos).mp (Nat.succ_le_of_lt h)
  rw [Nat.succ_mul] at hle
  omega

theorem bounded_of_sane (hs : h.receiver.Sane) : h.Bounded := by
  obtain ⟨hsound, hz, hdoing⟩ := hs
  refine ⟨hsound, hz.total, fun i data todo x htodo hx => ?_, fun htodo => ?_, fun htodo => ?_⟩
  · rw [htodo] at hdoing
    cases hdoing with
    | plain _ _ hplain => exact (hplain _ mem_cons_self).elim
    | write hc hh hi hbit hnot hlen =>
      refine ⟨hh.resolve_left (fun hzero => by omega) x hx, ?_⟩
      have hlt := mul_lt_of_lt_ceil (hz.total ▸ hi)
      unfold slot at hlen
      omega
  · rw [htodo] at hdoing
    exact hdoing.nil.1.count
  · rw [htodo] at hdoing
    have hle := hdoing.nil.1.bytes.trans (Bitmap.filled_le _ _)
    rw [sum_slot] at hle
    exact hle.trans (Nat.min_le_right _ _)

/-- **A receiver is safe** in every run whose messages and operations meet the condition, whatever else the peer
sends and whatever is on disk. -/
theorem bounded_of_run (hrun : Run (Host.step sha1) Meets ⟨{ destDir := dir }, d⟩ t) : t.Bounded := by
  have h0 : Receiver.Sane { destDir := dir } :=
    ⟨rfl, ⟨(Nat.div_zero _).symm, (by decide : 0 + 7 < 4294967296), (by decide : 0 < 18446744073709551616)⟩, .plain ⟨Bitmap.fitted_empty, rfl, Nat.zero_le _⟩ (.inl rfl) plain_nil⟩
  exact bounded_of_sane (hrun.preserves (I := fun h => h.receiver.Sane) (fun _ i _ hs hi ht => sane_step hs i hi ht) h0)

/-- The file "f" of one byte, up to the opening of its .part file. -/
theorem bounded_of_run_named : ∃ t : Host, t.receiver.totalChunks = 1 ∧ t.receiver.todo.head? = some .openPart ∧ t.Bounded := by
  have h1 : Host.step (fun _ => someDigest) ⟨{ destDir := someDir }, fun _ => none⟩ (.message (metaNamed [102])) =
      some ⟨Receiver.onMessage (metaNamed [102]) { destDir := someDir }, fun _ => none⟩ := rfl
  have hmeets : Meets ⟨{ destDir := someDir }, fun _ => none⟩ (.message (metaNamed [102])) := by
    refine ⟨fun payload m hdata hdec => ?_, fun payload i bytes hdata => ?_⟩
    · obtain ⟨-, rfl⟩ := List.cons.inj hdata
      obtain rfl := some.inj hdec
      decide
    · cases (List.cons.inj hdata).1
  have hop : Meets ⟨Receiver.onMessage (metaNamed [102]) { destDir := someDir }, fun _ => none⟩ (.op true) := .inr rfl
  exact ⟨_, rfl, rfl, bounded_of_run (.tail (.single hmeets h1) hop rfl)⟩

/-- FILE_META with a chunk size of zero. -/
theorem not_bounded_zero :
    ¬ ∀ (sha1 : Bytes → Digest) (dir : Text 511) (d : Disk) (t : Host),
      Run (Host.step sha1) (fun _ _ => True) ⟨{ destDir := dir }, d⟩ t → t.Bounded := by
  intro h
  let data : Bytes := msgFileMeta :: (Libx.Ice.writeU16 1 ++ ([102] ++ (Libx.Ice.writeU64 1 ++
    (Libx.Ice.writeU32 0 ++ List.replicate 20 0))))
  have h1 : Host.step (fun _ => someDigest) ⟨{ destDir := someDir }, fun _ => none⟩ (.message data) =
      some ⟨Receiver.onMessage data { destDir := someDir }, fun _ => none⟩ := rfl
  exact absurd (h _ someDir _ _ (.single trivial h1)).sound (by decide)

end Host

end Libx.Fer
