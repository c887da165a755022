import Libx.Fer.Confined
import Libx.Fer.Owed

/-!
# Libx.Fer.Delivery — an honest transfer

A sender and a receiver at which no operation fails, from any disk, with any pauses.
-/

namespace Libx.Fer

open Libx.Core (overwrites)
open Libx.Agent (Bytes)
open Libx.Turn (Text)
open List

/-! ### What a receiver starts with -/

theorem bitmapLoad_spec {content : Bytes} {bm : Bitmap} (h : bitmapLoad content = some bm) :
    bm.nbits ≠ 0 ∧ bm.data.length = bitsToBytes bm.nbits := by
  unfold bitmapLoad at h
  split_ifs at h with hshort
  dsimp only at h
  cases hinit : Bitmap.init (Libx.Ice.readBE (content.take 4)) with
  | none =>
    rw [hinit] at h
    cases h
  | some fresh =>
    rw [hinit] at h
    unfold Bitmap.init at hinit
    split_ifs at hinit with hzero
    obtain rfl := Option.some.inj hinit
    dsimp only at h
    rw [length_replicate] at h
    split_ifs at h with hlong
    obtain rfl := Option.some.inj h
    exact ⟨hzero, length_take_of_le (Nat.le_of_not_lt hlong)⟩

theorem start_bitmap (dir : Text 511) (d : Disk) (f : Source) :
    (f.start dir d).1.nbits = f.totalChunks ∧ (f.start dir d).1.data.length = bitsToBytes f.totalChunks := by
  unfold Source.start
  cases hres : f.resumed dir d with
  | none => exact ⟨rfl, length_replicate⟩
  | some x =>
    rw [Option.getD_some]
    unfold Source.resumed at hres
    split at hres
    · cases hres
    · rename_i bm hload
      obtain ⟨content, -, hload⟩ := Option.bind_eq_some_iff.mp hload
      split_ifs at hres with hbits
      obtain ⟨p, -, rfl⟩ := Option.map_eq_some_iff.mp hres
      exact ⟨hbits, by rw [(bitmapLoad_spec hload).2, hbits]⟩

theorem fits_of_length {f : Source} {bm : Bitmap} (hsmall : f.totalChunks + 7 < 4294967296)
    (hbits : bm.nbits = f.totalChunks) (hlen : bm.data.length = bitsToBytes f.totalChunks) : bm.Fits := by
  unfold Bitmap.Fits
  rw [hlen, hbits, bitsToBytes, Nat.mod_eq_of_lt hsmall]
  omega

namespace Receiver

/-- A receiver that has the file open and has got some chunks. -/
structure Filing (dir : Text 511) (f : Source) (b : Bitmap) (p : Bytes) (got : List ℕ) (r : Receiver) (d : Disk) :
    Prop where
  named : r.Named dir f
  sound : r.faulted = false
  handle : r.handle = some ⟨f.partPath dir, f.writes got⟩
  part : d (f.partPath dir) = some p
  nbits : r.bitmap.nbits = f.totalChunks
  fits : r.bitmap.Fits
  bits : ∀ i, r.bitmap.Has i ↔ b.Has i ∨ i ∈ got

/-- A receiver that knows its paths. -/
structure Sited (dir : Text 511) (f : Source) (r : Receiver) : Prop where
  destDir : r.destDir = dir
  filename : r.filename = f.filename.1.bytes
  filepath : r.filepath = f.partPath dir
  bitmapPath : r.bitmapPath = f.bitmapPath dir
  sound : r.faulted = false

/-- An operation that only writes .bitmap, or tells that the transfer is under way. -/
def Keeps (op : Op) : Prop := op ∈ saveBitmap ∨ op = .transferring

/-- A receiver that got FILE_META. -/
inductive Opening (dir : Text 511) (f : Source) (d₀ : Disk) (bm : Bitmap) (x : Option Handle) (d : Disk) : List Op → Prop
  | load : d = d₀ → Opening dir f d₀ bm x d [.loadBitmap]
  | resume : d = d₀ → f.resumed dir d₀ = (d₀ (f.partPath dir)).map (fun p => (bm, p)) →
      bm.data.length = bitsToBytes f.totalChunks → Opening dir f d₀ bm x d [.openResume]
  | openPart : f.resumed dir d₀ = none → bm = f.freshBitmap →
      Opening dir f d₀ bm x d ([.openPart, .truncate, .reopen] ++ resumeOps)
  | truncate : f.resumed dir d₀ = none → bm = f.freshBitmap → d (f.partPath dir) = some [] →
      Opening dir f d₀ bm x d ([.truncate, .reopen] ++ resumeOps)
  | reopen : f.resumed dir d₀ = none → bm = f.freshBitmap →
      d (f.partPath dir) = some (posixTruncate f.content.length []) → Opening dir f d₀ bm x d ([.reopen] ++ resumeOps)
  | answer : bm = (f.start dir d₀).1 → x = some ⟨f.partPath dir, []⟩ →
      d (f.partPath dir) = some (f.start dir d₀).2 → Opening dir f d₀ bm x d resumeOps

/-- A receiver that got FILE_DONE, where the writes make `q` of .part. -/
inductive Closing (sha1 : Bytes → Digest) (dir : Text 511) (f : Source) (q : Bytes) (x : Option Handle) (d : Disk) :
    List Op → Prop
  | flush {p : Bytes} {ws : List (ℕ × Bytes)} : x = some ⟨f.partPath dir, ws⟩ → d (f.partPath dir) = some p →
      overwrites 0 ws p = q →
        Closing sha1 dir f q x d ([.flush, .close] ++ saveBitmap ++ [.verify (sha1 f.content)])
  | close : x = some ⟨f.partPath dir, []⟩ → d (f.partPath dir) = some q →
      Closing sha1 dir f q x d ([.close] ++ saveBitmap ++ [.verify (sha1 f.content)])
  | save {ops : List Op} : (∀ op ∈ ops, Keeps op) → d (f.partPath dir) = some q →
      Closing sha1 dir f q x d (ops ++ [.verify (sha1 f.content)])
  | accept : d (f.partPath dir) = some q → sha1 q = sha1 f.content →
      Closing sha1 dir f q x d [.ack 0, .rename, .remove, .finish]
  | refuse : sha1 q ≠ sha1 f.content → Closing sha1 dir f q x d [.ack 1, .fail]

/-- A receiver that has answered FILE_DONE. -/
inductive Over (dir : Text 511) (f : Source) (q : Bytes) (state : TransferState) (d : Disk) : UInt8 → List Op → Prop
  | rename : d (f.partPath dir) = some q → Over dir f q state d 0 [.rename, .remove, .finish]
  | remove : d (f.finalPath dir) = some q → Over dir f q state d 0 [.remove, .finish]
  | finish : d (f.finalPath dir) = some q → Over dir f q state d 0 [.finish]
  | done : d (f.finalPath dir) = some q → state = .done → Over dir f q state d 0 []
  | fail : Over dir f q state d 1 [.fail]
  | failed : state = .failed → Over dir f q state d 1 []

variable {sha1 : Bytes → Digest} {dir : Text 511} {f : Source} {d₀ d : Disk} {r : Receiver} {b : Bitmap} {p q : Bytes}
  {got : List ℕ} {op : Op} {todo : List Op}

/-! ### Opening -/

theorem opening_startFresh (hn : r.Named dir f) (hpos : f.totalChunks ≠ 0) (hres : f.resumed dir d₀ = none) :
    r.startFresh.Named dir f ∧ r.startFresh.faulted = r.faulted ∧
      Opening dir f d₀ r.startFresh.bitmap r.startFresh.handle d r.startFresh.todo := by
  have hinit : Bitmap.init r.totalChunks = some f.freshBitmap := by
    rw [hn.totalChunks]
    exact if_neg hpos
  have hfresh : r.startFresh =
      { r with bitmap := f.freshBitmap, todo := [.openPart, .truncate, .reopen] ++ resumeOps } := by
    rw [startFresh, hinit]
  rw [hfresh]
  exact ⟨⟨hn.destDir, hn.filename, hn.filepath, hn.bitmapPath, hn.filesize, hn.chunkSize, hn.totalChunks⟩, rfl,
    .openPart hres rfl⟩

/-- The receiver has .part open and is about to answer with the bitmap that it starts with. -/
structure Answers (dir : Text 511) (f : Source) (d₀ : Disk) (r : Receiver) (d : Disk) : Prop where
  named : r.Named dir f
  sound : r.faulted = false
  handle : r.handle = some ⟨f.partPath dir, []⟩
  part : d (f.partPath dir) = some (f.start dir d₀).2
  bitmap : r.bitmap = (f.start dir d₀).1
  todo : r.todo = saveBitmap ++ [.transferring]

/-- What comes of an operation of an opening receiver: the next one, the answer, or the count of a bitmap without a
byte. -/
def Opens (dir : Text 511) (f : Source) (d₀ : Disk) (x : Receiver × Disk × List Bytes) : Prop :=
  (x.1.Named dir f ∧ x.1.faulted = false ∧ Opening dir f d₀ x.1.bitmap x.1.handle x.2.1 x.1.todo ∧ x.2.2 = []) ∨
    (Answers dir f d₀ x.1 x.2.1 ∧ x.2.2 = [encodeFileResume f.totalChunks (f.start dir d₀).1.data]) ∨
    (x.1.faulted = true ∧ bitsToBytes f.totalChunks = 0 ∧ x.2.2 = [])

theorem opens_loadBitmap (hn : r.Named dir f) (hs : r.faulted = false) (hpos : f.totalChunks ≠ 0) :
    Opens dir f d₀ (exec sha1 .loadBitmap true r d₀) := by
  have hread : d₀.read r.bitmapPath = d₀ (f.bitmapPath dir) := by
    rw [hn.bitmapPath, Disk.read_of_ne (bitmapPath_ne_nil dir f)]
  unfold exec
  dsimp only
  rw [if_pos rfl, hread]
  have hfresh (bm : Bitmap) (hres : f.resumed dir d₀ = none) :
      Opens dir f d₀ (startFresh { r with bitmap := bm }, d₀, []) := by
    obtain ⟨hn', hs', ho⟩ := opening_startFresh (d := d₀) (hn.congr rfl : Named dir f { r with bitmap := bm }) hpos hres
    exact .inl ⟨hn', hs'.trans hs, ho, rfl⟩
  cases hload : (d₀ (f.bitmapPath dir)).bind bitmapLoad with
  | none =>
    have hres : f.resumed dir d₀ = none := by
      unfold Source.resumed
      rw [hload]
    have hnot : (loadInto (d₀ (f.bitmapPath dir)) r.bitmap).2 = false := by
      unfold loadInto
      cases hc : d₀ (f.bitmapPath dir) with
      | none => rfl
      | some content =>
        rw [hc, Option.bind_some] at hload
        dsimp only
        rw [hload]
    rw [hnot, if_neg Bool.false_ne_true]
    exact hfresh _ hres
  | some bm =>
    obtain ⟨content, hc, hbm⟩ := Option.bind_eq_some_iff.mp hload
    have hloaded : loadInto (d₀ (f.bitmapPath dir)) r.bitmap = (bm, true) := by
      unfold loadInto
      rw [hc]
      dsimp only
      rw [hbm]
    rw [hloaded]
    dsimp only
    rw [if_pos rfl]
    by_cases hbits : bm.nbits = r.totalChunks
    · have hbits' := hbits.trans hn.totalChunks
      have hres : f.resumed dir d₀ = (d₀ (f.partPath dir)).map (fun p => (bm, p)) := by
        unfold Source.resumed
        rw [hload]
        exact if_pos hbits'
      rw [if_pos hbits]
      exact .inl ⟨hn.congr rfl, hs,
        .resume rfl hres (by rw [(bitmapLoad_spec hbm).2, hbits']), rfl⟩
    · have hres : f.resumed dir d₀ = none := by
        unfold Source.resumed
        rw [hload]
        exact if_neg fun h => hbits (h.trans hn.totalChunks.symm)
      rw [if_neg hbits]
      exact hfresh _ hres

theorem count_isSome {bm : Bitmap} (h : bm.data ≠ []) : ∃ n, bm.count = some n := by
  unfold Bitmap.count
  dsimp only
  split_ifs
  · exact ⟨_, rfl⟩
  · exact ⟨_, rfl⟩
  · rw [List.getLast?_eq_some_getLast h]
    exact ⟨_, rfl⟩

theorem opens_openResume (hn : r.Named dir f) (hs : r.faulted = false) (hpos : f.totalChunks ≠ 0)
    (hres : f.resumed dir d₀ = (d₀ (f.partPath dir)).map (fun p => (r.bitmap, p)))
    (hlen : r.bitmap.data.length = bitsToBytes f.totalChunks) : Opens dir f d₀ (exec sha1 .openResume true r d₀) := by
  have hread : d₀.read r.filepath = d₀ (f.partPath dir) := by
    rw [hn.filepath, Disk.read_of_ne (partPath_ne_nil dir f)]
  unfold exec
  dsimp only
  rw [hread]
  cases hpart : d₀ (f.partPath dir) with
  | none =>
    rw [hpart] at hres
    rw [if_neg fun h => Bool.false_ne_true h.2]
    obtain ⟨hn', hs', ho⟩ := opening_startFresh (d := d₀)
      (hn.congr rfl : Named dir f { r with bitmap := {}, handle := none }) hpos hres
    exact .inl ⟨hn', hs'.trans hs, ho, rfl⟩
  | some p =>
    rw [hpart] at hres
    have hstart : f.start dir d₀ = (r.bitmap, p) := by
      unfold Source.start
      rw [hres]
      rfl
    rw [if_pos ⟨rfl, rfl⟩]
    cases hcount : r.bitmap.count with
    | none =>
      have hdata : r.bitmap.data = [] := by
        by_contra hne
        obtain ⟨n, hn⟩ := count_isSome hne
        cases hcount.symm.trans hn
      rw [hdata] at hlen
      exact .inr (.inr ⟨rfl, hlen.symm, rfl⟩)
    | some n =>
      dsimp only
      refine .inl ⟨hn.congr rfl, hs,
        .answer ?_ ?_ ?_, rfl⟩
      · rw [hstart]
      · dsimp only
        rw [hn.filepath]
      · rw [hstart]
        exact hpart

/-- **Opening** goes on, or ends with the answer. -/
theorem opens_exec (hn : r.Named dir f) (hs : r.faulted = false) (hpos : f.totalChunks ≠ 0)
    (h : Opening dir f d₀ r.bitmap r.handle d (op :: r.todo)) :
    Opens dir f d₀ (exec sha1 op true r d) := by
  have hread : d.read r.filepath = d (f.partPath dir) := by
    rw [hn.filepath, Disk.read_of_ne (partPath_ne_nil dir f)]
  generalize htodo : r.todo = todo at h
  cases h with
  | load hd =>
    subst hd
    exact opens_loadBitmap hn hs hpos
  | resume hd hres hlen =>
    subst hd
    exact opens_openResume hn hs hpos hres hlen
  | openPart hres hb =>
    have hne : r.filepath ≠ [] := by
      rw [hn.filepath]
      exact partPath_ne_nil dir f
    unfold exec
    dsimp only
    rw [if_pos ⟨rfl, hne⟩]
    refine .inl ⟨hn.congr rfl, hs, ?_, rfl⟩
    dsimp only
    rw [htodo, hn.filepath]
    exact .truncate hres hb Disk.write_self
  | truncate hres hb hpart =>
    unfold exec
    dsimp only
    rw [hn.filepath, hpart]
    refine .inl ⟨hn, hs, ?_, rfl⟩
    dsimp only
    rw [htodo, if_pos rfl, hn.filesize]
    exact .reopen hres hb Disk.write_self
  | reopen hres hb hpart =>
    unfold exec
    dsimp only
    rw [if_pos ⟨rfl, by rw [hread, hpart]; rfl⟩]
    have hstart : f.start dir d₀ = (f.freshBitmap, posixTruncate f.content.length []) := by
      unfold Source.start
      rw [hres]
      rfl
    refine .inl ⟨hn.congr rfl, hs, ?_, rfl⟩
    dsimp only
    rw [htodo]
    refine .answer (by rw [hstart]; exact hb) ?_ (by rw [hstart]; exact hpart)
    rw [hn.filepath]
  | answer hb hhandle hpart =>
    unfold exec
    dsimp only
    rw [if_pos rfl, hn.totalChunks, hb]
    exact .inr (.inl ⟨⟨hn, hs, hhandle, hpart, hb, htodo⟩, rfl⟩)

theorem Answers.filing (h : Answers dir f d₀ r d) (hsmall : f.totalChunks + 7 < 4294967296) :
    Filing dir f (f.start dir d₀).1 (f.start dir d₀).2 [] r d := by
  obtain ⟨hbits, hlen⟩ := start_bitmap dir d₀ f
  refine ⟨h.named, h.sound, h.handle, h.part, ?_, ?_, fun i => ?_⟩
  · rw [h.bitmap, hbits]
  · rw [h.bitmap]
    exact fits_of_length hsmall hbits hlen
  · rw [h.bitmap]
    exact ⟨.inl, fun h => h.resolve_right not_mem_nil⟩

/-! ### Chunks -/

theorem exec_keeps (sha1 : Bytes → Digest) (hop : Keeps op) (hpath : r.bitmapPath = f.bitmapPath dir) :
    (∃ state, (exec sha1 op true r d).1 = { r with state }) ∧
      (exec sha1 op true r d).2.1 (f.partPath dir) = d (f.partPath dir) ∧ (exec sha1 op true r d).2.2 = [] := by
  have hne : r.bitmapPath ≠ [] := by
    rw [hpath]
    exact bitmapPath_ne_nil dir f
  have hother (content : Bytes) : d.write r.bitmapPath content (f.partPath dir) = d (f.partPath dir) := by
    rw [hpath]
    exact Disk.write_of_ne (partPath_ne_bitmapPath dir f)
  rcases hop with hmem | rfl
  · unfold saveBitmap at hmem
    simp only [mem_cons, not_mem_nil, or_false] at hmem
    unfold exec
    rcases hmem with rfl | rfl | rfl
    · dsimp only
      rw [if_pos ⟨rfl, hne⟩]
      exact ⟨⟨r.state, rfl⟩, hother _, rfl⟩
    all_goals
      dsimp only
      rw [if_pos rfl]
      exact ⟨⟨r.state, rfl⟩, hother _, rfl⟩
  · exact ⟨⟨.transferring, rfl⟩, rfl, rfl⟩

theorem filing_keeps (sha1 : Bytes → Digest) (h : Filing dir f b p got r d) (hop : Keeps op) :
    Filing dir f b p got (exec sha1 op true r d).1 (exec sha1 op true r d).2.1 ∧
      (exec sha1 op true r d).1.todo = r.todo ∧ (exec sha1 op true r d).2.2 = [] := by
  obtain ⟨⟨state, hr⟩, hpart, hout⟩ := exec_keeps (d := d) sha1 hop h.named.bitmapPath
  rw [hr, hout]
  exact ⟨⟨h.named.congr rfl, h.sound, h.handle, hpart.trans h.part, h.nbits, h.fits, h.bits⟩, rfl, rfl⟩

theorem filing_pwrite (sha1 : Bytes → Digest) {i : ℕ} (h : Filing dir f b p got r d) (hi : i < f.totalChunks) :
    Filing dir f b p (got ++ [i]) (exec sha1 (.pwrite i (f.chunk i)) true r d).1
        (exec sha1 (.pwrite i (f.chunk i)) true r d).2.1 ∧
      (∀ op ∈ (exec sha1 (.pwrite i (f.chunk i)) true r d).1.todo, Keeps op) ∧
      (exec sha1 (.pwrite i (f.chunk i)) true r d).2.2 = [] := by
  obtain ⟨bm, hbm⟩ := Bitmap.set_of_fits (i := i) h.fits
  have hwrites : f.writes got ++ [(i * r.chunkSize, f.chunk i)] = f.writes (got ++ [i]) := by
    unfold Source.writes
    rw [map_append, h.named.chunkSize]
    rfl
  unfold exec
  dsimp only
  rw [h.handle]
  dsimp only
  rw [if_pos rfl, hwrites]
  unfold mark
  dsimp only
  rw [hbm]
  refine ⟨⟨h.named.congr rfl, h.sound, rfl, h.part, ?_, h.fits.set hbm, fun j => ?_⟩, fun op hop => ?_, rfl⟩
  · exact (Bitmap.nbits_set hbm).trans h.nbits
  · rw [Bitmap.has_set hbm, h.bits, mem_append, mem_singleton, or_assoc]
    refine or_congr_right (or_congr_right (and_iff_left ?_))
    rw [h.nbits]
    exact hi
  · dsimp only at hop
    split_ifs at hop
    · exact .inl hop
    · exact absurd hop not_mem_nil

theorem filing_chunk {i : ℕ} (h : Filing dir f b p got r d) (hi : i < f.totalChunks) (hnot : ¬ b.Has i) (hgot : i ∉ got) :
    r.onMessage (f.chunkMessage i) = { r with todo := [.pwrite i (f.chunk i)] } := by
  obtain ⟨bit, htest⟩ := Bitmap.test_of_fits (i := i) h.fits
  cases bit with
  | true => exact absurd ((h.bits i).mp htest) (not_or.mpr ⟨hnot, hgot⟩)
  | false => exact (onMessage_chunk hi r).2.2 htest

/-! ### The end -/

theorem closing_done (h : Filing dir f b p got r d) (hq : overwrites 0 (f.writes got) p = q) :
    Closing sha1 dir f q (r.onMessage (f.doneMessage sha1)).handle d (r.onMessage (f.doneMessage sha1)).todo := by
  rw [onMessage_done, if_pos (by rw [h.handle]; rfl)]
  exact .flush h.handle h.part hq

theorem sited_exec (sha1 : Bytes → Digest) (ok : Bool) (hs : Sited dir f r) (hcount : op ≠ .openResume)
    (hmark : ∀ i data, op ≠ .pwrite i data) : Sited dir f (exec sha1 op ok r d).1 := by
  have hsame := same_exec sha1 op ok r d
  refine ⟨hsame.destDir.trans hs.destDir, hsame.filename.trans hs.filename, hsame.filepath.trans hs.filepath,
    hsame.bitmapPath.trans hs.bitmapPath, ?_⟩
  have hfresh (bm : Bitmap) : (startFresh { r with bitmap := bm }).faulted = false := by
    unfold startFresh
    cases Bitmap.init r.totalChunks with
    | none | some bm' => exact hs.sound
  unfold exec
  cases op with
  | openResume => exact absurd rfl hcount
  | pwrite i data => exact absurd rfl (hmark i data)
  | loadBitmap =>
    dsimp only
    generalize loadInto (if ok = true then d.read r.bitmapPath else none) r.bitmap = x
    split_ifs
    · exact hs.sound
    · exact hfresh _
    · exact hfresh _
  | openPart | reopen | saveOpen | saveHeader =>
    dsimp only
    split_ifs
    · exact hs.sound
    · exact hs.sound
  | verify digest =>
    dsimp only
    generalize (if ok = true then d.read r.filepath else none).map sha1 = x
    split_ifs
    · exact hs.sound
    · exact hs.sound
  | truncate =>
    dsimp only
    cases d r.filepath with
    | none | some content => exact hs.sound
  | flush =>
    dsimp only
    cases r.handle with
    | none => exact hs.sound
    | some x =>
      dsimp only
      split_ifs
      · exact hs.sound
      · exact hs.sound
  | close =>
    dsimp only
    cases r.handle with
    | none | some x => exact hs.sound
  | rename =>
    dsimp only
    cases (if ok = true then d.read r.filepath else none) with
    | none | some content => exact hs.sound
  | _ => exact hs.sound

theorem Closing.apart {x : Option Handle} (h : Closing sha1 dir f q x d (op :: todo)) :
    op ≠ .openResume ∧ ∀ i data, op ≠ .pwrite i data := by
  generalize hops : op :: todo = ops at h
  have hkeep (hop : Keeps op) : op ≠ .openResume ∧ ∀ i data, op ≠ .pwrite i data := by
    refine ⟨?_, fun i data => ?_⟩
    · rintro rfl
      rcases hop with hmem | hop
      · exact absurd hmem (by decide)
      · cases hop
    · rintro rfl
      rcases hop with hmem | hop
      · simp [saveBitmap] at hmem
      · cases hop
  cases h with
  | flush | close | accept | refuse =>
    obtain ⟨rfl, -⟩ := cons_eq_cons.mp hops
    exact ⟨nofun, nofun⟩
  | save hkeeps hpart =>
    rename_i ops
    cases ops with
    | nil =>
      obtain ⟨rfl, -⟩ := cons_eq_cons.mp hops
      exact ⟨nofun, nofun⟩
    | cons op' ops =>
      obtain ⟨rfl, -⟩ := cons_eq_cons.mp hops
      exact hkeep (hkeeps op mem_cons_self)

theorem Over.apart {state : TransferState} {status : UInt8} (h : Over dir f q state d status (op :: todo)) :
    op ≠ .openResume ∧ ∀ i data, op ≠ .pwrite i data := by
  cases h with
  | _ => exact ⟨nofun, nofun⟩

/-- **The end**: the writes reach the disk, and the answer follows from what is there. -/
theorem closing_exec (hs : Sited dir f r) (h : Closing sha1 dir f q r.handle d (op :: r.todo)) :
    (Closing sha1 dir f q (exec sha1 op true r d).1.handle (exec sha1 op true r d).2.1 (exec sha1 op true r d).1.todo ∧
        (exec sha1 op true r d).2.2 = []) ∨
      ∃ status, (status = 0 ↔ sha1 q = sha1 f.content) ∧ (exec sha1 op true r d).2.2 = [encodeFileAck status] ∧
        Over dir f q (exec sha1 op true r d).1.state (exec sha1 op true r d).2.1 status (exec sha1 op true r d).1.todo := by
  have hread : d.read r.filepath = d (f.partPath dir) := by
    rw [hs.filepath, Disk.read_of_ne (partPath_ne_nil dir f)]
  have hverify (hpart : d (f.partPath dir) = some q) (htodo : op = .verify (sha1 f.content)) :
      Closing sha1 dir f q (exec sha1 op true r d).1.handle (exec sha1 op true r d).2.1 (exec sha1 op true r d).1.todo ∧
        (exec sha1 op true r d).2.2 = [] := by
    subst htodo
    have hsha : (if true = true then d.read r.filepath else none).map sha1 = some (sha1 f.content) ↔
        sha1 q = sha1 f.content := by
      rw [if_pos rfl, hread, hpart, Option.map_some, Option.some_inj]
    unfold exec
    dsimp only
    by_cases hsame : sha1 q = sha1 f.content
    · rw [if_pos (hsha.mpr hsame)]
      exact ⟨.accept hpart hsame, rfl⟩
    · rw [if_neg (mt hsha.mp hsame)]
      exact ⟨.refuse hsame, rfl⟩
  generalize hops : op :: r.todo = ops at h
  cases h with
  | flush hhandle hpart hq =>
    obtain ⟨rfl, htodo⟩ := cons_eq_cons.mp hops
    unfold exec
    dsimp only
    rw [hhandle]
    dsimp only
    rw [if_pos rfl]
    refine .inl ⟨?_, rfl⟩
    dsimp only
    rw [htodo]
    refine .close rfl ?_
    unfold Handle.sync
    dsimp only
    rw [hpart]
    dsimp only
    rw [Disk.write_self, hq]
  | close hhandle hpart =>
    obtain ⟨rfl, htodo⟩ := cons_eq_cons.mp hops
    unfold exec
    dsimp only
    rw [hhandle]
    dsimp only
    rw [if_pos rfl]
    refine .inl ⟨?_, rfl⟩
    rw [htodo]
    refine .save (fun op hop => .inl hop) ?_
    unfold Handle.sync
    dsimp only
    rw [hpart]
    exact Disk.write_self
  | save hkeep hpart =>
    rename_i ops
    cases ops with
    | nil =>
      obtain ⟨hop, -⟩ := cons_eq_cons.mp hops
      exact .inl (hverify hpart hop)
    | cons op' ops =>
      obtain ⟨rfl, htodo⟩ := cons_eq_cons.mp hops
      obtain ⟨⟨state, hr⟩, hpart', hout⟩ := exec_keeps (d := d) sha1 (hkeep op mem_cons_self) hs.bitmapPath
      rw [hr, hout]
      refine .inl ⟨?_, rfl⟩
      dsimp only
      rw [htodo]
      exact .save (fun op hop => hkeep op (mem_cons_of_mem _ hop)) (hpart'.trans hpart)
  | accept hpart hsame =>
    obtain ⟨rfl, htodo⟩ := cons_eq_cons.mp hops
    unfold exec
    dsimp only
    rw [if_pos rfl]
    refine .inr ⟨0, iff_of_true rfl hsame, rfl, ?_⟩
    rw [htodo]
    exact .rename hpart
  | refuse hdiff =>
    obtain ⟨rfl, htodo⟩ := cons_eq_cons.mp hops
    unfold exec
    dsimp only
    rw [if_pos rfl]
    refine .inr ⟨1, iff_of_false (by decide) hdiff, rfl, ?_⟩
    rw [htodo]
    exact .fail

theorem over_exec (sha1 : Bytes → Digest) {status : UInt8} (hn : Sited dir f r)
    (h : Over dir f q r.state d status (op :: r.todo)) :
    Over dir f q (exec sha1 op true r d).1.state (exec sha1 op true r d).2.1 status (exec sha1 op true r d).1.todo ∧
      (exec sha1 op true r d).2.2 = [] := by
  have hread : d.read r.filepath = d (f.partPath dir) := by
    rw [hn.filepath, Disk.read_of_ne (partPath_ne_nil dir f)]
  have hfinal : pathIn r.destDir r.filename [] = f.finalPath dir := by
    rw [hn.destDir, hn.filename]
    rfl
  generalize hops : op :: r.todo = ops at h
  cases h with
  | rename hpart =>
    obtain ⟨rfl, htodo⟩ := cons_eq_cons.mp hops
    unfold exec
    dsimp only
    rw [if_pos rfl, hread, hpart]
    dsimp only
    rw [htodo, hfinal]
    exact ⟨.remove Disk.write_self, rfl⟩
  | remove hpart =>
    obtain ⟨rfl, htodo⟩ := cons_eq_cons.mp hops
    unfold exec
    dsimp only
    rw [if_pos rfl, htodo, hn.bitmapPath]
    exact ⟨.finish ((Disk.remove_of_ne (bitmapPath_ne_finalPath dir f).symm).trans hpart), rfl⟩
  | finish hpart =>
    obtain ⟨rfl, htodo⟩ := cons_eq_cons.mp hops
    unfold exec
    dsimp only
    rw [htodo]
    exact ⟨.done hpart rfl, rfl⟩
  | done | failed => cases hops
  | fail =>
    obtain ⟨rfl, -⟩ := cons_eq_cons.mp hops
    exact ⟨.failed rfl, rfl⟩

end Receiver

/-! ### Both ends -/

def Act.Clean : Act → Prop
  | .open ok | .op ok => ok = true
  | .timer env | .low env | .message env => env.Clean
  | .deliver => True

def Source.patched (dir : Text 511) (d₀ : Disk) (f : Source) : Bytes :=
  overwrites 0 (f.writes (f.owed (f.start dir d₀).1 0)) (f.start dir d₀).2

/-- A receiver between two messages, or with a chunk or .bitmap to write. -/
inductive Receiver.Working (f : Source) (b : Bitmap) (r : Receiver) : List ℕ → Prop
  | keeps : (∀ op ∈ r.todo, Receiver.Keeps op) → Working f b r []
  | writes {i : ℕ} : r.todo = [.pwrite i (f.chunk i)] → Working f b r [i]

/-- The stages of both ends, and what is under way. -/
inductive World.Phase (sha1 : Bytes → Digest) (dir : Text 511) (d₀ : Disk) (f : Source) (w : World) : Prop
  | closed : w = .init dir f d₀ → Phase sha1 dir d₀ f w
  | asked {data : Bytes} : w.opened = true → w.sender.Asking f → w.host = ⟨{ destDir := dir }, d₀⟩ →
      encodeFileMeta f.fileMeta 512 = some data → w.up = [data] → w.down = [] → Phase sha1 dir d₀ f w
  | opening : w.opened = true → w.sender.Asking f → w.host.receiver.Named dir f → w.host.receiver.faulted = false →
      Receiver.Opening dir f d₀ w.host.receiver.bitmap w.host.receiver.handle w.host.disk w.host.receiver.todo → w.up = [] → w.down = [] → Phase sha1 dir d₀ f w
  | answered : w.opened = true → w.sender.Asking f →
      w.host.receiver.Filing dir f (f.start dir d₀).1 (f.start dir d₀).2 [] w.host.disk →
      (∀ op ∈ w.host.receiver.todo, Receiver.Keeps op) → w.up = [] →
      w.down = [encodeFileResume f.totalChunks (f.start dir d₀).1.data] → Phase sha1 dir d₀ f w
  | moving {out : List Bytes} {got busy rest : List ℕ} : w.opened = true →
      w.sender.Owes sha1 f (f.start dir d₀).1 out →
      w.host.receiver.Filing dir f (f.start dir d₀).1 (f.start dir d₀).2 got w.host.disk →
      w.host.receiver.Working f (f.start dir d₀).1 busy → got ++ busy ++ rest = f.owed (f.start dir d₀).1 0 →
      w.up ++ out = f.remaining sha1 rest → w.down = [] → Phase sha1 dir d₀ f w
  | ending : w.opened = true → w.sender.Quiet → w.sender.waitingAck = true → w.host.receiver.Sited dir f →
      Receiver.Closing sha1 dir f (f.patched dir d₀) w.host.receiver.handle w.host.disk w.host.receiver.todo → w.up = [] → w.down = [] →
      Phase sha1 dir d₀ f w
  | acked {status : UInt8} : w.opened = true → w.sender.Quiet → w.sender.waitingAck = true →
      (status = 0 ↔ sha1 (f.patched dir d₀) = sha1 f.content) → w.host.receiver.Sited dir f →
      Receiver.Over dir f (f.patched dir d₀) w.host.receiver.state w.host.disk status w.host.receiver.todo → w.up = [] →
      w.down = [encodeFileAck status] → Phase sha1 dir d₀ f w
  | ended {status : UInt8} : w.opened = true → w.sender.Quiet →
      w.sender.state = (if status = 0 then .done else .failed) →
      (status = 0 ↔ sha1 (f.patched dir d₀) = sha1 f.content) → w.host.receiver.Sited dir f →
      Receiver.Over dir f (f.patched dir d₀) w.host.receiver.state w.host.disk status w.host.receiver.todo → w.up = [] → w.down = [] →
      Phase sha1 dir d₀ f w

namespace Receiver

variable {dir : Text 511} {f : Source} {b : Bitmap} {p : Bytes} {got : List ℕ} {r : Receiver} {d : Disk}

theorem Filing.todo (h : Filing dir f b p got r d) (todo : List Op) : Filing dir f b p got { r with todo } d :=
  ⟨h.named.congr rfl, h.sound, h.handle, h.part, h.nbits, h.fits, h.bits⟩

theorem Sited.todo (h : Sited dir f r) (todo : List Op) : Sited dir f { r with todo } :=
  ⟨h.destDir, h.filename, h.filepath, h.bitmapPath, h.sound⟩

theorem Filing.sited (h : Filing dir f b p got r d) : Sited dir f r :=
  ⟨h.named.destDir, h.named.filename, h.named.filepath, h.named.bitmapPath, h.sound⟩

theorem Sited.onMessage_done (sha1 : Bytes → Digest) (h : Sited dir f r) : Sited dir f (r.onMessage (f.doneMessage sha1)) := by
  rw [Libx.Fer.onMessage_done]
  exact h.todo _

end Receiver

namespace World

variable {sha1 : Bytes → Digest} {dir : Text 511} {f : Source} {d₀ : Disk} {w t : World}

theorem phase_call {x : Sender × List Bytes} (h : w.Phase sha1 dir d₀ f) (hdue : w.sender.timers ≠ 0 ∨ w.sender.paused = true)
    (hcall : ∀ b out, w.sender.Owes sha1 f b out → ∃ out', out = x.2 ++ out' ∧ x.1.Owes sha1 f b out') :
    (w.call x).Phase sha1 dir d₀ f := by
  have hquiet (htimers : w.sender.timers = 0) (hpaused : w.sender.paused = false) : False := by
    rcases hdue with h | h
    · exact h htimers
    · exact Bool.false_ne_true (hpaused.symm.trans h)
  cases h with
  | closed hw =>
    subst hw
    exact (hquiet rfl rfl).elim
  | asked _ hs | opening _ hs | answered _ hs | ending _ hs | acked _ hs | ended _ hs =>
    exact (hquiet hs.timers hs.paused).elim
  | moving hopen howes hfiling hworking hids hup hdown =>
    obtain ⟨out', hout, howes'⟩ := hcall _ _ howes
    refine .moving hopen howes' hfiling hworking hids ?_ hdown
    unfold call
    dsimp only
    rw [append_assoc, ← hout]
    exact hup

theorem phase_message {env : Env} {data : Bytes} {down : List Bytes} (h : w.Phase sha1 dir d₀ f) (hclean : env.Clean)
    (hpos : f.totalChunks ≠ 0) (hdown : w.down = data :: down) :
    (({ w with down } : World).call (w.sender.onMessage sha1 data env)).Phase sha1 dir d₀ f := by
  have hnone (h : w.down = []) : False := by
    rw [h] at hdown
    cases hdown
  cases h with
  | closed hw =>
    subst hw
    cases hdown
  | asked _ _ _ _ _ h | opening _ _ _ _ _ _ h | moving _ _ _ _ _ _ h | ending _ _ _ _ _ _ h | ended _ _ _ _ _ _ _ h =>
    exact (hnone h).elim
  | answered hopen hs hfiling hkeeps hup hone =>
    obtain ⟨hbits, hlen⟩ := start_bitmap dir d₀ f
    rw [hone] at hdown
    obtain ⟨rfl, rfl⟩ := cons_eq_cons.mp hdown
    obtain ⟨out, hout, howes⟩ := @Sender.owes_onResume sha1 _ _ _ _ hclean hbits hpos hlen hs
    refine @Phase.moving sha1 dir d₀ f _ _ [] [] (f.owed (f.start dir d₀).1 0) hopen howes hfiling (.keeps hkeeps) ?_ ?_ rfl
    · rw [nil_append, nil_append]
    · unfold call
      dsimp only
      rw [hup, nil_append]
      exact hout.symm
  | acked hopen hs hwait hstatus hsited hover hup hone =>
    rw [hone] at hdown
    obtain ⟨rfl, rfl⟩ := cons_eq_cons.mp hdown
    rw [Sender.onMessage_ack hwait]
    refine .ended hopen ⟨hs.sound, hs.timers, hs.paused⟩ rfl hstatus hsited hover ?_ rfl
    unfold call
    dsimp only
    rw [hup]
    rfl

theorem phase_deliver {data : Bytes} {up : List Bytes} (h : w.Phase sha1 dir d₀ f) (hup : w.up = data :: up)
    (htodo : w.host.receiver.todo = []) :
    ({ w with host := { w.host with receiver := w.host.receiver.onMessage data }, up } : World).Phase sha1 dir d₀ f := by
  have hnone (h : w.up = []) : False := by
    rw [h] at hup
    cases hup
  cases h with
  | closed hw =>
    subst hw
    cases hup
  | opening _ _ _ _ _ h | answered _ _ _ _ h | ending _ _ _ _ _ h | acked _ _ _ _ _ _ h | ended _ _ _ _ _ _ h =>
    exact (hnone h).elim
  | asked hopen hs hhost hmeta hone hdown =>
    rw [hone] at hup
    obtain ⟨rfl, rfl⟩ := cons_eq_cons.mp hup
    rw [hhost]
    dsimp only
    rw [onMessage_fileMeta hmeta]
    exact .opening hopen hs (Receiver.named_named f { destDir := dir }) rfl (.load rfl) rfl hdown
  | moving hopen howes hfiling hworking hids hsent hdown =>
    rename_i out got busy rest
    have hidle : busy = [] := by
      cases hworking with
      | keeps => rfl
      | writes hwrite =>
        rw [htodo] at hwrite
        cases hwrite
    subst hidle
    rw [List.append_nil] at hids
    rw [hup, cons_append] at hsent
    cases rest with
    | nil =>
      obtain ⟨rfl, hrest⟩ := cons_eq_cons.mp hsent
      obtain ⟨rfl, rfl⟩ := append_eq_nil_iff.mp hrest
      rw [List.append_nil] at hids
      subst hids
      have hquiet : w.sender.Quiet ∧ w.sender.waitingAck = true := by
        generalize hnil : ([] : List Bytes) = out at howes
        cases howes with
        | going =>
          unfold Source.remaining at hnil
          exact absurd hnil.symm (append_ne_nil_of_right_ne_nil _ (cons_ne_nil _ _))
        | waiting hquiet hwait => exact ⟨hquiet, hwait⟩
      exact .ending hopen hquiet.1 hquiet.2 (hfiling.sited.onMessage_done sha1) (Receiver.closing_done hfiling rfl) rfl hdown
    | cons i rest =>
      obtain ⟨rfl, hrest⟩ := cons_eq_cons.mp hsent
      have hmem : i ∈ f.owed (f.start dir d₀).1 0 := by
        rw [← hids]
        exact mem_append_right _ mem_cons_self
      have hnodup := nodup_owed (f.start dir d₀).1 0 f
      rw [← hids] at hnodup
      obtain ⟨-, hi, hnot⟩ := mem_owed.mp hmem
      have hgot : i ∉ got := fun hin => (nodup_append.mp hnodup).2.2 i hin i mem_cons_self rfl
      rw [Receiver.filing_chunk hfiling hi hnot hgot]
      refine .moving hopen howes (hfiling.todo _) (.writes rfl) ?_ hrest hdown
      rw [append_assoc]
      exact hids

/-- **An operation of the receiver.** -/
theorem phase_op {op : Op} {todo : List Op} (h : w.Phase sha1 dir d₀ f) (hpos : f.totalChunks ≠ 0)
    (hsmall : f.totalChunks + 7 < 4294967296) (htodo : w.host.receiver.todo = op :: todo) :
    ({ w with
        host := ⟨(Receiver.exec sha1 op true { w.host.receiver with todo } w.host.disk).1,
          (Receiver.exec sha1 op true { w.host.receiver with todo } w.host.disk).2.1⟩
        down := w.down ++ (Receiver.exec sha1 op true { w.host.receiver with todo } w.host.disk).2.2 } :
      World).Phase sha1 dir d₀ f := by
  cases h with
  | closed hw =>
    subst hw
    cases htodo
  | asked _ _ hhost =>
    rw [hhost] at htodo
    cases htodo
  | opening hopen hs hnamed hsound hopening hup hdown =>
    rw [htodo] at hopening
    have hnamed' : Receiver.Named dir f { w.host.receiver with todo } := hnamed.congr rfl
    rcases @Receiver.opens_exec sha1 _ _ _ _ _ _ hnamed' hsound hpos hopening with
      ⟨hn, hf, ho, hout⟩ | ⟨hans, hout⟩ | ⟨-, hnone, -⟩
    · exact .opening hopen hs hn hf ho hup (by dsimp only; rw [hdown, hout]; rfl)
    · refine .answered hopen hs (hans.filing hsmall) (fun op hop => ?_) hup (by dsimp only; rw [hdown, hout]; rfl)
      dsimp only at hop
      rw [hans.todo] at hop
      exact (mem_append.mp hop).imp id mem_singleton.mp
    · unfold bitsToBytes at hnone
      omega
  | answered hopen hs hfiling hkeeps hup hdown =>
    rw [htodo] at hkeeps
    obtain ⟨hfiling', htodo', hout⟩ := Receiver.filing_keeps sha1 (hfiling.todo todo) (hkeeps op mem_cons_self)
    refine .answered hopen hs hfiling' (fun op hop => ?_) hup (by dsimp only; rw [hdown, hout]; rfl)
    dsimp only at hop
    rw [htodo'] at hop
    exact hkeeps op (mem_cons_of_mem _ hop)
  | moving hopen howes hfiling hworking hids hsent hdown =>
    cases hworking with
    | keeps hkeeps =>
      rw [htodo] at hkeeps
      obtain ⟨hfiling', htodo', hout⟩ := Receiver.filing_keeps sha1 (hfiling.todo todo) (hkeeps op mem_cons_self)
      refine .moving hopen howes hfiling' (.keeps fun op hop => ?_) hids hsent (by dsimp only; rw [hdown, hout]; rfl)
      dsimp only at hop
      rw [htodo'] at hop
      exact hkeeps op (mem_cons_of_mem _ hop)
    | writes hwrite =>
      rename_i i
      rw [htodo] at hwrite
      obtain ⟨rfl, rfl⟩ := cons_eq_cons.mp hwrite
      have hmem : i ∈ f.owed (f.start dir d₀).1 0 := by
        rw [← hids]
        exact mem_append_left _ (mem_append_right _ mem_cons_self)
      obtain ⟨hfiling', hkeeps, hout⟩ := Receiver.filing_pwrite sha1 (hfiling.todo []) (mem_owed.mp hmem).2.1
      refine .moving hopen howes hfiling' (.keeps hkeeps) ?_ hsent (by dsimp only; rw [hdown, hout]; rfl)
      rw [List.append_nil]
      exact hids
  | ending hopen hs hwait hsited hclosing hup hdown =>
    rw [htodo] at hclosing
    obtain ⟨hcount, hmark⟩ := hclosing.apart
    have hsited' := Receiver.sited_exec (d := w.host.disk) sha1 true (hsited.todo todo) hcount hmark
    rcases Receiver.closing_exec (hsited.todo todo) hclosing with ⟨hclosing', hout⟩ | ⟨status, hstatus, hout, hover⟩
    · exact .ending hopen hs hwait hsited' hclosing' hup (by dsimp only; rw [hdown, hout]; rfl)
    · exact .acked hopen hs hwait hstatus hsited' hover hup (by dsimp only; rw [hdown, hout]; rfl)
  | acked hopen hs hwait hstatus hsited hover hup hdown =>
    rw [htodo] at hover
    obtain ⟨hcount, hmark⟩ := hover.apart
    obtain ⟨hover', hout⟩ := Receiver.over_exec sha1 (hsited.todo todo) hover
    exact .acked hopen hs hwait hstatus (Receiver.sited_exec sha1 true (hsited.todo todo) hcount hmark) hover' hup
      (by dsimp only; rw [hdown, hout]; rfl)
  | ended hopen hs hstate hstatus hsited hover hup hdown =>
    rw [htodo] at hover
    obtain ⟨hcount, hmark⟩ := hover.apart
    obtain ⟨hover', hout⟩ := Receiver.over_exec sha1 (hsited.todo todo) hover
    exact .ended hopen hs hstate hstatus (Receiver.sited_exec sha1 true (hsited.todo todo) hcount hmark) hover' hup
      (by dsimp only; rw [hdown, hout]; rfl)

theorem onOpen_init (dir : Text 511) (f : Source) (d₀ : Disk) :
    ∃ data s, encodeFileMeta f.fileMeta 512 = some data ∧ (init dir f d₀).sender.onOpen true = (s, [data]) ∧ s.Asking f := by
  obtain ⟨data, hmeta⟩ := encodeFileMeta_isSome f
  obtain ⟨s, hs, hasking⟩ := Sender.asking_onOpen f data hmeta
  exact ⟨data, s, hmeta, hs, hasking⟩

/-- **Step rule**: what the callbacks, the messages and the operations lead to, a step at which nothing fails leads to. -/
theorem clean_step {I : World → Prop} {a : Act}
    (hopen : ¬ w.opened = true → I { w.call (w.sender.onOpen true) with opened := true })
    (hcall : ∀ x, w.sender.timers ≠ 0 ∨ w.sender.paused = true →
      (∀ b out, w.sender.Owes sha1 f b out → ∃ out', out = x.2 ++ out' ∧ x.1.Owes sha1 f b out') → I (w.call x))
    (hmessage : ∀ env data down, env.Clean → w.down = data :: down →
      I (({ w with down } : World).call (w.sender.onMessage sha1 data env)))
    (hdeliver : ∀ data up, w.up = data :: up → ¬ w.host.receiver.faulted = true → w.host.receiver.todo = [] →
      I { w with host := { w.host with receiver := w.host.receiver.onMessage data }, up })
    (hop : ∀ op todo, w.host.receiver.todo = op :: todo → ¬ w.host.receiver.faulted = true →
      I { w with
        host := ⟨(Receiver.exec sha1 op true { w.host.receiver with todo } w.host.disk).1,
          (Receiver.exec sha1 op true { w.host.receiver with todo } w.host.disk).2.1⟩
        down := w.down ++ (Receiver.exec sha1 op true { w.host.receiver with todo } w.host.disk).2.2 })
    (hclean : a.Clean) (ht : w.step sha1 a = some t) : I t := by
  unfold step at ht
  cases a with
  | «open» ok =>
    dsimp only at ht
    split_ifs at ht with hopened
    obtain rfl := Option.some.inj ht
    obtain rfl : ok = true := hclean
    exact hopen hopened
  | timer env =>
    dsimp only at ht
    split_ifs at ht with hdue
    obtain rfl := Option.some.inj ht
    have htimers := (not_or.mp hdue).2
    exact hcall _ (.inl htimers) fun b out howes => Sender.owes_onTimer hclean howes htimers
  | low env =>
    dsimp only at ht
    split_ifs at ht with hdue
    obtain rfl := Option.some.inj ht
    have hpaused := not_not.mp (not_or.mp hdue).2
    exact hcall _ (.inr hpaused) fun b out howes => Sender.owes_onBufferedAmountLow hclean howes hpaused
  | message env =>
    cases hdown : w.down with
    | nil =>
      rw [hdown] at ht
      cases ht
    | cons data down =>
      rw [hdown] at ht
      dsimp only at ht
      split_ifs at ht
      obtain rfl := Option.some.inj ht
      exact hmessage env data down hclean hdown
  | deliver =>
    cases hup : w.up with
    | nil =>
      rw [hup] at ht
      cases ht
    | cons data up =>
      rw [hup] at ht
      obtain ⟨host, hhost, rfl⟩ := Option.map_eq_some_iff.mp ht
      unfold Host.deliver at hhost
      split_ifs at hhost with hbusy
      obtain rfl := Option.some.inj hhost
      obtain ⟨hsound, htodo⟩ := not_or.mp hbusy
      exact hdeliver data up hup hsound (not_not.mp htodo)
  | op ok =>
    obtain rfl : ok = true := hclean
    obtain ⟨⟨host, out⟩, hrun, rfl⟩ := Option.map_eq_some_iff.mp ht
    unfold Host.run at hrun
    split_ifs at hrun with hsound
    cases htodo : w.host.receiver.todo with
    | nil =>
      rw [htodo] at hrun
      cases hrun
    | cons op todo =>
      rw [htodo] at hrun
      obtain ⟨rfl, rfl⟩ := Prod.mk.inj (Option.some.inj hrun)
      exact hop op todo htodo hsound

/-- **A step** leads from one stage to another. -/
theorem phase_step {a : Act} (h : w.Phase sha1 dir d₀ f) (hclean : a.Clean) (hpos : f.totalChunks ≠ 0)
    (hsmall : f.totalChunks + 7 < 4294967296) (ht : w.step sha1 a = some t) : t.Phase sha1 dir d₀ f := by
  refine @clean_step sha1 f w t (fun t => t.Phase sha1 dir d₀ f) a (fun hopened => ?_)
    (fun x hdue hcall => phase_call h hdue hcall) (fun env data down henv hdown => phase_message h henv hpos hdown)
    (fun data up hup _ htodo => phase_deliver h hup htodo) (fun op todo htodo _ => phase_op h hpos hsmall htodo) hclean ht
  cases h with
  | closed hw =>
    subst hw
    obtain ⟨data, s, hmeta, hcall, hasking⟩ := onOpen_init dir f d₀
    rw [hcall]
    exact .asked rfl hasking rfl hmeta rfl rfl
  | asked h | opening h | answered h | moving h | ending h | acked h | ended h => exact absurd h hopened

/-! ### The end of a run -/

/-- Nothing can happen any more without a failure. -/
def Stuck (sha1 : Bytes → Digest) (w : World) : Prop := ∀ a, a.Clean → w.step sha1 a = none

theorem Stuck.todo (h : w.Stuck sha1) (hsound : w.host.receiver.faulted = false) : w.host.receiver.todo = [] := by
  by_contra hne
  obtain ⟨op, todo, htodo⟩ := exists_cons_of_ne_nil hne
  have hop := h (.op true) rfl
  unfold step Host.run at hop
  dsimp only at hop
  rw [hsound, if_neg Bool.false_ne_true, htodo] at hop
  cases hop

theorem Stuck.up (h : w.Stuck sha1) (hsound : w.host.receiver.faulted = false) : w.up = [] := by
  have htodo := h.todo hsound
  by_contra hne
  obtain ⟨data, up, hup⟩ := exists_cons_of_ne_nil hne
  have hdeliver := h .deliver trivial
  unfold step Host.deliver at hdeliver
  rw [hup] at hdeliver
  dsimp only at hdeliver
  rw [hsound, htodo, if_neg (by decide)] at hdeliver
  cases hdeliver

def idleEnv : Env := ⟨false, true, .ok, true⟩

theorem clean_idleEnv : idleEnv.Clean := ⟨rfl, rfl, nofun⟩

theorem Stuck.down (h : w.Stuck sha1) (hsound : w.sender.faulted = false) : w.down = [] := by
  by_contra hne
  obtain ⟨data, down, hdown⟩ := exists_cons_of_ne_nil hne
  have hmessage := h (.message idleEnv) clean_idleEnv
  unfold step at hmessage
  dsimp only at hmessage
  rw [hdown] at hmessage
  dsimp only at hmessage
  rw [hsound, if_neg Bool.false_ne_true] at hmessage
  cases hmessage

theorem Stuck.opened (h : w.Stuck sha1) : w.opened = true := by
  by_contra hne
  have hopen := h (.open true) rfl
  unfold step at hopen
  dsimp only at hopen
  rw [if_neg hne] at hopen
  cases hopen

theorem Stuck.owes {b : Bitmap} {out : List Bytes} (h : w.Stuck sha1) (howes : w.sender.Owes sha1 f b out) : out = [] := by
  cases howes with
  | waiting => rfl
  | going hgoing hdue =>
    rcases hdue with ⟨hone, -⟩ | ⟨-, hpaused⟩
    · have htimer := h (.timer idleEnv) clean_idleEnv
      unfold step at htimer
      dsimp only at htimer
      rw [if_neg (by rw [hgoing.sound, hone]; decide)] at htimer
      cases htimer
    · have hlow := h (.low idleEnv) clean_idleEnv
      unfold step at hlow
      dsimp only at hlow
      rw [if_neg (by rw [hgoing.sound, hpaused]; decide)] at hlow
      cases hlow

/-- Both ends are done, and the file is there under its name. -/
structure Delivered (dir : Text 511) (f : Source) (w : World) : Prop where
  sender : w.sender.state = .done
  receiver : w.host.receiver.state = .done
  file : w.host.disk (f.finalPath dir) = some f.content

theorem delivered_iff_of_stuck (h : w.Phase sha1 dir d₀ f) (hstuck : w.Stuck sha1) :
    w.Delivered dir f ↔ f.patched dir d₀ = f.content := by
  cases h with
  | closed hw =>
    subst hw
    exact absurd hstuck.opened Bool.false_ne_true
  | asked _ _ hhost _ hup _ =>
    rw [hstuck.up (by rw [hhost])] at hup
    cases hup
  | opening _ _ _ hsound hopening _ _ =>
    rw [hstuck.todo hsound] at hopening
    cases hopening
  | answered _ hs _ _ _ hdown | acked _ hs _ _ _ _ _ hdown =>
    rw [hstuck.down hs.sound] at hdown
    cases hdown
  | moving _ howes hfiling _ _ hup _ =>
    rw [hstuck.up hfiling.sound, hstuck.owes howes] at hup
    exact absurd hup.symm (append_ne_nil_of_right_ne_nil _ (cons_ne_nil _ _))
  | ending _ _ _ hsited hclosing _ _ =>
    rw [hstuck.todo hsited.sound] at hclosing
    generalize hnil : ([] : List Op) = todo at hclosing
    cases hclosing with
    | save _ _ => exact absurd hnil.symm (append_ne_nil_of_right_ne_nil _ (cons_ne_nil _ _))
    | _ => cases hnil
  | ended _ _ hstate hstatus hsited hover _ _ =>
    rw [hstuck.todo hsited.sound] at hover
    cases hover with
    | done hfile hdone =>
      constructor
      · intro h
        exact Option.some.inj (hfile.symm.trans h.file)
      · intro h
        rw [h] at hfile
        exact ⟨hstate, hdone, hfile⟩
    | failed hfailed =>
      refine iff_of_false (fun h => ?_) fun h => ?_
      · cases hfailed.symm.trans h.receiver
      · exact absurd (hstatus.mpr (congrArg sha1 h)) (by decide)

end World

end Libx.Fer
