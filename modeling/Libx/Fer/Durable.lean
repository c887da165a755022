import Libx.Fer.Honest

/-!
# Libx.Fer.Durable — what a stopped receiver leaves on disk

The receiver may stop between any two operations; the writes since the last flush are then lost.
-/

namespace Libx.Fer

open Libx.Core (Run)
open Libx.Agent (Bytes)
open Libx.Ice (readBE readBE_writeU32 length_writeU32)
open Libx.Turn (Text textOfBytes)
open List Option

/-- A message arrives, or the next operation is done. -/
inductive Host.Input
  | message (data : Bytes)
  | op (ok : Bool)

def Host.step (sha1 : Bytes → Digest) (h : Host) : Host.Input → Option Host
  | .message data => h.deliver data
  | .op ok => (h.run sha1 ok).map Prod.fst

def Source.Marks (i : ℕ) (dir : Text 511) (d : Disk) (f : Source) : Prop :=
  ∃ b, d (f.bitmapPath dir) = some b ∧ (bitmapOf b).Has i

def Source.Holds (i : ℕ) (dir : Text 511) (d : Disk) (f : Source) : Prop :=
  ∃ p, d (f.partPath dir) = some p ∧ f.InPlace i p

/-- Every bit set in the .bitmap file stands for a chunk whose bytes are in the .part file. -/
def Source.Backed (dir : Text 511) (d : Disk) (f : Source) : Prop := ∀ i, f.Marks i dir d → f.Holds i dir d

/-- The .part file has been renamed and a .bitmap file with a bit is still to be removed. -/
def Host.Window (dir : Text 511) (f : Source) (h : Host) : Prop :=
  h.receiver.todo.head? = some .remove ∧ h.disk (f.partPath dir) = none ∧ ∃ i, f.Marks i dir h.disk

/-- A step that breaks the rule: .part is emptied under a bitmap with a bit; a bitmap is saved that has a bit whose
chunk was not flushed; the .bitmap file cannot be removed after .part was renamed. -/
def Host.Breaks (dir : Text 511) (f : Source) (h : Host) : Host.Input → Prop
  | .message _ => False
  | .op ok =>
    match h.receiver.todo.head? with
    | some .openPart => ok = true ∧ ∃ i, f.Marks i dir h.disk
    | some .saveBody =>
      ok = true ∧ ∃ i, Bitmap.Has i ⟨h.receiver.totalChunks, h.receiver.bitmap.data⟩ ∧ ¬ f.Holds i dir h.disk
    | some .remove => ok = false ∧ h.disk (f.partPath dir) = none ∧ ∃ i, f.Marks i dir h.disk
    | _ => False

/-- The messages are those of the file, and no step breaks the rule. -/
def Host.Fair (sha1 : Bytes → Digest) (dir : Text 511) (f : Source) (h : Host) (i : Host.Input) : Prop :=
  ¬ h.Breaks dir f i ∧ ∀ data, i = .message data → f.Honest sha1 data

/-! ### .bitmap files -/

theorem bitmapOf_saved {n : ℕ} (h : n < 4294967296) (data : Bytes) :
    bitmapOf (bitmapHeader n ++ data) = ⟨n, data⟩ := by
  unfold bitmapOf bitmapHeader
  rw [take_left' (length_writeU32 n), drop_left' (length_writeU32 n), readBE_writeU32, Nat.mod_eq_of_lt h]

theorem not_has_of_data_nil {bm : Bitmap} {i : ℕ} (h : bm.data = []) : ¬ bm.Has i := by
  rw [Bitmap.has_iff, h]
  rintro ⟨-, b, hb, -⟩
  cases hb

theorem not_has_bitmapOf {content : Bytes} {i : ℕ} (h : content.length ≤ 4) : ¬ (bitmapOf content).Has i :=
  not_has_of_data_nil (drop_eq_nil_of_le h)

theorem has_of_bitmapLoad {content : Bytes} {bm : Bitmap} {i : ℕ} (h : bitmapLoad content = some bm) (hi : bm.Has i) :
    (bitmapOf content).Has i := by
  unfold bitmapLoad at h
  dsimp only at h
  split_ifs at h
  cases hinit : Bitmap.init (readBE (content.take 4)) with
  | none =>
    rw [hinit] at h
    cases h
  | some new =>
    rw [hinit] at h
    dsimp only at h
    split_ifs at h
    obtain rfl := some.inj h
    obtain ⟨hlt, b, hb, ht⟩ := Bitmap.has_iff.mp hi
    refine Bitmap.has_iff.mpr ⟨hlt, b, ?_, ht⟩
    obtain ⟨hk, hb⟩ := List.getElem?_eq_some_iff.mp hb
    rw [getElem_take] at hb
    exact List.getElem?_eq_some_iff.mpr ⟨_, hb⟩

/-! ### The disk -/

section Disk

variable {f : Source} {dir : Text 511} {d d' : Disk} {path content : Bytes} {i : ℕ}

theorem Source.Backed.of_unmarked (h : ∀ i, ¬ f.Marks i dir d) : f.Backed dir d := fun i hi => absurd hi (h i)

theorem Source.Backed.mono (h : f.Backed dir d) (hb : d' (f.bitmapPath dir) = d (f.bitmapPath dir))
    (hp : ∀ i, f.Holds i dir d → f.Holds i dir d') : f.Backed dir d' := by
  rintro i ⟨b, hbit, hi⟩
  rw [hb] at hbit
  exact hp i (h i ⟨b, hbit, hi⟩)

theorem holds_write (h : path ≠ f.partPath dir) : f.Holds i dir (d.write path content) ↔ f.Holds i dir d := by
  unfold Source.Holds
  rw [Disk.write_of_ne h.symm]

theorem marks_write (h : path ≠ f.bitmapPath dir) : f.Marks i dir (d.write path content) ↔ f.Marks i dir d := by
  unfold Source.Marks
  rw [Disk.write_of_ne h.symm]

theorem marks_write_bitmap : f.Marks i dir (d.write (f.bitmapPath dir) content) ↔ (bitmapOf content).Has i := by
  unfold Source.Marks
  rw [Disk.write_self]
  exact ⟨fun ⟨b, hb, hi⟩ => some.inj hb ▸ hi, fun hi => ⟨_, rfl, hi⟩⟩

theorem Source.Backed.write (h : f.Backed dir d) (h1 : path ≠ f.partPath dir) (h2 : path ≠ f.bitmapPath dir) :
    f.Backed dir (d.write path content) :=
  h.mono (Disk.write_of_ne h2.symm) (fun _ hi => (holds_write h1).mpr hi)

theorem Source.Backed.sync {x : Handle} (h : f.Backed dir d) (hpath : x.path = f.partPath dir)
    (hws : ∀ w ∈ x.pending, ∃ j, w = (j * defaultChunkSize, f.chunk j)) : f.Backed dir (x.sync d) := by
  unfold Handle.sync
  rw [hpath]
  cases hp : d (f.partPath dir) with
  | none => exact h
  | some p =>
    refine h.mono (Disk.write_of_ne (partPath_ne_bitmapPath dir f).symm) ?_
    rintro i ⟨p', hp', hi⟩
    rw [hp] at hp'
    obtain rfl := some.inj hp'
    exact ⟨_, Disk.write_self, inPlace_overwrites hi hws⟩

theorem not_holds_nil (h : d (f.partPath dir) = some []) : ¬ f.Holds i dir d := by
  rintro ⟨p, hp, hi⟩
  rw [h] at hp
  obtain rfl := some.inj hp
  exact not_inPlace_nil hi

theorem not_holds_none (h : d (f.partPath dir) = none) : ¬ f.Holds i dir d := by
  rintro ⟨p, hp, -⟩
  rw [h] at hp
  cases hp

end Disk

/-! ### Between two operations -/

/-- The receiver knows no file yet. -/
structure Receiver.Blank (r : Receiver) : Prop where
  filepath : r.filepath = []
  bitmapPath : r.bitmapPath = []
  totalChunks : r.totalChunks = 0

theorem Receiver.Blank.congr {r r' : Receiver} (h : r.Blank) (he : r'.subject = r.subject) : r'.Blank := by
  obtain ⟨h1, h2, h3⟩ := h
  simp only [Receiver.subject, Prod.mk.injEq] at he
  obtain ⟨-, -, e1, e2, -, -, e3⟩ := he
  exact ⟨e1.trans h1, e2.trans h2, e3.trans h3⟩

/-- The operations that ask for nothing but that a chunk is written where it belongs. -/
def Op.Free (f : Source) : Op → Prop
  | .pwrite i data => data = f.chunk i
  | .transferring | .saveOpen | .saveHeader | .saveBody | .flush | .close | .verify _ | .ack _ | .fail | .finish => True
  | _ => False

/-- The rest of the handler that is under way, and what it relies on. -/
inductive Stage (dir : Text 511) (f : Source) (r : Receiver) (d : Disk) : List Op → Prop
  | load : r.Named dir f → Stage dir f r d [.loadBitmap]
  | resume : r.Named dir f → (∀ i, r.bitmap.Has i → f.Marks i dir d) → Stage dir f r d [.openResume]
  | openPart : r.Named dir f → (∀ i, ¬ r.bitmap.Has i) →
      Stage dir f r d ([.openPart, .truncate, .reopen] ++ resumeOps)
  | truncate : r.Named dir f → (∀ i, ¬ r.bitmap.Has i) → d (f.partPath dir) = some [] →
      Stage dir f r d ([.truncate, .reopen] ++ resumeOps)
  | reopen : r.Named dir f → (∀ i, ¬ r.bitmap.Has i) → Stage dir f r d ([.reopen] ++ resumeOps)
  | send : r.Named dir f → (∀ i, r.bitmap.Has i → f.Holds i dir d) → Stage dir f r d resumeOps
  | acked : r.Named dir f → Stage dir f r d [.ack 0, .rename, .remove, .finish]
  | rename : r.Named dir f → Stage dir f r d [.rename, .remove, .finish]
  | remove : r.Named dir f → Stage dir f r d [.remove, .finish]
  | free {todo : List Op} : (∀ op ∈ todo, op.Free f) → Stage dir f r d todo

/-- What holds between two operations. -/
structure Host.Sound (dir : Text 511) (f : Source) (h : Host) : Prop where
  destDir : h.receiver.destDir = dir
  known : h.receiver.Named dir f ∨ h.receiver.Blank
  handle : ∀ x, h.receiver.handle = some x → h.receiver.Named dir f ∧ x.path = f.partPath dir ∧
    ∀ w ∈ x.pending, ∃ j, w = (j * defaultChunkSize, f.chunk j)
  stage : Stage dir f h.receiver h.disk h.receiver.todo
  backed : f.Backed dir h.disk ∨ h.Window dir f

namespace Host

variable {sha1 : Bytes → Digest} {f : Source} {dir : Text 511} {r : Receiver} {d : Disk} {h t : Host}

theorem free_saveBitmap : ∀ op ∈ saveBitmap, op.Free f := by
  intro op hop
  rcases mem_cons.mp hop with rfl | hop
  · trivial
  rcases mem_cons.mp hop with rfl | hop
  · trivial
  obtain rfl := mem_singleton.mp hop
  trivial

theorem sound_reportError (hn : r.Named dir f) (hh : ∀ x, r.handle = some x → x.path = f.partPath dir ∧
    ∀ w ∈ x.pending, ∃ j, w = (j * defaultChunkSize, f.chunk j)) (hb : f.Backed dir d) :
    Sound dir f ⟨r.reportError, d⟩ := by
  have hn' : r.reportError.Named dir f := hn.congr rfl
  exact ⟨hn'.destDir, .inl hn', fun x hx => ⟨hn', hh x hx⟩, .free (fun op hop => absurd hop not_mem_nil), .inl hb⟩

theorem sound_startFresh (hn : r.Named dir f) (hh : ∀ x, r.handle = some x → x.path = f.partPath dir ∧
    ∀ w ∈ x.pending, ∃ j, w = (j * defaultChunkSize, f.chunk j)) (hb : f.Backed dir d) :
    Sound dir f ⟨r.startFresh, d⟩ := by
  unfold Receiver.startFresh
  cases hinit : Bitmap.init r.totalChunks with
  | none => exact sound_reportError hn hh hb
  | some bm =>
    have hn' : Receiver.Named dir f { r with bitmap := bm, todo := [.openPart, .truncate, .reopen] ++ resumeOps } := hn.congr rfl
    exact ⟨hn.destDir, .inl hn', fun x hx => ⟨hn', hh x hx⟩, .openPart hn' (fun i => Bitmap.not_has_init hinit), .inl hb⟩

def Writes (dir : Text 511) (f : Source) (r : Receiver) : Prop :=
  ∀ x, r.handle = some x → r.Named dir f ∧ x.path = f.partPath dir ∧
    ∀ w ∈ x.pending, ∃ j, w = (j * defaultChunkSize, f.chunk j)

theorem known_congr {r' : Receiver} (hk : r.Named dir f ∨ r.Blank) (he : r'.subject = r.subject) :
    r'.Named dir f ∨ r'.Blank := hk.imp (·.congr he) (·.congr he)

theorem Writes.congr {r' : Receiver} (hw : Writes dir f r) (he : r'.subject = r.subject)
    (hh : r'.handle = r.handle) : Writes dir f r' := fun x hx => ⟨(hw x (hh ▸ hx)).1.congr he, (hw x (hh ▸ hx)).2⟩

/-- What a step leaves when it does an operation. -/
def after (sha1 : Bytes → Digest) (op : Op) (ok : Bool) (r : Receiver) (d : Disk) : Host :=
  ⟨(Receiver.exec sha1 op ok r d).1, (Receiver.exec sha1 op ok r d).2.1⟩

theorem sound_loadBitmap (ok : Bool) (hn : r.Named dir f) (hw : Writes dir f r) (hb : f.Backed dir d) :
    Sound dir f (after sha1 .loadBitmap ok r d) := by
  have hh (bm : Bitmap) (todo : List Op) : ∀ x, ({ r with bitmap := bm, todo } : Receiver).handle = some x →
      x.path = f.partPath dir ∧ ∀ w ∈ x.pending, ∃ j, w = (j * defaultChunkSize, f.chunk j) :=
    fun x hx => (hw x hx).2
  unfold after Receiver.exec
  dsimp only
  generalize hc : (if ok = true then d.read r.bitmapPath else none) = content
  cases hl : (Receiver.loadInto content r.bitmap).2 with
  | false => exact sound_startFresh (hn.congr rfl) (hh _ r.todo) hb
  | true =>
    rw [if_pos rfl]
    split_ifs with hbits
    · refine ⟨hn.destDir, .inl (hn.congr rfl), hw.congr rfl rfl, .resume (hn.congr rfl) ?_, .inl hb⟩
      intro i hi
      dsimp only at hi
      cases content with
      | none => cases hl
      | some content =>
        have hfile : d (f.bitmapPath dir) = some content := by
          rw [hn.bitmapPath, Disk.read_of_ne (bitmapPath_ne_nil dir f)] at hc
          split_ifs at hc
          exact hc
        unfold Receiver.loadInto at hl hi
        dsimp only at hl hi
        cases hload : bitmapLoad content with
        | none =>
          rw [hload] at hl
          cases hl
        | some bm =>
          rw [hload] at hi
          exact ⟨content, hfile, has_of_bitmapLoad hload hi⟩
    · exact sound_startFresh (hn.congr rfl) (hh _ r.todo) hb

theorem sound_openResume (ok : Bool) (hn : r.Named dir f) (hw : Writes dir f r) (htodo : r.todo = [])
    (hbits : ∀ i, r.bitmap.Has i → f.Marks i dir d) (hb : f.Backed dir d) :
    Sound dir f (after sha1 .openResume ok r d) := by
  unfold after Receiver.exec
  dsimp only
  split_ifs with hopen
  · cases hc : r.bitmap.count with
    | none =>
      refine ⟨hn.destDir, .inl (hn.congr rfl), hw.congr rfl rfl, .free ?_, .inl hb⟩
      dsimp only
      rw [htodo]
      exact fun op hop => absurd hop not_mem_nil
    | some n =>
      refine ⟨hn.destDir, .inl (hn.congr rfl), ?_, .send (hn.congr rfl) ?_, .inl hb⟩
      · rintro x hx
        obtain rfl := some.inj hx
        exact ⟨hn.congr rfl, hn.filepath, fun w hw => absurd hw not_mem_nil⟩
      · exact fun i hi => hb i (hbits i hi)
  · exact sound_startFresh (hn.congr rfl) (fun x hx => by cases hx) hb

theorem sound_openPart (ok : Bool) (hn : r.Named dir f) (htodo : r.todo = [.truncate, .reopen] ++ resumeOps)
    (hbits : ∀ i, ¬ r.bitmap.Has i) (hb : f.Backed dir d) (hno : ¬ (ok = true ∧ ∃ i, f.Marks i dir d)) :
    Sound dir f (after sha1 .openPart ok r d) := by
  unfold after Receiver.exec
  dsimp only
  split_ifs with hopen
  · have hmarks : ∀ i, ¬ f.Marks i dir (d.write r.filepath []) := by
      intro i hi
      rw [hn.filepath] at hi
      exact hno ⟨hopen.1, i, (marks_write (partPath_ne_bitmapPath dir f)).mp hi⟩
    have hempty : (d.write r.filepath []) (f.partPath dir) = some [] := by
      rw [hn.filepath]
      exact Disk.write_self
    refine ⟨hn.destDir, .inl (hn.congr rfl), ?_, ?_, .inl (.of_unmarked hmarks)⟩
    · rintro x hx
      obtain rfl := some.inj hx
      exact ⟨hn.congr rfl, hn.filepath, fun w hw => absurd hw not_mem_nil⟩
    · dsimp only
      rw [htodo]
      exact .truncate (hn.congr rfl) hbits hempty
  · exact sound_reportError (hn.congr rfl) (fun x hx => by cases hx) hb

theorem sound_truncate (ok : Bool) (hn : r.Named dir f) (hw : Writes dir f r) (htodo : r.todo = [.reopen] ++ resumeOps)
    (hbits : ∀ i, ¬ r.bitmap.Has i) (hb : f.Backed dir d) (hempty : d (f.partPath dir) = some []) :
    Sound dir f (after sha1 .truncate ok r d) := by
  have hpart : d r.filepath = some [] := by
    rw [hn.filepath]
    exact hempty
  have hmarks : ∀ i, ¬ f.Marks i dir d := fun i hi => not_holds_nil hempty (hb i hi)
  unfold after Receiver.exec
  dsimp only
  rw [hpart]
  refine ⟨hn.destDir, .inl hn, hw, ?_, .inl ?_⟩
  · dsimp only
    rw [htodo]
    exact .reopen hn hbits
  · dsimp only
    rw [hn.filepath]
    split_ifs
    · exact .of_unmarked (fun i hi => hmarks i ((marks_write (partPath_ne_bitmapPath dir f)).mp hi))
    · exact hb

theorem sound_reopen (ok : Bool) (hn : r.Named dir f) (htodo : r.todo = resumeOps)
    (hbits : ∀ i, ¬ r.bitmap.Has i) (hb : f.Backed dir d) : Sound dir f (after sha1 .reopen ok r d) := by
  unfold after Receiver.exec
  dsimp only
  split_ifs with hopen
  · refine ⟨hn.destDir, .inl (hn.congr rfl), ?_, ?_, .inl hb⟩
    · rintro x hx
      obtain rfl := some.inj hx
      exact ⟨hn.congr rfl, hn.filepath, fun w hw => absurd hw not_mem_nil⟩
    · dsimp only
      rw [htodo]
      exact .send (hn.congr rfl) (fun i hi => absurd hi (hbits i))
  · exact sound_reportError (hn.congr rfl) (fun x hx => by cases hx) hb

theorem sound_mark (i len : ℕ) (hdir : r.destDir = dir) (hk : r.Named dir f ∨ r.Blank) (hw : Writes dir f r)
    (htodo : ∀ op ∈ r.todo, op.Free f) (hb : f.Backed dir d) : Sound dir f ⟨r.mark i len, d⟩ := by
  unfold Receiver.mark
  cases hset : r.bitmap.set i with
  | none => exact ⟨hdir, known_congr hk rfl, hw.congr rfl rfl, .free htodo, .inl hb⟩
  | some bm =>
    refine ⟨hdir, known_congr hk rfl, hw.congr rfl rfl, .free ?_, .inl hb⟩
    dsimp only
    split_ifs
    · exact free_saveBitmap
    · exact fun op hop => absurd hop not_mem_nil

theorem sound_pwrite (i : ℕ) (ok : Bool) (hdir : r.destDir = dir) (hk : r.Named dir f ∨ r.Blank) (hw : Writes dir f r)
    (htodo : ∀ op ∈ r.todo, op.Free f) (hb : f.Backed dir d) : Sound dir f (after sha1 (.pwrite i (f.chunk i)) ok r d) := by
  unfold after Receiver.exec
  dsimp only
  cases hx : r.handle with
  | none => exact sound_mark i _ hdir hk hw htodo hb
  | some x =>
    obtain ⟨hn, hpath, hpend⟩ := hw x hx
    dsimp only
    split_ifs
    · refine sound_mark i _ hdir (.inl (hn.congr rfl)) ?_ htodo hb
      rintro y hy
      obtain rfl := some.inj hy
      refine ⟨hn.congr rfl, hpath, fun w hw => ?_⟩
      rcases mem_append.mp hw with hw | hw
      · exact hpend w hw
      · obtain rfl := mem_singleton.mp hw
        exact ⟨i, by rw [hn.chunkSize]⟩
    · exact sound_reportError hn (fun y hy => (hw y hy).2) hb

theorem sound_still {r' : Receiver} (hdir : r'.destDir = dir) (hk : r'.Named dir f ∨ r'.Blank) (hw : Writes dir f r')
    (htodo : ∀ op ∈ r'.todo, op.Free f) (hb : f.Backed dir d) : Sound dir f ⟨r', d⟩ :=
  ⟨hdir, hk, hw, .free htodo, .inl hb⟩

theorem backed_sync {x : Handle} (ok : Bool) (hw : Writes dir f r) (hx : r.handle = some x) (hb : f.Backed dir d) :
    f.Backed dir (if ok then x.sync d else d) := by
  obtain ⟨-, hpath, hpend⟩ := hw x hx
  split_ifs
  · exact hb.sync hpath hpend
  · exact hb

theorem sound_flush (ok : Bool) (hdir : r.destDir = dir) (hk : r.Named dir f ∨ r.Blank) (hw : Writes dir f r)
    (htodo : ∀ op ∈ r.todo, op.Free f) (hb : f.Backed dir d) : Sound dir f (after sha1 .flush ok r d) := by
  unfold after Receiver.exec
  dsimp only
  cases hx : r.handle with
  | none => exact sound_still hdir hk hw htodo hb
  | some x =>
    obtain ⟨hn, hpath, -⟩ := hw x hx
    have hb' := backed_sync ok hw hx hb
    cases ok with
    | false => exact sound_still hdir hk hw htodo hb
    | true =>
      refine sound_still hdir (.inl (hn.congr rfl)) ?_ htodo hb'
      rintro y hy
      obtain rfl := some.inj hy
      exact ⟨hn.congr rfl, hpath, fun w hw => absurd hw not_mem_nil⟩

theorem sound_close (ok : Bool) (hdir : r.destDir = dir) (hk : r.Named dir f ∨ r.Blank) (hw : Writes dir f r)
    (htodo : ∀ op ∈ r.todo, op.Free f) (hb : f.Backed dir d) : Sound dir f (after sha1 .close ok r d) := by
  unfold after Receiver.exec
  dsimp only
  cases hx : r.handle with
  | none => exact sound_still hdir hk hw htodo hb
  | some x =>
    exact sound_still hdir (.inl ((hw x hx).1.congr rfl)) (fun y hy => by cases hy) htodo (backed_sync ok hw hx hb)

theorem sound_saveOpen (ok : Bool) (hdir : r.destDir = dir) (hk : r.Named dir f ∨ r.Blank) (hw : Writes dir f r)
    (htodo : ∀ op ∈ r.todo, op.Free f) (hb : f.Backed dir d) : Sound dir f (after sha1 .saveOpen ok r d) := by
  unfold after Receiver.exec
  dsimp only
  split_ifs with hopen
  · refine sound_still hdir hk hw htodo ?_
    obtain hn | hbl := hk
    · rw [hn.bitmapPath]
      exact .of_unmarked (fun i hi => not_has_bitmapOf (Nat.zero_le _) (marks_write_bitmap.mp hi))
    · exact absurd hbl.bitmapPath hopen.2
  · exact sound_still hdir (known_congr hk rfl) (hw.congr rfl rfl) (fun op hop => htodo op (mem_of_mem_drop hop)) hb

theorem sound_saveHeader (ok : Bool) (hdir : r.destDir = dir) (hk : r.Named dir f ∨ r.Blank) (hw : Writes dir f r)
    (htodo : ∀ op ∈ r.todo, op.Free f) (hb : f.Backed dir d) : Sound dir f (after sha1 .saveHeader ok r d) := by
  unfold after Receiver.exec
  dsimp only
  split_ifs
  · refine sound_still hdir hk hw htodo ?_
    obtain hn | hbl := hk
    · rw [hn.bitmapPath]
      exact .of_unmarked (fun i hi => not_has_bitmapOf (Nat.le_of_eq (length_writeU32 _)) (marks_write_bitmap.mp hi))
    · rw [hbl.bitmapPath]
      exact hb.write (partPath_ne_nil dir f).symm (bitmapPath_ne_nil dir f).symm
  · exact sound_still hdir (known_congr hk rfl) (hw.congr rfl rfl) (fun op hop => htodo op (mem_of_mem_drop hop)) hb

theorem marks_saved {i : ℕ} (hn : r.Named dir f) :
    f.Marks i dir (d.write r.bitmapPath (bitmapHeader r.totalChunks ++ r.bitmap.data)) ↔
      Bitmap.Has i ⟨r.totalChunks, r.bitmap.data⟩ := by
  rw [hn.bitmapPath, marks_write_bitmap, bitmapOf_saved]
  rw [hn.totalChunks]
  exact totalChunks_lt f

theorem sound_saveBody (ok : Bool) (hdir : r.destDir = dir) (hk : r.Named dir f ∨ r.Blank) (hw : Writes dir f r)
    (htodo : ∀ op ∈ r.todo, op.Free f) (hb : f.Backed dir d)
    (hno : ¬ (ok = true ∧ ∃ i, Bitmap.Has i ⟨r.totalChunks, r.bitmap.data⟩ ∧ ¬ f.Holds i dir d)) :
    Sound dir f (after sha1 .saveBody ok r d) := by
  unfold after Receiver.exec
  dsimp only
  refine sound_still hdir hk hw htodo ?_
  split_ifs with hok
  · obtain hn | hbl := hk
    · intro i hi
      rw [marks_saved hn] at hi
      rw [hn.bitmapPath, holds_write (partPath_ne_bitmapPath dir f).symm]
      by_contra hh
      exact hno ⟨hok, i, hi, hh⟩
    · rw [hbl.bitmapPath]
      exact hb.write (partPath_ne_nil dir f).symm (bitmapPath_ne_nil dir f).symm
  · exact hb

theorem sound_verify (digest : Digest) (ok : Bool) (hdir : r.destDir = dir) (hk : r.Named dir f ∨ r.Blank)
    (hw : Writes dir f r) (hb : f.Backed dir d) : Sound dir f (after sha1 (.verify digest) ok r d) := by
  unfold after Receiver.exec
  dsimp only
  by_cases hv : (if ok = true then d.read r.filepath else none).map sha1 = some digest
  · rw [if_pos hv]
    obtain hn | hbl := hk
    · exact ⟨hdir, .inl (hn.congr rfl), hw.congr rfl rfl, .acked (hn.congr rfl), .inl hb⟩
    · rw [hbl.filepath, Disk.read_nil, ite_self] at hv
      cases hv
  · rw [if_neg hv]
    refine sound_still hdir (known_congr hk rfl) (hw.congr rfl rfl) ?_ hb
    intro op hop
    rcases mem_cons.mp hop with rfl | hop
    · trivial
    · obtain rfl := mem_singleton.mp hop
      trivial

theorem sound_rename (ok : Bool) (hn : r.Named dir f) (hw : Writes dir f r) (htodo : r.todo = [.remove, .finish])
    (hb : f.Backed dir d) : Sound dir f (after sha1 .rename ok r d) := by
  have hstage (d' : Disk) : Stage dir f r d' r.todo := by
    rw [htodo]
    exact .remove hn
  unfold after Receiver.exec
  dsimp only
  cases hc : (if ok = true then d.read r.filepath else none) with
  | none => exact ⟨hn.destDir, .inl hn, hw, hstage d, .inl hb⟩
  | some content =>
    refine ⟨hn.destDir, .inl hn, hw, hstage _, ?_⟩
    have hpart : ((d.remove r.filepath).write (pathIn r.destDir r.filename []) content) (f.partPath dir) = none := by
      rw [hn.filepath, hn.destDir, hn.filename]
      exact (Disk.write_of_ne (partPath_ne_finalPath dir f)).trans Disk.remove_self
    by_cases hm : ∃ i, f.Marks i dir ((d.remove r.filepath).write (pathIn r.destDir r.filename []) content)
    · refine .inr ⟨?_, hpart, hm⟩
      dsimp only
      rw [htodo]
      rfl
    · exact .inl (.of_unmarked (fun i hi => hm ⟨i, hi⟩))

theorem sound_remove (ok : Bool) (hn : r.Named dir f) (hw : Writes dir f r) (htodo : r.todo = [.finish])
    (hb : f.Backed dir d ∨ d (f.partPath dir) = none ∧ ∃ i, f.Marks i dir d)
    (hno : ¬ (ok = false ∧ d (f.partPath dir) = none ∧ ∃ i, f.Marks i dir d)) :
    Sound dir f (after sha1 .remove ok r d) := by
  unfold after Receiver.exec
  dsimp only
  refine sound_still hn.destDir (.inl hn) hw ?_ ?_
  · rw [htodo]
    intro op hop
    obtain rfl := mem_singleton.mp hop
    trivial
  · cases ok with
    | false => exact hb.resolve_right (fun h => hno ⟨rfl, h⟩)
    | true =>
      refine .of_unmarked ?_
      rintro i ⟨b, hbit, -⟩
      rw [if_pos rfl, hn.bitmapPath, Disk.remove_self] at hbit
      cases hbit

/-! ### Runs -/

theorem run_eq_some {ok : Bool} {out : List Bytes} (ht : h.run sha1 ok = some (t, out)) :
    ∃ op todo, h.receiver.todo = op :: todo ∧ t = after sha1 op ok { h.receiver with todo } h.disk := by
  unfold run at ht
  split_ifs at ht
  cases htodo : h.receiver.todo with
  | nil =>
    rw [htodo] at ht
    cases ht
  | cons op todo =>
    rw [htodo] at ht
    exact ⟨op, todo, rfl, (Prod.mk.inj (some.inj ht)).1.symm⟩

theorem sound_run {ok : Bool} {out : List Bytes} (hs : Sound dir f h) (ht : h.run sha1 ok = some (t, out))
    (hno : ¬ h.Breaks dir f (.op ok)) : Sound dir f t := by
  obtain ⟨op, todo, htodo, rfl⟩ := run_eq_some ht
  obtain ⟨hdir, hk, hw, hst, hb⟩ := hs
  have hbk (hop : op ≠ .remove) : f.Backed dir h.disk := by
    refine hb.resolve_right (fun hwin => hop ?_)
    have hhead := hwin.1
    rw [htodo] at hhead
    exact some.inj hhead
  unfold Breaks at hno
  dsimp only at hno
  rw [htodo, List.head?_cons] at hno
  have hk' : Receiver.Named dir f { h.receiver with todo } ∨ Receiver.Blank { h.receiver with todo } := known_congr hk rfl
  have hw' : Writes dir f { h.receiver with todo } := Writes.congr hw rfl rfl
  rw [htodo] at hst
  generalize hl : op :: todo = l at hst
  cases hst with
  | load hn =>
    obtain ⟨rfl, rfl⟩ := List.cons.inj hl
    exact sound_loadBitmap ok (hn.congr rfl) hw' (hbk (by simp))
  | resume hn hbits =>
    obtain ⟨rfl, rfl⟩ := List.cons.inj hl
    exact sound_openResume ok (hn.congr rfl) hw' rfl hbits (hbk (by simp))
  | openPart hn hbits =>
    obtain ⟨rfl, rfl⟩ := List.cons.inj hl
    exact sound_openPart ok (hn.congr rfl) rfl hbits (hbk (by simp)) hno
  | truncate hn hbits hempty =>
    obtain ⟨rfl, rfl⟩ := List.cons.inj hl
    exact sound_truncate ok (hn.congr rfl) hw' rfl hbits (hbk (by simp)) hempty
  | reopen hn hbits =>
    obtain ⟨rfl, rfl⟩ := List.cons.inj hl
    exact sound_reopen ok (hn.congr rfl) rfl hbits (hbk (by simp))
  | send hn hbits =>
    obtain ⟨rfl, rfl⟩ := List.cons.inj hl
    refine sound_still hdir hk' hw' (fun op hop => ?_) (hbk (by simp))
    rcases mem_append.mp hop with hop | hop
    · exact free_saveBitmap op hop
    · obtain rfl := mem_singleton.mp hop
      trivial
  | acked hn =>
    obtain ⟨rfl, rfl⟩ := List.cons.inj hl
    exact ⟨hdir, hk', hw', .rename (hn.congr rfl), .inl (hbk (by simp))⟩
  | rename hn =>
    obtain ⟨rfl, rfl⟩ := List.cons.inj hl
    exact sound_rename ok (hn.congr rfl) hw' rfl (hbk (by simp))
  | remove hn =>
    obtain ⟨rfl, rfl⟩ := List.cons.inj hl
    exact sound_remove ok (hn.congr rfl) hw' rfl (hb.imp_right (fun hwin => hwin.2)) hno
  | free hfree =>
    subst hl
    have hrest : ∀ o ∈ todo, o.Free f := fun o ho => hfree o (mem_cons_of_mem _ ho)
    have hop := hfree op mem_cons_self
    have hb' := hbk (fun heq => by rw [heq] at hop; exact hop)
    cases op with
    | pwrite i data =>
      obtain rfl : data = f.chunk i := hop
      exact sound_pwrite i ok hdir hk' hw' hrest hb'
    | saveOpen => exact sound_saveOpen ok hdir hk' hw' hrest hb'
    | saveHeader => exact sound_saveHeader ok hdir hk' hw' hrest hb'
    | saveBody => exact sound_saveBody ok hdir hk' hw' hrest hb' hno
    | flush => exact sound_flush ok hdir hk' hw' hrest hb'
    | close => exact sound_close ok hdir hk' hw' hrest hb'
    | verify digest => exact sound_verify digest ok hdir hk' hw' hb'
    | transferring | finish => exact sound_still hdir (known_congr hk' rfl) (hw'.congr rfl rfl) hrest hb'
    | ack status => exact sound_still hdir hk' hw' hrest hb'
    | fail => exact sound_still hdir (known_congr hk' rfl) (hw'.congr rfl rfl) (fun o ho => absurd ho not_mem_nil) hb'
    | _ => exact absurd hop id

theorem sound_deliver {data : Bytes} (hs : Sound dir f h) (ht : h.deliver data = some t) (hd : f.Honest sha1 data) :
    Sound dir f t := by
  unfold deliver at ht
  split_ifs at ht with hidle
  obtain rfl := some.inj ht
  have htodo : h.receiver.todo = [] := by
    by_contra hne
    exact hidle (.inr hne)
  obtain ⟨hdir, hk, hw, -, hb⟩ := hs
  have hbk : f.Backed dir h.disk := by
    refine hb.resolve_right (fun hwin => ?_)
    have hhead := hwin.1
    rw [htodo] at hhead
    cases hhead
  have hkeep (todo : List Op) (faulted : Bool) (hfree : ∀ op ∈ todo, op.Free f) :
      Sound dir f ⟨{ h.receiver with todo, faulted }, h.disk⟩ :=
    sound_still hdir (known_congr hk rfl) (Writes.congr hw rfl rfl) hfree hbk
  have hnil : ∀ op ∈ h.receiver.todo, op.Free f := by
    rw [htodo]
    exact fun op hop => absurd hop not_mem_nil
  obtain hmeta | ⟨i, hi, rfl⟩ | rfl := hd
  · rw [onMessage_fileMeta hmeta]
    have hn : (h.receiver.named f).Named dir f := hdir ▸ h.receiver.named_named f
    exact ⟨hdir, .inl hn, fun x hx => ⟨hn, (hw x hx).2⟩, .load hn, .inl hbk⟩
  · obtain ⟨hnone, htrue, hfalse⟩ := onMessage_chunk hi h.receiver
    cases htest : h.receiver.bitmap.test i with
    | none =>
      rw [hnone htest]
      exact hkeep h.receiver.todo true hnil
    | some b =>
      cases b with
      | true =>
        rw [htrue htest]
        exact hkeep h.receiver.todo h.receiver.faulted hnil
      | false =>
        rw [hfalse htest]
        refine hkeep [.pwrite i (f.chunk i)] h.receiver.faulted (fun op hop => ?_)
        obtain rfl := mem_singleton.mp hop
        rfl
  · rw [onMessage_done]
    refine hkeep _ h.receiver.faulted (fun op hop => ?_)
    rcases mem_append.mp hop with hop | hop
    · rcases mem_append.mp hop with hop | hop
      · split_ifs at hop
        · rcases mem_cons.mp hop with rfl | hop
          · trivial
          · obtain rfl := mem_singleton.mp hop
            trivial
        · exact absurd hop not_mem_nil
      · exact free_saveBitmap op hop
    · obtain rfl := mem_singleton.mp hop
      trivial

theorem Sound.step {i : Input} (hs : Sound dir f h) (hfair : h.Fair sha1 dir f i) (ht : h.step sha1 i = some t) :
    Sound dir f t := by
  cases i with
  | message data => exact sound_deliver hs ht (hfair.2 data rfl)
  | op ok =>
    obtain ⟨⟨u, out⟩, hu, rfl⟩ := map_eq_some_iff.mp ht
    exact sound_run hs hu hfair.1

theorem Sound.backed_iff (hs : Sound dir f h) : f.Backed dir h.disk ↔ ¬ h.Window dir f := by
  refine ⟨fun hb hwin => ?_, fun hno => hs.backed.resolve_right hno⟩
  obtain ⟨-, hpart, i, hi⟩ := hwin
  exact not_holds_none hpart (hb i hi)

theorem not_backed_of_breaks {i : Input} (hs : Sound dir f h) (ht : h.step sha1 i = some t)
    (hbr : h.Breaks dir f i) : ¬ f.Backed dir t.disk := by
  cases i with
  | message data => exact absurd hbr id
  | op ok =>
    obtain ⟨⟨u, out⟩, hu, rfl⟩ := map_eq_some_iff.mp ht
    obtain ⟨op, todo, htodo, rfl⟩ := run_eq_some hu
    obtain ⟨-, hk, -, hst, -⟩ := hs
    unfold Breaks at hbr
    dsimp only at hbr
    rw [htodo, List.head?_cons] at hbr
    rw [htodo] at hst
    cases op with
    | openPart =>
      obtain ⟨rfl, i, hi⟩ := hbr
      have hn : h.receiver.Named dir f := by
        generalize hl : Op.openPart :: todo = l at hst
        cases hst with
        | openPart hn _ => exact hn
        | free hfree =>
          subst hl
          exact absurd (hfree _ mem_cons_self) id
        | _ => cases (List.cons.inj hl).1
      intro hb
      unfold after Receiver.exec at hb
      dsimp only at hb
      rw [hn.filepath, if_pos ⟨rfl, partPath_ne_nil dir f⟩] at hb
      exact not_holds_nil Disk.write_self (hb i ((marks_write (partPath_ne_bitmapPath dir f)).mpr hi))
    | saveBody =>
      obtain ⟨rfl, i, hi, hno⟩ := hbr
      have hn : h.receiver.Named dir f := by
        refine hk.resolve_right (fun hbl => ?_)
        have hlt := hi.lt
        dsimp only at hlt
        rw [hbl.totalChunks] at hlt
        exact Nat.not_lt_zero _ hlt
      intro hb
      unfold after Receiver.exec at hb
      dsimp only at hb
      rw [if_pos rfl] at hb
      have hh := hb i ((marks_saved hn).mpr hi)
      rw [hn.bitmapPath, holds_write (partPath_ne_bitmapPath dir f).symm] at hh
      exact hno hh
    | remove =>
      obtain ⟨rfl, hpart, i, hi⟩ := hbr
      exact fun hb => not_holds_none hpart (hb i hi)
    | _ => exact absurd hbr id

/-- **Resume trusts no chunk that is not on disk**: from a disk in order, in every run over messages of the file
without a step that breaks the rule, the disk is in order at every point but between the renaming of .part and the
removal of .bitmap; a step that breaks the rule leaves it out of order; and a FILE_RESUME has no bit of a chunk that is
not on disk. -/
theorem backed_iff_of_run {d₀ : Disk} (h0 : f.Backed dir d₀)
    (hrun : Run (step sha1) (Fair sha1 dir f) ⟨{ destDir := dir }, d₀⟩ h) :
    (f.Backed dir h.disk ↔ ¬ h.Window dir f) ∧
      (∀ i t, h.step sha1 i = some t → h.Breaks dir f i → ¬ f.Backed dir t.disk) ∧
      (h.receiver.todo.head? = some .sendResume → ∀ i, ¬ f.Holds i dir h.disk → ¬ h.receiver.bitmap.Has i) := by
  have hs : Sound dir f h := by
    refine hrun.preserves (I := Sound dir f) (fun _ _ _ hs hfair ht => hs.step hfair ht) ?_
    exact ⟨rfl, .inr ⟨rfl, rfl, rfl⟩, fun x hx => (by cases hx), .free (fun op hop => absurd hop not_mem_nil), .inl h0⟩
  refine ⟨hs.backed_iff, fun i t ht hbr => not_backed_of_breaks hs ht hbr, fun hhead i hno hi => hno ?_⟩
  have hst := hs.stage
  generalize hl : h.receiver.todo = l at hst
  rw [hl] at hhead
  cases hst with
  | send hn hbits => exact hbits i hi
  | free hfree => exact absurd (hfree _ (mem_of_mem_head? hhead)) id
  | _ => cases hhead

section Examples

theorem step_op {op : Op} {todo : List Op} {r' : Receiver} {d' : Disk} (htodo : r.todo = op :: todo)
    (hf : r.faulted = false) (hx : after sha1 op true { r with todo } d = ⟨r', d'⟩) :
    Host.step sha1 ⟨r, d⟩ (.op true) = some ⟨r', d'⟩ := by
  rw [← hx]
  unfold step run
  dsimp only
  rw [hf, htodo]
  rfl

def Honestly (sha1 : Bytes → Digest) (f : Source) (_ : Host) (i : Input) : Prop :=
  ∀ data, i = .message data → f.Honest sha1 data

theorem run_op {s : Host} {op : Op} {todo : List Op}
    (hrun : Run (step sha1) (Honestly sha1 f) s ⟨r, d⟩) (r' : Receiver) (d' : Disk) (htodo : r.todo = op :: todo) (hf : r.faulted = false)
    (hx : after sha1 op true { r with todo } d = ⟨r', d'⟩) : Run (step sha1) (Honestly sha1 f) s ⟨r', d'⟩ :=
  hrun.tail (fun _ hd => by cases hd) (step_op htodo hf hx)

theorem run_saveBitmap {s : Host} (todo : List Op) (hrun : Run (step sha1) (Honestly sha1 f) s ⟨r, d⟩)
    (htodo : r.todo = saveBitmap ++ todo) (hf : r.faulted = false) (hpath : r.bitmapPath ≠ []) :
    ∃ d', Run (step sha1) (Honestly sha1 f) s ⟨{ r with todo }, d'⟩ ∧
      d' r.bitmapPath = some (bitmapHeader r.totalChunks ++ r.bitmap.data) ∧
      ∀ path, path ≠ r.bitmapPath → d' path = d path := by
  have h1 := run_op hrun { r with todo := [.saveHeader, .saveBody] ++ todo } (d.write r.bitmapPath []) htodo hf (by
    unfold after Receiver.exec
    dsimp only
    rw [if_pos ⟨rfl, hpath⟩]
    rfl)
  have h2 := run_op h1 { r with todo := [.saveBody] ++ todo }
    ((d.write r.bitmapPath []).write r.bitmapPath (bitmapHeader r.totalChunks)) rfl hf rfl
  have h3 := run_op h2 { r with todo } (((d.write r.bitmapPath []).write r.bitmapPath (bitmapHeader r.totalChunks)).write
    r.bitmapPath (bitmapHeader r.totalChunks ++ r.bitmap.data)) rfl hf rfl
  refine ⟨_, h3, Disk.write_self, fun path hne => ?_⟩
  rw [Disk.write_of_ne hne, Disk.write_of_ne hne, Disk.write_of_ne hne]

/-- A receiver of the file with an open .part file. -/
def opened (dir : Text 511) (f : Source) (state : TransferState) (bitmap : Bitmap) (pending : List (ℕ × Bytes))
    (chunksReceived bytesReceived : ℕ) (todo : List Op) : Receiver :=
  { Receiver.named f { destDir := dir } with
    state, bitmap, handle := some ⟨f.partPath dir, pending⟩, chunksReceived, bytesReceived, todo }

/-- Where 31 of 32 chunks are marked and the last one is not in place, it arrives, and the bitmap is saved before it
is flushed. -/
theorem exists_unflushed {p : Bytes} (h32 : f.totalChunks = 32)
    (hb : d (f.bitmapPath dir) = some (bitmapHeader 32 ++ [255, 255, 255, 127]))
    (hp : d (f.partPath dir) = some p) (hno : ¬ f.InPlace 31 p) :
    ∃ h, Run (step sha1) (Honestly sha1 f) ⟨{ destDir := dir }, d⟩ h ∧ ¬ f.Backed dir h.disk := by
  obtain ⟨data, hdata⟩ := encodeFileMeta_isSome f
  have hpath := bitmapPath_ne_nil dir f
  have h1 : Run (step sha1) (Honestly sha1 f) ⟨{ destDir := dir }, d⟩ ⟨Receiver.named f { destDir := dir }, d⟩ := by
    refine .single (m := .message data) (fun _ hd => by cases hd; exact .inl hdata) ?_
    show some (Host.mk (Receiver.onMessage data _) d) = _
    rw [onMessage_fileMeta hdata]
  have h2 := run_op h1 { Receiver.named f { destDir := dir } with
      bitmap := ⟨32, [255, 255, 255, 127]⟩, todo := [.openResume] } d rfl rfl (by
    unfold after Receiver.exec
    have hl : Receiver.loadInto (some (bitmapHeader 32 ++ [255, 255, 255, 127])) {} =
      (⟨32, [255, 255, 255, 127]⟩, true) := by decide
    simp only [Receiver.named, Disk.read_of_ne hpath, hb, hl, h32, if_true])
  have h3 := run_op h2 (opened dir f .waitingPeer ⟨32, [255, 255, 255, 127]⟩ [] 31
      (min (31 * defaultChunkSize) f.content.length) resumeOps) d rfl rfl (by
    unfold after Receiver.exec
    have hc : Bitmap.count ⟨32, [255, 255, 255, 127]⟩ = some 31 := by decide
    simp only [Receiver.named, opened, Disk.read_of_ne (partPath_ne_nil dir f), hp, hc, isSome_some, and_self,
      if_true])
  have h4 := run_op h3 (opened dir f .waitingPeer ⟨32, [255, 255, 255, 127]⟩ [] 31
      (min (31 * defaultChunkSize) f.content.length) (saveBitmap ++ [.transferring])) d rfl rfl rfl
  obtain ⟨d1, h5, -, hd1⟩ := run_saveBitmap [.transferring] h4 rfl rfl hpath
  have h6 := run_op h5 (opened dir f .transferring ⟨32, [255, 255, 255, 127]⟩ [] 31
      (min (31 * defaultChunkSize) f.content.length) []) d1 rfl rfl rfl
  have h7 : Run (step sha1) (Honestly sha1 f) ⟨{ destDir := dir }, d⟩ ⟨opened dir f .transferring
      ⟨32, [255, 255, 255, 127]⟩ [] 31 (min (31 * defaultChunkSize) f.content.length) [.pwrite 31 (f.chunk 31)], d1⟩ := by
    refine h6.tail (m := .message (f.chunkMessage 31))
      (fun _ hd => by cases hd; exact .inr (.inl ⟨31, by rw [h32]; decide, rfl⟩)) ?_
    show some (Host.mk (Receiver.onMessage (f.chunkMessage 31) _) d1) = _
    rw [(onMessage_chunk (by rw [h32]; decide) _).2.2 (by decide : Bitmap.test 31 ⟨32, [255, 255, 255, 127]⟩ = some false)]
    rfl
  have h8 := run_op h7 (opened dir f .transferring ⟨32, [255, 255, 255, 255]⟩
      [(31 * defaultChunkSize, f.chunk 31)] 32 ((min (31 * defaultChunkSize) f.content.length + (f.chunk 31).length) %
        18446744073709551616) saveBitmap) d1 rfl rfl (by
    unfold after Receiver.exec opened Receiver.named
    dsimp only
    rw [if_pos rfl]
    unfold Receiver.mark
    have hset : Bitmap.set 31 ⟨32, [255, 255, 255, 127]⟩ = some ⟨32, [255, 255, 255, 255]⟩ := by decide
    dsimp only
    rw [hset]
    rfl)
  obtain ⟨d2, h9, hsaved, hd2⟩ := run_saveBitmap [] h8 rfl rfl hpath
  refine ⟨_, h9, fun hback => ?_⟩
  have hhas : (bitmapOf (bitmapHeader f.totalChunks ++ [255, 255, 255, 255])).Has 31 := by
    rw [h32]
    decide
  obtain ⟨p', hp', hin⟩ := hback 31 ⟨_, hsaved, hhas⟩
  have hpart : d2 (f.partPath dir) = some p := by
    rw [hd2 _ (partPath_ne_bitmapPath dir f), hd1 _ (partPath_ne_bitmapPath dir f), hp]
  obtain rfl := some.inj (hpart.symm.trans hp')
  exact hno hin

def someDigest : Digest := ⟨List.replicate 20 0, rfl⟩

def someDir : Text 511 := textOfBytes 511 [100]

def oneByte : Source := ⟨textOfBytes 255 [102], [7], by decide⟩

/-- A receiver of it, up to its FILE_RESUME. -/
theorem backed_iff_of_run_oneByte : ∃ h,
    Run (step fun _ => someDigest) (Fair (fun _ => someDigest) someDir oneByte) ⟨{ destDir := someDir }, fun _ => none⟩ h ∧
    h.receiver.todo.head? = some .sendResume ∧
    (oneByte.Backed someDir h.disk ↔ ¬ h.Window someDir oneByte) ∧
    (∀ i t, h.step (fun _ => someDigest) i = some t → h.Breaks someDir oneByte i → ¬ oneByte.Backed someDir t.disk) ∧
    (h.receiver.todo.head? = some .sendResume → ∀ i, ¬ oneByte.Holds i someDir h.disk → ¬ h.receiver.bitmap.Has i) := by
  have h0 : oneByte.Backed someDir (fun _ => none) := .of_unmarked (fun i ⟨b, hb, _⟩ => by cases hb)
  have h1 : Run (step fun _ => someDigest) (Fair (fun _ => someDigest) someDir oneByte)
      ⟨{ destDir := someDir }, fun _ => none⟩ _ :=
    .single (m := .message ((encodeFileMeta oneByte.fileMeta 512).getD []))
      ⟨not_false, fun data hd => by cases hd; exact .inl rfl⟩ rfl
  have h2 := h1.tail (m := .op true) ⟨(by intro hb; exact hb), fun data hd => by cases hd⟩ rfl
  have h3 := h2.tail (m := .op true) ⟨(by rintro ⟨-, i, b, hb, -⟩; cases hb), fun data hd => by cases hd⟩ rfl
  have h4 := h3.tail (m := .op true) ⟨(by intro hb; exact hb), fun data hd => by cases hd⟩ rfl
  have h5 := h4.tail (m := .op true) ⟨(by intro hb; exact hb), fun data hd => by cases hd⟩ rfl
  exact ⟨_, h5, rfl, backed_iff_of_run h0 h5⟩

/-- A file of 32 chunks: the last has one byte, and that one is not zero. -/
def manyChunks : Source :=
  ⟨textOfBytes 255 [102], List.replicate 2031616 0 ++ [7], by
    rw [List.length_append, List.length_replicate]
    decide⟩

theorem length_manyChunks : manyChunks.content.length = 2031617 := by
  have h : (List.replicate 2031616 (0 : UInt8) ++ [7]).length = 2031616 + 1 := by
    rw [length_append, length_replicate, length_singleton]
  exact h

/-- The disk after 31 chunks of it were received and flushed. -/
def interrupted : Disk := fun path =>
  if path = manyChunks.bitmapPath someDir then some (bitmapHeader 32 ++ [255, 255, 255, 127])
  else if path = manyChunks.partPath someDir then some (List.replicate 2031617 0) else none

theorem interrupted_bitmapPath :
    interrupted (manyChunks.bitmapPath someDir) = some (bitmapHeader 32 ++ [255, 255, 255, 127]) := if_pos rfl

theorem interrupted_partPath : interrupted (manyChunks.partPath someDir) = some (List.replicate 2031617 0) :=
  (if_neg (partPath_ne_bitmapPath _ _)).trans (if_pos rfl)

theorem backed_interrupted : manyChunks.Backed someDir interrupted := by
  rintro i ⟨b, hb, hi⟩
  rw [interrupted_bitmapPath] at hb
  obtain rfl := some.inj hb
  rw [bitmapOf_saved (by decide)] at hi
  have hlt : i < 32 := hi.lt
  have hne : i ≠ 31 := by
    rintro rfl
    exact absurd hi (by decide)
  refine ⟨_, interrupted_partPath, ?_, fun q h1 h2 h3 => ?_⟩
  · rw [length_manyChunks]
    unfold defaultChunkSize
    omega
  · have hq : q < 2031616 := by
      unfold defaultChunkSize at h2
      omega
    show (List.replicate 2031617 0)[q]? = (List.replicate 2031616 0 ++ [7])[q]?
    rw [List.getElem?_append_left (by rw [length_replicate]; exact hq), List.getElem?_replicate_of_lt hq,
      List.getElem?_replicate_of_lt (by omega)]

/-- The 32nd chunk arrives, the bitmap is saved, and the receiver stops. -/
theorem not_backed_unflushed : manyChunks.Backed someDir interrupted ∧
    ∃ h, Run (step fun _ => someDigest) (Honestly (fun _ => someDigest) manyChunks)
      ⟨{ destDir := someDir }, interrupted⟩ h ∧ ¬ manyChunks.Backed someDir h.disk := by
  refine ⟨backed_interrupted, exists_unflushed ?_ interrupted_bitmapPath interrupted_partPath ?_⟩
  · rw [totalChunks_eq, length_manyChunks]
  · rintro ⟨-, h⟩
    have hq := h 2031616 (by decide) (by decide) (by rw [length_manyChunks]; decide)
    rw [List.getElem?_replicate_of_lt (by decide)] at hq
    have hlast : manyChunks.content[2031616]? = some 7 := by
      show (List.replicate 2031616 0 ++ [7])[2031616]? = some 7
      rw [List.getElem?_append_right (by rw [length_replicate]), length_replicate]
      rfl
    rw [hlast] at hq
    exact absurd (some.inj hq) (by decide)

end Examples

end Host

end Libx.Fer
