import Libx.Fer.Durable

/-!
# Libx.Fer.Confined — the paths that a receiver uses
-/

namespace Libx.Fer

open Libx.Core (Run)
open Libx.Agent (Bytes cstr)
open Libx.Turn (Text)
open List Option

/-- A component of a path that names an entry of a directory: not empty, not "." or "..", without '/'. -/
def Component (name : Bytes) : Prop := name ≠ [] ∧ name ≠ [46] ∧ name ≠ [46, 46] ∧ 47 ∉ name

instance (name : Bytes) : Decidable (Component name) := inferInstanceAs (Decidable (_ ∧ _ ∧ _ ∧ _))

/-- The directory, '/' and a component, with ".part" or ".bitmap" behind it or not. -/
def Under (dir path : Bytes) : Prop :=
  ∃ name suffix, Component name ∧ suffix ∈ [[], partSuffix, bitmapSuffix] ∧ path = dir ++ [47] ++ name ++ suffix

def Op.paths (r : Receiver) : Op → List Bytes
  | .loadBitmap | .saveOpen | .remove => [r.bitmapPath]
  | .openResume | .openPart | .reopen | .verify _ => [r.filepath]
  | .rename => [r.filepath, pathIn r.destDir r.filename []]
  | _ => []

/-- A FILE_META names a component; before the first one there is no FILE_DONE, and no chunk at which the bitmap is
saved. -/
def Host.Tame (h : Host) : Host.Input → Prop
  | .op _ => True
  | .message data =>
    (∀ payload m, data = msgFileMeta :: payload → decodeFileMeta payload = some m → m.chunkSize ≠ 0 →
        Component (cstr m.filename).bytes) ∧
      (h.receiver.filepath = [] →
        (∀ payload, data = msgFileChunk :: payload → (h.receiver.chunksReceived + 1) % 4294967296 % persistInterval ≠ 0) ∧
          ∀ payload, data = msgFileDone :: payload → decodeFileDone payload = none)

/-! ### Paths -/

section Paths

variable {dir path name suffix : Bytes}

theorem count_component (h : Component name) : name.count 47 = 0 := count_eq_zero.mpr h.2.2.2

theorem count_of_under (h : Under dir path) : path.count 47 = dir.count 47 + 1 := by
  obtain ⟨name, suffix, hname, hsuffix, rfl⟩ := h
  have h0 : suffix.count 47 = 0 := by
    simp only [mem_cons, not_mem_nil, or_false] at hsuffix
    rcases hsuffix with rfl | rfl | rfl <;> rfl
  rw [count_append, count_append, count_append, count_component hname, h0]
  rfl

theorem pathIn_eq (dir : Text 511) (h : name.length ≤ 255) (hs : suffix ∈ [[], partSuffix, bitmapSuffix]) :
    pathIn dir name suffix = dir.1.bytes ++ [47] ++ name ++ suffix := by
  have hlen : suffix.length ≤ 7 := by
    simp only [mem_cons, not_mem_nil, or_false] at hs
    rcases hs with rfl | rfl | rfl <;> decide
  refine take_of_length_le ?_
  rw [length_append, length_append, length_append, length_singleton]
  omega

theorem under_pathIn (dir : Text 511) (hname : Component name) (h : name.length ≤ 255)
    (hs : suffix ∈ [[], partSuffix, bitmapSuffix]) : Under dir.1.bytes (pathIn dir name suffix) :=
  ⟨name, suffix, hname, hs, pathIn_eq dir h hs⟩

end Paths

theorem length_filename {data : Bytes} {m : FileMeta} (h : decodeFileMeta data = some m) :
    (cstr m.filename).bytes.length ≤ 255 := by
  unfold decodeFileMeta at h
  dsimp only at h
  split_ifs at h with h1 h2
  obtain rfl := some.inj h
  refine (List.IsPrefix.length_le (List.takeWhile_prefix _)).trans ?_
  rw [length_take]
  omega

/-! ### What an operation changes -/

namespace Receiver

variable {r r' r'' : Receiver} {sha1 : Bytes → Digest} {d : Disk}

/-- The names stay, and a handle is the one there was or one of the .part file. -/
structure Same (r r' : Receiver) : Prop where
  destDir : r'.destDir = r.destDir
  filename : r'.filename = r.filename
  filepath : r'.filepath = r.filepath
  bitmapPath : r'.bitmapPath = r.bitmapPath
  handle : ∀ x, r'.handle = some x → x.path = r.filepath ∨ ∃ y, r.handle = some y ∧ y.path = x.path

theorem Same.refl (r : Receiver) : Same r r := ⟨rfl, rfl, rfl, rfl, fun x hx => .inr ⟨x, hx, rfl⟩⟩

theorem Same.trans (h : Same r r') (h' : Same r' r'') : Same r r'' := by
  refine ⟨h'.destDir.trans h.destDir, h'.filename.trans h.filename, h'.filepath.trans h.filepath,
    h'.bitmapPath.trans h.bitmapPath, fun x hx => ?_⟩
  rcases h'.handle x hx with hpath | ⟨y, hy, hpath⟩
  · exact .inl (hpath.trans h.filepath)
  · rcases h.handle y hy with hy | ⟨z, hz, hzy⟩
    · exact .inl (hpath ▸ hy)
    · exact .inr ⟨z, hz, hzy.trans hpath⟩

theorem Same.of_handle (hdir : r'.destDir = r.destDir) (hname : r'.filename = r.filename)
    (hfile : r'.filepath = r.filepath) (hbm : r'.bitmapPath = r.bitmapPath) (hhandle : r'.handle = r.handle) :
    Same r r' := ⟨hdir, hname, hfile, hbm, fun x hx => .inr ⟨x, hhandle ▸ hx, rfl⟩⟩

theorem same_reportError (r : Receiver) : Same r r.reportError := .of_handle rfl rfl rfl rfl rfl

theorem same_startFresh (r : Receiver) (bm : Bitmap) : Same r (startFresh { r with bitmap := bm }) := by
  unfold startFresh
  cases Bitmap.init r.totalChunks with
  | none | some bm' => exact .of_handle rfl rfl rfl rfl rfl

theorem same_mark (i len : ℕ) (r : Receiver) : Same r (r.mark i len) := by
  unfold mark
  cases r.bitmap.set i with
  | none | some bm => exact .of_handle rfl rfl rfl rfl rfl

theorem same_handle (r : Receiver) (x : Option Handle) (h : ∀ y, x = some y → y.path = r.filepath) :
    Same r { r with handle := x } := ⟨rfl, rfl, rfl, rfl, fun y hy => .inl (h y hy)⟩

theorem same_handle_path (r : Receiver) {x y : Handle} (hx : r.handle = some x) (hpath : y.path = x.path) :
    Same r { r with handle := some y } := by
  refine ⟨rfl, rfl, rfl, rfl, fun z hz => .inr ⟨x, hx, ?_⟩⟩
  obtain rfl := some.inj hz
  exact hpath.symm

theorem same_exec (sha1 : Bytes → Digest) (op : Op) (ok : Bool) (r : Receiver) (d : Disk) :
    Same r (exec sha1 op ok r d).1 := by
  have hopen : Same r { r with handle := some ⟨r.filepath, []⟩ } := same_handle r _ (by rintro y ⟨⟩; rfl)
  have hclosed : Same r { r with handle := none } := same_handle r none (by rintro y ⟨⟩)
  unfold exec
  cases op with
  | loadBitmap =>
    dsimp only
    generalize loadInto (if ok = true then d.read r.bitmapPath else none) r.bitmap = x
    split_ifs
    · exact .of_handle rfl rfl rfl rfl rfl
    · exact same_startFresh r {}
    · exact same_startFresh r x.1
  | openResume =>
    dsimp only
    split_ifs
    · cases r.bitmap.count with
      | none => exact .of_handle rfl rfl rfl rfl rfl
      | some n => exact hopen.trans (.of_handle rfl rfl rfl rfl rfl)
    · exact hclosed.trans (same_startFresh { r with handle := none } {})
  | openPart | reopen =>
    dsimp only
    split_ifs
    · exact hopen
    · exact hclosed.trans (same_reportError _)
  | truncate =>
    cases d r.filepath with
    | none | some content => exact .refl r
  | saveOpen | saveHeader =>
    dsimp only
    split_ifs
    · exact .refl r
    · exact .of_handle rfl rfl rfl rfl rfl
  | pwrite i data =>
    cases hx : r.handle with
    | none => exact same_mark i _ r
    | some x =>
      dsimp only
      split_ifs
      · exact (same_handle_path (y := { x with pending := x.pending ++ [(i * r.chunkSize, data)] }) r hx rfl).trans
          (same_mark i data.length _)
      · exact same_reportError r
  | flush =>
    cases hx : r.handle with
    | none => exact .refl r
    | some x =>
      dsimp only
      split_ifs
      · exact same_handle_path r hx rfl
      · exact .refl r
  | close =>
    cases r.handle with
    | none => exact .refl r
    | some x => exact hclosed
  | verify digest =>
    dsimp only
    generalize (if ok = true then d.read r.filepath else none).map sha1 = x
    split_ifs
    all_goals exact .of_handle rfl rfl rfl rfl rfl
  | rename =>
    cases (if ok = true then d.read r.filepath else none) with
    | none | some content => exact .refl r
  | fail => exact same_reportError r
  | _ => exact .of_handle rfl rfl rfl rfl rfl

theorem disk_exec (sha1 : Bytes → Digest) (op : Op) (ok : Bool) {path : Bytes} (h1 : path ≠ r.filepath)
    (h2 : path ≠ r.bitmapPath) (h3 : path ≠ pathIn r.destDir r.filename [])
    (h4 : ∀ x, r.handle = some x → path ≠ x.path) : (exec sha1 op ok r d).2.1 path = d path := by
  have hsync (x : Handle) (hx : r.handle = some x) : x.sync d path = d path := by
    unfold Handle.sync
    cases d x.path with
    | none => rfl
    | some content => exact Disk.write_of_ne (h4 x hx)
  unfold exec
  cases op with
  | loadBitmap | verify digest =>
    dsimp only
    split_ifs <;> rfl
  | openResume =>
    dsimp only
    split_ifs
    · cases r.bitmap.count <;> rfl
    · rfl
  | openPart =>
    dsimp only
    split_ifs
    · exact Disk.write_of_ne h1
    · rfl
  | truncate =>
    cases d r.filepath with
    | none => rfl
    | some content =>
      dsimp only
      split_ifs
      · exact Disk.write_of_ne h1
      · rfl
  | reopen =>
    split_ifs <;> rfl
  | saveOpen | saveHeader | saveBody =>
    dsimp only
    split_ifs
    · exact Disk.write_of_ne h2
    · rfl
  | pwrite i data =>
    cases r.handle with
    | none => rfl
    | some x =>
      split_ifs <;> rfl
  | flush | close =>
    cases hx : r.handle with
    | none => rfl
    | some x =>
      dsimp only
      split_ifs
      · exact hsync x hx
      · rfl
  | rename =>
    cases (if ok = true then d.read r.filepath else none) with
    | none => rfl
    | some content => exact (Disk.write_of_ne h3).trans (Disk.remove_of_ne h1)
  | remove =>
    dsimp only
    split_ifs
    · exact Disk.remove_of_ne h2
    · rfl
  | _ => rfl

end Receiver

/-! ### Runs -/

/-- The paths are put together from a component. -/
structure Receiver.Placed (dir : Text 511) (r : Receiver) : Prop where
  name : Component r.filename
  short : r.filename.length ≤ 255
  filepath : r.filepath = pathIn dir r.filename partSuffix
  bitmapPath : r.bitmapPath = pathIn dir r.filename bitmapSuffix

/-- No FILE_META has been taken: there is no path, and no operation that needs one is coming. -/
structure Receiver.Early (r : Receiver) : Prop where
  filepath : r.filepath = []
  handle : r.handle = none
  todo : r.todo = [] ∨ ∃ i data, r.todo = [.pwrite i data] ∧ (r.chunksReceived + 1) % 4294967296 % persistInterval ≠ 0

/-- What holds in every state of a tame run. -/
structure Host.Confined (dir : Text 511) (d : Disk) (h : Host) : Prop where
  destDir : h.receiver.destDir = dir
  handle : ∀ x, h.receiver.handle = some x → Under dir.1.bytes x.path
  stage : h.receiver.faulted = true ∨ h.receiver.Placed dir ∨ h.receiver.Early
  disk : ∀ path, ¬ Under dir.1.bytes path → h.disk path = d path

namespace Host

variable {dir : Text 511} {d : Disk} {sha1 : Bytes → Digest} {h t : Host}

variable {r : Receiver}

theorem under_filepath (hr : r.Placed dir) : Under dir.1.bytes r.filepath :=
  hr.filepath ▸ under_pathIn dir hr.name hr.short (by simp)

theorem under_bitmapPath (hr : r.Placed dir) : Under dir.1.bytes r.bitmapPath :=
  hr.bitmapPath ▸ under_pathIn dir hr.name hr.short (by simp)

theorem placed_of_same {r' : Receiver} (hr : r.Placed dir) (hs : r.Same r') : r'.Placed dir := by
  obtain ⟨h1, h2, h3, h4⟩ := hr
  rw [← hs.filename] at h1 h2 h3 h4
  exact ⟨h1, h2, hs.filepath.trans h3, hs.bitmapPath.trans h4⟩

theorem confined_exec_placed (op : Op) (ok : Bool) {d' : Disk} (hr : r.Placed dir)
    (hc : Confined dir d ⟨r, d'⟩) :
    Confined dir d ⟨(r.exec sha1 op ok d').1, (r.exec sha1 op ok d').2.1⟩ := by
  have hs := Receiver.same_exec sha1 op ok r d'
  refine ⟨hs.destDir.trans hc.destDir, fun x hx => ?_, .inr (.inl (placed_of_same hr hs)), fun path hpath => ?_⟩
  · rcases hs.handle x hx with hp | ⟨y, hy, hp⟩
    · exact hp ▸ under_filepath hr
    · exact hp ▸ hc.handle y hy
  · dsimp only
    rw [Receiver.disk_exec sha1 op ok]
    · exact hc.disk path hpath
    · rintro rfl
      exact hpath (under_filepath hr)
    · rintro rfl
      exact hpath (under_bitmapPath hr)
    · have hdir : r.destDir = dir := hc.destDir
      rw [hdir]
      rintro rfl
      exact hpath (under_pathIn dir hr.name hr.short (by simp))
    · rintro x hx rfl
      exact hpath (hc.handle x hx)

theorem confined_exec_early (sha1 : Bytes → Digest) (i : ℕ) (data : Bytes) (ok : Bool) {d' : Disk}
    (hfile : r.filepath = [])
    (hhandle : r.handle = none) (hcount : (r.chunksReceived + 1) % 4294967296 % persistInterval ≠ 0)
    (hc : Confined dir d ⟨r, d'⟩) :
    Confined dir d ⟨(r.exec sha1 (.pwrite i data) ok d').1, (r.exec sha1 (.pwrite i data) ok d').2.1⟩ := by
  have heq : r.exec sha1 (.pwrite i data) ok d' = (r.mark i data.length, d', []) := by
    unfold Receiver.exec
    rw [hhandle]
  rw [heq]
  have hs := Receiver.same_mark i data.length r
  refine ⟨hs.destDir.trans hc.destDir, fun x hx => ?_, ?_, hc.disk⟩
  · rcases hs.handle x hx with hp | ⟨y, hy, -⟩
    · unfold Receiver.mark at hx
      cases hset : r.bitmap.set i with
      | none | some bm =>
        rw [hset] at hx
        cases hhandle.symm.trans hx
    · cases hhandle.symm.trans hy
  · unfold Receiver.mark
    cases r.bitmap.set i with
    | none => exact .inl rfl
    | some bm => exact .inr (.inr ⟨hfile, hhandle, .inl (if_neg hcount)⟩)

theorem confined_run {ok : Bool} {out : List Bytes} (hc : Confined dir d h) (ht : h.run sha1 ok = some (t, out)) :
    Confined dir d t := by
  unfold run at ht
  split_ifs at ht with hfault
  cases htodo : h.receiver.todo with
  | nil =>
    rw [htodo] at ht
    cases ht
  | cons op todo =>
    rw [htodo] at ht
    obtain ⟨rfl, -⟩ := Prod.mk.inj (some.inj ht)
    have hrest : Confined dir d ⟨{ h.receiver with todo }, h.disk⟩ → h.receiver.Placed dir →
        Confined dir d ⟨(Receiver.exec sha1 op ok { h.receiver with todo } h.disk).1,
          (Receiver.exec sha1 op ok { h.receiver with todo } h.disk).2.1⟩ :=
      fun hc hp => confined_exec_placed op ok ⟨hp.name, hp.short, hp.filepath, hp.bitmapPath⟩ hc
    rcases hc.stage with hf | hp | he
    · exact absurd hf hfault
    · exact hrest ⟨hc.destDir, hc.handle, .inr (.inl ⟨hp.name, hp.short, hp.filepath, hp.bitmapPath⟩), hc.disk⟩ hp
    · rcases he.todo with hnil | ⟨i, data, hone, hcount⟩
      · cases hnil.symm.trans htodo
      · obtain ⟨rfl, rfl⟩ := List.cons.inj (htodo.symm.trans hone)
        exact confined_exec_early sha1 i data ok he.filepath he.handle hcount
          ⟨hc.destDir, hc.handle, .inr (.inr ⟨he.filepath, he.handle, .inl rfl⟩), hc.disk⟩

theorem confined_of_handle {r' : Receiver} (hc : Confined dir d h) (hs : h.receiver.Same r')
    (hhandle : r'.handle = h.receiver.handle) (hlive : h.receiver.faulted = false)
    (hearly : h.receiver.Early → r'.faulted = true ∨ r'.Early) : Confined dir d { h with receiver := r' } := by
  refine ⟨hs.destDir.trans hc.destDir, fun x hx => hc.handle x (hhandle.symm.trans hx), ?_, hc.disk⟩
  rcases hc.stage with hf | hp | he
  · rw [hlive] at hf
    cases hf
  · exact .inr (.inl (placed_of_same hp hs))
  · exact (hearly he).imp_right .inr

theorem confined_onMessage {data : Bytes} (hc : Confined dir d h) (hlive : h.receiver.faulted = false)
    (htame : h.Tame (.message data)) :
    Confined dir d { h with receiver := h.receiver.onMessage data } := by
  obtain ⟨hmeta, hearly⟩ := htame
  have hstay : Confined dir d { h with receiver := h.receiver } := hc
  have herror : Confined dir d { h with receiver := h.receiver.reportError } :=
    confined_of_handle hc (.of_handle rfl rfl rfl rfl rfl) rfl hlive (fun he => .inr ⟨he.filepath, he.handle, .inl rfl⟩)
  unfold Receiver.onMessage
  cases data with
  | nil => exact hstay
  | cons type payload =>
    dsimp only
    by_cases h1 : type = msgFileMeta
    · rw [if_pos h1]
      cases hdec : decodeFileMeta payload with
      | none => exact herror
      | some m =>
        dsimp only
        split_ifs with hzero
        · exact ⟨hc.destDir, hc.handle, .inl rfl, hc.disk⟩
        · have hdir : h.receiver.destDir = dir := hc.destDir
          refine ⟨hdir, hc.handle, .inr (.inl ⟨hmeta payload m (h1 ▸ rfl) hdec hzero, length_filename hdec, ?_, ?_⟩), hc.disk⟩
          · rw [← hdir]
          · rw [← hdir]
    rw [if_neg h1]
    by_cases h2 : type = msgFileChunk
    · rw [if_pos h2]
      cases decodeChunkHeader payload with
      | none => exact herror
      | some x =>
        dsimp only
        cases h.receiver.bitmap.test x.1 with
        | none => exact confined_of_handle hc (.of_handle rfl rfl rfl rfl rfl) rfl hlive (fun _ => .inl rfl)
        | some b =>
          cases b with
          | true => exact hstay
          | false =>
            refine confined_of_handle hc (.of_handle rfl rfl rfl rfl rfl) rfl hlive (fun he => .inr ?_)
            exact ⟨he.filepath, he.handle, .inr ⟨_, _, rfl, (hearly he.filepath).1 payload (h2 ▸ rfl)⟩⟩
    rw [if_neg h2]
    by_cases h3 : type = msgFileDone
    · rw [if_pos h3]
      cases hdec : decodeFileDone payload with
      | none => exact herror
      | some m =>
        refine confined_of_handle hc (.of_handle rfl rfl rfl rfl rfl) rfl hlive (fun he => ?_)
        have hno := (hearly he.filepath).2 payload (h3 ▸ rfl)
        rw [hdec] at hno
        cases hno
    rw [if_neg h3]
    exact hstay

theorem confined_step (hc : Confined dir d h) (i : Input) (htame : h.Tame i) (ht : h.step sha1 i = some t) :
    Confined dir d t := by
  cases i with
  | message data =>
    unfold step deliver at ht
    split_ifs at ht with hbusy
    obtain rfl := some.inj ht
    exact confined_onMessage hc (Bool.eq_false_iff.mpr (not_or.mp hbusy).1) htame
  | op ok =>
    obtain ⟨⟨t', out⟩, hrun, rfl⟩ := map_eq_some_iff.mp ht
    exact confined_run hc hrun

theorem Confined.paths (hc : Confined dir d h) (hlive : h.receiver.faulted = false) {op : Op} {todo : List Op}
    (htodo : h.receiver.todo = op :: todo) {path : Bytes} (hpath : path ∈ op.paths h.receiver) :
    Under dir.1.bytes path := by
  rcases hc.stage with hf | hp | he
  · rw [hlive] at hf
    cases hf
  · have hfinal : Under dir.1.bytes (pathIn h.receiver.destDir h.receiver.filename []) := by
      have hdir : h.receiver.destDir = dir := hc.destDir
      rw [hdir]
      exact under_pathIn dir hp.name hp.short (by simp)
    unfold Op.paths at hpath
    cases op <;> simp only [mem_cons, not_mem_nil, or_false] at hpath
    case rename =>
      rcases hpath with rfl | rfl
      · exact under_filepath hp
      · exact hfinal
    case loadBitmap | saveOpen | remove => exact hpath ▸ under_bitmapPath hp
    case openResume | openPart | reopen | verify => exact hpath ▸ under_filepath hp
  · rcases he.todo with hnil | ⟨i, data, hone, -⟩
    · cases hnil.symm.trans htodo
    · obtain ⟨rfl, -⟩ := List.cons.inj (htodo.symm.trans hone)
      cases hpath

/-- **A received file stays in its directory**: in a run in which every FILE_META names a component, and nothing needs
a path before the first of them, each path is one right under the directory, and no other file changes. -/
theorem confined_of_run (hrun : Run (Host.step sha1) Tame ⟨{ destDir := dir }, d⟩ t) :
    (t.receiver.faulted = false → ∀ op todo, t.receiver.todo = op :: todo →
        ∀ path ∈ op.paths t.receiver, Under dir.1.bytes path) ∧
      ∀ path, ¬ Under dir.1.bytes path → t.disk path = d path := by
  have h0 : Confined dir d ⟨{ destDir := dir }, d⟩ :=
    ⟨rfl, fun _ hx => (nomatch hx), .inr (.inr ⟨rfl, rfl, .inl rfl⟩), fun _ _ => rfl⟩
  have hc : Confined dir d t := hrun.preserves (fun _ i _ hs hi ht => confined_step hs i hi ht) h0
  exact ⟨fun hlive op todo htodo path hpath => hc.paths hlive htodo hpath, hc.disk⟩

/-- FILE_META of a file of one byte in one chunk, by its name. -/
def metaNamed (name : Bytes) : Bytes :=
  msgFileMeta :: (Libx.Ice.writeU16 name.length ++ (name ++ (Libx.Ice.writeU64 1 ++
    (Libx.Ice.writeU32 1 ++ List.replicate 20 0))))

/-- The name "f". -/
theorem confined_of_run_named :
    Under someDir.1.bytes (pathIn someDir [102] bitmapSuffix) := by
  have h0 : Host.step (fun _ => someDigest) ⟨{ destDir := someDir }, fun _ => none⟩ (.message (metaNamed [102])) =
      some ⟨Receiver.onMessage (metaNamed [102]) { destDir := someDir }, fun _ => none⟩ := rfl
  have htame : Tame ⟨{ destDir := someDir }, fun _ => none⟩ (.message (metaNamed [102])) := by
    refine ⟨fun payload m hdata hdec _ => ?_, fun _ => ⟨fun payload hdata => ?_, fun payload hdata => ?_⟩⟩
    · obtain ⟨-, rfl⟩ := List.cons.inj hdata
      obtain rfl := some.inj hdec
      decide
    all_goals cases (List.cons.inj hdata).1
  exact (confined_of_run (.single htame h0)).1 rfl .loadBitmap [] rfl _ mem_cons_self

/-- The name "../f". -/
theorem not_under_dotdot :
    ¬ ∀ (sha1 : Bytes → Digest) (dir : Text 511) (d : Disk) (t : Host),
      Run (Host.step sha1) (fun _ _ => True) ⟨{ destDir := dir }, d⟩ t → t.receiver.faulted = false →
        ∀ op todo, t.receiver.todo = op :: todo → ∀ path ∈ op.paths t.receiver, Under dir.1.bytes path := by
  intro h
  have h0 : Host.step (fun _ => someDigest) ⟨{ destDir := someDir }, fun _ => none⟩
      (.message (metaNamed [46, 46, 47, 102])) =
      some ⟨Receiver.onMessage (metaNamed [46, 46, 47, 102]) { destDir := someDir }, fun _ => none⟩ := rfl
  have hunder := h _ someDir _ _ (.single trivial h0) rfl .loadBitmap [] rfl _ mem_cons_self
  exact absurd (count_of_under hunder) (by decide)

end Host

end Libx.Fer
