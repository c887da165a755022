import Libx.Fer.Delivery

/-!
# Libx.Fer.Outcome — where an honest transfer ends
-/

namespace Libx.Fer

open Libx.Core (Run replay exists_run_of_replay)
open Libx.Agent (Bytes)
open Libx.Turn (Text textOfBytes)
open Host (someDir someDigest oneByte)
open List

/-! ### Without a bitmap -/

namespace Receiver

variable {sha1 : Bytes → Digest} {dir : Text 511} {f : Source} {d₀ d : Disk} {r : Receiver} {op : Op}

theorem state_ne_done_exec (ok : Bool) (hop : op ≠ .finish) (h : r.state ≠ .done) : (exec sha1 op ok r d).1.state ≠ .done := by
  have hfresh : lastState r.state r.freshLog ≠ .done := by
    unfold freshLog
    split_ifs
    · exact nofun
    · exact h
  have hreported : lastState r.state reported ≠ .done := nofun
  rw [state_exec]
  unfold execLog
  cases op with
  | finish => exact absurd rfl hop
  | loadBitmap =>
    dsimp only
    generalize loadInto (if ok = true then d.read r.bitmapPath else none) r.bitmap = x
    split_ifs
    · exact h
    · exact hfresh
    · exact hfresh
  | openResume =>
    dsimp only
    split_ifs
    · exact h
    · exact hfresh
  | openPart | reopen =>
    dsimp only
    split_ifs
    · exact h
    · exact hreported
  | sendResume | ack =>
    dsimp only
    split_ifs
    · exact h
    · exact h
  | pwrite i data =>
    cases r.handle with
    | none => exact h
    | some x =>
      dsimp only
      split_ifs
      · exact h
      · exact hreported
  | fail => exact hreported
  | transferring => exact nofun
  | _ => exact h

theorem refuses_loadBitmap (hn : r.Named dir f) (hzero : f.totalChunks = 0) :
    (exec sha1 .loadBitmap true r d).1.todo = [] ∧ (exec sha1 .loadBitmap true r d).2.2 = [] := by
  have hfresh (bm : Bitmap) : (startFresh { r with bitmap := bm }).todo = [] := by
    unfold startFresh
    rw [hn.totalChunks, hzero]
    rfl
  unfold exec
  cases hload : loadInto (if true = true then d.read r.bitmapPath else none) r.bitmap with
  | mk bm loaded =>
    dsimp only
    cases loaded with
    | false => exact ⟨hfresh bm, rfl⟩
    | true =>
      have hbits : bm.nbits ≠ r.totalChunks := by
        rw [hn.totalChunks, hzero]
        rw [if_pos rfl] at hload
        unfold loadInto at hload
        cases hc : d.read r.bitmapPath with
        | none =>
          rw [hc] at hload
          cases hload
        | some content =>
          rw [hc] at hload
          dsimp only at hload
          cases hbm : bitmapLoad content with
          | none =>
            rw [hbm] at hload
            cases (Prod.mk.inj hload).2
          | some bm' =>
            rw [hbm] at hload
            obtain ⟨rfl, -⟩ := Prod.mk.inj hload
            exact (bitmapLoad_spec hbm).1
      rw [if_pos rfl, if_neg hbits]
      exact ⟨hfresh {}, rfl⟩

/-- A receiver whose bitmap has no byte for its bits, while it saves that bitmap. -/
structure Barren (f : Source) (b : Bitmap) (r : Receiver) : Prop where
  state : r.state ≠ .done
  sound : r.faulted = false
  bitmap : r.bitmap = b
  bitmapPath : ∃ dir, r.bitmapPath = f.bitmapPath dir
  todo : ∀ op ∈ r.todo, Keeps op

theorem barren_exec {b : Bitmap} {todo : List Op} (sha1 : Bytes → Digest) (h : Barren f b r) (htodo : r.todo = op :: todo) :
    Barren f b (exec sha1 op true { r with todo } d).1 ∧ (exec sha1 op true { r with todo } d).2.2 = [] := by
  obtain ⟨hstate, hsound, hbitmap, ⟨dir, hpath⟩, hkeeps⟩ := h
  rw [htodo] at hkeeps
  have hkeep := hkeeps op mem_cons_self
  obtain ⟨⟨state, hr⟩, -, hout⟩ := @exec_keeps dir f d { r with todo } op sha1 hkeep hpath
  have hne : op ≠ .finish := by
    rintro rfl
    rcases hkeep with hmem | hop
    · exact absurd hmem (by decide)
    · cases hop
  have hdone := @state_ne_done_exec sha1 d { r with todo } op true hne hstate
  rw [hr] at hdone ⊢
  exact ⟨⟨hdone, hsound, hbitmap, ⟨dir, hpath⟩, fun op hop => hkeeps op (mem_cons_of_mem _ hop)⟩, hout⟩

theorem barren_chunk {b : Bitmap} {i : ℕ} (h : Barren f b r) (hi : i < f.totalChunks) (hbits : b.nbits = f.totalChunks)
    (hdata : b.data = []) : r.onMessage (f.chunkMessage i) = { r with faulted := true } := by
  refine (onMessage_chunk hi r).1 ?_
  unfold Bitmap.test
  rw [h.bitmap, if_neg (by omega), hdata]
  rfl

end Receiver

namespace World

variable {sha1 : Bytes → Digest} {dir : Text 511} {f : Source} {d₀ : Disk} {w t : World}

/-- The stages of a transfer whose bitmap has no byte; none of them ends with the file. -/
inductive Barren (sha1 : Bytes → Digest) (dir : Text 511) (d₀ : Disk) (f : Source) (w : World) : Prop
  | closed : w = .init dir f d₀ → Barren sha1 dir d₀ f w
  | asked {data : Bytes} : w.opened = true → w.sender.Asking f → w.host = ⟨{ destDir := dir }, d₀⟩ →
      encodeFileMeta f.fileMeta 512 = some data → w.up = [data] → w.down = [] → Barren sha1 dir d₀ f w
  | opening : w.opened = true → w.sender.Asking f → w.host.receiver.state ≠ .done → w.host.receiver.Named dir f →
      w.host.receiver.faulted = false → (f.totalChunks ≠ 0 ∨ w.host.receiver.todo = [.loadBitmap]) →
      Receiver.Opening dir f d₀ w.host.receiver.bitmap w.host.receiver.handle w.host.disk w.host.receiver.todo →
      w.up = [] → w.down = [] → Barren sha1 dir d₀ f w
  | refused : w.opened = true → w.sender.Asking f → w.host.receiver.state ≠ .done → w.host.receiver.todo = [] →
      w.up = [] → w.down = [] → Barren sha1 dir d₀ f w
  | answered : w.opened = true → f.totalChunks ≠ 0 → w.sender.Asking f →
      w.host.receiver.Barren f (f.start dir d₀).1 → w.up = [] →
      w.down = [encodeFileResume f.totalChunks (f.start dir d₀).1.data] → Barren sha1 dir d₀ f w
  | moving {out : List Bytes} : w.opened = true → f.totalChunks ≠ 0 → w.sender.Owes sha1 f (f.start dir d₀).1 out →
      w.host.receiver.Barren f (f.start dir d₀).1 →
      w.up ++ out = f.remaining sha1 (f.owed (f.start dir d₀).1 0) → w.down = [] → Barren sha1 dir d₀ f w
  | faulted : w.opened = true → w.host.receiver.faulted = true → w.host.receiver.state ≠ .done → Barren sha1 dir d₀ f w

theorem Barren.state (h : w.Barren sha1 dir d₀ f) : w.host.receiver.state ≠ .done := by
  cases h with
  | closed hw =>
    rw [hw]
    exact nofun
  | asked _ _ hhost =>
    rw [hhost]
    exact nofun
  | opening _ _ h | refused _ _ h | faulted _ _ h => exact h
  | answered _ _ _ h | moving _ _ _ h => exact h.state

theorem barren_call {x : Sender × List Bytes} (h : w.Barren sha1 dir d₀ f)
    (hdue : w.sender.timers ≠ 0 ∨ w.sender.paused = true)
    (hcall : ∀ b out, w.sender.Owes sha1 f b out → ∃ out', out = x.2 ++ out' ∧ x.1.Owes sha1 f b out') :
    (w.call x).Barren sha1 dir d₀ f := by
  have hquiet (htimers : w.sender.timers = 0) (hpaused : w.sender.paused = false) : False := by
    rcases hdue with h | h
    · exact h htimers
    · exact Bool.false_ne_true (hpaused.symm.trans h)
  cases h with
  | closed hw =>
    subst hw
    exact (hquiet rfl rfl).elim
  | asked _ hs | opening _ hs | refused _ hs | answered _ _ hs => exact (hquiet hs.timers hs.paused).elim
  | faulted hopen hfault hstate => exact .faulted hopen hfault hstate
  | moving hopen hpos howes hbarren hup hdown =>
    obtain ⟨out', hout, howes'⟩ := hcall _ _ howes
    refine .moving hopen hpos howes' hbarren ?_ hdown
    unfold call
    rw [append_assoc, ← hout]
    exact hup

theorem barren_message {env : Env} {data : Bytes} {down : List Bytes} (h : w.Barren sha1 dir d₀ f) (hclean : env.Clean)
    (hdown : w.down = data :: down) :
    (({ w with down } : World).call (w.sender.onMessage sha1 data env)).Barren sha1 dir d₀ f := by
  have hnone (h : w.down = []) : False := by
    rw [h] at hdown
    cases hdown
  cases h with
  | closed hw =>
    subst hw
    cases hdown
  | asked _ _ _ _ _ h | opening _ _ _ _ _ _ _ _ h | refused _ _ _ _ _ h | moving _ _ _ _ _ h => exact (hnone h).elim
  | faulted hopen hfault hstate => exact .faulted hopen hfault hstate
  | answered hopen hpos hs hbarren hup hone =>
    obtain ⟨hbits, hlen⟩ := start_bitmap dir d₀ f
    rw [hone] at hdown
    obtain ⟨rfl, rfl⟩ := cons_eq_cons.mp hdown
    obtain ⟨out, hout, howes⟩ := @Sender.owes_onResume sha1 _ _ _ _ hclean hbits hpos hlen hs
    refine .moving hopen hpos howes hbarren ?_ rfl
    unfold call
    rw [hup, nil_append]
    exact hout.symm

theorem barren_deliver {data : Bytes} {up : List Bytes} (h : w.Barren sha1 dir d₀ f)
    (hbytes : bitsToBytes f.totalChunks = 0) (hup : w.up = data :: up) (hsound : ¬ w.host.receiver.faulted = true) :
    ({ w with host := { w.host with receiver := w.host.receiver.onMessage data }, up } : World).Barren sha1 dir d₀ f := by
  have hnone (h : w.up = []) : False := by
    rw [h] at hup
    cases hup
  cases h with
  | closed hw =>
    subst hw
    cases hup
  | opening _ _ _ _ _ _ _ h | refused _ _ _ _ h | answered _ _ _ _ h => exact (hnone h).elim
  | faulted _ hfault _ => exact absurd hfault hsound
  | asked hopen hs hhost hmeta hone hdown =>
    rw [hone] at hup
    obtain ⟨rfl, rfl⟩ := cons_eq_cons.mp hup
    rw [hhost]
    rw [onMessage_fileMeta hmeta]
    exact .opening hopen hs nofun (Receiver.named_named f { destDir := dir }) rfl (.inr rfl) (.load rfl) rfl hdown
  | moving hopen hpos howes hbarren hsent hdown =>
    obtain ⟨hbits, hlen⟩ := start_bitmap dir d₀ f
    have hdata : (f.start dir d₀).1.data = [] := length_eq_zero_iff.mp (hlen.trans hbytes)
    rw [owed_of_not_has (Nat.pos_of_ne_zero hpos) (not_has_of_data_nil hdata), hup, cons_append,
      Source.remaining_cons, singleton_append] at hsent
    obtain ⟨rfl, -⟩ := cons_eq_cons.mp hsent
    have hchunk := Receiver.barren_chunk hbarren (Nat.pos_of_ne_zero hpos) hbits hdata
    exact .faulted hopen (by dsimp only; rw [hchunk]) (by dsimp only; rw [hchunk]; exact hbarren.state)

theorem barren_op {op : Op} {todo : List Op} (h : w.Barren sha1 dir d₀ f) (hsound : ¬ w.host.receiver.faulted = true)
    (htodo : w.host.receiver.todo = op :: todo) :
    ({ w with
        host := ⟨(Receiver.exec sha1 op true { w.host.receiver with todo } w.host.disk).1,
          (Receiver.exec sha1 op true { w.host.receiver with todo } w.host.disk).2.1⟩
        down := w.down ++ (Receiver.exec sha1 op true { w.host.receiver with todo } w.host.disk).2.2 } :
      World).Barren sha1 dir d₀ f := by
  cases h with
  | closed hw =>
    subst hw
    cases htodo
  | asked _ _ hhost =>
    rw [hhost] at htodo
    cases htodo
  | refused _ _ _ hnil =>
    rw [hnil] at htodo
    cases htodo
  | faulted _ hfault _ => exact absurd hfault hsound
  | opening hopen hs hstate hnamed hsound hwhen hopening hup hdown =>
    rw [htodo] at hopening hwhen
    have hne : op ≠ .finish := by
      rintro rfl
      cases hopening
    have hdone := @Receiver.state_ne_done_exec sha1 w.host.disk { w.host.receiver with todo } op true hne hstate
    by_cases hzero : f.totalChunks = 0
    · obtain ⟨rfl, rfl⟩ := cons_eq_cons.mp (hwhen.resolve_left (not_not.mpr hzero))
      have hnamed' : Receiver.Named dir f { w.host.receiver with todo := [] } := hnamed.congr rfl
      obtain ⟨hnil, hout⟩ := @Receiver.refuses_loadBitmap sha1 dir f w.host.disk _ hnamed' hzero
      exact .refused hopen hs hdone hnil hup (by dsimp only; rw [hdown, hout]; rfl)
    · have hnamed' : Receiver.Named dir f { w.host.receiver with todo } := hnamed.congr rfl
      rcases @Receiver.opens_exec sha1 _ _ _ _ _ _ hnamed' hsound hzero hopening with
        ⟨hn, hf, ho, hout⟩ | ⟨hans, hout⟩ | ⟨hfault, -, -⟩
      · exact .opening hopen hs hdone hn hf (.inl hzero) ho hup (by dsimp only; rw [hdown, hout]; rfl)
      · refine .answered hopen hzero hs ⟨hdone, hans.sound, hans.bitmap, ⟨dir, hans.named.bitmapPath⟩, fun op hop => ?_⟩ hup
          (by dsimp only; rw [hdown, hout]; rfl)
        rw [hans.todo] at hop
        exact (mem_append.mp hop).imp id mem_singleton.mp
      · exact .faulted hopen hfault hdone
  | answered hopen hpos hs hbarren hup hdown =>
    obtain ⟨hbarren', hout⟩ := Receiver.barren_exec (d := w.host.disk) sha1 hbarren htodo
    exact .answered hopen hpos hs hbarren' hup (by dsimp only; rw [hdown, hout]; rfl)
  | moving hopen hpos howes hbarren hsent hdown =>
    obtain ⟨hbarren', hout⟩ := Receiver.barren_exec (d := w.host.disk) sha1 hbarren htodo
    exact .moving hopen hpos howes hbarren' hsent (by dsimp only; rw [hdown, hout]; rfl)

theorem barren_step {a : Act} (h : w.Barren sha1 dir d₀ f) (hclean : a.Clean) (hbytes : bitsToBytes f.totalChunks = 0)
    (ht : w.step sha1 a = some t) : t.Barren sha1 dir d₀ f := by
  refine @clean_step sha1 f w t (fun t => t.Barren sha1 dir d₀ f) a (fun hopened => ?_)
    (fun x hdue hcall => barren_call h hdue hcall) (fun env data down henv hdown => barren_message h henv hdown)
    (fun data up hup hsound _ => barren_deliver h hbytes hup hsound)
    (fun op todo htodo hsound => barren_op h hsound htodo) hclean ht
  cases h with
  | closed hw =>
    subst hw
    obtain ⟨data, s, hmeta, hcall, hasking⟩ := onOpen_init dir f d₀
    rw [hcall]
    exact .asked rfl hasking rfl hmeta rfl rfl
  | asked h | opening h | refused h | answered h | moving h | faulted h => exact absurd h hopened

/-! ### The run -/

def idle (w : World) : Bool :=
  w.opened && w.sender.timers = 0 && !w.sender.paused && w.up = [] && w.down = [] && w.host.receiver.todo = []

theorem stuck_of_idle (h : w.idle = true) : w.Stuck sha1 := by
  unfold idle at h
  simp only [Bool.and_eq_true, decide_eq_true_eq, Bool.not_eq_true'] at h
  obtain ⟨⟨⟨⟨⟨hopened, htimers⟩, hpaused⟩, hup⟩, hdown⟩, htodo⟩ := h
  intro a _
  unfold step Host.run
  cases a with
  | «open» ok => exact if_pos hopened
  | timer env => exact if_pos (.inr htimers)
  | low env => exact if_pos (.inr (by rw [hpaused]; exact Bool.false_ne_true))
  | message env =>
    rw [hdown]
  | deliver =>
    rw [hup]
  | op ok =>
    dsimp only
    rw [htodo]
    split_ifs
    · rfl
    · rfl

instance (a : Act) : Decidable a.Clean :=
  match a with
  | .open ok | .op ok => inferInstanceAs (Decidable (ok = true))
  | .timer env | .low env | .message env =>
    inferInstanceAs (Decidable (env.read = true ∧ env.done = true ∧ env.chunk ≠ .error))
  | .deliver => .isTrue trivial

def oneByteActs : List Act :=
  [.open true, .deliver] ++ List.replicate 9 (.op true) ++ [.message idleEnv, .timer idleEnv, .deliver, .op true, .deliver]
    ++ List.replicate 10 (.op true) ++ [.message idleEnv]

theorem good_oneByte : oneByte.Good someDir fun _ => none := by
  have htotal : oneByte.totalChunks = 1 := by decide
  have hstart : oneByte.start someDir (fun _ => none) = (⟨1, [0]⟩, [0]) := by decide
  refine ⟨by rw [htotal]; decide, by rw [htotal]; decide, ?_⟩
  rw [hstart]
  refine ⟨by decide, .inl (by decide), fun q hq => .inl ?_⟩
  obtain rfl : q = 0 := Nat.lt_one_iff.mp hq
  refine ⟨?_, ?_⟩
  · rw [htotal]
    decide
  · decide

def emptyFile : Source := ⟨textOfBytes 255 [102], [], by decide⟩

end World

end Libx.Fer
