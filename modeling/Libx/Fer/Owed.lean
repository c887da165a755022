import Libx.Fer.Patch
import Libx.Fer.Transfer

/-!
# Libx.Fer.Owed — what an honest sender will still send
-/

namespace Libx.Fer

open Libx.Agent (Bytes)
open Libx.Ice (writeU32)
open List

/-- The file can be read, and a message is sent unless the channel is full. -/
def Env.Clean (env : Env) : Prop := env.read = true ∧ env.done = true ∧ env.chunk ≠ .error

def Source.remaining (sha1 : Bytes → Digest) (ids : List ℕ) (f : Source) : List Bytes :=
  ids.map (fun i => f.chunkMessage i) ++ [f.doneMessage sha1]

theorem Source.remaining_cons (sha1 : Bytes → Digest) (i : ℕ) (ids : List ℕ) (f : Source) :
    f.remaining sha1 (i :: ids) = [f.chunkMessage i] ++ f.remaining sha1 ids := by
  simp only [remaining, map_cons, cons_append, nil_append]

namespace Sender

/-- The sender knows what the receiver has, and sends from a chunk on. -/
structure Going (f : Source) (b : Bitmap) (k : ℕ) (s : Sender) : Prop where
  file : s.file = f
  nextChunk : s.nextChunk = k
  knows : s.hasResume = true → s.resumeBitmap = b ∧ b.Fits
  blank : s.hasResume = false → ∀ i, ¬ b.Has i
  waitingResume : s.waitingResume = false
  waitingAck : s.waitingAck = false
  sound : s.faulted = false

/-- The sender has sent FILE_META. -/
structure Asking (f : Source) (s : Sender) : Prop where
  file : s.file = f
  nextChunk : s.nextChunk = 0
  hasResume : s.hasResume = false
  waitingResume : s.waitingResume = true
  waitingAck : s.waitingAck = false
  sound : s.faulted = false
  timers : s.timers = 0
  paused : s.paused = false

/-- Nothing is sent any more. -/
structure Quiet (s : Sender) : Prop where
  sound : s.faulted = false
  timers : s.timers = 0
  paused : s.paused = false

/-- The messages that will still be sent. -/
inductive Owes (sha1 : Bytes → Digest) (f : Source) (b : Bitmap) (s : Sender) : List Bytes → Prop
  | going {k : ℕ} : s.Going f b k → s.timers = 1 ∧ s.paused = false ∨ s.timers = 0 ∧ s.paused = true →
      Owes sha1 f b s (f.remaining sha1 (f.owed b k))
  | waiting : s.Quiet → s.waitingAck = true → Owes sha1 f b s []

variable {sha1 : Bytes → Digest} {f : Source} {b : Bitmap} {k n : ℕ} {s : Sender} {env : Env}

theorem skipLoop_going (h : s.Going f b k) (hn : f.totalChunks - k ≤ n) :
    ∃ k', f.owed b k = f.owed b k' ∧ skipLoop n s = { s with nextChunk := k' } ∧
      (f.totalChunks ≤ k' ∨ k' < f.totalChunks ∧ ¬ b.Has k') := by
  obtain rfl := h.file
  obtain rfl := h.nextChunk
  induction n generalizing s with
  | zero => exact ⟨_, rfl, rfl, .inl (by omega)⟩
  | succ n ih =>
    unfold skipLoop
    by_cases hlt : s.nextChunk < s.file.totalChunks
    · by_cases hres : s.hasResume = true
      · obtain ⟨rfl, hfits⟩ := h.knows hres
        rw [if_pos ⟨hlt, hres⟩]
        obtain ⟨bit, htest⟩ := Bitmap.test_of_fits (i := s.nextChunk) hfits
        rw [htest]
        cases bit with
        | true =>
          obtain ⟨k', howed, hskip, hend⟩ := @ih { s with nextChunk := s.nextChunk + 1 }
            ⟨rfl, rfl, h.knows, h.blank, h.waitingResume, h.waitingAck, h.sound⟩ (by dsimp only; omega)
          exact ⟨k', (owed_of_has htest).trans howed, hskip, hend⟩
        | false =>
          refine ⟨_, rfl, rfl, .inr ⟨hlt, fun hhas => ?_⟩⟩
          exact Bool.false_ne_true (Option.some.inj (htest.symm.trans hhas))
      · rw [if_neg fun hand => hres hand.2]
        exact ⟨_, rfl, rfl, .inr ⟨hlt, h.blank (Bool.eq_false_iff.mpr hres) _⟩⟩
    · rw [if_neg fun hand => hlt hand.1]
      exact ⟨_, rfl, rfl, .inl (Nat.le_of_not_lt hlt)⟩

/-- **A call of `sender_send_next_chunk`** sends the first of what is owed, or pauses. -/
theorem owes_sendNextChunk (hclean : env.Clean) (h : s.Going f b k) (htimers : s.timers = 0)
    (hpaused : s.paused = false) :
    ∃ out, f.remaining sha1 (f.owed b k) = (sendNextChunk sha1 env s).2 ++ out ∧
      Owes sha1 f b (sendNextChunk sha1 env s).1 out := by
  obtain rfl := h.file
  obtain ⟨k', howed, hskip, hend⟩ := skipLoop_going h (n := s.file.totalChunks - s.nextChunk)
    (by rw [h.nextChunk])
  have hskip' : s.skip = { s with nextChunk := k' } := hskip
  have hgoing (j : ℕ) (t : ℕ) (p : Bool) : ({ s with nextChunk := j, timers := t, paused := p } : Sender).Going s.file b j :=
    ⟨rfl, rfl, h.knows, h.blank, h.waitingResume, h.waitingAck, h.sound⟩
  have hcalls := calls_sendNextChunk sha1 env s
  rw [hskip'] at hcalls
  rw [howed]
  revert hcalls
  generalize sendNextChunk sha1 env s = x
  generalize s.callLog sha1 env = log
  intro hcalls
  cases hcalls with
  | faulted hf => exact absurd (hf.symm.trans h.sound) Bool.noConfusion
  | ended hle _ =>
    rw [if_pos hclean.2.1, owed_of_le hle]
    exact ⟨[], rfl, .waiting ⟨h.sound, htimers, hpaused⟩ rfl⟩
  | failed hfail =>
    rcases hfail with hread | ⟨-, -, herror⟩
    · exact absurd (hread.symm.trans hclean.1) Bool.noConfusion
    · exact absurd herror hclean.2.2
  | paused _ _ => exact ⟨_, (nil_append _).symm, .going (hgoing k' s.timers true) (.inr ⟨htimers, rfl⟩)⟩
  | sent hlt _ _ =>
    obtain ⟨-, hnot⟩ := hend.resolve_left (Nat.not_le.mpr hlt)
    rw [owed_of_not_has hlt hnot]
    exact ⟨_, Source.remaining_cons .., .going (hgoing (k' + 1) (s.timers + 1) s.paused) (.inl ⟨by rw [htimers], hpaused⟩)⟩

/-! ### The callbacks -/

theorem owes_onTimer {out : List Bytes} (hclean : env.Clean) (h : Owes sha1 f b s out)
    (htimers : s.timers ≠ 0) :
    ∃ out', out = (s.onTimer sha1 env).2 ++ out' ∧ Owes sha1 f b (s.onTimer sha1 env).1 out' := by
  cases h with
  | going hgoing hdue =>
    obtain ⟨hone, hpaused⟩ := hdue.resolve_right fun h0 => htimers h0.1
    obtain ⟨hfile, hnext, hknows, hblank, hwait, hack, hsound⟩ := hgoing
    exact owes_sendNextChunk (s := { s with timers := s.timers - 1 }) hclean
      ⟨hfile, hnext, hknows, hblank, hwait, hack, hsound⟩ (by dsimp only; rw [hone]) hpaused
  | waiting hquiet _ => exact absurd hquiet.timers htimers

theorem owes_onBufferedAmountLow {out : List Bytes} (hclean : env.Clean) (h : Owes sha1 f b s out)
    (hpaused : s.paused = true) :
    ∃ out', out = (s.onBufferedAmountLow sha1 env).2 ++ out' ∧
      Owes sha1 f b (s.onBufferedAmountLow sha1 env).1 out' := by
  unfold onBufferedAmountLow
  rw [if_pos hpaused]
  cases h with
  | going hgoing hdue =>
    obtain ⟨hzero, -⟩ := hdue.resolve_left fun h1 => Bool.false_ne_true (h1.2.symm.trans hpaused)
    obtain ⟨hfile, hnext, hknows, hblank, hwait, hack, hsound⟩ := hgoing
    exact owes_sendNextChunk (s := { s with paused := false }) hclean
      ⟨hfile, hnext, hknows, hblank, hwait, hack, hsound⟩ hzero rfl
  | waiting hquiet _ => exact absurd (hquiet.paused.symm.trans hpaused) Bool.false_ne_true

theorem asking_onOpen (f : Source) (data : Bytes) (h : encodeFileMeta f.fileMeta 512 = some data) :
    ∃ s, onOpen true { file := f } = (s, [data]) ∧ s.Asking f := by
  unfold onOpen
  rw [h]
  exact ⟨_, rfl, rfl, rfl, rfl, rfl, rfl, rfl, rfl, rfl⟩

theorem owes_onResume (hclean : env.Clean) (hbits : b.nbits = f.totalChunks) (hpos : f.totalChunks ≠ 0)
    (hlen : b.data.length = bitsToBytes f.totalChunks) (h : s.Asking f) :
    ∃ out, f.remaining sha1 (f.owed b 0) = (s.onMessage sha1 (encodeFileResume f.totalChunks b.data) env).2 ++ out ∧
      Owes sha1 f b (s.onMessage sha1 (encodeFileResume f.totalChunks b.data) env).1 out := by
  obtain ⟨rfl, hnext, hres, hwait, hack, hsound, htimers, hpaused⟩ := h
  have htotal := totalChunks_lt s.file
  have hshort : 8 + b.data.length < 4294967296 := by
    rw [hlen]
    unfold bitsToBytes
    omega
  have hdec : decodeFileResume (writeU32 s.file.totalChunks ++ (writeU32 b.data.length ++ b.data)) =
      some ⟨s.file.totalChunks, b.data.length, b.data⟩ := decode_encodeFileResume htotal hshort
  -- a bitmap without a byte is not taken over
  have htake : ∃ s', s.takeResume ⟨s.file.totalChunks, b.data.length, b.data⟩ = some s' ∧ s'.faulted = false ∧
      s'.waitingResume = true ∧ s'.timers = 0 ∧ s'.paused = false ∧
      ({ s' with waitingResume := false } : Sender).Going s.file b 0 := by
    unfold takeResume
    by_cases hnil : b.data.length = 0
    · rw [if_pos hnil]
      refine ⟨s, rfl, hsound, hwait, htimers, hpaused, rfl, hnext, fun h => ?_, fun _ i => ?_, rfl, hack, hsound⟩
      · exact absurd (hres.symm.trans h) Bool.false_ne_true
      · exact not_has_of_data_nil (length_eq_zero_iff.mp hnil)
    · have hinit : Bitmap.init s.file.totalChunks =
          some ⟨s.file.totalChunks, List.replicate (bitsToBytes s.file.totalChunks) 0⟩ := if_neg hpos
      have hsmall : s.file.totalChunks + 7 < 4294967296 := by
        rw [hlen] at hnil
        unfold bitsToBytes at hnil
        omega
      have hfits : b.Fits := by
        unfold Bitmap.Fits
        rw [hlen, hbits, bitsToBytes, Nat.mod_eq_of_lt hsmall]
        omega
      rw [if_neg hnil, hinit, Option.map_some]
      rw [length_replicate, ← hlen, Nat.min_self, if_neg (Nat.lt_irrefl _), take_length, hlen,
        drop_of_length_le (by rw [length_replicate]), List.append_nil, ← hbits]
      exact ⟨_, rfl, hsound, hwait, htimers, hpaused, rfl, hnext, fun _ => ⟨rfl, hfits⟩, fun h => absurd h.symm
        Bool.false_ne_true, rfl, hack, hsound⟩
  obtain ⟨s', htake, hsound', hwait', htimers', hpaused', hgoing⟩ := htake
  have hcall : s.onMessage sha1 (encodeFileResume s.file.totalChunks b.data) env =
      sendNextChunk sha1 env { s' with waitingResume := false } := by
    unfold onMessage encodeFileResume
    dsimp only
    rw [if_neg (by decide), if_pos rfl, hdec]
    dsimp only
    rw [if_neg (not_not.mpr rfl), htake]
    dsimp only
    rw [if_neg (by rw [hsound']; exact Bool.false_ne_true), if_pos hwait']
  rw [hcall]
  exact owes_sendNextChunk hclean hgoing htimers' hpaused'

theorem onMessage_ack {status : UInt8} (h : s.waitingAck = true) :
    s.onMessage sha1 (encodeFileAck status) env =
      ({ s with waitingAck := false, state := if status = 0 then .done else .failed }, []) := by
  unfold onMessage encodeFileAck
  dsimp only
  rw [if_pos rfl, if_neg (not_not.mpr h)]
  rfl

end Sender

end Libx.Fer
