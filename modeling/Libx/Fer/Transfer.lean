import Libx.Fer.Lifecycle

/-!
# Libx.Fer.Transfer — a sender and a receiver

Two ends of a file transfer with a reliable ordered channel between them.
-/

namespace Libx.Fer

open Libx.Agent (Bytes)
open Libx.Turn (Text)
open List Option

/-- A sender, a receiver with its disk, and what is under way, oldest first. -/
structure World where
  sender : Sender
  host : Host
  opened : Bool := false
  up : List Bytes := []
  down : List Bytes := []

/-- The channel opens; a timer of the sender fires; its buffered amount gets low; a message arrives at it; a message
arrives at the receiver; the receiver does its next operation. -/
inductive Act
  | open (ok : Bool)
  | timer (env : Env)
  | low (env : Env)
  | message (env : Env)
  | deliver
  | op (ok : Bool)

namespace World

def call (x : Sender × List Bytes) (w : World) : World := { w with sender := x.1, up := w.up ++ x.2 }

/-- A step; a timer only fires where one is scheduled, and the buffered amount only gets low where that is waited
for. -/
def step (sha1 : Bytes → Digest) (w : World) : Act → Option World
  | .open ok => if w.opened then none else some { w.call (w.sender.onOpen ok) with opened := true }
  | .timer env =>
    if w.sender.faulted ∨ w.sender.timers = 0 then none else some (w.call (w.sender.onTimer sha1 env))
  | .low env =>
    if w.sender.faulted ∨ ¬ w.sender.paused then none else some (w.call (w.sender.onBufferedAmountLow sha1 env))
  | .message env =>
    match w.down with
    | [] => none
    | data :: down =>
      if w.sender.faulted then none else some ({ w with down }.call (w.sender.onMessage sha1 data env))
  | .deliver =>
    match w.up with
    | [] => none
    | data :: up => (w.host.deliver data).map fun host => { w with host, up }
  | .op ok => (w.host.run sha1 ok).map fun x => { w with host := x.1, down := w.down ++ x.2 }

def init (dir : Text 511) (f : Source) (d : Disk) : World := { sender := { file := f }, host := ⟨{ destDir := dir }, d⟩ }

end World

/-! ### The end comes nearer -/

def Op.weight : Op → ℕ
  | .loadBitmap => 11
  | .openResume => 10
  | .sendResume => 2
  | .pwrite _ _ => 4
  | .verify _ => 6
  | .ack _ => 2
  | _ => 1

/-- What the rest of a handler may still bring about. -/
def weight (todo : List Op) : ℕ := (todo.map Op.weight).sum

@[simp] theorem weight_nil : weight [] = 0 := rfl

@[simp] theorem weight_cons (op : Op) (todo : List Op) : weight (op :: todo) = op.weight + weight todo := sum_cons

@[simp] theorem weight_append (a b : List Op) : weight (a ++ b) = weight a + weight b := by
  unfold weight
  rw [map_append, sum_append]

theorem weight_drop (k : ℕ) (todo : List Op) : weight (todo.drop k) ≤ weight todo := by
  conv_rhs => rw [← take_append_drop k todo, weight_append]
  exact Nat.le_add_left _ _

/-- What the sender may still bring about: the calls of `sender_send_next_chunk` that are due, and the chunks. -/
def Sender.left (s : Sender) : ℕ :=
  13 * (s.timers + s.paused.toNat + s.waitingResume.toNat) + 13 * (s.file.totalChunks - s.nextChunk)

def World.left (w : World) : ℕ :=
  (if w.opened then 0 else 26) + w.sender.left + 12 * w.up.length + weight w.host.receiver.todo + w.down.length

namespace Receiver

variable {sha1 : Bytes → Digest} {r : Receiver} {d : Disk}

theorem weight_saveBitmap : weight saveBitmap = 3 := rfl

theorem weight_resumeOps : weight resumeOps = 6 := rfl

theorem weight_startFresh (r : Receiver) : weight r.startFresh.todo ≤ 9 := by
  unfold startFresh
  cases Bitmap.init r.totalChunks with
  | none => exact Nat.zero_le _
  | some bm => exact le_rfl

theorem weight_mark (i len : ℕ) (r : Receiver) : weight (r.mark i len).todo ≤ weight r.todo + 3 := by
  unfold mark
  cases r.bitmap.set i with
  | none => exact Nat.le_add_right _ _
  | some bm =>
    dsimp only
    split_ifs
    · exact Nat.le_add_left _ _
    · exact Nat.zero_le _

theorem weight_exec (sha1 : Bytes → Digest) (op : Op) (ok : Bool) (r : Receiver) (d : Disk) :
    weight (exec sha1 op ok r d).1.todo + (exec sha1 op ok r d).2.2.length < op.weight + weight r.todo := by
  unfold exec
  cases op with
  | loadBitmap =>
    dsimp only [Op.weight]
    generalize loadInto (if ok = true then d.read r.bitmapPath else none) r.bitmap = x
    split_ifs
    · simp only [weight_cons, weight_nil, Op.weight, length_nil]
      omega
    · have := weight_startFresh { r with bitmap := {} }
      simp only [length_nil]
      omega
    · have := weight_startFresh { r with bitmap := x.1 }
      simp only [length_nil]
      omega
  | openResume =>
    dsimp only [Op.weight]
    split_ifs
    · cases r.bitmap.count with
      | none =>
        simp only [length_nil]
        omega
      | some n =>
        simp only [weight_resumeOps, length_nil]
        omega
    · have := weight_startFresh { r with handle := none, bitmap := {} }
      simp only [length_nil]
      omega
  | openPart | reopen =>
    dsimp only [Op.weight]
    split_ifs <;> simp only [reportError, weight_nil, length_nil] <;> omega
  | truncate =>
    dsimp only [Op.weight]
    cases d r.filepath <;> simp only [length_nil] <;> omega
  | sendResume | ack =>
    dsimp only [Op.weight]
    split_ifs <;> simp only [length_singleton, length_nil] <;> omega
  | saveOpen =>
    have := weight_drop 2 r.todo
    dsimp only [Op.weight]
    split_ifs <;> simp only [length_nil] <;> omega
  | saveHeader =>
    have := weight_drop 1 r.todo
    dsimp only [Op.weight]
    split_ifs <;> simp only [length_nil] <;> omega
  | pwrite i data =>
    dsimp only [Op.weight]
    cases r.handle with
    | none =>
      have := weight_mark i data.length r
      simp only [length_nil]
      omega
    | some x =>
      split_ifs
      · have := weight_mark i data.length { r with handle := some { x with pending := x.pending ++ [(i * r.chunkSize, data)] } }
        change _ ≤ weight r.todo + 3 at this
        simp only [length_nil]
        omega
      · simp only [reportError, weight_nil, length_nil]
        omega
  | flush =>
    dsimp only [Op.weight]
    cases r.handle with
    | none =>
      simp only [length_nil]
      omega
    | some x =>
      split_ifs <;> simp only [length_nil] <;> omega
  | close =>
    dsimp only [Op.weight]
    cases r.handle <;> simp only [length_nil] <;> omega
  | verify digest =>
    dsimp only [Op.weight]
    generalize (if ok = true then d.read r.filepath else none).map sha1 = x
    split_ifs <;> simp only [weight_cons, weight_nil, Op.weight, length_nil] <;> omega
  | rename =>
    dsimp only [Op.weight]
    cases (if ok = true then d.read r.filepath else none) <;> simp only [length_nil] <;> omega
  | fail =>
    simp only [reportError, weight_nil, length_nil, Op.weight]
    omega
  | transferring | saveBody | remove | finish =>
    simp only [length_nil, Op.weight]
    omega

theorem weight_onMessage (data : Bytes) (r : Receiver) (h : r.todo = []) : weight (r.onMessage data).todo ≤ 11 := by
  have hr : weight r.todo ≤ 11 := by
    rw [h]
    exact Nat.zero_le _
  unfold onMessage
  cases data with
  | nil => exact hr
  | cons type payload =>
    dsimp only
    by_cases hmeta : type = msgFileMeta
    · rw [if_pos hmeta]
      cases decodeFileMeta payload with
      | none => exact Nat.zero_le _
      | some m =>
        dsimp only
        split_ifs
        · exact hr
        · exact le_rfl
    rw [if_neg hmeta]
    by_cases hchunk : type = msgFileChunk
    · rw [if_pos hchunk]
      cases decodeChunkHeader payload with
      | none => exact Nat.zero_le _
      | some x =>
        dsimp only
        cases r.bitmap.test x.1 with
        | none => exact hr
        | some b =>
          cases b with
          | true => exact hr
          | false => exact (by decide : 4 ≤ 11)
    rw [if_neg hchunk]
    by_cases hdone : type = msgFileDone
    · rw [if_pos hdone]
      cases decodeFileDone payload with
      | none => exact Nat.zero_le _
      | some m =>
        split_ifs <;> simp only [weight_append, weight_saveBitmap, weight_cons, weight_nil, Op.weight] <;> omega
    rw [if_neg hdone]
    exact hr

end Receiver

namespace Sender

variable {sha1 : Bytes → Digest} {s : Sender} {env : Env}

theorem left_congr {s t : Sender} (hfile : s.file = t.file) (hnext : s.nextChunk = t.nextChunk)
    (htimers : s.timers = t.timers) (hpaused : s.paused = t.paused) (hwait : s.waitingResume = t.waitingResume) :
    s.left = t.left := by
  unfold left
  rw [hfile, hnext, htimers, hpaused, hwait]

@[simp] theorem left_reportError (s : Sender) : s.reportError.left = s.left := left_congr rfl rfl rfl rfl rfl

theorem left_waitingAck (s : Sender) (b : Bool) : ({ s with waitingAck := b } : Sender).left = s.left :=
  left_congr rfl rfl rfl rfl rfl

theorem left_eq (s : Sender) {total : ℕ} (h : s.file.totalChunks = total) :
    s.left = 13 * (s.timers + s.paused.toNat + s.waitingResume.toNat) + 13 * (total - s.nextChunk) := by
  subst h
  rfl

theorem left_paused (s : Sender) : ({ s with paused := true } : Sender).left ≤ s.left + 13 := by
  obtain ⟨total, htotal⟩ : ∃ total, s.file.totalChunks = total := ⟨_, rfl⟩
  rw [left_eq { s with paused := true } htotal, left_eq s htotal]
  dsimp only
  rw [Bool.toNat_true]
  omega

theorem left_sent (h : s.nextChunk < s.file.totalChunks) :
    ({ s with nextChunk := s.nextChunk + 1, timers := s.timers + 1 } : Sender).left = s.left := by
  obtain ⟨total, htotal⟩ : ∃ total, s.file.totalChunks = total := ⟨_, rfl⟩
  rw [left_eq { s with nextChunk := s.nextChunk + 1, timers := s.timers + 1 } htotal, left_eq s htotal]
  dsimp only
  omega

theorem left_skip (s : Sender) : s.skip.left ≤ s.left := by
  obtain ⟨n, b, hn, hskip⟩ := skipLoop_spec (s.file.totalChunks - s.nextChunk) s
  obtain ⟨total, htotal⟩ : ∃ total, s.file.totalChunks = total := ⟨_, rfl⟩
  unfold skip
  rw [hskip, left_eq { s with nextChunk := n, faulted := b } htotal, left_eq s htotal]
  exact Nat.add_le_add_left (Nat.mul_le_mul_left _ (Nat.sub_le_sub_left hn _)) _

theorem left_sendNextChunk (sha1 : Bytes → Digest) (s : Sender) (env : Env) :
    (sendNextChunk sha1 env s).1.left + 12 * (sendNextChunk sha1 env s).2.length < s.left + 13 ∨
      (sendNextChunk sha1 env s).1.paused = true ∧
        (sendNextChunk sha1 env s).1.left + 12 * (sendNextChunk sha1 env s).2.length ≤ s.left + 13 := by
  have hcalls := calls_sendNextChunk sha1 env s
  have hleft := left_skip s
  revert hcalls hleft
  generalize s.skip = s'
  generalize sendNextChunk sha1 env s = x
  generalize s.callLog sha1 env = log
  intro hcalls hleft
  cases hcalls with
  | faulted h =>
    left
    dsimp only
    rw [length_nil]
    omega
  | ended h _ =>
    left
    have hout : (if env.done then [s'.file.doneMessage sha1] else []).length ≤ 1 := by
      split_ifs
      · exact le_rfl
      · exact Nat.zero_le 1
    revert hout
    generalize (if env.done then [s'.file.doneMessage sha1] else []) = out
    intro hout
    dsimp only
    rw [left_waitingAck]
    omega
  | failed h =>
    left
    rw [left_reportError, length_nil]
    omega
  | paused h _ =>
    right
    have hone := left_paused s'
    dsimp only
    rw [length_nil]
    exact ⟨rfl, by omega⟩
  | sent h _ _ =>
    left
    rw [left_sent h, length_singleton]
    omega

theorem left_onTimer (sha1 : Bytes → Digest) (env : Env) (h : s.timers ≠ 0) :
    (s.onTimer sha1 env).1.left + 12 * (s.onTimer sha1 env).2.length < s.left ∨
      (s.onTimer sha1 env).1.paused = true ∧
        (s.onTimer sha1 env).1.left + 12 * (s.onTimer sha1 env).2.length ≤ s.left := by
  have hdue : s.left = ({ s with timers := s.timers - 1 } : Sender).left + 13 := by
    unfold left
    simp only
    omega
  rw [hdue]
  exact left_sendNextChunk sha1 _ env

theorem left_onBufferedAmountLow (sha1 : Bytes → Digest) (env : Env) (h : s.paused = true) :
    (s.onBufferedAmountLow sha1 env).1.left + 12 * (s.onBufferedAmountLow sha1 env).2.length < s.left ∨
      (s.onBufferedAmountLow sha1 env).1.paused = true ∧
        (s.onBufferedAmountLow sha1 env).1.left + 12 * (s.onBufferedAmountLow sha1 env).2.length ≤ s.left := by
  have hdue : s.left = ({ s with paused := false } : Sender).left + 13 := by
    unfold left
    rw [h]
    simp only [Bool.toNat_true, Bool.toNat_false]
    omega
  unfold onBufferedAmountLow
  rw [if_pos h, hdue]
  exact left_sendNextChunk sha1 _ env

theorem left_onOpen (ok : Bool) (s : Sender) : (s.onOpen ok).1.left + 12 * (s.onOpen ok).2.length ≤ s.left + 25 := by
  unfold onOpen
  cases encodeFileMeta s.file.fileMeta 512 with
  | none =>
    simp only [left_reportError, length_nil]
    omega
  | some buf =>
    have h : ({ s with state := .transferring, waitingResume := true } : Sender).left ≤ s.left + 13 := by
      unfold left
      simp only [Bool.toNat_true]
      omega
    split_ifs <;> simp only [length_singleton, length_nil] <;> omega

theorem left_takeResume {m : FileResume} {s' : Sender} (h : s.takeResume m = some s') :
    s'.left = s.left ∧ s'.waitingResume = s.waitingResume := by
  unfold takeResume at h
  split_ifs at h
  · obtain rfl := some.inj h
    exact ⟨rfl, rfl⟩
  · obtain ⟨bm, -, rfl⟩ := map_eq_some_iff.mp h
    dsimp only
    split_ifs <;> exact ⟨rfl, rfl⟩

theorem left_onMessage (sha1 : Bytes → Digest) (data : Bytes) (env : Env) (s : Sender) :
    (s.onMessage sha1 data env).1.left + 12 * (s.onMessage sha1 data env).2.length ≤ s.left := by
  have hstay : s.left + 12 * ([] : List Bytes).length ≤ s.left := by
    rw [length_nil, Nat.mul_zero, Nat.add_zero]
  have hfailed : s.reportError.left + 12 * ([] : List Bytes).length ≤ s.left := by
    rw [left_reportError]
    exact hstay
  unfold onMessage
  cases data with
  | nil => exact hstay
  | cons type payload =>
    dsimp only
    by_cases hack : type = msgAck
    · rw [if_pos hack]
      have hacked (state : TransferState) :
          ({ s with waitingAck := false, state } : Sender).left + 12 * ([] : List Bytes).length ≤ s.left := by
        rw [length_nil, Nat.mul_zero, Nat.add_zero]
        exact Nat.le_refl s.left
      split_ifs
      · cases decodeFileAck payload with
        | none => exact hacked .failed
        | some status => exact hacked _
      · exact hstay
    rw [if_neg hack]
    by_cases hres : type = msgFileResume
    · rw [if_pos hres]
      cases decodeFileResume payload with
      | none => exact hfailed
      | some m =>
        dsimp only
        split_ifs
        · exact hfailed
        · cases htake : s.takeResume m with
          | none => exact hfailed
          | some s' =>
            obtain ⟨hleft, -⟩ := left_takeResume htake
            dsimp only
            split_ifs with hf hwait
            · rw [hleft]
              exact hstay
            · have hdue : ({ s' with waitingResume := false } : Sender).left + 13 = s'.left := by
                unfold left
                rw [hwait]
                simp only [Bool.toNat_true, Bool.toNat_false]
                omega
              rcases left_sendNextChunk sha1 { s' with waitingResume := false } env with h | ⟨-, h⟩ <;> omega
            · rw [hleft]
              exact hstay
    rw [if_neg hres]
    exact hstay

end Sender

namespace World

variable {sha1 : Bytes → Digest} {w t : World}

theorem left_call (x : Sender × List Bytes) (w : World) :
    (w.call x).left + w.sender.left = w.left + (x.1.left + 12 * x.2.length) := by
  unfold left call
  simp only [length_append]
  omega

theorem left_call_of {x : Sender × List Bytes}
    (h : x.1.left + 12 * x.2.length < w.sender.left ∨ x.1.paused = true ∧ x.1.left + 12 * x.2.length ≤ w.sender.left) :
    (w.call x).left < w.left ∨ (w.call x).sender.paused = true ∧ (w.call x).left ≤ w.left := by
  have hcall := left_call x w
  rcases h with hlt | ⟨hp, hle⟩
  · left
    omega
  · right
    exact ⟨hp, by omega⟩

/-- **A run comes to an end**: every step brings the end nearer, but for those at which the sender pauses, and they
bring it no further away. -/
theorem left_step {a : Act} (h : w.step sha1 a = some t) :
    t.left < w.left ∨ t.sender.paused = true ∧ t.left ≤ w.left := by
  cases a with
  | «open» ok =>
    refine .inl ?_
    unfold step at h
    dsimp only at h
    split_ifs at h with hopen
    obtain rfl := some.inj h
    have := w.sender.left_onOpen ok
    unfold left call
    simp only [hopen, if_true, Bool.false_eq_true, if_false, length_append]
    omega
  | timer env =>
    unfold step at h
    dsimp only at h
    split_ifs at h with htimer
    obtain rfl := some.inj h
    exact left_call_of (w.sender.left_onTimer sha1 env (fun h0 => htimer (.inr h0)))
  | low env =>
    unfold step at h
    dsimp only at h
    split_ifs at h with hlow
    obtain rfl := some.inj h
    have hpaused : w.sender.paused = true := by
      by_contra hne
      exact hlow (.inr hne)
    exact left_call_of (w.sender.left_onBufferedAmountLow sha1 env hpaused)
  | message env =>
    refine .inl ?_
    unfold step at h
    cases hdown : w.down with
    | nil =>
      rw [hdown] at h
      cases h
    | cons data down =>
      rw [hdown] at h
      dsimp only at h
      split_ifs at h
      obtain rfl := some.inj h
      have := Sender.left_onMessage sha1 data env w.sender
      unfold left call
      simp only [hdown, length_append, length_cons]
      omega
  | deliver =>
    refine .inl ?_
    unfold step at h
    cases hup : w.up with
    | nil =>
      rw [hup] at h
      cases h
    | cons data up =>
      rw [hup] at h
      obtain ⟨host, hhost, rfl⟩ := map_eq_some_iff.mp h
      unfold Host.deliver at hhost
      split_ifs at hhost with hbusy
      obtain rfl := some.inj hhost
      have htodo : w.host.receiver.todo = [] := by
        by_contra hne
        exact hbusy (.inr hne)
      have := Receiver.weight_onMessage data w.host.receiver htodo
      unfold left
      simp only [hup, htodo, weight_nil, length_cons]
      omega
  | op ok =>
    refine .inl ?_
    obtain ⟨⟨host, out⟩, hrun, rfl⟩ := map_eq_some_iff.mp h
    unfold Host.run at hrun
    split_ifs at hrun
    cases htodo : w.host.receiver.todo with
    | nil =>
      rw [htodo] at hrun
      cases hrun
    | cons op todo =>
      rw [htodo] at hrun
      have hpair := Prod.mk.inj (some.inj hrun)
      have hless : weight host.receiver.todo + out.length < op.weight + weight todo := by
        rw [← hpair.1, ← hpair.2]
        exact Receiver.weight_exec sha1 op ok { w.host.receiver with todo } w.host.disk
      unfold left
      simp only [htodo, weight_cons, length_append]
      omega

end World

end Libx.Fer
