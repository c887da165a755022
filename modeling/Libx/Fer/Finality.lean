import Libx.Fer.Confined
import Libx.Fer.Lifecycle

/-!
# Libx.Fer.Finality — Done and Failed are final
-/

namespace Libx.Fer

open Libx.Core (Run)
open Libx.Agent (Bytes cstr)
open Libx.Turn (Text)
open List Option

namespace Out

def Final : Out → Prop
  | state s => s.Final
  | _ => False

/-- No callback, and neither a chunk nor FILE_DONE nor ACK. -/
def Quiet : Out → Prop
  | sent data => data.head? ≠ some msgFileChunk ∧ data.head? ≠ some msgFileDone ∧ data.head? ≠ some msgAck
  | _ => False

end Out

def Tidy (log : List Out) : Prop := log.Pairwise fun o o' => o.Final → o'.Quiet

namespace Xfer

/-- The state is the one told last, nothing but what is quiet follows a final one, no timer is left after destroy; and
where Done is about to be reported by a receiver, the final file exists and has the digest of the sender. -/
structure Orderly (sha1 : Bytes → Digest) (x : Xfer) : Prop where
  last : x.state = lastState .idle x.log
  tidy : Tidy x.log
  timers : x.destroyed = true → x.party.timers = 0
  done : ∀ h, x.party = .receiver h → h.receiver.todo.head? = some .finish →
    ∃ content, h.disk (pathIn h.receiver.destDir h.receiver.filename []) = some content ∧
      x.claimed = some (sha1 content)

end Xfer

/-! ### What leaves a final state alone -/

/-- A call of `sender_send_next_chunk` that pauses, or ends with a FILE_DONE that is not sent. -/
def Sender.CallStill (env : Env) (s : Sender) : Prop :=
  s.skip.faulted = true ∨
    (s.skip.file.totalChunks ≤ s.skip.nextChunk ∧ env.read = true ∧ env.done = false) ∨
    (s.skip.nextChunk < s.skip.file.totalChunks ∧ (env.high = true ∨ env.read = true ∧ env.chunk = .again))

/-- An ACK that is not waited for; a FILE_RESUME that is taken and not waited for, or with a call that leaves the state
alone; any other message. -/
def Sender.MessageStill (data : Bytes) (env : Env) (s : Sender) : Prop :=
  (∀ payload, data = msgAck :: payload → s.waitingAck = false) ∧
    ∀ payload, data = msgFileResume :: payload →
      ∃ m s', decodeFileResume payload = some m ∧ m.totalChunks = s.file.totalChunks ∧ s.takeResume m = some s' ∧
        (s'.faulted = true ∨ s'.waitingResume = false ∨ CallStill env { s' with waitingResume := false })

def Receiver.MessageStill (data : Bytes) : Prop :=
  (∀ payload, data = msgFileMeta :: payload → decodeFileMeta payload ≠ none) ∧
    (∀ payload, data = msgFileChunk :: payload → decodeChunkHeader payload ≠ none) ∧
    ∀ payload, data = msgFileDone :: payload → decodeFileDone payload ≠ none

/-- An operation that neither fails the transfer nor ends it, and sends no ACK. -/
def Host.OpStill (ok : Bool) (h : Host) : Prop :=
  match h.receiver.todo.head? with
  | some .loadBitmap =>
    h.receiver.totalChunks ≠ 0
  | some .openResume => h.receiver.totalChunks ≠ 0 ∨ ok = true ∧ (h.disk.read h.receiver.filepath).isSome
  | some .openPart => ok = true ∧ h.receiver.filepath ≠ []
  | some .reopen => ok = true ∧ (h.disk.read h.receiver.filepath).isSome
  | some (.pwrite _ _) => h.receiver.handle = none ∨ ok = true
  | some (.ack _) => ok = false
  | some .transferring | some .fail | some .finish => False
  | _ => True

namespace Xfer

def Still (x : Xfer) : Input → Prop
  | .connection s => s ≠ .connecting ∧ s ≠ .failed
  | .dcOpen _ | .signalError => False
  | .message data env =>
    match x.party with
    | .sender s => s.MessageStill data env
    | _ => Receiver.MessageStill data
  | .timer env =>
    match x.party with
    | .sender s => Sender.CallStill env { s with timers := s.timers - 1 }
    | _ => True
  | .low env =>
    match x.party with
    | .sender s => s.paused = true → Sender.CallStill env { s with paused := false }
    | _ => True
  | .op ok =>
    match x.party with
    | .receiver h => h.OpStill ok
    | _ => True
  | .peerJoined created | .offer created => created = true
  | _ => True

/-- In a final state, a step that leaves it alone; a transfer is destroyed without a timer; the file can be renamed. -/
def Calm (x : Xfer) (i : Input) : Prop :=
  (x.state.Final → x.Still i) ∧ (i = .destroy → x.party.timers = 0) ∧
    ∀ h, x.party = .receiver h → h.receiver.todo.head? = some .rename → i ≠ .op false

end Xfer

/-! ### Logs -/

section Logs

variable {o : Out} {log outs : List Out} {s : TransferState}

theorem tidy_nil : Tidy [] := List.Pairwise.nil

theorem tidy_single (o : Out) : Tidy [o] := pairwise_singleton _ _

theorem tidy_reported : Tidy reported :=
  pairwise_cons.mpr ⟨fun _ _ hf => hf.elim, tidy_single _⟩

theorem tidy_cons (ho : ¬ o.Final) (h : Tidy log) : Tidy (o :: log) :=
  pairwise_cons.mpr ⟨fun _ _ hf => absurd hf ho, h⟩

theorem lastState_of_quiet (h : ∀ o ∈ outs, o.Quiet) : lastState s outs = s := by
  induction outs generalizing s with
  | nil => rfl
  | cons o outs ih =>
    have ho := h o mem_cons_self
    cases o with
    | state s' | error => exact ho.elim
    | sent data => exact ih (fun o' ho' => h o' (mem_cons_of_mem _ ho'))

theorem final_lastState (h : Tidy log) (hmem : ∃ o ∈ log, o.Final) : (lastState s log).Final := by
  obtain ⟨o, ho, hf⟩ := hmem
  obtain ⟨before, after, rfl⟩ := append_of_mem ho
  obtain ⟨-, hafter, -⟩ := pairwise_append.mp h
  have hquiet : ∀ o' ∈ after, o'.Quiet := fun o' ho' => (pairwise_cons.mp hafter).1 o' ho' hf
  rw [lastState_append]
  cases o with
  | state s' =>
    rw [lastState_state, lastState_of_quiet hquiet]
    exact hf
  | error | sent data => exact hf.elim

theorem tidy_append (hlog : Tidy log) (houts : Tidy outs) (hs : s = lastState .idle log)
    (hquiet : s.Final → ∀ o ∈ outs, o.Quiet) : Tidy (log ++ outs) := by
  refine pairwise_append.mpr ⟨hlog, houts, fun o ho o' ho' hf => ?_⟩
  exact hquiet (hs ▸ final_lastState hlog ⟨o, ho, hf⟩) o' ho'

end Logs

namespace Sender

variable {sha1 : Bytes → Digest} {env : Env} {s : Sender} {data : Bytes}

theorem tidy_callLog (sha1 : Bytes → Digest) (env : Env) (s : Sender) : Tidy (s.callLog sha1 env) := by
  have hcalls := calls_sendNextChunk sha1 env s
  revert hcalls
  generalize s.callLog sha1 env = log
  generalize s.skip = t
  generalize sendNextChunk sha1 env s = x
  intro hcalls
  cases hcalls with
  | faulted _ | paused _ _ => exact tidy_nil
  | ended _ _ =>
    split_ifs
    · exact tidy_single _
    · exact tidy_nil
  | failed _ => exact tidy_reported
  | sent _ _ _ => exact tidy_single _

theorem tidy_openLog (ok : Bool) (s : Sender) : Tidy (s.openLog ok) := by
  unfold openLog
  refine tidy_cons (fun h => ?_) ?_
  · rcases h with h | h <;> cases h
  · cases encodeFileMeta s.file.fileMeta 512 with
    | none => exact tidy_reported
    | some buf =>
      dsimp only
      split_ifs
      · exact tidy_single _
      · exact tidy_nil

theorem tidy_lowLog (sha1 : Bytes → Digest) (env : Env) (s : Sender) : Tidy (s.lowLog sha1 env) := by
  unfold lowLog
  split_ifs
  · exact tidy_callLog sha1 env _
  · exact tidy_nil

theorem tidy_messageLog (sha1 : Bytes → Digest) (data : Bytes) (env : Env) (s : Sender) :
    Tidy (s.messageLog sha1 data env) := by
  unfold messageLog
  cases data with
  | nil => exact tidy_nil
  | cons type payload =>
    dsimp only
    by_cases hack : type = msgAck
    · rw [if_pos hack]
      split_ifs
      · cases decodeFileAck payload with
        | none => exact tidy_reported
        | some status =>
          dsimp only
          split_ifs
          · exact tidy_single _
          · exact tidy_reported
      · exact tidy_nil
    rw [if_neg hack]
    by_cases hres : type = msgFileResume
    · rw [if_pos hres]
      cases decodeFileResume payload with
      | none => exact tidy_reported
      | some m =>
        dsimp only
        split_ifs
        · exact tidy_reported
        · cases s.takeResume m with
          | none => exact tidy_reported
          | some s' =>
            dsimp only
            split_ifs
            · exact tidy_nil
            · exact tidy_callLog sha1 env _
            · exact tidy_nil
    rw [if_neg hres]
    exact tidy_nil

theorem callLog_of_still (h : s.CallStill env) : s.callLog sha1 env = [] := by
  rw [callLog]
  dsimp only
  by_cases hfault : s.skip.faulted = true
  · rw [if_pos hfault]
  rw [if_neg hfault]
  rcases h with hf | ⟨hend, hread, hdone⟩ | ⟨hlt, hpause⟩
  · exact absurd hf hfault
  · rw [if_pos hend, if_pos hread, hdone, if_neg Bool.false_ne_true]
  · rw [if_neg (Nat.not_le.mpr hlt)]
    by_cases hhigh : env.high = true
    · rw [if_pos hhigh]
    rw [if_neg hhigh]
    obtain ⟨hread, hagain⟩ := hpause.resolve_left hhigh
    rw [if_neg, hagain]
    rintro (hno | ⟨hnil, -⟩)
    · exact hno hread
    · exact chunk_ne_nil hlt hnil

theorem lowLog_of_still (h : s.paused = true → CallStill env { s with paused := false }) : s.lowLog sha1 env = [] := by
  unfold lowLog
  split_ifs with hpaused
  · exact callLog_of_still (h hpaused)
  · rfl

theorem messageLog_of_still (h : s.MessageStill data env) : s.messageLog sha1 data env = [] := by
  obtain ⟨hack, hres⟩ := h
  unfold messageLog
  cases data with
  | nil => rfl
  | cons type payload =>
    dsimp only
    by_cases h1 : type = msgAck
    · rw [if_pos h1, if_pos]
      rw [hack payload (h1 ▸ rfl)]
      exact Bool.false_ne_true
    rw [if_neg h1]
    by_cases h2 : type = msgFileResume
    · obtain ⟨m, s', hdec, htotal, htake, hcall⟩ := hres payload (h2 ▸ rfl)
      rw [if_pos h2, hdec]
      dsimp only
      rw [if_neg (not_not.mpr htotal), htake]
      dsimp only
      by_cases hfault : s'.faulted = true
      · rw [if_pos hfault]
      rw [if_neg hfault]
      by_cases hwait : s'.waitingResume = true
      · rw [if_pos hwait]
        refine callLog_of_still ((hcall.resolve_left hfault).resolve_left (fun hno => ?_))
        rw [hwait] at hno
        cases hno
      · rw [if_neg hwait]
    rw [if_neg h2]

end Sender

namespace Receiver

variable {sha1 : Bytes → Digest} {r : Receiver} {d : Disk} {data : Bytes}

theorem tidy_freshLog (r : Receiver) : Tidy r.freshLog := by
  unfold freshLog
  split_ifs
  · exact tidy_reported
  · exact tidy_nil

theorem tidy_execLog (op : Op) (ok : Bool) (r : Receiver) (d : Disk) : Tidy (r.execLog op ok d) := by
  unfold execLog
  cases op with
  | loadBitmap =>
    dsimp only
    generalize loadInto (if ok = true then d.read r.bitmapPath else none) r.bitmap = x
    split_ifs
    · exact tidy_nil
    · exact tidy_freshLog r
    · exact tidy_freshLog r
  | openResume =>
    dsimp only
    split_ifs
    · exact tidy_nil
    · exact tidy_freshLog r
  | openPart | reopen =>
    dsimp only
    split_ifs
    · exact tidy_nil
    · exact tidy_reported
  | sendResume | ack =>
    dsimp only
    split_ifs
    · exact tidy_single _
    · exact tidy_nil
  | pwrite i data =>
    dsimp only
    cases r.handle with
    | none => exact tidy_nil
    | some x =>
      dsimp only
      split_ifs
      · exact tidy_nil
      · exact tidy_reported
  | transferring | finish => exact tidy_single _
  | fail => exact tidy_reported
  | _ => exact tidy_nil

theorem tidy_messageLog (data : Bytes) : Tidy (messageLog data) := by
  unfold messageLog
  cases data with
  | nil => exact tidy_nil
  | cons type payload =>
    dsimp only
    split_ifs <;> first | exact tidy_nil | exact tidy_reported

theorem quiet_execLog {op : Op} {todo : List Op} {ok : Bool} {h : Host} (hop : h.receiver.todo = op :: todo)
    (hs : h.OpStill ok) : ∀ o ∈ h.receiver.execLog op ok h.disk, o.Quiet := by
  have hnone : ∀ o ∈ ([] : List Out), o.Quiet := fun _ hmem => (not_mem_nil hmem).elim
  unfold Host.OpStill at hs
  rw [hop, List.head?_cons] at hs
  unfold execLog freshLog
  cases op with
  | loadBitmap =>
    dsimp only at hs ⊢
    rw [if_neg hs]
    split_ifs <;> exact hnone
  | openResume =>
    dsimp only at hs ⊢
    split_ifs with hopen hzero
    · exact hnone
    · exact absurd (hs.resolve_left (not_not.mpr hzero)) hopen
    · exact hnone
  | openPart | reopen =>
    dsimp only at hs ⊢
    rw [if_pos hs]
    exact hnone
  | sendResume =>
    dsimp only
    split_ifs
    · intro o ho
      obtain rfl := mem_singleton.mp ho
      have hhead : (encodeFileResume h.receiver.totalChunks h.receiver.bitmap.data).head? = some msgFileResume := rfl
      unfold Out.Quiet
      dsimp only
      rw [hhead]
      decide
    · exact hnone
  | ack status =>
    dsimp only at hs ⊢
    rw [hs, if_neg Bool.false_ne_true]
    exact hnone
  | pwrite i data =>
    dsimp only at hs ⊢
    cases hx : h.receiver.handle with
    | none => exact hnone
    | some x =>
      rw [hx] at hs
      dsimp only
      rw [if_pos (hs.resolve_left (fun hne => nomatch hne))]
      exact hnone
  | transferring | finish | fail => exact hs.elim
  | _ => exact hnone

theorem messageLog_of_still (h : MessageStill data) : messageLog data = [] := by
  obtain ⟨h1, h2, h3⟩ := h
  unfold messageLog
  cases data with
  | nil => rfl
  | cons type payload =>
    dsimp only
    by_cases hmeta : type = msgFileMeta
    · rw [if_pos hmeta, if_neg]
      rw [isNone_iff_eq_none]
      exact h1 payload (hmeta ▸ rfl)
    rw [if_neg hmeta]
    by_cases hchunk : type = msgFileChunk
    · rw [if_pos hchunk, if_neg]
      rw [isNone_iff_eq_none]
      exact h2 payload (hchunk ▸ rfl)
    rw [if_neg hchunk]
    by_cases hdone : type = msgFileDone
    · rw [if_pos hdone, if_neg]
      rw [isNone_iff_eq_none]
      exact h3 payload (hdone ▸ rfl)
    rw [if_neg hdone]

end Receiver

/-! ### How a receiver ends -/

/-- An operation that is not one of the last three, and verifies what was promised. -/
def Op.Away (claimed : Option Digest) : Op → Prop
  | .rename | .remove | .finish => False
  | .verify digest => claimed = some digest
  | _ => True

/-- What holds before the operations that end a transfer: .part has the digest that was promised; then the final file
has it. -/
inductive Receiver.Finishing (sha1 : Bytes → Digest) (claimed : Option Digest) (r : Receiver) (d : Disk) :
    List Op → Prop
  | away {todo} : (∀ op ∈ todo, op.Away claimed) → Finishing sha1 claimed r d todo
  | verified {todo content} : todo = [.ack 0, .rename, .remove, .finish] ∨ todo = [.rename, .remove, .finish] →
      d.read r.filepath = some content → claimed = some (sha1 content) → Finishing sha1 claimed r d todo
  | renamed {todo content} : todo = [.remove, .finish] ∨ todo = [.finish] →
      d (pathIn r.destDir r.filename []) = some content → claimed = some (sha1 content) →
      Finishing sha1 claimed r d todo

namespace Receiver

variable {sha1 : Bytes → Digest} {claimed : Option Digest} {r : Receiver} {d : Disk} {op : Op} {ok : Bool}

theorem away_nil : ∀ op ∈ ([] : List Op), op.Away claimed := fun _ h => (not_mem_nil h).elim

theorem away_saveBitmap : ∀ op ∈ saveBitmap, op.Away claimed := by
  simp only [saveBitmap, mem_cons, not_mem_nil, or_false, forall_eq_or_imp, forall_eq, Op.Away, and_self]

theorem away_resumeOps : ∀ op ∈ resumeOps, op.Away claimed := by
  simp only [resumeOps, saveBitmap, cons_append, nil_append, mem_cons, not_mem_nil, or_false,
    forall_eq_or_imp, forall_eq, Op.Away, and_self]

theorem away_startFresh (r : Receiver) : ∀ op ∈ r.startFresh.todo, op.Away claimed := by
  unfold startFresh
  cases Bitmap.init r.totalChunks with
  | none => exact away_nil
  | some bm =>
    intro op hop
    rcases mem_cons.mp hop with rfl | hop
    · trivial
    rcases mem_cons.mp hop with rfl | hop
    · trivial
    rcases mem_cons.mp hop with rfl | hop
    · trivial
    exact away_resumeOps op hop

theorem away_mark (i len : ℕ) (h : ∀ op ∈ r.todo, op.Away claimed) : ∀ op ∈ (r.mark i len).todo, op.Away claimed := by
  unfold mark
  cases r.bitmap.set i with
  | none => exact h
  | some bm =>
    dsimp only
    split_ifs
    · exact away_saveBitmap
    · exact away_nil

/-- An operation before the last ones: the rest is before them too, or .part was found to be what was promised. -/
theorem finishing_exec (hop : op.Away claimed) (htodo : ∀ op ∈ r.todo, op.Away claimed) :
    Finishing sha1 claimed (exec sha1 op ok r d).1 (exec sha1 op ok r d).2.1 (exec sha1 op ok r d).1.todo := by
  have hdrop (k : ℕ) : ∀ op ∈ r.todo.drop k, op.Away claimed := fun op hmem => htodo op (mem_of_mem_drop hmem)
  unfold exec
  cases op with
  | rename | remove | finish => exact hop.elim
  | loadBitmap =>
    dsimp only
    generalize loadInto (if ok = true then d.read r.bitmapPath else none) r.bitmap = x
    split_ifs
    · refine .away (fun op hmem => ?_)
      obtain rfl := mem_singleton.mp hmem
      trivial
    all_goals exact .away (away_startFresh _)
  | openResume =>
    dsimp only
    split_ifs
    · cases r.bitmap.count with
      | none => exact .away htodo
      | some n => exact .away away_resumeOps
    · exact .away (away_startFresh _)
  | openPart | reopen =>
    dsimp only
    split_ifs
    · exact .away htodo
    · exact .away away_nil
  | truncate =>
    dsimp only
    cases d r.filepath with
    | none | some content => exact .away htodo
  | saveOpen =>
    dsimp only
    split_ifs
    · exact .away htodo
    · exact .away (hdrop 2)
  | saveHeader =>
    dsimp only
    split_ifs
    · exact .away htodo
    · exact .away (hdrop 1)
  | pwrite i data =>
    dsimp only
    cases r.handle with
    | none => exact .away (away_mark i _ htodo)
    | some x =>
      dsimp only
      split_ifs
      · exact .away (away_mark i _ htodo)
      · exact .away away_nil
  | flush =>
    dsimp only
    cases r.handle with
    | none => exact .away htodo
    | some x =>
      dsimp only
      split_ifs
      · exact .away htodo
      · exact .away htodo
  | close =>
    dsimp only
    cases r.handle with
    | none | some x => exact .away htodo
  | verify digest =>
    dsimp only
    cases hread : (if ok = true then d.read r.filepath else none) with
    | none =>
      rw [map_none, if_neg (fun h => nomatch h)]
      refine .away ?_
      simp only [mem_cons, not_mem_nil, or_false, forall_eq_or_imp, forall_eq, Op.Away, and_self]
    | some content =>
      rw [map_some]
      by_cases heq : some (sha1 content) = some digest
      · rw [if_pos heq]
        have hpart : d.read r.filepath = some content := by
          split_ifs at hread
          exact hread
        exact .verified (.inl rfl) hpart (hop.trans heq.symm)
      · rw [if_neg heq]
        refine .away ?_
        simp only [mem_cons, not_mem_nil, or_false, forall_eq_or_imp, forall_eq, Op.Away, and_self]
  | fail => exact .away away_nil
  | _ => exact .away htodo

end Receiver

/-- What holds of a receiver between two steps. -/
structure Host.Promised (sha1 : Bytes → Digest) (claimed : Option Digest) (h : Host) : Prop where
  apart : h.receiver.faulted = true ∨ h.receiver.bitmapPath ≠ pathIn h.receiver.destDir h.receiver.filename []
  finishing : h.receiver.Finishing sha1 claimed h.disk h.receiver.todo

namespace Host

variable {sha1 : Bytes → Digest} {claimed : Option Digest} {h t : Host} {ok : Bool} {out : List Bytes} {data : Bytes}

theorem pathIn_bitmap_ne (dir : Text 511) {name : Bytes} (h : name.length ≤ 255) :
    pathIn dir name bitmapSuffix ≠ pathIn dir name [] := by
  rw [pathIn_eq dir h (by simp), pathIn_eq dir h (by simp), List.append_nil]
  refine ne_of_length ?_
  rw [length_append]
  exact Nat.ne_of_gt (Nat.lt_add_of_pos_right (by decide))

theorem run_of_cons {op : Op} {todo : List Op} (hlive : h.receiver.faulted = false) (htodo : h.receiver.todo = op :: todo) :
    h.run sha1 ok = some (after sha1 op ok { h.receiver with todo } h.disk,
      (Receiver.exec sha1 op ok { h.receiver with todo } h.disk).2.2) := by
  unfold run
  rw [hlive, if_neg Bool.false_ne_true, htodo]
  rfl

theorem promised_run (hp : h.Promised sha1 claimed) (hcalm : h.receiver.todo.head? = some .rename → ok = true)
    (ht : h.run sha1 ok = some (t, out)) : t.Promised sha1 claimed := by
  obtain ⟨hapart, hfin⟩ := hp
  have hlive : h.receiver.faulted = false := by
    unfold run at ht
    split_ifs at ht with hfault
    exact Bool.eq_false_iff.mpr hfault
  have hne := hapart.resolve_left (by rw [hlive]; exact Bool.false_ne_true)
  cases htodo : h.receiver.todo with
  | nil =>
    unfold run at ht
    rw [hlive, if_neg Bool.false_ne_true, htodo] at ht
    cases ht
  | cons op todo =>
    rw [htodo] at hfin hcalm
    rw [run_of_cons hlive htodo] at ht
    obtain ⟨rfl, -⟩ := Prod.mk.inj (some.inj ht)
    have hs := Receiver.same_exec sha1 op ok { h.receiver with todo } h.disk
    refine ⟨.inr ?_, ?_⟩
    · unfold after
      rw [hs.bitmapPath, hs.destDir, hs.filename]
      exact hne
    cases hfin with
    | away haway =>
      obtain ⟨hop, hrest⟩ := forall_mem_cons.mp haway
      exact Receiver.finishing_exec hop hrest
    | verified hform hread hclaim =>
      rcases hform with hform | hform
      · obtain ⟨rfl, rfl⟩ := List.cons.inj hform
        exact .verified (.inr rfl) hread hclaim
      · obtain ⟨rfl, rfl⟩ := List.cons.inj hform
        obtain rfl := hcalm rfl
        unfold after Receiver.exec
        dsimp only
        rw [if_pos rfl, hread]
        exact .renamed (.inl rfl) Disk.write_self hclaim
    | renamed hform hfinal hclaim =>
      rcases hform with hform | hform
      · obtain ⟨rfl, rfl⟩ := List.cons.inj hform
        refine .renamed (.inr rfl) ?_ hclaim
        unfold after Receiver.exec
        dsimp only
        split_ifs
        · rw [Disk.remove_of_ne hne.symm]
          exact hfinal
        · exact hfinal
      · obtain ⟨rfl, rfl⟩ := List.cons.inj hform
        exact .away Receiver.away_nil

theorem promised_deliver (hp : h.Promised sha1 claimed) (ht : h.deliver data = some t) :
    t.Promised sha1 (Xfer.claim data claimed) := by
  unfold deliver at ht
  split_ifs at ht with hbusy
  obtain rfl := some.inj ht
  obtain ⟨hlive, htodo⟩ := not_or.mp hbusy
  have hne := hp.apart.resolve_left hlive
  have hstay (claimed' : Option Digest) (r' : Receiver) (htodo : r'.todo = []) (h1 : r'.bitmapPath = h.receiver.bitmapPath)
      (h2 : r'.destDir = h.receiver.destDir) (h3 : r'.filename = h.receiver.filename) :
      Promised sha1 claimed' ⟨r', h.disk⟩ := by
    refine ⟨.inr (by dsimp only; rw [h1, h2, h3]; exact hne), ?_⟩
    dsimp only
    rw [htodo]
    exact .away Receiver.away_nil
  have htodo := not_ne_iff.mp htodo
  unfold Receiver.onMessage
  cases data with
  | nil => exact hstay _ _ htodo rfl rfl rfl
  | cons type payload =>
    dsimp only
    by_cases h1 : type = msgFileMeta
    · rw [if_pos h1]
      cases hdec : decodeFileMeta payload with
      | none => exact hstay _ _ rfl rfl rfl rfl
      | some m =>
        dsimp only
        by_cases hzero : m.chunkSize = 0
        · rw [if_pos hzero]
          refine ⟨.inl rfl, ?_⟩
          dsimp only
          rw [htodo]
          exact .away Receiver.away_nil
        · rw [if_neg hzero]
          refine ⟨.inr (pathIn_bitmap_ne _ (length_filename hdec)), .away (fun op hmem => ?_)⟩
          obtain rfl := mem_singleton.mp hmem
          trivial
    rw [if_neg h1]
    by_cases h2 : type = msgFileChunk
    · rw [if_pos h2]
      cases decodeChunkHeader payload with
      | none => exact hstay _ _ rfl rfl rfl rfl
      | some x =>
        dsimp only
        cases h.receiver.bitmap.test x.1 with
        | none => exact hstay _ _ htodo rfl rfl rfl
        | some b =>
          cases b with
          | true => exact hstay _ _ htodo rfl rfl rfl
          | false =>
            refine ⟨.inr hne, .away (fun op hmem => ?_)⟩
            obtain rfl := mem_singleton.mp hmem
            trivial
    rw [if_neg h2]
    by_cases h3 : type = msgFileDone
    · rw [if_pos h3]
      unfold Xfer.claim
      dsimp only
      rw [if_pos h3]
      cases decodeFileDone payload with
      | none => exact hstay _ _ rfl rfl rfl rfl
      | some m =>
        refine ⟨.inr hne, .away ?_⟩
        dsimp only
        split_ifs <;>
          simp only [saveBitmap, cons_append, nil_append, mem_cons, not_mem_nil, or_false,
            forall_eq_or_imp, forall_eq, Op.Away, and_self]
    rw [if_neg h3]
    exact hstay _ _ htodo rfl rfl rfl

theorem Promised.done (hp : h.Promised sha1 claimed) (hhead : h.receiver.todo.head? = some .finish) :
    ∃ content, h.disk (pathIn h.receiver.destDir h.receiver.filename []) = some content ∧ claimed = some (sha1 content) := by
  obtain ⟨-, hfin⟩ := hp
  cases hfin with
  | away haway => exact (haway _ (mem_of_head? hhead)).elim
  | verified hform _ _ =>
    rcases hform with hform | hform <;> rw [hform] at hhead <;> cases hhead
  | renamed _ hfinal hclaim => exact ⟨_, hfinal, hclaim⟩

end Host

/-! ### Runs -/

namespace Xfer

variable {sha1 : Bytes → Digest} {x y : Xfer} {outs : List Out} {i : Input}

/-- What holds in every state of a calm run. -/
structure Ordered (sha1 : Bytes → Digest) (x : Xfer) : Prop where
  last : x.state = lastState .idle x.log
  tidy : Tidy x.log
  timers : x.destroyed = true → x.party.timers = 0
  promised : ∀ h, x.party = .receiver h → h.Promised sha1 x.claimed

theorem Ordered.tell (outs : List Out) (ho : Ordered sha1 x) (hlive : x.destroyed = false) (hlog : y.log = x.log ++ outs)
    (hstate : y.state = lastState x.state outs) (htidy : Tidy outs) (hquiet : x.state.Final → ∀ o ∈ outs, o.Quiet)
    (hdestroyed : y.destroyed = x.destroyed) (hpromised : ∀ h, y.party = .receiver h → h.Promised sha1 y.claimed) :
    Ordered sha1 y := by
  refine ⟨?_, ?_, fun hd => ?_, hpromised⟩
  · rw [hlog, lastState_append, ← ho.last, hstate]
  · rw [hlog]
    exact tidy_append ho.tidy htidy ho.last hquiet
  · rw [hdestroyed, hlive] at hd
    cases hd

theorem state_emit (outs : List Out) (x : Xfer) : (x.emit outs).state = lastState x.state outs := by
  unfold emit state
  cases x.party <;> rfl

theorem Ordered.emit (ho : Ordered sha1 x) (hlive : x.destroyed = false) (htidy : Tidy outs)
    (hquiet : x.state.Final → ∀ o ∈ outs, o.Quiet) : Ordered sha1 (x.emit outs) := by
  refine ho.tell outs hlive rfl (state_emit outs x) htidy hquiet rfl (fun h hh => ?_)
  unfold Xfer.emit at hh ⊢
  dsimp only at hh ⊢
  cases hparty : x.party with
  | unset s | sender s =>
    rw [hparty] at hh
    cases hh
  | receiver h' =>
    rw [hparty] at hh
    obtain rfl := Party.receiver.inj hh
    obtain ⟨hapart, hfin⟩ := ho.promised h' hparty
    refine ⟨hapart, ?_⟩
    cases hfin with
    | away haway => exact .away haway
    | verified hform hread hclaim => exact .verified hform hread hclaim
    | renamed hform hfinal hclaim => exact .renamed hform hfinal hclaim

theorem Ordered.emit_of_not_final (ho : Ordered sha1 x) (hlive : x.destroyed = false) (htidy : Tidy outs)
    (hstate : ¬ x.state.Final) : Ordered sha1 (x.emit outs) := ho.emit hlive htidy (fun hf => absurd hf hstate)

theorem Ordered.party (ho : Ordered sha1 x) (hlive : x.destroyed = false) {p : Party} (dc : Bool)
    (hstate : p.state = x.state) (hpromised : ∀ h, p = .receiver h → h.Promised sha1 x.claimed) :
    Ordered sha1 { x with party := p, dc := dc } :=
  ho.tell [] hlive (List.append_nil _).symm hstate tidy_nil (fun _ _ h => (not_mem_nil h).elim) rfl hpromised

theorem not_final_idle : ¬ TransferState.Final .idle := by decide

theorem tidy_waiting (signal : Bool) : Tidy (.state .waitingPeer :: if signal then [] else reported) := by
  refine tidy_cons (show ¬ TransferState.Final .waitingPeer by decide) ?_
  split_ifs
  · exact tidy_nil
  · exact tidy_reported

theorem ordered_sendFile (ho : Ordered sha1 x) (hlive : x.destroyed = false) (f : Option Source) (pc dc signal : Bool) :
    Ordered sha1 (x.sendFile f pc dc signal) := by
  unfold sendFile
  by_cases hidle : x.state ≠ .idle
  · rw [if_pos hidle]
    exact ho
  rw [if_neg hidle]
  have hstate : x.state = .idle := not_ne_iff.mp hidle
  have hnot : ¬ x.state.Final := hstate ▸ not_final_idle
  cases f with
  | none => exact ho.emit_of_not_final hlive tidy_reported hnot
  | some f =>
    have hrole (dc : Bool) : Ordered sha1 { x with party := .sender { file := f, state := .idle }, dc := dc } :=
      ho.party hlive dc hstate.symm (fun h hh => (nomatch hh))
    dsimp only
    by_cases hpc : pc = true
    · rw [if_pos hpc]
      exact (hrole dc).emit_of_not_final hlive (tidy_waiting signal) not_final_idle
    · rw [if_neg hpc]
      exact (hrole x.dc).emit_of_not_final hlive tidy_reported not_final_idle

theorem ordered_recvFile (ho : Ordered sha1 x) (hlive : x.destroyed = false) (dir : Text 511) (d : Disk)
    (pc signal : Bool) : Ordered sha1 (x.recvFile dir d pc signal) := by
  unfold recvFile
  by_cases hidle : x.state ≠ .idle
  · rw [if_pos hidle]
    exact ho
  rw [if_neg hidle]
  have hstate : x.state = .idle := not_ne_iff.mp hidle
  have hrole : Ordered sha1 { x with party := .receiver ⟨{ destDir := dir, state := .idle }, d⟩ } := by
    refine ho.party hlive x.dc hstate.symm (fun h hh => ?_)
    obtain rfl := Party.receiver.inj hh
    have hne : ([] : Bytes) ≠ pathIn dir [] [] := by
      rw [pathIn_eq dir (Nat.zero_le _) (.head _)]
      exact (append_ne_nil_of_left_ne_nil (append_ne_nil_of_left_ne_nil
        (append_ne_nil_of_right_ne_nil _ (cons_ne_nil _ _)) _) _).symm
    exact ⟨.inr hne, .away Receiver.away_nil⟩
  dsimp only
  by_cases hpc : pc = true
  · rw [if_pos hpc]
    exact hrole.emit_of_not_final hlive (tidy_waiting signal) not_final_idle
  · rw [if_neg hpc]
    exact hrole.emit_of_not_final hlive tidy_reported not_final_idle

theorem ordered_hand (ho : Ordered sha1 x) (hlive : x.destroyed = false) {s : Sender} (hs : x.party = .sender s)
    {h : Sender → Sender × List Bytes} {log : Sender → List Out} (hstate : (h s).1.state = lastState s.state (log s))
    (htidy : Tidy (log s)) (hquiet : x.state.Final → log s = []) (dc : Bool) :
    Ordered sha1 ({ x with dc }.hand h log s) := by
  refine ho.tell (log s) hlive rfl ?_ htidy (fun hf o hmem => ?_) rfl (fun h hh => (nomatch hh))
  · unfold state
    rw [hs]
    exact hstate
  · rw [hquiet hf] at hmem
    exact (not_mem_nil hmem).elim

theorem ordered_connection (ho : Ordered sha1 x) (hlive : x.destroyed = false) {s : Libx.Peer.ConnectionState}
    (hcalm : x.state.Final → s ≠ .connecting ∧ s ≠ .failed) : Ordered sha1 (x.onConnection s) := by
  unfold onConnection
  cases s with
  | new | connected => exact ho
  | connecting => exact ho.emit_of_not_final hlive (tidy_single _) (fun hf => (hcalm hf).1 rfl)
  | failed => exact ho.emit_of_not_final hlive tidy_reported (fun hf => (hcalm hf).2 rfl)
  | disconnected | closed =>
    dsimp only
    split_ifs with hf
    · exact ho
    · exact ho.emit_of_not_final hlive tidy_reported hf

theorem execLog_todo (op : Op) (ok : Bool) (r : Receiver) (todo : List Op) (d : Disk) :
    Receiver.execLog op ok { r with todo } d = r.execLog op ok d := by
  cases op <;> rfl

theorem ordered_op (ho : Ordered sha1 x) (hlive : x.destroyed = false) {h : Host} (hh : x.party = .receiver h) {ok : Bool}
    (hcalm : x.Calm (.op ok)) {z : Host × List Bytes} (hrun : h.run sha1 ok = some z) :
    Ordered sha1
      { x with
        party := .receiver z.1
        log := x.log ++ (h.receiver.todo.head?.map fun op => h.receiver.execLog op ok h.disk).getD [] } := by
  obtain ⟨hstill, -, hrename⟩ := hcalm
  have hok : h.receiver.todo.head? = some .rename → ok = true := by
    intro hhead
    cases ok with
    | true => rfl
    | false => exact absurd rfl (hrename h hh hhead)
  have hpromised := Host.promised_run (ho.promised h hh) hok hrun
  have hfault : h.receiver.faulted = false := by
    unfold Host.run at hrun
    split_ifs at hrun with hfault
    exact Bool.eq_false_iff.mpr hfault
  cases htodo : h.receiver.todo with
  | nil =>
    unfold Host.run at hrun
    rw [hfault, if_neg Bool.false_ne_true, htodo] at hrun
    cases hrun
  | cons op todo =>
    have hz := (Host.run_of_cons hfault htodo).symm.trans hrun
    obtain rfl := some.inj hz
    refine ho.tell (h.receiver.execLog op ok h.disk) hlive rfl ?_ (Receiver.tidy_execLog op ok _ _) (fun hf => ?_) rfl
      (fun h' hh' => ?_)
    · unfold state
      rw [hh]
      exact (Receiver.state_exec sha1 op ok { h.receiver with todo } h.disk).trans (by rw [execLog_todo]; rfl)
    · have hs : h.OpStill ok := by
        have hs := hstill hf
        unfold Still at hs
        rw [hh] at hs
        exact hs
      exact Receiver.quiet_execLog htodo hs
    · obtain rfl := Party.receiver.inj hh'
      exact hpromised

theorem ordered_message (ho : Ordered sha1 x) (hlive : x.destroyed = false) {h h' : Host} (hh : x.party = .receiver h)
    {data : Bytes} {env : Env} (hcalm : x.Calm (.message data env)) (hdeliver : h.deliver data = some h') :
    Ordered sha1
      { x with party := .receiver h', claimed := claim data x.claimed, log := x.log ++ Receiver.messageLog data } := by
  have hpromised := Host.promised_deliver (ho.promised h hh) hdeliver
  refine ho.tell (Receiver.messageLog data) hlive rfl ?_ (Receiver.tidy_messageLog data) (fun hf o hmem => ?_) rfl
    (fun h'' hh' => ?_)
  · unfold Host.deliver at hdeliver
    split_ifs at hdeliver
    obtain rfl := some.inj hdeliver
    unfold state
    rw [hh]
    exact Receiver.state_onMessage data h.receiver
  · have hs : Receiver.MessageStill data := by
      have hs := hcalm.1 hf
      unfold Still at hs
      rw [hh] at hs
      exact hs
    rw [Receiver.messageLog_of_still hs] at hmem
    exact (not_mem_nil hmem).elim
  · obtain rfl := Party.receiver.inj hh'
    exact hpromised

theorem ordered_step (ho : Ordered sha1 x) (hcalm : x.Calm i) (hstep : x.step sha1 i = some y) : Ordered sha1 y := by
  unfold step at hstep
  by_cases hend : x.destroyed = true ∨ x.party.faulted = true
  · rw [if_pos hend] at hstep
    cases hstep
  rw [if_neg hend] at hstep
  have hlive : x.destroyed = false := Bool.eq_false_iff.mpr (not_or.mp hend).1
  have hstill := hcalm.1
  unfold Still at hstill
  cases i with
  | op ok =>
    dsimp only at hstep
    cases hparty : x.party with
    | unset s | sender s =>
      rw [hparty] at hstep
      cases hstep
    | receiver h =>
      rw [hparty] at hstep
      dsimp only at hstep
      split_ifs at hstep
      obtain ⟨z, hrun, rfl⟩ := map_eq_some_iff.mp hstep
      exact ordered_op ho hlive hparty hcalm hrun
  | sendFile f pc dc signal =>
    dsimp only at hstep
    split_ifs at hstep
    obtain rfl := some.inj hstep
    exact ordered_sendFile ho hlive f pc dc signal
  | recvFile dir d pc signal =>
    dsimp only at hstep
    split_ifs at hstep
    obtain rfl := some.inj hstep
    exact ordered_recvFile ho hlive dir d pc signal
  | connection s =>
    dsimp only at hstep
    split_ifs at hstep
    obtain rfl := some.inj hstep
    exact ordered_connection ho hlive hstill
  | datachannel =>
    dsimp only at hstep
    split_ifs at hstep
    obtain rfl := some.inj hstep
    exact ho.party hlive true rfl ho.promised
  | dcOpen ok =>
    dsimp only at hstep
    split_ifs at hstep
    cases hparty : x.party with
    | unset s | receiver h =>
      rw [hparty] at hstep
      cases hstep
    | sender s =>
      rw [hparty] at hstep
      obtain rfl := some.inj hstep
      exact ordered_hand ho hlive hparty (Sender.state_onOpen ok s) (Sender.tidy_openLog ok s)
        (fun hf => (hstill hf).elim) true
  | message data env =>
    dsimp only at hstep
    by_cases hbusy : x.party.busy = true
    · rw [if_pos hbusy] at hstep
      cases hstep
    rw [if_neg hbusy] at hstep
    cases hparty : x.party with
    | unset s =>
      rw [hparty] at hstep
      cases hstep
    | sender s =>
      rw [hparty] at hstep hstill
      dsimp only at hstep
      split_ifs at hstep
      obtain rfl := some.inj hstep
      exact ordered_hand ho hlive hparty (Sender.state_onMessage sha1 data env s) (Sender.tidy_messageLog sha1 data env s)
        (fun hf => Sender.messageLog_of_still (hstill hf)) x.dc
    | receiver h =>
      rw [hparty] at hstep
      obtain ⟨h', hdeliver, rfl⟩ := map_eq_some_iff.mp hstep
      exact ordered_message ho hlive hparty hcalm hdeliver
  | timer env =>
    dsimp only at hstep
    split_ifs at hstep
    cases hparty : x.party with
    | unset s | receiver h =>
      rw [hparty] at hstep
      cases hstep
    | sender s =>
      rw [hparty] at hstep hstill
      dsimp only at hstep
      split_ifs at hstep
      obtain rfl := some.inj hstep
      exact ordered_hand ho hlive hparty (Sender.state_onTimer sha1 env s) (Sender.tidy_callLog sha1 env _)
        (fun hf => Sender.callLog_of_still (hstill hf)) x.dc
  | low env =>
    dsimp only at hstep
    by_cases hbusy : x.party.busy = true
    · rw [if_pos hbusy] at hstep
      cases hstep
    rw [if_neg hbusy] at hstep
    cases hparty : x.party with
    | unset s | receiver h =>
      rw [hparty] at hstep
      cases hstep
    | sender s =>
      rw [hparty] at hstep hstill
      dsimp only at hstep
      split_ifs at hstep
      obtain rfl := some.inj hstep
      exact ordered_hand ho hlive hparty (Sender.state_onBufferedAmountLow sha1 env s) (Sender.tidy_lowLog sha1 env s)
        (fun hf => Sender.lowLog_of_still (hstill hf)) x.dc
  | peerJoined created | offer created =>
    dsimp only at hstep
    split_ifs at hstep with hbusy hcreated
    · obtain rfl := some.inj hstep
      exact ho
    · obtain rfl := some.inj hstep
      exact ho.emit_of_not_final hlive tidy_reported (fun hf => hcreated (hstill hf))
  | signalError =>
    dsimp only at hstep
    split_ifs at hstep
    obtain rfl := some.inj hstep
    exact ho.emit_of_not_final hlive tidy_reported (fun hf => hstill hf)
  | other =>
    dsimp only at hstep
    split_ifs at hstep
    obtain rfl := some.inj hstep
    exact ho
  | cancel =>
    dsimp only at hstep
    split_ifs at hstep
    obtain rfl := some.inj hstep
    unfold cancel
    split_ifs with hf
    · exact ho
    · exact Ordered.emit_of_not_final (ho.party (p := x.party) hlive false rfl ho.promised) hlive (tidy_single _) hf
  | destroy =>
    dsimp only at hstep
    split_ifs at hstep
    obtain rfl := some.inj hstep
    exact ⟨ho.last, ho.tidy, fun _ => hcalm.2.1 rfl, ho.promised⟩

end Xfer

end Libx.Fer
