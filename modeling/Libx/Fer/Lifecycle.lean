import Libx.Fer.Durable
import Libx.Peer.Connection

/-!
# Libx.Fer.Lifecycle — a transfer and what it makes known

xfer.c around the two sides: the callbacks of the peer connection and of signalling, cancel and destroy.
-/

namespace Libx.Fer

open Libx.Agent (Bytes)
open Libx.Turn (Text)
open Libx.Peer (ConnectionState)

/-- `on_state_change`, `on_error`, and a message that `xDataChannelSendBinary` takes. -/
inductive Out
  | state (s : TransferState)
  | error
  | sent (data : Bytes)

/-- `xfer_report_error`. -/
def reported : List Out := [.error, .state .failed]

def lastState (s : TransferState) (log : List Out) : TransferState :=
  log.foldl (fun s o => match o with | .state s' => s' | _ => s) s

def TransferState.Final (s : TransferState) : Prop := s = .done ∨ s = .failed

instance (s : TransferState) : Decidable s.Final := inferInstanceAs (Decidable (_ ∨ _))

@[simp] theorem lastState_append (s : TransferState) (a b : List Out) :
    lastState s (a ++ b) = lastState (lastState s a) b := List.foldl_append ..

@[simp] theorem lastState_state (s s' : TransferState) (l : List Out) :
    lastState s (.state s' :: l) = lastState s' l := rfl

/-! ### What the handlers make known -/

namespace Sender

/-- Of `sender_send_next_chunk`. -/
def callLog (sha1 : Bytes → Digest) (env : Env) (s : Sender) : List Out :=
  let s := s.skip
  if s.faulted then []
  else if s.file.totalChunks ≤ s.nextChunk then
    if env.read then (if env.done then [.sent (s.file.doneMessage sha1)] else []) else reported
  else if env.high then []
  else
    let data := s.file.chunk s.nextChunk
    if ¬ env.read ∨ data = [] ∧ s.nextChunk * defaultChunkSize < s.file.content.length then reported
    else
      match env.chunk with
      | .again => []
      | .error => reported
      | .ok => [.sent (s.file.chunkMessage s.nextChunk)]

/-- Of `sender_on_dc_open`. -/
def openLog (ok : Bool) (s : Sender) : List Out :=
  .state .transferring ::
    match encodeFileMeta s.file.fileMeta 512 with
    | none => reported
    | some buf => if ok then [.sent buf] else []

/-- Of `sender_schedule_next`. -/
def timerLog (sha1 : Bytes → Digest) (env : Env) (s : Sender) : List Out :=
  callLog sha1 env { s with timers := s.timers - 1 }

/-- Of `sender_on_buffered_amount_low`. -/
def lowLog (sha1 : Bytes → Digest) (env : Env) (s : Sender) : List Out :=
  if s.paused then callLog sha1 env { s with paused := false } else []

/-- Of `sender_on_dc_message`. -/
def messageLog (sha1 : Bytes → Digest) (data : Bytes) (env : Env) (s : Sender) : List Out :=
  match data with
  | [] => []
  | type :: payload =>
    if type = msgAck then
      if ¬ s.waitingAck then []
      else
        match decodeFileAck payload with
        | none => reported
        | some status => if status = 0 then [.state .done] else reported
    else if type = msgFileResume then
      match decodeFileResume payload with
      | none => reported
      | some m =>
        if m.totalChunks ≠ s.file.totalChunks then reported
        else
          match s.takeResume m with
          | none => reported
          | some s =>
            if s.faulted then []
            else if s.waitingResume then callLog sha1 env { s with waitingResume := false } else []
    else []

end Sender

namespace Receiver

def freshLog (r : Receiver) : List Out := if r.totalChunks = 0 then reported else []

def execLog (op : Op) (ok : Bool) (r : Receiver) (d : Disk) : List Out :=
  match op with
  | .loadBitmap =>
    let (bitmap, loaded) := loadInto (if ok then d.read r.bitmapPath else none) r.bitmap
    if loaded then if bitmap.nbits = r.totalChunks then [] else r.freshLog else r.freshLog
  | .openResume => if ok ∧ (d.read r.filepath).isSome then [] else r.freshLog
  | .openPart => if ok ∧ r.filepath ≠ [] then [] else reported
  | .reopen => if ok ∧ (d.read r.filepath).isSome then [] else reported
  | .sendResume => if ok then [.sent (encodeFileResume r.totalChunks r.bitmap.data)] else []
  | .transferring => [.state .transferring]
  | .pwrite _ _ =>
    match r.handle with
    | none => []
    | some _ => if ok then [] else reported
  | .ack status => if ok then [.sent (encodeFileAck status)] else []
  | .fail => reported
  | .finish => [.state .done]
  | _ => []

/-- Of `receiver_on_dc_message` up to the first operation. -/
def messageLog (data : Bytes) : List Out :=
  match data with
  | [] => []
  | type :: payload =>
    if type = msgFileMeta then (if (decodeFileMeta payload).isNone then reported else [])
    else if type = msgFileChunk then (if (decodeChunkHeader payload).isNone then reported else [])
    else if type = msgFileDone then (if (decodeFileDone payload).isNone then reported else [])
    else []

end Receiver

/-! ### A transfer -/

/-- A transfer before it has a role, a sender, a receiver with its disk. -/
inductive Party
  | unset (state : TransferState)
  | sender (s : Sender)
  | receiver (h : Host)

/-- `xTransfer_`: the part of a role, whether there is a channel, and what was made known; `claimed` is the digest of
the last FILE_DONE. -/
structure Xfer where
  party : Party := .unset .idle
  dc : Bool := false
  destroyed : Bool := false
  claimed : Option Digest := none
  log : List Out := []

/-- `xTransferSendFile` of a file, if it can be opened, with whether the connection, the channel and the signalling
client can be made; `xTransferRecvFile` in the same way; the callbacks; the next operation of the receiver; cancel and
destroy.  `other`: the callbacks that only hand something on. -/
inductive Xfer.Input
  | sendFile (f : Option Source) (pc dc signal : Bool)
  | recvFile (dir : Text 511) (d : Disk) (pc signal : Bool)
  | connection (s : ConnectionState)
  | datachannel
  | dcOpen (ok : Bool)
  | message (data : Bytes) (env : Env)
  | timer (env : Env)
  | low (env : Env)
  | op (ok : Bool)
  | peerJoined (created : Bool)
  | offer (created : Bool)
  | signalError
  | other
  | cancel
  | destroy

/-- Without a channel nothing is buffered and nothing is sent. -/
def Env.Fits (dc : Bool) (env : Env) : Prop := dc = true ∨ env.high = false ∧ env.chunk = .error ∧ env.done = false

instance (dc : Bool) (env : Env) : Decidable (env.Fits dc) := inferInstanceAs (Decidable (_ ∨ _))

def Op.sends : Op → Bool
  | .sendResume | .ack _ => true
  | _ => false

namespace Party

def state : Party → TransferState
  | unset s => s
  | sender s => s.state
  | receiver h => h.receiver.state

def setState (state : TransferState) : Party → Party
  | unset _ => unset state
  | sender s => sender { s with state }
  | receiver h => receiver { h with receiver := { h.receiver with state } }

def busy : Party → Bool
  | receiver h => ¬ h.receiver.todo.isEmpty
  | _ => false

def faulted : Party → Bool
  | sender s => s.faulted
  | receiver h => h.receiver.faulted
  | _ => false

def timers : Party → ℕ
  | sender s => s.timers
  | _ => 0

end Party

namespace Xfer

/-- `xTransferGetState`. -/
def state (x : Xfer) : TransferState := x.party.state

/-- Calls of `xfer_set_state` and `xfer_report_error` outside the handlers. -/
def emit (outs : List Out) (x : Xfer) : Xfer :=
  { x with party := x.party.setState (lastState x.state outs), log := x.log ++ outs }

def claim (data : Bytes) (old : Option Digest) : Option Digest :=
  match data with
  | [] => old
  | type :: payload =>
    if type = msgFileDone then (match decodeFileDone payload with | none => old | some m => some m.sha1) else old

/-- `on_pc_state_change`. -/
def onConnection (s : ConnectionState) (x : Xfer) : Xfer :=
  match s with
  | .connecting => x.emit [.state .connecting]
  | .failed => x.emit reported
  | .disconnected | .closed => if x.state.Final then x else x.emit reported
  | .new | .connected => x

/-- `xTransferSendFile`. -/
def sendFile (f : Option Source) (pc dc signal : Bool) (x : Xfer) : Xfer :=
  if x.state ≠ .idle then x
  else
    match f with
    | none => x.emit reported
    | some f =>
      let x := { x with party := .sender { file := f, state := .idle } }
      if pc then { x with dc }.emit (.state .waitingPeer :: if signal then [] else reported) else x.emit reported

/-- `xTransferRecvFile`. -/
def recvFile (dir : Text 511) (d : Disk) (pc signal : Bool) (x : Xfer) : Xfer :=
  if x.state ≠ .idle then x
  else
    let x := { x with party := .receiver ⟨{ destDir := dir, state := .idle }, d⟩ }
    if pc then x.emit (.state .waitingPeer :: if signal then [] else reported) else x.emit reported

def hand (h : Sender → Sender × List Bytes) (log : Sender → List Out) (s : Sender) (x : Xfer) : Xfer :=
  { x with party := .sender (h s).1, log := x.log ++ log s }

/-- `xTransferCancel`. -/
def cancel (x : Xfer) : Xfer := if x.state.Final then x else { x with dc := false }.emit [.state .failed]

/-- A step.  While the receiver is in a handler, only that goes on; nothing happens after a fault or after destroy; a
timer only fires where one is scheduled. -/
def step (sha1 : Bytes → Digest) (x : Xfer) (i : Input) : Option Xfer :=
  if x.destroyed ∨ x.party.faulted then none
  else
    match i with
    | .op ok =>
      match x.party with
      | .receiver h =>
        if ok ∧ ¬ x.dc ∧ h.receiver.todo.head?.any Op.sends then none
        else
          (h.run sha1 ok).map fun y =>
            { x with
              party := .receiver y.1
              log := x.log ++ (h.receiver.todo.head?.map fun op => h.receiver.execLog op ok h.disk).getD [] }
      | _ => none
    | i =>
      if x.party.busy then none
      else
        match i with
        | .sendFile f pc dc signal => some (x.sendFile f pc dc signal)
        | .recvFile dir d pc signal => some (x.recvFile dir d pc signal)
        | .connection s => some (x.onConnection s)
        | .datachannel => some { x with dc := true }
        | .dcOpen ok =>
          match x.party with
          | .sender s => some ({ x with dc := true }.hand (Sender.onOpen ok) (Sender.openLog ok) s)
          | _ => none
        | .message data env =>
          match x.party with
          | .sender s =>
            if env.Fits x.dc then some (x.hand (Sender.onMessage sha1 data env) (Sender.messageLog sha1 data env) s)
            else none
          | .receiver h =>
            (h.deliver data).map fun h' =>
              { x with party := .receiver h', claimed := claim data x.claimed, log := x.log ++ Receiver.messageLog data }
          | .unset _ => none
        | .timer env =>
          match x.party with
          | .sender s =>
            if s.timers ≠ 0 ∧ env.Fits x.dc then some (x.hand (Sender.onTimer sha1 env) (Sender.timerLog sha1 env) s)
            else none
          | _ => none
        | .low env =>
          match x.party with
          | .sender s =>
            if env.Fits x.dc then some (x.hand (Sender.onBufferedAmountLow sha1 env) (Sender.lowLog sha1 env) s) else none
          | _ => none
        | .peerJoined created | .offer created => some (if created then x else x.emit reported)
        | .signalError => some (x.emit reported)
        | .cancel => some x.cancel
        | .destroy => some { x with destroyed := true }
        | .other => some x
        | .op _ => none

end Xfer

/-! ### The state is the last one told -/

namespace Sender

variable {sha1 : Bytes → Digest} {env : Env} {s s' : Sender}

theorem skipLoop_spec (k : ℕ) (s : Sender) : ∃ n b, s.nextChunk ≤ n ∧ skipLoop k s = { s with nextChunk := n, faulted := b } := by
  induction k generalizing s with
  | zero => exact ⟨_, _, le_rfl, rfl⟩
  | succ k ih =>
    unfold skipLoop
    split_ifs
    · cases s.resumeBitmap.test s.nextChunk with
      | none => exact ⟨_, _, le_rfl, rfl⟩
      | some b =>
        cases b with
        | false => exact ⟨_, _, le_rfl, rfl⟩
        | true =>
          obtain ⟨n, b, hn, h⟩ := ih { s with nextChunk := s.nextChunk + 1 }
          exact ⟨n, b, (Nat.le_succ _).trans hn, h⟩
    · exact ⟨_, _, le_rfl, rfl⟩

/-- What `sender_send_next_chunk` comes to once it has skipped, and what it makes known. -/
inductive Calls (sha1 : Bytes → Digest) (env : Env) (s : Sender) : Sender × List Bytes → List Out → Prop
  | faulted : s.faulted = true → Calls sha1 env s (s, []) []
  | ended : s.file.totalChunks ≤ s.nextChunk → env.read = true →
      Calls sha1 env s ({ s with waitingAck := true }, if env.done then [s.file.doneMessage sha1] else [])
        (if env.done then [.sent (s.file.doneMessage sha1)] else [])
  | failed : env.read = false ∨ s.nextChunk < s.file.totalChunks ∧ env.high = false ∧ env.chunk = .error →
      Calls sha1 env s (s.reportError, []) reported
  | paused : s.nextChunk < s.file.totalChunks → env.high = true ∨ env.read = true ∧ env.chunk = .again →
      Calls sha1 env s ({ s with paused := true }, []) []
  | sent : s.nextChunk < s.file.totalChunks → env.read = true → env.chunk = .ok →
      Calls sha1 env s
        ({ s with nextChunk := s.nextChunk + 1, timers := s.timers + 1 }, [s.file.chunkMessage s.nextChunk])
        [.sent (s.file.chunkMessage s.nextChunk)]

theorem calls_sendNextChunk (sha1 : Bytes → Digest) (env : Env) (s : Sender) :
    Calls sha1 env s.skip (sendNextChunk sha1 env s) (callLog sha1 env s) := by
  rw [sendNextChunk, callLog]
  by_cases hfault : s.skip.faulted = true
  · rw [if_pos hfault, if_pos hfault]
    exact .faulted hfault
  rw [if_neg hfault, if_neg hfault]
  by_cases hend : s.skip.file.totalChunks ≤ s.skip.nextChunk
  · rw [if_pos hend, if_pos hend]
    by_cases hread : env.read = true
    · rw [if_pos hread, if_pos hread]
      exact .ended hend hread
    · rw [if_neg hread, if_neg hread]
      exact .failed (.inl (Bool.eq_false_iff.mpr hread))
  rw [if_neg hend, if_neg hend]
  have hlt := Nat.lt_of_not_le hend
  by_cases hhigh : env.high = true
  · rw [if_pos hhigh, if_pos hhigh]
    exact .paused hlt (.inl hhigh)
  rw [if_neg hhigh, if_neg hhigh]
  have hlow := Bool.eq_false_iff.mpr hhigh
  by_cases hread : ¬ env.read = true ∨
    s.skip.file.chunk s.skip.nextChunk = [] ∧ s.skip.nextChunk * defaultChunkSize < s.skip.file.content.length
  · rw [if_pos hread, if_pos hread]
    rcases hread with hread | ⟨hread, -⟩
    · exact .failed (.inl (Bool.eq_false_iff.mpr hread))
    · exact absurd hread (chunk_ne_nil hlt)
  rw [if_neg hread, if_neg hread]
  have hok : env.read = true := by
    by_contra hno
    exact hread (.inl hno)
  cases hchunk : env.chunk with
  | again => exact .paused hlt (.inr ⟨hok, hchunk⟩)
  | error => exact .failed (.inr ⟨hlt, hlow, hchunk⟩)
  | ok => exact .sent hlt hok hchunk

theorem Calls.state {x : Sender × List Bytes} {log : List Out} (h : Calls sha1 env s x log) :
    x.1.state = lastState s.state log := by
  cases h with
  | ended _ _ =>
    split_ifs <;> rfl
  | _ => rfl

theorem state_skip (s : Sender) : s.skip.state = s.state := by
  obtain ⟨n, b, -, h⟩ := skipLoop_spec (s.file.totalChunks - s.nextChunk) s
  rw [skip, h]

theorem state_sendNextChunk (sha1 : Bytes → Digest) (env : Env) (s : Sender) :
    (sendNextChunk sha1 env s).1.state = lastState s.state (s.callLog sha1 env) := by
  rw [(calls_sendNextChunk sha1 env s).state, state_skip]

theorem state_onOpen (ok : Bool) (s : Sender) : (s.onOpen ok).1.state = lastState s.state (s.openLog ok) := by
  unfold onOpen openLog
  cases encodeFileMeta s.file.fileMeta 512 with
  | none => rfl
  | some buf =>
    split_ifs <;> rfl

theorem state_onTimer (sha1 : Bytes → Digest) (env : Env) (s : Sender) :
    (s.onTimer sha1 env).1.state = lastState s.state (s.timerLog sha1 env) := state_sendNextChunk sha1 env _

theorem state_onBufferedAmountLow (sha1 : Bytes → Digest) (env : Env) (s : Sender) :
    (s.onBufferedAmountLow sha1 env).1.state = lastState s.state (s.lowLog sha1 env) := by
  unfold onBufferedAmountLow lowLog
  split_ifs
  · exact state_sendNextChunk sha1 env _
  · rfl

theorem state_takeResume {m : FileResume} (h : s.takeResume m = some s') : s'.state = s.state := by
  unfold takeResume at h
  split_ifs at h
  · obtain rfl := Option.some.inj h
    rfl
  · obtain ⟨bm, -, rfl⟩ := Option.map_eq_some_iff.mp h
    dsimp only
    split_ifs <;> rfl

theorem state_onMessage (sha1 : Bytes → Digest) (data : Bytes) (env : Env) (s : Sender) :
    (s.onMessage sha1 data env).1.state = lastState s.state (s.messageLog sha1 data env) := by
  unfold onMessage messageLog
  cases data with
  | nil => rfl
  | cons type payload =>
    dsimp only
    by_cases hack : type = msgAck
    · rw [if_pos hack, if_pos hack]
      by_cases hwait : ¬ s.waitingAck = true
      · rw [if_pos hwait, if_pos hwait]
        rfl
      rw [if_neg hwait, if_neg hwait]
      cases decodeFileAck payload with
      | none => rfl
      | some status =>
        dsimp only
        split_ifs <;> rfl
    rw [if_neg hack, if_neg hack]
    by_cases hres : type = msgFileResume
    · rw [if_pos hres, if_pos hres]
      cases decodeFileResume payload with
      | none => rfl
      | some m =>
        dsimp only
        by_cases htotal : m.totalChunks ≠ s.file.totalChunks
        · rw [if_pos htotal, if_pos htotal]
          rfl
        rw [if_neg htotal, if_neg htotal]
        cases htake : s.takeResume m with
        | none => rfl
        | some s' =>
          have hstate := state_takeResume htake
          dsimp only
          by_cases hfault : s'.faulted = true
          · rw [if_pos hfault, if_pos hfault]
            exact hstate
          rw [if_neg hfault, if_neg hfault]
          by_cases hwait : s'.waitingResume = true
          · rw [if_pos hwait, if_pos hwait, ← hstate]
            exact state_sendNextChunk sha1 env _
          · rw [if_neg hwait, if_neg hwait]
            exact hstate
    rw [if_neg hres, if_neg hres]
    rfl

end Sender

namespace Receiver

variable {sha1 : Bytes → Digest} {r : Receiver} {d : Disk}

theorem state_startFresh (r : Receiver) : r.startFresh.state = lastState r.state r.freshLog := by
  unfold startFresh freshLog
  cases hinit : Bitmap.init r.totalChunks with
  | none =>
    unfold Bitmap.init at hinit
    split_ifs at hinit with hzero
    rw [if_pos hzero]
    rfl
  | some bm =>
    unfold Bitmap.init at hinit
    split_ifs at hinit with hzero
    rw [if_neg hzero]
    rfl

theorem state_mark (i len : ℕ) (r : Receiver) : (r.mark i len).state = r.state := by
  unfold mark
  cases r.bitmap.set i <;> rfl

theorem state_exec (sha1 : Bytes → Digest) (op : Op) (ok : Bool) (r : Receiver) (d : Disk) :
    (exec sha1 op ok r d).1.state = lastState r.state (r.execLog op ok d) := by
  unfold exec execLog
  cases op with
  | loadBitmap =>
    dsimp only
    generalize loadInto (if ok = true then d.read r.bitmapPath else none) r.bitmap = x
    split_ifs
    · rfl
    · exact state_startFresh { r with bitmap := {} }
    · exact state_startFresh { r with bitmap := x.1 }
  | openResume =>
    dsimp only
    split_ifs
    · cases r.bitmap.count <;> rfl
    · exact state_startFresh { r with handle := none, bitmap := {} }
  | truncate =>
    cases d r.filepath <;> rfl
  | pwrite i data =>
    cases r.handle with
    | none => exact state_mark i data.length r
    | some x =>
      dsimp only
      split_ifs
      · exact state_mark i data.length _
      · rfl
  | flush =>
    cases r.handle with
    | none => rfl
    | some x =>
      split_ifs <;> rfl
  | close =>
    cases r.handle <;> rfl
  | verify digest =>
    dsimp only
    generalize (if ok = true then d.read r.filepath else none).map sha1 = x
    split_ifs <;> rfl
  | rename =>
    cases (if ok = true then d.read r.filepath else none) <;> rfl
  | transferring | saveBody | fail | remove | finish => rfl
  | _ => split_ifs <;> rfl

theorem state_onMessage (data : Bytes) (r : Receiver) :
    (r.onMessage data).state = lastState r.state (messageLog data) := by
  unfold onMessage messageLog
  cases data with
  | nil => rfl
  | cons type payload =>
    dsimp only
    by_cases h1 : type = msgFileMeta
    · rw [if_pos h1, if_pos h1]
      cases decodeFileMeta payload with
      | none => rfl
      | some m =>
        dsimp only
        by_cases hzero : m.chunkSize = 0
        · rw [if_pos hzero]
          rfl
        · rw [if_neg hzero]
          rfl
    rw [if_neg h1, if_neg h1]
    by_cases h2 : type = msgFileChunk
    · rw [if_pos h2, if_pos h2]
      cases decodeChunkHeader payload with
      | none => rfl
      | some x =>
        dsimp only
        cases r.bitmap.test x.1 with
        | none => rfl
        | some b => cases b <;> rfl
    rw [if_neg h2, if_neg h2]
    by_cases h3 : type = msgFileDone
    · rw [if_pos h3, if_pos h3]
      cases decodeFileDone payload <;> rfl
    rw [if_neg h3, if_neg h3]
    rfl

end Receiver

end Libx.Fer
