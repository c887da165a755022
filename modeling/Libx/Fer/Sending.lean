import Libx.Fer.Count
import Libx.Fer.Owed

/-!
# Libx.Fer.Sending — all that is missing is sent, and nothing else

xfer_sender.c once more, with the channel it sends on, of datachannel.c, and the bytes that are read.
-/

namespace Libx.Fer

open Libx.Agent (Bytes)
open Libx.Core (Run exists_run_of_replay replay)
open List Option

/-- `XFER_SEND_HIGH_WATER_MARK`. -/
def highWaterMark : ℕ := 262144

/-- `XFER_SEND_LOW_WATER_MARK`. -/
def lowWaterMark : ℕ := 65536

/-- `xDataChannel_`, what sending needs of it; `isOpen` tells whether its state is Open. -/
structure Channel where
  isOpen : Bool := false
  bufferedAmount : ℕ := 0
  lowThreshold : ℕ := 0

/-- `xDataChannelSendBinary`; `sctp` is what `xSctpTransportSend` returns. -/
def Channel.sendBinary (sctp : SendResult) (data : Bytes) (ch : Channel) : SendResult × Channel :=
  if ch.isOpen then
    (sctp, if sctp = .ok then { ch with bufferedAmount := ch.bufferedAmount + data.length } else ch)
  else (.error, ch)

/-- What a call of `sender_send_next_chunk` meets: how much `pread` reads of the chunk, or that it fails; whether the
digest of the file can be computed; and what `xSctpTransportSend` returns. -/
structure Call where
  nread : Option ℕ
  digest : Bool
  sctp : SendResult

/-- The sender and the channel; then the FILE_RESUME that started the loop, whether `xfer_report_error` was called, and
the messages that went out. -/
structure Sending where
  sender : Sender
  dc : Channel := {}
  resume : Option FileResume := none
  failed : Bool := false
  sent : List Bytes := []

namespace Sending

/-- `xfer_report_error`. -/
def reportError (s : Sending) : Sending := { s with sender := s.sender.reportError, failed := true }

def send (sctp : SendResult) (data : Bytes) (s : Sending) : SendResult × Sending :=
  let r := s.dc.sendBinary sctp data
  (r.1, { s with dc := r.2, sent := if r.1 = .ok then s.sent ++ [data] else s.sent })

def pause (s : Sending) : Sending :=
  { s with sender := { s.sender with paused := true }, dc := { s.dc with lowThreshold := lowWaterMark } }

/-- `sender_send_next_chunk` behind the last chunk. -/
def sendDone (sha1 : Bytes → Digest) (c : Call) (s : Sending) : Sending :=
  if c.digest then
    let s := (s.send c.sctp (s.sender.file.doneMessage sha1)).2
    { s with sender := { s.sender with waitingAck := true } }
  else s.reportError

/-- `sender_send_next_chunk`, the chunk. -/
def sendChunk (c : Call) (s : Sending) : Sending :=
  match c.nread with
  | none => s.reportError
  | some n =>
    let data := (s.sender.file.chunk s.sender.nextChunk).take n
    if data = [] ∧ s.sender.nextChunk * defaultChunkSize < s.sender.file.content.length then s.reportError
    else
      match s.send c.sctp (encodeChunkHeader s.sender.nextChunk ++ data) with
      | (.ok, s) => { s with sender := { s.sender with nextChunk := s.sender.nextChunk + 1, timers := s.sender.timers + 1 } }
      | (.again, s) => s.pause
      | (.error, s) => s.reportError

/-- `sender_send_next_chunk`. -/
def sendNextChunk (sha1 : Bytes → Digest) (c : Call) (s : Sending) : Sending :=
  let s := { s with sender := s.sender.skip }
  if s.sender.faulted then s
  else if s.sender.file.totalChunks ≤ s.sender.nextChunk then s.sendDone sha1 c
  else if highWaterMark < s.dc.bufferedAmount then s.pause
  else s.sendChunk c

/-- `sender_on_dc_open`, on a new channel. -/
def onOpen (sctp : SendResult) (s : Sending) : Sending :=
  let s := { s with dc := { isOpen := true }, sender := { s.sender with state := .transferring } }
  match encodeFileMeta s.sender.file.fileMeta 512 with
  | none => s.reportError
  | some buf =>
    let s := (s.send sctp buf).2
    { s with sender := { s.sender with waitingResume := true } }

/-- `sender_schedule_next`. -/
def onTimer (sha1 : Bytes → Digest) (c : Call) (s : Sending) : Sending :=
  sendNextChunk sha1 c { s with sender := { s.sender with timers := s.sender.timers - 1 } }

/-- `xDataChannelMgrOnBufferedAmountLow` and `sender_on_buffered_amount_low`, for an open channel. -/
def onBufferedAmountLow (sha1 : Bytes → Digest) (c : Call) (s : Sending) : Sending :=
  let s := { s with dc := { s.dc with bufferedAmount := 0 } }
  if s.sender.paused then sendNextChunk sha1 c { s with sender := { s.sender with paused := false } } else s

def onAck (payload : Bytes) (s : Sending) : Sending :=
  if s.sender.waitingAck then
    let s := { s with sender := { s.sender with waitingAck := false } }
    match decodeFileAck payload with
    | none => s.reportError
    | some status => if status = 0 then { s with sender := { s.sender with state := .done } } else s.reportError
  else s

def onResume (sha1 : Bytes → Digest) (payload : Bytes) (c : Call) (s : Sending) : Sending :=
  match decodeFileResume payload with
  | none => s.reportError
  | some m =>
    if m.totalChunks ≠ s.sender.file.totalChunks then s.reportError
    else
      match s.sender.takeResume m with
      | none => s.reportError
      | some sender =>
        if sender.faulted then { s with sender }
        else if sender.waitingResume then
          sendNextChunk sha1 c { s with sender := { sender with waitingResume := false }, resume := some m }
        else { s with sender }

/-- `sender_on_dc_message`. -/
def onMessage (sha1 : Bytes → Digest) (data : Bytes) (c : Call) (s : Sending) : Sending :=
  match data with
  | [] => s
  | type :: payload =>
    if type = msgAck then s.onAck payload
    else if type = msgFileResume then s.onResume sha1 payload c
    else s

/-- A call: the channel opens or closes, brings a message or has drained; the timer fires; the connection or the
signalling fails. -/
inductive Event
  | opened (sctp : SendResult)
  | closed
  | message (data : Bytes) (c : Call)
  | low (c : Call)
  | timer (c : Call)
  | failed

/-- A step; a channel that is not open brings nothing. -/
def step (sha1 : Bytes → Digest) (s : Sending) : Event → Option Sending
  | .opened sctp => some (s.onOpen sctp)
  | .closed => some { s with dc := { s.dc with isOpen := false } }
  | .message data c => if s.dc.isOpen then some (s.onMessage sha1 data c) else none
  | .low c => if s.dc.isOpen then some (s.onBufferedAmountLow sha1 c) else none
  | .timer c => if s.sender.timers = 0 then none else some (s.onTimer sha1 c)
  | .failed => some s.reportError

/-- Behind `xTransferSendFile`. -/
def start (f : Source) : Sending := { sender := { file := f } }

end Sending

/-! ### What is to go out -/

/-- The bits of a FILE_RESUME; one beyond what it carries is clear. -/
def FileResume.bits (m : FileResume) : Bitmap := ⟨m.totalChunks, m.bitmap.take m.bitmapLen⟩

namespace Source

def chunks (f : Source) : ℕ := (f.content.length + defaultChunkSize - 1) / defaultChunkSize

def metaMessage (f : Source) : Bytes := (encodeFileMeta f.fileMeta 512).getD []

/-- FILE_META, a FILE_CHUNK for each chunk whose bit is clear, and FILE_DONE. -/
def messages (sha1 : Bytes → Digest) (m : FileResume) (f : Source) : List Bytes :=
  f.metaMessage :: f.remaining sha1 ((List.range f.chunks).filter fun i => ¬ m.bits.Has i)

end Source

/-- **Exactly what is missing is sent**: before the FILE_RESUME no more than FILE_META, from then on the messages in
order; while chunks remain and no error was reported, a timer or the pause, and not both, drives the loop; and where
nothing drives it any more, all has gone out. -/
structure Sending.Exact (sha1 : Bytes → Digest) (s : Sending) : Prop where
  asked : s.resume = none → s.sent <+: [s.sender.file.metaMessage]
  order : ∀ m ∈ s.resume, s.sent <+: s.sender.file.messages sha1 m
  driven : ∀ m ∈ s.resume, s.failed = false →
    (∃ i, s.sender.nextChunk ≤ i ∧ i < s.sender.file.chunks ∧ ¬ m.bits.Has i) →
    s.sender.timers = 1 ∧ s.sender.paused = false ∨ s.sender.timers = 0 ∧ s.sender.paused = true
  finished : ∀ m ∈ s.resume, s.failed = false → s.sender.timers = 0 → s.sender.paused = false →
    s.sent = s.sender.file.messages sha1 m

namespace Sending

/-- Of a call of `sender_send_next_chunk`: a chunk that goes out was read whole, and FILE_DONE goes out. -/
def CleanCall (m : FileResume) (c : Call) (f : Source) (nextChunk : ℕ) (dc : Channel) : Prop :=
  let owed := f.owed m.bits nextChunk
  (owed = [] → c.digest = true → dc.isOpen = true ∧ c.sctp = .ok) ∧
    ∀ i ∈ owed.head?, dc.bufferedAmount ≤ highWaterMark → dc.isOpen = true → c.sctp = .ok →
      ∀ n ∈ c.nread, n = 0 ∨ (f.chunk i).length ≤ n

/-- Of a FILE_RESUME that is taken: its bitmap is in the message and can be copied; the one that starts the loop has
its call, and another one says of the chunks to come what that one said. -/
def CleanResume (m : FileResume) (c : Call) (s : Sending) : Prop :=
  (m.bitmapLen = 0 ∨ m.bitmapLen ≤ m.bitmap.length ∧ m.totalChunks + 7 < 4294967296) ∧
  if s.sender.waitingResume then CleanCall m c s.sender.file s.sender.nextChunk s.dc
  else m.bitmapLen ≠ 0 → ∀ m₀ ∈ s.resume, ∀ i, s.sender.nextChunk ≤ i → (m.bits.Has i ↔ m₀.bits.Has i)

/-- What is asked of a step: the channel opens once and takes FILE_META, of a file with fewer than 2³² chunks. -/
def Clean (s : Sending) : Event → Prop
  | .opened sctp => s.sent = [] ∧ s.resume = none ∧ sctp = .ok ∧ s.sender.file.chunks < 4294967296
  | .message data c => ∀ payload m, data = msgFileResume :: payload → decodeFileResume payload = some m →
      m.totalChunks = s.sender.file.totalChunks → s.CleanResume m c
  | .low c => s.sender.paused = true → ∀ m ∈ s.resume, CleanCall m c s.sender.file s.sender.nextChunk { s.dc with bufferedAmount := 0 }
  | .timer c => ∀ m ∈ s.resume, CleanCall m c s.sender.file s.sender.nextChunk s.dc
  | .closed | .failed => True

/-! ### What the sender knows -/

/-- The sender knows which of the chunks to come are missing. -/
def Knows (m : FileResume) (s : Sender) : Prop :=
  ∀ i, s.nextChunk ≤ i → i < s.file.totalChunks →
    if s.hasResume then s.resumeBitmap.test i = some (decide (m.bits.Has i)) else ¬ m.bits.Has i

variable {sha1 : Bytes → Digest} {m : FileResume} {c : Call}

theorem skipLoop_knows {s : Sender} (h : Knows m s) {n : ℕ} (hn : s.file.totalChunks - s.nextChunk ≤ n) :
    ∃ k, s.nextChunk ≤ k ∧ Sender.skipLoop n s = { s with nextChunk := k } ∧
      s.file.owed m.bits s.nextChunk = s.file.owed m.bits k ∧
      (s.file.totalChunks ≤ k ∨ k < s.file.totalChunks ∧ ¬ m.bits.Has k) := by
  induction n generalizing s with
  | zero => exact ⟨_, le_rfl, rfl, rfl, .inl (by omega)⟩
  | succ n ih =>
    unfold Sender.skipLoop
    by_cases hlt : s.nextChunk < s.file.totalChunks
    · have hknows := h s.nextChunk le_rfl hlt
      by_cases hres : s.hasResume = true
      · rw [if_pos hres] at hknows
        rw [if_pos ⟨hlt, hres⟩, hknows]
        by_cases hhas : m.bits.Has s.nextChunk
        · rw [decide_eq_true hhas]
          obtain ⟨k, hk, hskip, howed, hend⟩ := @ih { s with nextChunk := s.nextChunk + 1 }
            (fun i hi => h i (Nat.le_of_succ_le hi)) (by dsimp only; omega)
          exact ⟨k, Nat.le_of_succ_le hk, hskip, (owed_of_has hhas).trans howed, hend⟩
        · rw [decide_eq_false hhas]
          exact ⟨_, le_rfl, rfl, rfl, .inr ⟨hlt, hhas⟩⟩
      · rw [if_neg hres] at hknows
        rw [if_neg fun hand => hres hand.2]
        exact ⟨_, le_rfl, rfl, rfl, .inr ⟨hlt, hknows⟩⟩
    · rw [if_neg fun hand => hlt hand.1]
      exact ⟨_, le_rfl, rfl, rfl, .inl (Nat.le_of_not_lt hlt)⟩

theorem skip_knows {s : Sender} (h : Knows m s) :
    ∃ k, s.nextChunk ≤ k ∧ s.skip = { s with nextChunk := k } ∧ s.file.owed m.bits s.nextChunk = s.file.owed m.bits k ∧
      (s.file.totalChunks ≤ k ∨ k < s.file.totalChunks ∧ ¬ m.bits.Has k) :=
  skipLoop_knows h le_rfl

/-! ### The phases -/

/-- The loop has been started: what is still to go out follows what has gone out. -/
structure Going (sha1 : Bytes → Digest) (m : FileResume) (s : Sending) : Prop where
  resume : s.resume = some m
  few : s.sender.file.chunks < 4294967296
  sound : s.sender.faulted = false
  waiting : s.sender.waitingResume = false
  knows : Knows m s.sender
  sent : s.sent ++ s.sender.file.remaining sha1 (s.sender.file.owed m.bits s.sender.nextChunk) =
    s.sender.file.messages sha1 m

/-- One thing drives the loop, or an error has ended it. -/
def Driven (s : Sending) : Prop :=
  s.sender.timers = 1 ∧ s.sender.paused = false ∨ s.sender.timers = 0 ∧ (s.sender.paused = true ∨ s.failed = true)

/-- Nothing has started the loop. -/
structure Idle (s : Sending) : Prop where
  resume : s.resume = none
  sound : s.sender.faulted = false
  timers : s.sender.timers = 0
  paused : s.sender.paused = false
  nextChunk : s.sender.nextChunk = 0
  hasResume : s.sender.hasResume = false

/-- Before the channel opens, before the FILE_RESUME, in the loop, and behind it. -/
inductive Phase (sha1 : Bytes → Digest) (s : Sending) : Prop
  | fresh : s.Idle → s.sent = [] → s.dc.isOpen = false → s.sender.waitingResume = false → Phase sha1 s
  | asking : s.Idle → s.sent = [s.sender.file.metaMessage] → s.sender.file.chunks < 4294967296 →
      s.sender.waitingResume = true → Phase sha1 s
  | going (m : FileResume) : s.Going sha1 m → s.Driven → Phase sha1 s
  | finished (m : FileResume) : s.resume = some m → s.sent = s.sender.file.messages sha1 m → s.sender.faulted = false →
      s.sender.waitingResume = false → s.sender.timers = 0 → s.sender.paused = false →
      s.sender.file.chunks ≤ s.sender.nextChunk → Phase sha1 s

theorem totalChunks_eq {f : Source} (h : f.chunks < 4294967296) : f.totalChunks = f.chunks := by
  have hsmall := f.small
  unfold Source.totalChunks chunkCount Source.chunks at *
  rw [Nat.mod_eq_of_lt (a := f.content.length + defaultChunkSize - 1) (by unfold defaultChunkSize; omega),
    Nat.mod_eq_of_lt h]

theorem offset_lt {f : Source} {k : ℕ} (h : k < f.chunks) : k * defaultChunkSize < f.content.length := by
  have hle := (Nat.le_div_iff_mul_le (by decide : 0 < defaultChunkSize)).1 (Nat.succ_le_of_lt h)
  unfold defaultChunkSize at *
  omega

/-! ### One call -/

variable {s : Sending}

theorem Going.reportError (h : s.Going sha1 m) : s.reportError.Going sha1 m :=
  ⟨h.resume, h.few, h.sound, h.waiting, h.knows, h.sent⟩

theorem Going.pause (h : s.Going sha1 m) : s.pause.Going sha1 m :=
  ⟨h.resume, h.few, h.sound, h.waiting, h.knows, h.sent⟩

theorem phase_reportError_going (h : s.Going sha1 m) (htimers : s.sender.timers = 0) : s.reportError.Phase sha1 :=
  .going m h.reportError (.inr ⟨htimers, .inr rfl⟩)

theorem phase_pause (h : s.Going sha1 m) (htimers : s.sender.timers = 0) : s.pause.Phase sha1 :=
  .going m h.pause (.inr ⟨htimers, .inl rfl⟩)

theorem send_ok (data : Bytes) (hopen : s.dc.isOpen = true) : s.send .ok data =
    (.ok, { s with
      dc := { s.dc with bufferedAmount := s.dc.bufferedAmount + data.length }, sent := s.sent ++ [data] }) := by
  unfold send Channel.sendBinary
  rw [if_pos hopen]
  rfl

theorem send_ne_ok {sctp : SendResult} (data : Bytes) (h : ¬(s.dc.isOpen = true ∧ sctp = .ok)) :
    ∃ r, r ≠ .ok ∧ s.send sctp data = (r, s) := by
  unfold send Channel.sendBinary
  by_cases hopen : s.dc.isOpen = true
  · rw [if_pos hopen]
    have hne : sctp ≠ .ok := fun hok => h ⟨hopen, hok⟩
    refine ⟨sctp, hne, ?_⟩
    dsimp only
    rw [if_neg hne, if_neg hne]
  · rw [if_neg hopen]
    exact ⟨.error, nofun, rfl⟩

theorem phase_sendDone (h : s.Going sha1 m) (htimers : s.sender.timers = 0) (hpaused : s.sender.paused = false)
    (hend : s.sender.file.totalChunks ≤ s.sender.nextChunk)
    (hclean : c.digest = true → s.dc.isOpen = true ∧ c.sctp = .ok) : (s.sendDone sha1 c).Phase sha1 := by
  unfold sendDone
  by_cases hdigest : c.digest = true
  · obtain ⟨hopen, hok⟩ := hclean hdigest
    rw [if_pos hdigest, hok, send_ok _ hopen]
    have hsent := h.sent
    rw [owed_of_le hend] at hsent
    exact .finished m h.resume hsent h.sound h.waiting htimers hpaused (totalChunks_eq h.few ▸ hend)
  · rw [if_neg hdigest]
    exact phase_reportError_going h htimers

theorem phase_sendChunk (h : s.Going sha1 m) (htimers : s.sender.timers = 0) (hpaused : s.sender.paused = false)
    (hlt : s.sender.nextChunk < s.sender.file.totalChunks) (hnot : ¬ m.bits.Has s.sender.nextChunk)
    (hclean : s.dc.isOpen = true → c.sctp = .ok →
      ∀ n ∈ c.nread, n = 0 ∨ (s.sender.file.chunk s.sender.nextChunk).length ≤ n) : (s.sendChunk c).Phase sha1 := by
  unfold sendChunk
  cases hread : c.nread with
  | none => exact phase_reportError_going h htimers
  | some n =>
    dsimp only
    have hoff := offset_lt (totalChunks_eq h.few ▸ hlt)
    by_cases hempty : (s.sender.file.chunk s.sender.nextChunk).take n = [] ∧
        s.sender.nextChunk * defaultChunkSize < s.sender.file.content.length
    · rw [if_pos hempty]
      exact phase_reportError_going h htimers
    rw [if_neg hempty]
    by_cases hgo : s.dc.isOpen = true ∧ c.sctp = .ok
    · obtain ⟨hopen, hok⟩ := hgo
      have hwhole : (s.sender.file.chunk s.sender.nextChunk).take n = s.sender.file.chunk s.sender.nextChunk := by
        obtain rfl | hle := hclean hopen hok n hread
        · exact absurd ⟨take_zero, hoff⟩ hempty
        · exact take_of_length_le hle
      rw [hwhole, hok, send_ok _ hopen]
      refine .going m ⟨h.resume, h.few, h.sound, h.waiting, fun i hi => h.knows i (Nat.le_of_succ_le hi), ?_⟩ (.inl ⟨?_, hpaused⟩)
      · have hsent := h.sent
        rw [owed_of_not_has hlt hnot, Source.remaining_cons, ← append_assoc] at hsent
        exact hsent
      · dsimp only
        rw [htimers]
    · obtain ⟨r, hr, hsend⟩ := send_ne_ok (encodeChunkHeader s.sender.nextChunk ++
        (s.sender.file.chunk s.sender.nextChunk).take n) hgo
      rw [hsend]
      cases r with
      | ok => exact absurd rfl hr
      | again => exact phase_pause h htimers
      | error => exact phase_reportError_going h htimers

theorem Going.skipped (h : s.Going sha1 m) {k : ℕ} (hk : s.sender.nextChunk ≤ k)
    (howed : s.sender.file.owed m.bits s.sender.nextChunk = s.sender.file.owed m.bits k) :
    ({ s with sender := { s.sender with nextChunk := k } } : Sending).Going sha1 m := by
  refine ⟨h.resume, h.few, h.sound, h.waiting, fun i hi => h.knows i (hk.trans hi), ?_⟩
  have hsent := h.sent
  rw [howed] at hsent
  exact hsent

theorem sendNextChunk_of_skip {x : Sender} (h : s.sender.skip = x) : s.sendNextChunk sha1 c =
    if x.faulted then { s with sender := x }
    else if x.file.totalChunks ≤ x.nextChunk then sendDone sha1 c { s with sender := x }
    else if highWaterMark < s.dc.bufferedAmount then pause { s with sender := x }
    else sendChunk c { s with sender := x } := by
  subst h
  rfl

/-- **A call of `sender_send_next_chunk`.** -/
theorem phase_sendNextChunk (h : s.Going sha1 m) (htimers : s.sender.timers = 0) (hpaused : s.sender.paused = false)
    (hclean : CleanCall m c s.sender.file s.sender.nextChunk s.dc) : (s.sendNextChunk sha1 c).Phase sha1 := by
  obtain ⟨k, hk, hskip, howed, hend⟩ := skip_knows h.knows
  obtain ⟨hdone, hchunk⟩ := hclean
  rw [howed] at hdone hchunk
  have hgoing := h.skipped hk howed
  rw [sendNextChunk_of_skip hskip]
  rw [if_neg (Bool.eq_false_iff.1 h.sound)]
  by_cases hle : s.sender.file.totalChunks ≤ k
  · rw [if_pos hle]
    exact phase_sendDone hgoing htimers hpaused hle (hdone (owed_of_le hle))
  · rw [if_neg hle]
    obtain ⟨hlt, hnot⟩ := hend.resolve_left hle
    rw [owed_of_not_has hlt hnot] at hchunk
    by_cases hhigh : highWaterMark < s.dc.bufferedAmount
    · rw [if_pos hhigh]
      exact phase_pause hgoing htimers
    · rw [if_neg hhigh]
      exact phase_sendChunk hgoing htimers hpaused hlt hnot (hchunk k rfl (Nat.le_of_not_lt hhigh))

/-! ### A FILE_RESUME -/

theorem test_copied (hlen : m.bitmapLen ≤ m.bitmap.length) (hsmall : m.totalChunks + 7 < 4294967296) {i : ℕ}
    (hi : i < m.totalChunks) :
    let zeros := List.replicate (bitsToBytes m.totalChunks) (0 : UInt8)
    let copyLen := min m.bitmapLen zeros.length
    Bitmap.test i ⟨m.totalChunks, m.bitmap.take copyLen ++ zeros.drop copyLen⟩ = some (decide (m.bits.Has i)) := by
  intro zeros copyLen
  have hzeros : zeros.length = (m.totalChunks + 7) / 8 := by
    rw [length_replicate, bitsToBytes, Nat.mod_eq_of_lt hsmall]
  have hfits : Bitmap.Fits ⟨m.totalChunks, m.bitmap.take copyLen ++ zeros.drop copyLen⟩ := by
    unfold Bitmap.Fits
    dsimp only
    rw [length_append, length_take, length_drop, hzeros]
    omega
  have hbit : bitAt (m.bitmap.take copyLen ++ zeros.drop copyLen) i = bitAt (m.bitmap.take m.bitmapLen) i := by
    unfold bitAt
    congr 2
    by_cases hlt : i / 8 < copyLen
    · rw [getD_append _ _ _ _ (by rw [length_take]; omega)]
      simp only [getD_eq_getElem?_getD, List.getElem?_take]
      rw [if_pos hlt, if_pos (by omega)]
    · rw [getD_append_right _ _ _ _ (by rw [length_take]; omega)]
      simp only [getD_eq_getElem?_getD, List.getElem?_take, List.getElem?_drop]
      rw [if_neg (by omega), getD_none, List.getElem?_replicate]
      split_ifs <;> rfl
  obtain ⟨bit, htest⟩ := Bitmap.test_of_fits (i := i) hfits
  have hhas : Bitmap.Has i ⟨m.totalChunks, m.bitmap.take copyLen ++ zeros.drop copyLen⟩ ↔ m.bits.Has i := by
    rw [Bitmap.has_iff_bitAt, Bitmap.has_iff_bitAt]
    exact and_congr_right fun _ => by rw [hbit]; rfl
  have hiff : m.bits.Has i ↔ bit = true := by rw [← hhas, Bitmap.Has, htest, some.injEq]
  rw [htest]
  cases bit with
  | true => rw [decide_eq_true (hiff.2 rfl)]
  | false => rw [decide_eq_false fun hyes => Bool.false_ne_true (hiff.1 hyes)]

/-- What a FILE_RESUME leaves of the sender, and that it knows the bits if it did or the message has none. -/
theorem takeResume_spec {x x' : Sender} (h : x.takeResume m = some x') (htotal : m.totalChunks = x.file.totalChunks)
    (hvalid : m.bitmapLen = 0 ∨ m.bitmapLen ≤ m.bitmap.length ∧ m.totalChunks + 7 < 4294967296) :
    ∃ (bm : Bitmap) (has : Bool), x' = { x with resumeBitmap := bm, hasResume := has } ∧
      (m.bitmapLen = 0 → bm = x.resumeBitmap ∧ has = x.hasResume) ∧ (m.bitmapLen ≠ 0 → Knows m x') := by
  unfold Sender.takeResume at h
  by_cases hzero : m.bitmapLen = 0
  · rw [if_pos hzero] at h
    obtain rfl := some.inj h
    exact ⟨x.resumeBitmap, x.hasResume, rfl, fun _ => ⟨rfl, rfl⟩, fun hne => absurd hzero hne⟩
  · rw [if_neg hzero] at h
    obtain ⟨hlen, hsmall⟩ := hvalid.resolve_left hzero
    obtain ⟨bm, hinit, rfl⟩ := map_eq_some_iff.1 h
    unfold Bitmap.init at hinit
    split_ifs at hinit
    obtain rfl := some.inj hinit
    rw [if_neg (by omega)]
    refine ⟨_, true, rfl, fun hz => absurd hz hzero, fun _ i _ hi => ?_⟩
    rw [if_pos rfl]
    exact test_copied hlen hsmall (htotal ▸ hi)

theorem Knows.congr {m₀ : FileResume} {x : Sender} (h : Knows m x)
    (heq : ∀ i, x.nextChunk ≤ i → (m.bits.Has i ↔ m₀.bits.Has i)) : Knows m₀ x := by
  intro i hi hlt
  have hi' := h i hi hlt
  split_ifs at hi' ⊢ with hres
  · rw [hi', decide_eq_decide.2 (heq i hi)]
  · exact fun hhas => hi' ((heq i hi).2 hhas)

theorem owed_zero {f : Source} (hfew : f.chunks < 4294967296) :
    f.owed m.bits 0 = (List.range f.chunks).filter fun i => ¬ m.bits.Has i := by
  unfold Source.owed
  rw [totalChunks_eq hfew, Nat.sub_zero, range_eq_range']

/-! ### The steps -/

theorem Idle.reportError (h : s.Idle) : s.reportError.Idle :=
  ⟨h.resume, h.sound, h.timers, h.paused, h.nextChunk, h.hasResume⟩

theorem phase_reportError (h : s.Phase sha1) : s.reportError.Phase sha1 := by
  cases h with
  | fresh hidle hsent hdc hw => exact .fresh hidle.reportError hsent hdc hw
  | asking hidle hsent hfew hw => exact .asking hidle.reportError hsent hfew hw
  | going m hgoing hdriven =>
    refine .going m hgoing.reportError ?_
    obtain ⟨ht, hp⟩ | ⟨ht, -⟩ := hdriven
    · exact .inl ⟨ht, hp⟩
    · exact .inr ⟨ht, .inr rfl⟩
  | finished m hres hsent hsound hw ht hp hend => exact .finished m hres hsent hsound hw ht hp hend

theorem phase_onOpen {sctp : SendResult} (h : s.Phase sha1) (hclean : s.Clean (.opened sctp)) :
    (s.onOpen sctp).Phase sha1 := by
  obtain ⟨hsent, hres, rfl, hfew⟩ := hclean
  cases h with
  | fresh hidle _ _ hw =>
    unfold onOpen
    dsimp only
    have hmeta : encodeFileMeta s.sender.file.fileMeta 512 = some s.sender.file.metaMessage := by
      obtain ⟨data, hdata⟩ := encodeFileMeta_isSome s.sender.file
      rw [Source.metaMessage, hdata, getD_some]
    rw [hmeta]
    dsimp only
    rw [send_ok _ rfl]
    exact .asking ⟨hidle.resume, hidle.sound, hidle.timers, hidle.paused, hidle.nextChunk, hidle.hasResume⟩
      (by dsimp only; rw [hsent]; rfl) hfew rfl
  | asking hidle hsent' _ _ =>
    rw [hsent] at hsent'
    cases hsent'
  | going m hgoing hdriven =>
    rw [hgoing.resume] at hres
    cases hres
  | finished m hres' _ _ _ _ _ _ =>
    rw [hres] at hres'
    cases hres'

/-- The loop is only ever driven by one thing: when the timer fires or the pause ends, nothing else is left. -/
theorem phase_onTimer (h : s.Phase sha1) (htimers : s.sender.timers ≠ 0) (hclean : s.Clean (.timer c)) :
    (s.onTimer sha1 c).Phase sha1 := by
  cases h with
  | fresh hidle _ _ _ | asking hidle _ _ _ => exact absurd hidle.timers htimers
  | going m hgoing hdriven =>
    obtain ⟨ht, hp⟩ | ⟨ht, -⟩ := hdriven
    · refine phase_sendNextChunk (m := m) ⟨hgoing.resume, hgoing.few, hgoing.sound, hgoing.waiting, hgoing.knows, hgoing.sent⟩
        ?_ hp (hclean m hgoing.resume)
      rw [ht]
    · exact absurd ht htimers
  | finished m _ _ _ _ ht _ _ => exact absurd ht htimers

theorem phase_onBufferedAmountLow (h : s.Phase sha1) (hclean : s.Clean (.low c)) :
    (s.onBufferedAmountLow sha1 c).Phase sha1 := by
  unfold onBufferedAmountLow
  cases h with
  | fresh hidle hsent hdc hw =>
    rw [if_neg (Bool.eq_false_iff.1 hidle.paused)]
    exact .fresh ⟨hidle.resume, hidle.sound, hidle.timers, hidle.paused, hidle.nextChunk, hidle.hasResume⟩ hsent hdc hw
  | asking hidle hsent hfew hw =>
    rw [if_neg (Bool.eq_false_iff.1 hidle.paused)]
    exact .asking ⟨hidle.resume, hidle.sound, hidle.timers, hidle.paused, hidle.nextChunk, hidle.hasResume⟩ hsent hfew hw
  | going m hgoing hdriven =>
    have hgoing' : ∀ (dc : Channel) (p : Bool), Going sha1 m { s with dc, sender := { s.sender with paused := p } } :=
      fun _ _ => ⟨hgoing.resume, hgoing.few, hgoing.sound, hgoing.waiting, hgoing.knows, hgoing.sent⟩
    by_cases hpaused : s.sender.paused = true
    · rw [if_pos hpaused]
      obtain ⟨-, hp⟩ | ⟨ht, -⟩ := hdriven
      · rw [hp] at hpaused
        cases hpaused
      · exact phase_sendNextChunk (hgoing' _ false) ht rfl (hclean hpaused m hgoing.resume)
    · rw [if_neg hpaused]
      exact .going m (hgoing' _ s.sender.paused) hdriven
  | finished m hres hsent hsound hw ht hp hend =>
    rw [if_neg (Bool.eq_false_iff.1 hp)]
    exact .finished m hres hsent hsound hw ht hp hend

theorem phase_onAck (payload : Bytes) (h : s.Phase sha1) : (s.onAck payload).Phase sha1 := by
  have hset : ∀ (ack : Bool) (state : TransferState),
      Phase sha1 { s with sender := { s.sender with waitingAck := ack, state } } := fun ack state => by
    cases h with
    | fresh hidle hsent hdc hw =>
      exact .fresh ⟨hidle.resume, hidle.sound, hidle.timers, hidle.paused, hidle.nextChunk, hidle.hasResume⟩ hsent hdc hw
    | asking hidle hsent hfew hw =>
      exact .asking ⟨hidle.resume, hidle.sound, hidle.timers, hidle.paused, hidle.nextChunk, hidle.hasResume⟩ hsent hfew hw
    | going m hgoing hdriven =>
      exact .going m ⟨hgoing.resume, hgoing.few, hgoing.sound, hgoing.waiting, hgoing.knows, hgoing.sent⟩ hdriven
    | finished m hres hsent hsound hw ht hp hend => exact .finished m hres hsent hsound hw ht hp hend
  unfold onAck
  by_cases hack : s.sender.waitingAck = true
  · rw [if_pos hack]
    cases decodeFileAck payload with
    | none => exact phase_reportError (hset false s.sender.state)
    | some status =>
      dsimp only
      by_cases hstatus : status = 0
      · rw [if_pos hstatus]
        exact hset false .done
      · rw [if_neg hstatus]
        exact phase_reportError (hset false s.sender.state)
  · rw [if_neg hack]
    exact h

theorem not_has_of_bitmapLen (h : m.bitmapLen = 0) (i : ℕ) : ¬ m.bits.Has i := by
  rw [Bitmap.has_iff_bitAt, FileResume.bits, h]
  rw [take_zero, bitAt, getD_nil]
  simp

theorem phase_onResume {payload : Bytes} (h : s.Phase sha1) (hopen : s.dc.isOpen = true)
    (hclean : ∀ m, decodeFileResume payload = some m → m.totalChunks = s.sender.file.totalChunks → s.CleanResume m c) :
    (s.onResume sha1 payload c).Phase sha1 := by
  unfold onResume
  cases hdec : decodeFileResume payload with
  | none => exact phase_reportError h
  | some m =>
    dsimp only
    by_cases htotal : m.totalChunks = s.sender.file.totalChunks
    swap
    · rw [if_pos htotal]
      exact phase_reportError h
    rw [if_neg (not_not_intro htotal)]
    obtain ⟨hvalid, hcall⟩ := hclean m hdec htotal
    cases htake : s.sender.takeResume m with
    | none => exact phase_reportError h
    | some x =>
      obtain ⟨bm, has, rfl, hzero, hknows⟩ := takeResume_spec htake htotal hvalid
      dsimp only at hzero ⊢
      cases h with
      | fresh _ _ hdc _ =>
        rw [hdc] at hopen
        cases hopen
      | asking hidle hsent hfew hw =>
        rw [if_pos hw] at hcall
        rw [if_neg (Bool.eq_false_iff.1 hidle.sound), if_pos hw]
        refine phase_sendNextChunk ⟨rfl, hfew, hidle.sound, rfl, ?_, ?_⟩ hidle.timers hidle.paused hcall
        · by_cases hlen : m.bitmapLen = 0
          · obtain ⟨-, rfl⟩ := hzero hlen
            intro i _ _
            rw [if_neg (Bool.eq_false_iff.1 hidle.hasResume)]
            exact not_has_of_bitmapLen hlen i
          · exact hknows hlen
        · rw [hsent, hidle.nextChunk, owed_zero hfew]
          rfl
      | going m₀ hgoing hdriven =>
        rw [if_neg (Bool.eq_false_iff.1 hgoing.waiting)] at hcall
        rw [if_neg (Bool.eq_false_iff.1 hgoing.sound), if_neg (Bool.eq_false_iff.1 hgoing.waiting)]
        refine .going m₀ ⟨hgoing.resume, hgoing.few, hgoing.sound, hgoing.waiting, ?_, hgoing.sent⟩ hdriven
        by_cases hlen : m.bitmapLen = 0
        · obtain ⟨rfl, rfl⟩ := hzero hlen
          exact hgoing.knows
        · exact (hknows hlen).congr (hcall hlen m₀ hgoing.resume)
      | finished m₀ hres hsent hsound hw ht hp hend =>
        rw [if_neg (Bool.eq_false_iff.1 hsound), if_neg (Bool.eq_false_iff.1 hw)]
        exact .finished m₀ hres hsent hsound hw ht hp hend

theorem phase_onMessage {data : Bytes} (h : s.Phase sha1) (hopen : s.dc.isOpen = true) (hclean : s.Clean (.message data c)) :
    (s.onMessage sha1 data c).Phase sha1 := by
  unfold onMessage
  cases data with
  | nil => exact h
  | cons type payload =>
    dsimp only
    by_cases hack : type = msgAck
    · rw [if_pos hack]
      exact phase_onAck payload h
    rw [if_neg hack]
    by_cases hresume : type = msgFileResume
    · rw [if_pos hresume]
      exact phase_onResume h hopen fun m => hclean payload m (hresume ▸ rfl)
    · rw [if_neg hresume]
      exact h

theorem phase_closed (h : s.Phase sha1) : Phase sha1 { s with dc := { s.dc with isOpen := false } } := by
  cases h with
  | fresh hidle hsent _ hw =>
    exact .fresh ⟨hidle.resume, hidle.sound, hidle.timers, hidle.paused, hidle.nextChunk, hidle.hasResume⟩ hsent rfl hw
  | asking hidle hsent hfew hw =>
    exact .asking ⟨hidle.resume, hidle.sound, hidle.timers, hidle.paused, hidle.nextChunk, hidle.hasResume⟩ hsent hfew hw
  | going m hgoing hdriven =>
    exact .going m ⟨hgoing.resume, hgoing.few, hgoing.sound, hgoing.waiting, hgoing.knows, hgoing.sent⟩ hdriven
  | finished m hres hsent hsound hw ht hp hend => exact .finished m hres hsent hsound hw ht hp hend

/-- **A step.** -/
theorem phase_step {s' : Sending} {e : Event} (h : s.Phase sha1) (hclean : s.Clean e) (hs : step sha1 s e = some s') :
    s'.Phase sha1 := by
  cases e with
  | opened sctp => exact some.inj hs ▸ phase_onOpen h hclean
  | closed => exact some.inj hs ▸ phase_closed h
  | message data c =>
    dsimp only [step] at hs
    by_cases hopen : s.dc.isOpen = true
    · rw [if_pos hopen] at hs
      exact some.inj hs ▸ phase_onMessage h hopen hclean
    · rw [if_neg hopen] at hs
      cases hs
  | low c =>
    dsimp only [step] at hs
    by_cases hopen : s.dc.isOpen = true
    · rw [if_pos hopen] at hs
      exact some.inj hs ▸ phase_onBufferedAmountLow h hclean
    · rw [if_neg hopen] at hs
      cases hs
  | timer c =>
    dsimp only [step] at hs
    by_cases ht : s.sender.timers = 0
    · rw [if_pos ht] at hs
      cases hs
    · rw [if_neg ht] at hs
      exact some.inj hs ▸ phase_onTimer h ht hclean
  | failed => exact some.inj hs ▸ phase_reportError h

theorem exact_of_phase (h : s.Phase sha1) : s.Exact sha1 := by
  cases h with
  | fresh hidle hsent _ _ =>
    refine ⟨fun _ => hsent ▸ nil_prefix, fun m hm => ?_, fun m hm => ?_, fun m hm => ?_⟩ <;>
      exact absurd (hidle.resume.symm.trans hm) nofun
  | asking hidle hsent _ _ =>
    refine ⟨fun _ => hsent ▸ prefix_refl _, fun m hm => ?_, fun m hm => ?_, fun m hm => ?_⟩ <;>
      exact absurd (hidle.resume.symm.trans hm) nofun
  | going m hgoing hdriven =>
    have heq : ∀ m' ∈ s.resume, m' = m := fun m' hm' => some.inj (hm'.symm.trans hgoing.resume)
    refine ⟨fun hnone => absurd (hgoing.resume.symm.trans hnone) nofun, fun m' hm' => ?_, fun m' _ hok _ => ?_,
      fun m' _ hok ht hp => ?_⟩
    · obtain rfl := heq m' hm'
      exact ⟨_, hgoing.sent⟩
    · obtain hone | ⟨ht, hp | hfailed⟩ := hdriven
      · exact .inl hone
      · exact .inr ⟨ht, hp⟩
      · rw [hok] at hfailed
        cases hfailed
    · obtain ⟨ht', -⟩ | ⟨-, hp' | hfailed⟩ := hdriven
      · omega
      · rw [hp] at hp'
        cases hp'
      · rw [hok] at hfailed
        cases hfailed
  | finished m hres hsent _ _ ht hp hend =>
    have heq : ∀ m' ∈ s.resume, m' = m := fun m' hm' => some.inj (hm'.symm.trans hres)
    refine ⟨fun hnone => absurd (hres.symm.trans hnone) nofun, fun m' hm' => ?_, fun m' _ _ ⟨i, hi, hlt, _⟩ => ?_,
      fun m' hm' _ _ _ => ?_⟩
    · obtain rfl := heq m' hm'
      exact hsent ▸ prefix_refl _
    · omega
    · obtain rfl := heq m' hm'
      exact hsent

/-- **Every clean run sends exactly what is missing.** -/
theorem exact_of_run (sha1 : Bytes → Digest) (f : Source) {s : Sending} (hrun : Run (step sha1) Clean (start f) s) :
    s.Exact sha1 :=
  exact_of_phase <| hrun.preserves (fun _ _ _ => phase_step) <|
    .fresh ⟨rfl, rfl, rfl, rfl, rfl, rfl⟩ rfl rfl rfl

/-! ### Runs with a file of one byte -/

open Host (oneByte someDigest)

def oneSha (_ : Bytes) : Digest := someDigest

def resumeOne : Bytes := [msgFileResume, 0, 0, 0, 1, 0, 0, 0, 0]

def fine : Call := ⟨some 1, true, .ok⟩

/-- The three messages go out one after another. -/
theorem exact_of_run_oneByte : ∃ s, Run (step oneSha) Clean (start oneByte) s ∧ s.Exact oneSha ∧ s.sent.length = 3 := by
  have hmessage : Clean ((start oneByte).onOpen .ok) (.message resumeOne fine) := by
    intro payload m hdata hdec _
    obtain ⟨-, rfl⟩ := List.cons.inj hdata
    obtain rfl := some.inj hdec
    refine ⟨.inl rfl, ?_⟩
    rw [if_pos (by decide +kernel), CleanCall, show Source.owed _ _ _ = [0] by decide +kernel]
    refine ⟨nofun, fun i hi _ _ _ n hn => ?_⟩
    obtain rfl := some.inj hi
    obtain rfl := some.inj hn
    exact .inr (by decide +kernel)
  have htimer : Clean (((start oneByte).onOpen .ok).onMessage oneSha resumeOne fine) (.timer fine) := by
    intro m hm
    have hsome : (((start oneByte).onOpen .ok).onMessage oneSha resumeOne fine).resume = some ⟨1, 0, []⟩ := by rfl
    obtain rfl := some.inj (hsome.symm.trans hm)
    rw [CleanCall, show Source.owed _ _ _ = [] by decide +kernel]
    exact ⟨fun _ _ => by decide +kernel, nofun⟩
  have hrun : Run (step oneSha) Clean (start oneByte)
      ((((start oneByte).onOpen .ok).onMessage oneSha resumeOne fine).onTimer oneSha fine) :=
    .tail (.tail (.single (m := .opened .ok) ⟨rfl, rfl, rfl, by decide +kernel⟩ rfl) hmessage (by rfl)) htimer (by rfl)
  exact ⟨_, hrun, exact_of_run oneSha oneByte hrun, by decide +kernel⟩

/-- SCTP has no room for FILE_DONE: it is never sent, and nothing says so. -/
theorem not_exact_again : ¬∀ s, Run (step oneSha) (fun _ _ => True) (start oneByte) s → s.Exact oneSha := by
  intro hall
  have hlost : replay (step oneSha) (fun _ _ => true)
      (fun s => s.resume.any fun m => !s.failed && decide (s.sender.timers = 0) && !s.sender.paused &&
        decide (s.sent ≠ s.sender.file.messages oneSha m)) (start oneByte)
      [.opened .ok, .message resumeOne fine, .timer { fine with sctp := .again }] = true := by decide +kernel
  obtain ⟨s, hrun, hs⟩ := exists_run_of_replay (step oneSha) (fun _ _ => True) _ _ (fun _ _ _ => trivial) hlost
  obtain ⟨m, hm, hs⟩ := (any_eq_true _ _).1 hs
  simp only [Bool.and_eq_true, Bool.not_eq_true', decide_eq_true_eq] at hs
  obtain ⟨⟨⟨hfailed, htimers⟩, hpaused⟩, hne⟩ := hs
  exact hne ((hall s hrun).finished m hm hfailed htimers hpaused)

end Sending

end Libx.Fer
