import Libx.Http.WsConn

/-!
# Libx.Http.CleanClose — how a WebSocket connection closes
-/

namespace Libx.Http

open Libx.Core (Run)
open Libx.Agent (Bytes)
open List

def Reserved (code : UInt16) : Prop := code = 1005 ∨ code = 1006 ∨ code = 1015

instance (code : UInt16) : Decidable (Reserved code) := inferInstanceAs (Decidable (_ ∨ _))

namespace WsNote

def IsMessage : WsNote → Prop
  | message _ _ => True
  | _ => False

def Over : WsNote → Prop
  | peerClose | violation => True
  | _ => False

def isClosed : WsNote → Bool
  | closed _ _ => true
  | _ => false

end WsNote

namespace WsConn

variable {D I : Type}

/-- The closing of a connection, as far as it has come. -/
structure Clean (c : WsConn D I) : Prop where
  once : (c.log.filter WsNote.isClosed).length ≤ 1
  ended : c.destroyed = true → (c.log.filter WsNote.isClosed).length = 1
  quiet : c.log.Pairwise fun a b => a.Over → ¬ b.IsMessage
  last : c.queued.Pairwise fun i _ => i.opcode ≠ opcodeClose
  codes : ∀ i ∈ c.queued, i.opcode = opcodeClose → ∃ code reason key, i = .close code reason key ∧ ¬ Reserved code
  wire : c.wire <+: c.queued.flatMap (Sending.wire c.isClient)

/-! ### What the steps may bring -/

/-- The peer has closed, or a frame violated the protocol. -/
def Over (c : WsConn D I) : Prop := ∃ n ∈ c.log, n.Over

/-- A call that closes an open connection does it with a code that is not reserved. -/
def CallFits (c : WsConn D I) : UserCall → Prop
  | .send _ _ => True
  | .close code => c.closeState = .open → ¬ Reserved code

section Fits

variable (env : WsEnv D I)

def CallsFit (c : WsConn D I) : List UserCall → Prop
  | [] => True
  | call :: calls => c.CallFits call ∧ (c.userCall env call).CallsFit calls

/-- No Ping once the connection closes, no status that is reserved or none at all in the Close frame that starts it, no
message after the peer's Close or a violation, and `on_message` fits. -/
def FrameFits (f : Frame) (c : WsConn D I) : Prop :=
  if f.opcode = opcodePing then c.closeState = .open
  else if f.opcode = opcodePong then True
  else if f.opcode = opcodeClose then c.closeState = .open → ¬ Reserved (closeStatus (f.payload.getD [])).1
  else
    match c.assemble env f with
    | .message opcode payload c =>
      let d := c.note (.message (opcode = opcodeText) payload)
      ¬ c.Over ∧ d.CallsFit env (env.onMessage d.log)
    | _ => True

def LoopFits : ℕ → WsConn D I → Prop
  | 0, _ => True
  | n + 1, c =>
    c.closeState ≠ .closed →
      match c.parser.parse c.readBuf with
      | (some .ok, p, io) =>
        (c.parsed p.reset io).FrameFits env p.frame ∧ LoopFits n ((c.parsed p.reset io).processFrame env p.frame)
      | _ => True

/-- The frames of an event fit, and a call from outside; the server ends when the connection has closed, or when its
Close frame cannot be written. -/
def Fits (c : WsConn D I) : WsInput → Prop
  | .event e =>
    c.closeState ≠ .closed → e.timeout = false → ∀ data, e.read = some (data, .again) →
      let d := (if e.write then c.onWritable env else c).gather data
      LoopFits env (d.readBuf.length + 1) d.resetIdleTimer
  | .timer => True
  | .user call => c.CallFits call
  | .serverDestroy => c.closeState = .closed ∨ c.closeState = .open ∧ env.writev c.writes = .error

end Fits

/-! ### What closing looks at -/

/-- What is on the way to the wire or was called. -/
structure Outlook where
  isClient : Bool
  closeState : CloseState
  destroyed : Bool
  log : List WsNote
  queued : List Sending
  wire : Bytes
  writeBuf : Bytes

def outlook (c : WsConn D I) : Outlook :=
  ⟨c.isClient, c.closeState, c.destroyed, c.log, c.queued, c.wire, c.writeBuf⟩

/-- The invariant. -/
structure Sound (o : Outlook) : Prop where
  closes : (o.log.filter WsNote.isClosed).length = if o.closeState = .closed then 1 else 0
  ended : o.destroyed = true → o.closeState = .closed
  quiet : o.log.Pairwise fun a b => a.Over → ¬ b.IsMessage
  isOpen : o.closeState = .open → ∀ i ∈ o.queued, i.opcode ≠ opcodeClose
  last : o.queued.Pairwise fun i _ => i.opcode ≠ opcodeClose
  codes : ∀ i ∈ o.queued, i.opcode = opcodeClose → ∃ code reason key, i = .close code reason key ∧ ¬ Reserved code
  bytes : o.wire ++ o.writeBuf = o.queued.flatMap (Sending.wire o.isClient)

variable {env : WsEnv D I} {c : WsConn D I}

theorem clean_of_sound (h : Sound c.outlook) : c.Clean := by
  have hcloses : (c.log.filter WsNote.isClosed).length = if c.closeState = .closed then 1 else 0 := h.closes
  refine ⟨?_, fun hd => ?_, h.quiet, h.last, h.codes, ?_⟩
  · rw [hcloses]
    split_ifs
    · exact le_rfl
    · exact Nat.zero_le 1
  · have hclosed : c.closeState = .closed := h.ended hd
    rw [hcloses, if_pos hclosed]
  · exact ⟨c.writeBuf, h.bytes⟩

/-! ### Ways out -/

theorem sound_note {n : WsNote} (h : Sound c.outlook) (hclosed : n.isClosed = false)
    (hquiet : n.IsMessage → ¬ c.Over) : Sound (c.note n).outlook := by
  refine ⟨?_, h.ended, ?_, h.isOpen, h.last, h.codes, h.bytes⟩
  · have hcloses : (c.log.filter WsNote.isClosed).length = if c.closeState = .closed then 1 else 0 := h.closes
    show ((c.log ++ [n]).filter WsNote.isClosed).length = if c.closeState = .closed then 1 else 0
    rw [filter_append, filter_cons_of_neg (by rw [hclosed]; decide), filter_nil, List.append_nil, hcloses]
  · show (c.log ++ [n]).Pairwise fun a b => a.Over → ¬ b.IsMessage
    rw [pairwise_append]
    refine ⟨h.quiet, pairwise_singleton _ _, fun a ha b hb hover hmsg => ?_⟩
    obtain rfl := mem_singleton.mp hb
    exact hquiet hmsg ⟨a, ha, hover⟩

theorem sound_fireClose (code : UInt16) (reason : Bytes) (h : Sound c.outlook) :
    Sound (c.fireClose code reason).outlook := by
  unfold fireClose
  split_ifs with hclosed
  · exact h
  · refine ⟨?_, fun _ => rfl, ?_, fun ho => CloseState.noConfusion ho, h.last, h.codes, h.bytes⟩
    · have hcloses : (c.log.filter WsNote.isClosed).length = if c.closeState = .closed then 1 else 0 := h.closes
      show ((c.log ++ [WsNote.closed code reason]).filter WsNote.isClosed).length = 1
      rw [filter_append, length_append, hcloses, if_neg hclosed]
      rfl
    · show (c.log ++ [WsNote.closed code reason]).Pairwise fun a b => a.Over → ¬ b.IsMessage
      rw [pairwise_append]
      refine ⟨h.quiet, pairwise_singleton _ _, fun a _ b hb _ hmsg => ?_⟩
      obtain rfl := mem_singleton.mp hb
      exact hmsg

theorem closed_fireClose (code : UInt16) (reason : Bytes) (c : WsConn D I) :
    (c.fireClose code reason).closeState = .closed := by
  unfold fireClose
  split_ifs with h
  · exact h
  · rfl

theorem sound_destroy (h : Sound c.outlook) (hclosed : c.closeState = .closed) : Sound c.destroy.outlook :=
  ⟨h.closes, fun _ => hclosed, h.quiet, h.isOpen, h.last, h.codes, h.bytes⟩

theorem sound_reap (h : Sound c.outlook) : Sound c.reap.outlook := by
  unfold reap
  split_ifs with hclosed
  · exact sound_destroy h hclosed
  · exact h

theorem sound_written (n : ℕ) (h : Sound c.outlook) : Sound (c.written n).outlook := by
  refine ⟨h.closes, h.ended, h.quiet, h.isOpen, h.last, h.codes, ?_⟩
  show c.wire ++ c.writeBuf.take n ++ c.writeBuf.drop n = c.queued.flatMap (Sending.wire c.isClient)
  rw [append_assoc, take_append_drop]
  exact h.bytes

theorem sound_tryFlush (h : Sound c.outlook) : Sound (c.tryFlush env).outlook := by
  unfold tryFlush
  split_ifs with hempty
  · exact h
  · have hd : Sound (outlook { c with writes := c.writes + 1 }) := h
    cases env.writev c.writes with
    | again => exact hd
    | error => exact sound_fireClose _ _ hd
    | wrote n =>
      have hw := sound_written n hd
      dsimp only
      generalize written n { c with writes := c.writes + 1 } = d at hw ⊢
      split_ifs
      · exact hw
      · exact sound_fireClose _ _ (c := { d with writing := false }) hw
      · exact hw

theorem sound_queue {i : MaskingKey → Sending} (h : Sound c.outlook) (hopen : c.closeState = .open)
    (hi : ∀ key, (i key).opcode ≠ opcodeClose) : Sound (c.queue env i).outlook := by
  have hnone : ∀ j ∈ c.queued, j.opcode ≠ opcodeClose := h.isOpen hopen
  have hall : ∀ j ∈ c.queued ++ [i (env.key c.queued.length)], j.opcode ≠ opcodeClose := by
    intro j hj
    rcases mem_append.mp hj with hj | hj
    · exact hnone j hj
    · obtain rfl := mem_singleton.mp hj
      exact hi _
  refine ⟨h.closes, h.ended, h.quiet, fun _ => hall, ?_, fun j hj hclose => absurd hclose (hall j hj), ?_⟩
  · exact pairwise_of_forall_mem_list fun a ha _ _ => hall a ha
  · show c.wire ++ (c.writeBuf ++ (i (env.key c.queued.length)).wire c.isClient) =
      (c.queued ++ [i (env.key c.queued.length)]).flatMap (Sending.wire c.isClient)
    have hbytes : c.wire ++ c.writeBuf = c.queued.flatMap (Sending.wire c.isClient) := h.bytes
    rw [← append_assoc, hbytes, flatMap_append, flatMap_singleton]

theorem Sound.shut {o : Outlook} {s : CloseState} {code : UInt16} {reason : Bytes} {key : MaskingKey} (h : Sound o)
    (hopen : o.closeState = .open) (hs : s ≠ .open) (hs' : s ≠ .closed) (hcode : ¬ Reserved code) :
    Sound { o with
      closeState := s
      queued := o.queued ++ [.close code reason key]
      writeBuf := o.writeBuf ++ (Sending.close code reason key).wire o.isClient } := by
  have hnone := h.isOpen hopen
  refine ⟨?_, fun hd => ?_, h.quiet, fun ho => absurd ho hs, ?_, fun i hi hclose => ?_, ?_⟩
  · rw [h.closes, hopen, if_neg hs', if_neg CloseState.noConfusion]
  · exact absurd (hopen.symm.trans (h.ended hd)) CloseState.noConfusion
  · rw [pairwise_append]
    exact ⟨h.last, pairwise_singleton _ _, fun a ha _ _ => hnone a ha⟩
  · rcases mem_append.mp hi with hi | hi
    · exact absurd hclose (hnone i hi)
    · exact ⟨code, reason, key, mem_singleton.mp hi, hcode⟩
  · rw [← append_assoc, h.bytes, flatMap_append, flatMap_singleton]

theorem sound_connClose {code : UInt16} (reason : Bytes) (h : Sound c.outlook)
    (hcode : c.closeState = .open → ¬ Reserved code) : Sound (c.connClose env code reason).outlook := by
  unfold connClose
  split_ifs with hopen
  · exact h
  · rw [not_not] at hopen
    have hshut : Sound (queue env (.close code reason) { c with closeState := .closeSent, closeCode := code }).outlook :=
      h.shut hopen CloseState.noConfusion CloseState.noConfusion (hcode hopen)
    exact sound_tryFlush hshut

theorem dataOpcode_ne_close (text : Bool) : dataOpcode text ≠ opcodeClose := by cases text <;> decide

theorem sound_sendFrame {opcode : UInt8} (rsv1 : Bool) (payload : Bytes) (h : Sound c.outlook)
    (hopen : c.closeState = .open) (hop : opcode ≠ opcodeClose) :
    Sound (c.sendFrame env rsv1 opcode payload).outlook :=
  sound_tryFlush (sound_queue h hopen fun _ => hop)

theorem sound_send (text : Bool) (payload : Bytes) (h : Sound c.outlook) : Sound (c.send env text payload).outlook := by
  have hop := dataOpcode_ne_close text
  unfold send
  by_cases hopen : c.closeState ≠ .open
  · rw [if_pos hopen]
    exact h
  · rw [if_neg hopen]
    rw [not_not] at hopen
    cases hctx : c.deflateCtx with
    | none => exact sound_sendFrame false payload h hopen hop
    | some ctx =>
      dsimp only
      split_ifs
      · exact sound_sendFrame false payload h hopen hop
      · cases (env.compress ctx.deflate payload).1 with
        | none => exact sound_sendFrame (c := { c with deflateCtx := _ }) false payload h hopen hop
        | some compressed => exact sound_sendFrame (c := { c with deflateCtx := _ }) true compressed h hopen hop

theorem sound_userCall {call : UserCall} (h : Sound c.outlook) (hfits : c.CallFits call) :
    Sound (c.userCall env call).outlook := by
  cases call with
  | send text payload => exact sound_send text payload h
  | close code => exact sound_connClose [] h hfits

theorem sound_userCalls {calls : List UserCall} (h : Sound c.outlook) (hfits : c.CallsFit env calls) :
    Sound (calls.foldl (fun c call => c.userCall env call) c).outlook := by
  induction calls generalizing c with
  | nil => exact h
  | cons call calls ih => exact ih (sound_userCall h hfits.1) hfits.2

/-! ### Ways in -/

theorem not_reserved_protocolErr : ¬ Reserved closeProtocolErrCode := by decide
theorem not_reserved_goingAway : ¬ Reserved closeGoingAwayCode := by decide

theorem sound_violate (h : Sound c.outlook) : Sound (c.violate env).outlook :=
  sound_connClose [] (sound_note h rfl fun hmsg => absurd hmsg id) fun _ => not_reserved_protocolErr

theorem sound_peerClose {payload : Bytes} (h : Sound c.outlook)
    (hcode : c.closeState = .open → ¬ Reserved (closeStatus payload).1) : Sound (c.peerClose env payload).outlook := by
  have hnote : Sound (c.note .peerClose).outlook := sound_note h rfl fun hmsg => absurd hmsg id
  unfold peerClose
  dsimp only
  cases hstate : (c.note .peerClose).closeState with
  | «open» =>
    have hshut : Sound (queue env (.close (closeStatus payload).1 (closeStatus payload).2)
        { c.note .peerClose with
          closeState := .closeReceived
          closeCode := (closeStatus payload).1
          closeReason := (closeStatus payload).2 }).outlook :=
      hnote.shut hstate CloseState.noConfusion CloseState.noConfusion (hcode hstate)
    exact sound_tryFlush hshut
  | closeSent => exact sound_fireClose _ _ hnote
  | closeReceived | closed => exact hnote

theorem outlook_assemble (f : Frame) (c : WsConn D I) : (c.assemble env f).conn.outlook = c.outlook := by
  obtain ⟨ctx, buf, op, started, compressed, hconn⟩ := conn_assemble (c := c) f
  rw [hconn]
  rfl

theorem sound_processFrame {f : Frame} (h : Sound c.outlook) (hfits : c.FrameFits env f) :
    Sound (c.processFrame env f).outlook := by
  unfold processFrame
  unfold FrameFits at hfits
  by_cases hping : f.opcode = opcodePing
  · rw [if_pos hping] at hfits ⊢
    exact sound_sendFrame false _ h hfits (by decide)
  rw [if_neg hping] at hfits ⊢
  by_cases hpong : f.opcode = opcodePong
  · rw [if_pos hpong]
    exact h
  rw [if_neg hpong] at hfits ⊢
  by_cases hclose : f.opcode = opcodeClose
  · rw [if_pos hclose] at hfits ⊢
    exact sound_peerClose h hfits
  rw [if_neg hclose] at hfits ⊢
  have hconn : (c.assemble env f).conn.outlook = c.outlook := outlook_assemble f c
  cases hasm : c.assemble env f with
  | pending d =>
    rw [hasm] at hconn
    replace hconn : d.outlook = c.outlook := hconn
    rw [← hconn] at h
    exact h
  | violation d =>
    rw [hasm] at hconn
    replace hconn : d.outlook = c.outlook := hconn
    rw [← hconn] at h
    exact sound_violate h
  | message opcode payload d =>
    rw [hasm] at hconn hfits
    replace hconn : d.outlook = c.outlook := hconn
    rw [← hconn] at h
    obtain ⟨hover, hcalls⟩ := hfits
    exact sound_userCalls (sound_note h rfl fun _ => hover) hcalls

theorem sound_parseLoop {n : ℕ} (h : Sound c.outlook) (hfits : c.LoopFits env n) :
    Sound (parseLoop env n c).outlook := by
  induction n generalizing c with
  | zero => exact h
  | succ n ih =>
    rw [parseLoop]
    by_cases hclosed : c.closeState = .closed
    · rw [if_pos hclosed]
      exact h
    · rw [if_neg hclosed]
      replace hfits := hfits hclosed
      rcases hcall : c.parser.parse c.readBuf with ⟨r, p, io⟩
      rw [hcall] at hfits
      have hparsed (q : FrameParser) : Sound (c.parsed q io).outlook := h
      rcases r with _ | _ | _ | _
      · exact hparsed p
      · exact ih (sound_processFrame (hparsed p.reset) hfits.1) hfits.2
      · exact hparsed p
      · exact sound_violate (hparsed p)

/-! ### Events -/

theorem sound_idleTimeout (h : Sound c.outlook) : Sound (c.idleTimeout env).outlook := by
  have hset : Sound (outlook { c with idleTimer := false }) := h
  unfold idleTimeout
  dsimp only
  split_ifs with hopen
  · exact sound_connClose [] hset fun _ => not_reserved_goingAway
  · exact sound_destroy (sound_fireClose _ _ hset) (closed_fireClose _ _ _)

theorem sound_onReadable {data : Bytes} {finish : ReadEnd} (h : Sound c.outlook)
    (hfits : finish = .again → (c.gather data).resetIdleTimer.LoopFits env ((c.gather data).readBuf.length + 1)) :
    Sound (c.onReadable env data finish).outlook := by
  have hdata : Sound (c.gather data).outlook := h
  cases finish with
  | again => exact sound_reap (sound_parseLoop (c := (c.gather data).resetIdleTimer) hdata (hfits rfl))
  | eof | error => exact sound_destroy (sound_fireClose _ _ hdata) (closed_fireClose _ _ _)

theorem sound_onEvent {e : WsEvent} (h : Sound c.outlook) (hfits : c.Fits env (.event e)) :
    Sound (c.onEvent env e).outlook := by
  unfold onEvent
  by_cases hclosed : c.closeState = .closed
  · rw [if_pos hclosed]
    exact sound_destroy h hclosed
  rw [if_neg hclosed]
  by_cases htimeout : e.timeout
  · rw [if_pos htimeout]
    exact sound_idleTimeout h
  rw [if_neg htimeout]
  replace hfits := hfits hclosed (Bool.eq_false_iff.mpr htimeout)
  have hw : Sound (if e.write then c.onWritable env else c).outlook := by
    split_ifs
    · exact sound_reap (sound_tryFlush h)
    · exact h
  generalize (if e.write then c.onWritable env else c) = d at hfits hw ⊢
  by_cases hd : d.destroyed
  · rw [if_pos hd]
    exact hw
  rw [if_neg hd]
  cases hread : e.read with
  | none => exact hw
  | some r =>
    obtain ⟨data, finish⟩ := r
    refine sound_onReadable hw fun hagain => ?_
    exact hfits data (by rw [hread, hagain])

theorem wire_ne_nil (masked : Bool) (i : Sending) : i.wire masked ≠ [] := by
  exact cons_ne_nil _ _

theorem closed_tryFlush_error (hne : c.writeBuf ≠ []) (herror : env.writev c.writes = .error) :
    (c.tryFlush env).closeState = .closed := by
  unfold tryFlush
  rw [if_neg hne]
  rw [herror]
  exact closed_fireClose _ _ _

theorem closed_connClose_error (code : UInt16) (hopen : c.closeState = .open) (herror : env.writev c.writes = .error) :
    (c.connClose env code []).closeState = .closed := by
  unfold connClose
  rw [if_neg (not_not.mpr hopen)]
  refine closed_tryFlush_error (c := queue env _ _) ?_ herror
  exact append_ne_nil_of_right_ne_nil _ (wire_ne_nil _ _)

theorem sound_step {i : WsInput} {d : WsConn D I} (h : Sound c.outlook) (hfits : c.Fits env i)
    (hstep : c.step env i = some d) : Sound d.outlook := by
  unfold step at hstep
  cases i with
  | event e =>
    dsimp only at hstep
    split_ifs at hstep
    obtain rfl := Option.some.inj hstep
    exact sound_onEvent h hfits
  | timer =>
    dsimp only at hstep
    split_ifs at hstep
    obtain rfl := Option.some.inj hstep
    exact sound_idleTimeout h
  | user call =>
    dsimp only at hstep
    split_ifs at hstep
    obtain rfl := Option.some.inj hstep
    exact sound_userCall h hfits
  | serverDestroy =>
    dsimp only at hstep
    split_ifs at hstep
    obtain rfl := Option.some.inj hstep
    refine sound_destroy (sound_connClose [] h fun _ => not_reserved_goingAway) ?_
    rcases hfits with hclosed | ⟨hopen, herror⟩
    · unfold connClose
      rw [if_pos (by rw [hclosed]; exact CloseState.noConfusion)]
      exact hclosed
    · exact closed_connClose_error _ hopen herror

theorem sound_handOver (isClient hasIdleTimeout : Bool) (ctx : Option (DeflateCtx D I)) (rest : Bytes) :
    Sound (handOver isClient hasIdleTimeout ctx rest).outlook where
  closes := rfl
  ended hd := absurd hd Bool.false_ne_true
  quiet := .nil
  isOpen _ _ hi := absurd hi (not_mem_nil)
  last := .nil
  codes _ hi := absurd hi (not_mem_nil)
  bytes := rfl

/-- **A connection closes cleanly** in every run whose steps fit. -/
theorem clean_of_run (env : WsEnv D I) {isClient hasIdleTimeout : Bool} {ctx : Option (DeflateCtx D I)} {rest : Bytes}
    (hrun : Run (step env) (Fits env) (handOver isClient hasIdleTimeout ctx rest) c) : c.Clean :=
  clean_of_sound (hrun.preserves (I := fun c => Sound c.outlook)
    (fun _ _ _ h hfits hstep => sound_step h hfits hstep) (sound_handOver isClient hasIdleTimeout ctx rest))

/-- A socket that takes everything, and no compression. -/
def freeEnv : WsEnv Unit Unit where
  writev _ := .wrote 100
  compress d _ := (none, d)
  decompress i _ := (none, i)

/-- A message and a Close frame are sent, and the peer goes away. -/
theorem clean_of_run_eof :
    ∃ c : WsConn Unit Unit, c.destroyed = true ∧ c.wire = [0x81, 0x01, 104, 0x88, 0x02, 0x03, 0xE8] ∧ c.Clean := by
  have h1 : step freeEnv (handOver false false none []) (.user (.send true [104])) =
      some (send freeEnv true [104] (handOver false false none [])) := rfl
  have h2 : step freeEnv (send freeEnv true [104] (handOver false false none [])) (.user (.close 1000)) =
      some (connClose freeEnv 1000 [] (send freeEnv true [104] (handOver false false none []))) := rfl
  have h3 : step freeEnv (connClose freeEnv 1000 [] (send freeEnv true [104] (handOver false false none [])))
      (.event { read := some ([], .eof) }) = some (onEvent freeEnv { read := some ([], .eof) }
        (connClose freeEnv 1000 [] (send freeEnv true [104] (handOver false false none [])))) := by
    unfold step
    exact if_neg (by decide +kernel)
  refine ⟨_, ?_, ?_, clean_of_run freeEnv (((Run.single trivial h1).tail (fun _ => by decide) h2).tail ?_ h3)⟩
  · decide +kernel
  · decide +kernel
  · intro _ _ data hread
    exact absurd (congrArg Prod.snd (Option.some.inj hread)) ReadEnd.noConfusion

/-- A Close frame without a status is answered with 1005. -/
theorem not_clean_no_status :
    ¬ ∀ (env : WsEnv Unit Unit) (c : WsConn Unit Unit), Run (step env) (fun _ _ => True) (handOver true false none []) c →
      c.Clean := by
  intro h
  have hstep : step freeEnv (handOver true false none []) (.event { read := some ([0x88, 0x00], .again) }) =
      some (onEvent freeEnv { read := some ([0x88, 0x00], .again) } (handOver true false none [])) := rfl
  have hclean := h freeEnv _ (Run.single trivial hstep)
  have hmem : (.close 1005 [] {}) ∈
      (onEvent freeEnv { read := some ([0x88, 0x00], .again) } (handOver true false none [])).queued := by
    decide +kernel
  obtain ⟨code, reason, key, heq, hcode⟩ := hclean.codes _ hmem rfl
  obtain ⟨rfl, -, -⟩ := Sending.close.inj heq
  exact hcode (.inl rfl)

end WsConn

end Libx.Http
