import Libx.Http.CleanClose

/-!
# Libx.Http.Messages — the messages of a stream
-/

namespace Libx.Http

open Libx.Core (drain Drained)
open Libx.Agent (Bytes)
open List

/-- Text or binary, and the payload. -/
abbrev Message := Bool × Bytes

/-- A message of which fragments are there. -/
structure Fragments where
  text : Bool
  compressed : Bool
  body : Bytes

/-- The frames so far: a message that has begun, the stream of zlib, whether there was a Close frame or a violation, the
messages. -/
structure Assembly (I : Type) where
  started : Option Fragments := none
  inflate : Option I := none
  stopped : Bool := false
  out : List Message := []

namespace Assembly

variable {I : Type} (decompress : I → Bytes → Option Bytes × I)

def stop (a : Assembly I) : Assembly I := { stopped := true, out := a.out }

def finish (compressed text : Bool) (body : Bytes) (a : Assembly I) : Assembly I :=
  match compressed, a.inflate with
  | true, some i =>
    match (decompress i body).1 with
    | some payload => { a with inflate := some (decompress i body).2, out := a.out ++ [(text, payload)] }
    | none => a.stop
  | _, _ => { a with out := a.out ++ [(text, body)] }

def take (a : Assembly I) (f : Frame) : Assembly I :=
  let body := f.payload.getD []
  if a.stopped then a
  else if f.opcode = opcodePing ∨ f.opcode = opcodePong then a
  else if f.opcode = opcodeText ∨ f.opcode = opcodeBinary then
    match a.started with
    | some _ => a.stop
    | none =>
      if f.fin then a.finish decompress f.rsv1 (f.opcode = opcodeText) body
      else { a with started := some ⟨f.opcode = opcodeText, f.rsv1, body⟩ }
  else if f.opcode = opcodeContinuation then
    match a.started with
    | none => a.stop
    | some m =>
      if f.fin then finish decompress m.compressed m.text (m.body ++ body) { a with started := none }
      else { a with started := some { m with body := m.body ++ body } }
  else a.stop

variable {decompress} {a : Assembly I} {i : I} {body payload : Bytes}

theorem finish_plain {compressed : Bool} (text : Bool) (h : compressed = true → a.inflate = none) :
    a.finish decompress compressed text body = { a with out := a.out ++ [(text, body)] } := by
  unfold finish
  cases compressed with
  | false => rfl
  | true =>
    split
    · rename_i hi
      rw [h rfl] at hi
      cases hi
    · rfl

theorem finish_inflate (text : Bool) (hi : a.inflate = some i) (hout : (decompress i body).1 = some payload) :
    a.finish decompress true text body =
      { a with inflate := some (decompress i body).2, out := a.out ++ [(text, payload)] } := by
  unfold finish
  rw [hi]
  dsimp only
  rw [hout]

theorem finish_refused (text : Bool) (hi : a.inflate = some i) (hout : (decompress i body).1 = none) :
    a.finish decompress true text body = a.stop := by
  unfold finish
  rw [hi]
  dsimp only
  rw [hout]

variable (decompress)

def takeAll (a : Assembly I) (fs : List Frame) : Assembly I := fs.foldl (take decompress) a

variable {decompress} {f : Frame} {fs gs : List Frame}

theorem take_over (h : a.stopped = true) : a.take decompress f = a := by
  unfold take
  rw [if_pos h]

theorem take_ping (h : f.opcode = opcodePing ∨ f.opcode = opcodePong) : a.take decompress f = a := by
  unfold take
  split_ifs
  · rfl
  · rfl

theorem take_close (h : f.opcode = opcodeClose) (hover : a.stopped = false) : a.take decompress f = a.stop := by
  have hnot (op : UInt8) (hop : op ≠ opcodeClose) : f.opcode ≠ op := fun h' => hop (h'.symm.trans h)
  unfold take
  rw [hover, if_neg Bool.false_ne_true, if_neg (not_or.mpr ⟨hnot _ (by decide), hnot _ (by decide)⟩),
    if_neg (not_or.mpr ⟨hnot _ (by decide), hnot _ (by decide)⟩), if_neg (hnot _ (by decide))]

theorem takeAll_append : a.takeAll decompress (fs ++ gs) = (a.takeAll decompress fs).takeAll decompress gs :=
  foldl_append

theorem takeAll_over (h : a.stopped = true) : a.takeAll decompress fs = a := by
  induction fs with
  | nil => rfl
  | cons f fs ih =>
    show (a.take decompress f).takeAll decompress fs = a
    rw [take_over h, ih]

end Assembly

/-- The frames of a stream, with what is left of it. -/
def framesOf (p : FrameParser) (bytes : Bytes) : Drained FrameParser Frame Bytes :=
  drain FrameParser.next (bytes.length + 1) p bytes

def messagesOf {D I : Type} (env : WsEnv D I) (isClient : Bool) (ctx : Option (DeflateCtx D I)) (bytes : Bytes) :
    List Message :=
  (Assembly.takeAll env.decompress { inflate := ctx.map DeflateCtx.inflate }
    (framesOf { expectMasked := !isClient, allowRsv1 := ctx.isSome } bytes).1).out

def WsNote.message? : WsNote → Option Message
  | message text payload => some (text, payload)
  | _ => none

def messages (log : List WsNote) : List Message := log.filterMap WsNote.message?

instance : DecidablePred WsNote.Over
  | .peerClose | .violation => isTrue trivial
  | .message _ _ | .closed _ _ => isFalse id

def Assembled.noted {D I : Type} : Assembled D I → WsConn D I
  | pending c => c
  | message opcode payload c => c.note (.message (opcode = opcodeText) payload)
  | violation c => c.note .violation

namespace WsConn

variable {D I : Type}

instance (c : WsConn D I) : Decidable c.Over := inferInstanceAs (Decidable (∃ n ∈ c.log, n.Over))

def HoldsFrame (c : WsConn D I) : Prop := ∃ f p io, c.parser.next c.readBuf = .item f p io

/-- `on_message` was called with the messages of the stream before `on_close`, and no frame waits in the buffer. -/
structure Faithful (env : WsEnv D I) (isClient : Bool) (ctx : Option (DeflateCtx D I)) (c : WsConn D I) : Prop where
  messages : messages (c.log.takeWhile fun n => !n.isClosed) = messagesOf env isClient ctx c.received
  idle : c.destroyed = false → ¬ c.HoldsFrame

def assembly (c : WsConn D I) : Assembly I :=
  if c.Over then { stopped := true, out := Http.messages c.log }
  else
    { started := if c.inFragment then some ⟨c.fragOpcode = opcodeText, c.fragCompressed, c.fragBuf⟩ else none
      inflate := c.deflateCtx.map DeflateCtx.inflate
      out := Http.messages c.log }

/-! ### What the steps may bring -/

section Arrives

variable (env : WsEnv D I)

/-- What is left in the buffer completes no message. -/
def Spent (c : WsConn D I) : Prop :=
  (c.assembly.takeAll env.decompress (framesOf c.parser c.readBuf).1).out = c.assembly.out

/-- A compressed message that ends without a byte, and that zlib inflates. -/
def EndsEmpty (f : Frame) (c : WsConn D I) : Prop :=
  f.opcode = opcodeContinuation ∧ f.fin = true ∧ c.inFragment = true ∧ c.fragCompressed = true ∧
    c.fragBuf ++ f.payload.getD [] = [] ∧ ∃ ctx, c.deflateCtx = some ctx ∧ (env.decompress ctx.inflate []).1 ≠ none

/-- No message is completed after the peer's Close or a violation, and none ends empty before. -/
def FrameArrives (f : Frame) (c : WsConn D I) : Prop :=
  if c.Over then ∀ opcode payload d, c.assemble env f ≠ .message opcode payload d
  else ¬ c.EndsEmpty env f

/-- Each frame of the loop arrives; where a write fails, what is left completes no message, and where a frame is refused,
what is left of it is not taken for a frame. -/
def LoopArrives : ℕ → WsConn D I → Prop
  | 0, _ => True
  | n + 1, c =>
    if c.closeState = .closed then c.Spent env
    else
      match c.parser.parse c.readBuf with
      | (some .ok, p, io) =>
        (c.parsed p.reset io).FrameArrives env p.frame ∧ LoopArrives n ((c.parsed p.reset io).processFrame env p.frame)
      | (some .error, p, io) =>
        (c.closeState = .open → env.writev c.writes ≠ .error) → ¬ (c.parsed p io).HoldsFrame
      | _ => True

/-- What is read arrives, and a drain that ends with the stream or an error completes no message. -/
def Arrives (c : WsConn D I) : WsInput → Prop
  | .event e =>
    c.closeState ≠ .closed → e.timeout = false → ∀ data finish, e.read = some (data, finish) →
      let d := if e.write then c.onWritable env else c
      d.closeState ≠ .closed →
        if finish = .again then LoopArrives env ((d.gather data).readBuf.length + 1) (d.gather data).resetIdleTimer
        else (d.gather data).Spent env
  | _ => True

end Arrives

/-! ### What goes out leaves the messages alone -/

/-- What comes in. -/
structure Intake (I : Type) where
  parser : FrameParser
  readBuf : Bytes
  received : Bytes
  fragBuf : Bytes
  fragOpcode : UInt8
  inFragment : Bool
  fragCompressed : Bool
  inflate : Option I

def intake (c : WsConn D I) : Intake I :=
  ⟨c.parser, c.readBuf, c.received, c.fragBuf, c.fragOpcode, c.inFragment, c.fragCompressed,
    c.deflateCtx.map DeflateCtx.inflate⟩

/-- Something went out from `c` to `d`, which may have ended there. -/
structure Outgoing (c d : WsConn D I) : Prop where
  intake : d.intake = c.intake
  log : d.log = c.log ∧ (d.closeState = .closed ↔ c.closeState = .closed) ∨
    ∃ code reason, d.log = c.log ++ [.closed code reason] ∧ c.closeState ≠ .closed ∧ d.closeState = .closed

variable {env : WsEnv D I} {c d e : WsConn D I}

namespace Outgoing

theorem refl (c : WsConn D I) : Outgoing c c := ⟨rfl, .inl ⟨rfl, Iff.rfl⟩⟩

theorem trans (h : Outgoing c d) (h' : Outgoing d e) : Outgoing c e := by
  refine ⟨h'.intake.trans h.intake, ?_⟩
  rcases h'.log with ⟨hlog', hstate'⟩ | ⟨code, reason, hlog', hopen', hclosed'⟩
  · rcases h.log with ⟨hlog, hstate⟩ | ⟨code, reason, hlog, hopen, hclosed⟩
    · exact .inl ⟨hlog'.trans hlog, hstate'.trans hstate⟩
    · exact .inr ⟨code, reason, hlog'.trans hlog, hopen, hstate'.mpr hclosed⟩
  · rcases h.log with ⟨hlog, hstate⟩ | ⟨_, _, _, _, hclosed⟩
    · exact .inr ⟨code, reason, by rw [hlog', hlog], fun hc => hopen' (hstate.mpr hc), hclosed'⟩
    · exact absurd hclosed hopen'

theorem of_eq (hintake : d.intake = c.intake) (hlog : d.log = c.log) (hstate : d.closeState = c.closeState) :
    Outgoing c d := ⟨hintake, .inl ⟨hlog, by rw [hstate]⟩⟩

theorem of_closing (hintake : d.intake = c.intake) (hlog : d.log = c.log) (hc : c.closeState ≠ .closed)
    (hd : d.closeState ≠ .closed) : Outgoing c d := ⟨hintake, .inl ⟨hlog, iff_of_false hd hc⟩⟩

end Outgoing

theorem outgoing_fireClose (code : UInt16) (reason : Bytes) (c : WsConn D I) : Outgoing c (c.fireClose code reason) := by
  unfold fireClose
  split_ifs with hclosed
  · exact .refl c
  · exact ⟨rfl, .inr ⟨code, reason, rfl, hclosed, rfl⟩⟩

theorem outgoing_tryFlush (c : WsConn D I) : Outgoing c (c.tryFlush env) := by
  unfold tryFlush
  split_ifs with hempty
  · exact .refl c
  · have hd : Outgoing c { c with writes := c.writes + 1 } := .of_eq rfl rfl rfl
    cases env.writev c.writes with
    | again => exact .of_eq rfl rfl rfl
    | error => exact hd.trans (outgoing_fireClose _ _ _)
    | wrote n =>
      have hw : Outgoing c (written n { c with writes := c.writes + 1 }) := .of_eq rfl rfl rfl
      dsimp only
      generalize written n { c with writes := c.writes + 1 } = d at hw ⊢
      have hdone : Outgoing c { d with writing := false } := hw.trans (.of_eq rfl rfl rfl)
      split_ifs
      · exact hw.trans (.of_eq rfl rfl rfl)
      · exact hdone.trans (outgoing_fireClose _ _ _)
      · exact hdone

theorem outgoing_connClose (code : UInt16) (reason : Bytes) (c : WsConn D I) :
    Outgoing c (c.connClose env code reason) := by
  unfold connClose
  split_ifs with hopen
  · exact .refl c
  · rw [not_not] at hopen
    have hqueue : Outgoing c (queue env (.close code reason) { c with closeState := .closeSent, closeCode := code }) :=
      .of_closing rfl rfl (by rw [hopen]; exact CloseState.noConfusion) CloseState.noConfusion
    exact (hqueue.trans (outgoing_tryFlush _)).trans (.of_eq rfl rfl rfl)

theorem outgoing_sendFrame (rsv1 : Bool) (opcode : UInt8) (payload : Bytes) (c : WsConn D I) :
    Outgoing c (c.sendFrame env rsv1 opcode payload) :=
  .trans (d := c.queue env (.frame true rsv1 opcode payload)) (.of_eq rfl rfl rfl) (outgoing_tryFlush _)

theorem outgoing_send (text : Bool) (payload : Bytes) (c : WsConn D I) : Outgoing c (c.send env text payload) := by
  unfold send
  by_cases hopen : c.closeState ≠ .open
  · rw [if_pos hopen]
    exact .refl c
  · rw [if_neg hopen]
    cases hctx : c.deflateCtx with
    | none => exact outgoing_sendFrame _ _ _ c
    | some ctx =>
      dsimp only
      split_ifs
      · exact outgoing_sendFrame _ _ _ c
      · have hctx' (s : D) : Outgoing c { c with deflateCtx := some { ctx with deflate := s } } := by
          refine .of_eq ?_ rfl rfl
          unfold intake
          rw [hctx]
          rfl
        cases (env.compress ctx.deflate payload).1 with
        | none | some compressed => exact (hctx' _).trans (outgoing_sendFrame _ _ _ _)

theorem outgoing_userCall (call : UserCall) (c : WsConn D I) : Outgoing c (c.userCall env call) := by
  cases call with
  | send text payload => exact outgoing_send text payload c
  | close code => exact outgoing_connClose code [] c

theorem outgoing_userCalls (calls : List UserCall) (c : WsConn D I) :
    Outgoing c (calls.foldl (fun c call => c.userCall env call) c) := by
  induction calls generalizing c with
  | nil => exact .refl c
  | cons call calls ih => exact (outgoing_userCall call c).trans (ih _)

/-! ### What is assembled -/

theorem messages_append (log log' : List WsNote) : Http.messages (log ++ log') = Http.messages log ++ Http.messages log' :=
  filterMap_append

theorem over_append (n : WsNote) (c : WsConn D I) : (c.note n).Over ↔ c.Over ∨ n.Over := by
  unfold Over note
  simp only [mem_append, mem_singleton, or_and_right, exists_or, exists_eq_left]

theorem assembly_congr (hintake : d.intake = c.intake) (hmsgs : Http.messages d.log = Http.messages c.log)
    (hover : d.Over ↔ c.Over) : d.assembly = c.assembly := by
  have hparts := Intake.mk.inj hintake
  obtain ⟨-, -, -, hbuf, hop, hin, hcomp, hinflate⟩ := hparts
  unfold assembly
  simp only [hmsgs, hover, hbuf, hop, hin, hcomp, hinflate]

namespace Outgoing

theorem over_iff (h : Outgoing c d) : d.Over ↔ c.Over := by
  rcases h.log with ⟨hlog, -⟩ | ⟨code, reason, hlog, -⟩
  · unfold Over
    rw [hlog]
  · show (∃ n ∈ d.log, n.Over) ↔ c.Over
    rw [hlog]
    exact (over_append (.closed code reason) c).trans (or_iff_left id)

theorem messages (h : Outgoing c d) : Http.messages d.log = Http.messages c.log := by
  rcases h.log with ⟨hlog, -⟩ | ⟨code, reason, hlog, -⟩
  · rw [hlog]
  · rw [hlog, messages_append]
    exact List.append_nil _

theorem assembly (h : Outgoing c d) : d.assembly = c.assembly := assembly_congr h.intake h.messages h.over_iff

end Outgoing

theorem assembly_over {n : WsNote} (hn : n.Over) (c : WsConn D I) : (c.note n).assembly = c.assembly.stop := by
  have hover : (c.note n).Over := (over_append n c).mpr (.inr hn)
  have hmsgs : Http.messages (c.note n).log = Http.messages c.log := by
    show Http.messages (c.log ++ [n]) = _
    rw [messages_append]
    cases n with
    | peerClose | violation => exact List.append_nil _
    | message | closed => exact hn.elim
  have hout : c.assembly.out = Http.messages c.log := by
    unfold assembly
    split_ifs <;> rfl
  unfold assembly at hout ⊢
  rw [if_pos hover, hmsgs, Assembly.stop, hout]

theorem assembly_message (text : Bool) (payload : Bytes) (h : ¬ c.Over) :
    (c.note (.message text payload)).assembly = { c.assembly with out := c.assembly.out ++ [(text, payload)] } := by
  have hover : ¬ (c.note (.message text payload)).Over := by
    rw [over_append]
    exact not_or.mpr ⟨h, id⟩
  have hmsgs : Http.messages (c.note (.message text payload)).log = Http.messages c.log ++ [(text, payload)] :=
    messages_append _ _
  unfold assembly
  rw [if_neg hover, if_neg h, hmsgs]
  rfl

theorem assembly_of_not_over (h : ¬ c.Over) :
    c.assembly =
      { started := if c.inFragment then some ⟨c.fragOpcode = opcodeText, c.fragCompressed, c.fragBuf⟩ else none
        inflate := c.deflateCtx.map DeflateCtx.inflate
        out := Http.messages c.log } := if_neg h

theorem assembly_inflate (compressed : Bool) (opcode : UInt8) (payload : Bytes) (h : ¬ c.Over) :
    (c.inflate env compressed opcode payload).noted.assembly =
      c.assembly.finish env.decompress compressed (opcode = opcodeText) payload := by
  have hinflate : c.assembly.inflate = c.deflateCtx.map DeflateCtx.inflate := by rw [assembly_of_not_over h]
  have hplain (hnone : compressed = true → c.assembly.inflate = none) :
      (c.note (.message (opcode = opcodeText) payload)).assembly =
        c.assembly.finish env.decompress compressed (opcode = opcodeText) payload :=
    (assembly_message _ _ h).trans (Assembly.finish_plain _ hnone).symm
  unfold inflate
  cases compressed with
  | false => exact hplain fun hc => absurd hc Bool.false_ne_true
  | true =>
    cases hctx : c.deflateCtx with
    | none => exact hplain fun _ => by rw [hinflate, hctx]; rfl
    | some ctx =>
      have hi : c.assembly.inflate = some ctx.inflate := by rw [hinflate, hctx]; rfl
      have hset (i : I) : assembly { c with deflateCtx := some { ctx with inflate := i } } =
          { c.assembly with inflate := some i } := by
        rw [assembly_of_not_over h]
        exact assembly_of_not_over (c := { c with deflateCtx := some { ctx with inflate := i } }) h
      dsimp only
      cases hout : (env.decompress ctx.inflate payload).1 with
      | none =>
        rw [Assembly.finish_refused _ hi hout]
        refine (assembly_over (n := .violation) trivial _).trans ?_
        rw [hset]
        rfl
      | some decompressed =>
        rw [Assembly.finish_inflate _ hi hout]
        refine (assembly_message (c := { c with deflateCtx := some { ctx with inflate := _ } }) _ _ h).trans ?_
        rw [hset]

variable {f : Frame}

theorem assembly_last (h : ¬ c.Over) (hin : c.inFragment = true) (hcont : f.opcode = opcodeContinuation)
    (hfin : f.fin = true) (hne : ¬ c.EndsEmpty env f) :
    (c.assemble env f).noted.assembly =
      Assembly.finish env.decompress c.fragCompressed (c.fragOpcode = opcodeText) (c.fragBuf ++ f.payload.getD [])
        { inflate := c.assembly.inflate, out := c.assembly.out } := by
  have hdata : ¬ (f.opcode = opcodeText ∨ f.opcode = opcodeBinary) := by
    rw [hcont]
    decide
  have hended : assembly { c with inFragment := false, fragBuf := [] } =
      { inflate := c.assembly.inflate, out := c.assembly.out } := by
    rw [assembly_of_not_over h]
    exact assembly_of_not_over (c := { c with inFragment := false, fragBuf := [] }) h
  unfold assemble
  rw [if_neg hdata, if_pos hcont, if_neg (not_not.mpr hin), if_pos hfin, ← hended]
  by_cases hempty : c.fragCompressed ∧ c.deflateCtx.isSome ∧ c.fragBuf ++ f.payload.getD [] = []
  · obtain ⟨hcomp, hsome, hnil⟩ := hempty
    obtain ⟨ctx, hctx⟩ := Option.isSome_iff_exists.mp hsome
    rw [if_pos ⟨hcomp, hsome, hnil⟩]
    have hi : (assembly { c with inFragment := false, fragBuf := [] }).inflate = some ctx.inflate := by
      rw [hended, assembly_of_not_over h, hctx]
      rfl
    have hout : (env.decompress ctx.inflate []).1 = none := by
      by_contra hsome'
      exact hne ⟨hcont, hfin, hin, hcomp, hnil, ctx, hctx, hsome'⟩
    have hrefused (compressed : Bool) (body : Bytes) (hc : compressed = true) (hb : body = []) :
        Assembly.finish env.decompress compressed (c.fragOpcode = opcodeText) body
          (assembly { c with inFragment := false, fragBuf := [] }) =
            (assembly { c with inFragment := false, fragBuf := [] }).stop := by
      rw [hc, hb]
      exact Assembly.finish_refused _ hi hout
    rw [hrefused _ _ hcomp hnil]
    exact assembly_over (n := .violation) trivial _
  · rw [if_neg hempty]
    exact assembly_inflate (c := { c with inFragment := false, fragBuf := [] }) _ _ _ h

theorem assembly_assemble (h : ¬ c.Over) (hne : ¬ c.EndsEmpty env f)
    (hcontrol : ¬ (f.opcode = opcodePing ∨ f.opcode = opcodePong)) :
    (c.assemble env f).noted.assembly = c.assembly.take env.decompress f := by
  have hviolation : (c.note .violation).assembly = c.assembly.stop := assembly_over (n := .violation) trivial c
  have hstarted : c.assembly.started =
      if c.inFragment then some ⟨c.fragOpcode = opcodeText, c.fragCompressed, c.fragBuf⟩ else none := by
    rw [assembly_of_not_over h]
  have hover : c.assembly.stopped = false := by rw [assembly_of_not_over h]
  unfold Assembly.take
  rw [hover, if_neg Bool.false_ne_true, if_neg hcontrol]
  by_cases hdata : f.opcode = opcodeText ∨ f.opcode = opcodeBinary
  · rw [if_pos hdata]
    by_cases hin : c.inFragment
    · have hrefused : c.assemble env f = .violation c := by
        unfold assemble
        rw [if_pos hdata, if_pos hin]
      rw [hrefused, hstarted, if_pos hin]
      exact hviolation
    · rw [hstarted, if_neg hin]
      by_cases hfin : f.fin
      · have hwhole : c.assemble env f = c.inflate env f.rsv1 f.opcode (f.payload.getD []) := by
          unfold assemble
          rw [if_pos hdata, if_neg hin, if_pos hfin]
        rw [hwhole, if_pos hfin]
        exact assembly_inflate _ _ _ h
      · have hfirst : c.assemble env f = .pending { c with
            inFragment := true, fragOpcode := f.opcode, fragCompressed := f.rsv1, fragBuf := f.payload.getD [] } := by
          unfold assemble
          rw [if_pos hdata, if_neg hin, if_neg hfin]
        rw [hfirst, if_neg hfin, assembly_of_not_over h]
        exact assembly_of_not_over (c := { c with
          inFragment := true, fragOpcode := f.opcode, fragCompressed := f.rsv1, fragBuf := f.payload.getD [] }) h
  · rw [if_neg hdata]
    by_cases hcont : f.opcode = opcodeContinuation
    · rw [if_pos hcont]
      by_cases hin : c.inFragment
      · rw [hstarted, if_pos hin]
        dsimp only
        by_cases hfin : f.fin
        · rw [if_pos hfin]
          exact assembly_last h hin hcont hfin hne
        · have hmore : c.assemble env f = .pending { c with fragBuf := c.fragBuf ++ f.payload.getD [] } := by
            unfold assemble
            rw [if_neg hdata, if_pos hcont, if_neg (not_not.mpr hin), if_neg hfin]
          rw [hmore, if_neg hfin, assembly_of_not_over h]
          refine (assembly_of_not_over (c := { c with fragBuf := c.fragBuf ++ f.payload.getD [] }) h).trans ?_
          rw [if_pos hin]
      · have hrefused : c.assemble env f = .violation c := by
          unfold assemble
          rw [if_neg hdata, if_pos hcont, if_pos hin]
        rw [hrefused, hstarted, if_neg hin]
        exact hviolation
    · have hunknown : c.assemble env f = .violation c := by
        unfold assemble
        rw [if_neg hdata, if_neg hcont]
      rw [hunknown, if_neg hcont]
      exact hviolation

/-! ### A frame -/

theorem stop_assembly (h : c.Over) : c.assembly.stop = c.assembly := by
  unfold assembly
  rw [if_pos h]
  rfl

theorem over_assembly (h : c.Over) : c.assembly.stopped = true := by
  unfold assembly
  rw [if_pos h]

/-- `on_close` was not called on a connection that is not closed, and it is called last. -/
structure Ordered (c : WsConn D I) : Prop where
  open_ : c.closeState ≠ .closed → ∀ n ∈ c.log, n.isClosed = false
  last : c.log.Pairwise fun n _ => n.isClosed = false

theorem Ordered.note {n : WsNote} (h : c.Ordered) (hopen : c.closeState ≠ .closed) (hn : n.isClosed = false) :
    (c.note n).Ordered := by
  have hall := h.open_ hopen
  refine ⟨fun _ m hm => ?_, ?_⟩
  · rcases mem_append.mp hm with hm | hm
    · exact hall m hm
    · rw [mem_singleton.mp hm]
      exact hn
  · show (c.log ++ [n]).Pairwise fun n _ => n.isClosed = false
    rw [pairwise_append]
    exact ⟨h.last, pairwise_singleton _ _, fun a ha _ _ => hall a ha⟩

theorem Ordered.outgoing (h : c.Ordered) (hout : Outgoing c d) : d.Ordered := by
  rcases hout.log with ⟨hlog, hstate⟩ | ⟨code, reason, hlog, hopen, hclosed⟩
  · refine ⟨fun hd => ?_, ?_⟩
    · rw [hlog]
      exact h.open_ fun hc => hd (hstate.mpr hc)
    · rw [hlog]
      exact h.last
  · refine ⟨fun hd => absurd hclosed hd, ?_⟩
    rw [hlog, pairwise_append]
    exact ⟨h.last, pairwise_singleton _ _, fun a ha _ _ => h.open_ hopen a ha⟩

theorem messages_takeWhile {log : List WsNote} (h : log.Pairwise fun n _ => n.isClosed = false) :
    Http.messages (log.takeWhile fun n => !n.isClosed) = Http.messages log := by
  induction log with
  | nil => rfl
  | cons n log ih =>
    rw [pairwise_cons] at h
    obtain ⟨hn, hlog⟩ := h
    cases hclosed : n.isClosed with
    | false =>
      rw [takeWhile_cons_of_pos (by rw [hclosed]; rfl)]
      have hcons (l : List WsNote) : Http.messages (n :: l) = Http.messages [n] ++ Http.messages l :=
        messages_append [n] l
      rw [hcons, ih hlog, ← hcons]
    | true =>
      rw [takeWhile_cons_of_neg (by rw [hclosed]; decide)]
      cases log with
      | nil =>
        cases n with
        | closed code reason => rfl
        | message | peerClose | violation => cases hclosed
      | cons m log => exact absurd (hn m (.head _)) (by rw [hclosed]; decide)

def inbox (c : WsConn D I) : FrameParser × Bytes × Bytes := (c.parser, c.readBuf, c.received)

theorem Outgoing.inbox (h : Outgoing c d) : d.inbox = c.inbox :=
  congrArg (fun i : Intake I => (i.parser, i.readBuf, i.received)) h.intake

/-- What a frame does to a connection. -/
structure Takes (env : WsEnv D I) (f : Frame) (c d : WsConn D I) : Prop where
  ordered : d.Ordered
  inbox : d.inbox = c.inbox
  assembly : d.assembly = c.assembly.take env.decompress f

theorem outgoing_violate (c : WsConn D I) : Outgoing (c.note .violation) (c.violate env) := outgoing_connClose _ _ _

theorem outgoing_peerClose (payload : Bytes) (hopen : c.closeState ≠ .closed) :
    Outgoing (c.note .peerClose) (c.peerClose env payload) := by
  unfold peerClose
  dsimp only
  generalize hd : c.note .peerClose = d
  have hd' : d.closeState ≠ .closed := by
    rw [← hd]
    exact hopen
  cases hstate : d.closeState with
  | «open» =>
    refine .trans (d := queue env (.close _ _) { d with closeState := .closeReceived, closeCode := _, closeReason := _ })
      ?_ (outgoing_tryFlush _)
    exact .of_closing rfl rfl hd' CloseState.noConfusion
  | closeSent => exact outgoing_fireClose _ _ _
  | closeReceived | closed => exact .refl d

theorem takes_data (hord : c.Ordered) (hopen : c.closeState ≠ .closed) (hfits : c.FrameArrives env f)
    (hcontrol : ¬ (f.opcode = opcodePing ∨ f.opcode = opcodePong)) :
    Takes env f c (c.assemble env f).noted := by
  obtain ⟨ctx, buf, op, started, compressed, hconn⟩ := conn_assemble (c := c) f
  have hpart (d : WsConn D I) (hd : d = { c with
      deflateCtx := ctx, fragBuf := buf, fragOpcode := op, inFragment := started, fragCompressed := compressed }) :
      d.Ordered ∧ d.inbox = c.inbox ∧ d.closeState ≠ .closed ∧ (d.Over ↔ c.Over) ∧ d.log = c.log := by
    rw [hd]
    exact ⟨⟨hord.open_, hord.last⟩, rfl, hopen, Iff.rfl, rfl⟩
  have hasm : (c.assemble env f).noted.assembly = c.assembly.take env.decompress f := by
    unfold FrameArrives at hfits
    by_cases hover : c.Over
    · rw [if_pos hover] at hfits
      rw [Assembly.take_over (over_assembly hover)]
      cases hres : c.assemble env f with
      | pending d =>
        rw [hres] at hconn
        obtain ⟨-, -, -, hd, hlog⟩ := hpart d hconn
        show d.assembly = c.assembly
        unfold assembly
        rw [if_pos hover, if_pos (hd.mpr hover), hlog]
      | violation d =>
        rw [hres] at hconn
        obtain ⟨-, -, -, hd, hlog⟩ := hpart d hconn
        refine (assembly_over (n := .violation) trivial d).trans ?_
        rw [stop_assembly (hd.mpr hover)]
        unfold assembly
        rw [if_pos hover, if_pos (hd.mpr hover), hlog]
      | message opcode payload d => exact absurd hres (hfits opcode payload d)
    · rw [if_neg hover] at hfits
      exact assembly_assemble hover hfits hcontrol
  cases hres : c.assemble env f with
  | pending d =>
    rw [hres] at hconn hasm
    obtain ⟨hord', hinbox, -, -, -⟩ := hpart d hconn
    exact ⟨hord', hinbox, hasm⟩
  | violation d | message opcode payload d =>
    rw [hres] at hconn hasm
    obtain ⟨hord', hinbox, hopen', -, -⟩ := hpart d hconn
    exact ⟨hord'.note hopen' rfl, hinbox, hasm⟩

theorem Takes.outgoing (h : Takes env f c d) (hout : Outgoing d e) : Takes env f c e :=
  ⟨h.ordered.outgoing hout, hout.inbox.trans h.inbox, hout.assembly.trans h.assembly⟩

theorem takes_processFrame (hord : c.Ordered) (hopen : c.closeState ≠ .closed)
    (hfits : c.FrameArrives env f) : Takes env f c (c.processFrame env f) := by
  have hsame (h : f.opcode = opcodePing ∨ f.opcode = opcodePong) : Takes env f c c :=
    ⟨hord, rfl, (Assembly.take_ping h).symm⟩
  unfold processFrame
  by_cases hping : f.opcode = opcodePing
  · rw [if_pos hping]
    exact (hsame (.inl hping)).outgoing (outgoing_sendFrame _ _ _ c)
  rw [if_neg hping]
  by_cases hpong : f.opcode = opcodePong
  · rw [if_pos hpong]
    exact hsame (.inr hpong)
  rw [if_neg hpong]
  by_cases hclose : f.opcode = opcodeClose
  · rw [if_pos hclose]
    have hnote : Takes env f c (c.note .peerClose) := by
      refine ⟨hord.note hopen rfl, rfl, (assembly_over (n := .peerClose) trivial c).trans ?_⟩
      by_cases hover : c.Over
      · rw [stop_assembly hover, Assembly.take_over (over_assembly hover)]
      · exact (Assembly.take_close hclose (by rw [assembly_of_not_over hover])).symm
    exact hnote.outgoing (outgoing_peerClose _ hopen)
  rw [if_neg hclose]
  have hdata : Takes env f c (c.assemble env f).noted := takes_data hord hopen hfits (not_or.mpr ⟨hping, hpong⟩)
  cases hres : c.assemble env f with
  | pending d =>
    rw [hres] at hdata
    exact hdata
  | violation d =>
    rw [hres] at hdata
    exact hdata.outgoing (outgoing_violate d)
  | message opcode payload d =>
    rw [hres] at hdata
    exact hdata.outgoing (outgoing_userCalls _ _)

end WsConn

end Libx.Http
