import Libx.Http.Deflate
import Libx.Http.Messages

/-!
# Libx.Http.DeflateAgree — both ends agree on compression
-/

namespace Libx.Http

open Libx.Agent (Bytes bytes)
open List Option

/-- Calls of `deflate` until there is room left, and what they put out. -/
inductive DeflateRound {D I : Type} (z : Zlib D I) : D → Bytes → D → Bytes → Prop
  | last {d : D} {input : Bytes} {room : ℕ} : (z.deflate d input room).result ≠ .error →
      (z.deflate d input room).out.length < room →
        DeflateRound z d input (z.deflate d input room).stream (z.deflate d input room).out
  | more {d d' : D} {input out : Bytes} {room : ℕ} : (z.deflate d input room).result ≠ .error →
      DeflateRound z (z.deflate d input room).stream (z.deflate d input room).rest d' out →
        DeflateRound z d input d' ((z.deflate d input room).out ++ out)

/-- What zlib promises of raw streams. `mates`: the two have the same window; `synced`: and the same went through them;
`holds i input msg d`: the stream `i` with that much unread input has `msg` to put out, and then it is in step with `d`. -/
structure Zlib.Correct {D I : Type} (z : Zlib D I) where
  mates : D → I → Prop
  synced : D → I → Prop
  holds : I → Bytes → Bytes → D → Prop
  /-- Eight bits are refused for a raw stream by `deflateInit2`, and only by it. -/
  deflateInit2 : ∀ bits : ℕ, IsWindow bits → ((z.deflateInit2 (-bits)).isSome ↔ bits ≠ 8)
  inflateInit2 : ∀ bits : ℕ, IsWindow bits → (z.inflateInit2 (-bits)).isSome
  init : ∀ (bits : ℕ) d i, z.deflateInit2 (-bits) = some d → z.inflateInit2 (-bits) = some i → synced d i
  mates_of_synced : ∀ d i, synced d i → mates d i
  mates_deflate : ∀ d i input room, mates d i → mates (z.deflate d input room).stream i
  mates_deflateReset : ∀ d d' i, mates d i → z.deflateReset d = some d' → mates d' i
  inflateReset : ∀ d i, mates d i → ∃ i', z.inflateReset i = some i' ∧
    ∀ d', z.deflateReset d = some d' → synced d' i'
  /-- A sync flush ends with the tail, and what it put out can be inflated. -/
  flush : ∀ d i msg d' out, msg ≠ [] → synced d i → DeflateRound z d msg d' out →
    ∃ body, out = body ++ deflateTail ∧ holds i (body ++ deflateTail) msg d'
  /-- `inflate` goes on until the input is read or there is no room left. -/
  step : ∀ i input msg d room, holds i input msg d → input ≠ [] → 0 < room →
    (z.inflate i input room).result = .ok ∧
      ((z.inflate i input room).rest ≠ [] → (z.inflate i input room).out.length = room) ∧
      ∃ msg', msg = (z.inflate i input room).out ++ msg' ∧
        holds (z.inflate i input room).stream (z.inflate i input room).rest msg' d
  done : ∀ i msg d, holds i [] msg d → msg = [] ∧ synced d i

section Streams

variable {D I : Type} {z : Zlib D I}

theorem stripTail_append (body : Bytes) : stripTail (body ++ deflateTail) = body := by
  have hlen : (body ++ deflateTail).length - 4 = body.length := by
    rw [length_append]
    exact Nat.add_sub_cancel body.length 4
  unfold stripTail
  rw [hlen, drop_left, take_left, if_pos]
  refine ⟨?_, rfl⟩
  rw [length_append]
  exact Nat.le_add_left _ _

variable {payload : Bytes}

theorem compressLoop_some {allocs : ℕ} {d : D} {input : Bytes} {room size : ℕ} {got : Bytes}
    (h : (compressLoop z allocs (z.deflate d input room) room size got).1 = some payload) :
    ∃ out, DeflateRound z d input (compressLoop z allocs (z.deflate d input room) room size got).2 out ∧
      payload = stripTail (got ++ out) := by
  induction allocs generalizing d input room size got with
  | zero =>
    unfold compressLoop at h ⊢
    by_cases herror : (z.deflate d input room).result = .error
    · rw [if_pos herror] at h
      cases h
    rw [if_neg herror] at h ⊢
    dsimp only at h ⊢
    by_cases hroom : (z.deflate d input room).out.length < room
    · rw [if_pos hroom] at h ⊢
      exact ⟨_, .last herror hroom, (some.inj h).symm⟩
    · rw [if_neg hroom] at h
      cases h
  | succ allocs ih =>
    unfold compressLoop at h ⊢
    by_cases herror : (z.deflate d input room).result = .error
    · rw [if_pos herror] at h
      cases h
    rw [if_neg herror] at h ⊢
    dsimp only at h ⊢
    by_cases hroom : (z.deflate d input room).out.length < room
    · rw [if_pos hroom] at h ⊢
      exact ⟨_, .last herror hroom, (some.inj h).symm⟩
    · rw [if_neg hroom] at h ⊢
      obtain ⟨out, hround, hpayload⟩ := ih h
      exact ⟨_, .more herror hround, by rw [hpayload, append_assoc]⟩

variable (hz : z.Correct)

theorem mates_compressLoop {allocs : ℕ} {d : D} {i : I} {input : Bytes} {room size : ℕ} {got : Bytes}
    (h : hz.mates d i) : hz.mates (compressLoop z allocs (z.deflate d input room) room size got).2 i := by
  have hstep := hz.mates_deflate d i input room h
  induction allocs generalizing d input room size got with
  | zero =>
    unfold compressLoop
    dsimp only
    split_ifs
    all_goals exact hstep
  | succ allocs ih =>
    unfold compressLoop
    dsimp only
    split_ifs
    · exact hstep
    · exact hstep
    · exact ih hstep (hz.mates_deflate _ i _ _ hstep)

/-- **Inflating** ends with the message, if that is not too long and there is memory. -/
theorem decompressLoop_of_holds {allocs : ℕ} {i : I} {input msg got : Bytes} {d : D} {room size : ℕ}
    (h : hz.holds i input msg d) (hne : input ≠ []) (hroom : 0 < room) (hsize : got.length + room = size)
    (hmsg : (got ++ msg).length ≤ 32 * 1024 * 1024) (hmem : maxInflated ≤ size * 2 ^ allocs) :
    (decompressLoop z allocs (z.inflate i input room) size got).1 = some (got ++ msg) ∧
      hz.synced d (decompressLoop z allocs (z.inflate i input room) size got).2 := by
  induction allocs generalizing i input msg got room size with
  | zero =>
    obtain ⟨hok, hfull, msg', hsplit, hholds⟩ := hz.step i input msg d room h hne hroom
    have hlast : (z.inflate i input room).rest = [] := by
      by_contra hrest
      have hout := hfull hrest
      rw [hsplit, length_append, length_append] at hmsg
      rw [Nat.pow_zero, Nat.mul_one] at hmem
      unfold maxInflated at hmem
      omega
    rw [hlast] at hholds
    obtain ⟨hnil, hsynced⟩ := hz.done _ _ _ hholds
    unfold decompressLoop
    dsimp only
    rw [if_neg fun hand => hand.2 hlast, if_neg (by rw [hok]; exact ZResult.noConfusion), hsplit, hnil, List.append_nil]
    exact ⟨rfl, hsynced⟩
  | succ allocs ih =>
    obtain ⟨hok, hfull, msg', hsplit, hholds⟩ := hz.step i input msg d room h hne hroom
    unfold decompressLoop
    dsimp only
    by_cases hrest : (z.inflate i input room).rest = []
    · rw [hrest] at hholds
      obtain ⟨hnil, hsynced⟩ := hz.done _ _ _ hholds
      rw [if_neg fun hand => hand.2 hrest, if_neg (by rw [hok]; exact ZResult.noConfusion), hsplit, hnil, List.append_nil]
      exact ⟨rfl, hsynced⟩
    · have hout := hfull hrest
      have hgot : (got ++ (z.inflate i input room).out).length = size := by
        rw [length_append, hout]
        exact hsize
      have hlimit : ¬ maxInflated < 2 * size := by
        rw [hsplit, length_append, length_append] at hmsg
        rw [length_append] at hgot
        unfold maxInflated
        omega
      rw [if_pos ⟨hok, hrest⟩, if_neg hlimit, hgot, hsplit, ← append_assoc]
      refine ih hholds hrest (by omega) (by rw [hgot]; omega) ?_ ?_
      · rw [append_assoc, ← hsplit]
        exact hmsg
      · rw [Nat.mul_comm 2, Nat.mul_assoc, ← Nat.pow_succ']
        exact hmem

/-- The streams of a sender and of its receiver: the same window, and in step where the context is taken over. -/
structure Paired (s : Stream D) (r : Stream I) : Prop where
  takeover : s.noContextTakeover = r.noContextTakeover
  mates : hz.mates s.strm r.strm
  synced : s.noContextTakeover = false → hz.synced s.strm r.strm

variable {hz} {s : Stream D} {r : Stream I}

theorem paired_of_synced {d : D} {i : I} {n m : ℕ} (hcalls : s.noContextTakeover = r.noContextTakeover)
    (h : hz.synced d i) : Paired hz { s with strm := d, calls := n } { r with strm := i, calls := m } :=
  ⟨hcalls, hz.mates_of_synced _ _ h, fun _ => h⟩

theorem synced_start {d : D} (h : Paired hz s r)
    (hd : (if s.noContextTakeover then z.deflateReset s.strm else some s.strm) = some d) :
    ∃ i, (if r.noContextTakeover then z.inflateReset r.strm else some r.strm) = some i ∧ hz.synced d i := by
  rw [← h.takeover]
  by_cases hno : s.noContextTakeover
  · rw [if_pos hno] at hd ⊢
    obtain ⟨i, hi, hsynced⟩ := hz.inflateReset _ _ h.mates
    exact ⟨i, hi, hsynced d hd⟩
  · rw [if_neg hno] at hd ⊢
    obtain rfl := some.inj hd
    exact ⟨r.strm, rfl, h.synced (Bool.eq_false_iff.mpr hno)⟩

theorem mates_start {d : D} {i : I} (h : hz.mates s.strm i)
    (hd : (if s.noContextTakeover then z.deflateReset s.strm else some s.strm) = some d) : hz.mates d i := by
  split_ifs at hd
  · exact hz.mates_deflateReset _ _ _ h hd
  · rwa [some.inj hd] at h

/-- **A message goes through** a sender that compresses it and a receiver that has memory. -/
theorem decompress_of_compress {allocs allocs' : ℕ} {body : Bytes} (h : Paired hz s r) (hne : payload ≠ [])
    (hlen : payload.length ≤ 32 * 1024 * 1024) (hmem : 16 ≤ allocs') (hbody : (compress z allocs s payload).1 = some body) :
    (decompress z allocs' r body).1 = some payload ∧
      Paired hz (compress z allocs s payload).2 (decompress z allocs' r body).2 := by
  obtain ⟨n, rfl⟩ : ∃ n, allocs' = n + 2 := ⟨allocs' - 2, by omega⟩
  unfold compress at hbody ⊢
  cases hd : (if s.noContextTakeover then z.deflateReset s.strm else some s.strm) with
  | none =>
    rw [hd] at hbody
    cases hbody
  | some d =>
    rw [hd] at hbody
    obtain ⟨i, hi, hsynced⟩ := synced_start h hd
    cases allocs with
    | zero => cases hbody
    | succ allocs =>
      dsimp only at hbody ⊢
      obtain ⟨out, hround, hstrip⟩ := compressLoop_some hbody
      obtain ⟨body', hout, hholds⟩ := hz.flush _ _ _ _ _ hne hsynced hround
      rw [nil_append, hout, stripTail_append] at hstrip
      subst hstrip
      have hpow : maxInflated ≤ max 4096 (4 * body.length) * 2 ^ n := by
        have h14 : 4096 * 2 ^ 14 ≤ max 4096 (4 * body.length) * 2 ^ n :=
          Nat.mul_le_mul (le_max_left _ _) (Nat.pow_le_pow_right (by decide) (by omega))
        exact h14
      have hinflated := @decompressLoop_of_holds _ _ _ hz n i _ payload [] _ _ _ hholds
        (append_ne_nil_of_right_ne_nil _ (by decide)) (lt_of_lt_of_le (by decide) (le_max_left 4096 (4 * body.length)))
        (Nat.zero_add _) hlen hpow
      unfold decompress
      rw [hi]
      dsimp only
      exact ⟨hinflated.1, paired_of_synced h.takeover hinflated.2⟩

/-- A message that is not compressed leaves the streams where they are, if its compression did not fail midway. -/
theorem paired_of_none {allocs : ℕ} (h : Paired hz s r)
    (hearly : s.noContextTakeover = true ∨ allocs = 0) : Paired hz (compress z allocs s payload).2 r := by
  have hkeep (d : D) (hd : hz.mates d r.strm) (hsynced : s.noContextTakeover = false → hz.synced d r.strm) :
      Paired hz { s with strm := d, calls := s.calls + 1 } r := ⟨h.takeover, hd, hsynced⟩
  unfold compress
  cases hd : (if s.noContextTakeover then z.deflateReset s.strm else some s.strm) with
  | none => exact hkeep _ h.mates h.synced
  | some d =>
    have hmates : hz.mates d r.strm := mates_start h.mates hd
    cases allocs with
    | zero =>
      refine hkeep _ hmates fun hno => ?_
      rw [hno, if_neg Bool.false_ne_true] at hd
      obtain rfl := some.inj hd
      exact h.synced hno
    | succ allocs =>
      refine hkeep _ (mates_compressLoop hz hmates) fun hno => ?_
      rcases hearly with hno' | hzero
      · exact absurd (hno.symm.trans hno') Bool.false_ne_true
      · cases hzero

end Streams

/-! ### Sends -/

namespace WsConn

section Sends

variable {D I : Type} {env : WsEnv D I} {c : WsConn D I}

/-- `xWsSend` one after the other, with those it accepts. -/
def sendAll (env : WsEnv D I) (c : WsConn D I) : List Message → WsConn D I × List Message
  | [] => (c, [])
  | m :: ms =>
    let r := (c.send env m.1 m.2).sendAll env ms
    (r.1, if c.closeState = .open then m :: r.2 else r.2)

theorem kept_fireClose (code : UInt16) (reason : Bytes) (c : WsConn D I) :
    (c.fireClose code reason).queued = c.queued ∧ (c.fireClose code reason).deflateCtx = c.deflateCtx ∧
      (c.fireClose code reason).isClient = c.isClient := by
  unfold fireClose
  split_ifs
  · exact ⟨rfl, rfl, rfl⟩
  · exact ⟨rfl, rfl, rfl⟩

theorem kept_tryFlush (c : WsConn D I) :
    (c.tryFlush env).queued = c.queued ∧ (c.tryFlush env).deflateCtx = c.deflateCtx ∧
      (c.tryFlush env).isClient = c.isClient := by
  unfold tryFlush
  split_ifs
  · exact ⟨rfl, rfl, rfl⟩
  · dsimp only
    cases env.writev c.writes with
    | again => exact ⟨rfl, rfl, rfl⟩
    | error => exact kept_fireClose _ _ { c with writes := c.writes + 1 }
    | wrote n =>
      have hkept : (written n { c with writes := c.writes + 1 }).queued = c.queued ∧
          (written n { c with writes := c.writes + 1 }).deflateCtx = c.deflateCtx ∧
          (written n { c with writes := c.writes + 1 }).isClient = c.isClient := ⟨rfl, rfl, rfl⟩
      dsimp only
      generalize written n { c with writes := c.writes + 1 } = d at hkept ⊢
      split_ifs
      · exact hkept
      · obtain ⟨hq, hctx, hclient⟩ := kept_fireClose d.closeCode d.closeReason { d with writing := false }
        exact ⟨hq.trans hkept.1, hctx.trans hkept.2.1, hclient.trans hkept.2.2⟩
      · exact hkept

/-- The frame, the streams and the role after a frame went out. -/
structure Sent (rsv1 : Bool) (text : Bool) (body : Bytes) (ctx : Option (DeflateCtx D I)) (c d : WsConn D I) : Prop where
  queued : ∃ key, d.queued = c.queued ++ [.frame true rsv1 (dataOpcode text) body key]
  ctx : d.deflateCtx = ctx
  isClient : d.isClient = c.isClient

variable (env) in
theorem sent_sendFrame (rsv1 text : Bool) (body : Bytes) (c : WsConn D I) :
    Sent rsv1 text body c.deflateCtx c (c.sendFrame env rsv1 (dataOpcode text) body) := by
  have hkept := @kept_tryFlush _ _ env (c.queue env (.frame true rsv1 (dataOpcode text) body))
  exact ⟨⟨_, hkept.1⟩, hkept.2.1, hkept.2.2⟩

theorem send_of_not_open (text : Bool) (payload : Bytes) (h : c.closeState ≠ .open) : c.send env text payload = c := by
  unfold send
  exact if_pos h

theorem sent_plain (text : Bool) {payload : Bytes} (hopen : c.closeState = .open)
    (h : c.deflateCtx = none ∨ payload = []) : Sent false text payload c.deflateCtx c (c.send env text payload) := by
  unfold send
  rw [if_neg (not_not.mpr hopen)]
  have hframe := sent_sendFrame env false text payload c
  cases hctx : c.deflateCtx with
  | none =>
    rw [hctx] at hframe
    exact hframe
  | some ctx =>
    rw [hctx] at hframe h
    dsimp only
    rw [if_pos (h.resolve_left (some_ne_none ctx))]
    exact hframe

theorem sent_failed (text : Bool) {payload : Bytes} {ctx : DeflateCtx D I} (hopen : c.closeState = .open)
    (hctx : c.deflateCtx = some ctx) (hne : payload ≠ []) (hout : (env.compress ctx.deflate payload).1 = none) :
    Sent false text payload (some { ctx with deflate := (env.compress ctx.deflate payload).2 }) c
      (c.send env text payload) := by
  unfold send
  rw [if_neg (not_not.mpr hopen), hctx]
  dsimp only
  rw [if_neg hne, hout]
  obtain ⟨hq, hctx', hclient⟩ := sent_sendFrame env false text payload
    { c with deflateCtx := some { ctx with deflate := (env.compress ctx.deflate payload).2 } }
  exact ⟨hq, hctx', hclient⟩

theorem sent_compressed (text : Bool) {payload body : Bytes} {ctx : DeflateCtx D I} (hopen : c.closeState = .open)
    (hctx : c.deflateCtx = some ctx) (hne : payload ≠ []) (hout : (env.compress ctx.deflate payload).1 = some body) :
    Sent true text body (some { ctx with deflate := (env.compress ctx.deflate payload).2 }) c
      (c.send env text payload) := by
  unfold send
  rw [if_neg (not_not.mpr hopen), hctx]
  dsimp only
  rw [if_neg hne, hout]
  obtain ⟨hq, hctx', hclient⟩ := sent_sendFrame env true text body
    { c with deflateCtx := some { ctx with deflate := (env.compress ctx.deflate payload).2 } }
  exact ⟨hq, hctx', hclient⟩

end Sends

end WsConn

theorem take_parsed {I : Type} {decompress : I → Bytes → Option Bytes × I} {a : Assembly I} (masked rsv1 text : Bool)
    (body : Bytes) (key : MaskingKey) (hstarted : a.started = none) (hstopped : a.stopped = false) :
    a.take decompress (Sending.parsed masked (.frame true rsv1 (dataOpcode text) body key)) =
      a.finish decompress rsv1 text body := by
  have hbody : (Sending.parsed masked (.frame true rsv1 (dataOpcode text) body key)).payload.getD [] = body := by
    show (if body = [] then none else some body).getD [] = body
    split_ifs with h
    · exact h.symm
    · rfl
  have hop : (Sending.parsed masked (.frame true rsv1 (dataOpcode text) body key)).opcode = dataOpcode text := rfl
  have hdata : dataOpcode text = opcodeText ∨ dataOpcode text = opcodeBinary := by cases text <;> decide
  have hcontrol : ¬ (dataOpcode text = opcodePing ∨ dataOpcode text = opcodePong) := by cases text <;> decide
  have htext : decide (dataOpcode text = opcodeText) = text := by cases text <;> decide
  unfold Assembly.take
  dsimp only
  rw [hbody, hop, hstopped, if_neg Bool.false_ne_true, if_neg hcontrol, if_pos hdata, hstarted, htext]
  rfl

/-! ### Both ends -/

section Agree

variable {D I : Type} (e : DeflateEnv D I)

def Plain (c : WsConn (Stream D) (Stream I)) (payload : Bytes) : Prop :=
  ∀ ctx, c.deflateCtx = some ctx → payload = [] ∨ (e.ws.compress ctx.deflate payload).1 = none

/-- A compression that fails after `deflate` got the message, and after which the next one goes on from there. -/
def Spoils (c : WsConn (Stream D) (Stream I)) (payload : Bytes) : Prop :=
  ∃ ctx, c.deflateCtx = some ctx ∧ payload ≠ [] ∧ (e.ws.compress ctx.deflate payload).1 = none ∧
    ctx.deflate.noContextTakeover = false ∧ e.allocs ctx.deflate.calls ≠ 0

/-- What is sent: a message that is compressed is no longer than 32 MiB and does not come after one that spoiled the
stream. -/
def SendsFit : Prop → WsConn (Stream D) (Stream I) → List Message → Prop
  | _, _, [] => True
  | spoiled, c, m :: ms =>
    (c.closeState = .open → ¬ Plain e c m.2 → m.2.length ≤ 32 * 1024 * 1024 ∧ ¬ spoiled) ∧
      SendsFit (spoiled ∨ Spoils e c m.2) (c.send e.ws m.1 m.2) ms

/-- No window of eight bits is asked for: not for the server, and not for a client that has to inflate. -/
def OfferFits (offer : Option Bytes) (fromClient : Bool) : Prop :=
  ∀ params, negotiated offer = some params →
    params.serverMaxWindowBits ≠ 8 ∧ (fromClient = false → params.clientMaxWindowBits ≠ 8)

/-- The two connections of an offer, with what came behind the handshake: the one that sends and the one that receives. -/
def sender (offer : Option Bytes) (fromClient hasIdleTimeout : Bool) (rest rest' : Bytes) :
    WsConn (Stream D) (Stream I) :=
  if fromClient then clientConn e.zlib offer rest' else serverConn e.zlib offer hasIdleTimeout rest

def receiver (offer : Option Bytes) (fromClient hasIdleTimeout : Bool) (rest rest' : Bytes) :
    WsConn (Stream D) (Stream I) :=
  sender e offer (!fromClient) hasIdleTimeout rest rest'

/-- Both ends agree: on whether there is compression, on its parameters, on the frames that may be compressed, and on the
messages. -/
structure Agrees (offer : Option Bytes) (fromClient hasIdleTimeout : Bool) (rest rest' : Bytes) (sends : List Message) :
    Prop where
  named : (response offer).isSome ↔
    (serverConn e.zlib offer hasIdleTimeout rest).deflateCtx.isSome ∧
      (serverConn e.zlib offer hasIdleTimeout rest).parser.allowRsv1 = true
  params : ∀ value, response offer = some value → parseOffer value = negotiated offer
  accepted : ∀ i ∈ ((sender e offer fromClient hasIdleTimeout rest rest').sendAll e.ws sends).1.queued,
    i.rsv1 = true → (receiver e offer fromClient hasIdleTimeout rest rest').parser.allowRsv1 = true
  inflated : (Assembly.takeAll e.ws.decompress (receiver e offer fromClient hasIdleTimeout rest rest').assembly
      (((sender e offer fromClient hasIdleTimeout rest rest').sendAll e.ws sends).1.queued.map
        (Sending.parsed fromClient))).out =
    ((sender e offer fromClient hasIdleTimeout rest rest').sendAll e.ws sends).2

variable {e} (hz : e.zlib.Correct)

/-- A sender and what its receiver has assembled. -/
structure Lockstep (spoiled : Prop) (c : WsConn (Stream D) (Stream I)) (a : Assembly (Stream I)) : Prop where
  started : a.started = none
  stopped : a.stopped = false
  paired : ∀ ctx, c.deflateCtx = some ctx → ¬ spoiled → ∃ r, a.inflate = some r ∧ Paired hz ctx.deflate r

variable {hz} {spoiled : Prop} {c : WsConn (Stream D) (Stream I)} {a : Assembly (Stream I)}

theorem lockstep_send (h : Lockstep hz spoiled c a) (hopen : c.closeState = .open) (hmem : ∀ n, 16 ≤ e.allocs' n)
    (text : Bool) {payload : Bytes}
    (hfits : ¬ Plain e c payload → payload.length ≤ 32 * 1024 * 1024 ∧ ¬ spoiled) :
    ∃ rsv1 body key, (c.send e.ws text payload).queued = c.queued ++ [.frame true rsv1 (dataOpcode text) body key] ∧
      (c.send e.ws text payload).isClient = c.isClient ∧
      (rsv1 = true → c.deflateCtx.isSome) ∧ ((c.send e.ws text payload).deflateCtx.isSome ↔ c.deflateCtx.isSome) ∧
      (a.finish e.ws.decompress rsv1 text body).out = a.out ++ [(text, payload)] ∧
      Lockstep hz (spoiled ∨ Spoils e c payload) (c.send e.ws text payload) (a.finish e.ws.decompress rsv1 text body) := by
  have hplain (b : Bytes) : a.finish e.ws.decompress false text b = { a with out := a.out ++ [(text, b)] } :=
    Assembly.finish_plain text fun hf => absurd hf Bool.false_ne_true
  by_cases hnone : c.deflateCtx = none ∨ payload = []
  · obtain ⟨⟨key, hq⟩, hctx, hclient⟩ := @WsConn.sent_plain _ _ e.ws _ text _ hopen hnone
    refine ⟨false, payload, key, hq, hclient, fun hf => absurd hf Bool.false_ne_true, by rw [hctx], ?_, ?_⟩
    · rw [hplain]
    · rw [hplain]
      refine ⟨h.started, h.stopped, fun ctx hctx' hnot => ?_⟩
      rw [hctx] at hctx'
      exact h.paired ctx hctx' fun hs => hnot (.inl hs)
  · obtain ⟨hctxne, hne⟩ := not_or.mp hnone
    obtain ⟨ctx, hctx⟩ := ne_none_iff_exists'.mp hctxne
    cases hout : (e.ws.compress ctx.deflate payload).1 with
    | none =>
      obtain ⟨⟨key, hq⟩, hctx', hclient⟩ := WsConn.sent_failed text hopen hctx hne hout
      refine ⟨false, payload, key, hq, hclient, fun hf => absurd hf Bool.false_ne_true, by rw [hctx', hctx]; rfl, ?_, ?_⟩
      · rw [hplain]
      · rw [hplain]
        refine ⟨h.started, h.stopped, fun ctx' heq hnot => ?_⟩
        obtain rfl := some.inj (hctx'.symm.trans heq)
        obtain ⟨r, hr, hpaired⟩ := h.paired ctx hctx fun hs => hnot (.inl hs)
        refine ⟨r, hr, paired_of_none hpaired ?_⟩
        by_contra hlate
        obtain ⟨hno, hzero⟩ := not_or.mp hlate
        exact hnot (.inr ⟨ctx, hctx, hne, hout, Bool.eq_false_iff.mpr hno, hzero⟩)
    | some body =>
      obtain ⟨⟨key, hq⟩, hctx', hclient⟩ := WsConn.sent_compressed text hopen hctx hne hout
      have hnotplain : ¬ Plain e c payload := by
        intro hp
        rcases hp ctx hctx with hnil | hfail
        · exact hne hnil
        · exact some_ne_none body (hout.symm.trans hfail)
      obtain ⟨hlen, hnots⟩ := hfits hnotplain
      obtain ⟨r, hr, hpaired⟩ := h.paired ctx hctx hnots
      obtain ⟨hmsg, hpaired'⟩ := decompress_of_compress hpaired hne hlen (hmem r.calls) hout
      have hmessage : (e.ws.decompress r body).1 = some payload := hmsg
      have hfinish : a.finish e.ws.decompress true text body =
          { a with inflate := some (e.ws.decompress r body).2, out := a.out ++ [(text, payload)] } :=
        Assembly.finish_inflate text hr hmessage
      refine ⟨true, body, key, hq, hclient, fun _ => by rw [hctx]; rfl, by rw [hctx', hctx]; exact Iff.rfl, ?_, ?_⟩
      · exact congrArg Assembly.out hfinish
      · have hl : Lockstep hz (spoiled ∨ Spoils e c payload) (c.send e.ws text payload)
            { a with inflate := some (e.ws.decompress r body).2, out := a.out ++ [(text, payload)] } := by
          refine ⟨h.started, h.stopped, fun ctx' heq _ => ?_⟩
          obtain rfl := some.inj (hctx'.symm.trans heq)
          exact ⟨_, rfl, hpaired'⟩
        rw [← hfinish] at hl
        exact hl

theorem Lockstep.mono {spoiled' : Prop} (h : Lockstep hz spoiled c a) (himp : spoiled → spoiled') :
    Lockstep hz spoiled' c a :=
  ⟨h.started, h.stopped, fun ctx hctx hnot => h.paired ctx hctx (mt himp hnot)⟩

variable {params : DeflateParams}

/-- **All sends**: the frames that go out, and what they come to. -/
theorem lockstep_sendAll (masked : Bool) (h : Lockstep hz spoiled c a) (hmem : ∀ n, 16 ≤ e.allocs' n)
    {sends : List Message} (hfits : SendsFit e spoiled c sends) :
    ∃ frames, (c.sendAll e.ws sends).1.queued = c.queued ++ frames ∧
      (Assembly.takeAll e.ws.decompress a (frames.map (Sending.parsed masked))).out =
        a.out ++ (c.sendAll e.ws sends).2 ∧
      ∀ i ∈ frames, i.rsv1 = true → c.deflateCtx.isSome := by
  induction sends generalizing spoiled c a with
  | nil => exact ⟨[], (List.append_nil _).symm, (List.append_nil _).symm, fun i hi => absurd hi not_mem_nil⟩
  | cons m ms ih =>
    obtain ⟨hhead, htail⟩ := hfits
    unfold WsConn.sendAll
    dsimp only
    by_cases hopen : c.closeState = .open
    · obtain ⟨rsv1, body, key, hq, -, hrsv1, hsome, hout, hnext⟩ := lockstep_send h hopen hmem m.1 (hhead hopen)
      obtain ⟨frames, hqs, houts, hrsvs⟩ := ih hnext htail
      refine ⟨.frame true rsv1 (dataOpcode m.1) body key :: frames, ?_, ?_, ?_⟩
      · rw [hqs, hq, append_assoc, singleton_append]
      · rw [if_pos hopen, map_cons, Assembly.takeAll, foldl_cons,
          take_parsed masked rsv1 m.1 body key h.started h.stopped]
        rw [hout, append_assoc] at houts
        exact houts
      · intro i hi hset
        rcases mem_cons.mp hi with rfl | hi
        · exact hrsv1 hset
        · exact hsome.mp (hrsvs i hi hset)
    · rw [WsConn.send_of_not_open m.1 m.2 hopen] at htail ⊢
      rw [if_neg hopen]
      exact ih (h.mono .inl) htail

/-! ### The handshake -/

theorem isWindow_negotiated {offer : Option Bytes} (h : negotiated offer = some params) :
    IsWindow params.serverMaxWindowBits ∧ IsWindow params.clientMaxWindowBits := by
  unfold negotiated at h
  split at h
  · split_ifs at h
    exact isWindow_parseOffer h
  · cases h

theorem isSome_deflateCreate {z : Zlib D I} (hz : z.Correct)
    (hs : IsWindow params.serverMaxWindowBits) (hc : IsWindow params.clientMaxWindowBits) (isClient : Bool) :
    (deflateCreate z params isClient).isSome ↔
      (if isClient then params.clientMaxWindowBits else params.serverMaxWindowBits) ≠ 8 := by
  have hsend : IsWindow (if isClient then params.clientMaxWindowBits else params.serverMaxWindowBits) := by
    split_ifs
    · exact hc
    · exact hs
  have hrecv : IsWindow (if isClient then params.serverMaxWindowBits else params.clientMaxWindowBits) := by
    split_ifs
    · exact hs
    · exact hc
  rw [← hz.deflateInit2 _ hsend]
  obtain ⟨i, hi⟩ := isSome_iff_exists.mp (hz.inflateInit2 _ hrecv)
  unfold deflateCreate
  dsimp only
  rw [hi]
  cases z.deflateInit2 (-((if isClient then params.clientMaxWindowBits else params.serverMaxWindowBits : ℕ) : ℤ)) with
  | none | some d => exact Iff.rfl

theorem paired_deflateCreate {z : Zlib D I} (hz : z.Correct) (isClient : Bool)
    {ctx ctx' : DeflateCtx (Stream D) (Stream I)} (h : deflateCreate z params isClient = some ctx)
    (h' : deflateCreate z params (!isClient) = some ctx') : Paired hz ctx.deflate ctx'.inflate := by
  unfold deflateCreate at h h'
  dsimp only at h h'
  split at h
  · cases h
  rename_i d hd
  split at h
  · cases h
  rename_i i hi
  split at h'
  · cases h'
  rename_i d' hd'
  split at h'
  · cases h'
  rename_i i' hi'
  obtain rfl := some.inj h
  obtain rfl := some.inj h'
  cases isClient with
  | false | true => exact paired_of_synced (s := ⟨d, _, 0⟩) (r := ⟨i', _, 0⟩) rfl (hz.init _ _ _ hd hi')

theorem parseOffer_response (offer : Option Bytes) : (response offer).bind parseOffer = negotiated offer := by
  unfold response
  cases hn : negotiated offer with
  | none => rfl
  | some params =>
    obtain ⟨hs, hc⟩ := isWindow_negotiated hn
    exact parseOffer_buildServerResponse hs hc

theorem assembly_handOver (isClient hasIdleTimeout : Bool) (ctx : Option (DeflateCtx (Stream D) (Stream I))) (rest : Bytes) :
    (WsConn.handOver isClient hasIdleTimeout ctx rest).assembly = { inflate := ctx.map DeflateCtx.inflate } := by
  have hlive : ¬ (WsConn.handOver isClient hasIdleTimeout ctx rest).Over := by
    rintro ⟨n, hn, -⟩
    exact not_mem_nil hn
  unfold WsConn.assembly
  rw [if_neg hlive]
  rfl

section Start

variable (offer : Option Bytes) (fromClient hasIdleTimeout : Bool) (rest rest' : Bytes)

theorem sender_eq : ∃ timeout bytes, sender e offer fromClient hasIdleTimeout rest rest' =
    .handOver fromClient timeout ((negotiated offer).bind fun params => deflateCreate e.zlib params fromClient) bytes := by
  unfold sender
  cases fromClient with
  | false => exact ⟨_, _, rfl⟩
  | true =>
    refine ⟨false, rest', ?_⟩
    rw [if_pos rfl, clientConn, parseOffer_response]

variable {offer fromClient} in
theorem lockstep_start (hz : e.zlib.Correct) (hfits : OfferFits offer fromClient) :
    Lockstep hz False (sender e offer fromClient hasIdleTimeout rest rest')
        (receiver e offer fromClient hasIdleTimeout rest rest').assembly ∧
      ((sender e offer fromClient hasIdleTimeout rest rest').deflateCtx.isSome →
        (receiver e offer fromClient hasIdleTimeout rest rest').parser.allowRsv1 = true) := by
  obtain ⟨timeout, behind, hsender⟩ := sender_eq (e := e) offer fromClient hasIdleTimeout rest rest'
  obtain ⟨timeout', behind', hreceiver⟩ := sender_eq (e := e) offer (!fromClient) hasIdleTimeout rest rest'
  have hmate (ctx : DeflateCtx (Stream D) (Stream I))
      (hctx : ((negotiated offer).bind fun params => deflateCreate e.zlib params fromClient) = some ctx) :
      ∃ ctx', ((negotiated offer).bind fun params => deflateCreate e.zlib params (!fromClient)) = some ctx' ∧
        Paired hz ctx.deflate ctx'.inflate := by
    obtain ⟨params, hn, hctx⟩ := bind_eq_some_iff.mp hctx
    obtain ⟨hs, hc⟩ := isWindow_negotiated hn
    have hsome : (deflateCreate e.zlib params (!fromClient)).isSome := by
      rw [isSome_deflateCreate hz hs hc]
      cases fromClient with
      | false => exact (hfits params hn).2 rfl
      | true => exact (hfits params hn).1
    obtain ⟨ctx', hctx'⟩ := isSome_iff_exists.mp hsome
    exact ⟨ctx', by rw [hn]; exact hctx', paired_deflateCreate hz fromClient hctx hctx'⟩
  rw [receiver, hsender, hreceiver, assembly_handOver]
  refine ⟨⟨rfl, rfl, fun ctx hctx _ => ?_⟩, fun hsome => ?_⟩
  · obtain ⟨ctx', hctx', hpaired⟩ := hmate ctx hctx
    exact ⟨ctx'.inflate, by rw [hctx']; rfl, hpaired⟩
  · obtain ⟨ctx, hctx⟩ := isSome_iff_exists.mp hsome
    obtain ⟨ctx', hctx', -⟩ := hmate ctx hctx
    show (Option.isSome _) = true
    rw [hctx']
    rfl

/-- The response names the extension exactly where there is a context, unless the server was asked for eight bits. -/
theorem named_iff (hz : e.zlib.Correct) :
    ((response offer).isSome ↔ (serverConn e.zlib offer hasIdleTimeout rest).deflateCtx.isSome ∧
        (serverConn e.zlib offer hasIdleTimeout rest).parser.allowRsv1 = true) ↔
      ∀ params, negotiated offer = some params → params.serverMaxWindowBits ≠ 8 := by
  have hctx : (serverConn e.zlib offer hasIdleTimeout rest).deflateCtx =
      (negotiated offer).bind fun params => deflateCreate e.zlib params false := rfl
  have hrsv1 : (serverConn e.zlib offer hasIdleTimeout rest).parser.allowRsv1 =
      ((negotiated offer).bind fun params => deflateCreate e.zlib params false).isSome := rfl
  rw [hctx, hrsv1, and_self_iff]
  unfold response
  cases hn : negotiated offer with
  | none => exact iff_of_true Iff.rfl fun params h => absurd h (some_ne_none params).symm
  | some params =>
    obtain ⟨hs, hc⟩ := isWindow_negotiated hn
    have hsome := isSome_deflateCreate hz hs hc false
    rw [bind_some, hsome]
    refine ⟨fun h params' hparams => ?_, fun h => iff_of_true rfl (h params rfl)⟩
    obtain rfl := some.inj hparams
    exact h.mp rfl

/-- **Both ends agree** where no window of eight bits is asked for, for every sequence of sends in which what is
compressed is not too long and comes after no message that spoiled the stream; and the response names the extension
wrongly where eight bits are asked for of the server. -/
theorem agrees_of_fits (hz : e.zlib.Correct) (hmem : ∀ n, 16 ≤ e.allocs' n) :
    (((response offer).isSome ↔ (serverConn e.zlib offer hasIdleTimeout rest).deflateCtx.isSome ∧
        (serverConn e.zlib offer hasIdleTimeout rest).parser.allowRsv1 = true) ↔
      ∀ params, negotiated offer = some params → params.serverMaxWindowBits ≠ 8) ∧
    ∀ sends, OfferFits offer fromClient →
      SendsFit e False (sender e offer fromClient hasIdleTimeout rest rest') sends →
        Agrees e offer fromClient hasIdleTimeout rest rest' sends := by
  refine ⟨named_iff offer hasIdleTimeout rest hz, fun sends hfits hsends => ?_⟩
  obtain ⟨hstart, hallowed⟩ := lockstep_start hasIdleTimeout rest rest' hz hfits
  obtain ⟨frames, hqueued, hout, hrsv1⟩ := lockstep_sendAll fromClient hstart hmem hsends
  obtain ⟨timeout, behind, hsender⟩ := sender_eq (e := e) offer fromClient hasIdleTimeout rest rest'
  obtain ⟨timeout', behind', hreceiver⟩ := sender_eq (e := e) offer (!fromClient) hasIdleTimeout rest rest'
  have hnone : (sender e offer fromClient hasIdleTimeout rest rest').queued = [] := by rw [hsender]; rfl
  have hempty : (receiver e offer fromClient hasIdleTimeout rest rest').assembly.out = [] := by
    rw [receiver, hreceiver, assembly_handOver]
  rw [hnone, nil_append] at hqueued
  rw [hempty, nil_append] at hout
  constructor
  case named => exact (named_iff offer hasIdleTimeout rest hz).mpr fun params hn => (hfits params hn).1
  case params =>
    intro value hvalue
    have hparse := parseOffer_response offer
    rwa [hvalue, bind_some] at hparse
  case accepted =>
    intro i hi hset
    rw [hqueued] at hi
    exact hallowed (hrsv1 i hi hset)
  case inflated =>
    rw [hqueued]
    exact hout

end Start

end Agree

/-! ### An instance -/

/-- `Hello`, as the RFC compresses it, and back; everything else is left as it is. -/
def swapHello (msg : Bytes) : Bytes :=
  let hello := bytes "Hello"
  let compressed : Bytes := [0xF2, 0x48, 0xCD, 0xC9, 0xC9, 0x07, 0x00]
  if msg = hello then compressed else if msg = compressed then hello else msg

theorem swapHello_swapHello (msg : Bytes) : swapHello (swapHello msg) = msg := by
  by_cases hello : msg = bytes "Hello"
  · subst hello
    decide
  by_cases hcompressed : msg = [0xF2, 0x48, 0xCD, 0xC9, 0xC9, 0x07, 0x00]
  · subst hcompressed
    decide
  · have hsame : swapHello msg = msg := by
      unfold swapHello
      dsimp only
      rw [if_neg hello, if_neg hcompressed]
    rw [hsame, hsame]

/-- What a stream has to put out when it gets that much input. -/
def unread (i input : Bytes) : Bytes := if i = [] then swapHello (input.take (input.length - 4)) else i

def helloZlib : Zlib Bytes Bytes where
  deflateInit2 bits := if -15 ≤ bits ∧ bits ≤ -9 then some [] else none
  inflateInit2 bits := if -15 ≤ bits ∧ bits ≤ -8 then some [] else none
  deflateReset _ := some []
  inflateReset _ := some []
  deflate d input room :=
    let out := if input = [] then d else d ++ swapHello input ++ deflateTail
    ⟨if out = [] then .bufError else .ok, out.drop room, [], out.take room⟩
  inflate i input room :=
    let out := unread i input
    ⟨.ok, out.drop room, if out.length ≤ room then [] else deflateTail, out.take room⟩

theorem helloZlib_round {d input d' out : Bytes} (h : DeflateRound helloZlib d input d' out) :
    d' = [] ∧ out = if input = [] then d else d ++ swapHello input ++ deflateTail := by
  induction h with
  | last herror hroom =>
    rename_i d input room
    have hshort : (if input = [] then d else d ++ swapHello input ++ deflateTail).length ≤ room := by
      by_contra hlong
      refine absurd hroom (Nat.not_lt.mpr ?_)
      exact (length_take_of_le (Nat.le_of_not_le hlong)).ge
    exact ⟨drop_eq_nil_of_le hshort, take_of_length_le hshort⟩
  | more herror _ ih =>
    rename_i d d' input out room _
    obtain ⟨hd, hout⟩ := ih
    refine ⟨hd, ?_⟩
    rw [hout]
    exact take_append_drop room _

def helloCorrect : helloZlib.Correct where
  mates _ _ := True
  synced d i := d = [] ∧ i = []
  holds i input msg d := d = [] ∧ if input = [] then i = [] ∧ msg = [] else unread i input = msg
  deflateInit2 bits hw := by
    obtain ⟨hlow, hhigh⟩ := hw
    dsimp only [helloZlib]
    split_ifs with h
    · exact iff_of_true rfl (by omega)
    · exact iff_of_false Bool.false_ne_true (by omega)
  inflateInit2 bits hw := by
    obtain ⟨hlow, hhigh⟩ := hw
    dsimp only [helloZlib]
    rw [if_pos (by omega)]
    rfl
  init bits d i hd hi := by
    dsimp only [helloZlib] at hd hi
    split_ifs at hd hi
    exact ⟨(Option.some.inj hd).symm, (Option.some.inj hi).symm⟩
  mates_of_synced _ _ _ := trivial
  mates_deflate _ _ _ _ _ := trivial
  mates_deflateReset _ _ _ _ _ := trivial
  inflateReset d i _ := ⟨[], rfl, fun d' hd => ⟨(Option.some.inj hd).symm, rfl⟩⟩
  flush d i msg d' out hne hsynced hround := by
    obtain ⟨rfl, rfl⟩ := hsynced
    obtain ⟨rfl, hout⟩ := helloZlib_round hround
    rw [if_neg hne, List.nil_append] at hout
    refine ⟨swapHello msg, hout, rfl, ?_⟩
    rw [if_neg (List.append_ne_nil_of_right_ne_nil _ (by decide)), unread, if_pos rfl, List.length_append]
    show swapHello ((swapHello msg ++ deflateTail).take ((swapHello msg).length + 4 - 4)) = msg
    rw [Nat.add_sub_cancel, List.take_left, swapHello_swapHello]
  step i input msg d room hholds hne hroom := by
    obtain ⟨rfl, hunread⟩ := hholds
    rw [if_neg hne] at hunread
    by_cases hshort : msg.length ≤ room
    · have hcall : helloZlib.inflate i input room = ⟨.ok, [], [], msg⟩ := by
        dsimp only [helloZlib]
        rw [hunread, if_pos hshort, List.take_of_length_le hshort, List.drop_eq_nil_of_le hshort]
      rw [hcall]
      exact ⟨rfl, fun h => absurd rfl h, [], (List.append_nil msg).symm, rfl, rfl, rfl⟩
    · have hcall : helloZlib.inflate i input room = ⟨.ok, msg.drop room, deflateTail, msg.take room⟩ := by
        dsimp only [helloZlib]
        rw [hunread, if_neg hshort]
      have hdrop : unread (msg.drop room) deflateTail = msg.drop room :=
        if_neg fun h => hshort (List.drop_eq_nil_iff.mp h)
      rw [hcall]
      exact ⟨rfl, fun _ => List.length_take_of_le (Nat.le_of_not_le hshort), msg.drop room,
        (List.take_append_drop room msg).symm, rfl, hdrop⟩
  done i msg d hholds := by
    obtain ⟨hd, hi, hmsg⟩ := hholds
    exact ⟨hmsg, hd, hi⟩

def helloEnv : DeflateEnv Bytes Bytes where
  zlib := helloZlib
  allocs _ := 16
  allocs' _ := 16
  writev _ := .wrote 4096

/-- A client that sends `Hello` compressed. -/
theorem agrees_of_fits_hello :
    (∃ key, ((sender helloEnv (some (bytes "permessage-deflate")) true false [] []).sendAll helloEnv.ws
        [(true, bytes "Hello")]).1.queued =
      [.frame true true opcodeText [0xF2, 0x48, 0xCD, 0xC9, 0xC9, 0x07, 0x00] key]) ∧
      Agrees helloEnv (some (bytes "permessage-deflate")) true false [] [] [(true, bytes "Hello")] := by
  have hn : negotiated (some (bytes "permessage-deflate")) = some {} := by decide +kernel
  refine ⟨⟨{}, by decide +kernel⟩, (agrees_of_fits _ _ _ _ _ helloCorrect fun _ => le_refl 16).2 _ ?_ ?_⟩
  · intro params hparams
    obtain rfl := some.inj (hn.symm.trans hparams)
    exact ⟨by decide, fun _ => by decide⟩
  · exact ⟨fun _ _ => ⟨by decide +kernel, id⟩, trivial⟩

/-- A server that is asked for a window of eight bits says that it compresses, and does not. -/
theorem not_agrees_eight_bits :
    ¬ Agrees helloEnv (some (bytes "permessage-deflate; server_max_window_bits=8")) true false [] [] [] := by
  intro h
  have hresponse : (response (some (bytes "permessage-deflate; server_max_window_bits=8"))).isSome = true := by
    decide +kernel
  have hctx : (serverConn helloEnv.zlib (some (bytes "permessage-deflate; server_max_window_bits=8")) false
      []).deflateCtx.isSome = false := by
    decide +kernel
  exact Bool.false_ne_true (hctx.symm.trans (h.named.mp hresponse).1)

end Libx.Http
