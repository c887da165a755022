import Libx.Http.Messages

/-!
# Libx.Http.Delivered — no message is lost or invented
-/

namespace Libx.Http

open Libx.Core (Run drain Drained)
open Libx.Core.Drained (prepend)
open Libx.Agent (Bytes)
open Option

namespace FrameParser

variable {p q : FrameParser} {l t : Bytes} {f : Frame}

theorem next_of_ok (h : parse p l = (some .ok, q, t)) : next p l = .item q.frame q.reset t := by rw [next, h]

theorem next_of_error (h : parse p l = (some .error, q, t)) : next p l = .fail := by rw [next, h]

theorem next_of_needMore (h : parse p l = (some .needMore, q, t)) : next p l = .more q t := by rw [next, h]

theorem next_of_none (h : parse p l = (none, q, t)) : next p l = .more q t := by rw [next, h]

theorem next_fail_append (h : next p l = .fail) (m : Bytes) : next p (l ++ m) = .fail := by
  have hgoes := goesOn_parse p l m
  rcases hx : parse p l with ⟨r, q, t⟩
  rw [hx] at hgoes
  rcases r with _ | _ | _ | _
  · rw [next_of_none hx] at h
    cases h
  · rw [next_of_ok hx] at h
    cases h
  · rw [next_of_needMore hx] at h
    cases h
  · rcases hy : parse p (l ++ m) with ⟨r', q', t'⟩
    rw [hy] at hgoes
    obtain rfl : r' = some .error := hgoes
    exact next_of_error hy

theorem next_more_again (h : next p l = .more q t) : next q t = .more q t := by
  have hgoes := goesOn_parse p l []
  rw [List.append_nil] at hgoes
  rcases hx : parse p l with ⟨r, q', t'⟩
  rw [hx] at hgoes
  rcases r with _ | _ | _ | _
  · rw [next_of_none hx] at h
    cases h
    have hagain : (none, q, t) = parse q (t ++ []) := hgoes
    rw [List.append_nil] at hagain
    exact next_of_none hagain.symm
  · rw [next_of_ok hx] at h
    cases h
  · rw [next_of_needMore hx] at h
    cases h
    have hagain : (some FrameResult.needMore, q, t) = parse q (t ++ []) := hgoes
    rw [List.append_nil] at hagain
    exact next_of_needMore hagain.symm
  · rw [next_of_error hx] at h
    cases h

theorem waiting_or_fail (h : ∀ f q t, next p l ≠ .item f q t) : Waiting p ∨ ∀ m, next p (l ++ m) = .fail := by
  by_cases hw : Waiting p
  · exact .inl hw
  · refine .inr (next_fail_append ?_)
    have hphase : p.phase = .payload := by
      by_contra hne
      exact hw (waiting_of_ne hne)
    have hfull : p.frame.payloadLen ≤ (p.frame.payload.getD []).length := by
      by_contra hlt
      exact hw fun _ => Nat.lt_of_not_le hlt
    have hdone : ∃ q t, parse p l = done q t := by
      rw [parse_eq_payload hphase, payload, if_neg (not_not.mpr hphase)]
      by_cases hlen : p.frame.payloadLen = 0
      · rw [if_pos hlen]
        exact ⟨_, _, rfl⟩
      · rw [if_neg hlen]
        cases hgot : p.frame.payload with
        | none =>
          rw [hgot] at hfull
          exact absurd (Nat.le_zero.mp hfull) hlen
        | some got =>
          rw [hgot, getD_some] at hfull
          dsimp only
          rw [readPayload_eq, if_neg]
          · exact ⟨_, _, rfl⟩
          · rw [List.length_append]
            omega
    obtain ⟨q, t, hq⟩ := hdone
    unfold done at hq
    split_ifs at hq
    · exact next_of_error hq
    · exact absurd (next_of_ok hq) (h _ _ _)

end FrameParser

/-! ### Frames of a stream -/

section Frames

variable {p q : FrameParser} {l m : Bytes}

theorem framesOf_eq (hw : p.Waiting) {n : ℕ} (hn : l.length < n) : drain FrameParser.next n p l = framesOf p l :=
  FrameParser.incremental_next.drain_eq_drain hw hn (Nat.lt_succ_self _)

theorem framesOf_append_none (hp : p.Waiting) (h : (framesOf p l).2 = none) : framesOf p (l ++ m) = framesOf p l := by
  have happend := FrameParser.incremental_next.drain_append (m := m) hp (Nat.lt_succ_self l.length) _
    (Nat.lt_succ_self (l ++ m).length)
  unfold framesOf at h ⊢
  rw [happend, h]

theorem framesOf_append_some {s : FrameParser} {r : Bytes} (hp : p.Waiting) (h : (framesOf p l).2 = some (s, r)) :
    framesOf p (l ++ m) = prepend (framesOf p l).1 (framesOf s (r ++ m)) := by
  have happend := FrameParser.incremental_next.drain_append (m := m) hp (Nat.lt_succ_self l.length) _
    (Nat.lt_succ_self (l ++ m).length)
  unfold framesOf at h ⊢
  rw [happend, h]

theorem framesOf_append (hp : p.Waiting) (hq : q.Waiting) {b : Bytes} (h : framesOf q b = ([], (framesOf p l).2)) :
    framesOf p (l ++ m) = prepend (framesOf p l).1 (framesOf q (b ++ m)) := by
  have h2 : (framesOf q b).2 = (framesOf p l).2 := by rw [h]
  cases hrest : (framesOf p l).2 with
  | none =>
    rw [framesOf_append_none hp hrest, framesOf_append_none hq (h2.trans hrest), h, prepend, List.append_nil]
  | some x =>
    rw [framesOf_append_some hp hrest, framesOf_append_some hq (h2.trans hrest), h, Drained.prepend_nil]

theorem framesOf_stable {I : Type} {decompress : I → Bytes → Option Bytes × I} {a : Assembly I} (hp : p.Waiting)
    (h : (a.takeAll decompress (framesOf p l).1).stopped = true ∨ (framesOf p l).2 = none) :
    a.takeAll decompress (framesOf p (l ++ m)).1 = a.takeAll decompress (framesOf p l).1 ∧
      ((a.takeAll decompress (framesOf p (l ++ m)).1).stopped = true ∨ (framesOf p (l ++ m)).2 = none) := by
  cases hrest : (framesOf p l).2 with
  | none =>
    rw [framesOf_append_none hp hrest]
    exact ⟨rfl, .inr hrest⟩
  | some x =>
    have hover := h.resolve_right (by rw [hrest]; exact some_ne_none x)
    have hsame : a.takeAll decompress (framesOf p (l ++ m)).1 = a.takeAll decompress (framesOf p l).1 := by
      rw [framesOf_append_some hp hrest]
      exact Assembly.takeAll_append.trans (Assembly.takeAll_over hover)
    exact ⟨hsame, .inl (by rw [hsame]; exact hover)⟩

theorem framesOf_more {s : FrameParser} {r : Bytes} (h : p.next l = .more s r) : framesOf p l = ([], some (s, r)) := by
  unfold framesOf
  rw [drain, h]

theorem framesOf_fail (h : p.next l = .fail) : framesOf p l = ([], none) := by
  unfold framesOf
  rw [drain, h]

theorem framesOf_of_no_item (h : ∀ f s r, p.next l ≠ .item f s r) : (framesOf p l).1 = [] := by
  cases hcall : p.next l with
  | more s r => rw [framesOf_more hcall]
  | fail => rw [framesOf_fail hcall]
  | item f s r => exact absurd hcall (h f s r)

end Frames

namespace WsConn

variable {D I : Type} {env : WsEnv D I} {c d e : WsConn D I}

/-! ### The loop -/

/-- A parser that is between two calls, or that refuses whatever comes. -/
def Ready (c : WsConn D I) : Prop := c.parser.Waiting ∨ ∀ m, c.parser.next (c.readBuf ++ m) = .fail

theorem ready_of_not_holds (h : ¬ c.HoldsFrame) : c.Ready :=
  FrameParser.waiting_or_fail fun f q t hitem => h ⟨f, q, t, hitem⟩

/-- What the loop comes to over the frames `fs`, with `rest` of the stream. -/
structure Drains (env : WsEnv D I) (fs : List Frame) (rest : Option (FrameParser × Bytes)) (c d : WsConn D I) : Prop where
  ordered : d.Ordered
  received : d.received = c.received
  out : d.assembly.out = (c.assembly.takeAll env.decompress fs).out
  idle : d.closeState ≠ .closed → ¬ d.HoldsFrame
  stopped : d.closeState ≠ .closed → d.Over → (c.assembly.takeAll env.decompress fs).stopped = true ∨ rest = none
  live : d.closeState ≠ .closed → ¬ d.Over →
    d.assembly = c.assembly.takeAll env.decompress fs ∧ rest = some (d.parser, d.readBuf) ∧ d.parser.Waiting ∧
      d.parser.next d.readBuf = .more d.parser d.readBuf

theorem over_of_assembly (h : c.assembly.stopped = true) : c.Over := by
  by_contra hnot
  rw [assembly_of_not_over hnot] at h
  cases h

theorem drains_closed (hord : c.Ordered) (hclosed : c.closeState = .closed) {fs : List Frame}
    {rest : Option (FrameParser × Bytes)} (hout : (c.assembly.takeAll env.decompress fs).out = c.assembly.out) :
    Drains env fs rest c c where
  ordered := hord
  received := rfl
  out := hout.symm
  idle hne := absurd hclosed hne
  stopped hne := absurd hclosed hne
  live hne := absurd hclosed hne

variable {io : Bytes}

theorem drains_violate {p : FrameParser} (hord : c.Ordered) (hopen : c.closeState ≠ .closed)
    (hidle : (c.closeState = .open → env.writev c.writes ≠ .error) → ¬ (c.parsed p io).HoldsFrame) :
    Drains env [] none c ((c.parsed p io).violate env) := by
  have hout : Outgoing ((c.parsed p io).note .violation) ((c.parsed p io).violate env) := outgoing_violate _
  have hparsed : (c.parsed p io).assembly = c.assembly := rfl
  have hnote : ((c.parsed p io).note .violation).assembly = c.assembly.stop := by
    rw [← hparsed]
    exact assembly_over (n := .violation) trivial _
  have hover : ((c.parsed p io).violate env).Over :=
    hout.over_iff.mpr ((over_append .violation (c.parsed p io)).mpr (.inr trivial))
  have hord' : (c.parsed p io).Ordered := ⟨hord.open_, hord.last⟩
  refine ⟨(hord'.note hopen rfl).outgoing hout, ?_, ?_, fun hd => ?_, fun _ _ => .inr rfl, fun _ hnot => absurd hover hnot⟩
  · exact congrArg (fun i : Intake I => i.received) hout.intake
  · rw [hout.assembly, hnote]
    rfl
  · have hinbox := hout.inbox
    have hhas : ¬ (c.parsed p io).HoldsFrame := by
      refine hidle fun ho herror => hd ?_
      exact closed_connClose_error (c := (c.parsed p io).note .violation) closeProtocolErrCode ho herror
    unfold HoldsFrame at hhas ⊢
    obtain ⟨hp, hb⟩ := Prod.mk.inj hinbox
    rw [hp, (Prod.mk.inj hb).1]
    exact hhas

theorem drains_more {p : FrameParser} (hord : c.Ordered) (hw : c.parser.Waiting)
    (hcall : c.parser.next c.readBuf = .more p io) : Drains env [] (some (p, io)) c (c.parsed p io) := by
  have hagain : p.next io = .more p io := FrameParser.next_more_again hcall
  obtain ⟨hwait, -⟩ := FrameParser.incremental_next.more _ _ _ _ hw hcall
  refine ⟨⟨hord.open_, hord.last⟩, rfl, rfl, fun _ => ?_, fun _ hover => .inl (over_assembly hover), fun _ _ =>
    ⟨rfl, rfl, hwait, hagain⟩⟩
  rintro ⟨f, q, t, hitem⟩
  cases hagain.symm.trans hitem

theorem drains_parseLoop {n : ℕ} (hord : c.Ordered) (hready : c.Ready) (hn : c.readBuf.length < n)
    (harr : c.LoopArrives env n) :
    Drains env (drain FrameParser.next n c.parser c.readBuf).1 (drain FrameParser.next n c.parser c.readBuf).2 c
      (parseLoop env n c) := by
  induction n generalizing c with
  | zero => exact absurd hn (Nat.not_lt_zero _)
  | succ n ih =>
    rw [LoopArrives] at harr
    rw [parseLoop]
    by_cases hclosed : c.closeState = .closed
    · rw [if_pos hclosed] at harr ⊢
      refine drains_closed hord hclosed ?_
      rcases hready with hw | hfail
      · rw [framesOf_eq hw hn]
        exact harr
      · have hfail' := hfail []
        rw [List.append_nil] at hfail'
        rw [drain, hfail']
        rfl
    rw [if_neg hclosed] at harr ⊢
    rcases hcall : c.parser.parse c.readBuf with ⟨r, p, io⟩
    rw [hcall] at harr
    have hwaiting (hne : c.parser.next c.readBuf = .fail → False) : c.parser.Waiting := by
      refine hready.resolve_right fun hfail => hne ?_
      rw [← hfail [], List.append_nil]
    rcases r with _ | _ | _ | _
    · have hnext := FrameParser.next_of_none hcall
      rw [drain, hnext]
      exact drains_more hord (hwaiting fun hfail => by cases hnext.symm.trans hfail) hnext
    · have hnext := FrameParser.next_of_ok hcall
      have hw := hwaiting fun hfail => by cases hnext.symm.trans hfail
      obtain ⟨hw', hlt, -⟩ := FrameParser.incremental_next.item _ _ _ _ _ hw hnext
      have htakes : Takes env p.frame (c.parsed p.reset io) ((c.parsed p.reset io).processFrame env p.frame) :=
        takes_processFrame ⟨hord.open_, hord.last⟩ hclosed harr.1
      replace harr := harr.2
      show Drains env _ _ c (parseLoop env n ((c.parsed p.reset io).processFrame env p.frame))
      generalize (c.parsed p.reset io).processFrame env p.frame = d at htakes harr ⊢
      obtain ⟨hp, hb⟩ := Prod.mk.inj htakes.inbox
      obtain ⟨hbuf, hrec⟩ := Prod.mk.inj hb
      have hp' : d.parser = p.reset := hp
      have hbuf' : d.readBuf = io := hbuf
      have hrest := ih htakes.ordered (.inl (by rw [hp']; exact hw')) (by rw [hbuf']; omega) harr
      rw [hp', hbuf'] at hrest
      have hasm : d.assembly = c.assembly.take env.decompress p.frame := htakes.assembly
      rw [drain, hnext]
      refine ⟨hrest.ordered, hrest.received.trans hrec, ?_, hrest.idle, fun hd hover => ?_, fun hd hover => ?_⟩
      · rw [hrest.out, hasm]
        rfl
      · have hor := hrest.stopped hd hover
        rw [hasm] at hor
        exact hor
      · have hlive := hrest.live hd hover
        rw [hasm] at hlive
        exact hlive
    · have hnext := FrameParser.next_of_needMore hcall
      rw [drain, hnext]
      exact drains_more hord (hwaiting fun hfail => by cases hnext.symm.trans hfail) hnext
    · have hnext := FrameParser.next_of_error hcall
      rw [drain, hnext]
      exact drains_violate hord hclosed harr

/-! ### Runs -/

/-- The stream so far is taken: from the parser and the assembly of the hand-over. -/
def Taken (env : WsEnv D I) (p : FrameParser) (a : Assembly I) (bytes : Bytes) : Assembly I :=
  a.takeAll env.decompress (framesOf p bytes).1

/-- The connection stands where its stream does. -/
structure Follows (env : WsEnv D I) (p : FrameParser) (a : Assembly I) (c : WsConn D I) : Prop where
  ordered : c.Ordered
  out : c.assembly.out = (Taken env p a c.received).out
  idle : c.destroyed = false ∨ c.idleTimer = true → ¬ c.HoldsFrame
  stopped : c.closeState ≠ .closed → c.Over → (Taken env p a c.received).stopped = true ∨ (framesOf p c.received).2 = none
  live : c.closeState ≠ .closed → ¬ c.Over →
    c.assembly = Taken env p a c.received ∧ c.parser.Waiting ∧ framesOf c.parser c.readBuf = ([], (framesOf p c.received).2)

variable {p : FrameParser} {a : Assembly I}

theorem Follows.destroy (h : Follows env p a c) : Follows env p a c.destroy where
  ordered := ⟨h.ordered.open_, h.ordered.last⟩
  out := h.out
  idle hor := absurd hor (by rintro (hd | ht) <;> cases ‹_›)
  stopped := h.stopped
  live := h.live

theorem Follows.outgoing (h : Follows env p a c) (hidle : ¬ c.HoldsFrame) (hout : Outgoing c d) : Follows env p a d := by
  obtain ⟨hp, hb⟩ := Prod.mk.inj hout.inbox
  obtain ⟨hbuf, hrec⟩ := Prod.mk.inj hb
  have hopen (hd : d.closeState ≠ .closed) : c.closeState ≠ .closed := by
    rcases hout.log with ⟨-, hstate⟩ | ⟨_, _, _, _, hclosed⟩
    · exact fun hc => hd (hstate.mpr hc)
    · exact absurd hclosed hd
  refine ⟨h.ordered.outgoing hout, ?_, fun _ => ?_, fun hd hover => ?_, fun hd hover => ?_⟩
  · rw [hout.assembly, hrec]
    exact h.out
  · unfold HoldsFrame
    rw [hp, hbuf]
    exact hidle
  · rw [hrec]
    exact h.stopped (hopen hd) (hout.over_iff.mp hover)
  · rw [hout.assembly, hp, hbuf, hrec]
    exact h.live (hopen hd) fun hc => hover (hout.over_iff.mpr hc)

theorem Follows.reap (h : Follows env p a c) : Follows env p a c.reap := by
  unfold WsConn.reap
  split_ifs
  · exact h.destroy
  · exact h

theorem taken_append (h : Follows env p a c) (hp : p.Waiting) (hopen : c.closeState ≠ .closed) (data : Bytes) :
    Taken env p a (c.received ++ data) =
        if c.Over then Taken env p a c.received
        else c.assembly.takeAll env.decompress (framesOf c.parser (c.readBuf ++ data)).1 := by
  split_ifs with hover
  · exact (framesOf_stable hp (h.stopped hopen hover)).1
  · obtain ⟨hasm, hw, hframes⟩ := h.live hopen hover
    unfold Taken
    rw [framesOf_append hp hw hframes, hasm]
    exact Assembly.takeAll_append

theorem out_append (h : Follows env p a c) (hp : p.Waiting) (hopen : c.closeState ≠ .closed) (data : Bytes) :
    (Taken env p a (c.received ++ data)).out =
      (c.assembly.takeAll env.decompress (framesOf c.parser (c.readBuf ++ data)).1).out := by
  rw [taken_append h hp hopen]
  split_ifs with hover
  · rw [Assembly.takeAll_over (over_assembly hover), h.out]
  · rfl

theorem follows_parse {data : Bytes} (h : Follows env p a c) (hp : p.Waiting) (hopen : c.closeState ≠ .closed)
    (hidle : ¬ c.HoldsFrame)
    (harr : (c.gather data).resetIdleTimer.LoopArrives env ((c.gather data).readBuf.length + 1)) :
    Follows env p a (parseLoop env ((c.gather data).readBuf.length + 1) (c.gather data).resetIdleTimer).reap := by
  have hready : (c.gather data).resetIdleTimer.Ready := by
    rcases ready_of_not_holds hidle with hw | hfail
    · exact .inl hw
    · refine .inr fun m => ?_
      show c.parser.next (c.readBuf ++ data ++ m) = .fail
      rw [List.append_assoc]
      exact hfail _
  have hord : (c.gather data).resetIdleTimer.Ordered := ⟨h.ordered.open_, h.ordered.last⟩
  have hdrains : Drains env (framesOf c.parser (c.readBuf ++ data)).1 (framesOf c.parser (c.readBuf ++ data)).2
      (c.gather data).resetIdleTimer
      (parseLoop env ((c.gather data).readBuf.length + 1) (c.gather data).resetIdleTimer) :=
    drains_parseLoop hord hready (Nat.lt_succ_self _) harr
  generalize parseLoop env ((c.gather data).readBuf.length + 1) (c.gather data).resetIdleTimer = d at hdrains
  have hrec : d.received = c.received ++ data := hdrains.received
  have hasm : (c.gather data).resetIdleTimer.assembly = c.assembly := rfl
  have hfollows (hd : d.closeState ≠ .closed) : Follows env p a d := by
    refine ⟨hdrains.ordered, ?_, fun _ => hdrains.idle hd, fun _ hover => ?_, fun _ hover => ?_⟩
    · rw [hdrains.out, hrec, out_append h hp hopen, hasm]
    · rw [hrec]
      by_cases hc : c.Over
      · exact (framesOf_stable hp (h.stopped hopen hc)).2
      · obtain ⟨-, hw, hframes⟩ := h.live hopen hc
        have hor := hdrains.stopped hd hover
        rw [taken_append h hp hopen, if_neg hc, framesOf_append hp hw hframes]
        exact hor
    · obtain ⟨hlive, hrest, hw, hagain⟩ := hdrains.live hd hover
      rw [hasm] at hlive
      have hc : ¬ c.Over := by
        intro hc
        rw [Assembly.takeAll_over (over_assembly hc)] at hlive
        exact hover (over_of_assembly (by rw [hlive]; exact over_assembly hc))
      obtain ⟨-, hw', hframes⟩ := h.live hopen hc
      refine ⟨?_, hw, ?_⟩
      · rw [hlive, hrec, taken_append h hp hopen, if_neg hc]
      · rw [framesOf_more hagain, hrec, framesOf_append hp hw' hframes]
        exact congrArg (Prod.mk []) hrest.symm
  unfold WsConn.reap
  split_ifs with hclosed
  · refine ⟨⟨hdrains.ordered.open_, hdrains.ordered.last⟩, ?_, ?_, fun hne => absurd hclosed hne,
      fun hne => absurd hclosed hne⟩
    · show d.assembly.out = (Taken env p a d.received).out
      rw [hdrains.out, hrec, out_append h hp hopen, hasm]
    · rintro (hd | ht)
      · cases hd
      · cases ht
  · exact hfollows hclosed

theorem follows_onReadable {data : Bytes} {finish : ReadEnd} (h : Follows env p a c) (hp : p.Waiting)
    (hopen : c.closeState ≠ .closed) (hidle : ¬ c.HoldsFrame)
    (harr : if finish = .again then (c.gather data).resetIdleTimer.LoopArrives env ((c.gather data).readBuf.length + 1)
      else (c.gather data).Spent env) : Follows env p a (c.onReadable env data finish) := by
  have hended (hspent : (c.gather data).Spent env) : Follows env p a ((c.gather data).fireClose closeAbnormalCode []).destroy := by
    have hout := outgoing_fireClose closeAbnormalCode [] (c.gather data)
    have hclosed := closed_fireClose closeAbnormalCode [] (c.gather data)
    have hord : (c.gather data).Ordered := ⟨h.ordered.open_, h.ordered.last⟩
    have hord' := hord.outgoing hout
    refine ⟨⟨hord'.open_, hord'.last⟩, ?_, ?_, fun hne => absurd hclosed hne, fun hne => absurd hclosed hne⟩
    · have hrec : ((c.gather data).fireClose closeAbnormalCode []).received = c.received ++ data :=
        congrArg (fun i : Intake I => i.received) hout.intake
      show ((c.gather data).fireClose closeAbnormalCode []).assembly.out =
        (Taken env p a ((c.gather data).fireClose closeAbnormalCode []).received).out
      rw [hrec, out_append h hp hopen, hout.assembly]
      exact hspent.symm
    · rintro (hd | ht)
      · cases hd
      · cases ht
  cases finish with
  | again => exact follows_parse h hp hopen hidle harr
  | eof | error => exact hended harr

theorem follows_idleTimeout (h : Follows env p a c) (hidle : ¬ c.HoldsFrame) : Follows env p a (c.idleTimeout env) := by
  have hset : Follows env p a { c with idleTimer := false } :=
    ⟨⟨h.ordered.open_, h.ordered.last⟩, h.out, fun _ => hidle, h.stopped, h.live⟩
  unfold idleTimeout
  dsimp only
  split_ifs
  · exact hset.outgoing hidle (outgoing_connClose _ _ _)
  · exact (hset.outgoing hidle (outgoing_fireClose _ _ _)).destroy

theorem open_of_reap (hd : c.reap.destroyed = false) : c.reap.closeState ≠ .closed := by
  unfold WsConn.reap at hd ⊢
  split_ifs at hd ⊢ with hclosed
  · cases hd
  · exact hclosed

theorem follows_onEvent {e : WsEvent} (h : Follows env p a c) (hp : p.Waiting) (hd : c.destroyed = false)
    (harr : c.Arrives env (.event e)) : Follows env p a (c.onEvent env e) := by
  have hidle := h.idle (.inl hd)
  unfold onEvent
  by_cases hclosed : c.closeState = .closed
  · rw [if_pos hclosed]
    exact h.destroy
  rw [if_neg hclosed]
  by_cases htimeout : e.timeout
  · rw [if_pos htimeout]
    exact follows_idleTimeout h hidle
  rw [if_neg htimeout]
  replace harr := harr hclosed (Bool.eq_false_iff.mpr htimeout)
  have hw : Follows env p a (if e.write then c.onWritable env else c) := by
    split_ifs
    · exact (h.outgoing hidle (outgoing_tryFlush c)).reap
    · exact h
  have hopen : (if e.write then c.onWritable env else c).destroyed = false →
      (if e.write then c.onWritable env else c).closeState ≠ .closed := by
    split_ifs
    · exact open_of_reap
    · exact fun _ => hclosed
  generalize (if e.write then c.onWritable env else c) = d at harr hw hopen ⊢
  by_cases hdd : d.destroyed
  · rw [if_pos hdd]
    exact hw
  rw [if_neg hdd]
  rw [Bool.not_eq_true] at hdd
  cases hread : e.read with
  | none => exact hw
  | some r =>
    obtain ⟨data, finish⟩ := r
    exact follows_onReadable hw hp (hopen hdd) (hw.idle (.inl hdd)) (harr data finish hread (hopen hdd))

theorem follows_step {i : WsInput} (h : Follows env p a c) (hp : p.Waiting) (harr : c.Arrives env i)
    (hstep : c.step env i = some d) : Follows env p a d := by
  unfold step at hstep
  cases i with
  | event e =>
    dsimp only at hstep
    split_ifs at hstep with hd
    obtain rfl := some.inj hstep
    exact follows_onEvent h hp (Bool.eq_false_iff.mpr hd) harr
  | timer =>
    dsimp only at hstep
    split_ifs at hstep with ht
    obtain rfl := some.inj hstep
    exact follows_idleTimeout h (h.idle (.inr ht))
  | user call =>
    dsimp only at hstep
    split_ifs at hstep with hd
    obtain rfl := some.inj hstep
    exact h.outgoing (h.idle (.inl (Bool.eq_false_iff.mpr hd))) (outgoing_userCall call c)
  | serverDestroy =>
    dsimp only at hstep
    split_ifs at hstep with hd
    obtain rfl := some.inj hstep
    have hidle := h.idle (.inl (Bool.eq_false_iff.mpr fun hdd => hd (.inl hdd)))
    exact (h.outgoing hidle (outgoing_connClose _ _ c)).destroy

theorem Follows.faithful {isClient : Bool} {ctx : Option (DeflateCtx D I)}
    (h : Follows env { expectMasked := !isClient, allowRsv1 := ctx.isSome } { inflate := ctx.map DeflateCtx.inflate } c) :
    c.Faithful env isClient ctx := by
  have hout : c.assembly.out = Http.messages c.log := by
    by_cases hover : c.Over
    · exact congrArg Assembly.out (if_pos hover)
    · exact congrArg Assembly.out (if_neg hover)
  refine ⟨?_, fun hd => h.idle (.inl hd)⟩
  rw [messages_takeWhile h.ordered.last, ← hout, h.out]
  rfl

theorem follows_handOver {isClient hasIdleTimeout : Bool} {ctx : Option (DeflateCtx D I)} {rest : Bytes}
    (hrest : ¬ (handOver isClient hasIdleTimeout ctx rest).HoldsFrame) :
    Follows env { expectMasked := !isClient, allowRsv1 := ctx.isSome } { inflate := ctx.map DeflateCtx.inflate }
      (handOver isClient hasIdleTimeout ctx rest) := by
  have hframes : (framesOf { expectMasked := !isClient, allowRsv1 := ctx.isSome } rest).1 = [] :=
    framesOf_of_no_item fun f q t hitem => hrest ⟨f, q, t, hitem⟩
  have htaken : Taken env { expectMasked := !isClient, allowRsv1 := ctx.isSome }
      { inflate := ctx.map DeflateCtx.inflate } rest = { inflate := ctx.map DeflateCtx.inflate } := by
    unfold Taken
    rw [hframes]
    rfl
  have hnot : ¬ (handOver isClient hasIdleTimeout ctx rest).Over := fun ⟨n, hn, _⟩ => List.not_mem_nil hn
  have hasm : (handOver isClient hasIdleTimeout ctx rest).assembly = { inflate := ctx.map DeflateCtx.inflate } :=
    assembly_of_not_over hnot
  refine ⟨⟨fun _ n hn => absurd hn List.not_mem_nil, .nil⟩, ?_, fun _ => hrest, fun _ hover => absurd hover hnot, fun _ _ =>
    ⟨hasm.trans htaken.symm, waiting_fresh _ _, ?_⟩⟩
  · rw [hasm]
    exact congrArg Assembly.out htaken.symm
  · exact Prod.ext hframes rfl

/-- **No message is lost or invented** in every run whose steps arrive, if no frame comes whole behind the handshake. -/
theorem faithful_of_run (env : WsEnv D I) {isClient hasIdleTimeout : Bool} {ctx : Option (DeflateCtx D I)} {rest : Bytes}
    (hrest : ¬ (handOver isClient hasIdleTimeout ctx rest).HoldsFrame)
    (hrun : Run (step env) (Arrives env) (handOver isClient hasIdleTimeout ctx rest) c) :
    c.Faithful env isClient ctx :=
  (hrun.preserves (fun _ _ _ h harr hstep => follows_step h (waiting_fresh _ _) harr hstep)
    (follows_handOver hrest)).faithful

theorem LoopArrives.ok {n : ℕ} {q : FrameParser} (hopen : c.closeState ≠ .closed)
    (hcall : c.parser.parse c.readBuf = (some .ok, q, io)) (hframe : (c.parsed q.reset io).FrameArrives env q.frame)
    (hrest : ((c.parsed q.reset io).processFrame env q.frame).LoopArrives env n) : c.LoopArrives env (n + 1) := by
  rw [LoopArrives, if_neg hopen, hcall]
  exact ⟨hframe, hrest⟩

theorem LoopArrives.more {n : ℕ} {q : FrameParser} (hopen : c.closeState ≠ .closed)
    (hcall : c.parser.parse c.readBuf = (some .needMore, q, io)) : c.LoopArrives env (n + 1) := by
  rw [LoopArrives, if_neg hopen, hcall]
  trivial

/-- A text frame, and a client's connection that has read it. -/
def textFrame : Frame := { fin := true, opcode := opcodeText, payloadLen := 1, payload := some [104] }

def withMessage : WsConn Unit Unit := ((handOver true false none []).gather [0x81, 0x01, 104]).resetIdleTimer

/-- A message in one piece. -/
theorem faithful_of_run_message :
    ∃ c : WsConn Unit Unit, Http.messages c.log = [(true, [104])] ∧ c.Faithful freeEnv true none := by
  have hrest : ¬ (handOver true false none [] : WsConn Unit Unit).HoldsFrame := by
    rintro ⟨f, q, t, hitem⟩
    cases hitem
  have hstep : step freeEnv (handOver true false none []) (.event { read := some ([0x81, 0x01, 104], .again) }) =
      some (onEvent freeEnv { read := some ([0x81, 0x01, 104], .again) } (handOver true false none [])) := rfl
  have harr : Arrives freeEnv (handOver true false none []) (.event { read := some ([0x81, 0x01, 104], .again) }) := by
    intro _ _ data finish hread
    obtain ⟨rfl, rfl⟩ := Prod.mk.inj (some.inj hread)
    intro d hd
    rw [if_pos rfl]
    show LoopArrives freeEnv 4 withMessage
    have hframe : withMessage.parser.parse withMessage.readBuf =
        (some .ok, { phase := .payload, frame := textFrame, expectMasked := false }, []) := by decide +kernel
    have hopen : (processFrame freeEnv textFrame (withMessage.parsed { expectMasked := false } [])).closeState ≠ .closed := by
      decide +kernel
    have hempty : FrameParser.parse (processFrame freeEnv textFrame (withMessage.parsed { expectMasked := false } [])).parser
        (processFrame freeEnv textFrame (withMessage.parsed { expectMasked := false } [])).readBuf =
          (some .needMore, { expectMasked := false }, []) := by decide +kernel
    refine LoopArrives.ok CloseState.noConfusion hframe ?_ (LoopArrives.more hopen hempty)
    unfold FrameArrives
    rw [if_neg (by decide)]
    rintro ⟨hop, -⟩
    exact absurd hop (by decide)
  refine ⟨_, ?_, faithful_of_run freeEnv hrest (Run.single harr hstep)⟩
  decide +kernel

/-- A message that is followed by the end of the stream. -/
theorem not_faithful_eof :
    ¬ ∀ (env : WsEnv Unit Unit) (c : WsConn Unit Unit), Run (step env) (fun _ _ => True) (handOver true false none []) c →
      c.Faithful env true none := by
  intro h
  have hstep : step freeEnv (handOver true false none []) (.event { read := some ([0x81, 0x01, 104], .eof) }) =
      some (onEvent freeEnv { read := some ([0x81, 0x01, 104], .eof) } (handOver true false none [])) := rfl
  exact absurd (h freeEnv _ (Run.single trivial hstep)).messages (by decide +kernel)

end WsConn

end Libx.Http
