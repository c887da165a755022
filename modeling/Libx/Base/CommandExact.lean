import Libx.Base.Command

/-!
# Libx.Base.CommandExact — the executors between the steps

An executor is idle and holds nothing, or it is in the list and waits for what is to come.
-/

namespace Libx.Base

open List Option

namespace Commands

variable {ι : Type*} {s s' : Commands ι} {k : List ι} {d e : ι} {x : Executor} {o : Output} {w v : StreamName}

/-! ### The invariant -/

/-- What was read of a stream, and what was not. -/
structure Fair (o : Output) : Prop where
  capture : o.mode = .capture → o.written = o.buf ++ o.pending
  stream : o.mode = .stream → o.written = o.given ++ o.pending
  cap : o.mode = .capture → o.cap ≠ 0 → o.buf.length ≤ o.cap
  ended : o.eof = true → o.pending = [] ∧ o.isOpen = false

/-- What an executor that runs waits for; a child that has exited is known of, or met by the walk. -/
structure Going (x : Executor) (known : Prop) : Prop where
  output : ∀ w, (x.output w).eof = false → (x.output w).src = true
  child : x.childExited = false → x.child = .alive ∨ x.child = .zombie ∧ known
  more : ¬x.Ended

/-- An executor. -/
structure Fit (s : Commands ι) (k : List ι) (e : ι) : Prop where
  fair : ∀ w, Fair ((s.execs e).output w)
  once : (s.execs e).freed = false → (s.execs e).runs = (s.execs e).dones + if (s.execs e).state = .idle then 0 else 1
  phase : ((s.execs e).freed = true ∨ (s.execs e).state = .idle) ∧ e ∉ s.list ∧ (s.execs e).Released ∨
    (s.execs e).freed = false ∧ (s.execs e).state ≠ .idle ∧ e ∈ s.list ∧ Going (s.execs e) (s.signalled = true ∨ e ∈ k)

/-- All executors but `e`, and the list. -/
structure Frame (s : Commands ι) (k : List ι) (e : ι) : Prop where
  safe : s.faulted = false
  nodup : s.list.Nodup
  count : s.count = s.list.length
  watched : s.watched = decide (s.list ≠ [])
  whole : ∀ d ∈ s.log, Whole d.1 ∧ Whole d.2
  fit : ∀ d, d ≠ e → s.Fit k d

structure Inv (s : Commands ι) (k : List ι) : Prop where
  safe : s.faulted = false
  nodup : s.list.Nodup
  count : s.count = s.list.length
  watched : s.watched = decide (s.list ≠ [])
  whole : ∀ d ∈ s.log, Whole d.1 ∧ Whole d.2
  fit : ∀ d, s.Fit k d

theorem Inv.frame (h : s.Inv k) (e : ι) : s.Frame k e := ⟨h.safe, h.nodup, h.count, h.watched, h.whole, fun d _ => h.fit d⟩

theorem Inv.settled (h : s.Inv []) : s.Settled where
  safe := h.safe
  released e he := by
    rcases (h.fit e).phase with ⟨-, -, h3⟩ | ⟨h1, h2, -, -⟩
    · exact h3
    · rcases he with he | he
      · exact absurd he h2
      · exact nomatch h1.symm.trans he
  once e := (h.fit e).once
  waits e hf hst := by
    rcases (h.fit e).phase with ⟨h1 | h1, -, -⟩ | ⟨-, -, h3, h4⟩
    · exact nomatch hf.symm.trans h1
    · exact absurd h1 hst
    · refine ⟨h4.output, fun hc => ⟨h3, ?_, (h4.child hc).imp_right (And.imp_right fun hk => ?_)⟩, h4.more⟩
      · rw [h.watched]
        exact decide_eq_true fun hnil => not_mem_nil (hnil ▸ h3)
      · exact hk.resolve_right not_mem_nil
  whole := h.whole
  cap e w := ((h.fit e).fair w).cap

theorem fair_init : Fair {} := ⟨fun _ => rfl, fun _ => rfl, fun _ h => absurd rfl h, fun h => nomatch h⟩

theorem inv_init : ({} : Commands ι).Inv [] where
  safe := rfl
  nodup := nodup_nil
  count := rfl
  watched := rfl
  whole d hd := absurd hd not_mem_nil
  fit e :=
    { fair := fun w => by cases w <;> exact fair_init
      once := fun _ => rfl
      phase := .inl ⟨.inr rfl, not_mem_nil, rfl, rfl, rfl, rfl, rfl, fun w => by cases w <;> exact ⟨rfl, rfl, rfl⟩⟩ }

/-! ### Frames -/

theorem Going.mono {p q : Prop} (h : Going x p) (hpq : p → q) : Going x q :=
  ⟨h.output, fun hc => (h.child hc).imp_right (And.imp_right hpq), h.more⟩

theorem Fit.frame {k' : List ι} (h : s.Fit k e) (hx : s'.execs e = s.execs e) (hl : e ∈ s'.list ↔ e ∈ s.list)
    (hk : s.signalled = true ∨ e ∈ k → s'.signalled = true ∨ e ∈ k') : s'.Fit k' e := by
  refine ⟨?_, ?_, ?_⟩
  · rw [hx]
    exact h.fair
  · rw [hx]
    exact h.once
  · rw [hx, hl]
    exact h.phase.imp_right (And.imp_right (And.imp_right (And.imp_right fun hg => hg.mono hk)))

variable [DecidableEq ι]

theorem Frame.inv (h : s.Frame k e) (he : s.Fit k e) : s.Inv k :=
  ⟨h.safe, h.nodup, h.count, h.watched, h.whole, fun d => if hd : d = e then hd ▸ he else h.fit d hd⟩

theorem Frame.setExec (h : s.Frame k e) : (s.setExec e x).Frame k e where
  safe := h.safe
  nodup := h.nodup
  count := h.count
  watched := h.watched
  whole := h.whole
  fit d hd := (h.fit d hd).frame (Function.update_of_ne hd _ _) .rfl id

omit [DecidableEq ι] in
theorem Frame.register (h : s.Frame k e) (he : e ∉ s.list) : (s.register e).Frame k e where
  safe := h.safe
  nodup := nodup_cons.2 ⟨he, h.nodup⟩
  count := by
    rw [Commands.register, h.count]
    rfl
  watched := by simp [Commands.register]
  whole := h.whole
  fit d hd := (h.fit d hd).frame rfl (by simp [Commands.register, hd]) id

theorem Frame.unregister (h : s.Frame k e) (he : e ∈ s.list) : (s.unregister e).Frame k e where
  safe := h.safe
  nodup := h.nodup.erase e
  count := by simp [Commands.unregister, h.count, length_erase_of_mem he]
  watched := by
    have hne : s.list ≠ [] := fun hnil => not_mem_nil (hnil ▸ he)
    have hlen : s.count - 1 = (s.list.erase e).length := by rw [h.count, length_erase_of_mem he]
    simp only [Commands.unregister, hlen, h.watched, hne, ne_eq, not_false_eq_true, decide_true, Bool.true_and,
      length_eq_zero_iff]
  whole := h.whole
  fit d hd := (h.fit d hd).frame rfl (mem_erase_of_ne hd) id

omit [DecidableEq ι] in
theorem Frame.signal (h : s.Frame k e) : ({ s with signalled := true } : Commands ι).Frame k e where
  safe := h.safe
  nodup := h.nodup
  count := h.count
  watched := h.watched
  whole := h.whole
  fit d hd := (h.fit d hd).frame rfl .rfl fun _ => .inl rfl

@[simp] theorem setExec_execs_self (s : Commands ι) (e : ι) (x : Executor) : (s.setExec e x).execs e = x :=
  Function.update_self ..

omit [DecidableEq ι] in
/-! ### A command ends -/

theorem Fair.release (h : Fair o) : Fair o.release := ⟨h.capture, h.stream, h.cap, h.ended⟩

theorem Fair.close (h : Fair o) : Fair o.close := ⟨h.capture, h.stream, h.cap, h.ended⟩

theorem Fair.whole (h : Fair o) (he : o.eof = true) : Whole o := by
  obtain ⟨hp, ho⟩ := h.ended he
  refine ⟨fun hm => ?_, fun hm => ?_, ho⟩
  · rw [h.capture hm, hp, List.append_nil]
  · rw [h.stream hm, hp, List.append_nil]

/-- An executor that is in the list and may end now. -/
structure Ready (s : Commands ι) (e : ι) : Prop where
  fair : ∀ w, Fair ((s.execs e).output w)
  once : (s.execs e).runs = (s.execs e).dones + 1
  freed : (s.execs e).freed = false
  state : (s.execs e).state ≠ .idle
  mem : e ∈ s.list

theorem released_cleanup (y : Executor) (h1 : y.timeoutTimer = false) (h2 : y.cancelTimer = false) :
    y.cleanup.Released := by
  refine ⟨h1, h2, rfl, rfl, rfl, fun w => ?_⟩
  cases w <;> exact ⟨rfl, rfl, rfl⟩

theorem Frame.fireDone (h : s.Frame k e) (hr : s.Ready e) (he : (s.execs e).Ended) : (s.fireDone e).Inv k := by
  have hw : ∀ w, ((s.execs e).output w).eof = true := fun w => by
    cases w
    · exact he.1
    · exact he.2.1
  have hf : ((s.unregister e).setExec e { (s.execs e).cleanup with
      state := .idle, timeoutTimer := false, cancelTimer := false, dones := (s.execs e).dones + 1 }).Frame k e :=
    (h.unregister hr.mem).setExec
  have hlog : ∀ d ∈ s.log ++ [((s.execs e).stdout, (s.execs e).stderr)], Whole d.1 ∧ Whole d.2 := fun d hd => by
    rcases mem_append.1 hd with hd | hd
    · exact h.whole d hd
    · rw [mem_singleton.1 hd]
      exact ⟨(hr.fair .stdout).whole (hw .stdout), (hr.fair .stderr).whole (hw .stderr)⟩
  have hfr : (s.fireDone e).Frame k e := ⟨hf.safe, hf.nodup, hf.count, hf.watched, hlog,
    fun d hd => (hf.fit d hd).frame rfl .rfl id⟩
  have hx : (s.fireDone e).execs e = { (s.execs e).cleanup with
      state := .idle, timeoutTimer := false, cancelTimer := false, dones := (s.execs e).dones + 1 } := setExec_execs_self ..
  refine hfr.inv ⟨fun w => ?_, fun _ => ?_, .inl ⟨.inr ?_, ?_, ?_⟩⟩
  · rw [hx]
    cases w
    · exact (hr.fair .stdout).release
    · exact (hr.fair .stderr).release
  · rw [hx]
    exact hr.once
  · rw [hx]
  · exact h.nodup.not_mem_erase
  · rw [hx]
    refine ⟨rfl, rfl, rfl, rfl, rfl, fun w => ?_⟩
    cases w <;> exact ⟨rfl, rfl, rfl⟩

theorem Frame.check (h : s.Frame k e) (hr : s.Ready e)
    (ho : ∀ w, ((s.execs e).output w).eof = false → ((s.execs e).output w).src = true)
    (hc : (s.execs e).childExited = false → (s.execs e).child = .alive ∨ (s.execs e).child = .zombie ∧ (s.signalled = true ∨ e ∈ k)) :
    (s.check e).Inv k := by
  rw [Commands.check]
  split_ifs with he
  · exact h.fireDone hr he
  · exact h.inv ⟨hr.fair, fun _ => hr.once.trans (by rw [if_neg hr.state]), .inr ⟨hr.freed, hr.state, hr.mem, ho, hc, he⟩⟩

/-! ### Steps of one executor -/

omit [DecidableEq ι] in
theorem Fit.ready (h : s.Fit k e) (hf : (s.execs e).freed = false) (hst : (s.execs e).state ≠ .idle) :
    s.Ready e ∧ Going (s.execs e) (s.signalled = true ∨ e ∈ k) := by
  rcases h.phase with ⟨h1 | h1, -⟩ | ⟨-, -, h3, h4⟩
  · exact nomatch hf.symm.trans h1
  · exact absurd h1 hst
  · exact ⟨⟨h.fair, by rw [h.once hf, if_neg hst], hf, hst, h3⟩, h4⟩

theorem Inv.going (h : s.Inv k) (hf : (s.execs e).freed = false) (hst : (s.execs e).state ≠ .idle)
    (hfair : ∀ w, Fair (x.output w)) (hcount : x.runs = (s.execs e).runs ∧ x.dones = (s.execs e).dones)
    (hf' : x.freed = false) (hst' : x.state ≠ .idle)
    (hg : Going (s.execs e) (s.signalled = true ∨ e ∈ k) → Going x (s.signalled = true ∨ e ∈ k)) : (s.setExec e x).Inv k := by
  obtain ⟨hr, hgo⟩ := (h.fit e).ready hf hst
  refine (h.frame e).setExec.inv ⟨?_, fun _ => ?_, .inr ⟨?_, ?_, hr.mem, ?_⟩⟩
  · simpa using hfair
  · simp only [setExec_execs_self, hcount.1, hcount.2, if_neg hst']
    exact hr.once
  · simpa using hf'
  · simpa using hst'
  · simpa [setExec] using hg hgo

/-- **Step**: Cancel, or the timeout. -/
theorem Inv.terminate {b : Bool} (h : s.Inv k) (hf : (s.execs e).freed = false) : (s.terminate e b).Inv k := by
  rw [Commands.terminate]
  by_cases hst : (s.execs e).state = .running
  · simp only [if_pos hst]
    have hne : (s.execs e).state ≠ .idle := by rw [hst]; exact CommandState.noConfusion
    exact h.going hf hne (fun w => by cases w; exacts [(h.fit e).fair .stdout, (h.fit e).fair .stderr]) ⟨rfl, rfl⟩ hf
      CommandState.noConfusion fun hg => ⟨fun w => by cases w; exacts [hg.output .stdout, hg.output .stderr], hg.child, hg.more⟩
  · simp only [if_neg hst]
    exact h

omit [DecidableEq ι] in
theorem Inv.of_timer (h : s.Inv k) (ht : (s.execs e).timeoutTimer = true ∨ (s.execs e).cancelTimer = true) :
    (s.execs e).freed = false ∧ (s.execs e).state ≠ .idle := by
  rcases (h.fit e).phase with ⟨-, -, h1, h2, -⟩ | ⟨h1, h2, -⟩
  · rcases ht with ht | ht
    · exact nomatch h1.symm.trans ht
    · exact nomatch h2.symm.trans ht
  · exact ⟨h1, h2⟩

theorem Inv.unset {b c : Bool} (h : s.Inv k) (hf : (s.execs e).freed = false) (hst : (s.execs e).state ≠ .idle) :
    (s.setExec e { s.execs e with timeoutTimer := b, cancelTimer := c }).Inv k :=
  h.going hf hst (fun w => by cases w; exacts [(h.fit e).fair .stdout, (h.fit e).fair .stderr]) ⟨rfl, rfl⟩ hf hst
    fun hg => ⟨fun w => by cases w; exacts [hg.output .stdout, hg.output .stderr], hg.child, hg.more⟩

/-- **Step**: an executor is destroyed. -/
theorem Inv.destroy (h : s.Inv k)
    (hc : (s.execs e).state = .idle ∨ (s.execs e).timeoutTimer = false ∧ (s.execs e).cancelTimer = false)
    (hf : (s.execs e).freed = false) : (s.destroy e).Inv k := by
  have hfit := h.fit e
  rw [Commands.destroy]
  by_cases hst : (s.execs e).state = .idle
  · simp only [if_pos hst]
    rcases hfit.phase with ⟨-, h2, h3⟩ | ⟨-, h2, -⟩
    · refine (h.frame e).setExec.inv ⟨fun w => ?_, fun hf' => ?_, .inl ⟨.inl ?_, h2, ?_⟩⟩
      · simp only [setExec_execs_self]
        cases w
        · exact hfit.fair .stdout
        · exact hfit.fair .stderr
      · simp at hf'
      · simp
      · simp only [setExec_execs_self]
        obtain ⟨r1, r2, r3, r4, r5, r6⟩ := h3
        exact ⟨r1, r2, r3, r4, r5, fun w => by cases w; exacts [r6 .stdout, r6 .stderr]⟩
    · exact absurd hst h2
  · simp only [if_neg hst]
    obtain ⟨hr, -⟩ := hfit.ready hf hst
    obtain ⟨ht1, ht2⟩ := hc.resolve_left hst
    refine ((h.frame e).unregister hr.mem).setExec.inv ⟨fun w => ?_, fun hf' => ?_, .inl ⟨.inl ?_, h.nodup.not_mem_erase, ?_⟩⟩
    · simp only [setExec_execs_self]
      cases w
      · exact (hfit.fair .stdout).release
      · exact (hfit.fair .stderr).release
    · simp at hf'
    · simp
    · simp only [setExec_execs_self]
      obtain ⟨r1, r2, r3, r4, r5, r6⟩ := released_cleanup (s.execs e) ht1 ht2
      exact ⟨r1, r2, r3, r4, r5, fun w => by cases w; exacts [r6 .stdout, r6 .stderr]⟩

theorem output_setOutput (x : Executor) (o : Output) (w v : StreamName) :
    (x.setOutput o w).output v = if v = w then o else x.output v := by
  cases w <;> cases v <;> rfl

theorem Inv.setOutput (h : s.Inv k) (hf : (s.execs e).freed = false) (hst : (s.execs e).state ≠ .idle) (ho : Fair o)
    (hsrc : o.src = ((s.execs e).output w).src) (heof : o.eof = ((s.execs e).output w).eof) :
    (s.setExec e ((s.execs e).setOutput o w)).Inv k := by
  have hsame : ∀ v, (((s.execs e).setOutput o w).output v).src = ((s.execs e).output v).src ∧
      (((s.execs e).setOutput o w).output v).eof = ((s.execs e).output v).eof := fun v => by
    rw [output_setOutput]
    split_ifs with hv
    · subst hv
      exact ⟨hsrc, heof⟩
    · exact ⟨rfl, rfl⟩
  refine h.going hf hst (fun v => ?_) ?_ ?_ ?_ (fun hg => ⟨fun v hv => ?_, ?_, fun he => hg.more ?_⟩)
  · rw [output_setOutput]
    split_ifs
    · exact ho
    · exact (h.fit e).fair v
  · cases w <;> exact ⟨rfl, rfl⟩
  · cases w <;> exact hf
  · cases w <;> exact hst
  · rw [(hsame v).1]
    exact hg.output v ((hsame v).2.symm.trans hv)
  · cases w <;> exact hg.child
  · have h1 := (hsame .stdout).2
    have h2 := (hsame .stderr).2
    refine ⟨h1.symm.trans he.1, h2.symm.trans he.2.1, ?_⟩
    cases w <;> exact he.2.2

theorem fair_deliver {bytes rest : List UInt8} (h : Fair o) (hp : o.pending = bytes ++ rest) (hne : o.pending ≠ [])
    (hc : Room o bytes.length) : Fair { o.deliver bytes with pending := rest } := by
  have hno : o.eof = true → False := fun he => hne (h.ended he).1
  cases hm : o.mode with
  | capture =>
    refine ⟨fun _ => ?_, fun h1 => ?_, fun _ hcap => ?_, fun he => ?_⟩
    · simp [Output.deliver, hm, h.capture hm, hp]
    · simp [Output.deliver, hm] at h1
    · simp only [Output.deliver, hm] at hcap ⊢
      rw [length_append]
      exact hc hm hcap
    · simp only [Output.deliver, hm] at he
      exact (hno he).elim
  | stream =>
    refine ⟨fun h1 => ?_, fun _ => ?_, fun h1 => ?_, fun he => ?_⟩
    · simp [Output.deliver, hm] at h1
    · simp [Output.deliver, hm, h.stream hm, hp]
    · simp [Output.deliver, hm] at h1
    · simp only [Output.deliver, hm] at he
      exact (hno he).elim
  | discard =>
    refine ⟨fun h1 => ?_, fun h1 => ?_, fun h1 => ?_, fun he => ?_⟩
    · simp [Output.deliver, hm] at h1
    · simp [Output.deliver, hm] at h1
    · simp [Output.deliver, hm] at h1
    · simp only [Output.deliver, hm] at he
      exact (hno he).elim

theorem deliver_src_eof (o : Output) (bytes : List UInt8) : (o.deliver bytes).src = o.src ∧ (o.deliver bytes).eof = o.eof := by
  unfold Output.deliver
  cases o.mode <;> exact ⟨rfl, rfl⟩

omit [DecidableEq ι] in
theorem Inv.of_src (h : s.Inv k) (hs : ((s.execs e).output w).src = true) :
    (s.execs e).freed = false ∧ (s.execs e).state ≠ .idle := by
  rcases (h.fit e).phase with ⟨-, -, -, -, -, -, -, h1⟩ | ⟨h1, h2, -⟩
  · exact nomatch (h1 w).1.symm.trans hs
  · exact ⟨h1, h2⟩

/-- **Step**: a turn of the handler of a stream. -/
theorem Inv.readTurn {n : ℕ} (h : s.Inv k) (hsrc : ((s.execs e).output w).src = true)
    (hc : Room ((s.execs e).output w) (min n ((s.execs e).output w).pending.length))
    (hs : s.readTurn e w n = some s') : s'.Inv k := by
  obtain ⟨hf, hst⟩ := h.of_src hsrc
  have hfair := (h.fit e).fair w
  rw [Commands.readTurn] at hs
  by_cases hp : ((s.execs e).output w).pending = []
  · simp only [if_pos hp] at hs
    obtain ⟨hopen, hs⟩ := ite_none_left_eq_some.1 hs
    cases hs
    obtain ⟨hr, hg⟩ := (h.fit e).ready hf hst
    have hend : Fair { (s.execs e).output w with src := false, readEnd := false, eof := true } :=
      ⟨hfair.capture, hfair.stream, hfair.cap, fun _ => ⟨hp, Bool.of_not_eq_true hopen⟩⟩
    have hout : ∀ v, (((s.execs e).setOutput { (s.execs e).output w with src := false, readEnd := false, eof := true } w).output v) =
        if v = w then { (s.execs e).output w with src := false, readEnd := false, eof := true } else (s.execs e).output v :=
      output_setOutput _ _ _
    refine (h.frame e).setExec.check ⟨fun v => ?_, ?_, ?_, ?_, hr.mem⟩ (fun v hv => ?_) ?_
    · rw [setExec_execs_self, hout]
      split_ifs
      · exact hend
      · exact hr.fair v
    · rw [setExec_execs_self]
      cases w <;> exact hr.once
    · rw [setExec_execs_self]
      cases w <;> exact hr.freed
    · rw [setExec_execs_self]
      cases w <;> exact hr.state
    · rw [setExec_execs_self, hout] at hv ⊢
      split_ifs at hv ⊢
      exact hg.output v hv
    · rw [setExec_execs_self]
      cases w <;> exact hg.child
  · simp only [if_neg hp] at hs
    obtain ⟨-, hs⟩ := ite_none_right_eq_some.1 hs
    cases hs
    have hd := deliver_src_eof ((s.execs e).output w) (((s.execs e).output w).pending.take n)
    refine h.setOutput hf hst (fair_deliver hfair (take_append_drop n _).symm hp ?_) hd.1 hd.2
    rw [length_take]
    exact hc

/-- **Step**: a child writes. -/
theorem Inv.write {bytes : List UInt8} (h : s.Inv k) (hst : (s.execs e).state ≠ .idle) (hf : (s.execs e).freed = false)
    (ho : ((s.execs e).output w).isOpen = true) :
    (s.setExec e ((s.execs e).setOutput { (s.execs e).output w with
      written := ((s.execs e).output w).written ++ bytes, pending := ((s.execs e).output w).pending ++ bytes } w)).Inv k := by
  have hfair := (h.fit e).fair w
  refine h.setOutput hf hst ⟨fun hm => ?_, fun hm => ?_, hfair.cap, fun he => ?_⟩ rfl rfl
  · rw [← append_assoc, ← hfair.capture hm]
  · rw [← append_assoc, ← hfair.stream hm]
  · exact nomatch ho.symm.trans (hfair.ended he).2

/-- **Step**: all writers of a stream close it. -/
theorem Inv.close (h : s.Inv k) (hst : (s.execs e).state ≠ .idle) (hf : (s.execs e).freed = false) :
    (s.setExec e ((s.execs e).setOutput { (s.execs e).output w with isOpen := false } w)).Inv k := by
  have hfair := (h.fit e).fair w
  exact h.setOutput hf hst ⟨hfair.capture, hfair.stream, hfair.cap, fun he => ⟨(hfair.ended he).1, rfl⟩⟩ rfl rfl

/-- **Step**: a child exits, and SIGCHLD is raised. -/
theorem Inv.exit (h : s.Inv k) (hst : (s.execs e).state ≠ .idle) (hf : (s.execs e).freed = false) :
    ({ s.setExec e { s.execs e with child := .zombie } with signalled := true } : Commands ι).Inv k := by
  obtain ⟨hr, hg⟩ := (h.fit e).ready hf hst
  have hframe : ({ s.setExec e { s.execs e with child := .zombie } with signalled := true } : Commands ι).Frame k e :=
    (h.frame e).setExec.signal
  have hx : ({ s.setExec e { s.execs e with child := .zombie } with signalled := true } : Commands ι).execs e =
      { s.execs e with child := .zombie } := setExec_execs_self ..
  refine hframe.inv ⟨fun v => ?_, fun _ => ?_, .inr ⟨?_, ?_, hr.mem, ?_⟩⟩
  · rw [hx]
    cases v
    · exact hr.fair .stdout
    · exact hr.fair .stderr
  · rw [hx]
    exact hr.once.trans (by rw [if_neg hst])
  · rw [hx]
    exact hf
  · rw [hx]
    exact hst
  · rw [hx]
    exact ⟨fun v => by cases v; exacts [hg.output .stdout, hg.output .stderr], fun _ => .inr ⟨rfl, .inl rfl⟩, hg.more⟩

/-! ### SIGCHLD -/

omit [DecidableEq ι] in
theorem Inv.forget {l : List ι} (h : s.Inv k) (hl : ∀ d ∈ k, d ∉ l → ¬(s.execs d).Unreaped) : s.Inv l := by
  refine ⟨h.safe, h.nodup, h.count, h.watched, h.whole, fun d => ⟨(h.fit d).fair, (h.fit d).once,
    (h.fit d).phase.imp_right (And.imp_right (And.imp_right (And.imp_right fun hg => ⟨hg.output, fun hc => ?_, hg.more⟩)))⟩⟩
  rcases hg.child hc with h1 | ⟨h1, h2 | h2⟩
  · exact .inl h1
  · exact .inr ⟨h1, .inl h2⟩
  · exact .inr ⟨h1, .inr (by_contra fun hno => hl d h2 hno ⟨hc, .inl h1⟩)⟩

theorem Alone.setExec {l : List ι} (h : s.Alone l) (he : e ∉ l) : (s.setExec e x).Alone l := by
  induction l with
  | nil => trivial
  | cons d l ih =>
    rw [mem_cons, not_or] at he
    have hd : (s.setExec e x).execs d = s.execs d := Function.update_of_ne (Ne.symm he.1) _ _
    have hl : ∀ c ∈ l, (s.setExec e x).execs c = s.execs c := fun c hc =>
      Function.update_of_ne (fun (heq : c = e) => he.2 (heq ▸ hc)) _ _
    rw [Alone] at h ⊢
    rw [hd]
    split_ifs at h ⊢
    · exact fun c hc => (hl c hc).symm ▸ h c hc
    · exact ih h he.2

/-- A walk of SIGCHLD over `l`, when what has exited is known otherwise (`k` is empty), or is in `l` and alone. -/
theorem Inv.walk {l : List ι} (hmem : ∀ d ∈ l, d ∈ s.list) (hnd : l.Nodup) (h : s.Inv k)
    (hk : k = [] ∨ k = l ∧ s.Alone l) : (s.walk l).Inv [] := by
  induction l generalizing s k with
  | nil =>
    have hkn : k = [] := hk.elim id And.left
    subst hkn
    exact ⟨h.safe, h.nodup, h.count, h.watched, h.whole, fun d => (h.fit d).frame rfl .rfl id⟩
  | cons e l ih =>
    obtain ⟨hel, hnd'⟩ := nodup_cons.1 hnd
    have he := hmem e mem_cons_self
    rw [Commands.walk]
    by_cases hu : (s.execs e).Unreaped
    · rw [if_pos hu]
      obtain ⟨hf, hst⟩ : (s.execs e).freed = false ∧ (s.execs e).state ≠ .idle := by
        rcases (h.fit e).phase with ⟨-, h2, -⟩ | ⟨h1, h2, -⟩
        · exact absurd he h2
        · exact ⟨h1, h2⟩
      obtain ⟨hr, hg⟩ := (h.fit e).ready hf hst
      have hx : (s.setExec e { s.execs e with child := .reaped, childExited := true }).execs e =
          { s.execs e with child := .reaped, childExited := true } := setExec_execs_self ..
      have hr' : (s.setExec e { s.execs e with child := .reaped, childExited := true }).Ready e := by
        refine ⟨fun v => ?_, ?_, ?_, ?_, hr.mem⟩ <;> rw [hx]
        · cases v
          · exact hr.fair .stdout
          · exact hr.fair .stderr
        · exact hr.once
        · exact hf
        · exact hst
      simp only [hx]
      split_ifs with hend
      · -- the walk ends with the on_done, and nobody behind has exited unheard
        have hinv := ((h.frame e).setExec (x := { s.execs e with child := .reaped, childExited := true })).fireDone hr'
          (hx.symm ▸ hend)
        have hinv' : ((s.setExec e { s.execs e with child := .reaped, childExited := true }).fireDone e).Inv [] := by
          rcases hk with rfl | ⟨rfl, hal⟩
          · exact hinv
          · rw [Alone, if_pos ⟨hu, hend.1, hend.2.1⟩] at hal
            refine hinv.forget fun d hd _ => ?_
            rcases mem_cons.1 hd with rfl | hd
            · simp [Commands.fireDone, Executor.Unreaped, Executor.cleanup]
            · have hne : d ≠ e := fun heq => hel (heq ▸ hd)
              have : ((s.setExec e { s.execs e with child := .reaped, childExited := true }).fireDone e).execs d = s.execs d := by
                simp [Commands.fireDone, Commands.setExec, Commands.unregister, hne]
              rw [this]
              exact hal d hd
        exact ⟨hinv'.safe, hinv'.nodup, hinv'.count, hinv'.watched, hinv'.whole, fun d => (hinv'.fit d).frame rfl .rfl id⟩
      · have hinv : (s.setExec e { s.execs e with child := .reaped, childExited := true }).Inv k := by
          refine (h.frame e).setExec.inv ⟨hr'.fair, fun _ => ?_, .inr ⟨hr'.freed, hr'.state, hr.mem, ?_⟩⟩
          · exact hr'.once.trans (by rw [if_neg hr'.state])
          · rw [hx]
            exact ⟨fun v => by cases v; exacts [hg.output .stdout, hg.output .stderr], (fun hc => nomatch hc), hend⟩
        rcases hk with rfl | ⟨rfl, hal⟩
        · exact ih (fun d hd => hmem d (mem_cons_of_mem _ hd)) hnd' hinv (.inl rfl)
        · have hnot : ¬((s.execs e).Unreaped ∧ (s.execs e).stdout.eof = true ∧ (s.execs e).stderr.eof = true) :=
            fun hall => hend ⟨hall.2.1, hall.2.2, rfl⟩
          rw [Alone, if_neg hnot] at hal
          refine ih (fun d hd => hmem d (mem_cons_of_mem _ hd)) hnd' (k := l) ?_ (.inr ⟨rfl, hal.setExec hel⟩)
          refine hinv.forget fun d hd hno => ?_
          rw [(mem_cons.1 hd).resolve_right hno, hx]
          exact fun hun => nomatch hun.1
    · rw [if_neg hu]
      rcases hk with rfl | ⟨rfl, hal⟩
      · exact ih (fun d hd => hmem d (mem_cons_of_mem _ hd)) hnd' h (.inl rfl)
      · rw [Alone, if_neg fun hall => hu hall.1] at hal
        refine ih (fun d hd => hmem d (mem_cons_of_mem _ hd)) hnd' (k := l) ?_ (.inr ⟨rfl, hal⟩)
        refine h.forget fun d hd hno => ?_
        rw [(mem_cons.1 hd).resolve_right hno]
        exact hu

/-- **Step**: SIGCHLD is handled. -/
theorem Inv.sigchld (h : s.Inv []) (hal : s.Alone s.list) :
    (Commands.walk { s with signalled := false } s.list).Inv [] := by
  have h0 : ({ s with signalled := false } : Commands ι).Inv s.list := by
    refine ⟨h.safe, h.nodup, h.count, h.watched, h.whole, fun d => ⟨(h.fit d).fair, (h.fit d).once, ?_⟩⟩
    refine (h.fit d).phase.imp_right fun ⟨h1, h2, h3, h4⟩ => ⟨h1, h2, h3, h4.mono fun _ => .inr h3⟩
  have hal' : ∀ l, s.Alone l → ({ s with signalled := false } : Commands ι).Alone l := fun l => by
    induction l with
    | nil => exact id
    | cons d l ih =>
      rw [Alone, Alone]
      split_ifs
      · exact id
      · exact ih
  exact Inv.walk (fun _ hd => hd) h.nodup h0 (.inr ⟨rfl, hal' _ hal⟩)

/-- **Step**: an on_done returns to the walk. -/
theorem Inv.resume (h : s.Inv []) (d : ι) : (s.walk (behind s.list d)).Inv [] := by
  have hsub : (behind s.list d).Sublist s.list := (tail_sublist _).trans (dropWhile_sublist _)
  exact Inv.walk (fun c hc => hsub.subset hc) (hsub.nodup h.nodup) h (.inl rfl)

/-! ### Submit -/

theorem Frame.idle (h : s.Frame k e) (hl : e ∉ s.list) (hfair : ∀ w, Fair (x.output w)) (hone : x.runs = x.dones)
    (hst : x.state = .idle) (hr : x.Released) : (s.setExec e x).Inv k := by
  refine h.setExec.inv ⟨?_, fun _ => ?_, .inl ⟨.inr ?_, hl, ?_⟩⟩
  · simpa using hfair
  · simp [hst, hone]
  · simpa using hst
  · simpa using hr

theorem Frame.abandon (h : s.Frame k e) (hl : e ∈ s.list) (hfair : ∀ w, Fair (x.output w)) (hone : x.runs = x.dones)
    (hr : x.Released) : (s.abandon e x).Inv k := by
  refine (h.unregister hl).idle h.nodup.not_mem_erase (fun w => ?_) hone rfl ?_
  · cases w
    · exact hfair .stdout
    · exact hfair .stderr
  · obtain ⟨r1, r2, r3, r4, r5, r6⟩ := hr
    exact ⟨r1, r2, r3, r4, r5, fun w => by cases w; exacts [r6 .stdout, r6 .stderr]⟩

variable {c : CommandConf} {a : Answers}

theorem Frame.start (h : s.Frame k e) (hl : e ∈ s.list)
    (hfair : ∀ w, Fair ((s.execs e).output w)) (hone : (s.execs e).runs = (s.execs e).dones)
    (hf : (s.execs e).freed = false)
    (hg : Going (s.execs e) (s.signalled = true ∨ e ∈ k)) : (s.start e c a).Inv k := by
  refine h.setExec.inv ⟨fun w => ?_, fun _ => ?_, .inr ⟨?_, ?_, hl, ?_⟩⟩ <;> rw [setExec_execs_self]
  · cases w
    · exact hfair .stdout
    · exact hfair .stderr
  · simp [hone]
  · exact hf
  · exact CommandState.noConfusion
  · exact ⟨fun w => by cases w; exacts [hg.output .stdout, hg.output .stderr], hg.child, hg.more⟩

/-- The stream of an executor when Submit comes to its pipes, and with its pipe. -/
def fresh (mode : OutputMode) (cap : ℕ) : Output := { mode, cap }

def piped (mode : OutputMode) (cap : ℕ) : Output :=
  { mode, cap, readEnd := decide (mode ≠ .discard), writeEnd := decide (mode ≠ .discard) }

theorem fair_fresh (o : Output) (h1 : o.buf = []) (h2 : o.given = []) (h3 : o.written = []) (h4 : o.pending = [])
    (h5 : o.eof = true → o.isOpen = false) : Fair o := by
  refine ⟨fun _ => ?_, fun _ => ?_, fun _ _ => ?_, fun he => ⟨h4, h5 he⟩⟩
  · rw [h1, h3, h4]
    rfl
  · rw [h2, h3, h4]
    rfl
  · rw [h1]
    exact Nat.zero_le _

/-- An executor that Submit has reset. -/
structure Blank (x : Executor) (c : CommandConf) : Prop where
  stdout : x.stdout = fresh c.stdoutMode c.stdoutCap
  stderr : x.stderr = fresh c.stderrMode c.stderrCap
  once : x.runs = x.dones
  state : x.state = .idle
  freed : x.freed = false
  timers : x.timeoutTimer = false ∧ x.cancelTimer = false
  master : x.master = false
  stdin : x.stdinRead = false ∧ x.stdinWrite = false
  exited : x.childExited = false

theorem reset_eq (o : Output) (mode : OutputMode) (cap : ℕ) (h : o.src = false ∧ o.readEnd = false ∧ o.writeEnd = false) :
    o.reset mode cap = fresh mode cap := by
  obtain ⟨h1, h2, h3⟩ := h
  simp [Output.reset, fresh, h1, h2, h3]

theorem fair_of_fresh (mode : OutputMode) (cap : ℕ) : Fair (fresh mode cap) :=
  fair_fresh _ rfl rfl rfl rfl fun h => nomatch h

theorem Blank.fair (h : Blank x c) (w : StreamName) : Fair (x.output w) := by
  cases w
  · rw [Executor.output, h.stdout]
    exact fair_of_fresh _ _
  · rw [Executor.output, h.stderr]
    exact fair_of_fresh _ _

theorem Blank.released (h : Blank x c) : x.Released := by
  refine ⟨h.timers.1, h.timers.2, h.stdin.1, h.stdin.2, h.master, fun w => ?_⟩
  cases w
  · rw [Executor.output, h.stdout]
    exact ⟨rfl, rfl, rfl⟩
  · rw [Executor.output, h.stderr]
    exact ⟨rfl, rfl, rfl⟩

theorem Frame.probe (h : s.Frame k e) :
    (s.probe e a).Frame k e ∧ (s.probe e a).list = s.list ∧
      (s.probe e a).execs e = if a.exited then { s.execs e with child := .reaped, childExited := true } else s.execs e := by
  rw [Commands.probe]
  split_ifs
  · exact ⟨h.setExec.signal, rfl, setExec_execs_self ..⟩
  · exact ⟨h, rfl, rfl⟩

theorem attach_some {o' : Output} {b : Bool} (hread : o.readEnd = decide (o.mode ≠ .discard)) (hfair : Fair o)
    (hopen : o.mode = .discard → o.pending = [] ∧ o.isOpen = false) (heof : o.eof = false) (h : attach o b = some o') :
    Fair o' ∧ (o'.eof = false → o'.src = true) ∧ (o'.eof = true → o.mode = .discard) ∧
      (o.src = false → o'.src = true → o.mode ≠ .discard ∧ b = true) ∧
      o'.readEnd = o.readEnd ∧ o'.writeEnd = o.writeEnd := by
  rw [attach] at h
  by_cases hm : o.mode = .discard
  · rw [if_neg fun hc => hc.1 hm] at h
    cases h
    exact ⟨⟨hfair.capture, hfair.stream, hfair.cap, fun _ => hopen hm⟩, (fun he => nomatch he), fun _ => hm,
      (fun h1 h2 => nomatch h1.symm.trans h2), rfl, rfl⟩
  · have hr : o.readEnd = true := hread.trans (decide_eq_true hm)
    rw [if_pos ⟨hm, hr⟩] at h
    obtain ⟨hb, h⟩ := ite_none_right_eq_some.1 h
    cases h
    exact ⟨⟨hfair.capture, hfair.stream, hfair.cap, hfair.ended⟩, fun _ => rfl, (fun he => nomatch heof.symm.trans he),
      fun _ _ => ⟨hm, hb⟩, rfl, rfl⟩

theorem attach_none {b : Bool} (h : attach o b = none) : o.mode ≠ .discard ∧ b = false := by
  rw [attach] at h
  split_ifs at h with h1 h2
  exact ⟨h1.1, Bool.of_not_eq_true h2⟩

/-- The stream of a child, in the parent, after the fork. -/
def forked (mode : OutputMode) (cap : ℕ) : Output :=
  { mode, cap, readEnd := decide (mode ≠ .discard), isOpen := decide (mode ≠ .discard) }

theorem fair_forked (mode : OutputMode) (cap : ℕ) : Fair (forked mode cap) :=
  fair_fresh _ rfl rfl rfl rfl fun h => nomatch h

theorem forked_open (mode : OutputMode) (cap : ℕ) (h : mode = .discard) :
    (forked mode cap).pending = [] ∧ (forked mode cap).isOpen = false := by
  subst h
  exact ⟨rfl, rfl⟩

theorem Frame.spawnPipe (h : s.Frame k e) (hl : e ∉ s.list)
    (hout : x.stdout = piped c.stdoutMode c.stdoutCap) (herr : x.stderr = piped c.stderrMode c.stderrCap)
    (hone : x.runs = x.dones) (hf : x.freed = false)
    (ht : x.timeoutTimer = false ∧ x.cancelTimer = false) (hm : x.master = false) (hx : x.childExited = false)
    (hadd : c.stdoutMode ≠ .discard → c.stderrMode ≠ .discard → a.stdoutAdd = true → a.stderrAdd = true)
    (hexit : c.stdoutMode = .discard → c.stderrMode = .discard → a.exited = false) : (s.spawnPipe e x c a).Inv k := by
  obtain ⟨hfr, hlist, hexec⟩ := ((h.register hl).setExec (x := { x with
    child := .alive, stdinRead := false
    stdout.writeEnd := false, stdout.isOpen := decide (c.stdoutMode ≠ .discard)
    stderr.writeEnd := false, stderr.isOpen := decide (c.stderrMode ≠ .discard) })).probe (a := a)
  rw [setExec_execs_self] at hexec
  have hmem : e ∈ (((s.register e).setExec e { x with
      child := .alive, stdinRead := false
      stdout.writeEnd := false, stdout.isOpen := decide (c.stdoutMode ≠ .discard)
      stderr.writeEnd := false, stderr.isOpen := decide (c.stderrMode ≠ .discard) }).probe e a).list := by
    rw [hlist]
    exact mem_cons_self
  rw [Commands.spawnPipe]
  generalize ((s.register e).setExec e { x with
      child := .alive, stdinRead := false
      stdout.writeEnd := false, stdout.isOpen := decide (c.stdoutMode ≠ .discard)
      stderr.writeEnd := false, stderr.isOpen := decide (c.stderrMode ≠ .discard) }).probe e a = u at hfr hmem hexec ⊢
  -- what the parent has of the child after the probe
  obtain ⟨yout, yerr, yone, yfreed, ytime, ymaster, ychild⟩ :
      (u.execs e).stdout = forked c.stdoutMode c.stdoutCap ∧ (u.execs e).stderr = forked c.stderrMode c.stderrCap ∧
      (u.execs e).runs = (u.execs e).dones ∧ (u.execs e).freed = false ∧
      ((u.execs e).timeoutTimer = false ∧ (u.execs e).cancelTimer = false) ∧ (u.execs e).master = false ∧
      (u.execs e).childExited = a.exited ∧ (a.exited = false → (u.execs e).child = .alive) := by
    rw [hexec]
    cases a.exited
    · exact ⟨by simp [hout, piped, forked], by simp [herr, piped, forked], hone, hf, ht, hm, hx, fun _ => rfl⟩
    · exact ⟨by simp [hout, piped, forked], by simp [herr, piped, forked], hone, hf, ht, hm, rfl, fun h => nomatch h⟩
  have gone : ∀ (o o' : Output), Fair o → Fair o' → o.src = false → o'.src = false →
      (u.abandon e (({ u.execs e with stdout := o, stderr := o' } : Executor).closePipes)).Inv k := fun o o' h1 h2 h3 h4 => by
    refine hfr.abandon hmem (fun w => ?_) yone ⟨ytime.1, ytime.2, rfl, rfl, ymaster, fun w => ?_⟩
    · cases w
      · exact h1.close
      · exact h2.close
    · cases w
      · exact ⟨h3, rfl, rfl⟩
      · exact ⟨h4, rfl, rfl⟩
  cases hat : attach (u.execs e).stdout a.stdoutAdd with
  | none =>
    refine gone (u.execs e).stdout (u.execs e).stderr ?_ ?_ ?_ ?_
    · exact yout ▸ fair_forked _ _
    · exact yerr ▸ fair_forked _ _
    · rw [yout]
      rfl
    · rw [yerr]
      rfl
  | some o =>
    rw [yout] at hat
    obtain ⟨o1, o2, o3, o4, -⟩ := attach_some rfl (fair_forked _ _) (forked_open _ _) rfl hat
    dsimp only
    cases hat' : attach (u.execs e).stderr a.stderrAdd with
    | none =>
      rw [yerr] at hat'
      obtain ⟨hmode, hno⟩ := attach_none hat'
      have hsrc : o.src = false := Bool.of_not_eq_true fun hs => by
        obtain ⟨hm', hok⟩ := o4 rfl hs
        exact nomatch hno.symm.trans (hadd hm' hmode hok)
      refine gone o (u.execs e).stderr o1 ?_ hsrc ?_
      · exact yerr ▸ fair_forked _ _
      · rw [yerr]
        rfl
    | some o' =>
      rw [yerr] at hat'
      obtain ⟨p1, p2, p3, -⟩ := attach_some rfl (fair_forked _ _) (forked_open _ _) rfl hat'
      refine hfr.setExec.start hmem (fun w => ?_) ?_ ?_ ⟨fun w => ?_, fun hc => ?_, fun he => ?_⟩
      all_goals simp only [setExec_execs_self] at *
      · cases w
        · exact o1
        · exact p1
      · exact yone
      · exact yfreed
      · cases w
        · exact o2
        · exact p2
      · exact .inl (ychild.2 (ychild.1.symm.trans hc))
      · have hd := hexit (o3 he.1) (p3 he.2.1)
        exact nomatch (ychild.1.trans hd).symm.trans he.2.2

theorem fair_piped (mode : OutputMode) (cap : ℕ) : Fair (piped mode cap) :=
  fair_fresh _ rfl rfl rfl rfl fun h => nomatch h

theorem piped_eq (mode : OutputMode) (cap : ℕ) :
    (if mode = .discard then fresh mode cap else { fresh mode cap with readEnd := true, writeEnd := true }) = piped mode cap := by
  by_cases h : mode = .discard
  · simp [h, fresh, piped]
  · simp [h, fresh, piped]

theorem Frame.submitPipe (h : s.Frame k e) (hl : e ∉ s.list) (hb : Blank (s.execs e) c)
    (hpipe : a.stdinPipe = true → c.stdoutMode ≠ .discard → a.stdoutPipe = true)
    (hadd : c.stdoutMode ≠ .discard → c.stderrMode ≠ .discard → a.stdoutAdd = true → a.stderrAdd = true)
    (hexit : c.stdoutMode = .discard → c.stderrMode = .discard → a.exited = false) : (s.submitPipe e c a).Inv k := by
  have closed : ∀ y : Executor, (∀ w, Fair (y.output w)) → y.runs = y.dones → y.state = .idle →
      y.timeoutTimer = false ∧ y.cancelTimer = false → y.master = false → (∀ w, (y.output w).src = false) →
      (s.setExec e y.closePipes).Inv k := fun y h1 h2 h3 h4 h5 h6 => by
    refine h.idle hl (fun w => ?_) h2 h3 ⟨h4.1, h4.2, rfl, rfl, h5, fun w => ?_⟩
    · cases w
      · exact (h1 .stdout).close
      · exact (h1 .stderr).close
    · cases w
      · exact ⟨h6 .stdout, rfl, rfl⟩
      · exact ⟨h6 .stderr, rfl, rfl⟩
  rw [Commands.submitPipe]
  cases hs : a.stdinPipe with
  | false =>
    rw [if_pos rfl]
    exact h.inv ⟨hb.fair, fun _ => by rw [hb.once, if_pos hb.state]; rfl, .inl ⟨.inr hb.state, hl, hb.released⟩⟩
  | true =>
    rw [if_neg fun hs' : true = false => nomatch hs']
    have hno : ¬(c.stdoutMode ≠ .discard ∧ a.stdoutPipe = false) := fun hc => nomatch hc.2.symm.trans (hpipe hs hc.1)
    dsimp only
    rw [if_neg hno]
    -- the executor with its first two pipes
    have hx2 : (if c.stdoutMode = .discard then ({ s.execs e with stdinRead := true, stdinWrite := true } : Executor)
        else { s.execs e with stdinRead := true, stdinWrite := true, stdout.readEnd := true, stdout.writeEnd := true }) =
        { s.execs e with stdinRead := true, stdinWrite := true, stdout := piped c.stdoutMode c.stdoutCap } := by
      rw [← piped_eq]
      split_ifs <;> simp [hb.stdout]
    rw [hx2]
    by_cases he : c.stderrMode ≠ .discard ∧ a.stderrPipe = false
    · rw [if_pos he]
      refine closed _ (fun w => ?_) hb.once hb.state hb.timers hb.master (fun w => ?_)
      · cases w
        · exact fair_piped _ _
        · exact hb.fair .stderr
      · cases w
        · rfl
        · rw [Executor.output, hb.stderr]
          rfl
    · rw [if_neg he]
      have hx3 : (if c.stderrMode = .discard then
            ({ s.execs e with stdinRead := true, stdinWrite := true, stdout := piped c.stdoutMode c.stdoutCap } : Executor)
          else { s.execs e with
            stdinRead := true, stdinWrite := true, stdout := piped c.stdoutMode c.stdoutCap
            stderr.readEnd := true, stderr.writeEnd := true }) =
          { s.execs e with
            stdinRead := true, stdinWrite := true, stdout := piped c.stdoutMode c.stdoutCap
            stderr := piped c.stderrMode c.stderrCap } := by
        rw [← piped_eq c.stderrMode]
        split_ifs <;> simp [hb.stderr]
      rw [hx3]
      split_ifs
      · refine closed _ (fun w => ?_) hb.once hb.state hb.timers hb.master (fun w => ?_)
        · cases w
          · exact fair_piped _ _
          · exact fair_piped _ _
        · cases w <;> rfl
      · exact h.spawnPipe hl rfl rfl hb.once hb.freed hb.timers hb.master hb.exited hadd hexit

theorem fair_early (mode : OutputMode) (cap : ℕ) (data : List UInt8)
    (hcap : mode = .capture → cap ≠ 0 → data.length ≤ cap) :
    Fair { Output.deliver { fresh mode cap with src := true, isOpen := true } data with written := data } ∧
      (Output.deliver { fresh mode cap with src := true, isOpen := true } data).src = true ∧
      (Output.deliver { fresh mode cap with src := true, isOpen := true } data).eof = false := by
  cases mode with
  | capture =>
    refine ⟨⟨fun _ => ?_, (fun hm => nomatch hm), fun _ hne => hcap rfl hne, fun he => nomatch he⟩, rfl, rfl⟩
    exact (List.append_nil data).symm
  | stream =>
    refine ⟨⟨(fun hm => nomatch hm), fun _ => ?_, (fun hm => nomatch hm), fun he => nomatch he⟩, rfl, rfl⟩
    exact (List.append_nil data).symm
  | discard => exact ⟨⟨(fun hm => nomatch hm), (fun hm => nomatch hm), (fun hm => nomatch hm), fun he => nomatch he⟩, rfl, rfl⟩

theorem Frame.submitPty (h : s.Frame k e) (hl : e ∉ s.list) (hb : Blank (s.execs e) c)
    (hc : a.exited = true → a.ended = false ∧ (c.stdoutMode = .capture → c.stdoutCap ≠ 0 → a.data.length ≤ c.stdoutCap)) :
    (s.submitPty e c a).Inv k := by
  have hmem : e ∈ (s.register e).list := mem_cons_self
  obtain ⟨r1, r2, r3, r4, r5, r6⟩ := hb.released
  have hferr : Fair { (s.execs e).stderr with eof := true } := by
    rw [hb.stderr]
    exact fair_fresh _ rfl rfl rfl rfl fun _ => rfl
  rw [Commands.submitPty]
  by_cases h1 : a.argv = false ∨ (s.count = 0 ∧ a.watch = false) ∨ a.fork = false
  · rw [if_pos h1]
    exact h.inv ⟨hb.fair, fun _ => by rw [hb.once, if_pos hb.state]; rfl, .inl ⟨.inr hb.state, hl, hb.released⟩⟩
  rw [if_neg h1]
  by_cases h2 : a.nonblock = false
  · rw [if_pos h2]
    exact (h.register hl).abandon hmem hb.fair hb.once hb.released
  rw [if_neg h2]
  by_cases h3 : a.stdoutAdd = false
  · simp only [if_pos h3]
    refine (h.register hl).abandon hmem (fun w => ?_) hb.once ⟨r1, r2, r3, r4, r5, fun w => ?_⟩
    · cases w
      · exact hb.fair .stdout
      · exact hferr
    · cases w
      · exact r6 .stdout
      · exact r6 .stderr
  · simp only [if_neg h3]
    -- the child runs, and its output is watched
    obtain ⟨hfr, hlist, hexec⟩ := ((h.register hl).setExec (x := { s.execs e with
      stderr.eof := true, child := .alive, master := true, stdout.src := true, stdout.isOpen := true })).probe (a := a)
    rw [setExec_execs_self] at hexec
    have hmem' : e ∈ (((s.register e).setExec e { s.execs e with
        stderr.eof := true, child := .alive, master := true, stdout.src := true, stdout.isOpen := true }).probe e a).list :=
      hlist.symm ▸ mem_cons_self
    generalize ((s.register e).setExec e { s.execs e with
      stderr.eof := true, child := .alive, master := true, stdout.src := true, stdout.isOpen := true }).probe e a = u
      at hfr hmem' hexec ⊢
    have hout : (u.execs e).stdout = { fresh c.stdoutMode c.stdoutCap with src := true, isOpen := true } := by
      rw [hexec, ← hb.stdout]
      split_ifs <;> rfl
    have herr : (u.execs e).stderr = { (s.execs e).stderr with eof := true } := by
      rw [hexec]
      split_ifs <;> rfl
    have hone : (u.execs e).runs = (u.execs e).dones ∧ (u.execs e).freed = false := by
      rw [hexec]
      split_ifs <;> exact ⟨hb.once, hb.freed⟩
    cases hex : a.exited with
    | false =>
      rw [if_neg Bool.false_ne_true]
      refine hfr.start hmem' (fun w => ?_) hone.1 hone.2 ⟨fun w he => ?_, fun _ => .inl ?_, fun he => ?_⟩
      · cases w
        · rw [Executor.output, hout]
          exact fair_fresh _ rfl rfl rfl rfl fun h => nomatch h
        · rw [Executor.output, herr]
          exact hferr
      · cases w
        · rw [Executor.output, hout]
        · rw [Executor.output, herr] at he
          exact nomatch he
      · rw [hexec, hex, if_neg Bool.false_ne_true]
      · rw [Executor.Ended, hout] at he
        exact nomatch he.1
    | true =>
      rw [if_pos rfl]
      obtain ⟨hend, hcap⟩ := hc hex
      obtain ⟨o1, o2, o3⟩ := fair_early c.stdoutMode c.stdoutCap a.data hcap
      rw [← hout] at o1 o2 o3
      rw [readEarly, hend]
      simp only [Bool.false_eq_true, if_false]
      have hnot : ¬((u.setExec e { u.execs e with
          stdout := { (u.execs e).stdout.deliver a.data with written := a.data } }).execs e).Ended := by
        rw [setExec_execs_self]
        exact fun he => nomatch o3.symm.trans he.1
      rw [Commands.check, if_neg hnot]
      refine hfr.setExec.start hmem' (fun w => ?_) ?_ ?_ ⟨fun w he => ?_, fun hch => ?_, hnot⟩
      · rw [setExec_execs_self]
        cases w
        · exact o1
        · rw [Executor.output, herr]
          exact hferr
      · rw [setExec_execs_self]
        exact hone.1
      · rw [setExec_execs_self]
        exact hone.2
      · rw [setExec_execs_self] at he ⊢
        cases w
        · exact o2
        · rw [Executor.output, herr] at he
          exact nomatch he
      · rw [setExec_execs_self] at hch
        rw [hexec, hex, if_pos rfl] at hch
        exact nomatch hch

/-- **Step**: a command is submitted. -/
theorem Inv.submit (h : s.Inv k) (hf : (s.execs e).freed = false)
    (hc : s.Clean (.submit e c a)) : (s.submit e c a).Inv k := by
  have hfit := h.fit e
  rw [Commands.submit]
  by_cases hst : (s.execs e).state = .idle
  · rw [if_neg (not_not.2 hst)]
    obtain ⟨hl, r1, r2, r3, r4, r5, r6⟩ : e ∉ s.list ∧ (s.execs e).Released := by
      rcases hfit.phase with ⟨-, h2⟩ | ⟨-, h2, -⟩
      · exact h2
      · exact absurd hst h2
    have hone : (s.execs e).runs = (s.execs e).dones := by
      have := hfit.once hf
      rwa [if_pos hst] at this
    have hout := reset_eq (s.execs e).stdout c.stdoutMode c.stdoutCap (r6 .stdout)
    have herr := reset_eq (s.execs e).stderr c.stderrMode c.stderrCap (r6 .stderr)
    dsimp only
    split_ifs with hbuf hpty
    · refine (h.frame e).idle hl (fun w => ?_) hone hst ⟨r1, r2, r3, r4, r5, fun w => ?_⟩
      · cases w
        · exact (congrArg Fair hout).mpr (fair_of_fresh c.stdoutMode c.stdoutCap)
        · exact (congrArg Fair herr).mpr (fair_of_fresh c.stderrMode c.stderrCap)
      · cases w
        · exact r6 .stdout
        · exact r6 .stderr
    · have hblank : Blank ((s.setExec e ((s.execs e).reset c).resetRun).execs e) c := by
        rw [setExec_execs_self]
        exact ⟨hout, herr, hone, hst, hf, ⟨r1, r2⟩, rfl, ⟨rfl, rfl⟩, rfl⟩
      have hcl := hc hst (Bool.of_not_eq_false hbuf)
      rw [if_pos hpty] at hcl
      exact (h.frame e).setExec.submitPty hl hblank hcl
    · have hblank : Blank ((s.setExec e ((s.execs e).reset c).resetRun).execs e) c := by
        rw [setExec_execs_self]
        exact ⟨hout, herr, hone, hst, hf, ⟨r1, r2⟩, rfl, ⟨rfl, rfl⟩, rfl⟩
      have hcl := hc hst (Bool.of_not_eq_false hbuf)
      rw [if_neg hpty] at hcl
      exact (h.frame e).setExec.submitPipe hl hblank hcl.1 hcl.2.1 hcl.2.2
  · rw [if_pos hst]
    exact h

/-- **Step**: a clean step keeps the invariant. -/
theorem Inv.step {m : Act ι} (h : s.Inv []) (hc : s.Clean m) (hs : s.step m = some s') : s'.Inv [] := by
  cases m with
  | submit e c a =>
    obtain ⟨hf, hs⟩ := ite_none_left_eq_some.1 hs
    cases hs
    exact h.submit (Bool.of_not_eq_true hf) hc
  | cancel e timerOk =>
    obtain ⟨hf, hs⟩ := ite_none_left_eq_some.1 hs
    cases hs
    exact h.terminate (Bool.of_not_eq_true hf)
  | destroy e =>
    obtain ⟨hf, hs⟩ := ite_none_left_eq_some.1 hs
    cases hs
    exact h.destroy hc (Bool.of_not_eq_true fun he => hf (.inl he))
  | read e w n =>
    obtain ⟨⟨-, -, hsrc⟩, hs⟩ := ite_none_right_eq_some.1 hs
    exact h.readTurn hsrc hc hs
  | timeout e timerOk =>
    obtain ⟨⟨-, ht⟩, hs⟩ := ite_none_right_eq_some.1 hs
    obtain ⟨hf, hst⟩ := h.of_timer (.inl ht)
    dsimp only at hs
    rw [if_neg (by rw [hf]; exact Bool.false_ne_true)] at hs
    cases hs
    refine (h.unset (b := false) (c := (s.execs e).cancelTimer) hf hst).terminate ?_
    rw [setExec_execs_self]
    exact hf
  | grace e =>
    obtain ⟨⟨-, ht⟩, hs⟩ := ite_none_right_eq_some.1 hs
    obtain ⟨hf, hst⟩ := h.of_timer (.inr ht)
    dsimp only at hs
    rw [if_neg (by rw [hf]; exact Bool.false_ne_true)] at hs
    cases hs
    exact h.unset (b := (s.execs e).timeoutTimer) (c := false) hf hst
  | sigchld =>
    obtain ⟨-, hs⟩ := ite_none_right_eq_some.1 hs
    cases hs
    exact h.sigchld hc
  | resume =>
    obtain ⟨d, -, rfl⟩ := map_eq_some_iff.1 hs
    exact h.resume d
  | write e w bytes =>
    obtain ⟨⟨hst, hf, ho⟩, hs⟩ := ite_none_right_eq_some.1 hs
    cases hs
    exact h.write hst hf ho
  | close e w =>
    obtain ⟨⟨hst, hf⟩, hs⟩ := ite_none_right_eq_some.1 hs
    cases hs
    exact h.close hst hf
  | exit e =>
    obtain ⟨⟨hst, hf, -⟩, hs⟩ := ite_none_right_eq_some.1 hs
    cases hs
    exact h.exit hst hf

open Libx.Core (Run replay exists_run_of_replay)

/-- While the steps are clean, every command ends once, after its output, what is captured is within its cap, and an
executor that is idle holds nothing. -/
theorem settled_of_clean (h : Run step Clean ({} : Commands ι) s) : s.Settled :=
  (h.preserves (fun _ _ _ hi hc hs => Inv.step hi hc hs) inv_init).settled

/-- A command writes and exits, and its output is read before and after; another, in a terminal, is cancelled. -/
theorem settled_of_clean_two : ∃ s : Commands (Fin 2), Run step Clean {} s ∧ s.Settled ∧
    s.log.map (fun d => d.1.buf) = [[1, 2, 3], [9]] ∧ s.list = [] := by
  have hreplay : replay step (fun s m => decide (s.Clean m))
      (fun s : Commands (Fin 2) => decide (s.log.map (fun d => d.1.buf) = [[1, 2, 3], [9]] ∧ s.list = [])) {}
      [.submit 0 { stdoutCap := 3, stderrMode := .discard, timeout := true } {}, .submit 1 { pty := true } {},
        .write 0 .stdout [1, 2], .read 0 .stdout 4096, .write 0 .stdout [3], .exit 0, .sigchld, .close 0 .stdout,
        .read 0 .stdout 4096, .read 0 .stdout 1, .write 1 .stdout [9], .cancel 1 true, .close 1 .stdout, .exit 1,
        .read 1 .stdout 7, .read 1 .stdout 7, .sigchld, .resume] = true := by
    decide +kernel
  obtain ⟨s, hr, hp⟩ := exists_run_of_replay step Clean _ _ (fun _ _ => of_decide_eq_true) hreplay
  exact ⟨s, hr, settled_of_clean hr, of_decide_eq_true hp⟩

/-- Two children have exited when SIGCHLD is handled; the walk ends with the first on_done, and the other command waits for
ever. -/
theorem not_settled_walk : ¬∀ s : Commands (Fin 2), Run step (fun _ _ => True) {} s → s.Settled := by
  intro hall
  have hreplay : replay step (fun _ _ => true)
      (fun s : Commands (Fin 2) => decide (((s.execs 0).freed = false ∧ (s.execs 0).state ≠ .idle) ∧
        (s.execs 0).childExited = false ∧ (s.execs 0).child = .zombie ∧ s.signalled = false)) {}
      [.submit 0 { stdoutMode := .discard, stderrMode := .discard } {},
        .submit 1 { stdoutMode := .discard, stderrMode := .discard } {}, .exit 0, .exit 1, .sigchld, .resume] = true := by
    decide +kernel
  obtain ⟨s, hr, hp⟩ := exists_run_of_replay step (fun _ _ => True) _ _ (fun _ _ _ => trivial) hreplay
  obtain ⟨⟨hf, hst⟩, hex, hzombie, hsig⟩ := of_decide_eq_true hp
  obtain ⟨-, -, h | h⟩ := ((hall s hr).waits 0 hf hst).child hex
  · exact nomatch hzombie.symm.trans h
  · exact nomatch hsig.symm.trans h.2

end Commands

end Libx.Base
