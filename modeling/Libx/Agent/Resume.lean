import Libx.Agent.Persist

/-!
# Libx.Agent.Resume — a resumed session has the history of the destroyed one

A reader of the store goes back to the last Summary entry.  What the next session is primed with is
the history that the destroyed one had, as long as every summary stands at the head of the history
and the entries that are in the store are not rewritten.
-/

namespace Libx.Agent

open Libx.Core State

/-- **Resume restores the conversation**: a session that is created next has the history, entry by
entry, that the session before it was destroyed with. -/
def Resumes (s : State) : Prop :=
  ∀ n env u, step s ⟨.create n, env⟩ = some u → entries u.sess.history = entries s.sess.history

/-! ### The condition -/

/-- The gate trims an entry that is in the store. -/
def trimsStored (cs : List Content) (env : InputEnv) (s : State) : Bool :=
  !s.busy && decide (overBudget s.conf cs s.sess) &&
    (s.sess.history.take s.sess.persistedPrefix).any (fun e => e.entry.trimmable && env.trimOk e.uid)

/-- The host's message is noted as a Summary behind other entries. -/
def marksHistory (msg : Message) (env : InputEnv) (s : State) : Bool :=
  s.accepts msg env && decide (msg.role = .summary) && !s.sess.history.isEmpty

/-- **The condition**: a compact that splices in a summary starts at the head of the history and
leaves no more than the summary persisted, and an input neither trims a stored entry nor notes a
Summary behind other entries. -/
def restores (s : State) (l : Label) : Bool :=
  (!splices s l || decide (s.sess.compactStart = 0) &&
    decide (s.sess.persistedPrefix ≤ s.sess.compactEnd + 1)) &&
  match incoming s l with
  | none => true
  | some (msg, s₀) => !trimsStored msg.contents l.env s₀ && !marksHistory msg l.env s₀

/-! ### The invariant -/

theorem not_summary_of_ofRun {x : Slot} (h : x.entry.ofRun = true) : x.isSummary = false := by
  unfold Slot.isSummary
  rw [decide_eq_false_iff_not]
  intro hr
  rw [Entry.ofRun, hr] at h
  exact absurd h (by decide)

theorem trimSlot_isSummary (ok : ℕ → Bool) (x : Slot) : (trimSlot ok x).isSummary = x.isSummary := by
  unfold trimSlot Slot.isSummary
  split_ifs
  · rw [Entry.trim_role]
  · rfl

/-- A session that can be resumed, or is about to be. -/
structure Resumable (s : State) : Prop where
  life : Life s
  memory : s.conf.hasMemory = true
  restores : s.alive = true →
    Restores Slot.isSummary s.store s.sess.history s.sess.persistedPrefix
  range : s.alive = true → s.sess.compacting = true →
    s.sess.compactStart < s.sess.compactEnd ∧ s.sess.compactEnd ≤ s.sess.history.length
  atRest : s.alive = false → retrieve s.store = s.sess.history

theorem Resumable.resumes {s : State} (h : Resumable s) : Resumes s := by
  intro n env u hs
  have ha : s.alive = false := by
    by_contra hal
    have hal : s.alive = true := by simpa using hal
    rw [step, hal] at hs
    exact absurd hs (by simp)
  have hu : u = createSession n s := by
    rw [step, ha] at hs
    simpa using hs.symm
  have hh : u.sess.history = retrieve s.store := by
    rw [hu]
    simp [createSession, h.memory]
  rw [hh, h.atRest ha]

/-! ### Steps -/

namespace Resumable

variable {s t : State}

theorem of_ledger (h : Resumable s) (hl : t.ledger = s.ledger) (hlife : Life t) : Resumable t := by
  have hs : t.sess = s.sess := congrArg Ledger.sess hl
  have hst : t.store = s.store := congrArg Ledger.store hl
  have ha : t.alive = s.alive := congrArg Ledger.alive hl
  have hc : t.conf = s.conf := congrArg Ledger.conf hl
  refine ⟨hlife, by rw [hc]; exact h.memory, ?_, ?_, ?_⟩
  · rw [ha, hst, hs]; exact h.restores
  · rw [ha, hs]; exact h.range
  · rw [ha, hst, hs]; exact h.atRest

theorem of_restores (h : Resumable s) {x : Session} (hlife : Life t) (halive : s.alive = true)
    (hs : t.sess = x) (hst : t.store = s.store) (ha : t.alive = s.alive) (hc : t.conf = s.conf)
    (hr : Restores Slot.isSummary s.store x.history x.persistedPrefix)
    (hrange : x.compacting = true →
      x.compactStart < x.compactEnd ∧ x.compactEnd ≤ x.history.length) : Resumable t := by
  refine ⟨hlife, by rw [hc]; exact h.memory, ?_, ?_, ?_⟩
  · intro _
    rw [hst, hs]
    exact hr
  · intro _
    rw [hs]
    exact hrange
  · intro hd
    rw [ha, halive] at hd
    exact absurd hd (by simp)

/-- **A summary is put at the head of the history**, and is all that is persisted of it. -/
theorem splice (h : Resumable s) {z : Slot} (hlife : Life t) (halive : s.alive = true)
    (hcomp : s.sess.compacting = true) (hz : z.entry.role = .summary)
    (hl : t.ledger = { s.ledger with
      sess := (spliceSummary s.sess z).settled
      store := s.store ++ compactBatch s.sess ++ [z]
      nextUid := s.nextUid + 1 })
    (h1 : s.sess.compactStart = 0) (h2 : s.sess.persistedPrefix ≤ s.sess.compactEnd + 1) :
    Resumable t := by
  obtain ⟨hlt, hle⟩ := h.range halive hcomp
  have hst : t.store = s.store ++ compactBatch s.sess ++ [z] := congrArg Ledger.store hl
  have hh : t.sess.history = z :: s.sess.history.drop s.sess.compactEnd := by
    have hsp := spliceSummary_history z hlt hle
    rw [Flushed.splice, h1, List.take_zero, List.nil_append] at hsp
    exact (congrArg (fun l => l.sess.history) hl).trans hsp
  have hp : t.sess.persistedPrefix = 1 := by
    refine (congrArg (fun l => l.sess.persistedPrefix) hl).trans ?_
    show compactPrefix s.sess = 1
    unfold compactPrefix
    rw [h1]
    dsimp only
    split_ifs <;> omega
  have hc : t.sess.compacting = false := congrArg (fun l => l.sess.compacting) hl
  have ha : t.alive = true := (congrArg Ledger.alive hl).trans halive
  have hconf : t.conf = s.conf := congrArg Ledger.conf hl
  refine ⟨hlife, by rw [hconf]; exact h.memory, ?_, ?_, ?_⟩
  · intro _
    rw [hst, hh, hp]
    have hmark : z.isSummary = true := by simpa [Slot.isSummary] using hz
    exact (h.restores halive).restart _ hmark (by omega)
  · intro _ hct
    rw [hc] at hct
    exact absurd hct (by simp)
  · intro hd
    rw [ha] at hd
    exact absurd hd (by simp)

theorem endRun (h : Resumable s) (reason : DoneReason) (env : InputEnv)
    (hlife : Life (s.endRun reason env)) (hrun : s.q.running = true)
    (hok : s.nextUid < (s.endRun reason env).nextUid → s.sess.compacting = true →
      s.sess.compactStart = 0 ∧ s.sess.persistedPrefix ≤ s.sess.compactEnd + 1) :
    Resumable (s.endRun reason env) := by
  have halive : s.alive = true := by
    by_contra hd
    rw [h.life.dead (by simpa using hd)] at hrun
    exact absurd hrun (by simp)
  rcases endRun_ledger reason env s with ⟨hc, z, -, hz, hl⟩ | ⟨-, hl⟩ | ⟨hc, hl⟩
  · rw [if_pos h.memory] at hl
    have hu : (s.endRun reason env).nextUid = s.nextUid + 1 := congrArg Ledger.nextUid hl
    obtain ⟨h1, h2⟩ := hok (by omega) hc
    exact h.splice hlife halive hc hz hl h1 h2
  · exact h.of_restores hlife halive (congrArg Ledger.sess hl) (congrArg Ledger.store hl)
      (congrArg Ledger.alive hl) (congrArg Ledger.conf hl) (h.restores halive)
      (fun hf => absurd hf (by simp [Session.settled]))
  · -- what a run produced holds no Summary
    have hnew : ∀ x ∈ slotsFrom s.nextUid s.q.produced, x.isSummary = false := fun x hx =>
      not_summary_of_ofRun (h.life.ofRun _ (slotsFrom_entry hx))
    refine h.of_restores hlife halive (congrArg Ledger.sess hl) (congrArg Ledger.store hl)
      (congrArg Ledger.alive hl) (congrArg Ledger.conf hl) ?_ (fun hf => ?_)
    · exact (h.restores halive).append (fun x hx => hnew x (List.mem_of_mem_tail hx))
        (fun _ x hx => hnew x hx)
    · have hf : s.sess.compacting = true := hf
      rw [hc] at hf
      exact absurd hf (by simp)

/-- **The finalizing append** of a destroy completes the store. -/
theorem finish (h : Resumable s) (hlife : Life s.sessionFinish) (halive : s.alive = true) :
    Resumable s.sessionFinish := by
  have hr := h.restores halive
  have hst : s.sessionFinish.store = s.store ++ s.sess.history.drop s.sess.persistedPrefix := by
    unfold sessionFinish memoryAppend
    rw [if_pos h.memory, Nat.min_eq_left hr.bound]
  refine ⟨hlife, h.memory, fun ha => absurd ha (by simp [sessionFinish]),
    fun ha => absurd ha (by simp [sessionFinish]), fun _ => ?_⟩
  rw [hst]
  exact hr.flush

theorem create (h : Resumable s) (n : ℕ) (hlife : Life (createSession n s)) :
    Resumable (createSession n s) := by
  refine ⟨hlife, h.memory, fun _ => ?_, fun _ hc => absurd hc (by simp [createSession]),
    fun hd => absurd hd (by simp [createSession])⟩
  simp only [createSession, h.memory, if_true]
  exact Restores.of_log _ _

theorem gated (h : Resumable s) {cs : List Content} {env : InputEnv} {x : Session}
    (halive : s.alive = true) (hg : Gated s cs env x) (hb : s.busy = false)
    (hok : trimsStored cs env s = false) :
    Restores Slot.isSummary s.store x.history x.persistedPrefix := by
  have hr := h.restores halive
  obtain ⟨z, hz, hcore⟩ := hg
  rw [hcore.history, hcore.persistedPrefix]
  rcases hz with rfl | ⟨hover, rfl⟩
  · exact hr
  · unfold sessionTrim
    split_ifs
    · refine hr.map (trimSlot_isSummary _) ?_
      intro e he
      have hno : (e.entry.trimmable && env.trimOk e.uid) = false := by
        by_contra hne
        have hany : (s.sess.history.take s.sess.persistedPrefix).any
            (fun e => e.entry.trimmable && env.trimOk e.uid) = true :=
          List.any_eq_true.mpr ⟨e, he, by simpa using hne⟩
        rw [trimsStored, hb, decide_eq_true hover, hany] at hok
        exact absurd hok (by simp)
      rw [trimSlot, hno, if_neg (by simp)]
    · exact hr

theorem received (h : Resumable s) {msg : Message} {env : InputEnv} (halive : s.alive = true)
    (htrim : trimsStored msg.contents env s = false) (hmark : marksHistory msg env s = false)
    (hr : Received msg env s t) : Resumable t := by
  have hlife := h.life.received halive hr
  cases hr with
  | kept x hg hbusy hl _ =>
    have hs : t.sess = x := congrArg Ledger.sess hl
    by_cases hb : s.busy = true
    · rw [hbusy hb] at hl
      exact h.of_ledger hl hlife
    · have hb : s.busy = false := by simpa using hb
      refine h.of_restores hlife halive hs (congrArg Ledger.store hl) (congrArg Ledger.alive hl)
        (congrArg Ledger.conf hl) (h.gated halive hg hb htrim) (fun hc => ?_)
      rw [hg.compacting, (Bool.or_eq_false_iff.mp hb).2] at hc
      exact absurd hc (by simp)
  | launched x _ hg hb _ h1 h2 hl _ =>
    have hx := h.gated halive hg hb htrim
    exact h.of_restores hlife halive (congrArg Ledger.sess hl) (congrArg Ledger.store hl)
      (congrArg Ledger.alive hl) (congrArg Ledger.conf hl) hx (fun _ => ⟨h1, h2⟩)
  | withdrawn x o hg _ _ hl hb _ =>
    have hx := h.gated halive hg hb htrim
    refine h.of_restores hlife halive (congrArg Ledger.sess hl) (congrArg Ledger.store hl)
      (congrArg Ledger.alive hl) (congrArg Ledger.conf hl) hx (fun hc => ?_)
    rw [hg.compacting, (Bool.or_eq_false_iff.mp hb).2] at hc
    exact absurd hc (by simp)
  | accepted x o hg hb _ hacc hl _ =>
    refine h.of_restores hlife halive (congrArg Ledger.sess hl) (congrArg Ledger.store hl)
      (congrArg Ledger.alive hl) (congrArg Ledger.conf hl) ?_ (fun hc => ?_)
    · refine (h.gated halive hg hb htrim).append (fun e he => absurd he (by simp)) ?_
      intro hne e he
      rw [List.mem_singleton] at he
      have hempty : s.sess.history.isEmpty = false := by
        rw [List.isEmpty_eq_false_iff]
        intro hnil
        rcases hg.history with hh | hh
        · exact hne (hh.trans hnil)
        · rw [hh, hnil] at hne
          exact hne rfl
      have hrole : msg.role ≠ .summary := by
        intro hrole
        rw [marksHistory, hacc, hempty, decide_eq_true hrole] at hmark
        exact absurd hmark (by simp)
      rw [he]
      simp [Slot.isSummary, userSlot, Entry.role, hrole]
    · have hc : x.compacting = true := hc
      rw [hg.compacting, (Bool.or_eq_false_iff.mp hb).2] at hc
      exact absurd hc (by simp)

/-- **One step** under the condition keeps the invariant. -/
theorem step {l : Label} (h : Resumable s) (hok : Libx.Agent.restores s l = true)
    (hs : Libx.Agent.step s l = some t) : Resumable t := by
  have hlife := h.life.step hs
  have hstep := hs
  rw [Libx.Agent.restores, Bool.and_eq_true] at hok
  obtain ⟨hsplice, hin⟩ := hok
  cases effect_of_step hs with
  | settles hset =>
    cases hset with
    | quiet hq => exact h.of_ledger hq.ledger hlife
    | ended reason hq hrun =>
      refine (h.of_ledger hq.ledger (h.life.quiet hq)).endRun reason l.env hlife hrun ?_
      intro hlt hc
      rw [hq.nextUid] at hlt
      rw [hq.sess] at hc ⊢
      have hsp : splices s l = true := by
        simp [splices, hc, hstep, hlt]
      simpa [hsp] using hsplice
    | finished hq ha _ =>
      exact (h.of_ledger hq.ledger (h.life.quiet hq)).finish hlife (hq.alive.trans ha)
  | received msg ha hi hr =>
    obtain ⟨hl, -⟩ := incoming_same hi
    obtain ⟨hlife0, ha0⟩ := h.life.incoming hi
    rw [hi] at hin
    simp only [Bool.and_eq_true, Bool.not_eq_true'] at hin
    refine Resumable.received ?_ (ha0.trans ha) hin.1 hin.2 hr
    exact h.of_restores hlife0 ha (congrArg Ledger.sess hl) (congrArg Ledger.store hl) ha0
      (congrArg Ledger.conf hl) (h.restores ha) (h.range ha)
  | window n =>
    exact ⟨hlife, h.memory, h.restores, h.range, h.atRest⟩
  | create n _ hd => exact h.create n hlife

end Resumable

/-! ### Runs -/

theorem resumable_init {conf : Conf} (hm : conf.hasMemory = true) (contextWindow : ℕ)
    (store : List Slot) (nextUid : ℕ) : Resumable (init conf contextWindow store nextUid) := by
  have hlife := Life.init conf contextWindow store nextUid
  refine ⟨hlife, hm, fun _ => ?_, fun _ hc => absurd hc (by simp [init, createSession]),
    fun hd => absurd hd (by simp [init, createSession])⟩
  simp only [init, createSession, hm, if_true]
  exact Restores.of_log _ _

/-- **A resumed session has the history of the destroyed one**, in runs under the condition. -/
theorem resumes_of_run {conf : Conf} {contextWindow nextUid : ℕ} {store : List Slot} {s : State}
    (hm : conf.hasMemory = true)
    (h : Run step (fun s l => restores s l = true) (init conf contextWindow store nextUid) s) :
    Resumes s := by
  have hres : Resumable s :=
    h.preserves (fun _ _ _ hi hok hs => hi.step hok hs) (resumable_init hm _ _ _)
  exact hres.resumes

/-- A session that is compacted whole, retried and destroyed meets the condition: the next one starts
with the summary and the second question. -/
theorem resumes_of_run_compact :
    ∃ s, Run step (fun s l => restores s l = true) (init (storeConf 0) 20 (slotsFrom 0 []) 0) s ∧
      s.alive = false ∧ entries s.sess.history =
        [.text .summary (bytes "[summary] s"), .text .user (bytes "hi")] ∧ Resumes s := by
  obtain ⟨s, hs, hn⟩ := exists_run_of_replay step (fun s l => restores s l = true) restores
    (fun s => !s.alive && entries s.sess.history =
      [.text .summary (bytes "[summary] s"), .text .user (bytes "hi")]) (fun _ _ h => h)
    (show replay step restores _ (init (storeConf 0) 20 (slotsFrom 0 []) 0) compactAll = true by rfl)
  simp only [Bool.and_eq_true, Bool.not_eq_true', decide_eq_true_eq] at hn
  exact ⟨s, hs, hn.1, hn.2, resumes_of_run rfl hs⟩

/-- The next session starts with another history. -/
def State.forgets (s : State) : Bool :=
  match step s ⟨.create 20, {}⟩ with
  | none => false
  | some u => entries u.sess.history ≠ entries s.sess.history

theorem not_resumes_of_forgets {s : State} (h : s.forgets = true) : ¬ Resumes s := by
  intro hr
  unfold State.forgets at h
  cases hu : step s ⟨.create 20, {}⟩ with
  | none =>
    rw [hu] at h
    exact absurd h (by simp)
  | some u =>
    rw [hu] at h
    exact absurd (hr 20 {} u hu) (by simpa using h)

def headConf : Conf := { policy := .summarize, headTurns := 1, hasMemory := true }

def compactBehindHead : List Label := compactResumed ++ [⟨.ret, {}⟩, ⟨.destroy, {}⟩]

/-- **A session forgets the head it preserved**: the summary is written behind the preserved turn,
and a reader goes back no further than the summary. -/
theorem not_resumes :
    ∃ s, Run step (fun _ _ => True) (init headConf 20 (slotsFrom 0 twoTurns) 4) s ∧ ¬ Resumes s := by
  obtain ⟨s, hs, hn⟩ := exists_run_of_replay step (fun _ _ => True) (fun _ _ => true) State.forgets
    (fun _ _ _ => trivial)
    (show replay step _ _ (init headConf 20 (slotsFrom 0 twoTurns) 4) compactBehindHead = true by rfl)
  exact ⟨s, hs, not_resumes_of_forgets hn⟩

end Libx.Agent
