import Libx.Agent.Effect
import Libx.Core.Watermark

/-!
# Libx.Agent.Tokens — the incremental token bookkeeping

`known_prompt_tokens` is the size of a prompt the provider reported; `delta_entries` counts the
entries the history got since.  The count is right as long as no input is taken back behind a known
prompt.
-/

namespace Libx.Agent

open Libx.Core State List

/-- The entries that the prompt behind `known_prompt_tokens` did not contain. -/
def State.unmeasured (s : State) : List Slot :=
  s.sess.history.filter (fun x => s.promptSeq ≤ x.uid)

/-- **The bookkeeping is exact**: with a known prompt, the last `delta_entries` entries are those
appended since, and the estimate charges the prompt less the overhead and exactly those. -/
structure TokensExact (s : State) : Prop where
  bound : 0 ≤ s.sess.knownPromptTokens → s.sess.deltaEntries ≤ s.sess.history.length
  suffix : 0 ≤ s.sess.knownPromptTokens →
    s.sess.history.drop (s.sess.history.length - s.sess.deltaEntries) = s.unmeasured
  estimate : 0 ≤ s.sess.knownPromptTokens →
    sessionEstimateCurrent s.sess = knownBase s.sess + estimateTokens (entries s.unmeasured)

/-! ### The condition -/

/-- The message is taken back behind a known prompt. -/
def withdrawsMeasured (msg : Message) (env : InputEnv) (s : State) : Bool :=
  match s.passed msg.contents env with
  | none => false
  | some x => decide (0 ≤ x.knownPromptTokens) && s.withdraws msg env

/-- **The condition**: a run records the size of its own first prompt, and no message is appended and
taken back behind a known prompt. -/
def counted (s : State) (l : Label) : Bool :=
  usageOwn s l &&
  match incoming s l with
  | none => true
  | some (msg, s₀) => !withdrawsMeasured msg l.env s₀

/-! ### The invariant -/

/-- The prompt and the entries since. -/
structure Tally (l : Ledger) : Prop where
  mark : 0 ≤ l.sess.knownPromptTokens → l.promptSeq ≤ l.nextUid
  water : 0 ≤ l.sess.knownPromptTokens →
    Watermark Slot.uid l.promptSeq l.sess.history l.sess.deltaEntries

/-- The bookkeeping, and what a later run will base it on. -/
structure Measured (s : State) : Prop where
  life : Life s
  above : Above s
  stored : ∀ y ∈ s.store, y.uid < s.nextUid
  tally : Tally s.ledger

theorem Measured.tokensExact {s : State} (h : Measured s) : TokensExact s := by
  refine ⟨fun hk => (h.tally.water hk).bound, fun hk => (h.tally.water hk).drop_eq_filter, ?_⟩
  intro hk
  have hw : Watermark Slot.uid s.promptSeq s.sess.history s.sess.deltaEntries := h.tally.water hk
  have hdrop := hw.drop_eq_filter
  have hslice : deltaSlice s.sess = entries s.unmeasured := by
    unfold deltaSlice State.unmeasured entries
    rw [← hdrop, map_drop]
    refine take_of_length_le ?_
    rw [length_drop, length_map]
    omega
  unfold sessionEstimateCurrent
  by_cases hd : s.sess.deltaEntries = 0
  · rw [if_neg (by omega), if_pos ⟨hk, hd⟩, ← hslice, deltaSlice, hd, take_zero,
      estimateTokens_nil, Nat.add_zero]
  · rw [if_pos ⟨hk, by omega⟩, hslice]

/-! ### Steps -/

namespace Tally

variable {s t : State} {cs : List Content} {env : InputEnv} {x : Session}

theorem unknown {l : Ledger} (h : l.sess.knownPromptTokens = -1) : Tally l :=
  ⟨fun hk => absurd hk (by omega), fun hk => absurd hk (by omega)⟩

theorem gated (h : Tally s.ledger) (hg : Gated s cs env x) : Tally { s.ledger with sess := x } := by
  obtain ⟨z, hz, hcore⟩ := hg
  have hk := hcore.knownPromptTokens
  have hd := hcore.deltaEntries
  have hh := hcore.history
  rcases hz with rfl | ⟨-, rfl⟩
  · refine ⟨fun h0 => h.mark (hk ▸ h0), fun h0 => ?_⟩
    show Watermark Slot.uid s.promptSeq x.history x.deltaEntries
    rw [hh, hd]
    exact h.water (hk ▸ h0)
  · unfold sessionTrim at hk hd hh
    split_ifs at hk hd hh with ht
    · exact unknown hk
    · refine ⟨fun h0 => h.mark (hk ▸ h0), fun h0 => ?_⟩
      show Watermark Slot.uid s.promptSeq x.history x.deltaEntries
      rw [hh, hd]
      exact h.water (hk ▸ h0)

theorem add {l : Ledger} (es : List Entry) {y : Session} {seq : ℕ}
    (hh : y.history = l.sess.history ++ slotsFrom l.nextUid es)
    (hk : 0 ≤ y.knownPromptTokens → seq ≤ l.nextUid ∧
      Watermark Slot.uid seq l.sess.history (y.deltaEntries - es.length) ∧
      es.length ≤ y.deltaEntries) :
    Tally { l with sess := y, nextUid := l.nextUid + es.length, promptSeq := seq } := by
  refine ⟨fun h0 => ?_, fun h0 => ?_⟩
  · have := (hk h0).1
    show seq ≤ l.nextUid + es.length
    omega
  · obtain ⟨hseq, hw, hle⟩ := hk h0
    have hes : ∀ x ∈ slotsFrom l.nextUid es, seq ≤ x.uid := by
      intro x hx
      have := (slotsFrom_uid hx).1
      omega
    have hnew := hw.append hes
    show Watermark Slot.uid seq y.history y.deltaEntries
    rw [hh]
    rw [slotsFrom_length, show y.deltaEntries - es.length + es.length = y.deltaEntries by omega] at hnew
    exact hnew

end Tally

theorem endRun_flights (reason : DoneReason) (env : InputEnv) (s : State) :
    (s.endRun reason env).flights = s.flights ∧ (s.endRun reason env).run = s.run := by
  unfold State.endRun State.sessFwdOnDone
  split
  · unfold State.compactFinished
    split
    · exact ⟨rfl, rfl⟩
    · exact ⟨rfl, rfl⟩
  · exact ⟨rfl, rfl⟩

theorem above_idle {s : State} (hq : s.q.running = false)
    (hfresh : ∀ x ∈ s.sess.history, x.uid < s.nextUid) (hruns : ∀ f ∈ s.flights, f.run ≤ s.run) :
    Above s :=
  ⟨hfresh, hruns, fun hr => absurd hr (by simp [hq]), fun hr => absurd hr (by simp [hq])⟩

namespace Measured

variable {s t : State}

theorem quiet {own : Prop} (h : Measured s) (hown : own) (hq : Quiet own s t) : Measured t := by
  refine ⟨h.life.quiet hq, hq.above hown h.above, ?_, ?_⟩
  · rw [hq.store, hq.nextUid]
    exact h.stored
  · rw [hq.ledger]
    exact h.tally

theorem endRun (h : Measured s) (reason : DoneReason) (env : InputEnv)
    (hlife : Life (s.endRun reason env)) (hrun : s.q.running = true) :
    Measured (s.endRun reason env) := by
  have hidle : (s.endRun reason env).q.running = false := by
    rcases endRun_query reason env s with he | he
    · rw [he]
    · rw [he]
  obtain ⟨hflights, hruns⟩ := endRun_flights reason env s
  have habove : (∀ x ∈ (s.endRun reason env).sess.history, x.uid < (s.endRun reason env).nextUid) →
      Above (s.endRun reason env) := by
    intro hfresh
    refine above_idle hidle hfresh ?_
    rw [hflights, hruns]
    exact h.above.runs
  rcases endRun_ledger reason env s with ⟨-, z, hz, -, hl⟩ | ⟨-, hl⟩ | ⟨hc, hl⟩
  · have hu : (s.endRun reason env).nextUid = s.nextUid + 1 := congrArg Ledger.nextUid hl
    have hh : (s.endRun reason env).sess.history = (spliceSummary s.sess z).history :=
      congrArg (fun l => l.sess.history) hl
    have hst : (s.endRun reason env).store =
        if s.conf.hasMemory then s.store ++ compactBatch s.sess ++ [z] else s.store :=
      congrArg Ledger.store hl
    refine ⟨hlife, habove ?_, ?_, ?_⟩
    · intro y hy
      rw [hh] at hy
      rcases mem_spliceSummary hy with h1 | h1
      · rw [h1]
        omega
      · have := h.above.fresh y h1
        omega
    · intro y hy
      rw [hst] at hy
      split_ifs at hy
      · rcases mem_append.mp hy with h1 | h1
        · rcases mem_append.mp h1 with h2 | h2
          · have := h.stored y h2
            omega
          · have := h.above.fresh y (mem_of_mem_compactBatch h2)
            omega
        · rw [mem_singleton] at h1
          rw [h1]
          omega
      · have := h.stored y hy
        omega
    · rw [hl]
      exact .unknown rfl
  · have hu : (s.endRun reason env).nextUid = s.nextUid := congrArg Ledger.nextUid hl
    have hh : (s.endRun reason env).sess.history = s.sess.history :=
      congrArg (fun l => l.sess.history) hl
    have hst : (s.endRun reason env).store = s.store := congrArg Ledger.store hl
    refine ⟨hlife, habove (by rw [hh, hu]; exact h.above.fresh), ?_, ?_⟩
    · rw [hst, hu]
      exact h.stored
    · rw [hl]
      exact ⟨h.tally.mark, h.tally.water⟩
  · have hu : (s.endRun reason env).nextUid = s.nextUid + s.q.produced.length :=
      congrArg Ledger.nextUid hl
    have hh : (s.endRun reason env).sess.history = s.sess.history ++ slotsFrom s.nextUid s.q.produced :=
      congrArg (fun l => l.sess.history) hl
    have hst : (s.endRun reason env).store = s.store := congrArg Ledger.store hl
    refine ⟨hlife, habove ?_, ?_, ?_⟩
    · intro y hy
      rw [hh] at hy
      rcases mem_append.mp hy with h1 | h1
      · have := h.above.fresh y h1
        omega
      · have := (slotsFrom_uid h1).2
        omega
    · intro y hy
      rw [hst] at hy
      have := h.stored y hy
      omega
    · rw [hl]
      refine Tally.add (l := s.ledger) s.q.produced rfl (fun hk => ?_)
      by_cases hm : s.q.measured = true
      · -- the run measured its first prompt, which had the whole history
        have hpos : 0 < s.q.firstRoundPromptTokens := by
          simp only [Query.measured, Bool.and_eq_true, decide_eq_true_eq] at hm
          exact hm.2
        obtain ⟨hseq, hbelow⟩ := h.above.first hrun hc hpos
        have hseq' : (recordUsage s).promptSeq = s.q.firstSeq := if_pos hm
        have hdelta : (recordUsage s).sess.deltaEntries = 0 := if_pos hm
        rw [hseq']
        refine ⟨hseq, ?_, by simp only [hdelta]; omega⟩
        simp only [hdelta, Nat.zero_add, Nat.sub_self]
        exact .raise hbelow
      · have hk : 0 ≤ s.sess.knownPromptTokens := by
          have he : (recordUsage s).sess.knownPromptTokens = s.sess.knownPromptTokens := if_neg hm
          rw [← he]
          exact hk
        have hseq' : (recordUsage s).promptSeq = s.promptSeq := if_neg hm
        have hdelta : (recordUsage s).sess.deltaEntries = s.sess.deltaEntries := if_neg hm
        rw [hseq']
        refine ⟨h.tally.mark hk, ?_, by simp only [hdelta]; omega⟩
        simp only [hdelta, Nat.add_sub_cancel]
        exact h.tally.water hk

theorem finish (h : Measured s) (hlife : Life s.sessionFinish) : Measured s.sessionFinish := by
  refine ⟨hlife, ⟨h.above.fresh, h.above.runs, h.above.seqs, h.above.first⟩, ?_,
    ⟨h.tally.mark, h.tally.water⟩⟩
  intro y hy
  unfold sessionFinish memoryAppend at hy
  split_ifs at hy
  · rcases mem_append.mp hy with h1 | h1
    · exact h.stored y h1
    · exact h.above.fresh y (mem_of_mem_drop h1)
  · exact h.stored y hy

theorem create (h : Measured s) (n : ℕ) (hlife : Life (createSession n s)) (hdead : s.alive = false) :
    Measured (createSession n s) := by
  refine ⟨hlife, above_idle (h.life.dead hdead) ?_ h.above.runs, h.stored, .unknown rfl⟩
  intro x hx
  simp only [createSession] at hx
  split_ifs at hx
  · exact h.stored x ((sinceLast_sublist _ _).subset hx)
  · exact absurd hx (by simp)

theorem above_notStarted {n : ℕ} (h : Above s) (hns : NotStarted s t)
    (hu : t.nextUid = s.nextUid + n) (hc : t.sess.compacting = s.sess.compacting)
    (hh : ∀ m, (∀ y ∈ s.sess.history, y.uid < m) → ∀ y ∈ t.sess.history, y.uid < m) : Above t := by
  obtain ⟨hf, hq⟩ := hns
  have hover : ∀ m, Over s m → Over t m := fun m hm => ⟨by have := hm.1; omega, hh m hm.2⟩
  have hfresh : ∀ y ∈ t.sess.history, y.uid < t.nextUid := by
    intro y hy
    have := hh _ h.fresh y hy
    omega
  rcases hq with ⟨hq, hr⟩ | ⟨hq, hr⟩
  · refine ⟨hfresh, by rw [hf, hr]; exact h.runs, ?_, ?_⟩
    · rw [hq, hc, hf, hr]
      exact fun hrun hcomp f hm he => hover _ (h.seqs hrun hcomp f hm he)
    · rw [hq, hc]
      exact fun hrun hcomp hpos => hover _ (h.first hrun hcomp hpos)
  · refine above_idle (by rw [hq]) hfresh ?_
    rw [hf]
    exact fun f hm => (h.runs f hm).trans hr

theorem received (h : Measured s) {msg : Message} {env : InputEnv} (halive : s.alive = true)
    (hok : withdrawsMeasured msg env s = false) (hr : Received msg env s t) : Measured t := by
  have hlife := h.life.received halive hr
  cases hr with
  | kept x hg _ hl hns =>
    have hu : t.nextUid = s.nextUid := congrArg Ledger.nextUid hl
    have hs : t.sess = x := congrArg Ledger.sess hl
    have hst : t.store = s.store := congrArg Ledger.store hl
    refine ⟨hlife, above_notStarted (n := 0) h.above hns hu (by rw [hs]; exact hg.compacting) ?_,
      by rw [hst, hu]; exact h.stored, by rw [hl]; exact h.tally.gated hg⟩
    rw [hs]
    exact fun m hm => hg.below hm
  | launched x _ hg _ _ _ _ hl hst =>
    have hu : t.nextUid = s.nextUid := congrArg Ledger.nextUid hl
    have hs : t.sess = { x with compacting := true } := congrArg Ledger.sess hl
    have hstore : t.store = s.store := congrArg Ledger.store hl
    have hg' := h.tally.gated hg
    refine ⟨hlife, ⟨?_, ?_, ?_, ?_⟩, by rw [hstore, hu]; exact h.stored,
      by rw [hl]; exact ⟨hg'.mark, hg'.water⟩⟩
    · rw [hs, hu]
      exact hg.below h.above.fresh
    · intro f hf
      rcases hst.flights f hf with h1 | ⟨h1, -⟩
      · have := h.above.runs f h1
        have := hst.run
        omega
      · omega
    all_goals
      rw [hs]
      exact fun _ hc => absurd hc (by simp)
  | withdrawn x o hg hp hw hl _ hns =>
    have hu : t.nextUid = s.nextUid + 1 := congrArg Ledger.nextUid hl
    have hs : t.sess = { x with deltaEntries := x.deltaEntries + 1, overheadTokens := o } :=
      congrArg Ledger.sess hl
    have hst : t.store = s.store := congrArg Ledger.store hl
    have hk : ¬ 0 ≤ x.knownPromptTokens := by
      intro hk
      rw [withdrawsMeasured, hp] at hok
      simp [hk, hw] at hok
    refine ⟨hlife, above_notStarted h.above hns hu (by rw [hs]; exact hg.compacting) ?_, ?_, ?_⟩
    · rw [hs]
      exact fun m hm => hg.below hm
    · intro y hy
      rw [hst] at hy
      have := h.stored y hy
      omega
    · rw [hl]
      exact ⟨fun h0 => absurd h0 hk, fun h0 => absurd h0 hk⟩
  | accepted x o hg hb _ _ hl hst =>
    have hu : t.nextUid = s.nextUid + 1 := congrArg Ledger.nextUid hl
    have hh : t.sess.history = x.history ++ [userSlot s msg] := congrArg (fun l => l.sess.history) hl
    have hstore : t.store = s.store := congrArg Ledger.store hl
    have hg' := h.tally.gated hg
    have hfresh : ∀ y ∈ t.sess.history, y.uid < t.nextUid := by
      intro y hy
      rw [hh] at hy
      rcases mem_append.mp hy with h1 | h1
      · have := hg.below h.above.fresh y h1
        omega
      · rw [mem_singleton] at h1
        rw [h1]
        show s.nextUid < t.nextUid
        omega
    refine ⟨hlife, ⟨hfresh, ?_, ?_, ?_⟩, ?_, ?_⟩
    · intro f hf
      rcases hst.flights f hf with h1 | ⟨h1, -⟩
      · have := h.above.runs f h1
        have := hst.run
        omega
      · omega
    · intro _ _ f hf he
      rcases hst.flights f hf with h1 | ⟨-, h1⟩
      · have := h.above.runs f h1
        have := hst.run
        omega
      · rw [h1]
        exact ⟨le_rfl, hfresh⟩
    · intro _ _ hpos
      rw [hst.first] at hpos
      omega
    · intro y hy
      rw [hstore] at hy
      have := h.stored y hy
      omega
    · rw [hl]
      refine Tally.add (l := { s.ledger with sess := x }) [.text msg.role (textOf msg.contents)] rfl
        (fun hk => ⟨hg'.mark hk, hg'.water hk, ?_⟩)
      show 1 ≤ x.deltaEntries + 1
      omega

/-- **One step** under the condition keeps the invariant. -/
theorem step {l : Label} (h : Measured s) (hok : counted s l = true)
    (hs : Libx.Agent.step s l = some t) : Measured t := by
  have hlife := h.life.step hs
  rw [counted, Bool.and_eq_true] at hok
  obtain ⟨hown, hin⟩ := hok
  cases effect_of_step hs with
  | settles hset =>
    cases hset with
    | quiet hq => exact h.quiet hown hq
    | ended reason hq hrun => exact (h.quiet hown hq).endRun reason l.env hlife hrun
    | finished hq _ _ => exact (h.quiet hown hq).finish hlife
  | @received _ s₀ msg ha hi hr =>
    obtain ⟨hl, hq, hf, hrun⟩ := incoming_same hi
    obtain ⟨hlife0, ha0⟩ := h.life.incoming hi
    rw [hi] at hin
    refine Measured.received ?_ (ha0.trans ha) (by simpa using hin) hr
    have hh : s₀.sess.history = s.sess.history := congrArg (fun l => l.sess.history) hl
    have hu : s₀.nextUid = s.nextUid := congrArg Ledger.nextUid hl
    have hst : s₀.store = s.store := congrArg Ledger.store hl
    refine ⟨hlife0, ?_, ?_, ?_⟩
    · refine above_notStarted (n := 0) h.above ⟨hf, .inl ⟨hq, hrun⟩⟩ hu
        (congrArg (fun l => l.sess.compacting) hl) ?_
      intro m hm
      rw [hh]
      exact hm
    · rw [hst, hu]
      exact h.stored
    · rw [hl]
      exact ⟨h.tally.mark, h.tally.water⟩
  | window n =>
    exact ⟨hlife, ⟨h.above.fresh, h.above.runs, h.above.seqs, h.above.first⟩, h.stored,
      ⟨h.tally.mark, h.tally.water⟩⟩
  | create n _ hd => exact h.create n hlife hd

end Measured

/-! ### Runs -/

theorem measured_init (conf : Conf) (contextWindow : ℕ) (log : List Entry) :
    Measured (init conf contextWindow (slotsFrom 0 log) log.length) := by
  have hbase : Measured { conf := conf, store := slotsFrom 0 log, nextUid := log.length, alive := false } :=
    ⟨⟨by simp, fun _ => rfl, fun _ he => absurd he (by simp)⟩, above_idle rfl (by simp) (by simp),
      fun y hy => by
        have := (slotsFrom_uid hy).2
        show y.uid < log.length
        omega, .unknown rfl⟩
  exact hbase.create contextWindow (Life.init _ _ _ _) rfl

/-- A run that answers and reports the size of its prompt. -/
def measuredRun : List Label :=
  [⟨.input hello, {}⟩, ⟨.ret, {}⟩, ⟨.text 0 (bytes "a"), {}⟩,
    ⟨.done 0 .endTurn .ok (some ⟨12, 1, 13⟩), {}⟩, ⟨.ret, {}⟩]

/-- The counted suffix is not what lies above the prompt. -/
def State.miscounts (s : State) : Bool :=
  decide (0 ≤ s.sess.knownPromptTokens) &&
    s.sess.history.drop (s.sess.history.length - s.sess.deltaEntries) ≠ s.unmeasured

theorem not_tokensExact_of_miscounts {s : State} (h : s.miscounts = true) : ¬ TokensExact s := by
  intro ht
  unfold State.miscounts at h
  simp only [Bool.and_eq_true, decide_eq_true_eq] at h
  exact h.2 (ht.suffix h.1)

/-- The provider refuses the submit of the second input. -/
def refusedSubmit : List Label := measuredRun ++ [⟨.input hello, { submitRc := .sysError }⟩]

end Libx.Agent
