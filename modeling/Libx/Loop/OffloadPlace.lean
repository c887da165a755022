import Libx.Loop.Offload

/-!
# Libx.Loop.OffloadPlace — where an item is

An item is its caller's, its worker's, a canceller's, the queue's or the loop's, or it is recycled.
-/

namespace Libx.Loop

def Call.taskSet (c : Call) : Bool := !c.isPost && (c.stage == .taskSet || c.stage == .accepted)

theorem Call.taskSet_iff {c : Call} :
    c.taskSet = true ↔ c.isPost = false ∧ (c.stage = .taskSet ∨ c.stage = .accepted) := by
  simp [Call.taskSet]

theorem Call.hasTask_iff {c : Call} :
    c.hasTask = true ↔ c.isPost = false ∧ (c.stage = .submitted ∨ c.stage = .taskSet ∨ c.stage = .accepted) := by
  simp [Call.hasTask, or_assoc]

/-- Nothing has been done with the item. -/
structure Call.Idle (c : Call) : Prop where
  doneRuns : c.doneRuns = []
  postRuns : c.postRuns = 0
  uncounted : c.uncounted = false

/-- What a call of Post is that has pushed its item. -/
structure Call.Posted (c : Call) : Prop where
  isPost : c.isPost = true
  stage : c.stage = .accepted
  worker : c.worker = .queued
  cancelled : c.cancelled = false
  workRuns : c.workRuns = []
  cancelOk : c.cancelOk = false
  doneRuns : c.doneRuns = []
  uncounted : c.uncounted = false

/-- Either the work has been done, or it has been cancelled. -/
def Call.Settled (c : Call) (result : Option ℕ) : Prop :=
  (c.cancelled = false ∧ c.cancelOk = false ∧ (c.worker = .pushed ∨ c.worker = .finished) ∧
      ∃ v, c.workRuns = [v] ∧ result = some v) ∨
    (c.cancelled = true ∧ c.cancelOk = true ∧ (c.worker = .queued ∨ c.worker = .finished) ∧ c.workRuns = [] ∧
      c.stage = .accepted)

/-- The callback of an offload, if it has one, has been called as it must. -/
def Call.Told (c : Call) : Prop :=
  c.postRuns = 0 ∧ c.doneRuns = if c.cancelled = true ∨ c.kind = .submit false then [] else c.workRuns.map some

inductive Place
  | caller
  | worker
  | canceller (i : ℕ)
  | queue
  | frame (stage : FrameStage)
  | gone
  deriving DecidableEq

/-- The item is the call's. -/
structure Owns (w : WorkItem) (k : ℕ) (c : Call) : Prop where
  call : w.call = k
  task : w.task = if c.taskSet then some k else none
  recycles : c.recycles = 0

/-- An item that waits for the loop. -/
inductive Ready (w : WorkItem) (c : Call) : Prop
  | post : c.Posted → c.postRuns = 0 → Ready w c
  | offload : c.hasTask = true → c.Idle → c.Settled w.result → Ready w c

/-- What holds of a call whose item is at a place. -/
inductive At (w : WorkItem) (k : ℕ) (c : Call) : Place → Prop
  | caller : Owns w k c → c.Idle → c.stage = .allocated → c.worker = .queued → c.cancelled = false →
      c.workRuns = [] → c.cancelOk = false → At w k c .caller
  | worker : Owns w k c → c.Idle → c.hasTask = true → c.cancelled = false → c.cancelOk = false →
      ((c.worker = .queued ∨ c.worker = .running) ∧ c.workRuns = [] ∨
        c.worker = .worked ∧ ∃ v, c.workRuns = [v] ∧ w.result = some v) → At w k c .worker
  | canceller (i : ℕ) : Owns w k c → c.Idle → c.isPost = false → c.stage = .accepted → c.cancelled = true →
      c.cancelOk = false → c.workRuns = [] → (c.worker = .queued ∨ c.worker = .finished) → At w k c (.canceller i)
  | queue : Owns w k c → Ready w c → At w k c .queue
  | popped : Owns w k c → Ready w c → At w k c (.frame .popped)
  | waiting : Owns w k c → c.taskSet = true → c.Idle → c.Settled w.result → At w k c (.frame (.waiting k))
  | done : Owns w k c → c.taskSet = true → c.Settled w.result → c.worker = .finished → c.Told →
      c.uncounted = false → At w k c (.frame (.called true))
  | posted : Owns w k c → c.Posted → c.postRuns = 1 → At w k c (.frame (.called false))
  | counted : Owns w k c → c.isPost = false → c.stage = .accepted → c.Settled w.result → c.worker = .finished →
      c.Told → c.uncounted = true → At w k c (.frame .counted)
  | failed : c.recycles = 1 → c.Idle → c.isPost = false → c.stage = .failed → c.workRuns = [] → c.cancelOk = false →
      At w k c .gone
  | postGone : c.recycles = 1 → c.Posted → c.postRuns = 1 → At w k c .gone
  | offloadGone (result : Option ℕ) : c.recycles = 1 → c.isPost = false → c.stage = .accepted → c.Settled result →
      c.worker = .finished → c.Told → c.uncounted = true → At w k c .gone

section At

variable {k : ℕ} {c : Call} {w : WorkItem} {p : Place}

theorem At.owns (h : At w k c p) (hp : p ≠ .gone) : Owns w k c := by
  cases h with
  | failed | postGone | offloadGone => exact absurd rfl hp
  | _ => assumption

theorem At.recycles (h : At w k c p) : c.recycles = if p = .gone then 1 else 0 := by
  by_cases hp : p = .gone
  · rw [if_pos hp]
    cases h <;> first | assumption | cases hp
  · rw [if_neg hp]
    exact (h.owns hp).recycles

theorem At.ne_gone (hat : At w k c p) (hr : c.recycles = 0) : p ≠ .gone := by
  rintro rfl
  have h1 := hat.recycles
  rw [if_pos rfl, hr] at h1
  cases h1

theorem At.gone (hat : At w k c .gone) (w' : WorkItem) : At w' k c .gone := by
  cases hat with
  | failed h1 h2 h3 h4 h5 h6 => exact .failed h1 h2 h3 h4 h5 h6
  | postGone h1 h2 h3 => exact .postGone h1 h2 h3
  | offloadGone r h1 h2 h3 h4 h5 h6 h7 => exact .offloadGone r h1 h2 h3 h4 h5 h6 h7

theorem Ready.stage (h : Ready w c) : c.stage ≠ .allocated ∧ c.stage ≠ .failed := by
  cases h with
  | post hp => simp [hp.stage]
  | offload ht => grind [Call.hasTask_iff]

theorem At.of_allocated (hat : At w k c p) (hstage : c.stage = .allocated) : p = .caller := by
  cases hat with
  | caller => rfl
  | queue _ hr | popped _ hr => exact absurd hstage hr.stage.1
  | _ => grind [Call.hasTask_iff, Call.taskSet_iff, Call.Posted]

theorem At.submitTask (hat : At w k c .caller) (hpost : c.isPost = false) :
    At w k { c with stage := .submitted } .worker ∧
      At w k { c with stage := .failed, recycles := c.recycles + 1 } .gone := by
  have hset' : Call.taskSet { c with stage := .submitted } = false := by simp [Call.taskSet]
  have htask : Call.hasTask { c with stage := .submitted } = true := Call.hasTask_iff.2 ⟨hpost, .inl rfl⟩
  cases hat with
  | caller ho hi hstage h1 h2 h3 h4 =>
    have hset : c.taskSet = false := by
      rw [Call.taskSet, hstage]
      simp
    have hi' : ∀ st r, Call.Idle { c with stage := st, recycles := r } := fun _ _ =>
      ⟨hi.doneRuns, hi.postRuns, hi.uncounted⟩
    refine ⟨.worker ⟨ho.call, ?_, ho.recycles⟩ (hi' ..) htask h2 h4 (.inl ⟨.inl h1, h3⟩),
      .failed ?_ (hi' ..) hpost rfl h3 h4⟩
    · rw [ho.task, hset, hset']
    · exact congrArg (· + 1) ho.recycles

theorem At.setTask (hat : At w k c p) (hstage : c.stage = .submitted) (hpost : c.isPost = false) :
    At { w with task := some k } k { c with stage := .taskSet } p ∧ p ≠ .gone := by
  have hset : Call.taskSet { c with stage := .taskSet } = true := Call.taskSet_iff.2 ⟨hpost, .inl rfl⟩
  have htask : Call.hasTask { c with stage := .taskSet } = true := Call.hasTask_iff.2 ⟨hpost, .inr (.inl rfl)⟩
  have howns : Owns w k c → Owns { w with task := some k } k { c with stage := .taskSet } := fun ho =>
    ⟨ho.call, by rw [hset]; rfl, ho.recycles⟩
  have hready : Ready w c → Ready { w with task := some k } { c with stage := .taskSet } := by
    rintro (⟨hp, -⟩ | ⟨-, hi, hs⟩)
    · rw [hp.isPost] at hpost
      cases hpost
    · refine .offload htask ⟨hi.doneRuns, hi.postRuns, hi.uncounted⟩ ?_
      obtain hs | ⟨-, -, -, -, hs⟩ := hs
      · exact .inl hs
      · rw [hs] at hstage
        cases hstage
  have hno : c.taskSet ≠ true := fun h => by
    obtain h | h := (Call.taskSet_iff.1 h).2 <;> rw [h] at hstage <;> cases hstage
  have hacc : c.stage ≠ .accepted := fun h => by
    rw [h] at hstage
    cases hstage
  cases hat with
  | caller _ _ h | failed _ _ _ h => rw [h] at hstage; cases hstage
  | worker ho hi _ h1 h2 h3 =>
    exact ⟨.worker (howns ho) ⟨hi.doneRuns, hi.postRuns, hi.uncounted⟩ htask h1 h2 h3, nofun⟩
  | canceller _ _ _ _ h | counted _ _ h | offloadGone _ _ _ h => exact absurd h hacc
  | queue ho hr => exact ⟨.queue (howns ho) (hready hr), nofun⟩
  | popped ho hr => exact ⟨.popped (howns ho) (hready hr), nofun⟩
  | waiting _ h | done _ h => exact absurd h hno
  | posted _ h | postGone _ h => exact absurd h.stage hacc

theorem At.accept (hat : At w k c p) (hstage : c.stage = .taskSet) (hpost : c.isPost = false) :
    At w k { c with stage := .accepted } p ∧ p ≠ .gone ∧ c.uncounted = false := by
  have hset : Call.taskSet { c with stage := .accepted } = true := Call.taskSet_iff.2 ⟨hpost, .inr rfl⟩
  have htask : Call.hasTask { c with stage := .accepted } = true := Call.hasTask_iff.2 ⟨hpost, .inr (.inr rfl)⟩
  have howns : Owns w k c → Owns w k { c with stage := .accepted } := fun ho => by
    refine ⟨ho.call, ?_, ho.recycles⟩
    rw [ho.task, hset, Call.taskSet_iff.2 ⟨hpost, .inl hstage⟩]
  have hidle : c.Idle → Call.Idle { c with stage := .accepted } := fun hi => ⟨hi.doneRuns, hi.postRuns, hi.uncounted⟩
  have hacc : c.stage ≠ .accepted := by rw [hstage]; nofun
  have hsettled : c.Settled w.result → Call.Settled { c with stage := .accepted } w.result := by
    rintro (hs | ⟨-, -, -, -, hs⟩)
    · exact .inl hs
    · exact absurd hs hacc
  have hready : Ready w c → Ready w { c with stage := .accepted } ∧ c.uncounted = false := by
    rintro (⟨hp, -⟩ | ⟨-, hi, hs⟩)
    · exact absurd hp.stage hacc
    · exact ⟨.offload htask (hidle hi) (hsettled hs), hi.uncounted⟩
  cases hat with
  | caller _ _ h | failed _ _ _ h => rw [h] at hstage; cases hstage
  | worker ho hi _ h1 h2 h3 => exact ⟨.worker (howns ho) (hidle hi) htask h1 h2 h3, nofun, hi.uncounted⟩
  | canceller _ _ _ _ h | counted _ _ h | offloadGone _ _ _ h => exact absurd h hacc
  | queue ho hr => exact ⟨.queue (howns ho) (hready hr).1, nofun, (hready hr).2⟩
  | popped ho hr => exact ⟨.popped (howns ho) (hready hr).1, nofun, (hready hr).2⟩
  | waiting ho _ hi hs => exact ⟨.waiting (howns ho) hset (hidle hi) (hsettled hs), nofun, hi.uncounted⟩
  | done ho _ hs hw ht hu => exact ⟨.done (howns ho) hset (hsettled hs) hw ht hu, nofun, hu⟩
  | posted _ h | postGone _ h => exact absurd h.stage hacc

theorem At.postPush (hat : At w k c .caller) (hpost : c.isPost = true) :
    At w k { c with stage := .accepted } .queue := by
  cases hat with
  | caller ho hi hstage h1 h2 h3 h4 =>
    refine .queue ⟨ho.call, ?_, ho.recycles⟩
      (.post ⟨hpost, rfl, h1, h2, h3, h4, hi.doneRuns, hi.uncounted⟩ hi.postRuns)
    rw [ho.task, Call.taskSet, Call.taskSet, show Call.isPost { c with stage := .accepted } = true from hpost, hpost]
    rfl

theorem At.start (hat : At w k c p) (htask : c.hasTask = true) (hworker : c.worker = .queued) :
    At w k { c with worker := if c.cancelled then .finished else .running } p ∧ p ≠ .gone := by
  have hpost := (Call.hasTask_iff.1 htask).1
  have hsettled : ∀ r, c.Settled r →
      Call.Settled { c with worker := if c.cancelled then .finished else .running } r := by
    rintro r (⟨-, -, hs | hs, -⟩ | ⟨hc, h1, -, h2, h3⟩)
    · rw [hworker] at hs; cases hs
    · rw [hworker] at hs; cases hs
    · exact .inr ⟨hc, h1, by rw [if_pos hc]; exact .inr rfl, h2, h3⟩
  have hready : Ready w c → Ready w { c with worker := if c.cancelled then .finished else .running } := by
    rintro (⟨hp, -⟩ | ⟨-, hi, hs⟩)
    · rw [hp.isPost] at hpost
      cases hpost
    · exact .offload htask ⟨hi.doneRuns, hi.postRuns, hi.uncounted⟩ (hsettled _ hs)
  have hfin : c.worker ≠ .finished := by rw [hworker]; nofun
  cases hat with
  | caller _ _ h | failed _ _ _ h => grind [Call.hasTask_iff]
  | worker ho hi _ h1 h2 h3 =>
    obtain ⟨-, h3⟩ | ⟨h3, -⟩ := h3
    · exact ⟨.worker ⟨ho.call, ho.task, ho.recycles⟩ ⟨hi.doneRuns, hi.postRuns, hi.uncounted⟩ htask h1 h2
        (.inl ⟨.inr (by rw [h1]; rfl), h3⟩), nofun⟩
    · rw [hworker] at h3
      cases h3
  | canceller i ho hi _ h1 h2 h3 h4 =>
    exact ⟨.canceller i ⟨ho.call, ho.task, ho.recycles⟩ ⟨hi.doneRuns, hi.postRuns, hi.uncounted⟩ hpost h1 h2 h3 h4
      (.inr (by rw [h2]; rfl)), nofun⟩
  | queue ho hr => exact ⟨.queue ⟨ho.call, ho.task, ho.recycles⟩ (hready hr), nofun⟩
  | popped ho hr => exact ⟨.popped ⟨ho.call, ho.task, ho.recycles⟩ (hready hr), nofun⟩
  | waiting ho h1 hi hs =>
    exact ⟨.waiting ⟨ho.call, ho.task, ho.recycles⟩ h1 ⟨hi.doneRuns, hi.postRuns, hi.uncounted⟩ (hsettled _ hs), nofun⟩
  | done _ _ _ h | counted _ _ _ _ h | offloadGone _ _ _ _ _ h => exact absurd h hfin
  | posted _ h | postGone _ h => rw [h.isPost] at hpost; cases hpost

theorem At.of_busy (hat : At w k c p) (htask : c.hasTask = true)
    (hworker : c.worker = .running ∨ c.worker = .worked) : p = .worker := by
  have hsettled : ∀ r, ¬c.Settled r := by
    rintro r (⟨-, -, hs, -⟩ | ⟨-, -, hs, -⟩)
    all_goals obtain h1 | h1 := hworker <;> rw [h1] at hs <;> simp at hs
  have hready : ¬Ready w c := by
    rintro (⟨hp, -⟩ | ⟨-, -, hs⟩)
    · obtain h1 | h1 := hworker <;> rw [hp.worker] at h1 <;> cases h1
    · exact hsettled _ hs
  cases hat with
  | worker => rfl
  | queue _ hr | popped _ hr => exact absurd hr hready
  | waiting _ _ _ hs => exact absurd hs (hsettled _)
  | _ => grind [Call.hasTask_iff, Call.Posted]

theorem At.work (hat : At w k c .worker) (hworker : c.worker = .running) (r : ℕ) :
    At { w with result := some r } k { c with worker := .worked, workRuns := c.workRuns ++ [r] } .worker := by
  cases hat with
  | worker ho hi ht h1 h2 h3 =>
    obtain ⟨-, h3⟩ | ⟨h3, -⟩ := h3
    · refine .worker ⟨ho.call, ho.task, ho.recycles⟩ ⟨hi.doneRuns, hi.postRuns, hi.uncounted⟩ ht h1 h2
        (.inr ⟨rfl, r, ?_, rfl⟩)
      rw [h3, List.nil_append]
    · rw [hworker] at h3
      cases h3

theorem At.push (hat : At w k c .worker) (hworker : c.worker = .worked) :
    At w k { c with worker := .pushed } .queue := by
  cases hat with
  | worker ho hi ht h1 h2 h3 =>
    obtain ⟨h3 | h3, -⟩ | ⟨-, h3⟩ := h3
    · rw [hworker] at h3
      cases h3
    · rw [hworker] at h3
      cases h3
    · exact .queue ⟨ho.call, ho.task, ho.recycles⟩
        (.offload ht ⟨hi.doneRuns, hi.postRuns, hi.uncounted⟩ (.inl ⟨h1, h2, .inl rfl, h3⟩))

theorem At.finish (hat : At w k c p) (htask : c.hasTask = true) (hworker : c.worker = .pushed) :
    At w k { c with worker := .finished } p ∧ p ≠ .gone := by
  have hpost := (Call.hasTask_iff.1 htask).1
  have hsettled : ∀ r, c.Settled r → Call.Settled { c with worker := .finished } r := by
    rintro r (⟨h1, h2, -, h3⟩ | ⟨-, -, hs | hs, -⟩)
    · exact .inl ⟨h1, h2, .inr rfl, h3⟩
    · rw [hworker] at hs; cases hs
    · rw [hworker] at hs; cases hs
  have hready : Ready w c → Ready w { c with worker := .finished } := by
    rintro (⟨hp, -⟩ | ⟨-, hi, hs⟩)
    · rw [hp.isPost] at hpost
      cases hpost
    · exact .offload htask ⟨hi.doneRuns, hi.postRuns, hi.uncounted⟩ (hsettled _ hs)
  cases hat with
  | queue ho hr => exact ⟨.queue ⟨ho.call, ho.task, ho.recycles⟩ (hready hr), nofun⟩
  | popped ho hr => exact ⟨.popped ⟨ho.call, ho.task, ho.recycles⟩ (hready hr), nofun⟩
  | waiting ho h1 hi hs =>
    exact ⟨.waiting ⟨ho.call, ho.task, ho.recycles⟩ h1 ⟨hi.doneRuns, hi.postRuns, hi.uncounted⟩ (hsettled _ hs), nofun⟩
  | _ => grind [Call.hasTask_iff, Call.Posted]

theorem At.cancelTask (hat : At w k c p) (hpost : c.isPost = false) (hstage : c.stage = .accepted)
    (hworker : c.worker = .queued) (hcancel : c.cancelled = false) (i : ℕ) :
    p = .worker ∧ At w k { c with cancelled := true } (.canceller i) := by
  have hsettled : ∀ r, ¬c.Settled r := by
    rintro r (⟨-, -, hs | hs, -⟩ | ⟨hs, -⟩)
    · rw [hworker] at hs; cases hs
    · rw [hworker] at hs; cases hs
    · rw [hcancel] at hs; cases hs
  have hready : ¬Ready w c := by
    rintro (⟨hp, -⟩ | ⟨-, -, hs⟩)
    · rw [hp.isPost] at hpost
      cases hpost
    · exact hsettled _ hs
  cases hat with
  | worker ho hi ht h1 h2 h3 =>
    obtain ⟨-, h3⟩ | ⟨h3, -⟩ := h3
    · exact ⟨rfl, .canceller i ⟨ho.call, ho.task, ho.recycles⟩ ⟨hi.doneRuns, hi.postRuns, hi.uncounted⟩ hpost hstage rfl
        h2 h3 (.inl hworker)⟩
    · rw [hworker] at h3
      cases h3
  | queue _ hr | popped _ hr => exact absurd hr hready
  | waiting _ _ _ hs => exact absurd hs (hsettled _)
  | _ => grind [Call.Posted]

theorem At.cancelPush {i : ℕ} (hat : At w k c (.canceller i)) :
    At { w with result := none } k { c with cancelOk := true } .queue := by
  cases hat with
  | canceller _ ho hi hpost h1 h2 h3 h4 h5 =>
    exact .queue ⟨ho.call, ho.task, ho.recycles⟩ (.offload (Call.hasTask_iff.2 ⟨hpost, .inr (.inr h1)⟩)
      ⟨hi.doneRuns, hi.postRuns, hi.uncounted⟩ (.inr ⟨h2, rfl, h5, h4, h1⟩))

theorem At.check (hat : At w k c (.frame .popped)) (hclean : c.isPost = true ∨ c.stage = .taskSet ∨ c.stage = .accepted) :
    match w.task with
    | some t => t = k ∧ At w k c (.frame (.waiting k))
    | none => c.isPost = true ∧ At w k { c with postRuns := c.postRuns + 1 } (.frame (.called false)) := by
  cases hat with
  | popped ho hr =>
    cases hr with
    | post hp h0 =>
      rw [ho.task, Call.taskSet, hp.isPost]
      refine ⟨rfl, .posted ⟨ho.call, ho.task, ho.recycles⟩ ?_ (congrArg (· + 1) h0)⟩
      exact ⟨hp.isPost, hp.stage, hp.worker, hp.cancelled, hp.workRuns, hp.cancelOk, hp.doneRuns, hp.uncounted⟩
    | offload ht hi hs =>
      have hpost := (Call.hasTask_iff.1 ht).1
      have hset : c.taskSet = true := by
        refine Call.taskSet_iff.2 ⟨hpost, hclean.resolve_left ?_⟩
        rw [hpost]
        nofun
      rw [ho.task, if_pos hset]
      exact ⟨rfl, .waiting ho hset hi hs⟩

theorem Call.Settled.told {r : Option ℕ} (hs : c.Settled r) (hi : c.Idle) :
    (if c.cancelled then c else OffloadLoop.callDone c r).Told := by
  obtain ⟨h1, -, -, v, h2, rfl⟩ | ⟨h1, -⟩ := hs
  · rw [h1, if_neg nofun, OffloadLoop.callDone]
    by_cases hk : c.kind = .submit false
    · rw [if_pos hk]
      exact ⟨hi.postRuns, by rw [if_pos (.inr hk)]; exact hi.doneRuns⟩
    · rw [if_neg hk]
      refine ⟨hi.postRuns, ?_⟩
      rw [if_neg (by simp [h1, hk]), hi.doneRuns, h2]
      rfl
  · rw [h1, if_pos rfl]
    exact ⟨hi.postRuns, by rw [if_pos (.inl h1)]; exact hi.doneRuns⟩

theorem At.wait {t : ℕ} (hat : At w k c (.frame (.waiting t))) (hworker : c.worker = .finished) :
    At w k (if c.cancelled then c else OffloadLoop.callDone c w.result) (.frame (.called true)) := by
  cases hat with
  | waiting ho hset hi hs =>
    have htold := hs.told hi
    revert htold
    split
    · exact fun ht => .done ho hset hs hworker ht hi.uncounted
    · rw [OffloadLoop.callDone]
      split
      · exact fun ht => .done ho hset hs hworker ht hi.uncounted
      · exact fun ht => .done ⟨ho.call, ho.task, ho.recycles⟩ hset hs hworker ht hi.uncounted

theorem At.uncount (hat : At w k c (.frame (.called true))) (hstage : c.stage = .accepted) :
    c.outstanding = true ∧ At w k { c with uncounted := true } (.frame .counted) := by
  cases hat with
  | done ho hset hs hw ht hu =>
    have hpost := (Call.taskSet_iff.1 hset).1
    refine ⟨?_, .counted ⟨ho.call, ho.task, ho.recycles⟩ hpost hstage hs hw ht rfl⟩
    simp [Call.outstanding, hpost, hstage, hu]

theorem At.recycle {st : FrameStage} (hat : At w k c (.frame st)) (hst : st = .called false ∨ st = .counted) :
    At w k { c with recycles := c.recycles + 1 } .gone := by
  cases hat with
  | posted ho hp h1 =>
    refine .postGone (congrArg (· + 1) ho.recycles) ?_ h1
    exact ⟨hp.isPost, hp.stage, hp.worker, hp.cancelled, hp.workRuns, hp.cancelOk, hp.doneRuns, hp.uncounted⟩
  | counted ho hpost h1 hs hw ht hu =>
    exact .offloadGone w.result (congrArg (· + 1) ho.recycles) hpost h1 hs hw ht hu
  | _ => simp at hst

/-! ### What has been called -/

theorem Call.right_of_idle (hi : c.Idle) (hr : c.recycles ≤ 1) (hgone : c.recycles = 1 → c.stage ≠ .accepted)
    (hwork : c.workRuns.length ≤ 1) (hcancel : c.cancelOk = true → c.workRuns = [])
    (hpost : c.isPost = true → c.workRuns = []) : c.Right where
  recycles := hr
  post hp := ⟨hpost hp, hi.doneRuns, by rw [hi.postRuns]; exact Nat.zero_le _⟩
  offload _ := by
    rw [hi.doneRuns]
    exact ⟨hi.postRuns, hwork, Nat.zero_le _, nofun⟩
  cancelled hc := ⟨hcancel hc, hi.doneRuns⟩
  ran h1 h2 := absurd h2 (hgone h1)

theorem Call.Posted.right (hp : c.Posted) (hr : c.recycles ≤ 1) (hruns : c.postRuns ≤ 1)
    (hgone : c.recycles = 1 → c.postRuns = 1) : c.Right where
  recycles := hr
  post _ := ⟨hp.workRuns, hp.doneRuns, hruns⟩
  offload h := by
    rw [hp.isPost] at h
    cases h
  cancelled _ := ⟨hp.workRuns, hp.doneRuns⟩
  ran h1 _ _ := by
    have hk : c.kind = .post := beq_iff_eq.1 hp.isPost
    rw [hk]
    exact hgone h1

theorem Call.Settled.right {r : Option ℕ} (hs : c.Settled r) (ht : c.Told) (hpost : c.isPost = false)
    (hr : c.recycles ≤ 1) : c.Right := by
  obtain ⟨h0, hdone⟩ := ht
  obtain ⟨h1, h2, -, v, h3, -⟩ | ⟨h1, h2, -, h3, -⟩ := hs
  · have hruns : c.doneRuns = if c.kind = .submit false then [] else [some v] := by
      rw [hdone, h3, h1]
      simp
    refine ⟨hr, fun hp => ?_, fun _ => ⟨h0, by rw [h3]; rfl, ?_, fun x hx => ?_⟩, fun hc => ?_, fun _ _ _ => ?_⟩
    · rw [hpost] at hp
      cases hp
    · rw [hruns]
      split <;> simp
    · rw [hruns] at hx
      rw [h3]
      split at hx
      · cases hx
      · rw [List.mem_singleton.1 hx]
        rfl
    · rw [h2] at hc
      cases hc
    · split
      · next hk => rw [Call.isPost, hk] at hpost; cases hpost
      · next b hk =>
        refine ⟨by rw [h3]; rfl, fun hb => ?_⟩
        rw [hruns, hk, hb, if_neg nofun]
        rfl
  · have hruns : c.doneRuns = [] := by
      rw [hdone, if_pos (.inl h1)]
    refine ⟨hr, fun hp => ?_, fun _ => ?_, fun _ => ⟨h3, hruns⟩, fun _ _ hc => ?_⟩
    · rw [hpost] at hp
      cases hp
    · rw [h3, hruns]
      exact ⟨h0, Nat.zero_le _, Nat.zero_le _, nofun⟩
    · rw [h2] at hc
      cases hc

theorem Call.Settled.workRuns {r : Option ℕ} (hs : c.Settled r) :
    c.workRuns.length ≤ 1 ∧ (c.cancelOk = true → c.workRuns = []) := by
  obtain ⟨-, h2, -, v, h3, -⟩ | ⟨-, -, -, h3, -⟩ := hs
  · exact ⟨by rw [h3]; rfl, fun hc => by rw [h2] at hc; cases hc⟩
  · exact ⟨by rw [h3]; exact Nat.zero_le _, fun _ => h3⟩

theorem Ready.right (h : Ready w c) (hr : c.recycles = 0) : c.Right := by
  have hle : c.recycles ≤ 1 := by omega
  cases h with
  | post hp h0 => exact hp.right hle (by omega) (by omega)
  | offload ht hi hs =>
    refine Call.right_of_idle hi hle (by omega) hs.workRuns.1 hs.workRuns.2 fun hp => ?_
    rw [(Call.hasTask_iff.1 ht).1] at hp
    cases hp

theorem At.right (h : At w k c p) : c.Right := by
  have hno : ∀ {b : Bool}, b = false → b = true → c.workRuns = [] := by
    rintro _ rfl ⟨⟩
  cases h with
  | caller ho hi _ _ _ h3 _ | canceller _ ho hi hpost _ _ _ h3 =>
    have hr := ho.recycles
    exact Call.right_of_idle hi (by omega) (by omega) (by rw [h3]; exact Nat.zero_le _) (fun _ => h3) fun _ => h3
  | worker ho hi ht _ h2 h3 =>
    have hr := ho.recycles
    refine Call.right_of_idle hi (by omega) (by omega) ?_ (hno h2) (hno (Call.hasTask_iff.1 ht).1)
    obtain ⟨-, h3⟩ | ⟨-, v, h3, -⟩ := h3 <;> simp [h3]
  | queue ho hr | popped ho hr => exact hr.right ho.recycles
  | waiting ho hset hi hs =>
    have hr := ho.recycles
    exact Call.right_of_idle hi (by omega) (by omega) hs.workRuns.1 hs.workRuns.2 (hno (Call.taskSet_iff.1 hset).1)
  | done ho hset hs _ ht => exact hs.right ht (Call.taskSet_iff.1 hset).1 (by rw [ho.recycles]; omega)
  | posted ho hp h1 => exact hp.right (by rw [ho.recycles]; omega) h1.le fun _ => h1
  | counted ho hpost _ hs _ ht => exact hs.right ht hpost (by rw [ho.recycles]; omega)
  | failed hr hi _ hst h3 _ =>
    exact Call.right_of_idle hi hr.le (fun _ => by rw [hst]; nofun) (by rw [h3]; exact Nat.zero_le _) (fun _ => h3)
      fun _ => h3
  | postGone hr hp h1 => exact hp.right hr.le h1.le fun _ => h1
  | offloadGone r hr hpost _ hs _ ht => exact hs.right ht hpost hr.le

theorem At.finished (h : At w k c p) (hu : c.uncounted = true) : c.worker = .finished := by
  cases h with
  | queue _ hr | popped _ hr =>
    cases hr with
    | post hp => rw [hp.uncounted] at hu; cases hu
    | offload _ hi => rw [hi.uncounted] at hu; cases hu
  | counted | offloadGone => assumption
  | posted _ hp | postGone _ hp => rw [hp.uncounted] at hu; cases hu
  | _ => grind [Call.Idle]

end At

end Libx.Loop
