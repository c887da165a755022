import Libx.Agent.Action
import Libx.Agent.Compact

/-!
# Libx.Agent.Conversation — what a round submits is the conversation

A run's history goes through a view, is taken apart into the Query's inputs, and is folded again with
what the run has produced, once a round.
-/

namespace Libx.Agent

open State List
open Libx.Core (Run replay exists_run_of_replay)

/-! ### The passes of a view builder -/

def Entry.isAssistant (e : Entry) : Bool := e.role = .assistant

theorem length_dropWhile_lt (e : Entry) (es : List Entry) :
    (es.dropWhile Entry.isAssistant).length < (e :: es).length := by
  have := (dropWhile_sublist (l := es) Entry.isAssistant).length_le
  rw [length_cons]
  omega

/-- Pass 1: `n_msgs` and `n_blocks`, from what is counted already. -/
def countPass (n : ℕ × ℕ) : List Entry → ℕ × ℕ
  | [] => n
  | e :: es =>
    if e.isAssistant then
      countPass (n.1 + 1, n.2 + (1 + (es.takeWhile Entry.isAssistant).length))
        (es.dropWhile Entry.isAssistant)
    else countPass (n.1 + 1, n.2 + 1) es
termination_by es => es.length
decreasing_by
  · exact length_dropWhile_lt e es
  · exact Nat.lt_succ_self _

def fillPass : List Entry → List Message
  | [] => []
  | e :: es =>
    if e.isAssistant then
      ⟨.assistant, e.content :: (es.takeWhile Entry.isAssistant).map Entry.content⟩ ::
        fillPass (es.dropWhile Entry.isAssistant)
    else ⟨e.role, [e.content]⟩ :: fillPass es
termination_by es => es.length
decreasing_by
  · exact length_dropWhile_lt e es
  · exact Nat.lt_succ_self _

def blocks (ms : List Message) : ℕ := (ms.map (fun m => m.contents.length)).sum

@[simp] theorem blocks_nil : blocks [] = 0 := rfl

theorem blocks_cons (m : Message) (ms : List Message) :
    blocks (m :: ms) = m.contents.length + blocks ms := rfl

/-- **The second pass is the fold.** -/
theorem fillPass_eq_view (es : List Entry) : fillPass es = view es := by
  induction es using fillPass.induct with
  | case1 => rw [fillPass, view_nil]
  | case2 e es h ih =>
    have hsplit : e :: es = (e :: es.takeWhile Entry.isAssistant) ++ es.dropWhile Entry.isAssistant := by
      rw [cons_append, takeWhile_append_dropWhile]
    have hrun : ∀ x ∈ e :: es.takeWhile Entry.isAssistant, x.role = .assistant := by
      intro x hx
      rcases mem_cons.mp hx with rfl | hx
      · simpa [Entry.isAssistant] using h
      · simpa [Entry.isAssistant] using mem_takeWhile_imp hx
    have hmax : ∀ x ∈ (es.dropWhile Entry.isAssistant).head?, x.role ≠ .assistant := by
      intro x hx
      have := List.head?_dropWhile_not Entry.isAssistant es
      rw [Option.mem_def.mp hx] at this
      simpa [Entry.isAssistant] using this
    rw [fillPass, if_pos h, ih, hsplit, view_assistant_run (by simp) hrun hmax, map_cons]
  | case3 e es h ih =>
    have he : e.role ≠ .assistant := by simpa [Entry.isAssistant] using h
    rw [fillPass, if_neg h, ih, view_cons_other es he]

theorem blocks_fillPass (es : List Entry) : blocks (fillPass es) = es.length := by
  induction es using fillPass.induct with
  | case1 => rw [fillPass, blocks_nil, length_nil]
  | case2 e es h ih =>
    have hlen : (es.takeWhile Entry.isAssistant).length + (es.dropWhile Entry.isAssistant).length =
        es.length := by
      rw [← length_append, takeWhile_append_dropWhile]
    rw [fillPass, if_pos h, blocks_cons, ih, length_cons, length_map, length_cons]
    omega
  | case3 e es h ih =>
    rw [fillPass, if_neg h, blocks_cons, ih, length_singleton, length_cons, Nat.add_comm]

/-- **The first pass counts what the second one writes.** -/
theorem countPass_eq (es : List Entry) : ∀ n : ℕ × ℕ,
    countPass n es = (n.1 + (fillPass es).length, n.2 + blocks (fillPass es)) := by
  induction es using fillPass.induct with
  | case1 => intro n; rw [countPass, fillPass]; rfl
  | case2 e es h ih =>
    intro n
    rw [countPass, if_pos h, ih, fillPass, if_pos h, blocks_cons, length_cons, length_cons,
      length_map]
    refine Prod.ext ?_ ?_
    · show n.1 + 1 + _ = n.1 + (_ + 1)
      omega
    · show n.2 + (1 + _) + _ = n.2 + (_ + 1 + _)
      omega
  | case3 e es h ih =>
    intro n
    rw [countPass, if_neg h, ih, fillPass, if_neg h, blocks_cons, length_cons, length_singleton]
    refine Prod.ext ?_ ?_
    · show n.1 + 1 + _ = n.1 + (_ + 1)
      omega
    · show n.2 + 1 + _ = n.2 + (1 + _)
      omega

theorem blocks_view (es : List Entry) : blocks (view es) = es.length := by
  rw [← fillPass_eq_view, blocks_fillPass]

/-! ### The conversation -/

/-- The entries of the system prompt and of the memory block. -/
def preamble (conf : Conf) (memText : Option Bytes) : List Entry :=
  (if conf.systemPrompt = [] then [] else [.text .system conf.systemPrompt]) ++
  match memText with
  | none => []
  | some t => [.text .system t]

/-- What the model is to see: the system prompt if there is one, the memory block if there is one, and
the fold of the entries. -/
def conversation (conf : Conf) (memText : Option Bytes) (es : List Entry) : List Message :=
  (if conf.systemPrompt = [] then [] else [⟨.system, [.text conf.systemPrompt]⟩]) ++
  (match memText with
  | none => []
  | some t => [⟨.system, [.text t]⟩]) ++
  view es

theorem conversation_eq_view (conf : Conf) (memText : Option Bytes) (es : List Entry) :
    conversation conf memText es = view (preamble conf memText ++ es) := by
  have hsys : ∀ (t : Bytes) (es : List Entry),
      view (.text .system t :: es) = ⟨.system, [.text t]⟩ :: view es := fun t es =>
    view_cons_other es (by simp [Entry.role])
  unfold conversation preamble
  by_cases hp : conf.systemPrompt = []
  · rw [if_pos hp, if_pos hp]
    cases memText with
    | none => rfl
    | some t =>
      rw [nil_append, nil_append, singleton_append, singleton_append, hsys]
  · rw [if_neg hp, if_neg hp]
    cases memText with
    | none => rw [List.append_nil, List.append_nil, singleton_append, singleton_append, hsys]
    | some t =>
      rw [singleton_append, singleton_append, cons_append, cons_append,
        cons_append, cons_append, hsys, hsys]
      rfl

theorem preamble_kept (conf : Conf) (memText : Option Bytes) :
    (preamble conf memText).filter Entry.kept = preamble conf memText := by
  refine filter_eq_self.mpr ?_
  intro e he
  rcases mem_append.mp he with h | h
  · split_ifs at h
    · exact absurd h (by simp)
    · rw [mem_singleton.mp h]
      rfl
  · cases memText with
    | none => exact absurd h (by simp)
    | some t =>
      rw [mem_singleton.mp h]
      rfl

theorem sessInputViewBuild_ok {conf : Conf} {memText : Option Bytes} {hist : List Slot} {viewOk : Bool}
    {msgs : List Message} (h : sessInputViewBuild conf memText hist viewOk = .ok msgs) :
    msgs = conversation conf memText (entries hist) := by
  have hb : sessInputViewBuild conf memText hist viewOk =
      if conversation conf memText (entries hist) = [] then .error .invalidArg
      else if !viewOk then .error .noMemory else .ok (conversation conf memText (entries hist)) := rfl
  rw [hb] at h
  split_ifs at h
  injection h with h
  exact h.symm

theorem append_conversation (conf : Conf) (memText : Option Bytes) (es : List Entry) :
    turnBufAppend (conversation conf memText es) = preamble conf memText ++ es.filter Entry.kept := by
  rw [conversation_eq_view, append_view, filter_append, preamble_kept]

/-- **What the two-step path loses**: the conversation is submitted exactly when every entry of the
history survives the copy. -/
theorem view_inputs_iff (conf : Conf) (memText : Option Bytes) (es produced : List Entry) :
    view (turnBufAppend (conversation conf memText es) ++ produced) =
      conversation conf memText (es ++ produced) ↔ ∀ e ∈ es, e.kept = true := by
  rw [append_conversation, conversation_eq_view, append_assoc]
  constructor
  · intro h
    have hlen := congrArg blocks h
    rw [blocks_view, blocks_view, length_append, length_append, length_append,
      length_append] at hlen
    exact length_filter_eq_length_iff.mp (by omega)
  · intro h
    rw [filter_eq_self.mpr h]

/-! ### The start of a run -/

theorem accepts_run {s : State} {msg : Message} {env : InputEnv} (h : s.accepts msg env = true)
    (auto : Bool) :
    ∃ x, s.passed msg.contents env = some x ∧
      (s.sessionInput auto msg env).sess.history = x.history ++ [userSlot s msg] ∧
      (s.sessionInput auto msg env).conf = s.conf ∧ (s.sessionInput auto msg env).run = s.run + 1 ∧
      (s.sessionInput auto msg env).q.inputs = turnBufAppend
        (conversation s.conf env.memText (entries (x.history ++ [userSlot s msg]))) ∧
      ∃ serial limit, (s.sessionInput auto msg env).trace = .submitted serial (s.run + 1) 1 limit
        (view (turnBufAppend (conversation s.conf env.memText (entries (x.history ++ [userSlot s msg])))))
        [] :: s.trace := by
  unfold State.accepts at h
  cases hp : s.passed msg.contents env with
  | none =>
    rw [hp] at h
    exact absurd h (by simp)
  | some x =>
    rw [hp, Bool.and_eq_true, Bool.not_eq_true'] at h
    obtain ⟨hap, hst⟩ := h
    refine ⟨x, rfl, ?_⟩
    unfold State.passed at hp
    split_ifs at hp with hb
    have hgate : sessionEnforceBudget s.conf msg.contents env s.sess = .pass x := by
      split at hp
      · next y hy =>
        injection hp with hp
        rw [hy, hp]
      · exact absurd hp (by simp)
    unfold startFails at hst
    cases hv : sessInputViewBuild s.conf env.memText (x.history ++ [userSlot s msg]) env.viewOk with
    | error rc =>
      rw [hv] at hst
      exact absurd hst (by simp)
    | ok msgs =>
      rw [hv] at hst
      simp only [Bool.or_eq_false_iff, Bool.not_eq_false', isEmpty_eq_false_iff, decide_eq_false_iff_not,
        ne_eq, Decidable.not_not] at hst
      obtain ⟨⟨⟨hcr, hco⟩, hne⟩, hrc⟩ := hst
      have hmsgs := sessInputViewBuild_ok hv
      have hb' : (s.q.live || s.sess.compacting) = false := by simpa [State.busy] using hb
      have hbuild : viewBuild (turnBufAppend msgs) [] = .ok (view (turnBufAppend msgs)) := by
        unfold viewBuild
        rw [List.append_nil, if_neg hne]
      have hrun : s.sessionInput auto msg env = State.acceptInput auto msg env { s with sess := x } := by
        unfold State.sessionInput
        rw [hb', if_neg (by simp), hgate]
      have hacc : State.acceptInput auto msg env { s with sess := x } =
          queryRun (.user x.history.length auto) msgs env (create true s.conf.maxTurns
            { pushHistory [.text msg.role (textOf msg.contents)] { s with sess := x } with
              sess := { (pushHistory [.text msg.role (textOf msg.contents)] { s with sess := x }).sess with
                deltaEntries := x.deltaEntries + 1
                overheadTokens := overheadOf s.conf.systemPrompt env.memText } }) := by
        unfold State.acceptInput
        rw [hap, hcr]
        have hv' : sessInputViewBuild s.conf env.memText
            (pushHistory [.text msg.role (textOf msg.contents)] { s with sess := x }).sess.history env.viewOk =
              .ok msgs := hv
        simp only [Bool.not_true, Bool.false_eq_true, if_false]
        split
        · next rc hv₂ =>
          have := hv'.symm.trans hv₂
          exact absurd this (by simp)
        · next msgs₂ hv₂ =>
          have := hv'.symm.trans hv₂
          injection this with this
          rw [this]
          rfl
      rw [hrun, hacc, ← hmsgs]
      unfold State.queryRun
      rw [hco, if_pos rfl]
      unfold State.submitRound
      have hbuild' : ∀ u : State, viewBuild { (create true s.conf.maxTurns u).q with
          inputs := turnBufAppend msgs, running := true }.inputs (create true s.conf.maxTurns u).q.produced =
            .ok (view (turnBufAppend msgs)) := fun _ => hbuild
      rw [hbuild' _]
      dsimp only
      rw [if_pos hrc]
      exact ⟨rfl, rfl, rfl, rfl, _, _, rfl⟩

theorem incoming_trace {s s₀ : State} {l : Label} {msg : Message} (h : incoming s l = some (msg, s₀)) :
    s₀.trace = s.trace ∧ s₀.conf = s.conf := by
  unfold incoming at h
  split at h
  · injection h with h
    injection h with _ h
    subst h
    exact ⟨rfl, rfl⟩
  · split at h
    · injection h with h
      injection h with _ h
      subst h
      exact ⟨rfl, rfl⟩
    · exact absurd h (by simp)
  · exact absurd h (by simp)

theorem step_incoming {s t s₀ : State} {l : Label} {msg : Message} (hs : step s l = some t)
    (hi : incoming s l = some (msg, s₀)) : ∃ auto, t = s₀.sessionInput auto msg l.env := by
  obtain ⟨m, env⟩ := l
  unfold incoming at hi
  split at hi
  · next msg' hm =>
    injection hi with hi
    injection hi with h1 h2
    subst hm h1 h2
    cases took_of_step hs with
    | input _ _ => exact ⟨false, rfl⟩
  · next hm =>
    subst hm
    split at hi
    · next rest txt hst hp =>
      injection hi with hi
      injection hi with h1 h2
      subst h1 h2
      unfold step at hs
      simp only [hst, Option.ite_none_right_eq_some] at hs
      obtain ⟨-, hs⟩ := hs
      injection hs with hs
      refine ⟨true, ?_⟩
      rw [← hs]
      unfold State.autoRetryPending
      simp only [hp]
    · exact absurd hi (by simp)
  · exact absurd hi (by simp)

/-! ### The invariant of a run -/

/-- Run number `r` is on the inputs `I` as long as it is the last, and its rounds submit the view of
these and of what is produced. -/
structure Sees (r : ℕ) (I : List Entry) (s : State) : Prop where
  reached : r ≤ s.run
  own : s.run = r → s.q.inputs = I ∨ s.q.live = false ∧ s.q.inputs = [] ∧ s.q.produced = []
  below : ∀ serial run turn limit msgs produced,
    Obs.submitted serial run turn limit msgs produced ∈ s.trace → run ≤ s.run
  seen : ∀ serial turn limit msgs produced,
    Obs.submitted serial r turn limit msgs produced ∈ s.trace → msgs = view (I ++ produced)

namespace Sees

variable {r : ℕ} {I : List Entry} {env : InputEnv} {s t : State}

theorem quiet (h : Sees r I s) (hrun : t.run = s.run)
    (hq : Within s.q t.q ∨ t.q = {})
    (htr : ∀ serial run turn limit msgs produced,
      Obs.submitted serial run turn limit msgs produced ∈ t.trace →
        Obs.submitted serial run turn limit msgs produced ∈ s.trace) : Sees r I t := by
  refine ⟨hrun ▸ h.reached, fun hr => ?_, fun serial run turn limit msgs produced hm => ?_,
    fun serial turn limit msgs produced hm => h.seen _ _ _ _ _ (htr _ _ _ _ _ _ hm)⟩
  · rcases hq with hw | hq
    · rcases h.own (hrun ▸ hr) with hi | ⟨hl, hi, hp⟩
      · exact .inl (hw.inputs.trans hi)
      · obtain ⟨es, hes⟩ := hw.produced
        refine .inr ⟨hw.live.trans hl, hw.inputs.trans hi, ?_⟩
        rw [hes, append_eq, hl]
        exact hp
    · rw [hq]
      exact .inr ⟨rfl, rfl, rfl⟩
  · rw [hrun]
    exact h.below _ _ _ _ _ _ (htr _ _ _ _ _ _ hm)

theorem same (h : Sees r I s) (hrun : t.run = s.run) (hq : t.q = s.q) (htr : t.trace = s.trace) :
    Sees r I t :=
  h.quiet hrun (.inl (hq ▸ Within.refl s.q)) (fun _ _ _ _ _ _ hm => htr ▸ hm)

theorem prepare {msgs : List Message} (h : Sees r I s)
    (hv : viewBuild s.q.inputs s.q.produced = .ok msgs) : Sees r I (s.prepareRound msgs) := by
  have hmsgs : s.q.inputs ++ s.q.produced ≠ [] ∧ msgs = view (s.q.inputs ++ s.q.produced) := by
    unfold viewBuild at hv
    split_ifs at hv with hne
    injection hv with hv
    exact ⟨hne, hv.symm⟩
  refine ⟨h.reached, h.own, fun serial run turn limit ms produced hm => ?_, fun serial turn limit ms produced hm => ?_⟩
  · rcases mem_cons.mp hm with he | hm
    · injection he with _ he
      exact he.le
    · exact h.below _ _ _ _ _ _ hm
  · rcases mem_cons.mp hm with he | hm
    · injection he with _ hrun _ _ hms hprod
      rcases h.own hrun.symm with hi | ⟨-, hi, hp⟩
      · rw [hms, hprod, hmsgs.2, hi]
      · exact absurd (by rw [hi, hp]; rfl) hmsgs.1
    · exact h.seen _ _ _ _ _ hm

theorem emit {o : Obs} (ho : ∀ serial run turn limit msgs produced,
    o ≠ .submitted serial run turn limit msgs produced) (h : Sees r I s) : Sees r I (s.emit o) := by
  refine h.quiet rfl (.inl (Within.refl _)) (fun serial run turn limit msgs produced hm => ?_)
  rcases mem_cons.mp hm with he | hm
  · exact absurd he.symm (ho _ _ _ _ _ _)
  · exact hm

theorem endRun (reason : DoneReason) (env : InputEnv) (h : Sees r I s) :
    Sees r I (s.endRun reason env) := by
  have hd : Sees r I ({ s with q := { s.q with running := false } }.emit (.done s.run reason)) :=
    emit (by simp) (s := { s with q := { s.q with running := false } })
      ⟨h.reached, h.own, h.below, h.seen⟩
  have hmem : ∀ (b : List Slot) (u : State), (memoryAppend b u).run = u.run ∧
      (memoryAppend b u).q = u.q ∧ (memoryAppend b u).trace = u.trace := fun _ _ => ⟨rfl, rfl, rfl⟩
  unfold State.endRun State.sessFwdOnDone
  split
  · unfold State.compactFinished
    split
    all_goals exact hd.quiet rfl (.inr rfl) (fun _ _ _ _ _ _ hm => hm)
  · exact hd.same rfl rfl rfl

theorem act (h : Sees r I s) (ha : Act env s t) : Sees r I t := by
  cases ha with
  | query q hw => exact h.quiet rfl (.inl hw) (fun _ _ _ _ _ _ hm => hm)
  | emit o ho => exact h.emit ho
  | prepare msgs hv => exact h.prepare hv
  | ended reason _ => exact h.endRun reason env
  | release => exact h.quiet rfl (.inr rfl) (fun _ _ _ _ _ _ hm => hm)
  | _ => exact h.same rfl rfl rfl

theorem acts (h : Sees r I s) (ha : Acts env s t) : Sees r I t := by
  induction ha with
  | refl => exact h
  | tail _ hact ih => exact ih.act hact

/-! A message starts a run of a later number, or none. -/

theorem returnInput (auto : Bool) (rc : Errno) (h : Sees r I s) : Sees r I (s.returnInput auto rc) :=
  h.acts (show Acts {} s _ from .returnInput auto rc s)

theorem runFailed (k : RunKind) (rc : Errno) (h : Sees r I s) : Sees r I (s.runFailed k rc) := by
  cases k with
  | user checkpoint auto =>
    exact returnInput auto rc (h.quiet rfl (.inr rfl) (fun _ _ _ _ _ _ hm => hm))
  | compact auto =>
    exact returnInput auto .promptTooLong (h.quiet rfl (.inr rfl) (fun _ _ _ _ _ _ hm => hm))

theorem queryRun (k : RunKind) (msgs : List Message) (env : InputEnv) (h : Sees r I s) (hr : s.run ≠ r) :
    Sees r I (s.queryRun k msgs env) := by
  have hin : Sees r I { s with q := { s.q with inputs := turnBufAppend msgs, running := true } } :=
    ⟨h.reached, fun hr' => absurd hr' hr, h.below, h.seen⟩
  unfold State.queryRun
  split
  · unfold State.submitRound
    split
    · exact runFailed k _ hin
    · next ms hv =>
      have hprep := hin.prepare hv
      split
      · exact hprep.same rfl rfl rfl
      · exact runFailed k _ hprep
  · exact runFailed k _ h

theorem sessionInput (auto : Bool) (msg : Message) (env : InputEnv) (h : Sees r I s) :
    Sees r I (s.sessionInput auto msg env) := by
  have hr := h.reached
  have hcreate : ∀ (user : Bool) (n : ℤ) (u : State), u.run = s.run → u.trace = s.trace →
      Sees r I (create user n u) ∧ (create user n u).run ≠ r := by
    intro user n u hu htr
    have hrun : (create user n u).run = s.run + 1 := congrArg (· + 1) hu
    have htr' : (create user n u).trace = s.trace := htr
    refine ⟨⟨by omega, fun hr' => ?_, fun serial run turn limit msgs produced hm => ?_, ?_⟩, by omega⟩
    · omega
    · have := h.below _ _ _ _ _ _ (htr' ▸ hm)
      omega
    · rw [htr']
      exact h.seen
  have hpass : ∀ x, Sees r I { s with sess := x } := fun x => h.same rfl rfl rfl
  unfold State.sessionInput
  split
  · exact returnInput auto _ h
  · split
    · exact returnInput auto _ (hpass _)
    · split
      · exact returnInput auto _ (hpass _)
      · refine queryRun _ _ env ?_ ?_
        · exact (hcreate false 1 _ (by rfl) (by rfl)).1
        · exact (hcreate false 1 _ (by rfl) (by rfl)).2
    · next x _ =>
      unfold State.acceptInput
      dsimp only
      split
      · exact returnInput auto _ (hpass x)
      · split
        · exact returnInput auto _ (h.same rfl rfl rfl)
        · split
          · exact returnInput auto _ (h.same rfl rfl rfl)
          · refine queryRun _ _ env ?_ ?_
            · exact (hcreate true s.conf.maxTurns _ (by rfl) (by rfl)).1
            · exact (hcreate true s.conf.maxTurns _ (by rfl) (by rfl)).2

theorem step {l : Label} (h : Sees r I s) (hs : step s l = some t) : Sees r I t := by
  cases acts_of_step hs with
  | message s₀ msg auto hi ht =>
    obtain ⟨-, hq, -, hrun⟩ := incoming_same hi
    have hs₀ : Sees r I s₀ := h.same hrun hq (incoming_trace hi).1
    rw [ht]
    exact hs₀.sessionInput auto msg l.env
  | created n ht =>
    rw [ht]
    exact h.same rfl rfl rfl
  | acts ha => exact h.acts ha
  | returned f rest _ ha =>
    have hpop : Sees r I { s with stack := rest } := h.same rfl rfl rfl
    exact hpop.acts ha

end Sees

theorem sees_of_run {conf : Conf} {contextWindow nextUid : ℕ} {store : List Slot} {s : State}
    (h : Run step (fun _ _ => True) (init conf contextWindow store nextUid) s) : Sees 0 [] s := by
  refine h.preserves (I := Sees 0 []) (fun s l t hi _ hs => hi.step hs) ?_
  exact ⟨Nat.zero_le _, fun _ => .inr ⟨rfl, rfl, rfl⟩, fun _ _ _ _ _ _ hm => absurd hm (by simp [init, createSession]),
    fun _ _ _ _ _ hm => absurd hm (by simp [init, createSession])⟩

/-- **A round submits the conversation**: the run that a message starts submits, in every one of its
rounds, the conversation that the history and the entries produced so far make, exactly when the history
holds no text of a Tool message. -/
theorem submitted_conversation {conf : Conf} {contextWindow nextUid : ℕ} {store : List Slot}
    {s s₀ s₁ t : State} {l : Label} {msg : Message} {serial turn limit : ℕ} {msgs : List Message}
    {produced : List Entry} (hs : Run step (fun _ _ => True) (init conf contextWindow store nextUid) s)
    (hi : incoming s l = some (msg, s₀)) (hacc : s₀.accepts msg l.env = true) (h₁ : step s l = some s₁)
    (ht : Run step (fun _ _ => True) s₁ t)
    (hm : .submitted serial s₁.run turn limit msgs produced ∈ t.trace) :
    msgs = conversation conf l.env.memText (entries s₁.sess.history ++ produced) ↔
      ∀ e ∈ entries s₁.sess.history, e.kept = true := by
  have hsee := sees_of_run hs
  obtain ⟨htr, hcf⟩ := incoming_trace hi
  obtain ⟨-, -, -, hrun₀⟩ := incoming_same hi
  obtain ⟨auto, he⟩ : ∃ auto, s₁ = s₀.sessionInput auto msg l.env := step_incoming h₁ hi
  obtain ⟨x, -, hhist, hconf, hrun, hin, serial₁, limit₁, htrace⟩ := accepts_run hacc auto
  have hc : s₀.conf = conf := by
    rw [hcf]
    exact hs.preserves (I := fun s => s.conf = conf) (fun s l t hi _ hs => (step_conf hs).trans hi) rfl
  rw [← he] at hhist hconf hrun hin htrace
  rw [hc, ← hhist] at hin htrace
  have hstart : Sees s₁.run s₁.q.inputs s₁ := by
    refine ⟨le_rfl, fun _ => .inl rfl, fun _ _ _ _ _ _ hm => ?_, fun _ _ _ _ _ hm => ?_⟩
    · rw [htrace] at hm
      rcases mem_cons.mp hm with h | h
      · injection h with _ h
        omega
      · have := hsee.below _ _ _ _ _ _ (htr ▸ h)
        omega
    · rw [htrace] at hm
      rcases mem_cons.mp hm with h | h
      · injection h with _ _ _ _ h1 h2
        rw [h1, h2, List.append_nil, hin]
      · have := hsee.below _ _ _ _ _ _ (htr ▸ h)
        omega
  have hend := ht.preserves (I := Sees s₁.run s₁.q.inputs) (fun s l t hi _ hs => hi.step hs) hstart
  have hmsgs := hend.seen _ _ _ _ _ hm
  rw [hmsgs, hin]
  exact view_inputs_iff conf l.env.memText (entries s₁.sess.history) produced

/-! ### Runs on fixed inputs -/

/-- A run whose model calls a tool that is not there, up to its second round. -/
def secondRound : List Label :=
  [⟨.ret, {}⟩, ⟨.toolCall 0 (some (bytes "c")) (some (bytes "ls")) none, {}⟩, ⟨.done 0 .toolUse .ok none, {}⟩]

def submittedSecond (t : State) : Bool :=
  match t.trace with
  | .submitted 1 1 2 16 _ _ :: _ => true
  | _ => false

/-- A second round submits the conversation. -/
theorem submitted_conversation_second :
    ∃ s₁ t msgs produced, step (init {} 0 [] 0) ⟨.input hello, {}⟩ = some s₁ ∧
      Run step (fun _ _ => True) s₁ t ∧ .submitted 1 s₁.run 2 16 msgs produced ∈ t.trace ∧
      msgs = conversation {} none (entries s₁.sess.history ++ produced) := by
  have h₁ : step (init {} 0 [] 0) ⟨.input hello, {}⟩ =
      some (State.sessionInput false hello {} (init {} 0 [] 0)) := by rfl
  obtain ⟨t, ht, hp⟩ := exists_run_of_replay step (fun _ _ => True) (fun _ _ => true) submittedSecond
    (fun _ _ _ => trivial)
    (show replay step _ _ (State.sessionInput false hello {} (init {} 0 [] 0)) secondRound = true by rfl)
  have hrun : (State.sessionInput false hello {} (init {} 0 [] 0)).run = 1 := by rfl
  unfold submittedSecond at hp
  split at hp
  · next msgs produced post he =>
    have hm : .submitted 1 (State.sessionInput false hello {} (init {} 0 [] 0)).run 2 16 msgs produced ∈
        t.trace := by
      rw [he, hrun]
      exact mem_cons_self
    refine ⟨_, t, msgs, produced, h₁, ht, hm, ?_⟩
    exact (submitted_conversation .refl (l := ⟨.input hello, {}⟩) rfl (by decide) h₁ ht hm).mpr (by decide)
  · exact absurd hp (by simp)

def toolText : List Slot := slotsFrom 0 [.text .tool (bytes "x")]

/-- **A text of a Tool message is not submitted**: the session is primed with it, and the provider is
handed the user's message alone. -/
theorem not_submitted_conversation :
    ∃ s₁, step (init { hasMemory := true } 0 toolText 1) ⟨.input hello, {}⟩ = some s₁ ∧
      s₁.trace = [.submitted 0 s₁.run 1 16 [hello] []] ∧
      [hello] ≠ conversation { hasMemory := true } none (entries s₁.sess.history ++ []) :=
  ⟨State.sessionInput false hello {} (init { hasMemory := true } 0 toolText 1), by rfl, by rfl, by decide⟩

end Libx.Agent
