import Libx.Agent.View
import Libx.Agent.Budget
import Libx.Core.Transcript

/-!
# Libx.Agent.Pairs — when the tool calls of a message list are paired with their results

A provider wants each tool call of an Assistant message answered right behind it.  On the entries
this is a `Closed` transcript, and the fold to messages keeps it.
-/

namespace Libx.Agent

open Libx.Core List

def Content.callId : Content → Option Bytes
  | .toolUse id _ _ => some id
  | _ => none

def Content.answerId : Content → Option Bytes
  | .toolResult id _ _ => some id
  | _ => none

def Message.calls (m : Message) : List Bytes := m.contents.filterMap Content.callId

def Message.answers (m : Message) : List Bytes := m.contents.filterMap Content.answerId

def toolRun (ms : List Message) : List Message := ms.takeWhile (fun m => m.role = .tool)

/-- **Tool calls and results are paired**: the calls of an Assistant message are answered, each
exactly once, by the Tool messages that directly follow it, and every result stands among the Tool
messages that directly follow an Assistant message. -/
structure WellPaired (msgs : List Message) : Prop where
  answered : ∀ pre m post, msgs = pre ++ m :: post → m.role = .assistant →
    m.calls.Perm ((toolRun post).flatMap Message.answers)
  answering : ∀ pre m post, msgs = pre ++ m :: post → m.answers ≠ [] → m.role = .tool ∧
    ∃ pre' a mid, pre = pre' ++ a :: mid ∧ a.role = .assistant ∧ ∀ x ∈ mid, x.role = .tool

/-! ### Transcripts -/

def entryMark (e : Entry) : Mark Bytes :=
  match e.role with
  | .assistant => .turn e.content.callId
  | .tool => .answer e.content.answerId
  | _ => .other

def messageMarks (m : Message) : List (Mark Bytes) :=
  match m.role with
  | .assistant => m.contents.map (fun c => .turn c.callId)
  | .tool => m.contents.map (fun c => .answer c.answerId)
  | _ => [.other]

def marks (ms : List Message) : List (Mark Bytes) := ms.flatMap messageMarks

theorem marks_cons (m : Message) (ms : List Message) : marks (m :: ms) = messageMarks m ++ marks ms :=
  rfl

theorem marks_append (ms ms' : List Message) : marks (ms ++ ms') = marks ms ++ marks ms' :=
  flatMap_append

theorem messageMarks_single (e : Entry) : messageMarks ⟨e.role, [e.content]⟩ = [entryMark e] := by
  unfold messageMarks entryMark
  cases e.role <;> rfl

theorem marks_view (es : List Entry) : marks (view es) = es.map entryMark := by
  induction es with
  | nil => rfl
  | cons e es ih =>
    rw [view_cons, map_cons, ← ih]
    cases view es with
    | nil =>
      rw [viewCons, marks_cons, messageMarks_single]
      rfl
    | cons m ms =>
      rw [viewCons]
      split_ifs with hc
      · have hjoin : messageMarks ⟨.assistant, e.content :: m.contents⟩ =
            entryMark e :: messageMarks m := by
          unfold messageMarks entryMark
          rw [hc.1, hc.2]
          rfl
        rw [marks_cons, marks_cons, hjoin]
        rfl
      · rw [marks_cons, messageMarks_single]
        rfl

/-- A list as the fold makes it: no message is empty, results stand in Tool messages, and no two
Assistant messages are adjacent. -/
structure Folded (ms : List Message) : Prop where
  blocks : ∀ m ∈ ms, m.contents ≠ []
  answers : ∀ m ∈ ms, m.role ≠ .tool → m.answers = []
  apart : ms.IsChain (fun a b => a.role = .assistant → b.role ≠ .assistant)

theorem answers_single (e : Entry) (h : e.role ≠ .tool) : e.content.answerId = none := by
  cases e with
  | toolResult id output isError => exact absurd rfl h
  | _ => rfl

theorem view_folded (es : List Entry) : Folded (view es) := by
  induction es with
  | nil => exact ⟨by simp, by simp, .nil⟩
  | cons e es ih =>
    rw [view_cons]
    have hsingle : e.role ≠ .tool → Message.answers ⟨e.role, [e.content]⟩ = [] := by
      intro hr
      simp [Message.answers, answers_single e hr]
    cases hv : view es with
    | nil =>
      refine ⟨?_, ?_, .singleton _⟩
      · intro m hm
        rw [viewCons, mem_singleton] at hm
        rw [hm]
        exact cons_ne_nil _ _
      · intro m hm hr
        rw [viewCons, mem_singleton] at hm
        rw [hm] at hr ⊢
        exact hsingle hr
    | cons m ms =>
      rw [hv] at ih
      rw [viewCons]
      split_ifs with hc
      · refine ⟨?_, ?_, ?_⟩
        · intro x hx
          rcases mem_cons.mp hx with h | h
          · rw [h]
            exact cons_ne_nil _ _
          · exact ih.blocks x (mem_cons_of_mem _ h)
        · intro x hx hr
          rcases mem_cons.mp hx with h | h
          · have hm : m.answers = [] := ih.answers m mem_cons_self (by rw [hc.2]; simp)
            have he : e.content.answerId = none := answers_single e (by rw [hc.1]; simp)
            rw [h]
            unfold Message.answers at hm ⊢
            rw [filterMap_cons, he]
            exact hm
          · exact ih.answers x (mem_cons_of_mem _ h) hr
        · have hch := ih.apart
          cases ms with
          | nil => exact .singleton _
          | cons m' ms' =>
            rw [isChain_cons_cons] at hch ⊢
            exact ⟨fun _ => hch.1 hc.2, hch.2⟩
      · refine ⟨?_, ?_, ?_⟩
        · intro x hx
          rcases mem_cons.mp hx with h | h
          · rw [h]
            exact cons_ne_nil _ _
          · exact ih.blocks x h
        · intro x hx hr
          rcases mem_cons.mp hx with h | h
          · rw [h] at hr ⊢
            exact hsingle hr
          · exact ih.answers x h hr
        · rw [isChain_cons_cons]
          exact ⟨fun h1 h2 => hc ⟨h1, h2⟩, ih.apart⟩

/-! ### Scanning messages -/

section

variable {o o' : Owed Bytes} {m : Message} {ms : List Message} {rest : List (Mark Bytes)}

theorem scan_answers {cs : List Content}
    (h : scan id o (cs.map (fun c => Mark.answer c.answerId)) = some o') :
    o.calls = (cs.filterMap Content.answerId : Multiset Bytes) + o'.calls ∧
      (cs ≠ [] → o'.asking = false) := by
  induction cs generalizing o with
  | nil =>
    injection h with h
    subst h
    exact ⟨by simp, fun hne => absurd rfl hne⟩
  | cons c cs ih =>
    rw [map_cons, scan_cons] at h
    cases hc : c.answerId with
    | none =>
      rw [hc] at h
      obtain ⟨h1, h2⟩ := ih h
      rw [filterMap_cons, hc]
      refine ⟨h1, fun _ => ?_⟩
      by_cases hcs : cs = []
      · subst hcs
        injection h with h
        rw [← h]
      · exact h2 hcs
    | some k =>
      rw [hc] at h
      simp only [id, Owed.next] at h
      split_ifs at h with hk
      · obtain ⟨h1, h2⟩ := ih h
        rw [filterMap_cons, hc]
        refine ⟨?_, fun _ => ?_⟩
        · have hcons : o.calls = k ::ₘ o.calls.erase k := (Multiset.cons_erase hk).symm
          rw [hcons]
          dsimp only at h1
          rw [h1, ← Multiset.cons_coe, Multiset.cons_add]
        · by_cases hcs : cs = []
          · subst hcs
            injection h with h
            rw [← h]
          · exact h2 hcs
      · exact absurd h (by simp)

theorem scan_toolRun {ts : List Message} (ht : ∀ x ∈ ts, x.role = .tool)
    (hb : ∀ x ∈ ts, x.contents ≠ []) (h : scan id o (marks ts) = some o') :
    o.calls = (ts.flatMap Message.answers : Multiset Bytes) + o'.calls ∧
      (ts ≠ [] → o'.asking = false) := by
  induction ts generalizing o with
  | nil =>
    injection h with h
    subst h
    exact ⟨by simp, fun hne => absurd rfl hne⟩
  | cons t ts ih =>
    have hm : messageMarks t = t.contents.map (fun c => Mark.answer c.answerId) := by
      rw [messageMarks, ht t mem_cons_self]
    rw [marks_cons, scan_append] at h
    cases ho : scan id o (messageMarks t) with
    | none =>
      rw [ho] at h
      exact absurd h (by simp)
    | some o₁ =>
      rw [ho, Option.bind_some] at h
      rw [hm] at ho
      obtain ⟨h1, h2⟩ := scan_answers ho
      obtain ⟨h3, h4⟩ := ih (fun x hx => ht x (mem_cons_of_mem _ hx))
        (fun x hx => hb x (mem_cons_of_mem _ hx)) h
      refine ⟨?_, fun _ => ?_⟩
      · rw [h1, h3, flatMap_cons, ← Multiset.coe_add, Multiset.add_assoc]
        rfl
      · by_cases hts : ts = []
        · subst hts
          injection h with h
          rw [← h]
          exact h2 (hb t mem_cons_self)
        · exact h4 hts

theorem calls_zero_of_scan (hr : m.role ≠ .tool) (hb : m.contents ≠ [])
    (ha : m.role = .assistant → o.asking = false)
    (h : scan id o (messageMarks m ++ rest) = some o') : o.calls = 0 := by
  obtain ⟨c, cs, hc⟩ := exists_cons_of_ne_nil hb
  cases hrole : m.role with
  | tool => exact absurd hrole hr
  | assistant =>
    rw [messageMarks, hrole, hc] at h
    simp only [map_cons, cons_append, scan_cons, id, Owed.next] at h
    split_ifs at h with hz
    · rcases hz with hz | hz
      · rw [ha hrole] at hz
        exact absurd hz (by simp)
      · exact hz
    · exact absurd h (by simp)
  | _ =>
    rw [messageMarks, hrole] at h
    simp only [cons_append, scan_cons, id, Owed.next] at h
    split_ifs at h with hz
    · exact hz
    · exact absurd h (by simp)

theorem asking_of_scan (hr : m.role ≠ .assistant) (hb : m.contents ≠ [])
    (h : scan id o (messageMarks m) = some o') : o'.asking = false := by
  cases hrole : m.role with
  | assistant => exact absurd hrole hr
  | tool =>
    rw [messageMarks, hrole] at h
    exact (scan_answers h).2 hb
  | _ =>
    rw [messageMarks, hrole] at h
    simp only [scan_cons, scan_nil, id, Owed.next] at h
    split_ifs at h with hz
    · injection h with h
      rw [← h]
    · exact absurd h (by simp)

theorem scan_assistant (hr : m.role = .assistant) (hb : m.contents ≠ []) (hz : o.calls = 0) :
    scan id o (messageMarks m) = some ⟨m.calls, true⟩ := by
  have hm : (messageMarks m).map id = (m.contents.map Content.callId).map Mark.turn := by
    rw [messageMarks, hr, map_id, map_map]
    rfl
  have hne : messageMarks m ≠ [] := by
    rw [messageMarks, hr]
    simpa using hb
  have ho : o = ⟨o.calls, o.asking⟩ := rfl
  rw [ho, scan_turn (.inr hz) hm hne, hz, Multiset.zero_add]
  congr 2
  rw [Message.calls, List.reduceOption, filterMap_map]
  rfl

theorem turn_behind {pre : List Message} (h : scan id .nothing (marks pre) = some o)
    (hb : ∀ x ∈ pre, x.contents ≠ []) (hne : o.calls ≠ 0) :
    ∃ pre' a mid, pre = pre' ++ a :: mid ∧ a.role = .assistant ∧ ∀ x ∈ mid, x.role = .tool := by
  induction pre using List.reverseRecOn generalizing o with
  | nil =>
    injection h with h
    rw [← h] at hne
    exact absurd rfl hne
  | append_singleton pre x ih =>
    rw [marks_append, scan_append] at h
    cases ho : scan id .nothing (marks pre) with
    | none =>
      rw [ho] at h
      exact absurd h (by simp)
    | some o₁ =>
      rw [ho, Option.bind_some] at h
      by_cases hx : x.role = .assistant
      · exact ⟨pre, x, [], rfl, hx, by simp⟩
      by_cases ht : x.role = .tool
      · obtain ⟨h1, -⟩ := scan_toolRun (show ∀ y ∈ [x], y.role = .tool by simpa using ht)
          (by simpa using hb x (by simp)) h
        have hne₁ : o₁.calls ≠ 0 := by
          intro hz
          rw [hz] at h1
          have := congrArg Multiset.card h1
          rw [Multiset.card_zero, Multiset.card_add] at this
          exact hne (Multiset.card_eq_zero.mp (by omega))
        obtain ⟨pre', a, mid, hp, ha, hmid⟩ :=
          ih ho (fun y hy => hb y (mem_append_left _ hy)) hne₁
        refine ⟨pre', a, mid ++ [x], by rw [hp]; simp, ha, ?_⟩
        intro y hy
        rcases mem_append.mp hy with h2 | h2
        · exact hmid y h2
        · rw [mem_singleton] at h2
          rw [h2]
          exact ht
      · -- anything else is said only when nothing is owed, and leaves nothing owed
        have hm : messageMarks x = [.other] := by
          unfold messageMarks
          cases hr : x.role with
          | assistant => exact absurd hr hx
          | tool => exact absurd hr ht
          | _ => rfl
        rw [marks_cons, hm] at h
        simp only [marks, flatMap_nil, List.append_nil, scan_cons, scan_nil, id, Owed.next] at h
        split_ifs at h
        · injection h with h
          rw [← h] at hne
          exact absurd rfl hne
        · exact absurd h (by simp)

/-- **A closed list of messages is well paired.** -/
theorem wellPaired_of_closed (hf : Folded ms) (hc : Closed id (marks ms)) : WellPaired ms := by
  obtain ⟨b, hb⟩ := hc
  have hsplit : ∀ pre m post, ms = pre ++ m :: post → ∃ o, scan id .nothing (marks pre) = some o ∧
      scan id o (messageMarks m ++ marks post) = some ⟨0, b⟩ := by
    intro pre m post hms
    rw [hms, marks_append, scan_append, marks_cons] at hb
    cases ho : scan id .nothing (marks pre) with
    | none =>
      rw [ho] at hb
      exact absurd hb (by simp)
    | some o =>
      rw [ho, Option.bind_some] at hb
      exact ⟨o, rfl, hb⟩
  refine ⟨?_, ?_⟩
  · intro pre m post hms hr
    obtain ⟨o, ho, hm⟩ := hsplit pre m post hms
    have hmem : ∀ x ∈ pre ++ m :: post, x.contents ≠ [] := by
      rw [← hms]
      exact hf.blocks
    have hbm : m.contents ≠ [] := hmem m (by simp)
    have hchain : (pre ++ m :: post).IsChain (fun a b => a.role = .assistant → b.role ≠ .assistant) := by
      rw [← hms]
      exact hf.apart
    -- the turn starts here, since no Assistant message precedes
    have hask : o.asking = false := by
      rcases eq_nil_or_concat pre with hp | ⟨pre', a, hp⟩
      · rw [hp] at ho
        injection ho with ho
        rw [← ho]
        rfl
      · rw [concat_eq_append] at hp
        rw [hp, append_assoc, singleton_append, isChain_append] at hchain
        have ha : a.role ≠ .assistant := fun h =>
          (isChain_cons_cons.mp hchain.2.1).1 h hr
        rw [hp, marks_append, scan_append] at ho
        cases ho' : scan id .nothing (marks pre') with
        | none =>
          rw [ho'] at ho
          exact absurd ho (by simp)
        | some o₁ =>
          rw [ho', Option.bind_some, marks_cons] at ho
          simp only [marks, flatMap_nil, List.append_nil] at ho
          exact asking_of_scan ha (hmem a (by simp [hp])) ho
    have hz : o.calls = 0 := calls_zero_of_scan (by rw [hr]; simp) hbm (fun _ => hask) hm
    rw [scan_append_some (scan_assistant hr hbm hz)] at hm
    -- the Tool messages behind it, and what follows them
    have hpost : post = toolRun post ++ post.dropWhile (fun m => m.role = .tool) :=
      (takeWhile_append_dropWhile).symm
    have htool : ∀ x ∈ toolRun post, x.role = .tool := fun x hx => by
      simpa using mem_takeWhile_imp hx
    have hbpost : ∀ x ∈ post, x.contents ≠ [] := fun x hx => hmem x (by simp [hx])
    have hbtool : ∀ x ∈ toolRun post, x.contents ≠ [] := fun x hx =>
      hbpost x ((List.takeWhile_prefix _).subset hx)
    rw [hpost, marks_append, scan_append] at hm
    cases ho₁ : scan id ⟨(m.calls : Multiset Bytes), true⟩ (marks (toolRun post)) with
    | none =>
      rw [ho₁] at hm
      exact absurd hm (by simp)
    | some o₁ =>
      rw [ho₁, Option.bind_some] at hm
      obtain ⟨hcalls, hoff⟩ := scan_toolRun htool hbtool ho₁
      have hzero : o₁.calls = 0 := by
        cases hrest : post.dropWhile (fun m => m.role = .tool) with
        | nil =>
          rw [hrest] at hm
          injection hm with hm
          rw [hm]
        | cons r rest =>
          have hrt : r.role ≠ .tool := by
            have := head_dropWhile_not (fun m : Message => decide (m.role = .tool))
              (by rw [hrest]; exact cons_ne_nil _ _)
            simpa [hrest] using this
          rw [hrest, marks_cons] at hm
          have hmemr : r ∈ post := by
            rw [hpost, hrest]
            simp
          refine calls_zero_of_scan hrt (hbpost r hmemr) ?_ hm
          intro hra
          refine hoff ?_
          intro hnil
          rw [hnil, hrest, nil_append] at hpost
          rw [hpost, isChain_append] at hchain
          exact (isChain_cons_cons.mp hchain.2.1).1 hr hra
      rw [hzero, Multiset.add_zero] at hcalls
      exact Multiset.coe_eq_coe.mp hcalls
  · intro pre m post hms hne
    have hmem : m ∈ ms := by
      rw [hms]
      simp
    have hr : m.role = .tool := by
      by_contra hr
      exact hne (hf.answers m hmem hr)
    obtain ⟨o, ho, hm⟩ := hsplit pre m post hms
    refine ⟨hr, turn_behind ho (fun x hx => hf.blocks x (by rw [hms]; simp [hx])) ?_⟩
    intro hz
    rw [scan_append] at hm
    cases ho₁ : scan id o (messageMarks m) with
    | none =>
      rw [ho₁] at hm
      exact absurd hm (by simp)
    | some o₁ =>
      rw [messageMarks, hr] at ho₁
      obtain ⟨h1, -⟩ := scan_answers ho₁
      rw [hz] at h1
      have hcard := congrArg Multiset.card h1
      rw [Multiset.card_zero, Multiset.card_add, Multiset.coe_card] at hcard
      exact hne (length_eq_zero_iff.mp (by unfold Message.answers; omega))

end

/-- **The view of a closed sequence of entries is well paired.** -/
theorem wellPaired_view {es : List Entry} (h : Closed entryMark es) : WellPaired (view es) := by
  refine wellPaired_of_closed (view_folded es) ?_
  obtain ⟨b, hb⟩ := h
  refine ⟨b, ?_⟩
  rw [marks_view, scan_map]
  exact hb

end Libx.Agent
