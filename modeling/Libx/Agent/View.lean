import Libx.Agent.Message

/-!
# Libx.Agent.View — from entries to a submit view and back

`view_build` and `sess_input_view_build` fold each maximal run of Assistant entries into one
message and map every other entry to a message of its own; `turn_buf_append_message` takes a
message apart again.
-/

namespace Libx.Agent

open List

/-- One step of the fold: an Assistant entry joins an Assistant message that starts right after
it, every other entry stands alone. -/
def viewCons (e : Entry) : List Message → List Message
  | [] => [⟨e.role, [e.content]⟩]
  | m :: ms =>
    if e.role = .assistant ∧ m.role = .assistant then ⟨.assistant, e.content :: m.contents⟩ :: ms
    else ⟨e.role, [e.content]⟩ :: m :: ms

def view (es : List Entry) : List Message := es.foldr viewCons []

/-- `view_build`: `XAGENT_ENTRY` walks `inputs` and then `produced`; an empty sequence is refused. -/
def viewBuild (inputs produced : List Entry) : Except Errno (List Message) :=
  if inputs ++ produced = [] then .error .invalidArg else .ok (view (inputs ++ produced))

/-- The blocks an Assistant message is taken apart into (`turn_buf_append_message`, first
branch). -/
def assistantEntry : Content → Option Entry
  | .text t => some (.text .assistant t)
  | .thinking t => some (.thinking t)
  | .toolUse id name args => some (.toolUse id name args)
  | .toolResult _ _ _ => none

/-- The blocks a Tool message is taken apart into: only results survive. -/
def toolEntry : Content → Option Entry
  | .toolResult id output isError => some (.toolResult id output isError)
  | _ => none

/-- `turn_buf_append_message`: the entries one message contributes. -/
def turnBufAppendMessage (m : Message) : List Entry :=
  match m.role with
  | .assistant => m.contents.filterMap assistantEntry
  | .tool => m.contents.filterMap toolEntry
  | r => [.text r (textOf m.contents)]

/-- `xAgentQueryRun`'s copy loop. -/
def turnBufAppend (ms : List Message) : List Entry := ms.flatMap turnBufAppendMessage

/-! ### The fold's two branches -/

@[simp] theorem view_nil : view [] = [] := rfl

@[simp] theorem view_cons (e : Entry) (es : List Entry) : view (e :: es) = viewCons e (view es) := rfl

theorem viewCons_other {e : Entry} (ms : List Message) (h : e.role ≠ .assistant) :
    viewCons e ms = ⟨e.role, [e.content]⟩ :: ms := by
  cases ms with
  | nil => rfl
  | cons m ms => rw [viewCons, if_neg (fun hc => h hc.1)]

theorem viewCons_assistant {e : Entry} {cs : List Content} (ms : List Message)
    (h : e.role = .assistant) :
    viewCons e (⟨.assistant, cs⟩ :: ms) = ⟨.assistant, e.content :: cs⟩ :: ms := by
  rw [viewCons, if_pos ⟨h, rfl⟩]

/-- **Second branch of the loop**: any other entry is a message of its own. -/
theorem view_cons_other {e : Entry} (es : List Entry) (h : e.role ≠ .assistant) :
    view (e :: es) = ⟨e.role, [e.content]⟩ :: view es := viewCons_other _ h

/-- **First branch of the loop**: a maximal run of Assistant entries is one message. -/
theorem view_assistant_run {run rest : List Entry} (hne : run ≠ [])
    (hrun : ∀ e ∈ run, e.role = .assistant)
    (hmax : ∀ e ∈ rest.head?, e.role ≠ .assistant) :
    view (run ++ rest) = ⟨.assistant, run.map Entry.content⟩ :: view rest := by
  induction run with
  | nil => exact absurd rfl hne
  | cons e run ih =>
    have he : e.role = .assistant := hrun e mem_cons_self
    by_cases hr : run = []
    · subst hr
      -- the run ends here: whatever follows starts a message of its own
      cases rest with
      | nil => simp [viewCons, he]
      | cons r rest =>
        have hra : r.role ≠ .assistant := hmax r rfl
        rw [cons_append, nil_append, view_cons e, view_cons_other rest hra, viewCons,
          if_neg (fun hc => hra hc.2), he]
        rfl
    · rw [cons_append, view_cons, ih hr (fun x hx => hrun x (mem_cons_of_mem _ hx)),
        viewCons_assistant _ he]
      rfl

/-! ### Taking a view apart -/

/-- What survives `turn_buf_append_message`: everything but the text of a Tool message. -/
def Entry.kept : Entry → Bool
  | .text .tool _ => false
  | _ => true

theorem turnBufAppend_cons (m : Message) (ms : List Message) :
    turnBufAppend (m :: ms) = turnBufAppendMessage m ++ turnBufAppend ms := rfl

theorem append_single (e : Entry) :
    turnBufAppendMessage ⟨e.role, [e.content]⟩ = [e].filter Entry.kept := by
  cases e with
  | text r t =>
    cases r <;> simp [turnBufAppendMessage, Entry.role, Entry.content, assistantEntry, toolEntry,
      textOf, Entry.kept, List.filter]
  | thinking t | toolUse id name args | toolResult id output isError => rfl

theorem append_viewCons (e : Entry) (ms : List Message) :
    turnBufAppend (viewCons e ms) = [e].filter Entry.kept ++ turnBufAppend ms := by
  cases ms with
  | nil => rw [viewCons, turnBufAppend_cons, append_single]
  | cons m ms =>
    rw [viewCons]
    split_ifs with hc
    · obtain ⟨he, hm⟩ := hc
      have hjoin : turnBufAppendMessage ⟨.assistant, e.content :: m.contents⟩ =
          [e].filter Entry.kept ++ turnBufAppendMessage m := by
        unfold turnBufAppendMessage
        rw [hm]
        cases e with
        | text r t => simp only [Entry.role] at he; subst he; rfl
        | thinking t | toolUse id name args => rfl
        | toolResult id output isError => simp [Entry.role] at he
      rw [turnBufAppend_cons, turnBufAppend_cons, hjoin, append_assoc]
    · rw [turnBufAppend_cons, append_single]

/-- **Round trip**: the entries of a view are the entries it was built from, less Tool text. -/
theorem append_view (es : List Entry) : turnBufAppend (view es) = es.filter Entry.kept := by
  induction es with
  | nil => rfl
  | cons e es ih => rw [view_cons, append_viewCons, ih, ← filter_append, singleton_append]

end Libx.Agent
