import Mathlib

/-!
# Libx.Agent.Message — messages, turn entries and the codes of the agent library

The public message (`xAgentMessage`: a role and content blocks) and the flat turn entry
(`struct xAgentSessionMsg_`) that sessions and queries store.  An entry's kind fixes its role
except for text, so `Entry` carries a role for text alone.  A C string is the bytes before its
terminator; a `(ptr, len)` pair is the bytes it denotes; `created_at_ms` is left out.
-/

namespace Libx.Agent

abbrev Bytes := List UInt8

def bytes (s : String) : Bytes := s.toList.map (fun c => UInt8.ofNat c.toNat)

/-- `%zu` / `%d` of a nonnegative number. -/
def decimal (n : ℕ) : Bytes := bytes (toString n)

/-- `xErrno`. -/
inductive Errno
  | ok | unknown | invalidArg | noMemory | invalidState | sysError | notFound | alreadyExists
  | cancelled | notSupported | dnsNotFound | dnsTempFail | dnsError | timeout | again | busy
  | pending | promptTooLong
  deriving DecidableEq, Repr

/-- The number of an `xErrno`, as `%d` prints it. -/
def Errno.code : Errno → ℕ
  | .ok => 0 | .unknown => 1 | .invalidArg => 2 | .noMemory => 3 | .invalidState => 4
  | .sysError => 5 | .notFound => 6 | .alreadyExists => 7 | .cancelled => 8 | .notSupported => 9
  | .dnsNotFound => 10 | .dnsTempFail => 11 | .dnsError => 12 | .timeout => 13 | .again => 14
  | .busy => 15 | .pending => 16 | .promptTooLong => 17

/-- `xAgentRole`. -/
inductive Role
  | system | user | assistant | tool | summary
  deriving DecidableEq, Repr

/-- `xAgentContent`, by `xAgentContentType`. -/
inductive Content
  | text (text : Bytes)
  | thinking (text : Bytes)
  | toolUse (id name args : Bytes)
  | toolResult (id output : Bytes) (isError : Bool)
  deriving DecidableEq, Repr

/-- `xAgentMessage`. -/
structure Message where
  role : Role
  contents : List Content
  deriving DecidableEq, Repr

/-- `struct xAgentSessionMsg_`, by `xAgentSessionEntryKind_`. -/
inductive Entry
  | text (role : Role) (text : Bytes)
  | thinking (text : Bytes)
  | toolUse (id name args : Bytes)
  | toolResult (id output : Bytes) (isError : Bool)
  deriving DecidableEq, Repr

/-- The `role` field of an entry. -/
def Entry.role : Entry → Role
  | .text r _ => r
  | .thinking _ => .assistant
  | .toolUse _ _ _ => .assistant
  | .toolResult _ _ _ => .tool

/-- The content block an entry becomes on the wire. -/
def Entry.content : Entry → Content
  | .text _ t => .text t
  | .thinking t => .thinking t
  | .toolUse id name args => .toolUse id name args
  | .toolResult id output isError => .toolResult id output isError

/-- `xAgentUsage`; `-1` is "unknown". -/
structure Usage where
  promptTokens : ℤ
  completionTokens : ℤ
  totalTokens : ℤ
  deriving DecidableEq, Repr

/-- `xAgentProviderStopReason`. -/
inductive ProviderStop
  | endTurn | toolUse | maxTokens | stopSeq | promptLong | error | cancelled
  deriving DecidableEq, Repr

/-- `xAgentDoneReason`. -/
inductive DoneReason
  | completed | stopped | maxTurns | promptTooLong | modelError | toolError | aborted
  deriving DecidableEq, Repr

/-- `xAgentToolDecision`. -/
inductive Decision
  | allow | reject
  deriving DecidableEq, Repr

/-! ### The text of a message -/

/-- All text blocks of `cs`, concatenated. -/
def textOf : List Content → Bytes
  | [] => []
  | .text t :: cs => t ++ textOf cs
  | _ :: cs => textOf cs

end Libx.Agent
