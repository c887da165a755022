import Mathlib

/-!
# Libx.Ice.Candidate — addresses, candidates and candidate pairs

`struct sockaddr`, `xIceCandidate`, `xIcePair` and the priorities.  A pair's two pointers go into arrays
that only grow at their end, so they are indices here.
-/

namespace Libx.Ice

/-- `XICE_MAX_CANDIDATES`. -/
def maxCandidates : ℕ := 512

/-- `XICE_MAX_PAIRS`. -/
def maxPairs : ℕ := 1536

/-- An address family; `unspec` is any other than the two. -/
inductive Family
  | inet | inet6 | unspec
  deriving DecidableEq, Repr

/-- `struct sockaddr`; `unspec` is one that was only zeroed. -/
inductive Addr
  | v4 (ip port : ℕ)
  | v6 (ip port : ℕ)
  | unspec
  deriving DecidableEq, Repr, Inhabited

/-- `sa_family`. -/
def Addr.family : Addr → Family
  | .v4 .. => .inet
  | .v6 .. => .inet6
  | .unspec => .unspec

/-- `xSockaddrPort`. -/
def Addr.port : Addr → ℕ
  | .v4 _ port => port
  | .v6 _ port => port
  | .unspec => 0

/-- `sockaddr_set_port`. -/
def Addr.setPort (port : ℕ) : Addr → Addr
  | .v4 ip _ => .v4 ip port
  | .v6 ip _ => .v6 ip port
  | .unspec => .unspec

/-- `sockaddr_equal`. -/
def sockaddrEqual : Addr → Addr → Bool
  | .v4 ip port, .v4 ip' port' => port = port' && ip = ip'
  | .v6 ip port, .v6 ip' port' => port = port' && ip = ip'
  | _, _ => false

/-- `sockaddr_ip_equal`. -/
def sockaddrIpEqual : Addr → Addr → Bool
  | .v4 ip _, .v4 ip' _ => ip = ip'
  | .v6 ip _, .v6 ip' _ => ip = ip'
  | _, _ => false

theorem sockaddrEqual_iff {a b : Addr} : sockaddrEqual a b = true ↔ a = b ∧ a ≠ .unspec := by
  cases a with
  | unspec => simp [sockaddrEqual]
  | v4 ip port =>
    cases b with
    | v4 ip' port' =>
      simp only [sockaddrEqual, Bool.and_eq_true, decide_eq_true_eq, Addr.v4.injEq]
      constructor
      · rintro ⟨rfl, rfl⟩
        exact ⟨⟨rfl, rfl⟩, by simp⟩
      · rintro ⟨⟨rfl, rfl⟩, -⟩
        exact ⟨rfl, rfl⟩
    | v6 ip' port' | unspec => simp [sockaddrEqual]
  | v6 ip port =>
    cases b with
    | v4 ip' port' | unspec => simp [sockaddrEqual]
    | v6 ip' port' =>
      simp only [sockaddrEqual, Bool.and_eq_true, decide_eq_true_eq, Addr.v6.injEq]
      constructor
      · rintro ⟨rfl, rfl⟩
        exact ⟨⟨rfl, rfl⟩, by simp⟩
      · rintro ⟨⟨rfl, rfl⟩, -⟩
        exact ⟨rfl, rfl⟩

/-- A socket of a host candidate. -/
abbrev Sock := ℕ

/-- `xIceCandidateType`. -/
inductive CandidateType
  | host | srflx | prflx | relay
  deriving DecidableEq, Repr

/-- `xIceCandidate`; a remote candidate has no socket. -/
structure Candidate where
  type : CandidateType
  componentId : ℤ := 1
  priority : ℕ
  addr : Addr
  sock : Option Sock := none
  deriving DecidableEq, Repr

instance : Inhabited Candidate := ⟨{ type := .host, priority := 0, addr := .unspec }⟩

/-- `xIceCandidateTypePref`. -/
def CandidateType.pref : CandidateType → ℕ
  | .host => 126
  | .srflx => 100
  | .prflx => 110
  | .relay => 5

/-- `xIceCandidatePriority`, for component 1. -/
def candidatePriority (type : CandidateType) (localPref : ℕ) : ℕ :=
  (type.pref <<< 24) ||| (localPref <<< 8) ||| 255

/-- `xIcePairState`. -/
inductive PairState
  | frozen | waiting | inProgress | succeeded | failed
  deriving DecidableEq, Repr

/-- `xIcePair`; the candidates are given by their places. -/
structure Pair where
  localIx : ℕ
  remoteIx : ℕ
  priority : ℕ := 0
  state : PairState := .frozen
  nominated : Bool := false
  deriving DecidableEq, Repr

def Pair.ends (p : Pair) : ℕ × ℕ := (p.localIx, p.remoteIx)

def Pair.pending (p : Pair) : Bool := p.state = .frozen || p.state = .waiting

/-- `xIcePairPriority`. -/
def pairPriority (g d : ℕ) : ℕ :=
  (2 ^ 32 * min g d + 2 * max g d + if g > d then 1 else 0) % 2 ^ 64

/-- `xIcePairSort`: the pairs by descending priority.  The order among equal ones is the C library's. -/
structure PairSort where
  sort : List Pair → List Pair
  perm : ∀ ps, (sort ps).Perm ps
  sorted : ∀ ps, (sort ps).Pairwise (fun p q => q.priority ≤ p.priority)

/-- A sort that keeps the order among equal ones. -/
def PairSort.stable : PairSort where
  sort := List.insertionSort (fun p q => q.priority ≤ p.priority)
  perm := List.perm_insertionSort _
  sorted ps := by
    have htotal : Std.Total (fun p q : Pair => q.priority ≤ p.priority) := ⟨fun p q => le_total _ _⟩
    have htrans : IsTrans Pair (fun p q => q.priority ≤ p.priority) := ⟨fun p q r h1 h2 => h2.trans h1⟩
    exact List.pairwise_insertionSort _ ps

end Libx.Ice
