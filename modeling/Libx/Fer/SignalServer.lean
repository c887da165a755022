import Libx.Core.Run
import Libx.Core.Table
import Libx.Agent.Jsonl

/-!
# Libx.Fer.SignalServer — the signalling server

xfer_signal_server.c: a sender creates a session and gets its code, a receiver joins with the code, and the server relays
between the two.
-/

namespace Libx.Fer

open Libx.Core (Run Table)
open Libx.Agent (Bytes CStr cstr)
open List Option

def text (s : String) : CStr := cstr (s.toList.map fun c => c.toNat.toUInt8)

/-- What `on_ws_message` looks up in a message: the strings under `type` and `code`. -/
structure SignalMessage where
  type : Option CStr := none
  code : Option CStr := none

/-- `xSignalSession_` in use. -/
structure Session (Conn : Type) where
  code : CStr
  sender : Conn
  receiver : Option Conn := none

/-- What is sent: the strings of an object, or a message as it came. -/
inductive Reply
  | object (fields : List (CStr × CStr))
  | relayed (payload : Bytes)
  deriving DecidableEq

/-- A pair for a code: who created it and who joined. -/
abbrev Registry (Conn : Type) := CStr → Option (Conn × Option Conn)

namespace Registry

variable {Conn : Type} [DecidableEq Conn]

def Partners (a b : Conn) (reg : Registry Conn) : Prop :=
  ∃ code c d, reg code = some (c, some d) ∧ (a = c ∧ b = d ∨ a = d ∧ b = c)

def leave (conn : Conn) (reg : Registry Conn) : Registry Conn :=
  fun code => (reg code).filter fun x => x.1 ≠ conn ∧ x.2 ≠ some conn

end Registry

/-- `SIGNAL_MAX_SESSIONS`. -/
def signalMaxSessions : ℕ := 256

/-- `xSignalServer_` with the connections that are open, what was sent, and, for the statements only, who created and who
joined which code. -/
structure Signal (Conn : Type) where
  sessions : Table (Session Conn) signalMaxSessions := .empty
  live : List Conn := []
  registry : Registry Conn := fun _ => none
  sent : List (Conn × Reply) := []

/-- A connection is accepted, sends a message, or is closed.  For a message: what `rand` returns, and whether the first
and the second message that is sent for it fail, which closes the connection they go to. -/
inductive Signal.Input (Conn : Type)
  | accept (conn : Conn)
  | message (conn : Conn) (payload : Bytes) (rand : ℕ → ℕ) (fails fails' : Bool)
  | close (conn : Conn)

def charset : Bytes := (text "abcdefghijklmnopqrstuvwxyz0123456789").bytes

/-- `generate_code`, the `k`th time. -/
def generateCode (rand : ℕ → ℕ) (k : ℕ) : CStr :=
  cstr ((List.range 6).map fun i => charset.getD (rand (6 * k + i) % charset.length) 0)

namespace Session

variable {Conn : Type}

def members (s : Session Conn) : List Conn := s.sender :: s.receiver.toList

variable [DecidableEq Conn]

def has (conn : Conn) (s : Session Conn) : Bool := s.sender = conn ∨ s.receiver = some conn

/-- `get_peer`. -/
def getPeer (conn : Conn) (s : Session Conn) : Option Conn :=
  if s.sender = conn then s.receiver else if s.receiver = some conn then some s.sender else none

end Session

namespace Signal

variable {Conn : Type} [DecidableEq Conn]

/-- `find_session_by_code`. -/
def findByCode (code : CStr) (x : Signal Conn) : Option ℕ := x.sessions.find fun s => s.code = code

/-- `find_session_by_conn`. -/
def findByConn (conn : Conn) (x : Signal Conn) : Option ℕ := x.sessions.find (Session.has conn)

/-- `on_ws_close`. -/
def onClose (conn : Conn) (x : Signal Conn) : Signal Conn :=
  let x := { x with live := x.live.filter (· ≠ conn), registry := x.registry.leave conn }
  match x.findByConn conn with
  | none => x
  | some i => { x with sessions := x.sessions.set i none }

/-- `xWsSend`. -/
def send (conn : Conn) (r : Reply) (fails : Bool) (x : Signal Conn) : Signal Conn :=
  let x := { x with sent := x.sent ++ [(conn, r)] }
  if fails ∧ conn ∈ x.live then x.onClose conn else x

/-- The loop around `generate_code`, with `n` attempts left after this one. -/
def pickCode (rand : ℕ → ℕ) (x : Signal Conn) : ℕ → ℕ → CStr
  | 0, k => generateCode rand k
  | n + 1, k =>
    if (x.findByCode (generateCode rand k)).isSome then pickCode rand x n (k + 1) else generateCode rand k

/-- Of `create`. -/
def create (conn : Conn) (rand : ℕ → ℕ) (fails : Bool) (x : Signal Conn) : Signal Conn :=
  let code := x.pickCode rand 99 0
  match x.sessions.insert { code, sender := conn } with
  | none => x
  | some sessions =>
    send conn (.object [(text "type", text "code"), (text "code", code)]) fails
      { x with sessions, registry := Function.update x.registry code (some (conn, none)) }

def refusal (message : String) : Reply := .object [(text "type", text "error"), (text "message", text message)]

/-- Of `join`. -/
def join (conn : Conn) (code : CStr) (fails fails' : Bool) (x : Signal Conn) : Signal Conn :=
  match x.findByCode code with
  | none => x.send conn (refusal "session not found") fails
  | some i =>
    match x.sessions.get i with
    | none => x
    | some s =>
      if s.receiver.isSome then x.send conn (refusal "session already has a receiver") fails
      else
        let x := { x with
          sessions := x.sessions.set i (some { s with receiver := some conn })
          registry := Function.update x.registry code ((x.registry code).map fun (c : Conn × Option Conn) => (c.1, some conn)) }
        let x := x.send conn (.object [(text "type", text "joined")]) fails
        -- the first message may have closed the connection, and with it the session
        match x.sessions.get i with
        | none => x
        | some s => x.send s.sender (.object [(text "type", text "peer_joined")]) fails'

/-- Of `offer`, `answer` and `candidate`. -/
def relay (conn : Conn) (payload : Bytes) (fails : Bool) (x : Signal Conn) : Signal Conn :=
  match x.findByConn conn with
  | none => x
  | some i =>
    match (x.sessions.get i).bind (Session.getPeer conn) with
    | none => x
    | some peer => x.send peer (.relayed payload) fails

def relayTypes : List CStr := [text "offer", text "answer", text "candidate"]

variable (parse : Bytes → Option SignalMessage)

/-- `on_ws_message`; `parse` is the JSON parser. -/
def onMessage (conn : Conn) (payload : Bytes) (rand : ℕ → ℕ) (fails fails' : Bool) (x : Signal Conn) : Signal Conn :=
  match parse payload with
  | none => x
  | some m =>
    match m.type with
    | none => x
    | some type =>
      if type = text "create" then x.create conn rand fails
      else if type = text "join" then
        match m.code with
        | none => x
        | some code => x.join conn code fails fails'
      else if type = text "heartbeat" then x.send conn (.object [(text "type", text "heartbeat")]) fails
      else if type ∈ relayTypes then x.relay conn payload fails
      else x

/-- A step: a connection is accepted where none of its address is open; messages come from open ones; an open one is
closed. -/
def step (x : Signal Conn) : Input Conn → Option (Signal Conn)
  | .accept conn => if conn ∈ x.live then none else some { x with live := conn :: x.live }
  | .message conn payload rand fails fails' =>
    if conn ∈ x.live then some (x.onMessage parse conn payload rand fails fails') else none
  | .close conn => if conn ∈ x.live then some (x.onClose conn) else none

/-- A session is created or joined by a connection that is in none, and one of a hundred codes is not in use. -/
def Sound (x : Signal Conn) : Input Conn → Prop
  | .message conn payload rand _ _ =>
    ∀ m, parse payload = some m →
      (m.type = some (text "create") →
        signalMaxSessions ≤ x.sessions.used.length ∨
          x.findByConn conn = none ∧ ∃ k < 100, x.findByCode (generateCode rand k) = none) ∧
      (m.type = some (text "join") → ∀ code, m.code = some code →
        (∃ s ∈ x.sessions.used, s.code = code ∧ s.receiver = none) → x.findByConn conn = none)
  | _ => True

/-- The codes of the sessions differ; there is a session for a code if and only if one was created and maybe joined under
it; what a connection has relayed goes to the one it shares a session with and to no other; and a connection that is not
open is in no session. -/
structure Relays (x : Signal Conn) : Prop where
  codes : (x.sessions.used.map Session.code).Nodup
  shared : ∀ code a b, x.registry code = some (a, b) ↔ ⟨code, a, b⟩ ∈ x.sessions.used
  relay : ∀ conn ∈ x.live, ∀ payload m type, parse payload = some m → m.type = some type → type ∈ relayTypes →
    ∀ rand fails fails', ∃ l, (x.onMessage parse conn payload rand fails fails').sent = x.sent ++ l ∧ l.length ≤ 1 ∧
      ∀ peer r, (peer, r) ∈ l ↔ r = .relayed payload ∧ x.registry.Partners conn peer
  closed : ∀ s ∈ x.sessions.used, ∀ conn ∈ s.members, conn ∈ x.live

end Signal

/-! ### Sessions and codes -/

namespace Session

variable {Conn : Type} [DecidableEq Conn] {s : Session Conn} {conn peer : Conn}

theorem has_iff : s.has conn = true ↔ conn ∈ s.members := by
  rw [has, decide_eq_true_eq, members, mem_cons, mem_toList, eq_comm]

theorem getPeer_eq_some (hnd : s.members.Nodup) (h : conn ∈ s.members) :
    s.getPeer conn = some peer ↔
      ∃ d, s.receiver = some d ∧ (conn = s.sender ∧ peer = d ∨ conn = d ∧ peer = s.sender) := by
  unfold getPeer
  unfold members at hnd h
  cases hr : s.receiver with
  | none =>
    rw [hr] at h
    obtain rfl := mem_singleton.mp h
    rw [if_pos rfl]
    simp only [reduceCtorEq, false_and, exists_false]
  | some d =>
    rw [hr] at hnd h
    have hne : s.sender ≠ d := fun he => (nodup_cons.mp hnd).1 (mem_singleton.mpr he)
    have hd : (∃ d', some d = some d' ∧ (conn = s.sender ∧ peer = d' ∨ conn = d' ∧ peer = s.sender)) ↔
        (conn = s.sender ∧ peer = d ∨ conn = d ∧ peer = s.sender) :=
      ⟨fun ⟨d', he, h'⟩ => some.inj he ▸ h', fun h' => ⟨d, rfl, h'⟩⟩
    rw [hd]
    rcases mem_cons.mp h with rfl | h
    · rw [if_pos rfl, some_inj, eq_comm]
      simp only [true_and, hne, false_and, or_false]
    · obtain rfl := mem_singleton.mp h
      rw [if_neg hne, if_pos rfl, some_inj, eq_comm]
      simp only [hne.symm, false_and, true_and, false_or]

end Session

namespace Registry

variable {Conn : Type} [DecidableEq Conn] {reg : Registry Conn} {code : CStr} {a conn : Conn} {b : Option Conn}

theorem leave_eq_some : reg.leave conn code = some (a, b) ↔
    reg code = some (a, b) ∧ (⟨code, a, b⟩ : Session Conn).has conn = false := by
  rw [leave, filter_eq_some_iff, Session.has]
  simp only [ne_eq, Bool.decide_and, decide_not, Bool.and_eq_true, Bool.not_eq_eq_eq_not, Bool.not_true,
    decide_eq_false_iff_not, not_or]

end Registry

namespace Signal

variable {Conn : Type} {x : Signal Conn} {conn : Conn} {code : CStr} {rand : ℕ → ℕ}

theorem findByCode_eq_none : x.findByCode code = none ↔ ∀ s ∈ x.sessions.used, s.code ≠ code := by
  rw [findByCode, Table.find_eq_none]
  simp only [decide_eq_false_iff_not, ne_eq]

theorem pickCode_fresh {n k j : ℕ} (hj : j ≤ n) (h : x.findByCode (generateCode rand (k + j)) = none) :
    x.findByCode (x.pickCode rand n k) = none := by
  induction n generalizing k j with
  | zero =>
    obtain rfl := Nat.le_zero.mp hj
    exact h
  | succ n ih =>
    rw [pickCode]
    split_ifs with hused
    · cases j with
      | zero =>
        rw [Nat.add_zero] at h
        rw [h] at hused
        cases hused
      | succ j => exact ih (Nat.le_of_succ_le_succ hj) (by rw [Nat.add_right_comm]; exact h)
    · exact not_isSome_iff_eq_none.mp hused

variable [DecidableEq Conn]

theorem findByConn_eq_none : x.findByConn conn = none ↔ ∀ s ∈ x.sessions.used, conn ∉ s.members := by
  rw [findByConn, Table.find_eq_none]
  simp only [← Session.has_iff, Bool.not_eq_true]

/-! ### The invariant -/

/-- The codes differ, no connection is twice in the sessions, all of theirs are open, and the table is the registry. -/
structure Paired (x : Signal Conn) : Prop where
  codes : (x.sessions.used.map Session.code).Nodup
  members : (x.sessions.used.flatMap Session.members).Nodup
  live : ∀ s ∈ x.sessions.used, ∀ conn ∈ s.members, conn ∈ x.live
  shared : ∀ code a b, x.registry code = some (a, b) ↔ ⟨code, a, b⟩ ∈ x.sessions.used

theorem sent_onClose (conn : Conn) (x : Signal Conn) : (x.onClose conn).sent = x.sent := by
  unfold onClose
  dsimp only
  cases findByConn conn _ <;> rfl

theorem sent_send (conn : Conn) (r : Reply) (fails : Bool) (x : Signal Conn) :
    (x.send conn r fails).sent = x.sent ++ [(conn, r)] := by
  unfold send
  dsimp only
  split_ifs
  · exact sent_onClose conn _
  · rfl

theorem perm_onClose (hp : x.Paired) (conn : Conn) :
    (x.onClose conn).sessions.used.Perm (x.sessions.used.filter fun s => ¬ s.has conn) := by
  unfold onClose
  unfold findByConn
  dsimp only
  cases hfind : x.sessions.find (Session.has conn) with
  | none =>
    have hall := Table.find_eq_none.mp hfind
    have hself : x.sessions.used.filter (fun s => ¬ s.has conn) = x.sessions.used := by
      refine filter_eq_self.mpr (fun s hs => ?_)
      rw [hall s hs]
      rfl
    rw [hself]
  | some i =>
    obtain ⟨s, rest, hs, -, hperm, hset⟩ := Table.exists_of_find hfind
    have hnd : ((s :: rest).flatMap Session.members).Nodup := (hperm.flatMap_right _).nodup_iff.mp hp.members
    rw [flatMap_cons, nodup_append] at hnd
    have hrest : ∀ t ∈ rest, t.has conn = false := by
      intro t ht
      rw [Bool.eq_false_iff]
      intro hhas
      exact hnd.2.2 conn (Session.has_iff.mp hs) conn (mem_flatMap.mpr ⟨t, ht, Session.has_iff.mp hhas⟩) rfl
    refine ((hset none).2.trans ?_).trans (hperm.filter _).symm
    rw [filter_cons_of_neg (by rw [hs]; decide), filter_eq_self.mpr]
    · exact .refl _
    · intro t ht
      rw [hrest t ht]
      rfl

theorem live_onClose (conn : Conn) (x : Signal Conn) : (x.onClose conn).live = x.live.filter (· ≠ conn) := by
  unfold onClose
  dsimp only
  cases findByConn conn _ <;> rfl

theorem registry_onClose (conn : Conn) (x : Signal Conn) : (x.onClose conn).registry = x.registry.leave conn := by
  unfold onClose
  dsimp only
  cases findByConn conn _ <;> rfl

theorem paired_onClose (hp : x.Paired) (conn : Conn) : (x.onClose conn).Paired := by
  have hperm := perm_onClose hp conn
  have hmem (s : Session Conn) :
      s ∈ (x.onClose conn).sessions.used ↔ s ∈ x.sessions.used ∧ s.has conn = false := by
    rw [hperm.mem_iff, mem_filter, decide_eq_true_eq, Bool.not_eq_true]
  have hsub := filter_sublist (l := x.sessions.used) (p := fun s => ¬ s.has conn)
  refine ⟨?_, ?_, fun s hs c hc => ?_, fun code a b => ?_⟩
  · exact (hperm.map _).nodup_iff.mpr (hp.codes.sublist (hsub.map _))
  · exact (hperm.flatMap_right _).nodup_iff.mpr (hp.members.sublist (hsub.flatMap _))
  · obtain ⟨hs, hno⟩ := (hmem s).mp hs
    rw [live_onClose, mem_filter, decide_eq_true_eq]
    refine ⟨hp.live s hs c hc, ?_⟩
    rintro rfl
    rw [Session.has_iff.mpr hc] at hno
    cases hno
  · rw [registry_onClose, hmem, Registry.leave_eq_some, hp.shared]

theorem paired_send (hp : x.Paired) (conn : Conn) (r : Reply) (fails : Bool) : (x.send conn r fails).Paired := by
  have hp' : Paired { x with sent := x.sent ++ [(conn, r)] } := ⟨hp.codes, hp.members, hp.live, hp.shared⟩
  unfold send
  dsimp only
  split_ifs
  · exact paired_onClose hp' conn
  · exact hp'

theorem paired_insert (hp : x.Paired) (hlive : conn ∈ x.live) (hconn : x.findByConn conn = none)
    (hcode : x.findByCode code = none) {t : Table (Session Conn) signalMaxSessions}
    (ht : x.sessions.insert { code, sender := conn } = some t) :
    Paired { x with sessions := t, registry := Function.update x.registry code (some (conn, none)) } := by
  have hperm := Table.perm_of_insert ht
  have hfresh := findByCode_eq_none.mp hcode
  have hnone := findByConn_eq_none.mp hconn
  refine ⟨?_, ?_, fun s hs c hc => ?_, fun code' a b => ?_⟩
  · refine (hperm.map _).nodup_iff.mpr (nodup_cons.mpr ⟨fun hmem => ?_, hp.codes⟩)
    obtain ⟨s, hs, heq⟩ := mem_map.mp hmem
    exact hfresh s hs heq
  · refine (hperm.flatMap_right _).nodup_iff.mpr (nodup_cons.mpr ⟨fun hmem => ?_, hp.members⟩)
    obtain ⟨s, hs, hin⟩ := mem_flatMap.mp hmem
    exact hnone s hs hin
  · rcases mem_cons.mp (hperm.mem_iff.mp hs) with rfl | hs
    · obtain rfl := mem_singleton.mp hc
      exact hlive
    · exact hp.live s hs c hc
  · dsimp only
    rw [hperm.mem_iff, mem_cons, Session.mk.injEq]
    by_cases heq : code' = code
    · subst heq
      rw [Function.update_self, some_inj, Prod.mk.injEq]
      constructor
      · rintro ⟨rfl, rfl⟩
        exact .inl ⟨rfl, rfl, rfl⟩
      · rintro (⟨-, rfl, rfl⟩ | hmem)
        · exact ⟨rfl, rfl⟩
        · exact absurd rfl (hfresh _ hmem)
    · rw [Function.update_of_ne heq, hp.shared]
      exact ⟨.inr, fun h => h.resolve_left fun ⟨he, _⟩ => heq he⟩

theorem paired_receiver (hp : x.Paired) (hlive : conn ∈ x.live) (hconn : x.findByConn conn = none) {i : ℕ}
    (hi : x.findByCode code = some i) {s : Session Conn} (hs : x.sessions.get i = some s) (hr : s.receiver = none) :
    Paired { x with
      sessions := x.sessions.set i (some { s with receiver := some conn })
      registry := Function.update x.registry code ((x.registry code).map fun (c : Conn × Option Conn) => (c.1, some conn)) } := by
  obtain ⟨s', rest, hcode, hget, hperm, hset⟩ := Table.exists_of_find hi
  obtain rfl := some.inj (hs.symm.trans hget)
  obtain rfl : s.code = code := of_decide_eq_true hcode
  have hperm' := (hset (some { s with receiver := some conn })).2
  have hnone := findByConn_eq_none.mp hconn
  have hcodes : ((s :: rest).map Session.code).Nodup := (hperm.map _).nodup_iff.mp hp.codes
  have hmembers : ((s :: rest).flatMap Session.members).Nodup := (hperm.flatMap_right _).nodup_iff.mp hp.members
  have hsender : s.members = [s.sender] := by
    rw [Session.members, hr]
    rfl
  refine ⟨?_, ?_, fun t ht c hc => ?_, fun code' a b => ?_⟩
  · exact (hperm'.map _).nodup_iff.mpr hcodes
  · refine (hperm'.flatMap_right _).nodup_iff.mpr ?_
    rw [flatMap_cons, hsender] at hmembers
    have hne (t : Session Conn) (ht : t ∈ s :: rest) : conn ∉ t.members := hnone t (hperm.mem_iff.mpr ht)
    have hconn' : conn ∉ [s.sender] ++ rest.flatMap Session.members := by
      rw [← hsender, ← flatMap_cons]
      intro hmem
      obtain ⟨t, ht, hin⟩ := mem_flatMap.mp hmem
      exact hne t ht hin
    have hmiddle : ([s.sender] ++ conn :: rest.flatMap Session.members).Perm
        (conn :: ([s.sender] ++ rest.flatMap Session.members)) := perm_middle
    exact hmiddle.nodup_iff.mpr (nodup_cons.mpr ⟨hconn', hmembers⟩)
  · rcases mem_cons.mp (hperm'.mem_iff.mp ht) with rfl | ht
    · rcases mem_cons.mp hc with rfl | hc
      · exact hp.live s (hperm.mem_iff.mpr (.head _)) _ (.head _)
      · obtain rfl := mem_singleton.mp hc
        exact hlive
    · exact hp.live t (hperm.mem_iff.mpr (.tail _ ht)) c hc
  · have hreg : x.registry s.code = some (s.sender, none) := by
      rw [hp.shared, ← hr]
      exact hperm.mem_iff.mpr (.head _)
    dsimp only
    rw [hperm'.mem_iff, toList_some, singleton_append, mem_cons, Session.mk.injEq, hreg]
    have hrest := (nodup_cons.mp hcodes).1
    by_cases heq : code' = s.code
    · subst heq
      rw [Function.update_self, map_some, some_inj, Prod.mk.injEq]
      constructor
      · rintro ⟨rfl, rfl⟩
        exact .inl ⟨rfl, rfl, rfl⟩
      · rintro (⟨-, rfl, rfl⟩ | hmem)
        · exact ⟨rfl, rfl⟩
        · exact absurd (mem_map_of_mem hmem) hrest
    · rw [Function.update_of_ne heq, hp.shared, hperm.mem_iff, mem_cons]
      constructor
      · rintro (rfl | hmem)
        · exact absurd rfl heq
        · exact .inr hmem
      · rintro (⟨he, -⟩ | hmem)
        · exact absurd he heq
        · exact .inr hmem

theorem paired_create (hp : x.Paired) (hlive : conn ∈ x.live) (fails : Bool)
    (hsound : signalMaxSessions ≤ x.sessions.used.length ∨
      x.findByConn conn = none ∧ ∃ k < 100, x.findByCode (generateCode rand k) = none) :
    (x.create conn rand fails).Paired := by
  unfold create
  dsimp only
  cases hins : x.sessions.insert { code := x.pickCode rand 99 0, sender := conn } with
  | none => exact hp
  | some t =>
    rcases hsound with hfull | ⟨hconn, k, hk, hfresh⟩
    · rw [Table.insert_eq_none hfull] at hins
      cases hins
    · have hcode : x.findByCode (x.pickCode rand 99 0) = none :=
        pickCode_fresh (j := k) (Nat.le_of_lt_succ hk) (by rw [Nat.zero_add]; exact hfresh)
      exact paired_send (paired_insert hp hlive hconn hcode hins) conn _ fails

theorem paired_join (hp : x.Paired) (hlive : conn ∈ x.live) (fails fails' : Bool)
    (hsound : (∃ s ∈ x.sessions.used, s.code = code ∧ s.receiver = none) → x.findByConn conn = none) :
    (x.join conn code fails fails').Paired := by
  unfold join
  cases hfind : x.findByCode code with
  | none => exact paired_send hp conn _ fails
  | some i =>
    dsimp only
    obtain ⟨s, rest, hcode, hget, hperm, -⟩ := Table.exists_of_find hfind
    rw [hget]
    dsimp only
    by_cases hr : s.receiver.isSome
    · rw [if_pos hr]
      exact paired_send hp conn _ fails
    · rw [if_neg hr]
      have hr := not_isSome_iff_eq_none.mp hr
      have hconn := hsound ⟨s, hperm.mem_iff.mpr (.head _), of_decide_eq_true hcode, hr⟩
      have hp' := paired_send (paired_receiver hp hlive hconn hfind hget hr) conn
        (.object [(text "type", text "joined")]) fails
      cases Table.get i _ with
      | none => exact hp'
      | some s' => exact paired_send hp' _ _ fails'

theorem paired_relay (hp : x.Paired) (conn : Conn) (payload : Bytes) (fails : Bool) :
    (x.relay conn payload fails).Paired := by
  unfold relay
  cases x.findByConn conn with
  | none => exact hp
  | some i =>
    dsimp only
    cases (x.sessions.get i).bind (Session.getPeer conn) with
    | none => exact hp
    | some peer => exact paired_send hp peer _ fails

variable {parse : Bytes → Option SignalMessage}

theorem paired_step {i : Input Conn} {y : Signal Conn} (hp : x.Paired) (hsound : x.Sound parse i)
    (hstep : x.step parse i = some y) : y.Paired := by
  unfold step at hstep
  cases i with
  | accept conn =>
    dsimp only at hstep
    split_ifs at hstep
    obtain rfl := some.inj hstep
    exact ⟨hp.codes, hp.members, fun s hs c hc => .tail _ (hp.live s hs c hc), hp.shared⟩
  | close conn =>
    dsimp only at hstep
    split_ifs at hstep
    obtain rfl := some.inj hstep
    exact paired_onClose hp conn
  | message conn payload rand fails fails' =>
    dsimp only at hstep
    split_ifs at hstep with hlive
    obtain rfl := some.inj hstep
    unfold onMessage
    cases hparse : parse payload with
    | none => exact hp
    | some m =>
      obtain ⟨hcreate, hjoin⟩ := hsound m hparse
      dsimp only
      cases htype : m.type with
      | none => exact hp
      | some type =>
        dsimp only
        by_cases h1 : type = text "create"
        · rw [if_pos h1]
          exact paired_create hp hlive fails (hcreate (by rw [htype, h1]))
        rw [if_neg h1]
        by_cases h2 : type = text "join"
        · rw [if_pos h2]
          cases hcode : m.code with
          | none => exact hp
          | some code => exact paired_join hp hlive fails fails' (hjoin (by rw [htype, h2]) code hcode)
        rw [if_neg h2]
        split_ifs
        · exact paired_send hp conn _ fails
        · exact paired_relay hp conn payload fails
        · exact hp

theorem exists_sent_relay (hp : x.Paired) (conn : Conn) (payload : Bytes) (fails : Bool) :
    ∃ l, (x.relay conn payload fails).sent = x.sent ++ l ∧ l.length ≤ 1 ∧
      ∀ peer r, (peer, r) ∈ l ↔ r = .relayed payload ∧ x.registry.Partners conn peer := by
  unfold relay
  have hpartners (peer : Conn) : x.registry.Partners conn peer ↔
      ∃ s ∈ x.sessions.used, conn ∈ s.members ∧ s.getPeer conn = some peer := by
    constructor
    · rintro ⟨code, c, d, hreg, h⟩
      have hs := (hp.shared code c (some d)).mp hreg
      have hnd := nodup_flatMap.mp hp.members |>.1 _ hs
      have hmem : conn ∈ Session.members ⟨code, c, some d⟩ := by
        rcases h with ⟨rfl, -⟩ | ⟨rfl, -⟩
        · exact .head _
        · exact .tail _ (.head _)
      exact ⟨_, hs, hmem, (Session.getPeer_eq_some hnd hmem).mpr ⟨d, rfl, h⟩⟩
    · rintro ⟨s, hs, hmem, hpeer⟩
      have hnd := nodup_flatMap.mp hp.members |>.1 _ hs
      obtain ⟨d, hr, h⟩ := (Session.getPeer_eq_some hnd hmem).mp hpeer
      exact ⟨s.code, s.sender, d, (hp.shared _ _ _).mpr (hr ▸ hs), h⟩
  cases hfind : x.findByConn conn with
  | none =>
    refine ⟨[], (List.append_nil _).symm, Nat.zero_le _, fun peer r => ?_⟩
    refine iff_of_false not_mem_nil ?_
    rintro ⟨-, hpeer⟩
    obtain ⟨s, hs, hmem, -⟩ := (hpartners peer).mp hpeer
    exact findByConn_eq_none.mp hfind s hs hmem
  | some i =>
    obtain ⟨s, rest, hhas, hget, hperm, -⟩ := Table.exists_of_find hfind
    have hin := Session.has_iff.mp hhas
    have hmembers : ((s :: rest).flatMap Session.members).Nodup := (hperm.flatMap_right _).nodup_iff.mp hp.members
    rw [flatMap_cons, nodup_append] at hmembers
    -- the session that is found is the only one the connection is in
    have hone (t : Session Conn) (ht : t ∈ x.sessions.used) (hmem : conn ∈ t.members) : t = s := by
      rcases mem_cons.mp (hperm.mem_iff.mp ht) with rfl | ht
      · rfl
      · exact absurd rfl (hmembers.2.2 conn hin conn (mem_flatMap.mpr ⟨t, ht, hmem⟩))
    have hpeers (peer : Conn) : x.registry.Partners conn peer ↔ s.getPeer conn = some peer := by
      rw [hpartners]
      constructor
      · rintro ⟨t, ht, hmem, hpeer⟩
        obtain rfl := hone t ht hmem
        exact hpeer
      · exact fun hpeer => ⟨s, hperm.mem_iff.mpr (.head _), hin, hpeer⟩
    dsimp only
    rw [hget, bind_some]
    cases hpeer : s.getPeer conn with
    | none =>
      refine ⟨[], (List.append_nil _).symm, Nat.zero_le _, fun peer r => ?_⟩
      refine iff_of_false not_mem_nil ?_
      rintro ⟨-, h⟩
      rw [hpeers, hpeer] at h
      cases h
    | some p =>
      refine ⟨[(p, .relayed payload)], sent_send p _ fails x, le_rfl, fun peer r => ?_⟩
      rw [mem_singleton, Prod.mk.injEq, hpeers, hpeer, some_inj, and_comm, eq_comm (a := peer)]

theorem relays_of_paired (hp : x.Paired) : x.Relays parse := by
  refine ⟨hp.codes, hp.shared, fun conn _ payload m type hparse htype hrelay rand fails fails' => ?_, hp.live⟩
  have hne : type ≠ text "create" ∧ type ≠ text "join" ∧ type ≠ text "heartbeat" := by
    simp only [relayTypes, mem_cons, not_mem_nil, or_false] at hrelay
    rcases hrelay with rfl | rfl | rfl <;> decide
  have heq : x.onMessage parse conn payload rand fails fails' = x.relay conn payload fails := by
    unfold onMessage
    rw [hparse]
    dsimp only
    rw [htype]
    dsimp only
    rw [if_neg hne.1, if_neg hne.2.1, if_neg hne.2.2, if_pos hrelay]
  rw [heq]
  exact exists_sent_relay hp conn payload fails

/-- **Messages stay within a session** in every run in which sessions are created and joined only by connections that
are in none, each under a code of its own. -/
theorem relays_of_run (hrun : Run (step parse) (Sound parse) {} x) : x.Relays parse := by
  have h0 : Paired ({} : Signal Conn) :=
    ⟨nodup_nil, nodup_nil, fun s hs => (not_mem_nil hs).elim,
      fun code a b => ⟨fun h => (nomatch h), fun h => (not_mem_nil h).elim⟩⟩
  exact relays_of_paired (hrun.preserves (fun _ _ _ hp hsound hstep => paired_step hp hsound hstep) h0)

/-- A parser of three messages, for the runs below. -/
def someParse : Bytes → Option SignalMessage
  | [0] => some { type := some (text "create") }
  | [1] => some { type := some (text "join"), code := some (generateCode (fun _ => 0) 0) }
  | [2] => some { type := some (text "offer") }
  | _ => none

/-- A sender and a receiver. -/
theorem relays_of_run_pair :
    ∃ x : Signal ℕ, x.registry (generateCode (fun _ => 0) 0) = some (1, some 2) ∧ x.Relays someParse := by
  let x1 : Signal ℕ := { live := [2, 1] }
  let x2 := x1.create 1 (fun _ => 0) false
  let x3 := x2.join 2 (generateCode (fun _ => 0) 0) false false
  have h1 : Run (step someParse) (Sound someParse) {} x1 :=
    (Run.single (m := .accept 1) trivial rfl).tail (m := .accept 2) trivial rfl
  have h2 : step someParse x1 (.message 1 [0] (fun _ => 0) false false) = some x2 := rfl
  have h3 : step someParse x2 (.message 2 [1] (fun _ => 0) false false) = some x3 := rfl
  have hs2 : x1.Sound someParse (.message 1 [0] (fun _ => 0) false false) := by
    intro m hm
    obtain rfl := some.inj hm
    exact ⟨fun _ => .inr ⟨rfl, 0, by decide, rfl⟩, fun h => absurd h (by decide)⟩
  have hs3 : x2.Sound someParse (.message 2 [1] (fun _ => 0) false false) := by
    intro m hm
    obtain rfl := some.inj hm
    exact ⟨fun h => absurd h (by decide), fun _ _ _ _ => by decide⟩
  exact ⟨x3, by decide, relays_of_run ((h1.tail hs2 h2).tail hs3 h3)⟩

/-- A connection that creates two sessions and is closed. -/
theorem not_relays_twice :
    ¬ ∀ (parse : Bytes → Option SignalMessage) (x : Signal ℕ), Run (step parse) (fun _ _ => True) {} x → x.Relays parse := by
  intro h
  let x1 : Signal ℕ := { live := [1] }
  let x2 := x1.create 1 (fun _ => 0) false
  let x3 := x2.create 1 (fun _ => 1) false
  have h1 : step someParse {} (.accept 1) = some x1 := rfl
  have h2 : step someParse x1 (.message 1 [0] (fun _ => 0) false false) = some x2 := rfl
  have h3 : step someParse x2 (.message 1 [0] (fun _ => 1) false false) = some x3 := rfl
  have h4 : step someParse x3 (.close 1) = some (x3.onClose 1) := rfl
  have hrel := h someParse _ ((((Run.single trivial h1).tail trivial h2).tail trivial h3).tail trivial h4)
  have hmem : (⟨generateCode (fun _ => 1) 0, 1, none⟩ : Session ℕ) ∈ (x3.onClose 1).sessions.used := .head _
  exact absurd (hrel.closed _ hmem 1 (.head _)) (by decide)

end Signal

end Libx.Fer
