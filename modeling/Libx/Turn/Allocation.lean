import Libx.Turn.Relay

/-!
# Libx.Turn.Allocation — one outcome for every allocation

What the client tells its owner about each call of `xTurnClientAllocate`, and the addresses it hands out.
-/

namespace Libx.Turn

open Libx.Core (Run)
open Libx.Agent (Bytes)
open Libx.Ice List Option
open Libx.Ice.Agent (decodeInto addressOf errorCodeOf)

/-! ### Outcomes -/

/-- `on_allocated` or `on_failed` is called. -/
def Event.outcome : Event → Bool
  | .allocated .. => true
  | .failed => true
  | _ => false

/-- The number of outcomes for each call of `xTurnClientAllocate`, newest call first. -/
def outcomes : List Event → List ℕ
  | [] => []
  | .allocate :: l => 0 :: outcomes l
  | ev :: l => if ev.outcome then (outcomes l).modifyHead (· + 1) else outcomes l

/-- With `n` transactions out for the newest call, each call has one outcome or will have it. -/
def Once (n : ℕ) : List ℕ → Prop
  | [] => n = 0
  | k :: ks => k + n = 1 ∧ ∀ m ∈ ks, m = 1

/-- The addresses handed to the owner are in the message: in an attribute, or in the channel it is on. -/
def Event.Honest (channels : List Channel) : Event → Prop
  | .allocated a m => ∃ x ∈ m.attrs, x.type = attrXorRelayedAddress ∧ decodeXorAddress m.txnId x = some a
  | .data _ a m => ∃ x ∈ m.attrs, x.type = attrXorPeerAddress ∧ decodeXorAddress m.txnId x = some a
  | .channelData n _ a => ∃ b ∈ channels, b.number = n ∧ b.peer = a
  | _ => True

/-- The transaction is an Allocate request that has not completed. -/
def waits (t : Txn Ctx Bytes) : Bool := t.ctx = .allocate && t.live

namespace Client

def outstanding (c : Client) : ℕ := c.txnMgr.countP waits

/-- Every allocation has one outcome or an Allocate request under way, there is one while the state is
`xTurnState_Allocating`, and the addresses handed out are decoded from the messages. -/
structure Tidy (c : Client) : Prop where
  once : Once c.outstanding (outcomes c.log)
  allocating : c.state = .allocating → 0 < c.outstanding
  honest : ∀ ev ∈ c.log, ev.Honest c.channels

def sends (e : Env) (c : Client) : Bool := e.sendOk && c.config.server.1.family ≠ .unspec

/-- The response that makes the client repeat its request with credentials. -/
def challenges (m : StunMsg) (c : Client) : Bool := m.isError && errorCodeOf m = 401 && !c.hasCredentials

/-- The last attribute of a type that is long enough to be looked at holds an address. -/
def Decodable (m : StunMsg) (type : ℕ) : Prop :=
  ∃ a, (m.attrs.filter (fun a => a.type = type && 4 ≤ a.value.length)).getLast? = some a ∧
    (decodeXorAddress m.txnId a).isSome

/-- What goes wrong when a response completes a transaction. -/
def BreaksOn (e : Env) (m : StunMsg) (t : Txn Ctx Bytes) (c : Client) : Prop :=
  match t.ctx with
  | .allocate =>
    if c.challenges m then t.cancelled = c.sends e
    else t.cancelled = true ∨
      m.isError = false ∧ (m.first attrXorRelayedAddress).isSome ∧ ¬ Decodable m attrXorRelayedAddress
  | .refresh => m.isError = true
  | _ => False

/-- The steps that break the rule: an Allocate request is not sent; an Allocate request that has timed out
is answered; a Refresh request fails; an address that is there does not decode. -/
def Breaks (i : Env × Input) (c : Client) : Prop :=
  match i.2 with
  | .allocate => c.state = .idle ∧ c.sends i.1 = false
  | .message m =>
    if m.isSuccess ∨ m.isError then
      ∃ j t, c.txnMgr.find m.txnId = some j ∧ c.txnMgr[j]? = some t ∧ c.BreaksOn i.1 m t
    else m.type = MsgType.dataIndication.toNat ∧ (m.last attrXorPeerAddress).isSome ∧ (m.last attrData).isSome ∧
      ¬ Decodable m attrXorPeerAddress
  | .retransmit j => ∃ t, c.txnMgr[j]? = some t ∧ t.cancelled = false ∧ maxRetransmits ≤ t.retransmitCount ∧
      t.ctx = .refresh
  | .destroy => ∃ t ∈ c.txnMgr, t.ctx = .refresh ∧ t.cancelled = false
  | _ => False

/-! ### Decoding -/

/-- What is handed out is decoded from the message exactly when the last attribute that is looked at holds an
address, whatever the variable held before. -/
theorem addressOf_iff (m : StunMsg) (type : ℕ) (old : Addr) :
    (∃ a ∈ m.attrs, a.type = type ∧ decodeXorAddress m.txnId a = some (addressOf m type old)) ↔ Decodable m type := by
  have hshort (a : Attr) (h : a.value.length < 4) : decodeXorAddress m.txnId a = none := by
    unfold decodeXorAddress
    exact if_pos h
  have hspec (a : Attr) : decodeXorAddress m.txnId a ≠ some .unspec := by
    unfold decodeXorAddress
    dsimp only
    split_ifs <;> simp
  unfold addressOf Decodable
  induction m.attrs using List.reverseRecOn with
  | nil => simp
  | append_singleton l a ih =>
    rw [foldl_append, filter_append]
    simp only [foldl_cons, foldl_nil, mem_append, mem_singleton]
    by_cases ht : a.type = type
    · rw [if_pos ht]
      by_cases hlen : a.value.length < 4
      · have hnone := hshort a hlen
        rw [filter_cons_of_neg (by simp; omega), filter_nil, List.append_nil, decodeInto, hnone]
        dsimp only
        rw [if_pos hlen]
        refine Iff.trans ?_ ih
        constructor
        · rintro ⟨x, hx | rfl, htx, hdx⟩
          · exact ⟨x, hx, htx, hdx⟩
          · rw [hnone] at hdx
            cases hdx
        · rintro ⟨x, hx, htx, hdx⟩
          exact ⟨x, .inl hx, htx, hdx⟩
      · rw [filter_cons_of_pos (by simp [ht]; omega), filter_nil, List.getLast?_append]
        simp only [List.getLast?_singleton, some_or, some.injEq]
        constructor
        · rintro ⟨x, -, -, hdx⟩
          refine ⟨a, rfl, ?_⟩
          rw [isSome_iff_ne_none]
          intro hnone
          rw [decodeInto, hnone] at hdx
          dsimp only at hdx
          rw [if_neg hlen] at hdx
          exact hspec x hdx
        · rintro ⟨x, rfl, hx⟩
          obtain ⟨addr, haddr⟩ := isSome_iff_exists.mp hx
          exact ⟨a, .inr rfl, ht, by rw [decodeInto, haddr]⟩
    · rw [if_neg ht, filter_cons_of_neg (by simp [ht]), filter_nil, List.append_nil]
      refine Iff.trans ?_ ih
      constructor
      · rintro ⟨x, hx | rfl, htx, hdx⟩
        · exact ⟨x, hx, htx, hdx⟩
        · exact absurd htx ht
      · rintro ⟨x, hx, htx, hdx⟩
        exact ⟨x, .inl hx, htx, hdx⟩

/-! ### What is always so -/

/-- An idle client has no transactions, one that is not idle has been called, and the table has its places. -/
structure Sound (c : Client) : Prop where
  idle : c.state = .idle → c.txnMgr = []
  called : outcomes c.log = [] → c.state = .idle
  room : c.txnMgr.length ≤ txnMax

/-- A client that is not idle. -/
structure Awake (c : Client) : Prop where
  state : c.state ≠ .idle
  called : outcomes c.log ≠ []
  room : c.txnMgr.length ≤ txnMax

variable {c t : Client} {e : Env}

theorem Awake.sound (h : Awake c) : Sound c :=
  ⟨fun hst => absurd hst h.state, fun hnil => absurd hnil h.called, h.room⟩

theorem Awake.same (h : Awake c) (hst : t.state = c.state) (hlog : t.log = c.log) (hroom : t.txnMgr.length ≤ txnMax) :
    Awake t := by
  refine ⟨?_, ?_, hroom⟩
  · rw [hst]
    exact h.state
  · rw [hlog]
    exact h.called

theorem Sound.awake (h : Sound c) (hst : c.state ≠ .idle) : Awake c :=
  ⟨hst, fun hnil => hst (h.called hnil), h.room⟩

variable {u : Txn Ctx Bytes}

theorem Sound.awake_of_mem (h : Sound c) (hu : u ∈ c.txnMgr) : Awake c := by
  refine h.awake fun hst => ?_
  rw [h.idle hst] at hu
  exact absurd hu not_mem_nil

variable {ev : Event}

theorem outcomes_cons (h : ev.outcome = true) (l : List Event) :
    outcomes (ev :: l) = (outcomes l).modifyHead (· + 1) := by
  cases ev with
  | allocated | failed => rfl
  | _ => cases h

theorem modifyHead_eq_nil {l : List ℕ} {f : ℕ → ℕ} : l.modifyHead f = [] ↔ l = [] := by
  cases l <;> simp

theorem sendRequest_cases (e : Env) (auth : Bool) (kind : Kind) (c : Client) :
    (c.sendRequest e auth kind).state = c.state ∧
      outcomes (c.sendRequest e auth kind).log = outcomes c.log ∧
      ((∀ ev ∈ (c.sendRequest e auth kind).log, ev.Honest (c.sendRequest e auth kind).channels) ↔
        ∀ ev ∈ c.log, ev.Honest c.channels) ∧
      ∃ u : Txn Ctx Bytes, u.ctx = kind.ctx ∧ u.cancelled = false ∧ (c.sendRequest e auth kind).txnMgr =
        if c.sends e = true ∧ c.txnMgr.length < txnMax then c.txnMgr ++ [u] else c.txnMgr := by
  have hhonest (d : Bytes) : (∀ ev ∈ Event.datagram d :: c.log, ev.Honest c.channels) ↔
      ∀ ev ∈ c.log, ev.Honest c.channels := by
    simp [Event.Honest]
  let u : Txn Ctx Bytes :=
    { txnId := e.txnId.1, sock := none, dest := c.config.server.1, ctx := kind.ctx, msg := c.buildRequest e auth kind }
  unfold sendRequest sends
  dsimp only
  by_cases hno : txnMax ≤ c.txnMgr.length ∨ c.config.server.1.family = .unspec
  · rw [if_pos hno]
    refine ⟨rfl, rfl, Iff.rfl, u, rfl, rfl, (if_neg ?_).symm⟩
    rintro ⟨hs, hlt⟩
    rw [Bool.and_eq_true, decide_eq_true_eq] at hs
    rcases hno with hno | hno
    · omega
    · exact hs.2 hno
  · rw [if_neg hno]
    push Not at hno
    refine ⟨rfl, rfl, hhonest _, u, rfl, rfl, ?_⟩
    cases hok : e.sendOk with
    | true =>
      rw [if_pos rfl, if_pos]
      refine ⟨?_, hno.1⟩
      rw [Bool.true_and, decide_eq_true_eq]
      exact hno.2
    | false => rfl

variable {n : ℕ}

theorem outstanding_sendRequest (e : Env) (auth : Bool) (kind : Kind) (c : Client) :
    (c.sendRequest e auth kind).outstanding = c.outstanding +
      if kind.ctx = .allocate ∧ c.sends e = true ∧ c.txnMgr.length < txnMax then 1 else 0 := by
  obtain ⟨-, -, -, u, hctx, hlive, hmgr⟩ := sendRequest_cases e auth kind c
  unfold outstanding
  rw [hmgr]
  by_cases hs : c.sends e = true ∧ c.txnMgr.length < txnMax
  · rw [if_pos hs, countP_append, countP_singleton]
    simp only [waits, Txn.live, hctx, hlive, hs, Bool.not_false, Bool.and_true, decide_eq_true_eq, and_true]
  · rw [if_neg hs, if_neg (fun h => hs h.2), Nat.add_zero]

variable {auth : Bool}

theorem outstanding_sendAllocate (hroom : t.txnMgr.length < txnMax) :
    (t.sendRequest e auth .allocate).outstanding = t.outstanding + (t.sends e).toNat := by
  rw [outstanding_sendRequest]
  cases hs : t.sends e with
  | true => rw [if_pos ⟨rfl, rfl, hroom⟩, Bool.toNat_true]
  | false => rw [if_neg (fun h => Bool.false_ne_true h.2.1), Bool.toNat_false]

theorem tidy_sendRequest_iff {kind : Kind} : Tidy (c.sendRequest e auth kind) ↔
    Once (c.sendRequest e auth kind).outstanding (outcomes c.log) ∧
      (c.state = .allocating → 0 < (c.sendRequest e auth kind).outstanding) ∧ ∀ ev ∈ c.log, ev.Honest c.channels := by
  obtain ⟨hst, hout, hhonest, -⟩ := sendRequest_cases e auth kind c
  constructor
  · intro h
    have honce := h.once
    have hall := h.allocating
    rw [hout] at honce
    rw [hst] at hall
    exact ⟨honce, hall, hhonest.mp h.honest⟩
  · rintro ⟨honce, hall, hh⟩
    rw [← hout] at honce
    rw [← hst] at hall
    exact ⟨honce, hall, hhonest.mpr hh⟩

theorem Tidy.sendRequest {kind : Kind} (h : Tidy c) (hk : kind.ctx ≠ .allocate) :
    Tidy (c.sendRequest e auth kind) := by
  have hout := outstanding_sendRequest e auth kind c
  rw [if_neg (fun hc => hk hc.1), Nat.add_zero] at hout
  rw [tidy_sendRequest_iff, hout]
  exact ⟨h.once, h.allocating, h.honest⟩

theorem Awake.sendRequest {kind : Kind} (h : Awake c) : Awake (c.sendRequest e auth kind) := by
  obtain ⟨hs, hout, -, u, -, -, hmgr⟩ := sendRequest_cases e auth kind c
  constructor
  · rw [hs]
    exact h.state
  · rw [hout]
    exact h.called
  · rw [hmgr]
    split_ifs with hroom
    · rw [length_append, length_singleton]
      exact hroom.2
    · exact h.room

/-! ### One outcome more -/

theorem once_modifyHead {n' : ℕ} {l : List ℕ} (hl : l ≠ []) (h : Once n l) :
    Once n' (l.modifyHead (· + 1)) ↔ n' + 1 = n := by
  cases l with
  | nil => exact absurd rfl hl
  | cons k ks =>
    obtain ⟨hk, hks⟩ := h
    show (k + 1 + n' = 1 ∧ ∀ m ∈ ks, m = 1) ↔ _
    constructor
    · rintro ⟨hk', -⟩
      omega
    · intro hn
      exact ⟨by omega, hks⟩

theorem once_unchanged {n' : ℕ} {l : List ℕ} (hl : l ≠ []) (h : Once n l) : Once n' l ↔ n' = n := by
  cases l with
  | nil => exact absurd rfl hl
  | cons k ks =>
    obtain ⟨hk, hks⟩ := h
    show (k + n' = 1 ∧ ∀ m ∈ ks, m = 1) ↔ _
    constructor
    · rintro ⟨hk', -⟩
      omega
    · intro hn
      exact ⟨by omega, hks⟩

theorem tidy_fail_iff (hlog : t.log = c.log) (hch : t.channels = c.channels) (hne : outcomes c.log ≠ []) (h : Tidy c) :
    Tidy t.fail ↔ t.outstanding + 1 = c.outstanding := by
  have honce : Once t.fail.outstanding (outcomes t.fail.log) ↔ t.outstanding + 1 = c.outstanding := by
    show Once t.outstanding (outcomes (Event.failed :: t.log)) ↔ _
    rw [hlog, outcomes_cons rfl]
    exact once_modifyHead hne h.once
  constructor
  · intro ht
    exact honce.mp ht.once
  · intro hn
    refine ⟨honce.mpr hn, fun hst => (TurnState.noConfusion hst), ?_⟩
    show ∀ ev ∈ Event.failed :: t.log, ev.Honest t.channels
    rw [hlog, hch]
    intro ev hev
    rcases mem_cons.mp hev with rfl | hev
    · trivial
    · exact h.honest ev hev

theorem Awake.tell (h : Awake t) (hev : ev.outcome = true) : Awake (t.emit ev) := by
  refine ⟨h.state, ?_, h.room⟩
  show outcomes (ev :: t.log) ≠ []
  rw [outcomes_cons hev, Ne, modifyHead_eq_nil]
  exact h.called

theorem Awake.fail (h : Awake t) : Awake t.fail := by
  refine Awake.tell ⟨?_, h.called, h.room⟩ rfl
  intro hst
  cases hst

/-! ### Responses -/

/-- The request is repeated right when its transaction is the one that takes the place of the one that ended. -/
theorem tidy_resend_iff (hlog : t.log = c.log) (hch : t.channels = c.channels) (hst : t.state = c.state)
    (hconf : t.config = c.config) (hroom : t.txnMgr.length < txnMax) (hne : outcomes c.log ≠ []) (h : Tidy c) :
    Tidy (t.sendRequest e auth .allocate) ↔ t.outstanding + (c.sends e).toNat = c.outstanding := by
  have hout : (t.sendRequest e auth .allocate).outstanding = t.outstanding + (c.sends e).toNat := by
    rw [outstanding_sendAllocate hroom, sends, hconf, sends]
  rw [tidy_sendRequest_iff, hout, hlog, hch, hst, once_unchanged hne h.once]
  constructor
  · exact fun h => h.1
  · intro hs
    refine ⟨hs, ?_, h.honest⟩
    rw [hs]
    exact h.allocating

variable {mgr : TxnMgr Ctx Bytes}

theorem tidy_onAllocateResponse_iff (m : StunMsg) {live : Bool} (h : Tidy c)
    (hne : outcomes c.log ≠ []) (hroom : mgr.length < txnMax) (hcount : mgr.countP waits + live.toNat = c.outstanding) :
    Tidy ({ c with txnMgr := mgr }.onAllocateResponse e (some m)) ↔
      ¬ if c.challenges m then (!live) = c.sends e
        else (!live) = true ∨
          m.isError = false ∧ (m.first attrXorRelayedAddress).isSome ∧ ¬ Decodable m attrXorRelayedAddress := by
  unfold onAllocateResponse
  dsimp only
  by_cases herr : m.isError = true
  · rw [if_pos herr]
    by_cases hcode : errorCodeOf m = 401 ∧ c.hasCredentials = false
    · have hch : c.challenges m = true := by
        simp [challenges, herr, hcode.1, hcode.2]
      rw [if_pos hcode, if_pos hch]
      refine (tidy_resend_iff (c := c) (by rfl) (by rfl) (by rfl) (by rfl) hroom hne h).trans ?_
      show mgr.countP waits + (c.sends e).toNat = c.outstanding ↔ _
      rw [← hcount]
      cases live <;> cases c.sends e <;> simp
    · have hch : ¬ c.challenges m = true := by
        intro hch
        simp only [challenges, herr, Bool.true_and, Bool.and_eq_true, decide_eq_true_eq, Bool.not_eq_true'] at hch
        exact hcode hch
      rw [if_neg hcode, if_neg hch]
      refine (tidy_fail_iff (c := c) (by rfl) (by rfl) hne h).trans ?_
      show mgr.countP waits + 1 = c.outstanding ↔ _
      rw [← hcount]
      cases live <;> simp [herr]
  · have hch : ¬ c.challenges m = true := by
      intro hch
      simp only [challenges, Bool.and_eq_true] at hch
      exact herr hch.1.1
    rw [if_neg herr, if_neg hch]
    by_cases hnone : (m.first attrXorRelayedAddress).isNone = true
    · rw [if_pos hnone]
      refine (tidy_fail_iff (c := c) (by rfl) (by rfl) hne h).trans ?_
      show mgr.countP waits + 1 = c.outstanding ↔ _
      rw [← hcount]
      have hsome : (m.first attrXorRelayedAddress).isSome = false := by simpa using hnone
      cases live <;> simp [hsome]
    · rw [if_neg hnone]
      have hsome : (m.first attrXorRelayedAddress).isSome = true := by
        rw [isSome_iff_ne_none]
        simpa using hnone
      have hone : Once (mgr.countP waits) (outcomes
          (Event.allocated (addressOf m attrXorRelayedAddress c.relayedAddr) m :: c.log)) ↔ live = true := by
        rw [outcomes_cons rfl, once_modifyHead hne h.once, ← hcount]
        cases live <;> simp
      constructor
      · intro ht
        have hl := hone.mp ht.once
        have hdec := (addressOf_iff m attrXorRelayedAddress c.relayedAddr).mp (ht.honest _ mem_cons_self)
        rw [hl]
        rintro (hf | ⟨-, -, hf⟩)
        · cases hf
        · exact hf hdec
      · intro hno
        push Not at hno
        obtain ⟨hl, hdec⟩ := hno
        refine ⟨hone.mpr (by simpa using hl), fun hst => TurnState.noConfusion hst, ?_⟩
        intro ev hev
        rcases mem_cons.mp hev with rfl | hev
        · exact (addressOf_iff m attrXorRelayedAddress c.relayedAddr).mpr (hdec (by simpa using herr) hsome)
        · exact h.honest ev hev

theorem tidy_onRefreshResponse_iff (msg : Option StunMsg) (h : Tidy c)
    (hne : outcomes c.log ≠ []) (hcount : mgr.countP waits = c.outstanding) :
    Tidy ({ c with txnMgr := mgr }.onRefreshResponse msg) ↔ ∃ m, msg = some m ∧ m.isError = false := by
  have hfail : ¬ Tidy ({ c with txnMgr := mgr } : Client).fail := by
    refine mt (tidy_fail_iff (c := c) (by rfl) (by rfl) hne h).mp ?_
    show ¬ mgr.countP waits + 1 = c.outstanding
    omega
  unfold onRefreshResponse
  cases msg with
  | none => simpa using hfail
  | some m =>
    dsimp only
    by_cases herr : m.isError = true
    · rw [if_pos herr]
      simpa [herr] using hfail
    · rw [if_neg herr]
      have hst : Tidy ({ c with txnMgr := mgr, lifetime := Agent.lifetimeOf m c.lifetime } : Client).scheduleRefresh := by
        refine ⟨?_, ?_, h.honest⟩
        · show Once (mgr.countP waits) (outcomes c.log)
          rw [hcount]
          exact h.once
        · show c.state = .allocating → 0 < mgr.countP waits
          rw [hcount]
          exact h.allocating
      simpa [herr] using hst

theorem Tidy.silent (h : Tidy c) (hst : t.state = c.state) (hn : t.outstanding = c.outstanding)
    (hout : outcomes t.log = outcomes c.log) (hh : ∀ ev ∈ t.log, ev.Honest t.channels) : Tidy t := by
  refine ⟨?_, ?_, hh⟩
  · rw [hn, hout]
    exact h.once
  · rw [hst, hn]
    exact h.allocating

theorem honest_cons (h : Tidy c) (hev : ev.Honest c.channels) :
    ∀ x ∈ ev :: c.log, x.Honest c.channels := by
  intro x hx
  rcases mem_cons.mp hx with rfl | hx
  · exact hev
  · exact h.honest x hx

theorem Tidy.onChannelBindResponse {number : ℕ} {peer : Addr} {msg : Option StunMsg} (h : Tidy c) :
    Tidy (c.onChannelBindResponse number peer msg) := by
  unfold Client.onChannelBindResponse
  split
  · exact h.silent rfl rfl rfl (honest_cons h trivial)
  · split_ifs
    all_goals exact h.silent rfl rfl rfl (honest_cons h trivial)

theorem Tidy.withTable (h : Tidy c) (hcount : mgr.countP waits = c.outstanding) :
    Tidy { c with txnMgr := mgr } :=
  h.silent rfl hcount rfl h.honest

theorem tidy_complete_iff (m : StunMsg) (h : Tidy c)
    (hne : outcomes c.log ≠ []) (hroom : mgr.length < txnMax) (hcount : mgr.countP waits + (waits u).toNat = c.outstanding) :
    Tidy ({ c with txnMgr := mgr }.complete e u.ctx (some m)) ↔ ¬ c.BreaksOn e m u := by
  unfold complete BreaksOn
  cases hctx : u.ctx with
  | allocate =>
    have hw : waits u = u.live := by simp [waits, hctx]
    rw [hw] at hcount
    have hl : u.cancelled = !u.live := (Bool.not_not _).symm
    dsimp only
    rw [hl]
    exact tidy_onAllocateResponse_iff m h hne hroom hcount
  | refresh =>
    have hw : waits u = false := by simp [waits, hctx]
    rw [hw, Bool.toNat_false, Nat.add_zero] at hcount
    dsimp only
    rw [tidy_onRefreshResponse_iff (some m) h hne hcount]
    simp
  | permission peer =>
    have hw : waits u = false := by simp [waits, hctx]
    rw [hw, Bool.toNat_false, Nat.add_zero] at hcount
    exact iff_of_true (h.withTable hcount) not_false
  | channelBind number peer =>
    have hw : waits u = false := by simp [waits, hctx]
    rw [hw, Bool.toNat_false, Nat.add_zero] at hcount
    exact iff_of_true (h.withTable hcount).onChannelBindResponse not_false

theorem tidy_complete_none_iff (h : Tidy c) (hne : outcomes c.log ≠ [])
    (hlive : u.live = true) (hcount : mgr.countP waits + (waits u).toNat = c.outstanding) :
    Tidy ({ c with txnMgr := mgr }.complete e u.ctx none) ↔ u.ctx ≠ .refresh := by
  unfold complete
  cases hctx : u.ctx with
  | allocate =>
    have hw : waits u = true := by simp [waits, hctx, hlive]
    rw [hw, Bool.toNat_true] at hcount
    exact iff_of_true ((tidy_fail_iff (c := c) (by rfl) (by rfl) hne h).mpr hcount) (by simp)
  | refresh =>
    have hw : waits u = false := by simp [waits, hctx]
    rw [hw, Bool.toNat_false, Nat.add_zero] at hcount
    dsimp only
    rw [tidy_onRefreshResponse_iff none h hne hcount]
    simp
  | permission peer =>
    have hw : waits u = false := by simp [waits, hctx]
    rw [hw, Bool.toNat_false, Nat.add_zero] at hcount
    exact iff_of_true (h.withTable hcount) (by simp)
  | channelBind number peer =>
    have hw : waits u = false := by simp [waits, hctx]
    rw [hw, Bool.toNat_false, Nat.add_zero] at hcount
    exact iff_of_true (h.withTable hcount).onChannelBindResponse (by simp)

theorem Awake.complete {ctx : Ctx} {msg : Option StunMsg} (h : Awake c) : Awake (c.complete e ctx msg) := by
  unfold Client.complete
  cases ctx with
  | permission peer => exact h
  | channelBind number peer =>
    dsimp only
    unfold Client.onChannelBindResponse
    split
    · exact ⟨h.state, h.called, h.room⟩
    · split_ifs
      all_goals exact ⟨h.state, h.called, h.room⟩
  | refresh =>
    dsimp only
    unfold Client.onRefreshResponse
    split
    · exact h.fail
    · split_ifs
      · exact h.fail
      · exact ⟨h.state, h.called, h.room⟩
  | allocate =>
    dsimp only
    unfold Client.onAllocateResponse
    split
    · exact h.fail
    · dsimp only
      split_ifs
      · exact Awake.sendRequest ⟨h.state, h.called, h.room⟩
      · exact Awake.fail ⟨h.state, h.called, h.room⟩
      · exact Awake.fail ⟨h.state, h.called, h.room⟩
      · refine Awake.tell ⟨?_, h.called, h.room⟩ rfl
        intro hst
        cases hst

/-! ### Destroying -/

/-- The newest call has or will have `r` outcomes too many. -/
structure Over (r : ℕ) (c : Client) : Prop where
  count : ∃ k ks, outcomes c.log = k :: ks ∧ k + c.outstanding = 1 + r ∧ ∀ m ∈ ks, m = 1
  honest : ∀ ev ∈ c.log, ev.Honest c.channels

def refreshes (u : Txn Ctx Bytes) : Bool := u.ctx = .refresh && u.live

theorem Tidy.over (h : Tidy c) (hne : outcomes c.log ≠ []) : Over 0 c := by
  have honce := h.once
  refine ⟨?_, h.honest⟩
  cases hout : outcomes c.log with
  | nil => exact absurd hout hne
  | cons k ks =>
    rw [hout] at honce
    exact ⟨k, ks, rfl, honce.1, honce.2⟩

theorem tidy_idle_iff {r : ℕ} (h : Over r c) : Tidy ({ c with state := .idle } : Client) ↔ r = 0 := by
  obtain ⟨k, ks, hout, hk, hks⟩ := h.count
  constructor
  · intro ht
    have honce : Once c.outstanding (outcomes c.log) := ht.once
    rw [hout] at honce
    have hk' := honce.1
    omega
  · rintro rfl
    refine ⟨?_, fun hst => TurnState.noConfusion hst, h.honest⟩
    show Once c.outstanding (outcomes c.log)
    rw [hout]
    exact ⟨hk, hks⟩

theorem countP_free {j : ℕ} (p : Txn Ctx Bytes → Bool) (h : mgr[j]? = some u) :
    (TxnMgr.free mgr j).countP p + (p u).toNat = mgr.countP p := by
  rw [← (TxnMgr.free_perm h).countP_eq p, countP_cons]
  cases p u <;> rfl

theorem Over.cancel {r : ℕ} (h : Over r c) (hlive : u.live = true)
    (hcount : mgr.countP waits + (waits u).toNat = c.outstanding) :
    Over (r + (refreshes u).toNat) { c.complete e u.ctx none with txnMgr := mgr } := by
  obtain ⟨k, ks, hout, hk, hks⟩ := h.count
  have hfail : outcomes (Event.failed :: c.log) = (k + 1) :: ks := by
    rw [outcomes_cons rfl, hout]
    rfl
  have hhonest : ∀ ev ∈ Event.failed :: c.log, ev.Honest c.channels := by
    intro ev hev
    rcases mem_cons.mp hev with rfl | hev
    · trivial
    · exact h.honest ev hev
  unfold complete
  cases hctx : u.ctx with
  | allocate =>
    have hw : waits u = true := by simp [waits, hctx, hlive]
    have hr : refreshes u = false := by simp [refreshes, hctx]
    rw [hw, Bool.toNat_true] at hcount
    rw [hr, Bool.toNat_false]
    refine ⟨⟨k + 1, ks, hfail, ?_, hks⟩, hhonest⟩
    show k + 1 + mgr.countP waits = _
    omega
  | refresh =>
    have hw : waits u = false := by simp [waits, hctx]
    have hr : refreshes u = true := by simp [refreshes, hctx, hlive]
    rw [hw, Bool.toNat_false] at hcount
    rw [hr, Bool.toNat_true]
    refine ⟨⟨k + 1, ks, hfail, ?_, hks⟩, hhonest⟩
    show k + 1 + mgr.countP waits = _
    omega
  | permission peer =>
    have hw : waits u = false := by simp [waits, hctx]
    have hr : refreshes u = false := by simp [refreshes, hctx]
    rw [hw, Bool.toNat_false] at hcount
    rw [hr, Bool.toNat_false]
    refine ⟨⟨k, ks, hout, ?_, hks⟩, h.honest⟩
    show k + mgr.countP waits = _
    omega
  | channelBind number peer =>
    have hw : waits u = false := by simp [waits, hctx]
    have hr : refreshes u = false := by simp [refreshes, hctx]
    rw [hw, Bool.toNat_false] at hcount
    rw [hr, Bool.toNat_false]
    refine ⟨⟨k, ks, hout, ?_, hks⟩, ?_⟩
    · show k + mgr.countP waits = _
      omega
    · intro ev hev
      rcases mem_cons.mp hev with rfl | hev
      · trivial
      · exact h.honest ev hev

theorem complete_none_txnMgr (e : Env) (ctx : Ctx) (c : Client) : (c.complete e ctx none).txnMgr = c.txnMgr := by
  cases ctx <;> rfl

variable {us : TxnMgr Ctx Bytes}

theorem cancelAll_of_cancelled (h : c.txnMgr = u :: us)
    (hc : u.cancelled = true) :
    c.cancelAll e (n + 1) = ({ c with txnMgr := c.txnMgr.free 0 } : Client).cancelAll e n := by
  rw [Client.cancelAll, h]
  dsimp only
  rw [if_pos hc, h]

theorem cancelAll_of_live (h : c.txnMgr = u :: us)
    (hc : ¬ u.cancelled = true) :
    c.cancelAll e (n + 1) = ({ c.complete e u.ctx none with txnMgr := c.txnMgr.free 0 } : Client).cancelAll e n := by
  rw [Client.cancelAll, h]
  dsimp only
  rw [if_neg hc, complete_none_txnMgr, h]

theorem length_free_zero (h : c.txnMgr = u :: us)
    (hn : n + 1 = c.txnMgr.length) : n = (TxnMgr.free c.txnMgr 0).length := by
  have h0 : c.txnMgr[0]? = some u := by rw [h]; rfl
  have hlen := (TxnMgr.free_perm h0).length_eq
  rw [length_cons] at hlen
  omega

theorem Over.cancelAll {r : ℕ} (h : Over r c) (hn : n = c.txnMgr.length) :
    Over (r + c.txnMgr.countP refreshes) (c.cancelAll e n) := by
  induction n generalizing c r with
  | zero =>
    have hnil := eq_nil_of_length_eq_zero hn.symm
    rw [hnil]
    exact h
  | succ n ih =>
    cases hmgr : c.txnMgr with
    | nil =>
      rw [hmgr] at hn
      cases hn
    | cons u us =>
      have h0 : c.txnMgr[0]? = some u := by rw [hmgr]; rfl
      have hw := countP_free waits h0
      have hr := countP_free refreshes h0
      have hlen := length_free_zero hmgr hn
      have hsum : r + c.txnMgr.countP refreshes =
          r + (refreshes u).toNat + (TxnMgr.free c.txnMgr 0).countP refreshes := by omega
      rw [← hmgr, hsum]
      by_cases hc : u.cancelled = true
      · have hlive : u.live = false := by simp [Txn.live, hc]
        have hwu : waits u = false := by simp [waits, hlive]
        have hru : refreshes u = false := by simp [refreshes, hlive]
        rw [cancelAll_of_cancelled hmgr hc, hru, Bool.toNat_false, Nat.add_zero]
        rw [hwu, Bool.toNat_false, Nat.add_zero] at hw
        obtain ⟨k, ks, hout, hk, hks⟩ := h.count
        refine ih (c := { c with txnMgr := TxnMgr.free c.txnMgr 0 }) ⟨⟨k, ks, hout, ?_, hks⟩, h.honest⟩ hlen
        show k + (TxnMgr.free c.txnMgr 0).countP waits = _
        rw [hw]
        exact hk
      · have hlive : u.live = true := by simpa [Txn.live] using hc
        rw [cancelAll_of_live hmgr hc]
        exact ih (h.cancel hlive hw) hlen

theorem Breaks.destroy_iff : c.Breaks (e, .destroy) ↔ c.txnMgr.countP refreshes ≠ 0 := by
  show (∃ u ∈ c.txnMgr, u.ctx = .refresh ∧ u.cancelled = false) ↔ _
  rw [Ne, countP_eq_zero]
  push Not
  simp [refreshes, Txn.live]

theorem tidy_destroy_iff (hs : Sound c) (h : Tidy c) : Tidy (c.destroy e) ↔ ¬ c.Breaks (e, .destroy) := by
  rw [Breaks.destroy_iff, not_ne_iff]
  unfold Client.destroy
  by_cases hst : c.state = .idle
  · have hnil := hs.idle hst
    have honce := h.once
    rw [outstanding, hnil] at honce
    rw [hnil]
    exact iff_of_true ⟨honce, fun hst => TurnState.noConfusion hst, h.honest⟩ rfl
  · have hover : Over 0 ({ c with refreshTimer := false } : Client) := by
      obtain ⟨hcount, hh⟩ := h.over (hs.awake hst).called
      exact ⟨hcount, hh⟩
    refine (tidy_idle_iff (hover.cancelAll rfl)).trans ?_
    rw [Nat.zero_add]

theorem cancelAll_txnMgr (e : Env) (hn : n = c.txnMgr.length) : (c.cancelAll e n).txnMgr = [] := by
  induction n generalizing c with
  | zero => exact eq_nil_of_length_eq_zero hn.symm
  | succ n ih =>
    cases hmgr : c.txnMgr with
    | nil =>
      rw [hmgr] at hn
      cases hn
    | cons u us =>
      have hlen := length_free_zero hmgr hn
      by_cases hc : u.cancelled = true
      · rw [cancelAll_of_cancelled hmgr hc]
        exact ih hlen
      · rw [cancelAll_of_live hmgr hc]
        exact ih hlen

theorem Sound.destroy : Sound (c.destroy e) := by
  have hnil : (c.destroy e).txnMgr = [] := cancelAll_txnMgr e rfl
  refine ⟨fun _ => hnil, fun _ => rfl, ?_⟩
  rw [hnil]
  exact Nat.zero_le _

/-! ### Steps -/

theorem tidy_allocate_iff (hs : Sound c) (h : Tidy c) : Tidy (c.allocate e) ↔ ¬ c.Breaks (e, .allocate) := by
  show _ ↔ ¬ (c.state = .idle ∧ c.sends e = false)
  unfold Client.allocate
  by_cases hst : c.state = .idle
  · rw [if_neg (not_not_intro hst)]
    have hnil := hs.idle hst
    have hnone : c.outstanding = 0 := by rw [outstanding, hnil]; rfl
    have hks : ∀ m ∈ outcomes c.log, m = 1 := by
      have honce := h.once
      rw [hnone] at honce
      cases hout : outcomes c.log with
      | nil => simp
      | cons k ks =>
        rw [hout] at honce
        obtain ⟨hk, hks⟩ := honce
        intro m hm
        rcases mem_cons.mp hm with rfl | hm
        · exact hk
        · exact hks m hm
    have hout : (({ c with state := .allocating } : Client).emit .allocate |>.sendRequest e false .allocate).outstanding =
        (c.sends e).toNat := by
      refine (outstanding_sendAllocate (by show c.txnMgr.length < txnMax; rw [hnil]; decide)).trans ?_
      show c.outstanding + (c.sends e).toNat = _
      rw [hnone, Nat.zero_add]
    rw [tidy_sendRequest_iff, hout]
    show (0 + (c.sends e).toNat = 1 ∧ _) ∧ (TurnState.allocating = .allocating → _) ∧ _ ↔ _
    cases hsend : c.sends e with
    | true => exact iff_of_true ⟨⟨rfl, hks⟩, fun _ => Nat.zero_lt_one, honest_cons (c := c) h trivial⟩ (by simp)
    | false => simp [hst]
  · rw [if_pos hst]
    exact iff_of_true h (fun hb => hst hb.1)

theorem Sound.allocate (hs : Sound c) : Sound (c.allocate e) := by
  unfold Client.allocate
  split_ifs with hst
  · exact hs
  · refine Awake.sound (Awake.sendRequest ⟨?_, ?_, hs.room⟩)
    · intro hst
      cases hst
    · exact cons_ne_nil _ _

theorem tidy_onResponse_iff (hs : Sound c) (h : Tidy c) (m : StunMsg) : Tidy (c.onResponse e m) ↔
    ¬ ∃ j u, c.txnMgr.find m.txnId = some j ∧ c.txnMgr[j]? = some u ∧ c.BreaksOn e m u := by
  unfold Client.onResponse
  cases hj : c.txnMgr.find m.txnId with
  | none => exact iff_of_true h (by simp)
  | some j =>
    cases hu : c.txnMgr[j]? with
    | none => exact iff_of_true (by simpa [hu] using h) (by simp [hu])
    | some u =>
      have haw := hs.awake_of_mem (mem_of_getElem? hu)
      have hlen := (TxnMgr.free_perm hu).length_eq
      have hroom := haw.room
      rw [length_cons] at hlen
      simp only [bind_some, hu, map_some]
      rw [tidy_complete_iff m h haw.called (by omega) (countP_free waits hu)]
      simp [hu]

theorem Sound.onResponse (hs : Sound c) (m : StunMsg) : Sound (c.onResponse e m) := by
  unfold Client.onResponse
  split
  · exact hs
  · rename_i j u hju
    obtain ⟨j', -, hu⟩ := bind_eq_some_iff.mp hju
    obtain ⟨u', hu', hp⟩ := map_eq_some_iff.mp hu
    obtain ⟨rfl, rfl⟩ := Prod.mk.inj hp
    have haw := hs.awake_of_mem (mem_of_getElem? hu')
    have hlen := (TxnMgr.free_perm hu').length_eq
    have hroom := haw.room
    rw [length_cons] at hlen
    exact (Awake.complete (haw.same (by rfl) (by rfl) (by dsimp only; omega))).sound

theorem tidy_onMessage_iff (hs : Sound c) (h : Tidy c) (m : StunMsg) :
    Tidy (c.onMessage e m) ↔ ¬ c.Breaks (e, .message m) := by
  unfold Client.onMessage Breaks
  dsimp only
  by_cases hresp : m.isSuccess = true ∨ m.isError = true
  · rw [if_pos hresp, if_pos hresp]
    exact tidy_onResponse_iff hs h m
  · rw [if_neg hresp, if_neg hresp]
    by_cases htype : m.type = MsgType.dataIndication.toNat
    · rw [if_pos htype]
      cases hp : m.last attrXorPeerAddress with
      | none => exact iff_of_true h (by simp)
      | some p =>
        cases hd : m.last attrData with
        | none => exact iff_of_true h (by simp)
        | some d =>
          dsimp only
          constructor
          · rintro ht ⟨-, -, -, hno⟩
            exact hno ((addressOf_iff m attrXorPeerAddress e.stray).mp (ht.honest _ mem_cons_self))
          · intro hno
            push Not at hno
            have hdec := hno htype rfl rfl
            exact h.silent rfl rfl rfl (honest_cons h ((addressOf_iff m attrXorPeerAddress e.stray).mpr hdec))
    · rw [if_neg htype]
      exact iff_of_true h (fun hb => htype hb.1)

theorem Sound.onMessage (hs : Sound c) (m : StunMsg) : Sound (c.onMessage e m) := by
  unfold Client.onMessage
  split_ifs
  · exact hs.onResponse m
  · split
    · exact ⟨hs.idle, hs.called, hs.room⟩
    · exact hs
  · exact hs

theorem countP_set {j : ℕ} {v : Txn Ctx Bytes} (p : Txn Ctx Bytes → Bool) (h : mgr[j]? = some u) :
    (mgr.set j v).countP p + (p u).toNat = mgr.countP p + (p v).toNat := by
  obtain ⟨hj, rfl⟩ := List.getElem?_eq_some_iff.mp h
  have hsplit : mgr = mgr.take j ++ mgr[j] :: mgr.drop (j + 1) := by
    rw [getElem_cons_drop, take_append_drop]
  have hbool (q : Bool) : (if q = true then 1 else 0) = q.toNat := by cases q <;> rfl
  rw [set_eq_take_append_cons_drop, if_pos hj]
  conv_rhs => rw [hsplit]
  rw [countP_append, countP_append, countP_cons, countP_cons, hbool, hbool]
  omega

theorem tidy_onRetransmit_iff (hs : Sound c) (h : Tidy c) {j : ℕ} (ht : c.onRetransmit e j = some t) :
    Sound t ∧ (Tidy t ↔ ¬ c.Breaks (e, .retransmit j)) := by
  show Sound t ∧ (Tidy t ↔ ¬ ∃ u, c.txnMgr[j]? = some u ∧ _)
  unfold Client.onRetransmit TxnMgr.retransmit at ht
  cases hu : c.txnMgr[j]? with
  | none =>
    rw [hu] at ht
    cases ht
  | some u =>
    have haw := hs.awake_of_mem (mem_of_getElem? hu)
    rw [hu] at ht
    dsimp only at ht
    by_cases hc : u.cancelled = true
    · rw [if_pos hc] at ht
      cases ht
    · have hlive : u.live = true := by simpa [Txn.live] using hc
      rw [if_neg hc] at ht
      by_cases hmax : maxRetransmits ≤ u.retransmitCount
      · rw [if_pos hmax] at ht
        obtain rfl := some.inj ht
        have hcount := countP_set (v := { u with cancelled := true }) waits hu
        have hoff : waits { u with cancelled := true } = false := by simp [waits, Txn.live]
        rw [hoff, Bool.toNat_false, Nat.add_zero] at hcount
        have hlen : (c.txnMgr.set j { u with cancelled := true }).length ≤ txnMax := by
          rw [List.length_set]
          exact haw.room
        refine ⟨(Awake.complete (haw.same (by rfl) (by rfl) hlen)).sound, ?_⟩
        rw [tidy_complete_none_iff h haw.called hlive hcount]
        simp [hmax, show u.cancelled = false by simpa using hc]
      · rw [if_neg hmax] at ht
        obtain rfl := some.inj ht
        have hcount := countP_set (v := { u with retransmitCount := u.retransmitCount + 1 }) waits hu
        have hsame : waits { u with retransmitCount := u.retransmitCount + 1 } = waits u := rfl
        rw [hsame] at hcount
        refine ⟨Awake.sound ⟨haw.state, haw.called, ?_⟩, iff_of_true ?_ (by simp [hmax])⟩
        · show (c.txnMgr.set j _).length ≤ txnMax
          rw [List.length_set]
          exact haw.room
        · refine h.silent rfl ?_ rfl (honest_cons (c := c) h trivial)
          show (c.txnMgr.set j _).countP waits = c.txnMgr.countP waits
          omega

theorem honest_append {channels : List Channel} {b : Channel} (h : ev.Honest channels) :
    ev.Honest (channels ++ [b]) := by
  cases ev with
  | channelData n p a =>
    obtain ⟨x, hx, hn, ha⟩ := h
    exact ⟨x, mem_append_left _ hx, hn, ha⟩
  | allocated | data => exact h
  | _ => trivial

theorem tidy_step_iff {i : Env × Input} (hs : Sound c) (h : Tidy c) (ht : c.step i = some t) :
    Sound t ∧ (Tidy t ↔ ¬ c.Breaks i) := by
  obtain ⟨e, i⟩ := i
  cases i with
  | allocate =>
    obtain rfl := some.inj ht
    exact ⟨hs.allocate, tidy_allocate_iff hs h⟩
  | message m =>
    obtain rfl := some.inj ht
    exact ⟨hs.onMessage m, tidy_onMessage_iff hs h m⟩
  | retransmit j => exact tidy_onRetransmit_iff hs h ht
  | destroy =>
    obtain rfl := some.inj ht
    exact ⟨Sound.destroy, tidy_destroy_iff hs h⟩
  | createPermission peer =>
    obtain rfl := some.inj ht
    unfold Client.createPermission
    split_ifs with hst hroom hsp
    · exact ⟨hs, iff_of_true h not_false⟩
    · exact ⟨hs, iff_of_true h not_false⟩
    all_goals
      have hst : c.state = .allocated := not_not.mp hst
      have haw := hs.awake (by rw [hst]; exact TurnState.noConfusion)
      refine ⟨(Awake.sendRequest (haw.same (by rfl) (by rfl) (by exact haw.room))).sound, iff_of_true ?_ not_false⟩
      refine Tidy.sendRequest (h.silent rfl rfl rfl h.honest) ?_
      exact Ctx.noConfusion
  | channelBind peer =>
    obtain rfl := some.inj ht
    unfold Client.channelBind
    split_ifs with hst hroom hmax
    · exact ⟨hs, iff_of_true h not_false⟩
    · exact ⟨hs, iff_of_true h not_false⟩
    · exact ⟨hs, iff_of_true h not_false⟩
    · have hst : c.state = .allocated := not_not.mp hst
      have haw := hs.awake (by rw [hst]; exact TurnState.noConfusion)
      refine ⟨(Awake.sendRequest (haw.same (by rfl) (by rfl) (by exact haw.room))).sound, iff_of_true ?_ not_false⟩
      refine Tidy.sendRequest (h.silent rfl rfl rfl fun ev hev => honest_append (h.honest ev hev)) ?_
      exact Ctx.noConfusion
  | sendData peer data =>
    obtain rfl := some.inj ht
    split
    · exact ⟨hs, iff_of_true h not_false⟩
    · exact ⟨⟨hs.idle, hs.called, hs.room⟩,
        iff_of_true (h.silent rfl rfl rfl (honest_cons h trivial)) not_false⟩
  | channelData buf =>
    obtain rfl := some.inj ht
    unfold Client.onChannelData
    split
    · exact ⟨hs, iff_of_true h not_false⟩
    · split
      · exact ⟨hs, iff_of_true h not_false⟩
      · rename_i channel payload _ b hb
        have hp := List.find?_some hb
        rw [Bool.and_eq_true, decide_eq_true_eq] at hp
        exact ⟨⟨hs.idle, hs.called, hs.room⟩, iff_of_true
          (h.silent rfl rfl rfl (honest_cons h ⟨b, mem_of_find?_eq_some hb, hp.1, rfl⟩)) not_false⟩
  | refresh =>
    unfold Client.step at ht
    dsimp only at ht
    split_ifs at ht
    obtain rfl := some.inj ht
    unfold Client.refreshTimerCb
    dsimp only
    split_ifs with hst
    · exact ⟨⟨hs.idle, hs.called, hs.room⟩, iff_of_true (h.silent rfl rfl rfl h.honest) not_false⟩
    · have hst : c.state = .allocated := not_not.mp hst
      have haw := hs.awake (by rw [hst]; exact TurnState.noConfusion)
      refine ⟨(Awake.sendRequest (haw.same (by rfl) (by rfl) (by exact haw.room))).sound, iff_of_true ?_ not_false⟩
      refine Tidy.sendRequest (h.silent rfl rfl rfl h.honest) ?_
      exact Ctx.noConfusion
  | lapse number =>
    obtain rfl := some.inj ht
    exact ⟨⟨hs.idle, hs.called, hs.room⟩,
      iff_of_true (h.silent rfl rfl rfl (honest_cons h trivial)) not_false⟩

/-- **One outcome for every allocation**: in every run without a step that breaks the rule, it holds in every
state, and such a step always breaks it. -/
theorem outcome_iff_of_run {config : Config} {c t : Client} {i : Env × Input}
    (h : Run step (fun c i => ¬ c.Breaks i) (init config) c) (ht : c.step i = some t) :
    Tidy c ∧ (Tidy t ↔ ¬ c.Breaks i) := by
  have hinv : Sound c ∧ Tidy c := by
    refine h.preserves (I := fun c => Sound c ∧ Tidy c) ?_ ?_
    · rintro c i t ⟨hs, htidy⟩ hno hstep
      obtain ⟨hs', hiff⟩ := tidy_step_iff hs htidy hstep
      exact ⟨hs', hiff.mpr hno⟩
    · refine ⟨⟨fun _ => rfl, fun _ => rfl, Nat.zero_le _⟩, ⟨rfl, fun hst => TurnState.noConfusion hst, ?_⟩⟩
      intro ev hev
      exact absurd hev not_mem_nil
  exact ⟨hinv.2, (tidy_step_iff hinv.1 hinv.2 ht).2⟩

section Examples

theorem run_allocate : Run step (fun c i => ¬ c.Breaks i) (init someConfig) ((init someConfig).allocate someEnv) := by
  refine .single (m := (someEnv, .allocate)) ?_ rfl
  rintro ⟨-, hsends⟩
  exact absurd hsends (by decide)

/-- The answer to the first request. -/
theorem outcome_iff_of_run_allocate : ∃ c t, Run step (fun c i => ¬ c.Breaks i) (init someConfig) c ∧
    c.state = .allocating ∧ c.step (someEnv, .message allocateAnswer) = some t ∧ t.state = .allocated ∧
    Tidy c ∧ (Tidy t ↔ ¬ c.Breaks (someEnv, .message allocateAnswer)) :=
  ⟨_, _, run_allocate, rfl, rfl, rfl, outcome_iff_of_run run_allocate rfl⟩

def someChallenge : StunMsg := ⟨0x0113, someId.1, [⟨attrErrorCode, [0, 0, 4, 1], 0⟩]⟩

/-- The request with credentials is not sent, and nobody hears of it. -/
theorem not_tidy_unsent : ∃ c, Run step (fun _ _ => True) (init someConfig) c ∧ c.state = .allocating ∧ c.txnMgr = [] ∧
    outcomes c.log = [0] ∧ ¬ Tidy c := by
  let c := ((init someConfig).allocate someEnv).onMessage { someEnv with sendOk := false } someChallenge
  have hrun : Run step (fun _ _ => True) (init someConfig) c :=
    .tail (.single (m := (someEnv, .allocate)) trivial rfl)
      (m := ({ someEnv with sendOk := false }, .message someChallenge)) trivial rfl
  have hst : c.state = .allocating := rfl
  have hnil : c.txnMgr = [] := rfl
  refine ⟨c, hrun, hst, hnil, rfl, fun htidy => ?_⟩
  have hpos := htidy.allocating hst
  rw [outstanding, hnil] at hpos
  exact absurd hpos (Nat.lt_irrefl 0)

end Examples

end Client

end Libx.Turn
