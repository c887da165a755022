import Libx.Core.Run
import Libx.Ice.Txn
import Libx.Ice.Writer

/-!
# Libx.Ice.Manager — a transaction manager over time

One `xStunTxnMgr` from `xStunTxnMgrInit` on: requests, retransmission timers, responses, cancellation, and
callbacks that start further transactions.  Transactions are numbered in the order of their acceptance.
-/

namespace Libx.Ice

open Libx.Core (Run)
open Libx.Agent (Bytes)
open List

/-- Where control is: outside, in a callback behind the manager's own work, or in a callback that
`txn_free` makes for `xStunTxnMgrCancelAll`. -/
inductive Control
  | idle | called | freeing
  deriving DecidableEq, Repr

/-- `xStunTxnMgr` with its history: the identifiers of the accepted transactions in order, and the
invocations of `on_complete`, newest first. -/
structure Manager where
  txns : TxnMgr ℕ Bytes := []
  ids : List Bytes := []
  calls : List (ℕ × Option StunMsg) := []
  control : Control := .idle

/-- What happens to a manager; `sent` tells whether the allocation and `send_fn` succeed. -/
inductive Manager.Request
  | send (type : MsgType) (attrs : Bytes) (dest : Addr) (txnId : TxnId) (sent : Bool)
  | sendRaw (msg : Bytes) (dest : Addr) (sent : Bool)
  | fire (i : ℕ)
  | response (msg : StunMsg)
  | cancelAll
  | ret

/-- `XSTUN_MAX_MSG_SIZE`. -/
def maxMsgSize : ℕ := 1280

namespace Manager

/-- The common end of `xStunTxnMgrSend` and `xStunTxnMgrSendRaw`. -/
def register (txnId msg : Bytes) (dest : Addr) (sent : Bool) (s : Manager) : Manager :=
  match s.txns.sendRaw { txnId, sock := none, dest, ctx := s.ids.length, msg } sent with
  | none => s
  | some txns => { s with txns, ids := s.ids ++ [txnId] }

/-- `xStunTxnMgrSend`; `generate_txn_id` drew `txnId`. -/
def send (type : MsgType) (attrs : Bytes) (dest : Addr) (txnId : TxnId) (sent : Bool) (s : Manager) : Manager :=
  match encode type txnId attrs maxMsgSize with
  | none => s
  | some msg => s.register txnId.1 msg dest sent

/-- `xStunTxnMgrSendRaw`. -/
def sendRaw (msg : Bytes) (dest : Addr) (sent : Bool) (s : Manager) : Manager :=
  if msg.length < headerSize ∨ maxMsgSize < msg.length then s
  else s.register ((msg.drop 8).take 12) msg dest sent

/-- `on_complete` of transaction `n` is invoked. -/
def call (n : ℕ) (msg : Option StunMsg) (s : Manager) : Manager := { s with calls := (n, msg) :: s.calls }

/-- The loop of `xStunTxnMgrCancelAll` up to the next callback; every turn empties a place. -/
def cancelFrom : ℕ → Manager → Manager
  | 0, s => { s with control := .idle }
  | n + 1, s =>
    match s.txns with
    | [] => { s with control := .idle }
    | t :: _ =>
      if t.cancelled then cancelFrom n { s with txns := s.txns.free 0 }
      else ({ s with txns := s.txns.set 0 { t with cancelled := true }, control := .freeing } : Manager).call t.ctx none

/-- `xStunTxnMgrOnResponse`. -/
def onResponse (msg : StunMsg) (s : Manager) : Manager :=
  match (s.txns.find msg.txnId).bind (fun i => (s.txns[i]?).map (fun t => (i, t))) with
  | none => s
  | some (i, t) => ({ s with txns := s.txns.free i, control := .called } : Manager).call t.ctx (some msg)

/-- `txn_retransmit` of the transaction at `i`, whose timer is armed unless it is cancelled. -/
def onTimer (i : ℕ) (s : Manager) : Option Manager :=
  match s.txns.retransmit i with
  | (_, .idle) => none
  | (txns, .timeout t) => some (({ s with txns, control := .called } : Manager).call t.ctx none)
  | (txns, .again _) => some { s with txns }

def callbackReturns (s : Manager) : Option Manager :=
  match s.control with
  | .idle => none
  | .called => some { s with control := .idle }
  | .freeing =>
    let s := { s with txns := s.txns.free 0 }
    some (s.cancelFrom s.txns.length)

/-- One step.  A callback starts transactions and comes back; everything else happens outside. -/
def step (s : Manager) : Request → Option Manager
  | .send type attrs dest txnId sent => some (s.send type attrs dest txnId sent)
  | .sendRaw msg dest sent => some (s.sendRaw msg dest sent)
  | .fire i => if s.control = .idle then s.onTimer i else none
  | .response msg => if s.control = .idle then some (s.onResponse msg) else none
  | .cancelAll => if s.control = .idle then some (s.cancelFrom s.txns.length) else none
  | .ret => s.callbackReturns

/-! ### What is promised -/

/-- How often `on_complete` of transaction `n` was invoked. -/
def completions (s : Manager) (n : ℕ) : ℕ := s.calls.countP (fun c => c.1 = n)

/-- The accepted transactions that have not completed. -/
def uncompleted (s : Manager) : List ℕ := (List.range s.ids.length).filter (fun n => s.completions n = 0)

/-- The manager accepts any `k` sound requests that are sent. -/
def Accepts (s : Manager) (k : ℕ) : Prop :=
  ∀ rs : List (Bytes × Addr), rs.length = k →
    (∀ r ∈ rs, headerSize ≤ r.1.length ∧ r.1.length ≤ maxMsgSize ∧ r.2.family ≠ .unspec) →
      (rs.foldl (fun s r => s.sendRaw r.1 r.2 true) s).ids.length = s.ids.length + k

/-- Every transaction completes at most once, and with a response to it or with none; the table holds the
transactions that have not completed, and in a callback of `txn_free` the one that it frees; and when all
have completed there is room for `XSTUN_TXN_MAX`. -/
structure Tidy (s : Manager) : Prop where
  once : ∀ n, s.completions n ≤ 1
  accepted : ∀ c ∈ s.calls, c.1 < s.ids.length
  answered : ∀ n msg, (n, some msg) ∈ s.calls → s.ids[n]? = some msg.txnId
  count : s.txns.length = s.uncompleted.length + if s.control = .freeing then 1 else 0
  room : s.uncompleted = [] → s.control ≠ .freeing → s.Accepts txnMax

/-- The transaction whose timer fires has been repeated `XSTUN_MAX_RETRANSMITS` times. -/
def TimesOut (s : Manager) : Request → Prop
  | .fire i => ∃ t, s.txns[i]? = some t ∧ t.cancelled = false ∧ maxRetransmits ≤ t.retransmitCount
  | _ => False

/-! ### Counting -/

variable {s t : Manager} {n : ℕ}

theorem completions_call (n m : ℕ) (msg : Option StunMsg) (s : Manager) :
    (s.call n msg).completions m = s.completions m + if n = m then 1 else 0 := by
  simp only [completions, call, countP_cons, decide_eq_true_eq]

theorem nodup_uncompleted (s : Manager) : s.uncompleted.Nodup :=
  List.Nodup.filter _ nodup_range

theorem mem_uncompleted : n ∈ s.uncompleted ↔ n < s.ids.length ∧ s.completions n = 0 := by
  simp [uncompleted]

theorem uncompleted_call {msg : Option StunMsg} (h : n ∈ s.uncompleted) :
    (n :: (s.call n msg).uncompleted).Perm s.uncompleted := by
  have heq : (s.call n msg).uncompleted = s.uncompleted.erase n := by
    rw [(nodup_uncompleted s).erase_eq_filter, uncompleted, uncompleted, filter_filter]
    apply filter_congr
    intro m _
    rw [completions_call, Bool.eq_iff_iff]
    by_cases hm : n = m
    · simp [hm]
    · simp [hm, Ne.symm hm]
  rw [heq]
  exact (perm_cons_erase h).symm

variable {txns : TxnMgr ℕ Bytes}

theorem uncompleted_accept {id : Bytes} (h : ∀ c ∈ s.calls, c.1 < s.ids.length) :
    ({ s with txns, ids := s.ids ++ [id] } : Manager).uncompleted = s.uncompleted ++ [s.ids.length] := by
  have hnone : s.completions s.ids.length = 0 := by
    rw [completions, countP_eq_zero]
    intro c hc
    have hlt := h c hc
    simp only [decide_eq_true_eq]
    omega
  show (List.range (s.ids ++ [id]).length).filter (fun n => s.completions n = 0) = _
  rw [length_append, length_singleton, range_succ, filter_append]
  simp [uncompleted, hnone]

/-! ### The invariant -/

/-- The transactions of the table that have not completed. -/
def waiting (s : Manager) : List ℕ := (s.txns.filter Txn.live).map Txn.ctx

/-- The table: what it holds, and which places belong to completed transactions. -/
structure Kept (s : Manager) : Prop where
  once : ∀ n, s.completions n ≤ 1
  accepted : ∀ c ∈ s.calls, c.1 < s.ids.length
  answered : ∀ n msg, (n, some msg) ∈ s.calls → s.ids[n]? = some msg.txnId
  named : ∀ t ∈ s.txns, s.ids[t.ctx]? = some t.txnId
  waiting : s.waiting.Perm s.uncompleted
  live : s.control ≠ .freeing → ∀ t ∈ s.txns, t.cancelled = false
  freeing : s.control = .freeing → ∃ t rest, s.txns = t :: rest ∧ t.cancelled = true ∧
    ∀ u ∈ rest, u.cancelled = false

theorem mem_uncompleted_of_mem {e : Txn ℕ Bytes} (h : Kept s) (he : e ∈ s.txns) (hl : e.cancelled = false) :
    e.ctx ∈ s.uncompleted := by
  apply h.waiting.subset
  exact mem_map_of_mem (mem_filter.mpr ⟨he, by rw [Txn.live, hl]; rfl⟩)

/-- What a completion leaves: the transaction is no longer waited for, whether or not it has gone from the
table. -/
theorem Kept.completed {e : Txn ℕ Bytes} {c : Control} {m : Option StunMsg} (h : Kept s)
    (he : e ∈ s.txns) (hl : e.cancelled = false) (hm : ∀ msg, m = some msg → msg.txnId = e.txnId)
    (hw : (e.ctx :: (txns.filter Txn.live).map Txn.ctx).Perm s.waiting)
    (hnamed : ∀ u ∈ txns, s.ids[u.ctx]? = some u.txnId) (hlive : c ≠ .freeing → ∀ u ∈ txns, u.cancelled = false)
    (hfree : c = .freeing → ∃ u rest, txns = u :: rest ∧ u.cancelled = true ∧ ∀ v ∈ rest, v.cancelled = false) :
    Kept (({ s with txns, control := c } : Manager).call e.ctx m) := by
  have hun := mem_uncompleted_of_mem h he hl
  obtain ⟨hlt, hzero⟩ := mem_uncompleted.mp hun
  constructor
  · intro n
    rw [completions_call]
    show s.completions n + _ ≤ 1
    have hn := h.once n
    split_ifs with heq
    · subst heq
      omega
    · omega
  · intro d hd
    rcases mem_cons.mp hd with rfl | hd
    · exact hlt
    · exact h.accepted d hd
  · intro n msg hmem
    rcases mem_cons.mp hmem with heq | hmem
    · obtain ⟨rfl, hmsg⟩ := Prod.mk.inj heq
      rw [hm msg hmsg.symm]
      exact h.named e he
    · exact h.answered n msg hmem
  · exact hnamed
  · have hcall : (e.ctx :: (({ s with txns, control := c } : Manager).call e.ctx m).uncompleted).Perm s.uncompleted :=
      uncompleted_call (s := { s with txns, control := c }) hun
    exact ((hw.trans h.waiting).trans hcall.symm).cons_inv
  · exact hlive
  · exact hfree

theorem Kept.control {c : Control} (h : Kept s)
    (hw : ((txns.filter Txn.live).map Txn.ctx).Perm s.waiting) (hnamed : ∀ u ∈ txns, s.ids[u.ctx]? = some u.txnId)
    (hlive : c ≠ .freeing → ∀ u ∈ txns, u.cancelled = false)
    (hfree : c = .freeing → ∃ u rest, txns = u :: rest ∧ u.cancelled = true ∧ ∀ v ∈ rest, v.cancelled = false) :
    Kept { s with txns, control := c } :=
  ⟨h.once, h.accepted, h.answered, hnamed, hw.trans h.waiting, hlive, hfree⟩

theorem Kept.register {id msg : Bytes} {dest : Addr} {sent : Bool} (h : Kept s) :
    Kept (s.register id msg dest sent) := by
  unfold Manager.register
  cases hreg : s.txns.sendRaw { txnId := id, sock := none, dest, ctx := s.ids.length, msg } sent with
  | none => exact h
  | some txns =>
    obtain rfl := TxnMgr.sendRaw_eq_some hreg
    have hold {k : ℕ} {b : Bytes} (hk : s.ids[k]? = some b) : (s.ids ++ [id])[k]? = some b := by
      rw [List.getElem?_append_left (List.getElem?_eq_some_iff.mp hk).1, hk]
    constructor
    · exact h.once
    · intro c hc
      have hlt := h.accepted c hc
      show c.1 < (s.ids ++ [id]).length
      rw [length_append]
      omega
    · exact fun n msg hmem => hold (h.answered n msg hmem)
    · intro u hu
      rcases mem_append.mp hu with hu | hu
      · exact hold (h.named u hu)
      · obtain rfl := mem_singleton.mp hu
        exact List.getElem?_concat_length
    · rw [uncompleted_accept h.accepted]
      show (((s.txns ++ [_]).filter Txn.live).map Txn.ctx).Perm _
      rw [filter_append, map_append]
      exact h.waiting.append (List.Perm.refl _)
    · intro hc u hu
      rcases mem_append.mp hu with hu | hu
      · exact h.live hc u hu
      · obtain rfl := mem_singleton.mp hu
        rfl
    · intro hc
      obtain ⟨u, rest, hu, hcan, hrest⟩ := h.freeing hc
      refine ⟨u, rest ++ [_], by dsimp only; rw [hu]; rfl, hcan, ?_⟩
      intro v hv
      rcases mem_append.mp hv with hv | hv
      · exact hrest v hv
      · obtain rfl := mem_singleton.mp hv
        rfl

theorem Kept.cancelFrom {k : ℕ} (h : Kept { s with control := .called }) (hl : ∀ u ∈ s.txns, u.cancelled = false) (hk : s.txns.length ≤ k) :
    Kept (s.cancelFrom k) := by
  have hidle (he : s.txns = []) : Kept { s with control := .idle } := by
    refine ⟨h.once, h.accepted, h.answered, h.named, h.waiting, fun _ => hl, ?_⟩
    exact fun hc => by cases hc
  cases k with
  | zero => exact hidle (length_eq_zero_iff.mp (by omega))
  | succ k =>
    unfold Manager.cancelFrom
    cases htx : s.txns with
    | nil =>
      have hnil := hidle htx
      rw [htx] at hnil
      exact hnil
    | cons e rest =>
      have hrest : ∀ v ∈ rest, v.cancelled = false := fun v hv => hl v (htx ▸ mem_cons_of_mem _ hv)
      have he : e ∈ s.txns := htx ▸ mem_cons_self
      dsimp only
      rw [if_neg (by rw [hl e he]; exact Bool.false_ne_true)]
      refine h.completed he (hl e he) (fun _ hm => by cases hm) ?_ ?_ (fun hc => absurd rfl hc)
        (fun _ => ⟨_, rest, rfl, rfl, hrest⟩)
      · rw [Manager.waiting, htx]
        simp [Txn.live, hl e he]
      · intro u hu
        rcases mem_cons.mp hu with rfl | hu
        · exact h.named e he
        · exact h.named u (htx ▸ mem_cons_of_mem _ hu)

/-! ### Steps -/

theorem Kept.onResponse (h : Kept s) (hc : s.control ≠ .freeing) (msg : StunMsg) : Kept (s.onResponse msg) := by
  unfold Manager.onResponse
  cases hfind : s.txns.find msg.txnId with
  | none => exact h
  | some i =>
    rw [Option.bind_some]
    cases hget : s.txns[i]? with
    | none => exact h
    | some e =>
      have he : e ∈ s.txns := mem_of_getElem? hget
      have hperm := TxnMgr.free_perm hget
      have hsub {u : Txn ℕ Bytes} (hu : u ∈ s.txns.free i) : u ∈ s.txns :=
        hperm.subset (mem_cons_of_mem _ hu)
      have hid : msg.txnId = e.txnId := by
        obtain ⟨hi, hp, -⟩ := List.findIdx?_eq_some_iff_getElem.mp hfind
        obtain ⟨hi', hget'⟩ := List.getElem?_eq_some_iff.mp hget
        rw [← hget']
        exact (of_decide_eq_true hp).symm
      refine h.completed he (h.live hc e he) ?_ ?_ (fun u hu => h.named u (hsub hu))
        (fun _ u hu => h.live hc u (hsub hu)) (fun hf => by cases hf)
      · rintro _ ⟨⟩
        exact hid
      · have hlive : e.live = true := by rw [Txn.live, h.live hc e he]; rfl
        have hmap := ((hperm.filter Txn.live).map Txn.ctx)
        rw [filter_cons_of_pos hlive, map_cons] at hmap
        exact hmap

theorem Kept.onTimer (h : Kept s) (hc : s.control ≠ .freeing) {i : ℕ} (ht : s.onTimer i = some t)
    (hno : ¬ s.TimesOut (.fire i)) : Kept t := by
  unfold Manager.onTimer at ht
  unfold TxnMgr.retransmit at ht
  cases hget : s.txns[i]? with
  | none =>
    rw [hget] at ht
    cases ht
  | some e =>
    have he : e ∈ s.txns := mem_of_getElem? hget
    have hl := h.live hc e he
    have hcount : ¬ maxRetransmits ≤ e.retransmitCount := fun hle => hno ⟨e, hget, hl, hle⟩
    rw [hget] at ht
    dsimp only at ht
    rw [if_neg (by rw [hl]; exact Bool.false_ne_true), if_neg hcount] at ht
    obtain rfl := Option.some.inj ht
    obtain ⟨hi, hget'⟩ := List.getElem?_eq_some_iff.mp hget
    have hmem {u : Txn ℕ Bytes} (hu : u ∈ s.txns.set i { e with retransmitCount := e.retransmitCount + 1 }) :
        ∃ v ∈ s.txns, u.ctx = v.ctx ∧ u.txnId = v.txnId ∧ u.cancelled = v.cancelled := by
      rcases mem_or_eq_of_mem_set hu with hu | rfl
      · exact ⟨u, hu, rfl, rfl, rfl⟩
      · exact ⟨e, he, rfl, rfl, rfl⟩
    refine h.control ?_ ?_ ?_ (fun hf => absurd hf hc)
    · have heq (f : Txn ℕ Bytes → ℕ × Bool)
          (hf : f { e with retransmitCount := e.retransmitCount + 1 } = f e) :
          (s.txns.set i { e with retransmitCount := e.retransmitCount + 1 }).map f = s.txns.map f := by
        rw [map_set, hf, ← hget', ← getElem_map f (h := by rwa [length_map]), set_getElem_self]
      have hpair := heq (fun u => (u.ctx, u.cancelled)) rfl
      have hctx (l : List (Txn ℕ Bytes)) : (l.filter Txn.live).map Txn.ctx =
          ((l.map (fun u => (u.ctx, u.cancelled))).filter (fun p => !p.2)).map Prod.fst := by
        rw [filter_map, map_map]
        rfl
      rw [Manager.waiting, hctx, hctx, hpair]
    · intro u hu
      obtain ⟨v, hv, h1, h2, -⟩ := hmem hu
      rw [h1, h2]
      exact h.named v hv
    · intro _ u hu
      obtain ⟨v, hv, -, -, h3⟩ := hmem hu
      rw [h3]
      exact h.live hc v hv

theorem Kept.callbackReturns (h : Kept s) (ht : s.callbackReturns = some t) : Kept t := by
  unfold Manager.callbackReturns at ht
  cases hc : s.control with
  | idle =>
    rw [hc] at ht
    cases ht
  | called =>
    rw [hc] at ht
    obtain rfl := Option.some.inj ht
    refine h.control (List.Perm.refl _) h.named (fun _ => h.live (by rw [hc]; decide)) (fun hf => by cases hf)
  | freeing =>
    rw [hc] at ht
    obtain rfl := Option.some.inj ht
    obtain ⟨u, rest, htx, hcan, hrest⟩ := h.freeing hc
    have hperm : (u :: s.txns.free 0).Perm s.txns := TxnMgr.free_perm (by rw [htx]; rfl)
    have hsub {v : Txn ℕ Bytes} (hv : v ∈ s.txns.free 0) : v ∈ s.txns := hperm.subset (mem_cons_of_mem _ hv)
    have hlive : ∀ v ∈ s.txns.free 0, v.cancelled = false := by
      intro v hv
      have hvr : v ∈ rest := by
        have hperm' : (u :: s.txns.free 0).Perm (u :: rest) := by rw [← htx]; exact hperm
        exact hperm'.cons_inv.subset hv
      exact hrest v hvr
    have hwait : (((s.txns.free 0).filter Txn.live).map Txn.ctx).Perm s.waiting := by
      have hmap := (hperm.filter Txn.live).map Txn.ctx
      rw [filter_cons_of_neg (by rw [Txn.live, hcan]; decide)] at hmap
      exact hmap
    have hmid : Kept { s with txns := s.txns.free 0, control := .called } :=
      h.control hwait (fun v hv => h.named v (hsub hv)) (fun _ => hlive) (fun hf => by cases hf)
    exact hmid.cancelFrom (s := { s with txns := s.txns.free 0, control := .freeing }) hlive (Nat.le_refl _)

theorem Kept.cancelAll (h : Kept s) (hc : s.control ≠ .freeing) : Kept (s.cancelFrom s.txns.length) :=
  (h.control (c := .called) (List.Perm.refl _) h.named (fun _ => h.live hc) (fun hf => by cases hf)).cancelFrom
    (h.live hc) (Nat.le_refl _)

/-- **One step.** Everything but a timeout keeps the table. -/
theorem Kept.step {r : Request} (h : Kept s) (hno : ¬ s.TimesOut r) (ht : s.step r = some t) : Kept t := by
  have hidle (hc : s.control = .idle) : s.control ≠ .freeing := by rw [hc]; decide
  cases r with
  | send type attrs dest txnId sent =>
    obtain rfl := Option.some.inj ht
    unfold Manager.send
    split
    · exact h
    · exact h.register
  | sendRaw msg dest sent =>
    obtain rfl := Option.some.inj ht
    unfold Manager.sendRaw
    split_ifs
    · exact h
    · exact h.register
  | fire i =>
    rw [Manager.step] at ht
    split_ifs at ht with hc
    exact h.onTimer (hidle hc) ht hno
  | response msg =>
    rw [Manager.step] at ht
    split_ifs at ht with hc
    obtain rfl := Option.some.inj ht
    exact h.onResponse (hidle hc) msg
  | cancelAll =>
    rw [Manager.step] at ht
    split_ifs at ht with hc
    obtain rfl := Option.some.inj ht
    exact h.cancelAll (hidle hc)
  | ret => exact h.callbackReturns ht

/-! ### The promise -/

theorem length_txns (h : Kept s) :
    s.txns.length = s.uncompleted.length + if s.control = .freeing then 1 else 0 := by
  have hlen : (s.txns.filter Txn.live).length = s.uncompleted.length := by
    rw [← h.waiting.length_eq, waiting, length_map]
  by_cases hc : s.control = .freeing
  · obtain ⟨u, rest, htx, hcan, hrest⟩ := h.freeing hc
    have hall : rest.filter Txn.live = rest :=
      filter_eq_self.mpr (fun v hv => by rw [Txn.live, hrest v hv]; rfl)
    rw [if_pos hc, ← hlen, htx, filter_cons_of_neg (by rw [Txn.live, hcan]; decide), hall, length_cons]
  · have hall : s.txns.filter Txn.live = s.txns :=
      filter_eq_self.mpr (fun v hv => by rw [Txn.live, h.live hc v hv]; rfl)
    rw [if_neg hc, ← hlen, hall, Nat.add_zero]

theorem accepts_of_length {k : ℕ} (h : s.txns.length + k ≤ txnMax) : s.Accepts k := by
  intro rs
  induction rs generalizing s k with
  | nil =>
    rintro rfl -
    rfl
  | cons r rs ih =>
    intro hlen hok
    obtain ⟨h1, h2, h3⟩ := hok r mem_cons_self
    rw [length_cons] at hlen
    have hreg : s.sendRaw r.1 r.2 true = { s with
        txns := s.txns ++ [{ txnId := (r.1.drop 8).take 12, sock := none, dest := r.2, ctx := s.ids.length, msg := r.1 }],
        ids := s.ids ++ [(r.1.drop 8).take 12] } := by
      rw [Manager.sendRaw, if_neg (by omega), Manager.register, TxnMgr.sendRaw, if_neg (by omega), if_neg h3,
        if_pos rfl]
    have hrec := ih (s := s.sendRaw r.1 r.2 true) (k := k - 1)
      (by rw [hreg]; simp only [length_append, length_singleton]; omega) (by omega)
      (fun r' hr' => hok r' (mem_cons_of_mem _ hr'))
    rw [foldl_cons, hrec, hreg]
    simp only [length_append, length_singleton]
    omega

theorem Kept.tidy (h : Kept s) : Tidy s := by
  refine ⟨h.once, h.accepted, h.answered, length_txns h, fun hnil hc => ?_⟩
  have hlen := length_txns h
  rw [hnil, if_neg hc] at hlen
  exact accepts_of_length (by rw [hlen]; exact Nat.le_refl _)

theorem not_tidy_of_timesOut {r : Request} (h : Kept s) (hout : s.TimesOut r) (ht : s.step r = some t) :
    ¬ Tidy t := by
  cases r with
  | fire i =>
    obtain ⟨e, hget, hl, hcount⟩ := hout
    rw [Manager.step] at ht
    split_ifs at ht with hc
    have hout : s.onTimer i = some (({ s with txns := s.txns.set i { e with cancelled := true }, control := .called } :
        Manager).call e.ctx none) := by
      unfold Manager.onTimer TxnMgr.retransmit
      rw [hget]
      dsimp only
      rw [if_neg (by rw [hl]; exact Bool.false_ne_true), if_pos hcount]
    rw [hout] at ht
    obtain rfl := Option.some.inj ht
    intro htidy
    have hun := mem_uncompleted_of_mem h (mem_of_getElem? hget) hl
    have hperm := (@uncompleted_call { s with
      txns := s.txns.set i { e with cancelled := true }, control := .called } e.ctx none hun).length_eq
    have hcount := htidy.count
    have hlen := length_txns h
    rw [if_neg (by show Control.called ≠ .freeing; decide)] at hcount
    rw [length_cons] at hperm
    have hset : (({ s with txns := s.txns.set i { e with cancelled := true }, control := .called } :
        Manager).call e.ctx none).txns.length = s.txns.length := List.length_set
    have hsame : ({ s with txns := s.txns.set i { e with cancelled := true }, control := .called } :
        Manager).uncompleted = s.uncompleted := rfl
    rw [hsame] at hperm
    omega
  | _ => exact hout.elim

theorem kept_init : Kept {} := by
  refine ⟨fun n => Nat.zero_le _, ?_, ?_, ?_, List.Perm.refl _, ?_, ?_⟩
  · exact fun c hc => absurd hc not_mem_nil
  · exact fun n msg hmem => absurd hmem not_mem_nil
  · exact fun u hu => absurd hu not_mem_nil
  · exact fun _ u hu => absurd hu not_mem_nil
  · exact fun hc => by cases hc

/-- **Every transaction completes exactly once and frees its place**, in every state of every run in which no
transaction times out, and a timeout is what breaks it. -/
theorem tidy_iff_of_run (s t : Manager) (r : Request) (h : Run step (fun s r => ¬ s.TimesOut r) {} s)
    (ht : s.step r = some t) : Tidy s ∧ (Tidy t ↔ ¬ s.TimesOut r) := by
  have hkept : Kept s := h.preserves (fun _ _ _ hk hno hs => hk.step hno hs) kept_init
  refine ⟨hkept.tidy, ?_, fun hno => (hkept.step hno ht).tidy⟩
  exact fun htidy hout => not_tidy_of_timesOut hkept hout ht htidy

/-! ### Two runs -/

section Examples

/-- A request whose identifier is twelve times `n`. -/
def someRequest (n : UInt8) : Request :=
  .sendRaw ([0, 1, 0, 0, 0x21, 0x12, 0xA4, 0x42] ++ List.replicate 12 n) (.v4 3232235777 3478) true

def someResponse (n : UInt8) : Request := .response ⟨0x0101, List.replicate 12 n, []⟩

theorem run_without_timers (p : Manager → Bool) (rs : List Request)
    (h : Core.replay step (fun _ r => match r with | .fire _ => false | _ => true) p {} rs = true) :
    ∃ s, Run step (fun s r => ¬ s.TimesOut r) {} s ∧ p s = true := by
  refine Core.exists_run_of_replay step _ _ p ?_ h
  intro s r hr hout
  cases r with
  | fire => exact Bool.false_ne_true hr
  | _ => exact hout

/-- An answered transaction whose callback starts another, and the cancellation of the rest. -/
theorem tidy_iff_of_run_cancelled : ∃ s t, Run step (fun s r => ¬ s.TimesOut r) {} s ∧ s.calls.length = 2 ∧
    s.step .ret = some t ∧ Tidy s ∧ (Tidy t ↔ ¬ s.TimesOut .ret) := by
  obtain ⟨s, hrun, hp⟩ := run_without_timers (fun s => decide (s.calls.length = 2) && (s.step .ret).isSome)
    [someRequest 1, someRequest 2, someResponse 1, someRequest 3, .ret, .cancelAll] (by decide +kernel)
  rw [Bool.and_eq_true, decide_eq_true_eq] at hp
  obtain ⟨t, ht⟩ := Option.isSome_iff_exists.mp hp.2
  exact ⟨s, t, hrun, hp.1, ht, tidy_iff_of_run s t .ret hrun ht⟩

/-- A transaction that has timed out keeps its place, and a late response completes it again. -/
theorem not_tidy_lateResponse : ∃ s, Run step (fun _ _ => True) {} s ∧ s.completions 0 = 2 ∧ ¬ Tidy s := by
  have hreplay : Core.replay step (fun _ _ => true) (fun s => decide (s.completions 0 = 2)) {}
      (someRequest 1 :: List.replicate 8 (.fire 0) ++ [.ret, someResponse 1]) = true := by decide +kernel
  obtain ⟨s, hrun, hp⟩ := Core.exists_run_of_replay step (fun _ _ => True) (fun _ _ => true)
    (fun s => decide (s.completions 0 = 2)) (fun _ _ _ => trivial) hreplay
  have htwo := of_decide_eq_true hp
  refine ⟨s, hrun, htwo, fun htidy => ?_⟩
  have hone := htidy.once 0
  omega

end Examples

end Manager

end Libx.Ice
