import Libx.Ice.Candidate

/-!
# Libx.Ice.Txn — the transaction table of stun_txn.c

A transaction is a request under way: its identifier, where it goes, what is to be called when it ends
and how often it was repeated.  The table has 32 places, and one that has timed out keeps its place.
-/

namespace Libx.Ice

open List

/-- `xStunTxn`.  `ctx` stands for `on_complete` with its argument and `msg` for the request that
`msg_buf` holds; the timer runs exactly while `cancelled` is false. -/
structure Txn (ω μ : Type) where
  txnId : List UInt8
  sock : Option Sock
  dest : Addr
  ctx : ω
  msg : μ
  retransmitCount : ℕ := 0
  cancelled : Bool := false
  deriving DecidableEq, Repr

variable {ω μ : Type}

def Txn.live (t : Txn ω μ) : Bool := !t.cancelled

/-- `XSTUN_TXN_MAX`. -/
def txnMax : ℕ := 32

/-- `XSTUN_MAX_RETRANSMITS`. -/
def maxRetransmits : ℕ := 7

/-- `txns` and `count` of `xStunTxnMgr`. -/
abbrev TxnMgr (ω μ : Type) := List (Txn ω μ)

namespace TxnMgr

/-- `xStunTxnMgrSendRaw`; `sent` tells whether `send_fn` and the allocation succeed. -/
def sendRaw (mgr : TxnMgr ω μ) (t : Txn ω μ) (sent : Bool) : Option (TxnMgr ω μ) :=
  if txnMax ≤ mgr.length then none
  else if t.dest.family = .unspec then none
  else if sent then some (mgr ++ [t])
  else none

/-- `txn_find`. -/
def find (mgr : TxnMgr ω μ) (txnId : List UInt8) : Option ℕ := mgr.findIdx? (fun t => t.txnId = txnId)

/-- `txn_free` of a completed transaction: the last one takes its place. -/
def free (mgr : TxnMgr ω μ) (i : ℕ) : TxnMgr ω μ :=
  match mgr.getLast? with
  | none => mgr
  | some t => (mgr.set i t).dropLast

/-- What `txn_retransmit` does. -/
inductive Tick (ω μ : Type)
  | idle
  | timeout (t : Txn ω μ)
  | again (t : Txn ω μ)

/-- `txn_retransmit` of the `i`-th transaction, up to the callback. -/
def retransmit (mgr : TxnMgr ω μ) (i : ℕ) : TxnMgr ω μ × Tick ω μ :=
  match mgr[i]? with
  | none => (mgr, .idle)
  | some t =>
    if t.cancelled then (mgr, .idle)
    else if maxRetransmits ≤ t.retransmitCount then (mgr.set i { t with cancelled := true }, .timeout t)
    else (mgr.set i { t with retransmitCount := t.retransmitCount + 1 }, .again t)

variable {mgr mgr' : TxnMgr ω μ} {t : Txn ω μ} {i : ℕ} {b : Bool}

theorem sendRaw_eq_some (h : mgr.sendRaw t b = some mgr') : mgr' = mgr ++ [t] := by
  unfold sendRaw at h
  split_ifs at h
  injection h with h
  exact h.symm

theorem free_perm (h : mgr[i]? = some t) : (t :: mgr.free i).Perm mgr := by
  obtain ⟨hi, hget⟩ := List.getElem?_eq_some_iff.mp h
  unfold free
  have hne : mgr ≠ [] := ne_nil_of_length_pos (by omega)
  rw [List.getLast?_eq_getLast_of_ne_nil hne]
  obtain ⟨ms, u, rfl⟩ : ∃ ms u, mgr = ms ++ [u] := ⟨_, _, (dropLast_append_getLast hne).symm⟩
  rw [length_append, length_singleton] at hi
  dsimp only
  rw [getLast_append_of_ne_nil _ (by simp)]
  by_cases hlast : i = ms.length
  · subst hlast
    have hu : t = u := by simpa using hget.symm
    subst hu
    simp
    exact @perm_append_comm _ [t] ms
  · have hlt : i < ms.length := by omega
    have ht : ms[i] = t := by
      rw [getElem_append_left hlt] at hget
      exact hget
    rw [set_append_left _ _ hlt]
    simp only [getLast_singleton, dropLast_concat]
    refine List.Perm.trans ?_ (@perm_append_comm _ [u] _)
    rw [set_eq_take_append_cons_drop, if_pos hlt]
    have hsplit : ms = ms.take i ++ t :: ms.drop (i + 1) := by
      rw [← ht, getElem_cons_drop, take_append_drop]
    conv_rhs => rw [hsplit]
    refine (perm_middle.cons t).trans ?_
    refine (List.Perm.swap u t _).trans ?_
    exact List.Perm.cons u perm_middle.symm

end TxnMgr

end Libx.Ice
