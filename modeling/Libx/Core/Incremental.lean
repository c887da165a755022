import Mathlib

/-!
# Libx.Core.Incremental — parsers that are called again when more has come

A parser is called on its state and a buffer.  It gives an item, asks for more, or fails; what it has consumed is gone
from the buffer, and what it has understood of an unfinished item is in its state.
-/

namespace Libx.Core

open List

universe u v w x

variable {σ : Type u} {ρ : Type v} {α : Type w} {β γ : Type x}

/-- What a call comes to, with the state and what is left of the buffer. -/
inductive Call (σ : Type u) (ρ : Type v) (β : Type x)
  | more (s : σ) (b : β)
  | item (r : ρ) (s : σ) (b : β)
  | fail

/-- The items, and the state and the buffer unless it failed. -/
abbrev Drained (σ : Type u) (ρ : Type v) (β : Type x) := List ρ × Option (σ × β)

namespace Call

def map (f : β → γ) : Call σ ρ β → Call σ ρ γ
  | more s b => more s (f b)
  | item r s b => item r s (f b)
  | fail => fail

end Call

namespace Drained

def prepend (rs : List ρ) (d : Drained σ ρ β) : Drained σ ρ β := (rs ++ d.1, d.2)

def map (f : β → γ) (d : Drained σ ρ β) : Drained σ ρ γ := (d.1, d.2.map fun x => (x.1, f x.2))

@[simp] theorem prepend_nil (d : Drained σ ρ β) : prepend [] d = d := rfl

end Drained

open Drained (prepend)

/-- At most `n` calls, until one gives no item. -/
def drain (parse : σ → β → Call σ ρ β) : ℕ → σ → β → Drained σ ρ β
  | 0, s, b => ([], some (s, b))
  | n + 1, s, b =>
    match parse s b with
    | .more s b => ([], some (s, b))
    | .item r s b => prepend [r] (drain parse n s b)
    | .fail => ([], none)

/-- A piece is added and the buffer is drained; nothing more after a failure. -/
def feed (parse : σ → β → Call σ ρ β) (add : β → List α → β) (size : β → ℕ) (d : Drained σ ρ β) (piece : List α) :
    Drained σ ρ β :=
  match d.2 with
  | none => d
  | some (s, b) => prepend d.1 (drain parse (size (add b piece) + 1) s (add b piece))

def feedAll (parse : σ → β → Call σ ρ β) (add : β → List α → β) (size : β → ℕ) (s : σ) (b : β)
    (pieces : List (List α)) : Drained σ ρ β :=
  pieces.foldl (feed parse add size) ([], some (s, b))

/-- From a state with `I`, more input changes no call that gives an item or fails; one that asks for more can be taken up
where it left off; and an item consumes something. -/
structure Incremental (I : σ → Prop) (parse : σ → List α → Call σ ρ (List α)) : Prop where
  more : ∀ s l s' l', I s → parse s l = .more s' l' → I s' ∧ ∀ m, parse s (l ++ m) = parse s' (l' ++ m)
  item : ∀ s l r s' l', I s → parse s l = .item r s' l' →
    I s' ∧ l'.length < l.length ∧ ∀ m, parse s (l ++ m) = .item r s' (l' ++ m)
  fail : ∀ s l, I s → parse s l = .fail → ∀ m, parse s (l ++ m) = .fail

namespace Incremental

variable {I : σ → Prop} {parse : σ → List α → Call σ ρ (List α)} {s s' : σ} {l l' m : List α}

theorem drain_eq_drain (h : Incremental I parse) (hs : I s) {n k : ℕ} (hn : l.length < n) (hk : l.length < k) :
    drain parse n s l = drain parse k s l := by
  induction n generalizing k s l with
  | zero => exact absurd hn (Nat.not_lt_zero _)
  | succ n ih =>
    obtain ⟨k, rfl⟩ := Nat.exists_eq_succ_of_ne_zero (Nat.ne_zero_of_lt hk)
    rw [drain, drain]
    cases hcall : parse s l with
    | more s' l' | fail => rfl
    | item r s' l' =>
      obtain ⟨hs', hlt, -⟩ := h.item s l r s' l' hs hcall
      exact congrArg (prepend [r]) (ih hs' (by omega) (by omega))

theorem drain_append (h : Incremental I parse) (hs : I s) {n : ℕ} (hn : l.length < n) (k : ℕ)
    (hk : (l ++ m).length < k) :
    drain parse k s (l ++ m) =
      match (drain parse n s l).2 with
      | none => drain parse n s l
      | some (s', l') => prepend (drain parse n s l).1 (drain parse ((l' ++ m).length + 1) s' (l' ++ m)) := by
  induction n generalizing k s l with
  | zero => exact absurd hn (Nat.not_lt_zero _)
  | succ n ih =>
    obtain ⟨k, rfl⟩ := Nat.exists_eq_succ_of_ne_zero (Nat.ne_zero_of_lt hk)
    cases hcall : parse s l with
    | more s' l' =>
      obtain ⟨hs', hmore⟩ := h.more s l s' l' hs hcall
      have hdrain : drain parse (n + 1) s l = ([], some (s', l')) := by rw [drain, hcall]
      rw [hdrain]
      dsimp only
      rw [Drained.prepend_nil]
      -- the call that asked for more is taken up again
      rw [drain, drain, hmore m]
      cases hagain : parse s' (l' ++ m) with
      | more _ _ | fail => rfl
      | item r s'' l'' =>
        obtain ⟨hs'', hlt, -⟩ := h.item _ _ _ _ _ hs ((hmore m).trans hagain)
        obtain ⟨-, hlt', -⟩ := h.item _ _ _ _ _ hs' hagain
        exact congrArg (prepend [r]) (h.drain_eq_drain hs'' (by omega) (by omega))
    | fail =>
      have hdrain : drain parse (n + 1) s l = ([], none) := by rw [drain, hcall]
      rw [hdrain, drain, h.fail s l hs hcall m]
    | item r s' l' =>
      obtain ⟨hs', hlt, hitem⟩ := h.item s l r s' l' hs hcall
      have hlen : (l' ++ m).length < k := by
        rw [length_append] at hk ⊢
        omega
      have hdrain : drain parse (n + 1) s l = prepend [r] (drain parse n s' l') := by rw [drain, hcall]
      rw [hdrain, drain, hitem m]
      dsimp only
      rw [ih hs' (by omega) k hlen]
      unfold prepend
      cases hrest : (drain parse n s' l').2 with
      | none =>
        rw [hrest]
      | some x => rfl

theorem feedAll_append (h : Incremental I parse) (hs : I s) (pieces : List (List α)) (rs : List ρ) {n : ℕ}
    (hn : l.length < n) :
    pieces.foldl (feed parse (· ++ ·) List.length) (prepend rs (drain parse n s l)) =
      prepend rs (drain parse ((l ++ pieces.flatten).length + 1) s (l ++ pieces.flatten)) := by
  induction pieces generalizing l n with
  | nil => rw [foldl_nil, flatten_nil, List.append_nil, h.drain_eq_drain hs hn (Nat.lt_succ_self _)]
  | cons piece pieces ih =>
    have hstep : feed parse (· ++ ·) List.length (prepend rs (drain parse n s l)) piece =
        prepend rs (drain parse ((l ++ piece).length + 1) s (l ++ piece)) := by
      rw [h.drain_append hs hn _ (Nat.lt_succ_self _)]
      unfold feed prepend
      cases hd : (drain parse n s l).2 with
      | none =>
        rw [hd]
      | some x =>
        dsimp only
        rw [append_assoc]
    rw [foldl_cons, hstep, ih (Nat.lt_succ_self _), flatten_cons, append_assoc]

/-- **The items do not depend on the pieces**, from a state in which there is nothing to do. -/
theorem feedAll_eq (h : Incremental I parse) (hs : I s) (hrest : parse s [] = .more s []) (pieces : List (List α)) :
    feedAll parse (· ++ ·) List.length s [] pieces =
      drain parse (pieces.flatten.length + 1) s pieces.flatten := by
  have h0 : drain parse 1 s [] = ([], some (s, [])) := by rw [drain, hrest]
  have hall := h.feedAll_append hs (l := []) pieces [] Nat.zero_lt_one
  rw [h0] at hall
  exact hall

theorem drain_encode {ι : Type*} (h : Incremental I parse) (hs : I s) (hrest : parse s [] = .more s [])
    {encode : ι → List α} {parsed : ι → ρ} {is : List ι}
    (hone : ∀ i ∈ is, ∀ m, parse s (encode i ++ m) = .item (parsed i) s m) {n : ℕ}
    (hn : (is.flatMap encode).length < n) :
    drain parse n s (is.flatMap encode) = (is.map parsed, some (s, [])) := by
  induction is generalizing n with
  | nil =>
    obtain ⟨n, rfl⟩ := Nat.exists_eq_succ_of_ne_zero (Nat.ne_zero_of_lt hn)
    rw [flatMap_nil, drain, hrest]
    rfl
  | cons i is ih =>
    obtain ⟨n, rfl⟩ := Nat.exists_eq_succ_of_ne_zero (Nat.ne_zero_of_lt hn)
    have hcall := hone i (.head _) (is.flatMap encode)
    obtain ⟨-, hlt, -⟩ := h.item _ _ _ _ _ hs hcall
    rw [flatMap_cons] at hn ⊢
    rw [drain, hcall]
    dsimp only
    rw [ih (fun j hj => hone j (.tail _ hj)) (by omega)]
    rfl

end Incremental

/-! ### Buffers of another kind -/

section Map

variable {parse : σ → β → Call σ ρ β} {parse' : σ → γ → Call σ ρ γ} {f : β → γ}

theorem drain_map (h : ∀ s b, parse' s (f b) = (parse s b).map f) (n : ℕ) (s : σ) (b : β) :
    drain parse' n s (f b) = (drain parse n s b).map f := by
  induction n generalizing s b with
  | zero => rfl
  | succ n ih =>
    rw [drain, drain, h]
    cases parse s b with
    | more s' b' | fail => rfl
    | item r s' b' => exact congrArg (prepend [r]) (ih s' b')

theorem feedAll_map {add : β → List α → β} {add' : γ → List α → γ} {size : β → ℕ} {size' : γ → ℕ}
    (h : ∀ s b, parse' s (f b) = (parse s b).map f) (hadd : ∀ b l, add' (f b) l = f (add b l))
    (hsize : ∀ b, size' (f b) = size b) (s : σ) (b : β) (pieces : List (List α)) :
    feedAll parse' add' size' s (f b) pieces = (feedAll parse add size s b pieces).map f := by
  have hfeed (d : Drained σ ρ β) (piece : List α) :
      feed parse' add' size' (d.map f) piece = (feed parse add size d piece).map f := by
    obtain ⟨rs, o⟩ := d
    cases o with
    | none => rfl
    | some x =>
      unfold feed Drained.map
      dsimp only [Option.map_some]
      rw [hadd, hsize, drain_map h]
      rfl
  have h0 : (([], some (s, f b)) : Drained σ ρ γ) = Drained.map f ([], some (s, b)) := rfl
  unfold feedAll
  rw [h0]
  exact foldl_hom (Drained.map f) hfeed

end Map

end Libx.Core
