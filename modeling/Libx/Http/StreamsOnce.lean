import Libx.Http.Streams

/-!
# Libx.Http.StreamsOnce — every struct has an owner until it is destroyed
-/

namespace Libx.Http

open List Function Option

namespace H2Conn

open Libx.Core (Run replay exists_run_of_replay)

def Owned (c : H2Conn) (s : ℕ) : Prop :=
  c.userData (c.streams s).id = some s ∨ c.stream = some s ∨ s ∈ c.waiting

structure Inv (c : H2Conn) : Prop where
  safe : c.faulted = false
  data : ∀ id s, c.userData id = some s → s < c.made ∧ (c.streams s).id = id
  owned : c.phase ≠ .closed → ∀ s, c.Owned s ↔ s < c.made ∧ s ∉ c.freed
  closed : c.phase = .closed → ∀ s < c.made, s ∈ c.freed
  flag : ∀ s < c.made, s ∉ c.freed → ((c.streams s).closedByPeer = true ↔ c.userData (c.streams s).id ≠ some s)
  freed : c.freed.Nodup ∧ ∀ s ∈ c.freed, s < c.made
  waiting : c.waiting.Nodup ∧ ∀ s ∈ c.waiting,
    s ∈ c.completed ∧ s ∉ c.dispatched ∧ (c.userData (c.streams s).id ≠ some s → s ∈ c.resets)
  dispatched : c.dispatched.Nodup ∧ ∀ s ∈ c.dispatched, s ∈ c.completed
  completed : ∀ s ∈ c.completed, s < c.made ∧ (s ∈ c.dispatched ∨ s ∈ c.waiting ∨ s ∈ c.resets)
  handling : ∀ s, c.phase = .handling s → c.stream = some s ∧ s ∈ c.dispatched
  flushing : c.phase = .flushing → c.pending = []

variable {c c' : H2Conn} {s id : ℕ}

theorem inv_init : Inv {} where
  safe := rfl
  data _ _ h := nomatch h
  owned _ s := by simp [Owned, waiting]
  closed h := nomatch h
  flag s h := absurd h (Nat.not_lt_zero s)
  freed := ⟨nodup_nil, nofun⟩
  waiting := ⟨nodup_nil, nofun⟩
  dispatched := ⟨nodup_nil, nofun⟩
  completed := nofun
  handling _ h := nomatch h
  flushing h := nomatch h

theorem Inv.served (h : Inv c) : c.Served where
  safe := h.safe
  once := h.dispatched
  all hphase s hs := by
    have hw : c.waiting = [] := if_pos hphase
    obtain ⟨-, hd | hw' | hr⟩ := h.completed s hs
    · exact .inl hd
    · rw [hw] at hw'
      cases hw'
    · exact .inr hr
  freedOnce := h.freed
  freedAll := h.closed

/-! ### Structs that are there -/

theorem use_of_notMem (hs : s ∉ c.freed) : c.use s = c := if_neg hs

theorem Inv.alive (h : Inv c) (hc : c.phase ≠ .closed) (ho : c.Owned s) : s < c.made ∧ s ∉ c.freed :=
  (h.owned hc s).1 ho

theorem Inv.use (h : Inv c) (hc : c.phase ≠ .closed) (ho : c.Owned s) : c.use s = c :=
  use_of_notMem (h.alive hc ho).2

theorem Inv.owned_of_data (h : Inv c) (hd : c.userData id = some s) : c.Owned s :=
  .inl (by rw [(h.data id s hd).2, hd])

theorem waiting_of_phase (h : c.phase ≠ .idle) (h' : c.phase ≠ .closed) : c.waiting = c.pending :=
  if_neg (by rintro (e | e); exacts [h e, h' e])

theorem Inv.congr (h : Inv c) (hsafe : c'.faulted = false) (hid : ∀ t, (c'.streams t).id = (c.streams t).id)
    (hflag : ∀ t, (c'.streams t).closedByPeer = (c.streams t).closedByPeer) (hmade : c'.made = c.made)
    (hdata : c'.userData = c.userData) (hstream : c'.stream = c.stream) (hfreed : c'.freed = c.freed)
    (hcompleted : c'.completed = c.completed) (hdispatched : c'.dispatched = c.dispatched)
    (hresets : c'.resets = c.resets) (hwaiting : c'.waiting = c.waiting) (hc : c.phase ≠ .closed)
    (hc' : c'.phase ≠ .closed) (hhandling : ∀ s, c'.phase = .handling s → c.stream = some s ∧ s ∈ c.dispatched)
    (hflushing : c'.phase = .flushing → c'.pending = []) : Inv c' where
  safe := hsafe
  data id s hd := by
    rw [hdata] at hd
    rw [hmade, hid]
    exact h.data id s hd
  owned _ s := by
    rw [Owned, hid, hdata, hstream, hwaiting, hmade, hfreed]
    exact h.owned hc s
  closed e := absurd e hc'
  flag s := by
    rw [hmade, hfreed, hflag, hid, hdata]
    exact h.flag s
  freed := by
    rw [hfreed, hmade]
    exact h.freed
  waiting := by
    rw [hwaiting, hcompleted, hdispatched, hdata, hresets]
    simpa only [hid] using h.waiting
  dispatched := by
    rw [hdispatched, hcompleted]
    exact h.dispatched
  completed := by
    rw [hcompleted, hmade, hdispatched, hwaiting, hresets]
    exact h.completed
  handling s e := by
    rw [hstream, hdispatched]
    exact hhandling s e
  flushing := hflushing

theorem Inv.keepAlive (h : Inv c) (hc : c.phase ≠ .closed) (b : Bool) : Inv { c with keepAlive := b } :=
  h.congr h.safe (fun _ => rfl) (fun _ => rfl) rfl rfl rfl rfl rfl rfl rfl rfl hc hc h.handling h.flushing

theorem setStream_streams (c : H2Conn) (s : ℕ) (x : H2Stream) (t : ℕ) :
    (c.setStream s x).streams t = if t = s then x else c.streams t := update_apply ..

theorem Inv.setStream (h : Inv c) (hc : c.phase ≠ .closed) {x : H2Stream} (hid : x.id = (c.streams s).id)
    (hflag : x.closedByPeer = (c.streams s).closedByPeer) : Inv (c.setStream s x) := by
  refine h.congr h.safe (fun t => ?_) (fun t => ?_) rfl rfl rfl rfl rfl rfl rfl rfl hc hc h.handling h.flushing
  · rw [setStream_streams]
    split
    · next e => rw [e, hid]
    · rfl
  · rw [setStream_streams]
    split
    · next e => rw [e, hflag]
    · rfl

variable {p : H2Phase}

theorem Inv.goto (h : Inv c) {l : List ℕ} (hc : c.phase ≠ .closed) (hp : p ≠ .closed)
    (hwaiting : H2Conn.waiting { c with phase := p, pending := l } = c.waiting)
    (hhandling : ∀ s, p = .handling s → c.stream = some s ∧ s ∈ c.dispatched) (hflushing : p = .flushing → l = []) :
    Inv { c with phase := p, pending := l } :=
  h.congr h.safe (fun _ => rfl) (fun _ => rfl) rfl rfl rfl rfl rfl rfl rfl hwaiting hc hp hhandling hflushing

theorem waiting_goto (c : H2Conn) (l : List ℕ) (hi : p ≠ .idle) (hc : p ≠ .closed) :
    H2Conn.waiting { c with phase := p, pending := l } = l := waiting_of_phase hi hc

theorem Inv.within (h : Inv c) (hi : c.phase ≠ .idle) (hc : c.phase ≠ .closed) (hi' : p ≠ .idle)
    (hc' : p ≠ .closed) (hhandling : ∀ s, p ≠ .handling s) (hflushing : p = .flushing → c.pending = []) :
    Inv { c with phase := p } :=
  h.goto hc hc' ((waiting_goto c c.pending hi' hc').trans (waiting_of_phase hi hc).symm)
    (fun s e => absurd e (hhandling s)) hflushing

/-! ### The callbacks -/

theorem inv_onContent (h : Inv c) (hc : c.phase ≠ .closed) (id : ℕ) : c.onContent id = c := by
  rw [onContent]
  cases hd : c.userData id with
  | none => rfl
  | some s => exact h.use hc (h.owned_of_data hd)

theorem inv_onFrameRecv (h : Inv c) (hphase : c.phase = .receiving) (hnew : ∀ s ∈ c.userData id, s ∉ c.completed)
    (hroom : (c.userData id).isSome → c.pending.length < maxPendingDispatch) : Inv (c.onFrameRecv id) := by
  have hc : c.phase ≠ .closed := by rw [hphase]; nofun
  have hi : c.phase ≠ .idle := by rw [hphase]; nofun
  rw [onFrameRecv]
  cases hd : c.userData id with
  | none => exact h
  | some s =>
    dsimp only
    have hs := hnew s hd
    have ho := h.owned_of_data hd
    have hw : c.waiting = c.pending := waiting_of_phase hi hc
    rw [h.use hc ho, if_pos (hroom (by rw [hd]; rfl))]
    have hw' : H2Conn.waiting { c with completed := c.completed ++ [s], pending := c.pending ++ [s] } = c.waiting ++ [s] := by
      rw [hw]
      exact waiting_of_phase hi hc
    have hnot : s ∉ c.waiting := fun hin => hs (h.waiting.2 s hin).1
    refine { h with owned := fun _ t => ?_, waiting := ?_, dispatched := ?_, completed := ?_, flushing := ?_ }
    · rw [Owned, hw', ← h.owned hc t, Owned]
      constructor
      · rintro (h1 | h2 | h3)
        · exact .inl h1
        · exact .inr (.inl h2)
        · obtain h3 | h3 := mem_append.1 h3
          · exact .inr (.inr h3)
          · obtain rfl := mem_singleton.1 h3
            exact ho
      · rintro (h1 | h2 | h3)
        · exact .inl h1
        · exact .inr (.inl h2)
        · exact .inr (.inr (mem_append_left _ h3))
    · rw [hw']
      refine ⟨h.waiting.1.append (nodup_singleton s) ?_, fun t ht => ?_⟩
      · intro t ht ht'
        obtain rfl := mem_singleton.1 ht'
        exact hnot ht
      · obtain ht | ht := mem_append.1 ht
        · obtain ⟨h1, h2⟩ := h.waiting.2 t ht
          exact ⟨mem_append_left _ h1, h2⟩
        · obtain rfl := mem_singleton.1 ht
          refine ⟨mem_append_right _ ht, fun hin => hs (h.dispatched.2 t hin), fun hne => ?_⟩
          rw [(h.data id t hd).2, hd] at hne
          exact absurd rfl hne
    · exact ⟨h.dispatched.1, fun t ht => mem_append_left _ (h.dispatched.2 t ht)⟩
    · intro t ht
      rw [hw']
      obtain ht | ht := mem_append.1 ht
      · obtain ⟨h1, h2 | h3 | h4⟩ := h.completed t ht
        · exact ⟨h1, .inl h2⟩
        · exact ⟨h1, .inr (.inl (mem_append_left _ h3))⟩
        · exact ⟨h1, .inr (.inr h4)⟩
      · obtain rfl := mem_singleton.1 ht
        exact ⟨(h.data id t hd).1, .inr (.inl (mem_append_right _ ht))⟩
    · rintro e
      rw [hphase] at e
      cases e

theorem Inv.userData_close (h : Inv c) (hd : c.userData id = some s) (t : ℕ) :
    Function.update c.userData id none (c.streams t).id = some t ↔ c.userData (c.streams t).id = some t ∧ t ≠ s := by
  by_cases ht : (c.streams t).id = id
  · rw [ht, update_self, hd]
    constructor
    · nofun
    · rintro ⟨e, hne⟩
      exact absurd (some.inj e).symm hne
  · rw [update_of_ne ht]
    refine ⟨fun e => ⟨e, ?_⟩, And.left⟩
    rintro rfl
    exact ht (h.data id t hd).2

theorem Inv.closeData (h : Inv c) (hd : c.userData id = some s) {k t : ℕ}
    (hk : Function.update c.userData id none k = some t) : t < c.made ∧ (c.streams t).id = k ∧ t ≠ s := by
  by_cases hki : k = id
  · rw [hki, update_self] at hk
    cases hk
  · rw [update_of_ne hki] at hk
    obtain ⟨h1, h2⟩ := h.data k t hk
    refine ⟨h1, h2, ?_⟩
    rintro rfl
    exact hki (h2.symm.trans (h.data id t hd).2)

theorem Inv.closeResets (h : Inv c) (hd : c.userData id = some s) :
    (∀ t ∈ c.waiting, t ∈ c.completed ∧ t ∉ c.dispatched ∧
      (Function.update c.userData id none (c.streams t).id ≠ some t →
        t ∈ if s ∈ c.dispatched then c.resets else c.resets ++ [s])) ∧
    ∀ t ∈ c.completed, t < c.made ∧ (t ∈ c.dispatched ∨ t ∈ c.waiting ∨
      t ∈ if s ∈ c.dispatched then c.resets else c.resets ++ [s]) := by
  have hmono : ∀ t ∈ c.resets, t ∈ if s ∈ c.dispatched then c.resets else c.resets ++ [s] := fun t ht => by
    split
    · exact ht
    · exact mem_append_left _ ht
  refine ⟨fun t ht => ?_, fun t ht => ?_⟩
  · obtain ⟨h1, h2, h3⟩ := h.waiting.2 t ht
    refine ⟨h1, h2, fun hne => ?_⟩
    by_cases hts : t = s
    · rw [← hts, if_neg h2]
      exact mem_append_right _ (mem_singleton_self t)
    · exact hmono t (h3 fun e => hne ((h.userData_close hd t).2 ⟨e, hts⟩))
  · obtain ⟨h1, h2⟩ := h.completed t ht
    exact ⟨h1, h2.imp_right (Or.imp_right (hmono t))⟩

theorem inv_onStreamClose (h : Inv c) (hphase : c.InSession) (hok : ∀ s ∈ c.userData id, c.stream = some s ∨ s ∉ c.pending) :
    Inv (c.onStreamClose id) := by
  have hc : c.phase ≠ .closed := by
    rintro e
    rw [InSession, e] at hphase
    exact hphase
  have hi : c.phase ≠ .idle := by
    rintro e
    rw [InSession, e] at hphase
    exact hphase
  rw [onStreamClose]
  cases hd : c.userData id with
  | none => exact h
  | some s =>
    dsimp only
    have ho := h.owned_of_data hd
    obtain ⟨hmade, hfreed⟩ := h.alive hc ho
    obtain ⟨hwait, hcompleted⟩ := h.closeResets hd
    rw [h.use hc ho]
    by_cases hs : c.stream = some s
    · -- Its struct is left to `conn_after_response`.
      rw [if_pos hs]
      have hid : ∀ t, ((c.setStream s { c.streams s with closedByPeer := true }).streams t).id = (c.streams t).id := by
        intro t
        rw [setStream_streams]
        split
        · next e => rw [e]
        · rfl
      refine { safe := h.safe, data := fun k t hk => ?_, owned := fun _ t => ?_, closed := fun e => absurd e hc,
               flag := fun t ht hf => ?_, freed := h.freed, waiting := ⟨h.waiting.1, fun t ht => ?_⟩,
               dispatched := h.dispatched, completed := hcompleted, handling := h.handling, flushing := h.flushing }
      · obtain ⟨h1, h2, -⟩ := h.closeData hd hk
        exact ⟨h1, (hid t).trans h2⟩
      · rw [Owned, hid, h.userData_close hd t]
        refine Iff.trans ?_ (h.owned hc t)
        by_cases hts : t = s
        · rw [hts]
          exact ⟨fun _ => .inr (.inl hs), fun _ => .inr (.inl hs)⟩
        · exact or_congr_left ⟨And.left, fun e => ⟨e, hts⟩⟩
      · rw [hid, ne_eq, h.userData_close hd t, setStream_streams]
        by_cases hts : t = s
        · rw [if_pos hts]
          exact ⟨fun _ ⟨_, hne⟩ => hne hts, fun _ => rfl⟩
        · rw [if_neg hts, h.flag t ht hf]
          exact not_congr ⟨fun e => ⟨e, hts⟩, And.left⟩
      · rw [hid]
        exact hwait t ht
    · rw [if_neg hs, destroy, h.use hc ho]
      have hp : s ∉ c.waiting := by
        rw [waiting_of_phase hi hc]
        exact (hok s hd).resolve_left hs
      refine { safe := h.safe, data := fun k t hk => ?_, owned := fun _ t => ?_, closed := fun e => absurd e hc,
               flag := fun t ht hf => ?_, freed := ⟨?_, fun t ht => ?_⟩, waiting := ⟨h.waiting.1, hwait⟩,
               dispatched := h.dispatched, completed := hcompleted, handling := h.handling, flushing := h.flushing }
      · obtain ⟨h1, h2, -⟩ := h.closeData hd hk
        exact ⟨h1, h2⟩
      · have hsplit : Owned c t ∧ t ≠ s ↔
            (c.userData (c.streams t).id = some t ∧ t ≠ s) ∨ c.stream = some t ∨ t ∈ c.waiting := by
          constructor
          · rintro ⟨h1 | h2, hne⟩
            · exact .inl ⟨h1, hne⟩
            · exact .inr h2
          · rintro (⟨h1, hne⟩ | h2 | h3)
            · exact ⟨.inl h1, hne⟩
            · refine ⟨.inr (.inl h2), ?_⟩
              rintro rfl
              exact hs h2
            · refine ⟨.inr (.inr h3), ?_⟩
              rintro rfl
              exact hp h3
        rw [Owned, h.userData_close hd t]
        refine hsplit.symm.trans ?_
        rw [h.owned hc t, mem_append, mem_singleton, not_or, and_assoc]
      · obtain ⟨hf, hne⟩ := not_or.1 (mt mem_append.2 hf)
        rw [ne_eq, h.userData_close hd t, h.flag t ht hf]
        exact not_congr ⟨fun e => ⟨e, fun e' => hne (mem_singleton.2 e')⟩, And.left⟩
      · refine h.freed.1.append (nodup_singleton s) fun t ht ht' => ?_
        obtain rfl := mem_singleton.1 ht'
        exact hfreed ht
      · obtain ht | ht := mem_append.1 ht
        · exact h.freed.2 t ht
        · obtain rfl := mem_singleton.1 ht
          exact hmade

theorem Inv.owned_replaceable (h : Inv c) (hi : c.phase ≠ .idle) (hc : c.phase ≠ .closed) (hr : c.Replaceable) (t : ℕ) :
    c.Owned t ↔ c.userData (c.streams t).id = some t ∨ t ∈ c.waiting := by
  constructor
  · rintro (h1 | h2 | h3)
    · exact .inl h1
    · obtain ⟨hm, hf⟩ := h.alive hc (.inr (.inl h2))
      by_cases hflag : (c.streams t).closedByPeer = true
      · right
        rw [waiting_of_phase hi hc]
        exact hr t h2 hflag
      · left
        exact not_not.1 (mt (h.flag t hm hf).2 hflag)
    · exact .inr h3
  · exact Or.imp_right .inr

section Begin

variable (c) in
theorem begin_streams (id : ℕ) {t : ℕ} (ht : t ≠ c.made) : (c.setStream c.made { id }).streams t = c.streams t := by
  rw [setStream_streams, if_neg ht]

theorem inv_noData (h : Inv c) (hc : c.phase ≠ .closed) (id : ℕ) : Inv (c.onBeginHeaders id .noData) := by
  have hnew : c.made ∉ c.freed := fun hin => Nat.lt_irrefl _ (h.freed.2 _ hin)
  have hold : ∀ t, c.Owned t → t ≠ c.made := fun t ho => Nat.ne_of_lt (h.alive hc ho).1
  rw [onBeginHeaders, destroy, use_of_notMem (by exact hnew)]
  have hflag : ∀ t < c.made + 1, t ∉ c.freed ++ [c.made] → t < c.made ∧ t ∉ c.freed := fun t ht hf => by
    obtain ⟨hf, hne⟩ := not_or.1 (mt mem_append.2 hf)
    exact ⟨Nat.lt_of_le_of_ne (Nat.le_of_lt_succ ht) fun e => hne (mem_singleton.2 e), hf⟩
  refine { safe := h.safe, data := fun k t hk => ?_, owned := fun _ t => ?_, closed := fun e => absurd e hc,
           flag := fun t ht hf => ?_, freed := ⟨?_, fun t ht => ?_⟩, waiting := ⟨h.waiting.1, fun t ht => ?_⟩,
           dispatched := h.dispatched, completed := fun t ht => ?_, handling := h.handling, flushing := h.flushing }
  · obtain ⟨h1, h2⟩ := h.data k t hk
    refine ⟨Nat.lt_succ_of_lt h1, ?_⟩
    exact (congrArg H2Stream.id (begin_streams c id (Nat.ne_of_lt h1))).trans h2
  · have hmem : t ∉ c.freed ++ [c.made] ↔ t ∉ c.freed ∧ t ≠ c.made := by
      rw [mem_append, mem_singleton, not_or]
    by_cases hts : t = c.made
    · refine iff_of_false ?_ fun e => (hmem.1 e.2).2 hts
      rintro (h1 | h2 | h3)
      · exact absurd hts (Nat.ne_of_lt (h.data _ t h1).1)
      · exact hold t (.inr (.inl h2)) hts
      · exact hold t (.inr (.inr h3)) hts
    · refine Iff.trans ?_ ((h.owned hc t).trans ?_)
      · rw [Owned, begin_streams c id hts]
        exact Iff.rfl
      · refine ⟨fun e => ⟨Nat.lt_succ_of_lt e.1, hmem.2 ⟨e.2, hts⟩⟩, fun e => ?_⟩
        exact hflag t e.1 e.2
  · obtain ⟨h1, h2⟩ := hflag t ht hf
    rw [begin_streams c id (Nat.ne_of_lt h1)]
    exact h.flag t h1 h2
  · refine h.freed.1.append (nodup_singleton _) fun t ht ht' => ?_
    exact hnew (mem_singleton.1 ht' ▸ ht)
  · obtain ht | ht := mem_append.1 ht
    · exact Nat.lt_succ_of_lt (h.freed.2 t ht)
    · obtain rfl := mem_singleton.1 ht
      exact Nat.lt_succ_self _
  · rw [begin_streams c id (hold t (.inr (.inr ht)))]
    exact h.waiting.2 t ht
  · obtain ⟨h1, h2⟩ := h.completed t ht
    exact ⟨Nat.lt_succ_of_lt h1, h2⟩

theorem inv_begin (h : Inv c) (hphase : c.phase = .receiving) (hnew : ∀ s < c.made, (c.streams s).id ≠ id)
    (hr : c.Replaceable) : Inv (c.onBeginHeaders id .both) := by
  have hc : c.phase ≠ .closed := by rw [hphase]; nofun
  have hi : c.phase ≠ .idle := by rw [hphase]; nofun
  have hfresh : c.made ∉ c.freed := fun hin => Nat.lt_irrefl _ (h.freed.2 _ hin)
  have hold : ∀ t, c.Owned t → t ≠ c.made := fun t ho => Nat.ne_of_lt (h.alive hc ho).1
  have hself : (c.setStream c.made { id }).streams c.made = { id } := by rw [setStream_streams, if_pos rfl]
  -- No other struct is affected by the new user data.
  have hdata : ∀ t, t ≠ c.made →
      (Function.update c.userData id (some c.made) (c.streams t).id = some t ↔ c.userData (c.streams t).id = some t) := by
    intro t ht
    by_cases hid : (c.streams t).id = id
    · rw [hid, update_self]
      refine iff_of_false (fun e => ht (some.inj e).symm) fun e => ?_
      obtain ⟨h1, h2⟩ := h.data id t e
      exact hnew t h1 h2
    · rw [update_of_ne hid]
  rw [onBeginHeaders]
  refine { safe := h.safe, data := fun k t hk => ?_, owned := fun _ t => ?_, closed := fun e => absurd e hc,
           flag := fun t ht hf => ?_, freed := ⟨h.freed.1, fun t ht => Nat.lt_succ_of_lt (h.freed.2 t ht)⟩,
           waiting := ⟨h.waiting.1, fun t ht => ?_⟩, dispatched := h.dispatched, completed := fun t ht => ?_,
           handling := fun t e => ?_, flushing := h.flushing }
  · replace hk : Function.update c.userData id (some c.made) k = some t := hk
    by_cases hk' : k = id
    · rw [hk', update_self] at hk
      obtain rfl := some.inj hk
      refine ⟨Nat.lt_succ_self _, ?_⟩
      rw [hk']
      exact congrArg H2Stream.id hself
    · rw [update_of_ne hk'] at hk
      obtain ⟨h1, h2⟩ := h.data k t hk
      refine ⟨Nat.lt_succ_of_lt h1, ?_⟩
      exact (congrArg H2Stream.id (begin_streams c id (Nat.ne_of_lt h1))).trans h2
  · by_cases hts : t = c.made
    · rw [hts]
      exact ⟨fun _ => ⟨Nat.lt_succ_self _, hfresh⟩, fun _ => .inr (.inl rfl)⟩
    · have hlt : t < c.made + 1 ↔ t < c.made :=
        ⟨fun e => Nat.lt_of_le_of_ne (Nat.le_of_lt_succ e) hts, Nat.lt_succ_of_lt⟩
      refine Iff.trans ?_ (((h.owned_replaceable hi hc hr t).symm.trans (h.owned hc t)).trans (and_congr_left' hlt.symm))
      rw [Owned, begin_streams c id hts, hdata t hts]
      refine or_congr_right ⟨fun e => e.resolve_left fun e => hts (some.inj e).symm, .inr⟩
  · by_cases hts : t = c.made
    · have hopen : Function.update c.userData id (some c.made) id = some c.made := update_self ..
      rw [hts, hself]
      exact ⟨nofun, fun e => absurd hopen e⟩
    · rw [begin_streams c id hts, ne_eq, hdata t hts]
      exact h.flag t (Nat.lt_of_le_of_ne (Nat.le_of_lt_succ ht) hts) hf
  · have hts := hold t (.inr (.inr ht))
    rw [begin_streams c id hts, ne_eq, hdata t hts]
    exact h.waiting.2 t ht
  · obtain ⟨h1, h2⟩ := h.completed t ht
    exact ⟨Nat.lt_succ_of_lt h1, h2⟩
  · rw [show c.phase = _ from e] at hphase
    cases hphase

end Begin

/-! ### The dispatch -/

theorem inv_dispatch (h : Inv c) (hphase : c.phase = .dispatching) {rest : List ℕ} (hp : c.pending = s :: rest)
    (hr : c.Replaceable) : Inv (c.dispatch s rest) := by
  have hc : c.phase ≠ .closed := by rw [hphase]; nofun
  have hi : c.phase ≠ .idle := by rw [hphase]; nofun
  have hw : c.waiting = s :: rest := (waiting_of_phase hi hc).trans hp
  have hnodup := h.waiting.1
  rw [hw, nodup_cons] at hnodup
  have hin : s ∈ c.waiting := by rw [hw]; exact mem_cons_self
  have hsub : ∀ t ∈ rest, t ∈ c.waiting := fun t ht => by rw [hw]; exact mem_cons_of_mem _ ht
  rw [dispatch, h.use hc (.inr (.inr hin))]
  have hnew : H2Conn.waiting { c with
      phase := .handling s, stream := some s, pending := rest, dispatched := c.dispatched ++ [s] } = rest :=
    waiting_of_phase (by nofun) (by nofun)
  refine { h with
    owned := fun _ t => ?_, closed := nofun, waiting := ?_, dispatched := ⟨?_, fun t ht => ?_⟩, completed := fun t ht => ?_
    handling := fun t e => ?_, flushing := nofun }
  · refine Iff.trans ?_ ((h.owned_replaceable hi hc hr t).symm.trans (h.owned hc t))
    rw [Owned, hnew, hw]
    refine or_congr_right ?_
    rw [mem_cons]
    refine or_congr_left ⟨fun e => (some.inj e).symm, fun e => by rw [e]⟩
  · rw [hnew]
    refine ⟨hnodup.2, fun t ht => ?_⟩
    obtain ⟨h1, h2, h3⟩ := h.waiting.2 t (hsub t ht)
    refine ⟨h1, fun hd => ?_, h3⟩
    obtain hd | hd := mem_append.1 hd
    · exact h2 hd
    · obtain rfl := mem_singleton.1 hd
      exact hnodup.1 ht
  · refine h.dispatched.1.append (nodup_singleton s) fun t ht ht' => ?_
    obtain rfl := mem_singleton.1 ht'
    exact (h.waiting.2 t hin).2.1 ht
  · obtain ht | ht := mem_append.1 ht
    · exact h.dispatched.2 t ht
    · obtain rfl := mem_singleton.1 ht
      exact (h.waiting.2 t hin).1
  · rw [hnew]
    obtain ⟨h1, h2 | h3 | h4⟩ := h.completed t ht
    · exact ⟨h1, .inl (mem_append_left _ h2)⟩
    · rw [hw] at h3
      obtain rfl | h3 := mem_cons.1 h3
      · exact ⟨h1, .inl (mem_append_right _ (mem_singleton_self t))⟩
      · exact ⟨h1, .inr (.inl h3)⟩
    · exact ⟨h1, .inr (.inr h4)⟩
  · cases e
    exact ⟨rfl, mem_append_right _ (mem_singleton_self s)⟩

/-! ### The responses -/

/-- What the writer does to the connection. -/
structure Kept (c c' : H2Conn) : Prop where
  inv : Inv c'
  phase : c'.phase = c.phase
  stream : c'.stream = c.stream
  pending : c'.pending = c.pending
  flag : ∀ t, (c'.streams t).closedByPeer = (c.streams t).closedByPeer
  alone : c.Alone → c'.Alone
  owned : ∀ t, c.Owned t → c'.Owned t

theorem Inv.kept (h : Inv c) : Kept c c := ⟨h, rfl, rfl, rfl, fun _ => rfl, id, fun _ => id⟩

theorem Inv.kept_setStream (h : Inv c) (hc : c.phase ≠ .closed) {x : H2Stream} (hid : x.id = (c.streams s).id)
    (hflag : x.closedByPeer = (c.streams s).closedByPeer) : Kept c (c.setStream s x) := by
  have hids : ∀ t, ((c.setStream s x).streams t).id = (c.streams t).id := by
    intro t
    rw [setStream_streams]
    split
    · next e => rw [e, hid]
    · rfl
  refine ⟨h.setStream hc hid hflag, rfl, rfl, rfl, fun t => ?_, fun ha t ht => ?_, fun t ho => ?_⟩
  · rw [setStream_streams]
    split
    · next e => rw [e, hflag]
    · rfl
  · rw [hids]
    exact ha t ht
  · rw [Owned, hids]
    exact ho

theorem Kept.trans {c₁ c₂ : H2Conn} (h : Kept c c₁) (h' : Kept c₁ c₂) : Kept c c₂ :=
  ⟨h'.inv, h'.phase.trans h.phase, h'.stream.trans h.stream, h'.pending.trans h.pending,
    fun t => (h'.flag t).trans (h.flag t), fun ha => h'.alone (h.alone ha), fun t ho => h'.owned t (h.owned t ho)⟩

theorem kept_respond (h : Inv c) (hc : c.phase ≠ .closed) (ho : c.Owned s) (call : WriterCall) :
    Kept c (c.respond s call) ∧ (c.respond s call).keepAlive = c.keepAlive := by
  have huse := h.use hc ho
  cases call <;> dsimp only [respond] <;> rw [huse] <;> split
  · exact ⟨h.kept, rfl⟩
  · exact ⟨h.kept_setStream hc rfl rfl, rfl⟩
  · exact ⟨h.kept, rfl⟩
  · exact ⟨h.kept_setStream hc rfl rfl, rfl⟩
  · exact ⟨h.kept_setStream hc rfl rfl, rfl⟩
  · exact ⟨h.kept, rfl⟩

theorem kept_sendError (h : Inv c) (hc : c.phase ≠ .closed) (hs : c.stream = some s) :
    Kept c c.sendError ∧ c.sendError.keepAlive = (c.keepAlive && !(c.streams s).sent) := by
  have ho : c.Owned s := .inr (.inl hs)
  rw [sendError, hs]
  dsimp only
  split
  · next hsent =>
    rw [h.use hc ho]
    refine ⟨⟨h.keepAlive hc false, rfl, rfl, rfl, fun _ => rfl, id, fun _ => id⟩, ?_⟩
    rw [hsent, Bool.not_true, Bool.and_false]
  · next hsent =>
    obtain ⟨h1, h2⟩ := kept_respond h hc ho .send
    refine ⟨h1, ?_⟩
    rw [h2, Bool.eq_false_iff.2 hsent, Bool.not_false, Bool.and_true]

theorem Inv.drop (h : Inv c) (hc : c.phase ≠ .closed) (hs : c.stream = some s)
    (hflag : (c.streams s).closedByPeer = true) (hp : p = .dispatching ∨ p = .idle)
    (hw : H2Conn.waiting { c with phase := p } = if p = .idle then [] else c.waiting)
    (hkeep : p = .idle → ∀ t ∈ c.waiting, t = s) (hlose : p ≠ .idle → s ∉ c.waiting) :
    Inv { c with freed := c.freed ++ [s], stream := none, phase := p } := by
  have hpc : p ≠ .closed := by rintro rfl; obtain h | h := hp <;> cases h
  obtain ⟨hmade, hfreed⟩ := h.alive hc (.inr (.inl hs))
  have hopen := (h.flag s hmade hfreed).1 hflag
  have hin : ∀ t, t ∈ (if p = .idle then [] else c.waiting) ↔ t ∈ c.waiting ∧ t ≠ s := by
    intro t
    split
    · next e =>
      refine iff_of_false not_mem_nil ?_
      rintro ⟨h1, h2⟩
      exact h2 (hkeep e t h1)
    · next e =>
      refine ⟨fun ht => ⟨ht, ?_⟩, And.left⟩
      rintro rfl
      exact hlose e ht
  have hw' : H2Conn.waiting { c with freed := c.freed ++ [s], stream := none, phase := p } =
      if p = .idle then [] else c.waiting := hw
  refine { h with
    owned := fun _ t => ?_, closed := fun e => absurd e hpc, flag := fun t ht hf => ?_
    freed := ⟨?_, fun t ht => ?_⟩, waiting := ⟨?_, fun t ht => ?_⟩, completed := fun t ht => ?_
    handling := fun t e => ?_, flushing := fun e => ?_ }
  · have hsplit : c.Owned t ∧ t ≠ s ↔ c.userData (c.streams t).id = some t ∨ t ∈ c.waiting ∧ t ≠ s := by
      constructor
      · rintro ⟨h1 | h2 | h3, hne⟩
        · exact .inl h1
        · exact absurd (some.inj (h2.symm.trans hs)) hne
        · exact .inr ⟨h3, hne⟩
      · rintro (h1 | ⟨h3, hne⟩)
        · refine ⟨.inl h1, ?_⟩
          rintro rfl
          exact hopen h1
        · exact ⟨.inr (.inr h3), hne⟩
    rw [Owned, hw', hin]
    refine Iff.trans (or_congr_right ⟨fun e => e.resolve_left nofun, .inr⟩) (hsplit.symm.trans ?_)
    rw [h.owned hc t, mem_append, mem_singleton, not_or, and_assoc]
  · exact h.flag t ht fun e => hf (mem_append_left _ e)
  · refine h.freed.1.append (nodup_singleton s) fun t ht ht' => ?_
    obtain rfl := mem_singleton.1 ht'
    exact hfreed ht
  · obtain ht | ht := mem_append.1 ht
    · exact h.freed.2 t ht
    · obtain rfl := mem_singleton.1 ht
      exact hmade
  · rw [hw']
    split
    · exact nodup_nil
    · exact h.waiting.1
  · rw [hw', hin] at ht
    exact h.waiting.2 t ht.1
  · rw [hw', hin]
    obtain ⟨h1, h2 | h3 | h4⟩ := h.completed t ht
    · exact ⟨h1, .inl h2⟩
    · by_cases hts : t = s
      · rw [hts] at h3 ⊢
        exact ⟨hmade, .inr (.inr ((h.waiting.2 s h3).2.2 hopen))⟩
      · exact ⟨h1, .inr (.inl ⟨h3, hts⟩)⟩
    · exact ⟨h1, .inr (.inr h4)⟩
  all_goals
    rw [show p = _ from e] at hp
    obtain hp | hp := hp <;> cases hp

/-- What may wait when the read is given up: the stream of the connection, which has closed. -/
def Spent (c : H2Conn) : Prop := ∀ t ∈ c.waiting, c.stream = some t ∧ (c.streams t).closedByPeer = true

theorem Inv.resets_of_spent (h : Inv c) (hc : c.phase ≠ .closed) (hw : c.Spent) {t : ℕ} (ht : t ∈ c.completed) :
    t < c.made ∧ (t ∈ c.dispatched ∨ t ∈ c.resets) := by
  obtain ⟨h1, h2 | h3 | h4⟩ := h.completed t ht
  · exact ⟨h1, .inl h2⟩
  · obtain ⟨hm, hf⟩ := h.alive hc (.inr (.inr h3))
    exact ⟨h1, .inr ((h.waiting.2 t h3).2.2 ((h.flag t hm hf).1 (hw t h3).2))⟩
  · exact ⟨h1, .inr h4⟩

theorem Inv.toIdle (h : Inv c) (hc : c.phase ≠ .closed) (hw : c.Spent) : Inv { c with phase := .idle } := by
  have hnew : H2Conn.waiting { c with phase := .idle } = [] := if_pos (.inl rfl)
  refine { h with
    owned := fun _ t => ?_, closed := nofun, waiting := ⟨?_, fun t ht => ?_⟩, completed := fun t ht => ?_
    handling := nofun, flushing := nofun }
  · refine Iff.trans ?_ (h.owned hc t)
    rw [Owned, hnew]
    refine ⟨Or.imp_right (Or.imp_right fun e => absurd e not_mem_nil), ?_⟩
    rintro (h1 | h2 | h3)
    · exact .inl h1
    · exact .inr (.inl h2)
    · exact .inr (.inl (hw t h3).1)
  · rw [hnew]
    exact nodup_nil
  · rw [hnew] at ht
    cases ht
  · obtain ⟨h1, h2⟩ := h.resets_of_spent hc hw ht
    exact ⟨h1, h2.imp_right .inr⟩

theorem inv_close (h : Inv c) (hc : c.phase ≠ .closed) (hw : c.Spent) (ha : c.Alone) :
    Inv c.close ∧ c.close.phase = .closed := by
  have hsole : ∀ t, c.Owned t → c.stream = some t := by
    rintro t (h1 | h2 | h3)
    · exact ha t (h.data _ t h1).1 h1
    · exact h2
    · exact (hw t h3).1
  cases hs : c.stream with
  | none =>
    have hclose : c.close = { c with phase := .closed } := by rw [close, hs]
    rw [hclose]
    have hall : ∀ t < c.made, t ∈ c.freed := fun t ht => by
      by_contra hf
      have ho := hsole t ((h.owned hc t).2 ⟨ht, hf⟩)
      rw [hs] at ho
      cases ho
    have hnew : H2Conn.waiting { c with phase := .closed } = [] := if_pos (.inr rfl)
    refine ⟨{ h with
      owned := fun e => absurd rfl e, closed := fun _ => hall, waiting := ⟨?_, fun t ht => ?_⟩
      completed := fun t ht => ?_, handling := nofun, flushing := nofun }, rfl⟩
    · rw [hnew]
      exact nodup_nil
    · rw [hnew] at ht
      cases ht
    · obtain ⟨h1, h2⟩ := h.resets_of_spent hc hw ht
      exact ⟨h1, h2.imp_right .inr⟩
  | some s =>
    have ho : c.Owned s := .inr (.inl hs)
    obtain ⟨hmade, hfreed⟩ := h.alive hc ho
    have hclose : c.close = { c with freed := c.freed ++ [s], phase := .closed, stream := none } := by
      rw [close, hs]
      dsimp only
      rw [destroy, h.use hc ho]
    rw [hclose]
    have hall : ∀ t < c.made, t ∈ c.freed ++ [s] := fun t ht => by
      by_cases hf : t ∈ c.freed
      · exact mem_append_left _ hf
      · have hst := hsole t ((h.owned hc t).2 ⟨ht, hf⟩)
        rw [hs] at hst
        exact mem_append_right _ (mem_singleton.2 (some.inj hst).symm)
    have hnew : H2Conn.waiting { c with freed := c.freed ++ [s], phase := .closed, stream := none } = [] :=
      if_pos (.inr rfl)
    refine ⟨{ h with
      owned := fun e => absurd rfl e, closed := fun _ => hall, flag := fun t ht hf => absurd (hall t ht) hf
      freed := ⟨?_, fun t ht => ?_⟩, waiting := ⟨?_, fun t ht => ?_⟩, completed := fun t ht => ?_
      handling := nofun, flushing := nofun }, rfl⟩
    · refine h.freed.1.append (nodup_singleton s) fun t ht ht' => ?_
      obtain rfl := mem_singleton.1 ht'
      exact hfreed ht
    · obtain ht | ht := mem_append.1 ht
      · exact h.freed.2 t ht
      · obtain rfl := mem_singleton.1 ht
        exact hmade
    · rw [hnew]
      exact nodup_nil
    · rw [hnew] at ht
      cases ht
    · obtain ⟨h1, h2⟩ := h.resets_of_spent hc hw ht
      exact ⟨h1, h2.imp_right .inr⟩

theorem waiting_congr (hphase : c'.phase = c.phase) (hpending : c'.pending = c.pending) : c'.waiting = c.waiting := by
  rw [H2Conn.waiting, H2Conn.waiting, hphase, hpending]

theorem afterResponse_eq (hs : c.stream = some s) (isEmpty : Bool) :
    c.afterResponse isEmpty =
      if c.keepAlive = true then if (c.streams s).closedByPeer = true then { c.destroy s with stream := none } else c.use s
      else c.afterFlush isEmpty := by
  rw [afterResponse, hs]

variable {isEmpty : Bool}

theorem inv_afterResponse (h : Inv c) (hphase : c.phase = .handling s)
    (hok : c.keepAlive = true ∨ isEmpty = false) :
    (c.afterResponse isEmpty).phase ≠ .closed ∧ Inv { c.afterResponse isEmpty with phase := .dispatching } := by
  have hc : c.phase ≠ .closed := by rw [hphase]; nofun
  have hi : c.phase ≠ .idle := by rw [hphase]; nofun
  obtain ⟨hs, hd⟩ := h.handling s hphase
  have ho : c.Owned s := .inr (.inl hs)
  have hw : H2Conn.waiting { c with phase := .dispatching } = c.waiting :=
    (waiting_goto c c.pending H2Phase.noConfusion H2Phase.noConfusion).trans (waiting_of_phase hi hc).symm
  have hgo : Inv { c with phase := .dispatching } := h.within hi hc nofun nofun nofun nofun
  rw [afterResponse_eq hs]
  split
  · split
    · next hflag =>
      rw [destroy, h.use hc ho]
      exact ⟨hc, h.drop hc hs hflag (.inl rfl) (hw.trans (if_neg nofun).symm) nofun fun _ hin => (h.waiting.2 s hin).2.1 hd⟩
    · rw [h.use hc ho]
      exact ⟨hc, hgo⟩
  · next hkeep =>
    rw [hok.resolve_left hkeep]
    exact ⟨hc, hgo⟩

theorem inv_finish (h : Inv c) (hphase : c.phase = .handling s) {routed : Bool}
    (hok : c.Clean (.finish routed isEmpty)) : Inv (c.finish s routed isEmpty) := by
  have hc : c.phase ≠ .closed := by rw [hphase]; nofun
  obtain ⟨hs, -⟩ := h.handling s hphase
  have ho : c.Owned s := .inr (.inl hs)
  have hdone : ∀ c₁, Kept c c₁ → (c₁.keepAlive = true ∨ isEmpty = false) →
      Inv (if (c₁.afterResponse isEmpty).phase = .closed then { c₁.afterResponse isEmpty with faulted := true }
        else { c₁.afterResponse isEmpty with phase := .dispatching }) := fun c₁ hk hok => by
    obtain ⟨h1, h2⟩ := inv_afterResponse hk.inv (hk.phase.trans hphase) hok
    rw [if_neg h1]
    exact h2
  cases routed with
  | true =>
    obtain ⟨hk1, ha1⟩ := kept_respond h hc ho .send
    obtain ⟨hk2, ha2⟩ := kept_respond hk1.inv (hk1.phase ▸ hc) (hk1.owned s ho) .finish
    exact hdone _ (hk1.trans hk2) (hok.imp_left fun e => (ha2.trans ha1).trans e.1)
  | false =>
    obtain ⟨hk, ha⟩ := kept_sendError h hc hs
    refine hdone _ hk (hok.imp_left fun ⟨h1, h2⟩ => ?_)
    have hsent := (h2.resolve_left Bool.false_ne_true) s hs
    exact ha.trans (by rw [h1, hsent]; rfl)

theorem inv_errorResponse (h : Inv c) (hc : c.phase ≠ .closed) (hok : c.Answerable isEmpty) :
    Inv (c.errorResponse isEmpty) := by
  obtain ⟨hsome, hspent, halone⟩ := hok
  obtain ⟨s, hs⟩ := isSome_iff_exists.1 hsome
  obtain ⟨hk, ha⟩ := kept_sendError h hc hs
  have hc' : c.sendError.phase ≠ .closed := hk.phase ▸ hc
  have hs' : c.sendError.stream = some s := hk.stream.trans hs
  have ho' : c.sendError.Owned s := .inr (.inl hs')
  have hspent' : c.sendError.Spent := fun t ht => by
    rw [waiting_congr hk.phase hk.pending] at ht
    rw [hk.stream, hk.flag]
    exact hspent t ht
  have hidle := hk.inv.toIdle hc' hspent'
  have hopen : ∀ c₁, c.sendError.afterResponse isEmpty = c₁ → c₁.phase ≠ .closed → Inv { c₁ with phase := .idle } →
      Inv (c.errorResponse isEmpty) := fun c₁ he hp hinv => by
    rw [errorResponse, he, if_neg hp]
    exact hinv
  have heq := afterResponse_eq hs' isEmpty
  split at heq
  · split at heq
    · next hflag =>
      rw [destroy, hk.inv.use hc' ho'] at heq
      have hall : ∀ t ∈ c.sendError.waiting, t = s := fun t ht =>
        (some.inj (hs'.symm.trans (hspent' t ht).1)).symm
      exact hopen _ heq hc' (hk.inv.drop hc' hs' hflag (.inr rfl) ((if_pos (.inl rfl)).trans (if_pos rfl).symm)
        (fun _ => hall) fun e => absurd rfl e)
    · rw [hk.inv.use hc' ho'] at heq
      exact hopen _ heq hc' hidle
  · next hkeep =>
    have hkeep' := Bool.eq_false_iff.2 hkeep
    cases isEmpty with
    | false => exact hopen _ heq hc' hidle
    | true =>
      rw [afterFlush, if_pos rfl, if_neg hkeep] at heq
      have hcloses : c.ErrorCloses true := by
        rw [ha, Bool.and_eq_false_iff] at hkeep'
        exact ⟨rfl, hkeep'.imp_right fun e => ⟨s, hs, Bool.not_eq_eq_eq_not.1 e⟩⟩
      obtain ⟨h1, h2⟩ := inv_close hk.inv hc' hspent' (hk.alone (halone hcloses))
      rw [errorResponse, heq, if_pos h2]
      exact h1

theorem inv_writeReady (h : Inv c) (hphase : c.phase = .idle)
    (hok : c.keepAlive = true ∨ isEmpty = false) : Inv (c.writeReady isEmpty) := by
  have hc : c.phase ≠ .closed := by rw [hphase]; nofun
  rw [writeReady, afterFlush]
  cases isEmpty with
  | false =>
    rw [if_neg Bool.false_ne_true, if_neg hc]
    exact h
  | true =>
    rw [if_pos rfl, if_pos (hok.resolve_right nofun), resetRequestState]
    cases hs : c.stream with
    | none =>
      dsimp only
      rw [if_neg hc]
      exact h
    | some s =>
      have huse := h.use hc (.inr (.inl hs))
      have hset : Inv ((c.use s).setStream s { c.streams s with sent := false, streaming := false }) := by
        rw [huse]
        exact h.setStream hc rfl rfl
      dsimp only
      rw [if_neg (by rw [huse]; exact hc)]
      exact hset

/-! ### The runs -/

theorem inv_step {a : Act} (h : Inv c) (hok : c.Clean a) (hstep : c.step a = some c') : Inv c' := by
  have hspent : c.phase = .idle → c.Spent := fun e t ht => by
    rw [H2Conn.waiting, if_pos (.inl e)] at ht
    cases ht
  cases a with
  | read =>
    rw [step] at hstep
    split at hstep
    · next hphase =>
      cases hstep
      have hc : c.phase ≠ .closed := by rw [hphase]; nofun
      exact h.goto hc nofun ((if_neg (by nofun)).trans (if_pos (.inl hphase)).symm) nofun nofun
    · cases hstep
  | beginHeaders id mem =>
    rw [step] at hstep
    split at hstep
    · next hg =>
      cases hstep
      cases mem with
      | both => exact inv_begin h hg.1 hg.2 hok
      | noStream => exact h
      | noData => exact inv_noData h (by rw [hg.1]; nofun) id
    · cases hstep
  | content id =>
    rw [step] at hstep
    split at hstep
    · next hphase =>
      cases hstep
      rw [inv_onContent h (by rw [hphase]; nofun)]
      exact h
    · cases hstep
  | endStream id =>
    rw [step] at hstep
    split at hstep
    · next hg =>
      cases hstep
      exact inv_onFrameRecv h hg.1 hg.2 hok
    · cases hstep
  | streamClose id =>
    rw [step] at hstep
    split at hstep
    · next hg =>
      cases hstep
      exact inv_onStreamClose h hg hok
    · cases hstep
  | received ok isEmpty | sent ok isEmpty =>
    rw [step] at hstep
    split at hstep
    · next hphase =>
      cases hstep
      have hc : c.phase ≠ .closed := by rw [hphase]; nofun
      have hi : c.phase ≠ .idle := by rw [hphase]; nofun
      cases ok with
      | true => exact h.within hi hc nofun nofun nofun nofun
      | false => exact inv_errorResponse h hc (hok.resolve_left nofun)
    · cases hstep
  | dispatch =>
    rw [step] at hstep
    split at hstep
    · next hphase hp =>
      cases hstep
      exact inv_dispatch h hphase hp hok
    · cases hstep
  | respond call =>
    rw [step] at hstep
    split at hstep
    · next s hphase =>
      cases hstep
      exact (kept_respond h (by rw [hphase]; nofun) (.inr (.inl (h.handling s hphase).1)) call).1.inv
    · cases hstep
  | finish routed isEmpty =>
    rw [step] at hstep
    split at hstep
    · next s hphase =>
      cases hstep
      exact inv_finish h hphase hok
    · cases hstep
  | served =>
    rw [step] at hstep
    split at hstep
    · next hg =>
      cases hstep
      have hc : c.phase ≠ .closed := by rw [hg.1]; nofun
      have hi : c.phase ≠ .idle := by rw [hg.1]; nofun
      exact h.within hi hc nofun nofun nofun fun _ => hg.2
    · cases hstep
  | flushed ok isEmpty =>
    rw [step] at hstep
    split at hstep
    · next hphase =>
      cases hstep
      have hc : c.phase ≠ .closed := by rw [hphase]; nofun
      have hi : c.phase ≠ .idle := by rw [hphase]; nofun
      cases ok with
      | true =>
        refine h.toIdle hc fun t ht => ?_
        rw [waiting_of_phase hi hc, h.flushing hphase] at ht
        cases ht
      | false => exact inv_errorResponse h hc (hok.resolve_left nofun)
    · cases hstep
  | writeFails =>
    rw [step] at hstep
    split at hstep
    · cases hstep
    · next hc =>
      cases hstep
      exact h.keepAlive hc false
  | writeReady isEmpty =>
    rw [step] at hstep
    split at hstep
    · next hphase =>
      cases hstep
      exact inv_writeReady h hphase hok
    · cases hstep
  | noMemory isEmpty =>
    rw [step] at hstep
    split at hstep
    · next hphase =>
      cases hstep
      exact inv_errorResponse h (by rw [hphase]; nofun) hok
    · cases hstep
  | close =>
    rw [step] at hstep
    split at hstep
    · next hphase =>
      cases hstep
      exact (inv_close h (by rw [hphase]; nofun) (hspent hphase) hok).1
    · cases hstep

/-- In every run whose steps are clean, each request that is complete and not reset is dispatched once, on a stream that
is there, and each struct is destroyed once. -/
theorem served_of_clean (h : Run step Clean {} c) : c.Served :=
  (h.preserves (fun _ _ _ hi hok hs => inv_step hi hok hs) inv_init).served

/-- A response is streamed, a second request is reset before it is complete, and the connection ends. -/
theorem served_of_clean_two : ∃ c : H2Conn,
    c.Served ∧ decide (c.phase = .closed ∧ c.dispatched = [0] ∧ c.resets = [1] ∧ c.freed = [0, 1]) = true := by
  have hreplay : replay step (fun c a => decide (c.Clean a))
      (fun c : H2Conn => decide (c.phase = .closed ∧ c.dispatched = [0] ∧ c.resets = [1] ∧ c.freed = [0, 1])) {}
      [.read, .beginHeaders 1 .both, .content 1, .endStream 1, .received true false, .sent true false, .dispatch,
        .respond .write, .respond .finish, .streamClose 1, .finish true true, .served, .flushed true false,
        .read, .beginHeaders 3 .both, .streamClose 3, .received true false, .sent true false, .served,
        .flushed true false, .close] = true := by
    decide +kernel
  obtain ⟨c, hc, hp⟩ := exists_run_of_replay step Clean _ _ (fun _ _ => of_decide_eq_true) hreplay
  exact ⟨c, served_of_clean hc, hp⟩

/-- In one read two requests are complete, and the first is reset: its struct is destroyed, and then dispatched. -/
theorem not_served_reset : ¬∀ c, Run step (fun _ _ => True) {} c → c.Served := by
  intro h
  have hreplay : replay step (fun _ _ => true) (fun c : H2Conn => c.faulted) {}
      [.read, .beginHeaders 1 .both, .endStream 1, .beginHeaders 3 .both, .endStream 3, .streamClose 1,
        .received true false, .sent true false, .dispatch] = true := by
    decide +kernel
  obtain ⟨c, hc, hp⟩ := exists_run_of_replay step (fun _ _ => True) _ _ (fun _ _ _ => trivial) hreplay
  have hsafe := (h c hc).safe
  rw [hp] at hsafe
  cases hsafe

end H2Conn

end Libx.Http
