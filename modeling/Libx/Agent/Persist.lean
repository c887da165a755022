import Libx.Agent.Effect
import Libx.Core.Flushed

/-!
# Libx.Agent.Persist — every history entry is persisted exactly once

The first `persisted_prefix` entries of the history are in the store.  A compact writes what the
store lacks of its range, drops the range and puts the summary in its place; that keeps the count
right when the range starts at or before the prefix and does not end inside it, and only then.
-/

namespace Libx.Agent

open Libx.Core State List

/-- What has become of a stored entry: nothing, or its output was trimmed. -/
def Shrunk (x y : Slot) : Prop := x.entry = y.entry ∨ x.entry = y.entry.trim

/-- **Every entry is persisted exactly once**, counting from number `first`: the prefix is within the
history, its entries are exactly those the store has, the store has none twice, and every entry
that is not in it was rolled back or is in the history of the session that is alive. -/
structure PersistedOnce (first : ℕ) (s : State) : Prop where
  bound : s.alive = true → s.sess.persistedPrefix ≤ s.sess.history.length
  stored : s.alive = true → ∀ i x, s.sess.history[i]? = some x →
    ((∃ y ∈ s.store, y.uid = x.uid) ↔ i < s.sess.persistedPrefix)
  same : s.alive = true → ∀ i x, s.sess.history[i]? = some x → i < s.sess.persistedPrefix →
    ∃ y ∈ s.store, y.uid = x.uid ∧ Shrunk x y
  once : (s.store.map Slot.uid).Nodup
  kept : ∀ u, first ≤ u → u < s.nextUid → u ∈ s.rolledBack ∨ (∃ y ∈ s.store, y.uid = u) ∨
    s.alive = true ∧ ∃ x ∈ s.sess.history, x.uid = u

/-! ### The condition -/

/-- The step ends a compact with a summary: no other step of a compacting session numbers an
entry. -/
def splices (s : State) (l : Label) : Bool :=
  s.sess.compacting && match step s l with
  | none => false
  | some t => decide (s.nextUid < t.nextUid)

variable {x : Session}

/-- **The condition**: a compact that splices in a summary starts at or before the persisted prefix
and does not end inside it. -/
def straddles (s : State) (l : Label) : Bool :=
  !splices s l || (decide (s.sess.compactStart ≤ s.sess.persistedPrefix) &&
    decide (s.sess.persistedPrefix ≤ s.sess.compactEnd))

/-! ### Trimming -/

theorem trimSlot_shrunk (ok : ℕ → Bool) {x y : Slot} (h : Shrunk x y) : Shrunk (trimSlot ok x) y := by
  unfold trimSlot
  split_ifs with ht
  · rw [Bool.and_eq_true] at ht
    rcases h with h | h
    · exact .inr (congrArg Entry.trim h)
    · rw [h, trim_trimmable] at ht
      exact absurd ht.1 (by simp)
  · exact h

/-! ### The invariant -/

/-- The store and the history of a session. -/
structure Stored (first : ℕ) (s : State) : Prop where
  life : Life s
  memory : s.conf.hasMemory = true
  flushed : s.alive = true →
    Flushed Slot.uid Shrunk s.store s.sess.history s.sess.persistedPrefix
  range : s.alive = true → s.sess.compacting = true →
    s.sess.compactStart < s.sess.compactEnd ∧ s.sess.compactEnd ≤ s.sess.history.length
  storeBelow : ∀ y ∈ s.store, y.uid < s.nextUid
  historyBelow : s.alive = true → ∀ x ∈ s.sess.history, x.uid < s.nextUid
  once : (s.store.map Slot.uid).Nodup
  kept : ∀ u, first ≤ u → u < s.nextUid → u ∈ s.rolledBack ∨ (∃ y ∈ s.store, y.uid = u) ∨
    s.alive = true ∧ ∃ x ∈ s.sess.history, x.uid = u

theorem Stored.persistedOnce {first : ℕ} {s : State} (h : Stored first s) : PersistedOnce first s :=
  ⟨fun ha => (h.flushed ha).bound, fun ha _ _ hx => (h.flushed ha).mem_iff hx,
    fun ha _ _ hx hi => (h.flushed ha).logged hx hi, h.once, h.kept⟩

/-! ### The end of a compact -/

theorem compactBatch_eq (h1 : x.compactStart ≤ x.persistedPrefix)
    (h2 : x.persistedPrefix ≤ x.compactEnd) :
    compactBatch x = (x.history.drop x.persistedPrefix).take (x.compactEnd - x.persistedPrefix) := by
  have hskip : (if x.persistedPrefix > x.compactStart then min x.persistedPrefix x.compactEnd
      else x.compactStart) = x.persistedPrefix := by
    split_ifs <;> omega
  unfold compactBatch
  rw [hskip]

theorem compactPrefix_eq (h1 : x.compactStart ≤ x.persistedPrefix)
    (h2 : x.persistedPrefix ≤ x.compactEnd) : compactPrefix x = x.compactStart + 1 := by
  have hmin : min x.persistedPrefix x.compactEnd = x.persistedPrefix := Nat.min_eq_left h2
  unfold compactPrefix
  dsimp only
  rw [hmin]
  split_ifs <;> omega

theorem spliceSummary_history (z : Slot) (h1 : x.compactStart < x.compactEnd)
    (h2 : x.compactEnd ≤ x.history.length) :
    (spliceSummary x z).history = Flushed.splice x.history x.compactStart x.compactEnd z := by
  have hlen : (x.history.take x.compactStart).length = x.compactStart :=
    length_take_of_le (by omega)
  have hrem : removeRange x.history x.compactStart (x.compactEnd - x.compactStart) =
      x.history.take x.compactStart ++ x.history.drop x.compactEnd := by
    unfold removeRange
    rw [if_pos (by omega), show x.compactStart + (x.compactEnd - x.compactStart) = x.compactEnd by omega]
  have htake : (x.history.take x.compactStart ++ x.history.drop x.compactEnd).take x.compactStart =
      x.history.take x.compactStart := by
    rw [take_append_of_le_length (by omega), take_of_length_le (by omega)]
  have hdrop : (x.history.take x.compactStart ++ x.history.drop x.compactEnd).drop x.compactStart =
      x.history.drop x.compactEnd := by
    rw [drop_append_of_le_length (by omega), drop_of_length_le (by omega), nil_append]
  unfold spliceSummary Flushed.splice
  dsimp only
  rw [hrem, htake, hdrop]

/-! ### Steps -/

namespace Stored

variable {first : ℕ} {s t : State}

theorem of_ledger (h : Stored first s) (hl : t.ledger = s.ledger) (hlife : Life t) : Stored first t := by
  have hs : t.sess = s.sess := congrArg Ledger.sess hl
  have hst : t.store = s.store := congrArg Ledger.store hl
  have hu : t.nextUid = s.nextUid := congrArg Ledger.nextUid hl
  have hr : t.rolledBack = s.rolledBack := congrArg Ledger.rolledBack hl
  have ha : t.alive = s.alive := congrArg Ledger.alive hl
  have hc : t.conf = s.conf := congrArg Ledger.conf hl
  refine ⟨hlife, by rw [hc]; exact h.memory, ?_, ?_, ?_, ?_, ?_, ?_⟩
  · rw [ha, hst, hs]; exact h.flushed
  · rw [ha, hs]; exact h.range
  · rw [hst, hu]; exact h.storeBelow
  · rw [ha, hs, hu]; exact h.historyBelow
  · rw [hst]; exact h.once
  · rw [hu, hr, hst, ha, hs]; exact h.kept

theorem rewrite (h : Stored first s) {g : Slot → Slot} (hlife : Life t)
    (hl : t.ledger = { s.ledger with sess := x }) (hg : ∀ y, (g y).uid = y.uid)
    (hshrunk : ∀ y z, Shrunk y z → Shrunk (g y) z) (hh : x.history = s.sess.history.map g)
    (hp : x.persistedPrefix = s.sess.persistedPrefix)
    (hr : s.alive = true → x.compacting = true →
      x.compactStart < x.compactEnd ∧ x.compactEnd ≤ x.history.length) : Stored first t := by
  have hs : t.sess = x := congrArg Ledger.sess hl
  have hst : t.store = s.store := congrArg Ledger.store hl
  have hu : t.nextUid = s.nextUid := congrArg Ledger.nextUid hl
  have hrb : t.rolledBack = s.rolledBack := congrArg Ledger.rolledBack hl
  have ha : t.alive = s.alive := congrArg Ledger.alive hl
  have hc : t.conf = s.conf := congrArg Ledger.conf hl
  refine ⟨hlife, by rw [hc]; exact h.memory, ?_, ?_, ?_, ?_, ?_, ?_⟩
  · intro hal
    rw [hst, hs, hh, hp]
    exact (h.flushed (ha ▸ hal)).map hg hshrunk
  · intro hal hcomp
    rw [hs] at hcomp ⊢
    exact hr (ha ▸ hal) hcomp
  · rw [hst, hu]; exact h.storeBelow
  · intro hal y hy
    rw [hs, hh] at hy
    obtain ⟨y', hy', rfl⟩ := mem_map.mp hy
    rw [hg, hu]
    exact h.historyBelow (ha ▸ hal) y' hy'
  · rw [hst]; exact h.once
  · intro u h1 h2
    rw [hu] at h2
    rw [hrb, hst, ha, hs, hh]
    rcases h.kept u h1 h2 with h3 | h3 | ⟨h3, y, hy, hk⟩
    · exact .inl h3
    · exact .inr (.inl h3)
    · exact .inr (.inr ⟨h3, g y, mem_map_of_mem hy, (hg y).trans hk⟩)

theorem add (h : Stored first s) (es : List Entry) {seq : ℕ} (hlife : Life t)
    (halive : s.alive = true)
    (hl : t.ledger = { s.ledger with
      sess := x, nextUid := s.nextUid + es.length, promptSeq := seq })
    (hh : x.history = s.sess.history ++ slotsFrom s.nextUid es)
    (hp : x.persistedPrefix = s.sess.persistedPrefix) (hcomp : x.compacting = false) :
    Stored first t := by
  have hs : t.sess = x := congrArg Ledger.sess hl
  have hst : t.store = s.store := congrArg Ledger.store hl
  have hu : t.nextUid = s.nextUid + es.length := congrArg Ledger.nextUid hl
  have hrb : t.rolledBack = s.rolledBack := congrArg Ledger.rolledBack hl
  have ha : t.alive = true := (congrArg Ledger.alive hl).trans halive
  have hc : t.conf = s.conf := congrArg Ledger.conf hl
  have hnew : ∀ y ∈ slotsFrom s.nextUid es, s.nextUid ≤ y.uid := fun y hy => (slotsFrom_uid hy).1
  refine ⟨hlife, by rw [hc]; exact h.memory, ?_, ?_, ?_, ?_, ?_, ?_⟩
  · intro _
    rw [hst, hs, hh, hp]
    refine (h.flushed halive).append (slotsFrom_nodup _ _) ?_ ?_
    · intro y hy z hz he
      have h1 := hnew y hy
      have h2 := h.historyBelow halive z hz
      omega
    · intro y hy z hz he
      have h1 := hnew y hy
      have h2 := h.storeBelow z hz
      omega
  · intro _ hf
    rw [hs, hcomp] at hf
    exact absurd hf (by simp)
  · intro y hy
    rw [hst] at hy
    have := h.storeBelow y hy
    omega
  · intro _ y hy
    rw [hs, hh] at hy
    rcases mem_append.mp hy with h1 | h1
    · have := h.historyBelow halive y h1
      omega
    · have := (slotsFrom_uid h1).2
      omega
  · rw [hst]; exact h.once
  · intro u h1 h2
    rw [hrb, hst, hs, hh]
    by_cases hlt : u < s.nextUid
    · rcases h.kept u h1 hlt with h3 | h3 | ⟨h3, y, hy, hk⟩
      · exact .inl h3
      · exact .inr (.inl h3)
      · exact .inr (.inr ⟨ha, y, mem_append_left _ hy, hk⟩)
    · obtain ⟨y, hy, hk⟩ := exists_slotsFrom es (u := s.nextUid) (n := u) (by omega) (by omega)
      exact .inr (.inr ⟨ha, y, mem_append_right _ hy, hk⟩)

/-- **A summary is spliced in** for a range that straddles the prefix. -/
theorem splice (h : Stored first s) {z : Slot} (hlife : Life t) (halive : s.alive = true)
    (hcomp : s.sess.compacting = true) (hz : z.uid = s.nextUid)
    (hl : t.ledger = { s.ledger with
      sess := (spliceSummary s.sess z).settled
      store := s.store ++ compactBatch s.sess ++ [z]
      nextUid := s.nextUid + 1 })
    (h1 : s.sess.compactStart ≤ s.sess.persistedPrefix)
    (h2 : s.sess.persistedPrefix ≤ s.sess.compactEnd) : Stored first t := by
  obtain ⟨hlt, hle⟩ := h.range halive hcomp
  have hf := h.flushed halive
  have hst : t.store = Flushed.spliceLog s.store s.sess.history s.sess.persistedPrefix
      s.sess.compactEnd z := by
    rw [Flushed.spliceLog, ← compactBatch_eq h1 h2]
    exact congrArg Ledger.store hl
  have hh : t.sess.history = Flushed.splice s.sess.history s.sess.compactStart s.sess.compactEnd z := by
    rw [← spliceSummary_history z hlt hle]
    exact congrArg (fun l => l.sess.history) hl
  have hp : t.sess.persistedPrefix = s.sess.compactStart + 1 := by
    rw [← compactPrefix_eq h1 h2]
    exact congrArg (fun l => l.sess.persistedPrefix) hl
  have hu : t.nextUid = s.nextUid + 1 := congrArg Ledger.nextUid hl
  have hrb : t.rolledBack = s.rolledBack := congrArg Ledger.rolledBack hl
  have ha : t.alive = true := (congrArg Ledger.alive hl).trans halive
  have hc : t.conf = s.conf := congrArg Ledger.conf hl
  have hfresh : ∀ y ∈ s.store ++ s.sess.history, y.uid ≠ z.uid := by
    intro y hy
    rcases mem_append.mp hy with h3 | h3
    · have := h.storeBelow y h3
      omega
    · have := h.historyBelow halive y h3
      omega
  refine ⟨hlife, by rw [hc]; exact h.memory, ?_, ?_, ?_, ?_, ?_, ?_⟩
  · intro _
    rw [hst, hh, hp]
    exact hf.spliced (fun _ => .inl rfl) h1 h2 hle hfresh
  · intro _ hcf
    have : t.sess.compacting = false := congrArg (fun l => l.sess.compacting) hl
    rw [this] at hcf
    exact absurd hcf (by simp)
  · intro y hy
    rw [hst] at hy
    rcases Flushed.mem_spliceLog.mp hy with h3 | h3 | h3
    · have := h.storeBelow y h3
      omega
    · have := h.historyBelow halive y (mem_of_mem_drop (mem_of_mem_take h3))
      omega
    · rw [h3]
      omega
  · intro _ y hy
    rw [hh] at hy
    rcases mem_append.mp hy with h3 | h3
    · have := h.historyBelow halive y (mem_of_mem_take h3)
      omega
    · rcases mem_cons.mp h3 with h4 | h4
      · rw [h4]
        omega
      · have := h.historyBelow halive y (mem_of_mem_drop h4)
        omega
  · rw [hst]
    exact hf.splice_log h.once hfresh
  · intro u h3 h4
    rw [hrb, hst, hh]
    by_cases hlast : u < s.nextUid
    · rcases h.kept u h3 hlast with h5 | ⟨y, hy, hk⟩ | ⟨-, y, hy, hk⟩
      · exact .inl h5
      · exact .inr (.inl ⟨y, Flushed.mem_spliceLog.mpr (.inl hy), hk⟩)
      · rcases hf.splice_keeps h2 hy with h6 | ⟨y', hy', hk'⟩
        · exact .inr (.inr ⟨ha, y, h6, hk⟩)
        · exact .inr (.inl ⟨y', hy', hk'.trans hk⟩)
    · exact .inr (.inl ⟨z, Flushed.mem_spliceLog.mpr (.inr (.inr rfl)), by omega⟩)

theorem endRun (h : Stored first s) (reason : DoneReason) (env : InputEnv) (hlife : Life (s.endRun reason env))
    (hrun : s.q.running = true)
    (hok : s.nextUid < (s.endRun reason env).nextUid → s.sess.compacting = true →
      s.sess.compactStart ≤ s.sess.persistedPrefix ∧ s.sess.persistedPrefix ≤ s.sess.compactEnd) :
    Stored first (s.endRun reason env) := by
  have halive : s.alive = true := by
    by_contra hd
    rw [h.life.dead (by simpa using hd)] at hrun
    exact absurd hrun (by simp)
  rcases endRun_ledger reason env s with ⟨hc, z, hz, -, hl⟩ | ⟨hc, hl⟩ | ⟨hc, hl⟩
  · rw [if_pos h.memory] at hl
    have hu : (s.endRun reason env).nextUid = s.nextUid + 1 := congrArg Ledger.nextUid hl
    obtain ⟨h1, h2⟩ := hok (by omega) hc
    exact h.splice hlife halive hc hz hl h1 h2
  · exact h.rewrite (g := id) hlife hl (fun _ => rfl) (fun _ _ h => h) (map_id _).symm rfl
      (fun _ hf => absurd hf (by simp [Session.settled]))
  · exact h.add _ hlife halive hl rfl rfl hc

theorem finish (h : Stored first s) (hlife : Life s.sessionFinish) (halive : s.alive = true) :
    Stored first s.sessionFinish := by
  have hf := h.flushed halive
  have hst : s.sessionFinish.store = s.store ++ s.sess.history.drop s.sess.persistedPrefix := by
    unfold sessionFinish memoryAppend
    rw [if_pos h.memory, Nat.min_eq_left hf.bound]
  have hdead : ∀ {P : Prop}, s.sessionFinish.alive = true → P := fun ha =>
    absurd ha (by simp [sessionFinish])
  refine ⟨hlife, h.memory, fun ha => hdead ha, fun ha => hdead ha, ?_, fun ha => hdead ha, ?_, ?_⟩
  · intro y hy
    rw [hst] at hy
    rcases mem_append.mp hy with h1 | h1
    · exact h.storeBelow y h1
    · exact h.historyBelow halive y (mem_of_mem_drop h1)
  · rw [hst]
    exact hf.flush h.once
  · intro u h1 h2
    rw [hst]
    rcases h.kept u h1 h2 with h3 | ⟨y, hy, hk⟩ | ⟨-, x, hx, hk⟩
    · exact .inl h3
    · exact .inr (.inl ⟨y, mem_append_left _ hy, hk⟩)
    · rw [← take_append_drop s.sess.persistedPrefix s.sess.history] at hx
      rcases mem_append.mp hx with h4 | h4
      · obtain ⟨y, hy, hk', -⟩ := hf.pre x h4
        exact .inr (.inl ⟨y, mem_append_left _ hy, hk'.trans hk⟩)
      · exact .inr (.inl ⟨x, mem_append_right _ h4, hk⟩)

theorem create (h : Stored first s) (n : ℕ) (hlife : Life (createSession n s)) (hdead : s.alive = false) :
    Stored first (createSession n s) := by
  have hh : (createSession n s).sess.history = retrieve s.store := by
    simp [createSession, h.memory]
  have hp : (createSession n s).sess.persistedPrefix = (retrieve s.store).length := by
    simp [createSession, h.memory]
  have hsub : (retrieve s.store).Sublist s.store := sinceLast_sublist _ _
  refine ⟨hlife, h.memory, ?_, ?_, h.storeBelow, ?_, h.once, ?_⟩
  · intro _
    rw [hh, hp]
    exact Flushed.of_log (fun _ => .inl rfl) (fun x hx => hsub.subset hx) (h.once.sublist (hsub.map _))
  · intro _ hc
    exact absurd hc (by simp [createSession])
  · intro _ x hx
    rw [hh] at hx
    exact h.storeBelow x (hsub.subset hx)
  · intro u h1 h2
    rcases h.kept u h1 h2 with h3 | h3 | ⟨h3, -⟩
    · exact .inl h3
    · exact .inr (.inl h3)
    · rw [hdead] at h3
      exact absurd h3 (by simp)

theorem gated {s : State} {cs : List Content} {env : InputEnv} (hg : Gated s cs env x) :
    ∃ g : Slot → Slot, (∀ y, (g y).uid = y.uid) ∧ (∀ y z, Shrunk y z → Shrunk (g y) z) ∧
      x.history = s.sess.history.map g := by
  rcases hg.history with h | h
  · exact ⟨id, fun _ => rfl, fun _ _ h => h, by rw [h, map_id]⟩
  · exact ⟨trimSlot env.trimOk, trimSlot_uid _, fun _ _ h => trimSlot_shrunk _ h, h⟩

theorem withdraw (h : Stored first s) (hlife : Life t)
    (hl : t.ledger = { s.ledger with
      nextUid := s.nextUid + 1, rolledBack := s.rolledBack ++ [s.nextUid] }) : Stored first t := by
  have hs : t.sess = s.sess := congrArg Ledger.sess hl
  have hst : t.store = s.store := congrArg Ledger.store hl
  have hu : t.nextUid = s.nextUid + 1 := congrArg Ledger.nextUid hl
  have hr : t.rolledBack = s.rolledBack ++ [s.nextUid] := congrArg Ledger.rolledBack hl
  have ha : t.alive = s.alive := congrArg Ledger.alive hl
  have hc : t.conf = s.conf := congrArg Ledger.conf hl
  refine ⟨hlife, by rw [hc]; exact h.memory, ?_, ?_, ?_, ?_, ?_, ?_⟩
  · rw [ha, hst, hs]; exact h.flushed
  · rw [ha, hs]; exact h.range
  · intro y hy
    rw [hst] at hy
    have := h.storeBelow y hy
    omega
  · intro hal y hy
    rw [hs] at hy
    have := h.historyBelow (ha ▸ hal) y hy
    omega
  · rw [hst]; exact h.once
  · intro u h1 h2
    rw [hr, hst, ha, hs]
    by_cases hlt : u < s.nextUid
    · exact (h.kept u h1 hlt).imp (mem_append_left _) id
    · left
      rw [show u = s.nextUid by omega]
      simp

theorem received (h : Stored first s) {msg : Message} {env : InputEnv} (halive : s.alive = true)
    (hr : Received msg env s t) : Stored first t := by
  have hlife := h.life.received halive hr
  have hgate : ∀ {x : Session}, Gated s msg.contents env x →
      (x.compacting = true → x.compactStart < x.compactEnd ∧ x.compactEnd ≤ x.history.length) →
      Stored first { s with sess := x } := by
    intro x hg hrange
    obtain ⟨g, h1, h2, h3⟩ := gated hg
    exact h.rewrite ⟨h.life.live, h.life.dead, h.life.ofRun⟩ rfl h1 h2 h3 hg.persistedPrefix
      (fun _ => hrange)
  cases hr with
  | kept x hg hbusy hl _ =>
    refine (hgate hg ?_).of_ledger hl hlife
    intro hc
    have hs : s.sess.compacting = true := by rw [← hg.compacting]; exact hc
    rw [hbusy (by simp [State.busy, hs])]
    exact h.range halive hs
  | launched x _ hg hc _ h1 h2 hl _ =>
    have hs : Stored first { s with sess := x } := hgate hg (fun _ => ⟨h1, h2⟩)
    exact hs.rewrite (g := id) hlife hl (fun _ => rfl) (fun _ _ h => h) (map_id _).symm rfl
      (fun _ _ => ⟨h1, h2⟩)
  | withdrawn x o hg _ _ hl hb _ =>
    have hxc : x.compacting = false := hg.compacting.trans (Bool.or_eq_false_iff.mp hb).2
    have hs : Stored first { s with sess := x } := hgate hg (by simp [hxc])
    have hs' : Stored first
        { s with sess := { x with deltaEntries := x.deltaEntries + 1, overheadTokens := o } } :=
      hs.rewrite (g := id) ⟨h.life.live, h.life.dead, h.life.ofRun⟩ rfl (fun _ => rfl)
        (fun _ _ h => h) (map_id _).symm rfl (by simp [hxc])
    exact hs'.withdraw hlife hl
  | accepted x o hg hb _ _ hl _ =>
    have hxc : x.compacting = false := hg.compacting.trans (Bool.or_eq_false_iff.mp hb).2
    have hs : Stored first { s with sess := x } := hgate hg (by simp [hxc])
    exact hs.add [.text msg.role (textOf msg.contents)] hlife halive hl rfl rfl hxc

/-- **One step** under the condition keeps the invariant. -/
theorem step {l : Label} (h : Stored first s) (hok : straddles s l = true)
    (hs : Libx.Agent.step s l = some t) : Stored first t := by
  have hlife := h.life.step hs
  have hstep := hs
  cases effect_of_step hs with
  | settles hset =>
    cases hset with
    | quiet hq => exact h.of_ledger hq.ledger hlife
    | ended reason hq hrun =>
      refine (h.of_ledger hq.ledger (h.life.quiet hq)).endRun reason l.env hlife hrun ?_
      intro hlt hc
      rw [hq.nextUid] at hlt
      rw [hq.sess] at hc ⊢
      have hsp : splices s l = true := by
        simp [splices, hc, hstep, hlt]
      simpa [straddles, hsp] using hok
    | finished hq ha _ =>
      exact (h.of_ledger hq.ledger (h.life.quiet hq)).finish hlife (hq.alive.trans ha)
  | received msg ha hi hr =>
    obtain ⟨hl, -⟩ := incoming_same hi
    obtain ⟨hlife0, ha0⟩ := h.life.incoming hi
    refine Stored.received ?_ (ha0.trans ha) hr
    exact h.rewrite (g := id) hlife0 hl (fun _ => rfl) (fun _ _ h => h) (map_id _).symm rfl
      (fun hal => h.range hal)
  | window n =>
    exact h.rewrite (g := id) hlife rfl (fun _ => rfl) (fun _ _ h => h) (map_id _).symm rfl
      (fun hal => h.range hal)
  | create n _ hd => exact h.create n hlife hd

end Stored

/-! ### Runs -/

theorem stored_init {conf : Conf} (hm : conf.hasMemory = true) (contextWindow : ℕ) (log : List Entry) :
    Stored log.length (init conf contextWindow (slotsFrom 0 log) log.length) := by
  have hbelow : ∀ y ∈ slotsFrom 0 log, y.uid < log.length := fun y hy => by
    have := (slotsFrom_uid hy).2
    omega
  have hbase : Stored log.length
      { conf := conf, store := slotsFrom 0 log, nextUid := log.length, alive := false } :=
    ⟨⟨by simp, fun _ => rfl, fun _ he => absurd he (by simp)⟩, hm, by simp, by simp, hbelow, by simp,
      slotsFrom_nodup _ _, fun u h1 h2 => absurd h2 (by simp only; omega)⟩
  exact hbase.create contextWindow (Life.init _ _ _ _) rfl

/-- **Every entry is persisted exactly once** in runs whose compacts straddle the prefix. -/
theorem persistedOnce_of_run {conf : Conf} {contextWindow : ℕ} {log : List Entry} {s : State}
    (hm : conf.hasMemory = true)
    (h : Run step (fun s l => straddles s l = true)
      (init conf contextWindow (slotsFrom 0 log) log.length) s) : PersistedOnce log.length s := by
  have hstored : Stored log.length s :=
    h.preserves (fun _ _ _ hi hok hs => hi.step hok hs) (stored_init hm _ _)
  exact hstored.persistedOnce

/-- A session with a store that compacts everything but the last `tail` turns. -/
def storeConf (tail : UInt64) : Conf :=
  { policy := .summarize, tailTurns := tail, hasMemory := true }

/-- The session answers, compacts, retries and is destroyed. -/
def compactAll : List Label :=
  [⟨.input hello, {}⟩, ⟨.ret, {}⟩, ⟨.text 0 (bytes "a"), {}⟩, ⟨.done 0 .endTurn .ok none, {}⟩, ⟨.ret, {}⟩,
    ⟨.input hello, {}⟩, ⟨.ret, {}⟩, ⟨.text 1 (bytes "s"), {}⟩, ⟨.done 1 .endTurn .ok none, {}⟩,
    ⟨.ret, {}⟩, ⟨.ret, {}⟩, ⟨.done 2 .endTurn .ok none, {}⟩, ⟨.ret, {}⟩, ⟨.destroy, {}⟩]

/-- In a session that starts empty a compact meets the condition, and all four entries are stored. -/
theorem persistedOnce_of_run_compact :
    ∃ s, Run step (fun s l => straddles s l = true) (init (storeConf 0) 20 (slotsFrom 0 []) 0) s ∧
      s.alive = false ∧ s.store.map Slot.uid = [0, 1, 2, 3] ∧ PersistedOnce 0 s := by
  obtain ⟨s, hs, hn⟩ := exists_run_of_replay step (fun s l => straddles s l = true) straddles
    (fun s => !s.alive && s.store.map Slot.uid = [0, 1, 2, 3]) (fun _ _ h => h)
    (show replay step straddles _ (init (storeConf 0) 20 (slotsFrom 0 []) 0) compactAll = true by rfl)
  simp only [Bool.and_eq_true, Bool.not_eq_true', decide_eq_true_eq] at hn
  exact ⟨s, hs, hn.1, hn.2, @persistedOnce_of_run (storeConf 0) 20 [] s rfl hs⟩

def State.doubled (s : State) : Bool :=
  s.alive && (s.sess.history.drop s.sess.persistedPrefix).any
    (fun x => s.store.any (fun y => y.uid = x.uid))

theorem not_persistedOnce_of_doubled {first : ℕ} {s : State} (h : s.doubled = true) :
    ¬ PersistedOnce first s := by
  intro hp
  unfold State.doubled at h
  rw [Bool.and_eq_true] at h
  obtain ⟨ha, h⟩ := h
  obtain ⟨x, hx, hy⟩ := any_eq_true.mp h
  obtain ⟨y, hy, hk⟩ := any_eq_true.mp hy
  obtain ⟨i, hi⟩ := mem_iff_getElem?.mp hx
  rw [List.getElem?_drop] at hi
  have := (hp.stored ha _ x hi).mp ⟨y, hy, by simpa using hk⟩
  omega

def twoTurns : List Entry :=
  [.text .user (bytes "hi"), .text .assistant (bytes "a"), .text .user (bytes "hi"),
    .text .assistant (bytes "b")]

def compactResumed : List Label :=
  [⟨.input hello, {}⟩, ⟨.ret, {}⟩, ⟨.text 0 (bytes "s"), {}⟩, ⟨.done 0 .endTurn .ok none, {}⟩]

/-- **A resumed session stores an entry twice**: its compact ends inside the persisted prefix, which
comes out one too small. -/
theorem not_persistedOnce :
    ∃ s, Run step (fun _ _ => True) (init (storeConf 1) 20 (slotsFrom 0 twoTurns) 4) s ∧
      ¬ PersistedOnce 4 s := by
  obtain ⟨s, hs, hn⟩ := exists_run_of_replay step (fun _ _ => True) (fun _ _ => true) State.doubled
    (fun _ _ _ => trivial)
    (show replay step _ _ (init (storeConf 1) 20 (slotsFrom 0 twoTurns) 4) compactResumed = true by rfl)
  exact ⟨s, hs, not_persistedOnce_of_doubled hn⟩

end Libx.Agent
