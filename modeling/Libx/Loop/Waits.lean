import Libx.Base.Heap

/-!
# Libx.Loop.Waits — how long the loop sleeps

The timeout of `xEventWait` in event_epoll.c, and `xEventLoopWait` of event_run.c.  A clock that reads 64 bits goes on
past 2^64.
-/

namespace Libx.Loop

open Libx.Agent (Errno)
open Libx.Base (Queue TotalPreorder)
open Libx.Core (Run)
open Option

/-- `event_timer_cmp` on the deadlines. -/
def eventTimerCmp (a b : UInt64) : ℤ := if a < b then -1 else if b < a then 1 else 0

/-- The timers in the heap, with their deadlines. -/
abbrev TimerHeap := Queue ℕ UInt64

/-- The deadline of `xHeapPeek`. -/
def peek (q : TimerHeap) : Option UInt64 := q.data[0]?.map q.key

/-- How long until the deadline, as an `int`. -/
def timerTimeout (deadline now : UInt64) : Int32 :=
  let wait := (deadline - now).toInt64
  if wait ≤ 0 then 0 else wait.toInt32

/-- The timeout that `xEventWait` passes on. -/
def effectiveTimeout (top : Option UInt64) (now : UInt64) (timeout : Int32) : Int32 :=
  match top with
  | none => timeout
  | some deadline =>
    let timer := timerTimeout deadline now
    if timeout < 0 ∨ timer < timeout then timer else timeout

/-- **The sleep ends in time**: it ends at all where there is a timer or the caller wants it to, not after any timer, and
not after the caller's time. -/
structure Timely (q : TimerHeap) (now : UInt64) (timeout : Int32) : Prop where
  ends : q.data ≠ #[] ∨ 0 ≤ timeout.toInt → 0 ≤ (effectiveTimeout (peek q) now timeout).toInt
  timer : ∀ a ∈ q.data, (effectiveTimeout (peek q) now timeout).toInt ≤ ((q.key a).toNat - now.toNat : ℕ)
  caller : 0 ≤ timeout.toInt → (effectiveTimeout (peek q) now timeout).toInt ≤ timeout.toInt

/-- The time left to the deadline is positive as an `int`, or 2^63 and more; or the deadline is no more than 2^63 past,
or what is left of 2^64 is zero as an `int`, or positive and the caller does not wait. -/
def Near (timeout : Int32) (now deadline : UInt64) : Prop :=
  if now.toNat ≤ deadline.toNat then
    2 ^ 63 ≤ deadline.toNat - now.toNat ∨ (deadline.toNat - now.toNat) % 2 ^ 32 < 2 ^ 31
  else
    now.toNat - deadline.toNat ≤ 2 ^ 63 ∨ (now.toNat - deadline.toNat) % 2 ^ 32 = 0 ∨
      2 ^ 31 < (now.toNat - deadline.toNat) % 2 ^ 32 ∧ timeout = 0

/-! ### `xEventLoopWait` -/

/-- `xMonoMs` at a time. -/
def monoMs (t : ℕ) : UInt64 := UInt64.ofNat t

/-- `INT_MAX`. -/
def intMax : UInt64 := 0x7FFFFFFF

/-- The deadline of `xEventLoopWait`. -/
def waitDeadline (timeout : Int32) (start : ℕ) : UInt64 :=
  if 0 ≤ timeout then monoMs start + timeout.toInt64.toUInt64 else 0

/-- One test of the clock: how long to wait, if the time is not over. -/
def waitMs (timeout : Int32) (deadline : UInt64) (now : ℕ) : Option Int32 :=
  if 0 ≤ timeout then
    let remaining := (deadline - monoMs now).toInt64.toUInt64
    if remaining ≤ 0 then none
    else some (if intMax < remaining then intMax.toUInt32.toInt32 else remaining.toUInt32.toInt32)
  else some (-1)

/-- One turn of the loop: whether it was stopped before, and how long the `xEventWait` before the test has taken. -/
structure Turn where
  stopped : Bool
  elapsed : ℕ

/-- The loop of `xEventLoopWait`: what it returns, and when, if it does so in some turns. -/
def waitLoop (timeout : Int32) (deadline : UInt64) (now : ℕ) : List Turn → Option (Errno × ℕ)
  | [] => none
  | t :: ts =>
    if t.stopped then some (.ok, now)
    else
      match waitMs timeout deadline (now + t.elapsed) with
      | none => some (.timeout, now + t.elapsed)
      | some _ => waitLoop timeout deadline (now + t.elapsed) ts

/-- `xEventLoopWait`. -/
def eventLoopWait (timeout : Int32) (start : ℕ) (turns : List Turn) : Option (Errno × ℕ) :=
  waitLoop timeout (waitDeadline timeout start) start turns

/-- The first time the clock is tested at the deadline or after it, if the loop was not stopped before. -/
def firstLate (deadline now : ℕ) : List Turn → Option ℕ
  | [] => none
  | t :: ts =>
    if t.stopped then none
    else if deadline ≤ now + t.elapsed then some (now + t.elapsed)
    else firstLate deadline (now + t.elapsed) ts

/-- **The wait ends in time**, at the first test that finds it over. -/
def Punctual (timeout : Int32) (start : ℕ) (turns : List Turn) : Prop :=
  ∀ late ∈ firstLate (start + timeout.toInt.toNat) start turns, eventLoopWait timeout start turns = some (.timeout, late)

/-- The first test that finds the wait over comes at the deadline, or a multiple of 2^64 after it. -/
def OnTime (timeout : Int32) (start : ℕ) (turns : List Turn) : Prop :=
  ∀ late ∈ firstLate (start + timeout.toInt.toNat) start turns, 2 ^ 64 ∣ late - (start + timeout.toInt.toNat)

/-! ### The timeout -/

theorem totalPreorder_eventTimerCmp : TotalPreorder eventTimerCmp := by
  refine ⟨fun a b => ?_, fun a b c hab hbc => ?_⟩
  · unfold eventTimerCmp
    simp only [UInt64.lt_iff_toNat_lt]
    split_ifs <;> omega
  · unfold eventTimerCmp at *
    simp only [UInt64.lt_iff_toNat_lt] at *
    split_ifs at * <;> omega

theorem toInt_toInt64 (x : UInt64) :
    x.toInt64.toInt = if x.toNat < 2 ^ 63 then (x.toNat : ℤ) else (x.toNat : ℤ) - 2 ^ 64 := by
  have := BitVec.toInt_eq_toNat_cond x.toBitVec
  refine this.trans ?_
  show (if 2 * x.toNat < 2 ^ 64 then (x.toNat : ℤ) else (x.toNat : ℤ) - 2 ^ 64) = _
  split_ifs <;> omega

theorem toInt_timerTimeout (deadline now : UInt64) : (timerTimeout deadline now).toInt =
    if (deadline - now).toNat < 2 ^ 63 then ((deadline - now).toNat : ℤ).bmod (2 ^ 32) else 0 := by
  have hcast := toInt_toInt64 (deadline - now)
  have hlt := (deadline - now).toNat_lt
  unfold timerTimeout
  by_cases h : (deadline - now).toNat < 2 ^ 63
  · rw [if_pos h] at hcast ⊢
    by_cases h0 : (deadline - now).toInt64 ≤ 0
    · have hle := Int64.le_iff_toInt_le.1 h0
      rw [hcast, Int64.toInt_zero] at hle
      rw [if_pos h0, show ((deadline - now).toNat : ℤ) = 0 by omega]
      rfl
    · rw [if_neg h0, Int64.toInt_toInt32, hcast]
  · rw [if_neg h] at hcast ⊢
    have h0 : (deadline - now).toInt64 ≤ 0 := by
      rw [Int64.le_iff_toInt_le, hcast, Int64.toInt_zero]
      omega
    rw [if_pos h0]
    rfl

theorem toInt_effectiveTimeout (d now : UInt64) (timeout : Int32) : (effectiveTimeout (some d) now timeout).toInt =
    if timeout.toInt < 0 ∨ (timerTimeout d now).toInt < timeout.toInt then (timerTimeout d now).toInt
    else timeout.toInt := by
  unfold effectiveTimeout
  simp only [Int32.lt_iff_toInt_lt, Int32.toInt_zero]
  split_ifs <;> rfl

theorem near_iff (d now : UInt64) (timeout : Int32) :
    (0 ≤ (effectiveTimeout (some d) now timeout).toInt ∧
      (effectiveTimeout (some d) now timeout).toInt ≤ (d.toNat - now.toNat : ℕ) ∧
        (0 ≤ timeout.toInt → (effectiveTimeout (some d) now timeout).toInt ≤ timeout.toInt)) ↔ Near timeout now d := by
  have hd := d.toNat_lt
  have hnow := now.toNat_lt
  have hzero : timeout = 0 ↔ timeout.toInt = 0 := by
    rw [← Int32.toInt_inj, Int32.toInt_zero]
  have hsub : (d - now).toNat = if now.toNat ≤ d.toNat then d.toNat - now.toNat else 2 ^ 64 - (now.toNat - d.toNat) := by
    rw [UInt64.toNat_sub]
    split_ifs <;> omega
  rw [toInt_effectiveTimeout, toInt_timerTimeout, Int.bmod_def]
  unfold Near
  rw [hzero]
  generalize timeout.toInt = t
  generalize (d - now).toNat = x at hsub ⊢
  by_cases hle : now.toNat ≤ d.toNat
  · subst hsub
    split_ifs <;> omega
  · subst hsub
    split_ifs <;> omega

/-- **The sleep ends in time** exactly when the earliest timer is near. -/
theorem timely_iff {cap : ℕ} {key : ℕ → UInt64} {q : TimerHeap}
    (h : Run (Queue.step eventTimerCmp) Queue.Fresh (Queue.init cap key) q) (now : UInt64) (timeout : Int32) :
    Timely q now timeout ↔ ∀ d ∈ peek q, Near timeout now d := by
  by_cases h0 : q.data = #[]
  · have hpeek : peek q = none := by
      unfold peek
      rw [h0]
      rfl
    have heq : effectiveTimeout (peek q) now timeout = timeout := by
      rw [hpeek]
      rfl
    refine iff_of_true ⟨?_, ?_, ?_⟩ ?_
    · rw [heq]
      exact fun hends => hends.resolve_left (not_not_intro h0)
    · rw [h0]
      exact fun a ha => absurd ha (Array.not_mem_empty a)
    · rw [heq]
      exact fun _ => Int.le_refl _
    · rw [hpeek]
      exact nofun
  have hsize : 0 < q.data.size := Nat.pos_of_ne_zero fun hs => h0 (Array.eq_empty_of_size_eq_zero hs)
  have hpeek : peek q = some (q.key q.data[0]) := by
    unfold peek
    rw [Array.getElem?_eq_getElem hsize]
    rfl
  -- no timer is before the one at the top
  have hfirst : ∀ a ∈ q.data, q.key q.data[0] ≤ q.key a := by
    obtain ⟨b, h', hpop, hle, -⟩ := (Queue.sound_of_run totalPreorder_eventTimerCmp h).pop hsize
    have hb : b = q.data[0] := by
      unfold Base.Heap.pop at hpop
      rw [if_neg (by omega), Array.getElem?_eq_getElem hsize] at hpop
      exact (some.inj (congrArg Prod.fst hpop)).symm
    intro a ha
    have := hle a ha
    rw [hb] at this
    unfold eventTimerCmp at this
    rw [UInt64.le_iff_toNat_le]
    simp only [UInt64.lt_iff_toNat_lt] at this
    split_ifs at this <;> omega
  rw [hpeek]
  have hd : (∀ d ∈ some (q.key q.data[0]), Near timeout now d) ↔ Near timeout now (q.key q.data[0]) := by simp
  rw [hd, ← near_iff]
  constructor
  · intro ht
    refine ⟨?_, ?_, ?_⟩
    · exact hpeek ▸ ht.ends (.inl h0)
    · exact hpeek ▸ ht.timer _ (Array.getElem_mem hsize)
    · exact hpeek ▸ ht.caller
  · rintro ⟨hends, htimer, hcaller⟩
    refine ⟨fun _ => hpeek ▸ hends, fun a ha => ?_, hpeek ▸ hcaller⟩
    have hle := UInt64.le_iff_toNat_le.1 (hfirst a ha)
    rw [hpeek]
    omega

/-! ### The wait -/

variable {timeout : Int32} {start now : ℕ}

theorem toNat_waitDeadline (h : 0 ≤ timeout) (start : ℕ) :
    (waitDeadline timeout start).toNat = (start + timeout.toInt.toNat) % 2 ^ 64 := by
  have hpos := Int32.le_iff_toInt_le.1 h
  have hcast : timeout.toInt64.toUInt64.toNat = timeout.toInt.toNat := by
    have h0 : (0 : Int64) ≤ timeout.toInt64 := by
      rw [Int64.le_iff_toInt_le, Int64.toInt_zero, Int32.toInt_toInt64]
      exact hpos
    rw [Int64.toNat_toUInt64_of_le h0]
    show timeout.toInt64.toInt.toNat = _
    rw [Int32.toInt_toInt64]
  unfold waitDeadline monoMs
  rw [if_pos h, UInt64.toNat_add, hcast, UInt64.toNat_ofNat', Nat.mod_add_mod]

theorem waitMs_eq_none (h : 0 ≤ timeout) (start now : ℕ) :
    waitMs timeout (waitDeadline timeout start) now = none ↔ (start + timeout.toInt.toNat) % 2 ^ 64 = now % 2 ^ 64 := by
  have hdeadline := toNat_waitDeadline h start
  have hnow : (monoMs now).toNat = now % 2 ^ 64 := UInt64.toNat_ofNat'
  unfold waitMs
  rw [if_pos h]
  rw [UInt64.toUInt64_toInt64, ← hdeadline, ← hnow, UInt64.toNat_inj]
  have hzero : waitDeadline timeout start - monoMs now ≤ 0 ↔ waitDeadline timeout start = monoMs now := by
    rw [UInt64.le_iff_toNat_le, UInt64.toNat_zero, Nat.le_zero, ← UInt64.toNat_zero, UInt64.toNat_inj, UInt64.sub_eq_iff_eq_add,
      UInt64.zero_add]
  rw [← hzero]
  by_cases h0 : waitDeadline timeout start - monoMs now ≤ 0
  · rw [if_pos h0]
    exact iff_of_true rfl h0
  · rw [if_neg h0]
    exact iff_of_false nofun h0

theorem waitMs_of_waitLoop {deadline : UInt64} {late : ℕ} {turns : List Turn}
    (h : waitLoop timeout deadline now turns = some (.timeout, late)) : waitMs timeout deadline late = none := by
  induction turns generalizing now with
  | nil => cases h
  | cons t ts ih =>
    unfold waitLoop at h
    by_cases hstop : t.stopped = true
    · rw [if_pos hstop] at h
      exact Errno.noConfusion (Prod.mk.inj (some.inj h)).1
    rw [if_neg hstop] at h
    cases hms : waitMs timeout deadline (now + t.elapsed) with
    | none =>
      rw [hms] at h
      rw [← (Prod.mk.inj (some.inj h)).2]
      exact hms
    | some ms =>
      rw [hms] at h
      exact ih h

theorem waitLoop_iff (h : 0 ≤ timeout) (hnow : start ≤ now) (turns : List Turn) :
    (∀ late ∈ firstLate (start + timeout.toInt.toNat) now turns,
      waitLoop timeout (waitDeadline timeout start) now turns = some (.timeout, late)) ↔
        ∀ late ∈ firstLate (start + timeout.toInt.toNat) now turns, 2 ^ 64 ∣ late - (start + timeout.toInt.toNat) := by
  have hlt := timeout.toInt_lt
  induction turns generalizing now with
  | nil => exact iff_of_true nofun nofun
  | cons t ts ih =>
    unfold firstLate waitLoop
    by_cases hstop : t.stopped = true
    · simp only [if_pos hstop]
      exact iff_of_true nofun nofun
    simp only [if_neg hstop]
    have hnone := waitMs_eq_none h start (now + t.elapsed)
    by_cases hlate : start + timeout.toInt.toNat ≤ now + t.elapsed
    · simp only [if_pos hlate, mem_def, some.injEq, forall_eq']
      have hdvd : 2 ^ 64 ∣ now + t.elapsed - (start + timeout.toInt.toNat) ↔
          (start + timeout.toInt.toNat) % 2 ^ 64 = (now + t.elapsed) % 2 ^ 64 := by omega
      rw [hdvd, ← hnone]
      constructor
      · intro hreturn
        by_contra hms
        obtain ⟨ms, hms⟩ := ne_none_iff_exists'.1 hms
        rw [hms] at hreturn
        rw [waitMs_of_waitLoop hreturn] at hms
        cases hms
      · intro hms
        rw [hms]
    · simp only [if_neg hlate]
      -- the time is not over, and the test says so
      have hms : waitMs timeout (waitDeadline timeout start) (now + t.elapsed) ≠ none := by
        rw [Ne, hnone]
        omega
      obtain ⟨ms, hms⟩ := ne_none_iff_exists'.1 hms
      rw [hms]
      exact ih (by omega)

/-- **The wait ends in time** exactly when the first test that finds it over comes at the deadline. -/
theorem punctual_iff (h : 0 ≤ timeout) (start : ℕ) (turns : List Turn) :
    Punctual timeout start turns ↔ OnTime timeout start turns :=
  waitLoop_iff h (Nat.le_refl start) turns

/-- **The loop sleeps past no deadline** exactly when the earliest timer is near and the clock is tested at the
deadline. -/
theorem awake_iff {cap : ℕ} {key : ℕ → UInt64} {q : TimerHeap}
    (h : Run (Queue.step eventTimerCmp) Queue.Fresh (Queue.init cap key) q) (now : UInt64) (timeout : Int32) (start : ℕ)
    (turns : List Turn) :
    (Timely q now timeout ↔ ∀ d ∈ peek q, Near timeout now d) ∧
      (0 ≤ timeout → (Punctual timeout start turns ↔ OnTime timeout start turns)) :=
  ⟨timely_iff h now timeout, fun h0 => punctual_iff h0 start turns⟩

/-- Two timers, and a clock that comes to the deadline in two turns. -/
theorem awake_iff_two : ∃ q : TimerHeap, q.data = #[500, 700] ∧
    Timely q 100 10 ∧ Punctual 10 5 [⟨false, 3⟩, ⟨false, 7⟩] := by
  obtain ⟨q, hq, hp⟩ := Core.exists_run_of_replay (Queue.step eventTimerCmp) Queue.Fresh
    (fun q m => decide (q.Fresh m)) (fun q => q.data = #[500, 700] ∧ peek q = some 500) (fun _ _ => of_decide_eq_true)
    (show Core.replay _ _ _ (Queue.init 0 UInt64.ofNat) [.push (some 700) true, .push (some 500) true] = true by
      decide +kernel)
  obtain ⟨hdata, hpeek⟩ := of_decide_eq_true hp
  obtain ⟨htimely, hpunctual⟩ := awake_iff hq 100 10 5 [⟨false, 3⟩, ⟨false, 7⟩]
  refine ⟨q, hdata, htimely.2 ?_, (hpunctual (by decide)).2 ?_⟩
  · rw [hpeek]
    rintro d ⟨⟩
    unfold Near
    decide
  · rintro late ⟨⟩
    decide

/-- A timer that is 2^31 ms away, and a wait of ten milliseconds that is tested after eleven. -/
theorem not_awake_late :
    (¬∀ (q : TimerHeap) (now : UInt64) (timeout : Int32),
      Run (Queue.step eventTimerCmp) Queue.Fresh (Queue.init 0 UInt64.ofNat) q → Timely q now timeout) ∧
        ¬∀ (timeout : Int32) (start : ℕ) (turns : List Turn), 0 ≤ timeout → Punctual timeout start turns := by
  constructor
  · intro hall
    obtain ⟨q, hq, hp⟩ := Core.exists_run_of_replay (Queue.step eventTimerCmp) Queue.Fresh
      (fun q m => decide (q.Fresh m)) (fun q => q.data = #[2147483648] ∧ peek q = some 2147483648)
      (fun _ _ => of_decide_eq_true)
      (show Core.replay _ _ _ (Queue.init 0 UInt64.ofNat) [.push (some 2147483648) true] = true by decide +kernel)
    obtain ⟨hdata, hpeek⟩ := of_decide_eq_true hp
    have := (hall q 0 (-1) hq).ends (.inl (by rw [hdata]; exact nofun))
    rw [hpeek] at this
    exact absurd this (by decide)
  · intro hall
    have := hall 10 0 [⟨false, 11⟩] (by decide) 11 rfl
    exact absurd this (by decide)

end Libx.Loop
