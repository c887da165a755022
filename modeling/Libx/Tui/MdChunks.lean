import Libx.Tui.Md

/-!
# Libx.Tui.MdChunks — a stream does not depend on its chunks
-/

namespace Libx.Tui

open Libx.Core (Heldback body feedHeld)
open List Option

namespace MdState

variable {md d : MdState} {c : UInt8} {a b l : List UInt8}

/-! ### Giving out -/

theorem rawN_eq (l : List UInt8) (md : MdState) :
    md.rawN l = { md with lastChar := (md.rawN l).lastChar, out := (md.rawN l).out } := by
  unfold rawN
  split_ifs
  · rfl
  · cases l.getLast? <;> rfl

@[simp] theorem rawN_pending : (md.rawN l).pending = md.pending := by rw [rawN_eq]

@[simp] theorem rawN_fence : (md.rawN l).fence = md.fence := by rw [rawN_eq]

@[simp] theorem rawN_dropped : (md.rawN l).dropped = md.dropped := by rw [rawN_eq]

/-- What is pending and the fence are left alone. -/
structure Same (md d : MdState) : Prop where
  pending : d.pending = md.pending
  fence : d.fence = md.fence
  dropped : d.dropped = md.dropped

theorem same_rawN : Same md (md.rawN l) := ⟨rawN_pending, rawN_fence, rawN_dropped⟩

theorem Same.styles {bold italic code : Bool} (h : Same md d) : Same md { d with bold, italic, code } :=
  ⟨h.pending, h.fence, h.dropped⟩

theorem same_toggleBold : Same md md.toggleBold := by
  unfold toggleBold
  split_ifs
  · exact same_rawN.styles
  · exact same_rawN.styles

theorem same_toggleItalic : Same md md.toggleItalic := by
  unfold toggleItalic
  split_ifs
  · exact same_rawN.styles
  · exact same_rawN.styles

theorem same_toggleCode : Same md md.toggleCode := by
  unfold toggleCode
  split_ifs
  · exact same_rawN.styles
  · exact same_rawN.styles

/-! ### What may be pending -/

/-- The beginnings of what a delimiter or an escape may be. -/
def candidates : List (List UInt8) :=
  [[], [backslash], [star], [star, star], [underscore], [backquote], [backquote, backquote], [hash], [hash, hash],
    [hash, hash, hash]]

/-- Only a beginning is pending, in a fence only one of its end; and no byte was dropped. -/
structure Ok (md : MdState) : Prop where
  pending : md.pending ∈ candidates
  fence : md.fence = true → md.pending = [] ∨ md.pending = [backquote] ∨ md.pending = [backquote, backquote]
  dropped : md.dropped = false

/-- Nothing is pending, outside of a fence. -/
structure Clear (md : MdState) : Prop where
  pending : md.pending = []
  fence : md.fence = false
  dropped : md.dropped = false

theorem Clear.ok (h : md.Clear) : md.Ok :=
  ⟨by rw [h.pending]; exact mem_cons_self, fun _ => .inl h.pending, h.dropped⟩

theorem Ok.length_le (h : md.Ok) : md.pending.length ≤ 3 := by
  have hall : ∀ p ∈ candidates, p.length ≤ 3 := by decide
  exact hall _ h.pending

theorem Ok.push (h : md.Ok) (hp : md.pending ++ [c] ∈ candidates)
    (hf : md.fence = true → md.pending ++ [c] = [backquote] ∨ md.pending ++ [c] = [backquote, backquote]) :
    (md.pendingPush c).Ok := by
  unfold pendingPush
  rw [if_pos (by have := h.length_le; omega)]
  exact ⟨hp, fun hfence => .inr (hf hfence), h.dropped⟩

/-- **A byte in a fence.** -/
theorem ok_fenceByte (h : md.Ok) (hf : md.fence = true) : (md.fenceByte c).Ok := by
  have hpush : md.pendingPush c = { md with pending := md.pending ++ [c] } := by
    unfold pendingPush
    rw [if_pos (by have := h.length_le; omega)]
  unfold fenceByte flushPendingLiteral emitLiteral
  dsimp only
  split_ifs with hc hlen
  · exact ⟨mem_cons_self, nofun, by rw [hpush, rawN_dropped]; exact h.dropped⟩
  · rw [hpush] at hlen ⊢
    rw [hc.2] at hlen ⊢
    rcases h.fence hf with hp | hp | hp <;> rw [hp] at hlen ⊢
    · exact ⟨by dsimp only; decide, fun _ => .inr (.inl rfl), h.dropped⟩
    · exact ⟨by dsimp only; decide, fun _ => .inr (.inr rfl), h.dropped⟩
    · exact absurd rfl hlen
  · refine ⟨?_, fun _ => .inl ?_, ?_⟩
    · rw [rawN_pending]
      exact mem_cons_self
    · rw [rawN_pending]
    · rw [rawN_dropped]
      rw [rawN_dropped]
      exact h.dropped

theorem Clear.same (h : md.Clear) (hs : Same md d) : d.Clear :=
  ⟨hs.pending.trans h.pending, hs.fence.trans h.fence, hs.dropped.trans h.dropped⟩

theorem Clear.rawN (h : md.Clear) : (md.rawN l).Clear := h.same same_rawN

theorem Clear.bol {b : Bool} (h : md.Clear) : Clear { md with bol := b } := h.same ⟨rfl, rfl, rfl⟩

theorem Clear.toggleBold (h : md.Clear) : md.toggleBold.Clear := h.same same_toggleBold

theorem Clear.toggleItalic (h : md.Clear) : md.toggleItalic.Clear := h.same same_toggleItalic

theorem Clear.toggleCode (h : md.Clear) : md.toggleCode.Clear := h.same same_toggleCode

theorem Clear.emitLiteral (h : md.Clear) : (md.emitLiteral c).Clear := h.rawN.bol

theorem Clear.push (h : md.Clear) (hc : [c] ∈ candidates) : (md.pendingPush c).Ok := by
  refine h.ok.push ?_ (fun hf => ?_)
  · rw [h.pending]
    exact hc
  · exact absurd (h.fence.symm.trans hf) nofun

/-! ### One byte -/

/-- Of a byte: what goes on to the next is sound, and what goes to the default of the switch has nothing pending. -/
def Flow.Ok : Flow → Prop
  | .next d => d.Ok
  | .fall d => d.Clear

/-- **What is pending is decided.** -/
theorem ok_resolve (h : md.Ok) (hf : md.fence = false) : Flow.Ok (md.resolve c) := by
  have hflush : md.flushPendingLiteral.Clear := ⟨rfl, rawN_fence.trans hf, rawN_dropped.trans h.dropped⟩
  have hpush : md.pending ++ [c] ∈ candidates → (md.pendingPush c).Ok :=
    fun hp => h.push hp (fun hfence => absurd (hf.symm.trans hfence) nofun)
  have hstar : ∀ p ∈ candidates, p.head? = some star → p.length = 1 → p ++ [star] ∈ candidates := by decide
  have hquote : ∀ p ∈ candidates, p.head? = some backquote →
      p.length = 1 ∧ p ++ [backquote] ∈ candidates ∨ p.length = 2 := by decide
  have hhash : ∀ p ∈ candidates, p.head? = some hash → p.length < 3 → p ++ [hash] ∈ candidates := by decide
  have hall : ∀ p ∈ candidates, p.head? = none ∨ p.head? = some backslash ∨
      p.head? = some star ∧ (p.length = 1 ∨ p.length = 2) ∨ p.head? = some underscore ∨
        p.head? = some backquote ∨ p.head? = some hash := by decide
  have htaken : Clear { md with pending := [] } := ⟨rfl, hf, h.dropped⟩
  have hmem := h.pending
  unfold resolve
  cases hp : md.pending with
  | nil => exact ⟨hp, hf, h.dropped⟩
  | cons p0 rest =>
    rw [hp] at hmem hpush
    dsimp only
    by_cases h1 : p0 = backslash
    · rw [if_pos h1]
      split_ifs
      · exact htaken.rawN.bol.ok
      · exact htaken.rawN.bol.ok
    rw [if_neg h1]
    by_cases h2 : p0 = star ∧ (p0 :: rest).length = 1
    · rw [if_pos h2]
      split_ifs with hc
      · refine hpush ?_
        rw [hc]
        exact hstar _ hmem (congrArg some h2.1) h2.2
      · exact hflush.emitLiteral.ok
      · exact htaken.toggleItalic
    rw [if_neg h2]
    by_cases h3 : p0 = star ∧ (p0 :: rest).length = 2
    · rw [if_pos h3]
      split_ifs
      · exact htaken.toggleBold.toggleItalic.ok
      · exact htaken.toggleBold
    rw [if_neg h3]
    by_cases h4 : p0 = underscore
    · rw [if_pos h4]
      split_ifs
      · exact htaken.rawN.bol
      · exact htaken.toggleItalic
    rw [if_neg h4]
    by_cases h5 : p0 = backquote
    · rw [if_pos h5]
      have hq := hquote _ hmem (congrArg some h5)
      split_ifs with hn hc hn' hc hb
      · refine hpush ?_
        rw [hc]
        exact (hq.resolve_right (by omega)).2
      · exact htaken.toggleCode
      · refine ⟨?_, fun _ => .inl rawN_pending, rawN_dropped.trans h.dropped⟩
        show (MdState.rawN _ _).pending ∈ candidates
        rw [rawN_pending]
        exact mem_cons_self
      · exact htaken.rawN.bol.ok
      · exact htaken.rawN.bol
      · rcases hq with hq | hq
        · exact absurd hq.1 hn
        · exact absurd hq hn'
    rw [if_neg h5]
    by_cases h6 : p0 = hash
    · rw [if_pos h6]
      split_ifs with hc hsp hb
      · refine hpush ?_
        rw [hc.1]
        exact hhash _ hmem (congrArg some h6) hc.2
      · exact Clear.ok ⟨rawN_pending.trans rfl, rawN_fence.trans hflush.fence, rawN_dropped.trans hflush.dropped⟩
      · exact Clear.ok ⟨rawN_pending.trans (rawN_pending.trans rfl), rawN_fence.trans (rawN_fence.trans hflush.fence),
          rawN_dropped.trans (rawN_dropped.trans hflush.dropped)⟩
      · exact hflush.bol
    · have hhead := hall _ hmem
      rcases hhead with hhead | hhead | ⟨hhead, hn | hn⟩ | hhead | hhead | hhead
      · exact nomatch hhead
      · exact absurd (some.inj hhead) h1
      · exact absurd ⟨some.inj hhead, hn⟩ h2
      · exact absurd ⟨some.inj hhead, hn⟩ h3
      · exact absurd (some.inj hhead) h4
      · exact absurd (some.inj hhead) h5
      · exact absurd (some.inj hhead) h6

/-- **The switch**, but for its default. -/
theorem ok_special (h : md.Clear) (hc : isSpecial c = true) : (md.special c).Ok := by
  have hheading : Clear { md.rawN boldOff with heading := false, bold := false } := h.rawN.same ⟨rfl, rfl, rfl⟩
  unfold special
  split_ifs with h1 _ h2 _ h3
  · exact h.emitLiteral.ok
  · exact h.push (by rw [h1]; decide)
  · exact h.push (by rw [h2]; decide)
  · exact h.emitLiteral.ok
  · exact hheading.emitLiteral.ok
  · exact h.emitLiteral.ok
  · unfold isSpecial at hc
    rw [decide_eq_true_iff] at hc
    rcases hc with hc | hc | hc | hc | hc | hc
    · exact h.push (by rw [hc]; decide)
    · exact h.push (by rw [hc]; decide)
    · exact absurd hc h1
    · exact h.push (by rw [hc]; decide)
    · exact absurd hc h2
    · exact absurd hc h3

/-- **One byte**, up to the default of the switch. -/
theorem ok_round (h : md.Ok) :
    match md.round c with
    | .next d => d.Ok
    | .fall d => d.Clear ∧ isSpecial c = false := by
  unfold round
  by_cases hf : md.fence = true
  · rw [if_pos hf]
    exact ok_fenceByte h hf
  · rw [if_neg hf]
    have hr : Flow.Ok (md.resolve c) := ok_resolve h (Bool.eq_false_iff.mpr hf)
    cases hres : md.resolve c with
    | next d =>
      rw [hres] at hr
      exact hr
    | fall d =>
      rw [hres] at hr
      dsimp only
      by_cases hc : isSpecial c = true
      · rw [if_pos hc]
        exact ok_special hr hc
      · rw [if_neg hc]
        exact ⟨hr, Bool.eq_false_iff.mpr hc⟩

/-! ### The loop, byte by byte -/

def stepByte (md : MdState) (c : UInt8) : MdState :=
  match md.round c with
  | .next d => d
  | .fall d => d.literalRun [c]

theorem Clear.literalRun (h : md.Clear) : (md.literalRun l).Clear := h.rawN.bol

theorem ok_stepByte (h : md.Ok) : (md.stepByte c).Ok := by
  have hr := ok_round (c := c) h
  unfold stepByte
  cases hround : md.round c with
  | next d =>
    rw [hround] at hr
    exact hr
  | fall d =>
    rw [hround] at hr
    exact hr.1.literalRun.ok

theorem Clear.stepByte (h : md.Clear) (hc : isSpecial c = false) : md.stepByte c = md.literalRun [c] := by
  unfold MdState.stepByte round resolve
  rw [h.fence, h.pending, hc]
  rfl

theorem rawN_append (a b : List UInt8) (md : MdState) : (md.rawN a).rawN b = md.rawN (a ++ b) := by
  unfold rawN
  by_cases hs : (!md.hasSink) = true
  · rw [if_pos hs, if_pos hs, if_pos hs]
  · rw [if_neg hs, if_neg hs]
    cases ha : a.getLast? with
    | none =>
      rw [List.getLast?_eq_none_iff.mp ha, nil_append]
      exact if_neg hs
    | some x =>
      rw [List.getLast?_append, ha]
      rw [if_neg hs]
      cases hb : b.getLast? with
      | none =>
        rw [List.getLast?_eq_none_iff.mp hb, List.append_nil a, none_or]
      | some y =>
        rw [← append_assoc]
        rfl

theorem literalRun_append (a b : List UInt8) (md : MdState) :
    (md.literalRun a).literalRun b = md.literalRun (a ++ b) := by
  have hbol : ∀ d : MdState, rawN b { d with bol := false } = { d.rawN b with bol := false } := by
    intro d
    unfold rawN
    split_ifs
    · rfl
    · cases b.getLast? <;> rfl
  unfold literalRun
  rw [hbol, rawN_append]

/-- **A run** is its bytes. -/
theorem Clear.foldl_stepByte (h : md.Clear) (hl : ∀ x ∈ l, isSpecial x = false) (a : List UInt8) :
    l.foldl MdState.stepByte (md.literalRun a) = md.literalRun (a ++ l) := by
  induction l generalizing a with
  | nil => rw [List.append_nil, foldl_nil]
  | cons c l ih =>
    rw [foldl_cons, (h.literalRun (l := a)).stepByte (hl c mem_cons_self), literalRun_append,
      ih (fun x hx => hl x (mem_cons_of_mem _ hx)), append_assoc, singleton_append]

/-- **The loop goes byte by byte.** -/
theorem feedLoop_eq (h : md.Ok) : md.feedLoop l = l.foldl stepByte md := by
  fun_induction feedLoop md l with
  | case1 md => rfl
  | case2 md c rest d hround ih =>
    have hr := ok_round (c := c) h
    rw [hround] at hr
    have hstep : md.stepByte c = d := by
      unfold stepByte
      rw [hround]
    rw [ih hr, foldl_cons, hstep]
  | case3 md c rest d hround ih =>
    have hr := ok_round (c := c) h
    rw [hround] at hr
    have hstep : md.stepByte c = d.literalRun [c] := by
      unfold stepByte
      rw [hround]
    have hrun : ∀ x ∈ rest.takeWhile (fun x => !isSpecial x), isSpecial x = false := by
      intro x hx
      exact (Bool.not_eq_true' _).mp (all_eq_true.mp all_takeWhile x hx)
    rw [ih hr.1.literalRun.ok, foldl_cons, hstep]
    nth_rewrite 3 [← takeWhile_append_dropWhile (p := fun x => !isSpecial x) (l := rest)]
    rw [foldl_append, hr.1.foldl_stepByte hrun, singleton_append]

theorem ok_foldl (h : md.Ok) : (l.foldl stepByte md).Ok := by
  induction l generalizing md with
  | nil => exact h
  | cons c l ih => exact ih (ok_stepByte h)

end MdState

/-! ### The end of a chunk -/

section Stash

variable {x cs s t : List UInt8} {lead : UInt8}

theorem seqLen_continuation (h : isContinuation lead = true) : seqLen lead = 1 := by
  have hall : ∀ n < 256, n &&& 192 = 128 → n < 192 := by decide +kernel
  have hand : lead.toNat &&& 192 = 128 := by
    have := congrArg UInt8.toNat (of_decide_eq_true h)
    rwa [UInt8.toNat_and] at this
  have hlt := hall _ lead.toNat_lt hand
  have h1 : ¬ lead ≥ 0xC0 := by
    rw [ge_iff_le, UInt8.le_iff_toNat_le, Nat.not_le]
    exact hlt
  have h2 : ¬ lead ≥ 0xE0 := by
    rw [ge_iff_le, UInt8.le_iff_toNat_le, Nat.not_le]
    exact Nat.lt_trans hlt (by decide)
  have h3 : ¬ lead ≥ 0xF0 := by
    rw [ge_iff_le, UInt8.le_iff_toNat_le, Nat.not_le]
    exact Nat.lt_trans hlt (by decide)
  unfold seqLen
  rw [if_neg h3, if_neg h2, if_neg h1]

theorem seqLen_le (lead : UInt8) : seqLen lead ≤ 4 := by
  unfold seqLen
  split_ifs <;> decide

theorem walkBack_eq (hcs : ∀ b ∈ cs, isContinuation b = true) (hlead : x = [] ∨ isContinuation lead = false) {k : ℕ}
    (hk : k ≤ cs.length) : walkBack (x ++ lead :: cs) (x.length + k) = x.length := by
  induction k with
  | zero =>
    rcases hlead with rfl | hlead
    · rfl
    · cases hx : x.length with
      | zero => rfl
      | succ n =>
        have hget : (x ++ lead :: cs).getD (n + 1) 0 = lead := by
          rw [getD_append_right _ _ _ _ (by omega), ← hx, Nat.sub_self]
          rfl
        show (if isContinuation ((x ++ lead :: cs).getD (n + 1) 0) then _ else n + 1) = n + 1
        rw [hget, hlead, if_neg Bool.false_ne_true]
  | succ k ih =>
    have hget : (x ++ lead :: cs).getD (x.length + k + 1) 0 ∈ cs := by
      have hlt : k < cs.length := by omega
      rw [getD_append_right _ _ _ _ (by omega),
        show x.length + k + 1 - x.length = k + 1 by omega, getD_cons_succ, getD_eq_getElem _ _ hlt]
      exact getElem_mem hlt
    show (if isContinuation ((x ++ lead :: cs).getD (x.length + k + 1) 0) then walkBack _ (x.length + k) else _) = _
    rw [hcs _ hget, if_pos rfl, ih (by omega)]

theorem stash_of_lead (hcs : ∀ b ∈ cs, isContinuation b = true) (hlead : x = [] ∨ isContinuation lead = false) :
    stash (x ++ lead :: cs) =
      if 1 < seqLen lead ∧ (lead :: cs).length < seqLen lead then lead :: cs else [] := by
  have hlen : (x ++ lead :: cs).length - 1 = x.length + cs.length := by
    rw [length_append, length_cons]
    omega
  have htail : leadTail (x ++ lead :: cs) = lead :: cs := by
    unfold leadTail
    rw [hlen, walkBack_eq hcs hlead (Nat.le_refl _), drop_left]
  unfold stash
  rw [htail]

theorem stash_of_continuations (hs : ∀ b ∈ s, isContinuation b = true) : stash s = [] := by
  cases s with
  | nil => rfl
  | cons b bs =>
    have h : stash ([] ++ b :: bs) = if 1 < seqLen b ∧ (b :: bs).length < seqLen b then b :: bs else [] :=
      stash_of_lead (fun c hc => hs c (mem_cons_of_mem _ hc)) (.inl rfl)
    rw [nil_append, seqLen_continuation (hs b mem_cons_self), if_neg (by omega)] at h
    exact h

theorem lead_cases (s : List UInt8) : (∀ b ∈ s, isContinuation b = true) ∨
    ∃ x lead cs, s = x ++ lead :: cs ∧ isContinuation lead = false ∧ ∀ b ∈ cs, isContinuation b = true := by
  induction s using List.reverseRecOn with
  | nil => exact .inl (fun _ h => absurd h not_mem_nil)
  | append_singleton s b ih =>
    cases hb : isContinuation b with
    | false => exact .inr ⟨s, b, [], rfl, hb, fun _ h => absurd h not_mem_nil⟩
    | true =>
      have hlast : ∀ c ∈ [b], isContinuation c = true := by
        intro c hc
        rw [mem_singleton.mp hc]
        exact hb
      rcases ih with h | ⟨x, lead, cs, rfl, hlead, hcs⟩
      · exact .inl (forall_mem_append.mpr ⟨h, hlast⟩)
      · exact .inr ⟨x, lead, cs ++ [b], by rw [append_assoc, cons_append], hlead,
          forall_mem_append.mpr ⟨hcs, hlast⟩⟩

/-- **What is held back** does not depend on the chunks. -/
theorem heldback_stash : Heldback stash := by
  refine ⟨fun s => ?_, fun s t => ?_⟩
  · rcases lead_cases s with h | ⟨x, lead, cs, rfl, hlead, hcs⟩
    · rw [stash_of_continuations h]
      exact nil_suffix
    · rw [stash_of_lead hcs (.inr hlead)]
      split_ifs
      · exact suffix_append _ _
      · exact nil_suffix
  · rcases lead_cases t with ht | ⟨x, lead, cs, rfl, hlead, hcs⟩
    · rcases lead_cases s with hs | ⟨x, lead, cs, rfl, hlead, hcs⟩
      · rw [stash_of_continuations hs, stash_of_continuations (forall_mem_append.mpr ⟨hs, ht⟩), nil_append]
        exact stash_of_continuations ht
      · have hboth := forall_mem_append.mpr ⟨hcs, ht⟩
        rw [stash_of_lead hcs (.inr hlead)]
        split_ifs with hshort
        · rw [append_assoc]
          exact (stash_of_lead (x := []) hboth (.inl rfl)).trans (stash_of_lead hboth (.inr hlead)).symm
        · -- the sequence was complete, and still is
          rw [nil_append, stash_of_continuations ht, append_assoc, cons_append,
            stash_of_lead hboth (.inr hlead), if_neg]
          rintro ⟨h1, h2⟩
          refine hshort ⟨h1, ?_⟩
          rw [length_cons] at h2 ⊢
          rw [length_append] at h2
          omega
    · rw [← append_assoc, ← append_assoc, stash_of_lead hcs (.inr hlead), stash_of_lead hcs (.inr hlead)]

theorem length_stash_le (s : List UInt8) : (stash s).length ≤ 3 := by
  rcases lead_cases s with h | ⟨x, lead, cs, rfl, hlead, hcs⟩
  · rw [stash_of_continuations h]
    decide
  · rw [stash_of_lead hcs (.inr hlead)]
    have hle := seqLen_le lead
    split_ifs with hshort
    · omega
    · decide

end Stash

/-! ### Chunks -/

namespace Md

open MdState (stepByte)

variable {md : Md}

/-- `xMd` in two parts. -/
def parts (md : Md) : MdState × List UInt8 := (md.toMdState, md.utf8Pending)

theorem parts_injective {a b : Md} (h : a.parts = b.parts) : a = b := by
  cases a
  cases b
  obtain ⟨h1, h2⟩ := Prod.mk.inj h
  dsimp only at h1 h2
  rw [h1, h2]

/-- What holds of `xMd` between the calls: only the beginnings of delimiters are pending and no byte was dropped, and
what is held back is a sequence that is not complete. -/
structure Sound (md : Md) : Prop where
  ok : md.toMdState.Ok
  held : stash md.utf8Pending = md.utf8Pending

theorem parts_feed (h : md.Sound) (data : List UInt8) :
    (md.feed data).parts = feedHeld stash stepByte md.parts data := by
  unfold feed
  split_ifs with hd
  · rw [hd]
    exact (heldback_stash.feed_nil h.held).symm
  · unfold feedHeld body parts
    dsimp only
    rw [MdState.feedLoop_eq h.ok]

theorem sound_feed (h : md.Sound) (data : List UInt8) : (md.feed data).Sound := by
  have hparts := parts_feed h data
  have hstate := congrArg Prod.fst hparts
  have hheld := congrArg Prod.snd hparts
  dsimp only [parts, feedHeld] at hstate hheld
  refine ⟨?_, ?_⟩
  · rw [hstate]
    exact MdState.ok_foldl h.ok
  · rw [hheld]
    have hagain := heldback_stash.append (md.utf8Pending ++ data) []
    rw [List.append_nil, List.append_nil] at hagain
    exact hagain

theorem clear_closeSpans {s : MdState} (h : s.pending = []) (hd : s.dropped = false) :
    (closeSpans s).pending = [] ∧ (closeSpans s).dropped = false := by
  unfold closeSpans
  split_ifs
  · exact ⟨MdState.rawN_pending.trans h, MdState.rawN_dropped.trans hd⟩
  · exact ⟨h, hd⟩

theorem clear_resolveEnd {s : MdState} (hd : s.dropped = false) :
    (resolveEnd s).pending = [] ∧ (resolveEnd s).dropped = false := by
  unfold resolveEnd
  split
  · next h => exact ⟨h, hd⟩
  · refine ⟨rfl, ?_⟩
    dsimp only
    split_ifs
    · exact MdState.same_toggleBold.dropped.trans hd
    · exact MdState.same_toggleItalic.dropped.trans hd
    · exact MdState.same_toggleItalic.dropped.trans hd
    · exact MdState.same_toggleCode.dropped.trans hd
    · exact MdState.rawN_dropped.trans hd

theorem sound_of_clear (h : md.pending = []) (hf : md.fence = false) (hd : md.dropped = false)
    (hu : md.utf8Pending = []) : md.Sound :=
  ⟨MdState.Clear.ok ⟨h, hf, hd⟩, by rw [hu]; rfl⟩

theorem sound_init (hasSink : Bool) : (init hasSink).Sound := sound_of_clear rfl rfl rfl rfl

theorem sound_flush (h : md.Sound) : md.flush.Sound := by
  have hend := clear_resolveEnd (s := md.toMdState.rawN md.utf8Pending) (MdState.rawN_dropped.trans h.ok.dropped)
  have hclose := clear_closeSpans hend.1 hend.2
  exact sound_of_clear hclose.1 rfl hclose.2 rfl

theorem sound_reset (h : md.Sound) : md.reset.Sound := by
  have hclose := clear_closeSpans (s := { md.toMdState with pending := [] }) rfl h.ok.dropped
  exact sound_of_clear hclose.1 rfl hclose.2 rfl

/-- A call of the renderer. -/
inductive Op
  | feed (data : List UInt8)
  | flush
  | reset

def run (md : Md) : Op → Md
  | .feed data => md.feed data
  | .flush => md.flush
  | .reset => md.reset

theorem sound_run (h : md.Sound) (ops : List Op) : (ops.foldl run md).Sound := by
  induction ops generalizing md with
  | nil => exact h
  | cons op ops ih =>
    refine ih ?_
    cases op with
    | feed data => exact sound_feed h data
    | flush => exact sound_flush h
    | reset => exact sound_reset h

/-- **Chunks are one stream.** -/
theorem foldl_feed (h : md.Sound) (chunks : List (List UInt8)) : chunks.foldl feed md = md.feed chunks.flatten := by
  apply parts_injective
  have hfold : (chunks.foldl feed md).parts = chunks.foldl (feedHeld stash stepByte) md.parts := by
    induction chunks generalizing md with
    | nil => rfl
    | cons c cs ih => rw [foldl_cons, foldl_cons, ih (sound_feed h c), parts_feed h]
  rw [hfold, parts_feed h, heldback_stash.feed_flatten h.held]

/-- **The output does not depend on the chunks**, whatever was rendered before: any way to cut a stream leaves the
state that the whole stream leaves, and the same is given out with it and with the flush; no byte is dropped from
the pending ones, of which there are at most three, as there are of the character that is held back. -/
theorem feed_chunks (hasSink : Bool) (ops : List Op) (chunks : List (List UInt8)) :
    let md := ops.foldl run (init hasSink)
    let cut := chunks.foldl feed md
    let whole := md.feed chunks.flatten
    cut = whole ∧ cut.out = whole.out ∧ cut.flush.out = whole.flush.out ∧
      whole.dropped = false ∧ whole.pending.length ≤ 3 ∧ whole.utf8Pending.length ≤ 3 := by
  intro md cut whole
  have hsound : md.Sound := sound_run (sound_init hasSink) ops
  have heq : cut = whole := foldl_feed hsound chunks
  have hwhole : whole.Sound := sound_feed hsound chunks.flatten
  refine ⟨heq, congrArg (fun m : Md => m.out) heq, congrArg (fun m : Md => m.flush.out) heq, hwhole.ok.dropped,
    hwhole.ok.length_le, ?_⟩
  rw [← hwhole.held]
  exact length_stash_le _

end Md

end Libx.Tui
