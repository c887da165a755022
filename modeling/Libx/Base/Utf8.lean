import Libx.Agent.Message

/-!
# Libx.Base.Utf8 — UTF-8 validation

utf8.c: a table of byte classes and transitions, a loop over the bytes, and eight bytes of ASCII at a time before it.
-/

namespace Libx.Base

open Libx.Agent (Bytes)
open List

/-- `utf8d`: the classes of the bytes, and the transitions. -/
def utf8d : List ℕ := [
  0,0,0,0,0,0,0,0,0,0,0,0,0,0,0,0,  0,0,0,0,0,0,0,0,0,0,0,0,0,0,0,0,
  0,0,0,0,0,0,0,0,0,0,0,0,0,0,0,0,  0,0,0,0,0,0,0,0,0,0,0,0,0,0,0,0,
  0,0,0,0,0,0,0,0,0,0,0,0,0,0,0,0,  0,0,0,0,0,0,0,0,0,0,0,0,0,0,0,0,
  0,0,0,0,0,0,0,0,0,0,0,0,0,0,0,0,  0,0,0,0,0,0,0,0,0,0,0,0,0,0,0,0,
  1,1,1,1,1,1,1,1,1,1,1,1,1,1,1,1,  9,9,9,9,9,9,9,9,9,9,9,9,9,9,9,9,
  7,7,7,7,7,7,7,7,7,7,7,7,7,7,7,7,  7,7,7,7,7,7,7,7,7,7,7,7,7,7,7,7,
  8,8,2,2,2,2,2,2,2,2,2,2,2,2,2,2,  2,2,2,2,2,2,2,2,2,2,2,2,2,2,2,2,
  10,3,3,3,3,3,3,3,3,3,3,3,3,4,3,3, 11,6,6,6,5,8,8,8,8,8,8,8,8,8,8,8,
  0,12,24,36,60,96,84,12,12,12,48,72,
  12,12,12,12,12,12,12,12,12,12,12,12,
  12, 0,12,12,12,12,12, 0,12, 0,12,12,
  12,24,12,12,12,12,12,24,12,24,12,12,
  12,12,12,12,12,12,12,24,12,12,12,12,
  12,24,12,12,12,12,12,12,12,24,12,12,
  12,12,12,12,12,12,12,12,12,36,12,12,
  12,36,12,12,12,12,12,36,12,36,12,12,
  12,36,12,12,12,12,12,12,12,12,12,12]

def byteClass (b : UInt8) : ℕ := utf8d.getD b.toNat 0

def transition (state k : ℕ) : ℕ := utf8d.getD (256 + state + k) 0

/-- `UTF8_ACCEPT`. -/
def accept : ℕ := 0

/-- `UTF8_REJECT`. -/
def reject : ℕ := 12

/-- The loop over words of eight bytes: where it ends, and the bytes from there. -/
def skipAscii (p : ℕ) (data : Bytes) : ℕ × Bytes :=
  if 8 ≤ data.length ∧ (data.take 8).all (fun b => b &&& 0x80 = 0) then skipAscii (p + 8) (data.drop 8) else (p, data)
termination_by data.length
decreasing_by
  simp only [length_drop]
  omega

def dfa (state p lastAccept : ℕ) : Bytes → ℕ
  | [] => lastAccept
  | b :: data =>
    let state := transition state (byteClass b)
    if state = accept then dfa state (p + 1) (p + 1) data
    else if state = reject then lastAccept
    else dfa state (p + 1) lastAccept data

/-- `xUtf8ValidPrefix`; `none` is NULL. -/
def utf8ValidPrefix : Option Bytes → ℕ
  | none => 0
  | some data =>
    if data.length = 0 then 0
    else
      let r := skipAscii 0 data
      dfa accept r.1 r.1 r.2

/-- `xValidateUtf8`. -/
def validateUtf8 (data : Option Bytes) : Bool :=
  utf8ValidPrefix data = (data.elim 0 length)

/-! ### What is asked for -/

/-- Encodings of scalar values, one behind the other. -/
def WellFormed (data : Bytes) : Prop := ∃ cs : List Char, data = cs.flatMap String.utf8EncodeChar

/-- The first `n` bytes are well formed, and no more are. -/
structure Longest (data : Bytes) (n : ℕ) : Prop where
  le : n ≤ data.length
  wellFormed : WellFormed (data.take n)
  most : ∀ m ≤ data.length, WellFormed (data.take m) → m ≤ n

/-- The length is that of the longest well-formed prefix, a string is accepted if that is all of it, and the loop
over words changes nothing, wherever it begins. -/
structure Exact (data : Bytes) : Prop where
  longest : Longest data (utf8ValidPrefix (some data))
  whole : validateUtf8 (some data) = true ↔ WellFormed data
  words : ∀ p i, dfa accept p p (data.drop i) =
    dfa accept (skipAscii p (data.drop i)).1 (skipAscii p (data.drop i)).1 (skipAscii p (data.drop i)).2

/-- A scalar value whose encoding is F0, A0 to BF, and two more bytes. -/
def Skipped (c : Char) : Prop := 0x20000 ≤ c.toNat ∧ c.toNat < 0x40000

/-- No such value is met as far as the data are well formed. -/
def Unskipped (data : Bytes) : Prop :=
  ∀ (cs : List Char) (c : Char) (rest : Bytes), data = cs.flatMap String.utf8EncodeChar ++ (String.utf8EncodeChar c ++ rest) →
    ¬Skipped c

/-! ### The table -/

/-- Within a character: the bytes that go on with it, and the state then. -/
def expects : ℕ → (ℕ × ℕ) × ℕ
  | 24 => ((0x80, 0xC0), 0)
  | 36 => ((0x80, 0xC0), 24)
  | 48 => ((0xA0, 0xC0), 24)
  | 60 => ((0x80, 0xA0), 24)
  | 72 => ((0x90, 0xA0), 36)
  | 84 => ((0x80, 0xC0), 36)
  | 96 => ((0x80, 0x90), 36)
  | _ => ((0, 0), 12)

-- Lists are compared so that each transition is looked up once: one byte after the other is slow to check.
theorem tables : 256 ≤ utf8d.length ∧
    (∀ s ∈ [24, 36, 48, 60, 72, 84, 96], (utf8d.take 256).map (fun k => (utf8d.drop (256 + s)).getD k 0) =
      (range 256).map fun n => if (expects s).1.1 ≤ n ∧ n < (expects s).1.2 then (expects s).2 else reject) ∧
    ((utf8d.take 256).map (fun k => (utf8d.drop (256 + accept)).getD k 0) = (range 256).map fun n =>
      if n < 0x80 then 0 else if n < 0xC2 then reject else if n < 0xE0 then 24 else if n = 0xE0 then 48
      else if n = 0xED then 60 else if n < 0xF0 then 36 else if n = 0xF0 then 72 else if n < 0xF4 then 84
      else if n = 0xF4 then 96 else reject) ∧
    ∀ n < 256, UInt8.ofNat n &&& 0x80 = 0 → n < 0x80 := by
  decide +kernel

theorem of_classes {s : ℕ} {g : ℕ → ℕ} (h : (utf8d.take 256).map (fun k => (utf8d.drop (256 + s)).getD k 0) = (range 256).map g)
    (b : UInt8) : transition s (byteClass b) = g b.toNat := by
  have hb := b.toNat_lt
  have hlt : b.toNat < utf8d.length := Nat.lt_of_lt_of_le hb tables.1
  have hget := congrArg (·[b.toNat]?) h
  simp only [getElem?_map, getElem?_take_of_lt hb, getElem?_eq_getElem hlt, getElem?_range hb, Option.map_some,
    Option.some.injEq] at hget
  rw [transition, byteClass, getD_eq_getElem?_getD (l := utf8d), ← getElem?_drop, getD_eq_getElem?_getD (l := utf8d),
    getElem?_eq_getElem hlt, Option.getD_some]
  rwa [getD_eq_getElem?_getD] at hget

theorem transition_table (s : ℕ) (hs : s ∈ [24, 36, 48, 60, 72, 84, 96]) (b : UInt8) : transition s (byteClass b) =
    if (expects s).1.1 ≤ b.toNat ∧ b.toNat < (expects s).1.2 then (expects s).2 else reject := of_classes (tables.2.1 s hs) b

theorem transition_accept (b : UInt8) :
    let s := transition accept (byteClass b)
    (s = 0 ∧ b.toNat < 0x80 ∨ s = 24 ∧ 0xC2 ≤ b.toNat ∧ b.toNat < 0xE0 ∨ s = 48 ∧ b.toNat = 0xE0 ∨
      s = 36 ∧ 0xE1 ≤ b.toNat ∧ b.toNat < 0xF0 ∧ b.toNat ≠ 0xED ∨ s = 60 ∧ b.toNat = 0xED ∨
      s = 72 ∧ b.toNat = 0xF0 ∨ s = 84 ∧ 0xF1 ≤ b.toNat ∧ b.toNat < 0xF4 ∨ s = 96 ∧ b.toNat = 0xF4) ∨
      s = reject ∧ (0x80 ≤ b.toNat ∧ b.toNat < 0xC2 ∨ 0xF5 ≤ b.toNat) := by
  rw [of_classes tables.2.2.1]
  dsimp only
  split_ifs <;> omega

/-! ### The words -/

theorem dfa_ascii {b : UInt8} (h : b &&& 0x80 = 0) (p : ℕ) (data : Bytes) :
    dfa accept p p (b :: data) = dfa accept (p + 1) (p + 1) data := by
  have hlow := tables.2.2.2 b.toNat b.toNat_lt
  rw [UInt8.ofNat_toNat] at hlow
  rw [dfa, of_classes tables.2.2.1, if_pos (hlow h)]
  exact if_pos rfl

theorem dfa_all_ascii (l : Bytes) (h : l.all (fun b => b &&& 0x80 = 0) = true) (p : ℕ) (data : Bytes) :
    dfa accept p p (l ++ data) = dfa accept (p + l.length) (p + l.length) data := by
  induction l generalizing p with
  | nil => rfl
  | cons b l ih =>
    rw [all_cons, Bool.and_eq_true, decide_eq_true_eq] at h
    rw [cons_append, dfa_ascii h.1, ih h.2, length_cons, Nat.add_assoc, Nat.add_comm 1]

/-- **The words change nothing.** -/
theorem dfa_skipAscii (p : ℕ) (data : Bytes) :
    dfa accept p p data = dfa accept (skipAscii p data).1 (skipAscii p data).1 (skipAscii p data).2 := by
  induction p, data using skipAscii.induct with
  | case1 p data h ih =>
    rw [skipAscii, if_pos h, ← ih]
    have hlen : (data.take 8).length = 8 := length_take_of_le h.1
    conv_lhs => rw [← take_append_drop 8 data, dfa_all_ascii _ h.2, hlen]
  | case2 p data h =>
    rw [skipAscii, if_neg h]

theorem utf8ValidPrefix_eq (data : Bytes) : utf8ValidPrefix (some data) = dfa accept 0 0 data := by
  rw [utf8ValidPrefix]
  cases data with
  | nil => rfl
  | cons b data =>
    rw [if_neg (by simp)]
    exact (dfa_skipAscii 0 (b :: data)).symm

/-! ### One character -/

/-- What is behind one character, by the loop from a state; `none` where it stops within it. -/
def next (state : ℕ) : Bytes → Option Bytes
  | [] => none
  | b :: data =>
    let state := transition state (byteClass b)
    if state = accept then some data else if state = reject then none else next state data

theorem dfa_next (state p q : ℕ) (data : Bytes) : (∃ l rest, next state data = some rest ∧ data = l ++ rest ∧
    dfa state p q data = dfa accept (p + l.length) (p + l.length) rest) ∨ next state data = none ∧ dfa state p q data = q := by
  induction data generalizing state p with
  | nil => exact .inr ⟨rfl, rfl⟩
  | cons b data ih =>
    rw [next, dfa]
    by_cases hacc : transition state (byteClass b) = accept
    · rw [if_pos hacc, if_pos hacc, hacc]
      exact .inl ⟨[b], data, rfl, rfl, rfl⟩
    rw [if_neg hacc, if_neg hacc]
    by_cases hrej : transition state (byteClass b) = reject
    · rw [if_pos hrej, if_pos hrej]
      exact .inr ⟨rfl, rfl⟩
    rw [if_neg hrej, if_neg hrej]
    rcases ih (transition state (byteClass b)) (p + 1) with ⟨l, rest, hnext, rfl, heq⟩ | hstop
    · refine .inl ⟨b :: l, rest, hnext, rfl, heq.trans ?_⟩
      rw [length_cons, Nat.add_assoc, Nat.add_comm 1]
    · exact .inr hstop

variable {data rest : Bytes}

theorem next_step {s : ℕ} (hs : s ∈ [24, 36, 48, 60, 72, 84, 96]) : next s data = some rest ↔
    ∃ b t, data = b :: t ∧ (expects s).1.1 ≤ b.toNat ∧ b.toNat < (expects s).1.2 ∧
      (if (expects s).2 = accept then some t else next (expects s).2 t) = some rest := by
  cases data with
  | nil => simp [next]
  | cons b data =>
    have htrans := transition_table s hs b
    have hstay : (expects s).2 ≠ reject := (by decide : ∀ s ∈ [24, 36, 48, 60, 72, 84, 96], (expects s).2 ≠ reject) s hs
    rw [next, htrans]
    by_cases hb : (expects s).1.1 ≤ b.toNat ∧ b.toNat < (expects s).1.2
    · rw [if_pos hb, if_neg hstay]
      refine ⟨fun h => ⟨b, data, rfl, hb.1, hb.2, h⟩, ?_⟩
      rintro ⟨_, _, heq, -, -, h⟩
      cases heq
      exact h
    · rw [if_neg hb, if_neg (by decide), if_pos rfl]
      refine ⟨nofun, ?_⟩
      rintro ⟨_, _, heq, h1, h2, -⟩
      cases heq
      exact absurd ⟨h1, h2⟩ hb

def Tail (b : UInt8) : Prop := 0x80 ≤ b.toNat ∧ b.toNat < 0xC0

theorem next_one : next 24 data = some rest ↔ ∃ x, data = x :: rest ∧ Tail x := by
  rw [next_step (by decide)]
  constructor
  · rintro ⟨x, t, rfl, h1, h2, h⟩
    obtain rfl : t = rest := Option.some.inj h
    exact ⟨x, rfl, h1, h2⟩
  · rintro ⟨x, rfl, h1, h2⟩
    exact ⟨x, rest, rfl, h1, h2, rfl⟩

theorem next_two : next 36 data = some rest ↔ ∃ x y, data = x :: y :: rest ∧ Tail x ∧ Tail y := by
  rw [next_step (by decide)]
  constructor
  · rintro ⟨x, t, rfl, h1, h2, h⟩
    obtain ⟨y, rfl, hy⟩ := next_one.1 h
    exact ⟨x, y, rfl, ⟨h1, h2⟩, hy⟩
  · rintro ⟨x, y, rfl, h, hy⟩
    exact ⟨x, y :: rest, rfl, h.1, h.2, next_one.2 ⟨y, rfl, hy⟩⟩

/-- The encodings that the loop takes, by their bytes. -/
inductive Encoded : Bytes → Prop
  | one {b : UInt8} : b.toNat < 0x80 → Encoded [b]
  | two {b x : UInt8} : 0xC2 ≤ b.toNat → b.toNat < 0xE0 → Tail x → Encoded [b, x]
  | three {b x y : UInt8} : 0xE0 ≤ b.toNat → b.toNat < 0xF0 → Tail x → Tail y →
      (b.toNat = 0xE0 → 0xA0 ≤ x.toNat) → (b.toNat = 0xED → x.toNat < 0xA0) → Encoded [b, x, y]
  | four {b x y z : UInt8} : 0xF0 ≤ b.toNat → b.toNat < 0xF5 → Tail x → Tail y → Tail z →
      (b.toNat = 0xF0 → 0x90 ≤ x.toNat ∧ x.toNat < 0xA0) → (b.toNat = 0xF4 → x.toNat < 0x90) → Encoded [b, x, y, z]

theorem next_first {b : UInt8} {t : Bytes} {s : ℕ} (h : transition accept (byteClass b) = s) (hs : s ∈ [24, 36, 48, 60, 72, 84, 96]) :
    next accept (b :: t) = some rest ↔ next s t = some rest := by
  have hne : s ≠ accept ∧ s ≠ reject := (by decide : ∀ s ∈ [24, 36, 48, 60, 72, 84, 96], s ≠ accept ∧ s ≠ reject) s hs
  rw [next, h, if_neg hne.1, if_neg hne.2]

/-- **What the loop takes for a character.** -/
theorem next_iff : next accept data = some rest ↔ ∃ l, Encoded l ∧ data = l ++ rest := by
  constructor
  · intro h
    cases data with
    | nil => cases h
    | cons b t =>
      rcases transition_accept b with (hs | hs | hs | hs | hs | hs | hs | hs) | hs
      · rw [next, hs.1] at h
        obtain rfl : t = rest := Option.some.inj h
        exact ⟨[b], .one hs.2, rfl⟩
      · obtain ⟨x, rfl, hx⟩ := next_one.1 ((next_first hs.1 (by decide)).1 h)
        exact ⟨[b, x], .two hs.2.1 hs.2.2 hx, rfl⟩
      · obtain ⟨x, t, rfl, h1, h2, h3⟩ := (next_step (by decide)).1 ((next_first hs.1 (by decide)).1 h)
        obtain ⟨y, rfl, hy⟩ := next_one.1 h3
        exact ⟨[b, x, y], .three hs.2.ge (by omega) ⟨Nat.le_trans (by decide) h1, h2⟩ hy (fun _ => h1) (by omega), rfl⟩
      · obtain ⟨x, y, rfl, hx, hy⟩ := next_two.1 ((next_first hs.1 (by decide)).1 h)
        exact ⟨[b, x, y], .three (by omega) hs.2.2.1 hx hy (by omega) (fun h => absurd h hs.2.2.2), rfl⟩
      · obtain ⟨x, t, rfl, h1, h2, h3⟩ := (next_step (by decide)).1 ((next_first hs.1 (by decide)).1 h)
        obtain ⟨y, rfl, hy⟩ := next_one.1 h3
        exact ⟨[b, x, y], .three (by omega) (by omega) ⟨h1, Nat.lt_trans h2 (by decide)⟩ hy (by omega) (fun _ => h2), rfl⟩
      · obtain ⟨x, t, rfl, h1, h2, h3⟩ := (next_step (by decide)).1 ((next_first hs.1 (by decide)).1 h)
        obtain ⟨y, z, rfl, hy, hz⟩ := next_two.1 h3
        exact ⟨[b, x, y, z], .four hs.2.ge (by omega) ⟨Nat.le_trans (by decide) h1, Nat.lt_trans h2 (by decide)⟩ hy hz
          (fun _ => ⟨h1, h2⟩) (by omega), rfl⟩
      · obtain ⟨x, t, rfl, h1, h2, h3⟩ := (next_step (by decide)).1 ((next_first hs.1 (by decide)).1 h)
        obtain ⟨y, z, rfl, hy, hz⟩ := next_two.1 h3
        exact ⟨[b, x, y, z], .four (by omega) (by omega) ⟨h1, h2⟩ hy hz (by omega) (by omega), rfl⟩
      · obtain ⟨x, t, rfl, h1, h2, h3⟩ := (next_step (by decide)).1 ((next_first hs.1 (by decide)).1 h)
        obtain ⟨y, z, rfl, hy, hz⟩ := next_two.1 h3
        exact ⟨[b, x, y, z], .four (by omega) (by omega) ⟨h1, Nat.lt_trans h2 (by decide)⟩ hy hz (by omega) (fun _ => h2), rfl⟩
      · rw [next, hs.1] at h
        cases h
  · rintro ⟨l, hl, rfl⟩
    cases hl with
    | @one b hb =>
      have hs : transition accept (byteClass b) = 0 := by
        have := transition_accept b
        omega
      rw [cons_append, next, hs]
      rfl
    | @two b x h1 h2 hx =>
      have hs : transition accept (byteClass b) = 24 := by
        have := transition_accept b
        omega
      exact (next_first hs (by decide)).2 (next_one.2 ⟨x, rfl, hx⟩)
    | @three b x y h1 h2 hx hy h3 h4 =>
      have hy' : next 24 (y :: rest) = some rest := next_one.2 ⟨y, rfl, hy⟩
      rcases transition_accept b with (hs | hs | hs | hs | hs | hs | hs | hs) | hs <;> try omega
      · exact (next_first hs.1 (by decide)).2 ((next_step (by decide)).2 ⟨x, _, rfl, h3 hs.2, hx.2, hy'⟩)
      · exact (next_first hs.1 (by decide)).2 (next_two.2 ⟨x, y, rfl, hx, hy⟩)
      · exact (next_first hs.1 (by decide)).2 ((next_step (by decide)).2 ⟨x, _, rfl, hx.1, h4 hs.2, hy'⟩)
    | @four b x y z h1 h2 hx hy hz h3 h4 =>
      have hyz : next 36 (y :: z :: rest) = some rest := next_two.2 ⟨y, z, rfl, hy, hz⟩
      rcases transition_accept b with (hs | hs | hs | hs | hs | hs | hs | hs) | hs <;> try omega
      · exact (next_first hs.1 (by decide)).2 ((next_step (by decide)).2 ⟨x, _, rfl, (h3 hs.2).1, (h3 hs.2).2, hyz⟩)
      · exact (next_first hs.1 (by decide)).2 ((next_step (by decide)).2 ⟨x, _, rfl, hx.1, hx.2, hyz⟩)
      · exact (next_first hs.1 (by decide)).2 ((next_step (by decide)).2 ⟨x, _, rfl, hx.1, h4 hs.2, hyz⟩)

/-- **One character of the loop.** -/
theorem dfa_cases (p : ℕ) (data : Bytes) :
    (∃ l rest, data = l ++ rest ∧ Encoded l ∧ dfa accept p p data = dfa accept (p + l.length) (p + l.length) rest) ∨
      dfa accept p p data = p ∧ ∀ l, l <+: data → ¬Encoded l := by
  rcases dfa_next accept p p data with ⟨l, rest, hnext, hdata, heq⟩ | ⟨hstop, heq⟩
  · obtain ⟨l', henc, hdata'⟩ := next_iff.1 hnext
    obtain rfl := append_cancel_right (hdata.symm.trans hdata')
    exact .inl ⟨l, rest, hdata, henc, heq⟩
  · refine .inr ⟨heq, ?_⟩
    rintro l ⟨rest, rfl⟩ henc
    cases hstop.symm.trans (next_iff.2 ⟨l, henc, rfl⟩)

/-! ### Encodings -/

theorem exists_char {n : ℕ} (h : n.isValidChar) : ∃ c : Char, c.toNat = n := by
  have hlt : n < 4294967296 := by
    rcases h with h | h <;> omega
  refine ⟨⟨UInt32.ofNat n, ?_⟩, UInt32.toNat_ofNat_of_lt' hlt⟩
  rw [UInt32.isValidChar, UInt32.toNat_ofNat_of_lt' hlt]
  exact h

theorem encode_eq (c : Char) : String.utf8EncodeChar c =
    if c.toNat ≤ 0x7f then [UInt8.ofNat c.toNat]
    else if c.toNat ≤ 0x7ff then [UInt8.ofNat (c.toNat / 64 % 32 + 192), UInt8.ofNat (c.toNat % 64 + 128)]
    else if c.toNat ≤ 0xffff then
      [UInt8.ofNat (c.toNat / 4096 % 16 + 224), UInt8.ofNat (c.toNat / 64 % 64 + 128), UInt8.ofNat (c.toNat % 64 + 128)]
    else
      [UInt8.ofNat (c.toNat / 262144 % 8 + 240), UInt8.ofNat (c.toNat / 4096 % 64 + 128),
        UInt8.ofNat (c.toNat / 64 % 64 + 128), UInt8.ofNat (c.toNat % 64 + 128)] := rfl

theorem exists_encode {l : Bytes} (h : Encoded l) : ∃ c : Char, String.utf8EncodeChar c = l ∧ ¬Skipped c := by
  have hof : ∀ {n : ℕ} {b : UInt8}, b.toNat = n → UInt8.ofNat n = b := fun h => by rw [← h, UInt8.ofNat_toNat]
  cases h with
  | @one b hb =>
    obtain ⟨c, hc⟩ := exists_char (n := b.toNat) (.inl (by omega))
    refine ⟨c, ?_, fun h => ?_⟩
    · rw [encode_eq, hc, if_pos (by omega), UInt8.ofNat_toNat]
    · have := h.1
      omega
  | @two b x hb hb' hx =>
    obtain ⟨h1, h2⟩ := hx
    obtain ⟨c, hc⟩ := exists_char (n := (b.toNat - 192) * 64 + (x.toNat - 128)) (.inl (by omega))
    refine ⟨c, ?_, fun h => ?_⟩
    · rw [encode_eq, hc, if_neg (by omega), if_pos (by omega), hof (b := b) (by omega), hof (b := x) (by omega)]
    · have := h.1
      omega
  | @three b x y hb hb' hx hy h0 h1 =>
    obtain ⟨h2, h3⟩ := hx
    obtain ⟨h4, h5⟩ := hy
    obtain ⟨c, hc⟩ := exists_char (n := (b.toNat - 224) * 4096 + (x.toNat - 128) * 64 + (y.toNat - 128))
      (by by_cases b.toNat < 0xED
          · exact .inl (by omega)
          · by_cases b.toNat = 0xED
            · exact .inl (by omega)
            · exact .inr (by omega))
    refine ⟨c, ?_, fun h => ?_⟩
    · rw [encode_eq, hc, if_neg (by omega), if_neg (by omega), if_pos (by omega), hof (b := b) (by omega),
        hof (b := x) (by omega), hof (b := y) (by omega)]
    · have := h.1
      omega
  | @four b x y z hb hb' hx hy hz h0 h1 =>
    obtain ⟨h2, h3⟩ := hx
    obtain ⟨h4, h5⟩ := hy
    obtain ⟨h6, h7⟩ := hz
    obtain ⟨c, hc⟩ := exists_char
      (n := (b.toNat - 240) * 262144 + (x.toNat - 128) * 4096 + (y.toNat - 128) * 64 + (z.toNat - 128)) (.inr (by omega))
    refine ⟨c, ?_, fun h => ?_⟩
    · rw [encode_eq, hc, if_neg (by omega), if_neg (by omega), if_neg (by omega), hof (b := b) (by omega),
        hof (b := x) (by omega), hof (b := y) (by omega), hof (b := z) (by omega)]
    · obtain ⟨h8, h9⟩ := h
      omega

theorem syntax_encode {c : Char} (h : ¬Skipped c) : Encoded (String.utf8EncodeChar c) := by
  have hto : ∀ {n : ℕ}, n < 256 → (UInt8.ofNat n).toNat = n := fun h => UInt8.toNat_ofNat_of_lt' h
  have hv : c.toNat < 0xd800 ∨ 0xdfff < c.toNat ∧ c.toNat < 0x110000 := c.valid
  rw [Skipped] at h
  have htail : ∀ n, Tail (UInt8.ofNat (n % 64 + 128)) := fun n => by
    rw [Tail, hto (by omega)]
    omega
  rw [encode_eq]
  split_ifs with h1 h2 h3
  · exact .one (by rw [hto (by omega)]; omega)
  · exact .two (by rw [hto (by omega)]; omega) (by rw [hto (by omega)]; omega) (htail _)
  · refine .three ?_ ?_ (htail _) (htail _) ?_ ?_
    all_goals
      repeat rw [hto (by omega)]
      omega
  · refine .four ?_ ?_ (htail _) (htail _) (htail _) ?_ ?_
    all_goals
      repeat rw [hto (by omega)]
      omega

/-! ### The longest prefix -/

theorem encode_unique {c d : Char} {r r' : Bytes} (h : String.utf8EncodeChar c ++ r = String.utf8EncodeChar d ++ r') : c = d := by
  have hdecode : ∀ (c : Char) (r : Bytes), (String.utf8EncodeChar c ++ r).toByteArray.utf8DecodeChar? 0 = some c := by
    intro c r
    rw [List.toByteArray_append]
    exact ByteArray.utf8DecodeChar?_utf8EncodeChar_append
  exact Option.some.inj ((hdecode c r).symm.trans ((congrArg (fun l => l.toByteArray.utf8DecodeChar? 0) h).trans (hdecode d r')))

theorem encode_ne_nil (c : Char) : String.utf8EncodeChar c ≠ [] := by
  rw [encode_eq]
  split_ifs <;> exact cons_ne_nil _ _

theorem wellFormed_append (c : Char) (data : Bytes) : WellFormed (String.utf8EncodeChar c ++ data) ↔ WellFormed data := by
  constructor
  · rintro ⟨cs, hcs⟩
    cases cs with
    | nil => exact absurd (append_eq_nil_iff.1 hcs).1 (encode_ne_nil c)
    | cons d cs =>
      rw [flatMap_cons] at hcs
      obtain rfl := encode_unique hcs
      exact ⟨cs, append_cancel_left hcs⟩
  · rintro ⟨cs, rfl⟩
    exact ⟨c :: cs, rfl⟩

theorem Longest.append {c : Char} {n : ℕ} (h : Longest data n) :
    Longest (String.utf8EncodeChar c ++ data) ((String.utf8EncodeChar c).length + n) := by
  have htake : ∀ m, (String.utf8EncodeChar c ++ data).take ((String.utf8EncodeChar c).length + m) =
      String.utf8EncodeChar c ++ data.take m := fun m => take_length_add_append m
  refine ⟨?_, ?_, fun m hm hw => ?_⟩
  · rw [length_append]
    exact Nat.add_le_add_left h.le _
  · rw [htake]
    exact (wellFormed_append c _).2 h.wellFormed
  · rw [length_append] at hm
    by_cases hlt : m < (String.utf8EncodeChar c).length
    · omega
    · obtain ⟨k, rfl⟩ := Nat.exists_eq_add_of_le (Nat.le_of_not_lt hlt)
      rw [htake, wellFormed_append] at hw
      have := h.most k (by omega) hw
      omega

theorem longest_zero (h : ∀ c, ¬String.utf8EncodeChar c <+: data) : Longest data 0 := by
  refine ⟨Nat.zero_le _, ⟨[], rfl⟩, ?_⟩
  rintro m hm ⟨cs, hcs⟩
  cases cs with
  | nil =>
    have hlen := congrArg length hcs
    rw [length_take, flatMap_nil, length_nil] at hlen
    omega
  | cons c cs =>
    rw [flatMap_cons] at hcs
    exact absurd ((prefix_append ..).trans (hcs ▸ take_prefix m data)) (h c)

/-- **The loop finds the longest prefix** where no value is skipped. -/
theorem longest_dfa (data : Bytes) (h : Unskipped data) (p : ℕ) :
    ∃ n, dfa accept p p data = p + n ∧ Longest data n := by
  induction hlen : data.length using Nat.strong_induction_on generalizing data p with
  | _ len ih =>
    rcases dfa_cases p data with ⟨l, rest, rfl, henc, heq⟩ | ⟨heq, hno⟩
    · obtain ⟨c, rfl, -⟩ := exists_encode henc
      have hpos := length_pos_of_ne_nil (encode_ne_nil c)
      have hrest : Unskipped rest := fun cs d r hr => by
        refine h (c :: cs) d r ?_
        rw [hr, flatMap_cons, append_assoc]
      rw [length_append] at hlen
      obtain ⟨n, hn, hlong⟩ := ih rest.length (by omega) rest hrest (p + (String.utf8EncodeChar c).length) rfl
      exact ⟨_, by rw [heq, hn, Nat.add_assoc], hlong.append⟩
    · refine ⟨0, heq, longest_zero fun c hc => ?_⟩
      obtain ⟨rest, rfl⟩ := hc
      have hs : ¬Skipped c := h [] c rest rfl
      exact hno _ (prefix_append ..) (syntax_encode hs)

theorem dfa_skipped (cs : List Char) {c : Char} (hc : Skipped c) (rest : Bytes) (p : ℕ) :
    dfa accept p p (cs.flatMap String.utf8EncodeChar ++ (String.utf8EncodeChar c ++ rest)) <
      p + (cs.flatMap String.utf8EncodeChar ++ String.utf8EncodeChar c).length := by
  have hpos := length_pos_of_ne_nil (encode_ne_nil c)
  induction cs generalizing p with
  | nil =>
    rw [flatMap_nil, nil_append, nil_append]
    rcases dfa_cases p (String.utf8EncodeChar c ++ rest) with ⟨l, r, hl, henc, -⟩ | ⟨heq, -⟩
    · obtain ⟨d, rfl, hd⟩ := exists_encode henc
      rw [encode_unique hl] at hc
      exact absurd hc hd
    · omega
  | cons d cs ih =>
    rw [flatMap_cons, append_assoc, append_assoc, length_append]
    have hstep := ih (p + (String.utf8EncodeChar d).length)
    rw [length_append] at hstep ⊢
    rcases dfa_cases p (String.utf8EncodeChar d ++ (cs.flatMap String.utf8EncodeChar ++ (String.utf8EncodeChar c ++ rest)))
      with ⟨l, r, hl, henc, heq⟩ | ⟨heq, -⟩
    · obtain ⟨d', rfl, -⟩ := exists_encode henc
      obtain rfl := encode_unique hl
      rw [heq, ← append_cancel_left hl]
      omega
    · omega

/-- **Validation is exact but for U+20000 to U+3FFFF**: where none of these is met. -/
theorem exact_iff_unskipped (data : Bytes) : Exact data ↔ Unskipped data := by
  constructor
  · rintro h cs c rest rfl hc
    have hlt := dfa_skipped cs hc rest 0
    rw [← utf8ValidPrefix_eq, Nat.zero_add] at hlt
    refine absurd (h.longest.most _ ?_ ?_) (Nat.not_le.2 hlt)
    · rw [← append_assoc]
      exact (prefix_append ..).length_le
    · rw [← append_assoc, take_left]
      exact ⟨cs ++ [c], by rw [flatMap_append, flatMap_singleton]⟩
  · intro h
    obtain ⟨n, hn, hlong⟩ := longest_dfa data h 0
    rw [← utf8ValidPrefix_eq, Nat.zero_add] at hn
    refine ⟨hn ▸ hlong, ?_, fun p i => dfa_skipAscii p _⟩
    rw [validateUtf8, decide_eq_true_iff, hn]
    change n = data.length ↔ _
    constructor
    · intro heq
      have hw := hlong.wellFormed
      rwa [heq, take_length] at hw
    · intro hw
      exact Nat.le_antisymm hlong.le (hlong.most _ le_rfl (by rwa [take_length]))

theorem not_exact_ideograph : ¬∀ data, Exact data := by
  intro hall
  have hw : WellFormed [0xF0, 0xA0, 0x80, 0x80] := ⟨[Char.ofNat 0x20000], by decide +kernel⟩
  have hle := (hall [0xF0, 0xA0, 0x80, 0x80]).longest.most 4 le_rfl hw
  rw [utf8ValidPrefix_eq] at hle
  exact absurd hle (by decide +kernel)

end Libx.Base
