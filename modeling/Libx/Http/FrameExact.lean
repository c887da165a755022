import Libx.Http.Frame

/-!
# Libx.Http.FrameExact — frames are exact under any segmentation
-/

namespace Libx.Http

open Libx.Core (Call Incremental feedAll feedAll_map drain Drained)
open Libx.Agent (Bytes)
open Libx.Buf (IOBuffer Readable Reading)
open Libx.Ice (readBE writeU16 writeU64 readBE_writeU16 readBE_writeU64)
open List

@[simp] theorem Part.andThen_none {β : Type} (p : FrameParser) (io : β) (f : FrameParser → β → Part β) :
    Part.andThen (none, p, io) f = f p io := rfl

theorem unmask_unmask (key : MaskingKey) (data : Bytes) : unmask key (unmask key data) = data := by
  have hxor (a k : UInt8) : a ^^^ k ^^^ k = a := by rw [UInt8.xor_assoc, UInt8.xor_self, UInt8.xor_zero]
  fun_induction unmask key data with
  | case1 a b c d data ih => rw [unmask, ih, hxor, hxor, hxor, hxor]
  | case2 data hshort =>
    match data, hshort with
    | [], _ => rfl
    | [a], _ => simp only [MaskingKey.bytes, zipWith_cons_cons, zipWith_nil_left, unmask, hxor]
    | [a, b], _ => simp only [MaskingKey.bytes, zipWith_cons_cons, zipWith_nil_left, unmask, hxor]
    | [a, b, c], _ => simp only [MaskingKey.bytes, zipWith_cons_cons, zipWith_nil_left, unmask, hxor]
    | a :: b :: c :: d :: data, hshort => exact (hshort a b c d data rfl).elim

@[simp] theorem length_unmask (key : MaskingKey) (data : Bytes) : (unmask key data).length = data.length := by
  fun_induction unmask key data with
  | case1 a b c d data ih => rw [length_cons, length_cons, length_cons, length_cons, ih]; rfl
  | case2 data hshort =>
    match data, hshort with
    | [], _ => rfl
    | [a], _ => rfl
    | [a, b], _ => rfl
    | [a, b, c], _ => rfl
    | a :: b :: c :: d :: data, hshort => exact (hshort a b c d data rfl).elim

namespace FrameParser

variable {p q : FrameParser} {l t m : Bytes} {key : MaskingKey} {got : Bytes}

/-! ### A call in each phase -/

section Phases

variable {β : Type} [Readable β] {io : β}

theorem header_of_ne (h : p.phase ≠ .header) : header p io = (none, p, io) := if_pos h
theorem len16_of_ne (h : p.phase ≠ .len16) : len16 p io = (none, p, io) := if_pos h
theorem len64_of_ne (h : p.phase ≠ .len64) : len64 p io = (none, p, io) := if_pos h
theorem mask_of_ne (h : p.phase ≠ .mask) : mask p io = (none, p, io) := if_pos h

theorem parse_eq_payload (h : p.phase = .payload) : parse p io = payload p io := by
  have hne {ph : Phase} (hp : ph ≠ .payload) : p.phase ≠ ph := fun h' => hp (h'.symm.trans h)
  rw [parse, header_of_ne (hne (by decide)), Part.andThen_none, len16_of_ne (hne (by decide)), Part.andThen_none,
    len64_of_ne (hne (by decide)), Part.andThen_none, mask_of_ne (hne (by decide)), Part.andThen_none]

theorem parse_eq_mask (h : p.phase = .mask) : parse p io = (mask p io).andThen payload := by
  have hne {ph : Phase} (hp : ph ≠ .mask) : p.phase ≠ ph := fun h' => hp (h'.symm.trans h)
  rw [parse, header_of_ne (hne (by decide)), Part.andThen_none, len16_of_ne (hne (by decide)), Part.andThen_none,
    len64_of_ne (hne (by decide)), Part.andThen_none]

theorem phase_afterLen (p : FrameParser) : p.afterLen.phase = .mask ∨ p.afterLen.phase = .payload := by
  unfold afterLen
  split_ifs
  · exact .inl rfl
  · exact .inr rfl

theorem parse_of_afterLen (h : p.phase = .mask ∨ p.phase = .payload) : parse p io = (mask p io).andThen payload := by
  rcases h with h | h
  · exact parse_eq_mask h
  · rw [parse_eq_payload h, mask_of_ne (by rw [h]; decide), Part.andThen_none]

theorem parse_eq_len64 (h : p.phase = .len64) : parse p io = ((len64 p io).andThen mask).andThen payload := by
  have hne {ph : Phase} (hp : ph ≠ .len64) : p.phase ≠ ph := fun h' => hp (h'.symm.trans h)
  rw [parse, header_of_ne (hne (by decide)), Part.andThen_none, len16_of_ne (hne (by decide)), Part.andThen_none]

theorem parse_eq_len16 (h : p.phase = .len16) :
    parse p io = (((len16 p io).andThen len64).andThen mask).andThen payload := by
  rw [parse, header_of_ne (by rw [h]; decide), Part.andThen_none]

end Phases

theorem parse_of_mask (h : p.phase = .mask) (l : Bytes) :
    parse p l =
      match l with
      | k0 :: k1 :: k2 :: k3 :: t =>
        parse { p with frame := { p.frame with maskingKey := ⟨k0, k1, k2, k3⟩ }, phase := .payload } t
      | _ => (some .needMore, p, l) := by
  rw [parse_eq_mask h, mask, if_neg (not_not.mpr h)]
  match l with
  | [] | [_] | [_, _] | [_, _, _] => rfl
  | k0 :: k1 :: k2 :: k3 :: t =>
    show payload { p with frame := { p.frame with maskingKey := ⟨k0, k1, k2, k3⟩ }, phase := .payload } t = parse _ t
    rw [parse_eq_payload rfl]

theorem parse_of_len64 (h : p.phase = .len64) (l : Bytes) :
    parse p l =
      if l.length < 8 then (some .needMore, p, l)
      else
        let q := { p with frame := { p.frame with payloadLen := readBE (l.take 8) } }
        if 9223372036854775808 ≤ q.frame.payloadLen then (some .error, q, l) else parse q.afterLen (l.drop 8) := by
  rw [parse_eq_len64 h, len64, if_neg (not_not.mpr h)]
  by_cases hlen : l.length < 8
  · have hpeek : Readable.peek 8 l = none := if_pos hlen
    rw [hpeek, if_pos hlen]
    rfl
  · have hpeek : Readable.peek 8 l = some (l.take 8) := if_neg hlen
    rw [hpeek, if_neg hlen]
    dsimp only
    split_ifs
    · rfl
    · rw [parse_of_afterLen (phase_afterLen _), Part.andThen_none]
      rfl

theorem parse_of_len16 (h : p.phase = .len16) (l : Bytes) :
    parse p l =
      if l.length < 2 then (some .needMore, p, l)
      else parse (afterLen { p with frame := { p.frame with payloadLen := readBE (l.take 2) } }) (l.drop 2) := by
  rw [parse_eq_len16 h, len16, if_neg (not_not.mpr h)]
  by_cases hlen : l.length < 2
  · have hpeek : Readable.peek 2 l = none := if_pos hlen
    rw [hpeek, if_pos hlen]
    rfl
  · have hpeek : Readable.peek 2 l = some (l.take 2) := if_neg hlen
    have hphase := phase_afterLen { p with frame := { p.frame with payloadLen := readBE (l.take 2) } }
    rw [hpeek, if_neg hlen, parse_of_afterLen hphase]
    rw [Part.andThen_none, len64_of_ne, Part.andThen_none]
    · rfl
    · rcases hphase with hp | hp <;> rw [hp] <;> decide

theorem phase_takeLen7 (len7 : ℕ) (p : FrameParser) : (takeLen7 len7 p).phase ≠ .header := by
  unfold takeLen7
  split_ifs
  · rcases phase_afterLen { p with frame := { p.frame with payloadLen := len7 } } with hp | hp <;> rw [hp] <;> decide
  · exact Phase.noConfusion
  · exact Phase.noConfusion

theorem parse_of_header (h : p.phase = .header) (l : Bytes) :
    parse p l =
      match l with
      | h0 :: h1 :: t =>
        let q := { p with frame := start h0 h1 p.frame }
        if Malformed h0 q then (some .error, q, l)
        else
          let len7 := (h1 &&& 0x7F).toNat
          let q := takeLen7 len7 q
          if isControlOpcode q.frame.opcode ∧ (¬ q.frame.fin ∨ 126 ≤ len7) then (some .error, q, t) else parse q t
      | _ => (some .needMore, p, l) := by
  rw [parse, header, if_neg (not_not.mpr h)]
  match l with
  | [] | [_] => rfl
  | h0 :: h1 :: t =>
    have hpeek : Readable.peek 2 (h0 :: h1 :: t) = some [h0, h1] := rfl
    rw [hpeek]
    dsimp only
    split_ifs
    · rfl
    · rfl
    · rw [parse, header_of_ne (phase_takeLen7 _ _)]
      rfl

theorem readPayload_eq (got : Bytes) (p : FrameParser) (l : Bytes) :
    readPayload got p l =
      if (got ++ l.take (p.frame.payloadLen - got.length)).length < p.frame.payloadLen then
        (some .needMore, { p with frame := { p.frame with
          payload := some (got ++ l.take (p.frame.payloadLen - got.length)) } },
          l.drop (p.frame.payloadLen - got.length))
      else
        done { p with frame := { p.frame with
          payload := some (if p.frame.masked then unmask p.frame.maskingKey (got ++ l.take (p.frame.payloadLen - got.length))
            else got ++ l.take (p.frame.payloadLen - got.length)) } } (l.drop (p.frame.payloadLen - got.length)) := by
  have hread : (if 0 < min (Readable.len l) (p.frame.payloadLen - got.length) then
      Readable.read (min (Readable.len l) (p.frame.payloadLen - got.length)) l else ([], l)) =
      (l.take (p.frame.payloadLen - got.length), l.drop (p.frame.payloadLen - got.length)) := by
    show (if 0 < min l.length _ then (l.take (min l.length _), l.drop (min l.length _)) else ([], l)) = _
    rw [Nat.min_comm, ← take_eq_take_min, ← drop_eq_drop_min]
    split_ifs with hpos
    · rfl
    · rcases Nat.min_eq_zero_iff.mp (Nat.eq_zero_of_not_pos hpos) with h0 | h0
      · rw [h0, take_zero, drop_zero]
      · rw [length_eq_zero_iff.mp h0, take_nil, drop_nil]
  unfold readPayload
  dsimp only
  rw [hread]

/-! ### Calls can be taken up again -/

/-- How a call goes on when more input is there: the same result, or the result of the call that takes it up. -/
def GoesOn (x : Part Bytes) (m : Bytes) (y : Part Bytes) : Prop :=
  match x with
  | (some .ok, p, l) => y = (some .ok, p, l ++ m)
  | (some .error, _, _) => y.1 = some .error
  | (_, p, l) => y = parse p (l ++ m)

theorem goesOn_done (p : FrameParser) (l m : Bytes) : GoesOn (done p l) m (done p (l ++ m)) := by
  unfold done
  split_ifs
  · rfl
  · rfl

theorem payload_of_some (h : p.phase = .payload) (hlen : p.frame.payloadLen ≠ 0) (hgot : p.frame.payload = some got)
    (l : Bytes) : payload p l = readPayload got p l := by
  rw [payload, if_neg (not_not.mpr h), if_neg hlen, hgot]

theorem goesOn_readPayload (h : p.phase = .payload) (hlen : p.frame.payloadLen ≠ 0) (got l m : Bytes) :
    GoesOn (readPayload got p l) m (readPayload got p (l ++ m)) := by
  rw [readPayload_eq, readPayload_eq]
  generalize hneed : p.frame.payloadLen - got.length = need
  by_cases hmore : (got ++ l.take need).length < p.frame.payloadLen
  · rw [if_pos hmore]
    rw [length_append, length_take] at hmore
    have hshort : l.length < need := by omega
    -- everything was taken, and the next call goes on from there
    rw [take_of_length_le hshort.le, drop_of_length_le hshort.le]
    let q : FrameParser := { p with frame := { p.frame with payload := some (got ++ l) } }
    have hagain : parse q m = readPayload (got ++ l) q m :=
      (parse_eq_payload (p := q) h).trans (payload_of_some (p := q) h hlen rfl m)
    show _ = parse q ([] ++ m)
    rw [nil_append, hagain, readPayload_eq]
    have hrest : p.frame.payloadLen - (got ++ l).length = need - l.length := by
      rw [length_append]
      omega
    have htake : (l ++ m).take need = l ++ m.take (need - l.length) := by
      rw [take_append, take_of_length_le hshort.le]
    have hdrop : (l ++ m).drop need = m.drop (need - l.length) := by
      rw [drop_append, drop_of_length_le hshort.le, nil_append]
    rw [hrest, htake, hdrop, append_assoc]
  · have hle : need ≤ l.length := by
      rw [length_append, length_take] at hmore
      omega
    rw [if_neg hmore, take_append_of_le_length hle, if_neg hmore, drop_append_of_le_length hle]
    exact goesOn_done _ _ _

theorem goesOn_payload (h : p.phase = .payload) (l m : Bytes) : GoesOn (parse p l) m (parse p (l ++ m)) := by
  rw [parse_eq_payload h, parse_eq_payload h, payload, payload, if_neg (not_not.mpr h), if_neg (not_not.mpr h)]
  by_cases hlen : p.frame.payloadLen = 0
  · rw [if_pos hlen, if_pos hlen]
    exact goesOn_done _ _ _
  rw [if_neg hlen, if_neg hlen]
  cases p.frame.payload with
  | none =>
    split_ifs
    · rfl
    · exact goesOn_readPayload h hlen [] l m
  | some got => exact goesOn_readPayload h hlen got l m

theorem goesOn_mask (h : p.phase = .mask) (l m : Bytes) : GoesOn (parse p l) m (parse p (l ++ m)) := by
  match l with
  | [] | [_] | [_, _] | [_, _, _] =>
    rw [parse_of_mask h]
    rfl
  | k0 :: k1 :: k2 :: k3 :: t =>
    rw [parse_of_mask h, parse_of_mask h]
    exact goesOn_payload rfl t m

theorem goesOn_afterLen (h : p.phase = .mask ∨ p.phase = .payload) (l m : Bytes) :
    GoesOn (parse p l) m (parse p (l ++ m)) := by
  rcases h with h | h
  · exact goesOn_mask h l m
  · exact goesOn_payload h l m

theorem goesOn_len16 (h : p.phase = .len16) (l m : Bytes) : GoesOn (parse p l) m (parse p (l ++ m)) := by
  rw [parse_of_len16 h l]
  by_cases hlen : l.length < 2
  · rw [if_pos hlen]
    rfl
  · have hle : 2 ≤ l.length := Nat.le_of_not_lt hlen
    have hlen' : ¬ (l ++ m).length < 2 := by
      rw [length_append]
      omega
    rw [if_neg hlen, parse_of_len16 h, if_neg hlen', take_append_of_le_length hle, drop_append_of_le_length hle]
    exact goesOn_afterLen (phase_afterLen _) _ m

theorem goesOn_len64 (h : p.phase = .len64) (l m : Bytes) : GoesOn (parse p l) m (parse p (l ++ m)) := by
  rw [parse_of_len64 h l]
  by_cases hlen : l.length < 8
  · rw [if_pos hlen]
    rfl
  · have hle : 8 ≤ l.length := Nat.le_of_not_lt hlen
    have hlen' : ¬ (l ++ m).length < 8 := by
      rw [length_append]
      omega
    rw [if_neg hlen, parse_of_len64 h, if_neg hlen', take_append_of_le_length hle, drop_append_of_le_length hle]
    dsimp only
    split_ifs
    · rfl
    · exact goesOn_afterLen (phase_afterLen _) _ m

theorem goesOn_takeLen7 (len7 : ℕ) (p : FrameParser) (l m : Bytes) :
    GoesOn (parse (takeLen7 len7 p) l) m (parse (takeLen7 len7 p) (l ++ m)) := by
  unfold takeLen7
  split_ifs
  · exact goesOn_afterLen (phase_afterLen _) l m
  · exact goesOn_len16 rfl l m
  · exact goesOn_len64 rfl l m

theorem goesOn_header (h : p.phase = .header) (l m : Bytes) : GoesOn (parse p l) m (parse p (l ++ m)) := by
  match l with
  | [] | [_] =>
    rw [parse_of_header h]
    rfl
  | h0 :: h1 :: t =>
    rw [parse_of_header h, parse_of_header h]
    dsimp only [cons_append]
    split_ifs
    · rfl
    · rfl
    · exact goesOn_takeLen7 _ _ t m

theorem goesOn_parse (p : FrameParser) (l m : Bytes) : GoesOn (parse p l) m (parse p (l ++ m)) := by
  cases h : p.phase with
  | header => exact goesOn_header h l m
  | len16 => exact goesOn_len16 h l m
  | len64 => exact goesOn_len64 h l m
  | mask => exact goesOn_mask h l m
  | payload => exact goesOn_payload h l m

/-- Between two calls: in the payload, some of it is missing. -/
def Waiting (p : FrameParser) : Prop := p.phase = .payload → (p.frame.payload.getD []).length < p.frame.payloadLen

/-- A frame leaves fewer than `n` bytes, and a parser that asks for more waits. -/
def Ends (n : ℕ) (x : Part Bytes) : Prop :=
  match x with
  | (some .ok, _, t) => t.length < n
  | (some .error, _, _) => True
  | (_, q, _) => Waiting q

variable {n : ℕ}

theorem waiting_of_ne (h : p.phase ≠ .payload) : Waiting p := fun h' => absurd h' h

theorem ends_done (p : FrameParser) (h : t.length < n) : Ends n (done p t) := by
  unfold done
  split_ifs
  · trivial
  · exact h

theorem ends_readPayload (got : Bytes) (p : FrameParser)
    (h : p.frame.payloadLen - got.length ≤ l.length → (l.drop (p.frame.payloadLen - got.length)).length < n) :
    Ends n (readPayload got p l) := by
  rw [readPayload_eq]
  by_cases hmore : (got ++ l.take (p.frame.payloadLen - got.length)).length < p.frame.payloadLen
  · rw [if_pos hmore]
    exact fun _ => hmore
  · rw [if_neg hmore]
    rw [length_append, length_take] at hmore
    exact ends_done _ (h (by omega))

theorem ends_payload (h : p.phase = .payload) (hlt : l.length < n) : Ends n (parse p l) := by
  have hrest (k : ℕ) : (l.drop k).length < n := by
    rw [length_drop]
    omega
  rw [parse_eq_payload h, payload, if_neg (not_not.mpr h)]
  by_cases hlen : p.frame.payloadLen = 0
  · rw [if_pos hlen]
    exact ends_done _ hlt
  · rw [if_neg hlen]
    cases p.frame.payload with
    | none =>
      split_ifs
      · trivial
      · exact ends_readPayload [] p (fun _ => hrest _)
    | some got => exact ends_readPayload got p (fun _ => hrest _)

theorem ends_payload_of_waiting (h : p.phase = .payload) (hw : Waiting p) : Ends l.length (parse p l) := by
  have hlt := hw h
  rw [parse_eq_payload h, payload, if_neg (not_not.mpr h), if_neg (Nat.ne_zero_of_lt hlt)]
  cases hgot : p.frame.payload with
  | none =>
    split_ifs
    · trivial
    · refine ends_readPayload [] p (fun hle => ?_)
      rw [length_drop]
      simp only [length_nil] at hlt hle ⊢
      omega
  | some got =>
    rw [hgot] at hlt
    refine ends_readPayload got p (fun hle => ?_)
    rw [length_drop]
    rw [Option.getD_some] at hlt
    omega

theorem ends_mask (h : p.phase = .mask) (hle : l.length ≤ n) : Ends n (parse p l) := by
  have hw : Waiting p := waiting_of_ne (by rw [h]; decide)
  match l with
  | [] | [_] | [_, _] | [_, _, _] =>
    rw [parse_of_mask h]
    exact hw
  | k0 :: k1 :: k2 :: k3 :: t =>
    rw [parse_of_mask h]
    refine ends_payload rfl ?_
    simp only [length_cons] at hle
    omega

theorem ends_afterLen (h : p.phase = .mask ∨ p.phase = .payload) (hlt : l.length < n) : Ends n (parse p l) := by
  rcases h with h | h
  · exact ends_mask h hlt.le
  · exact ends_payload h hlt

theorem ends_len16 (h : p.phase = .len16) (hle : l.length ≤ n) : Ends n (parse p l) := by
  rw [parse_of_len16 h]
  split_ifs with hlen
  · exact waiting_of_ne (by rw [h]; decide)
  · refine ends_afterLen (phase_afterLen _) ?_
    rw [length_drop]
    omega

theorem ends_len64 (h : p.phase = .len64) (hle : l.length ≤ n) : Ends n (parse p l) := by
  rw [parse_of_len64 h]
  dsimp only
  split_ifs with hlen
  · exact waiting_of_ne (by rw [h]; decide)
  · trivial
  · refine ends_afterLen (phase_afterLen _) ?_
    rw [length_drop]
    omega

theorem ends_header (h : p.phase = .header) (hle : l.length ≤ n) : Ends n (parse p l) := by
  have hw : Waiting p := waiting_of_ne (by rw [h]; decide)
  match l with
  | [] | [_] =>
    rw [parse_of_header h]
    exact hw
  | h0 :: h1 :: t =>
    have hlt : t.length < n := by
      simp only [length_cons] at hle
      omega
    rw [parse_of_header h]
    dsimp only
    split_ifs
    · trivial
    · trivial
    · unfold takeLen7
      split_ifs
      · exact ends_afterLen (phase_afterLen _) hlt
      · exact ends_len16 rfl hlt.le
      · exact ends_len64 rfl hlt.le

theorem ends_parse (hw : Waiting p) (l : Bytes) : Ends l.length (parse p l) := by
  cases h : p.phase with
  | header => exact ends_header h le_rfl
  | len16 => exact ends_len16 h le_rfl
  | len64 => exact ends_len64 h le_rfl
  | mask => exact ends_mask h le_rfl
  | payload => exact ends_payload_of_waiting h hw

/-- **Calls can be taken up again.** -/
theorem incremental_next : Incremental Waiting (next : FrameParser → Bytes → Call FrameParser Frame Bytes) := by
  refine ⟨fun p l q t hw h => ?_, fun p l f q t hw h => ?_, fun p l _ h m => ?_⟩
  · have hends := ends_parse hw l
    have hgoes := goesOn_parse p l
    unfold next at h
    rcases hx : parse p l with ⟨r, q', t'⟩
    rw [hx] at h hends hgoes
    rcases r with _ | _ | _ | _
    · cases h
      exact ⟨hends, fun m => by rw [next, hgoes m, next]⟩
    · cases h
    · cases h
      exact ⟨hends, fun m => by rw [next, hgoes m, next]⟩
    · cases h
  · have hends := ends_parse hw l
    have hgoes := goesOn_parse p l
    unfold next at h
    rcases hx : parse p l with ⟨r, q', t'⟩
    rw [hx] at h hends hgoes
    rcases r with _ | _ | _ | _
    · cases h
    · cases h
      exact ⟨waiting_of_ne Phase.noConfusion, hends, fun m => by rw [next, hgoes m]⟩
    · cases h
    · cases h
  · have hgoes := goesOn_parse p l m
    unfold next at h ⊢
    rcases hx : parse p l with ⟨r, q', t'⟩
    rw [hx] at h hgoes
    rcases r with _ | _ | _ | _
    · cases h
    · cases h
    · cases h
    · rcases hy : parse p (l ++ m) with ⟨r', q'', t''⟩
      rw [hy] at hgoes
      obtain rfl : r' = some .error := hgoes
      rfl

end FrameParser

/-! ### Frames that were encoded -/

/-- What is encoded: a frame of `xWsFrameEncodeEx`, or one of `xWsFrameEncodeClose`, with the masking key it gets. -/
inductive Sending
  | frame (fin rsv1 : Bool) (opcode : UInt8) (payload : Bytes) (key : MaskingKey)
  | close (code : UInt16) (reason : Bytes) (key : MaskingKey)

namespace Sending

/-- The arguments of `xWsFrameEncodeEx`. -/
def fin : Sending → Bool
  | frame fin _ _ _ _ => fin
  | close _ _ _ => true

def rsv1 : Sending → Bool
  | frame _ rsv1 _ _ _ => rsv1
  | close _ _ _ => false

def opcode : Sending → UInt8
  | frame _ _ opcode _ _ => opcode
  | close _ _ _ => opcodeClose

def payload : Sending → Bytes
  | frame _ _ _ payload _ => payload
  | close code reason _ => (code >>> 8).toUInt8 :: code.toUInt8 :: reason

def key : Sending → MaskingKey
  | frame _ _ _ _ key => key
  | close _ _ key => key

def encode (masked : Bool) (i : Sending) (io : IOBuffer) : IOBuffer :=
  match i with
  | frame fin rsv1 opcode payload key => encodeEx fin rsv1 opcode payload masked key io
  | close code reason key => encodeClose code reason masked key io

def parsed (masked : Bool) (i : Sending) : Frame where
  fin := i.fin
  rsv1 := i.rsv1
  opcode := i.opcode
  masked := masked
  maskingKey := if masked then i.key else {}
  payloadLen := i.payload.length
  payload := if i.payload = [] then none else some i.payload

/-- An opcode of four bits, a payload of at most 16 MiB or, in a control frame, 125 bytes, and RSV1 only on data frames
where it is allowed. -/
structure Fits (allowRsv1 : Bool) (i : Sending) : Prop where
  opcode : i.opcode < 16
  payload : i.payload.length ≤ FrameParser.maxPayload
  control : isControlOpcode i.opcode = true → i.payload.length ≤ 125
  rsv1 : i.rsv1 = true → allowRsv1 = true ∧ isControlOpcode i.opcode = false

def wire (masked : Bool) (i : Sending) : Bytes :=
  frameHeader i.fin i.rsv1 i.opcode i.payload.length masked ++
    ((if masked then i.key.bytes else []) ++ if masked then unmask i.key i.payload else i.payload)

theorem content_encode (masked : Bool) (i : Sending) (io : IOBuffer) :
    (i.encode masked io).content = io.content ++ i.wire masked := by
  have hex (fin rsv1 : Bool) (opcode : UInt8) (payload : Bytes) (key : MaskingKey) :
      (encodeEx fin rsv1 opcode payload masked key io).content =
        io.content ++ wire masked (.frame fin rsv1 opcode payload key) := by
    unfold encodeEx wire
    dsimp only [Sending.fin, Sending.rsv1, Sending.opcode, Sending.payload, Sending.key]
    split_ifs with h0 hm hm
    all_goals simp only [IOBuffer.content_append, append_assoc]
    all_goals rw [length_eq_zero_iff.mp h0]
    · rfl
    · rfl
  cases i with
  | frame fin rsv1 opcode payload key => exact hex fin rsv1 opcode payload key
  | close code reason key => exact hex true false opcodeClose _ key

end Sending

namespace FrameParser

variable {p q : FrameParser} {m : Bytes} {i : Sending} {masked allowRsv1 : Bool}

theorem head_bits (fin rsv1 : Bool) {opcode : UInt8} (h : opcode < 16) :
    let h0 : UInt8 := (if fin then 0x80 else 0x00) ||| (if rsv1 then 0x40 else 0x00) ||| (opcode &&& 0x0F)
    (decide (h0 >>> 7 &&& 1 ≠ 0) = fin) ∧ (decide (h0 >>> 6 &&& 1 ≠ 0) = rsv1) ∧ h0 &&& 0x0F = opcode ∧ h0 &&& 0x30 = 0 := by
  have hall : ∀ fin rsv1 : Bool, ∀ n < 16,
      let h0 : UInt8 := (if fin then 0x80 else 0x00) ||| (if rsv1 then 0x40 else 0x00) ||| (UInt8.ofNat n &&& 0x0F)
      (decide (h0 >>> 7 &&& 1 ≠ 0) = fin) ∧ (decide (h0 >>> 6 &&& 1 ≠ 0) = rsv1) ∧ h0 &&& 0x0F = UInt8.ofNat n ∧
        h0 &&& 0x30 = 0 := by decide
  have hcase := hall fin rsv1 opcode.toNat (UInt8.lt_iff_toNat_lt.mp h)
  rw [UInt8.ofNat_toNat] at hcase
  exact hcase

theorem len7_bits (masked : Bool) {n : ℕ} (h : n < 128) :
    let h1 : UInt8 := (if masked then 0x80 else 0x00) ||| UInt8.ofNat n
    (decide (h1 >>> 7 &&& 1 ≠ 0) = masked) ∧ (h1 &&& 0x7F).toNat = n := by
  have hall : ∀ masked : Bool, ∀ n < 128,
      let h1 : UInt8 := (if masked then 0x80 else 0x00) ||| UInt8.ofNat n
      (decide (h1 >>> 7 &&& 1 ≠ 0) = masked) ∧ (h1 &&& 0x7F).toNat = n := by decide
  exact hall masked n h

def measured (masked allowRsv1 : Bool) (i : Sending) : FrameParser where
  phase := if masked then .mask else .payload
  frame := { fin := i.fin, rsv1 := i.rsv1, opcode := i.opcode, masked, payloadLen := i.payload.length }
  expectMasked := masked
  allowRsv1 := allowRsv1

theorem parse_whole (data : Bytes) (h : p.phase = .payload) (hnone : p.frame.payload = none)
    (hlen : p.frame.payloadLen = data.length) (hmax : data.length ≤ maxPayload)
    (hcontrol : isControlOpcode p.frame.opcode = true → data.length ≤ 125) (m : Bytes) :
    parse p (data ++ m) =
      (some .ok, { p with frame := { p.frame with
        payload := if data = [] then none else some (if p.frame.masked then unmask p.frame.maskingKey data else data) } },
        m) := by
  have hdone (f : Option Bytes) : done { p with frame := { p.frame with payload := f } } m =
      (some .ok, { p with frame := { p.frame with payload := f } }, m) := by
    refine if_neg (not_and.mpr fun hc => ?_)
    rw [hlen]
    exact Nat.not_lt.mpr (hcontrol hc)
  rw [parse_eq_payload h, payload, if_neg (not_not.mpr h), hlen]
  by_cases hdata : data = []
  · subst hdata
    rw [if_pos length_nil, if_pos rfl]
    exact hdone none
  · have hne : data.length ≠ 0 := fun h0 => hdata (length_eq_zero_iff.mp h0)
    rw [if_neg hne, hnone, if_neg hdata]
    dsimp only
    rw [if_neg (Nat.not_lt.mpr hmax), readPayload_eq, hlen, length_nil, Nat.sub_zero, nil_append,
      take_left, drop_left, if_neg (lt_irrefl _), hdone, ← hlen]

theorem parse_measured (masked : Bool) (h : i.Fits allowRsv1) (m : Bytes) :
    ∃ q, parse (measured masked allowRsv1 i)
        ((if masked then i.key.bytes else []) ++ (if masked then unmask i.key i.payload else i.payload) ++ m) =
          (some .ok, q, m) ∧
      q.frame = i.parsed masked ∧ q.expectMasked = masked ∧ q.allowRsv1 = allowRsv1 := by
  cases masked with
  | false =>
    have hparse := parse_whole (p := measured false allowRsv1 i) i.payload rfl rfl rfl h.payload h.control m
    exact ⟨_, hparse, rfl, rfl, rfl⟩
  | true =>
    let p : FrameParser := { measured true allowRsv1 i with
      phase := .payload, frame := { (measured true allowRsv1 i).frame with maskingKey := i.key } }
    have hlen := length_unmask i.key i.payload
    have hparse := parse_whole (p := p) (unmask i.key i.payload) rfl rfl hlen.symm (hlen.trans_le h.payload)
      (fun hc => hlen.trans_le (h.control hc)) m
    have hmask : parse (measured true allowRsv1 i) (i.key.bytes ++ unmask i.key i.payload ++ m) =
        parse p (unmask i.key i.payload ++ m) := by
      rw [parse_of_mask rfl]
      rfl
    refine ⟨_, hmask.trans hparse, ?_, rfl, rfl⟩
    have hnil : unmask i.key i.payload = [] ↔ i.payload = [] := by
      rw [← length_eq_zero_iff, hlen, length_eq_zero_iff]
    show ({ p.frame with payload := _ } : Frame) = _
    simp only [hnil]
    show ({ p.frame with payload := if i.payload = [] then none else some (unmask i.key (unmask i.key i.payload)) } :
      Frame) = _
    rw [unmask_unmask]
    rfl

def head (i : Sending) : UInt8 :=
  (if i.fin then 0x80 else 0x00) ||| (if i.rsv1 then 0x40 else 0x00) ||| (i.opcode &&& 0x0F)

/-- The parser after the first two bytes, before the length. -/
def headed (masked allowRsv1 : Bool) (i : Sending) : FrameParser where
  frame := { fin := i.fin, rsv1 := i.rsv1, opcode := i.opcode, masked }
  expectMasked := masked
  allowRsv1 := allowRsv1

theorem frame_takeLen7 (n : ℕ) (p : FrameParser) :
    (takeLen7 n p).frame.opcode = p.frame.opcode ∧ (takeLen7 n p).frame.fin = p.frame.fin := by
  unfold takeLen7 afterLen
  split_ifs <;> exact ⟨rfl, rfl⟩

theorem parse_head (masked : Bool) (h : i.Fits allowRsv1) (hfin : isControlOpcode i.opcode = true → i.fin = true) {n : ℕ} (hn : n < 128)
    (hshort : isControlOpcode i.opcode = true → n < 126) (t : Bytes) :
    parse { expectMasked := masked, allowRsv1 } (head i :: ((if masked then 0x80 else 0x00) ||| UInt8.ofNat n) :: t) =
      parse (takeLen7 n (headed masked allowRsv1 i)) t := by
  obtain ⟨hfin0, hrsv10, hop0, hclear⟩ := head_bits i.fin i.rsv1 h.opcode
  obtain ⟨hmask, hlen7⟩ := len7_bits masked hn
  have hstart : start (head i) ((if masked then 0x80 else 0x00) ||| UInt8.ofNat n) {} = (headed masked allowRsv1 i).frame := by
    rw [Frame.mk.injEq]
    exact ⟨hfin0, hrsv10, hop0, hmask, rfl, rfl, rfl⟩
  have hwell : ¬ Malformed (head i) (headed masked allowRsv1 i) := by
    rintro (hbad | ⟨hrsv, hno⟩ | hbad)
    · exact hbad hclear
    · obtain ⟨hallow, hdata⟩ := h.rsv1 hrsv
      rcases hno with hno | hno
      · exact absurd (hallow.symm.trans hno) (by decide)
      · exact absurd (hno.symm.trans hdata) (by decide)
    · exact hbad rfl
  obtain ⟨hopcode, hfin'⟩ := frame_takeLen7 n (headed masked allowRsv1 i)
  have hcontrol : ¬ (isControlOpcode (takeLen7 n (headed masked allowRsv1 i)).frame.opcode = true ∧
      (¬ (takeLen7 n (headed masked allowRsv1 i)).frame.fin = true ∨ 126 ≤ n)) := by
    rw [hopcode, hfin']
    rintro ⟨hc, hno | hlong⟩
    · exact hno (hfin hc)
    · exact absurd (hshort hc) (Nat.not_lt.mpr hlong)
  rw [parse_of_header rfl]
  dsimp only
  rw [hstart, hlen7]
  exact (if_neg hwell).trans (if_neg hcontrol)

theorem parse_wire (masked : Bool) (h : i.Fits allowRsv1) (hfin : isControlOpcode i.opcode = true → i.fin = true) (m : Bytes) :
    ∃ q, parse { expectMasked := masked, allowRsv1 } (i.wire masked ++ m) = (some .ok, q, m) ∧
      q.frame = i.parsed masked ∧ q.expectMasked = masked ∧ q.allowRsv1 = allowRsv1 := by
  have hrest := parse_measured masked h m
  generalize hbody : ((if masked then i.key.bytes else []) ++ if masked then unmask i.key i.payload else i.payload) = body
    at hrest
  have hwire : i.wire masked = frameHeader i.fin i.rsv1 i.opcode i.payload.length masked ++ body := by
    rw [← hbody]
    rfl
  have hmax := h.payload
  unfold maxPayload at hmax
  rw [hwire]
  unfold frameHeader
  dsimp only
  by_cases h7 : i.payload.length < 126
  · rw [if_pos h7]
    have hhead := parse_head masked h hfin (h7.trans (by decide)) (fun _ => h7) (body ++ m)
    have hmeasured : takeLen7 i.payload.length (headed masked allowRsv1 i) = measured masked allowRsv1 i := if_pos h7
    rw [hmeasured] at hhead
    exact hhead ▸ hrest
  have hdata : isControlOpcode i.opcode = false := by
    rw [Bool.eq_false_iff]
    intro hc
    have := h.control hc
    omega
  have hno (n : ℕ) (hc : isControlOpcode i.opcode = true) : n < 126 := by
    rw [hdata] at hc
    cases hc
  rw [if_neg h7]
  by_cases h16 : i.payload.length ≤ 0xFFFF
  · rw [if_pos h16]
    have hhead := parse_head masked h hfin (n := 126) (by decide) (hno _)
      (writeU16 i.payload.length ++ (body ++ m))
    have hlen : parse (takeLen7 126 (headed masked allowRsv1 i)) (writeU16 i.payload.length ++ (body ++ m)) =
        parse (measured masked allowRsv1 i) (body ++ m) := by
      have hlong : ¬ (writeU16 i.payload.length ++ (body ++ m)).length < 2 := by
        rw [length_append, Libx.Ice.length_writeU16]
        omega
      rw [parse_of_len16 rfl, if_neg hlong, take_left' (Libx.Ice.length_writeU16 _),
        drop_left' (Libx.Ice.length_writeU16 _), readBE_writeU16, Nat.mod_eq_of_lt (by omega)]
      rfl
    rw [hlen] at hhead
    exact hhead ▸ hrest
  · rw [if_neg h16]
    have hhead := parse_head masked h hfin (n := 127) (by decide) (hno _)
      (writeU64 i.payload.length ++ (body ++ m))
    have hlen : parse (takeLen7 127 (headed masked allowRsv1 i)) (writeU64 i.payload.length ++ (body ++ m)) =
        parse (measured masked allowRsv1 i) (body ++ m) := by
      have hlong : ¬ (writeU64 i.payload.length ++ (body ++ m)).length < 8 := by
        rw [length_append, Libx.Ice.length_writeU64]
        omega
      rw [parse_of_len64 rfl, if_neg hlong, take_left' (Libx.Ice.length_writeU64 _),
        drop_left' (Libx.Ice.length_writeU64 _), readBE_writeU64, Nat.mod_eq_of_lt (by omega)]
      dsimp only
      rw [if_neg (by omega)]
      rfl
    rw [hlen] at hhead
    exact hhead ▸ hrest

theorem next_wire (h : i.Fits allowRsv1) (hfin : isControlOpcode i.opcode = true → i.fin = true) (m : Bytes) :
    next { expectMasked := masked, allowRsv1 } (i.wire masked ++ m) =
      .item (i.parsed masked) { expectMasked := masked, allowRsv1 } m := by
  obtain ⟨q, hparse, hframe, hexpect, hallow⟩ := parse_wire masked h hfin m
  rw [next, hparse]
  dsimp only
  rw [hframe, reset, hexpect, hallow]

/-! ### Buffers of blocks -/

section Map

variable {β γ : Type} {f : β → γ}

def mapPart (f : β → γ) (x : Part β) : Part γ := (x.1, x.2.1, f x.2.2)

theorem andThen_map {g : FrameParser → β → Part β} {g' : FrameParser → γ → Part γ}
    (h : ∀ p b, g' p (f b) = mapPart f (g p b)) (x : Part β) : (mapPart f x).andThen g' = mapPart f (x.andThen g) := by
  obtain ⟨r, p, b⟩ := x
  cases r with
  | none => exact h p b
  | some r => rfl

theorem done_map (p : FrameParser) (b : β) : done p (f b) = mapPart f (done p b) := by
  unfold done
  split_ifs <;> rfl

variable [Readable β] [Readable γ]

theorem header_map (hf : Reading f) (p : FrameParser) (b : β) : header p (f b) = mapPart f (header p b) := by
  unfold header
  by_cases h : p.phase ≠ .header
  · rw [if_pos h, if_pos h]
    rfl
  rw [if_neg h, if_neg h, hf.peek]
  match Readable.peek 2 b with
  | none | some [] | some [_] | some (_ :: _ :: _ :: _) => rfl
  | some [h0, h1] =>
    dsimp only
    rw [hf.consume]
    split_ifs <;> rfl

theorem len16_map (hf : Reading f) (p : FrameParser) (b : β) : len16 p (f b) = mapPart f (len16 p b) := by
  unfold len16
  by_cases h : p.phase ≠ .len16
  · rw [if_pos h, if_pos h]
    rfl
  rw [if_neg h, if_neg h, hf.peek]
  cases Readable.peek 2 b with
  | none => rfl
  | some buf =>
    rw [hf.consume]
    rfl

theorem len64_map (hf : Reading f) (p : FrameParser) (b : β) : len64 p (f b) = mapPart f (len64 p b) := by
  unfold len64
  by_cases h : p.phase ≠ .len64
  · rw [if_pos h, if_pos h]
    rfl
  rw [if_neg h, if_neg h, hf.peek]
  cases Readable.peek 8 b with
  | none => rfl
  | some buf =>
    dsimp only
    rw [hf.consume]
    split_ifs <;> rfl

theorem mask_map (hf : Reading f) (p : FrameParser) (b : β) : mask p (f b) = mapPart f (mask p b) := by
  unfold mask
  by_cases h : p.phase ≠ .mask
  · rw [if_pos h, if_pos h]
    rfl
  rw [if_neg h, if_neg h, hf.peek]
  match Readable.peek 4 b with
  | none | some [] | some [_] | some [_, _] | some [_, _, _] | some (_ :: _ :: _ :: _ :: _ :: _) => rfl
  | some [k0, k1, k2, k3] =>
    rw [hf.consume]
    rfl

theorem readPayload_map (hf : Reading f) (got : Bytes) (p : FrameParser) (b : β) :
    readPayload got p (f b) = mapPart f (readPayload got p b) := by
  unfold readPayload
  dsimp only
  rw [hf.len]
  generalize min (Readable.len b) (p.frame.payloadLen - got.length) = take
  have hread : (if 0 < take then Readable.read take (f b) else ([], f b)) =
      ((if 0 < take then Readable.read take b else ([], b)).1, f (if 0 < take then Readable.read take b else ([], b)).2) := by
    split_ifs
    · exact hf.read take b
    · rfl
  rw [hread]
  generalize (if 0 < take then Readable.read take b else ([], b)) = x
  split_ifs
  · rfl
  · exact done_map _ x.2
  · exact done_map _ x.2

theorem payload_map (hf : Reading f) (p : FrameParser) (b : β) : payload p (f b) = mapPart f (payload p b) := by
  unfold payload
  by_cases h : p.phase ≠ .payload
  · rw [if_pos h, if_pos h]
    rfl
  rw [if_neg h, if_neg h]
  by_cases hlen : p.frame.payloadLen = 0
  · rw [if_pos hlen, if_pos hlen]
    exact done_map _ b
  rw [if_neg hlen, if_neg hlen]
  cases p.frame.payload with
  | none =>
    split_ifs
    · rfl
    · exact readPayload_map hf [] p b
  | some got => exact readPayload_map hf got p b

theorem parse_map (hf : Reading f) (p : FrameParser) (b : β) : parse p (f b) = mapPart f (parse p b) := by
  unfold parse
  rw [header_map hf, andThen_map (len16_map hf), andThen_map (len64_map hf), andThen_map (mask_map hf),
    andThen_map (payload_map hf)]

theorem next_map (hf : Reading f) (p : FrameParser) (b : β) : next p (f b) = (next p b).map f := by
  unfold next
  rw [parse_map hf]
  rcases parse p b with ⟨r, q, t⟩
  rcases r with _ | _ | _ | _ <;> rfl

end Map

end FrameParser

/-! ### Streams -/

/-- `xWsFrameParse` after each piece that is appended, as long as it gives frames. -/
def parseAll (p : FrameParser) (pieces : List Bytes) : Drained FrameParser Frame IOBuffer :=
  feedAll FrameParser.next (fun io piece => io.append piece) IOBuffer.nbytes p {} pieces

/-- Frames encoded one after the other into one buffer. -/
def stream (masked : Bool) (frames : List Sending) : Bytes :=
  (frames.foldl (fun io i => i.encode masked io) ({} : IOBuffer)).content

theorem stream_eq (masked : Bool) (frames : List Sending) :
    stream masked frames = frames.flatMap (Sending.wire masked) := by
  have hfold (io : IOBuffer) : (frames.foldl (fun io i => i.encode masked io) io).content =
      io.content ++ frames.flatMap (Sending.wire masked) := by
    induction frames generalizing io with
    | nil => rw [foldl_nil, flatMap_nil, List.append_nil]
    | cons i frames ih => rw [foldl_cons, ih, Sending.content_encode, flatMap_cons, append_assoc]
  exact hfold {}

theorem waiting_fresh (masked allowRsv1 : Bool) : FrameParser.Waiting { expectMasked := masked, allowRsv1 } :=
  FrameParser.waiting_of_ne Phase.noConfusion

theorem next_fresh (masked allowRsv1 : Bool) :
    FrameParser.next { expectMasked := masked, allowRsv1 } ([] : Bytes) = .more { expectMasked := masked, allowRsv1 } [] :=
  rfl

theorem parseAll_eq (masked allowRsv1 : Bool) (pieces : List Bytes) :
    (parseAll { expectMasked := masked, allowRsv1 } pieces).map IOBuffer.content =
      drain FrameParser.next (pieces.flatten.length + 1) { expectMasked := masked, allowRsv1 } pieces.flatten := by
  have hmap : feedAll FrameParser.next (· ++ ·) List.length { expectMasked := masked, allowRsv1 } ({} : IOBuffer).content
      pieces = (parseAll { expectMasked := masked, allowRsv1 } pieces).map IOBuffer.content :=
    feedAll_map (FrameParser.next_map IOBuffer.readable_content) (fun io piece => (IOBuffer.content_append piece io).symm)
      (fun io => io.counted.symm) _ {} pieces
  rw [← hmap]
  exact FrameParser.incremental_next.feedAll_eq (waiting_fresh masked allowRsv1) (next_fresh masked allowRsv1) pieces

/-- **Frames are exact.**  Frames that were encoded, control frames with FIN, are parsed one after the other and without
an error, however the stream is cut; and for any stream at all what is parsed does not depend on how it is cut. -/
theorem frames_exact (masked allowRsv1 : Bool) :
    (∀ frames : List Sending, (∀ i ∈ frames, i.Fits allowRsv1 ∧ (isControlOpcode i.opcode = true → i.fin = true)) →
      ∀ pieces : List Bytes, pieces.flatten = stream masked frames →
        (parseAll { expectMasked := masked, allowRsv1 } pieces).1 = frames.map (Sending.parsed masked) ∧
          (parseAll { expectMasked := masked, allowRsv1 } pieces).2 ≠ none) ∧
      ∀ pieces pieces' : List Bytes, pieces.flatten = pieces'.flatten →
        (parseAll { expectMasked := masked, allowRsv1 } pieces).map IOBuffer.content =
          (parseAll { expectMasked := masked, allowRsv1 } pieces').map IOBuffer.content := by
  refine ⟨fun frames hfits pieces hcut => ?_, fun pieces pieces' hcut => ?_⟩
  · have hall := parseAll_eq masked allowRsv1 pieces
    rw [hcut, stream_eq, FrameParser.incremental_next.drain_encode (waiting_fresh masked allowRsv1)
      (next_fresh masked allowRsv1) (fun i hi m => FrameParser.next_wire (hfits i hi).1 (hfits i hi).2 m)
      (Nat.lt_succ_self _)] at hall
    obtain ⟨hitems, hrest⟩ := Prod.mk.inj hall
    refine ⟨hitems, fun hnone => ?_⟩
    rw [hnone] at hrest
    cases hrest
  · rw [parseAll_eq, parseAll_eq, hcut]

/-- Two frames in one piece. -/
theorem frames_exact_two :
    (parseAll { expectMasked := true } [stream true [.frame true false opcodeText [104, 105] ⟨1, 2, 3, 4⟩,
      .close 1000 [] ⟨5, 6, 7, 8⟩]]).1 =
        [{ fin := true, opcode := opcodeText, masked := true, maskingKey := ⟨1, 2, 3, 4⟩, payloadLen := 2,
           payload := some [104, 105] },
         { fin := true, opcode := opcodeClose, masked := true, maskingKey := ⟨5, 6, 7, 8⟩, payloadLen := 2,
           payload := some [3, 232] }] := by
  have hfits : ∀ i ∈ [Sending.frame true false opcodeText [104, 105] ⟨1, 2, 3, 4⟩, .close 1000 [] ⟨5, 6, 7, 8⟩],
      i.Fits false ∧ (isControlOpcode i.opcode = true → i.fin = true) := by
    intro i hi
    simp only [mem_cons, not_mem_nil, or_false] at hi
    rcases hi with rfl | rfl
    all_goals exact ⟨⟨by decide, by decide, by decide, by decide⟩, by decide⟩
  exact ((frames_exact true false).1 _ hfits _ (List.append_nil _)).1

/-- A Ping without FIN. -/
theorem not_exact_ping :
    ¬ ∀ (masked allowRsv1 : Bool) (frames : List Sending), (∀ i ∈ frames, i.Fits allowRsv1) →
      ∀ pieces : List Bytes, pieces.flatten = stream masked frames →
        (parseAll { expectMasked := masked, allowRsv1 } pieces).2 ≠ none := by
  intro h
  have hfits : ∀ i ∈ [Sending.frame false false opcodePing [] {}], i.Fits false := by
    intro i hi
    obtain rfl := mem_singleton.mp hi
    exact ⟨by decide, by decide, by decide, by decide⟩
  have hcut : [([0x09, 0x00] : Bytes)].flatten = stream false [.frame false false opcodePing [] {}] := by
    rw [stream_eq]
    rfl
  have hfail : ((parseAll { expectMasked := false } [[0x09, 0x00]]).map IOBuffer.content).2 = none := by
    rw [parseAll_eq]
    rfl
  exact h false false _ hfits _ hcut (Option.map_eq_none_iff.mp hfail)

end Libx.Http
