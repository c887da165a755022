import Libx.Agent.Jsonl

/-!
# Libx.Agent.JsonlRead — reading back what was written

Ids, names and arguments are printed as they are given, texts and outputs are escaped.
-/

namespace Libx.Agent

open List

/-! ### Strings -/

/-- The bytes that stand for one byte of a string. -/
inductive Spelled : Bytes → UInt8 → Prop
  | plain (b : UInt8) : b ≠ 34 → b ≠ 92 → Spelled [b] b
  | escaped (e b : UInt8) : e ≠ 117 → unescape e = some b → Spelled [92, e] b
  | hex (h1 h2 h3 h4 : UInt8) (v : ℕ) : hexVal 0 [h1, h2, h3, h4] = some v →
      Spelled [92, 117, h1, h2, h3, h4] (if v ≤ 127 then UInt8.ofNat v else 63)

/-- The bytes between the quotes of a string. -/
inductive Spelling : Bytes → Bytes → Prop
  | nil : Spelling [] []
  | cons {w sp v : Bytes} {b : UInt8} : Spelled w b → Spelling sp v → Spelling (w ++ sp) (b :: v)

variable {cap n used used' off off' : ℕ} {src rest sp v w : Bytes} {m m' : SessionMsg}

variable {b : UInt8}

theorem Spelled.length_pos (h : Spelled w b) : 0 < w.length := by
  cases h <;> simp

theorem readEscape_some {r : UInt8} (h : readEscape src = some (r, rest)) :
    ∃ w, Spelled (92 :: w) r ∧ src = w ++ rest := by
  unfold readEscape at h
  split at h
  · exact absurd h (by simp)
  · next e cs =>
    by_cases he : e = 117
    · rw [if_pos he] at h
      split at h
      · next h1 h2 h3 h4 cs =>
        obtain ⟨v, hv, hp⟩ := Option.map_eq_some_iff.mp h
        injection hp with h1 h2
        subst h1 h2 he
        exact ⟨[117, _, _, _, _], .hex _ _ _ _ v hv, rfl⟩
      · exact absurd h (by simp)
    · rw [if_neg he] at h
      obtain ⟨v, hv, hp⟩ := Option.map_eq_some_iff.mp h
      injection hp with h1 h2
      subst h1 h2
      exact ⟨[e], .escaped e v he hv, rfl⟩

/-- **What a string is read from.** -/
theorem spelling_of_parseChars (h : parseChars cap n src off = some (v, rest, off')) :
    ∃ sp, Spelling sp v ∧ src = sp ++ 34 :: rest ∧ off' = off + v.length + 1 ∧ off' ≤ cap := by
  induction n generalizing src off v with
  | zero => simp [parseChars] at h
  | succ n ih =>
    cases src with
    | nil => simp [parseChars] at h
    | cons c cs =>
      rw [parseChars] at h
      by_cases hc : c = 34
      · split_ifs at h with hcap
        injection h with h
        injection h with h1 h2
        injection h2 with h2 h3
        subst h1 h2 hc
        exact ⟨[], .nil, rfl, by rw [← h3]; rfl, by omega⟩
      · rw [if_neg hc] at h
        have hread : ∀ r cs', (if c = 92 then readEscape cs else some (c, cs)) = some (r, cs') →
            ∃ w, Spelled w r ∧ c :: cs = w ++ cs' := by
          intro r cs' hr
          by_cases hb : c = 92
          · rw [if_pos hb] at hr
            obtain ⟨w, hw, he⟩ := readEscape_some hr
            exact ⟨92 :: w, hw, by rw [hb, he]; rfl⟩
          · rw [if_neg hb] at hr
            injection hr with hr
            injection hr with h1 h2
            subst h1 h2
            exact ⟨[c], .plain c hc hb, rfl⟩
        split at h
        · exact absurd h (by simp)
        · next r cs' hr =>
          split_ifs at h with hcap
          obtain ⟨p, hp, he⟩ := Option.map_eq_some_iff.mp h
          obtain ⟨v', rest', off''⟩ := p
          simp only [Prod.mk.injEq] at he
          obtain ⟨rfl, rfl, rfl⟩ := he
          obtain ⟨w, hw, hsrc⟩ := hread r cs' hr
          obtain ⟨sp, hsp, he, hoff, hle⟩ := ih hp
          refine ⟨w ++ sp, .cons hw hsp, ?_, ?_, hle⟩
          · rw [hsrc, he, append_assoc]
          · rw [hoff, length_cons]
            omega

theorem parseChars_cons (hw : Spelled w b) (hoff : off + 1 ≤ cap) :
    parseChars cap (n + 1) (w ++ src) off =
      (parseChars cap n src (off + 1)).map (fun p => (b :: p.1, p.2)) := by
  cases hw with
  | plain b h1 h2 =>
    rw [singleton_append, parseChars, if_neg h1, if_neg h2]
    exact if_neg (by omega)
  | escaped e b h1 h2 =>
    show parseChars cap (n + 1) (92 :: e :: src) off = _
    have hr : readEscape (e :: src) = some (b, src) := by
      unfold readEscape
      dsimp only
      rw [if_neg h1, h2]
      rfl
    rw [parseChars, if_neg (by decide), if_pos rfl, hr]
    exact if_neg (by omega)
  | hex h1 h2 h3 h4 v hv =>
    show parseChars cap (n + 1) (92 :: 117 :: h1 :: h2 :: h3 :: h4 :: src) off = _
    rw [parseChars, if_neg (by decide), if_pos rfl, readEscape, if_pos rfl, hv]
    exact if_neg (by omega)

theorem parseChars_of_spelling (h : Spelling sp v) : ∀ {n off : ℕ}, sp.length < n →
    off + v.length + 1 ≤ cap →
    parseChars cap n (sp ++ 34 :: rest) off = some (v, rest, off + v.length + 1) := by
  induction h with
  | nil =>
    intro n off hn hoff
    obtain ⟨n, rfl⟩ : ∃ k, n = k + 1 := ⟨n - 1, by omega⟩
    rw [nil_append, parseChars, if_pos rfl]
    exact if_neg (by simpa using hoff)
  | cons hw _ ih =>
    intro n off hn hoff
    have hpos := hw.length_pos
    rw [length_append] at hn
    obtain ⟨n, rfl⟩ : ∃ k, n = k + 1 := ⟨n - 1, by omega⟩
    rw [length_cons] at hoff
    have hrec : parseChars _ n _ (off + 1) = _ := ih (by omega) (by omega)
    rw [append_assoc, parseChars_cons hw (by omega), hrec, length_cons, Option.map_some,
      Nat.add_right_comm off 1, Nat.add_assoc off]

/-- **Strings**: what stands between the quotes spells the value, and the arena has room for it. -/
theorem parseString_iff : parseStringIntoArena cap src used = some (v, rest, used') ↔
    ∃ sp, Spelling sp v ∧ src = 34 :: (sp ++ 34 :: rest) ∧ used' = used + v.length + 1 ∧ used' ≤ cap := by
  unfold parseStringIntoArena
  constructor
  · intro h
    split at h
    · exact absurd h (by simp)
    · split_ifs at h with hc
      obtain ⟨sp, hsp, he, hu, hle⟩ := spelling_of_parseChars h
      exact ⟨sp, hsp, by rw [hc, he], hu, hle⟩
  · rintro ⟨sp, hsp, rfl, rfl, hle⟩
    dsimp only
    rw [if_pos rfl]
    exact parseChars_of_spelling hsp (by simp) hle

/-! ### Spellings -/

def isSpecial (b : UInt8) : Bool := b = 34 || b = 92

/-- How many bytes of a string have to be escaped. -/
def specials (v : Bytes) : ℕ := v.countP isSpecial

theorem Spelled.length_le (h : Spelled w b) : [b].length + specials [b] ≤ w.length := by
  cases h with
  | plain b h1 h2 => simp [specials, isSpecial, h1, h2]
  | escaped e b h1 h2 =>
    have := countP_le_length (p := isSpecial) (l := [b])
    simp only [specials, length_cons, length_nil] at this ⊢
    omega
  | hex h1 h2 h3 h4 v hv =>
    have := countP_le_length (p := isSpecial) (l := [if v ≤ 127 then UInt8.ofNat v else 63])
    simp only [specials, length_cons, length_nil] at this ⊢
    omega

theorem Spelling.length_le (h : Spelling sp v) : v.length + specials v ≤ sp.length := by
  induction h with
  | nil => simp [specials]
  | @cons w sp v b hw _ ih =>
    have := hw.length_le
    rw [show b :: v = [b] ++ v from rfl, length_append, length_append, specials,
      countP_append]
    simp only [specials] at this ih
    omega

theorem spelling_plain (h : specials v = 0) : Spelling v v := by
  induction v with
  | nil => exact .nil
  | cons b v ih =>
    have h' : isSpecial b = false ∧ specials v = 0 := by
      unfold specials at h ⊢
      rw [countP_cons] at h
      split_ifs at h with hb
      · exact ⟨by simpa using hb, by simpa using h⟩
    simp only [isSpecial, Bool.or_eq_false_iff, decide_eq_false_iff_not] at h'
    exact .cons (.plain b h'.1.1 h'.1.2) (ih h'.2)

theorem hexVal_digits : ∀ n < 32,
    hexVal 0 [48, 48, hexDigit (UInt8.ofNat n / 16), hexDigit (UInt8.ofNat n % 16)] = some n := by decide

theorem spelled_escapeByte (c : UInt8) : Spelled (escapeByte c) c := by
  unfold escapeByte
  by_cases h1 : c = 34
  · rw [if_pos h1, h1]
    exact .escaped 34 34 (by decide) rfl
  rw [if_neg h1]
  by_cases h2 : c = 92
  · rw [if_pos h2, h2]
    exact .escaped 92 92 (by decide) rfl
  rw [if_neg h2]
  by_cases h3 : c = 10
  · rw [if_pos h3, h3]
    exact .escaped 110 10 (by decide) rfl
  rw [if_neg h3]
  by_cases h4 : c = 13
  · rw [if_pos h4, h4]
    exact .escaped 114 13 (by decide) rfl
  rw [if_neg h4]
  by_cases h5 : c = 9
  · rw [if_pos h5, h5]
    exact .escaped 116 9 (by decide) rfl
  rw [if_neg h5]
  by_cases h6 : c < 32
  · have hn : c.toNat < 32 := h6
    have hv := hexVal_digits c.toNat hn
    have hs := Spelled.hex 48 48 _ _ _ hv
    rw [if_pos (by omega), UInt8.ofNat_toNat] at hs
    rw [if_pos h6]
    exact hs
  · rw [if_neg h6]
    exact .plain c h1 h2

theorem spelling_writeJsonStr (s : Bytes) : Spelling (writeJsonStr s) s := by
  induction s with
  | nil => exact .nil
  | cons c s ih =>
    rw [writeJsonStr, flatMap_cons]
    exact .cons (spelled_escapeByte c) ih

/-! ### Fields -/

def isName (name : String) : Bool := specials (bytes name) = 0 && (bytes name).all (fun b => b ≠ 0)

variable {name : String}

theorem cstr_name (h : isName name = true) : (cstr (bytes name)).bytes = bytes name := by
  rw [isName, Bool.and_eq_true] at h
  exact takeWhile_eq_self_iff.mpr (fun b hb => all_eq_true.mp h.2 b hb)

theorem skipWs_cons (h : isWs b = false) : skipWs (b :: src) = b :: src := by
  rw [skipWs, dropWhile_cons_of_neg (by simp [h])]

theorem parseField_keyOf (hname : isName name = true)
    (hcap : used + (bytes name).length + 1 ≤ cap) :
    parseField cap (34 :: bytes name ++ [34, 58] ++ src) used m =
      (parseValue cap (skipWs src) (used + (bytes name).length + 1)).map
        (fun p => (setField (bytes name) p.1 m, p.2)) := by
  have hsp : specials (bytes name) = 0 := by
    rw [isName, Bool.and_eq_true] at hname
    simpa using hname.1
  have hkey : parseStringIntoArena cap (34 :: bytes name ++ [34, 58] ++ src) used =
      some (bytes name, 58 :: src, used + (bytes name).length + 1) :=
    parseString_iff.mpr ⟨bytes name, spelling_plain hsp, by simp, rfl, hcap⟩
  have hcol : skipColon (58 :: src) = some (skipWs src) := by
    rw [skipColon, skipWs_cons (by decide)]
    rfl
  unfold parseField
  rw [hkey]
  simp only [hcol, cstr_name hname]
  cases parseValue cap (skipWs src) (used + (bytes name).length + 1) <;> rfl

theorem parseLoop_key (hname : isName name = true)
    (hcap : used + (bytes name).length + 1 ≤ cap) :
    parseLoop cap (n + 1) false (keyOf name ++ src) used m =
      (parseValue cap (skipWs src) (used + (bytes name).length + 1)).bind
        (fun p => parseLoop cap n false p.2.1 p.2.2 (setField (bytes name) p.1 m)) := by
  have hkey : keyOf name ++ src = 44 :: (34 :: bytes name ++ [34, 58] ++ src) := rfl
  have hws : skipWs (34 :: bytes name ++ [34, 58] ++ src) = 34 :: bytes name ++ [34, 58] ++ src :=
    skipWs_cons (by decide)
  rw [hkey, parseLoop, skipWs_cons (by decide)]
  simp only [Bool.false_eq_true, if_false, if_true, hws, parseField_keyOf hname hcap]
  cases parseValue cap (skipWs src) (used + (bytes name).length + 1) <;> rfl

theorem parseLoop_field {v : Value} (hname : isName name = true)
    (hcap : used + (bytes name).length + 1 ≤ cap)
    (hv : parseValue cap (skipWs src) (used + (bytes name).length + 1) = some (v, rest, used')) :
    parseLoop cap (n + 1) false (keyOf name ++ src) used m =
      parseLoop cap n false rest used' (setField (bytes name) v m) := by
  rw [parseLoop_key hname hcap, hv]
  rfl

theorem parseLoop_strField (hname : isName name = true) (hsp : Spelling sp v)
    (hcap : used + (bytes name).length + v.length + 2 ≤ cap) :
    parseLoop cap (n + 1) false (strField name sp ++ rest) used m =
      parseLoop cap n false rest (used + (bytes name).length + v.length + 2)
        (setField (bytes name) (.str v) m) := by
  have hsrc : strField name sp ++ rest = keyOf name ++ (34 :: (sp ++ 34 :: rest)) := by
    rw [strField, append_assoc, append_assoc, cons_append, singleton_append]
  rw [hsrc]
  refine parseLoop_field hname (by omega) ?_
  rw [skipWs_cons (by decide)]
  have hstr : parseStringIntoArena cap (34 :: (sp ++ 34 :: rest)) (used + (bytes name).length + 1) =
      some (v, rest, used + (bytes name).length + v.length + 2) :=
    parseString_iff.mpr ⟨sp, hsp, rfl, by omega, by omega⟩
  unfold parseValue
  simp only [if_true, hstr, Option.map_some]

theorem parseLoop_end {b : Bool} : parseLoop cap (n + 1) b (125 :: rest) used m = some (m, used) := by
  rw [parseLoop, skipWs_cons (by decide)]
  rfl

/-! ### Raw values -/

theorem bracketEnd_rest {o c : UInt8} {r : Bytes} : ∀ {xs : Bytes} {d : ℕ} {q : Scan},
    bracketEnd o c d q xs = some r → ∃ p, xs = p ++ r ∧ 0 < p.length
  | [], _, _, h => by simp [bracketEnd] at h
  | b :: bs, d, .esc, h => by
    obtain ⟨p, hp, -⟩ := @bracketEnd_rest o c r bs d .str h
    exact ⟨b :: p, by rw [hp]; rfl, by simp⟩
  | b :: bs, d, .str, h => by
    rw [bracketEnd] at h
    have hrec : ∃ d' q', bracketEnd o c d' q' bs = some r := by
      split_ifs at h
      all_goals exact ⟨_, _, h⟩
    obtain ⟨d', q', hrec⟩ := hrec
    obtain ⟨p, hp, -⟩ := bracketEnd_rest hrec
    exact ⟨b :: p, by rw [hp]; rfl, by simp⟩
  | b :: bs, d, .out, h => by
    rw [bracketEnd] at h
    have hrec : bs = r ∨ ∃ d' q', bracketEnd o c d' q' bs = some r := by
      split_ifs at h
      · exact .inr ⟨_, _, h⟩
      · exact .inr ⟨_, _, h⟩
      · injection h with h
        exact .inl h
      · exact .inr ⟨_, _, h⟩
      · exact .inr ⟨_, _, h⟩
    rcases hrec with rfl | ⟨d', q', hrec⟩
    · exact ⟨[b], rfl, by simp⟩
    · obtain ⟨p, hp, -⟩ := bracketEnd_rest hrec
      exact ⟨b :: p, by rw [hp]; rfl, by simp⟩

theorem bracketEnd_append {o c : UInt8} {r : Bytes} (ys : Bytes) : ∀ {xs : Bytes} {d : ℕ} {q : Scan},
    bracketEnd o c d q xs = some r → bracketEnd o c d q (xs ++ ys) = some (r ++ ys)
  | [], _, _, h => by simp [bracketEnd] at h
  | b :: bs, d, .esc, h => @bracketEnd_append o c r ys bs d .str h
  | b :: bs, d, .str, h => by
    rw [bracketEnd] at h
    rw [cons_append, bracketEnd]
    split_ifs at h ⊢
    all_goals exact bracketEnd_append ys h
  | b :: bs, d, .out, h => by
    rw [bracketEnd] at h
    rw [cons_append, bracketEnd]
    split_ifs at h ⊢
    · exact bracketEnd_append ys h
    · exact bracketEnd_append ys h
    · injection h with h
      rw [h]
    · exact bracketEnd_append ys h
    · exact bracketEnd_append ys h

theorem bracketEnd_beyond {o c : UInt8} {r : Bytes} (ys : Bytes) : ∀ {xs : Bytes} {d : ℕ} {q : Scan},
    bracketEnd o c d q xs = none → bracketEnd o c d q (xs ++ ys) = some r → r.length < ys.length
  | [], d, q, _, h => by
    obtain ⟨p, hp, hlt⟩ := bracketEnd_rest h
    rw [nil_append] at hp
    rw [hp, length_append]
    omega
  | b :: bs, d, .esc, hn, h => @bracketEnd_beyond o c r ys bs d .str hn h
  | b :: bs, d, .str, hn, h => by
    rw [bracketEnd] at hn
    rw [cons_append, bracketEnd] at h
    split_ifs at hn h
    all_goals exact bracketEnd_beyond ys hn h
  | b :: bs, d, .out, hn, h => by
    rw [bracketEnd] at hn
    rw [cons_append, bracketEnd] at h
    split_ifs at hn h
    all_goals exact bracketEnd_beyond ys hn h

/-- The first bytes that do not lead to the raw reader. -/
def isOther (b : UInt8) : Bool := b = 34 || b = 116 || b = 102 || b = 110

theorem parseValue_raw {t : Bytes} (hsrc : src = b :: t) (hb : isOther b = false)
    (hend : rawEnd src = some rest) (hsplit : src = v ++ rest) (hcap : used + v.length + 1 ≤ cap) :
    parseValue cap src used = some (.raw v, rest, used + v.length + 1) := by
  simp only [isOther, Bool.or_eq_false_iff, decide_eq_false_iff_not] at hb
  obtain ⟨⟨⟨h1, h2⟩, h3⟩, h4⟩ := hb
  have hraw : parseRawValueIntoArena cap src used = some (v, rest, used + v.length + 1) := by
    unfold parseRawValueIntoArena
    rw [hend]
    have htake : src.take (src.length - rest.length) = v := by
      rw [hsplit, length_append, Nat.add_sub_cancel]
      exact take_left
    simp only [htake]
    rw [if_neg (by omega)]
  subst hsrc
  unfold parseValue
  simp only [if_neg h1]
  rw [if_neg (by simp [h2, h3, h4]), hraw]
  rfl

theorem rawEnd_word {d : UInt8} (hw : ∀ b ∈ w, isDelim b = false) (hd : isDelim d = true)
    (hb : ∀ b ∈ (w ++ d :: rest).head?, b ≠ 123 ∧ b ≠ 91 ∧ b ≠ 34) :
    rawEnd (w ++ d :: rest) = some (d :: rest) := by
  have hdrop : (w ++ d :: rest).dropWhile (fun b => !isDelim b) = d :: rest := by
    rw [dropWhile_append_of_pos (by simpa using hw), dropWhile_cons_of_neg (by simp [hd])]
  cases hs : w ++ d :: rest with
  | nil => simp at hs
  | cons b t =>
    rw [hs] at hb hdrop
    obtain ⟨h1, h2, h3⟩ := hb b rfl
    rw [rawEnd, if_neg h1, if_neg h2, if_neg h3, hdrop]

theorem decimal_digit (k : ℕ) : ∀ b ∈ decimal k, 48 ≤ b.toNat ∧ b.toNat ≤ 57 := by
  intro b hb
  unfold decimal bytes at hb
  rw [Nat.toString_eq_repr, Nat.repr_eq_ofList_toDigits, String.toList_ofList] at hb
  obtain ⟨c, hc, rfl⟩ := mem_map.mp hb
  have hd := Nat.isDigit_of_mem_toDigits (by decide) (by decide) hc
  simp only [Char.isDigit, Bool.and_eq_true, decide_eq_true_eq] at hd
  have h1 : 48 ≤ c.toNat := hd.1
  have h2 : c.toNat ≤ 57 := hd.2
  rw [UInt8.toNat_ofNat', Nat.mod_eq_of_lt (by omega)]
  exact ⟨h1, h2⟩

theorem decimal_ne_nil (k : ℕ) : decimal k ≠ [] := by
  unfold decimal bytes
  rw [Nat.toString_eq_repr, Nat.repr_eq_ofList_toDigits, String.toList_ofList]
  simp

/-! ### The head of a line -/

theorem length_keyOf (name : String) : (keyOf name).length = (bytes name).length + 4 := by
  simp [keyOf]

theorem length_strField (name : String) (v : Bytes) :
    (strField name v).length = (bytes name).length + v.length + 6 := by
  rw [strField, length_append, length_append, length_cons, length_keyOf]
  simp only [length_cons, length_nil]
  omega

theorem roleOf_roleToStr (r x : Role) : roleOf (roleToStr r) x = r := by
  cases r <;> rfl

theorem kindOf_kindToStr (k x : EntryKind) : kindOf (kindToStr k) x = k := by
  cases k <;> rfl

theorem specials_roleToStr (r : Role) : specials (roleToStr r) = 0 := by
  cases r <;> decide

theorem specials_kindToStr (k : EntryKind) : specials (kindToStr k) = 0 := by
  cases k <;> decide

theorem parseValue_stamp (ts : ℕ) (hcap : used + (decimal ts).length + 1 ≤ cap) :
    parseValue cap (decimal ts ++ 44 :: rest) used =
      some (.raw (decimal ts), 44 :: rest, used + (decimal ts).length + 1) := by
  have hdig : ∀ b ∈ decimal ts, isDelim b = false ∧ isOther b = false ∧ b ≠ 123 ∧ b ≠ 91 ∧ b ≠ 34 := by
    intro b hb
    obtain ⟨h1, h2⟩ := decimal_digit ts b hb
    have hne : ∀ c : UInt8, c.toNat < 48 ∨ 57 < c.toNat → b ≠ c := by
      rintro c hc rfl
      omega
    simp [isDelim, isOther, isWs, hne 44 (by decide), hne 125 (by decide), hne 93 (by decide),
      hne 32 (by decide), hne 9 (by decide), hne 13 (by decide), hne 10 (by decide), hne 34 (by decide),
      hne 116 (by decide), hne 102 (by decide), hne 110 (by decide), hne 123 (by decide), hne 91 (by decide)]
  cases hd : decimal ts with
  | nil => exact absurd hd (decimal_ne_nil ts)
  | cons b t =>
    rw [← hd]
    have hb := hdig b (by rw [hd]; exact mem_cons_self)
    refine parseValue_raw (t := t ++ 44 :: rest) (by rw [hd]; rfl) hb.2.1 ?_ rfl hcap
    refine rawEnd_word (fun x hx => (hdig x hx).1) (by decide) ?_
    intro x hx
    rw [hd] at hx
    have hx : x = b := by simpa using hx.symm
    rw [hx]
    exact hb.2.2

/-- **The head of a line**: stamp, role and kind are read back, and the payload is what is left. -/
theorem parseLine_lineBody (ts : ℕ) (m : SessionMsg) (hcap : used + (lineBody ts m).length ≤ cap) :
    ∃ n used', 4 ≤ n ∧ used' + (writePayload m ++ [125]).length ≤ cap ∧
      parseLine cap (lineBody ts m) used =
        parseLoop cap n false (writePayload m ++ [125]) used' { role := m.role, kind := m.kind } := by
  have hlen : (lineBody ts m).length = (decimal ts).length + (roleToStr m.role).length +
      (kindToStr m.kind).length + (writePayload m ++ [125]).length + 26 := by
    unfold lineBody
    simp only [length_append, length_cons, length_strField]
    have h1 : (bytes "ts").length = 2 := rfl
    have h2 : (bytes "role").length = 4 := rfl
    have h3 : (bytes "kind").length = 4 := rfl
    omega
  obtain ⟨n, hn⟩ : ∃ n, (lineBody ts m).length + 1 = n + 3 :=
    ⟨(lineBody ts m).length - 2, by omega⟩
  have hbody : lineBody ts m = 123 :: ((34 :: bytes "ts" ++ [34, 58] ++ (decimal ts ++
      (strField "role" (roleToStr m.role) ++ (strField "kind" (kindToStr m.kind) ++
        (writePayload m ++ [125])))))) := by
    simp [lineBody]
  have hrole : ∃ t, strField "role" (roleToStr m.role) ++ (strField "kind" (kindToStr m.kind) ++
      (writePayload m ++ [125])) = 44 :: t := ⟨_, rfl⟩
  obtain ⟨t, ht⟩ := hrole
  have hws : skipWs (decimal ts ++ 44 :: t) = decimal ts ++ 44 :: t := by
    cases hd : decimal ts with
    | nil => rfl
    | cons b d =>
      obtain ⟨h1, h2⟩ := decimal_digit ts b (by rw [hd]; exact mem_cons_self)
      refine skipWs_cons ?_
      have hne : ∀ c : UInt8, c.toNat < 48 → b ≠ c := by
        rintro c hc rfl
        omega
      simp [isWs, hne 32 (by decide), hne 9 (by decide), hne 13 (by decide), hne 10 (by decide)]
  have hname : (bytes "ts").length = 2 := rfl
  have hstamp : parseField cap (34 :: bytes "ts" ++ [34, 58] ++ (decimal ts ++ 44 :: t)) used {} =
      some ({}, 44 :: t, used + 3 + (decimal ts).length + 1) := by
    rw [parseField_keyOf (by decide) (by omega), hws, hname, parseValue_stamp ts (by omega)]
    rfl
  have hfirst : parseLine cap (lineBody ts m) used =
      parseLoop cap (n + 2) false (44 :: t) (used + 3 + (decimal ts).length + 1) {} := by
    unfold parseLine
    rw [hn, hbody, ht, skipWs_cons (by decide)]
    dsimp only
    rw [if_pos rfl, parseLoop]
    have hq : skipWs (34 :: bytes "ts" ++ [34, 58] ++ (decimal ts ++ 44 :: t)) =
        34 :: bytes "ts" ++ [34, 58] ++ (decimal ts ++ 44 :: t) := skipWs_cons (by decide)
    rw [hq]
    simp only [cons_append] at hstamp ⊢
    rw [hstamp]
    rfl
  have h2 : (bytes "role").length = 4 := rfl
  have h3 : (bytes "kind").length = 4 := rfl
  refine ⟨n, used + 3 + (decimal ts).length + 1 + 4 + (roleToStr m.role).length + 2 + 4 +
    (kindToStr m.kind).length + 2, ?_, ?_, ?_⟩
  · omega
  · omega
  rw [hfirst, ← ht, parseLoop_strField (by decide) (spelling_plain (specials_roleToStr m.role)) (by omega),
    parseLoop_strField (by decide) (spelling_plain (specials_kindToStr m.kind)) (by omega), h2, h3]
  congr 1
  show setField (bytes "kind") (.str (kindToStr m.kind))
    { ({} : SessionMsg) with role := roleOf (roleToStr m.role) .system } = _
  rw [roleOf_roleToStr]
  show { ({ role := m.role } : SessionMsg) with kind := kindOf (kindToStr m.kind) .text } = _
  rw [kindOf_kindToStr]

/-! ### Messages that come back -/

def isPlain (b : UInt8) : Bool := !isSpecial b && b ≠ 10

/-- An argument string that the raw reader takes as a whole: it is empty, or a bracket that its last byte
closes, or a bare word that starts neither a string nor a literal. -/
def isWhole : Bytes → Bool
  | [] => true
  | b :: bs =>
    if b = 123 then bracketEnd 123 125 0 .out (b :: bs) = some []
    else if b = 91 then bracketEnd 91 93 0 .out (b :: bs) = some []
    else !isOther b && (b :: bs).all (fun b => !isDelim b)

/-- The message whose line is to be read back: no quote, backslash or newline in an id or a name, no
newline in the arguments, and these whole. -/
def SessionMsg.readable (m : SessionMsg) : Bool :=
  match m.kind with
  | .text | .thinking => true
  | .toolUse =>
    m.toolUseId.all (fun s => s.bytes.all isPlain) && m.toolUseName.all (fun s => s.bytes.all isPlain) &&
      m.toolUseArgs.all (fun s => isWhole s.bytes && !s.bytes.contains 10)
  | .toolResult => m.toolResultId.all (fun s => s.bytes.all isPlain)

/-- `m'` is `m` in role, kind and the payload of the kind. -/
def SessionMsg.Agrees (m m' : SessionMsg) : Prop :=
  m'.role = m.role ∧ m'.kind = m.kind ∧
    match m.kind with
    | .text | .thinking => m'.text = m.text
    | .toolUse => m'.toolUseId = m.toolUseId ∧ m'.toolUseName = m.toolUseName ∧
        m'.toolUseArgs = m.toolUseArgs
    | .toolResult => m'.toolResultId = m.toolResultId ∧ m'.toolResultOutput = m.toolResultOutput ∧
        m'.toolResultIsError = m.toolResultIsError

theorem specials_of_plain {s : Bytes} (h : s.all isPlain = true) : specials s = 0 := by
  refine countP_eq_zero.mpr (fun b hb => ?_)
  have := all_eq_true.mp h b hb
  simp only [isPlain, Bool.and_eq_true, Bool.not_eq_true'] at this
  simp [this.1]

/-- The field of an id or a name that may be missing. -/
def setOpt (name : String) (o : Option CStr) (m : SessionMsg) : SessionMsg :=
  match o with
  | none => m
  | some s => setField (bytes name) (.str s.bytes) m

theorem setOpt_id (o : Option CStr) (h : m.toolUseId = none) :
    setOpt "tool_use_id" o m = { m with toolUseId := o } := by
  cases o with
  | none => rw [setOpt, ← h]
  | some s =>
    show { m with toolUseId := some (cstr s.bytes) } = _
    rw [cstr_bytes]

theorem setOpt_name (o : Option CStr) (h : m.toolUseName = none) :
    setOpt "tool_use_name" o m = { m with toolUseName := o } := by
  cases o with
  | none => rw [setOpt, ← h]
  | some s =>
    show { m with toolUseName := some (cstr s.bytes) } = _
    rw [cstr_bytes]

theorem setOpt_result (o : Option CStr) (h : m.toolResultId = none) :
    setOpt "tool_result_id" o m = { m with toolResultId := o } := by
  cases o with
  | none => rw [setOpt, ← h]
  | some s =>
    show { m with toolResultId := some (cstr s.bytes) } = _
    rw [cstr_bytes]

theorem parseLoop_optField {k : ℕ} (hname : isName name = true) (o : Option CStr)
    (ho : ∀ s ∈ o, specials s.bytes = 0) (hn : k + 1 ≤ n)
    (hcap : used + (optField (strField name) o ++ rest).length ≤ cap) :
    ∃ n' used', k ≤ n' ∧ used' + rest.length ≤ cap ∧
      parseLoop cap n false (optField (strField name) o ++ rest) used m =
        parseLoop cap n' false rest used' (setOpt name o m) := by
  cases o with
  | none => exact ⟨n, used, by omega, hcap, rfl⟩
  | some s =>
    have hcap : used + (strField name s.bytes ++ rest).length ≤ cap := hcap
    rw [length_append, length_strField] at hcap
    obtain ⟨n, rfl⟩ : ∃ j, n = j + 1 := ⟨n - 1, by omega⟩
    exact ⟨n, _, by omega, by omega,
      parseLoop_strField hname (spelling_plain (ho s rfl)) (by omega)⟩

theorem parseLoop_escaped {k : ℕ} (hname : isName name = true) (t : Bytes)
    (hn : k + 1 ≤ n)
    (hcap : used + ((if t = [] then [] else strField name (writeJsonStr t)) ++ rest).length ≤ cap) :
    ∃ n' used', k ≤ n' ∧ used' + rest.length ≤ cap ∧
      parseLoop cap n false ((if t = [] then [] else strField name (writeJsonStr t)) ++ rest) used m =
        parseLoop cap n' false rest used' (if t = [] then m else setField (bytes name) (.str t) m) := by
  by_cases ht : t = []
  · simp only [if_pos ht] at hcap ⊢
    exact ⟨n, used, by omega, hcap, rfl⟩
  · simp only [if_neg ht] at hcap ⊢
    have hle := (spelling_writeJsonStr t).length_le
    rw [length_append, length_strField] at hcap
    obtain ⟨n, rfl⟩ : ∃ j, n = j + 1 := ⟨n - 1, by omega⟩
    exact ⟨n, _, by omega, by omega,
      parseLoop_strField hname (spelling_writeJsonStr t) (by omega)⟩

theorem parseValue_true :
    parseValue cap (bytes "true" ++ rest) used = some (.flag true, rest, used) := by
  have hlit : matchLit "true" (116 :: 114 :: 117 :: 101 :: rest) = some rest := by
    rw [matchLit, if_pos (by rfl)]
    rfl
  show parseValue cap (116 :: 114 :: 117 :: 101 :: rest) used = _
  rw [parseValue, if_neg (by decide), if_pos (by decide), hlit]

theorem parseLoop_isError {k : ℕ} (b : Bool) (hm : m.toolResultIsError = false) (hn : k + 1 ≤ n)
    (hcap : used + ((if b then keyOf "is_error" ++ bytes "true" else []) ++ rest).length ≤ cap) :
    ∃ n' used', k ≤ n' ∧ used' + rest.length ≤ cap ∧
      parseLoop cap n false ((if b then keyOf "is_error" ++ bytes "true" else []) ++ rest) used m =
        parseLoop cap n' false rest used' { m with toolResultIsError := b } := by
  cases b with
  | false =>
    have he : { m with toolResultIsError := false } = m := by rw [← hm]
    exact ⟨n, used, by omega, hcap, by rw [he]; rfl⟩
  | true =>
    simp only [if_true] at hcap ⊢
    rw [length_append, length_append, length_keyOf] at hcap
    obtain ⟨n, rfl⟩ : ∃ j, n = j + 1 := ⟨n - 1, by omega⟩
    have hval : parseValue cap (skipWs (bytes "true" ++ rest)) (used + (bytes "is_error").length + 1) =
        some (.flag true, rest, used + (bytes "is_error").length + 1) := by
      have hws : skipWs (bytes "true" ++ rest) = bytes "true" ++ rest := skipWs_cons (by decide)
      rw [hws]
      exact parseValue_true
    refine ⟨n, used + (bytes "is_error").length + 1, by omega, by omega, ?_⟩
    rw [append_assoc, parseLoop_field (by decide) (by omega) hval]
    rfl

theorem parseValue_args {args : Bytes} (h : isWhole args = true) (hcap : used + args.length + 1 ≤ cap) :
    parseValue cap (skipWs (args ++ [125])) used = some (.raw args, [125], used + args.length + 1) := by
  cases args with
  | nil => exact parseValue_raw (by rfl) (by decide) (by rfl) (by rfl) hcap
  | cons b bs =>
    rw [isWhole] at h
    by_cases h1 : b = 123
    · rw [if_pos h1, decide_eq_true_eq] at h
      have hend := bracketEnd_append [125] h
      have hws : skipWs (b :: bs ++ [125]) = b :: bs ++ [125] := by
        rw [h1]
        exact skipWs_cons (by decide)
      rw [hws]
      refine parseValue_raw (t := bs ++ [125]) rfl (by rw [h1]; rfl) ?_ rfl hcap
      rw [cons_append, rawEnd, if_pos h1]
      exact hend
    rw [if_neg h1] at h
    by_cases h2 : b = 91
    · rw [if_pos h2, decide_eq_true_eq] at h
      have hend := bracketEnd_append [125] h
      have hws : skipWs (b :: bs ++ [125]) = b :: bs ++ [125] := by
        rw [h2]
        exact skipWs_cons (by decide)
      rw [hws]
      refine parseValue_raw (t := bs ++ [125]) rfl (by rw [h2]; rfl) ?_ rfl hcap
      rw [cons_append, rawEnd, if_neg h1, if_pos h2]
      exact hend
    rw [if_neg h2, Bool.and_eq_true, Bool.not_eq_true'] at h
    obtain ⟨hother, hall⟩ := h
    have hw : ∀ x ∈ b :: bs, isDelim x = false := by
      intro x hx
      simpa using all_eq_true.mp hall x hx
    have hb := hw b mem_cons_self
    have hws : skipWs (b :: bs ++ [125]) = b :: bs ++ [125] := by
      refine skipWs_cons ?_
      simp only [isDelim, Bool.or_eq_false_iff] at hb
      exact hb.2
    rw [hws]
    refine parseValue_raw (t := bs ++ [125]) rfl hother ?_ rfl hcap
    refine rawEnd_word hw (by decide) ?_
    intro x hx
    have hx : x = b := by simpa using hx.symm
    subst hx
    refine ⟨h1, h2, ?_⟩
    rintro rfl
    simp [isOther] at hother

theorem parseLoop_last (hname : isName name = true) (t : Bytes)
    (hset : (if t = [] then m else setField (bytes name) (.str t) m) = m') (hn : 2 ≤ n)
    (hcap : used + ((if t = [] then [] else strField name (writeJsonStr t)) ++ [125]).length ≤ cap) :
    ∃ used', parseLoop cap n false ((if t = [] then [] else strField name (writeJsonStr t)) ++ [125])
      used m = some (m', used') := by
  obtain ⟨n', u', hn', -, he⟩ := parseLoop_escaped (k := 1) (m := m) hname t hn hcap
  obtain ⟨j, rfl⟩ : ∃ j, n' = j + 1 := ⟨n' - 1, by omega⟩
  rw [hset] at he
  exact ⟨u', he.trans parseLoop_end⟩

theorem setText (t : Bytes) (hm : m.text = []) :
    (if t = [] then m else setField (bytes "text") (.str t) m) = { m with text := t } := by
  by_cases ht : t = []
  · rw [if_pos ht, ht, ← hm]
  · rw [if_neg ht]
    rfl

theorem setOutput (t : Bytes) (hm : m.toolResultOutput = []) :
    (if t = [] then m else setField (bytes "output") (.str t) m) = { m with toolResultOutput := t } := by
  by_cases ht : t = []
  · rw [if_pos ht, ht, ← hm]
  · rw [if_neg ht]
    rfl

theorem parseLoop_args (args : Option CStr) (hargs : ∀ s ∈ args, isWhole s.bytes = true)
    (hm : m.toolUseArgs = none) (hn : 2 ≤ n)
    (hcap : used + (optField (fun a => keyOf "tool_use_args" ++ a) args ++ [125]).length ≤ cap) :
    ∃ used', parseLoop cap n false (optField (fun a => keyOf "tool_use_args" ++ a) args ++ [125]) used m =
      some ({ m with toolUseArgs := args }, used') := by
  obtain ⟨j, rfl⟩ : ∃ j, n = j + 2 := ⟨n - 2, by omega⟩
  cases args with
  | none =>
    refine ⟨used, ?_⟩
    show parseLoop cap (j + 2) false [125] used m = _
    rw [parseLoop_end, ← hm]
  | some s =>
    have hcap : used + (keyOf "tool_use_args" ++ s.bytes ++ [125]).length ≤ cap := hcap
    rw [length_append, length_append, length_keyOf] at hcap
    have hval : parseValue cap (skipWs (s.bytes ++ [125])) (used + (bytes "tool_use_args").length + 1) =
        some (.raw s.bytes, [125], used + (bytes "tool_use_args").length + 1 + s.bytes.length + 1) :=
      parseValue_args (hargs s rfl) (by omega)
    have hsrc : optField (fun a => keyOf "tool_use_args" ++ a) (some s) ++ [125] =
        keyOf "tool_use_args" ++ (s.bytes ++ [125]) := append_assoc _ _ _
    refine ⟨used + (bytes "tool_use_args").length + 1 + s.bytes.length + 1, ?_⟩
    rw [hsrc, parseLoop_field (by decide) (by omega) hval, parseLoop_end]
    show some ({ m with toolUseArgs := some (cstr s.bytes) }, _) = _
    rw [cstr_bytes]

/-- **The payload of a readable message is read back.** -/
theorem parseLoop_writePayload (hm : m.readable = true) (hn : 4 ≤ n)
    (hcap : used + (writePayload m ++ [125]).length ≤ cap) :
    ∃ m' used', parseLoop cap n false (writePayload m ++ [125]) used
      { role := m.role, kind := m.kind } = some (m', used') ∧ m.Agrees m' := by
  obtain ⟨role, kind, text, id, name, args, rid, out, err⟩ := m
  cases kind with
  | text =>
    obtain ⟨u, he⟩ := parseLoop_last (m := { role := role }) (show isName "text" = true by decide) text
      (setText text rfl) (show 2 ≤ n by omega) hcap
    exact ⟨_, u, he, rfl, rfl, rfl⟩
  | thinking =>
    obtain ⟨u, he⟩ := parseLoop_last (m := { role := role, kind := .thinking })
      (show isName "text" = true by decide) text (setText text rfl) (show 2 ≤ n by omega) hcap
    exact ⟨_, u, he, rfl, rfl, rfl⟩
  | toolUse =>
    simp only [SessionMsg.readable, Bool.and_eq_true, Option.all_eq_true] at hm
    obtain ⟨⟨hid, hname⟩, hargs⟩ := hm
    simp only [writePayload, append_assoc] at hcap ⊢
    obtain ⟨n1, u1, hn1, hu1, he1⟩ := parseLoop_optField (k := 3) (m := { role := role, kind := .toolUse })
      (show isName "tool_use_id" = true by decide) id (fun s hs => specials_of_plain (hid s hs))
      (show 3 + 1 ≤ n by omega) hcap
    obtain ⟨n2, u2, hn2, hu2, he2⟩ := parseLoop_optField (k := 2)
      (m := setOpt "tool_use_id" id { role := role, kind := .toolUse })
      (show isName "tool_use_name" = true by decide) name (fun s hs => specials_of_plain (hname s hs)) hn1 hu1
    rw [setOpt_id id rfl] at he1 he2
    rw [setOpt_name name rfl] at he2
    obtain ⟨u3, he3⟩ := parseLoop_args
      (m := { role := role, kind := .toolUse, toolUseId := id, toolUseName := name }) args
      (fun s hs => (hargs s hs).1) rfl hn2 hu2
    exact ⟨_, u3, he1.trans (he2.trans he3), rfl, rfl, rfl, rfl, rfl⟩
  | toolResult =>
    simp only [SessionMsg.readable, Option.all_eq_true] at hm
    simp only [writePayload, append_assoc] at hcap ⊢
    obtain ⟨n1, u1, hn1, hu1, he1⟩ := parseLoop_optField (k := 3)
      (m := { role := role, kind := .toolResult }) (show isName "tool_result_id" = true by decide) rid
      (fun s hs => specials_of_plain (hm s hs)) (show 3 + 1 ≤ n by omega) hcap
    rw [setOpt_result rid rfl] at he1
    obtain ⟨n2, u2, hn2, hu2, he2⟩ := parseLoop_isError (k := 2)
      (m := { role := role, kind := .toolResult, toolResultId := rid }) err rfl hn1 hu1
    obtain ⟨u3, he3⟩ := parseLoop_last
      (m := { role := role, kind := .toolResult, toolResultId := rid, toolResultIsError := err })
      (show isName "output" = true by decide) out (setOutput out rfl) hn2 hu2
    exact ⟨_, u3, he1.trans (he2.trans he3), rfl, rfl, rfl, rfl, rfl⟩

end Libx.Agent
