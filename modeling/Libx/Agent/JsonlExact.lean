import Libx.Agent.JsonlRead

/-!
# Libx.Agent.JsonlExact — which messages come back from their lines
-/

namespace Libx.Agent

open List

variable {cap n used used' : ℕ} {src rest sp v w : Bytes} {m m' : SessionMsg}

/-! ### Inversion -/

/-- What a value is read from. -/
inductive ValueRead : Bytes → Value → Bytes → Prop
  | str {sp v rest : Bytes} : Spelling sp v → ValueRead (34 :: (sp ++ 34 :: rest)) (.str v) rest
  | lit {w rest : Bytes} {v : Value} : w ∈ [bytes "true", bytes "false", bytes "null"] →
      ((∃ b, v = .flag b) ∨ v = .null) → ValueRead (w ++ rest) v rest
  | raw {b : UInt8} {t v rest : Bytes} : v ++ rest = b :: t → isOther b = false →
      rawEnd (b :: t) = some rest → ValueRead (b :: t) (.raw v) rest

theorem rawEnd_rest (h : rawEnd src = some rest) : ∃ v, src = v ++ rest := by
  have hstr : ∀ (bs : Bytes) (q : Bool), ∃ v, bs = v ++ stringEnd q bs := by
    intro bs
    induction bs with
    | nil => exact fun _ => ⟨[], by simp [stringEnd]⟩
    | cons b bs ih =>
      have hcons : ∀ q, ∃ v, b :: bs = v ++ stringEnd q bs := by
        intro q
        obtain ⟨v, hv⟩ := ih q
        exact ⟨b :: v, congrArg (b :: ·) hv⟩
      intro q
      cases q with
      | true => exact hcons false
      | false =>
        rw [stringEnd]
        split_ifs
        · exact hcons true
        · exact ⟨[b], rfl⟩
        · exact hcons false
  cases src with
  | nil => simp [rawEnd] at h
  | cons b bs =>
    rw [rawEnd] at h
    split_ifs at h
    · obtain ⟨p, hp, -⟩ := bracketEnd_rest h
      exact ⟨p, hp⟩
    · obtain ⟨p, hp, -⟩ := bracketEnd_rest h
      exact ⟨p, hp⟩
    · injection h with h
      obtain ⟨p, hp⟩ := hstr bs false
      exact ⟨b :: p, by rw [← h]; exact congrArg (b :: ·) hp⟩
    · injection h with h
      exact ⟨(b :: bs).takeWhile (fun b => !isDelim b), by rw [← h, takeWhile_append_dropWhile]⟩

theorem matchLit_some {lit : String} (h : matchLit lit src = some rest) : src = bytes lit ++ rest := by
  unfold matchLit at h
  split_ifs at h with hp
  injection h with h
  rw [← h]
  exact (prefix_iff_eq_append.mp (List.isPrefixOf_iff_prefix.mp hp)).symm

theorem parseValue_inv {x : Value} (h : parseValue cap src used = some (x, rest, used')) :
    ValueRead src x rest := by
  unfold parseValue at h
  cases src with
  | nil => simp at h
  | cons b t =>
    dsimp only at h
    by_cases h1 : b = 34
    · rw [if_pos h1] at h
      obtain ⟨p, hp, he⟩ := Option.map_eq_some_iff.mp h
      obtain ⟨v, rest', u⟩ := p
      simp only [Prod.mk.injEq] at he
      obtain ⟨rfl, rfl, rfl⟩ := he
      obtain ⟨sp, hsp, hsrc, -, -⟩ := parseString_iff.mp hp
      rw [hsrc]
      exact .str hsp
    rw [if_neg h1] at h
    by_cases h2 : b = 116 ∨ b = 102 ∨ b = 110
    · rw [if_pos h2] at h
      split at h
      · next rest' hm =>
        injection h with h
        simp only [Prod.mk.injEq] at h
        obtain ⟨rfl, rfl, -⟩ := h
        rw [matchLit_some hm]
        exact .lit (by simp) (.inl ⟨_, rfl⟩)
      · next rest' _ hm =>
        injection h with h
        simp only [Prod.mk.injEq] at h
        obtain ⟨rfl, rfl, -⟩ := h
        rw [matchLit_some hm]
        exact .lit (by simp) (.inl ⟨_, rfl⟩)
      · next rest' _ _ hm =>
        injection h with h
        simp only [Prod.mk.injEq] at h
        obtain ⟨rfl, rfl, -⟩ := h
        rw [matchLit_some hm]
        exact .lit (by simp) (.inr rfl)
      · exact absurd h (by simp)
    · rw [if_neg h2] at h
      obtain ⟨p, hp, he⟩ := Option.map_eq_some_iff.mp h
      obtain ⟨v, rest', u⟩ := p
      simp only [Prod.mk.injEq] at he
      obtain ⟨rfl, rfl, rfl⟩ := he
      unfold parseRawValueIntoArena at hp
      split at hp
      · exact absurd hp (by simp)
      · next rest'' hend =>
        dsimp only at hp
        split_ifs at hp
        injection hp with hp
        simp only [Prod.mk.injEq] at hp
        obtain ⟨rfl, rfl, -⟩ := hp
        obtain ⟨v, hv⟩ := rawEnd_rest hend
        have htake : (b :: t).take ((b :: t).length - rest''.length) = v := by
          rw [hv, length_append, Nat.add_sub_cancel]
          exact take_left
        refine .raw (by rw [htake, hv]) ?_ hend
        simp only [not_or] at h2
        simp [isOther, h1, h2]

theorem ValueRead.rest_length {x : Value} (h : ValueRead src x rest) : rest.length ≤ src.length := by
  cases h with
  | str _ =>
    rw [length_cons, length_append, length_cons]
    omega
  | lit _ _ =>
    rw [length_append]
    omega
  | raw hv _ _ =>
    rw [← hv, length_append]
    omega

theorem ValueRead.raw_inv (h : ValueRead src (.raw v) rest) :
    v ++ rest = src ∧ rawEnd src = some rest ∧ ∀ b ∈ src.head?, isOther b = false := by
  cases h with
  | lit _ hx => simp at hx
  | @raw b _ _ _ hv hb hend =>
    refine ⟨hv, hend, fun c hc => ?_⟩
    have hc : c = b := by simpa using hc.symm
    rw [hc]
    exact hb

theorem skipColon_inv (h : skipColon src = some rest) :
    ∃ t, skipWs src = 58 :: t ∧ rest = skipWs t := by
  unfold skipColon at h
  split at h
  · exact absurd h (by simp)
  · next b t hs =>
    split_ifs at h with hb
    injection h with h
    exact ⟨t, by rw [hs, hb], h.symm⟩

theorem parseField_inv (h : parseField cap src used m = some (m', rest, used')) :
    ∃ sp key t t' x, Spelling sp key ∧ src = 34 :: (sp ++ 34 :: t) ∧ skipWs t = 58 :: t' ∧
      ValueRead (skipWs t') x rest ∧ m' = setField (cstr key).bytes x m := by
  unfold parseField at h
  split at h
  · exact absurd h (by simp)
  · next key t u hk =>
    split at h
    · exact absurd h (by simp)
    · next t2 hc =>
      split at h
      · exact absurd h (by simp)
      · next x rest' u' hv =>
        injection h with h
        simp only [Prod.mk.injEq] at h
        obtain ⟨rfl, rfl, rfl⟩ := h
        obtain ⟨sp, hsp, hsrc, -, -⟩ := parseString_iff.mp hk
        obtain ⟨t', ht, rfl⟩ := skipColon_inv hc
        exact ⟨sp, key, t, t', x, hsp, hsrc, ht, parseValue_inv hv, rfl⟩

theorem parseLoop_inv (h : parseLoop cap n false src used m = some (m', used')) :
    ∃ k, n = k + 1 ∧ ((∃ t, skipWs src = 125 :: t ∧ m' = m) ∨
      ∃ t m₁ rest u, skipWs src = 44 :: t ∧ parseField cap (skipWs t) used m = some (m₁, rest, u) ∧
        parseLoop cap k false rest u m₁ = some (m', used')) := by
  cases n with
  | zero => simp [parseLoop] at h
  | succ k =>
    refine ⟨k, rfl, ?_⟩
    rw [parseLoop] at h
    split at h
    · exact absurd h (by simp)
    · next b t hs =>
      by_cases hb : b = 125
      · rw [if_pos hb] at h
        injection h with h
        injection h with h _
        exact .inl ⟨t, by rw [hs, hb], h.symm⟩
      · rw [if_neg hb, if_neg (by simp)] at h
        split_ifs at h with hc
        split at h
        · exact absurd h (by simp)
        · next m₁ rest u hf => exact .inr ⟨t, m₁, rest, u, by rw [hs, hc], hf, h⟩

theorem skipWs_length (src : Bytes) : (skipWs src).length ≤ src.length :=
  (dropWhile_sublist isWs).length_le

/-! ### Tool calls: a count of bytes -/

/-- What a string field needs of a line: `k` bytes, the bytes of the value, and one for every escape. -/
def strWeight (k : ℕ) : Option CStr → ℕ
  | none => 0
  | some s => k + s.bytes.length + specials s.bytes

def argsWeight : Option CStr → ℕ
  | none => 0
  | some s => 17 + s.bytes.length

/-- What the fields of a tool call need of a line. -/
def weight (m : SessionMsg) : ℕ :=
  strWeight 17 m.toolUseId + strWeight 19 m.toolUseName + argsWeight m.toolUseArgs

theorem strWeight_cstr (k : ℕ) (v : Bytes) : strWeight k (some (cstr v)) ≤ k + v.length + specials v := by
  have h1 := (cstr_sublist v).length_le
  have h2 := (cstr_sublist v).countP_le (p := isSpecial)
  show k + (cstr v).bytes.length + specials (cstr v).bytes ≤ _
  unfold specials
  omega

theorem setField_weight {key : Bytes} {x : Value} (h : ValueRead src x rest) :
    weight (setField key x m) + rest.length ≤ weight m + (4 + key.length + src.length) ∧
      ((setField key x m).toolUseArgs = m.toolUseArgs ∨ ∃ v, x = .raw v ∧ key = bytes "tool_use_args" ∧
        (setField key x m).toolUseArgs = some (cstr v)) := by
  cases h with
  | @str sp v rest hsp =>
    have hle := hsp.length_le
    have h1 := strWeight_cstr 17 v
    have h2 := strWeight_cstr 19 v
    have h3 : (bytes "tool_use_id").length = 11 := rfl
    have h4 : (bytes "tool_use_name").length = 13 := rfl
    simp only [length_cons, length_append]
    unfold setField
    dsimp only
    split_ifs with _ _ _ hid hname
    · exact ⟨by show weight m + _ ≤ _; omega, .inl rfl⟩
    · exact ⟨by show weight m + _ ≤ _; omega, .inl rfl⟩
    · exact ⟨by show weight m + _ ≤ _; omega, .inl rfl⟩
    · refine ⟨?_, .inl rfl⟩
      show strWeight 17 (some (cstr v)) + strWeight 19 m.toolUseName + argsWeight m.toolUseArgs + _ ≤ _
      rw [hid]
      unfold weight
      omega
    · refine ⟨?_, .inl rfl⟩
      show strWeight 17 m.toolUseId + strWeight 19 (some (cstr v)) + argsWeight m.toolUseArgs + _ ≤ _
      rw [hname]
      unfold weight
      omega
    · exact ⟨by show weight m + _ ≤ _; omega, .inl rfl⟩
    · exact ⟨by show weight m + _ ≤ _; omega, .inl rfl⟩
    · exact ⟨by omega, .inl rfl⟩
  | @lit w rest x hw hx =>
    have hm : weight (setField key x m) = weight m ∧ (setField key x m).toolUseArgs = m.toolUseArgs := by
      rcases hx with ⟨b, rfl⟩ | rfl
      · unfold setField
        dsimp only
        split_ifs
        · exact ⟨rfl, rfl⟩
        · exact ⟨rfl, rfl⟩
      · exact ⟨rfl, rfl⟩
    rw [hm.1, length_append]
    exact ⟨by omega, .inl hm.2⟩
  | @raw b t v rest hv _ _ =>
    have hlen := congrArg List.length hv
    rw [length_append] at hlen
    have h5 : (bytes "tool_use_args").length = 13 := rfl
    have hle := (cstr_sublist v).length_le
    unfold setField
    dsimp only
    split_ifs with hk
    · refine ⟨?_, .inr ⟨v, rfl, hk, rfl⟩⟩
      rw [hk]
      unfold weight argsWeight
      dsimp only
      omega
    · exact ⟨by omega, .inl rfl⟩

theorem parseField_weight {m₁ : SessionMsg} (h : parseField cap src used m = some (m₁, rest, used')) :
    weight m₁ + rest.length ≤ weight m + src.length + 1 ∧
      (m₁.toolUseArgs = m.toolUseArgs ∨ ∃ s, m₁.toolUseArgs = some s ∧
        s.bytes.length + 16 + rest.length ≤ src.length) := by
  obtain ⟨sp, key, t, t', x, hsp, rfl, ht, hv, rfl⟩ := parseField_inv h
  obtain ⟨hw, ha⟩ := @setField_weight _ _ m (cstr key).bytes _ hv
  have hsp := hsp.length_le
  have hkey := (cstr_sublist key).length_le
  have h1 := skipWs_length t
  have h2 := skipWs_length t'
  rw [ht, length_cons] at h1
  simp only [length_cons, length_append]
  refine ⟨by omega, ?_⟩
  rcases ha with ha | ⟨v, rfl, hk, ha⟩
  · exact .inl ha
  · refine .inr ⟨_, ha, ?_⟩
    have hk := congrArg List.length hk
    have h3 : (bytes "tool_use_args").length = 13 := rfl
    have hle := (cstr_sublist v).length_le
    have hlen := congrArg List.length hv.raw_inv.1
    rw [length_append] at hlen
    omega

/-- **What is read has been there**: the fields of the result fit into the line, or were set before. -/
theorem parseLoop_weight (h : parseLoop cap n false src used m = some (m', used')) :
    weight m' + 1 ≤ weight m + src.length ∧
      (m'.toolUseArgs = m.toolUseArgs ∨ ∃ s, m'.toolUseArgs = some s ∧ s.bytes.length + 18 ≤ src.length) := by
  induction n generalizing src used m with
  | zero => simp [parseLoop] at h
  | succ n ih =>
    obtain ⟨k, hk, ⟨t, hs, rfl⟩ | ⟨t, m₁, rest, u, hs, hf, hl⟩⟩ := parseLoop_inv h
    · have hlen := skipWs_length src
      rw [hs, length_cons] at hlen
      exact ⟨by omega, .inl rfl⟩
    · injection hk with hk
      subst hk
      obtain ⟨hw, ha⟩ := ih hl
      obtain ⟨hw₁, ha₁⟩ := parseField_weight hf
      have h1 := skipWs_length src
      have h2 := skipWs_length t
      rw [hs, length_cons] at h1
      refine ⟨by omega, ?_⟩
      have hpos : rest ≠ [] := by
        rintro rfl
        obtain ⟨_, _, ⟨_, h, _⟩ | ⟨_, _, _, _, h, _⟩⟩ := parseLoop_inv hl
        · simp [skipWs] at h
        · simp [skipWs] at h
      have hpos := length_pos_iff.mpr hpos
      rcases ha with ha | ⟨s, ha, hlen⟩
      · rcases ha₁ with ha₁ | ⟨s, ha₁, hlen⟩
        · exact .inl (ha.trans ha₁)
        · exact .inr ⟨s, ha.trans ha₁, by omega⟩
      · refine .inr ⟨s, ha, ?_⟩
        have hrest : rest.length ≤ (skipWs t).length := by
          obtain ⟨sp, key, t1, t2, x, -, hsrc, ht, hv, -⟩ := parseField_inv hf
          have h3 := skipWs_length t1
          have h4 := skipWs_length t2
          rw [ht, length_cons] at h3
          have h5 := hv.rest_length
          rw [hsrc]
          simp only [length_cons, length_append]
          omega
        omega

theorem isWhole_of_rawEnd {args : Bytes} (h : rawEnd (args ++ [125]) = some [125])
    (hb : ∀ b ∈ (args ++ [125]).head?, isOther b = false) : isWhole args = true := by
  cases args with
  | nil => rfl
  | cons b bs =>
    have hother := hb b rfl
    have hbracket : ∀ o c, bracketEnd o c 0 .out (b :: bs ++ [125]) = some [125] →
        bracketEnd o c 0 .out (b :: bs) = some [] := by
      intro o c hend
      cases hs : bracketEnd o c 0 .out (b :: bs) with
      | none =>
        have := bracketEnd_beyond [125] hs hend
        simp at this
      | some r =>
        have happ := (bracketEnd_append [125] hs).symm.trans hend
        injection happ with happ
        have hlen := congrArg List.length happ
        rw [length_append] at hlen
        rw [length_eq_zero_iff.mp (show r.length = 0 by simpa using hlen)]
    rw [cons_append, rawEnd] at h
    rw [isWhole]
    split_ifs at h ⊢ with h1 h2 h3
    · simpa using hbracket _ _ h
    · simpa using hbracket _ _ h
    · rw [h3] at hother
      exact absurd hother (by decide)
    · injection h with h
      have hall : (b :: (bs ++ [125])).takeWhile (fun b => !isDelim b) = b :: bs := by
        have happ := takeWhile_append_dropWhile (p := fun b => !isDelim b) (l := b :: (bs ++ [125]))
        rw [h] at happ
        exact append_cancel_right (happ.trans (cons_append).symm)
      rw [Bool.and_eq_true, Bool.not_eq_true']
      refine ⟨hother, all_eq_true.mpr (fun x hx => ?_)⟩
      rw [← hall] at hx
      exact mem_takeWhile_imp (p := fun b => !isDelim b) hx

theorem isWhole_of_parseLoop {s : CStr} (hm : m.toolUseArgs = none)
    (hcap : used + (bytes "tool_use_args").length + 1 ≤ cap)
    (h : parseLoop cap n false (keyOf "tool_use_args" ++ (s.bytes ++ [125])) used m = some (m', used'))
    (ha : m'.toolUseArgs = some s) : isWhole s.bytes = true := by
  obtain ⟨k, rfl, -⟩ := parseLoop_inv h
  rw [parseLoop_key (by decide) hcap] at h
  obtain ⟨⟨x, rest, u⟩, hv, hl⟩ := Option.bind_eq_some_iff.mp h
  have hv := parseValue_inv hv
  have hlen := skipWs_length (s.bytes ++ [125])
  have hrest := hv.rest_length
  rw [length_append, length_singleton] at hlen
  obtain ⟨-, hargs | ⟨s', hs', hle⟩⟩ := parseLoop_weight hl
  swap
  · -- a later field of this length has no room
    rw [ha] at hs'
    injection hs' with hs'
    subst hs'
    dsimp only at hle
    omega
  rw [ha] at hargs
  obtain ⟨v, rfl, hv'⟩ : ∃ v, x = .raw v ∧ s = cstr v := by
    obtain ⟨-, h1 | ⟨v, rfl, -, h1⟩⟩ := @setField_weight _ _ m (bytes "tool_use_args") _ hv
    · rw [h1, hm] at hargs
      exact absurd hargs (by simp)
    · rw [h1] at hargs
      injection hargs with hargs
      exact ⟨v, rfl, hargs⟩
  obtain ⟨hsplit, hend, hhead⟩ := hv.raw_inv
  have hne : rest ≠ [] := by
    rintro rfl
    obtain ⟨_, _, ⟨_, h, _⟩ | ⟨_, _, _, _, h, _⟩⟩ := parseLoop_inv hl
    · simp [skipWs] at h
    · simp [skipWs] at h
  have hpos := length_pos_iff.mpr hne
  have hsub := (cstr_sublist v).length_le
  rw [← hv'] at hsub
  have hsum := congrArg List.length hsplit
  rw [length_append] at hsum
  -- nothing is skipped, and the value is all but the last byte
  have hsrc : skipWs (s.bytes ++ [125]) = s.bytes ++ [125] := by
    refine (List.dropWhile_suffix isWs).eq_of_length ?_
    show (skipWs (s.bytes ++ [125])).length = _
    rw [length_append, length_singleton]
    omega
  rw [hsrc] at hsplit hend hhead hsum
  rw [length_append, length_singleton] at hsum
  have hrest : rest = [125] := (append_inj' hsplit (by rw [length_singleton]; omega)).2
  rw [hrest] at hend
  exact isWhole_of_rawEnd hend hhead

/-- **The fields of a tool call that comes back need no escapes**, and its arguments are whole. -/
theorem toolUse_of_parseLoop (hk : m.kind = .toolUse) (hn : 4 ≤ n)
    (hcap : used + (writePayload m ++ [125]).length ≤ cap)
    (h : parseLoop cap n false (writePayload m ++ [125]) used { role := m.role, kind := m.kind } =
      some (m', used')) (ha : m.Agrees m') :
    (∀ s ∈ m.toolUseId, specials s.bytes = 0) ∧ (∀ s ∈ m.toolUseName, specials s.bytes = 0) ∧
      ∀ s ∈ m.toolUseArgs, isWhole s.bytes = true := by
  obtain ⟨role, kind, text, id, name, args, rid, out, err⟩ := m
  have hk : kind = .toolUse := hk
  subst hk
  obtain ⟨-, -, h1, h2, h3⟩ := ha
  have h1 : m'.toolUseId = id := h1
  have h2 : m'.toolUseName = name := h2
  have h3 : m'.toolUseArgs = args := h3
  have hspecials : (∀ s ∈ id, specials s.bytes = 0) ∧ ∀ s ∈ name, specials s.bytes = 0 := by
    obtain ⟨hw, -⟩ := parseLoop_weight h
    simp only [writePayload, length_append, length_singleton, weight, h1, h2, h3] at hw
    have hid : ∀ s ∈ id, (optField (strField "tool_use_id") id).length + specials s.bytes =
        strWeight 17 id := by
      rintro s rfl
      show (strField "tool_use_id" s.bytes).length + specials s.bytes = 17 + s.bytes.length + specials s.bytes
      rw [length_strField, show (bytes "tool_use_id").length = 11 from rfl]
      omega
    have hname : ∀ s ∈ name, (optField (strField "tool_use_name") name).length + specials s.bytes =
        strWeight 19 name := by
      rintro s rfl
      show (strField "tool_use_name" s.bytes).length + specials s.bytes =
        19 + s.bytes.length + specials s.bytes
      rw [length_strField, show (bytes "tool_use_name").length = 13 from rfl]
      omega
    have hargs : (optField (fun a => keyOf "tool_use_args" ++ a) args).length = argsWeight args := by
      cases args with
      | none => rfl
      | some s =>
        show (keyOf "tool_use_args" ++ s.bytes).length = 17 + s.bytes.length
        rw [length_append, length_keyOf]
        rfl
    have hidle : (optField (strField "tool_use_id") id).length ≤ strWeight 17 id := by
      cases id with
      | none => exact le_rfl
      | some s =>
        have := hid s rfl
        omega
    have hnamele : (optField (strField "tool_use_name") name).length ≤ strWeight 19 name := by
      cases name with
      | none => exact le_rfl
      | some s =>
        have := hname s rfl
        omega
    have h0 : strWeight 17 (none : Option CStr) + strWeight 19 none + argsWeight none = 0 := rfl
    refine ⟨fun s hs => ?_, fun s hs => ?_⟩
    · have := hid s hs
      omega
    · have := hname s hs
      omega
  refine ⟨hspecials.1, hspecials.2, ?_⟩
  rintro s rfl
  simp only [writePayload, append_assoc] at hcap h
  obtain ⟨n1, u1, hn1, hu1, he1⟩ := parseLoop_optField (k := 3) (m := { role := role, kind := .toolUse })
    (show isName "tool_use_id" = true by decide) id hspecials.1 (show 3 + 1 ≤ n by omega) hcap
  obtain ⟨n2, u2, hn2, hu2, he2⟩ := parseLoop_optField (k := 2)
    (m := setOpt "tool_use_id" id { role := role, kind := .toolUse })
    (show isName "tool_use_name" = true by decide) name hspecials.2 hn1 hu1
  rw [he1, he2, setOpt_id id rfl, setOpt_name name rfl] at h
  have hsrc : optField (fun a => keyOf "tool_use_args" ++ a) (some s) ++ [125] =
      keyOf "tool_use_args" ++ (s.bytes ++ [125]) := append_assoc _ _ _
  rw [hsrc] at h hu2
  rw [length_append, length_keyOf] at hu2
  exact isWhole_of_parseLoop rfl (by omega) h h3

/-! ### Results: no second id behind the first -/

theorem hexVal_none {h1 h2 h3 h4 : UInt8} {k : ℕ} (h : hexVal 0 [h1, h2, h3, h4] = some k) :
    h1 ≠ 34 ∧ h2 ≠ 34 ∧ h3 ≠ 34 ∧ h4 ≠ 34 := by
  have hq : ∀ (v : ℕ) (hs : Bytes), hexVal v (34 :: hs) = none := fun _ _ => rfl
  have hcons : ∀ (v : ℕ) (h : UInt8) (hs : Bytes) (k : ℕ), hexVal v (h :: hs) = some k →
      h ≠ 34 ∧ ∃ v', hexVal v' hs = some k := by
    intro v h hs k hk
    refine ⟨?_, ?_⟩
    · rintro rfl
      rw [hq] at hk
      exact absurd hk (by simp)
    · rw [hexVal] at hk
      split at hk
      · exact absurd hk (by simp)
      · exact ⟨_, hk⟩
  obtain ⟨g1, v1, k1⟩ := hcons _ _ _ _ h
  obtain ⟨g2, v2, k2⟩ := hcons _ _ _ _ k1
  obtain ⟨g3, v3, k3⟩ := hcons _ _ _ _ k2
  exact ⟨g1, g2, g3, (hcons _ _ _ _ k3).1⟩

variable {X tail : Bytes}

/-- Where a string ends that is read from a source with a quote in it: before the quote, at it, or behind
it. -/
theorem spelling_split (h : Spelling sp v) (he : sp ++ 34 :: rest = X ++ 34 :: tail) :
    (∃ X', X = sp ++ 34 :: X' ∧ rest = X' ++ 34 :: tail) ∨ X = sp ∧ rest = tail ∨
      ∃ sp' v', Spelling sp' v' ∧ tail = sp' ++ 34 :: rest := by
  induction h generalizing X with
  | nil =>
    cases X with
    | nil =>
      injection he with _ he
      exact .inr (.inl ⟨rfl, he⟩)
    | cons b X =>
      injection he with hb he
      exact .inl ⟨X, by rw [← hb]; rfl, he⟩
  | @cons w sp v b hw hsp ih =>
    rw [append_assoc] at he
    have hpre : ∀ X', X = w ++ X' → sp ++ 34 :: rest = X' ++ 34 :: tail →
        (∃ X', X = w ++ sp ++ 34 :: X' ∧ rest = X' ++ 34 :: tail) ∨ X = w ++ sp ∧ rest = tail ∨
          ∃ sp' v', Spelling sp' v' ∧ tail = sp' ++ 34 :: rest := by
      rintro X' rfl he'
      rcases ih he' with ⟨X'', rfl, h2⟩ | ⟨rfl, h2⟩ | h3
      · exact .inl ⟨X'', by rw [append_assoc], h2⟩
      · exact .inr (.inl ⟨rfl, h2⟩)
      · exact .inr (.inr h3)
    rcases append_eq_append_iff.mp he with ⟨p, hX, hp⟩ | ⟨p, hw', hp⟩
    · exact hpre p hX hp
    · -- the quote is among the bytes of one escape
      cases p with
      | nil => exact hpre [] (by simpa using hw'.symm) hp.symm
      | cons q p =>
        injection hp with hq hp
        subst hq
        cases hw with
        | plain b h1 h2 =>
          exfalso
          have h34 : (34 : UInt8) ∈ [b] := hw' ▸ (by simp)
          exact h1 (mem_singleton.mp h34).symm
        | escaped e b h1 h2 =>
          match X, hw' with
          | [], hw' => simp at hw'
          | [x], hw' =>
            have hp0 : 92 = x ∧ e = 34 ∧ p = [] := by simpa using hw'
            have hp : tail = p ++ (sp ++ 34 :: rest) := hp
            rw [hp0.2.2, nil_append] at hp
            exact .inr (.inr ⟨sp, v, hsp, hp⟩)
          | _ :: _ :: X, hw' => simp at hw'
        | hex h1 h2 h3 h4 k hv =>
          exfalso
          obtain ⟨g1, g2, g3, g4⟩ := hexVal_none hv
          have h34 : (34 : UInt8) ∈ [92, 117, h1, h2, h3, h4] := hw' ▸ (by simp)
          simp [Ne.symm g1, Ne.symm g2, Ne.symm g3, Ne.symm g4] at h34

/-- No key in the source can be the id of a result: behind a comma and blanks no quote is followed by the
byte `t` or a backslash.  The flag tells that a comma and blanks have just been read. -/
def inert : Bool → Bytes → Bool
  | _, [] => true
  | q, b :: bs =>
    (!(q && b = 34) || bs.head?.all (fun c => c ≠ 116 && c ≠ 92)) && inert (b = 44 || (q && isWs b)) bs

theorem inert_mono : ∀ {src : Bytes}, inert true src = true → inert false src = true
  | [], _ => rfl
  | b :: bs, h => by
    rw [inert, Bool.and_eq_true] at h
    rw [inert, Bool.and_eq_true]
    refine ⟨by simp, ?_⟩
    cases hb : (decide (b = 44) : Bool) with
    | true =>
      rw [hb, Bool.true_or] at h
      rw [Bool.true_or]
      exact h.2
    | false =>
      rw [Bool.false_or, Bool.false_and]
      have h2 : inert (isWs b) bs = true := by simpa only [hb, Bool.false_or, Bool.true_and] using h.2
      cases hws : isWs b with
      | true =>
        rw [hws] at h2
        exact inert_mono h2
      | false =>
        rw [hws] at h2
        exact h2

theorem inert_rest {q : Bool} : ∀ {p : Bytes}, inert q (p ++ rest) = true → inert false rest = true := by
  intro p
  induction p generalizing q with
  | nil =>
    intro h
    cases q with
    | false => exact h
    | true => exact inert_mono h
  | cons b p ih =>
    intro h
    rw [cons_append, inert, Bool.and_eq_true] at h
    exact ih h.2

theorem inert_skipWs : ∀ {src : Bytes}, inert true src = true → inert true (skipWs src) = true
  | [], h => h
  | b :: bs, h => by
    by_cases hb : isWs b = true
    · rw [skipWs, dropWhile_cons_of_pos hb]
      rw [inert, Bool.and_eq_true, hb, Bool.and_self, Bool.or_true] at h
      exact inert_skipWs h.2
    · rw [skipWs_cons (by simpa using hb)]
      exact h

theorem inert_spelling (h : Spelling sp v) (hrest : ∀ q, inert q rest = true) :
    ∀ q, inert q (sp ++ rest) = true := by
  induction h with
  | nil => exact hrest
  | @cons w sp v b hw _ ih =>
    intro q
    rw [append_assoc]
    cases hw with
    | plain b h1 h2 => simp [inert, h1, ih]
    | escaped e b h1 h2 => simp [inert, isWs, ih]
    | hex h1 h2 h3 h4 k hv =>
      obtain ⟨g1, g2, g3, g4⟩ := hexVal_none hv
      simp [inert, isWs, g1, g2, g3, g4, ih]

theorem setField_resultId {key : Bytes} {x : Value} (h : key ≠ bytes "tool_result_id" ∨ ∀ v, x ≠ .str v) :
    (setField key x m).toolResultId = m.toolResultId := by
  cases x with
  | str v =>
    have hk : key ≠ bytes "tool_result_id" := h.resolve_right (fun hv => hv v rfl)
    unfold setField
    dsimp only
    split_ifs <;> rfl
  | flag b | raw v =>
    unfold setField
    dsimp only
    split_ifs <;> rfl
  | null => rfl

theorem spelling_head {key : Bytes} (h : Spelling sp key)
    (hk : (cstr key).bytes = bytes "tool_result_id") : ∃ c t, sp = c :: t ∧ (c = 116 ∨ c = 92) := by
  cases h with
  | nil => exact absurd hk (by decide)
  | @cons w sp v b hw _ =>
    have hb : b = 116 := by
      have hk : (b :: v).takeWhile (fun c => c ≠ 0) = 116 :: (bytes "tool_result_id").tail := hk
      rw [takeWhile_cons] at hk
      split_ifs at hk
      injection hk
    cases hw with
    | plain b h1 h2 => exact ⟨b, sp, rfl, .inl hb⟩
    | escaped e b h1 h2 => exact ⟨92, e :: sp, rfl, .inr rfl⟩
    | hex h1 h2 h3 h4 k hv => exact ⟨92, 117 :: h1 :: h2 :: h3 :: h4 :: sp, rfl, .inr rfl⟩

theorem skipWs_append (src : Bytes) : ∃ p, src = p ++ skipWs src :=
  ⟨src.takeWhile isWs, takeWhile_append_dropWhile.symm⟩

theorem parseField_rest {m₁ : SessionMsg} {u : ℕ} (h : parseField cap src used m = some (m₁, rest, u)) :
    ∃ p, src = p ++ rest := by
  obtain ⟨sp, key, t, t', x, -, rfl, ht, hv, -⟩ := parseField_inv h
  obtain ⟨p1, h1⟩ := skipWs_append t
  obtain ⟨p2, h2⟩ := skipWs_append t'
  obtain ⟨p3, h3⟩ : ∃ p, skipWs t' = p ++ rest := by
    generalize skipWs t' = src at hv
    cases hv with
    | @str sp v rest _ => exact ⟨34 :: (sp ++ [34]), by simp⟩
    | @lit w _ _ _ _ => exact ⟨w, rfl⟩
    | @raw _ _ v _ hv _ _ => exact ⟨v, hv.symm⟩
  rw [ht] at h1
  exact ⟨34 :: (sp ++ 34 :: (p1 ++ 58 :: (p2 ++ p3))), by rw [h1, h2, h3]; simp⟩

/-- **An inert source sets no id.** -/
theorem parseLoop_inert (hi : inert false src = true)
    (h : parseLoop cap n false src used m = some (m', used')) : m'.toolResultId = m.toolResultId := by
  induction n generalizing src used m with
  | zero => simp [parseLoop] at h
  | succ n ih =>
    obtain ⟨k, hk, ⟨t, hs, rfl⟩ | ⟨t, m₁, rest, u, hs, hf, hl⟩⟩ := parseLoop_inv h
    · rfl
    · injection hk with hk
      subst hk
      obtain ⟨p, hp⟩ := skipWs_append src
      rw [hs] at hp
      rw [hp] at hi
      have ht : inert true t = true := by
        have := inert_rest hi
        rw [inert, Bool.and_eq_true] at this
        exact this.2
      have ht := inert_skipWs ht
      have hrest : inert false rest = true := by
        obtain ⟨p', hp'⟩ := parseField_rest hf
        rw [hp'] at ht
        exact inert_rest ht
      rw [ih hrest hl]
      obtain ⟨sp, key, t1, t2, x, hsp, hsrc, -, -, rfl⟩ := parseField_inv hf
      refine setField_resultId (.inl (fun hk => ?_))
      obtain ⟨c, sp', rfl, hc⟩ := spelling_head hsp hk
      rw [hsrc, inert, Bool.and_eq_true] at ht
      have hq := ht.1
      rcases hc with rfl | rfl
      · simp at hq
      · simp at hq

/-- What stands behind the id of a result: its own quote is left out. -/
structure Behind (tail : Bytes) : Prop where
  inert : inert false tail = true
  next : tail = [125] ∨ ∃ b t, tail = 44 :: 34 :: b :: t ∧ (b = 105 ∨ b = 111)

theorem Behind.cross (h : Behind tail) (hsp : Spelling sp v) (he : tail = sp ++ 34 :: rest) :
    ∃ b t, rest = b :: t ∧ (b = 105 ∨ b = 111) := by
  rcases h.next with hn | ⟨b, t, hn, hb⟩
  · rw [hn] at he
    cases sp with
    | nil | cons c sp => simp at he
  · rw [hn] at he
    cases hsp with
    | nil => simp at he
    | @cons w sp v c hw hsp =>
      rw [append_assoc] at he
      cases hw with
      | plain c h1 h2 =>
        injection he with _ he
        have he : 34 :: b :: t = sp ++ 34 :: rest := he
        cases hsp with
        | nil =>
          injection he with _ he
          exact ⟨b, t, he.symm, hb⟩
        | @cons w sp v d hw _ =>
          cases hw with
          | plain d h1 h2 =>
            injection he with hd _
            exact absurd hd.symm h1
          | escaped e d h1 h2 | hex g1 g2 g3 g4 k hv =>
            injection he with hd _
            exact absurd hd (by decide)
      | escaped e c h1 h2 | hex g1 g2 g3 g4 k hv =>
        injection he with hd _
        exact absurd hd (by decide)

theorem parseLoop_stuck {b : UInt8} {t : Bytes} (hb : b = 105 ∨ b = 111) :
    parseLoop cap n false (b :: t) used m = none := by
  cases h : parseLoop cap n false (b :: t) used m with
  | none => rfl
  | some p =>
    have hws : skipWs (b :: t) = b :: t := skipWs_cons (by rcases hb with rfl | rfl <;> decide)
    obtain ⟨_, _, ⟨_, hs, _⟩ | ⟨_, _, _, _, hs, _⟩⟩ := parseLoop_inv h
    all_goals
      rw [hws] at hs
      injection hs with hs _
      rcases hb with rfl | rfl
      · exact absurd hs (by decide)
      · exact absurd hs (by decide)

theorem skipWs_quote : skipWs (X ++ 34 :: tail) = skipWs X ++ 34 :: tail := by
  by_cases hX : ∀ b ∈ X, isWs b = true
  · have h0 : skipWs X = [] := dropWhile_eq_nil_iff.mpr hX
    rw [h0, skipWs, dropWhile_append_of_pos hX]
    exact skipWs_cons (by decide)
  · have h0 : skipWs X ≠ [] := fun h => hX (dropWhile_eq_nil_iff.mp h)
    unfold skipWs at h0 ⊢
    rw [dropWhile_append, if_neg (by simpa using h0)]

theorem skipWs_split {t : Bytes} {c : UInt8} (hc : c ≠ 34) (h : skipWs (X ++ 34 :: tail) = c :: t) :
    ∃ X', t = X' ++ 34 :: tail ∧ X'.length < X.length := by
  have hX := skipWs_length X
  rw [skipWs_quote] at h
  cases hskip : skipWs X with
  | nil =>
    rw [hskip] at h
    injection h with h _
    exact absurd h.symm hc
  | cons d X' =>
    rw [hskip] at h hX
    injection h with _ h
    exact ⟨X', h.symm, hX⟩

theorem quote_split {w : Bytes} (h : w ++ rest = X ++ 34 :: tail) :
    (∃ X', rest = X' ++ 34 :: tail ∧ X'.length ≤ X.length) ∨ ∃ p, tail = p ++ rest := by
  rcases append_eq_append_iff.mp h with ⟨p, hX, hp⟩ | ⟨p, -, hp⟩
  · have hlen := congrArg List.length hX
    rw [length_append] at hlen
    exact .inl ⟨p, hp, by omega⟩
  · cases p with
    | nil => exact .inl ⟨[], hp.symm, Nat.zero_le _⟩
    | cons q p =>
      injection hp with _ hp
      exact .inr ⟨p, hp⟩

theorem Behind.string (hb : Behind tail) (hsp : Spelling sp v)
    (he : X ++ 34 :: tail = 34 :: (sp ++ 34 :: rest)) (hrest : ∀ b t, rest = b :: t → ¬ (b = 105 ∨ b = 111)) :
    sp.length ≤ X.length ∧ ((∃ X', rest = X' ++ 34 :: tail ∧ X'.length ≤ X.length) ∨ rest = tail) := by
  have hcross : ∀ sp' v', Spelling sp' v' → tail ≠ sp' ++ 34 :: rest := by
    intro sp' v' hsp' htail
    obtain ⟨b, t, hbt, hio⟩ := hb.cross hsp' htail
    exact hrest b t hbt hio
  cases X with
  | nil =>
    injection he with _ he
    exact absurd he (hcross sp v hsp)
  | cons c X =>
    injection he with _ he
    rcases spelling_split hsp he.symm with ⟨X', rfl, h2⟩ | ⟨rfl, rfl⟩ | ⟨sp', v', hsp', h2⟩
    · simp only [length_cons, length_append]
      exact ⟨by omega, .inl ⟨X', h2, by omega⟩⟩
    · exact ⟨by simp, .inr rfl⟩
    · exact absurd h2 (hcross sp' v' hsp')

/-- **Behind the id**: whatever the rest `X` of an id holds, an id that is set there is no longer than
`X`. -/
theorem parseLoop_behind (hb : Behind tail)
    (h : parseLoop cap n false (X ++ 34 :: tail) used m = some (m', used')) :
    m'.toolResultId = m.toolResultId ∨
      ∃ s, m'.toolResultId = some s ∧ s.bytes.length ≤ X.length := by
  induction n generalizing X used m with
  | zero => simp [parseLoop] at h
  | succ n ih =>
    obtain ⟨k, hk, ⟨t, hs, rfl⟩ | ⟨t, m₁, rest, u, hs, hf, hl⟩⟩ := parseLoop_inv h
    · exact .inl rfl
    injection hk with hk
    subst hk
    -- the comma
    obtain ⟨X2, rfl, hX2⟩ := skipWs_split (by decide) hs
    rw [skipWs_quote] at hf
    have hX3 := skipWs_length X2
    -- the key
    obtain ⟨sp, key, t1, t2, x, hsp, hsrc, hcol, hv, rfl⟩ := parseField_inv hf
    have hnot : ∀ b t, t1 = b :: t → isWs b = false → b = 58 := by
      rintro b t rfl hws
      rw [skipWs_cons hws] at hcol
      injection hcol
    obtain ⟨-, ⟨X5, rfl, hX5⟩ | rfl⟩ := hb.string hsp hsrc fun b t hbt hio => by
      rcases hio with rfl | rfl
      all_goals exact absurd (hnot _ t hbt (by decide)) (by decide)
    swap
    · exfalso
      rcases hb.next with hn | ⟨b, t, hn, -⟩
      all_goals exact absurd (hnot _ _ hn (by decide)) (by decide)
    -- the colon
    obtain ⟨X6, rfl, hX6⟩ := skipWs_split (by decide) hcol
    rw [skipWs_quote] at hv
    have hX8 := skipWs_length X6
    -- the value
    have hinert : ∀ p, tail = p ++ rest → m'.toolResultId = (setField (cstr key).bytes x m).toolResultId :=
      fun p hp => parseLoop_inert (inert_rest (hp ▸ hb.inert)) hl
    have hset : (∀ v, x ≠ .str v) → (setField (cstr key).bytes x m).toolResultId = m.toolResultId :=
      fun hx => setField_resultId (.inr hx)
    have hrec : ∀ X', rest = X' ++ 34 :: tail → X'.length ≤ X.length →
        m'.toolResultId = (setField (cstr key).bytes x m).toolResultId ∨
          ∃ s, m'.toolResultId = some s ∧ s.bytes.length ≤ X.length := by
      rintro X' rfl hle
      rcases ih hl with h1 | ⟨s, h1, h2⟩
      · exact .inl h1
      · exact .inr ⟨s, h1, h2.trans hle⟩
    have hother : ∀ w, w ++ rest = skipWs X6 ++ 34 :: tail → (∀ v, x ≠ .str v) →
        m'.toolResultId = m.toolResultId ∨ ∃ s, m'.toolResultId = some s ∧ s.bytes.length ≤ X.length := by
      intro w hw hx
      rw [← hset hx]
      obtain ⟨X', hr, hle⟩ | ⟨p, hp⟩ := quote_split hw
      · exact hrec X' hr (by omega)
      · exact .inl (hinert p hp)
    generalize hsrc8 : skipWs X6 ++ 34 :: tail = src8 at hv
    cases hv with
    | @str sp8 v rest hsp8 =>
      obtain ⟨hle8, hend⟩ := hb.string hsp8 hsrc8 fun b t hbt hio => by
        rw [hbt, parseLoop_stuck hio] at hl
        exact absurd hl (by simp)
      have hle := hsp8.length_le
      have hstr : (setField (cstr key).bytes (.str v) m).toolResultId = m.toolResultId ∨
          ∃ s, (setField (cstr key).bytes (.str v) m).toolResultId = some s ∧ s.bytes.length ≤ X.length := by
        by_cases hk : (cstr key).bytes = bytes "tool_result_id"
        · refine .inr ⟨cstr v, ?_, (cstr_sublist v).length_le.trans (by omega)⟩
          rw [hk]
          rfl
        · exact .inl (setField_resultId (.inl hk))
      rcases hend with ⟨X', hr, hle'⟩ | rfl
      · rcases hrec X' hr (by omega) with h3 | h3
        · rw [h3]
          exact hstr
        · exact .inr h3
      · rw [hinert [] rfl]
        exact hstr
    | @lit w rest x hw hx => exact hother w hsrc8.symm (by rcases hx with ⟨b, rfl⟩ | rfl <;> simp)
    | @raw b t v rest hraw _ _ => exact hother v (hraw.trans hsrc8.symm) (by simp)

def resultTail (isError : Bool) (output : Bytes) : Bytes :=
  (if isError then keyOf "is_error" ++ bytes "true" else []) ++
    ((if output = [] then [] else strField "output" (writeJsonStr output)) ++ [125])

theorem behind_resultTail (isError : Bool) (output : Bytes) : Behind (resultTail isError output) := by
  have hend : ∀ q, inert q [34, 125] = true := by decide
  have hout : ∀ out, inert false (strField "output" (writeJsonStr out) ++ [125]) = true := by
    intro out
    have hsrc : strField "output" (writeJsonStr out) ++ [125] =
        keyOf "output" ++ 34 :: (writeJsonStr out ++ [34, 125]) := by simp [strField]
    have hstep : inert false (keyOf "output" ++ 34 :: (writeJsonStr out ++ [34, 125])) =
        inert false (writeJsonStr out ++ [34, 125]) := rfl
    rw [hsrc, hstep]
    exact inert_spelling (spelling_writeJsonStr out) hend false
  have herr : ∀ rest, inert false (keyOf "is_error" ++ bytes "true" ++ rest) = inert false rest :=
    fun _ => rfl
  unfold resultTail
  by_cases ho : output = []
  · rw [if_pos ho, nil_append]
    cases isError with
    | false => exact ⟨by decide, .inl rfl⟩
    | true => exact ⟨by decide, .inr ⟨105, _, rfl, .inl rfl⟩⟩
  · rw [if_neg ho]
    cases isError with
    | false => exact ⟨hout output, .inr ⟨111, _, rfl, .inr rfl⟩⟩
    | true =>
      refine ⟨?_, .inr ⟨105, _, rfl, .inl rfl⟩⟩
      rw [if_pos rfl, herr]
      exact hout output

/-- **The id of a result that comes back needs no escapes.** -/
theorem toolResult_of_parseLoop (hk : m.kind = .toolResult)
    (hcap : used + (writePayload m ++ [125]).length ≤ cap)
    (h : parseLoop cap n false (writePayload m ++ [125]) used { role := m.role, kind := m.kind } =
      some (m', used')) (ha : m.Agrees m') : ∀ s ∈ m.toolResultId, specials s.bytes = 0 := by
  obtain ⟨role, kind, text, id, name, args, rid, out, err⟩ := m
  have hk : kind = .toolResult := hk
  subst hk
  obtain ⟨-, -, hid, -, -⟩ := ha
  rintro s rfl
  have hid : m'.toolResultId = some s := hid
  have hsrc : writePayload ⟨role, .toolResult, text, id, name, args, some s, out, err⟩ ++ [125] =
      keyOf "tool_result_id" ++ 34 :: (s.bytes ++ 34 :: resultTail err out) := by
    simp [writePayload, optField, strField, resultTail]
  rw [hsrc] at h hcap
  rw [length_append, length_keyOf] at hcap
  have hb := behind_resultTail err out
  generalize resultTail err out = tail at h hb
  obtain ⟨k, rfl, -⟩ := parseLoop_inv h
  rw [parseLoop_key (by decide) (by omega), skipWs_cons (by decide)] at h
  obtain ⟨⟨x, rest, u⟩, hv, hl⟩ := Option.bind_eq_some_iff.mp h
  dsimp only at hl
  obtain ⟨sp, v, hsp, hx, hsplit⟩ : ∃ sp v, Spelling sp v ∧ x = .str v ∧
      s.bytes ++ 34 :: tail = sp ++ 34 :: rest := by
    unfold parseValue at hv
    dsimp only at hv
    rw [if_pos rfl] at hv
    obtain ⟨⟨v, rest', u'⟩, hp, he⟩ := Option.map_eq_some_iff.mp hv
    simp only [Prod.mk.injEq] at he
    obtain ⟨rfl, rfl, rfl⟩ := he
    obtain ⟨sp, hsp, hs, -, -⟩ := parseString_iff.mp hp
    injection hs with _ hs
    exact ⟨sp, v, hsp, rfl, hs⟩
  subst hx
  have hle := hsp.length_le
  have hsub := cstr_sublist v
  have hset : (setField (bytes "tool_result_id") (.str v)
      { role := role, kind := .toolResult }).toolResultId = some (cstr v) := rfl
  rcases spelling_split hsp hsplit.symm with ⟨X', hX, rfl⟩ | ⟨hX, rfl⟩ | ⟨sp', v', hsp', hX⟩
  · -- the value ends within the id, and what comes later is shorter still
    exfalso
    have hlen := congrArg List.length hX
    rw [length_append, length_cons] at hlen
    rcases parseLoop_behind hb hl with h1 | ⟨s', h1, h2⟩
    · rw [hset, hid] at h1
      injection h1 with h1
      have := hsub.length_le
      rw [← h1] at this
      omega
    · rw [hid] at h1
      injection h1 with h1
      rw [← h1] at h2
      omega
  · -- the value is read from the id itself
    have h1 := parseLoop_inert hb.inert hl
    rw [hset, hid] at h1
    injection h1 with h1
    have hlen := hsub.length_le
    have hcount := hsub.countP_le (p := isSpecial)
    rw [← h1] at hlen hcount
    have hX := congrArg List.length hX
    unfold specials at hle ⊢
    omega
  · obtain ⟨b, t, rfl, hbt⟩ := hb.cross hsp' hX
    rw [parseLoop_stuck hbt] at hl
    exact absurd hl (by simp)

/-! ### Lines -/

theorem newline_escapeByte (c : UInt8) : (10 : UInt8) ∉ escapeByte c := by
  unfold escapeByte
  split_ifs with h1 h2 h3 h4 h5 h6
  · decide
  · decide
  · decide
  · decide
  · decide
  · have hdigit : ∀ k < 32, (10 : UInt8) ≠ hexDigit (UInt8.ofNat k / 16) ∧
        (10 : UInt8) ≠ hexDigit (UInt8.ofNat k % 16) := by decide
    have := hdigit c.toNat h6
    rw [UInt8.ofNat_toNat] at this
    simp only [mem_append, mem_cons, not_mem_nil, or_false, not_or]
    exact ⟨by decide, this.1, this.2⟩
  · simpa using Ne.symm h3

theorem newline_writeJsonStr (t : Bytes) : (10 : UInt8) ∉ writeJsonStr t := by
  intro h
  obtain ⟨c, -, hc⟩ := mem_flatMap.mp h
  exact newline_escapeByte c hc

theorem newline_lineBody (ts : ℕ) (m : SessionMsg) :
    (10 : UInt8) ∈ lineBody ts m ↔ (10 : UInt8) ∈ writePayload m := by
  have hts : (10 : UInt8) ∉ decimal ts := by
    intro h
    have := (decimal_digit ts 10 h).1
    exact absurd this (by decide)
  have hrole : (10 : UInt8) ∉ strField "role" (roleToStr m.role) := by
    cases m.role <;> decide
  have hkind : (10 : UInt8) ∉ strField "kind" (kindToStr m.kind) := by
    cases m.kind <;> decide
  have hhead : (10 : UInt8) ∉ 123 :: 34 :: bytes "ts" := by decide
  unfold lineBody
  simp only [cons_append, append_assoc] at hhead ⊢
  simp only [mem_cons, mem_append, not_mem_nil, or_false, not_or] at hhead ⊢
  constructor
  · rintro (h | h | h | h | h | h | h | h | h | h)
    all_goals first
      | exact h
      | exact absurd h (by decide)
      | exact absurd h hts
      | exact absurd h hrole
      | exact absurd h hkind
  · intro h
    simp [h]

theorem newline_writePayload (m : SessionMsg) : (10 : UInt8) ∈ writePayload m ↔
    match m.kind with
    | .text | .thinking => False
    | .toolUse => (∃ s ∈ m.toolUseId, (10 : UInt8) ∈ s.bytes) ∨ (∃ s ∈ m.toolUseName, (10 : UInt8) ∈ s.bytes) ∨
        ∃ s ∈ m.toolUseArgs, (10 : UInt8) ∈ s.bytes
    | .toolResult => ∃ s ∈ m.toolResultId, (10 : UInt8) ∈ s.bytes := by
  have hopt : ∀ (name : String) (o : Option CStr), (10 : UInt8) ∉ keyOf name →
      ((10 : UInt8) ∈ optField (strField name) o ↔ ∃ s ∈ o, (10 : UInt8) ∈ s.bytes) := by
    intro name o hname
    cases o with
    | none => simp [optField]
    | some s => simp [optField, strField, hname]
  have hesc : ∀ (name : String) (t : Bytes), (10 : UInt8) ∉ keyOf name →
      (10 : UInt8) ∉ (if t = [] then [] else strField name (writeJsonStr t)) := by
    intro name t hname
    have := newline_writeJsonStr t
    split_ifs
    · simp
    · simp [strField, hname, this]
  obtain ⟨role, kind, text, id, name, args, rid, out, err⟩ := m
  cases kind with
  | text | thinking => exact iff_of_false (hesc "text" text (by decide)) not_false
  | toolUse =>
    have hargs : (10 : UInt8) ∈ optField (fun a => keyOf "tool_use_args" ++ a) args ↔
        ∃ s ∈ args, (10 : UInt8) ∈ s.bytes := by
      have hkey : (10 : UInt8) ∉ keyOf "tool_use_args" := by decide
      cases args with
      | none => simp [optField]
      | some s => simp [optField, hkey]
    simp only [writePayload, mem_append, hopt "tool_use_id" id (by decide),
      hopt "tool_use_name" name (by decide), hargs, or_assoc]
  | toolResult =>
    have herr : (10 : UInt8) ∉ (if err then keyOf "is_error" ++ bytes "true" else []) := by
      cases err <;> decide
    simp only [writePayload, mem_append, hopt "tool_result_id" rid (by decide), herr,
      hesc "output" out (by decide), or_false]

/-- One line, and it decodes to what was written. -/
def Decodes (cap used ts : ℕ) (m : SessionMsg) : Prop :=
  ∃ body, writeMsgLine ts m = body ++ [10] ∧ (10 : UInt8) ∉ body ∧
    ∃ m' used', parseLine cap body used = some (m', used') ∧ m.Agrees m'

/-- **A message decodes from its line exactly when it is readable**, whatever its stamp is, in an arena
with a byte of room for every byte of the line. -/
theorem decodes_iff {ts : ℕ} (hcap : used + (writeMsgLine ts m).length ≤ cap) :
    Decodes cap used ts m ↔ m.readable = true := by
  have hcap' : used + (lineBody ts m).length ≤ cap := by
    unfold writeMsgLine at hcap
    rw [length_append] at hcap
    omega
  obtain ⟨n, u, hn, hu, hline⟩ := parseLine_lineBody ts m hcap'
  have hplain : ∀ s : Bytes, s.all isPlain = true ↔ specials s = 0 ∧ (10 : UInt8) ∉ s := by
    intro s
    constructor
    · intro h
      refine ⟨specials_of_plain h, fun h10 => ?_⟩
      exact absurd (all_eq_true.mp h 10 h10) (by decide)
    · rintro ⟨h0, h10⟩
      refine all_eq_true.mpr (fun b hb => ?_)
      have := countP_eq_zero.mp h0 b hb
      have hne : b ≠ 10 := fun h => h10 (h ▸ hb)
      simp [isPlain, this, hne]
  constructor
  · rintro ⟨body, hbody, h10, m', u', hp, ha⟩
    have hbody : lineBody ts m = body := append_cancel_right hbody
    subst hbody
    rw [newline_lineBody, newline_writePayload] at h10
    rw [hline] at hp
    unfold SessionMsg.readable
    cases hk : m.kind with
    | text | thinking => rfl
    | toolUse =>
      rw [hk] at h10
      simp only [not_or, not_exists, not_and] at h10
      obtain ⟨h1, h2, h3⟩ := toolUse_of_parseLoop hk hn hu hp ha
      simp only [Bool.and_eq_true, Option.all_eq_true]
      refine ⟨⟨fun s hs => ?_, fun s hs => ?_⟩, fun s hs => ?_⟩
      · exact (hplain _).mpr ⟨h1 s hs, h10.1 s hs⟩
      · exact (hplain _).mpr ⟨h2 s hs, h10.2.1 s hs⟩
      · simp [h3 s hs, h10.2.2 s hs]
    | toolResult =>
      rw [hk] at h10
      simp only [not_exists, not_and] at h10
      have h1 := toolResult_of_parseLoop hk hu hp ha
      simp only [Option.all_eq_true]
      exact fun s hs => (hplain _).mpr ⟨h1 s hs, h10 s hs⟩
  · intro hm
    obtain ⟨m', u', hp, ha⟩ := parseLoop_writePayload hm hn hu
    refine ⟨lineBody ts m, rfl, ?_, m', u', hline.trans hp, ha⟩
    rw [newline_lineBody, newline_writePayload]
    unfold SessionMsg.readable at hm
    cases hk : m.kind with
    | text | thinking => simp
    | toolUse =>
      rw [hk] at hm
      simp only [Bool.and_eq_true, Option.all_eq_true] at hm
      obtain ⟨⟨h1, h2⟩, h3⟩ := hm
      rintro (⟨s, hs, h10⟩ | ⟨s, hs, h10⟩ | ⟨s, hs, h10⟩)
      · exact ((hplain _).mp (h1 s hs)).2 h10
      · exact ((hplain _).mp (h2 s hs)).2 h10
      · simp at h3
        exact absurd h10 (h3 s hs).2
    | toolResult =>
      rw [hk] at hm
      simp only [Option.all_eq_true] at hm
      rintro ⟨s, hs, h10⟩
      exact ((hplain _).mp (hm s hs)).2 h10

/-- A tool call with an object for its arguments. -/
def weatherCall : SessionMsg where
  role := .assistant
  kind := .toolUse
  toolUseId := some (cstr (bytes "c1"))
  toolUseName := some (cstr (bytes "weather"))
  toolUseArgs := some (cstr (bytes "\x7b\"at\":[1,2]\x7d"))

theorem decodes_weatherCall : Decodes 4096 0 7 weatherCall :=
  (decodes_iff (by decide +kernel)).mpr (by decide)

def quotedCall : SessionMsg :=
  { weatherCall with toolUseId := some (cstr (bytes "c\"1")) }

/-- The quote ends the id's string, and what stands behind it is no comma. -/
theorem not_decodes_quotedCall :
    0 + (writeMsgLine 7 quotedCall).length ≤ 4096 ∧ ¬ Decodes 4096 0 7 quotedCall := by
  refine ⟨by decide +kernel, ?_⟩
  rintro ⟨body, hbody, -, m', used', hp, -⟩
  have hbody : lineBody 7 quotedCall = body := append_cancel_right hbody
  subst hbody
  have hnone : parseLine 4096 (lineBody 7 quotedCall) 0 = none := by decide +kernel
  rw [hnone] at hp
  exact absurd hp (by simp)

end Libx.Agent
