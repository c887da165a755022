import Libx.Agent.JsonlExact
import Libx.Core.SinceLast

/-!
# Libx.Agent.JsonlRetrieve — reading the end of a history back

`jsonl_retrieve_` looks for the last line with a summary's role by its bytes, without parsing: the
arguments of a tool call, which are printed as they are given, may hold these bytes too.
-/

namespace Libx.Agent

open Libx.Core List

/-! ### The scan -/

/-- A line, and what stands behind it in the buffer. -/
structure Span where
  line : Bytes
  after : Bytes

/-- A line without the carriage returns at its end. -/
def trimCr (raw : Bytes) : Bytes := (raw.reverse.dropWhile (fun b => b = 13)).reverse

/-- The lines of a file that are not blank; every round takes at least a byte. -/
def spansLoop : ℕ → Bytes → List Span
  | 0, _ => []
  | _ + 1, [] => []
  | n + 1, b :: src =>
    let raw := (b :: src).takeWhile (fun c => c ≠ 10)
    let rest := (b :: src).drop raw.length
    let line := trimCr raw
    if line = [] then spansLoop n (rest.drop 1)
    else ⟨line, raw.drop line.length ++ rest⟩ :: spansLoop n (rest.drop 1)

def spans (content : Bytes) : List Span := spansLoop content.length content

def marker : Bytes := bytes "\"role\":\"summary\""

/-- The scan of one line: the last place it tries is a byte too far, and the last byte it compares there
is the one behind the line (a NUL behind the file). -/
def Span.found (s : Span) : Bool :=
  (List.range (s.line.length + 1 - 15)).any (fun j => marker.isPrefixOf (s.line.drop j ++ s.after ++ [0]))

/-- Where the window starts: at the last line that is found, unless the cap starts it behind that. -/
def takeFrom (cap : ℕ) (ss : List Span) : ℕ :=
  let from_ := if ss.length > cap then ss.length - cap else 0
  match lastIdx Span.found ss with
  | some k => if k > from_ then k else from_
  | none => from_

/-! ### The window -/

def arenaCap (lines : List Bytes) : ℕ := (lines.map List.length).sum * 2 + 32

/-- The lines of the window, one behind the other; a line that does not parse gives its room back. -/
def parseWindow (cap : ℕ) : List Bytes → ℕ → List SessionMsg
  | [], _ => []
  | line :: lines, used =>
    match parseLine cap line used with
    | some (m, used) => m :: parseWindow cap lines used
    | none => parseWindow cap lines used

def dropBefore (ms : List SessionMsg) : List SessionMsg :=
  match lastIdx (fun m => m.role = .summary) ms with
  | some k => ms.drop k
  | none => ms

/-- `xAgentMemoryQuery`: `recent_turn` and `session_id` by whether they are NULL. -/
structure MemoryQuery where
  hasSession : Bool := true
  recentTurn : Bool := false
  maxEntries : ℕ := 0

/-- `XAGENT_MEMORY_JSONL_DEFAULT_MAX_ENTRIES`. -/
def jsonlDefaultMaxEntries : ℕ := 64

/-- The cap of a call: the caller's, or the store's. -/
def resolveCap (defaultMaxEntries : ℕ) (q : MemoryQuery) : ℕ :=
  let cap := if q.maxEntries ≠ 0 then q.maxEntries else defaultMaxEntries
  if cap = 0 then jsonlDefaultMaxEntries else cap

def windowLines (cap : ℕ) (content : Bytes) : List Bytes :=
  ((spans content).drop (takeFrom cap (spans content))).map Span.line

def retrieveFrom (cap : ℕ) (content : Bytes) : List SessionMsg :=
  let lines := windowLines cap content
  dropBefore (parseWindow (arenaCap lines) lines 0)

/-- `jsonl_retrieve_` on a store with room for what it allocates; `file` is the session's, if there is
one. -/
def jsonlRetrieve (defaultMaxEntries : ℕ) (q : MemoryQuery) (file : Option Bytes) : Errno × List SessionMsg :=
  if !q.hasSession then (.invalidArg, [])
  else if q.recentTurn then (.ok, [])
  else match file with
  | none => (.ok, [])
  | some content => (.ok, retrieveFrom (resolveCap defaultMaxEntries q) content)

/-! ### Where the scan finds its bytes -/

variable {cap cap' n used used' : ℕ} {src rest sp v w : Bytes} {m m' : SessionMsg}

def markerTail : Bytes := bytes "role\":\"summary\""

theorem marker_eq : marker = 34 :: markerTail := rfl

theorem infix_skip {b : UInt8} (hb : b ≠ 34) : marker <:+: b :: src ↔ marker <:+: src := by
  rw [infix_cons_iff, or_iff_right]
  intro h
  rw [marker_eq, cons_prefix_cons] at h
  exact hb h.1.symm

theorem infix_skips (hp : (34 : UInt8) ∉ w) : marker <:+: w ++ src ↔ marker <:+: src := by
  induction w with
  | nil => exact Iff.rfl
  | cons b w ih =>
    rw [mem_cons, not_or] at hp
    rw [cons_append, infix_skip (Ne.symm hp.1), ih hp.2]

theorem infix_quote (h : ¬ markerTail <+: src) : marker <:+: 34 :: src ↔ marker <:+: src := by
  rw [infix_cons_iff, or_iff_right]
  intro hp
  rw [marker_eq, cons_prefix_cons] at hp
  exact h hp.2

/-- **A string and its closing quote**: what starts like a word and a quote is that word. -/
theorem prefix_spelling {t : Bytes} (h : Spelling sp v) (hw : ∀ b ∈ w, b ≠ 34 ∧ b ≠ 92)
    (hp : w ++ 34 :: t <+: sp ++ 34 :: rest) : sp = w ∧ t <+: rest := by
  induction h generalizing w with
  | nil =>
    cases w with
    | nil => exact ⟨rfl, (cons_prefix_cons.mp hp).2⟩
    | cons b w =>
      have hb := (cons_prefix_cons.mp hp).1
      exact absurd hb (hw b mem_cons_self).1
  | @cons x sp v b hx hsp ih =>
    have hesc : ∀ y z : Bytes, ¬ w ++ 34 :: t <+: (92 :: y) ++ z := by
      intro y z hp
      cases w with
      | nil => exact absurd (cons_prefix_cons.mp hp).1 (by decide)
      | cons c w => exact absurd (cons_prefix_cons.mp hp).1 (hw c mem_cons_self).2
    cases hx with
    | plain b h1 h2 =>
      cases w with
      | nil => exact absurd (cons_prefix_cons.mp hp).1 (Ne.symm h1)
      | cons c w =>
        obtain ⟨hc, hp⟩ := cons_prefix_cons.mp hp
        obtain ⟨he, ht⟩ := ih (fun d hd => hw d (mem_cons_of_mem c hd)) hp
        exact ⟨by rw [he, hc]; rfl, ht⟩
    | escaped e b _ _ => exact absurd hp (hesc [e] _)
    | hex h1 h2 h3 h4 k _ => exact absurd hp (hesc [117, h1, h2, h3, h4] _)

theorem role_plain : ∀ b ∈ bytes "role", b ≠ 34 ∧ b ≠ 92 := by
  have h : (bytes "role").all (fun b => decide (b ≠ 34 ∧ b ≠ 92)) = true := by decide
  intro b hb
  exact of_decide_eq_true (all_eq_true.mp h b hb)

theorem not_prefix_spelling (h : Spelling sp v) (hrest : ∀ b ∈ rest.head?, b ≠ 58) :
    ¬ markerTail <+: sp ++ 34 :: rest := by
  intro hp
  obtain ⟨-, ht⟩ := prefix_spelling (t := bytes ":\"summary\"") h role_plain hp
  cases rest with
  | nil => exact absurd ht.length_le (by decide)
  | cons b rest => exact hrest b rfl (cons_prefix_cons.mp ht).1.symm

/-- **A string value**: the marker is not in it, and not across its end. -/
theorem infix_spelling (h : Spelling sp v) (hrest : ∀ b ∈ rest.head?, b ≠ 58) :
    marker <:+: sp ++ 34 :: rest ↔ marker <:+: 34 :: rest := by
  induction h with
  | nil => exact Iff.rfl
  | @cons x sp v b hx hsp ih =>
    rw [append_assoc, ← ih]
    cases hx with
    | plain b h1 h2 => exact infix_skip h1
    | escaped e b _ _ =>
      show marker <:+: 92 :: e :: (sp ++ 34 :: rest) ↔ _
      rw [infix_skip (by decide)]
      by_cases he : e = 34
      · rw [he]
        exact infix_quote (not_prefix_spelling hsp hrest)
      · exact infix_skip he
    | hex h1 h2 h3 h4 k hk =>
      obtain ⟨g1, g2, g3, g4⟩ := hexVal_none hk
      exact infix_skips (w := [92, 117, h1, h2, h3, h4]) (by simp [g1.symm, g2.symm, g3.symm, g4.symm])

def Follows (src : Bytes) : Prop := ∀ b ∈ src.head?, b = 44 ∨ b = 125

theorem infix_string (h : Spelling sp v) (hrest : Follows rest) :
    marker <:+: 34 :: (sp ++ 34 :: rest) ↔ marker <:+: rest := by
  have hhead : ∀ b ∈ rest.head?, b ≠ 58 := by
    intro b hb
    rcases hrest b hb with rfl | rfl <;> decide
  rw [infix_quote (not_prefix_spelling h hhead), infix_spelling h hhead, infix_quote]
  intro hp
  cases rest with
  | nil => exact absurd hp.length_le (by decide)
  | cons b rest =>
    have hb := (cons_prefix_cons.mp hp).1
    rcases hrest b rfl with rfl | rfl
    · exact absurd hb (by decide)
    · exact absurd hb (by decide)

variable {name : String}

theorem infix_keyOf (hname : (bytes name).all (fun b => b ≠ 34 && b ≠ 92) = true)
    (hne : bytes name ≠ bytes "role") : marker <:+: keyOf name ++ src ↔ marker <:+: src := by
  have hplain : ∀ b ∈ bytes name, b ≠ 34 ∧ b ≠ 92 := by
    intro b hb
    simpa using all_eq_true.mp hname b hb
  have hsp : Spelling (bytes name) (bytes name) := by
    refine spelling_plain (countP_eq_zero.mpr fun b hb => ?_)
    simpa [isSpecial] using hplain b hb
  have hkey : keyOf name ++ src = 44 :: 34 :: (bytes name ++ 34 :: 58 :: src) := by simp [keyOf]
  rw [hkey, infix_skip (by decide), infix_quote, infix_skips (fun h => (hplain 34 h).1 rfl), infix_quote,
    infix_skip (by decide)]
  · intro hp
    exact absurd (cons_prefix_cons.mp hp).1 (by decide)
  · intro hp
    exact hne (prefix_spelling hsp role_plain hp).1

theorem infix_strField (hname : (bytes name).all (fun b => b ≠ 34 && b ≠ 92) = true)
    (hne : bytes name ≠ bytes "role") (h : Spelling sp v) (hrest : Follows rest) :
    marker <:+: strField name sp ++ rest ↔ marker <:+: rest := by
  have hfield : strField name sp ++ rest = keyOf name ++ 34 :: (sp ++ 34 :: rest) := by simp [strField]
  rw [hfield, infix_keyOf hname hne, infix_string h hrest]

theorem follows_end : Follows [125] := by
  intro b hb
  exact .inr (Option.some.inj hb).symm

theorem follows_keyOf (name : String) (src : Bytes) : Follows (keyOf name ++ src) := by
  intro b hb
  exact .inl (Option.some.inj hb).symm

theorem follows_optField (name : String) {field : Bytes → Bytes} (hfield : ∀ v, ∃ t, field v = keyOf name ++ t)
    (o : Option CStr) (h : Follows src) : Follows (optField field o ++ src) := by
  cases o with
  | none => exact h
  | some s =>
    obtain ⟨t, ht⟩ := hfield s.bytes
    show Follows (field s.bytes ++ src)
    rw [ht, append_assoc]
    exact follows_keyOf name _

theorem follows_optStrField (name : String) (o : Option CStr) (h : Follows src) :
    Follows (optField (strField name) o ++ src) :=
  follows_optField name (fun v => ⟨34 :: v ++ [34], by simp [strField]⟩) o h

theorem follows_strField (name : String) (v src : Bytes) : Follows (strField name v ++ src) := by
  intro b hb
  exact .inl (Option.some.inj hb).symm

theorem follows_escaped (name : String) (t : Bytes) (h : Follows src) :
    Follows ((if t = [] then [] else strField name (writeJsonStr t)) ++ src) := by
  split_ifs
  · exact h
  · exact follows_strField name _ src

theorem infix_optField (hname : (bytes name).all (fun b => b ≠ 34 && b ≠ 92) = true)
    (hne : bytes name ≠ bytes "role") {o : Option CStr} (ho : o.all (fun s => s.bytes.all isPlain) = true)
    (hrest : Follows rest) : marker <:+: optField (strField name) o ++ rest ↔ marker <:+: rest := by
  cases o with
  | none => exact Iff.rfl
  | some s => exact infix_strField hname hne (spelling_plain (specials_of_plain ho)) hrest

theorem infix_escaped (hname : (bytes name).all (fun b => b ≠ 34 && b ≠ 92) = true)
    (hne : bytes name ≠ bytes "role") (t : Bytes) (hrest : Follows rest) :
    marker <:+: (if t = [] then [] else strField name (writeJsonStr t)) ++ rest ↔ marker <:+: rest := by
  split_ifs
  · exact Iff.rfl
  · exact infix_strField hname hne (spelling_writeJsonStr t) hrest

/-- The arguments of a tool call hold the bytes that are looked for. -/
def SessionMsg.quotes (m : SessionMsg) : Bool :=
  m.kind = .toolUse && m.toolUseArgs.any (fun s => decide (marker <:+: s.bytes))

theorem not_infix_end : ¬ marker <:+: [125] := by decide

theorem infix_writePayload (hm : m.readable = true) : marker <:+: writePayload m ++ [125] ↔ m.quotes = true := by
  unfold writePayload SessionMsg.quotes
  unfold SessionMsg.readable at hm
  cases hk : m.kind with
  | text | thinking =>
    rw [infix_escaped (by decide) (by decide) m.text follows_end]
    exact iff_of_false not_infix_end nofun
  | toolUse =>
    rw [hk] at hm
    rw [Bool.and_eq_true, Bool.and_eq_true] at hm
    have hargs : Follows (optField (fun args => keyOf "tool_use_args" ++ args) m.toolUseArgs ++ [125]) :=
      follows_optField "tool_use_args" (fun v => ⟨v, rfl⟩) _ follows_end
    have hname : Follows (optField (strField "tool_use_name") m.toolUseName ++
        (optField (fun args => keyOf "tool_use_args" ++ args) m.toolUseArgs ++ [125])) :=
      follows_optStrField "tool_use_name" m.toolUseName hargs
    rw [append_assoc, append_assoc, infix_optField (by decide) (by decide) hm.1.1 hname,
      infix_optField (by decide) (by decide) hm.1.2 hargs]
    cases m.toolUseArgs with
    | none => exact iff_of_false not_infix_end nofun
    | some s =>
      show marker <:+: (keyOf "tool_use_args" ++ s.bytes) ++ [125] ↔ decide (marker <:+: s.bytes) = true
      rw [append_assoc, infix_keyOf (by decide) (by decide), decide_eq_true_iff, infix_concat_iff,
        or_iff_right]
      rintro ⟨t, ht⟩
      have hlast := congrArg List.getLast? ht
      rw [List.getLast?_concat, List.getLast?_append_of_ne_nil t (by decide)] at hlast
      exact absurd hlast (by decide)
  | toolResult =>
    rw [hk] at hm
    have hout := follows_escaped "output" m.toolResultOutput follows_end
    have herr : Follows ((if m.toolResultIsError then keyOf "is_error" ++ bytes "true" else []) ++
        ((if m.toolResultOutput = [] then [] else strField "output" (writeJsonStr m.toolResultOutput)) ++
          [125])) := by
      cases m.toolResultIsError with
      | false => exact hout
      | true => exact follows_keyOf "is_error" _
    rw [append_assoc, append_assoc, infix_optField (by decide) (by decide) hm herr]
    have hskip : ∀ x, marker <:+: (if m.toolResultIsError then keyOf "is_error" ++ bytes "true" else []) ++ x ↔
        marker <:+: x := by
      intro x
      cases m.toolResultIsError with
      | false => exact Iff.rfl
      | true =>
        show marker <:+: (keyOf "is_error" ++ bytes "true") ++ x ↔ _
        rw [append_assoc, infix_keyOf (by decide) (by decide), infix_skips (by decide)]
    rw [hskip, infix_escaped (by decide) (by decide) m.toolResultOutput follows_end]
    exact iff_of_false not_infix_end nofun

/-- **The lines the scan finds**: those with the role, and those whose arguments hold its bytes. -/
theorem infix_lineBody (ts : ℕ) (hm : m.readable = true) :
    marker <:+: lineBody ts m ↔ m.role = .summary ∨ m.quotes = true := by
  have hdec : (34 : UInt8) ∉ decimal ts := fun h => absurd (decimal_digit ts 34 h).1 (by decide)
  have hrest : marker <:+: strField "kind" (kindToStr m.kind) ++ (writePayload m ++ [125]) ↔ m.quotes = true := by
    rw [← infix_writePayload hm]
    refine infix_strField (by decide) (by decide) (spelling_plain (specials_kindToStr m.kind)) ?_
    unfold writePayload
    cases m.kind with
    | text | thinking => exact follows_escaped "text" m.text follows_end
    | toolUse =>
      rw [append_assoc, append_assoc]
      exact follows_optStrField "tool_use_id" _
        (follows_optStrField "tool_use_name" _
          (follows_optField "tool_use_args" (fun v => ⟨v, rfl⟩) _ follows_end))
    | toolResult =>
      rw [append_assoc, append_assoc]
      refine follows_optStrField "tool_result_id" _ ?_
      cases m.toolResultIsError with
      | false => exact follows_escaped "output" m.toolResultOutput follows_end
      | true => exact follows_keyOf "is_error" _
  have hbody : lineBody ts m = 123 :: 34 :: (bytes "ts" ++ 34 :: 58 :: (decimal ts ++
      44 :: (34 :: (bytes "role" ++ 34 :: 58 :: 34 :: (roleToStr m.role ++
        34 :: (strField "kind" (kindToStr m.kind) ++ (writePayload m ++ [125]))))))) := by
    simp [lineBody, strField, keyOf]
  have hkind : Follows (strField "kind" (kindToStr m.kind) ++ (writePayload m ++ [125])) := follows_strField _ _ _
  have hts : marker <:+: lineBody ts m ↔ marker <:+: 34 :: (bytes "role" ++ 34 :: 58 :: 34 :: (roleToStr m.role ++
      34 :: (strField "kind" (kindToStr m.kind) ++ (writePayload m ++ [125])))) := by
    rw [hbody, infix_skip (by decide), infix_quote, infix_skips (by decide), infix_quote, infix_skip (by decide),
      infix_skips hdec, infix_skip (by decide)]
    all_goals exact fun hp => absurd (cons_prefix_cons.mp hp).1 (by decide)
  rw [hts]
  by_cases hr : m.role = .summary
  · rw [hr]
    exact iff_of_true (List.IsPrefix.isInfix ⟨_, rfl⟩) (.inl rfl)
  rw [or_iff_right hr, ← hrest, infix_quote, infix_skips (by decide), infix_quote, infix_skip (by decide),
    infix_string (spelling_plain (specials_roleToStr m.role)) hkind]
  · exact fun hp => absurd (cons_prefix_cons.mp hp).1 (by decide)
  · intro hp
    -- the first two letters tell the roles apart
    have hpre : ∀ K, bytes "role\":\"" ++ (roleToStr m.role).take 2 <+:
        bytes "role" ++ 34 :: 58 :: 34 :: (roleToStr m.role ++ K) := by
      intro K
      cases m.role <;> exact ⟨_, rfl⟩
    have hlen : (bytes "role\":\"" ++ (roleToStr m.role).take 2).length ≤ markerTail.length := by
      cases m.role <;> decide
    have hshort := prefix_of_prefix_length_le (hpre _) hp hlen
    cases hrole : m.role with
    | summary => exact hr hrole
    | _ => rw [hrole] at hshort; exact absurd hshort (by decide)

/-! ### The arena -/

theorem parseString_used (h : parseStringIntoArena cap src used = some (v, rest, used')) :
    used' + 1 + rest.length ≤ used + src.length := by
  obtain ⟨sp, hsp, rfl, rfl, -⟩ := parseString_iff.mp h
  have hle := hsp.length_le
  rw [length_cons, length_append, length_cons]
  omega

theorem parseString_mono (h : used + src.length ≤ cap')
    (hs : parseStringIntoArena cap src used = some (v, rest, used')) :
    parseStringIntoArena cap' src used = some (v, rest, used') := by
  have hu := parseString_used hs
  obtain ⟨sp, hsp, hsrc, hused, -⟩ := parseString_iff.mp hs
  exact parseString_iff.mpr ⟨sp, hsp, hsrc, hused, by omega⟩

theorem rawEnd_length (h : rawEnd src = some rest) : rest.length ≤ src.length := by
  obtain ⟨v, rfl⟩ := rawEnd_rest h
  rw [length_append]
  omega

theorem parseRaw_used (h : parseRawValueIntoArena cap src used = some (v, rest, used')) :
    used' + rest.length ≤ used + src.length + 1 := by
  unfold parseRawValueIntoArena at h
  split at h
  · exact absurd h nofun
  next rest' hend =>
  have hle := rawEnd_length hend
  dsimp only at h
  split_ifs at h
  injection h with h
  obtain ⟨-, rfl, rfl⟩ := h
  rw [length_take]
  omega

theorem parseRaw_mono (h : used + src.length < cap')
    (hs : parseRawValueIntoArena cap src used = some (v, rest, used')) :
    parseRawValueIntoArena cap' src used = some (v, rest, used') := by
  unfold parseRawValueIntoArena at hs ⊢
  split at hs
  · exact absurd hs nofun
  next rest' hend =>
  dsimp only at hs ⊢
  split_ifs at hs with hroom
  rw [if_neg (by rw [length_take]; omega)]
  exact hs

/-- **A value** takes a byte more of the arena than of the line at most. -/
theorem parseValue_used {x : Value} (h : parseValue cap src used = some (x, rest, used')) :
    used' + rest.length ≤ used + src.length + 1 := by
  have hlen := (parseValue_inv h).rest_length
  unfold parseValue at h
  split at h
  · exact absurd h nofun
  split_ifs at h
  · obtain ⟨⟨v, r, u⟩, hp, he⟩ := Option.map_eq_some_iff.mp h
    obtain ⟨-, rfl, rfl⟩ := he
    have := parseString_used hp
    omega
  · split at h
    · injection h with h
      simp only [Prod.mk.injEq] at h
      omega
    · injection h with h
      simp only [Prod.mk.injEq] at h
      omega
    · injection h with h
      simp only [Prod.mk.injEq] at h
      omega
    · exact absurd h nofun
  · obtain ⟨⟨v, r, u⟩, hp, he⟩ := Option.map_eq_some_iff.mp h
    obtain ⟨-, rfl, rfl⟩ := he
    exact parseRaw_used hp

theorem parseValue_mono {x : Value} (h : used + src.length < cap')
    (hv : parseValue cap src used = some (x, rest, used')) : parseValue cap' src used = some (x, rest, used') := by
  unfold parseValue at hv ⊢
  split at hv
  · exact absurd hv nofun
  split_ifs at hv ⊢
  · obtain ⟨⟨v, r, u⟩, hp, he⟩ := Option.map_eq_some_iff.mp hv
    rw [parseString_mono (Nat.le_of_lt h) hp]
    exact congrArg some he
  · exact hv
  · obtain ⟨⟨v, r, u⟩, hp, he⟩ := Option.map_eq_some_iff.mp hv
    rw [parseRaw_mono h hp]
    exact congrArg some he

/-- **A field** takes no more of the arena than of the line: its key takes less. -/
theorem parseField_room (cap' : ℕ) (hf : parseField cap src used m = some (m', rest, used')) :
    used' + rest.length ≤ used + src.length ∧
      (used + src.length ≤ cap' → parseField cap' src used m = some (m', rest, used')) := by
  unfold parseField at hf ⊢
  split at hf
  · exact absurd hf nofun
  next key src₁ u₁ hkey =>
  split at hf
  · exact absurd hf nofun
  next src₂ hcolon =>
  split at hf
  · exact absurd hf nofun
  next x src₃ u₃ hvalue =>
  have h1 := parseString_used hkey
  have h2 : src₂.length + 1 ≤ src₁.length := by
    obtain ⟨t, ht, rfl⟩ := skipColon_inv hcolon
    have hlen := skipWs_length src₁
    rw [ht, length_cons] at hlen
    have := skipWs_length t
    omega
  have h3 := parseValue_used hvalue
  injection hf with hf
  obtain ⟨rfl, rfl, rfl⟩ := hf
  refine ⟨by omega, fun h => ?_⟩
  rw [parseString_mono h hkey]
  dsimp only
  rw [hcolon]
  dsimp only
  rw [parseValue_mono (by omega) hvalue]

theorem parseLoop_room (cap' : ℕ) {first : Bool} (hl : parseLoop cap n first src used m = some (m', used')) :
    used' ≤ used + src.length ∧
      (used + src.length ≤ cap' → parseLoop cap' n first src used m = some (m', used')) := by
  induction n generalizing first src used m with
  | zero => simp [parseLoop] at hl
  | succ n ih =>
    rw [parseLoop] at hl ⊢
    have hlen := skipWs_length src
    split at hl
    · cases hl
    next b bs hsrc =>
    rw [hsrc, length_cons] at hlen
    have hbs := skipWs_length bs
    split_ifs at hl ⊢
    · injection hl with hl
      injection hl with hm hu
      subst hm hu
      exact ⟨by omega, fun _ => rfl⟩
    · split at hl
      · cases hl
      next m₁ src₁ u₁ hfield =>
      obtain ⟨h1, h2⟩ := parseField_room cap' hfield
      rw [length_cons] at h1 h2
      obtain ⟨h3, h4⟩ := ih hl
      refine ⟨by omega, fun h => ?_⟩
      rw [h2 (by omega)]
      exact h4 (by omega)
    · split at hl
      · cases hl
      next m₁ src₁ u₁ hfield =>
      obtain ⟨h1, h2⟩ := parseField_room cap' hfield
      obtain ⟨h3, h4⟩ := ih hl
      refine ⟨by omega, fun h => ?_⟩
      rw [h2 (by omega)]
      exact h4 (by omega)

/-- **A line** takes no more of the arena than it has bytes. -/
theorem parseLine_room (cap' : ℕ) (h : parseLine cap src used = some (m', used')) :
    used' ≤ used + src.length ∧ (used + src.length ≤ cap' → parseLine cap' src used = some (m', used')) := by
  unfold parseLine at h ⊢
  have hlen := skipWs_length src
  split at h
  · exact absurd h nofun
  next b bs hsrc =>
  rw [hsrc, length_cons] at hlen
  split_ifs at h ⊢
  obtain ⟨h1, h2⟩ := parseLoop_room cap' h
  exact ⟨by omega, fun h => h2 (by omega)⟩

/-- **The arena never runs out**: with room for the lines that are left, more room reads nothing more. -/
theorem parseWindow_room {lines : List Bytes} (h : used + (lines.map List.length).sum ≤ cap)
    (h' : used + (lines.map List.length).sum ≤ cap') : parseWindow cap lines used = parseWindow cap' lines used := by
  induction lines generalizing used with
  | nil => rfl
  | cons line lines ih =>
    rw [map_cons, sum_cons] at h h'
    have hsame : parseLine cap line used = parseLine cap' line used := by
      refine Option.ext fun p => ⟨fun hp => ?_, fun hp => ?_⟩
      all_goals exact (parseLine_room _ hp).2 (by omega)
    rw [parseWindow, parseWindow, ← hsame]
    cases hp : parseLine cap line used with
    | none => exact ih (by omega) (by omega)
    | some p =>
      have hu := (parseLine_room cap' hp).1
      exact congrArg (p.1 :: ·) (ih (by omega) (by omega))

/-! ### A written file -/

/-- The file of a list of messages with their stamps. -/
def fileOf (es : List (ℕ × SessionMsg)) : Bytes := es.flatMap (fun e => writeMsgLine e.1 e.2)

def bodyOf (e : ℕ × SessionMsg) : Bytes := lineBody e.1 e.2

theorem trimCr_concat {b : UInt8} (hb : b ≠ 13) (xs : Bytes) : trimCr (xs ++ [b]) = xs ++ [b] := by
  unfold trimCr
  rw [reverse_concat, dropWhile_cons_of_neg (by simpa using hb), ← reverse_concat, reverse_reverse]

theorem spansLoop_line {b : UInt8} {xs : Bytes} (hb : b ≠ 13) (h10 : (10 : UInt8) ∉ xs ++ [b]) :
    spansLoop (n + 1) (xs ++ [b] ++ 10 :: rest) = ⟨xs ++ [b], 10 :: rest⟩ :: spansLoop n rest := by
  have hraw : (xs ++ [b] ++ 10 :: rest).takeWhile (fun c => c ≠ 10) = xs ++ [b] := by
    have hin : ∀ c ∈ xs ++ [b], decide (c ≠ 10) = true := by
      intro c hc
      refine decide_eq_true fun h => h10 ?_
      rw [← h]
      exact hc
    rw [takeWhile_append_of_pos hin, takeWhile_cons_of_neg (by simp), List.append_nil]
  have hunfold : ∀ src : Bytes, src ≠ [] → spansLoop (n + 1) src =
      let raw := src.takeWhile (fun c => c ≠ 10)
      let rest := src.drop raw.length
      let line := trimCr raw
      if line = [] then spansLoop n (rest.drop 1)
      else ⟨line, raw.drop line.length ++ rest⟩ :: spansLoop n (rest.drop 1) := by
    intro src hsrc
    cases src with
    | nil => exact absurd rfl hsrc
    | cons c src => rfl
  rw [hunfold _ (by simp), hraw]
  dsimp only
  rw [trimCr_concat hb, if_neg (by simp), drop_left, drop_length]
  rfl

theorem bodyOf_concat (e : ℕ × SessionMsg) : ∃ xs, bodyOf e = xs ++ [125] := by
  refine ⟨123 :: 34 :: bytes "ts" ++ 34 :: 58 :: decimal e.1 ++ (strField "role" (roleToStr e.2.role) ++
    (strField "kind" (kindToStr e.2.kind) ++ writePayload e.2)), ?_⟩
  simp [bodyOf, lineBody]

variable {es : List (ℕ × SessionMsg)}

/-- **The lines of a written file** are those of its messages. -/
theorem spans_fileOf (h : ∀ e ∈ es, (10 : UInt8) ∉ bodyOf e) (hn : es.length ≤ n) :
    (spansLoop n (fileOf es)).map Span.line = es.map bodyOf ∧
      ∀ s ∈ spansLoop n (fileOf es), ∃ t, s.after = 10 :: t := by
  induction es generalizing n with
  | nil => cases n <;> exact ⟨rfl, nofun⟩
  | cons e es ih =>
    cases n with
    | zero => exact absurd hn (by simp)
    | succ n =>
      obtain ⟨xs, hxs⟩ := bodyOf_concat e
      have hfile : fileOf (e :: es) = xs ++ [125] ++ 10 :: fileOf es := by
        show writeMsgLine e.1 e.2 ++ fileOf es = _
        rw [← hxs]
        simp [writeMsgLine, bodyOf]
      have h10 := h e mem_cons_self
      rw [hxs] at h10
      obtain ⟨ih1, ih2⟩ := ih (fun e he => h e (mem_cons_of_mem _ he)) (Nat.le_of_succ_le_succ hn)
      rw [hfile, spansLoop_line (by decide) h10]
      refine ⟨?_, fun s hs => ?_⟩
      · rw [map_cons, map_cons, ih1, hxs]
      · rcases mem_cons.mp hs with rfl | hs
        · exact ⟨_, rfl⟩
        · exact ih2 s hs

/-- **The scan of a line** finds the bytes in it: what it compares a byte too far is no quote. -/
theorem found_iff {s : Span} {t : Bytes} (h : s.after = 10 :: t) : s.found = true ↔ marker <:+: s.line := by
  have hlen : marker.length = 16 := rfl
  unfold Span.found
  rw [any_eq_true, h]
  constructor
  · rintro ⟨j, hj, hp⟩
    rw [mem_range] at hj
    rw [List.isPrefixOf_iff_prefix, append_assoc] at hp
    have hdrop : (s.line.drop j).length = s.line.length - j := length_drop
    by_cases hin : j + 16 ≤ s.line.length
    · have hpre := prefix_of_prefix_length_le hp (prefix_append (s.line.drop j) _) (by omega)
      exact hpre.isInfix.trans (drop_suffix j s.line).isInfix
    · exfalso
      obtain ⟨u, hu⟩ := hp
      have hlast : (marker ++ u)[15]? = (s.line.drop j ++ (10 :: t ++ [0]))[15]? := by rw [hu]
      rw [List.getElem?_append_left (by omega), List.getElem?_append_right (by omega),
        show 15 - (s.line.drop j).length = 0 by omega] at hlast
      exact absurd (Option.some.inj hlast) (by decide : (34 : UInt8) ≠ 10)
  · rintro ⟨xs, ys, hline⟩
    refine ⟨xs.length, mem_range.mpr ?_, ?_⟩
    · rw [← hline, length_append, length_append]
      omega
    · rw [List.isPrefixOf_iff_prefix, ← hline, append_assoc xs, drop_left]
      exact ⟨_, by rw [append_assoc, append_assoc]⟩

def Readable (es : List (ℕ × SessionMsg)) : Prop :=
  ∀ e ∈ es, Decodes (writeMsgLine e.1 e.2).length 0 e.1 e.2

theorem Readable.readable (h : Readable es) : ∀ e ∈ es, e.2.readable = true :=
  fun e he => (decodes_iff (by omega)).mp (h e he)

theorem Readable.newline (h : Readable es) : ∀ e ∈ es, (10 : UInt8) ∉ bodyOf e := by
  intro e he
  obtain ⟨body, hbody, h10, -⟩ := h e he
  have heq : lineBody e.1 e.2 = body := append_cancel_right hbody
  rw [bodyOf, heq]
  exact h10

def stops (e : ℕ × SessionMsg) : Bool := e.2.role = .summary || e.2.quotes

def windowStart (cap : ℕ) (es : List (ℕ × SessionMsg)) : ℕ :=
  max (es.length - cap) ((lastIdx (fun e => decide (e.2.role = .summary)) es).getD 0)

def readStart (cap : ℕ) (es : List (ℕ × SessionMsg)) : ℕ := max (es.length - cap) ((lastIdx stops es).getD 0)

theorem windowStart_le (cap : ℕ) (es : List (ℕ × SessionMsg)) :
    windowStart cap es ≤ readStart cap es ∧ readStart cap es ≤ es.length := by
  have hmono : (lastIdx (fun e => decide (e.2.role = .summary)) es).getD 0 ≤ (lastIdx stops es).getD 0 :=
    lastIdx_mono fun e _ he => Bool.or_eq_true_iff.mpr (.inl he)
  have hle := lastIdx_le (p := stops) es
  unfold windowStart readStart
  omega

/-- **The two are one** when no entry behind the first of the window stops the scan. -/
theorem readStart_eq_iff (cap : ℕ) (es : List (ℕ × SessionMsg)) :
    readStart cap es = windowStart cap es ↔ ∀ e ∈ es.drop (windowStart cap es + 1), e.2.quotes = false := by
  have hrole := lastIdx_le_iff.mp (Nat.le_max_right (es.length - cap)
    ((lastIdx (fun e => decide (e.2.role = .summary)) es).getD 0))
  have hle : readStart cap es = windowStart cap es ↔ (lastIdx stops es).getD 0 ≤ windowStart cap es := by
    have := windowStart_le cap es
    unfold windowStart readStart at *
    omega
  rw [hle, lastIdx_le_iff]
  refine forall₂_congr fun e he => ?_
  rw [stops, Bool.or_eq_false_iff, and_iff_right (hrole e he)]

/-- **Where the window starts**, by the messages. -/
theorem takeFrom_fileOf (cap : ℕ) (h : Readable es) :
    takeFrom cap (spans (fileOf es)) = readStart cap es ∧
      (spans (fileOf es)).map Span.line = es.map bodyOf := by
  have hn : es.length ≤ (fileOf es).length := by
    unfold fileOf
    rw [length_flatMap]
    clear h
    induction es with
    | nil => exact Nat.le_refl _
    | cons e es ih =>
      rw [map_cons, sum_cons, length_cons, writeMsgLine, length_append, length_singleton]
      omega
  obtain ⟨hlines, hafter⟩ := spans_fileOf h.newline hn
  have hlines : (spans (fileOf es)).map Span.line = es.map bodyOf := hlines
  have hlen : (spans (fileOf es)).length = es.length := by
    have := congrArg List.length hlines
    rwa [length_map, length_map] at this
  have hfound : lastIdx Span.found (spans (fileOf es)) = lastIdx stops es := by
    have h1 : lastIdx Span.found (spans (fileOf es)) =
        lastIdx ((fun l => decide (marker <:+: l)) ∘ Span.line) (spans (fileOf es)) := by
      refine lastIdx_congr fun s hs => ?_
      obtain ⟨t, ht⟩ := hafter s hs
      rw [Bool.eq_iff_iff, found_iff ht]
      exact (decide_eq_true_iff (p := marker <:+: s.line)).symm
    rw [h1, ← lastIdx_map, hlines, lastIdx_map]
    refine lastIdx_congr fun e he => ?_
    rw [Bool.eq_iff_iff, Function.comp_apply, decide_eq_true_iff, bodyOf, infix_lineBody e.1 (h.readable e he)]
    unfold stops
    rw [Bool.or_eq_true, decide_eq_true_iff]
  refine ⟨?_, hlines⟩
  unfold takeFrom readStart
  rw [hfound, hlen]
  cases lastIdx stops es with
  | none =>
    dsimp only [Option.getD_none]
    split_ifs <;> omega
  | some k =>
    dsimp only [Option.getD_some]
    split_ifs <;> omega

/-- **The lines of readable messages come back in one arena.** -/
theorem parseWindow_bodies (h : ∀ e ∈ es, e.2.readable = true)
    (hcap : used + ((es.map bodyOf).map List.length).sum + 1 ≤ cap) :
    List.Forall₂ (fun e m => e.2.Agrees m) es (parseWindow cap (es.map bodyOf) used) := by
  induction es generalizing used with
  | nil => exact .nil
  | cons e es ih =>
    rw [map_cons, map_cons, sum_cons] at hcap
    have hlen : (writeMsgLine e.1 e.2).length = (bodyOf e).length + 1 := by
      unfold writeMsgLine bodyOf
      rw [length_append, length_singleton]
    have hdec : Decodes cap used e.1 e.2 := (decodes_iff (by omega)).mpr (h e mem_cons_self)
    obtain ⟨body, hbody, -, m, u, hparse, hagrees⟩ := hdec
    have heq : bodyOf e = body := append_cancel_right hbody
    rw [← heq] at hparse
    have hu := (parseLine_room cap hparse).1
    rw [map_cons, parseWindow, hparse]
    exact .cons hagrees (ih (fun e he => h e (mem_cons_of_mem _ he)) (by omega))

/-! ### What is retrieved -/

/-- The entries from the last summary on, the last `cap` of them. -/
def windowOf (cap : ℕ) (es : List (ℕ × SessionMsg)) : List (ℕ × SessionMsg) :=
  let since := sinceLast (fun e => e.2.role = .summary) es
  since.drop (since.length - cap)

theorem windowOf_eq_drop (cap : ℕ) (es : List (ℕ × SessionMsg)) :
    windowOf cap es = es.drop (windowStart cap es) := by
  unfold windowOf windowStart
  rw [sinceLast_eq_drop, drop_drop, length_drop]
  congr 1
  omega

/-- **A file is read back**: the entries from the last summary on, the last `cap` of them, in order and
without loss, in an arena that a larger one could not better. -/
structure Retrieves (defaultMaxEntries : ℕ) (q : MemoryQuery) (es : List (ℕ × SessionMsg)) : Prop where
  window : ∃ ms, jsonlRetrieve defaultMaxEntries q (some (fileOf es)) = (.ok, ms) ∧
    List.Forall₂ (fun e m => e.2.Agrees m) (windowOf (resolveCap defaultMaxEntries q) es) ms
  arena : ∀ cap, arenaCap (windowLines (resolveCap defaultMaxEntries q) (fileOf es)) ≤ cap →
    parseWindow cap (windowLines (resolveCap defaultMaxEntries q) (fileOf es)) 0 =
      parseWindow (arenaCap (windowLines (resolveCap defaultMaxEntries q) (fileOf es)))
        (windowLines (resolveCap defaultMaxEntries q) (fileOf es)) 0

theorem lastIdx_agrees {ms : List SessionMsg}
    (h : List.Forall₂ (fun e m => e.2.Agrees m) es ms) :
    lastIdx (fun m => decide (m.role = .summary)) ms = lastIdx (fun e => decide (e.2.role = .summary)) es := by
  induction h with
  | nil => rfl
  | cons hm _ ih => rw [lastIdx, lastIdx, ih, hm.1]

theorem dropBefore_eq (ms : List SessionMsg) :
    dropBefore ms = ms.drop ((lastIdx (fun m => decide (m.role = .summary)) ms).getD 0) := by
  unfold dropBefore
  split
  · next k hk =>
    rw [hk]
    rfl
  · next hk =>
    rw [hk]
    rfl

/-- **What is read of a written file**: everything from where the scan stops, or the cap starts. -/
theorem retrieveFrom_fileOf (cap : ℕ) (h : Readable es) :
    List.Forall₂ (fun e m => e.2.Agrees m) (es.drop (readStart cap es)) (retrieveFrom cap (fileOf es)) := by
  obtain ⟨hfrom, hlines⟩ := takeFrom_fileOf cap h
  have hwindow : windowLines cap (fileOf es) = (es.drop (readStart cap es)).map bodyOf := by
    unfold windowLines
    rw [hfrom, map_drop, hlines, map_drop]
  have hread : List.Forall₂ (fun e m => e.2.Agrees m) (es.drop (readStart cap es))
      (parseWindow (arenaCap (windowLines cap (fileOf es))) ((es.drop (readStart cap es)).map bodyOf) 0) :=
    parseWindow_bodies (fun e he => h.readable e (mem_of_mem_drop he)) (by
      rw [← hwindow, arenaCap]
      omega)
  rw [← hwindow] at hread
  -- the second scan finds nothing behind the first entry
  have hle := (windowStart_le cap es).1
  have hzero : (lastIdx (fun m => decide (m.role = .summary))
      (parseWindow (arenaCap (windowLines cap (fileOf es))) (windowLines cap (fileOf es)) 0)).getD 0 = 0 := by
    rw [lastIdx_agrees hread, lastIdx_drop]
    unfold windowStart at hle
    omega
  unfold retrieveFrom
  rw [dropBefore_eq, hzero]
  exact hread

theorem jsonlRetrieve_prime {d : ℕ} {q : MemoryQuery} (content : Bytes) (hsession : q.hasSession = true)
    (hturn : q.recentTurn = false) :
    jsonlRetrieve d q (some content) = (.ok, retrieveFrom (resolveCap d q) content) := by
  unfold jsonlRetrieve
  rw [hsession, hturn]
  rfl

/-- **A file is read back right exactly when no tool call behind the first entry of the window quotes the
summary's role.** -/
theorem retrieves_iff {d : ℕ} {q : MemoryQuery} {es : List (ℕ × SessionMsg)} (h : Readable es)
    (hsession : q.hasSession = true) (hturn : q.recentTurn = false) :
    Retrieves d q es ↔ ∀ e ∈ (windowOf (resolveCap d q) es).tail, e.2.quotes = false := by
  have hcall := jsonlRetrieve_prime (d := d) (fileOf es) hsession hturn
  have hread := retrieveFrom_fileOf (resolveCap d q) h
  have hwindow := windowOf_eq_drop (resolveCap d q) es
  obtain ⟨hle, hle'⟩ := windowStart_le (resolveCap d q) es
  rw [hwindow, tail_drop, ← readStart_eq_iff]
  constructor
  · intro hR
    obtain ⟨ms, hms, hagrees⟩ := hR.window
    have heq : retrieveFrom (resolveCap d q) (fileOf es) = ms := (Prod.mk.inj (hcall.symm.trans hms)).2
    rw [heq] at hread
    have hlength := hagrees.length_eq.trans hread.length_eq.symm
    rw [hwindow, length_drop, length_drop] at hlength
    omega
  · intro heq
    refine ⟨⟨_, hcall, ?_⟩, fun cap hcap => parseWindow_room ?_ ?_⟩
    · rw [hwindow, ← heq]
      exact hread
    · unfold arenaCap at hcap
      omega
    · unfold arenaCap
      omega

/-- A turn with a call, read back whole. -/
theorem retrieves_iff_call :
    Retrieves 0 {} [(7, { role := .user, text := bytes "hi" }), (8, weatherCall)] := by
  have hread : Readable [(7, { role := .user, text := bytes "hi" }), (8, weatherCall)] := by
    intro e he
    rcases mem_cons.mp he with rfl | he
    · exact (decodes_iff (by omega)).mpr (by decide)
    · rw [mem_singleton.mp he]
      exact (decodes_iff (by omega)).mpr (by decide)
  exact (retrieves_iff hread rfl rfl).mpr (by decide +kernel)

/-- A call whose arguments are an object with the summary's role. -/
def quotingCall : SessionMsg :=
  { weatherCall with toolUseArgs := some (cstr (bytes "\x7b\"role\":\"summary\"\x7d")) }

def quotedTurn : List (ℕ × SessionMsg) := [(7, { role := .user, text := bytes "hi" }), (8, quotingCall)]

/-- **The user's message is lost** before a call that quotes the summary's role. -/
theorem not_retrieves_quoted : Readable quotedTurn ∧ ¬ Retrieves 0 {} quotedTurn := by
  constructor
  · intro e he
    rcases mem_cons.mp he with rfl | he
    · exact (decodes_iff (by omega)).mpr (by decide)
    · rw [mem_singleton.mp he]
      exact (decodes_iff (by omega)).mpr (by decide)
  · intro h
    obtain ⟨ms, hms, hagrees⟩ := h.window
    have hcall := jsonlRetrieve_prime (d := 0) (q := {}) (fileOf quotedTurn) rfl rfl
    have heq : retrieveFrom (resolveCap 0 {}) (fileOf quotedTurn) = ms := (Prod.mk.inj (hcall.symm.trans hms)).2
    have hlength := hagrees.length_eq
    rw [← heq] at hlength
    have hread : (retrieveFrom (resolveCap 0 {}) (fileOf quotedTurn)).length = 1 := by decide +kernel
    have hwindow : (windowOf (resolveCap 0 {}) quotedTurn).length = 2 := by decide +kernel
    omega

end Libx.Agent
