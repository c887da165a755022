import Libx.Agent.Jsonl

/-!
# Libx.Http.Sse — server-sent events

sse.c: the parser that libcurl's write callback feeds.  A byte is its code: 10 is LF, 13 CR, 58 the colon, 32 the space.
-/

namespace Libx.Http.Sse

open Libx.Agent (Bytes CStr cstr bytes)
open List

/-- `xSseEvent`. -/
structure SseEvent where
  event : CStr
  data : CStr
  id : Option CStr
  retry : Int32
  deriving DecidableEq

/-- What is known of the current event, and what is kept from one to the next. -/
structure Fields where
  eventType : Option CStr := none
  data : Option CStr := none
  id : Option CStr := none
  retry : Int32 := -1
  deriving DecidableEq

/-- `xSseParser_`. -/
structure SseParser extends Fields where
  buf : Bytes := []
  pos : ℕ := 0
  error : Bool := false
  deriving DecidableEq

/-- What the callback answers, given all the events up to the one it is called with. -/
abbrev OnEvent := List SseEvent → ℤ

/-! ### The source -/

/-- `find_line_end`: where it is. -/
def findLineEnd (s : Bytes) : Option ℕ := s.findIdx? fun b => b = 10 || b = 13

def joinLine (data value : CStr) : CStr where
  bytes := data.bytes ++ 10 :: value.bytes
  noNul := by
    intro b hb
    rcases List.mem_append.mp hb with h | h
    · exact data.noNul b h
    · rcases List.mem_cons.mp h with rfl | h
      · decide
      · exact value.noNul b h

/-- `atoi` of digits: `strtol` stops at the largest `long`, and the `int` takes what fits. -/
def atoi (digits : Bytes) : Int32 :=
  Int32.ofNat (min (digits.foldl (fun n b => 10 * n + (b.toNat - 48)) 0) (2 ^ 63 - 1))

/-- The name and the value of a line: the name ends at the colon, and one space is skipped behind it. -/
def splitField (line : Bytes) : Bytes × Bytes :=
  match line.findIdx? (· = 58) with
  | none => (line, [])
  | some colon =>
    let value := line.drop (colon + 1)
    (line.take colon, if value.head? = some 32 then value.drop 1 else value)

/-- `parse_sse_field`. -/
def parseField (f : Fields) (line : Bytes) : Fields :=
  if line.head? = some 58 then f
  else
    let field := (cstr (splitField line).1).bytes
    let value := (splitField line).2
    if field = bytes "event" then { f with eventType := some (cstr value) }
    else if field = bytes "data" then
      match f.data with
      | some data => { f with data := some (joinLine data (cstr value)) }
      | none => { f with data := some (cstr value) }
    else if field = bytes "id" then
      -- a value with a NUL in it is ignored, and so is the empty one
      if value ≠ [] ∧ (cstr value).bytes.length = value.length then { f with id := some (cstr value) } else f
    else if field = bytes "retry" then
      if value ≠ [] ∧ value.all (fun b => 48 ≤ b && b ≤ 57) then { f with retry := atoi value } else f
    else f

def Fields.toEvent (f : Fields) (data : CStr) : SseEvent where
  event := f.eventType.getD (cstr (bytes "message"))
  data := data
  id := f.id
  retry := f.retry

/-- `sse_parser_reset_event`. -/
def Fields.resetEvent (f : Fields) : Fields := { f with eventType := none, data := none }

/-- The loop of `sse_parser_feed`, `n` lines of it at most: what it returns, the parser, and all the events so far. -/
def loop (onEvent : OnEvent) : ℕ → SseParser → List SseEvent → ℤ × SseParser × List SseEvent
  | 0, p, log => (0, p, log)
  | n + 1, p, log =>
    if p.pos < p.buf.length then
      let start := p.buf.drop p.pos
      match findLineEnd start with
      | none => (0, p, log)
      | some lineLen =>
        let line := start.take lineLen
        let pos := p.pos + lineLen + 1
        -- CR LF counts as one, where the LF is there
        let pos := if start[lineLen]? = some 13 ∧ p.buf[pos]? = some 10 then pos + 1 else pos
        if lineLen = 0 then
          match p.data with
          | some data =>
            let log := log ++ [p.toFields.toEvent data]
            let p := { p with toFields := p.toFields.resetEvent, pos }
            if onEvent log ≠ 0 then (onEvent log, p, log) else loop onEvent n p log
          | none => loop onEvent n { p with pos } log
        else loop onEvent n { p with toFields := parseField p.toFields line, pos } log
    else (0, p, log)

/-- `sse_parser_feed`; the loop goes round once for each line. -/
def feed (onEvent : OnEvent) (p : SseParser) (log : List SseEvent) (data : Bytes) : ℤ × SseParser × List SseEvent :=
  if p.error then (-1, p, log)
  else
    let p := { p with buf := p.buf ++ data }
    match loop onEvent p.buf.length p log with
    | (0, p, log) => (0, { p with buf := p.buf.drop p.pos, pos := 0 }, log)
    | stopped => stopped

/-- Chunks one by one, until the callback asks to close. -/
def feedAll (onEvent : OnEvent) (p : SseParser) (log : List SseEvent) :
    List Bytes → ℤ × SseParser × List SseEvent
  | [] => (0, p, log)
  | chunk :: chunks =>
    match feed onEvent p log chunk with
    | (0, p, log) => feedAll onEvent p log chunks
    | stopped => stopped

/-! ### Byte by byte -/

/-- The end of a line: an empty one tells the event, where there is data. -/
def endLine (f : Fields) (line : Bytes) : Fields × List SseEvent :=
  if line = [] then
    match f.data with
    | some data => (f.resetEvent, [f.toEvent data])
    | none => (f, [])
  else (parseField f line, [])

/-- Where a scan has come to: the fields, the unfinished line, and whether the last byte was CR. -/
structure Scan extends Fields where
  line : Bytes := []
  cr : Bool := false

def Scan.byte (s : Scan) (b : UInt8) : Scan × List SseEvent :=
  if s.cr ∧ b = 10 then ({ s with cr := false }, [])
  else if b = 10 ∨ b = 13 then
    ({ toFields := (endLine s.toFields s.line).1, line := [], cr := b = 13 }, (endLine s.toFields s.line).2)
  else ({ s with line := s.line ++ [b], cr := false }, [])

def scan (s : Scan) : Bytes → Scan × List SseEvent
  | [] => (s, [])
  | b :: rest => ((scan (s.byte b).1 rest).1, (s.byte b).2 ++ (scan (s.byte b).1 rest).2)

def Scan.forget (s : Scan) : Scan := { s with cr := false }

theorem scan_append (s : Scan) (u v : Bytes) :
    scan s (u ++ v) = ((scan (scan s u).1 v).1, (scan s u).2 ++ (scan (scan s u).1 v).2) := by
  induction u generalizing s with
  | nil => simp [scan]
  | cons b u ih => simp [scan, ih]

def isText (b : UInt8) : Bool := !(b = 10 || b = 13)

variable {s : Scan}

theorem scan_text (hcr : s.cr = false) {u : Bytes} (hu : ∀ b ∈ u, isText b) :
    scan s u = ({ s with line := s.line ++ u }, []) := by
  induction u generalizing s with
  | nil => simp [scan]
  | cons b u ih =>
    have hb : ¬(b = 10 ∨ b = 13) := by simpa [isText] using hu b (.head _)
    have hbyte : s.byte b = ({ s with line := s.line ++ [b], cr := false }, []) := by
      rw [Scan.byte, if_neg (by simp [hcr]), if_neg hb]
    rw [scan, hbyte, ih rfl fun c hc => hu c (.tail _ hc)]
    simp [hcr]

theorem scan_forget {v : Bytes} (hv : s.cr = true → v.head? ≠ some 10) :
    (scan s.forget v).1.forget = (scan s v).1.forget ∧ (scan s.forget v).2 = (scan s v).2 := by
  cases v with
  | nil => exact ⟨rfl, rfl⟩
  | cons b v =>
    have hbyte : s.forget.byte b = s.byte b := by
      have hb : ¬(s.cr = true ∧ b = 10) := fun ⟨hcr, hb⟩ => hv hcr (by rw [hb]; rfl)
      rw [Scan.byte, Scan.byte, if_neg hb, if_neg (by simp [Scan.forget])]
      rfl
    rw [scan, scan, hbyte]
    exact ⟨rfl, rfl⟩

/-! ### The loop is a scan -/

theorem findLineEnd_none {s : Bytes} (h : findLineEnd s = none) : ∀ b ∈ s, isText b := by
  intro b hb
  have hend := List.findIdx?_eq_none_iff.mp h b hb
  rw [isText, hend]
  rfl

theorem findLineEnd_some {s : Bytes} {k : ℕ} (h : findLineEnd s = some k) :
    ∃ line b rest, s = line ++ b :: rest ∧ line.length = k ∧ (b = 10 ∨ b = 13) ∧ ∀ c ∈ line, isText c := by
  obtain ⟨hk, hend, hbefore⟩ := List.findIdx?_eq_some_iff_getElem.mp h
  refine ⟨s.take k, s[k], s.drop (k + 1), ?_, ?_, by simpa using hend, fun c hc => ?_⟩
  · rw [← drop_eq_getElem_cons hk, take_append_drop]
  · rw [length_take]
    omega
  · obtain ⟨i, hi, rfl⟩ := mem_take_iff_getElem.mp hc
    have hik : i < k := by omega
    simpa [isText] using hbefore i hik

theorem scan_line {f : Fields} {line rest : Bytes} {b : UInt8} (hline : ∀ c ∈ line, isText c) (hb : b = 10 ∨ b = 13) :
    scan { toFields := f } (line ++ b :: rest) =
      ((scan { toFields := (endLine f line).1, cr := b = 13 } rest).1,
        (endLine f line).2 ++ (scan { toFields := (endLine f line).1, cr := b = 13 } rest).2) := by
  have hbyte : Scan.byte { toFields := f, line := line } b =
      ({ toFields := (endLine f line).1, cr := b = 13 }, (endLine f line).2) := by
    rw [Scan.byte, if_neg (by simp), if_pos hb]
  rw [scan_append, scan_text rfl hline, nil_append, nil_append]
  rw [scan, hbyte]

variable {onEvent : OnEvent}

/-- What the loop does to a parser: the fields and the events are those of a scan, and the unfinished line is left. -/
structure Looped (p : SseParser) (log : List SseEvent) (r : ℤ × SseParser × List SseEvent) : Prop where
  goes : r.1 = 0
  fields : r.2.1.toFields = (scan { toFields := p.toFields } (p.buf.drop p.pos)).1.toFields
  buf : r.2.1.buf = p.buf
  error : r.2.1.error = p.error
  rest : p.buf.drop r.2.1.pos = (scan { toFields := p.toFields } (p.buf.drop p.pos)).1.line
  log : r.2.2 = log ++ (scan { toFields := p.toFields } (p.buf.drop p.pos)).2

theorem loop_line (hstay : ∀ log, onEvent log = 0) {n : ℕ} {p : SseParser} {log : List SseEvent} {line rest : Bytes}
    {b : UInt8} (hdrop : p.buf.drop p.pos = line ++ b :: rest) (hfind : findLineEnd (p.buf.drop p.pos) = some line.length) :
    loop onEvent (n + 1) p log =
      loop onEvent n
        { p with
          toFields := (endLine p.toFields line).1
          pos := p.pos + line.length + if b = 13 ∧ rest.head? = some 10 then 2 else 1 }
        (log ++ (endLine p.toFields line).2) := by
  have hlt : p.pos < p.buf.length := by
    by_contra hge
    rw [drop_eq_nil_of_le (by omega)] at hdrop
    simp at hdrop
  have hat : (p.buf.drop p.pos)[line.length]? = some b := by rw [hdrop]; simp
  have hnext : p.buf[p.pos + line.length + 1]? = rest.head? := by
    have h : (p.buf.drop p.pos)[line.length + 1]? = rest[0]? := by
      rw [hdrop, List.getElem?_append_right (by omega), Nat.add_sub_cancel_left, List.getElem?_cons_succ]
    rw [List.getElem?_drop] at h
    rw [List.head?_eq_getElem?, ← h, ← Nat.add_assoc]
  have hpos : (if (p.buf.drop p.pos)[line.length]? = some 13 ∧ p.buf[p.pos + line.length + 1]? = some 10 then
      p.pos + line.length + 1 + 1 else p.pos + line.length + 1) =
      p.pos + line.length + if b = 13 ∧ rest.head? = some 10 then 2 else 1 := by
    simp only [hat, hnext, Option.some.injEq]
    split <;> rfl
  have htake : (p.buf.drop p.pos).take line.length = line := by rw [hdrop]; simp
  rw [loop, if_pos hlt]
  dsimp only
  rw [hfind]
  dsimp only
  rw [htake, hpos]
  unfold endLine
  by_cases hempty : line = []
  · rw [if_pos (by rw [hempty]; rfl), if_pos hempty]
    cases hdata : p.data with
    | none => simp
    | some data =>
      dsimp only
      rw [if_neg (not_not_intro (hstay _))]
  · rw [if_neg (by rwa [length_eq_zero_iff]), if_neg hempty, List.append_nil]

theorem scan_next (f : Fields) (b : UInt8) (rest : Bytes) :
    let next := rest.drop (if b = 13 ∧ rest.head? = some 10 then 1 else 0)
    (scan { toFields := f } next).1.forget = (scan { toFields := f, cr := b = 13 } rest).1.forget ∧
      (scan { toFields := f } next).2 = (scan { toFields := f, cr := b = 13 } rest).2 := by
  by_cases hcut : b = 13 ∧ rest.head? = some 10
  · obtain ⟨rest, rfl⟩ : ∃ r, rest = 10 :: r := by
      cases rest with
      | nil => simp at hcut
      | cons c r => exact ⟨r, by simpa using hcut.2⟩
    have hskip : Scan.byte { toFields := f, cr := b = 13 } 10 = ({ toFields := f }, []) := by
      rw [Scan.byte, if_pos (by simpa using hcut.1)]
    rw [if_pos hcut, drop_one, tail_cons, scan, hskip]
    exact ⟨rfl, rfl⟩
  · rw [if_neg hcut, drop_zero]
    exact scan_forget (s := { toFields := f, cr := b = 13 }) fun hcr hhead => hcut ⟨by simpa using hcr, hhead⟩

theorem loop_eq (hstay : ∀ log, onEvent log = 0) (n : ℕ) (p : SseParser) (log : List SseEvent)
    (hn : p.buf.length - p.pos ≤ n) : Looped p log (loop onEvent n p log) := by
  induction n generalizing p log with
  | zero =>
    have hdrop : p.buf.drop p.pos = [] := drop_eq_nil_of_le (by omega)
    rw [loop]
    constructor <;> simp [hdrop, scan]
  | succ n ih =>
    cases hfind : findLineEnd (p.buf.drop p.pos) with
    | none =>
      have hloop : loop onEvent (n + 1) p log = (0, p, log) := by
        rw [loop]
        split
        · dsimp only
          rw [hfind]
        · rfl
      have hscan := scan_text (s := { toFields := p.toFields }) rfl (findLineEnd_none hfind)
      rw [hloop]
      constructor <;> simp [hscan]
    | some k =>
      obtain ⟨line, b, rest, hdrop, rfl, hb, hline⟩ := findLineEnd_some hfind
      have hlen : line.length + (rest.length + 1) = p.buf.length - p.pos := by
        rw [← length_drop, hdrop, length_append, length_cons]
      rw [loop_line hstay hdrop hfind]
      have hrec := ih
        { p with
          toFields := (endLine p.toFields line).1
          pos := p.pos + line.length + if b = 13 ∧ rest.head? = some 10 then 2 else 1 }
        (log ++ (endLine p.toFields line).2) (by dsimp only; split <;> omega)
      have hafter : p.buf.drop (p.pos + line.length + if b = 13 ∧ rest.head? = some 10 then 2 else 1) =
          rest.drop (if b = 13 ∧ rest.head? = some 10 then 1 else 0) := by
        rw [Nat.add_assoc, ← drop_drop, hdrop, ← drop_drop, drop_left]
        split <;> rfl
      obtain ⟨hforget, hevents⟩ := scan_next (endLine p.toFields line).1 b rest
      obtain ⟨hgoes, hfields, hbuf, herror, hrest, hlog⟩ := hrec
      rw [hafter] at hfields hrest hlog
      have hscan := @scan_line p.toFields line rest b hline hb
      constructor
      · exact hgoes
      · have hsame := congrArg Scan.toFields hforget
        rw [hfields, hdrop, hscan]
        exact hsame
      · exact hbuf
      · exact herror
      · have hsame := congrArg Scan.line hforget
        rw [hrest, hdrop, hscan]
        exact hsame
      · rw [hlog, hdrop, hscan, append_assoc, hevents]

/-! ### Chunks -/

def Scan.parser (s : Scan) : SseParser := { toFields := s.toFields, buf := s.line }

theorem scan_isText (hs : ∀ b ∈ s.line, isText b) (u : Bytes) : ∀ b ∈ (scan s u).1.line, isText b := by
  induction u generalizing s with
  | nil => exact hs
  | cons b u ih =>
    refine ih ?_
    unfold Scan.byte
    by_cases hskip : s.cr ∧ b = 10
    · rw [if_pos hskip]
      exact hs
    by_cases hend : b = 10 ∨ b = 13
    · rw [if_neg hskip, if_pos hend]
      exact fun _ h => nomatch h
    · rw [if_neg hskip, if_neg hend]
      intro c hc
      rcases mem_append.mp hc with h | h
      · exact hs c h
      · rw [mem_singleton.mp h, isText]
        simpa using hend

/-- **A chunk is a scan** that knows nothing of a CR before it. -/
theorem feed_eq (hstay : ∀ log, onEvent log = 0) (hs : ∀ b ∈ s.line, isText b) (log : List SseEvent)
    (data : Bytes) :
    feed onEvent s.parser log data = (0, (scan s.forget data).1.parser, log ++ (scan s.forget data).2) := by
  have hscan : scan ⟨s.toFields, [], false⟩ (s.line ++ data) = scan s.forget data := by
    rw [scan_append, scan_text rfl hs]
    rfl
  have hloop := loop_eq hstay (s.line ++ data).length { toFields := s.toFields, buf := s.line ++ data } log le_rfl
  have hfeed : feed onEvent s.parser log data =
      match loop onEvent (s.line ++ data).length { toFields := s.toFields, buf := s.line ++ data } log with
      | (0, p, log) => (0, { p with buf := p.buf.drop p.pos, pos := 0 }, log)
      | stopped => stopped := rfl
  rw [hfeed]
  revert hloop
  generalize loop onEvent (s.line ++ data).length { toFields := s.toFields, buf := s.line ++ data } log = r
  intro hloop
  obtain ⟨c, ⟨f, buf, pos, error⟩, log'⟩ := r
  obtain ⟨hgoes, hfields, hbuf, herror, hrest, hlog⟩ := hloop
  rw [drop_zero, hscan] at hfields hrest hlog
  subst hgoes hfields hbuf herror hlog
  have hline : (s.line ++ data).drop pos = (scan s.forget data).1.line := hrest
  refine Eq.trans (b := (0, { toFields := (scan s.forget data).1.toFields, buf := (s.line ++ data).drop pos },
    log ++ (scan s.forget data).2)) rfl ?_
  rw [hline]
  rfl

theorem scan_cr (u : Bytes) : (scan {} u).1.cr = true ↔ u.getLast? = some 13 := by
  induction u using List.reverseRecOn with
  | nil => simp [scan]
  | append_singleton u b _ =>
    have hbyte (s : Scan) : (s.byte b).1.cr = decide (b = 13) := by
      unfold Scan.byte
      split
      next h => simp [h.2]
      split
      next => rfl
      next h => simp [not_or.mp h]
    rw [scan_append]
    simp [scan, hbyte]

theorem scan_line_of_cr (hs : s.cr = true → s.line = []) (u : Bytes) :
    (scan s u).1.cr = true → (scan s u).1.line = [] := by
  induction u generalizing s with
  | nil => exact hs
  | cons b u ih =>
    refine ih ?_
    unfold Scan.byte
    split
    next => intro h; cases h
    split
    next => intro; rfl
    next => intro h; cases h

theorem scan_cut (hline : s.cr = true → s.line = []) {v : Bytes}
    (hcut : ¬(s.cr = true ∧ v.head? = some 10 ∧ s.data ≠ none)) :
    (scan s.forget v).1.forget = (scan s v).1.forget ∧ (scan s.forget v).2 = (scan s v).2 := by
  by_cases htorn : s.cr = true ∧ v.head? = some 10
  · obtain ⟨hcr, hhead⟩ := htorn
    have hdata : s.data = none := by
      by_contra hne
      exact hcut ⟨hcr, hhead, hne⟩
    obtain ⟨v, rfl⟩ : ∃ w, v = 10 :: w := by
      cases v with
      | nil => simp at hhead
      | cons c w => exact ⟨w, by simpa using hhead⟩
    have hbyte : s.forget.byte 10 = s.byte 10 := by
      have hempty : endLine s.toFields [] = (s.toFields, []) := by simp [endLine, hdata]
      have hrest := hline hcr
      have hskip : s.byte 10 = ({ s with cr := false }, []) := by rw [Scan.byte, if_pos ⟨hcr, rfl⟩]
      rw [hskip, Scan.byte, if_neg (by simp [Scan.forget]), if_pos (.inl rfl)]
      simp [Scan.forget, hrest, hempty]
    rw [scan, scan, hbyte]
    exact ⟨rfl, rfl⟩
  · exact scan_forget fun hcr hhead => htorn ⟨hcr, hhead⟩

theorem scan_torn (hline : s.cr = true → s.line = []) (hcr : s.cr = true) (hdata : s.data ≠ none) :
    (scan s.forget [10]).2 ≠ (scan s [10]).2 := by
  obtain ⟨data, hdata⟩ := Option.ne_none_iff_exists'.mp hdata
  have hbyte : s.byte 10 = ({ s with cr := false }, []) := by rw [Scan.byte, if_pos ⟨hcr, rfl⟩]
  have hforget : (s.forget.byte 10).2 = [s.toFields.toEvent data] := by
    rw [Scan.byte, if_neg (by simp [Scan.forget]), if_pos (.inl rfl)]
    simp [Scan.forget, hline hcr, endLine, hdata]
  simp [scan, hbyte, hforget]

theorem feedAll_concat {p p' : SseParser} {log log' : List SseEvent} {chunks : List Bytes}
    (h : feedAll onEvent p log chunks = (0, p', log')) (chunk : Bytes) :
    feedAll onEvent p log (chunks ++ [chunk]) = feed onEvent p' log' chunk := by
  induction chunks generalizing p log with
  | nil =>
    obtain ⟨rfl, rfl⟩ : p = p' ∧ log = log' := by simpa [feedAll] using h
    rw [nil_append, feedAll]
    split
    next heq => rw [heq]; rfl
    next => rfl
  | cons c chunks ih =>
    rw [feedAll] at h
    rw [cons_append, feedAll]
    split at h
    next => exact ih h
    next hne => exact absurd h (hne _ _)

/-- A chunk that starts with LF comes when the last byte was CR and data is pending. -/
def Torn (onEvent : OnEvent) (before : List Bytes) (chunk : Bytes) : Prop :=
  before.flatten.getLast? = some 13 ∧ chunk.head? = some 10 ∧ (feedAll onEvent {} [] before).2.1.data ≠ none

theorem feed_start (hstay : ∀ log, onEvent log = 0) (u : Bytes) :
    feed onEvent {} [] u = (0, (scan {} u).1.parser, (scan {} u).2) :=
  feed_eq hstay (s := {}) (by simp) [] u

theorem feedAll_eq (hstay : ∀ log, onEvent log = 0) {chunks : List Bytes}
    (h : ∀ before chunk after, chunks = before ++ chunk :: after → ¬Torn onEvent before chunk) :
    feedAll onEvent {} [] chunks = (0, (scan {} chunks.flatten).1.parser, (scan {} chunks.flatten).2) := by
  induction chunks using List.reverseRecOn with
  | nil => rfl
  | append_singleton chunks chunk ih =>
    have hbefore := ih fun before c after hc => h before c (after ++ [chunk]) (by rw [hc]; simp)
    have hnot := h chunks chunk [] rfl
    unfold Torn at hnot
    rw [hbefore, ← scan_cr] at hnot
    rw [feedAll_concat hbefore, feed_eq hstay (scan_isText (by simp) _), flatten_append, scan_append]
    obtain ⟨hforget, hevents⟩ := scan_cut (scan_line_of_cr (by simp) _) hnot
    have hparser := congrArg Scan.parser hforget
    rw [flatten_singleton, hevents]
    exact congrArg (fun p => (0, p, _)) hparser

/-- **Chunking**: where no chunk is torn, chunks come to what the whole stream comes to; and the cuts that make no
difference, whatever comes next, are those behind which no chunk can be torn. -/
theorem chunks_iff (onEvent : OnEvent) (hstay : ∀ log, onEvent log = 0) :
    (∀ chunks, (∀ before chunk after, chunks = before ++ chunk :: after → ¬Torn onEvent before chunk) →
      feedAll onEvent {} [] chunks = feed onEvent {} [] chunks.flatten) ∧
    ∀ chunks,
      (∀ before, before <+: chunks → ∀ chunk,
        feedAll onEvent {} [] (before ++ [chunk]) = feed onEvent {} [] (before ++ [chunk]).flatten) ↔
      ∀ before, before <+: chunks → ∀ chunk, ¬Torn onEvent before chunk := by
  constructor
  · intro chunks h
    rw [feedAll_eq hstay h, feed_start hstay]
  intro chunks
  constructor
  · rintro hall before hbefore chunk ⟨hcr, -, hdata⟩
    have hsame : feedAll onEvent {} [] before =
        (0, (scan {} before.flatten).1.parser, (scan {} before.flatten).2) := by
      rw [← feed_start hstay]
      rcases eq_nil_or_concat before with rfl | ⟨init, last, rfl⟩
      · rw [feed_start hstay]
        rfl
      · rw [concat_eq_append] at hbefore ⊢
        exact hall init ((prefix_append _ _).trans hbefore) last
    -- an LF tells the event at once
    have hlf := hall before hbefore [10]
    rw [feedAll_concat hsame, feed_eq hstay (scan_isText (by simp) _), feed_start hstay, flatten_append,
      flatten_singleton, scan_append] at hlf
    have hevents := congrArg (fun r => r.2.2) hlf
    rw [hsame] at hdata
    exact scan_torn (scan_line_of_cr (by simp) _) ((scan_cr _).mpr hcr) hdata (append_cancel_left hevents)
  · intro hnot before hbefore chunk
    rw [feedAll_eq hstay, feed_start hstay]
    intro before' chunk' after h
    refine hnot before' (List.IsPrefix.trans ?_ hbefore) chunk'
    have hfront : before' ++ [chunk'] <+: before ++ [chunk] := ⟨after, by rw [h]; simp⟩
    refine prefix_of_prefix_length_le ((prefix_append _ _).trans hfront) (prefix_append _ _) ?_
    have hlen := hfront.length_le
    simp only [length_append, length_singleton] at hlen
    omega

/-- One event with two lines of data, in two chunks. -/
theorem chunks_iff_lines :
    feedAll (fun _ => 0) {} [] [bytes "data: a\r\nda", bytes "ta: b\r\n\r\n"] =
      feed (fun _ => 0) {} [] [bytes "data: a\r\nda", bytes "ta: b\r\n\r\n"].flatten := by
  refine (chunks_iff (fun _ => 0) fun _ => rfl).1 _ fun before chunk after h => ?_
  rintro ⟨hcr, hlf, -⟩
  match before, h with
  | [], _ => simp at hcr
  | [_], h =>
    obtain ⟨-, rfl, -⟩ := by simpa using h
    exact absurd hlf (by decide)
  | _ :: _ :: _, h => simp at h

/-- The cut between the CR and the LF behind the first line: two events. -/
theorem not_feedAll_eq_torn :
    ¬∀ onEvent : OnEvent, (∀ log, onEvent log = 0) → ∀ chunks,
      feedAll onEvent {} [] chunks = feed onEvent {} [] chunks.flatten := by
  intro hall
  have h := hall (fun _ => 0) (fun _ => rfl) [bytes "data: a\r", bytes "\ndata: b\r\n\r\n"]
  exact absurd (congrArg (fun r => r.2.2.length) h) (by decide +kernel)

end Libx.Http.Sse
