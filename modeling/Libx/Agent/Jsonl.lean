import Libx.Agent.Message

/-!
# Libx.Agent.Jsonl — the lines of the JSONL store

`write_msg_line_` prints one message as a line of JSON, and `parse_line_` reads it back into an arena.
A byte is its code: 34 is the double quote, 92 the backslash, 44 the comma, 58 the colon, 123 and 125
the braces, 91 and 93 the brackets.
-/

namespace Libx.Agent

/-- A string that ends before its first NUL. -/
structure CStr where
  bytes : Bytes
  noNul : ∀ b ∈ bytes, b ≠ 0
  deriving DecidableEq

def cstr (b : Bytes) : CStr :=
  ⟨b.takeWhile (fun c => c ≠ 0), fun _ hc => by simpa using List.mem_takeWhile_imp hc⟩

@[ext] theorem CStr.ext {s t : CStr} (h : s.bytes = t.bytes) : s = t := by
  cases s
  cases t
  cases h
  rfl

@[simp] theorem cstr_bytes (s : CStr) : cstr s.bytes = s := by
  ext1
  exact List.takeWhile_eq_self_iff.mpr (fun b hb => by simpa using s.noNul b hb)

theorem cstr_sublist (b : Bytes) : (cstr b).bytes.Sublist b := List.takeWhile_sublist _

/-- `xAgentSessionEntryKind`. -/
inductive EntryKind
  | text | toolUse | toolResult | thinking
  deriving DecidableEq

/-- `xAgentSessionMsg`; `none` is a NULL pointer, a text or an output that is NULL is empty. -/
structure SessionMsg where
  role : Role := .system
  kind : EntryKind := .text
  text : Bytes := []
  toolUseId : Option CStr := none
  toolUseName : Option CStr := none
  toolUseArgs : Option CStr := none
  toolResultId : Option CStr := none
  toolResultOutput : Bytes := []
  toolResultIsError : Bool := false
  deriving DecidableEq

/-! ### The writer -/

/-- The digit `n` of `%x`. -/
def hexDigit (n : UInt8) : UInt8 := if n < 10 then 48 + n else 87 + n

/-- One byte of `write_json_str_`. -/
def escapeByte (c : UInt8) : Bytes :=
  if c = 34 then [92, 34]
  else if c = 92 then [92, 92]
  else if c = 10 then bytes "\\n"
  else if c = 13 then bytes "\\r"
  else if c = 9 then bytes "\\t"
  else if c < 32 then bytes "\\u00" ++ [hexDigit (c / 16), hexDigit (c % 16)]
  else [c]

/-- `write_json_str_`. -/
def writeJsonStr (s : Bytes) : Bytes := s.flatMap escapeByte

/-- `role_to_str_`. -/
def roleToStr : Role → Bytes
  | .system => bytes "system"
  | .user => bytes "user"
  | .assistant => bytes "assistant"
  | .tool => bytes "tool"
  | .summary => bytes "summary"

/-- `kind_to_str_`. -/
def kindToStr : EntryKind → Bytes
  | .text => bytes "text"
  | .toolUse => bytes "tool_use"
  | .toolResult => bytes "tool_result"
  | .thinking => bytes "thinking"

def keyOf (name : String) : Bytes := 44 :: 34 :: bytes name ++ [34, 58]

/-- A key and a value between quotes, the way it is given. -/
def strField (name : String) (v : Bytes) : Bytes := keyOf name ++ 34 :: v ++ [34]

/-- A field that is printed only when its pointer is not NULL. -/
def optField (field : Bytes → Bytes) : Option CStr → Bytes
  | none => []
  | some s => field s.bytes

def writePayload (m : SessionMsg) : Bytes :=
  match m.kind with
  | .text | .thinking => if m.text = [] then [] else strField "text" (writeJsonStr m.text)
  | .toolUse =>
    optField (strField "tool_use_id") m.toolUseId ++ optField (strField "tool_use_name") m.toolUseName ++
      optField (fun args => keyOf "tool_use_args" ++ args) m.toolUseArgs
  | .toolResult =>
    optField (strField "tool_result_id") m.toolResultId ++
      (if m.toolResultIsError then keyOf "is_error" ++ bytes "true" else []) ++
      (if m.toolResultOutput = [] then [] else strField "output" (writeJsonStr m.toolResultOutput))

def lineBody (ts : ℕ) (m : SessionMsg) : Bytes :=
  123 :: 34 :: bytes "ts" ++ 34 :: 58 :: decimal ts ++
    (strField "role" (roleToStr m.role) ++ (strField "kind" (kindToStr m.kind) ++ (writePayload m ++ [125])))

/-- `write_msg_line_`; `ts` is the stamp, or the wall clock for a message without one. -/
def writeMsgLine (ts : ℕ) (m : SessionMsg) : Bytes := lineBody ts m ++ [10]

/-! ### The reader -/

def isWs (b : UInt8) : Bool := b = 32 || b = 9 || b = 13 || b = 10

/-- `skip_ws_`. -/
def skipWs (src : Bytes) : Bytes := src.dropWhile isWs

/-- `match_lit_`. -/
def matchLit (lit : String) (src : Bytes) : Option Bytes :=
  if (bytes lit).isPrefixOf src then some (src.drop (bytes lit).length) else none

def hexDigitVal (h : UInt8) : Option ℕ :=
  if 48 ≤ h ∧ h ≤ 57 then some (h - 48).toNat
  else if 97 ≤ h ∧ h ≤ 102 then some ((h - 97).toNat + 10)
  else if 65 ≤ h ∧ h ≤ 70 then some ((h - 65).toNat + 10)
  else none

/-- The loop over the four digits of `\uXXXX`. -/
def hexVal : ℕ → Bytes → Option ℕ
  | v, [] => some v
  | v, h :: hs =>
    match hexDigitVal h with
    | none => none
    | some d => hexVal (16 * v + d) hs

/-- The replacement of an escape other than `\u`. -/
def unescape (e : UInt8) : Option UInt8 :=
  if e = 34 then some 34
  else if e = 92 then some 92
  else if e = 47 then some 47
  else if e = 110 then some 10
  else if e = 114 then some 13
  else if e = 116 then some 9
  else if e = 98 then some 8
  else if e = 102 then some 12
  else none

def readEscape : Bytes → Option (UInt8 × Bytes)
  | [] => none
  | e :: cs =>
    if e = 117 then
      match cs with
      | h1 :: h2 :: h3 :: h4 :: cs =>
        (hexVal 0 [h1, h2, h3, h4]).map (fun v => (if v ≤ 127 then UInt8.ofNat v else 63, cs))
      | _ => none
    else (unescape e).map (fun r => (r, cs))

/-- The loop of `parse_string_into_arena_` behind the opening quote: the bytes, what follows the
closing quote, and the arena's new offset.  Every round takes a byte of the source at least. -/
def parseChars (cap : ℕ) : ℕ → Bytes → ℕ → Option (Bytes × Bytes × ℕ)
  | 0, _, _ => none
  | _ + 1, [], _ => none
  | n + 1, c :: cs, off =>
    if c = 34 then if off + 1 > cap then none else some ([], cs, off + 1)
    else
      match if c = 92 then readEscape cs else some (c, cs) with
      | none => none
      | some (r, cs) =>
        if off + 1 > cap then none else (parseChars cap n cs (off + 1)).map (fun p => (r :: p.1, p.2))

/-- `parse_string_into_arena_`. -/
def parseStringIntoArena (cap : ℕ) (src : Bytes) (used : ℕ) : Option (Bytes × Bytes × ℕ) :=
  match src with
  | [] => none
  | c :: cs => if c = 34 then parseChars cap cs.length cs used else none

/-- Where the scan of a raw value is: outside strings, in one, or behind a backslash in one. -/
inductive Scan
  | out | str | esc
  deriving DecidableEq

/-- What follows the bracket that closes the first one, `d` brackets deep; only brackets of its own kind
outside strings are counted. -/
def bracketEnd (o c : UInt8) : ℕ → Scan → Bytes → Option Bytes
  | _, _, [] => none
  | d, .esc, _ :: bs => bracketEnd o c d .str bs
  | d, .str, b :: bs =>
    if b = 92 then bracketEnd o c d .esc bs
    else if b = 34 then bracketEnd o c d .out bs
    else bracketEnd o c d .str bs
  | d, .out, b :: bs =>
    if b = 34 then bracketEnd o c d .str bs
    else if b = o then bracketEnd o c (d + 1) .out bs
    else if b = c then if d = 1 then some bs else bracketEnd o c (d - 1) .out bs
    else bracketEnd o c d .out bs

/-- What follows the next unescaped quote, if there is one. -/
def stringEnd : Bool → Bytes → Bytes
  | _, [] => []
  | true, _ :: bs => stringEnd false bs
  | false, b :: bs => if b = 92 then stringEnd true bs else if b = 34 then bs else stringEnd false bs

def isDelim (b : UInt8) : Bool := b = 44 || b = 125 || b = 93 || isWs b

def rawEnd : Bytes → Option Bytes
  | [] => none
  | b :: bs =>
    if b = 123 then bracketEnd 123 125 0 .out (b :: bs)
    else if b = 91 then bracketEnd 91 93 0 .out (b :: bs)
    else if b = 34 then some (stringEnd false bs)
    else some ((b :: bs).dropWhile (fun b => !isDelim b))

/-- `parse_raw_value_into_arena_`. -/
def parseRawValueIntoArena (cap : ℕ) (src : Bytes) (used : ℕ) : Option (Bytes × Bytes × ℕ) :=
  match rawEnd src with
  | none => none
  | some rest =>
    let v := src.take (src.length - rest.length)
    if used + v.length + 1 > cap then none else some (v, rest, used + v.length + 1)

/-- A value by the branch that reads it. -/
inductive Value
  | str (v : Bytes)
  | flag (b : Bool)
  | null
  | raw (v : Bytes)

/-- The value dispatch of `parse_line_`. -/
def parseValue (cap : ℕ) (src : Bytes) (used : ℕ) : Option (Value × Bytes × ℕ) :=
  match src with
  | [] => none
  | b :: _ =>
    if b = 34 then (parseStringIntoArena cap src used).map (fun p => (.str p.1, p.2))
    else if b = 116 ∨ b = 102 ∨ b = 110 then
      match matchLit "true" src, matchLit "false" src, matchLit "null" src with
      | some rest, _, _ => some (.flag true, rest, used)
      | none, some rest, _ => some (.flag false, rest, used)
      | none, none, some rest => some (.null, rest, used)
      | none, none, none => none
    else (parseRawValueIntoArena cap src used).map (fun p => (.raw p.1, p.2))

def roleOf (v : Bytes) (r : Role) : Role :=
  if v = bytes "system" then .system
  else if v = bytes "user" then .user
  else if v = bytes "assistant" then .assistant
  else if v = bytes "tool" then .tool
  else if v = bytes "summary" then .summary
  else r

def kindOf (v : Bytes) (k : EntryKind) : EntryKind :=
  if v = bytes "text" then .text
  else if v = bytes "thinking" then .thinking
  else if v = bytes "tool_use" then .toolUse
  else if v = bytes "tool_result" then .toolResult
  else k

def setField (key : Bytes) (v : Value) (m : SessionMsg) : SessionMsg :=
  match v with
  | .str v =>
    if key = bytes "role" then { m with role := roleOf v m.role }
    else if key = bytes "kind" then { m with kind := kindOf v m.kind }
    else if key = bytes "text" then { m with text := v }
    else if key = bytes "tool_use_id" then { m with toolUseId := some (cstr v) }
    else if key = bytes "tool_use_name" then { m with toolUseName := some (cstr v) }
    else if key = bytes "tool_result_id" then { m with toolResultId := some (cstr v) }
    else if key = bytes "output" then { m with toolResultOutput := v }
    else m
  | .flag b => if key = bytes "is_error" then { m with toolResultIsError := b } else m
  | .null => m
  | .raw v => if key = bytes "tool_use_args" then { m with toolUseArgs := some (cstr v) } else m

def skipColon (src : Bytes) : Option Bytes :=
  match skipWs src with
  | [] => none
  | b :: bs => if b = 58 then some (skipWs bs) else none

/-- One round of `parse_line_`'s loop: a key, a colon and a value. -/
def parseField (cap : ℕ) (src : Bytes) (used : ℕ) (m : SessionMsg) : Option (SessionMsg × Bytes × ℕ) :=
  match parseStringIntoArena cap src used with
  | none => none
  | some (key, src, used) =>
    match skipColon src with
    | none => none
    | some src =>
      match parseValue cap src used with
      | none => none
      | some (v, src, used) => some (setField (cstr key).bytes v m, src, used)

/-- The loop of `parse_line_`; every round takes at least a byte of the line. -/
def parseLoop (cap : ℕ) : ℕ → Bool → Bytes → ℕ → SessionMsg → Option (SessionMsg × ℕ)
  | 0, _, _, _, _ => none
  | n + 1, first, src, used, m =>
    match skipWs src with
    | [] => none
    | b :: bs =>
      if b = 125 then some (m, used)
      else if first then
        match parseField cap (b :: bs) used m with
        | none => none
        | some (m, src, used) => parseLoop cap n false src used m
      else if b = 44 then
        match parseField cap (skipWs bs) used m with
        | none => none
        | some (m, src, used) => parseLoop cap n false src used m
      else none

/-- `parse_line_`. -/
def parseLine (cap : ℕ) (line : Bytes) (used : ℕ) : Option (SessionMsg × ℕ) :=
  match skipWs line with
  | [] => none
  | b :: bs => if b = 123 then parseLoop cap (line.length + 1) true bs used {} else none

end Libx.Agent
