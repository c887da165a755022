import Libx.Core.Heldback

/-!
# Libx.Tui.Md — markdown for the terminal, as it streams in

tui/md.c: a state machine over bytes, in front of which a character that is not complete is held back.
-/

namespace Libx.Tui

/-! ### Bytes -/

def backslash : UInt8 := 92
def star : UInt8 := 42
def underscore : UInt8 := 95
def backquote : UInt8 := 96
def hash : UInt8 := 35
def newline : UInt8 := 10
def space : UInt8 := 32

/-- `is_space_char`. -/
def isSpaceChar (x : UInt8) : Bool := x = space ∨ x = 9 ∨ x = newline ∨ x = 13

/-- `is_word_char`. -/
def isWordChar (x : UInt8) : Bool := 48 ≤ x ∧ x ≤ 57 ∨ 65 ≤ x ∧ x ≤ 90 ∨ 97 ≤ x ∧ x ≤ 122

/-- A byte of the switch that is not its default. -/
def isSpecial (x : UInt8) : Bool :=
  x = backslash ∨ x = star ∨ x = underscore ∨ x = backquote ∨ x = hash ∨ x = newline

def sgr (digits : List UInt8) : List UInt8 := [27, 91] ++ digits ++ [109]

def boldOn : List UInt8 := sgr [49]
def boldOff : List UInt8 := sgr [50, 50]
def italicOn : List UInt8 := sgr [51]
def italicOff : List UInt8 := sgr [50, 51]
def codeOn : List UInt8 := sgr [52]
def codeOff : List UInt8 := sgr [50, 52]
def sgrReset : List UInt8 := sgr [48]

/-! ### The state machine -/

/-- `xMd` without the bytes of a character that is not complete.  `out` is what the sink has got, and `dropped`
says that `pending_push` had no room for a byte. -/
structure MdState where
  hasSink : Bool := true
  bold : Bool := false
  italic : Bool := false
  code : Bool := false
  heading : Bool := false
  fence : Bool := false
  bol : Bool := true
  pending : List UInt8 := []
  lastChar : UInt8 := newline
  out : List UInt8 := []
  dropped : Bool := false
  deriving DecidableEq

namespace MdState

/-- `raw_n`. -/
def rawN (data : List UInt8) (md : MdState) : MdState :=
  if !md.hasSink then md
  else
    match data.getLast? with
    | none => md
    | some last => { md with out := md.out ++ data, lastChar := last }

/-- `pending_push`. -/
def pendingPush (c : UInt8) (md : MdState) : MdState :=
  if md.pending.length < 4 then { md with pending := md.pending ++ [c] } else { md with dropped := true }

def flushPendingLiteral (md : MdState) : MdState := { md.rawN md.pending with pending := [] }

/-- `emit_literal`. -/
def emitLiteral (c : UInt8) (md : MdState) : MdState := { md.rawN [c] with bol := c = newline }

def toggleBold (md : MdState) : MdState :=
  if md.bold then { md.rawN boldOff with bold := false } else { md.rawN boldOn with bold := true }

def toggleItalic (md : MdState) : MdState :=
  if md.italic then { md.rawN italicOff with italic := false } else { md.rawN italicOn with italic := true }

def toggleCode (md : MdState) : MdState :=
  if md.code then { md.rawN codeOff with code := false } else { md.rawN codeOn with code := true }

def fenceByte (c : UInt8) (md : MdState) : MdState :=
  if md.bol ∧ c = backquote then
    let md := md.pendingPush c
    if md.pending.length = 3 then { md.flushPendingLiteral with fence := false, bol := false } else md
  else md.flushPendingLiteral.emitLiteral c

end MdState

/-- What a byte comes to: the next one, or the switch behind what was pending. -/
inductive Flow
  | next (md : MdState)
  | fall (md : MdState)

namespace MdState

/-- What is pending is decided by the byte behind it. -/
def resolve (c : UInt8) (md : MdState) : Flow :=
  match md.pending with
  | [] => .fall md
  | p0 :: _ =>
    let n := md.pending.length
    let taken := { md with pending := [] }
    if p0 = backslash then
      if c = star ∨ c = underscore ∨ c = backquote ∨ c = hash ∨ c = backslash then
        .next { taken.rawN [c] with bol := false }
      else .next { taken.rawN [backslash, c] with bol := c = newline }
    else if p0 = star ∧ n = 1 then
      if c = star then .next (md.pendingPush c)
      -- a star at the beginning of a line with a blank behind it is a list item's
      else if md.bol ∧ c = space then .next (md.flushPendingLiteral.emitLiteral c)
      else .fall taken.toggleItalic
    else if p0 = star ∧ n = 2 then
      if c = star then .next taken.toggleBold.toggleItalic else .fall taken.toggleBold
    else if p0 = underscore then
      if md.italic = false ∧ isSpaceChar c then .fall { taken.rawN [underscore] with bol := false }
      else .fall taken.toggleItalic
    else if p0 = backquote then
      if n = 1 then
        if c = backquote then .next (md.pendingPush c) else .fall taken.toggleCode
      else if n = 2 then
        if c = backquote then
          if md.bol then .next { taken.rawN [backquote, backquote, backquote] with fence := true, bol := false }
          else .next { taken.rawN [backquote, backquote, backquote] with bol := false }
        else .fall { taken.rawN [backquote, backquote] with bol := false }
      else .fall md
    else if p0 = hash then
      if c = hash ∧ n < 3 then .next (md.pendingPush c)
      else if c = space then
        let md := (md.flushPendingLiteral).rawN [space]
        if md.bold then .next { md with heading := true, bol := false }
        else .next { md.rawN boldOn with bold := true, heading := true, bol := false }
      else .fall { md.flushPendingLiteral with bol := false }
    else .fall md

/-- The cases of the switch, but for its default. -/
def special (c : UInt8) (md : MdState) : MdState :=
  if c = underscore then
    if md.italic = false ∧ isWordChar md.lastChar then md.emitLiteral c else md.pendingPush c
  else if c = hash then
    if md.bol then md.pendingPush c else md.emitLiteral c
  else if c = newline then
    let md := if md.heading then { md.rawN boldOff with heading := false, bold := false } else md
    md.emitLiteral c
  else md.pendingPush c

/-- One round of the loop up to the default of the switch. -/
def round (c : UInt8) (md : MdState) : Flow :=
  if md.fence then .next (md.fenceByte c)
  else
    match md.resolve c with
    | .next md => .next md
    | .fall md => if isSpecial c then .next (md.special c) else .fall md

/-- The default of the switch: a run of bytes that are none of its cases. -/
def literalRun (data : List UInt8) (md : MdState) : MdState := { md.rawN data with bol := false }

/-- The loop of `xMdFeed`. -/
def feedLoop (md : MdState) : List UInt8 → MdState
  | [] => md
  | c :: rest =>
    match md.round c with
    | .next md => feedLoop md rest
    | .fall md =>
      feedLoop (md.literalRun (c :: rest.takeWhile (fun x => !isSpecial x)))
        (rest.dropWhile (fun x => !isSpecial x))
termination_by l => l.length
decreasing_by
  · exact Nat.lt_succ_self _
  · exact Nat.lt_succ_of_le (List.dropWhile_suffix _).length_le

end MdState

/-! ### The end of a chunk -/

def isContinuation (x : UInt8) : Bool := x &&& 0xC0 = 0x80

/-- The number of bytes that a leading byte declares. -/
def seqLen (lead : UInt8) : ℕ :=
  if lead ≥ 0xF0 then 4 else if lead ≥ 0xE0 then 3 else if lead ≥ 0xC0 then 2 else 1

/-- The last place at or before the given one that is not a continuation byte's, or the first place. -/
def walkBack (cur : List UInt8) : ℕ → ℕ
  | 0 => 0
  | p + 1 => if isContinuation (cur.getD (p + 1) 0) then walkBack cur p else p + 1

def leadTail (cur : List UInt8) : List UInt8 := cur.drop (walkBack cur (cur.length - 1))

/-- The bytes that are kept for the next chunk: the last sequence, if it is not complete. -/
def stash (cur : List UInt8) : List UInt8 :=
  match leadTail cur with
  | [] => []
  | lead :: rest => if 1 < seqLen lead ∧ (lead :: rest).length < seqLen lead then lead :: rest else []

/-- `xMd`. -/
structure Md extends MdState where
  utf8Pending : List UInt8 := []
  deriving DecidableEq

namespace Md

/-- `xMdInit`. -/
def init (hasSink : Bool) : Md := { hasSink }

/-- `xMdFeed`. -/
def feed (md : Md) (data : List UInt8) : Md :=
  if data = [] then md
  else
    let cur := md.utf8Pending ++ data
    let kept := stash cur
    { md.toMdState.feedLoop (cur.take (cur.length - kept.length)) with utf8Pending := kept }

def resolveEnd (md : MdState) : MdState :=
  match md.pending with
  | [] => md
  | p0 :: _ =>
    let n := md.pending.length
    let md' :=
      if p0 = star ∧ n = 2 then md.toggleBold
      else if p0 = star ∧ n = 1 ∧ md.italic then md.toggleItalic
      else if p0 = underscore ∧ md.italic then md.toggleItalic
      else if p0 = backquote ∧ n = 1 ∧ md.code then md.toggleCode
      else md.rawN md.pending
    { md' with pending := [] }

def closeSpans (md : MdState) : MdState :=
  if md.bold || md.italic || md.code || md.heading then
    { md.rawN sgrReset with bold := false, italic := false, code := false, heading := false }
  else md

/-- `xMdFlush`. -/
def flush (md : Md) : Md :=
  let s := closeSpans (resolveEnd (md.toMdState.rawN md.utf8Pending))
  { s with fence := false, bol := true, utf8Pending := [] }

/-- `xMdReset`. -/
def reset (md : Md) : Md :=
  let s := closeSpans { md.toMdState with pending := [] }
  { s with fence := false, bol := true, utf8Pending := [] }

end Md

end Libx.Tui
