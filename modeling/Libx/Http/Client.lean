import Libx.Agent.Message

/-!
# Libx.Http.Client — a client reads a response

What a client that conforms to HTTP/1.1 makes of the bytes of a connection: the status line, the fields, and how long the
body is.  It takes nothing for granted that it may refuse: a repeated Content-Length, a transfer coding other than chunked,
a control character in a field.
-/

namespace Libx.Http

open Libx.Agent (Bytes bytes)
open List Option

/-- What a request's method says of its response. -/
inductive Method
  | head
  | connect
  | other
  deriving DecidableEq

/-- A response as a client sees it. -/
structure Response where
  status : ℕ
  headers : List (Bytes × Bytes)
  body : Bytes
  deriving DecidableEq

namespace Client

/-! ### Bytes -/

def isDigit (b : UInt8) : Bool := 48 ≤ b && b ≤ 57

def isBlank (b : UInt8) : Bool := b = 32 || b = 9

def isTchar (b : UInt8) : Bool :=
  isDigit b || (65 ≤ b && b ≤ 90) || (97 ≤ b && b ≤ 122) ||
    [33, 35, 36, 37, 38, 39, 42, 43, 45, 46, 94, 95, 96, 124, 126].contains b

/-- A byte of a field value or a reason: no control character but the tab. -/
def isFieldByte (b : UInt8) : Bool := b = 9 || (32 ≤ b && b ≠ 127)

def hexDigit (b : UInt8) : Option ℕ :=
  if isDigit b then some (b.toNat - 48)
  else if 65 ≤ b ∧ b ≤ 70 then some (b.toNat - 55)
  else if 97 ≤ b ∧ b ≤ 102 then some (b.toNat - 87)
  else none

def lower (v : Bytes) : Bytes := v.map fun b => if 65 ≤ b ∧ b ≤ 90 then b + 32 else b

def trim (v : Bytes) : Bytes := (v.dropWhile isBlank).rdropWhile isBlank

def number (v : Bytes) : ℕ := v.foldl (fun n b => n * 10 + (b.toNat - 48)) 0

/-! ### The head -/

/-- The next line, without its end, and what follows. -/
def nextLine : Bytes → Option (Bytes × Bytes)
  | [] => none
  | b :: input =>
    if b = 13 ∧ input.head? = some 10 then some ([], input.tail) else (nextLine input).map fun p => (b :: p.1, p.2)

def readCode : Bytes → Option ℕ
  | a :: b :: c :: 32 :: reason =>
    if [a, b, c].all isDigit && reason.all isFieldByte then some (number [a, b, c]) else none
  | _ => none

def readStatus (line : Bytes) : Option ℕ :=
  if (bytes "HTTP/1.1 ").isPrefixOf line then readCode (line.drop 9) else none

/-- A field line: a name, a colon, and a value between blanks. -/
def readField (line : Bytes) : Option (Bytes × Bytes) :=
  match line.dropWhile isTchar with
  | 58 :: value =>
    if line.takeWhile isTchar = [] ∨ value.all isFieldByte = false then none else some (line.takeWhile isTchar, trim value)
  | _ => none

def readFields : ℕ → Bytes → Option (List (Bytes × Bytes) × Bytes)
  | 0, _ => none
  | n + 1, input => (nextLine input).bind fun p =>
    if p.1 = [] then some ([], p.2)
    else (readField p.1).bind fun f => (readFields n p.2).map fun q => (f :: q.1, q.2)

def values (name : String) (headers : List (Bytes × Bytes)) : List Bytes :=
  (headers.filter fun h => lower h.1 = bytes name).map Prod.snd

def Persists (headers : List (Bytes × Bytes)) : Prop :=
  ∀ v ∈ values "connection" headers, ∀ option ∈ v.splitOn 44, lower (trim option) ≠ bytes "close"

/-- A header that can be written in one line and read back. -/
structure Writable (h : Bytes × Bytes) : Prop where
  name : h.1 ≠ [] ∧ h.1.all isTchar = true
  value : h.2.all isFieldByte = true ∧ trim h.2 = h.2

/-! ### The body -/

def chunkSize (line : Bytes) : Option ℕ :=
  let digits := line.takeWhile fun b => (hexDigit b).isSome
  let rest := line.dropWhile fun b => (hexDigit b).isSome
  if digits = [] ∨ (rest ≠ [] ∧ rest.head? ≠ some 59) then none
  else some (digits.foldl (fun n b => n * 16 + (hexDigit b).getD 0) 0)

/-- The chunks of a body, up to the last, and its trailer. -/
def readChunks : ℕ → Bytes → Option (Bytes × Bytes)
  | 0, _ => none
  | n + 1, input => (nextLine input).bind fun p => (chunkSize p.1).bind fun size =>
    if size = 0 then (readFields p.2.length p.2).map fun q => ([], q.2)
    else if (p.2.drop size).take 2 = [13, 10] then
      (readChunks n (p.2.drop (size + 2))).map fun q => (p.2.take size ++ q.1, q.2)
    else none

/-- The response has no body, whatever its fields say. -/
def Bodiless (m : Method) (status : ℕ) : Prop :=
  m = .head ∨ status = 204 ∨ status = 304 ∨ m = .connect ∧ status / 100 = 2

instance (m : Method) (status : ℕ) : Decidable (Bodiless m status) := inferInstanceAs (Decidable (_ ∨ _ ∨ _ ∨ _ ∧ _))

/-- The body, and what follows; `closed` is whether the connection ends after the input. -/
def readBody (m : Method) (status : ℕ) (headers : List (Bytes × Bytes)) (closed : Bool) (input : Bytes) :
    Option (Bytes × Bytes) :=
  if Bodiless m status then some ([], input)
  else
    match values "transfer-encoding" headers with
    | [] =>
      match values "content-length" headers with
      | [] => if closed then some (input, []) else none
      | [v] =>
        if v ≠ [] ∧ v.all isDigit = true ∧ number v ≤ input.length then some (input.take (number v), input.drop (number v))
        else none
      | _ => none
    | [v] => if lower v = bytes "chunked" then readChunks input.length input else none
    | _ => none

/-- The response to a request, and where the next one starts.  An interim response is not the response. -/
def readResponse (m : Method) (closed : Bool) (input : Bytes) : Option (Response × Bytes) :=
  (nextLine input).bind fun p => (readStatus p.1).bind fun status => (readFields p.2.length p.2).bind fun q =>
    if status < 200 then none
    else (readBody m status q.1 closed q.2).map fun r => (⟨status, q.1, r.1⟩, r.2)

/-! ### Lines and fields -/

variable {input line rest payload : Bytes} {h : Bytes × Bytes} {hs : List (Bytes × Bytes)} {n : ℕ}

theorem nextLine_append (hl : (13 : UInt8) ∉ line) (rest : Bytes) : nextLine (line ++ 13 :: 10 :: rest) = some (line, rest) := by
  induction line with
  | nil => rfl
  | cons b line ih =>
    rw [mem_cons, not_or] at hl
    rw [cons_append, nextLine, if_neg fun hb => hl.1 hb.1.symm, ih hl.2]
    rfl

theorem eq_of_nextLine (h : nextLine input = some (line, rest)) : input = line ++ 13 :: 10 :: rest := by
  induction input generalizing line with
  | nil => cases h
  | cons b input ih =>
    rw [nextLine] at h
    split_ifs at h with hb
    · cases h
      obtain ⟨rfl, hb⟩ := hb
      cases input with
      | nil => cases hb
      | cons c input =>
        cases hb
        rfl
    · obtain ⟨⟨l, r⟩, hl, hp⟩ := map_eq_some_iff.1 h
      cases hp
      rw [ih hl]
      rfl

theorem trim_trim (v : Bytes) : trim (trim v) = trim v := by
  have hhead : (trim v).dropWhile isBlank = trim v := by
    rw [dropWhile_eq_self_iff]
    intro hpos
    have hpre : trim v <+: v.dropWhile isBlank := rdropWhile_prefix ..
    have hpos' : 0 < (v.dropWhile isBlank).length := Nat.lt_of_lt_of_le hpos hpre.length_le
    have hget : (trim v)[0] = (v.dropWhile isBlank)[0] := hpre.getElem hpos
    rw [hget]
    simpa using dropWhile_get_zero_not isBlank v hpos'
  rw [trim, hhead, trim, rdropWhile_idempotent]

theorem readField_line (hw : Writable h) : readField (h.1 ++ bytes ": " ++ h.2) = some h := by
  obtain ⟨k, v⟩ := h
  obtain ⟨⟨hne, hk⟩, hv, htrim⟩ := hw
  have htoken : ∀ b ∈ k, isTchar b = true := all_eq_true.1 hk
  have hdrop : (k ++ bytes ": " ++ v).dropWhile isTchar = 58 :: 32 :: v := by
    rw [append_assoc, dropWhile_append_of_pos htoken]
    rfl
  have htake : (k ++ bytes ": " ++ v).takeWhile isTchar = k := by
    rw [append_assoc, takeWhile_append_of_pos htoken]
    exact List.append_nil k
  have hvalue : (32 :: v).all isFieldByte = true := by simpa [isFieldByte] using hv
  have hno : ¬(k = [] ∨ (32 :: v).all isFieldByte = false) := by simp [hne, hvalue]
  rw [readField, hdrop, htake]
  exact (if_neg hno).trans (congrArg (fun w => some (k, w)) htrim)

theorem writable_of_readField (h' : readField line = some h) : Writable h := by
  rw [readField] at h'
  split at h'
  · next value _ =>
    obtain ⟨hno, h'⟩ := ite_none_left_eq_some.1 h'
    cases h'
    rw [not_or, Bool.not_eq_false] at hno
    refine ⟨⟨hno.1, ?_⟩, ?_, trim_trim value⟩
    · exact all_eq_true.2 fun b hb => mem_takeWhile_imp hb
    · refine all_eq_true.2 fun b hb => all_eq_true.1 hno.2 b ?_
      exact (dropWhile_sublist _).subset ((List.rdropWhile_prefix ..).subset hb)
  · cases h'

theorem readFields_nil (n : ℕ) (rest : Bytes) : readFields (n + 1) (13 :: 10 :: rest) = some ([], rest) := rfl

theorem not_mem_of_isFieldByte {v : Bytes} (hv : v.all isFieldByte = true) : (13 : UInt8) ∉ v :=
  fun h => Bool.false_ne_true (all_eq_true.1 hv 13 h)

theorem Writable.not_mem (hw : Writable h) : (13 : UInt8) ∉ h.1 ++ bytes ": " ++ h.2 := by
  rw [mem_append, mem_append]
  rintro ((hk | hc) | hv)
  · exact Bool.false_ne_true (all_eq_true.1 hw.name.2 13 hk)
  · exact absurd hc (by decide)
  · exact not_mem_of_isFieldByte hw.value.1 hv

theorem readFields_lines (hw : ∀ h ∈ hs, Writable h) (hn : hs.length < n) :
    readFields n ((hs.flatMap fun h => h.1 ++ bytes ": " ++ h.2 ++ [13, 10]) ++ 13 :: 10 :: payload) = some (hs, payload) := by
  induction hs generalizing n with
  | nil =>
    obtain ⟨n, rfl⟩ := Nat.exists_eq_succ_of_ne_zero (Nat.ne_zero_of_lt hn)
    exact readFields_nil n payload
  | cons h hs ih =>
    obtain ⟨n, rfl⟩ := Nat.exists_eq_succ_of_ne_zero (Nat.ne_zero_of_lt hn)
    have hh := hw h mem_cons_self
    have hne : h.1 ++ bytes ": " ++ h.2 ≠ [] := by simp [hh.name.1]
    have hih := ih (fun g hg => hw g (mem_cons_of_mem _ hg)) (Nat.lt_of_succ_lt_succ hn)
    rw [flatMap_cons, append_assoc, append_assoc, readFields]
    change (nextLine ((h.1 ++ bytes ": " ++ h.2) ++ 13 :: 10 :: _)).bind _ = _
    rw [nextLine_append hh.not_mem, bind_some, if_neg hne, readField_line hh, bind_some]
    exact congrArg (Option.map fun q : List (Bytes × Bytes) × Bytes => (h :: q.1, q.2)) hih

theorem of_readFields (h' : readFields n input = some (hs, rest)) : (∀ h ∈ hs, Writable h) ∧ rest.length + 2 ≤ input.length := by
  induction n generalizing input hs with
  | zero => cases h'
  | succ n ih =>
    obtain ⟨⟨line, more⟩, hline, h'⟩ := bind_eq_some_iff.1 h'
    have hin := congrArg List.length (eq_of_nextLine hline)
    simp only [length_append, length_cons] at hin
    split_ifs at h' with hnil
    · cases h'
      exact ⟨fun h hh => absurd hh not_mem_nil, by dsimp only; omega⟩
    · obtain ⟨f, hf, h'⟩ := bind_eq_some_iff.1 h'
      obtain ⟨⟨fs, r⟩, hfs, h'⟩ := map_eq_some_iff.1 h'
      cases h'
      obtain ⟨hw, hlen⟩ := ih hfs
      dsimp only at hlen
      refine ⟨fun h hh => ?_, by dsimp only; omega⟩
      rcases mem_cons.1 hh with rfl | hh
      · exact writable_of_readField hf
      · exact hw h hh

theorem values_append (name : String) (hs hs' : List (Bytes × Bytes)) :
    values name (hs ++ hs') = values name hs ++ values name hs' := by
  rw [values, filter_append, map_append]
  rfl

/-! ### Bodies -/

theorem length_of_readChunks {body : Bytes} (h' : readChunks n input = some (body, rest)) :
    body.length + rest.length < input.length := by
  induction n generalizing input body with
  | zero => cases h'
  | succ n ih =>
    obtain ⟨⟨line, more⟩, hline, h'⟩ := bind_eq_some_iff.1 h'
    obtain ⟨size, -, h'⟩ := bind_eq_some_iff.1 h'
    have hin := congrArg List.length (eq_of_nextLine hline)
    simp only [length_append, length_cons] at hin h'
    split_ifs at h' with hzero hend
    · obtain ⟨⟨fs, r⟩, hfs, h'⟩ := map_eq_some_iff.1 h'
      cases h'
      have := (of_readFields hfs).2
      simp only [length_nil]
      omega
    · obtain ⟨⟨b, r⟩, hb, h'⟩ := map_eq_some_iff.1 h'
      cases h'
      have hlt := ih hb
      have htwo := congrArg List.length hend
      simp only [length_take, length_drop, length_cons, length_nil] at hlt htwo
      simp only [length_append, length_take]
      omega

end Client

end Libx.Http
