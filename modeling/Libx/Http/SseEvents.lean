import Libx.Core.Lockstep
import Libx.Core.Split
import Libx.Http.Sse

/-!
# Libx.Http.SseEvents — the events of a stream
-/

namespace Libx.Http.Sse

open Libx.Agent (Bytes CStr cstr bytes)
open Libx.Core (Along cut)
open List

/-! ### The interpretation -/

/-- The complete lines; an LF behind a CR ends none. -/
def lines (line : Bytes) (cr : Bool) : Bytes → List Bytes
  | [] => []
  | b :: rest =>
    if cr = true ∧ b = 10 then lines line false rest
    else if b = 10 ∨ b = 13 then line :: lines [] (b = 13) rest
    else lines (line ++ [b]) false rest

def mark : Bytes := [0xEF, 0xBB, 0xBF]

/-- An event of the interpretation, with the retry time as it is then, or -1. -/
structure Message where
  type : Bytes
  data : Bytes
  id : Bytes
  retry : ℤ
  deriving DecidableEq

/-- The event type buffer, the data buffer, the last event ID and the reconnection time. -/
structure Buffers where
  type : Bytes := []
  data : Bytes := []
  id : Bytes := []
  retry : Option ℕ := none
  deriving DecidableEq

namespace Buffers

def split (line : Bytes) : Bytes × Bytes :=
  match cut 58 line with
  | none => (line, [])
  | some (name, value) => (name, if value.head? = some 32 then value.tail else value)

def isDigits (value : Bytes) : Bool := value ≠ [] && value.all fun b => 48 ≤ b && b ≤ 57

def number (digits : Bytes) : ℕ := digits.foldl (fun n b => 10 * n + (b.toNat - 48)) 0

def field (b : Buffers) (name value : Bytes) : Buffers :=
  if name = bytes "event" then { b with type := value }
  else if name = bytes "data" then { b with data := b.data ++ value ++ [10] }
  else if name = bytes "id" then if 0 ∈ value then b else { b with id := value }
  else if name = bytes "retry" then if isDigits value then { b with retry := some (number value) } else b
  else b

def message (b : Buffers) : Message where
  type := if b.type = [] then bytes "message" else b.type
  data := b.data.dropLast
  id := b.id
  retry := b.retry.elim (-1) Int.ofNat

/-- A line: a blank one dispatches and in every case resets the data and the type, and one that begins with a colon is a
comment. -/
def line (b : Buffers) (line : Bytes) : Buffers × List Message :=
  if line = [] then ({ b with type := [], data := [] }, if b.data = [] then [] else [b.message])
  else if line.head? = some 58 then (b, [])
  else (b.field (split line).1 (split line).2, [])

def next (r : Buffers × List Message) (l : Bytes) : Buffers × List Message := ((r.1.line l).1, r.2 ++ (r.1.line l).2)

end Buffers

/-- The buffers and the events of a stream; a byte order mark at its start is no part of it. -/
def interpret (stream : Bytes) : Buffers × List Message :=
  (lines [] false (if mark <+: stream then stream.drop mark.length else stream)).foldl Buffers.next ({}, [])

/-! ### What the parser does with the same lines -/

def SseEvent.message (e : SseEvent) : Message where
  type := e.event.bytes
  data := e.data.bytes
  id := e.id.elim [] CStr.bytes
  retry := e.retry.toInt

/-- **The fields are the buffers.** -/
structure Same (f : Fields) (b : Buffers) : Prop where
  type : f.eventType.elim [] CStr.bytes = b.type
  data : f.data.elim [] (fun data => data.bytes ++ [10]) = b.data
  id : f.id.elim [] CStr.bytes = b.id
  retry : f.retry.toInt = b.retry.elim (-1) Int.ofNat

/-- **The parser follows the rules**: it tells the events of the interpretation, and has its buffers, with the stream and
with every beginning of it. -/
def Interprets (onEvent : OnEvent) (stream : Bytes) : Prop :=
  ∀ u, u <+: stream →
    Same (feed onEvent {} [] u).2.1.toFields (interpret u).1 ∧
      (feed onEvent {} [] u).2.2.map SseEvent.message = (interpret u).2

/-- The field that a line sets is the same for both: no NUL ends the name or the value, an empty id comes where there is
none, and a retry time fits. -/
def CleanField (f : Fields) (name value : Bytes) : Prop :=
  let type := f.eventType.elim [] CStr.bytes
  let id := f.id.elim [] CStr.bytes
  if 0 ∈ name then
    -- the rules ignore it: it sets nothing, or what is set already
    ((cstr name).bytes = bytes "event" → (cstr value).bytes = type) ∧
    (cstr name).bytes ≠ bytes "data" ∧
    ((cstr name).bytes = bytes "id" → value = [] ∨ 0 ∈ value ∨ value = id) ∧
    ((cstr name).bytes = bytes "retry" → Buffers.isDigits value = true → atoi value = f.retry)
  else
    (name = bytes "event" → 0 ∉ value) ∧
    (name = bytes "data" → 0 ∉ value) ∧
    (name = bytes "id" → value = [] → id = []) ∧
    (name = bytes "retry" → Buffers.isDigits value = true → Buffers.number value < 2 ^ 31)

/-- A line that both take for the same: a blank one without data comes without a type, and one with data not with an
empty type. -/
def Clean (f : Fields) (line : Bytes) : Prop :=
  if line = [] then
    if f.data = none then f.eventType.elim [] CStr.bytes = [] else ∀ type ∈ f.eventType, type.bytes ≠ []
  else if line.head? = some 58 then True
  else CleanField f (Buffers.split line).1 (Buffers.split line).2

instance (f : Fields) (name value : Bytes) : Decidable (CleanField f name value) :=
  inferInstanceAs (Decidable (if 0 ∈ name then
    ((cstr name).bytes = bytes "event" → (cstr value).bytes = f.eventType.elim [] CStr.bytes) ∧
    (cstr name).bytes ≠ bytes "data" ∧
    ((cstr name).bytes = bytes "id" → value = [] ∨ 0 ∈ value ∨ value = f.id.elim [] CStr.bytes) ∧
    ((cstr name).bytes = bytes "retry" → Buffers.isDigits value = true → atoi value = f.retry)
  else
    (name = bytes "event" → 0 ∉ value) ∧
    (name = bytes "data" → 0 ∉ value) ∧
    (name = bytes "id" → value = [] → f.id.elim [] CStr.bytes = []) ∧
    (name = bytes "retry" → Buffers.isDigits value = true → Buffers.number value < 2 ^ 31)))

instance (f : Fields) (line : Bytes) : Decidable (Clean f line) :=
  inferInstanceAs (Decidable (if line = [] then
    if f.data = none then f.eventType.elim [] CStr.bytes = [] else ∀ type ∈ f.eventType, type.bytes ≠ []
  else if line.head? = some 58 then True
  else CleanField f (Buffers.split line).1 (Buffers.split line).2))

/-- A line of the parser, with the events so far. -/
def next (r : Fields × List SseEvent) (line : Bytes) : Fields × List SseEvent :=
  ((endLine r.1 line).1, r.2 ++ (endLine r.1 line).2)

/-- **The streams of clean lines**; behind a byte order mark, the first line sets nothing. -/
def Clear (stream : Bytes) : Prop :=
  if mark <+: stream then
    match lines [] false (stream.drop mark.length) with
    | [] => True
    | line :: rest => Buffers.line {} line = ({}, []) ∧ Along next (fun r => Clean r.1) ({}, []) rest
  else Along next (fun r => Clean r.1) ({}, []) (lines [] false stream)

/-! ### One line -/

variable {f : Fields} {b : Buffers}

theorem splitField_eq (line : Bytes) : splitField line = Buffers.split line := by
  unfold splitField Buffers.split
  rw [Core.cut_eq_findIdx]
  cases line.findIdx? (· = 58) with
  | none => rfl
  | some colon =>
    dsimp only [Option.map]
    rw [drop_one]

theorem cstr_eq {bs : Bytes} (h : 0 ∉ bs) : (cstr bs).bytes = bs :=
  takeWhile_eq_self_iff.2 fun c hc => by simpa using fun h0 : c = 0 => h (h0 ▸ hc)

theorem length_cstr {bs : Bytes} : (cstr bs).bytes.length = bs.length ↔ 0 ∉ bs := by
  constructor
  · intro h h0
    have heq : (cstr bs).bytes = bs := (Libx.Agent.cstr_sublist bs).eq_of_length h
    rw [← heq] at h0
    exact (cstr bs).noNul 0 h0 rfl
  · intro h
    rw [cstr_eq h]

theorem blank_iff (h : Same f b) :
    Same (endLine f []).1 (b.line []).1 ∧ (endLine f []).2.map SseEvent.message = (b.line []).2 ↔ Clean f [] := by
  have htype := h.type
  have hdata := h.data
  unfold Buffers.line Clean
  rw [if_pos rfl, if_pos rfl]
  cases hd : f.data with
  | none =>
    have hend : endLine f [] = (f, []) := by
      unfold endLine
      rw [if_pos rfl, hd]
    rw [hd] at hdata
    have hdata : b.data = [] := hdata.symm
    rw [hend, if_pos rfl, if_pos hdata]
    constructor
    · rintro ⟨hsame, -⟩
      exact hsame.type
    · exact fun hempty => ⟨⟨hempty, by rw [hd]; rfl, h.id, h.retry⟩, rfl⟩
  | some data =>
    have hend : endLine f [] = (f.resetEvent, [f.toEvent data]) := by
      unfold endLine
      rw [if_pos rfl, hd]
    rw [hd] at hdata
    have hne : b.data ≠ [] := by
      rw [← hdata]
      simp
    have hlast : b.data.dropLast = data.bytes := by
      rw [← hdata]
      exact dropLast_concat
    rw [hend, if_neg hne, if_neg (show some data ≠ none from nofun)]
    have hreset : Same f.resetEvent { b with type := [], data := [] } := ⟨rfl, rfl, h.id, h.retry⟩
    have hmessage : (f.toEvent data).message = b.message ↔
        (f.eventType.getD (cstr (bytes "message"))).bytes = if b.type = [] then bytes "message" else b.type := by
      rw [Message.mk.injEq]
      exact ⟨fun he => he.1, fun he => ⟨he, hlast.symm, h.id, h.retry⟩⟩
    rw [map_cons, map_nil, List.cons.injEq, hmessage, ← htype]
    cases f.eventType with
    | none => exact iff_of_true ⟨hreset, rfl, rfl⟩ nofun
    | some type =>
      show _ ∧ (type.bytes = if type.bytes = [] then bytes "message" else type.bytes) ∧ _ ↔ _
      constructor
      · rintro ⟨-, heq, -⟩ _ ⟨⟩ hempty
        rw [if_pos hempty, hempty] at heq
        exact absurd heq (by decide)
      · exact fun hne => ⟨hreset, (if_neg (hne type rfl)).symm, rfl⟩

/-- What `parse_sse_field` does with a name and a value. -/
def setField (f : Fields) (field value : Bytes) : Fields :=
  if field = bytes "event" then { f with eventType := some (cstr value) }
  else if field = bytes "data" then
    match f.data with
    | some data => { f with data := some (joinLine data (cstr value)) }
    | none => { f with data := some (cstr value) }
  else if field = bytes "id" then
    if value ≠ [] ∧ (cstr value).bytes.length = value.length then { f with id := some (cstr value) } else f
  else if field = bytes "retry" then
    if value ≠ [] ∧ value.all (fun b => 48 ≤ b && b ≤ 57) then { f with retry := atoi value } else f
  else f

theorem parseField_eq (f : Fields) {line : Bytes} (hcomment : line.head? ≠ some 58) :
    parseField f line = setField f (cstr (Buffers.split line).1).bytes (Buffers.split line).2 := by
  unfold parseField
  rw [if_neg hcomment, splitField_eq]
  rfl

variable {value : Bytes}

theorem id_iff : value ≠ [] ∧ (cstr value).bytes.length = value.length ↔ value ≠ [] ∧ 0 ∉ value := by
  rw [length_cstr]

theorem isDigits_iff :
    (value ≠ [] ∧ (value.all fun b => 48 ≤ b && b ≤ 57) = true) ↔ Buffers.isDigits value = true := by
  unfold Buffers.isDigits
  rw [Bool.and_eq_true, decide_eq_true_eq]

theorem data_set (f : Fields) (value : Bytes) :
    (setField f (bytes "data") value).data.elim [] (fun data => data.bytes ++ [10]) =
      f.data.elim [] (fun data => data.bytes ++ [10]) ++ (cstr value).bytes ++ [10] := by
  have hset : setField f (bytes "data") value =
      match f.data with
      | some data => { f with data := some (joinLine data (cstr value)) }
      | none => { f with data := some (cstr value) } := by
    unfold setField
    rw [if_neg (by decide), if_pos rfl]
  rw [hset]
  cases f.data with
  | none => rfl
  | some data =>
    show data.bytes ++ 10 :: (cstr value).bytes ++ [10] = data.bytes ++ [10] ++ (cstr value).bytes ++ [10]
    simp

theorem same_data (f : Fields) (value : Bytes) : (setField f (bytes "data") value).eventType = f.eventType ∧
    (setField f (bytes "data") value).id = f.id ∧ (setField f (bytes "data") value).retry = f.retry := by
  unfold setField
  rw [if_neg (by decide), if_pos rfl]
  cases f.data with
  | none | some data => exact ⟨rfl, rfl, rfl⟩

theorem names (n : Bytes) : n = bytes "event" ∨ n = bytes "data" ∨ n = bytes "id" ∨ n = bytes "retry" ∨
    (n ≠ bytes "event" ∧ n ≠ bytes "data" ∧ n ≠ bytes "id" ∧ n ≠ bytes "retry") := by
  tauto

theorem nul_iff (h : Same f b) {name : Bytes} (h0 : 0 ∈ name) :
    Same (setField f (cstr name).bytes value) b ↔ CleanField f name value := by
  unfold CleanField
  rw [if_pos h0]
  generalize (cstr name).bytes = n
  rcases names n with rfl | rfl | rfl | rfl | ⟨he, hd, hi, hr⟩
  · have hset : setField f (bytes "event") value = { f with eventType := some (cstr value) } := if_pos rfl
    rw [hset, h.type]
    constructor
    · exact fun hs => ⟨fun _ => hs.type, by decide, fun he => absurd he (by decide), fun he => absurd he (by decide)⟩
    · exact fun hc => ⟨hc.1 rfl, h.data, h.id, h.retry⟩
  · refine iff_of_false (fun hs => ?_) fun hc => hc.2.1 rfl
    -- the data is longer now
    have hlong := hs.data.trans h.data.symm
    rw [data_set] at hlong
    have := congrArg List.length hlong
    simp at this
  · unfold setField
    rw [if_neg (by decide), if_neg (by decide), if_pos rfl]
    by_cases hv : value ≠ [] ∧ (cstr value).bytes.length = value.length
    · obtain ⟨hne, hnul⟩ := id_iff.1 hv
      rw [if_pos hv, h.id]
      constructor
      · intro hs
        have hid : (cstr value).bytes = b.id := hs.id
        rw [cstr_eq hnul] at hid
        exact ⟨fun he => absurd he (by decide), by decide, fun _ => .inr (.inr hid), fun he => absurd he (by decide)⟩
      · intro hc
        refine ⟨h.type, h.data, ?_, h.retry⟩
        rcases hc.2.2.1 rfl with he | he | he
        · exact absurd he hne
        · exact absurd he hnul
        · exact (cstr_eq hnul).trans he
    · rw [if_neg hv]
      refine iff_of_true h ⟨fun he => absurd he (by decide), by decide, fun _ => ?_, fun he => absurd he (by decide)⟩
      rw [id_iff] at hv
      tauto
  · unfold setField
    rw [if_neg (by decide), if_neg (by decide), if_neg (by decide), if_pos rfl]
    by_cases hv : value ≠ [] ∧ (value.all fun b => 48 ≤ b && b ≤ 57) = true
    · rw [if_pos hv]
      constructor
      · intro hs
        have hretry : (atoi value).toInt = f.retry.toInt := hs.retry.trans h.retry.symm
        exact ⟨fun he => absurd he (by decide), by decide, fun he => absurd he (by decide),
          fun _ _ => Int32.toInt_inj.1 hretry⟩
      · intro hc
        have hretry := hc.2.2.2 rfl (isDigits_iff.1 hv)
        exact ⟨h.type, h.data, h.id, hretry ▸ h.retry⟩
    · rw [if_neg hv]
      rw [isDigits_iff] at hv
      exact iff_of_true h
        ⟨fun he => absurd he (by decide), by decide, fun he => absurd he (by decide), fun _ hd => absurd hd hv⟩
  · have hset : setField f n value = f := by
      unfold setField
      rw [if_neg he, if_neg hd, if_neg hi, if_neg hr]
    rw [hset]
    exact iff_of_true h ⟨fun h => absurd h he, hd, fun h => absurd h hi, fun h => absurd h hr⟩

theorem toInt_atoi : (atoi value).toInt = Int.ofNat (Buffers.number value) ↔ Buffers.number value < 2 ^ 31 := by
  have hatoi : atoi value = Int32.ofNat (min (Buffers.number value) (2 ^ 63 - 1)) := rfl
  have hlt := (atoi value).toInt_lt
  constructor
  · intro h
    rw [h] at hlt
    exact Int.ofNat_lt.1 hlt
  · intro h
    rw [hatoi, min_eq_left (by omega)]
    exact Int32.toInt_ofNat_of_lt h

theorem field_iff (h : Same f b) {name : Bytes} (h0 : 0 ∉ name) :
    Same (setField f name value) (b.field name value) ↔ CleanField f name value := by
  unfold CleanField
  rw [if_neg h0]
  rcases names name with rfl | rfl | rfl | rfl | ⟨he, hd, hi, hr⟩
  · have hset : setField f (bytes "event") value = { f with eventType := some (cstr value) } := if_pos rfl
    have hfield : b.field (bytes "event") value = { b with type := value } := if_pos rfl
    rw [hset, hfield]
    constructor
    · intro hs
      have heq : (cstr value).bytes = value := hs.type
      have hnul : 0 ∉ value := length_cstr.1 (congrArg List.length heq)
      exact ⟨fun _ => hnul, fun he => absurd he (by decide), fun he => absurd he (by decide),
        fun he => absurd he (by decide)⟩
    · exact fun hc => ⟨cstr_eq (hc.1 rfl), h.data, h.id, h.retry⟩
  · have hfield : b.field (bytes "data") value = { b with data := b.data ++ value ++ [10] } := by
      unfold Buffers.field
      rw [if_neg (by decide), if_pos rfl]
    obtain ⟨htype, hid, hretry⟩ := same_data f value
    have hdata := data_set f value
    rw [h.data] at hdata
    rw [hfield]
    constructor
    · intro hs
      have heq : (cstr value).bytes = value :=
        append_cancel_left (append_cancel_right (hdata.symm.trans hs.data))
      have hnul : 0 ∉ value := length_cstr.1 (congrArg List.length heq)
      exact ⟨fun he => absurd he (by decide), fun _ => hnul, fun he => absurd he (by decide),
        fun he => absurd he (by decide)⟩
    · intro hc
      rw [cstr_eq (hc.2.1 rfl)] at hdata
      exact ⟨htype ▸ h.type, hdata, hid ▸ h.id, hretry ▸ h.retry⟩
  · have hfield : b.field (bytes "id") value = if 0 ∈ value then b else { b with id := value } := by
      unfold Buffers.field
      rw [if_neg (by decide), if_neg (by decide), if_pos rfl]
    rw [hfield]
    unfold setField
    rw [if_neg (by decide), if_neg (by decide), if_pos rfl]
    have hother : (∀ p : Prop, bytes "id" = bytes "event" → p) ∧ (∀ p : Prop, bytes "id" = bytes "data" → p) ∧
        ∀ p : Prop, bytes "id" = bytes "retry" → p :=
      ⟨fun _ he => absurd he (by decide), fun _ he => absurd he (by decide), fun _ he => absurd he (by decide)⟩
    by_cases hnul : 0 ∈ value
    · have hv : ¬(value ≠ [] ∧ (cstr value).bytes.length = value.length) := fun hv => (id_iff.1 hv).2 hnul
      rw [if_pos hnul, if_neg hv]
      have hne : value ≠ [] := ne_nil_of_mem hnul
      exact iff_of_true h ⟨hother.1 _, hother.2.1 _, fun _ hempty => absurd hempty hne, hother.2.2 _⟩
    rw [if_neg hnul]
    by_cases hempty : value = []
    · rw [if_neg (fun hv => hv.1 hempty), hempty]
      constructor
      · exact fun hs => ⟨hother.1 _, hother.2.1 _, fun _ _ => hs.id, hother.2.2 _⟩
      · exact fun hc => ⟨h.type, h.data, hc.2.2.1 rfl rfl, h.retry⟩
    · rw [if_pos (id_iff.2 ⟨hempty, hnul⟩)]
      exact iff_of_true ⟨h.type, h.data, cstr_eq hnul, h.retry⟩
        ⟨hother.1 _, hother.2.1 _, fun _ he => absurd he hempty, hother.2.2 _⟩
  · have hfield : b.field (bytes "retry") value =
        if Buffers.isDigits value = true then { b with retry := some (Buffers.number value) } else b := by
      unfold Buffers.field
      rw [if_neg (by decide), if_neg (by decide), if_neg (by decide), if_pos rfl]
    rw [hfield]
    unfold setField
    rw [if_neg (by decide), if_neg (by decide), if_neg (by decide), if_pos rfl]
    by_cases hv : Buffers.isDigits value = true
    · rw [if_pos (isDigits_iff.2 hv), if_pos hv]
      constructor
      · exact fun hs => ⟨fun he => absurd he (by decide), fun he => absurd he (by decide),
          fun he => absurd he (by decide), fun _ _ => toInt_atoi.1 hs.retry⟩
      · exact fun hc => ⟨h.type, h.data, h.id, toInt_atoi.2 (hc.2.2.2 rfl hv)⟩
    · rw [if_neg (mt isDigits_iff.1 hv), if_neg hv]
      exact iff_of_true h ⟨fun he => absurd he (by decide), fun he => absurd he (by decide),
        fun he => absurd he (by decide), fun _ hd => absurd hd hv⟩
  · have hset : setField f name value = f := by
      unfold setField
      rw [if_neg he, if_neg hd, if_neg hi, if_neg hr]
    have hfield : b.field name value = b := by
      unfold Buffers.field
      rw [if_neg he, if_neg hd, if_neg hi, if_neg hr]
    rw [hset, hfield]
    exact iff_of_true h ⟨fun h => absurd h he, fun h => absurd h hd, fun h => absurd h hi, fun h => absurd h hr⟩

/-- **One line** keeps the fields the buffers, and tells the same, exactly when it is clean. -/
theorem line_iff (h : Same f b) (line : Bytes) :
    Same (endLine f line).1 (b.line line).1 ∧ (endLine f line).2.map SseEvent.message = (b.line line).2 ↔ Clean f line := by
  by_cases hblank : line = []
  · subst hblank
    exact blank_iff h
  have hend : endLine f line = (parseField f line, []) := if_neg hblank
  unfold Buffers.line Clean
  rw [hend, if_neg hblank, if_neg hblank]
  by_cases hcomment : line.head? = some 58
  · have hparse : parseField f line = f := if_pos hcomment
    rw [if_pos hcomment, if_pos hcomment, hparse]
    exact iff_of_true ⟨h, rfl⟩ trivial
  rw [if_neg hcomment, if_neg hcomment, parseField_eq f hcomment]
  have hdrop : ∀ {P Q : Prop}, (P ↔ Q) → ((P ∧ ([] : List SseEvent).map SseEvent.message = []) ↔ Q) :=
    fun hpq => ⟨fun hp => hpq.1 hp.1, fun hq => ⟨hpq.2 hq, rfl⟩⟩
  refine hdrop ?_
  by_cases h0 : 0 ∈ (Buffers.split line).1
  · have hname : ∀ s : String, 0 ∉ bytes s → (Buffers.split line).1 ≠ bytes s := fun s hs he => hs (he ▸ h0)
    have hfield : b.field (Buffers.split line).1 (Buffers.split line).2 = b := by
      unfold Buffers.field
      rw [if_neg (hname _ (by decide)), if_neg (hname _ (by decide)), if_neg (hname _ (by decide)),
        if_neg (hname _ (by decide))]
    rw [hfield]
    exact nul_iff h h0
  · rw [cstr_eq h0]
    exact field_iff h h0

/-! ### The lines of a stream -/

theorem foldl_lines (s : Scan) (u : Bytes) (log : List SseEvent) :
    (lines s.line s.cr u).foldl next (s.toFields, log) = ((scan s u).1.toFields, log ++ (scan s u).2) := by
  induction u generalizing s log with
  | nil => exact Prod.ext rfl (List.append_nil log).symm
  | cons b rest ih =>
    rw [lines, scan]
    unfold Scan.byte
    by_cases hskip : s.cr = true ∧ b = 10
    · rw [if_pos hskip, if_pos hskip]
      exact ih { s with cr := false } log
    rw [if_neg hskip, if_neg hskip]
    by_cases hend : b = 10 ∨ b = 13
    · rw [if_pos hend, if_pos hend, foldl_cons, ← append_assoc]
      exact ih ⟨(endLine s.toFields s.line).1, [], b = 13⟩ (log ++ (endLine s.toFields s.line).2)
    · rw [if_neg hend, if_neg hend]
      exact ih { s with line := s.line ++ [b], cr := false } log

theorem lines_mono {line : Bytes} {cr : Bool} {u v : Bytes} (h : u <+: v) : lines line cr u <+: lines line cr v := by
  obtain ⟨w, rfl⟩ := h
  induction u generalizing line cr with
  | nil => exact nil_prefix
  | cons b u ih =>
    rw [cons_append, lines, lines]
    split_ifs
    · exact ih
    · exact (prefix_cons_inj line).2 ih
    · exact ih

theorem exists_lines {line : Bytes} {cr : Bool} {v : Bytes} {ls : List Bytes} (h : ls <+: lines line cr v) :
    ∃ u, u <+: v ∧ lines line cr u = ls := by
  induction v generalizing line cr ls with
  | nil =>
    exact ⟨[], nil_prefix, (prefix_nil.1 h).symm⟩
  | cons b v ih =>
    rw [lines] at h
    by_cases hskip : cr = true ∧ b = 10
    · rw [if_pos hskip] at h
      obtain ⟨u, hu, rfl⟩ := ih h
      exact ⟨b :: u, (prefix_cons_inj b).2 hu, by rw [lines, if_pos hskip]⟩
    rw [if_neg hskip] at h
    by_cases hend : b = 10 ∨ b = 13
    · rw [if_pos hend] at h
      cases ls with
      | nil => exact ⟨[], nil_prefix, rfl⟩
      | cons l ls =>
        obtain ⟨rfl, htail⟩ := cons_prefix_cons.1 h
        obtain ⟨u, hu, rfl⟩ := ih htail
        exact ⟨b :: u, (prefix_cons_inj b).2 hu, by rw [lines, if_neg hskip, if_pos hend]⟩
    · rw [if_neg hend] at h
      obtain ⟨u, hu, rfl⟩ := ih h
      exact ⟨b :: u, (prefix_cons_inj b).2 hu, by rw [lines, if_neg hskip, if_neg hend]⟩

theorem lines_before (front line : Bytes) (u : Bytes) :
    lines (front ++ line) false u = (lines line false u).modifyHead (front ++ ·) := by
  induction u generalizing line with
  | nil => rfl
  | cons b u ih =>
    have hskip : ¬(false = true ∧ b = 10) := fun h => Bool.noConfusion h.1
    rw [lines, lines, if_neg hskip, if_neg hskip]
    by_cases hend : b = 10 ∨ b = 13
    · rw [if_pos hend, if_pos hend]
      rfl
    · rw [if_neg hend, if_neg hend, append_assoc]
      exact ih (line ++ [b])

/-! ### The stream -/

def Agree (r : Fields × List SseEvent) (t : Buffers × List Message) : Prop :=
  Same r.1 t.1 ∧ r.2.map SseEvent.message = t.2

theorem agree_init : Agree ({}, []) ({}, []) := ⟨⟨rfl, rfl, rfl, rfl⟩, rfl⟩

theorem agree_next (r : Fields × List SseEvent) (t : Buffers × List Message) (l : Bytes) (h : Agree r t) :
    Agree (next r l) (Buffers.next t l) ↔ Clean r.1 l := by
  rw [← line_iff h.1 l]
  unfold Agree next Buffers.next
  rw [map_append, h.2, append_right_inj]

theorem feed_lines {onEvent : OnEvent} (hstay : ∀ log, onEvent log = 0) (u : Bytes) :
    ((feed onEvent {} [] u).2.1.toFields, (feed onEvent {} [] u).2.2) = (lines [] false u).foldl next ({}, []) := by
  have hfold := foldl_lines {} u []
  rw [feed_start hstay]
  exact hfold.symm

theorem interprets_eq {onEvent : OnEvent} (hstay : ∀ log, onEvent log = 0) (stream : Bytes) :
    Interprets onEvent stream ↔ ∀ u, u <+: stream → Agree ((lines [] false u).foldl next ({}, [])) (interpret u) := by
  unfold Interprets Agree
  refine forall_congr' fun u => imp_congr_right fun _ => ?_
  rw [← feed_lines hstay u]

theorem endLine_mark (line : Bytes) : endLine {} (mark ++ line) = ({}, []) := by
  have hline : mark ++ line = 0xEF :: 0xBB :: 0xBF :: line := rfl
  have hname : ∃ name, (Buffers.split (mark ++ line)).1 = 0xEF :: name := by
    unfold Buffers.split
    rw [hline, cut, if_neg (by decide)]
    cases cut 58 (0xBB :: 0xBF :: line) with
    | none | some r => exact ⟨_, rfl⟩
  obtain ⟨name, hname⟩ := hname
  have hcstr : (cstr (0xEF :: name)).bytes = 0xEF :: (cstr name).bytes := rfl
  have hend : endLine {} (mark ++ line) = (parseField {} (mark ++ line), []) := if_neg (cons_ne_nil _ _)
  have hcomment : (mark ++ line).head? ≠ some 58 := fun h => absurd (Option.some.inj h) (by decide)
  have hne : ∀ s : String, (bytes s).head? ≠ some 0xEF → 0xEF :: (cstr name).bytes ≠ bytes s :=
    fun s hs he => hs (he ▸ rfl)
  rw [hend, parseField_eq _ hcomment, hname, hcstr]
  unfold setField
  rw [if_neg (hne _ (by decide)), if_neg (hne _ (by decide)), if_neg (hne _ (by decide)), if_neg (hne _ (by decide))]

theorem foldl_mark (u : Bytes) :
    (lines [] false (mark ++ u)).foldl next ({}, []) = (lines [] false u).tail.foldl next ({}, []) := by
  have hlines : lines [] false (mark ++ u) = (lines [] false u).modifyHead (mark ++ ·) := lines_before mark [] u
  have hnext : ∀ l, next ({}, []) (mark ++ l) = ({}, []) := fun l => by rw [next, endLine_mark, List.append_nil]
  rw [hlines]
  cases lines [] false u with
  | nil => rfl
  | cons l ls => rw [modifyHead_cons, foldl_cons, hnext, tail_cons]

theorem agree_mark {u : Bytes} (h : u <+: mark) : Agree ((lines [] false u).foldl next ({}, [])) (interpret u) := by
  have hlines : ∀ v, v <+: mark → lines [] false v = [] := fun v hv => prefix_nil.1 (lines_mono hv)
  have hinterpret : interpret u = ({}, []) := by
    unfold interpret
    rw [hlines _ (show (if mark <+: u then u.drop mark.length else u) <+: mark by
      split_ifs with hm
      · rw [drop_eq_nil_of_le h.length_le]
        exact nil_prefix
      · exact h)]
    rfl
  rw [hinterpret, hlines u h]
  exact agree_init

theorem agree_start {t : Buffers × List Message} : Agree ({}, []) t ↔ t = ({}, []) := by
  constructor
  · rintro ⟨h, hlog⟩
    have htype := h.type
    have hdata := h.data
    have hid := h.id
    have hretry := h.retry
    obtain ⟨⟨type, data, id, retry⟩, log⟩ := t
    cases retry with
    | none =>
      cases htype
      cases hdata
      cases hid
      cases hlog
      rfl
    | some n => exact absurd hretry (by simp)
  · rintro rfl
    exact agree_init

/-- **The parser follows the rules** exactly on the streams of clean lines. -/
theorem interprets_iff (onEvent : OnEvent) (hstay : ∀ log, onEvent log = 0) (stream : Bytes) :
    Interprets onEvent stream ↔ Clear stream := by
  rw [interprets_eq hstay]
  unfold Clear
  by_cases hmark : mark <+: stream
  · rw [if_pos hmark]
    obtain ⟨v, rfl⟩ := hmark
    have hinterpret : ∀ w, interpret (mark ++ w) = (lines [] false w).foldl Buffers.next ({}, []) := by
      intro w
      unfold interpret
      rw [if_pos (prefix_append _ _), drop_left]
    -- the lines of the interpretation, and of the parser the ones behind the first
    have htails : (∀ u, u <+: mark ++ v → Agree ((lines [] false u).foldl next ({}, [])) (interpret u)) ↔
        ∀ ls, ls <+: lines [] false v → Agree (ls.tail.foldl next ({}, [])) (ls.foldl Buffers.next ({}, [])) := by
      constructor
      · intro hall ls hls
        obtain ⟨w, hw, rfl⟩ := exists_lines hls
        have := hall (mark ++ w) ((prefix_append_right_inj mark).2 hw)
        rwa [hinterpret, foldl_mark] at this
      · intro hall u hu
        by_cases hlen : mark.length ≤ u.length
        · obtain ⟨w, rfl⟩ := prefix_of_prefix_length_le (prefix_append mark v) hu hlen
          rw [hinterpret, foldl_mark]
          exact hall _ (lines_mono ((prefix_append_right_inj mark).1 hu))
        · exact agree_mark (prefix_of_prefix_length_le hu (prefix_append mark v) (by omega))
    rw [htails, drop_left]
    cases lines [] false v with
    | nil =>
      refine iff_of_true (fun ls hls => ?_) trivial
      rw [prefix_nil.1 hls]
      exact agree_init
    | cons l ls =>
      dsimp only
      rw [← Core.lockstep_iff agree_next agree_init]
      constructor
      · intro hall
        have hfirst : Buffers.line {} l = ({}, []) := by
          have := agree_start.1 (hall [l] (prefix_append [l] ls))
          exact this
        refine ⟨hfirst, fun us hus => ?_⟩
        have := hall (l :: us) ((prefix_cons_inj l).2 hus)
        rwa [tail_cons, foldl_cons, Buffers.next, hfirst] at this
      · rintro ⟨hfirst, hall⟩ us hus
        cases us with
        | nil => exact agree_init
        | cons u us =>
          obtain ⟨rfl, htail⟩ := cons_prefix_cons.1 hus
          rw [tail_cons, foldl_cons, Buffers.next, hfirst]
          exact hall us htail
  · rw [if_neg hmark, ← Core.lockstep_iff agree_next agree_init]
    have heq : ∀ u, u <+: stream → interpret u = (lines [] false u).foldl Buffers.next ({}, []) := by
      intro u hu
      unfold interpret
      rw [if_neg fun h => hmark (h.trans hu)]
    constructor
    · intro hall ls hls
      obtain ⟨u, hu, rfl⟩ := exists_lines hls
      exact heq u hu ▸ hall u hu
    · intro hall u hu
      rw [heq u hu]
      exact hall _ (lines_mono hu)

/-- Two events, with a comment and an id between them. -/
theorem interprets_iff_two :
    Interprets (fun _ => 0) (bytes "event: x\ndata: a\ndata: b\n\n: c\rid: 7\r\nretry: 10\ndata\n\n") := by
  refine (interprets_iff (fun _ => 0) (fun _ => rfl) _).2 ?_
  unfold Clear
  rw [if_neg (by decide)]
  decide +kernel

/-- A type without data before the blank line is the type of the next event. -/
theorem not_interprets_type : ¬∀ stream,
    (feed (fun _ => 0) {} [] stream).2.2.map SseEvent.message = (interpret stream).2 := by
  intro hall
  exact absurd (hall (bytes "event: x\n\ndata: y\n\n")) (by decide +kernel)

end Libx.Http.Sse
