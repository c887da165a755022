import Libx.Agent.Message

/-!
# Libx.Http.Limits — the size of a request

proto_h1.c and proto_h2.c, what their callbacks keep of a request and what they check, and of server.c what
`on_conn_event` does with the answer.  What llhttp and nghttp2 report of each read is given.
-/

namespace Libx.Http

open Libx.Agent (Bytes bytes)
open List

/-- `max_header_size`, `max_body_size`, and the most that one read brings. -/
structure ServerLimits where
  maxHeaderSize : ℕ
  maxBodySize : ℕ
  oneRead : ℕ

/-- `xHttpStream_`, what is kept of the request; `separators`, of the bytes of `headers_raw`, are the code's own. -/
structure HttpStream where
  url : Bytes := []
  headerField : Bytes := []
  headersRaw : Bytes := []
  separators : ℕ := 0
  body : Bytes := []
  headerBytes : ℕ := 0
  requestComplete : Bool := false
  pendingError : Option (ℕ × String) := none
  deriving DecidableEq

/-- What is done for a request: it goes to the handler of its route, or an error is sent. -/
inductive Outcome
  | dispatched
  | error (code : ℕ) (reason : String)
  deriving DecidableEq

/-- What the connection holds of a request; `failed` is llhttp's error, `sent` the writer's. -/
structure HttpConn where
  stream : HttpStream := {}
  failed : Bool := false
  sent : Bool := false
  outcomes : List Outcome := []
  deriving DecidableEq

/-- The bytes of the URL, the names and the values that are kept. -/
def HttpStream.heldHeader (s : HttpStream) : ℕ := s.url.length + (s.headersRaw.length - s.separators)

def HttpStream.heldBody (s : HttpStream) : ℕ := s.body.length

/-! ### HTTP/1.1 -/

/-- The callbacks of llhttp. -/
inductive H1Event
  | url (data : Bytes)
  | headerField (data : Bytes)
  | headerValue (data : Bytes)
  | headersComplete
  | body (data : Bytes)
  | messageComplete
  deriving DecidableEq

/-- What `on_header_field` and `on_header_value` answer to too many bytes. -/
def headersTooLarge : ℕ × String := (431, "Request Header Fields Too Large")

/-- What `on_body` answers to too many bytes. -/
def contentTooLarge : ℕ × String := (413, "Content Too Large")

/-- `on_url`: counted and not checked. -/
def onUrl (s : HttpStream) (data : Bytes) : Bool × HttpStream :=
  (true, { s with headerBytes := s.headerBytes + data.length, url := s.url ++ data })

/-- `on_header_field`. -/
def onHeaderField (lim : ServerLimits) (s : HttpStream) (data : Bytes) : Bool × HttpStream :=
  if lim.maxHeaderSize < s.headerBytes + data.length then
    (false, { s with headerBytes := s.headerBytes + data.length, pendingError := some headersTooLarge })
  else
    (true, { s with
      headerBytes := s.headerBytes + data.length, headersRaw := s.headersRaw ++ data, headerField := data })

/-- `on_header_value`. -/
def onHeaderValue (lim : ServerLimits) (s : HttpStream) (data : Bytes) : Bool × HttpStream :=
  if lim.maxHeaderSize < s.headerBytes + data.length then
    (false, { s with headerBytes := s.headerBytes + data.length, pendingError := some headersTooLarge })
  else
    (true, { s with
      headerBytes := s.headerBytes + data.length
      headersRaw := s.headersRaw ++ bytes ": " ++ data ++ bytes "\r\n"
      separators := s.separators + 4 })

/-- `on_body`. -/
def onBody (lim : ServerLimits) (s : HttpStream) (data : Bytes) : Bool × HttpStream :=
  if lim.maxBodySize < s.body.length + data.length then (false, { s with pendingError := some contentTooLarge })
  else (true, { s with body := s.body ++ data })

/-- A callback, and whether it answers `HPE_OK`. -/
def h1Callback (lim : ServerLimits) (s : HttpStream) : H1Event → Bool × HttpStream
  | .url data => onUrl s data
  | .headerField data => onHeaderField lim s data
  | .headerValue data => onHeaderValue lim s data
  | .headersComplete => (true, s)
  | .body data => onBody lim s data
  | .messageComplete => (true, { s with requestComplete := true })

/-- `llhttp_execute`: the callbacks of a read, until one fails or the message is complete, where the parser pauses. -/
def h1Execute (lim : ServerLimits) (s : HttpStream) : List H1Event → Bool × HttpStream
  | [] => (true, s)
  | e :: es =>
    match h1Callback lim s e with
    | (false, s) => (false, s)
    | (true, s) => if e = .messageComplete then (true, s) else h1Execute lim s es

/-- `xHttpConnSendError`. -/
def sendError (c : HttpConn) (code : ℕ) (reason : String) : HttpConn :=
  if c.sent then c else { c with sent := true, outcomes := c.outcomes ++ [.error code reason] }

/-- What `h1_on_data` makes of the parser's answer, and `on_conn_event` of its own. -/
def h1Answer (c : HttpConn) (ok : Bool) (s : HttpStream) : HttpConn :=
  match s.pendingError with
  | some (code, reason) => sendError { c with stream := { s with pendingError := none }, failed := !ok } code reason
  | none =>
    if s.requestComplete then
      { c with stream := { s with requestComplete := false }, failed := !ok, outcomes := c.outcomes ++ [.dispatched] }
    else if ok then { c with stream := s, failed := false }
    else sendError { c with stream := s, failed := true } 400 "Bad Request"

/-- `h1_on_data`; a parser that has failed fails. -/
def h1Read (lim : ServerLimits) (c : HttpConn) (events : List H1Event) : HttpConn :=
  if c.failed then h1Answer c false c.stream
  else h1Answer c (h1Execute lim c.stream events).1 (h1Execute lim c.stream events).2

/-! ### HTTP/2 -/

/-- What nghttp2 reports of one stream. -/
inductive H2Event
  | header (name value : Bytes)
  | data (chunk : Bytes)
  | endStream
  deriving DecidableEq

/-- `h2_on_header_callback`, `h2_on_data_chunk_recv_callback`, `h2_on_frame_recv_callback`. -/
def h2Callback (s : HttpStream) : H2Event → HttpStream
  | .header name value =>
    let s :=
      if name.head? = some 58 then if name = bytes ":path" then { s with url := value } else s
      else { s with
        headersRaw := s.headersRaw ++ name ++ bytes ": " ++ value ++ bytes "\r\n", separators := s.separators + 4 }
    { s with headerBytes := s.headerBytes + (name.length + value.length) }
  | .data chunk => { s with body := s.body ++ chunk }
  | .endStream => { s with requestComplete := true }

/-- `h2_on_data`: what came is kept, and a stream that is complete is dispatched. -/
def h2Read (c : HttpConn) (events : List H2Event) : HttpConn :=
  let c := { c with stream := events.foldl h2Callback c.stream }
  if events.contains .endStream then { c with outcomes := c.outcomes ++ [.dispatched] } else c

/-! ### Requests -/

namespace H1Event

def urlSize : H1Event → ℕ
  | url data => data.length
  | _ => 0

def fieldSize : H1Event → ℕ
  | headerField data => data.length
  | headerValue data => data.length
  | _ => 0

def bodySize : H1Event → ℕ
  | body data => data.length
  | _ => 0

def isHeader : H1Event → Bool
  | headerField _ | headerValue _ => true
  | _ => false

def isBody : H1Event → Bool
  | body _ => true
  | _ => false

def isUrl : H1Event → Bool
  | url _ => true
  | _ => false

end H1Event

namespace H2Event

/-- The URL, or a header that is no pseudo-header. -/
def headerSize : H2Event → ℕ
  | header name value =>
    if name.head? = some 58 then if name = bytes ":path" then value.length else 0 else name.length + value.length
  | _ => 0

def bodySize : H2Event → ℕ
  | data chunk => chunk.length
  | _ => 0

end H2Event

/-- A request on HTTP/1.1, in any reads: the URL, then the rest, and the end. -/
structure H1Request where
  reads : List (List H1Event)
  urls : List Bytes
  rest : List H1Event
  whole : reads.flatten = urls.map .url ++ rest ++ [.messageComplete]
  rest_isUrl : ∀ e ∈ rest, e.isUrl = false
  rest_ne : ∀ e ∈ rest, e ≠ .messageComplete

/-- A request on HTTP/2, in any reads. -/
structure H2Request where
  reads : List (List H2Event)
  events : List H2Event
  whole : reads.flatten = events ++ [.endStream]
  events_ne : ∀ e ∈ events, e ≠ .endStream

def H1Request.urlSize (r : H1Request) : ℕ := (r.urls.map List.length).sum

def H1Request.headerSize (r : H1Request) : ℕ := r.urlSize + (r.rest.map H1Event.fieldSize).sum

def H1Request.bodySize (r : H1Request) : ℕ := (r.rest.map H1Event.bodySize).sum

def H2Request.headerSize (r : H2Request) : ℕ := (r.events.map H2Event.headerSize).sum

def H2Request.bodySize (r : H2Request) : ℕ := (r.events.map H2Event.bodySize).sum

/-- A request on either protocol. -/
inductive Request
  | h1 (r : H1Request)
  | h2 (r : H2Request)

namespace Request

/-- The URL and the headers, or the body, are larger than they may be. -/
def TooLarge (lim : ServerLimits) : Request → Prop
  | h1 r => lim.maxHeaderSize < r.headerSize ∨ lim.maxBodySize < r.bodySize
  | h2 r => lim.maxHeaderSize < r.headerSize ∨ lim.maxBodySize < r.bodySize

/-- What the connection has come to with the request. -/
def served (lim : ServerLimits) : Request → HttpConn
  | h1 r => r.reads.foldl (h1Read lim) {}
  | h2 r => r.reads.foldl h2Read {}

/-- What the connection is at some moment before: it has had the first of the callbacks, in any reads. -/
inductive Meanwhile (lim : ServerLimits) : Request → HttpConn → Prop
  | h1 (r : H1Request) (reads : List (List H1Event)) : reads.flatten <+: r.reads.flatten →
      Meanwhile lim (.h1 r) (reads.foldl (h1Read lim) {})
  | h2 (r : H2Request) (reads : List (List H2Event)) : reads.flatten <+: r.reads.flatten →
      Meanwhile lim (.h2 r) (reads.foldl h2Read {})

/-- The limits hold: too large a request is answered with 431 or 413, and nothing else; there is never more of a request
than the limits and one read; and a request that is not too large is not refused for its size. -/
structure Limited (lim : ServerLimits) (r : Request) : Prop where
  refused : r.TooLarge lim → ∃ e ∈ [headersTooLarge, contentTooLarge], (r.served lim).outcomes = [.error e.1 e.2]
  held : ∀ c, Meanwhile lim r c →
    c.stream.heldHeader ≤ lim.maxHeaderSize + lim.oneRead ∧ c.stream.heldBody ≤ lim.maxBodySize + lim.oneRead
  served : ¬r.TooLarge lim → ∀ code reason, .error code reason ∈ (r.served lim).outcomes → code ≠ 431 ∧ code ≠ 413

/-- Where the limits are looked at: on HTTP/1.1 the URL is not too long, or only by one read and a header or a body that
is refused follows; on HTTP/2 nothing is too large. -/
def Checked (lim : ServerLimits) : Request → Prop
  | h1 r => r.urlSize ≤ lim.maxHeaderSize ∨
      r.urlSize ≤ lim.maxHeaderSize + lim.oneRead ∧ ((∃ e ∈ r.rest, e.isHeader) ∨ lim.maxBodySize < r.bodySize)
  | h2 r => ¬(h2 r).TooLarge lim

end Request

/-! ### One callback -/

section H1

variable {lim : ServerLimits} {s s' : HttpStream} {c : HttpConn} {es : List H1Event}

variable {e : H1Event}

theorem h1Callback_fails (h : h1Callback lim s e = (false, s')) :
    (∃ x ∈ [headersTooLarge, contentTooLarge], s'.pendingError = some x) ∧ s'.requestComplete = s.requestComplete ∧
      s'.heldHeader = s.heldHeader ∧ s'.heldBody = s.heldBody := by
  cases e with
  | url d | headersComplete | messageComplete => cases h
  | headerField d =>
    rw [h1Callback, onHeaderField] at h
    by_cases hlt : lim.maxHeaderSize < s.headerBytes + d.length
    · rw [if_pos hlt] at h
      cases h
      exact ⟨⟨_, .head _, rfl⟩, rfl, rfl, rfl⟩
    · rw [if_neg hlt] at h
      cases h
  | headerValue d =>
    rw [h1Callback, onHeaderValue] at h
    by_cases hlt : lim.maxHeaderSize < s.headerBytes + d.length
    · rw [if_pos hlt] at h
      cases h
      exact ⟨⟨_, .head _, rfl⟩, rfl, rfl, rfl⟩
    · rw [if_neg hlt] at h
      cases h
  | body d =>
    rw [h1Callback, onBody] at h
    by_cases hlt : lim.maxBodySize < s.body.length + d.length
    · rw [if_pos hlt] at h
      cases h
      exact ⟨⟨_, .tail _ (.head _), rfl⟩, rfl, rfl, rfl⟩
    · rw [if_neg hlt] at h
      cases h

/-- The headers are counted, and the code's own bytes are among them. -/
structure HttpStream.Counted (s : HttpStream) : Prop where
  separators : s.separators ≤ s.headersRaw.length
  headerBytes : s.headerBytes = s.heldHeader

/-- What a callback that succeeds keeps, and what it has checked. -/
structure Kept (lim : ServerLimits) (s : HttpStream) (e : H1Event) (s' : HttpStream) : Prop where
  pendingError : s'.pendingError = s.pendingError
  requestComplete : e ≠ .messageComplete → s'.requestComplete = s.requestComplete
  counted : s.Counted → s'.Counted
  header : s.Counted → s'.heldHeader = s.heldHeader + (e.urlSize + e.fieldSize)
  body : s'.heldBody = s.heldBody + e.bodySize
  header_le : s.Counted → e.isHeader → s'.heldHeader ≤ lim.maxHeaderSize
  body_le : s.heldBody ≤ lim.maxBodySize → s'.heldBody ≤ lim.maxBodySize

theorem kept_headerField {d : Bytes} (hle : s.headerBytes + d.length ≤ lim.maxHeaderSize) :
    Kept lim s (.headerField d)
      { s with headerBytes := s.headerBytes + d.length, headersRaw := s.headersRaw ++ d, headerField := d } := by
  have hheld (hc : s.Counted) : s.url.length + ((s.headersRaw ++ d).length - s.separators) = s.heldHeader + d.length := by
    have := hc.separators
    rw [length_append, HttpStream.heldHeader]
    omega
  constructor
  · rfl
  · exact fun _ => rfl
  · intro hc
    refine ⟨?_, ?_⟩
    · have := hc.separators
      simp only [length_append]
      omega
    · exact (congrArg (· + d.length) hc.headerBytes).trans (hheld hc).symm
  · intro hc
    exact (hheld hc).trans (congrArg _ (Nat.zero_add _).symm)
  · rfl
  · intro hc _
    refine (hheld hc).le.trans ?_
    rw [← hc.headerBytes]
    exact hle
  · exact id

theorem kept_headerValue {d : Bytes} (hle : s.headerBytes + d.length ≤ lim.maxHeaderSize) :
    Kept lim s (.headerValue d) { s with
      headerBytes := s.headerBytes + d.length
      headersRaw := s.headersRaw ++ bytes ": " ++ d ++ bytes "\r\n"
      separators := s.separators + 4 } := by
  have hlen : (s.headersRaw ++ bytes ": " ++ d ++ bytes "\r\n").length = s.headersRaw.length + d.length + 4 := by
    rw [length_append, length_append, length_append]
    have h1 : (bytes ": ").length = 2 := rfl
    have h2 : (bytes "\r\n").length = 2 := rfl
    omega
  have hheld (hc : s.Counted) : s.url.length +
      ((s.headersRaw ++ bytes ": " ++ d ++ bytes "\r\n").length - (s.separators + 4)) = s.heldHeader + d.length := by
    have := hc.separators
    rw [hlen, HttpStream.heldHeader]
    omega
  constructor
  · rfl
  · exact fun _ => rfl
  · intro hc
    refine ⟨?_, ?_⟩
    · have := hc.separators
      dsimp only
      rw [hlen]
      omega
    · exact (congrArg (· + d.length) hc.headerBytes).trans (hheld hc).symm
  · intro hc
    exact (hheld hc).trans (congrArg _ (Nat.zero_add _).symm)
  · rfl
  · intro hc _
    refine (hheld hc).le.trans ?_
    rw [← hc.headerBytes]
    exact hle
  · exact id

theorem kept_of_callback (h : h1Callback lim s e = (true, s')) : Kept lim s e s' := by
  cases e with
  | url d =>
    cases h
    have hheld : (s.url ++ d).length + (s.headersRaw.length - s.separators) = s.heldHeader + d.length := by
      rw [length_append, HttpStream.heldHeader]
      omega
    exact ⟨rfl, fun _ => rfl, fun hc => ⟨hc.separators, (congrArg (· + d.length) hc.headerBytes).trans hheld.symm⟩,
      fun _ => hheld, rfl, nofun, id⟩
  | headersComplete =>
    cases h
    exact ⟨rfl, fun _ => rfl, id, fun _ => rfl, rfl, nofun, id⟩
  | messageComplete =>
    cases h
    exact ⟨rfl, fun h => absurd rfl h, fun hc => ⟨hc.separators, hc.headerBytes⟩, fun _ => rfl, rfl, nofun, id⟩
  | headerField d =>
    rw [h1Callback, onHeaderField] at h
    by_cases hlt : lim.maxHeaderSize < s.headerBytes + d.length
    · rw [if_pos hlt] at h
      cases h
    · rw [if_neg hlt] at h
      cases h
      exact kept_headerField (by omega)
  | headerValue d =>
    rw [h1Callback, onHeaderValue] at h
    by_cases hlt : lim.maxHeaderSize < s.headerBytes + d.length
    · rw [if_pos hlt] at h
      cases h
    · rw [if_neg hlt] at h
      cases h
      exact kept_headerValue (by omega)
  | body d =>
    rw [h1Callback, onBody] at h
    by_cases hlt : lim.maxBodySize < s.body.length + d.length
    · rw [if_pos hlt] at h
      cases h
    · rw [if_neg hlt] at h
      cases h
      have hlen : (s.body ++ d).length = s.body.length + d.length := length_append
      exact ⟨rfl, fun _ => rfl, fun hc => ⟨hc.separators, hc.headerBytes⟩, fun _ => rfl, hlen, nofun,
        fun _ => hlen.le.trans (by omega)⟩

theorem h1Callback_fst_iff : (h1Callback lim s e).1 = true ↔
    (e.isHeader → s.headerBytes + e.fieldSize ≤ lim.maxHeaderSize) ∧
      (e.isBody → s.heldBody + e.bodySize ≤ lim.maxBodySize) := by
  cases e with
  | url d | headersComplete | messageComplete => exact ⟨fun _ => ⟨nofun, nofun⟩, fun _ => rfl⟩
  | headerField d =>
    rw [h1Callback, onHeaderField]
    by_cases hlt : lim.maxHeaderSize < s.headerBytes + d.length
    · rw [if_pos hlt]
      exact ⟨nofun, fun h => absurd (h.1 rfl) (Nat.not_le.2 hlt)⟩
    · rw [if_neg hlt]
      exact ⟨fun _ => ⟨fun _ => Nat.not_lt.1 hlt, nofun⟩, fun _ => rfl⟩
  | headerValue d =>
    rw [h1Callback, onHeaderValue]
    by_cases hlt : lim.maxHeaderSize < s.headerBytes + d.length
    · rw [if_pos hlt]
      exact ⟨nofun, fun h => absurd (h.1 rfl) (Nat.not_le.2 hlt)⟩
    · rw [if_neg hlt]
      exact ⟨fun _ => ⟨fun _ => Nat.not_lt.1 hlt, nofun⟩, fun _ => rfl⟩
  | body d =>
    rw [h1Callback, onBody]
    by_cases hlt : lim.maxBodySize < s.body.length + d.length
    · rw [if_pos hlt]
      exact ⟨nofun, fun h => absurd (h.2 rfl) (Nat.not_le.2 hlt)⟩
    · rw [if_neg hlt]
      exact ⟨fun _ => ⟨nofun, fun _ => Nat.not_lt.1 hlt⟩, fun _ => rfl⟩

/-! ### The callbacks of a read -/

theorem h1Execute_keeps : ∀ {es : List H1Event} {s s' : HttpStream}, h1Execute lim s es = (true, s') →
    s'.pendingError = s.pendingError ∧
      ((∀ e ∈ es, e ≠ .messageComplete) → s'.requestComplete = s.requestComplete)
  | [], s, s', h => by
    cases h
    exact ⟨rfl, fun _ => rfl⟩
  | e :: es, s, s', h => by
    rw [h1Execute] at h
    match hcb : h1Callback lim s e with
    | (false, s1) =>
      rw [hcb] at h
      cases h
    | (true, s1) =>
      rw [hcb] at h
      dsimp only at h
      have hk := kept_of_callback hcb
      by_cases hmc : e = .messageComplete
      · rw [if_pos hmc] at h
        cases h
        exact ⟨hk.pendingError, fun hne => absurd hmc (hne e (.head _))⟩
      · rw [if_neg hmc] at h
        obtain ⟨hp, hr⟩ := h1Execute_keeps h
        exact ⟨hp.trans hk.pendingError,
          fun hne => (hr fun e he => hne e (.tail _ he)).trans (hk.requestComplete hmc)⟩

theorem h1Execute_fails : ∀ {es : List H1Event} {s s' : HttpStream}, h1Execute lim s es = (false, s') →
    (∃ x ∈ [headersTooLarge, contentTooLarge], s'.pendingError = some x) ∧ s'.requestComplete = s.requestComplete
  | [], s, s', h => by cases h
  | e :: es, s, s', h => by
    rw [h1Execute] at h
    match hcb : h1Callback lim s e with
    | (false, s1) =>
      rw [hcb] at h
      cases h
      obtain ⟨hp, hr, -, -⟩ := h1Callback_fails hcb
      exact ⟨hp, hr⟩
    | (true, s1) =>
      rw [hcb] at h
      dsimp only at h
      by_cases hmc : e = .messageComplete
      · rw [if_pos hmc] at h
        cases h
      · rw [if_neg hmc] at h
        have hk := kept_of_callback hcb
        obtain ⟨hp, hr⟩ := h1Execute_fails h
        exact ⟨hp, hr.trans (hk.requestComplete hmc)⟩

theorem h1Execute_append (lim : ServerLimits) : ∀ {es : List H1Event} {s : HttpStream} (fs : List H1Event),
    (∀ e ∈ es, e ≠ .messageComplete) → h1Execute lim s (es ++ fs) =
      match h1Execute lim s es with
      | (false, s') => (false, s')
      | (true, s') => h1Execute lim s' fs
  | [], s, fs, _ => rfl
  | e :: es, s, fs, hne => by
    rw [cons_append, h1Execute, h1Execute]
    match hcb : h1Callback lim s e with
    | (false, s1) => rfl
    | (true, s1) =>
      dsimp only
      rw [if_neg (hne e (.head _)), if_neg (hne e (.head _))]
      exact h1Execute_append lim fs fun e he => hne e (.tail _ he)

/-! ### The reads of a request -/

/-- Between the reads: nothing waits to be answered, and what failed was. -/
structure HttpConn.Idle (c : HttpConn) : Prop where
  pendingError : c.stream.pendingError = none
  requestComplete : c.stream.requestComplete = false
  sent : c.failed = true → c.sent = true

theorem idle_init : HttpConn.Idle {} := ⟨rfl, rfl, nofun⟩

theorem h1Read_failed (hc : c.Idle) (hf : c.failed = true) : h1Read lim c es = c := by
  rw [h1Read, if_pos hf, h1Answer, hc.pendingError]
  rw [if_neg (Bool.eq_false_iff.1 hc.requestComplete), if_neg Bool.false_ne_true, sendError, if_pos (hc.sent hf), ← hf]

theorem h1Read_eq (hf : c.failed = false) {b : Bool} (he : h1Execute lim c.stream es = (b, s')) :
    h1Read lim c es = h1Answer c b s' := by
  rw [h1Read, hf, if_neg Bool.false_ne_true, he]

theorem h1Answer_more (hf : c.failed = false) (hp : s'.pendingError = none) (hr : s'.requestComplete = false) :
    h1Answer c true s' = { c with stream := s' } := by
  rw [h1Answer, hp]
  rw [if_neg (Bool.eq_false_iff.1 hr), if_pos rfl, ← hf]

theorem h1Answer_complete (hf : c.failed = false) (hp : s'.pendingError = none) (hr : s'.requestComplete = true) :
    h1Answer c true s' =
      { c with stream := { s' with requestComplete := false }, outcomes := c.outcomes ++ [.dispatched] } := by
  rw [h1Answer, hp]
  rw [if_pos hr, Bool.not_true, ← hf]

theorem h1Answer_refused {x : ℕ × String} (hp : s'.pendingError = some x) :
    h1Answer c false s' = sendError { c with stream := { s' with pendingError := none }, failed := true } x.1 x.2 := by
  rw [h1Answer, hp]
  rfl

theorem sendError_sent (c : HttpConn) (code : ℕ) (reason : String) : (sendError c code reason).sent = true := by
  rw [sendError]
  split <;> first | assumption | rfl

@[simp]
theorem sendError_stream (c : HttpConn) (code : ℕ) (reason : String) : (sendError c code reason).stream = c.stream := by
  rw [sendError]
  split <;> rfl

@[simp]
theorem sendError_failed (c : HttpConn) (code : ℕ) (reason : String) : (sendError c code reason).failed = c.failed := by
  rw [sendError]
  split <;> rfl

theorem h1Read_nil (hc : c.Idle) : h1Read lim c [] = c := by
  cases hf : c.failed with
  | true => exact h1Read_failed hc hf
  | false =>
    rw [h1Read_eq hf rfl]
    exact h1Answer_more hf hc.pendingError hc.requestComplete

theorem idle_h1Read (lim : ServerLimits) (es : List H1Event) (hc : c.Idle) : (h1Read lim c es).Idle := by
  cases hf : c.failed with
  | true =>
    rw [h1Read_failed hc hf]
    exact hc
  | false =>
    match he : h1Execute lim c.stream es with
    | (true, s1) =>
      have hp := (h1Execute_keeps he).1.trans hc.pendingError
      rw [h1Read_eq hf he]
      cases hr : s1.requestComplete with
      | true =>
        rw [h1Answer_complete hf hp hr]
        exact ⟨hp, rfl, hc.sent⟩
      | false =>
        rw [h1Answer_more hf hp hr]
        exact ⟨hp, hr, hc.sent⟩
    | (false, s1) =>
      obtain ⟨⟨x, -, hx⟩, hr⟩ := h1Execute_fails he
      rw [h1Read_eq hf he, h1Answer_refused hx]
      refine ⟨?_, ?_, fun _ => sendError_sent _ _ _⟩
      · rw [sendError_stream]
      · rw [sendError_stream]
        exact hr.trans hc.requestComplete

theorem h1Read_append (fs : List H1Event) (hc : c.Idle) (hne : ∀ e ∈ es, e ≠ .messageComplete) :
    h1Read lim (h1Read lim c es) fs = h1Read lim c (es ++ fs) := by
  cases hf : c.failed with
  | true => rw [h1Read_failed hc hf, h1Read_failed hc hf, h1Read_failed hc hf]
  | false =>
    have hidle := idle_h1Read lim es hc
    have hf' := Bool.eq_false_iff.1 hf
    match he : h1Execute lim c.stream es with
    | (true, s1) =>
      obtain ⟨hp, hr⟩ := h1Execute_keeps he
      rw [h1Read_eq hf he, h1Answer_more hf (hp.trans hc.pendingError) ((hr hne).trans hc.requestComplete)]
      rw [h1Read, if_neg hf', h1Read, if_neg hf', h1Execute_append lim fs hne, he]
      rfl
    | (false, s1) =>
      obtain ⟨⟨x, -, hx⟩, -⟩ := h1Execute_fails he
      have he' : h1Execute lim c.stream (es ++ fs) = (false, s1) := by
        rw [h1Execute_append lim fs hne, he]
      rw [h1Read_eq hf he, h1Answer_refused hx] at hidle ⊢
      rw [h1Read_eq hf he', h1Answer_refused hx]
      exact h1Read_failed hidle (sendError_failed _ _ _)

theorem foldl_h1Read : ∀ {reads : List (List H1Event)} {c : HttpConn}, c.Idle →
    (∀ e ∈ reads.flatten.dropLast, e ≠ .messageComplete) → reads.foldl (h1Read lim) c = h1Read lim c reads.flatten
  | [], c, hc, _ => (h1Read_nil hc).symm
  | r :: rs, c, hc, hne => by
    rw [flatten_cons] at hne ⊢
    have hnext : (∀ e ∈ rs.flatten.dropLast, e ≠ .messageComplete) →
        rs.foldl (h1Read lim) (h1Read lim c r) = h1Read lim (h1Read lim c r) rs.flatten := foldl_h1Read (idle_h1Read lim r hc)
    by_cases hrs : rs.flatten = []
    · rw [hrs] at hnext ⊢
      rw [foldl_cons, hnext nofun, List.append_nil, h1Read_nil (idle_h1Read lim r hc)]
    · rw [dropLast_append_of_ne_nil hrs] at hne
      rw [foldl_cons, hnext fun e he => hne e (mem_append_right _ he)]
      exact h1Read_append _ hc fun e he => hne e (mem_append_left _ he)

/-! ### The phases of a request -/

theorem h1Execute_urls (lim : ServerLimits) : ∀ (urls : List Bytes) (s : HttpStream) (es : List H1Event),
    h1Execute lim s (urls.map .url ++ es) =
      h1Execute lim
        { s with headerBytes := s.headerBytes + (urls.map List.length).sum, url := s.url ++ urls.flatten } es
  | [], s, es => by
    rw [map_nil, nil_append, map_nil, sum_nil, Nat.add_zero, flatten_nil, List.append_nil]
  | u :: us, s, es => by
    rw [map_cons, cons_append, h1Execute, h1Callback, onUrl]
    dsimp only
    rw [if_neg nofun, h1Execute_urls lim us, map_cons, sum_cons, flatten_cons, Nat.add_assoc,
      append_assoc]

theorem urlSize_of_isUrl (h : e.isUrl = false) : e.urlSize = 0 := by
  cases e <;> first | rfl | cases h

theorem fieldSize_of_isHeader (h : ¬e.isHeader) : e.fieldSize = 0 := by
  cases e <;> first | rfl | exact absurd rfl h

theorem sum_fieldSize_of_isHeader (h : ¬∃ e ∈ es, e.isHeader) : (es.map H1Event.fieldSize).sum = 0 := by
  refine sum_eq_zero fun n hn => ?_
  obtain ⟨e, he, rfl⟩ := mem_map.1 hn
  exact fieldSize_of_isHeader fun hh => h ⟨e, he, hh⟩

theorem h1Execute_fst_iff : ∀ {es : List H1Event} {s : HttpStream}, (∀ e ∈ es, e.isUrl = false) →
    (∀ e ∈ es, e ≠ .messageComplete) → s.Counted → s.heldBody ≤ lim.maxBodySize →
    ((h1Execute lim s es).1 = true ↔
      ((∃ e ∈ es, e.isHeader) → s.heldHeader + (es.map H1Event.fieldSize).sum ≤ lim.maxHeaderSize) ∧
        s.heldBody + (es.map H1Event.bodySize).sum ≤ lim.maxBodySize)
  | [], s, _, _, _, hb => ⟨fun _ => ⟨fun ⟨_, he, _⟩ => absurd he not_mem_nil, hb⟩, fun _ => rfl⟩
  | e :: es, s, hurl, hmc, hc, hb => by
    rw [map_cons, sum_cons, map_cons, sum_cons, h1Execute]
    match hcb : h1Callback lim s e with
    | (false, s1) =>
      refine ⟨nofun, fun ⟨hh, hbody⟩ => ?_⟩
      -- The callback that fails is one whose bytes are more than what was left.
      have hok : (h1Callback lim s e).1 = true := by
        refine h1Callback_fst_iff.2 ⟨fun he => ?_, fun _ => by omega⟩
        have := hh ⟨e, .head _, he⟩
        rw [hc.headerBytes]
        omega
      rw [hcb] at hok
      cases hok
    | (true, s1) =>
      dsimp only
      rw [if_neg (hmc e (.head _))]
      have hk := kept_of_callback hcb
      have hheld := hk.header hc
      rw [urlSize_of_isUrl (hurl e (.head _)), Nat.zero_add] at hheld
      rw [h1Execute_fst_iff (fun e he => hurl e (.tail _ he)) (fun e he => hmc e (.tail _ he)) (hk.counted hc)
        (hk.body_le hb), hheld, hk.body, Nat.add_assoc, Nat.add_assoc]
      refine and_congr_left fun _ => ⟨fun hes ⟨x, hx, hxh⟩ => ?_, fun hall ⟨x, hx, hxh⟩ => hall ⟨x, .tail _ hx, hxh⟩⟩
      by_cases hrest : ∃ e ∈ es, e.isHeader
      · exact hes hrest
      · -- The last of the headers has been looked at with all before it.
        have hxe : x = e := (mem_cons.1 hx).resolve_right fun hx => hrest ⟨x, hx, hxh⟩
        rw [sum_fieldSize_of_isHeader hrest, Nat.add_zero, ← hheld]
        exact hk.header_le hc (hxe ▸ hxh)

theorem held_h1Execute : ∀ {es : List H1Event} {s : HttpStream}, (∀ e ∈ es, e.isUrl = false) → s.Counted →
    s.heldBody ≤ lim.maxBodySize →
    (h1Execute lim s es).2.heldHeader ≤ max lim.maxHeaderSize s.heldHeader ∧
      (h1Execute lim s es).2.heldBody ≤ lim.maxBodySize
  | [], s, _, _, hb => ⟨le_max_right _ _, hb⟩
  | e :: es, s, hurl, hc, hb => by
    rw [h1Execute]
    match hcb : h1Callback lim s e with
    | (false, s1) =>
      obtain ⟨-, -, hh, hbody⟩ := h1Callback_fails hcb
      exact ⟨hh.le.trans (le_max_right _ _), hbody.le.trans hb⟩
    | (true, s1) =>
      have hk := kept_of_callback hcb
      have hle : s1.heldHeader ≤ max lim.maxHeaderSize s.heldHeader := by
        by_cases he : e.isHeader
        · exact (hk.header_le hc he).trans (le_max_left _ _)
        · rw [hk.header hc, urlSize_of_isUrl (hurl e (.head _)), fieldSize_of_isHeader he]
          exact le_max_right _ _
      dsimp only
      by_cases hmc : e = .messageComplete
      · rw [if_pos hmc]
        exact ⟨hle, hk.body_le hb⟩
      · rw [if_neg hmc]
        obtain ⟨hh, hbody⟩ := held_h1Execute (fun e he => hurl e (.tail _ he)) (hk.counted hc) (hk.body_le hb)
        exact ⟨hh.trans (max_le (le_max_left _ _) hle), hbody⟩

end H1

/-! ### The two protocols -/

namespace H1Request

variable {lim : ServerLimits} {r : H1Request}

/-- What the parser comes to when the URL has been read. -/
def afterUrls (r : H1Request) : HttpStream := { headerBytes := r.urlSize, url := r.urls.flatten }

theorem heldHeader_afterUrls : r.afterUrls.heldHeader = r.urlSize := length_flatten

theorem counted_afterUrls : r.afterUrls.Counted := ⟨Nat.le_refl _, heldHeader_afterUrls.symm⟩

theorem execute_urls (es : List H1Event) :
    h1Execute lim {} (r.urls.map .url ++ es) = h1Execute lim r.afterUrls es := by
  rw [h1Execute_urls lim, Nat.zero_add, nil_append]
  rfl

theorem ne_of_mem {e : H1Event} (h : e ∈ r.urls.map .url ++ r.rest) : e ≠ .messageComplete := by
  obtain h | h := mem_append.1 h
  · obtain ⟨u, -, rfl⟩ := mem_map.1 h
    exact nofun
  · exact r.rest_ne e h

theorem foldl_h1Read_of_front {reads : List (List H1Event)} (h : reads.flatten <+: r.reads.flatten) :
    reads.foldl (h1Read lim) {} = h1Read lim {} reads.flatten := by
  refine foldl_h1Read idle_init fun e he => r.ne_of_mem ?_
  rw [r.whole] at h
  obtain h | h := prefix_concat_iff.1 h
  · rw [h, dropLast_concat] at he
    exact he
  · exact h.subset (mem_of_mem_dropLast he)

theorem held_h1Read (es : List H1Event) :
    (h1Read lim {} es).stream.heldHeader = (h1Execute lim {} es).2.heldHeader ∧
      (h1Read lim {} es).stream.heldBody = (h1Execute lim {} es).2.heldBody := by
  match he : h1Execute lim {} es with
  | (true, s) =>
    have hp := (h1Execute_keeps he).1
    rw [h1Read_eq (c := {}) rfl he]
    cases hr : s.requestComplete with
    | true =>
      rw [h1Answer_complete rfl hp hr]
      exact ⟨rfl, rfl⟩
    | false =>
      rw [h1Answer_more rfl hp hr]
      exact ⟨rfl, rfl⟩
  | (false, s) =>
    obtain ⟨⟨x, -, hx⟩, -⟩ := h1Execute_fails he
    rw [h1Read_eq (c := {}) rfl he, h1Answer_refused hx, sendError_stream]
    exact ⟨rfl, rfl⟩

theorem outcomes_served (lim : ServerLimits) (r : H1Request) :
    ((h1Execute lim r.afterUrls r.rest).1 = true ∧ (r.reads.foldl (h1Read lim) {}).outcomes = [.dispatched]) ∨
      ((h1Execute lim r.afterUrls r.rest).1 = false ∧ ∃ x ∈ [headersTooLarge, contentTooLarge],
        (r.reads.foldl (h1Read lim) {}).outcomes = [.error x.1 x.2]) := by
  have happ := h1Execute_append lim (s := r.afterUrls) [.messageComplete] r.rest_ne
  rw [foldl_h1Read_of_front (prefix_refl _), r.whole]
  match he : h1Execute lim r.afterUrls r.rest with
  | (true, s) =>
    rw [he, ← execute_urls, ← append_assoc] at happ
    have hp := (h1Execute_keeps happ).1
    refine .inl ⟨rfl, ?_⟩
    rw [h1Read_eq (c := {}) rfl happ, h1Answer_complete rfl hp rfl]
    rfl
  | (false, s) =>
    rw [he, ← execute_urls, ← append_assoc] at happ
    obtain ⟨⟨x, hxs, hx⟩, -⟩ := h1Execute_fails happ
    refine .inr ⟨rfl, x, hxs, ?_⟩
    rw [h1Read_eq (c := {}) rfl happ, h1Answer_refused hx]
    rfl

theorem execute_rest_iff (lim : ServerLimits) (r : H1Request) : (h1Execute lim r.afterUrls r.rest).1 = true ↔
    ((∃ e ∈ r.rest, e.isHeader) → r.headerSize ≤ lim.maxHeaderSize) ∧ r.bodySize ≤ lim.maxBodySize := by
  rw [h1Execute_fst_iff r.rest_isUrl r.rest_ne counted_afterUrls (Nat.zero_le _), heldHeader_afterUrls]
  exact and_congr_right fun _ => by rw [HttpStream.heldBody, afterUrls, length_nil, Nat.zero_add, bodySize]

theorem heldHeader_urls : ([r.urls.map H1Event.url].foldl (h1Read lim) {}).stream.heldHeader = r.urlSize := by
  have hexec : h1Execute lim {} (r.urls.map .url ++ []) = h1Execute lim r.afterUrls [] := execute_urls []
  rw [List.append_nil] at hexec
  rw [foldl_cons, foldl_nil, (held_h1Read _).1, hexec]
  exact heldHeader_afterUrls

theorem held_le (lim : ServerLimits) {reads : List (List H1Event)} (h : reads.flatten <+: r.reads.flatten) :
    (reads.foldl (h1Read lim) {}).stream.heldHeader ≤ max lim.maxHeaderSize r.urlSize ∧
      (reads.foldl (h1Read lim) {}).stream.heldBody ≤ lim.maxBodySize := by
  rw [foldl_h1Read_of_front h]
  obtain ⟨hh, hb⟩ := held_h1Read reads.flatten
  rw [hh, hb]
  rw [r.whole, append_assoc] at h
  obtain ⟨t, ht⟩ := h
  obtain ⟨m, hm, -⟩ | ⟨m, hm, htail⟩ := append_eq_append_iff.1 ht
  · -- It is still the URL.
    obtain ⟨us, vs, hus, hl, -⟩ := map_eq_append_iff.1 hm
    rw [← hl]
    have hexec := h1Execute_urls lim us {} []
    rw [List.append_nil] at hexec
    rw [hexec]
    refine ⟨?_, Nat.zero_le _⟩
    refine le_trans ?_ (le_max_right _ _)
    rw [urlSize, hus, map_append, sum_append]
    exact (length_flatten.le : us.flatten.length ≤ _).trans (Nat.le_add_right _ _)
  · rw [hm, execute_urls]
    have hurl : ∀ e ∈ m, e.isUrl = false := fun e he => by
      have hmem : e ∈ r.rest ++ [.messageComplete] := htail ▸ mem_append_left _ he
      obtain he | he := mem_append.1 hmem
      · exact r.rest_isUrl e he
      · rw [mem_singleton.1 he]
        rfl
    have hheld := held_h1Execute hurl r.counted_afterUrls (Nat.zero_le lim.maxBodySize)
    rw [heldHeader_afterUrls] at hheld
    exact hheld

end H1Request

namespace H2Request

variable {r : H2Request}

theorem held_h2Callback {s : HttpStream} (e : H2Event) (hs : s.separators ≤ s.headersRaw.length) :
    (h2Callback s e).separators ≤ (h2Callback s e).headersRaw.length ∧
      (h2Callback s e).heldHeader ≤ s.heldHeader + e.headerSize ∧
      (h2Callback s e).heldBody = s.heldBody + e.bodySize := by
  cases e with
  | endStream => exact ⟨hs, le_rfl, rfl⟩
  | data chunk => exact ⟨hs, le_rfl, length_append⟩
  | header name value =>
    rw [h2Callback, H2Event.headerSize]
    by_cases hn : name.head? = some 58
    · rw [if_pos hn, if_pos hn]
      by_cases hpath : name = bytes ":path"
      · rw [if_pos hpath, if_pos hpath]
        refine ⟨hs, ?_, rfl⟩
        rw [HttpStream.heldHeader, HttpStream.heldHeader]
        dsimp only
        omega
      · rw [if_neg hpath, if_neg hpath]
        exact ⟨hs, le_rfl, rfl⟩
    · rw [if_neg hn, if_neg hn]
      have hlen : (s.headersRaw ++ name ++ bytes ": " ++ value ++ bytes "\r\n").length =
          s.headersRaw.length + (name.length + value.length) + 4 := by
        rw [length_append, length_append, length_append, length_append]
        have h1 : (bytes ": ").length = 2 := rfl
        have h2 : (bytes "\r\n").length = 2 := rfl
        omega
      refine ⟨?_, ?_, rfl⟩
      · dsimp only
        omega
      · rw [HttpStream.heldHeader, HttpStream.heldHeader]
        dsimp only
        omega

theorem held_foldl : ∀ (es : List H2Event) {s : HttpStream}, s.separators ≤ s.headersRaw.length →
    (es.foldl h2Callback s).heldHeader ≤ s.heldHeader + (es.map H2Event.headerSize).sum ∧
      (es.foldl h2Callback s).heldBody = s.heldBody + (es.map H2Event.bodySize).sum
  | [], s, _ => ⟨le_rfl, rfl⟩
  | e :: es, s, hs => by
    obtain ⟨hs1, hh1, hb1⟩ := held_h2Callback e hs
    obtain ⟨hh, hb⟩ := held_foldl es hs1
    rw [foldl_cons, map_cons, sum_cons, map_cons, sum_cons]
    omega

theorem stream_foldl : ∀ (reads : List (List H2Event)) (c : HttpConn),
    (reads.foldl h2Read c).stream = reads.flatten.foldl h2Callback c.stream
  | [], c => rfl
  | es :: reads, c => by
    rw [foldl_cons, stream_foldl reads, flatten_cons, foldl_append]
    congr 1
    rw [h2Read]
    split <;> rfl

theorem outcomes_foldl : ∀ {reads : List (List H2Event)} {c : HttpConn}, (∀ e ∈ reads.flatten, e ≠ .endStream) →
    (reads.foldl h2Read c).outcomes = c.outcomes
  | [], c, _ => rfl
  | es :: reads, c, h => by
    rw [foldl_cons, outcomes_foldl fun e he => h e (mem_append_right _ he), h2Read]
    have hno : ¬es.contains .endStream := fun hc => h _ (mem_append_left _ (contains_iff_mem.1 hc)) rfl
    rw [if_neg hno]

theorem outcomes_served : ∀ {reads : List (List H2Event)} {c : HttpConn} {es : List H2Event},
    reads.flatten = es ++ [.endStream] → (∀ e ∈ es, e ≠ .endStream) →
    (reads.foldl h2Read c).outcomes = c.outcomes ++ [.dispatched]
  | [], c, es, h, _ => absurd h.symm (append_ne_nil_of_right_ne_nil _ (cons_ne_nil _ _))
  | f :: reads, c, es, h, hes => by
    rw [foldl_cons]
    obtain ⟨m, hm, hend⟩ | ⟨m, hm, hend⟩ := append_eq_append_iff.1 h
    · have hno : ¬f.contains .endStream := fun hc =>
        hes _ (hm ▸ mem_append_left _ (contains_iff_mem.1 hc)) rfl
      rw [outcomes_served hend fun e he => hes e (hm ▸ mem_append_right _ he), h2Read, if_neg hno]
    · cases m with
      | nil =>
        -- The read stops right before the end.
        rw [List.append_nil] at hm
        have hno : ¬f.contains .endStream := fun hc => hes _ (hm ▸ contains_iff_mem.1 hc) rfl
        rw [outcomes_served (hend.symm.trans (nil_append _).symm) nofun, h2Read, if_neg hno]
      | cons x m =>
        obtain ⟨rfl, hnil⟩ := cons_eq_cons.1 hend
        have hrest : reads.flatten = [] := (append_eq_nil_iff.1 hnil.symm).2
        have hyes : f.contains .endStream :=
          contains_iff_mem.2 (hm ▸ mem_append_right _ (mem_cons_self ..))
        rw [outcomes_foldl (hrest ▸ nofun), h2Read, if_pos hyes]

theorem held_le {reads : List (List H2Event)} (h : reads.flatten <+: r.reads.flatten) :
    (reads.foldl h2Read {}).stream.heldHeader ≤ r.headerSize ∧ (reads.foldl h2Read {}).stream.heldBody ≤ r.bodySize := by
  rw [stream_foldl reads {}]
  obtain ⟨hh, hb⟩ := held_foldl reads.flatten (s := {}) le_rfl
  have hwhole : (r.reads.flatten.map H2Event.headerSize).sum = r.headerSize ∧
      (r.reads.flatten.map H2Event.bodySize).sum = r.bodySize := by
    rw [r.whole, map_append, sum_append, map_append, sum_append]
    exact ⟨rfl, rfl⟩
  obtain ⟨t, ht⟩ := h
  rw [← hwhole.1, ← hwhole.2, ← ht, map_append, sum_append, map_append, sum_append]
  exact ⟨hh.trans (by rw [show HttpStream.heldHeader {} = 0 from rfl]; omega),
    hb.le.trans (by rw [show HttpStream.heldBody {} = 0 from rfl]; omega)⟩

end H2Request

namespace Request

variable {lim : ServerLimits}

theorem limited_h1_iff (lim : ServerLimits) (r : H1Request) : (h1 r).Limited lim ↔ (h1 r).Checked lim := by
  have hiff := H1Request.execute_rest_iff lim r
  constructor
  · intro h
    by_cases hurl : r.urlSize ≤ lim.maxHeaderSize
    · exact .inl hurl
    · refine .inr ⟨?_, ?_⟩
      · have hfront : [r.urls.map H1Event.url].flatten <+: r.reads.flatten := by
          rw [r.whole, flatten_singleton, append_assoc]
          exact prefix_append _ _
        have hheld := (h.held _ (.h1 r _ hfront)).1
        rw [H1Request.heldHeader_urls] at hheld
        exact hheld
      · by_contra hno
        rw [not_or, Nat.not_lt] at hno
        have hok := hiff.2 ⟨fun hh => absurd hh hno.1, hno.2⟩
        have hlarge : (h1 r).TooLarge lim := .inl ((Nat.not_le.1 hurl).trans_le (Nat.le_add_right _ _))
        obtain ⟨-, hout⟩ | ⟨hbad, -⟩ := H1Request.outcomes_served lim r
        · obtain ⟨x, -, hx⟩ := h.refused hlarge
          rw [served, hout] at hx
          cases hx
        · rw [hok] at hbad
          cases hbad
  · intro h
    refine ⟨fun hlarge => ?_, ?_, fun hlarge code reason hmem => ?_⟩
    · obtain ⟨hok, -⟩ | ⟨-, hout⟩ := H1Request.outcomes_served lim r
      · -- It would be large, and no header would say so.
        obtain ⟨hh, hb⟩ := hiff.1 hok
        have hlt := hlarge.resolve_right (Nat.not_lt.2 hb)
        have hno : ¬∃ e ∈ r.rest, e.isHeader := fun he => absurd (hh he) (Nat.not_le.2 hlt)
        have hsize : r.headerSize = r.urlSize := by
          rw [H1Request.headerSize, sum_fieldSize_of_isHeader hno, Nat.add_zero]
        rw [hsize] at hlt
        obtain hle | ⟨-, he | hb'⟩ := h
        · exact absurd hle (Nat.not_le.2 hlt)
        · exact absurd he hno
        · exact absurd hb (Nat.not_le.2 hb')
      · exact hout
    · rintro c (⟨_, reads, hfront⟩ | _)
      obtain ⟨hh, hb⟩ := H1Request.held_le lim hfront
      have hurl : r.urlSize ≤ lim.maxHeaderSize + lim.oneRead := h.elim (fun hle => by omega) And.left
      exact ⟨hh.trans (max_le (Nat.le_add_right _ _) hurl), hb.trans (Nat.le_add_right _ _)⟩
    · obtain ⟨-, hout⟩ | ⟨hbad, -⟩ := H1Request.outcomes_served lim r
      · rw [served, hout] at hmem
        cases mem_singleton.1 hmem
      · rw [hiff.2 ⟨fun _ => Nat.not_lt.1 fun hlt => hlarge (.inl hlt), Nat.not_lt.1 fun hlt => hlarge (.inr hlt)⟩]
          at hbad
        cases hbad

theorem limited_h2_iff (lim : ServerLimits) (r : H2Request) : (h2 r).Limited lim ↔ (h2 r).Checked lim := by
  have hserved : ((h2 r).served lim).outcomes = [.dispatched] :=
    H2Request.outcomes_served r.whole r.events_ne
  constructor
  · intro h hlarge
    obtain ⟨x, -, hx⟩ := h.refused hlarge
    rw [hserved] at hx
    cases hx
  · intro h
    refine ⟨fun hlarge => absurd hlarge h, ?_, fun _ code reason hmem => ?_⟩
    · rintro c (_ | ⟨_, reads, hfront⟩)
      obtain ⟨hh, hb⟩ := H2Request.held_le hfront
      exact ⟨hh.trans (Nat.le_add_right_of_le (Nat.not_lt.1 fun hlt => h (.inl hlt))),
        hb.trans (Nat.le_add_right_of_le (Nat.not_lt.1 fun hlt => h (.inr hlt)))⟩
    · rw [hserved] at hmem
      cases mem_singleton.1 hmem

/-- The limits of a request hold if and only if its bytes come where they are looked at. -/
theorem limited_iff (lim : ServerLimits) : ∀ r : Request, r.Limited lim ↔ r.Checked lim
  | h1 r => limited_h1_iff lim r
  | h2 r => limited_h2_iff lim r

def twoBytes : H2Request where
  reads := [[.data [1, 2]], [.endStream]]
  events := [.data [1, 2]]
  whole := rfl
  events_ne := by decide

/-- On HTTP/2 it goes to the handler. -/
theorem not_limited_twoBytes : ¬∀ (lim : ServerLimits) (r : Request), r.Limited lim := fun h =>
  (limited_h2_iff ⟨8192, 1, 4096⟩ twoBytes).1 (h _ _) (.inr (by decide))

end Request

end Libx.Http
