import Libx.Agent.Jsonl
import Libx.Http.Client

/-!
# Libx.Http.Response — the server answers

http/server.c and proto_h1.c: what a handler calls on its response writer, what is done where it does nothing, the error
path, and the bytes that come of it.  Memory suffices, and the socket takes what is written.
-/

namespace Libx.Http

open Libx.Agent (Bytes bytes decimal CStr)
open Client (Persists Bodiless Writable values readResponse)

/-- `xHttpResponseWriter_`, `keep_alive`, and what was appended to `write_buf` for the request. -/
structure ResponseConn where
  statusCode : Int32 := 200
  headers : List (CStr × CStr) := []
  sent : Bool := false
  streaming : Bool := false
  keepAlive : Bool
  out : Bytes := []

/-- What a handler calls; of `SetHeader`, whether there is memory. -/
inductive HandlerCall
  | setStatus (code : Int32)
  | setHeader (key value : CStr) (ok : Bool)
  | send (body : Bytes)
  | write (data : Bytes)
  | finish

/-- The answers that the server gives itself: `xHttpConnSendError`. -/
inductive ErrorAnswer
  | badRequest
  | notFound
  | methodNotAllowed
  | contentTooLarge
  | headersTooLarge
  | internal
  deriving DecidableEq

/-- A request is answered by a handler or not. -/
inductive Answer
  | handler (calls : List HandlerCall)
  | error (e : ErrorAnswer)

/-! ### The bytes -/

/-- `%d`. -/
def intDecimal (z : ℤ) : Bytes := if z < 0 then 45 :: decimal z.natAbs else decimal z.natAbs

/-- `xHttpStatusReason`: the cases. -/
def statusReasons : List (ℤ × String) :=
  [(200, "OK"), (201, "Created"), (204, "No Content"), (301, "Moved Permanently"), (302, "Found"), (304, "Not Modified"),
    (400, "Bad Request"), (403, "Forbidden"), (404, "Not Found"), (405, "Method Not Allowed"), (408, "Request Timeout"),
    (413, "Content Too Large"), (431, "Request Header Fields Too Large"), (500, "Internal Server Error"),
    (502, "Bad Gateway"), (503, "Service Unavailable")]

/-- `xHttpStatusReason`. -/
def statusReason (code : Int32) : Bytes := bytes ((statusReasons.lookup code.toInt).getD "Unknown")

def crlf : Bytes := [13, 10]

def statusLine (code : Int32) : Bytes := bytes "HTTP/1.1 " ++ intDecimal code.toInt ++ 32 :: statusReason code

def headerLine (h : Bytes × Bytes) : Bytes := h.1 ++ bytes ": " ++ h.2

def headerLines (headers : List (Bytes × Bytes)) : Bytes := headers.flatMap fun h => headerLine h ++ crlf

def pair (h : CStr × CStr) : Bytes × Bytes := (h.1.bytes, h.2.bytes)

def connectionHeader (keepAlive : Bool) : Bytes × Bytes :=
  (bytes "Connection", bytes (if keepAlive then "keep-alive" else "close"))

def lengthHeader (n : ℕ) : Bytes × Bytes := (bytes "Content-Length", decimal n)

namespace ResponseConn

variable (c : ResponseConn)

/-- `h1_send_response`. -/
def sendResponse (body : Bytes) : ResponseConn :=
  { c with
    out := c.out ++ statusLine c.statusCode ++ crlf ++ headerLine (lengthHeader body.length) ++ crlf ++
      headerLine (connectionHeader c.keepAlive) ++ crlf ++ headerLines (c.headers.map pair) ++ crlf ++ body }

/-- The first call of `h1_write_data`. -/
def startStream : ResponseConn :=
  { c with
    streaming := true, keepAlive := false
    out := c.out ++ statusLine c.statusCode ++ crlf ++ headerLine (connectionHeader false) ++ crlf ++
      headerLines (c.headers.map pair) ++ crlf }

/-- `h1_write_data`. -/
def writeData (data : Bytes) : ResponseConn :=
  let c := if c.streaming then c else c.startStream
  { c with out := c.out ++ data }

/-- `xHttpResponseSend`. -/
def send (body : Bytes) : ResponseConn :=
  if c.sent ∨ c.streaming then c else ({ c with sent := true } : ResponseConn).sendResponse body

/-- `xHttpResponseWrite`. -/
def write (data : Bytes) : ResponseConn := if c.sent then c else c.writeData data

/-- `xHttpResponseEnd`, and `h1_end_stream`. -/
def finish : ResponseConn := if c.streaming = false ∨ c.sent then c else { c with sent := true }

def call : HandlerCall → ResponseConn
  | .setStatus code => { c with statusCode := code }
  | .setHeader key value ok => if ok then { c with headers := c.headers ++ [(key, value)] } else c
  | .send body => c.send body
  | .write data => c.write data
  | .finish => c.finish

/-- What `conn_dispatch_request` does after the handler. -/
def afterHandler : ResponseConn :=
  let c := if c.sent = false ∧ c.streaming = false then c.send [] else c
  if c.streaming ∧ c.sent = false then c.finish else c

end ResponseConn

/-- The status and the reason with which `xHttpConnSendError` is called. -/
def ErrorAnswer.status : ErrorAnswer → Int32 × String
  | .badRequest => (400, "Bad Request")
  | .notFound => (404, "Not Found")
  | .methodNotAllowed => (405, "Method Not Allowed")
  | .contentTooLarge => (413, "Content Too Large")
  | .headersTooLarge => (431, "Request Header Fields Too Large")
  | .internal => (500, "Internal Server Error")

/-- The body that `xHttpConnSendError` makes. -/
def ErrorAnswer.body (e : ErrorAnswer) : Bytes :=
  bytes "<html><body><h1>" ++ intDecimal e.status.1.toInt ++ 32 :: bytes e.status.2 ++ bytes "</h1></body></html>" ++ crlf

theorem noNul_of_all {l : Bytes} (h : l.all (· != 0)) : ∀ b ∈ l, b ≠ 0 := by
  simpa using h

/-- `"Content-Type"` and `"text/html"`. -/
def contentType : CStr × CStr :=
  (⟨bytes "Content-Type", noNul_of_all (by decide)⟩, ⟨bytes "text/html", noNul_of_all (by decide)⟩)

namespace ResponseConn

/-- `xHttpConnSendError`, of a request that has no response. -/
def sendError (e : ErrorAnswer) (c : ResponseConn) : ResponseConn :=
  ({ c with statusCode := e.status.1, keepAlive := false, headers := c.headers ++ [contentType] } : ResponseConn).send e.body

end ResponseConn

/-- A request, after which the connection is kept alive or not, is answered. -/
def answer (keepAlive : Bool) : Answer → ResponseConn
  | .handler calls => (calls.foldl ResponseConn.call { keepAlive }).afterHandler
  | .error e => ({ keepAlive } : ResponseConn).sendError e

/-! ### What the client is to see -/

def HandlerCall.starts : HandlerCall → Bool
  | .send _ | .write _ => true
  | .setStatus _ | .setHeader _ _ _ | .finish => false

def before (calls : List HandlerCall) : List HandlerCall := calls.takeWhile fun x => !x.starts

/-- The call that starts the response, and those behind it. -/
def after (calls : List HandlerCall) : List HandlerCall := calls.dropWhile fun x => !x.starts

def headersSet (calls : List HandlerCall) : List (CStr × CStr) :=
  calls.filterMap fun
    | .setHeader key value true => some (key, value)
    | _ => none

def HandlerCall.status (code : Int32) : HandlerCall → Int32
  | .setStatus code => code
  | .setHeader _ _ _ | .send _ | .write _ | .finish => code

def statusSet (calls : List HandlerCall) : Int32 := calls.foldl HandlerCall.status 200

/-- The data that is written before the end of the stream. -/
def written : List HandlerCall → Bytes
  | [] => []
  | .write data :: calls => data ++ written calls
  | .finish :: _ => []
  | .setStatus _ :: calls | .setHeader _ _ _ :: calls | .send _ :: calls => written calls

namespace Answer

def status : Answer → Int32
  | .handler calls => statusSet (before calls)
  | .error e => e.status.1

def headers : Answer → List (Bytes × Bytes)
  | .handler calls => (headersSet calls).map pair
  | .error _ => [pair contentType]

def streams : Answer → Bool
  | .handler calls => match after calls with | .write _ :: _ => true | _ => false
  | .error _ => false

def given : Answer → Bytes
  | .handler calls => match after calls with | .send body :: _ => body | calls => written calls
  | .error e => e.body

/-- The connection is kept alive after the answer. -/
def persists (keepAlive : Bool) : Answer → Bool
  | .handler calls => keepAlive && !streams (.handler calls)
  | .error _ => false

def own (keepAlive : Bool) (a : Answer) : List (Bytes × Bytes) :=
  if a.streams then [connectionHeader false] else [lengthHeader a.given.length, connectionHeader (a.persists keepAlive)]

/-- The response that the client is to see: the headers that are set and the server's own, and the body that is given. -/
def response (m : Method) (keepAlive : Bool) (a : Answer) : Response where
  status := a.status.toInt.toNat
  headers := a.own keepAlive ++ a.headers
  body := if m = .head ∨ a.status.toInt.toNat = 204 ∨ a.status.toInt.toNat = 304 then [] else a.given

end Answer

/-- A client that reads the connection sees the response, and the next one starts where it ends: where the connection is
kept alive, whatever follows, and else there is nothing left. -/
def Framed (m : Method) (keepAlive : Bool) (a : Answer) : Prop :=
  if (answer keepAlive a).keepAlive then
    Persists (a.response m keepAlive).headers ∧
      ∀ rest, readResponse m false ((answer keepAlive a).out ++ rest) = some (a.response m keepAlive, rest)
  else readResponse m true (answer keepAlive a).out = some (a.response m keepAlive, [])

/-- The length that the handler gives for a streamed body, if any, is its length. -/
def Measured (lengths : List Bytes) (n : ℕ) : Prop :=
  lengths = [] ∨ ∃ v, lengths = [v] ∧ v ≠ [] ∧ v.all Client.isDigit = true ∧ Client.number v = n

/-- The status has three digits and is final; each header that is set can be written, and is set before the response
starts; a response without a body is given none; with one, no header says how long it is, but of a streamed one, where it
may say the length; and no header closes a connection that is kept alive. -/
structure Conforming (m : Method) (keepAlive : Bool) (a : Answer) : Prop where
  status : 200 ≤ a.status.toInt ∧ a.status.toInt ≤ 999
  headers : ∀ h ∈ a.headers, Writable h
  early : ∀ calls, a = .handler calls → headersSet (after calls) = []
  bodiless : Bodiless m a.status.toInt.toNat → a.given = []
  coding : ¬Bodiless m a.status.toInt.toNat → values "transfer-encoding" a.headers = []
  length : ¬Bodiless m a.status.toInt.toNat →
    if a.streams then Measured (values "content-length" a.headers) a.given.length else values "content-length" a.headers = []
  alive : a.persists keepAlive = true → Persists a.headers

end Libx.Http
