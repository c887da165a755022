import Libx.Http.WsConn

/-!
# Libx.Http.Deflate — compressed messages

ws_deflate.c: the offer of a client is read, answered and turned into two streams of zlib, and messages go through them.
-/

namespace Libx.Http

open Libx.Agent (Bytes bytes decimal)
open List

/-! ### Parameters -/

/-- `xWsDeflateParams` of an offer that was found (`enabled`). -/
structure DeflateParams where
  serverNoContextTakeover : Bool := false
  clientNoContextTakeover : Bool := false
  serverMaxWindowBits : ℕ := 15
  clientMaxWindowBits : ℕ := 15
  deriving DecidableEq

/-- The pieces between separators, as `memchr` finds them. -/
def pieces (sep : UInt8) : Bytes → List Bytes
  | [] => [[]]
  | b :: bs =>
    if b = sep then [] :: pieces sep bs
    else
      match pieces sep bs with
      | [] => [[b]]
      | p :: ps => (b :: p) :: ps

def isBlank (b : UInt8) : Bool := b = 32 || b = 9

/-- `skip_ws`. -/
def skipBlank (p : Bytes) : Bytes := p.dropWhile isBlank

def trimBlank (p : Bytes) : Bytes := (p.reverse.dropWhile isBlank).reverse

def lower (b : UInt8) : UInt8 := if 65 ≤ b ∧ b ≤ 90 then b + 32 else b

/-- `param_match`, and the test for the name of the extension. -/
def paramMatch (p : Bytes) (name : String) : Bool := p.map lower = (bytes name).map lower

def isDigit (b : UInt8) : Bool := 48 ≤ b && b ≤ 57

/-- The digits of a value, in an `int` that wraps, and whether they are a window size. -/
def windowBits (value : Bytes) : Option ℕ :=
  let bits := ((skipBlank value).takeWhile isDigit).foldl (fun n b => n * 10 + (b - 48).toUInt32) (0 : UInt32)
  if 8 ≤ bits ∧ bits ≤ 15 then some bits.toNat else none

/-- A window size, where there is a value and it is one. -/
def readBits (value : Bytes) (bits : ℕ) : ℕ := if value = [] then bits else (windowBits value).getD bits

/-- A parameter: the name and, behind the first `=`, the value. -/
def applyParam (params : DeflateParams) (piece : Bytes) : DeflateParams :=
  let p := skipBlank piece
  let name := trimBlank (p.takeWhile (· ≠ 61))
  let value := (p.dropWhile (· ≠ 61)).drop 1
  if paramMatch name "server_no_context_takeover" then { params with serverNoContextTakeover := true }
  else if paramMatch name "client_no_context_takeover" then { params with clientNoContextTakeover := true }
  else if paramMatch name "server_max_window_bits" then
    { params with serverMaxWindowBits := readBits value params.serverMaxWindowBits }
  else if paramMatch name "client_max_window_bits" then
    { params with clientMaxWindowBits := readBits value params.clientMaxWindowBits }
  else params

/-- The parameters of an extension, if it is `permessage-deflate`. -/
def parseExtension (ext : Bytes) : Option (List Bytes) :=
  match pieces 59 (skipBlank ext) with
  | [] => none
  | name :: params => if paramMatch (trimBlank name) "permessage-deflate" then some params else none

/-- `xWsDeflateParseOffer`: the first extension of that name. -/
def parseOffer (value : Bytes) : Option DeflateParams :=
  ((pieces 44 value).findSome? parseExtension).map fun params => params.foldl applyParam {}

/-- The parameters of a response, behind their semicolons. -/
def responseParams (params : DeflateParams) : List Bytes :=
  (if params.serverNoContextTakeover then [bytes " server_no_context_takeover"] else []) ++
    (if params.clientNoContextTakeover then [bytes " client_no_context_takeover"] else []) ++
    (if params.serverMaxWindowBits < 15 then [bytes " server_max_window_bits=" ++ decimal params.serverMaxWindowBits]
      else []) ++
    (if params.clientMaxWindowBits < 15 then [bytes " client_max_window_bits=" ++ decimal params.clientMaxWindowBits]
      else [])

/-- `xWsDeflateBuildServerResponse`, which fits into the 192 bytes it gets. -/
def buildServerResponse (params : DeflateParams) : Bytes :=
  bytes "permessage-deflate" ++ (responseParams params).flatMap (59 :: ·)

/-! ### The response is read back -/

theorem pieces_of_notMem {sep : UInt8} {p : Bytes} (h : sep ∉ p) : pieces sep p = [p] := by
  induction p with
  | nil => rfl
  | cons b p ih =>
    rw [mem_cons, not_or] at h
    rw [pieces, if_neg (Ne.symm h.1), ih h.2]

theorem pieces_append {sep : UInt8} {p : Bytes} (h : sep ∉ p) (q : Bytes) :
    pieces sep (p ++ sep :: q) = p :: pieces sep q := by
  induction p with
  | nil => rw [nil_append, pieces, if_pos rfl]
  | cons b p ih =>
    rw [mem_cons, not_or] at h
    rw [cons_append, pieces, if_neg (Ne.symm h.1), ih h.2]

theorem pieces_flatMap {sep : UInt8} {p : Bytes} {ps : List Bytes} (h : sep ∉ p) (hps : ∀ q ∈ ps, sep ∉ q) :
    pieces sep (p ++ ps.flatMap (sep :: ·)) = p :: ps := by
  induction ps generalizing p with
  | nil => rw [flatMap_nil, List.append_nil, pieces_of_notMem h]
  | cons q ps ih =>
    rw [flatMap_cons, cons_append, pieces_append h, ih (hps q (.head _)) fun r hr => hps r (.tail _ hr)]

def IsWindow (bits : ℕ) : Prop := 8 ≤ bits ∧ bits ≤ 15

variable {bits : ℕ}

theorem isWindow_windowBits {value : Bytes} (h : windowBits value = some bits) : IsWindow bits := by
  unfold windowBits at h
  dsimp only at h
  split_ifs at h with hrange
  obtain rfl := Option.some.inj h
  exact ⟨UInt32.le_iff_toNat_le.mp hrange.1, UInt32.le_iff_toNat_le.mp hrange.2⟩

theorem forall_window {P : ℕ → Prop} (h : ∀ k : Fin 7, P (8 + k)) (hw : IsWindow bits) (hlt : bits < 15) :
    P bits := by
  have hk := h ⟨bits - 8, by unfold IsWindow at hw; omega⟩
  rwa [Nat.add_sub_cancel' hw.1] at hk

variable {params : DeflateParams}

theorem notMem_responseParams (hs : IsWindow params.serverMaxWindowBits)
    (hc : IsWindow params.clientMaxWindowBits) : ∀ q ∈ responseParams params, (44 : UInt8) ∉ q ∧ (59 : UInt8) ∉ q := by
  intro q hq
  unfold responseParams at hq
  simp only [mem_append] at hq
  rcases hq with ((hq | hq) | hq) | hq
  all_goals
    split_ifs at hq with hif
  all_goals
    first
    | exact absurd hq not_mem_nil
    | obtain rfl := mem_singleton.mp hq
  · decide
  · decide
  · exact forall_window (P := fun n => (44 : UInt8) ∉ bytes " server_max_window_bits=" ++ decimal n ∧
      (59 : UInt8) ∉ bytes " server_max_window_bits=" ++ decimal n) (by decide) hs hif
  · exact forall_window (P := fun n => (44 : UInt8) ∉ bytes " client_max_window_bits=" ++ decimal n ∧
      (59 : UInt8) ∉ bytes " client_max_window_bits=" ++ decimal n) (by decide) hc hif

theorem read_window (name : String) (hname : ∀ k : Fin 7, trimBlank ((skipBlank (bytes name ++ decimal (8 + k))).takeWhile (· ≠ 61)) =
    trimBlank ((skipBlank (bytes name)).takeWhile (· ≠ 61)) ∧
      ((skipBlank (bytes name ++ decimal (8 + k))).dropWhile (· ≠ 61)).drop 1 = decimal (8 + k))
    (hw : IsWindow bits) (hlt : bits < 15) :
    trimBlank ((skipBlank (bytes name ++ decimal bits)).takeWhile (· ≠ 61)) =
        trimBlank ((skipBlank (bytes name)).takeWhile (· ≠ 61)) ∧
      ((skipBlank (bytes name ++ decimal bits)).dropWhile (· ≠ 61)).drop 1 = decimal bits :=
  forall_window (P := fun n => trimBlank ((skipBlank (bytes name ++ decimal n)).takeWhile (· ≠ 61)) =
    trimBlank ((skipBlank (bytes name)).takeWhile (· ≠ 61)) ∧
      ((skipBlank (bytes name ++ decimal n)).dropWhile (· ≠ 61)).drop 1 = decimal n) hname hw hlt

theorem readBits_decimal (hw : IsWindow bits) (hlt : bits < 15) (old : ℕ) :
    readBits (decimal bits) old = bits := by
  obtain ⟨hne, hbits⟩ := forall_window (P := fun n => decimal n ≠ [] ∧ windowBits (decimal n) = some n)
    (by decide) hw hlt
  rw [readBits, if_neg hne, hbits, Option.getD_some]

section Apply

variable (params : DeflateParams)

theorem apply_serverNoContextTakeover :
    applyParam params (bytes " server_no_context_takeover") = { params with serverNoContextTakeover := true } := by
  unfold applyParam
  rw [if_pos (by decide)]

theorem apply_clientNoContextTakeover :
    applyParam params (bytes " client_no_context_takeover") = { params with clientNoContextTakeover := true } := by
  unfold applyParam
  rw [if_neg (by decide), if_pos (by decide)]

theorem apply_serverMaxWindowBits (hw : IsWindow bits) (hlt : bits < 15) :
    applyParam params (bytes " server_max_window_bits=" ++ decimal bits) = { params with serverMaxWindowBits := bits } := by
  obtain ⟨hname, hvalue⟩ := read_window " server_max_window_bits=" (by decide) hw hlt
  unfold applyParam
  dsimp only
  rw [hname, hvalue, if_neg (by decide), if_neg (by decide), if_pos (by decide),
    readBits_decimal hw hlt]

theorem apply_clientMaxWindowBits (hw : IsWindow bits) (hlt : bits < 15) :
    applyParam params (bytes " client_max_window_bits=" ++ decimal bits) = { params with clientMaxWindowBits := bits } := by
  obtain ⟨hname, hvalue⟩ := read_window " client_max_window_bits=" (by decide) hw hlt
  unfold applyParam
  dsimp only
  rw [hname, hvalue, if_neg (by decide), if_neg (by decide), if_neg (by decide),
    if_pos (by decide),
    readBits_decimal hw hlt]

end Apply

theorem foldl_responseParams (hs : IsWindow params.serverMaxWindowBits)
    (hc : IsWindow params.clientMaxWindowBits) : (responseParams params).foldl applyParam {} = params := by
  obtain ⟨sno, cno, sbits, cbits⟩ := params
  unfold responseParams
  rw [foldl_append, foldl_append, foldl_append]
  have h1 : (if sno then [bytes " server_no_context_takeover"] else []).foldl applyParam {} = ⟨sno, false, 15, 15⟩ := by
    cases sno with
    | false => rfl
    | true =>
      rw [if_pos rfl, foldl_cons, foldl_nil]
      exact apply_serverNoContextTakeover {}
  have h2 : (if cno then [bytes " client_no_context_takeover"] else []).foldl applyParam ⟨sno, false, 15, 15⟩ =
      ⟨sno, cno, 15, 15⟩ := by
    cases cno with
    | false => rfl
    | true =>
      rw [if_pos rfl, foldl_cons, foldl_nil]
      exact apply_clientNoContextTakeover _
  have h3 : (if sbits < 15 then [bytes " server_max_window_bits=" ++ decimal sbits] else []).foldl applyParam
      ⟨sno, cno, 15, 15⟩ = ⟨sno, cno, sbits, 15⟩ := by
    split_ifs with hlt
    · rw [foldl_cons, foldl_nil]
      exact apply_serverMaxWindowBits _ hs hlt
    · obtain rfl : sbits = 15 := Nat.le_antisymm hs.2 (Nat.le_of_not_lt hlt)
      rfl
  have h4 : (if cbits < 15 then [bytes " client_max_window_bits=" ++ decimal cbits] else []).foldl applyParam
      ⟨sno, cno, sbits, 15⟩ = ⟨sno, cno, sbits, cbits⟩ := by
    split_ifs with hlt
    · rw [foldl_cons, foldl_nil]
      exact apply_clientMaxWindowBits _ hc hlt
    · obtain rfl : cbits = 15 := Nat.le_antisymm hc.2 (Nat.le_of_not_lt hlt)
      rfl
  rw [h1, h2, h3, h4]

/-- **A response is read back** as the parameters it was made of. -/
theorem parseOffer_buildServerResponse (hs : IsWindow params.serverMaxWindowBits)
    (hc : IsWindow params.clientMaxWindowBits) : parseOffer (buildServerResponse params) = some params := by
  have hparts := notMem_responseParams hs hc
  have hcomma : (44 : UInt8) ∉ buildServerResponse params := by
    unfold buildServerResponse
    rw [mem_append, not_or, mem_flatMap]
    refine ⟨by decide, ?_⟩
    rintro ⟨q, hq, hmem⟩
    rcases mem_cons.mp hmem with h | h
    · exact absurd h (by decide)
    · exact (hparts q hq).1 h
  have hname : (59 : UInt8) ∉ bytes "permessage-deflate" := by decide
  have hblank : skipBlank (buildServerResponse params) = buildServerResponse params := by
    exact dropWhile_cons_of_neg (by decide)
  have hext : parseExtension (buildServerResponse params) = some (responseParams params) := by
    unfold parseExtension
    rw [hblank, buildServerResponse, pieces_flatMap hname fun q hq => (hparts q hq).2]
    dsimp only
    rw [if_pos (by decide)]
  unfold parseOffer
  rw [pieces_of_notMem hcomma, List.findSome?_cons, hext]
  exact congrArg some (foldl_responseParams hs hc)

theorem isWindow_applyParam (piece : Bytes) (hs : IsWindow params.serverMaxWindowBits)
    (hc : IsWindow params.clientMaxWindowBits) :
    IsWindow (applyParam params piece).serverMaxWindowBits ∧ IsWindow (applyParam params piece).clientMaxWindowBits := by
  have hvalue (value : Bytes) (old : ℕ) (hold : IsWindow old) : IsWindow (readBits value old) := by
    unfold readBits
    split_ifs
    · exact hold
    · cases hbits : windowBits value with
      | none => exact hold
      | some bits => exact isWindow_windowBits hbits
  unfold applyParam
  dsimp only
  split_ifs
  · exact ⟨hs, hc⟩
  · exact ⟨hs, hc⟩
  · exact ⟨hvalue _ _ hs, hc⟩
  · exact ⟨hs, hvalue _ _ hc⟩
  · exact ⟨hs, hc⟩

theorem isWindow_parseOffer {value : Bytes} (h : parseOffer value = some params) :
    IsWindow params.serverMaxWindowBits ∧ IsWindow params.clientMaxWindowBits := by
  have hfold (ps : List Bytes) (p : DeflateParams) (hs : IsWindow p.serverMaxWindowBits)
      (hc : IsWindow p.clientMaxWindowBits) :
      IsWindow (ps.foldl applyParam p).serverMaxWindowBits ∧ IsWindow (ps.foldl applyParam p).clientMaxWindowBits := by
    induction ps generalizing p with
    | nil => exact ⟨hs, hc⟩
    | cons piece ps ih =>
      obtain ⟨hs', hc'⟩ := isWindow_applyParam piece hs hc
      exact ih _ hs' hc'
  obtain ⟨ps, -, rfl⟩ := Option.map_eq_some_iff.mp h
  exact hfold ps {} ⟨by decide, by decide⟩ ⟨by decide, by decide⟩

/-! ### Streams -/

/-- What a call of zlib comes to: fine, no progress, an error. -/
inductive ZResult
  | ok
  | bufError
  | error
  deriving DecidableEq

/-- A call of `deflate` or `inflate`: the result, the stream, what is left of the input, the output. -/
structure ZCall (S : Type) where
  result : ZResult
  stream : S
  rest : Bytes
  out : Bytes

/-- The functions of zlib that are used: `deflate` and `inflate` get the input and the room for the output, and
`Z_SYNC_FLUSH`. -/
structure Zlib (D I : Type) where
  deflateInit2 : ℤ → Option D
  inflateInit2 : ℤ → Option I
  deflateReset : D → Option D
  inflateReset : I → Option I
  deflate : D → Bytes → ℕ → ZCall D
  inflate : I → Bytes → ℕ → ZCall I

/-- One half of `xWsDeflateCtx_`; `calls` counts the messages that went through. -/
structure Stream (S : Type) where
  strm : S
  noContextTakeover : Bool
  calls : ℕ := 0
  deriving DecidableEq

/-- `DEFLATE_TAIL`. -/
def deflateTail : Bytes := [0x00, 0x00, 0xFF, 0xFF]

def stripTail (out : Bytes) : Bytes :=
  if 4 ≤ out.length ∧ out.drop (out.length - 4) = deflateTail then out.take (out.length - 4) else out

def maxInflated : ℕ := 64 * 1024 * 1024

section Streams

variable {D I : Type} (z : Zlib D I)

/-- `xWsDeflateCreate`. -/
def deflateCreate (params : DeflateParams) (isClient : Bool) : Option (DeflateCtx (Stream D) (Stream I)) :=
  let sendBits := if isClient then params.clientMaxWindowBits else params.serverMaxWindowBits
  let recvBits := if isClient then params.serverMaxWindowBits else params.clientMaxWindowBits
  let noTakeoverSend := if isClient then params.clientNoContextTakeover else params.serverNoContextTakeover
  let noTakeoverRecv := if isClient then params.serverNoContextTakeover else params.clientNoContextTakeover
  match z.deflateInit2 (-sendBits) with
  | none => none
  | some deflate =>
    match z.inflateInit2 (-recvBits) with
    | none => none
    | some inflate => some ⟨⟨deflate, noTakeoverSend, 0⟩, ⟨inflate, noTakeoverRecv, 0⟩⟩

/-- After a call with so much `room` in a buffer of `size`, with the output before it, and memory for that many times
more: until there is room left. -/
def compressLoop : ℕ → ZCall D → ℕ → ℕ → Bytes → Option Bytes × D
  | allocs, call, room, size, got =>
    if call.result = .error then (none, call.stream)
    else
      let got := got ++ call.out
      if call.out.length < room then (some (stripTail got), call.stream)
      else
        match allocs with
        | 0 => (none, call.stream)
        | allocs + 1 => compressLoop allocs (z.deflate call.stream call.rest size) size (2 * size) got

/-- `xWsDeflateCompress`, with memory for so many allocations. -/
def compress (allocs : ℕ) (s : Stream D) (payload : Bytes) : Option Bytes × Stream D :=
  let next (strm : D) : Stream D := { s with strm, calls := s.calls + 1 }
  match if s.noContextTakeover then z.deflateReset s.strm else some s.strm with
  | none => (none, next s.strm)
  | some strm =>
    match allocs with
    | 0 => (none, next strm)
    | allocs + 1 =>
      let size := if 0 < payload.length then payload.length + payload.length / 10 + 64 else 4096
      let r := compressLoop z allocs (z.deflate strm payload size) size size []
      (r.1, next r.2)

/-- After a call: as long as there is input left. -/
def decompressLoop : ℕ → ZCall I → ℕ → Bytes → Option Bytes × I
  | allocs, call, size, got =>
    let got := got ++ call.out
    if call.result = .ok ∧ call.rest ≠ [] then
      if maxInflated < 2 * size then (none, call.stream)
      else
        match allocs with
        | 0 => (none, call.stream)
        | allocs + 1 =>
          decompressLoop allocs (z.inflate call.stream call.rest (2 * size - got.length)) (2 * size) got
    else if call.result = .error then (none, call.stream)
    else (some got, call.stream)

/-- `xWsDeflateDecompress`. -/
def decompress (allocs : ℕ) (s : Stream I) (payload : Bytes) : Option Bytes × Stream I :=
  let next (strm : I) : Stream I := { s with strm, calls := s.calls + 1 }
  match if s.noContextTakeover then z.inflateReset s.strm else some s.strm with
  | none => (none, next s.strm)
  | some strm =>
    match allocs with
    | 0 | 1 => (none, next strm)
    | allocs + 2 =>
      let size := max 4096 (4 * payload.length)
      let r := decompressLoop z allocs (z.inflate strm (payload ++ deflateTail) size) size []
      (r.1, next r.2)

/-! ### The handshake -/

/-- What `xWsUpgrade` reads out of the header `Sec-WebSocket-Extensions`, if there is one. -/
def negotiated (offer : Option Bytes) : Option DeflateParams :=
  match offer with
  | some value => if value = [] then none else parseOffer value
  | none => none

def response (offer : Option Bytes) : Option Bytes := (negotiated offer).map buildServerResponse

/-- The connection of `xWsUpgrade`. -/
def serverConn (offer : Option Bytes) (hasIdleTimeout : Bool) (rest : Bytes) : WsConn (Stream D) (Stream I) :=
  .handOver false hasIdleTimeout ((negotiated offer).bind fun params => deflateCreate z params false) rest

/-- The connection of a client that got the response. -/
def clientConn (offer : Option Bytes) (rest : Bytes) : WsConn (Stream D) (Stream I) :=
  .handOver true false (((response offer).bind parseOffer).bind fun params => deflateCreate z params true) rest

end Streams

/-- What is outside of a sender and its receiver: zlib, for how many allocations each message finds memory at the sender
and at the receiver, and the rest of `WsEnv`. -/
structure DeflateEnv (D I : Type) where
  zlib : Zlib D I
  allocs : ℕ → ℕ
  allocs' : ℕ → ℕ
  writev : ℕ → WriteResult
  key : ℕ → MaskingKey := fun _ => {}
  onMessage : List WsNote → List UserCall := fun _ => []

def DeflateEnv.ws {D I : Type} (e : DeflateEnv D I) : WsEnv (Stream D) (Stream I) where
  writev := e.writev
  key := e.key
  onMessage := e.onMessage
  compress s payload := compress e.zlib (e.allocs s.calls) s payload
  decompress s payload := decompress e.zlib (e.allocs' s.calls) s payload

end Libx.Http
