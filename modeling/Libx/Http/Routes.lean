import Libx.Agent.Jsonl
import Libx.Core.Split

/-!
# Libx.Http.Routes — the routes of a server

server.c, how routes are registered, matched and chosen.  A byte is its code: 32 is the space, 47 the slash, 58 the
colon, 63 the question mark.
-/

namespace Libx.Http

open Libx.Agent (Bytes CStr Errno bytes cstr)
open Libx.Core (cut words)
open List

/-- `XHTTP_MAX_PARAMS`. -/
def maxParams : ℕ := 8

/-- `xHttpRouteSegment_`. -/
inductive RouteSegment
  | text (text : Bytes)
  | param (name : Bytes)
  deriving DecidableEq

def RouteSegment.isParam : RouteSegment → Bool
  | text _ => false
  | param _ => true

/-- `xHttpParam_`. -/
structure Param where
  name : Bytes
  value : Bytes
  deriving DecidableEq

theorem length_dropWhile_lt (q : UInt8 → Bool) (c : UInt8) (p : Bytes) :
    (p.dropWhile q).length < (c :: p).length :=
  Nat.lt_succ_of_le (List.dropWhile_suffix q).length_le

/-- The first loop of `route_parse_segments`. -/
def countSegments : Bytes → ℕ
  | [] => 0
  | c :: p => if c = 47 then countSegments p else countSegments (p.dropWhile (· ≠ 47)) + 1
termination_by p => p.length
decreasing_by
  · exact Nat.lt_succ_self _
  · exact length_dropWhile_lt _ c p

/-- What the text between two slashes is for a route. -/
def segment (s : Bytes) : RouteSegment := if s.head? = some 58 ∧ 1 < s.length then .param s.tail else .text s

def fillSegments : Bytes → List RouteSegment
  | [] => []
  | c :: p =>
    if c = 47 then fillSegments p
    else segment (c :: p.takeWhile (· ≠ 47)) :: fillSegments (p.dropWhile (· ≠ 47))
termination_by p => p.length
decreasing_by
  · exact Nat.lt_succ_self _
  · exact length_dropWhile_lt _ c p

/-- `xHttpRoute_`. -/
structure Route (H A : Type) where
  method : Option CStr
  path : CStr
  segments : List RouteSegment
  handler : H
  arg : A
  parsed : segments = fillSegments path.bytes

section

variable {H A : Type}

def route (method : Option CStr) (path : CStr) (handler : H) (arg : A) : Route H A where
  method := method
  path := path
  segments := fillSegments path.bytes
  handler := handler
  arg := arg
  parsed := rfl

/-- `xHttpServerRoute`, where there is memory. -/
def serverRoute (routes : List (Route H A)) (pattern : Option CStr) (handler : Option H) (arg : A) :
    Errno × List (Route H A) :=
  match pattern, handler with
  | some pattern, some handler =>
    if pattern.bytes.head? = some 47 then (.ok, routes ++ [route none pattern handler arg])
    else
      match cut 32 pattern.bytes with
      | none => (.invalidArg, routes)
      | some (method, path) =>
        if path.head? = some 47 then (.ok, routes ++ [route (some (cstr method)) (cstr path) handler arg])
        else (.invalidArg, routes)
  | _, _ => (.invalidArg, routes)

/-- The routes of a server on which these calls were made. -/
def registered (calls : List (Option CStr × Option H × A)) : List (Route H A) :=
  calls.foldl (fun routes call => (serverRoute routes call.1 call.2.1 call.2.2).2) []

/-! ### The search -/

def skipSlashes (p : Bytes) : Bytes := p.dropWhile (· = 47)

def inSegment (c : UInt8) : Bool := c ≠ 47 && c ≠ 63

/-- The loop of `route_match`, from where the pointer is. -/
def matchSegments : List RouteSegment → Bytes → List Param → Option (Bytes × List Param)
  | [], p, params => some (p, params)
  | rs :: rest, p, params =>
    if p = [] then none
    else
      let seg := p.takeWhile inSegment
      let next := skipSlashes (p.dropWhile inSegment)
      match rs with
      | .param name =>
        if seg = [] then none
        else if maxParams ≤ params.length then none
        else matchSegments rest next (params ++ [{ name := name, value := seg }])
      | .text text => if seg = text then matchSegments rest next params else none

/-- What `route_match` looks at behind the loop. -/
def matchEnd : Bytes × List Param → Option (List Param)
  | (p, params) => if p = [] ∨ p.head? = some 63 then some params else none

/-- `route_match`, with the parameters. -/
def routeMatch (r : Route H A) (url : CStr) : Option (List Param) :=
  (matchSegments r.segments (skipSlashes url.bytes) []).bind matchEnd

/-- `xHttpRequest`. -/
structure HandlerRequest where
  method : CStr
  url : CStr
  headers : Bytes
  body : Option Bytes
  params : Option (List Param)
  deriving DecidableEq

/-- The buffers of `xHttpStream_`; `none` is NULL. -/
structure RequestBuffers where
  url : Option Bytes := none
  headersRaw : Option Bytes := none
  body : Option Bytes := none

/-- The request that `conn_dispatch_request` builds. -/
def handlerRequest (method : CStr) (stream : RequestBuffers) : HandlerRequest where
  method := method
  url := cstr (stream.url.getD (bytes "/"))
  headers := stream.headersRaw.getD []
  body := stream.body
  params := none

/-- What is done for a request: the handler is called, or an error is sent. -/
inductive Dispatched (H A : Type)
  | handler (handler : H) (arg : A) (req : HandlerRequest)
  | error (code : ℕ) (reason : String)
  deriving DecidableEq

def tolower (c : UInt8) : UInt8 := if 65 ≤ c && c ≤ 90 then c + 32 else c

/-- `strcasecmp` finds no difference. -/
def sameIgnoringCase (a b : CStr) : Bool := a.bytes.map tolower = b.bytes.map tolower

def Route.allows (r : Route H A) (method : CStr) : Bool := r.method.all fun m => sameIgnoringCase m method

/-- The loop of `conn_dispatch_request`, and the error behind it. -/
def dispatchLoop (req : HandlerRequest) (pathMatched : Bool) : List (Route H A) → Dispatched H A
  | [] => if pathMatched then .error 405 "Method Not Allowed" else .error 404 "Not Found"
  | r :: rs =>
    match routeMatch r req.url with
    | some params =>
      if r.allows req.method then .handler r.handler r.arg { req with params := some params }
      else dispatchLoop req true rs
    | none => dispatchLoop req pathMatched rs

/-- `conn_dispatch_request`, up to the call of the handler. -/
def dispatchRequest (routes : List (Route H A)) (method : CStr) (stream : RequestBuffers) : Dispatched H A :=
  dispatchLoop (handlerRequest method stream) false routes

/-! ### What the routes mean -/

/-- The segments of a URL: of the text before the question mark. -/
def pathSegments (url : CStr) : List Bytes := words 47 (url.bytes.takeWhile (· ≠ 63))

def bindings : List RouteSegment → List Bytes → Option (List Param)
  | [], [] => some []
  | .text text :: rs, s :: ss => if s = text then bindings rs ss else none
  | .param name :: rs, s :: ss => (bindings rs ss).map ({ name := name, value := s } :: ·)
  | _, _ => none

namespace Route

/-- The path of the route is the path of the URL, with these parameters. -/
def binds (r : Route H A) (url : CStr) : Option (List Param) :=
  bindings ((words 47 r.path.bytes).map segment) (pathSegments url)

def answers (r : Route H A) (method url : CStr) : Bool := (r.binds url).isSome && r.allows method

def paramCount (r : Route H A) : ℕ := ((words 47 r.path.bytes).map segment).countP RouteSegment.isParam

end Route

/-- **First match**: the first route for the request is called; else 405 where there is one for its path, and 404 where
there is none. -/
def firstMatch (routes : List (Route H A)) (req : HandlerRequest) : Dispatched H A :=
  match routes.find? fun r => r.answers req.method req.url with
  | some r => .handler r.handler r.arg { req with params := r.binds req.url }
  | none =>
    if routes.any fun r => (r.binds req.url).isSome then .error 405 "Method Not Allowed" else .error 404 "Not Found"

def matchable (routes : List (Route H A)) : List (Route H A) := routes.filter fun r => r.paramCount ≤ maxParams

/-! ### The segments -/

theorem fillSegments_eq (p : Bytes) : fillSegments p = (words 47 p).map segment := by
  fun_induction fillSegments p with
  | case1 => rfl
  | case2 p ih => rw [ih, Core.words_cons_self]
  | case3 c p hc ih =>
    rw [Core.words_eq_cons (cons_ne_nil c p) (by simpa using hc), takeWhile_cons_of_pos (by simpa using hc),
      dropWhile_cons_of_pos (by simpa using hc), ih]
    rfl

theorem ne_nil_of_segment {s text : Bytes} (hs : s ≠ []) (h : segment s = .text text) : text ≠ [] := by
  unfold segment at h
  split_ifs at h
  cases h
  exact hs

theorem text_ne_nil {path text : Bytes} (h : .text text ∈ (words 47 path).map segment) : text ≠ [] := by
  obtain ⟨s, hs, heq⟩ := mem_map.1 h
  exact ne_nil_of_segment (by simpa using (mem_filter.1 hs).2) heq

/-! ### The search of one route -/

theorem words_next (p : Bytes) :
    words 47 ((skipSlashes (p.dropWhile inSegment)).takeWhile (· ≠ 63)) =
      words 47 ((p.takeWhile (· ≠ 63)).dropWhile (· ≠ 47)) := by
  unfold skipSlashes
  rw [Core.takeWhile_dropWhile (by simp +contextual), Core.words_dropWhile, Core.takeWhile_dropWhile (by simp [inSegment])]
  congr 1
  refine Core.dropWhile_congr fun c hc => ?_
  have : c ≠ 63 := by simpa using Core.takeWhile_all c hc
  simp [inSegment, this]

theorem takeWhile_inSegment (p : Bytes) : (p.takeWhile (· ≠ 63)).takeWhile (· ≠ 47) = p.takeWhile inSegment := by
  rw [takeWhile_takeWhile]
  congr 1
  funext c
  simp [inSegment]

theorem head?_skipSlashes (p : Bytes) : (skipSlashes p).head? ≠ some 47 := by
  intro h
  have := Core.head_dropWhile (p := (· = 47)) (l := p) 47 h
  simp at this

theorem matchEnd_eq {p : Bytes} (hp : p.head? ≠ some 47) (params : List Param) :
    matchEnd (p, params) = (bindings [] (words 47 (p.takeWhile (· ≠ 63)))).map (params ++ ·) := by
  unfold matchEnd
  cases p with
  | nil => simp [words, bindings]
  | cons c p =>
    by_cases hc : c = 63
    · subst hc
      simp [words, bindings]
    · have hw : (c :: p).takeWhile (· ≠ 63) = c :: p.takeWhile (· ≠ 63) := takeWhile_cons_of_pos (by simpa using hc)
      rw [hw, Core.words_eq_cons (cons_ne_nil c _) (by simpa using hp)]
      simp [hc, bindings]

theorem bindings_cons_nil (rs : RouteSegment) (rest : List RouteSegment) : bindings (rs :: rest) [] = none := by
  cases rs with
  | text text | param name => rfl

theorem words_path {p : Bytes} (hp : p.head? ≠ some 47) :
    words 47 (p.takeWhile (· ≠ 63)) =
      if p.takeWhile inSegment = [] then []
      else p.takeWhile inSegment :: words 47 ((skipSlashes (p.dropWhile inSegment)).takeWhile (· ≠ 63)) := by
  cases p with
  | nil => simp [words]
  | cons c p =>
    by_cases hc : c = 63
    · subst hc
      simp [words, inSegment]
    · have hs : inSegment c = true := by simpa [inSegment, hc] using hp
      rw [if_neg (by rw [takeWhile_cons_of_pos hs]; exact cons_ne_nil _ _), words_next, ← takeWhile_inSegment]
      refine Core.words_eq_cons ?_ ?_
      · rw [takeWhile_cons_of_pos (by simpa using hc)]
        exact cons_ne_nil _ _
      · rw [takeWhile_cons_of_pos (by simpa using hc)]
        exact hp

variable {params : List Param}

/-- **One route**: the loop finds the parameters if there is room for them. -/
theorem matchSegments_eq {rs : List RouteSegment} (hrs : ∀ text, .text text ∈ rs → text ≠ []) {p : Bytes}
    (hp : p.head? ≠ some 47) (hparams : params.length ≤ maxParams) :
    (matchSegments rs p params).bind matchEnd =
      if params.length + rs.countP RouteSegment.isParam ≤ maxParams then
        (bindings rs (words 47 (p.takeWhile (· ≠ 63)))).map (params ++ ·)
      else none := by
  induction rs generalizing p params with
  | nil => rw [matchSegments, Option.bind_some, matchEnd_eq hp, countP_nil, Nat.add_zero, if_pos hparams]
  | cons rs rest ih =>
    have hrest : ∀ text, .text text ∈ rest → text ≠ [] := fun text h => hrs text (mem_cons_of_mem rs h)
    rw [words_path hp, matchSegments]
    by_cases hnil : p = []
    · subst hnil
      rw [if_pos rfl, takeWhile_nil, if_pos rfl, bindings_cons_nil, Option.map_none, ite_self]
      rfl
    rw [if_neg hnil]
    by_cases hseg : p.takeWhile inSegment = []
    · -- the question mark
      rw [if_pos hseg, bindings_cons_nil, Option.map_none, ite_self]
      cases rs with
      | param name =>
        dsimp only
        rw [if_pos hseg]
        rfl
      | text text =>
        dsimp only
        rw [if_neg (by rw [hseg]; exact (hrs text mem_cons_self).symm)]
        rfl
    rw [if_neg hseg]
    cases rs with
    | text text =>
      dsimp only
      rw [bindings, countP_cons_of_neg (by simp [RouteSegment.isParam])]
      by_cases heq : p.takeWhile inSegment = text
      · rw [if_pos heq, if_pos heq, ih hrest (head?_skipSlashes _) hparams]
      · rw [if_neg heq, if_neg heq, Option.map_none, ite_self]
        rfl
    | param name =>
      dsimp only
      rw [if_neg hseg, bindings, countP_cons_of_pos rfl]
      by_cases hlt : maxParams ≤ params.length
      · rw [if_pos hlt, if_neg (by omega)]
        rfl
      · rw [if_neg hlt, ih hrest (head?_skipSlashes _) (by rw [length_append, length_singleton]; omega),
          length_append, length_singleton, Nat.add_right_comm, Nat.add_assoc, Option.map_map]
        congr 2
        funext ps
        simp

theorem length_of_bindings {rs : List RouteSegment} {ss : List Bytes}
    (h : bindings rs ss = some params) : params.length = rs.countP RouteSegment.isParam := by
  induction rs generalizing ss params with
  | nil =>
    cases ss with
    | nil => cases h; rfl
    | cons s ss => cases h
  | cons rs rest ih =>
    cases ss with
    | nil => rw [bindings_cons_nil] at h; cases h
    | cons s ss =>
      cases rs with
      | text text =>
        rw [bindings] at h
        split_ifs at h
        rw [countP_cons_of_neg (by simp [RouteSegment.isParam]), ih h]
      | param name =>
        rw [bindings, Option.map_eq_some_iff] at h
        obtain ⟨ps, hps, rfl⟩ := h
        rw [countP_cons_of_pos rfl, length_cons, ih hps]

namespace Route

variable {r : Route H A} {url : CStr}

theorem routeMatch_eq (r : Route H A) (url : CStr) :
    routeMatch r url = if r.paramCount ≤ maxParams then r.binds url else none := by
  unfold routeMatch
  rw [r.parsed, fillSegments_eq, matchSegments_eq (fun _ => text_ne_nil) (head?_skipSlashes _) (Nat.zero_le _)]
  have hpath : words 47 ((skipSlashes url.bytes).takeWhile (· ≠ 63)) = pathSegments url := by
    rw [skipSlashes, Core.takeWhile_dropWhile (by simp +contextual), Core.words_dropWhile]
    rfl
  rw [hpath, length_nil, Nat.zero_add]
  simp only [nil_append, Option.map_id']
  rfl

/-- **How many parameters a match fills in**: those of the pattern, and never more than the array holds. -/
theorem map_length_routeMatch (r : Route H A) (url : CStr) : (routeMatch r url).map length =
    if r.paramCount ≤ maxParams ∧ (r.binds url).isSome then some r.paramCount else none := by
  rw [routeMatch_eq]
  by_cases hle : r.paramCount ≤ maxParams
  · rw [if_pos hle]
    cases hb : r.binds url with
    | none => rw [if_neg fun h => Bool.false_ne_true h.2, Option.map_none]
    | some params => rw [if_pos ⟨hle, rfl⟩, Option.map_some, length_of_bindings hb, paramCount]
  · rw [if_neg hle, if_neg fun h => hle h.1, Option.map_none]

theorem routeMatch_isSome : (routeMatch r url).isSome ↔ (r.binds url).isSome ∧ r.paramCount ≤ maxParams := by
  rw [routeMatch_eq]
  split_ifs with h <;> simp [h]

end Route

/-! ### The search of all routes -/

/-- **The loop**: the first route that it matches and that takes the method. -/
theorem dispatchLoop_eq (req : HandlerRequest) (pathMatched : Bool) (routes : List (Route H A)) :
    dispatchLoop req pathMatched routes =
      match routes.find? fun r => (routeMatch r req.url).isSome && r.allows req.method with
      | some r => .handler r.handler r.arg { req with params := routeMatch r req.url }
      | none =>
        if pathMatched || routes.any fun r => (routeMatch r req.url).isSome then .error 405 "Method Not Allowed"
        else .error 404 "Not Found" := by
  induction routes generalizing pathMatched with
  | nil => rw [dispatchLoop, List.find?_nil, any_nil, Bool.or_false]
  | cons r rs ih =>
    rw [dispatchLoop, List.find?_cons, any_cons]
    cases hm : routeMatch r req.url with
    | none =>
      dsimp only
      rw [ih, Option.isSome_none, Bool.false_and, Bool.false_or]
    | some params =>
      dsimp only
      rw [Option.isSome_some, Bool.true_and, Bool.true_or, Bool.or_true]
      cases r.allows req.method with
      | true =>
        rw [if_pos rfl, ← hm]
      | false => rw [if_neg Bool.false_ne_true, ih, Bool.true_or]

theorem dispatchLoop_false (routes : List (Route H A)) (req : HandlerRequest) :
    dispatchLoop req false routes = firstMatch (matchable routes) req := by
  have hmatch : ∀ r : Route H A, (routeMatch r req.url).isSome =
      (decide (r.paramCount ≤ maxParams) && (r.binds req.url).isSome) := fun r => by
    rw [Bool.eq_iff_iff, Route.routeMatch_isSome, Bool.and_eq_true, decide_eq_true_iff, and_comm]
  have hanswers : ∀ r : Route H A, ((routeMatch r req.url).isSome && r.allows req.method) =
      (decide (r.paramCount ≤ maxParams) && r.answers req.method req.url) := fun r => by
    rw [hmatch, Route.answers, Bool.and_assoc]
  rw [dispatchLoop_eq, firstMatch, matchable, List.find?_filter, any_filter]
  simp only [hanswers, Bool.false_or, Bool.decide_and, Bool.decide_eq_true]
  cases hfind : routes.find? fun r => decide (r.paramCount ≤ maxParams) && r.answers req.method req.url with
  | some r =>
    have hr := (Bool.and_eq_true_iff.1 (List.find?_some (p := fun r : Route H A => _ && _) hfind)).1
    dsimp only
    rw [Route.routeMatch_eq, if_pos (of_decide_eq_true hr)]
  | none => simp only [hmatch]

/-- **Routing implements first match** among the routes with no more parameters than the array holds. -/
theorem dispatchRequest_eq (calls : List (Option CStr × Option H × A)) (method : CStr) (stream : RequestBuffers) :
    dispatchRequest (registered calls) method stream =
      firstMatch (matchable (registered calls)) (handlerRequest method stream) :=
  dispatchLoop_false (registered calls) (handlerRequest method stream)

/-- A route with nine parameters is never found. -/
theorem not_firstMatch_nine : ¬∀ (calls : List (Option CStr × Option Bool × ℕ)) (method : CStr) (stream : RequestBuffers),
    dispatchRequest (registered calls) method stream =
      firstMatch (registered calls) (handlerRequest method stream) := by
  intro hall
  refine absurd (hall [(some (cstr (bytes "GET /:a/:b/:c/:d/:e/:f/:g/:h/:i")), some true, 0)] (cstr (bytes "GET"))
    { url := some (bytes "/1/2/3/4/5/6/7/8/9?q") }) ?_
  decide +kernel

end

end Libx.Http
