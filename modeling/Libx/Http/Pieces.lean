import Libx.Http.Limits
import Libx.Http.Response
import Libx.Http.Routes

/-!
# Libx.Http.Pieces — a request in pieces

What the handler gets of an HTTP/1.1 request, however its bytes are cut into reads.  llhttp is a parameter: the calls it
makes at each read.
-/

namespace Libx.Http

open Libx.Agent (Bytes CStr bytes cstr)
open List

/-! ### What the handler gets -/

/-- llhttp: the calls of the callbacks that `llhttp_execute` makes for the bytes of one read. -/
structure Llhttp (σ : Type) where
  init : σ
  execute : σ → Bytes → σ × List H1Event

namespace Llhttp

variable {σ : Type} (L : Llhttp σ)

def callsFrom (s : σ) : List Bytes → List (List H1Event)
  | [] => []
  | read :: reads => (L.execute s read).2 :: callsFrom (L.execute s read).1 reads

/-- The calls at each read, from the start of a request. -/
def calls (reads : List Bytes) : List (List H1Event) := L.callsFrom L.init reads

end Llhttp

/-- A buffer is made when something comes for it. -/
def orNull (b : Bytes) : Option Bytes := if b = [] then none else some b

theorem getD_orNull (b : Bytes) : (orNull b).getD [] = b := by
  unfold orNull
  split_ifs with h
  · exact h.symm
  · rfl

/-- The buffers that `conn_dispatch_request` finds. -/
def HttpStream.buffers (s : HttpStream) : RequestBuffers where
  url := orNull s.url
  headersRaw := orNull s.headersRaw
  body := orNull s.body

/-- The request that the handler gets, if one was dispatched. -/
def HttpConn.given (method : CStr) (c : HttpConn) : Option HandlerRequest :=
  if .dispatched ∈ c.outcomes then some (handlerRequest method c.stream.buffers) else none

/-- What the handler gets of a request in these reads. -/
def Llhttp.given {σ : Type} (L : Llhttp σ) (lim : ServerLimits) (method : CStr) (reads : List Bytes) :
    Option HandlerRequest :=
  (((L.calls reads).foldl (h1Read lim) {}).given method)

/-! ### Requests and their pieces -/

/-- A well-formed request: the URL, the headers, the chunks of the body and the headers behind it. -/
structure H1Message where
  url : Bytes
  headers : List (Bytes × Bytes)
  chunks : List Bytes
  trailers : List (Bytes × Bytes)

namespace H1Event

def ofHeaders (hs : List (Bytes × Bytes)) : List H1Event := hs.flatMap fun h => [headerField h.1, headerValue h.2]

def isValue : H1Event → Bool
  | headerValue _ => true
  | _ => false

def urlText : H1Event → Bytes
  | url data => data
  | _ => []

def headerText : H1Event → Bytes
  | headerField data => data
  | headerValue data => bytes ": " ++ data ++ bytes "\r\n"
  | _ => []

def bodyText : H1Event → Bytes
  | body data => data
  | _ => []

def fieldText : H1Event → Bytes
  | headerField data => data
  | headerValue data => data
  | _ => []

end H1Event

def dataCalls : List (Bytes → H1Event) := [.url, .headerField, .headerValue, .body]

/-- The calls for elements each of which comes in one or more pieces. -/
inductive Pieces : List H1Event → List H1Event → Prop
  | nil : Pieces [] []
  | data {es ps : List H1Event} (K : Bytes → H1Event) (hK : K ∈ dataCalls) (ds : List Bytes) (hne : ds ≠ [])
      (h : Pieces es ps) : Pieces (K ds.flatten :: es) (ds.map K ++ ps)
  | headersComplete {es ps : List H1Event} (h : Pieces es ps) : Pieces (.headersComplete :: es) (.headersComplete :: ps)

namespace H1Message

variable (m : H1Message)

/-- The calls between the URL and the end, in one read. -/
def restCalls : List H1Event :=
  H1Event.ofHeaders m.headers ++ .headersComplete :: (m.chunks.map .body ++ H1Event.ofHeaders m.trailers)

def calls : List H1Event := .url m.url :: m.restCalls ++ [.messageComplete]

def headerSize : ℕ := m.url.length + ((m.headers ++ m.trailers).map fun h => h.1.length + h.2.length).sum

def bodySize : ℕ := m.chunks.flatten.length

def Refused (lim : ServerLimits) : Prop :=
  m.headers ++ m.trailers ≠ [] ∧ lim.maxHeaderSize < m.headerSize ∨ lim.maxBodySize < m.bodySize

instance (lim : ServerLimits) : Decidable (m.Refused lim) := inferInstanceAs (Decidable (_ ∧ _ ∨ _))

/-- What the handler is to get: a line for each header, in order. -/
def request (method : CStr) : HandlerRequest where
  method := method
  url := cstr ((orNull m.url).getD (bytes "/"))
  headers := headerLines (m.headers ++ m.trailers)
  body := orNull m.chunks.flatten
  params := none

end H1Message

/-! ### What the callbacks keep -/

section

variable {lim : ServerLimits} {s s' : HttpStream} {es ps : List H1Event}

theorem h1Callback_text {e : H1Event} (h : h1Callback lim s e = (true, s')) :
    s'.url = s.url ++ e.urlText ∧ s'.headersRaw = s.headersRaw ++ e.headerText ∧ s'.body = s.body ++ e.bodyText := by
  cases e with
  | url d =>
    cases h
    exact ⟨rfl, (List.append_nil _).symm, (List.append_nil _).symm⟩
  | headerField d =>
    rw [h1Callback, onHeaderField] at h
    split_ifs at h with hlt
    · cases h
    · cases h
      exact ⟨(List.append_nil _).symm, rfl, (List.append_nil _).symm⟩
  | headerValue d =>
    rw [h1Callback, onHeaderValue] at h
    split_ifs at h with hlt
    · cases h
    · cases h
      refine ⟨(List.append_nil _).symm, ?_, (List.append_nil _).symm⟩
      rw [H1Event.headerText, append_assoc, append_assoc, append_assoc]
  | headersComplete | messageComplete =>
    cases h
    exact ⟨(List.append_nil _).symm, (List.append_nil _).symm, (List.append_nil _).symm⟩
  | body d =>
    rw [h1Callback, onBody] at h
    split_ifs at h with hlt
    · cases h
    · cases h
      exact ⟨(List.append_nil _).symm, (List.append_nil _).symm, rfl⟩

theorem h1Execute_text (hne : ∀ e ∈ es, e ≠ .messageComplete) (h : h1Execute lim s es = (true, s')) :
    s'.url = s.url ++ es.flatMap H1Event.urlText ∧ s'.headersRaw = s.headersRaw ++ es.flatMap H1Event.headerText ∧
      s'.body = s.body ++ es.flatMap H1Event.bodyText := by
  induction es generalizing s with
  | nil =>
    cases h
    exact ⟨(List.append_nil _).symm, (List.append_nil _).symm, (List.append_nil _).symm⟩
  | cons e es ih =>
    rw [h1Execute] at h
    rcases hcb : h1Callback lim s e with ⟨_ | _, s1⟩
    · rw [hcb] at h
      cases h
    · rw [hcb] at h
      dsimp only at h
      rw [if_neg (hne e (.head _))] at h
      obtain ⟨hu, hh, hb⟩ := h1Callback_text hcb
      obtain ⟨ihu, ihh, ihb⟩ := ih (fun e he => hne e (.tail _ he)) h
      rw [flatMap_cons, flatMap_cons, flatMap_cons, ihu, ihh, ihb, hu, hh, hb, append_assoc,
        append_assoc, append_assoc]
      exact ⟨rfl, rfl, rfl⟩

theorem flatMap_urlText_eq_nil (h : ∀ e ∈ es, e.isUrl = false) : es.flatMap H1Event.urlText = [] := by
  refine flatMap_eq_nil_iff.2 fun e he => ?_
  have := h e he
  cases e with
  | url d => cases this
  | _ => rfl

/-- **A request in any reads**: the handler gets what the callbacks kept, unless one failed. -/
theorem given_served (lim : ServerLimits) (method : CStr) (r : H1Request) :
    (r.reads.foldl (h1Read lim) {}).given method =
      if (h1Execute lim r.afterUrls r.rest).1 = true then
        some (handlerRequest method
          { url := orNull r.urls.flatten
            headersRaw := orNull (r.rest.flatMap H1Event.headerText)
            body := orNull (r.rest.flatMap H1Event.bodyText) })
      else none := by
  have happ := h1Execute_append lim (s := r.afterUrls) [.messageComplete] r.rest_ne
  obtain ⟨hok, hout⟩ | ⟨hok, x, -, hout⟩ := r.outcomes_served lim
  · rw [if_pos hok, HttpConn.given, hout, if_pos (mem_singleton_self _)]
    match he : h1Execute lim r.afterUrls r.rest with
    | (false, s) =>
      rw [he] at hok
      cases hok
    | (true, s) =>
      obtain ⟨hu, hh, hb⟩ := h1Execute_text r.rest_ne he
      rw [he, ← H1Request.execute_urls, ← append_assoc] at happ
      have hp := (h1Execute_keeps happ).1
      rw [H1Request.foldl_h1Read_of_front (prefix_refl _), r.whole, h1Read_eq (c := {}) rfl happ,
        h1Answer_complete rfl hp rfl]
      rw [flatMap_urlText_eq_nil r.rest_isUrl, List.append_nil] at hu
      rw [HttpStream.buffers, ← show s.url = r.urls.flatten from hu,
        ← show s.headersRaw = r.rest.flatMap H1Event.headerText from hh,
        ← show s.body = r.rest.flatMap H1Event.bodyText from hb]
  · rw [HttpConn.given, hout, if_neg (by simp), if_neg (Bool.eq_false_iff.1 hok)]

end

/-! ### What is the same of the pieces -/

namespace Pieces

variable {es ps : List H1Event}

theorem flatMap_eq {f : H1Event → Bytes}
    (hf : ∀ K ∈ dataCalls, ∀ ds : List Bytes, f (K ds.flatten) = ds.flatMap fun d => f (K d)) (h : Pieces es ps) :
    ps.flatMap f = es.flatMap f := by
  induction h with
  | nil => rfl
  | data K hK ds hne h ih => rw [flatMap_append, flatMap_map, flatMap_cons, hf K hK, ih]
  | headersComplete h ih => rw [flatMap_cons, flatMap_cons, ih]

theorem fieldText_eq (h : Pieces es ps) : ps.flatMap H1Event.fieldText = es.flatMap H1Event.fieldText := by
  refine h.flatMap_eq fun K hK ds => ?_
  simp only [dataCalls, mem_cons, not_mem_nil, or_false] at hK
  obtain rfl | rfl | rfl | rfl := hK <;> simp [H1Event.fieldText, flatMap_def]

theorem bodyText_eq (h : Pieces es ps) : ps.flatMap H1Event.bodyText = es.flatMap H1Event.bodyText := by
  refine h.flatMap_eq fun K hK ds => ?_
  simp only [dataCalls, mem_cons, not_mem_nil, or_false] at hK
  obtain rfl | rfl | rfl | rfl := hK <;> simp [H1Event.bodyText, flatMap_def]

theorem any_eq {p : H1Event → Bool} (hp : ∀ K ∈ dataCalls, ∀ d d' : Bytes, p (K d) = p (K d')) (h : Pieces es ps) :
    ps.any p = es.any p := by
  induction h with
  | nil => rfl
  | data K hK ds hne h ih =>
    rw [any_append, any_map, any_cons, ih]
    congr 1
    obtain ⟨d, ds, rfl⟩ := exists_cons_of_ne_nil hne
    rw [any_cons, Function.comp_apply, hp K hK d (d :: ds).flatten]
    cases hd : p (K (d :: ds).flatten) with
    | true => rfl
    | false =>
      rw [Bool.false_or, any_eq_false]
      intro d' _ hd'
      rw [Function.comp_apply, hp K hK d' (d :: ds).flatten, hd] at hd'
      cases hd'
  | headersComplete h ih => rw [any_cons, any_cons, ih]

theorem ne_messageComplete (h : Pieces es ps) : ∀ e ∈ ps, e ≠ .messageComplete := by
  induction h with
  | nil => exact nofun
  | data K hK ds hne h ih =>
    intro e he
    obtain he | he := mem_append.1 he
    · obtain ⟨d, -, rfl⟩ := mem_map.1 he
      simp only [dataCalls, mem_cons, not_mem_nil, or_false] at hK
      obtain rfl | rfl | rfl | rfl := hK <;> exact nofun
    · exact ih e he
  | headersComplete h ih =>
    intro e he
    obtain rfl | he := mem_cons.1 he
    · exact nofun
    · exact ih e he

/-- No value comes in fewer calls than one, and where each comes in one, the text of the headers is the same. -/
theorem values (h : Pieces es ps) : es.countP H1Event.isValue ≤ ps.countP H1Event.isValue ∧
    (ps.countP H1Event.isValue = es.countP H1Event.isValue →
      ps.flatMap H1Event.headerText = es.flatMap H1Event.headerText) := by
  induction h with
  | nil => exact ⟨le_rfl, fun _ => rfl⟩
  | headersComplete h ih =>
    rw [countP_cons_of_neg (by simp [H1Event.isValue]), countP_cons_of_neg (by simp [H1Event.isValue]),
      flatMap_cons, flatMap_cons]
    exact ⟨ih.1, fun heq => by rw [ih.2 heq]⟩
  | data K hK ds hne h ih =>
    rw [countP_append, flatMap_append, flatMap_cons, countP_cons]
    by_cases hvalue : K = .headerValue
    · subst hvalue
      have hcount : (ds.map H1Event.headerValue).countP H1Event.isValue = ds.length := by
        rw [countP_map]
        exact countP_eq_length.2 fun _ _ => rfl
      have hpos := length_pos_of_ne_nil hne
      rw [hcount, if_pos (show (H1Event.headerValue ds.flatten).isValue = true from rfl)]
      refine ⟨by omega, fun heq => ?_⟩
      obtain ⟨d, rfl⟩ := length_eq_one_iff.1 (show ds.length = 1 by omega)
      rw [ih.2 (by rw [length_singleton] at heq; omega), flatten_singleton, map_singleton,
        flatMap_singleton]
    · have hzero : ∀ d, H1Event.isValue (K d) = false := fun d => by
        simp only [dataCalls, mem_cons, not_mem_nil, or_false] at hK
        obtain rfl | rfl | rfl | rfl := hK <;> first | rfl | exact absurd rfl hvalue
      have htext : (ds.map K).flatMap H1Event.headerText = H1Event.headerText (K ds.flatten) := by
        simp only [dataCalls, mem_cons, not_mem_nil, or_false] at hK
        obtain rfl | rfl | rfl | rfl := hK
        · simp [H1Event.headerText]
        · rw [flatMap_map, flatMap_def]
          exact congrArg List.flatten (map_id ds)
        · exact absurd rfl hvalue
        · simp [H1Event.headerText]
      have hcount : (ds.map K).countP H1Event.isValue = 0 := by
        rw [countP_map, countP_eq_zero]
        exact fun d _ => by rw [Function.comp_apply, hzero]; exact Bool.false_ne_true
      rw [hcount, hzero, if_neg Bool.false_ne_true, htext, Nat.zero_add, Nat.add_zero]
      exact ⟨ih.1, fun heq => by rw [ih.2 heq]⟩

end Pieces

theorem length_headerText (es : List H1Event) : (es.flatMap H1Event.headerText).length =
    (es.flatMap H1Event.fieldText).length + 4 * es.countP H1Event.isValue := by
  induction es with
  | nil => rfl
  | cons e es ih =>
    rw [flatMap_cons, flatMap_cons, length_append, length_append, ih, countP_cons]
    have he : e.headerText.length = e.fieldText.length + 4 * if e.isValue = true then 1 else 0 := by
      cases e with
      | headerValue d =>
        rw [H1Event.headerText, length_append, length_append, H1Event.fieldText,
          if_pos (show (H1Event.headerValue d).isValue = true from rfl)]
        have h2 : (bytes ": ").length = 2 := rfl
        have h2' : (bytes "\r\n").length = 2 := rfl
        omega
      | _ => rfl
    omega

theorem length_fieldText (e : H1Event) : e.fieldText.length = e.fieldSize := by
  cases e with
  | _ => rfl

theorem length_bodyText (e : H1Event) : e.bodyText.length = e.bodySize := by
  cases e with
  | _ => rfl

/-- **The text of the headers** is that of the elements exactly where each value comes in one call. -/
theorem Pieces.headerText_eq_iff {es ps : List H1Event} (h : Pieces es ps) :
    ps.flatMap H1Event.headerText = es.flatMap H1Event.headerText ↔
      ps.countP H1Event.isValue = es.countP H1Event.isValue := by
  refine ⟨fun heq => ?_, h.values.2⟩
  have hlen := congrArg List.length heq
  rw [length_headerText, length_headerText, h.fieldText_eq] at hlen
  omega

namespace Pieces

theorem refl {es : List H1Event} (hne : ∀ e ∈ es, e ≠ .messageComplete) : Pieces es es := by
  induction es with
  | nil => exact .nil
  | cons e es ih =>
    have hes := ih fun e he => hne e (.tail _ he)
    have hdata : ∀ (K : Bytes → H1Event) (d : Bytes), K ∈ dataCalls → Pieces (K d :: es) (K d :: es) := fun K d hK => by
      have := Pieces.data K hK [d] (cons_ne_nil _ _) hes
      rwa [flatten_singleton, map_singleton, singleton_append] at this
    cases e with
    | url d | headerField d | headerValue d | body d => exact hdata _ d (by simp [dataCalls])
    | headersComplete => exact .headersComplete hes
    | messageComplete => exact absurd rfl (hne _ (.head _))

theorem of_url {u : Bytes} {es ps : List H1Event} (h : Pieces (.url u :: es) ps) :
    ∃ (us : List Bytes) (rest : List H1Event), ps = us.map .url ++ rest ∧ us.flatten = u ∧ Pieces es rest := by
  generalize hes : H1Event.url u :: es = all at h
  cases h with
  | nil | headersComplete h => cases hes
  | @data es' ps' K hK ds hne h =>
    simp only [dataCalls, mem_cons, not_mem_nil, or_false] at hK
    obtain rfl | rfl | rfl | rfl := hK
    · cases hes
      exact ⟨ds, ps', rfl, rfl, h⟩
    · cases hes
    · cases hes
    · cases hes

end Pieces

namespace H1Message

variable {m : H1Message}

theorem flatMap_ofHeaders (f : H1Event → Bytes) (hs : List (Bytes × Bytes)) :
    (H1Event.ofHeaders hs).flatMap f = hs.flatMap fun h => f (.headerField h.1) ++ f (.headerValue h.2) := by
  rw [H1Event.ofHeaders, flatMap_assoc]
  congr 1
  funext h
  rw [flatMap_cons, flatMap_singleton]

theorem headerText_ofHeaders (hs : List (Bytes × Bytes)) :
    (H1Event.ofHeaders hs).flatMap H1Event.headerText = headerLines hs := by
  rw [flatMap_ofHeaders, headerLines]
  congr 1
  funext h
  rw [headerLine, append_assoc, append_assoc, H1Event.headerText, H1Event.headerText, append_assoc]
  rfl

theorem flatMap_chunks_eq_nil {f : H1Event → Bytes} (hf : ∀ d, f (.body d) = []) (chunks : List Bytes) :
    (chunks.map H1Event.body).flatMap f = [] := by
  rw [flatMap_map]
  exact flatMap_eq_nil_iff.2 fun d _ => hf d

theorem headerText_restCalls (m : H1Message) :
    m.restCalls.flatMap H1Event.headerText = headerLines (m.headers ++ m.trailers) := by
  rw [restCalls, flatMap_append, flatMap_cons, flatMap_append, headerText_ofHeaders, headerText_ofHeaders,
    flatMap_chunks_eq_nil fun _ => rfl, headerLines, headerLines, headerLines, flatMap_append]
  rfl

theorem bodyText_restCalls (m : H1Message) : m.restCalls.flatMap H1Event.bodyText = m.chunks.flatten := by
  have hnil : ∀ hs : List (Bytes × Bytes), (H1Event.ofHeaders hs).flatMap H1Event.bodyText = [] := fun hs => by
    rw [flatMap_ofHeaders]
    exact flatMap_eq_nil_iff.2 fun _ _ => rfl
  have hchunks : (m.chunks.map H1Event.body).flatMap H1Event.bodyText = m.chunks.flatten := by
    rw [flatMap_map, flatMap_def]
    exact congrArg List.flatten (map_id _)
  rw [restCalls, flatMap_append, flatMap_cons, flatMap_append, hnil, hnil, hchunks, List.append_nil]
  rfl

theorem length_fieldText_restCalls (m : H1Message) : (m.restCalls.flatMap H1Event.fieldText).length =
    ((m.headers ++ m.trailers).map fun h => h.1.length + h.2.length).sum := by
  have hsum : ∀ hs : List (Bytes × Bytes), ((H1Event.ofHeaders hs).flatMap H1Event.fieldText).length =
      (hs.map fun h => h.1.length + h.2.length).sum := fun hs => by
    rw [flatMap_ofHeaders, length_flatMap]
    congr 2
    funext h
    exact length_append
  rw [restCalls, flatMap_append, flatMap_cons, flatMap_append, flatMap_chunks_eq_nil fun _ => rfl,
    length_append, length_append, length_append, hsum, hsum, map_append, sum_append]
  exact congrArg _ ((Nat.zero_add _).trans (Nat.zero_add _))

theorem countP_ofHeaders (hs : List (Bytes × Bytes)) : (H1Event.ofHeaders hs).countP H1Event.isValue = hs.length := by
  induction hs with
  | nil => rfl
  | cons h hs ih =>
    rw [H1Event.ofHeaders, flatMap_cons, countP_append, ← H1Event.ofHeaders, ih, length_cons, Nat.add_comm]
    rfl

theorem countP_restCalls (m : H1Message) : m.restCalls.countP H1Event.isValue = (m.headers ++ m.trailers).length := by
  have hchunks : (m.chunks.map H1Event.body).countP H1Event.isValue = 0 := by
    rw [countP_map, countP_eq_zero]
    exact fun _ _ => Bool.false_ne_true
  rw [restCalls, countP_append, countP_cons_of_neg Bool.false_ne_true, countP_append, countP_ofHeaders,
    countP_ofHeaders, hchunks, Nat.zero_add, length_append]

theorem any_restCalls (m : H1Message) : m.restCalls.any H1Event.isHeader = true ↔ m.headers ++ m.trailers ≠ [] := by
  have hany : ∀ hs : List (Bytes × Bytes), (H1Event.ofHeaders hs).any H1Event.isHeader = !hs.isEmpty := fun hs => by
    cases hs with
    | nil | cons h hs => rfl
  have hchunks : (m.chunks.map H1Event.body).any H1Event.isHeader = false := by
    rw [any_map, any_eq_false]
    exact fun _ _ => Bool.false_ne_true
  rw [restCalls, any_append, any_cons, any_append, hany, hany, hchunks]
  cases m.headers <;> cases m.trailers <;> simp [H1Event.isHeader]

theorem mem_restCalls {e : H1Event} (he : e ∈ m.restCalls) : e.isUrl = false ∧ e ≠ .messageComplete := by
  have hof : ∀ hs : List (Bytes × Bytes), e ∈ H1Event.ofHeaders hs → e.isUrl = false ∧ e ≠ .messageComplete := by
    intro hs he
    obtain ⟨h, -, he⟩ := mem_flatMap.1 he
    obtain rfl | he := mem_cons.1 he
    · exact ⟨rfl, nofun⟩
    · rw [mem_singleton.1 he]
      exact ⟨rfl, nofun⟩
  rw [restCalls, mem_append, mem_cons, mem_append] at he
  obtain he | rfl | he | he := he
  · exact hof _ he
  · exact ⟨rfl, nofun⟩
  · obtain ⟨d, -, rfl⟩ := mem_map.1 he
    exact ⟨rfl, nofun⟩
  · exact hof _ he

theorem size_eq (es : List H1Event) {size : H1Event → ℕ} {text : H1Event → Bytes} (h : ∀ e, (text e).length = size e) :
    (es.map size).sum = (es.flatMap text).length := by
  rw [length_flatMap]
  simp only [h]

/-- **A request in pieces**: it is refused for its size, or the handler gets it with the headers as they came. -/
theorem given_of_pieces (lim : ServerLimits) (method : CStr) {reads : List (List H1Event)} {us : List Bytes}
    {rest : List H1Event} (hreads : reads.flatten = us.map .url ++ rest ++ [.messageComplete])
    (hus : us.flatten = m.url) (hrest : Pieces m.restCalls rest) :
    (reads.foldl (h1Read lim) {}).given method =
      if m.Refused lim then none
      else some { m.request method with headers := rest.flatMap H1Event.headerText } := by
  have hurl : rest.any H1Event.isUrl = false := by
    rw [hrest.any_eq (by simp [dataCalls, H1Event.isUrl]), any_eq_false]
    exact fun e he => by rw [(mem_restCalls he).1]; exact Bool.false_ne_true
  let r : H1Request :=
    { reads, urls := us, rest, whole := hreads
      rest_isUrl := fun e he => by simpa using any_eq_false.1 hurl e he
      rest_ne := hrest.ne_messageComplete }
  have hheaders : (∃ e ∈ rest, e.isHeader) ↔ m.headers ++ m.trailers ≠ [] := by
    rw [← any_restCalls, ← hrest.any_eq (by simp [dataCalls, H1Event.isHeader]), any_eq_true]
  have hheaderSize : r.headerSize = m.headerSize := by
    rw [H1Request.headerSize, H1Request.urlSize, headerSize, ← length_fieldText_restCalls, ← hrest.fieldText_eq, ← hus,
      length_flatten]
    exact congrArg _ (size_eq rest length_fieldText)
  have hbodySize : r.bodySize = m.bodySize := by
    rw [H1Request.bodySize, bodySize, ← bodyText_restCalls, ← hrest.bodyText_eq]
    exact size_eq rest length_bodyText
  have hok : (h1Execute lim r.afterUrls r.rest).1 = true ↔ ¬m.Refused lim := by
    rw [r.execute_rest_iff, hheaderSize, hbodySize, hheaders, Refused]
    push Not
    rfl
  have hgiven := given_served lim method r
  by_cases href : m.Refused lim
  · rw [if_pos href]
    rw [if_neg fun h => hok.1 h href] at hgiven
    exact hgiven
  · rw [if_neg href]
    rw [if_pos (hok.2 href)] at hgiven
    refine hgiven.trans ?_
    rw [handlerRequest, request, show r.urls.flatten = m.url from hus, getD_orNull,
      show r.rest.flatMap H1Event.bodyText = m.chunks.flatten from hrest.bodyText_eq.trans (bodyText_restCalls m)]

end H1Message

namespace Llhttp

/-- **Segmentation**: a well-formed request in one read comes to the handler with a line for each header, or is refused
for its size; and in other reads it is the same exactly where it is refused, or each value comes in one call. -/
theorem same_iff {σ : Type} (L : Llhttp σ) (lim : ServerLimits) (method : CStr) (m : H1Message) (reads : List Bytes)
    {ps : List H1Event} (hwhole : (L.calls [reads.flatten]).flatten = m.calls)
    (hcut : (L.calls reads).flatten = ps ++ [.messageComplete]) (hpieces : Pieces (.url m.url :: m.restCalls) ps) :
    L.given lim method [reads.flatten] = (if m.Refused lim then none else some (m.request method)) ∧
      (L.given lim method reads = L.given lim method [reads.flatten] ↔
        m.Refused lim ∨ ps.countP H1Event.isValue = (m.headers ++ m.trailers).length) := by
  have hone : L.given lim method [reads.flatten] = if m.Refused lim then none else some (m.request method) := by
    have hcalls : (L.calls [reads.flatten]).flatten = [m.url].map .url ++ m.restCalls ++ [.messageComplete] := hwhole
    have hself : Pieces m.restCalls m.restCalls := .refl fun e he => (H1Message.mem_restCalls he).2
    have hgiven := H1Message.given_of_pieces lim method hcalls flatten_singleton hself
    rw [H1Message.headerText_restCalls] at hgiven
    exact hgiven
  refine ⟨hone, ?_⟩
  obtain ⟨us, rest, rfl, hus, hrest⟩ := hpieces.of_url
  have hcount : (us.map H1Event.url ++ rest).countP H1Event.isValue = rest.countP H1Event.isValue := by
    have hzero : (us.map H1Event.url).countP H1Event.isValue = 0 := by
      rw [countP_map, countP_eq_zero]
      exact fun _ _ => Bool.false_ne_true
    rw [countP_append, hzero, Nat.zero_add]
  rw [hone, given, H1Message.given_of_pieces lim method hcut hus hrest, hcount, ← H1Message.countP_restCalls,
    ← hrest.headerText_eq_iff, H1Message.headerText_restCalls]
  by_cases href : m.Refused lim
  · rw [if_pos href, if_pos href]
    exact iff_of_true rfl (.inl href)
  · rw [if_neg href, if_neg href, Option.some.injEq]
    constructor
    · exact fun h => .inr (congrArg HandlerRequest.headers h)
    · intro h
      rw [h.resolve_left href]
      rfl

/-- The parser that makes these calls for these reads. -/
def ofReads (entries : List (Bytes × List H1Event)) : Llhttp Unit where
  init := ()
  execute _ read := ((), (entries.lookup read).getD [])

/-- `GET /a` with the header `A: bc`. -/
def getA : H1Message where
  url := bytes "/a"
  headers := [(bytes "A", bytes "bc")]
  chunks := []
  trailers := []

def limits : ServerLimits where
  maxHeaderSize := 8192
  maxBodySize := 1048576
  oneRead := 4096

/-- The URL and the name may come in pieces. -/
theorem same_iff_url :
    let first := bytes "GET /"
    let second := bytes "a HTTP/1.1\r\nA: bc\r\n\r\n"
    let ps : List H1Event :=
      [.url (bytes "/"), .url (bytes "a"), .headerField (bytes "A"), .headerValue (bytes "bc"), .headersComplete]
    let L := ofReads [(first ++ second, getA.calls), (first, [.url (bytes "/")]),
      (second, ps.tail ++ [.messageComplete])]
    L.given limits (cstr (bytes "GET")) [first, second] = L.given limits (cstr (bytes "GET")) [first ++ second] := by
  intro first second ps L
  have hpieces : Pieces (.url getA.url :: getA.restCalls) ps :=
    .data .url (.head _) [bytes "/", bytes "a"] (cons_ne_nil _ _) (.refl (by decide +kernel))
  have h := same_iff L limits (cstr (bytes "GET")) getA [first, second] (by decide +kernel) (by decide +kernel) hpieces
  exact h.2.2 (.inr (by decide +kernel))

/-- A value that comes in two reads makes two lines. -/
theorem not_same_value : ¬∀ (L : Llhttp Unit) (lim : ServerLimits) (method : CStr) (m : H1Message) (reads : List Bytes)
    (ps : List H1Event), (L.calls [reads.flatten]).flatten = m.calls → (L.calls reads).flatten = ps ++ [.messageComplete] →
    Pieces (.url m.url :: m.restCalls) ps → L.given lim method reads = L.given lim method [reads.flatten] := by
  intro hall
  let first := bytes "GET /a HTTP/1.1\r\nA: b"
  let second := bytes "c\r\n\r\n"
  let ps : List H1Event := [.url (bytes "/a"), .headerField (bytes "A"), .headerValue (bytes "b"), .headerValue (bytes "c"),
    .headersComplete]
  let L := ofReads [(first ++ second, getA.calls), (first, ps.take 3), (second, ps.drop 3 ++ [.messageComplete])]
  have hpieces : Pieces (.url getA.url :: getA.restCalls) ps :=
    .data .url (.head _) [bytes "/a"] (cons_ne_nil _ _) <|
    .data .headerField (by simp [dataCalls]) [bytes "A"] (cons_ne_nil _ _) <|
    .data .headerValue (by simp [dataCalls]) [bytes "b", bytes "c"] (cons_ne_nil _ _) <|
    .headersComplete .nil
  have h := hall L limits (cstr (bytes "GET")) getA [first, second] ps (by decide +kernel) (by decide +kernel) hpieces
  exact absurd h (by decide +kernel)

end Llhttp

end Libx.Http
