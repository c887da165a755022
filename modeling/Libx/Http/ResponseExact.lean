import Libx.Http.Response
import Libx.Agent.JsonlRead

/-!
# Libx.Http.ResponseExact — what the client makes of an answer
-/

namespace Libx.Http

open Libx.Agent (Bytes bytes decimal decimal_digit decimal_ne_nil)
open Client (Persists Bodiless Writable values readResponse readStatus readFields readBody)
open List Option

/-! ### The bytes of an answer -/

namespace ResponseConn

variable {c : ResponseConn} {calls : List HandlerCall}

theorem foldl_before (hb : ∀ x ∈ calls, x.starts = false) (hsent : c.sent = false) (hstream : c.streaming = false) :
    calls.foldl call c =
      { c with statusCode := calls.foldl HandlerCall.status c.statusCode, headers := c.headers ++ headersSet calls } := by
  induction calls generalizing c with
  | nil => simp [headersSet]
  | cons x calls ih =>
    have hx := hb x mem_cons_self
    have hl : ∀ y ∈ calls, y.starts = false := fun y hy => hb y (mem_cons_of_mem _ hy)
    rw [foldl_cons]
    cases x with
    | setStatus code =>
      rw [call, @ih { c with statusCode := code } hl hsent hstream]
      rfl
    | setHeader key value ok =>
      cases ok with
      | true =>
        rw [call, if_pos rfl, @ih { c with headers := c.headers ++ [(key, value)] } hl hsent hstream]
        simp [headersSet, HandlerCall.status]
      | false =>
        rw [call, if_neg Bool.false_ne_true, ih hl hsent hstream]
        rfl
    | finish =>
      rw [call, ResponseConn.finish, if_pos (.inl hstream), ih hl hsent hstream]
      rfl
    | send body | write data => exact nomatch hx

theorem foldl_sent (h : c.sent = true) :
    (calls.foldl call c).sent = true ∧ (calls.foldl call c).out = c.out ∧ (calls.foldl call c).keepAlive = c.keepAlive := by
  induction calls generalizing c with
  | nil => exact ⟨h, rfl, rfl⟩
  | cons x calls ih =>
    rw [foldl_cons]
    cases x with
    | setStatus code => exact ih h
    | setHeader key value ok =>
      rw [call]
      split_ifs
      · exact ih h
      · exact ih h
    | send body =>
      rw [call, ResponseConn.send, if_pos (.inl h)]
      exact ih h
    | write data =>
      rw [call, ResponseConn.write, if_pos h]
      exact ih h
    | finish =>
      rw [call, ResponseConn.finish, if_pos (.inr h)]
      exact ih h

theorem foldl_streaming (hsent : c.sent = false) (h : c.streaming = true) :
    ((calls.foldl call c).sent = true ∨ (calls.foldl call c).streaming = true) ∧
      (calls.foldl call c).out = c.out ++ written calls ∧ (calls.foldl call c).keepAlive = c.keepAlive := by
  induction calls generalizing c with
  | nil => exact ⟨.inr h, (List.append_nil _).symm, rfl⟩
  | cons x calls ih =>
    rw [foldl_cons]
    cases x with
    | setStatus code => exact ih hsent h
    | setHeader key value ok =>
      rw [call]
      split_ifs
      · exact ih hsent h
      · exact ih hsent h
    | send body =>
      rw [call, ResponseConn.send, if_pos (.inr h)]
      exact ih hsent h
    | write data =>
      rw [call, ResponseConn.write, if_neg (by rw [hsent]; exact Bool.false_ne_true), writeData, if_pos h]
      obtain ⟨h1, h2, h3⟩ := @ih { c with out := c.out ++ data } hsent h
      exact ⟨h1, h2.trans (append_assoc ..), h3⟩
    | finish =>
      have hgo : ¬(c.streaming = false ∨ c.sent = true) := by simp [h, hsent]
      rw [call, ResponseConn.finish, if_neg hgo]
      obtain ⟨h1, h2, h3⟩ := @foldl_sent { c with sent := true } calls rfl
      exact ⟨.inl h1, h2.trans (List.append_nil _).symm, h3⟩

theorem afterHandler_started (h : c.sent = true ∨ c.streaming = true) :
    c.afterHandler.out = c.out ∧ c.afterHandler.keepAlive = c.keepAlive := by
  have hno : ¬(c.sent = false ∧ c.streaming = false) := by
    rintro ⟨h1, h2⟩
    rcases h with h | h
    · exact nomatch h1.symm.trans h
    · exact nomatch h2.symm.trans h
  rw [afterHandler]
  simp only [if_neg hno]
  split_ifs with hgo
  · rw [ResponseConn.finish]
    split_ifs
    · exact ⟨rfl, rfl⟩
    · exact ⟨rfl, rfl⟩
  · exact ⟨rfl, rfl⟩

end ResponseConn

/-- The headers that are set before the response starts. -/
def Answer.early : Answer → List (Bytes × Bytes)
  | .handler calls => (headersSet (before calls)).map pair
  | .error _ => [pair contentType]

def headOf (status : Int32) (headers : List (Bytes × Bytes)) : Bytes :=
  statusLine status ++ crlf ++ headerLines headers ++ crlf

theorem before_append_after (calls : List HandlerCall) : before calls ++ after calls = calls := takeWhile_append_dropWhile

theorem starts_of_mem_before {calls : List HandlerCall} : ∀ x ∈ before calls, x.starts = false :=
  fun x hx => by simpa using mem_takeWhile_imp hx

theorem foldl_call_before (keepAlive : Bool) (calls : List HandlerCall) :
    (before calls).foldl ResponseConn.call { keepAlive } =
      { statusCode := statusSet (before calls), headers := headersSet (before calls), keepAlive } :=
  ResponseConn.foldl_before starts_of_mem_before rfl rfl

theorem answer_out (keepAlive : Bool) (a : Answer) :
    (answer keepAlive a).out = headOf a.status (a.own keepAlive ++ a.early) ++ a.given ∧
      (answer keepAlive a).keepAlive = a.persists keepAlive := by
  cases a with
  | error e =>
    refine ⟨?_, rfl⟩
    simp [answer, ResponseConn.sendError, ResponseConn.send, ResponseConn.sendResponse, Answer.own, Answer.streams,
      Answer.early, Answer.given, Answer.persists, Answer.status, headOf, headerLines]
  | handler calls =>
    have hsplit : calls.foldl ResponseConn.call { keepAlive } = (after calls).foldl ResponseConn.call
        { statusCode := statusSet (before calls), headers := headersSet (before calls), keepAlive } := by
      rw [← foldl_call_before, ← foldl_append, before_append_after]
    rw [answer, hsplit]
    cases hafter : after calls with
    | nil =>
      constructor
      · simp [ResponseConn.afterHandler, ResponseConn.send, ResponseConn.sendResponse, Answer.own, Answer.streams, Answer.early,
          Answer.given, Answer.persists, Answer.status, headOf, headerLines, hafter, written]
      · simp [ResponseConn.afterHandler, ResponseConn.send, ResponseConn.sendResponse, Answer.streams, Answer.persists, hafter]
    | cons x l =>
      have hx : x.starts = true := by
        have := List.head?_dropWhile_not (fun x : HandlerCall => !x.starts) calls
        rw [← after, hafter] at this
        simpa using this
      rw [foldl_cons]
      cases x with
      | send body =>
        obtain ⟨h1, h2, h3⟩ := @ResponseConn.foldl_sent (ResponseConn.sendResponse
          { statusCode := statusSet (before calls), headers := headersSet (before calls), keepAlive, sent := true } body) l rfl
        obtain ⟨h4, h5⟩ := ResponseConn.afterHandler_started (.inl h1)
        refine ⟨(h4.trans h2).trans ?_, (h5.trans h3).trans ?_⟩
        · simp [ResponseConn.sendResponse, Answer.own, Answer.streams, Answer.early, Answer.given, Answer.persists,
            Answer.status, headOf, headerLines, hafter]
        · simp [ResponseConn.sendResponse, Answer.streams, Answer.persists, hafter]
      | write data =>
        obtain ⟨h1, h2, h3⟩ := @ResponseConn.foldl_streaming (ResponseConn.writeData
          { statusCode := statusSet (before calls), headers := headersSet (before calls), keepAlive } data) l rfl rfl
        obtain ⟨h4, h5⟩ := ResponseConn.afterHandler_started h1
        refine ⟨(h4.trans h2).trans ?_, (h5.trans h3).trans ?_⟩
        · simp [ResponseConn.writeData, ResponseConn.startStream, Answer.own, Answer.streams, Answer.early, Answer.given,
            Answer.status, headOf, headerLines, hafter, written]
        · simp [ResponseConn.writeData, ResponseConn.startStream, Answer.streams, Answer.persists, hafter]
      | setStatus code | setHeader key value ok | finish => simp [HandlerCall.starts] at hx

/-! ### Numbers -/

theorem decimal_eq_map (n : ℕ) : decimal n = (Nat.toDigits 10 n).map fun c => UInt8.ofNat c.toNat := by
  rw [decimal, bytes, Nat.toString_eq_repr, Nat.toList_repr]

theorem length_decimal_le_iff {n k : ℕ} (hk : 0 < k) : (decimal n).length ≤ k ↔ n < 10 ^ k := by
  rw [decimal_eq_map, length_map]
  exact Nat.length_toDigits_le_iff (by decide) hk

theorem number_decimal (n : ℕ) : Client.number (decimal n) = n := by
  have hfold : ∀ (cs : List Char) (acc : ℕ), (∀ c ∈ cs, c.toNat < 256) →
      (cs.map fun c => UInt8.ofNat c.toNat).foldl (fun n b => n * 10 + (b.toNat - 48)) acc = Nat.ofDigitChars 10 cs acc := by
    intro cs
    induction cs with
    | nil =>
      intro acc _
      rfl
    | cons c cs ih =>
      intro acc hcs
      have hc : (UInt8.ofNat c.toNat).toNat = c.toNat := by
        rw [UInt8.toNat_ofNat', Nat.mod_eq_of_lt (hcs c mem_cons_self)]
      rw [map_cons, foldl_cons, hc, Nat.ofDigitChars_cons, Nat.mul_comm acc 10]
      exact ih _ fun d hd => hcs d (mem_cons_of_mem _ hd)
  have hsmall : ∀ c ∈ Nat.toDigits 10 n, c.toNat < 256 := fun c hc => by
    have hd := Nat.isDigit_of_mem_toDigits (by decide) (by decide) hc
    simp only [Char.isDigit, Bool.and_eq_true, decide_eq_true_eq] at hd
    have h2 : c.toNat ≤ 57 := hd.2
    omega
  rw [Client.number, decimal_eq_map, hfold _ _ hsmall, Nat.ofDigitChars_ten_toDigits]

theorem isDigit_of_mem_decimal {n : ℕ} {b : UInt8} (hb : b ∈ decimal n) : Client.isDigit b = true := by
  obtain ⟨h1, h2⟩ := decimal_digit n b hb
  have h48 : (48 : UInt8) ≤ b := UInt8.le_iff_toNat_le.2 h1
  have h57 : b ≤ 57 := UInt8.le_iff_toNat_le.2 h2
  simp [Client.isDigit, h48, h57]

theorem isFieldByte_of_isDigit {b : UInt8} (hb : Client.isDigit b = true) : Client.isFieldByte b = true := by
  simp only [Client.isDigit, Bool.and_eq_true, decide_eq_true_eq] at hb
  have h32 : (32 : UInt8) ≤ b := UInt8.le_trans (by decide) hb.1
  have h127 : b ≠ 127 := by
    rintro rfl
    exact absurd hb.2 (by decide)
  simp [Client.isFieldByte, h32, h127]

/-! ### The head -/

theorem statusReason_all (code : Int32) : (statusReason code).all Client.isFieldByte = true := by
  have hall : ∀ p ∈ statusReasons, (bytes p.2).all Client.isFieldByte = true := by decide
  rw [statusReason]
  cases hl : statusReasons.lookup code.toInt with
  | none => decide
  | some reason =>
    obtain ⟨l, l', heq, -⟩ := lookup_eq_some_iff.1 hl
    exact hall (code.toInt, reason) (by rw [heq]; simp)

theorem mem_intDecimal {z : ℤ} {b : UInt8} (hb : b ∈ intDecimal z) : b = 45 ∧ z < 0 ∨ Client.isDigit b = true := by
  rw [intDecimal] at hb
  split_ifs at hb with hz
  · rcases mem_cons.1 hb with rfl | hb
    · exact .inl ⟨rfl, hz⟩
    · exact .inr (isDigit_of_mem_decimal hb)
  · exact .inr (isDigit_of_mem_decimal hb)

theorem statusLine_all (code : Int32) : (statusLine code).all Client.isFieldByte = true := by
  have hint : (intDecimal code.toInt).all Client.isFieldByte = true := by
    refine all_eq_true.2 fun b hb => ?_
    rcases mem_intDecimal hb with ⟨rfl, -⟩ | hd
    · decide
    · exact isFieldByte_of_isDigit hd
  have hversion : (bytes "HTTP/1.1 ").all Client.isFieldByte = true := by decide
  rw [statusLine, all_append, all_append, hversion, hint, all_cons, statusReason_all]
  rfl

theorem readStatus_eq (code : Int32) :
    readStatus (statusLine code) = Client.readCode (intDecimal code.toInt ++ 32 :: statusReason code) := by
  have hline : statusLine code = bytes "HTTP/1.1 " ++ (intDecimal code.toInt ++ 32 :: statusReason code) :=
    append_assoc ..
  have hdrop : (statusLine code).drop 9 = intDecimal code.toInt ++ 32 :: statusReason code := by
    rw [hline]
    rfl
  rw [readStatus, hdrop, if_pos (List.isPrefixOf_iff_prefix.2 (hline ▸ prefix_append ..))]

theorem readStatus_statusLine {code : Int32} (h : 200 ≤ code.toInt ∧ code.toInt ≤ 999) :
    readStatus (statusLine code) = some code.toInt.toNat := by
  have hint : intDecimal code.toInt = decimal code.toInt.toNat := by
    rw [intDecimal, if_neg (by omega)]
    congr 1
    omega
  have h3 : (decimal code.toInt.toNat).length = 3 := by
    have hle : (decimal code.toInt.toNat).length ≤ 3 := (length_decimal_le_iff (by decide)).2 (by omega)
    have hgt : ¬(decimal code.toInt.toNat).length ≤ 2 := fun hle =>
      absurd ((length_decimal_le_iff (by decide)).1 hle) (by omega)
    omega
  obtain ⟨a, b, c, habc⟩ := length_eq_three.1 h3
  have hdigits : [a, b, c].all Client.isDigit = true :=
    all_eq_true.2 fun x hx => isDigit_of_mem_decimal (habc ▸ hx)
  rw [readStatus_eq, hint, habc]
  change (if ([a, b, c].all Client.isDigit && (statusReason code).all Client.isFieldByte) = true then _ else _) = _
  rw [hdigits, statusReason_all, if_pos (by decide), ← habc, number_decimal]

theorem takeWhile_append_cons {a : UInt8} {l : Bytes} (hl : a ∉ l) (r : Bytes) :
    (l ++ a :: r).takeWhile (fun x => decide (x ≠ a)) = l := by
  have hne : ∀ x ∈ l, decide (x ≠ a) = true := fun x hx => decide_eq_true fun h => hl (h ▸ hx)
  rw [takeWhile_append_of_pos hne, takeWhile_cons_of_neg (by simp), List.append_nil]

theorem of_readStatus {code : Int32} {status : ℕ} (h : readStatus (statusLine code) = some status) :
    code.toInt = status ∧ status ≤ 999 := by
  rw [readStatus_eq] at h
  generalize hline : intDecimal code.toInt ++ 32 :: statusReason code = line at h
  rw [Client.readCode.eq_def] at h
  split at h
  · next a b c reason =>
    obtain ⟨hall, h⟩ := ite_none_right_eq_some.1 h
    have hdigits : ∀ x ∈ [a, b, c], Client.isDigit x = true := all_eq_true.1 (Bool.and_eq_true_iff.1 hall).1
    have hleft : (32 : UInt8) ∉ intDecimal code.toInt := fun h32 => by
      rcases mem_intDecimal h32 with ⟨h45, -⟩ | hd
      · exact absurd h45 (by decide)
      · exact absurd hd (by decide)
    have hright : (32 : UInt8) ∉ [a, b, c] := fun h32 => absurd (hdigits 32 h32) (by decide)
    have hds : intDecimal code.toInt = [a, b, c] := by
      rw [← takeWhile_append_cons hleft (statusReason code), hline]
      exact takeWhile_append_cons hright reason
    cases h
    by_cases hz : code.toInt < 0
    · rw [intDecimal, if_pos hz] at hds
      obtain ⟨h45, -⟩ := cons_eq_cons.1 hds
      exact absurd (hdigits a mem_cons_self) (h45 ▸ by decide)
    · rw [intDecimal, if_neg hz] at hds
      have hlt : code.toInt.natAbs < 10 ^ 3 := (length_decimal_le_iff (by decide)).1 (by rw [hds]; rfl)
      rw [← hds, number_decimal]
      omega
  · cases h

variable {m : Method} {keepAlive closed : Bool} {a : Answer} {code : Int32} {status : ℕ} {hs headers : List (Bytes × Bytes)}
  {payload rest : Bytes} {r : Response}

theorem readResponse_headOf (m : Method) (closed : Bool) (code : Int32) (hs : List (Bytes × Bytes)) (payload : Bytes) :
    readResponse m closed (headOf code hs ++ payload) = (readStatus (statusLine code)).bind fun status =>
      (readFields (headerLines hs ++ crlf ++ payload).length (headerLines hs ++ crlf ++ payload)).bind fun q =>
        if status < 200 then none
        else (readBody m status q.1 closed q.2).map fun r => (⟨status, q.1, r.1⟩, r.2) := by
  have hline : headOf code hs ++ payload = statusLine code ++ 13 :: 10 :: (headerLines hs ++ crlf ++ payload) := by
    simp [headOf, crlf]
  rw [readResponse, hline, Client.nextLine_append (Client.not_mem_of_isFieldByte (statusLine_all code)), bind_some]

theorem readFields_headerLines (hw : ∀ h ∈ hs, Writable h) :
    readFields (headerLines hs ++ crlf ++ payload).length (headerLines hs ++ crlf ++ payload) = some (hs, payload) := by
  have hlen : hs.length ≤ (headerLines hs).length := by
    clear hw
    induction hs with
    | nil => exact Nat.zero_le _
    | cons h hs ih =>
      rw [headerLines, flatMap_cons, length_append, length_cons, Nat.add_comm]
      exact Nat.add_le_add (by simp [crlf]) ih
  have hlt : hs.length < (headerLines hs ++ crlf ++ payload).length := by
    simp only [length_append, crlf, length_cons]
    omega
  have hlines : headerLines hs ++ crlf ++ payload =
      (hs.flatMap fun h => h.1 ++ bytes ": " ++ h.2 ++ [13, 10]) ++ 13 :: 10 :: payload := by
    simp [headerLines, headerLine, crlf]
  rw [hlines] at hlt ⊢
  exact Client.readFields_lines hw hlt

theorem readResponse_of_writable (hcode : 200 ≤ code.toInt ∧ code.toInt ≤ 999) (hw : ∀ h ∈ hs, Writable h) :
    readResponse m closed (headOf code hs ++ payload) =
      (readBody m code.toInt.toNat hs closed payload).map fun r => (⟨code.toInt.toNat, hs, r.1⟩, r.2) := by
  rw [readResponse_headOf, readStatus_statusLine hcode, bind_some, readFields_headerLines hw, bind_some,
    if_neg (by omega)]

theorem of_readResponse (h : readResponse m closed (headOf code hs ++ payload) = some (r, rest)) :
    (200 ≤ code.toInt ∧ code.toInt ≤ 999) ∧ ∀ h ∈ r.headers, Writable h := by
  rw [readResponse_headOf] at h
  obtain ⟨status, hstatus, h⟩ := bind_eq_some_iff.1 h
  obtain ⟨⟨fields, more⟩, hfields, h⟩ := bind_eq_some_iff.1 h
  obtain ⟨hge, h⟩ := ite_none_left_eq_some.1 h
  obtain ⟨⟨body, more'⟩, -, h⟩ := map_eq_some_iff.1 h
  cases h
  obtain ⟨h1, h2⟩ := of_readStatus hstatus
  exact ⟨by omega, (Client.of_readFields hfields).1⟩

/-! ### The server's own headers -/

theorem trim_of_not_blank {v : Bytes} (hv : ∀ b ∈ v, Client.isBlank b = false) : Client.trim v = v := by
  have hdrop : v.dropWhile Client.isBlank = v := dropWhile_eq_self_iff.2 fun _ => by simp [hv]
  rw [Client.trim, hdrop]
  exact rdropWhile_eq_self_iff.2 fun hne => by simp [hv _ (getLast_mem hne)]

theorem writable_lengthHeader (n : ℕ) : Writable (lengthHeader n) where
  name := by
    change bytes "Content-Length" ≠ [] ∧ (bytes "Content-Length").all Client.isTchar = true
    decide
  value := by
    refine ⟨all_eq_true.2 fun b hb => isFieldByte_of_isDigit (isDigit_of_mem_decimal hb), trim_of_not_blank fun b hb => ?_⟩
    have hd := isDigit_of_mem_decimal hb
    refine Bool.of_not_eq_true fun hblank => ?_
    simp only [Client.isBlank, Bool.or_eq_true, decide_eq_true_eq] at hblank
    rcases hblank with rfl | rfl
    · exact absurd hd (by decide)
    · exact absurd hd (by decide)

theorem writable_connectionHeader (keepAlive : Bool) : Writable (connectionHeader keepAlive) := by
  cases keepAlive
  all_goals exact ⟨by decide, by decide⟩

theorem writable_own : ∀ h ∈ a.own keepAlive, Writable h := by
  rw [Answer.own]
  split_ifs
  · exact forall_mem_singleton.2 (writable_connectionHeader false)
  · exact forall_mem_cons.2 ⟨writable_lengthHeader _, forall_mem_singleton.2 (writable_connectionHeader _)⟩

theorem values_own : values "transfer-encoding" (a.own keepAlive) = [] ∧
    values "content-length" (a.own keepAlive) = (if a.streams then [] else [decimal a.given.length]) := by
  rw [Answer.own]
  split_ifs
  · exact ⟨rfl, rfl⟩
  · exact ⟨rfl, rfl⟩

theorem persists_append (hs headers : List (Bytes × Bytes)) : Persists (hs ++ headers) ↔ Persists hs ∧ Persists headers := by
  rw [Persists, Client.values_append]
  exact forall_mem_append

theorem persists_own (h : a.persists keepAlive = true) : Persists (a.own keepAlive) := by
  have hstreams : a.streams = false := by
    cases a with
    | handler calls => simpa using (Bool.and_eq_true_iff.1 h).2
    | error e => rfl
  have hvalues : values "connection" (a.own keepAlive) = [bytes "keep-alive"] := by
    rw [Answer.own, if_neg (by rw [hstreams]; exact Bool.false_ne_true), h]
    rfl
  rw [Persists, hvalues]
  decide

/-! ### The body -/

theorem readBody_of_measured (hbody : ¬Bodiless m status) (hcoding : values "transfer-encoding" headers = [])
    (hlength : if a.streams then Measured (values "content-length" headers) a.given.length ∧ closed = true ∧ rest = []
      else values "content-length" headers = []) :
    readBody m status (a.own keepAlive ++ headers) closed (a.given ++ rest) = some (a.given, rest) := by
  obtain ⟨h1, h2⟩ := @values_own keepAlive a
  rw [readBody, if_neg hbody, Client.values_append, Client.values_append, h1, h2, hcoding]
  cases hst : a.streams with
  | false =>
    rw [hst, if_neg Bool.false_ne_true] at hlength
    have hread : decimal a.given.length ≠ [] ∧ (decimal a.given.length).all Client.isDigit = true ∧
        Client.number (decimal a.given.length) ≤ (a.given ++ rest).length := by
      refine ⟨decimal_ne_nil _, all_eq_true.2 fun b hb => isDigit_of_mem_decimal hb, ?_⟩
      rw [number_decimal, length_append]
      exact Nat.le_add_right ..
    rw [hlength]
    refine (if_pos hread).trans ?_
    rw [number_decimal, take_left, drop_left]
  | true =>
    rw [hst, if_pos rfl] at hlength
    obtain ⟨hm, rfl, rfl⟩ := hlength
    rw [List.append_nil a.given]
    rcases hm with hnone | ⟨v, hv, hne, hall, hnum⟩
    · rw [hnone]
      rfl
    · rw [hv]
      refine (if_pos ⟨hne, hall, hnum.le⟩).trans ?_
      rw [hnum, take_length, drop_length]

theorem measured_of_readBody (hbody : ¬Bodiless m status)
    (h : readBody m status (a.own keepAlive ++ headers) closed a.given = some (a.given, [])) :
    values "transfer-encoding" headers = [] ∧
      if a.streams then Measured (values "content-length" headers) a.given.length else values "content-length" headers = [] := by
  obtain ⟨h1, h2⟩ := @values_own keepAlive a
  rw [readBody, if_neg hbody, Client.values_append, Client.values_append, h1, h2, nil_append] at h
  match hcoding : values "transfer-encoding" headers with
  | [] =>
    refine ⟨rfl, ?_⟩
    rw [hcoding] at h
    cases hst : a.streams with
    | false =>
      rw [if_neg Bool.false_ne_true]
      rw [hst, if_neg Bool.false_ne_true] at h
      match hlength : values "content-length" headers with
      | [] => rfl
      | v :: vs =>
        rw [hlength] at h
        cases h
    | true =>
      rw [if_pos rfl]
      rw [hst, if_pos rfl] at h
      match hlength : values "content-length" headers with
      | [] => exact .inl rfl
      | [v] =>
        rw [hlength] at h
        obtain ⟨⟨hne, hall, hle⟩, h⟩ := ite_none_right_eq_some.1 h
        have hdrop : a.given.drop (Client.number v) = [] := congrArg Prod.snd (some.inj h)
        exact .inr ⟨v, rfl, hne, hall, Nat.le_antisymm hle (drop_eq_nil_iff.1 hdrop)⟩
      | v :: v' :: vs =>
        rw [hlength] at h
        cases h
  | [v] =>
    rw [hcoding] at h
    obtain ⟨-, h⟩ := ite_none_right_eq_some.1 h
    exact absurd (Client.length_of_readChunks h) (Nat.lt_irrefl _)
  | v :: v' :: vs =>
    rw [hcoding] at h
    cases h

/-! ### The response -/

theorem headers_eq_early (a : Answer) : (∀ calls, a = .handler calls → headersSet (after calls) = []) ↔ a.headers = a.early := by
  cases a with
  | error e => exact ⟨fun _ => rfl, fun _ calls h => nomatch h⟩
  | handler calls =>
    have hsplit : headersSet calls = headersSet (before calls) ++ headersSet (after calls) := by
      rw [headersSet, headersSet, headersSet, ← filterMap_append, before_append_after]
    have hinj : Function.Injective pair := fun x y h => by
      obtain ⟨⟨k', _⟩, v', _⟩ := y
      cases h
      rfl
    rw [Answer.headers, Answer.early, hsplit, map_append, append_right_eq_self, map_eq_nil_iff]
    exact ⟨fun h => h calls rfl, fun h _ heq => by cases heq; exact h⟩

theorem readResponse_of_conforming (h : Conforming m keepAlive a)
    (hclosed : a.persists keepAlive = true ∨ closed = true ∧ rest = []) :
    readResponse m closed (headOf a.status (a.own keepAlive ++ a.early) ++ a.given ++ rest) =
      some (a.response m keepAlive, rest) := by
  have hearly := (headers_eq_early a).1 h.early
  have hw : ∀ g ∈ a.own keepAlive ++ a.headers, Writable g := fun g hg =>
    (mem_append.1 hg).elim (writable_own g) (h.headers g)
  rw [← hearly, append_assoc, readResponse_of_writable h.status hw]
  by_cases hb : Bodiless m a.status.toInt.toNat
  · have hgiven := h.bodiless hb
    rw [readBody, if_pos hb, Answer.response, hgiven, ite_self]
    rfl
  · have hfull : ¬(m = .head ∨ a.status.toInt.toNat = 204 ∨ a.status.toInt.toNat = 304) := fun hno =>
      hb (hno.imp_right (Or.imp_right Or.inl))
    rw [readBody_of_measured hb (h.coding hb), Answer.response, if_neg hfull]
    · rfl
    · have hl := h.length hb
      cases hst : a.streams with
      | false =>
        rw [hst, if_neg Bool.false_ne_true] at hl
        rw [if_neg Bool.false_ne_true]
        exact hl
      | true =>
        rw [hst, if_pos rfl] at hl
        rw [if_pos rfl]
        refine ⟨hl, hclosed.resolve_left fun hp => ?_⟩
        cases a with
        | handler calls => simp [Answer.persists, hst] at hp
        | error e => cases hst

/-- An answer that is read with nothing left, is conforming, but for what the fields say of the connection. -/
theorem conforming_of_readResponse
    (h : readResponse m closed (headOf a.status (a.own keepAlive ++ a.early) ++ a.given) = some (a.response m keepAlive, []))
    (halive : a.persists keepAlive = true → Persists (a.response m keepAlive).headers) : Conforming m keepAlive a := by
  obtain ⟨hstatus, hw⟩ := of_readResponse h
  have hheaders : ∀ g ∈ a.headers, Writable g := fun g hg => hw g (mem_append_right _ hg)
  have hsub : ∀ g ∈ a.early, g ∈ a.headers := fun g hg => by
    cases a with
    | error e => exact hg
    | handler calls =>
      refine map_subset pair ?_ hg
      exact List.Sublist.subset ((takeWhile_sublist _).filterMap _)
  have hown : ∀ g ∈ a.own keepAlive ++ a.early, Writable g := fun g hg =>
    (mem_append.1 hg).elim (writable_own g) fun hg => hheaders g (hsub g hg)
  rw [readResponse_of_writable hstatus hown] at h
  obtain ⟨⟨body, more⟩, hbody, h⟩ := map_eq_some_iff.1 h
  obtain ⟨hresponse, hmore⟩ := Prod.mk.inj h
  have hearly : a.headers = a.early := (append_cancel_left (congrArg Response.headers hresponse)).symm
  have hgiven : body = (a.response m keepAlive).body := congrArg Response.body hresponse
  subst hmore
  rw [← hearly] at hbody
  have hmeasured : ¬Bodiless m a.status.toInt.toNat → values "transfer-encoding" a.headers = [] ∧
      if a.streams then Measured (values "content-length" a.headers) a.given.length
      else values "content-length" a.headers = [] := fun hb => by
    have hfull : ¬(m = .head ∨ a.status.toInt.toNat = 204 ∨ a.status.toInt.toNat = 304) := fun hno =>
      hb (hno.imp_right (Or.imp_right Or.inl))
    rw [Answer.response, if_neg hfull] at hgiven
    rw [hgiven] at hbody
    exact measured_of_readBody hb hbody
  refine ⟨hstatus, hheaders, (headers_eq_early a).2 hearly, fun hb => ?_, fun hb => (hmeasured hb).1, fun hb => (hmeasured hb).2,
    fun hp => ((persists_append _ _).1 (halive hp)).2⟩
  rw [readBody, if_pos hb] at hbody
  exact congrArg Prod.snd (some.inj hbody)

/-- A client that conforms sees the response, and the next one where it ends, exactly where the answer is conforming. -/
theorem framed_iff (m : Method) (keepAlive : Bool) (a : Answer) : Framed m keepAlive a ↔ Conforming m keepAlive a := by
  obtain ⟨hout, hkeep⟩ := answer_out keepAlive a
  rw [Framed, hout, hkeep]
  constructor
  · intro h
    split_ifs at h with hp
    · have hread := h.2 []
      rw [List.append_nil] at hread
      exact conforming_of_readResponse hread fun _ => h.1
    · exact conforming_of_readResponse h fun hp' => absurd hp' hp
  · intro h
    split_ifs with hp
    · exact ⟨(persists_append _ _).2 ⟨persists_own hp, h.alive hp⟩, fun rest => readResponse_of_conforming h (.inl hp)⟩
    · have hread := readResponse_of_conforming h (.inr ⟨rfl, rfl⟩)
      rwa [List.append_nil] at hread

/-- The answer to a HEAD is written with its body, which the client takes for the start of the next response. -/
theorem not_framed_head : ¬Framed .head true (.handler [.send [120]]) := by
  intro h
  exact absurd (h.2 []) (by decide +kernel)

end Libx.Http
