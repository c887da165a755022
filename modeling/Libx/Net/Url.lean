import Libx.Agent.Jsonl
import Libx.Core.Split

/-!
# Libx.Net.Url — URLs

net/url.c.  A byte is its code: 35 is the number sign, 47 the slash, 58 the colon, 63 the question mark, 64 the at sign,
91 and 93 the brackets.
-/

namespace Libx.Net

open Libx.Agent (Bytes CStr Errno bytes)
open Libx.Core (First cut cutAt cutLast)
open List Option

/-- `xUrl`; a pointer with its length is the bytes it denotes. -/
structure Url where
  raw : Option CStr := none
  scheme : Option Bytes := none
  userinfo : Option Bytes := none
  host : Option Bytes := none
  port : Option Bytes := none
  path : Option Bytes := none
  query : Option Bytes := none
  fragment : Option Bytes := none
  deriving DecidableEq

namespace Url

def inAuthority (c : UInt8) : Bool := c ≠ 47 && c ≠ 63 && c ≠ 35

def inPath (c : UInt8) : Bool := c ≠ 63 && c ≠ 35

def inQuery (c : UInt8) : Bool := c ≠ 35

/-- The userinfo, and what stands behind it, at `host_start`. -/
def scanUserinfo (authority : Bytes) : Option Bytes × Bytes :=
  match cut 64 authority with
  | some (userinfo, hostStart) => (some userinfo, hostStart)
  | none => (none, authority)

/-- The host and the port, from `host_start` to `auth_end`. -/
def scanHost (h : Bytes) : Option (Bytes × Option Bytes) :=
  let found : Option (Bytes × Option Bytes) :=
    if h.head? = some 91 then
      (cut 93 h).map fun r => (r.1.tail, if r.2.head? = some 58 then some r.2.tail else none)
    else
      match cutLast 58 h with
      | some r => some (r.1, some r.2)
      | none => some (h, none)
  found.filter fun r => r.1 ≠ []

def scanPath (p : Bytes) : Option Bytes × Bytes :=
  if p.head? = some 47 then (some (p.takeWhile inPath), p.dropWhile inPath) else (none, p)

def scanQuery (p : Bytes) : Option Bytes × Bytes :=
  if p.head? = some 63 then (some (p.tail.takeWhile inQuery), p.tail.dropWhile inQuery) else (none, p)

def scanFragment (p : Bytes) : Option Bytes := if p.head? = some 35 then some p.tail else none

/-- The path, the query and the fragment, from `auth_end` on. -/
def scanTail (p : Bytes) (url : Url) : Url :=
  let path := scanPath p
  let query := scanQuery path.2
  { url with path := path.1, query := query.1, fragment := scanFragment query.2 }

/-- `xUrlParse` of the copy; `none` where it gives up. -/
def scan (raw : CStr) : Option Url :=
  match cutAt (bytes "://") raw.bytes with
  | none => none
  | some (scheme, p) =>
    if scheme = [] then none
    else
      let authority := p.takeWhile inAuthority
      let rest := p.dropWhile inAuthority
      if authority = [] then none
      else
        let user := scanUserinfo authority
        match scanHost user.2 with
        | none => none
        | some (host, port) =>
          some (scanTail rest
            { raw := some raw, scheme := some scheme, userinfo := user.1, host := some host, port })

/-- `xUrlFree`, with the number of copies that are allocated. -/
def free (url : Url) (live : ℕ) : Url × ℕ := ({}, if url.raw.isSome then live - 1 else live)

/-- `xUrlParse`; `mem` tells whether `strdup` has memory. -/
def parse (raw : CStr) (mem : Bool) : Errno × Url × ℕ :=
  if mem then
    match scan raw with
    | some url => (.ok, url, 1)
    | none => (.invalidArg, free { raw := some raw } 1)
  else (.noMemory, {}, 0)

/-- The cheap `tolower`. -/
def lower (c : UInt8) : UInt8 := if 65 ≤ c && c ≤ 90 then c + 32 else c

/-- `scheme_eq`. -/
def schemeEq (a : Bytes) (b : String) : Bool := a.map lower = (bytes b).map lower

/-- The loop of `xUrlPort`. -/
def portLoop (port : UInt16) : Bytes → UInt16
  | [] => port
  | c :: cs =>
    if c < 48 || 57 < c then 0
    else
      let next := port.toUInt32 * 10 + (c - 48).toUInt32
      if 65535 < next then 0 else portLoop next.toUInt16 cs

/-- `xUrlPort`. -/
def portOf (url : Url) : UInt16 :=
  match url.port with
  | some (c :: cs) => portLoop 0 (c :: cs)
  | _ =>
    let scheme := url.scheme.getD []
    if schemeEq scheme "http" || schemeEq scheme "ws" then 80
    else if schemeEq scheme "https" || schemeEq scheme "wss" then 443
    else 0

end Url

/-! ### The grammar -/

/-- The components of a text; `stray` is what stands behind the bracket of a host and is no port. -/
structure Parts where
  scheme : Bytes
  userinfo : Option Bytes
  bracketed : Bool
  host : Bytes
  stray : Bytes
  port : Option Bytes
  path : Bytes
  query : Option Bytes
  fragment : Option Bytes

namespace Parts

open Url (inAuthority inPath inQuery)

/-- The host, in its brackets or without, and the port. -/
def hostPort (p : Parts) : Bytes :=
  (if p.bracketed then 91 :: (p.host ++ 93 :: p.stray) else p.host) ++ p.port.elim [] (58 :: ·)

def authority (p : Parts) : Bytes := p.userinfo.elim [] (· ++ [64]) ++ p.hostPort

def tail (p : Parts) : Bytes := p.path ++ (p.query.elim [] (63 :: ·) ++ p.fragment.elim [] (35 :: ·))

def text (p : Parts) : Bytes := p.scheme ++ (bytes "://" ++ (p.authority ++ p.tail))

def url (p : Parts) (raw : CStr) : Url where
  raw := some raw
  scheme := some p.scheme
  userinfo := p.userinfo
  host := some p.host
  port := p.port
  path := if p.path = [] then none else some p.path
  query := p.query
  fragment := p.fragment

/-- The components end where the next one begins. -/
structure Shaped (p : Parts) : Prop where
  host : p.host ≠ []
  authority : ∀ c ∈ p.authority, inAuthority c = true
  bracketed : p.bracketed = true →
    93 ∉ p.host ∧ (p.port.isSome = true → p.stray = []) ∧ (p.port = none → p.stray.head? ≠ some 58)
  bare : p.bracketed = false →
    p.stray = [] ∧ p.host.head? ≠ some 91 ∧ (p.port = none → 58 ∉ p.host) ∧ ∀ port ∈ p.port, 58 ∉ port
  path : p.path = [] ∨ p.path.head? = some 47
  pathBytes : ∀ c ∈ p.path, inPath c = true
  query : ∀ query ∈ p.query, ∀ c ∈ query, inQuery c = true

def isAlpha (c : UInt8) : Bool := 65 ≤ c && c ≤ 90 || 97 ≤ c && c ≤ 122

def isDigit (c : UInt8) : Bool := 48 ≤ c && c ≤ 57

/-- The scheme of RFC 3986: a letter, then letters, digits, plus, minus and dot. -/
def IsScheme (s : Bytes) : Prop :=
  (∃ c ∈ s.head?, isAlpha c = true) ∧ ∀ c ∈ s, isAlpha c = true ∨ isDigit c = true ∨ c = 43 ∨ c = 45 ∨ c = 46

/-- **The grammar**: the scheme is one, nothing but a port follows the bracket of a host, and the host is what stands
behind the last at sign. -/
structure Strict (p : Parts) : Prop extends Shaped p where
  scheme : IsScheme p.scheme
  stray : p.stray = []
  last : 64 ∉ p.hostPort

/-- What the parser takes a text for: the scheme is what stands before the first `://`, the host what stands behind the
first at sign. -/
structure Loose (p : Parts) : Prop extends Shaped p where
  scheme : p.scheme ≠ []
  first : First (bytes "://") p.scheme
  userinfo : ∀ userinfo ∈ p.userinfo, 64 ∉ userinfo
  noUserinfo : p.userinfo = none → 64 ∉ p.hostPort

end Parts

namespace Url

def number (digits : Bytes) : ℕ := digits.foldl (fun n c => n * 10 + (c.toNat - 48)) 0

/-- **The parser does what the grammar says**: what it accepts is the text, taken apart by the grammar; it accepts what
the grammar generates; a failure leaves nothing allocated; and a port is its number. -/
structure Faithful (raw : CStr) : Prop where
  sound : ∀ mem, (parse raw mem).1 = .ok → ∃ p : Parts, p.Strict ∧ p.text = raw.bytes ∧ (parse raw mem).2.1 = p.url raw
  complete : ∀ p : Parts, p.Strict → p.text = raw.bytes → parse raw true = (.ok, p.url raw, 1)
  released : ∀ mem, (parse raw mem).1 ≠ .ok → (parse raw mem).2 = ({}, 0)
  port : ∀ mem, ∀ digits ∈ (parse raw mem).2.1.port, digits ≠ [] → (∀ c ∈ digits, Parts.isDigit c = true) →
    number digits ≤ 65535 → (portOf (parse raw mem).2.1).toNat = number digits

variable {rest : Bytes}

/-- Whatever the parser may take the text for is of the grammar, and what the text is by the grammar has no at sign in
its userinfo. -/
def Clear (raw : CStr) : Prop :=
  (∀ p : Parts, p.Loose → p.text = raw.bytes → p.Strict) ∧
    ∀ p : Parts, p.Strict → p.text = raw.bytes → ∀ userinfo ∈ p.userinfo, 64 ∉ userinfo

/-! ### The host and the port -/

variable {p : Parts} {raw : CStr}

theorem scanHost_hostPort (h : p.Shaped) : scanHost p.hostPort = some (p.host, p.port) := by
  have hhost : (fun r : Bytes × Option Bytes => decide (r.1 ≠ [])) (p.host, p.port) = true := decide_eq_true h.host
  unfold scanHost
  refine (congrArg (Option.filter _) ?_).trans (filter_some_pos hhost)
  unfold Parts.hostPort
  cases hb : p.bracketed with
  | true =>
    obtain ⟨hclose, hsome, hnone⟩ := h.bracketed hb
    have hcut : cut 93 ((91 :: (p.host ++ 93 :: p.stray)) ++ p.port.elim [] (58 :: ·)) =
        some (91 :: p.host, p.stray ++ p.port.elim [] (58 :: ·)) := by
      rw [Core.cut_eq_some, mem_cons, not_or]
      exact ⟨by simp, by decide, hclose⟩
    rw [if_pos rfl, if_pos (show (91 :: (p.host ++ 93 :: p.stray) ++ _).head? = some 91 from rfl), hcut]
    cases hport : p.port with
    | none =>
      have hstray := hnone hport
      simp only [Option.elim, List.append_nil, map_some, tail_cons, if_neg hstray]
    | some port =>
      have hstray := hsome (by rw [hport]; rfl)
      rw [hstray]
      rfl
  | false =>
    obtain ⟨hstray, hopen, hnone, hsome⟩ := h.bare hb
    obtain ⟨c, host, hhost⟩ := exists_cons_of_ne_nil h.host
    have hopen' : (p.host ++ p.port.elim [] (58 :: ·)).head? ≠ some 91 := by
      rw [hhost] at hopen ⊢
      exact hopen
    rw [if_neg Bool.false_ne_true, if_neg hopen']
    cases hport : p.port with
    | none =>
      have hcut : cutLast 58 p.host = none := Core.cutLast_eq_none.2 (hnone hport)
      simp only [Option.elim, List.append_nil, hcut]
    | some port =>
      have hcut : cutLast 58 (p.host ++ 58 :: port) = some (p.host, port) :=
        Core.cutLast_eq_some.2 ⟨rfl, hsome port hport⟩
      simp only [Option.elim, hcut]

theorem exists_of_scanHost {s host : Bytes} {port : Option Bytes} (h : scanHost s = some (host, port)) :
    ∃ (bracketed : Bool) (stray : Bytes), host ≠ [] ∧
      (bracketed = true → 93 ∉ host ∧ (port.isSome = true → stray = []) ∧ (port = none → stray.head? ≠ some 58)) ∧
      (bracketed = false → stray = [] ∧ host.head? ≠ some 91 ∧ (port = none → 58 ∉ host) ∧ ∀ x ∈ port, 58 ∉ x) ∧
      s = (if bracketed then 91 :: (host ++ 93 :: stray) else host) ++ port.elim [] (58 :: ·) := by
  unfold scanHost at h
  obtain ⟨hfound, hne⟩ := filter_eq_some_iff.1 h
  have hhost : host ≠ [] := of_decide_eq_true hne
  by_cases hopen : s.head? = some 91
  · rw [if_pos hopen] at hfound
    obtain ⟨⟨a, b⟩, hcut, heq⟩ := map_eq_some_iff.1 hfound
    obtain ⟨rfl, hport⟩ := Prod.mk.inj heq
    obtain ⟨hs, hclose⟩ := Core.cut_eq_some.1 hcut
    cases a with
    | nil =>
      rw [hs] at hopen
      exact absurd (some.inj hopen) (by decide)
    | cons c a =>
      obtain rfl : c = 91 := by
        rw [hs] at hopen
        exact some.inj hopen
      have hclose : 93 ∉ a := fun hc => hclose (mem_cons_of_mem _ hc)
      by_cases hcolon : b.head? = some 58
      · obtain ⟨b, rfl⟩ : ∃ t, b = 58 :: t := List.head?_eq_some_iff.1 hcolon
        subst hport
        exact ⟨true, [], hhost, fun _ => ⟨hclose, fun _ => rfl, nofun⟩, nofun, by rw [hs]; simp⟩
      · have hport : none = port := (if_neg hcolon).symm.trans hport
        subst hport
        exact ⟨true, b, hhost, fun _ => ⟨hclose, nofun, fun _ => hcolon⟩, nofun, by rw [hs]; simp⟩
  · rw [if_neg hopen] at hfound
    cases hcut : cutLast 58 s with
    | none =>
      rw [hcut] at hfound
      obtain ⟨rfl, rfl⟩ := Prod.mk.inj (some.inj hfound)
      exact ⟨false, [], hhost, nofun, fun _ => ⟨rfl, hopen, fun _ => Core.cutLast_eq_none.1 hcut, nofun⟩, by simp⟩
    | some r =>
      rw [hcut] at hfound
      obtain ⟨a, b⟩ := r
      obtain ⟨rfl, rfl⟩ := Prod.mk.inj (some.inj hfound)
      obtain ⟨hs, hcolon⟩ := Core.cutLast_eq_some.1 hcut
      obtain ⟨c, host, rfl⟩ := exists_cons_of_ne_nil hhost
      rw [hs] at hopen
      refine ⟨false, [], hhost, nofun, fun _ => ⟨rfl, hopen, nofun, ?_⟩, by rw [hs]; simp⟩
      rintro x ⟨⟩
      exact hcolon

/-! ### The path, the query and the fragment -/

theorem scanPath_append {path : Bytes} (hpath : path = [] ∨ path.head? = some 47)
    (hbytes : ∀ c ∈ path, inPath c = true) (hrest : ∀ c ∈ rest.head?, c = 63 ∨ c = 35) :
    scanPath (path ++ rest) = (if path = [] then none else some path, rest) := by
  have hstop : ∀ c ∈ rest.head?, inPath c = false := by
    intro c hc
    rcases hrest c hc with rfl | rfl
    · rfl
    · rfl
  obtain ⟨htake, hdrop⟩ := Core.span_eq hbytes hstop
  unfold scanPath
  rcases hpath with rfl | hhead
  · have hno : ([] ++ rest).head? ≠ some 47 := by
      intro h
      have := hrest 47 h
      exact absurd this (by decide)
    rw [if_neg hno, if_pos rfl]
    rfl
  · obtain ⟨path, rfl⟩ := List.head?_eq_some_iff.1 hhead
    rw [if_pos (show (47 :: path ++ rest).head? = some 47 from rfl), htake, hdrop, if_neg (cons_ne_nil _ _)]

theorem scanQuery_append {query : Option Bytes} (hbytes : ∀ q ∈ query, ∀ c ∈ q, inQuery c = true)
    (hrest : ∀ c ∈ rest.head?, c = 35) : scanQuery (query.elim [] (63 :: ·) ++ rest) = (query, rest) := by
  have hstop : ∀ c ∈ rest.head?, inQuery c = false := by
    intro c hc
    rw [hrest c hc]
    rfl
  cases query with
  | none =>
    have hno : ([] ++ rest).head? ≠ some 63 := fun h => absurd (hrest 63 h) (by decide)
    exact if_neg hno
  | some query =>
    obtain ⟨htake, hdrop⟩ := Core.span_eq (hbytes query rfl) hstop
    refine (if_pos rfl).trans ?_
    show (some ((query ++ rest).takeWhile inQuery), (query ++ rest).dropWhile inQuery) = _
    rw [htake, hdrop]

theorem scanFragment_elim (fragment : Option Bytes) : scanFragment (fragment.elim [] (35 :: ·)) = fragment := by
  cases fragment with
  | none | some fragment => rfl

theorem head_fragment (fragment : Option Bytes) : ∀ c ∈ (fragment.elim [] (35 :: ·)).head?, c = 35 := by
  cases fragment with
  | none => exact nofun
  | some fragment =>
    rintro c ⟨⟩
    rfl

theorem head_query (query : Option Bytes) (hrest : ∀ c ∈ rest.head?, c = 35) :
    ∀ c ∈ (query.elim [] (63 :: ·) ++ rest).head?, c = 63 ∨ c = 35 := by
  cases query with
  | none => exact fun c hc => .inr (hrest c hc)
  | some query =>
    rintro c ⟨⟩
    exact .inl rfl

theorem scanTail_tail (h : p.Shaped) (url : Url) : scanTail p.tail url =
    { url with path := if p.path = [] then none else some p.path, query := p.query, fragment := p.fragment } := by
  have hpath := scanPath_append h.path h.pathBytes (head_query p.query (head_fragment p.fragment))
  have hquery := scanQuery_append h.query (head_fragment p.fragment)
  unfold scanTail Parts.tail
  rw [hpath]
  dsimp only
  rw [hquery]
  rw [scanFragment_elim]

theorem exists_path (hrest : ∀ c ∈ rest.head?, inAuthority c = false) :
    ∃ path rest', path ++ rest' = rest ∧ (path = [] ∨ path.head? = some 47) ∧ (∀ c ∈ path, inPath c = true) ∧
      ∀ c ∈ rest'.head?, c = 63 ∨ c = 35 := by
  have hends : ∀ c, inPath c = false → c = 63 ∨ c = 35 := by
    intro c hc
    unfold inPath at hc
    grind
  by_cases h : rest.head? = some 47
  · obtain ⟨t, rfl⟩ := List.head?_eq_some_iff.1 h
    refine ⟨(47 :: t).takeWhile inPath, (47 :: t).dropWhile inPath, takeWhile_append_dropWhile, .inr ?_,
      Core.takeWhile_all, fun c hc => hends c (Core.head_dropWhile c hc)⟩
    rw [takeWhile_cons_of_pos rfl]
    rfl
  · refine ⟨[], rest, rfl, .inl rfl, nofun, fun c hc => ?_⟩
    have hc' := hrest c hc
    have hne : c ≠ 47 := fun he => h (he ▸ hc)
    unfold inAuthority at hc'
    grind

theorem exists_query (hrest : ∀ c ∈ rest.head?, c = 63 ∨ c = 35) :
    ∃ (query : Option Bytes) (rest' : Bytes), query.elim [] (63 :: ·) ++ rest' = rest ∧
      (∀ q ∈ query, ∀ c ∈ q, inQuery c = true) ∧ ∀ c ∈ rest'.head?, c = 35 := by
  by_cases h : rest.head? = some 63
  · obtain ⟨t, rfl⟩ := List.head?_eq_some_iff.1 h
    refine ⟨some (t.takeWhile inQuery), t.dropWhile inQuery, ?_, ?_, fun c hc => ?_⟩
    · exact congrArg (63 :: ·) takeWhile_append_dropWhile
    · rintro q ⟨⟩
      exact Core.takeWhile_all
    · have := Core.head_dropWhile c hc
      unfold inQuery at this
      simpa using this
  · exact ⟨none, rest, rfl, nofun, fun c hc => (hrest c hc).resolve_left fun he => h (he ▸ hc)⟩

theorem exists_fragment (hrest : ∀ c ∈ rest.head?, c = 35) :
    ∃ fragment : Option Bytes, fragment.elim [] (35 :: ·) = rest := by
  cases rest with
  | nil => exact ⟨none, rfl⟩
  | cons c rest =>
    obtain rfl := hrest c rfl
    exact ⟨some rest, rfl⟩

theorem scanUserinfo_eq {authority hostStart : Bytes} {userinfo : Option Bytes} :
    scanUserinfo authority = (userinfo, hostStart) ↔ authority = userinfo.elim [] (· ++ [64]) ++ hostStart ∧
      (∀ u ∈ userinfo, 64 ∉ u) ∧ (userinfo = none → 64 ∉ hostStart) := by
  unfold scanUserinfo
  cases userinfo with
  | none =>
    constructor
    · intro h
      cases hcut : cut 64 authority with
      | none =>
        rw [hcut] at h
        obtain rfl : authority = hostStart := (Prod.mk.inj h).2
        exact ⟨rfl, nofun, fun _ => Core.cut_eq_none.1 hcut⟩
      | some r =>
        rw [hcut] at h
        cases (Prod.mk.inj h).1
    · rintro ⟨hauth, -, hat⟩
      have hauth : authority = hostStart := hauth
      have hcut : cut 64 authority = none := Core.cut_eq_none.2 (hauth ▸ hat rfl)
      rw [hcut, hauth]
  | some userinfo =>
    constructor
    · intro h
      cases hcut : cut 64 authority with
      | none =>
        rw [hcut] at h
        cases (Prod.mk.inj h).1
      | some r =>
        rw [hcut] at h
        obtain ⟨hu, hh⟩ := Prod.mk.inj h
        obtain ⟨hauth, hat⟩ := Core.cut_eq_some.1 hcut
        obtain rfl : r.1 = userinfo := some.inj hu
        obtain rfl : r.2 = hostStart := hh
        refine ⟨by rw [hauth]; simp, ?_, nofun⟩
        rintro u ⟨⟩
        exact hat
    · rintro ⟨rfl, hat, -⟩
      have hcut : cut 64 (userinfo ++ [64] ++ hostStart) = some (userinfo, hostStart) :=
        Core.cut_eq_some.2 ⟨by simp, hat userinfo rfl⟩
      simp only [Option.elim, hcut]

/-! ### The whole -/

theorem authority_ne_nil (h : p.Shaped) : p.authority ≠ [] := by
  have hhost : p.hostPort ≠ [] := by
    unfold Parts.hostPort
    cases p.bracketed with
    | true => exact nofun
    | false => exact fun he => h.host (append_eq_nil_iff.1 he).1
  exact fun he => hhost (append_eq_nil_iff.1 he).2

theorem head_tail (h : p.Shaped) : ∀ c ∈ p.tail.head?, inAuthority c = false := by
  intro c hc
  unfold Parts.tail at hc
  rcases h.path with hpath | hpath
  · rw [hpath, nil_append] at hc
    rcases head_query p.query (head_fragment p.fragment) c hc with rfl | rfl
    · rfl
    · rfl
  · obtain ⟨path, hpath⟩ := List.head?_eq_some_iff.1 hpath
    rw [hpath] at hc
    obtain rfl : 47 = c := some.inj hc
    rfl

/-- **What the parser takes a text for, it finds.** -/
theorem scan_text (h : p.Loose) (ht : p.text = raw.bytes) : scan raw = some (p.url raw) := by
  have hcut : cutAt (bytes "://") raw.bytes = some (p.scheme, p.authority ++ p.tail) :=
    (Core.cutAt_eq_some (by decide)).2 ⟨ht.symm, h.first⟩
  obtain ⟨htake, hdrop⟩ := Core.span_eq h.authority (head_tail h.toShaped)
  unfold scan
  rw [hcut]
  dsimp only
  rw [if_neg h.scheme, htake, hdrop, if_neg (authority_ne_nil h.toShaped)]
  have huser : scanUserinfo p.authority = (p.userinfo, p.hostPort) :=
    scanUserinfo_eq.2 ⟨rfl, h.userinfo, h.noUserinfo⟩
  rw [huser]
  rw [scanHost_hostPort h.toShaped]
  dsimp only
  rw [scanTail_tail h.toShaped]
  rfl

/-- **What the parser finds, the text may be taken for.** -/
theorem exists_of_scan {url : Url} (h : scan raw = some url) : ∃ p : Parts, p.Loose ∧ p.text = raw.bytes ∧ p.url raw = url := by
  unfold scan at h
  cases hcut : cutAt (bytes "://") raw.bytes with
  | none =>
    rw [hcut] at h
    cases h
  | some r =>
    obtain ⟨scheme, rest⟩ := r
    rw [hcut] at h
    dsimp only at h
    obtain ⟨hraw, hfirst⟩ := (Core.cutAt_eq_some (by decide)).1 hcut
    split_ifs at h with hscheme hauthority
    obtain ⟨⟨userinfo, hostStart⟩, huser⟩ : ∃ u, scanUserinfo (rest.takeWhile inAuthority) = u := ⟨_, rfl⟩
    obtain ⟨hauth, hat, hnone⟩ := scanUserinfo_eq.1 huser
    rw [huser] at h
    cases hhost : scanHost hostStart with
    | none =>
      rw [hhost] at h
      cases h
    | some r =>
      obtain ⟨host, port⟩ := r
      rw [hhost] at h
      obtain ⟨bracketed, stray, hne, hbracketed, hbare, hstart⟩ := exists_of_scanHost hhost
      have hends : ∀ c ∈ (rest.dropWhile inAuthority).head?, inAuthority c = false := Core.head_dropWhile
      obtain ⟨path, rest1, hrest1, hpath, hpathBytes, hends1⟩ := exists_path hends
      obtain ⟨query, rest2, hrest2, hquery, hends2⟩ := exists_query hends1
      obtain ⟨fragment, hfragment⟩ := exists_fragment hends2
      let p : Parts := { scheme, userinfo, bracketed, host, stray, port, path, query, fragment }
      have hp : p.hostPort = hostStart := hstart.symm
      have hauthority : p.authority = rest.takeWhile inAuthority := by
        rw [hauth, ← hp]
        rfl
      have htail : p.tail = rest.dropWhile inAuthority := by
        rw [← hrest1, ← hrest2, ← hfragment]
        rfl
      have hshaped : p.Shaped :=
        ⟨hne, hauthority ▸ Core.takeWhile_all, hbracketed, hbare, hpath, hpathBytes, hquery⟩
      refine ⟨p, ⟨hshaped, hscheme, hfirst, hat, fun h0 => hp ▸ hnone h0⟩, ?_, ?_⟩
      · rw [hraw, ← takeWhile_append_dropWhile (p := inAuthority) (l := rest), ← hauthority, ← htail]
        rfl
      · have hurl := some.inj h
        rw [← htail, scanTail_tail hshaped] at hurl
        exact hurl

theorem parse_eq_ok {mem : Bool} : (parse raw mem).1 = .ok ↔ mem = true ∧ ∃ p : Parts, p.Loose ∧ p.text = raw.bytes := by
  unfold parse
  cases mem with
  | false => simp
  | true =>
    rw [if_pos rfl]
    cases hscan : scan raw with
    | none =>
      refine iff_of_false nofun ?_
      rintro ⟨-, p, hp, ht⟩
      rw [scan_text hp ht] at hscan
      cases hscan
    | some url =>
      obtain ⟨p, hp, ht, -⟩ := exists_of_scan hscan
      exact iff_of_true rfl ⟨rfl, p, hp, ht⟩

theorem parse_text (h : p.Loose) (ht : p.text = raw.bytes) : parse raw true = (.ok, p.url raw, 1) := by
  unfold parse
  rw [if_pos rfl, scan_text h ht]

/-! ### Ports -/

theorem le_number (digits : Bytes) (n : ℕ) : n ≤ digits.foldl (fun n c => n * 10 + (c.toNat - 48)) n := by
  induction digits generalizing n with
  | nil => exact Nat.le_refl n
  | cons c cs ih => exact Nat.le_trans (by omega) (ih (n * 10 + (c.toNat - 48)))

theorem toNat_portLoop (digits : Bytes) (port : UInt16) (hd : ∀ c ∈ digits, Parts.isDigit c = true)
    (hle : digits.foldl (fun n c => n * 10 + (c.toNat - 48)) port.toNat ≤ 65535) :
    (portLoop port digits).toNat = digits.foldl (fun n c => n * 10 + (c.toNat - 48)) port.toNat := by
  induction digits generalizing port with
  | nil => rfl
  | cons c cs ih =>
    have hdigit := hd c mem_cons_self
    unfold Parts.isDigit at hdigit
    rw [Bool.and_eq_true, decide_eq_true_eq, decide_eq_true_eq, UInt8.le_iff_toNat_le, UInt8.le_iff_toNat_le] at hdigit
    obtain ⟨hlow, hhigh⟩ := hdigit
    have hlow : 48 ≤ c.toNat := hlow
    have hhigh : c.toNat ≤ 57 := hhigh
    rw [foldl_cons] at hle ⊢
    have hfit := (le_number cs _).trans hle
    have hsub : (c - 48).toUInt32.toNat = c.toNat - 48 := by
      rw [UInt8.toNat_toUInt32, UInt8.toNat_sub_of_le c 48 (UInt8.le_iff_toNat_le.2 hlow)]
      rfl
    have hnext : (port.toUInt32 * 10 + (c - 48).toUInt32).toNat = port.toNat * 10 + (c.toNat - 48) := by
      rw [UInt32.toNat_add, UInt32.toNat_mul, hsub, UInt16.toNat_toUInt32]
      show (port.toNat * 10 % 2 ^ 32 + (c.toNat - 48)) % 2 ^ 32 = _
      omega
    have hchar : ¬(c < 48 || 57 < c) = true := by
      rw [Bool.or_eq_true, decide_eq_true_eq, decide_eq_true_eq, UInt8.lt_iff_toNat_lt, UInt8.lt_iff_toNat_lt]
      show ¬(c.toNat < 48 ∨ 57 < c.toNat)
      omega
    have hsmall : ¬65535 < port.toUInt32 * 10 + (c - 48).toUInt32 := by
      rw [UInt32.lt_iff_toNat_lt, hnext]
      show ¬65535 < _
      omega
    have hcast : (port.toUInt32 * 10 + (c - 48).toUInt32).toUInt16.toNat = port.toNat * 10 + (c.toNat - 48) := by
      rw [UInt32.toNat_toUInt16, hnext]
      exact Nat.mod_eq_of_lt (by omega)
    unfold portLoop
    rw [if_neg hchar]
    rw [if_neg hsmall, ih _ (fun d hc => hd d (mem_cons_of_mem _ hc)) (by rw [hcast]; exact hle), hcast]

theorem toNat_portOf {url : Url} {digits : Bytes} (h : url.port = some digits) (h0 : digits ≠ [])
    (hd : ∀ c ∈ digits, Parts.isDigit c = true) (hle : number digits ≤ 65535) : (portOf url).toNat = number digits := by
  obtain ⟨c, cs, rfl⟩ := exists_cons_of_ne_nil h0
  unfold portOf
  rw [h]
  exact toNat_portLoop (c :: cs) 0 hd hle

/-! ### The grammar and the parser -/

theorem first_of_isScheme {s : Bytes} (h : Parts.IsScheme s) : First (bytes "://") s := by
  intro i hi hprefix
  obtain ⟨t, ht⟩ := hprefix
  rw [drop_append_of_le_length (by omega), drop_eq_getElem_cons hi] at ht
  have hcolon : (58 : UInt8) = s[i] := (List.cons.inj ht).1
  have := h.2 s[i] (getElem_mem hi)
  rw [← hcolon] at this
  exact absurd this (by decide)

theorem scheme_ne_nil {s : Bytes} (h : Parts.IsScheme s) : s ≠ [] := by
  rintro rfl
  obtain ⟨c, hc, -⟩ := h.1
  cases hc

theorem loose_of_strict (h : p.Strict) (hat : ∀ userinfo ∈ p.userinfo, 64 ∉ userinfo) : p.Loose :=
  ⟨h.toShaped, scheme_ne_nil h.scheme, first_of_isScheme h.scheme, hat, fun _ => h.last⟩

theorem strict_of_url {p' : Parts} (h : p.Loose) (h' : p'.Strict) (ht : p.text = p'.text) (hurl : p.url raw = p'.url raw) :
    p.Strict := by
  have hscheme : p.scheme = p'.scheme := some.inj (congrArg Url.scheme hurl)
  have huser : p.userinfo = p'.userinfo := congrArg Url.userinfo hurl
  have hhost : p.host = p'.host := some.inj (congrArg Url.host hurl)
  have hport : p.port = p'.port := congrArg Url.port hurl
  have hquery : p.query = p'.query := congrArg Url.query hurl
  have hfragment : p.fragment = p'.fragment := congrArg Url.fragment hurl
  have hpath : p.path = p'.path := by
    have := congrArg Url.path hurl
    change (if p.path = [] then none else some p.path) = (if p'.path = [] then none else some p'.path) at this
    split_ifs at this with h0 h1 h1
    · rw [h0, h1]
    · exact some.inj this
  have htail : p.tail = p'.tail := by
    unfold Parts.tail
    rw [hpath, hquery, hfragment]
  have hstart : p.hostPort = p'.hostPort := by
    unfold Parts.text Parts.authority at ht
    rw [hscheme, huser, htail] at ht
    exact append_cancel_left (append_cancel_right (append_cancel_left (append_cancel_left ht)))
  refine ⟨h.toShaped, hscheme ▸ h'.scheme, ?_, hstart ▸ h'.last⟩
  cases hb : p.bracketed with
  | false => exact (h.bare hb).1
  | true =>
    unfold Parts.hostPort at hstart
    rw [hhost, hport, hb, if_pos rfl] at hstart
    have heq := append_cancel_right hstart
    cases hb' : p'.bracketed with
    | true =>
      rw [hb', if_pos rfl, h'.stray] at heq
      exact (List.cons.inj (append_cancel_left (List.cons.inj heq).2)).2
    | false =>
      rw [hb', if_neg Bool.false_ne_true] at heq
      have := congrArg List.length heq
      rw [length_cons, length_append, length_cons] at this
      omega

/-- **The parser does what the grammar says** exactly on the texts that have one reading. -/
theorem faithful_iff (raw : CStr) : Faithful raw ↔ Clear raw := by
  constructor
  · intro h
    constructor
    · intro p hp ht
      obtain ⟨p', hp', ht', hurl⟩ := h.sound true (parse_eq_ok.2 ⟨rfl, p, hp, ht⟩)
      rw [parse_text hp ht] at hurl
      exact strict_of_url hp hp' (ht.trans ht'.symm) hurl
    · intro p hp ht userinfo huser
      have hok := h.complete p hp ht
      obtain ⟨-, p', hp', ht'⟩ := parse_eq_ok.1 (congrArg Prod.fst hok)
      rw [parse_text hp' ht'] at hok
      have hurl : p'.url raw = p.url raw := (Prod.mk.inj (Prod.mk.inj hok).2).1
      have hsame : p'.userinfo = p.userinfo := congrArg Url.userinfo hurl
      exact hp'.userinfo userinfo (hsame ▸ huser)
  · rintro ⟨hloose, hstrict⟩
    refine ⟨fun mem hok => ?_, fun p hp ht => ?_, fun mem hfail => ?_, fun mem digits hport h0 hd hle => ?_⟩
    · obtain ⟨rfl, p, hp, ht⟩ := parse_eq_ok.1 hok
      exact ⟨p, hloose p hp ht, ht, by rw [parse_text hp ht]⟩
    · exact parse_text (loose_of_strict hp (hstrict p hp ht)) ht
    · unfold parse at hfail ⊢
      cases mem with
      | false => rfl
      | true =>
        cases hscan : scan raw with
        | none => rfl
        | some url =>
          rw [hscan] at hfail
          exact absurd rfl hfail
    · exact toNat_portOf hport h0 hd hle

/-- `a://u@v@w`: the host is `w`, and the parser says `v@w`. -/
theorem not_faithful_at : ¬∀ raw, Faithful raw := by
  intro hall
  obtain ⟨p, hp, -, hurl⟩ := (hall ⟨bytes "a://u@v@w", by decide +kernel⟩).sound true (by decide +kernel)
  have hread : (parse ⟨bytes "a://u@v@w", by decide +kernel⟩ true).2.1.host = some (bytes "v@w") := by decide +kernel
  have hhost : p.host = bytes "v@w" := by
    rw [hurl] at hread
    exact some.inj hread
  refine hp.last ?_
  have hmem : 64 ∈ p.host := by
    rw [hhost]
    decide
  unfold Parts.hostPort
  cases p.bracketed with
  | true => exact mem_append_left _ (mem_cons_of_mem _ (mem_append_left _ hmem))
  | false => exact mem_append_left _ hmem

end Url

end Libx.Net
