import Libx.Core.Split
import Libx.Http.ResponseExact

/-!
# Libx.Xpp.Addr — socket addresses and their text

net/addr.cpp.  `inet_pton` and `inet_ntop` are given, with what their texts consist of; the fields of a `sockaddr` are
its bytes in network order.
-/

namespace Libx.Xpp

open Libx.Agent (Bytes decimal cstr decimal_ne_nil)
open Libx.Core (cutLast cutAt cut_eq_some cutLast_eq_some cutAt_eq_some)
open Libx.Http (number_decimal isDigit_of_mem_decimal length_decimal_le_iff)
open Libx.Http.Client (isDigit hexDigit number)
open List

/-- `AddrParseError`. -/
inductive AddrParseError
  | invalidIpv4
  | invalidIpv6
  | invalidPort
  | invalidFormat

/-- The bytes of an `in_addr`. -/
abbrev Octets4 := UInt8 × UInt8 × UInt8 × UInt8

/-- `Ipv6Addr`, and the bytes of an `in6_addr`. -/
structure Ipv6Addr where
  octets : Bytes
  length : octets.length = 16

/-- `inet_pton` and `inet_ntop`, of texts without their NUL: what is printed is read, and what is read is short and of
the digits and separators of its family. -/
structure Inet where
  pton4 : Bytes → Option Octets4
  ntop4 : Octets4 → Bytes
  pton6 : Bytes → Option Ipv6Addr
  ntop6 : Ipv6Addr → Bytes
  pton4_ntop4 : ∀ a, pton4 (ntop4 a) = some a
  pton6_ntop6 : ∀ a, pton6 (ntop6 a) = some a
  text4 : ∀ t a, pton4 t = some a → t ≠ [] ∧ t.length ≤ 15 ∧ ∀ c ∈ t, c = 46 ∨ isDigit c = true
  text6 : ∀ t a, pton6 t = some a → t ≠ [] ∧ t.length ≤ 45 ∧ ∀ c ∈ t, c = 46 ∨ c = 58 ∨ (hexDigit c).isSome = true

/-- `Ipv4Addr::from`; an `Ipv4Addr` is its `m_addr`. -/
def from4 (a b c d : UInt8) : UInt32 :=
  a.toUInt32 <<< 24 ||| b.toUInt32 <<< 16 ||| c.toUInt32 <<< 8 ||| d.toUInt32

def octets4 (m : UInt32) : Octets4 := ((m >>> 24).toUInt8, (m >>> 16).toUInt8, (m >>> 8).toUInt8, m.toUInt8)

/-- A segment of two octets, or a port of two bytes in network order. -/
def seg (a b : UInt8) : UInt16 := a.toUInt16 <<< 8 ||| b.toUInt16

def hi (s : UInt16) : UInt8 := (s >>> 8).toUInt8

def lo (s : UInt16) : UInt8 := s.toUInt8

def segments : Bytes → List UInt16
  | a :: b :: l => seg a b :: segments l
  | _ => []

/-- `Ipv6Addr::from`. -/
def ofSegments (segs : List UInt16) : Bytes := segs.flatMap fun s => [hi s, lo s]

inductive SocketAddr
  | v4 (ip : UInt32) (port : UInt16)
  | v6 (ip : Ipv6Addr) (port : UInt16) (flowinfo scopeId : UInt32)

variable (net : Inet)

/-- `Ipv4Addr::parse`. -/
def parseIpv4 (s : Bytes) : Except AddrParseError UInt32 :=
  if s = [] then .error .invalidIpv4
  else
    match net.pton4 (cstr (s.take 15)).bytes with
    | none => .error .invalidIpv4
    | some (a, b, c, d) => .ok (from4 a b c d)

theorem toNat_seg (a b : UInt8) : (seg a b).toNat = 2 ^ 8 * a.toNat + b.toNat := by
  have ha := a.toNat_lt
  rw [seg, UInt16.toNat_or, UInt16.toNat_shiftLeft, UInt8.toNat_toUInt16, UInt8.toNat_toUInt16,
    Nat.two_pow_add_eq_or_of_lt b.toNat_lt, Nat.shiftLeft_eq, Nat.mul_comm]
  congr 1
  exact Nat.mod_eq_of_lt (by show 2 ^ 8 * _ < _; omega)

theorem seg_hi_lo (s : UInt16) : seg (hi s) (lo s) = s := by
  have hs := s.toNat_lt
  refine UInt16.toNat_inj.1 ?_
  rw [toNat_seg]
  simp only [hi, lo, UInt16.toNat_toUInt8, UInt16.toNat_shiftRight, Nat.shiftRight_eq_div_pow]
  show 2 ^ 8 * (s.toNat / 2 ^ 8 % 256) + s.toNat % 256 = _
  omega

theorem toNat_from4 (a b c d : UInt8) :
    (from4 a b c d).toNat = 2 ^ 24 * a.toNat + (2 ^ 16 * b.toNat + (2 ^ 8 * c.toNat + d.toNat)) := by
  have ha := a.toNat_lt
  have hb := b.toNat_lt
  have hc := c.toNat_lt
  have hd := d.toNat_lt
  rw [Nat.two_pow_add_eq_or_of_lt (by omega), Nat.two_pow_add_eq_or_of_lt (by omega), Nat.two_pow_add_eq_or_of_lt hd]
  simp only [from4, UInt32.toNat_or, UInt32.toNat_shiftLeft, UInt8.toNat_toUInt32, Nat.shiftLeft_eq]
  rw [Nat.or_assoc, Nat.or_assoc]
  congr 1
  · exact (Nat.mod_eq_of_lt (by show _ * 2 ^ 24 < _; omega)).trans (Nat.mul_comm _ _)
  congr 1
  · exact (Nat.mod_eq_of_lt (by show _ * 2 ^ 16 < _; omega)).trans (Nat.mul_comm _ _)
  congr 1
  exact (Nat.mod_eq_of_lt (by show _ * 2 ^ 8 < _; omega)).trans (Nat.mul_comm _ _)

theorem hi_seg (a b : UInt8) : hi (seg a b) = a := by
  have ha := a.toNat_lt
  have hb := b.toNat_lt
  refine UInt8.toNat_inj.1 ?_
  simp only [hi, UInt16.toNat_toUInt8, UInt16.toNat_shiftRight, Nat.shiftRight_eq_div_pow, toNat_seg]
  show (2 ^ 8 * a.toNat + b.toNat) / 2 ^ 8 % 256 = _
  omega

theorem lo_seg (a b : UInt8) : lo (seg a b) = b := by
  have hb := b.toNat_lt
  refine UInt8.toNat_inj.1 ?_
  simp only [lo, UInt16.toNat_toUInt8, toNat_seg]
  omega

theorem ofSegments_segments : ∀ (n : ℕ) (l : Bytes), l.length = 2 * n → ofSegments (segments l) = l
  | 0, [], _ => rfl
  | n + 1, a :: b :: l, h => by
    have hl := ofSegments_segments n l (by simpa [Nat.mul_succ] using h)
    unfold ofSegments at hl ⊢
    rw [segments, flatMap_cons, hl, hi_seg, lo_seg]
    rfl

/-- The octets of the segments that are made of the bytes of an `in6_addr`. -/
def fromSegments (a : Ipv6Addr) : Ipv6Addr :=
  ⟨ofSegments (segments a.octets), by rw [ofSegments_segments 8 _ a.length, a.length]⟩

/-- `Ipv6Addr::parse`. -/
def parseIpv6 (s : Bytes) : Except AddrParseError Ipv6Addr :=
  if s = [] then .error .invalidIpv6
  else
    match net.pton6 (cstr (s.take 47)).bytes with
    | none => .error .invalidIpv6
    | some a => .ok (fromSegments a)

/-- `strtol` in base 10 of a text that cannot overflow: the number, and the text behind it. -/
def strtol (s : Bytes) : ℤ × Bytes :=
  let t := s.dropWhile fun c => c = 32 || 9 ≤ c && c ≤ 13
  let u := if t.head? = some 45 ∨ t.head? = some 43 then t.tail else t
  let digits := u.takeWhile isDigit
  if digits = [] then (0, s)
  else (if t.head? = some 45 then -(number digits : ℤ) else number digits, u.dropWhile isDigit)

/-- The port of `SocketAddrV4::parse` and `SocketAddrV6::parse`. -/
def parsePort (t : Bytes) : Except AddrParseError UInt16 :=
  if t.length = 0 ∨ 5 < t.length then .error .invalidPort
  else
    let r := strtol (cstr t).bytes
    if r.2 ≠ [] ∨ r.1 < 0 ∨ 65535 < r.1 then .error .invalidPort else .ok (UInt16.ofNat r.1.toNat)

/-- As many bytes as `static_cast<int>(s.size())` says. -/
def clip (s : Bytes) : Bytes := s.take (Int32.ofNat s.length).toInt.toNat

/-- A host and a port; where the host is none, the error is `e`. -/
def both {A B C : Type} (e : AddrParseError) (f : A → B → C) (x : Except AddrParseError A) (y : Except AddrParseError B) :
    Except AddrParseError C :=
  match x with
  | .error _ => .error e
  | .ok a => y.map (f a)

/-- `SocketAddrV4::parse`. -/
def parseV4 (s : Bytes) : Except AddrParseError SocketAddr :=
  match cutLast 58 (clip s) with
  | none => .error .invalidFormat
  | some (host, port) =>
    if host = [] then .error .invalidFormat else both .invalidIpv4 .v4 (parseIpv4 net host) (parsePort port)

/-- `SocketAddrV6::parse`. -/
def parseV6 (s : Bytes) : Except AddrParseError SocketAddr :=
  if (clip s).length < 4 ∨ s.head? ≠ some 91 then .error .invalidFormat
  else
    match cutAt [93, 58] (clip s).tail with
    | none => .error .invalidFormat
    | some (host, port) => both .invalidIpv6 (fun ip p => .v6 ip p 0 0) (parseIpv6 net host) (parsePort port)

/-- `SocketAddr::parse`. -/
def parse (s : Bytes) : Except AddrParseError SocketAddr :=
  if s = [] then .error .invalidFormat else if s.head? = some 91 then parseV6 net s else parseV4 net s

/-- `SocketAddr::to_string`. -/
def toText : SocketAddr → Bytes
  | .v4 ip port => net.ntop4 (octets4 ip) ++ 58 :: decimal port.toNat
  | .v6 ip port _ _ => 91 :: net.ntop6 ip ++ [93, 58] ++ decimal port.toNat

/-- `sockaddr_in` and `sockaddr_in6`. -/
inductive Sockaddr
  | inet (port : UInt8 × UInt8) (addr : Octets4)
  | inet6 (port : UInt8 × UInt8) (flowinfo scopeId : Octets4) (addr : Ipv6Addr)

/-- `SocketAddr::to_sockaddr`, with the length that it sets. -/
def toSockaddr : SocketAddr → Sockaddr × ℕ
  | .v4 ip port => (.inet (hi port, lo port) (octets4 ip), 16)
  | .v6 ip port flowinfo scopeId => (.inet6 (hi port, lo port) (octets4 flowinfo) (octets4 scopeId) ip, 28)

/-- `SocketAddr::from_sockaddr`. -/
def fromSockaddr : Sockaddr × ℕ → Option SocketAddr
  | (.inet port (a, b, c, d), len) => if 16 ≤ len then some (.v4 (from4 a b c d) (seg port.1 port.2)) else none
  | (.inet6 port (a, b, c, d) (a', b', c', d') addr, len) =>
    if 28 ≤ len then
      some (.v6 (fromSegments addr) (seg port.1 port.2) (from4 a b c d) (from4 a' b' c' d'))
    else none

/-! ### What the text is -/

/-- An address of the family, the whole text. -/
def IsText {A : Type} (pton : Bytes → Option A) (s : Bytes) : Prop := 0 ∉ s ∧ (pton s).isSome = true

/-- Digits only, and at most 65535. -/
def IsPort (t : Bytes) : Prop := t ≠ [] ∧ t.length ≤ 5 ∧ (∀ c ∈ t, isDigit c = true) ∧ number t ≤ 65535

/-- a.b.c.d:port or [ipv6]:port. -/
def IsSocketText (s : Bytes) : Prop :=
  (∃ host port, s = host ++ 58 :: port ∧ IsText net.pton4 host ∧ IsPort port) ∨
    ∃ host port, s = 91 :: host ++ [93, 58] ++ port ∧ IsText net.pton6 host ∧ IsPort port

/-- What `parse` gives of the printed text: flow info and scope are not printed. -/
def bare : SocketAddr → SocketAddr
  | .v4 ip port => .v4 ip port
  | .v6 ip port _ _ => .v6 ip port 0 0

/-- The text is no address, but what is left of it is: `n` bytes of it, up to a NUL. -/
def CutTo {A : Type} (pton : Bytes → Option A) (n : ℕ) (s : Bytes) : Prop :=
  (pton (cstr (s.take n)).bytes).isSome = true ∧ (cstr (s.take n)).bytes ≠ s

/-- The host and the port that are looked for. -/
def hostPort (s : Bytes) : Option (Bytes × Bytes) :=
  if s.head? = some 91 then if (clip s).length < 4 then none else cutAt [93, 58] (clip s).tail
  else cutLast 58 (clip s)

/-- What is left of the host, and whether it is an address. -/
def hostLeft (s host : Bytes) : Bytes × Bool :=
  if s.head? = some 91 then ((cstr (host.take 47)).bytes, (net.pton6 (cstr (host.take 47)).bytes).isSome)
  else ((cstr (host.take 15)).bytes, (net.pton4 (cstr (host.take 15)).bytes).isSome)

def portLeft (t : Bytes) : Prop :=
  t.length ≠ 0 ∧ t.length ≤ 5 ∧ (strtol (cstr t).bytes).2 = [] ∧ 0 ≤ (strtol (cstr t).bytes).1 ∧
    (strtol (cstr t).bytes).1 ≤ 65535

/-- Host and port are accepted, but bytes behind the length, behind the buffer of the host or behind a NUL are left out,
or the port has bytes that are no digits. -/
def CutApart (s : Bytes) : Prop :=
  ∃ host port, hostPort s = some (host, port) ∧ (hostLeft net s host).2 = true ∧ portLeft port ∧
    ¬(clip s = s ∧ (hostLeft net s host).1 = host ∧ ∀ c ∈ port, isDigit c = true)

variable {net : Inet} {s t host port : Bytes} {n : ℕ} {A : Type} {pton : Bytes → Option A}

theorem cstr_take (h0 : 0 ∉ s) (hn : s.length ≤ n) : (cstr (s.take n)).bytes = s := by
  rw [take_of_length_le hn]
  exact takeWhile_eq_self_iff.2 fun c hc => decide_eq_true fun h => h0 (h ▸ hc)

theorem not_mem_of_cstr (h : (cstr t).bytes = s) : 0 ∉ s := fun h0 => (cstr t).noNul 0 (h ▸ h0) rfl

/-- Only an address is accepted exactly where nothing is cut that matters. -/
theorem isText_iff (hshort : ∀ t a, pton t = some a → t.length ≤ n) :
    ((pton (cstr (s.take n)).bytes).isSome = true → IsText pton s) ↔ ¬CutTo pton n s := by
  constructor
  · rintro h ⟨hs, hne⟩
    obtain ⟨h0, hsome⟩ := h hs
    obtain ⟨a, ha⟩ := Option.isSome_iff_exists.1 hsome
    exact hne (cstr_take h0 (hshort s a ha))
  · intro h hs
    have heq : (cstr (s.take n)).bytes = s := by
      by_contra hne
      exact h ⟨hs, hne⟩
    exact ⟨not_mem_of_cstr heq, heq ▸ hs⟩

theorem parseIpv4_ok : (∃ a, parseIpv4 net s = .ok a) ↔ (net.pton4 (cstr (s.take 15)).bytes).isSome = true := by
  unfold parseIpv4
  split_ifs with h
  · subst h
    refine iff_of_false (fun ⟨_, h⟩ => (nomatch h)) fun h => ?_
    obtain ⟨a, ha⟩ := Option.isSome_iff_exists.1 h
    exact (net.text4 _ a ha).1 rfl
  · cases net.pton4 (cstr (s.take 15)).bytes with
    | none => exact iff_of_false (fun ⟨_, h⟩ => (nomatch h)) nofun
    | some a => exact iff_of_true ⟨_, rfl⟩ rfl

theorem parseIpv6_ok : (∃ a, parseIpv6 net s = .ok a) ↔ (net.pton6 (cstr (s.take 47)).bytes).isSome = true := by
  unfold parseIpv6
  split_ifs with h
  · subst h
    refine iff_of_false (fun ⟨_, h⟩ => (nomatch h)) fun h => ?_
    obtain ⟨a, ha⟩ := Option.isSome_iff_exists.1 h
    exact (net.text6 _ a ha).1 rfl
  · cases net.pton6 (cstr (s.take 47)).bytes with
    | none => exact iff_of_false (fun ⟨_, h⟩ => (nomatch h)) nofun
    | some a => exact iff_of_true ⟨_, rfl⟩ rfl

/-! ### Ports -/

theorem strtol_digits (ht : t ≠ []) (hd : ∀ c ∈ t, isDigit c = true) : strtol t = ((number t : ℤ), []) := by
  obtain ⟨c, t, rfl⟩ := exists_cons_of_ne_nil ht
  have hc := hd c mem_cons_self
  simp only [isDigit, Bool.and_eq_true, decide_eq_true_eq, UInt8.le_iff_toNat_le] at hc
  have hbound : 48 ≤ c.toNat ∧ c.toNat ≤ 57 := hc
  have hne : ∀ k : UInt8, k.toNat < 48 → c ≠ k := by
    rintro k hk rfl
    omega
  have hspace : (c = 32 || 9 ≤ c && c ≤ 13) = false := by
    simp only [decide_eq_false (hne 32 (by decide)), Bool.false_or, Bool.and_eq_false_iff, decide_eq_false_iff_not,
      UInt8.le_iff_toNat_le]
    exact .inr (show ¬c.toNat ≤ 13 by omega)
  have htake : (c :: t).takeWhile isDigit = c :: t := takeWhile_eq_self_iff.2 hd
  have hdrop : (c :: t).dropWhile isDigit = [] := dropWhile_eq_nil_iff.2 hd
  unfold strtol
  rw [dropWhile_cons_of_neg (by rw [hspace]; decide)]
  simp only [head?_cons, Option.some.injEq, hne 45 (by decide), hne 43 (by decide), or_self, if_false, htake, hdrop]
  rfl

theorem parsePort_ok : (∃ p, parsePort t = .ok p) ↔ portLeft t := by
  unfold parsePort portLeft
  dsimp only
  split_ifs with h h'
  · exact iff_of_false (fun ⟨_, h⟩ => (nomatch h)) fun h' => h.elim h'.1 (Nat.not_lt.2 h'.2.1)
  · exact iff_of_false (fun ⟨_, h⟩ => (nomatch h)) fun ⟨_, _, h1, h2, h3⟩ => by
      rcases h' with h' | h' | h'
      · exact h' h1
      · omega
      · omega
  · simp only [not_or, not_not, Nat.not_lt, Int.not_lt] at h h'
    exact iff_of_true ⟨_, rfl⟩ ⟨h.1, h.2, h'⟩

theorem cstr_digits (hd : ∀ c ∈ t, isDigit c = true) : (cstr t).bytes = t := by
  have h0 : 0 ∉ t := fun h => absurd (hd 0 h) (by decide)
  have := cstr_take (n := t.length) h0 le_rfl
  rwa [take_length] at this

theorem parsePort_decimal (p : UInt16) : parsePort (decimal p.toNat) = .ok p := by
  have hlt := p.toNat_lt
  have hd : ∀ c ∈ decimal p.toNat, isDigit c = true := fun c hc => isDigit_of_mem_decimal hc
  have hlen : (decimal p.toNat).length ≤ 5 := (length_decimal_le_iff (by decide)).2 (by omega)
  have hne := decimal_ne_nil p.toNat
  unfold parsePort
  rw [if_neg (by rw [length_eq_zero_iff]; exact not_or.2 ⟨hne, by omega⟩), cstr_digits hd, strtol_digits hne hd,
    number_decimal]
  dsimp only
  rw [if_neg fun h => h.elim (fun h => h rfl) fun h => by omega, Int.toNat_natCast, UInt16.ofNat_toNat]

theorem isPort_of_left (h : portLeft t) (hd : ∀ c ∈ t, isDigit c = true) : IsPort t := by
  obtain ⟨h0, h5, -, -, hmax⟩ := h
  have hne : t ≠ [] := fun h => h0 (by rw [h]; rfl)
  rw [cstr_digits hd, strtol_digits hne hd] at hmax
  exact ⟨hne, h5, hd, Int.ofNat_le.1 hmax⟩

/-! ### Socket addresses -/

theorem clip_eq (h : s.length < 2 ^ 31) : clip s = s := by
  unfold clip
  rw [Int32.toInt_ofNat_of_lt h]
  exact take_of_length_le le_rfl

theorem both_ok {B C : Type} {x : Except AddrParseError A} {y : Except AddrParseError B} {e : AddrParseError} {f : A → B → C} :
    (∃ c, both e f x y = .ok c) ↔ (∃ a, x = .ok a) ∧ ∃ b, y = .ok b := by
  cases x with
  | error => exact iff_of_false (fun ⟨_, h⟩ => (nomatch h)) fun ⟨⟨_, h⟩, _⟩ => (nomatch h)
  | ok a =>
    cases y with
    | error => exact iff_of_false (fun ⟨_, h⟩ => (nomatch h)) fun ⟨_, ⟨_, h⟩⟩ => (nomatch h)
    | ok b => exact iff_of_true ⟨_, rfl⟩ ⟨⟨_, rfl⟩, _, rfl⟩

/-- The host and the port that are looked for are those that are read. -/
theorem parse_eq : parse net s =
    match hostPort s with
    | none => .error .invalidFormat
    | some (host, port) =>
      if s.head? = some 91 then both .invalidIpv6 (fun ip p => .v6 ip p 0 0) (parseIpv6 net host) (parsePort port)
      else if host = [] then .error .invalidFormat
      else both .invalidIpv4 .v4 (parseIpv4 net host) (parsePort port) := by
  unfold parse hostPort
  by_cases h91 : s.head? = some 91
  · have hne : s ≠ [] := fun h => by
      rw [h] at h91
      exact nomatch h91
    rw [if_neg hne, if_pos h91, if_pos h91, parseV6]
    by_cases h4 : (clip s).length < 4
    · rw [if_pos (.inl h4), if_pos h4]
    · rw [if_neg fun h => h.elim h4 fun h => h h91, if_neg h4]
      cases cutAt [93, 58] (clip s).tail with
      | none => rfl
      | some r => exact (if_pos h91).symm
  · rw [if_neg h91, if_neg h91, parseV4]
    by_cases hne : s = []
    · subst hne
      rfl
    · rw [if_neg hne]
      cases cutLast 58 (clip s) with
      | none => rfl
      | some r => exact (if_neg h91).symm

/-- A text is accepted when its host and its port are. -/
theorem parse_ok : (∃ a, parse net s = .ok a) ↔
    ∃ host port, hostPort s = some (host, port) ∧ (hostLeft net s host).2 = true ∧ portLeft port := by
  have hno : ∀ {e : AddrParseError}, ¬∃ a : SocketAddr, Except.error e = Except.ok a := fun ⟨_, h⟩ => (nomatch h)
  rw [parse_eq]
  cases hostPort s with
  | none => exact iff_of_false hno nofun
  | some r =>
    obtain ⟨host, port⟩ := r
    have hone : (∃ host' port', some (host, port) = some (host', port') ∧ (hostLeft net s host').2 = true ∧ portLeft port') ↔
        (hostLeft net s host).2 = true ∧ portLeft port := by
      simp
    rw [hone, hostLeft]
    dsimp only
    split_ifs with h91 hh
    · rw [both_ok, parseIpv6_ok, parsePort_ok]
    · refine iff_of_false (by simp) fun h => ?_
      obtain ⟨a, ha⟩ := Option.isSome_iff_exists.1 h.1
      exact (net.text4 _ a ha).1 (by rw [hh]; rfl)
    · rw [both_ok, parseIpv4_ok, parsePort_ok]

theorem not_mem_port (h : IsPort port) : 58 ∉ port := fun h58 => absurd (h.2.2.1 58 h58) (by decide)

theorem hostPort_v4 (hhost : IsText net.pton4 host) (hport : IsPort port) :
    hostPort (host ++ 58 :: port) = some (host, port) ∧ clip (host ++ 58 :: port) = host ++ 58 :: port ∧
      (host ++ 58 :: port).head? ≠ some 91 ∧ (cstr (host.take 15)).bytes = host ∧ host ≠ [] := by
  obtain ⟨a, ha⟩ := Option.isSome_iff_exists.1 hhost.2
  obtain ⟨hne, hlen, hchars⟩ := net.text4 host a ha
  have hhead : (host ++ 58 :: port).head? ≠ some 91 := by
    rw [head?_append_of_ne_nil _ hne]
    exact fun h => absurd (hchars 91 (mem_of_head? h)) (by decide)
  have hclip : clip (host ++ 58 :: port) = host ++ 58 :: port := clip_eq (by have := hport.2.1; simp; omega)
  refine ⟨?_, hclip, hhead, cstr_take hhost.1 hlen, hne⟩
  rw [hostPort, if_neg hhead, hclip]
  exact cutLast_eq_some.2 ⟨rfl, not_mem_port hport⟩

theorem hostPort_v6 (hhost : IsText net.pton6 host) (hport : IsPort port) :
    hostPort (91 :: host ++ [93, 58] ++ port) = some (host, port) ∧
      clip (91 :: host ++ [93, 58] ++ port) = 91 :: host ++ [93, 58] ++ port ∧ (cstr (host.take 47)).bytes = host := by
  obtain ⟨a, ha⟩ := Option.isSome_iff_exists.1 hhost.2
  obtain ⟨hne, hlen, hchars⟩ := net.text6 host a ha
  have hpos := length_pos_of_ne_nil hne
  have hclip : clip (91 :: host ++ [93, 58] ++ port) = 91 :: host ++ [93, 58] ++ port :=
    clip_eq (by have := hport.2.1; simp; omega)
  have hhead : (91 :: host ++ [93, 58] ++ port).head? = some 91 := rfl
  have h4 : ¬(91 :: host ++ [93, 58] ++ port).length < 4 := by
    simp
    omega
  refine ⟨?_, hclip, cstr_take hhost.1 (by omega)⟩
  rw [hostPort, if_pos hhead, hclip, if_neg h4]
  refine (cutAt_eq_some (by simp)).2 ⟨by simp, fun i hi hp => ?_⟩
  rw [drop_append_of_le_length hi.le, drop_eq_getElem_cons hi, cons_append, cons_prefix_cons] at hp
  exact absurd (hchars _ (getElem_mem hi)) (by rw [← hp.1]; decide)

/-- Only a socket address text is accepted exactly where nothing is cut that matters. -/
theorem isSocketText_iff : ((∃ a, parse net s = .ok a) → IsSocketText net s) ↔ ¬CutApart net s := by
  constructor
  · rintro h ⟨host, port, hparts, hleft, hport, hcut⟩
    rcases h (parse_ok.2 ⟨host, port, hparts, hleft, hport⟩) with ⟨host', port', rfl, hhost, hisPort⟩ |
      ⟨host', port', rfl, hhost, hisPort⟩
    · obtain ⟨hparts', hclip, h91, hcstr, -⟩ := hostPort_v4 hhost hisPort
      obtain ⟨rfl, rfl⟩ := Prod.mk.inj (Option.some.inj (hparts.symm.trans hparts'))
      exact hcut ⟨hclip, by rw [hostLeft, if_neg h91]; exact hcstr, hisPort.2.2.1⟩
    · obtain ⟨hparts', hclip, hcstr⟩ := hostPort_v6 hhost hisPort
      obtain ⟨rfl, rfl⟩ := Prod.mk.inj (Option.some.inj (hparts.symm.trans hparts'))
      exact hcut ⟨hclip, by rw [hostLeft]; exact hcstr, hisPort.2.2.1⟩
  · intro h hs
    obtain ⟨host, port, hparts, hleft, hport⟩ := parse_ok.1 hs
    obtain ⟨hclip, hhost, hdigits⟩ : clip s = s ∧ (hostLeft net s host).1 = host ∧ ∀ c ∈ port, isDigit c = true := by
      by_contra hcut
      exact h ⟨host, port, hparts, hleft, hport, hcut⟩
    have hisPort := isPort_of_left hport hdigits
    unfold hostPort at hparts
    unfold hostLeft at hleft hhost
    rw [hclip] at hparts
    split_ifs at hparts hleft hhost with h91 h4
    · obtain ⟨hs', -⟩ := (cutAt_eq_some (by simp)).1 hparts
      obtain ⟨s', rfl⟩ : ∃ s', s = 91 :: s' := ⟨s.tail, (cons_head?_tail h91).symm⟩
      refine .inr ⟨host, port, ?_, ⟨not_mem_of_cstr hhost, hhost ▸ hleft⟩, hisPort⟩
      rw [tail_cons] at hs'
      rw [hs']
      simp
    · exact .inl ⟨host, port, (cutLast_eq_some.1 hparts).1, ⟨not_mem_of_cstr hhost, hhost ▸ hleft⟩, hisPort⟩

theorem isPort_decimal (p : UInt16) : IsPort (decimal p.toNat) := by
  have hlt := p.toNat_lt
  refine ⟨decimal_ne_nil _, (length_decimal_le_iff (by decide)).2 (by omega), fun c hc => isDigit_of_mem_decimal hc, ?_⟩
  rw [number_decimal]
  omega

theorem from4_octets4 (m : UInt32) :
    from4 (m >>> 24).toUInt8 (m >>> 16).toUInt8 (m >>> 8).toUInt8 m.toUInt8 = m := by
  have hm := m.toNat_lt
  refine UInt32.toNat_inj.1 ?_
  rw [toNat_from4]
  simp only [UInt32.toNat_toUInt8, UInt32.toNat_shiftRight, Nat.shiftRight_eq_div_pow]
  show 2 ^ 24 * (m.toNat / 2 ^ 24 % 256) +
    (2 ^ 16 * (m.toNat / 2 ^ 16 % 256) + (2 ^ 8 * (m.toNat / 2 ^ 8 % 256) + m.toNat % 256)) = _
  omega

theorem fromSegments_eq (a : Ipv6Addr) : fromSegments a = a := by
  obtain ⟨octets, h⟩ := a
  unfold fromSegments
  congr 1
  exact ofSegments_segments 8 _ h

/-- What is printed is read. -/
theorem parse_toText (a : SocketAddr) : parse net (toText net a) = .ok (bare a) := by
  cases a with
  | v4 ip port =>
    have hread := net.pton4_ntop4 (octets4 ip)
    have h0 : 0 ∉ net.ntop4 (octets4 ip) := fun h => absurd ((net.text4 _ _ hread).2.2 0 h) (by decide)
    obtain ⟨hparts, -, h91, hcstr, hne⟩ := hostPort_v4 ⟨h0, by rw [hread]; rfl⟩ (isPort_decimal port)
    have hip : parseIpv4 net (net.ntop4 (octets4 ip)) = .ok ip := by
      rw [parseIpv4, if_neg hne, hcstr, hread]
      exact congrArg Except.ok (from4_octets4 ip)
    rw [toText, parse_eq, hparts]
    dsimp only
    rw [if_neg h91, if_neg hne, hip, parsePort_decimal]
    rfl
  | v6 ip port flowinfo scopeId =>
    have hread := net.pton6_ntop6 ip
    obtain ⟨hne, -, hchars⟩ := net.text6 _ _ hread
    have h0 : 0 ∉ net.ntop6 ip := fun h => absurd (hchars 0 h) (by decide)
    obtain ⟨hparts, -, hcstr⟩ := hostPort_v6 ⟨h0, by rw [hread]; rfl⟩ (isPort_decimal port)
    have hip : parseIpv6 net (net.ntop6 ip) = .ok ip := by
      rw [parseIpv6, if_neg hne, hcstr, hread]
      exact congrArg Except.ok (fromSegments_eq ip)
    have h91 : (91 :: net.ntop6 ip ++ [93, 58] ++ decimal port.toNat).head? = some 91 := rfl
    rw [toText, parse_eq, hparts]
    dsimp only
    rw [if_pos h91, hip, parsePort_decimal]
    rfl

theorem fromSockaddr_toSockaddr (a : SocketAddr) : fromSockaddr (toSockaddr a) = some a := by
  cases a with
  | v4 ip port =>
    show some (SocketAddr.v4 _ (seg (hi port) (lo port))) = _
    rw [from4_octets4, seg_hi_lo]
  | v6 ip port flowinfo scopeId =>
    show some (SocketAddr.v6 _ (seg (hi port) (lo port)) _ _) = _
    rw [from4_octets4, from4_octets4, seg_hi_lo, fromSegments_eq]

/-- **Socket address text.**  What is printed is read, what is stored is loaded, and each of the parsers accepts only the
text of an address exactly for the texts of which nothing is cut. -/
theorem addr_exact (net : Inet) :
    (∀ a, parse net (toText net a) = .ok (bare a) ∧ fromSockaddr (toSockaddr a) = some a) ∧
      (∀ s, ((∃ a, parseIpv4 net s = .ok a) → IsText net.pton4 s) ↔ ¬CutTo net.pton4 15 s) ∧
      (∀ s, ((∃ a, parseIpv6 net s = .ok a) → IsText net.pton6 s) ↔ ¬CutTo net.pton6 47 s) ∧
      ∀ s, ((∃ a, parse net s = .ok a) → IsSocketText net s) ↔ ¬CutApart net s := by
  refine ⟨fun a => ⟨parse_toText a, fromSockaddr_toSockaddr a⟩, fun s => ?_, fun s => ?_, fun s => isSocketText_iff⟩
  · rw [parseIpv4_ok]
    exact isText_iff fun t a ht => (net.text4 t a ht).2.1
  · rw [parseIpv6_ok]
    exact isText_iff fun t a ht => le_trans (net.text6 t a ht).2.1 (by decide)

/-! ### A text that is cut -/

/-- What `f` prints is read. -/
noncomputable def unprint {A : Type} (f : A → Bytes) (t : Bytes) : Option A :=
  open Classical in if h : ∃ a, f a = t then some h.choose else none

theorem unprint_eq_some {f : A → Bytes} (hf : Function.Injective f) {a : A} : unprint f t = some a ↔ f a = t := by
  unfold unprint
  split_ifs with h
  · rw [Option.some.injEq]
    exact ⟨fun ha => ha ▸ h.choose_spec, fun ha => hf (h.choose_spec.trans ha.symm)⟩
  · exact iff_of_false nofun fun ha => h ⟨a, ha⟩

theorem dot_not_mem (b : UInt8) : 46 ∉ decimal b.toNat := fun h => absurd (isDigit_of_mem_decimal h) (by decide)

theorem decimal_inj {a b : UInt8} (h : decimal a.toNat = decimal b.toNat) : a = b := by
  have := congrArg number h
  rwa [number_decimal, number_decimal, UInt8.toNat_inj] at this

/-- a.b.c.d. -/
def dotted (a : Octets4) : Bytes :=
  decimal a.1.toNat ++ 46 :: (decimal a.2.1.toNat ++ 46 :: (decimal a.2.2.1.toNat ++ 46 :: decimal a.2.2.2.toNat))

theorem dotted_injective : Function.Injective dotted := by
  have hcut : ∀ {a b : UInt8} {l m : Bytes}, decimal a.toNat ++ 46 :: l = decimal b.toNat ++ 46 :: m → a = b ∧ l = m := by
    intro a b l m h
    have ha := (cut_eq_some (a := decimal a.toNat) (b := l)).2 ⟨rfl, dot_not_mem a⟩
    have hb := (cut_eq_some (a := decimal b.toNat) (b := m)).2 ⟨rfl, dot_not_mem b⟩
    rw [h, hb] at ha
    obtain ⟨h1, h2⟩ := Prod.mk.inj (Option.some.inj ha)
    exact ⟨(decimal_inj h1).symm, h2.symm⟩
  rintro ⟨a, b, c, d⟩ ⟨a', b', c', d'⟩ h
  obtain ⟨rfl, h⟩ := hcut h
  obtain ⟨rfl, h⟩ := hcut h
  obtain ⟨rfl, h⟩ := hcut h
  obtain rfl := decimal_inj h
  rfl

/-- Two hexadecimal digits. -/
def hexPair (b : UInt8) : Bytes :=
  [b >>> 4, b &&& 15].map fun d => if d < 10 then 48 + d else 87 + d

theorem hexDigit_hexPair (b : UInt8) : (hexPair b).map hexDigit = [some (b.toNat / 16), some (b.toNat % 16)] := by
  have key : ∀ n < 256, (hexPair (UInt8.ofNat n)).map hexDigit = [some (n / 16), some (n % 16)] := by decide +kernel
  have h := key b.toNat b.toNat_lt
  rwa [UInt8.ofNat_toNat] at h

theorem hexPair_injective : Function.Injective hexPair := by
  intro a b h
  have h' := hexDigit_hexPair a
  rw [h, hexDigit_hexPair] at h'
  simp only [cons.injEq, Option.some.injEq] at h'
  exact UInt8.toNat_inj.1 (by omega)

/-- The digits of an IPv6 address, without colons. -/
def hexText (a : Ipv6Addr) : Bytes := a.octets.flatMap hexPair

theorem hexText_injective : Function.Injective hexText := by
  have hmap : ∀ l m : Bytes, l.flatMap hexPair = m.flatMap hexPair → l = m := by
    intro l
    induction l with
    | nil =>
      rintro (_ | ⟨c, m⟩) h
      · rfl
      · exact nomatch h
    | cons b l ih =>
      rintro (_ | ⟨c, m⟩) h
      · exact nomatch h
      · rw [flatMap_cons, flatMap_cons] at h
        obtain ⟨hbc, hlm⟩ := append_inj h rfl
        rw [hexPair_injective hbc, ih m hlm]
  rintro ⟨l, hl⟩ ⟨m, hm⟩ h
  obtain rfl := hmap l m h
  rfl

/-- `Inet` as far as IPv4 goes; its IPv6 texts have digits only. -/
noncomputable def digitsInet : Inet where
  pton4 := unprint dotted
  ntop4 := dotted
  pton6 := unprint hexText
  ntop6 := hexText
  pton4_ntop4 a := (unprint_eq_some dotted_injective).2 rfl
  pton6_ntop6 a := (unprint_eq_some hexText_injective).2 rfl
  text4 t a h := by
    obtain rfl := (unprint_eq_some dotted_injective).1 h
    have hlen : ∀ b : UInt8, (decimal b.toNat).length ≤ 3 := fun b =>
      (length_decimal_le_iff (by decide)).2 (by have := b.toNat_lt; omega)
    have h1 := hlen a.1
    have h2 := hlen a.2.1
    have h3 := hlen a.2.2.1
    have h4 := hlen a.2.2.2
    refine ⟨by simp [dotted], by simp [dotted]; omega, fun c hc => ?_⟩
    simp only [dotted, mem_append, mem_cons] at hc
    rcases hc with hc | rfl | hc | rfl | hc | rfl | hc
    all_goals first | exact .inl rfl | exact .inr (isDigit_of_mem_decimal hc)
  text6 t a h := by
    obtain rfl := (unprint_eq_some hexText_injective).1 h
    have hlen : (hexText a).length = 32 := by
      unfold hexText
      rw [length_flatMap]
      have : a.octets.map (fun b => (hexPair b).length) = replicate a.octets.length 2 := by
        rw [← map_const']
        rfl
      rw [this, a.length]
      rfl
    refine ⟨fun h => by rw [h] at hlen; exact absurd hlen (by decide), by omega, fun c hc => .inr (.inr ?_)⟩
    obtain ⟨b, -, hc⟩ := mem_flatMap.1 hc
    have hmem := mem_map_of_mem (f := hexDigit) hc
    rw [hexDigit_hexPair] at hmem
    rcases mem_cons.1 hmem with h | h
    · rw [h]
      rfl
    · rw [mem_singleton.1 h]
      rfl

/-- `100.100.100.1000` is read as an address: the buffer has room for 15 characters of it. -/
theorem not_isText_cut : ¬((∃ a, parseIpv4 digitsInet (dotted (100, 100, 100, 100) ++ [48]) = .ok a) →
    IsText digitsInet.pton4 (dotted (100, 100, 100, 100) ++ [48])) := by
  have hcut : (cstr ((dotted (100, 100, 100, 100) ++ [48]).take 15)).bytes = dotted (100, 100, 100, 100) := by decide +kernel
  intro h
  have hread : digitsInet.pton4 (dotted (100, 100, 100, 100)) = some (100, 100, 100, 100) := digitsInet.pton4_ntop4 _
  have htext := h (parseIpv4_ok.2 (by rw [hcut, hread]; rfl))
  obtain ⟨a, ha⟩ := Option.isSome_iff_exists.1 htext.2
  exact absurd (digitsInet.text4 _ a ha).2.1 (by decide +kernel)

end Libx.Xpp
