import Libx.Agent.Message
import Libx.Core.Circular
import Libx.Core.Refine

/-!
# Libx.Buf.Buffer — the linear buffer

buf/buf.c with its sizes as they are, modulo 2^64; the memory behind the struct is a function of the offset, and the
allocator answers each call.
-/

namespace Libx.Buf

open Libx.Agent (Errno)
open Libx.Core (blit places)
open List

/-- `xBuffer_`; `size` is what the last `malloc` or `realloc` that succeeded was asked for. -/
structure Buffer where
  rpos : UInt64
  wpos : UInt64
  cap : UInt64
  data : ℕ → UInt8
  size : UInt64

/-- A C string without its NUL, in an address space of 2^64 bytes. -/
structure Str where
  bytes : List UInt8
  noNul : 0 ∉ bytes
  short : bytes.length < 2 ^ 64

namespace Buffer

/-- `SIZE_MAX`. -/
def sizeMax : UInt64 := 0xFFFFFFFFFFFFFFFF

/-- `sizeof(xBuffer_)`. -/
def header : UInt64 := 24

/-- `BUF_MIN_CAP`. -/
def bufMinCap : UInt64 := 64

theorem toNat_twice {cap needed : UInt64} (h : cap < needed) (hn : needed.toNat < 2 ^ 63) :
    (cap * 2).toNat = cap.toNat * 2 := by
  rw [UInt64.lt_iff_toNat_lt] at h
  rw [UInt64.toNat_mul]
  exact Nat.mod_eq_of_lt (by
    show cap.toNat * 2 < 2 ^ 64
    omega)

/-- The loop of `buf_next_cap`. -/
def doubled (needed : UInt64) (hn : needed.toNat < 2 ^ 63) (cap : UInt64) (hc : 0 < cap.toNat) : UInt64 :=
  if h : cap < needed then doubled needed hn (cap * 2) (by rw [toNat_twice h hn]; omega) else cap
termination_by needed.toNat - cap.toNat
decreasing_by
  rw [toNat_twice h hn]
  rw [UInt64.lt_iff_toNat_lt] at h
  omega

def firstCap (current : UInt64) : UInt64 := if current ≠ 0 then current else bufMinCap

theorem firstCap_pos (current : UInt64) : 0 < (firstCap current).toNat := by
  unfold firstCap
  split_ifs with h
  · exact Nat.pos_of_ne_zero fun h0 => h (UInt64.toNat_inj.1 h0)
  · decide

theorem lt_of_not_half {needed : UInt64} (h : ¬sizeMax / 2 < needed) : needed.toNat < 2 ^ 63 :=
  Nat.lt_of_le_of_lt (UInt64.le_iff_toNat_le.1 (UInt64.not_lt.1 h)) (by decide)

/-- `buf_next_cap`. -/
def nextCap (current needed : UInt64) : UInt64 :=
  if h : sizeMax / 2 < needed then sizeMax
  else doubled needed (lt_of_not_half h) (firstCap current) (firstCap_pos current)

/-- `xBufferLen`. -/
def len (b : Buffer) : UInt64 := b.wpos - b.rpos

/-- `xBufferWritable`. -/
def writable (b : Buffer) : UInt64 := b.cap - b.wpos

/-- The unread bytes go to the front; a `memmove` of none does nothing. -/
def slide (b : Buffer) : Buffer :=
  { b with data := blit b.data 0 (fun j => b.data (b.rpos.toNat + j)) b.len.toNat, rpos := 0, wpos := b.len }

/-- `realloc`: what fits in both sizes stays, and what is `fresh` is whatever the memory holds. -/
def realloc (size : UInt64) (fresh : ℕ → UInt8) (b : Buffer) : Buffer :=
  { b with
    data := fun i => if header.toNat + i < min b.size.toNat size.toNat then b.data i else fresh i
    size }

/-- `buf_grow`; `mem` is what `realloc` answers. -/
def grow (needed : UInt64) (mem : Option (ℕ → UInt8)) (b : Buffer) : Errno × Buffer :=
  if needed ≤ b.cap then (.ok, b)
  else if 0 < b.rpos ∧ b.len + needed ≤ b.cap then (.ok, b.slide)
  else
    match mem with
    | none => (.noMemory, b)
    | some fresh =>
      let newcap := nextCap b.cap needed
      (.ok, { b.realloc (header + newcap) fresh with cap := newcap })

/-- `xBufferCreate`. -/
def create (initialCap : UInt64) (mem : Option (ℕ → UInt8)) : Option Buffer :=
  let initialCap := if initialCap = 0 then bufMinCap else initialCap
  mem.map fun data => { rpos := 0, wpos := 0, cap := initialCap, data, size := header + initialCap }

/-- `xBufferReset`. -/
def reset (b : Buffer) : Buffer := { b with rpos := 0, wpos := 0 }

/-- `xBufferAppend` of the `len` bytes from `src` on. -/
def append (src : ℕ → UInt8) (len : UInt64) (mem : Option (ℕ → UInt8)) (b : Buffer) : Errno × Buffer :=
  if len = 0 then (.ok, b)
  else
    match b.grow (b.wpos + len) mem with
    | (.ok, b) => (.ok, { b with data := blit b.data b.wpos.toNat src len.toNat, wpos := b.wpos + len })
    | (err, _) => (err, b)

/-- `strlen`. -/
def strlen (str : Str) : UInt64 := UInt64.ofNat str.bytes.length

/-- `xBufferAppendStr`. -/
def appendStr (str : Str) (mem : Option (ℕ → UInt8)) (b : Buffer) : Errno × Buffer :=
  b.append (fun j => str.bytes.getD j 0) (strlen str) mem

/-- `xBufferCompact`. -/
def compact (b : Buffer) : Buffer := if b.rpos = 0 then b else b.slide

/-- `xBufferReserve`. -/
def reserve (additional : UInt64) (mem : Option (ℕ → UInt8)) (b : Buffer) : Errno × Buffer :=
  b.compact.grow (b.compact.wpos + additional) mem

/-- `xBufferConsume`. -/
def consume (n : UInt64) (b : Buffer) : Buffer :=
  if b.len ≤ n then { b with rpos := 0, wpos := 0 } else { b with rpos := b.rpos + n }

/-- The first lines of `xBufferReadFd`. -/
def ready (mem : Option (ℕ → UInt8)) (b : Buffer) : Errno × Buffer :=
  if b.writable < 4096 then b.reserve 4096 mem else (.ok, b)

/-- `xBufferReadFd`; `answer` is the number of bytes from `src` on that are to be had, if there is no error. -/
def readFd (src : ℕ → UInt8) (answer : Option ℕ) (mem : Option (ℕ → UInt8)) (b : Buffer) : ℤ × Buffer :=
  match b.ready mem with
  | (.ok, b) =>
    match answer with
    | none => (-1, b)
    | some k =>
      let n := min k b.writable.toNat
      (n, { b with data := blit b.data b.wpos.toNat src n, wpos := b.wpos + UInt64.ofNat n })
  | (_, b) => (-1, b)

def unread (b : Buffer) : List UInt8 := (places (b.rpos.toNat, b.len.toNat)).map b.data

/-- `xBufferWriteFd`, with the bytes that `write` has taken; `answer` is the number of bytes that there is room for, if
there is no error. -/
def writeFd (answer : Option ℕ) (b : Buffer) : (ℤ × List UInt8) × Buffer :=
  if b.len = 0 then ((0, []), b)
  else
    match answer with
    | none => ((-1, []), b)
    | some k =>
      let n := min k b.len.toNat
      ((n, b.unread.take n), if 0 < n then b.consume (UInt64.ofNat n) else b)

end Buffer

/-- A call, with what the allocator answers in it. -/
inductive BufferOp
  | append (src : ℕ → UInt8) (len : UInt64) (mem : Option (ℕ → UInt8))
  | appendStr (str : Str) (mem : Option (ℕ → UInt8))
  | reserve (additional : UInt64) (mem : Option (ℕ → UInt8))
  | consume (n : UInt64)
  | compact
  | reset
  | readFd (src : ℕ → UInt8) (answer : Option ℕ) (mem : Option (ℕ → UInt8))
  | writeFd (answer : Option ℕ)

/-- What a call returns, with the room there was when bytes were to be copied, and the bytes that it hands out. -/
inductive BufferResult
  | grown (err : Errno) (room : UInt64)
  | received (n : ℤ) (err : Errno) (room : UInt64)
  | sent (n : ℤ) (out : List UInt8)
  | none

namespace Buffer

def room (b : Buffer) (len : UInt64) (mem : Option (ℕ → UInt8)) : UInt64 :=
  if len = 0 then b.writable else (b.grow (b.wpos + len) mem).2.writable

def step (b : Buffer) : BufferOp → BufferResult × Buffer
  | .append src len mem => (.grown (b.append src len mem).1 (b.room len mem), (b.append src len mem).2)
  | .appendStr str mem => (.grown (b.appendStr str mem).1 (b.room (strlen str) mem), (b.appendStr str mem).2)
  | .reserve additional mem =>
    (.grown (b.reserve additional mem).1 (b.reserve additional mem).2.writable, (b.reserve additional mem).2)
  | .consume n => (.none, b.consume n)
  | .compact => (.none, b.compact)
  | .reset => (.none, b.reset)
  | .readFd src answer mem =>
    (.received (b.readFd src answer mem).1 (b.ready mem).1 (b.ready mem).2.writable, (b.readFd src answer mem).2)
  | .writeFd answer => (.sent (b.writeFd answer).1.1 (b.writeFd answer).1.2, (b.writeFd answer).2)

/-! ### What it is for -/

/-- `len` bytes more in the queue, where there was room for them, or no change. -/
def Grows (q : List UInt8) (src : ℕ → UInt8) (len : UInt64) (r : BufferResult) (q' : List UInt8) : Prop :=
  ∃ err room, r = .grown err room ∧
    if err = .ok then len ≤ room ∧ q' = q ++ (List.range len.toNat).map src else q' = q

def Spec (q : List UInt8) : BufferOp → BufferResult → List UInt8 → Prop
  | .append src len _, r, q' => Grows q src len r q'
  | .appendStr str _, r, q' => Grows q (fun j => str.bytes.getD j 0) (strlen str) r q'
  | .reserve additional _, r, q' => (∃ err room, r = .grown err room ∧ (err = .ok → additional ≤ room)) ∧ q' = q
  | .consume n, _, q' => q' = q.drop n.toNat
  | .compact, _, q' => q' = q
  | .reset, _, q' => q' = []
  | .readFd src answer _, r, q' => ∃ n err room, r = .received n err room ∧
      match err, answer with
      | .ok, some k => 4096 ≤ room ∧ n = (min k room.toNat : ℕ) ∧ q' = q ++ (List.range (min k room.toNat)).map src
      | .ok, none => 4096 ≤ room ∧ n = -1 ∧ q' = q
      | _, _ => n = -1 ∧ q' = q
  | .writeFd answer, r, q' =>
      match answer with
      | none => q' = q
      | some k => r = .sent (min k q.length : ℕ) (q.take k) ∧ q' = q.drop k

/-- **The buffer holds the queue.** -/
structure Holds (b : Buffer) (q : List UInt8) : Prop where
  read : b.rpos ≤ b.wpos
  written : b.wpos ≤ b.cap
  allocated : header.toNat + b.cap.toNat ≤ b.size.toNat
  unread : b.unread = q

/-- The sums of a growth by `n` do not wrap: not the size that is needed; not its sum with the unread bytes, or these
have room in front after all; and not the size of the allocation, where it succeeds. -/
def Fits (b : Buffer) (n : UInt64) (mem : Option (ℕ → UInt8)) : Prop :=
  b.wpos.toNat + n.toNat < 2 ^ 64 ∧
    (b.cap.toNat < b.wpos.toNat + n.toNat →
      if 0 < b.rpos ∧ 2 ^ 64 ≤ b.len.toNat + (b.wpos.toNat + n.toNat) then b.len.toNat + n.toNat ≤ b.cap.toNat
      else mem.isSome = true → nextCap b.cap (b.wpos + n) ≤ sizeMax - header)

def Admitted (b : Buffer) : BufferOp → Prop
  | .append _ len mem => len ≠ 0 → b.Fits len mem
  | .appendStr str mem => strlen str ≠ 0 → b.Fits (strlen str) mem
  | .reserve additional mem => b.compact.Fits additional mem
  | .readFd _ _ mem => b.writable < 4096 → b.compact.Fits 4096 mem
  | .consume _ | .compact | .reset | .writeFd _ => True

instance (b : Buffer) (n : UInt64) (mem : Option (ℕ → UInt8)) : Decidable (b.Fits n mem) :=
  inferInstanceAs (Decidable (b.wpos.toNat + n.toNat < 2 ^ 64 ∧
    (b.cap.toNat < b.wpos.toNat + n.toNat →
      if 0 < b.rpos ∧ 2 ^ 64 ≤ b.len.toNat + (b.wpos.toNat + n.toNat) then b.len.toNat + n.toNat ≤ b.cap.toNat
      else mem.isSome = true → nextCap b.cap (b.wpos + n) ≤ sizeMax - header)))

instance (b : Buffer) : (m : BufferOp) → Decidable (b.Admitted m)
  | .append _ len mem => inferInstanceAs (Decidable (len ≠ 0 → b.Fits len mem))
  | .appendStr str mem => inferInstanceAs (Decidable (strlen str ≠ 0 → b.Fits (strlen str) mem))
  | .reserve additional mem => inferInstanceAs (Decidable (b.compact.Fits additional mem))
  | .readFd _ _ mem => inferInstanceAs (Decidable (b.writable < 4096 → b.compact.Fits 4096 mem))
  | .consume _ | .compact | .reset | .writeFd _ => .isTrue trivial

/-! ### The growth -/

variable {b : Buffer} {q : List UInt8} {n : UInt64} {mem : Option (ℕ → UInt8)} {src : ℕ → UInt8}

theorem le_doubled (needed : UInt64) (hn : needed.toNat < 2 ^ 63) (cap : UInt64) (hc : 0 < cap.toNat) :
    needed ≤ doubled needed hn cap hc := by
  induction cap, hc using doubled.induct needed hn with
  | case1 cap hc h ih =>
    rw [doubled, dif_pos h]
    exact ih
  | case2 cap hc h =>
    rw [doubled, dif_neg h]
    exact UInt64.not_lt.1 h

theorem le_nextCap (current needed : UInt64) : needed ≤ nextCap current needed := by
  unfold nextCap
  split_ifs with h
  · exact UInt64.le_iff_toNat_le.2 (Nat.le_of_lt_succ needed.toNat_lt)
  · exact le_doubled needed _ _ _

theorem unread_eq (b : Buffer) : b.unread = (List.range b.len.toNat).map fun j => b.data (b.rpos.toNat + j) := by
  unfold unread places
  rw [map_map]
  rfl

theorem unread_nil (h : b.len = 0) : b.unread = [] := by
  rw [unread_eq, h]
  rfl

theorem Holds.toNat_len (h : b.Holds q) : b.len.toNat = b.wpos.toNat - b.rpos.toNat :=
  UInt64.toNat_sub_of_le _ _ h.read

theorem Holds.toNat_writable (h : b.Holds q) : b.writable.toNat = b.cap.toNat - b.wpos.toNat :=
  UInt64.toNat_sub_of_le _ _ h.written

theorem Holds.length (h : b.Holds q) : q.length = b.len.toNat := by
  rw [← h.unread, unread_eq, length_map, length_range]

theorem Holds.slide (h : b.Holds q) : b.slide.Holds q := by
  have hlen := h.toNat_len
  have hwritten := UInt64.le_iff_toNat_le.1 h.written
  have hlen' : b.slide.len = b.len := UInt64.sub_zero _
  refine ⟨UInt64.le_iff_toNat_le.2 (Nat.zero_le _), UInt64.le_iff_toNat_le.2 ?_, h.allocated, ?_⟩
  · show b.len.toNat ≤ b.cap.toNat
    omega
  · rw [← h.unread, unread_eq, unread_eq, hlen']
    refine map_congr_left fun j hj => ?_
    have hj := mem_range.1 hj
    show blit b.data 0 (fun j => b.data (b.rpos.toNat + j)) b.len.toNat ((0 : UInt64).toNat + j) = _
    unfold blit
    rw [UInt64.toNat_zero, Nat.zero_add, Nat.zero_add, if_pos ⟨Nat.zero_le _, hj⟩, Nat.sub_zero]

theorem Holds.compact (h : b.Holds q) : b.compact.Holds q := by
  unfold Buffer.compact
  split_ifs
  · exact h
  · exact h.slide

theorem Holds.realloc (h : b.Holds q) {newcap : UInt64} (fresh : ℕ → UInt8) (hsize : newcap ≤ sizeMax - header)
    (hcap : b.wpos ≤ newcap) : Holds { b.realloc (header + newcap) fresh with cap := newcap } q := by
  have hallocated := h.allocated
  have hwritten := UInt64.le_iff_toNat_le.1 h.written
  have hlen := h.toNat_len
  rw [UInt64.le_iff_toNat_le] at hcap hsize
  have hmax : (sizeMax - header).toNat = 2 ^ 64 - 25 := rfl
  have hheader : header.toNat = 24 := rfl
  have hsum : (header + newcap).toNat = header.toNat + newcap.toNat := by
    rw [UInt64.toNat_add]
    exact Nat.mod_eq_of_lt (by omega)
  refine ⟨h.read, UInt64.le_iff_toNat_le.2 hcap, hsum.ge, ?_⟩
  rw [← h.unread, unread_eq, unread_eq]
  refine map_congr_left fun j hj => ?_
  have hj : j < b.len.toNat := mem_range.1 hj
  exact if_pos (by rw [hsum]; show header.toNat + (b.rpos.toNat + j) < _; omega)

theorem Holds.grow (h : b.Holds q) (hf : b.Fits n mem) :
    (b.grow (b.wpos + n) mem).2.Holds q ∧
      ((b.grow (b.wpos + n) mem).1 = .ok → n ≤ (b.grow (b.wpos + n) mem).2.writable) := by
  obtain ⟨hwrap, hf⟩ := hf
  have hneeded : (b.wpos + n).toNat = b.wpos.toNat + n.toNat := by
    rw [UInt64.toNat_add]
    exact Nat.mod_eq_of_lt hwrap
  have hwritten := UInt64.le_iff_toNat_le.1 h.written
  have hlen := h.toNat_len
  unfold Buffer.grow
  by_cases hroom : b.wpos + n ≤ b.cap
  · rw [if_pos hroom]
    refine ⟨h, fun _ => ?_⟩
    rw [UInt64.le_iff_toNat_le] at hroom
    show n ≤ b.writable
    rw [UInt64.le_iff_toNat_le, h.toNat_writable]
    omega
  rw [if_neg hroom]
  rw [UInt64.le_iff_toNat_le, hneeded] at hroom
  have hf := hf (by omega)
  by_cases hslide : 0 < b.rpos ∧ b.len + (b.wpos + n) ≤ b.cap
  · rw [if_pos hslide]
    -- the sum with the unread bytes is no more than the capacity only when it wraps
    have hover : 2 ^ 64 ≤ b.len.toNat + (b.wpos.toNat + n.toNat) := by
      by_contra hno
      have hsum := UInt64.le_iff_toNat_le.1 hslide.2
      rw [UInt64.toNat_add, hneeded, Nat.mod_eq_of_lt (by omega)] at hsum
      omega
    rw [if_pos ⟨hslide.1, hover⟩] at hf
    refine ⟨h.slide, fun _ => ?_⟩
    show n ≤ b.slide.writable
    rw [UInt64.le_iff_toNat_le, h.slide.toNat_writable]
    show n.toNat ≤ b.cap.toNat - b.len.toNat
    omega
  rw [if_neg hslide]
  have hover : ¬(0 < b.rpos ∧ 2 ^ 64 ≤ b.len.toNat + (b.wpos.toNat + n.toNat)) := by
    rintro ⟨hpos, hover⟩
    refine hslide ⟨hpos, UInt64.le_iff_toNat_le.2 ?_⟩
    rw [UInt64.toNat_add, hneeded, Nat.mod_eq_sub_mod hover, Nat.mod_eq_of_lt (by omega)]
    omega
  rw [if_neg hover] at hf
  cases mem with
  | none => exact ⟨h, fun he => Errno.noConfusion he⟩
  | some fresh =>
    have hnext := le_nextCap b.cap (b.wpos + n)
    have hle : b.wpos ≤ nextCap b.cap (b.wpos + n) := by
      rw [UInt64.le_iff_toNat_le] at hnext ⊢
      omega
    have hgrown := h.realloc fresh (hf rfl) hle
    refine ⟨hgrown, fun _ => ?_⟩
    rw [UInt64.le_iff_toNat_le] at hnext ⊢
    rw [hgrown.toNat_writable]
    show n.toNat ≤ (nextCap b.cap (b.wpos + n)).toNat - b.wpos.toNat
    omega

/-! ### The calls -/

theorem Holds.push (h : b.Holds q) (src : ℕ → UInt8) (hn : n ≤ b.writable) :
    Holds { b with data := blit b.data b.wpos.toNat src n.toNat, wpos := b.wpos + n }
      (q ++ (List.range n.toNat).map src) := by
  have hread := UInt64.le_iff_toNat_le.1 h.read
  have hwritten := UInt64.le_iff_toNat_le.1 h.written
  have hcap := b.cap.toNat_lt
  have hlen := h.toNat_len
  rw [UInt64.le_iff_toNat_le, h.toNat_writable] at hn
  have hsum : (b.wpos + n).toNat = b.wpos.toNat + n.toNat := by
    rw [UInt64.toNat_add]
    exact Nat.mod_eq_of_lt (by omega)
  have hlen' : (b.wpos + n - b.rpos).toNat = b.len.toNat + n.toNat := by
    rw [UInt64.toNat_sub_of_le _ _ (UInt64.le_iff_toNat_le.2 (by omega)), hsum]
    omega
  have hread' : b.rpos ≤ b.wpos + n := UInt64.le_iff_toNat_le.2 (by omega)
  have hwritten' : b.wpos + n ≤ b.cap := UInt64.le_iff_toNat_le.2 (by omega)
  refine ⟨hread', hwritten', h.allocated, ?_⟩
  rw [← h.unread, unread_eq, unread_eq]
  unfold Buffer.len at hlen' ⊢
  dsimp only
  rw [hlen', range_add, map_append, map_map]
  refine congrArg₂ _ ?_ ?_
  · refine map_congr_left fun j hj => ?_
    have hj : j < b.len.toNat := mem_range.1 hj
    exact if_neg (by omega)
  · refine map_congr_left fun j hj => ?_
    have hj := mem_range.1 hj
    have hplace : b.rpos.toNat + ((b.wpos - b.rpos).toNat + j) = b.wpos.toNat + j := by
      have : b.len.toNat + b.rpos.toNat = b.wpos.toNat := by omega
      unfold Buffer.len at this
      omega
    show blit _ _ _ _ (b.rpos.toNat + ((b.wpos - b.rpos).toNat + j)) = _
    rw [hplace]
    unfold blit
    rw [if_pos (by omega), Nat.add_sub_cancel_left]

theorem Holds.reset (h : b.Holds q) : b.reset.Holds [] :=
  ⟨UInt64.le_refl _, UInt64.le_iff_toNat_le.2 (Nat.zero_le _), h.allocated, unread_nil (UInt64.sub_self 0)⟩

theorem Holds.consume (h : b.Holds q) (n : UInt64) : (b.consume n).Holds (q.drop n.toNat) := by
  have hlen := h.toNat_len
  have hwritten := UInt64.le_iff_toNat_le.1 h.written
  have hcap := b.cap.toNat_lt
  unfold Buffer.consume
  by_cases hall : b.len ≤ n
  · have hdrop : q.drop n.toNat = [] := drop_eq_nil_of_le (by
      rw [h.length]
      exact UInt64.le_iff_toNat_le.1 hall)
    rw [if_pos hall, hdrop]
    exact h.reset
  rw [if_neg hall]
  rw [UInt64.le_iff_toNat_le] at hall
  have hsum : (b.rpos + n).toNat = b.rpos.toNat + n.toNat := by
    rw [UInt64.toNat_add]
    exact Nat.mod_eq_of_lt (by omega)
  have hle : b.rpos + n ≤ b.wpos := UInt64.le_iff_toNat_le.2 (by omega)
  have hlen' : (b.wpos - (b.rpos + n)).toNat = b.len.toNat - n.toNat := by
    rw [UInt64.toNat_sub_of_le _ _ hle, hsum]
    omega
  refine ⟨hle, h.written, h.allocated, ?_⟩
  have hsplit : List.range b.len.toNat = List.range n.toNat ++ (List.range (b.len.toNat - n.toNat)).map (n.toNat + ·) := by
    rw [← range_add, Nat.add_sub_cancel' (by omega)]
  rw [← h.unread, unread_eq, unread_eq, hsplit, map_append, drop_left' (by simp), map_map]
  unfold Buffer.len at hlen' ⊢
  rw [hlen']
  refine map_congr_left fun j _ => ?_
  rw [hsum, Nat.add_assoc]
  rfl

theorem Holds.append (h : b.Holds q) (hf : n ≠ 0 → b.Fits n mem) :
    ∃ q', Grows q src n (.grown (b.append src n mem).1 (b.room n mem)) q' ∧ (b.append src n mem).2.Holds q' := by
  unfold Buffer.append room
  by_cases h0 : n = 0
  · subst h0
    rw [if_pos rfl, if_pos rfl]
    refine ⟨q, ⟨_, _, rfl, ?_⟩, h⟩
    rw [if_pos rfl]
    exact ⟨UInt64.le_iff_toNat_le.2 (Nat.zero_le _), (List.append_nil q).symm⟩
  rw [if_neg h0, if_neg h0]
  obtain ⟨hgrown, hok⟩ := h.grow (hf h0)
  generalize b.grow (b.wpos + n) mem = g at hgrown hok ⊢
  obtain ⟨err, b'⟩ := g
  cases err with
  | ok => exact ⟨_, ⟨_, _, rfl, by rw [if_pos rfl]; exact ⟨hok rfl, rfl⟩⟩, hgrown.push src (hok rfl)⟩
  | _ => exact ⟨q, ⟨_, _, rfl, (rfl : q = q)⟩, h⟩

theorem Holds.ready (h : b.Holds q) (hf : b.writable < 4096 → b.compact.Fits 4096 mem) :
    (b.ready mem).2.Holds q ∧ ((b.ready mem).1 = .ok → 4096 ≤ (b.ready mem).2.writable) := by
  unfold Buffer.ready
  by_cases hroom : b.writable < 4096
  · rw [if_pos hroom]
    exact h.compact.grow (hf hroom)
  · rw [if_neg hroom]
    exact ⟨h, fun _ => UInt64.not_lt.1 hroom⟩

theorem Holds.readFd (h : b.Holds q) (src : ℕ → UInt8) (answer : Option ℕ)
    (hf : b.writable < 4096 → b.compact.Fits 4096 mem) :
    ∃ q', Spec q (.readFd src answer mem)
      (.received (b.readFd src answer mem).1 (b.ready mem).1 (b.ready mem).2.writable) q' ∧
        (b.readFd src answer mem).2.Holds q' := by
  unfold Buffer.readFd
  obtain ⟨hready, hok⟩ := h.ready hf
  generalize b.ready mem = g at hready hok ⊢
  obtain ⟨err, b'⟩ := g
  cases err with
  | ok =>
    cases answer with
    | none => exact ⟨q, ⟨_, _, _, rfl, hok rfl, rfl, rfl⟩, hready⟩
    | some k =>
      have hmin : (UInt64.ofNat (min k b'.writable.toNat)).toNat = min k b'.writable.toNat := by
        have := b'.writable.toNat_lt
        rw [UInt64.toNat_ofNat']
        exact Nat.mod_eq_of_lt (by omega)
      have hpush := hready.push src (n := UInt64.ofNat (min k b'.writable.toNat))
        (by rw [UInt64.le_iff_toNat_le, hmin]; exact Nat.min_le_right _ _)
      rw [hmin] at hpush
      exact ⟨_, ⟨_, _, _, rfl, hok rfl, rfl, rfl⟩, hpush⟩
  | _ => exact ⟨q, ⟨_, _, _, rfl, rfl, rfl⟩, hready⟩

theorem Holds.writeFd (h : b.Holds q) (answer : Option ℕ) :
    ∃ q', Spec q (.writeFd answer) (.sent (b.writeFd answer).1.1 (b.writeFd answer).1.2) q' ∧
      (b.writeFd answer).2.Holds q' := by
  have hlength := h.length
  unfold Buffer.writeFd
  by_cases h0 : b.len = 0
  · have hq : q = [] := length_eq_zero_iff.1 (hlength.trans (by rw [h0]; rfl))
    rw [if_pos h0]
    cases answer with
    | none => exact ⟨q, rfl, h⟩
    | some k =>
      subst hq
      exact ⟨[], ⟨by rw [length_nil, Nat.min_zero, take_nil]; rfl, drop_nil.symm⟩, h⟩
  rw [if_neg h0]
  cases answer with
  | none => exact ⟨q, rfl, h⟩
  | some k =>
    have hmin : (UInt64.ofNat (min k b.len.toNat)).toNat = min k b.len.toNat := by
      have := b.len.toNat_lt
      rw [UInt64.toNat_ofNat']
      exact Nat.mod_eq_of_lt (by omega)
    have hdrop : q.drop k = q.drop (min k b.len.toNat) := by
      rw [← hlength, drop_eq_drop_min]
    refine ⟨q.drop k, ⟨?_, rfl⟩, ?_⟩
    · dsimp only
      rw [h.unread, ← hlength, ← take_eq_take_min]
    · dsimp only
      rw [hdrop]
      split_ifs with hn
      · have := h.consume (UInt64.ofNat (min k b.len.toNat))
        rwa [hmin] at this
      · rw [Nat.le_zero.1 (Nat.not_lt.1 hn), drop_zero]
        exact h

theorem Holds.step (h : b.Holds q) (m : BufferOp) (hm : b.Admitted m) :
    ∃ q', Spec q m (b.step m).1 q' ∧ (b.step m).2.Holds q' := by
  cases m with
  | append src len mem | appendStr str mem => exact h.append hm
  | reserve additional mem =>
    obtain ⟨hgrown, hok⟩ := h.compact.grow hm
    exact ⟨q, ⟨⟨_, _, rfl, hok⟩, rfl⟩, hgrown⟩
  | consume n => exact ⟨_, rfl, h.consume n⟩
  | compact => exact ⟨q, rfl, h.compact⟩
  | reset => exact ⟨[], rfl, h.reset⟩
  | readFd src answer mem => exact h.readFd src answer hm
  | writeFd answer => exact h.writeFd answer

theorem holds_create {initialCap : UInt64} (h : create initialCap mem = some b) (hcap : initialCap ≤ sizeMax - header) :
    b.Holds [] := by
  obtain ⟨data, -, rfl⟩ := Option.map_eq_some_iff.1 h
  have hcap' : (if initialCap = 0 then bufMinCap else initialCap) ≤ sizeMax - header := by
    split_ifs
    · decide
    · exact hcap
  generalize (if initialCap = 0 then bufMinCap else initialCap) = cap at hcap' ⊢
  rw [UInt64.le_iff_toNat_le] at hcap'
  have hmax : (sizeMax - header).toNat = 2 ^ 64 - 25 := rfl
  have hheader : header.toNat = 24 := rfl
  have hsum : (header + cap).toNat = header.toNat + cap.toNat := by
    rw [UInt64.toNat_add]
    exact Nat.mod_eq_of_lt (by omega)
  exact ⟨UInt64.le_refl _, UInt64.le_iff_toNat_le.2 (Nat.zero_le _), hsum.ge, unread_nil (UInt64.sub_self 0)⟩

/-- **A buffer is a byte queue and has the room it promises**, as long as its growths fit. -/
theorem faithful_of_calls {initialCap : UInt64} (h : create initialCap mem = some b) (hcap : initialCap ≤ sizeMax - header)
    (ms : List BufferOp) (hms : Core.Admits step Admitted b ms) :
    ∃ q, Core.Traces Spec [] ms (Core.exec step b ms).1 q ∧ (Core.exec step b ms).2.Holds q :=
  Core.Traces.of_exec (fun _ _ m hst hm => hst.step m hm) (holds_create h hcap) hms

/-- Bytes in, some out, and more than there is room for. -/
theorem faithful_of_calls_growth :
    ∃ b, create 0 (some fun _ => 0) = some b ∧ ∃ q,
      Core.Traces Spec []
        [.append (fun _ => 7) 60 none, .consume 50, .append (fun _ => 8) 100 (some fun _ => 0), .writeFd (some 20),
          .readFd (fun _ => 9) (some 3) (some fun _ => 0)]
        (Core.exec step b
          [.append (fun _ => 7) 60 none, .consume 50, .append (fun _ => 8) 100 (some fun _ => 0), .writeFd (some 20),
            .readFd (fun _ => 9) (some 3) (some fun _ => 0)]).1 q ∧
      (Core.exec step b
        [.append (fun _ => 7) 60 none, .consume 50, .append (fun _ => 8) 100 (some fun _ => 0), .writeFd (some 20),
          .readFd (fun _ => 9) (some 3) (some fun _ => 0)]).2.Holds q :=
  have hcreate : create 0 (some fun _ => 0) = some ⟨0, 0, 64, fun _ => 0, 88⟩ := rfl
  ⟨_, hcreate, faithful_of_calls hcreate (by decide) _ (by decide +kernel)⟩

/-- Ten bytes are unread, and `SIZE_MAX - 5` more are asked for: the sum wraps, and the call succeeds without room. -/
theorem not_faithful_wrap :
    ∃ b, create 0 (some fun _ => 0) = some b ∧ ¬∀ ms : List BufferOp,
      ∃ q, Core.Traces Spec [] ms (Core.exec step b ms).1 q ∧ (Core.exec step b ms).2.Holds q := by
  refine ⟨⟨0, 0, 64, fun _ => 0, 88⟩, rfl, fun hall => ?_⟩
  obtain ⟨q, htrace, -⟩ := hall [.append (fun _ => 7) 10 none, .reserve (sizeMax - 5) none]
  cases htrace with
  | cons _ htrace =>
    cases htrace with
    | cons hspec _ =>
      obtain ⟨⟨err, room, heq, hok⟩, -⟩ := hspec
      obtain ⟨rfl, rfl⟩ := BufferResult.grown.inj heq
      exact absurd (hok (by decide)) (by decide)

end Buffer

end Libx.Buf
