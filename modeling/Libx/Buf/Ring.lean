import Libx.Core.Circular
import Libx.Core.Refine

/-!
# Libx.Buf.Ring — the ring buffer

buf/ring.c with its cursors as they are, modulo 2^64; the memory behind the struct is a function of the offset.
-/

namespace Libx.Buf

open Libx.Core (blit slots places stretches wrapped)
open List

/-- `xRingBuffer_`. -/
structure Ring where
  cap : UInt64
  mask : UInt64
  head : UInt64
  tail : UInt64
  data : ℕ → UInt8

/-- `struct iovec`, with the offset into `data` for its base. -/
structure Iov where
  base : UInt64
  len : UInt64
  deriving DecidableEq

namespace Ring

/-- `SIZE_MAX`. -/
def sizeMax : UInt64 := 0xFFFFFFFFFFFFFFFF

/-- `next_pow2`. -/
def nextPow2 (v : UInt64) : UInt64 :=
  let v := if v < 16 then 16 else v
  if (sizeMax >>> 1) + 1 < v then (sizeMax >>> 1) + 1
  else
    let v := v - 1
    let v := v ||| v >>> 1
    let v := v ||| v >>> 2
    let v := v ||| v >>> 4
    let v := v ||| v >>> 8
    let v := v ||| v >>> 16
    let v := v ||| v >>> 32
    v + 1

/-- `xRingBufferCreate`; `mem` is what `malloc` answers, with what is in the memory. -/
def create (minCap : UInt64) (mem : Option (ℕ → UInt8)) : Option Ring :=
  if minCap = 0 then none
  else
    let cap := nextPow2 minCap
    mem.map fun data => { cap, mask := cap - 1, head := 0, tail := 0, data }

/-- `xRingBufferReset`. -/
def reset (r : Ring) : Ring := { r with head := 0, tail := 0 }

/-- `xRingBufferLen`. -/
def len (r : Ring) : UInt64 := r.head - r.tail

/-- `xRingBufferWritable`. -/
def writable (r : Ring) : UInt64 := r.cap - (r.head - r.tail)

/-- `xRingBufferWrite` of the `len` bytes from `src` on. -/
def write (src : ℕ → UInt8) (len : UInt64) (r : Ring) : UInt64 × Ring :=
  if len = 0 then (0, r)
  else
    let len := if r.writable < len then r.writable else len
    if len = 0 then (0, r)
    else
      let pos := r.head &&& r.mask
      let first := r.cap - pos
      let data :=
        if len ≤ first then blit r.data pos.toNat src len.toNat
        else
          blit (blit r.data pos.toNat src first.toNat) 0 (fun j => src (first.toNat + j)) (len - first).toNat
      (len, { r with data, head := r.head + len })

/-- `len` bytes of the memory from `pos` on. -/
def bytesAt (data : ℕ → UInt8) (pos len : UInt64) : List UInt8 := (places (pos.toNat, len.toNat)).map data

/-- `ring_copy_out`: the count, and the bytes at `out`. -/
def copyOut (len : UInt64) (r : Ring) : UInt64 × List UInt8 :=
  let len := if r.len < len then r.len else len
  if len = 0 then (0, [])
  else
    let pos := r.tail &&& r.mask
    let first := r.cap - pos
    if len ≤ first then (len, bytesAt r.data pos len)
    else (len, bytesAt r.data pos first ++ bytesAt r.data 0 (len - first))

/-- `xRingBufferRead`. -/
def read (len : UInt64) (r : Ring) : (UInt64 × List UInt8) × Ring :=
  (r.copyOut len, { r with tail := r.tail + (r.copyOut len).1 })

/-- `xRingBufferPeek`. -/
def peek (len : UInt64) (r : Ring) : UInt64 × List UInt8 := r.copyOut len

/-- `xRingBufferDiscard`. -/
def discard (n : UInt64) (r : Ring) : UInt64 × Ring :=
  let n := if r.len < n then r.len else n
  (n, { r with tail := r.tail + n })

/-- `xRingBufferReadIov`. -/
def readIov (r : Ring) : List Iov :=
  if r.len = 0 then []
  else
    let pos := r.tail &&& r.mask
    let first := r.cap - pos
    if r.len ≤ first then [⟨pos, r.len⟩] else [⟨pos, first⟩, ⟨0, r.len - first⟩]

/-- `xRingBufferWriteIov`. -/
def writeIov (r : Ring) : List Iov :=
  if r.writable = 0 then []
  else
    let pos := r.head &&& r.mask
    let first := r.cap - pos
    if r.writable ≤ first then [⟨pos, r.writable⟩] else [⟨pos, first⟩, ⟨0, r.writable - first⟩]

def total (iov : List Iov) : ℕ := (iov.map fun s => s.len.toNat).sum

/-- `readv` of `n` bytes from `src` on: the segments are filled one by one. -/
def readv (src : ℕ → UInt8) (n : ℕ) : List Iov → (ℕ → UInt8) → ℕ → UInt8
  | [], data => data
  | s :: iov, data =>
    let k := min n s.len.toNat
    readv (fun j => src (k + j)) (n - k) iov (blit data s.base.toNat src k)

/-- `xRingBufferReadFd`; `answer` is the number of bytes from `src` on that are to be had, if there is no error. -/
def readFd (src : ℕ → UInt8) (answer : Option ℕ) (r : Ring) : ℤ × Ring :=
  if r.writeIov = [] then (0, r)
  else
    match answer with
    | none => (-1, r)
    | some k =>
      let n := min k (total r.writeIov)
      (n, { r with data := readv src n r.writeIov r.data, head := r.head + UInt64.ofNat n })

def gather (data : ℕ → UInt8) (iov : List Iov) : List UInt8 := iov.flatMap fun s => bytesAt data s.base s.len

/-- `xRingBufferWriteFd`, with the bytes that `writev` has taken; `answer` is the number of bytes that there is room for,
if there is no error. -/
def writeFd (answer : Option ℕ) (r : Ring) : (ℤ × List UInt8) × Ring :=
  if r.readIov = [] then ((0, []), r)
  else
    match answer with
    | none => ((-1, []), r)
    | some k =>
      let n := min k (total r.readIov)
      ((n, (gather r.data r.readIov).take n), { r with tail := r.tail + UInt64.ofNat n })

end Ring

/-- A call. -/
inductive RingOp
  | write (src : ℕ → UInt8) (len : UInt64)
  | read (len : UInt64)
  | peek (len : UInt64)
  | discard (n : UInt64)
  | readIov
  | writeIov
  | readFd (src : ℕ → UInt8) (answer : Option ℕ)
  | writeFd (answer : Option ℕ)
  | reset

/-- What a call returns, with the bytes that it hands out. -/
inductive RingResult
  | count (n : UInt64)
  | bytes (n : UInt64) (out : List UInt8)
  | segments (iov : List Iov)
  | moved (n : ℤ) (out : List UInt8)
  | none

namespace Ring

def step (r : Ring) : RingOp → RingResult × Ring
  | .write src len => (.count (r.write src len).1, (r.write src len).2)
  | .read len => (.bytes (r.read len).1.1 (r.read len).1.2, (r.read len).2)
  | .peek len => (.bytes (r.peek len).1 (r.peek len).2, r)
  | .discard n => (.count (r.discard n).1, (r.discard n).2)
  | .readIov => (.segments r.readIov, r)
  | .writeIov => (.segments r.writeIov, r)
  | .readFd src answer => (.moved (r.readFd src answer).1 [], (r.readFd src answer).2)
  | .writeFd answer => (.moved (r.writeFd answer).1.1 (r.writeFd answer).1.2, (r.writeFd answer).2)
  | .reset => (.none, r.reset)

end Ring

/-! ### What it is for -/

/-- A byte queue with a capacity. -/
structure ByteQueue where
  cap : ℕ
  content : List UInt8

namespace ByteQueue

def free (q : ByteQueue) : ℕ := q.cap - q.content.length

/-- `n` bytes more. -/
def push (q : ByteQueue) (src : ℕ → UInt8) (n : ℕ) : ByteQueue :=
  { q with content := q.content ++ (List.range n).map src }

/-- The oldest `n` bytes go. -/
def drop (q : ByteQueue) (n : ℕ) : ByteQueue := { q with content := q.content.drop n }

/-- What a call does: a write takes what there is room for, a read hands out the oldest bytes.  A descriptor may take or
give less than there is; what the segments are, `Ring.Holds` says. -/
def Spec (q : ByteQueue) : RingOp → RingResult → ByteQueue → Prop
  | .write src len, r, q' => ∃ n, r = .count n ∧ n.toNat = min len.toNat q.free ∧ q' = q.push src n.toNat
  | .read len, r, q' => ∃ n, r = .bytes n (q.content.take len.toNat) ∧ n.toNat = min len.toNat q.content.length ∧
      q' = q.drop len.toNat
  | .peek len, r, q' => ∃ n, r = .bytes n (q.content.take len.toNat) ∧ n.toNat = min len.toNat q.content.length ∧ q' = q
  | .discard len, r, q' => ∃ n, r = .count n ∧ n.toNat = min len.toNat q.content.length ∧ q' = q.drop len.toNat
  | .readIov, _, q' => q' = q
  | .writeIov, _, q' => q' = q
  | .readFd src answer, r, q' =>
    if q.free = 0 then r = .moved 0 [] ∧ q' = q
    else
      match answer with
      | none => r = .moved (-1) [] ∧ q' = q
      | some k => r = .moved (min k q.free : ℕ) [] ∧ q' = q.push src (min k q.free)
  | .writeFd answer, r, q' =>
    if q.content = [] then r = .moved 0 [] ∧ q' = q
    else
      match answer with
      | none => r = .moved (-1) [] ∧ q' = q
      | some k => r = .moved (min k q.content.length : ℕ) (q.content.take k) ∧ q' = q.drop k
  | .reset, r, q' => r = .none ∧ q' = { q with content := [] }

end ByteQueue

namespace Ring

def placesOf (iov : List Iov) : List ℕ := iov.flatMap fun s => places (s.base.toNat, s.len.toNat)

/-- **The ring holds the queue**: the cursors are no further apart than the capacity; the segments to read hold the whole
queue; they and the segments to write are every place of the memory once, in the order around the ring. -/
structure Holds (r : Ring) (q : ByteQueue) : Prop where
  cap : r.cap.toNat = q.cap
  fits : (r.head - r.tail).toNat ≤ q.cap
  content : gather r.data r.readIov = q.content
  order : placesOf r.readIov ++ placesOf r.writeIov = slots q.cap r.tail.toNat q.cap
  places : (placesOf r.readIov ++ placesOf r.writeIov).Perm (List.range q.cap)

/-! ### The arithmetic of the cursors -/

variable {r : Ring} {q : ByteQueue} {n : ℕ}

/-- What every call keeps. -/
structure Inv (r : Ring) (q : ByteQueue) : Prop where
  pow : ∃ k, k ≤ 63 ∧ q.cap = 2 ^ k
  cap : r.cap.toNat = q.cap
  mask : r.mask = r.cap - 1
  len : r.len.toNat = q.content.length
  fits : q.content.length ≤ q.cap
  content : (slots q.cap r.tail.toNat q.content.length).map r.data = q.content

theorem Inv.cap_pos (h : r.Inv q) : 0 < q.cap := by
  obtain ⟨k, -, hk⟩ := h.pow
  rw [hk]
  exact Nat.two_pow_pos k

theorem Inv.cap_dvd (h : r.Inv q) : q.cap ∣ 2 ^ 64 := by
  obtain ⟨k, hk, heq⟩ := h.pow
  rw [heq]
  exact Nat.pow_dvd_pow 2 (by omega)

theorem Inv.cap_le (h : r.Inv q) : q.cap ≤ 2 ^ 63 := by
  obtain ⟨k, hk, heq⟩ := h.pow
  rw [heq]
  exact Nat.pow_le_pow_right (by omega) hk

theorem Inv.masked (h : r.Inv q) (c : UInt64) : (c &&& r.mask).toNat = c.toNat % q.cap := by
  obtain ⟨k, hk, heq⟩ := h.pow
  have hpos := h.cap_pos
  have hcap := h.cap
  have hmask : r.mask.toNat = 2 ^ k - 1 := by
    rw [h.mask, UInt64.toNat_sub_of_le _ _ (by rw [UInt64.le_iff_toNat_le]; exact hcap ▸ hpos), hcap, heq]
    rfl
  rw [UInt64.toNat_and, hmask, heq]
  exact Nat.and_two_pow_sub_one_eq_mod _ k

theorem Inv.first (h : r.Inv q) (c : UInt64) : (r.cap - (c &&& r.mask)).toNat = q.cap - c.toNat % q.cap := by
  have hlt := Nat.mod_lt c.toNat h.cap_pos
  rw [UInt64.toNat_sub_of_le _ _ (by rw [UInt64.le_iff_toNat_le, h.masked, h.cap]; exact hlt.le), h.masked, h.cap]

theorem Inv.writable (h : r.Inv q) : r.writable.toNat = q.free := by
  have hle : r.len ≤ r.cap := by
    rw [UInt64.le_iff_toNat_le, h.len, h.cap]
    exact h.fits
  refine (UInt64.toNat_sub_of_le _ _ hle).trans ?_
  rw [h.len, h.cap]
  rfl

theorem Inv.head (h : r.Inv q) : r.head.toNat = (r.tail.toNat + q.content.length) % 2 ^ 64 := by
  have heq : r.head = r.tail + r.len := by
    unfold Ring.len
    rw [UInt64.add_comm, UInt64.sub_add_cancel]
  rw [heq, UInt64.toNat_add, h.len]

theorem Inv.head_mod (h : r.Inv q) : r.head.toNat % q.cap = (r.tail.toNat + q.content.length) % q.cap := by
  rw [h.head, Nat.mod_mod_of_dvd _ h.cap_dvd]

/-- The segments for `n` places from the cursor `c` on. -/
def segments (r : Ring) (c n : UInt64) : List Iov :=
  if n = 0 then []
  else if n ≤ r.cap - (c &&& r.mask) then [⟨c &&& r.mask, n⟩]
  else [⟨c &&& r.mask, r.cap - (c &&& r.mask)⟩, ⟨0, n - (r.cap - (c &&& r.mask))⟩]

theorem Inv.segments (h : r.Inv q) (c n : UInt64) :
    (r.segments c n).map (fun s => (s.base.toNat, s.len.toNat)) = stretches q.cap (c.toNat % q.cap) n.toNat := by
  have hfirst := h.first c
  have hmask := h.masked c
  unfold Ring.segments stretches
  by_cases h0 : n = 0
  · rw [if_pos h0, if_pos (by rw [h0]; rfl)]
    rfl
  have h0' : n.toNat ≠ 0 := fun he => h0 (UInt64.toNat_inj.1 he)
  rw [if_neg h0, if_neg h0']
  by_cases hle : n ≤ r.cap - (c &&& r.mask)
  · rw [if_pos hle]
    rw [UInt64.le_iff_toNat_le, hfirst] at hle
    rw [if_pos hle, map_cons, hmask]
    rfl
  · have hsub := UInt64.toNat_sub_of_le n (r.cap - (c &&& r.mask)) (UInt64.le_of_lt (UInt64.not_le.1 hle))
    rw [if_neg hle]
    rw [UInt64.le_iff_toNat_le, hfirst] at hle
    rw [if_neg hle, map_cons, map_cons, hmask, hfirst, hsub, hfirst]
    rfl

theorem placesOf_eq (iov : List Iov) : placesOf iov = (iov.map fun s => (s.base.toNat, s.len.toNat)).flatMap places := by
  rw [flatMap_map]
  rfl

theorem gather_eq (data : ℕ → UInt8) (iov : List Iov) : gather data iov = (placesOf iov).map data := by
  rw [placesOf, map_flatMap]
  rfl

theorem total_eq (iov : List Iov) : total iov = (placesOf iov).length := by
  rw [placesOf, length_flatMap]
  simp only [places, length_map, length_range]
  rfl

theorem Inv.placesOf_segments (h : r.Inv q) (c : UInt64) {n : UInt64} (hn : n.toNat ≤ q.cap) :
    placesOf (r.segments c n) = slots q.cap c.toNat n.toNat := by
  rw [placesOf_eq, h.segments, ← Core.slots_eq (Nat.mod_lt _ h.cap_pos) hn, Core.slots_mod (Nat.dvd_refl _)]

theorem Inv.total_segments (h : r.Inv q) (c : UInt64) {n : UInt64} (hn : n.toNat ≤ q.cap) :
    total (r.segments c n) = n.toNat := by
  rw [total_eq, h.placesOf_segments c hn, Core.length_slots]

theorem segments_eq_nil (r : Ring) (c n : UInt64) : r.segments c n = [] ↔ n = 0 := by
  unfold segments
  split_ifs with h0 h1
  · exact ⟨fun _ => h0, fun _ => rfl⟩
  · exact iff_of_false id h0
  · exact iff_of_false id h0

theorem readIov_eq (r : Ring) : r.readIov = r.segments r.tail r.len := rfl

theorem writeIov_eq (r : Ring) : r.writeIov = r.segments r.head r.writable := rfl

theorem copyOut_eq (len : UInt64) (r : Ring) :
    r.copyOut len = (if r.len < len then r.len else len,
      gather r.data (r.segments r.tail (if r.len < len then r.len else len))) := by
  unfold copyOut segments
  dsimp only
  generalize (if r.len < len then r.len else len) = n
  split_ifs with h0 h1
  · rw [h0]
    rfl
  · exact Prod.ext rfl (List.append_nil _).symm
  · exact Prod.ext rfl (congrArg (_ ++ ·) (List.append_nil _).symm)

theorem Inv.data_write (h : r.Inv q) (src : ℕ → UInt8) (n : UInt64) :
    (if n ≤ r.cap - (r.head &&& r.mask) then blit r.data (r.head &&& r.mask).toNat src n.toNat
      else blit (blit r.data (r.head &&& r.mask).toNat src (r.cap - (r.head &&& r.mask)).toNat) 0
        (fun j => src ((r.cap - (r.head &&& r.mask)).toNat + j)) (n - (r.cap - (r.head &&& r.mask))).toNat) =
      wrapped q.cap r.data (r.head.toNat % q.cap) src n.toNat := by
  have hfirst := h.first r.head
  have hmask := h.masked r.head
  unfold wrapped
  by_cases hle : n ≤ r.cap - (r.head &&& r.mask)
  · rw [if_pos hle]
    rw [UInt64.le_iff_toNat_le, hfirst] at hle
    rw [if_pos hle, hmask]
  · have hsub := UInt64.toNat_sub_of_le n (r.cap - (r.head &&& r.mask)) (UInt64.le_of_lt (UInt64.not_le.1 hle))
    rw [if_neg hle]
    rw [UInt64.le_iff_toNat_le, hfirst] at hle
    rw [if_neg hle, hmask, hsub, hfirst]

theorem Inv.readv_segments (h : r.Inv q) (src : ℕ → UInt8) (data : ℕ → UInt8) (c n : UInt64) {k : ℕ} (hk : k ≤ n.toNat) :
    readv src k (r.segments c n) data = wrapped q.cap data (c.toNat % q.cap) src k := by
  have hfirst := h.first c
  have hmask := h.masked c
  unfold Ring.segments wrapped
  by_cases h0 : n = 0
  · rw [h0] at hk
    obtain rfl : k = 0 := Nat.le_zero.1 hk
    rw [if_pos h0, if_pos (Nat.zero_le _), Core.blit_zero]
    rfl
  rw [if_neg h0]
  by_cases hle : n ≤ r.cap - (c &&& r.mask)
  · rw [if_pos hle]
    rw [UInt64.le_iff_toNat_le, hfirst] at hle
    rw [if_pos (by omega), readv, readv, min_eq_left hk, hmask]
  · have hsub := UInt64.toNat_sub_of_le n (r.cap - (c &&& r.mask)) (UInt64.le_of_lt (UInt64.not_le.1 hle))
    rw [if_neg hle]
    rw [readv, readv, readv, hsub, hmask, hfirst]
    by_cases hend : k ≤ q.cap - c.toNat % q.cap
    · rw [if_pos hend, min_eq_left hend, Nat.sub_self, Nat.zero_min, Core.blit_zero]
    · rw [if_neg hend, min_eq_right (by omega), min_eq_left (by omega)]
      rfl

/-! ### The calls -/

/-- **The ring holds the queue.** -/
theorem Inv.holds (h : r.Inv q) : r.Holds q := by
  have hfree := h.writable
  have hlen := h.len
  have hr : placesOf r.readIov = slots q.cap r.tail.toNat q.content.length := by
    rw [readIov_eq, h.placesOf_segments _ (hlen ▸ h.fits), hlen]
  have hw : placesOf r.writeIov = slots q.cap (r.tail.toNat + q.content.length) q.free := by
    rw [writeIov_eq, h.placesOf_segments _ (by rw [hfree]; exact Nat.sub_le _ _), hfree,
      ← Core.slots_mod (Nat.dvd_refl _), h.head_mod, Core.slots_mod (Nat.dvd_refl _)]
  have horder : placesOf r.readIov ++ placesOf r.writeIov = slots q.cap r.tail.toNat q.cap := by
    rw [hr, hw, ← Core.slots_add]
    congr 1
    exact Nat.add_sub_cancel' h.fits
  refine ⟨h.cap, (show r.len.toNat ≤ q.cap from hlen ▸ h.fits), ?_, horder, horder ▸ Core.perm_slots _ _⟩
  rw [gather_eq, hr, h.content]

theorem toNat_ofNat_le (h : r.Inv q) (hn : n ≤ q.cap) : (UInt64.ofNat n).toNat = n := by
  have := h.cap_le
  rw [UInt64.toNat_ofNat']
  exact Nat.mod_eq_of_lt (by omega)

theorem Inv.push (h : r.Inv q) (src : ℕ → UInt8) (hn : n ≤ q.free) :
    Inv { r with data := wrapped q.cap r.data (r.head.toNat % q.cap) src n, head := r.head + UInt64.ofNat n }
      (q.push src n) := by
  have hcap := h.cap_le
  have hfits := h.fits
  have hlen := h.len
  have hroom : q.content.length + n ≤ q.cap := by
    unfold ByteQueue.free at hn
    omega
  have hlength : (q.push src n).content.length = q.content.length + n := by
    simp [ByteQueue.push]
  refine ⟨h.pow, h.cap, h.mask, ?_, hlength.trans_le hroom, ?_⟩
  · have hsub : r.head + UInt64.ofNat n - r.tail = r.len + UInt64.ofNat n := by
      unfold Ring.len
      grind
    rw [hlength]
    refine (congrArg UInt64.toNat hsub).trans ?_
    rw [UInt64.toNat_add, hlen, toNat_ofNat_le h (by omega)]
    exact Nat.mod_eq_of_lt (by omega)
  · rw [hlength, h.head_mod]
    refine (Core.map_wrapped r.data src h.cap_pos hroom).trans ?_
    rw [h.content]
    rfl

theorem Inv.drop (h : r.Inv q) (hn : n ≤ q.content.length) :
    Inv { r with tail := r.tail + UInt64.ofNat n } (q.drop n) := by
  have hfits := h.fits
  have hlen := h.len
  have hofNat := toNat_ofNat_le h (hn.trans hfits)
  have hlength : (q.drop n).content.length = q.content.length - n := length_drop
  refine ⟨h.pow, h.cap, h.mask, ?_, ?_, ?_⟩
  · have hsub : r.head - (r.tail + UInt64.ofNat n) = r.len - UInt64.ofNat n := by
      unfold Ring.len
      grind
    have hle : UInt64.ofNat n ≤ r.len := by
      rw [UInt64.le_iff_toNat_le, hofNat, hlen]
      exact hn
    rw [hlength]
    refine (congrArg UInt64.toNat hsub).trans ?_
    rw [UInt64.toNat_sub_of_le _ _ hle, hlen, hofNat]
  · rw [hlength]
    exact (Nat.sub_le _ _).trans hfits
  · have hsplit := h.content
    rw [show q.content.length = n + (q.content.length - n) by omega, Core.slots_add, map_append] at hsplit
    rw [hlength, UInt64.toNat_add, hofNat]
    dsimp only [ByteQueue.drop]
    rw [Core.slots_mod h.cap_dvd]
    conv_rhs => rw [← hsplit]
    rw [drop_left' (by simp)]

theorem Inv.copyOut (h : r.Inv q) (len : UInt64) :
    (r.copyOut len).1.toNat = min len.toNat q.content.length ∧ (r.copyOut len).2 = q.content.take len.toNat := by
  have hn : (if r.len < len then r.len else len).toNat = min len.toNat q.content.length := by
    have hlen := h.len
    split_ifs with hlt
    all_goals
      rw [UInt64.lt_iff_toNat_lt] at hlt
      omega
  rw [copyOut_eq]
  refine ⟨hn, ?_⟩
  generalize (if r.len < len then r.len else len) = k at hn ⊢
  have hle : k.toNat ≤ q.content.length := hn ▸ Nat.min_le_right _ _
  have hsplit := h.content
  rw [show q.content.length = k.toNat + (q.content.length - k.toNat) by omega, Core.slots_add, map_append] at hsplit
  rw [gather_eq, h.placesOf_segments _ (hle.trans h.fits), take_eq_take_min, ← hn]
  conv_rhs => rw [← hsplit]
  rw [take_left' (by simp)]

theorem Inv.drop_min (h : r.Inv q) {k : UInt64} {n : ℕ} (hk : k.toNat = min n q.content.length) :
    Inv { r with tail := r.tail + k } (q.drop n) := by
  have hdrop : q.drop n = q.drop k.toNat := by
    unfold ByteQueue.drop
    rw [hk, drop_eq_drop_min]
  have := h.drop (n := k.toNat) (hk ▸ Nat.min_le_right _ _)
  rw [UInt64.ofNat_toNat] at this
  rw [hdrop]
  exact this

theorem Inv.write (h : r.Inv q) (src : ℕ → UInt8) (len : UInt64) :
    (r.write src len).1.toNat = min len.toNat q.free ∧ Inv (r.write src len).2 (q.push src (r.write src len).1.toNat) := by
  have hpush0 : q.push src 0 = q := by
    unfold ByteQueue.push
    rw [range_zero, map_nil, List.append_nil]
  have hn : (if r.writable < len then r.writable else len).toNat = min len.toNat q.free := by
    have hfree := h.writable
    split_ifs with hlt
    all_goals
      rw [UInt64.lt_iff_toNat_lt] at hlt
      omega
  unfold Ring.write
  by_cases h0 : len = 0
  · rw [if_pos h0, h0]
    exact ⟨(Nat.zero_min _).symm, hpush0.symm ▸ h⟩
  rw [if_neg h0]
  dsimp only
  generalize (if r.writable < len then r.writable else len) = k at hn ⊢
  by_cases hk : k = 0
  · rw [if_pos hk]
    rw [hk] at hn
    exact ⟨hn, hpush0.symm ▸ h⟩
  · rw [if_neg hk, h.data_write]
    refine ⟨hn, ?_⟩
    have := h.push src (n := k.toNat) (hn ▸ Nat.min_le_right _ _)
    rw [UInt64.ofNat_toNat] at this
    exact this

theorem Inv.reset (h : r.Inv q) : Inv r.reset { q with content := [] } :=
  ⟨h.pow, h.cap, h.mask, by simp [Ring.len, Ring.reset], Nat.zero_le _, rfl⟩

theorem Inv.step (h : r.Inv q) (m : RingOp) :
    ∃ q', q.Spec m (r.step m).1 q' ∧ (r.step m).2.Inv q' := by
  have hfree := h.writable
  have hlen := h.len
  cases m with
  | write src len => exact ⟨_, ⟨_, rfl, (h.write src len).1, rfl⟩, (h.write src len).2⟩
  | read len =>
    obtain ⟨h1, h2⟩ := h.copyOut len
    exact ⟨_, ⟨_, congrArg _ h2, h1, rfl⟩, h.drop_min h1⟩
  | peek len =>
    obtain ⟨h1, h2⟩ := h.copyOut len
    exact ⟨_, ⟨_, congrArg _ h2, h1, rfl⟩, h⟩
  | discard len =>
    have hn : (r.discard len).1.toNat = min len.toNat q.content.length := by
      unfold discard
      dsimp only
      split_ifs with hlt
      all_goals
        rw [UInt64.lt_iff_toNat_lt] at hlt
        omega
    exact ⟨_, ⟨_, rfl, hn, rfl⟩, h.drop_min hn⟩
  | readIov | writeIov => exact ⟨q, rfl, h⟩
  | readFd src answer =>
    have hiov : r.writeIov = [] ↔ q.free = 0 := by
      rw [writeIov_eq, segments_eq_nil, ← hfree, ← UInt64.toNat_inj]
      rfl
    have htotal : total r.writeIov = q.free := by
      rw [writeIov_eq, h.total_segments _ (by rw [hfree]; exact Nat.sub_le _ _), hfree]
    by_cases h0 : q.free = 0
    · have heq : r.readFd src answer = (0, r) := if_pos (hiov.2 h0)
      have hspec : q.Spec (.readFd src answer) (.moved 0 []) q := by
        unfold ByteQueue.Spec
        dsimp only
        rw [if_pos h0]
        exact ⟨rfl, rfl⟩
      unfold Ring.step
      dsimp only
      rw [heq]
      exact ⟨q, hspec, h⟩
    cases answer with
    | none =>
      have heq : r.readFd src none = (-1, r) := if_neg (mt hiov.1 h0)
      have hspec : q.Spec (.readFd src none) (.moved (-1) []) q := by
        unfold ByteQueue.Spec
        dsimp only
        rw [if_neg h0]
        exact ⟨rfl, rfl⟩
      unfold Ring.step
      dsimp only
      rw [heq]
      exact ⟨q, hspec, h⟩
    | some k =>
      have heq : r.readFd src (some k) = (((min k q.free : ℕ) : ℤ),
          { r with
            data := wrapped q.cap r.data (r.head.toNat % q.cap) src (min k q.free),
            head := r.head + UInt64.ofNat (min k q.free) }) := by
        unfold Ring.readFd
        rw [if_neg (mt hiov.1 h0)]
        dsimp only
        rw [htotal, writeIov_eq, h.readv_segments src _ _ _ (hfree.symm ▸ Nat.min_le_right _ _)]
      have hspec : q.Spec (.readFd src (some k)) (.moved (min k q.free : ℕ) []) (q.push src (min k q.free)) := by
        unfold ByteQueue.Spec
        dsimp only
        rw [if_neg h0]
        exact ⟨rfl, rfl⟩
      unfold Ring.step
      dsimp only
      rw [heq]
      exact ⟨_, hspec, h.push src (Nat.min_le_right _ _)⟩
  | writeFd answer =>
    have hiov : r.readIov = [] ↔ q.content = [] := by
      rw [readIov_eq, segments_eq_nil, ← length_eq_zero_iff, ← hlen, ← UInt64.toNat_inj]
      rfl
    have htotal : total r.readIov = q.content.length := by
      rw [readIov_eq, h.total_segments _ (hlen ▸ h.fits), hlen]
    by_cases h0 : q.content = []
    · have heq : r.writeFd answer = ((0, []), r) := if_pos (hiov.2 h0)
      have hspec : q.Spec (.writeFd answer) (.moved 0 []) q := by
        unfold ByteQueue.Spec
        dsimp only
        rw [if_pos h0]
        exact ⟨rfl, rfl⟩
      unfold Ring.step
      dsimp only
      rw [heq]
      exact ⟨q, hspec, h⟩
    cases answer with
    | none =>
      have heq : r.writeFd none = ((-1, []), r) := if_neg (mt hiov.1 h0)
      have hspec : q.Spec (.writeFd none) (.moved (-1) []) q := by
        unfold ByteQueue.Spec
        dsimp only
        rw [if_neg h0]
        exact ⟨rfl, rfl⟩
      unfold Ring.step
      dsimp only
      rw [heq]
      exact ⟨q, hspec, h⟩
    | some k =>
      have hdrop : q.drop k = q.drop (min k q.content.length) := by
        unfold ByteQueue.drop
        rw [drop_eq_drop_min]
      have heq : r.writeFd (some k) = ((((min k q.content.length : ℕ) : ℤ), q.content.take k),
          { r with tail := r.tail + UInt64.ofNat (min k q.content.length) }) := by
        unfold Ring.writeFd
        rw [if_neg (mt hiov.1 h0)]
        dsimp only
        rw [htotal, h.holds.content, ← take_eq_take_min]
      have hspec : q.Spec (.writeFd (some k)) (.moved (min k q.content.length : ℕ) (q.content.take k)) (q.drop k) := by
        unfold ByteQueue.Spec
        dsimp only
        rw [if_neg h0]
        exact ⟨rfl, rfl⟩
      unfold Ring.step
      dsimp only
      rw [heq]
      exact ⟨_, hspec, hdrop ▸ h.drop (Nat.min_le_right _ _)⟩
  | reset => exact ⟨_, ⟨rfl, rfl⟩, h.reset⟩

/-! ### The capacity -/

/-- A bit is set when one of the `n` bits from it on is. -/
def Smeared (v w n : ℕ) : Prop := ∀ j, w.testBit j = true ↔ ∃ d < n, v.testBit (j + d) = true

theorem Smeared.step {v w n : ℕ} (h : Smeared v w n) : Smeared v (w ||| w >>> n) (n + n) := by
  intro j
  rw [Nat.testBit_or, Nat.testBit_shiftRight, Bool.or_eq_true, h j, h (n + j)]
  constructor
  · rintro (⟨d, hd, hv⟩ | ⟨d, hd, hv⟩)
    · exact ⟨d, by omega, hv⟩
    · exact ⟨n + d, by omega, by rwa [show j + (n + d) = n + j + d by omega]⟩
  · rintro ⟨d, hd, hv⟩
    by_cases hlt : d < n
    · exact .inl ⟨d, hlt, hv⟩
    · exact .inr ⟨d - n, by omega, by rwa [show n + j + (d - n) = j + d by omega]⟩

theorem Smeared.one (v : ℕ) : Smeared v v 1 := by
  intro j
  constructor
  · exact fun h => ⟨0, by omega, h⟩
  · rintro ⟨d, hd, h⟩
    obtain rfl : d = 0 := by omega
    exact h

theorem Smeared.eq {v w : ℕ} (h : Smeared v w 64) (h0 : v ≠ 0) (hv : v < 2 ^ 64) : w = 2 ^ (v.log2 + 1) - 1 := by
  have hlog : v.log2 < 64 := (Nat.log2_lt h0).2 hv
  refine Nat.eq_of_testBit_eq fun j => ?_
  rw [Nat.testBit_two_pow_sub_one, Bool.eq_iff_iff, h j, decide_eq_true_eq]
  constructor
  · rintro ⟨d, -, hd⟩
    by_contra hj
    have hlt : v < 2 ^ (j + d) := (Nat.log2_lt h0).1 (by omega)
    rw [Nat.testBit_lt_two_pow hlt] at hd
    exact Bool.noConfusion hd
  · exact fun hj => ⟨v.log2 - j, by omega, by rw [Nat.add_sub_cancel' (by omega)]; exact Nat.testBit_log2 h0⟩

theorem smear {v n : ℕ} {w s : UInt64} (h : Smeared v w.toNat n) (hs : s.toNat = n) (hn : n < 64) :
    Smeared v (w ||| w >>> s).toNat (n + n) := by
  rw [UInt64.toNat_or, UInt64.toNat_shiftRight, Nat.mod_eq_of_lt (hs.symm ▸ hn), hs]
  exact h.step

theorem nextPow2_pow (v : UInt64) : ∃ k, k ≤ 63 ∧ (nextPow2 v).toNat = 2 ^ k := by
  unfold nextPow2
  have hv : 16 ≤ if v < 16 then 16 else v := by
    split_ifs with hlt
    · exact UInt64.le_refl 16
    · exact UInt64.not_lt.1 hlt
  dsimp only
  generalize (if v < 16 then 16 else v) = v at hv ⊢
  split_ifs with hbig
  · exact ⟨63, Nat.le_refl _, rfl⟩
  have hle : v.toNat ≤ 2 ^ 63 := UInt64.le_iff_toNat_le.1 (UInt64.not_lt.1 hbig)
  have hge : 16 ≤ v.toNat := UInt64.le_iff_toNat_le.1 hv
  have hsub : (v - 1).toNat = v.toNat - 1 := UInt64.toNat_sub_of_le _ _ (UInt64.le_iff_toNat_le.2 (by
    show 1 ≤ v.toNat
    omega))
  generalize v - 1 = u at hsub ⊢
  have h0 : u.toNat ≠ 0 := by omega
  have hs1 := smear (Smeared.one u.toNat) (s := 1) rfl (by decide)
  have hs2 := smear hs1 (s := 2) rfl (by decide)
  have hs4 := smear hs2 (s := 4) rfl (by decide)
  have hs8 := smear hs4 (s := 8) rfl (by decide)
  have hs16 := smear hs8 (s := 16) rfl (by decide)
  have hs32 := smear hs16 (s := 32) rfl (by decide)
  have hlog : u.toNat.log2 < 63 := (Nat.log2_lt h0).2 (by omega)
  have heq := hs32.eq h0 (by omega)
  have hpow : 2 ^ (u.toNat.log2 + 1) ≤ 2 ^ 63 := Nat.pow_le_pow_right (by omega) hlog
  refine ⟨u.toNat.log2 + 1, hlog, ?_⟩
  rw [UInt64.toNat_add, heq, UInt64.toNat_one, Nat.sub_add_cancel (Nat.two_pow_pos _)]
  exact Nat.mod_eq_of_lt (by omega)

theorem inv_create {minCap : UInt64} {mem : Option (ℕ → UInt8)} (h : create minCap mem = some r) :
    r.Inv ⟨r.cap.toNat, []⟩ := by
  unfold create at h
  split_ifs at h
  obtain ⟨data, -, rfl⟩ := Option.map_eq_some_iff.1 h
  exact ⟨nextPow2_pow minCap, rfl, rfl, congrArg UInt64.toNat (UInt64.sub_self 0), Nat.zero_le _, rfl⟩

/-- **The ring is a bounded queue**, whatever is called. -/
theorem fifo {minCap : UInt64} {mem : Option (ℕ → UInt8)} (h : create minCap mem = some r) (ms : List RingOp) :
    ∃ q, Core.Traces ByteQueue.Spec ⟨r.cap.toNat, []⟩ ms (Core.exec step r ms).1 q ∧ (Core.exec step r ms).2.Holds q := by
  have hstep : ∀ s t m, Inv s t → True → ∃ t', ByteQueue.Spec t m (step s m).1 t' ∧ Inv (step s m).2 t' :=
    fun s t m hst _ => hst.step m
  obtain ⟨q, htrace, hinv⟩ := Core.Traces.of_exec hstep (inv_create h) (Core.Admits.all (fun _ _ => trivial) r ms)
  exact ⟨q, htrace, hinv.holds⟩

/-- Twelve bytes in, ten out, and ten more around the end. -/
theorem fifo_around :
    ∃ r, create 5 (some fun _ => 0) = some r ∧ ∃ q,
      Core.Traces ByteQueue.Spec ⟨16, []⟩
        [.write UInt8.ofNat 12, .discard 10, .write UInt8.ofNat 10, .readFd UInt8.ofNat (some 7), .peek 12]
        (Core.exec step r
          [.write UInt8.ofNat 12, .discard 10, .write UInt8.ofNat 10, .readFd UInt8.ofNat (some 7), .peek 12]).1 q ∧
      (Core.exec step r
        [.write UInt8.ofNat 12, .discard 10, .write UInt8.ofNat 10, .readFd UInt8.ofNat (some 7), .peek 12]).2.Holds q :=
  have hcreate : create 5 (some fun _ => 0) = some ⟨16, 15, 0, 0, fun _ => 0⟩ := rfl
  ⟨_, hcreate, fifo hcreate _⟩

end Ring

end Libx.Buf
