import Libx.Agent.Message

/-!
# Libx.Buf.IOBuffer — a buffer of blocks

io.c for one buffer whose blocks nobody else holds: bytes are appended into the room of the last block and into new
blocks, and taken from the front.
-/

namespace Libx.Buf

open Libx.Agent (Bytes)
open List

/-- `XIOBUFFER_BLOCK_SIZE`. -/
def blockSize : ℕ := 8192

/-- `xIOBufferRef`: the bytes of a block from `offset` on. -/
structure BufferRef where
  offset : ℕ
  data : Bytes

def contentOf (refs : List BufferRef) : Bytes := refs.flatMap BufferRef.data

/-- `xIOBuffer`. -/
structure IOBuffer where
  refs : List BufferRef := []
  nbytes : ℕ := 0
  counted : nbytes = (contentOf refs).length := by rfl

/-- What a reader uses. -/
class Readable (β : Type) where
  len : β → ℕ
  peek : ℕ → β → Option Bytes
  consume : ℕ → β → β
  read : ℕ → β → Bytes × β

instance : Readable Bytes where
  len := List.length
  peek n l := if l.length < n then none else some (l.take n)
  consume n l := l.drop n
  read n l := (l.take n, l.drop n)

/-- Reading goes the same way under `f`. -/
structure Reading {β γ : Type} [Readable β] [Readable γ] (f : β → γ) : Prop where
  len : ∀ b, Readable.len (f b) = Readable.len b
  peek : ∀ n b, Readable.peek n (f b) = Readable.peek n b
  consume : ∀ n b, Readable.consume n (f b) = f (Readable.consume n b)
  read : ∀ n b, Readable.read n (f b) = ((Readable.read n b).1, f (Readable.read n b).2)

namespace IOBuffer

@[simp] theorem contentOf_nil : contentOf [] = [] := rfl

@[simp] theorem contentOf_cons (r : BufferRef) (refs : List BufferRef) : contentOf (r :: refs) = r.data ++ contentOf refs :=
  flatMap_cons

theorem contentOf_append (a b : List BufferRef) : contentOf (a ++ b) = contentOf a ++ contentOf b := flatMap_append

def content (io : IOBuffer) : Bytes := contentOf io.refs

/-! ### Appending -/

/-- Into the room of the last block; with what is left. -/
def fill (data : Bytes) : List BufferRef → List BufferRef × Bytes
  | [] => ([], data)
  | [r] =>
    let avail := blockSize - (r.offset + r.data.length)
    ([{ r with data := r.data ++ data.take avail }], data.drop avail)
  | r :: r' :: refs => (r :: (fill data (r' :: refs)).1, (fill data (r' :: refs)).2)

def blocks (data : Bytes) : List BufferRef :=
  if data = [] then []
  else ⟨0, data.take blockSize⟩ :: blocks (data.drop blockSize)
termination_by data.length
decreasing_by
  have := List.length_pos_of_ne_nil ‹data ≠ []›
  rw [List.length_drop, blockSize]
  omega

theorem contentOf_fill (data : Bytes) (refs : List BufferRef) :
    contentOf (fill data refs).1 ++ (fill data refs).2 = contentOf refs ++ data := by
  induction refs using fill.induct with
  | case1 => rfl
  | case2 r => simp only [fill, contentOf_cons, contentOf_nil, List.append_nil, append_assoc, take_append_drop]
  | case3 r r' refs ih =>
    rw [fill, contentOf_cons, contentOf_cons r, append_assoc, ih, append_assoc]

theorem contentOf_blocks (data : Bytes) : contentOf (blocks data) = data := by
  fun_induction blocks data with
  | case1 => rfl
  | case2 data h ih => rw [contentOf_cons, ih, take_append_drop]

/-- `xIOBufferAppend`. -/
def append (data : Bytes) (io : IOBuffer) : IOBuffer where
  refs := (fill data io.refs).1 ++ blocks (fill data io.refs).2
  nbytes := io.nbytes + data.length
  counted := by
    rw [contentOf_append, contentOf_blocks, contentOf_fill, List.length_append, io.counted]

@[simp] theorem content_append (data : Bytes) (io : IOBuffer) : (io.append data).content = io.content ++ data := by
  rw [content, append, contentOf_append, contentOf_blocks, contentOf_fill]
  rfl

/-! ### Taking -/

/-- The loop of `io_peek`. -/
def peekLoop : ℕ → List BufferRef → Bytes
  | _, [] => []
  | n, r :: refs => if n = 0 then [] else r.data.take n ++ peekLoop (n - r.data.length) refs

/-- `io_peek`. -/
def peek (n : ℕ) (io : IOBuffer) : Option Bytes := if io.nbytes < n then none else some (peekLoop n io.refs)

/-- The loop of `xIOBufferRead` and `xIOBufferConsume`: what is left of the blocks. -/
def dropLoop : ℕ → List BufferRef → List BufferRef
  | _, [] => []
  | n, r :: refs =>
    if n = 0 then r :: refs
    else if r.data.length ≤ n then dropLoop (n - r.data.length) refs
    else ⟨r.offset + n, r.data.drop n⟩ :: refs

theorem peekLoop_eq (n : ℕ) (refs : List BufferRef) : peekLoop n refs = (contentOf refs).take n := by
  induction refs generalizing n with
  | nil => rw [peekLoop, contentOf_nil, take_nil]
  | cons r refs ih =>
    rw [peekLoop, contentOf_cons, take_append, ih]
    split_ifs with h
    · rw [h, take_zero, Nat.zero_sub, take_zero]
      rfl
    · rfl

theorem contentOf_dropLoop (n : ℕ) (refs : List BufferRef) : contentOf (dropLoop n refs) = (contentOf refs).drop n := by
  induction refs generalizing n with
  | nil => rw [dropLoop, contentOf_nil, drop_nil]
  | cons r refs ih =>
    rw [dropLoop, contentOf_cons]
    split_ifs with h0 hle
    · rw [h0, drop_zero, contentOf_cons]
    · rw [ih, drop_append, drop_of_length_le hle, nil_append]
    · rw [contentOf_cons, drop_append_of_le_length (Nat.le_of_not_le hle)]

/-- `xIOBufferConsume`. -/
def consume (n : ℕ) (io : IOBuffer) : IOBuffer where
  refs := dropLoop (min n io.nbytes) io.refs
  nbytes := io.nbytes - min n io.nbytes
  counted := by rw [contentOf_dropLoop, List.length_drop, ← io.counted]

/-- `xIOBufferRead`. -/
def read (n : ℕ) (io : IOBuffer) : Bytes × IOBuffer := (peekLoop (min n io.nbytes) io.refs, io.consume n)

instance : Readable IOBuffer where
  len := nbytes
  peek := peek
  consume := consume
  read := read

@[simp] theorem content_consume (n : ℕ) (io : IOBuffer) : (io.consume n).content = io.content.drop n := by
  rw [content, consume, contentOf_dropLoop, io.counted]
  exact (drop_eq_drop_min ..).symm

theorem readable_content : Reading content where
  len io := io.counted.symm
  peek n io := by
    show (if io.content.length < n then none else some (io.content.take n)) = io.peek n
    rw [peek, io.counted, peekLoop_eq]
    rfl
  consume n io := (content_consume n io).symm
  read n io := by
    show (io.content.take n, io.content.drop n) = ((io.read n).1, (io.read n).2.content)
    rw [read, peekLoop_eq, content_consume, io.counted]
    exact congrArg (·, _) take_eq_take_min

end IOBuffer

end Libx.Buf
