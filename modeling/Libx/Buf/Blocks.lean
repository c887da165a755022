import Libx.Agent.Jsonl

/-!
# Libx.Buf.Blocks — buffers that share blocks

io.c for any number of buffers: blocks are counted and come from a pool, a ref is a slice of a block, and a buffer is
its refs.  `Libx.Buf.IOBuffer` is one buffer whose blocks nobody shares.
-/

namespace Libx.Buf.Blocks

open Libx.Agent (Bytes CStr)

/-- `XIOBUFFER_BLOCK_SIZE`. -/
def blockSize : ℕ := 8192

/-- `XIOBUFFER_INLINE_REFS`. -/
def inlineRefs : ℕ := 8

/-- `xIOBufferRef`; a block is known by its number. -/
structure Ref where
  block : ℕ
  offset : ℕ
  length : ℕ
  deriving DecidableEq

/-- `xIOBuffer`. -/
structure Buffer where
  refs : List Ref := []
  cap : ℕ := inlineRefs
  nbytes : ℕ := 0

/-- The blocks: their bytes and counts, those in the pool, how many there are, and what `malloc` will answer (`true`
where nothing is said). -/
structure Store where
  data : ℕ → ℕ → UInt8
  count : ℕ → ℕ := fun _ => 0
  pool : List ℕ := []
  fresh : ℕ := 0
  mem : List Bool := []

namespace Store

/-- With what `malloc` will answer. -/
def allocating (mem : List Bool) (s : Store) : Store := { s with mem }

@[simp] theorem allocating_data (mem : List Bool) (s : Store) : (s.allocating mem).data = s.data := rfl

def malloc (s : Store) : Bool × Store := (s.mem.headD true, { s with mem := s.mem.tail })

/-- `xIOBlockAcquire`. -/
def acquire (s : Store) : Option ℕ × Store :=
  match s.pool with
  | b :: pool => (some b, { s with pool := pool, count := Function.update s.count b 1 })
  | [] =>
    if s.malloc.1 then
      (some s.fresh, { s.malloc.2 with fresh := s.fresh + 1, count := Function.update s.count s.fresh 1 })
    else (none, s.malloc.2)

/-- `xIOBlockRetain`. -/
def retain (b : ℕ) (s : Store) : Store := { s with count := Function.update s.count b (s.count b + 1) }

/-- `xIOBlockRelease`. -/
def release (b : ℕ) (s : Store) : Store :=
  { s with
    count := Function.update s.count b (s.count b - 1)
    pool := if s.count b - 1 = 0 then b :: s.pool else s.pool }

/-- `memcpy` into a block. -/
def write (b off : ℕ) (bytes : Bytes) (s : Store) : Store :=
  { s with data := fun b' p => if b' = b ∧ off ≤ p then bytes.getD (p - off) (s.data b' p) else s.data b' p }

def slice (s : Store) (r : Ref) : Bytes := (List.range r.length).map fun k => s.data r.block (r.offset + k)

/-- The bytes of the refs of a buffer, one after the other: the loop of `xIOBufferCopyTo`. -/
def bytesOf (s : Store) (refs : List Ref) : Bytes := refs.flatMap s.slice

end Store

open Store

/-! ### The array of refs -/

/-- The loop of `iobuf_grow_refs`, `n` times at most. -/
def newCap (needed : ℕ) : ℕ → ℕ → ℕ
  | 0, cap => cap
  | n + 1, cap => if cap < needed then newCap needed n (cap * 2) else cap

/-- `iobuf_grow_refs`. -/
def grow (needed : ℕ) (io : Buffer) (s : Store) : Bool × Buffer × Store :=
  if needed ≤ io.cap then (true, io, s)
  else if s.malloc.1 then
    (true, { io with cap := newCap needed needed (if io.cap = 0 then inlineRefs else io.cap * 2) }, s.malloc.2)
  else (false, io, s.malloc.2)

/-- `iobuf_push_ref`. -/
def pushRef (io : Buffer) (r : Ref) (adjustNbytes : Bool) (s : Store) : Bool × Buffer × Store :=
  if r.length = 0 then (true, io, s)
  else
    match grow (io.refs.length + 1) io s with
    | (false, io, s) => (false, io, s)
    | (true, io, s) =>
      (true, { io with refs := io.refs ++ [r], nbytes := if adjustNbytes then io.nbytes + r.length else io.nbytes }, s)

/-- `xIOBufferReset`. -/
def reset (io : Buffer) (s : Store) : Buffer × Store :=
  ({ io with refs := [], nbytes := 0 }, io.refs.foldl (fun s r => s.release r.block) s)

/-! ### Adding -/

def avail (r : Ref) : ℕ := blockSize - (r.offset + r.length)

/-- Bytes behind the last ref, no more than there is room for. -/
def fill (io : Buffer) (bytes : Bytes) (s : Store) : Buffer × Store :=
  match io.refs.getLast? with
  | none => (io, s)
  | some tail =>
    ({ io with
        refs := io.refs.dropLast ++ [{ tail with length := tail.length + bytes.length }]
        nbytes := io.nbytes + bytes.length },
      s.write tail.block (tail.offset + tail.length) bytes)

/-- The second loop of `xIOBufferAppend`, `n` blocks at most: whether all went well, and the bytes that were added. -/
def appendBlocks : ℕ → Bytes → Buffer → Store → Bool × Bytes × Buffer × Store
  | 0, _, io, s => (true, [], io, s)
  | n + 1, src, io, s =>
    if src = [] then (true, [], io, s)
    else
      match s.acquire with
      | (none, s) => (false, [], io, s)
      | (some b, s) =>
        let chunk := src.take blockSize
        match pushRef io ⟨b, 0, chunk.length⟩ true (s.write b 0 chunk) with
        | (false, io, s) => (false, [], io, s.release b)
        | (true, io, s) =>
          let rest := appendBlocks n (src.drop blockSize) io s
          (rest.1, chunk ++ rest.2.1, rest.2.2)

/-- The room `xIOBufferAppend`, `xIOBufferReadFd` and `xIOBufferReadWith` find behind the last ref. -/
def Buffer.room (io : Buffer) : ℕ := (io.refs.getLast?.map avail).getD 0

/-- `xIOBufferAppend`. -/
def append (io : Buffer) (data : Bytes) (s : Store) : Bool × Buffer × Store :=
  let chunk := data.take io.room
  let filled := if 0 < io.room then fill io chunk s else (io, s)
  let rest := data.drop chunk.length
  let added := appendBlocks rest.length rest filled.1 filled.2
  (added.1, added.2.2)

/-- `xIOBufferAppendStr`. -/
def appendStr (io : Buffer) (str : CStr) (s : Store) : Bool × Buffer × Store := append io str.bytes s

/-- `xIOBufferAppendIOBuffer`. -/
def appendIOBuffer (io other : Buffer) (s : Store) : Bool × Buffer × Buffer × Store :=
  if other.refs = [] then (true, io, other, s)
  else
    match grow (io.refs.length + other.refs.length) io s with
    | (false, io, s) => (false, io, other, s)
    | (true, io, s) =>
      (true, { io with refs := io.refs ++ other.refs, nbytes := io.nbytes + other.nbytes },
        { other with refs := [], nbytes := 0 }, s)

/-! ### Taking -/

/-- The loop of `xIOBufferRead`, and of `xIOBufferConsume` but for the copy. -/
def readLoop : ℕ → List Ref → Store → Bytes × List Ref × Store
  | _, [], s => ([], [], s)
  | n, r :: refs, s =>
    if n = 0 then ([], r :: refs, s)
    else if r.length ≤ n then
      let rest := readLoop (n - r.length) refs (s.release r.block)
      (s.slice r ++ rest.1, rest.2)
    else (s.slice { r with length := n }, { r with offset := r.offset + n, length := r.length - n } :: refs, s)

/-- `xIOBufferRead`. -/
def read (io : Buffer) (len : ℕ) (s : Store) : Bytes × Buffer × Store :=
  let taken := readLoop (min len io.nbytes) io.refs s
  (taken.1, { io with refs := taken.2.1, nbytes := io.nbytes - taken.1.length }, taken.2.2)

/-- `xIOBufferConsume`. -/
def consume (io : Buffer) (n : ℕ) (s : Store) : ℕ × Buffer × Store :=
  let taken := readLoop (min n io.nbytes) io.refs s
  (taken.1.length, { io with refs := taken.2.1, nbytes := io.nbytes - taken.1.length }, taken.2.2)

/-- The loop of `xIOBufferCut`: how many bytes went, the refs that stay, and the other buffer. -/
def cutLoop : ℕ → List Ref → Buffer → Store → ℕ × List Ref × Buffer × Store
  | _, [], dst, s => (0, [], dst, s)
  | n, r :: refs, dst, s =>
    if n = 0 then (0, r :: refs, dst, s)
    else if r.length ≤ n then
      match pushRef dst r false s with
      | (false, dst, s) => (0, r :: refs, dst, s)
      | (true, dst, s) =>
        let rest := cutLoop (n - r.length) refs dst s
        (r.length + rest.1, rest.2)
    else
      match pushRef dst { r with length := n } false (s.retain r.block) with
      | (false, dst, s) => (0, r :: refs, dst, s.release r.block)
      | (true, dst, s) => (n, { r with offset := r.offset + n, length := r.length - n } :: refs, dst, s)

/-- `xIOBufferCut`. -/
def cut (io dst : Buffer) (n : ℕ) (s : Store) : ℕ × Buffer × Buffer × Store :=
  let taken := cutLoop (min n io.nbytes) io.refs dst s
  (taken.1, { io with refs := taken.2.1, nbytes := io.nbytes - taken.1 },
    { taken.2.2.1 with nbytes := taken.2.2.1.nbytes + taken.1 }, taken.2.2.2)

/-! ### Input and output -/

/-- Where bytes come from: those it delivers for so much room, and what it returns (negated) if it delivers none. -/
structure Reader where
  fn : ℕ → Bytes
  code : ℕ

def Reader.deliver (rd : Reader) (room : ℕ) : Bytes := (rd.fn room).take room

/-- `xIOBufferReadWith`. -/
def readWith (io : Buffer) (rd : Reader) (s : Store) : ℤ × Buffer × Store :=
  if 0 < io.room then
    let bytes := rd.deliver io.room
    if bytes = [] then (-rd.code, io, s) else (bytes.length, fill io bytes s)
  else
    match s.acquire with
    | (none, s) => (-1, io, s)
    | (some b, s) =>
      let bytes := rd.deliver blockSize
      if bytes = [] then (-rd.code, io, s.release b)
      else
        match pushRef io ⟨b, 0, bytes.length⟩ true (s.write b 0 bytes) with
        | (false, io, s) => (-1, io, s.release b)
        | (true, io, s) => (bytes.length, io, s)

/-- `xIOBufferReadFd`: the reader is `read`, called again while it is interrupted. -/
def readFd (io : Buffer) (rd : Reader) (s : Store) : ℤ × Buffer × Store := readWith io rd s

/-- `xIOBufferReadIov`, with room for 64. -/
def readIov (io : Buffer) (s : Store) : List Bytes :=
  ((io.refs.filter fun r => r.length ≠ 0).take 64).map s.slice

/-- `xIOBufferWriteWith`; the writer takes no more than it is given. -/
def writeWith (io : Buffer) (fn : List Bytes → ℤ) (s : Store) : ℤ × Buffer × Store :=
  let iov := readIov io s
  if iov = [] then (0, io, s)
  else
    let n := min (fn iov) iov.flatten.length
    if 0 < n then (n, (consume io n.toNat s).2) else (n, io, s)

/-- `xIOBufferWriteFd`: the writer is `writev`, called again while it is interrupted. -/
def writeFd (io : Buffer) (fn : List Bytes → ℤ) (s : Store) : ℤ × Buffer × Store := writeWith io fn s

/-! ### Any buffers -/

/-- The operations; `i`, `j` are buffers. -/
inductive Op (ι : Type)
  | append (i : ι) (data : Bytes)
  | appendStr (i : ι) (str : CStr)
  | appendIOBuffer (i j : ι)
  | read (i : ι) (len : ℕ)
  | cut (i j : ι) (n : ℕ)
  | consume (i : ι) (n : ℕ)
  | copyTo (i : ι)
  | readWith (i : ι) (rd : Reader)
  | readFd (i : ι) (rd : Reader)
  | writeWith (i : ι) (fn : List Bytes → ℤ)
  | writeFd (i : ι) (fn : List Bytes → ℤ)
  | reset (i : ι)

/-- What an operation returns. -/
inductive Result
  | done (ok : Bool)
  | count (n : ℤ)
  | bytes (data : Bytes)
  deriving DecidableEq

structure World (ι : Type) where
  bufs : ι → Buffer
  store : Store

variable {ι : Type} [DecidableEq ι]

def World.set (w : World ι) (i : ι) (x : Buffer × Store) : World ι := ⟨Function.update w.bufs i x.1, x.2⟩

def World.set₂ (w : World ι) (i j : ι) (x : Buffer × Buffer × Store) : World ι :=
  ⟨Function.update (Function.update w.bufs i x.1) j x.2.1, x.2.2⟩

/-- One operation, with what `malloc` answers in it. -/
def World.step (w : World ι) (m : Op ι × List Bool) : Result × World ι :=
  let s := w.store.allocating m.2
  match m.1 with
  | .append i data => let r := Blocks.append (w.bufs i) data s; (.done r.1, w.set i r.2)
  | .appendStr i str => let r := appendStr (w.bufs i) str s; (.done r.1, w.set i r.2)
  | .appendIOBuffer i j => let r := appendIOBuffer (w.bufs i) (w.bufs j) s; (.done r.1, w.set₂ i j r.2)
  | .read i len => let r := read (w.bufs i) len s; (.bytes r.1, w.set i r.2)
  | .cut i j n => let r := cut (w.bufs i) (w.bufs j) n s; (.count r.1, w.set₂ i j r.2)
  | .consume i n => let r := consume (w.bufs i) n s; (.count r.1, w.set i r.2)
  | .copyTo i => (.bytes (s.bytesOf (w.bufs i).refs), w)
  | .readWith i rd => let r := readWith (w.bufs i) rd s; (.count r.1, w.set i r.2)
  | .readFd i rd => let r := readFd (w.bufs i) rd s; (.count r.1, w.set i r.2)
  | .writeWith i fn => let r := writeWith (w.bufs i) fn s; (.count r.1, w.set i r.2)
  | .writeFd i fn => let r := writeFd (w.bufs i) fn s; (.count r.1, w.set i r.2)
  | .reset i => (.done true, w.set i (reset (w.bufs i) s))

/-- The buffers as they are initialised, and a pool warmed up with `n` blocks, of any bytes. -/
def World.init (data : ℕ → ℕ → UInt8) (n : ℕ) : World ι :=
  ⟨fun _ => {}, { data, pool := List.range n, fresh := n }⟩

def World.content (w : World ι) (i : ι) : Bytes := w.store.bytesOf (w.bufs i).refs

end Libx.Buf.Blocks
