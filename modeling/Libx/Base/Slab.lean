import Mathlib

/-!
# Libx.Base.Slab — the pool of slots

base/slab.c, its single-threaded pool, with sizes and addresses modulo 2^64.  The free slots are linked through their
first words; the words of the slots that are held are whatever their holders write.
-/

namespace Libx.Base

open List

/-- `xSlabChunk_`, at the address `base`. -/
structure Chunk where
  base : UInt64
  bytes : UInt64
  slotsOffset : UInt64
  nslots : UInt64

/-- `xSlab_`; `next` is the first word of a slot. -/
structure Slab where
  chunks : List Chunk := []
  freeHead : UInt64 := 0
  next : UInt64 → UInt64 := fun _ => 0
  slotSize : UInt64
  align : UInt64
  chunkBytes : UInt64
  inUse : UInt64 := 0

namespace Slab

/-- `sizeof(xSlabChunk)`. -/
def header : UInt64 := 32

/-- `XSLAB_DEFAULT_ALIGN`. -/
def defaultAlign : UInt64 := 16

/-- `XSLAB_DEFAULT_CHUNK_BYTES`. -/
def defaultChunkBytes : UInt64 := 65536

/-- `xslab_is_pow2`. -/
def isPow2 (v : UInt64) : Bool := v ≠ 0 ∧ v &&& (v - 1) = 0

/-- `xslab_round_up`. -/
def roundUp (v a : UInt64) : UInt64 := (v + (a - 1)) &&& ~~~(a - 1)

/-- `xslab_layout`: the size, the offset and the number of slots; `none` when it divides by zero. -/
def layout (slotSize align chunkBytes : UInt64) : Option (UInt64 × UInt64 × UInt64) :=
  let hdr := roundUp header align
  let wanted := if chunkBytes ≠ 0 then chunkBytes else defaultChunkBytes
  let wanted := if wanted < hdr + slotSize then hdr + slotSize else wanted
  if slotSize = 0 then none
  else
    let nslots := (wanted - hdr) / slotSize
    let nslots := if nslots = 0 then 1 else nslots
    some (hdr + nslots * slotSize, hdr, nslots)

/-- A slot goes to the front of the free list. -/
def link (s : Slab) (p : UInt64) : Slab := { s with next := Function.update s.next p s.freeHead, freeHead := p }

/-- The addresses of the slots of a chunk. -/
def slotsOf (slotSize : UInt64) (c : Chunk) : List UInt64 :=
  (List.range c.nslots.toNat).map fun i => c.base + c.slotsOffset + UInt64.ofNat i * slotSize

/-- `xslab_grow`; `answer` is what `xslab_map` returns. -/
def grow (answer : Option UInt64) (s : Slab) : Option (Bool × Slab) :=
  (layout s.slotSize s.align s.chunkBytes).map fun (bytes, offset, nslots) =>
    match answer with
    | none => (false, s)
    | some base =>
      let c : Chunk := ⟨base, bytes, offset, nslots⟩
      (true, (slotsOf s.slotSize c).foldl link { s with chunks := c :: s.chunks })

/-- `xSlabCreate`, when `calloc` has memory. -/
def create (objSize objAlign chunkBytes : UInt64) : Option Slab :=
  let align := if objAlign ≠ 0 then objAlign else defaultAlign
  if objSize = 0 ∨ isPow2 align = false then none
  else
    let slotSize := roundUp (if objSize < 8 then 8 else objSize) align
    some { slotSize, align, chunkBytes := if chunkBytes ≠ 0 then chunkBytes else defaultChunkBytes }

/-- The end of `xSlabAlloc`. -/
def take (s : Slab) : UInt64 × Slab :=
  (s.freeHead, { s with freeHead := s.next s.freeHead, inUse := s.inUse + 1 })

/-- `xSlabAlloc`; NULL is 0. -/
def alloc (answer : Option UInt64) (s : Slab) : Option (UInt64 × Slab) :=
  if s.freeHead = 0 then (s.grow answer).map fun (grown, s) => if grown then s.take else (0, s)
  else some s.take

/-- `xSlabFree`. -/
def free (p : UInt64) (s : Slab) : Slab := if p = 0 then s else { s.link p with inUse := s.inUse - 1 }

/-- The slots of all chunks, in the order of the list. -/
def slots (s : Slab) : List UInt64 := s.chunks.flatMap (slotsOf s.slotSize)

/-- `xSlabReset`. -/
def reset (s : Slab) : Slab := s.slots.foldl link { s with freeHead := 0, inUse := 0 }

/-- A call, or a write of the holder to the first word of a slot. -/
inductive Op
  | alloc (answer : Option UInt64)
  | free (p : UInt64)
  | reset
  | write (p v : UInt64)

/-- A call, and the slots that were handed out and not returned. -/
def step (s : Slab) (held : List UInt64) : Op → Option (Slab × List UInt64)
  | .alloc answer => (s.alloc answer).map fun (p, s) => (s, if p = 0 then held else p :: held)
  | .free p => some (s.free p, held.erase p)
  | .reset => some (s.reset, [])
  | .write p v => some ({ s with next := Function.update s.next p v }, held)

/-! ### What it is for -/

/-- The region of a chunk is not in use, ends in the address space and starts at a page. -/
def Mapped (page : ℕ) (s : Slab) (base : UInt64) : Prop :=
  ∀ bytes offset nslots, layout s.slotSize s.align s.chunkBytes = some (bytes, offset, nslots) →
    page ∣ base.toNat ∧ base.toNat + bytes.toNat ≤ 2 ^ 64 ∧
      ∀ c ∈ s.chunks, c.base.toNat + c.bytes.toNat ≤ base.toNat ∨ base.toNat + bytes.toNat ≤ c.base.toNat

/-- What the system and the callers keep to: a chunk is a new region, and only a held slot is returned or written. -/
def Admitted (page : ℕ) (s : Slab) (held : List UInt64) : Op → Prop
  | .alloc answer => ∀ base, answer = some base → Mapped page s base
  | .free p | .write p _ => p ∈ held
  | .reset => True

inductive Reached (page : ℕ) (s₀ : Slab) : Slab → List UInt64 → Prop
  | start : Reached page s₀ s₀ []
  | step {s s' : Slab} {held held' : List UInt64} (op : Op) (h : Reached page s₀ s held)
      (hop : Admitted page s held op) (hs : s.step held op = some (s', held')) : Reached page s₀ s' held'

/-- The free list from `h` on. -/
def Path (next : UInt64 → UInt64) : UInt64 → List UInt64 → Prop
  | h, [] => h = 0
  | h, p :: l => h = p ∧ p ≠ 0 ∧ Path next (next p) l

/-- `n` bytes at `p` and `n` bytes at `q` are disjoint. -/
def Apart (n : ℕ) (p q : UInt64) : Prop := p.toNat + n ≤ q.toNat ∨ q.toNat + n ≤ p.toNat

structure Sound (objSize : ℕ) (s : Slab) (held : List UInt64) : Prop where
  size : objSize ≤ s.slotSize.toNat
  disjoint : held.Pairwise (Apart s.slotSize.toNat)
  inside : ∀ p ∈ held, ∃ c ∈ s.chunks,
    c.base.toNat + header.toNat ≤ p.toNat ∧ p.toNat + s.slotSize.toNat ≤ c.base.toNat + c.bytes.toNat
  aligned : ∀ p ∈ held, s.align.toNat ∣ p.toNat
  inUse : s.inUse.toNat = held.length
  once : ∃ l, Path s.next s.freeHead l ∧ s.slots.Nodup ∧ (l ++ held).Perm s.slots

/-- The next multiple. -/
def ceilTo (v a : ℕ) : ℕ := (v + (a - 1)) / a * a

/-- A slot behind a header is less than 2^64 bytes. -/
def Roomy (objSize align : ℕ) : Prop := ceilTo 32 align + ceilTo (max objSize 8) align < 2 ^ 64

/-! ### Sizes -/

variable {s s' : Slab} {c : Chunk} {held held' l : List UInt64} {p q h : UInt64} {next : UInt64 → UInt64} {objSize page j : ℕ}
  {align slotSize : UInt64}

theorem dvd_ceilTo (v a : ℕ) : a ∣ ceilTo v a := Nat.dvd_mul_left a _

theorem le_ceilTo {a : ℕ} (ha : 0 < a) (v : ℕ) : v ≤ ceilTo v a ∧ v + (a - 1) < ceilTo v a + a := by
  have hdiv := Nat.div_add_mod' (v + (a - 1)) a
  have hmod := Nat.mod_lt (v + (a - 1)) ha
  unfold ceilTo
  omega

theorem toNat_roundUp {v a : UInt64} (ha : a.toNat = 2 ^ j) (hv : v.toNat + (a.toNat - 1) < 2 ^ 64) :
    (roundUp v a).toNat = ceilTo v.toNat a.toNat := by
  have hone : (a - 1).toNat = a.toNat - 1 :=
    UInt64.toNat_sub_of_le _ _ (UInt64.le_iff_toNat_le.2 (by rw [ha]; exact Nat.one_le_two_pow))
  have hsum : (v + (a - 1)).toNat = v.toNat + (a.toNat - 1) := by
    rw [UInt64.toNat_add, hone]
    exact Nat.mod_eq_of_lt hv
  unfold roundUp ceilTo
  rw [← hsum, UInt64.toNat_and]
  generalize (v + (a - 1)) = x
  refine Nat.eq_of_testBit_eq fun i => ?_
  rw [Nat.testBit_and, ha, Nat.testBit_mul_two_pow, Nat.testBit_div_two_pow]
  have hnot : (~~~(a - 1)).toNat.testBit i = (decide (i < 64) && !(a - 1).toNat.testBit i) := by
    rw [UInt64.toNat_not]
    show Nat.testBit (2 ^ 64 - 1 - _) i = _
    rw [Nat.sub_sub, Nat.add_comm 1, Nat.testBit_two_pow_sub_succ (a - 1).toNat_lt]
  rw [hnot, hone, ha, Nat.testBit_two_pow_sub_one]
  rcases Nat.lt_or_ge i 64 with hi | hi
  · by_cases hj : j ≤ i
    · simp [hi, hj, Nat.sub_add_cancel hj]
    · simp [hj, Nat.lt_of_not_le hj]
  · have hx : x.toNat.testBit i = false :=
      Nat.testBit_lt_two_pow (lt_of_lt_of_le x.toNat_lt (Nat.pow_le_pow_right (by decide) hi))
    by_cases hj : j ≤ i
    · simp [hx, Nat.sub_add_cancel hj]
    · simp [hx, hj]

/-- The layout of a chunk of a roomy pool: the slots lie behind the header, up to its end. -/
theorem layout_eq {slotSize align : UInt64} (ha : align.toNat = 2 ^ j) (hpos : 0 < slotSize.toNat)
    (hdvd : align.toNat ∣ slotSize.toNat) (hroom : ceilTo 32 align.toNat + slotSize.toNat < 2 ^ 64)
    (chunkBytes : UInt64) : ∃ bytes offset nslots, layout slotSize align chunkBytes = some (bytes, offset, nslots) ∧ nslots ≠ 0 ∧
      offset.toNat = ceilTo 32 align.toNat ∧ bytes.toNat = offset.toNat + nslots.toNat * slotSize.toNat := by
  have hceil := le_ceilTo (a := align.toNat) (ha ▸ Nat.two_pow_pos j) 32
  have h32 : header.toNat = 32 := rfl
  have hhdr : (roundUp header align).toNat = ceilTo 32 align.toNat := by
    have hmul := Nat.le_of_dvd hpos hdvd
    exact toNat_roundUp ha (by omega)
  have hfirst : (roundUp header align + slotSize).toNat = ceilTo 32 align.toNat + slotSize.toNat := by
    rw [UInt64.toNat_add, hhdr]
    exact Nat.mod_eq_of_lt hroom
  unfold layout
  dsimp only
  rw [if_neg fun h0 => by simp [h0] at hpos]
  generalize (if chunkBytes ≠ 0 then chunkBytes else defaultChunkBytes) = w
  generalize hw' : (if w < roundUp header align + slotSize then roundUp header align + slotSize else w) = w'
  have hle : ceilTo 32 align.toNat + slotSize.toNat ≤ w'.toNat := by
    rw [← hw']
    split_ifs with h
    · exact hfirst.ge
    · rw [← hfirst]
      exact UInt64.le_iff_toNat_le.1 (UInt64.not_lt.1 h)
  have husable : (w' - roundUp header align).toNat = w'.toNat - ceilTo 32 align.toNat := by
    rw [UInt64.toNat_sub_of_le _ _ (UInt64.le_iff_toNat_le.2 (by omega)), hhdr]
  have hdiv : ((w' - roundUp header align) / slotSize).toNat = (w'.toNat - ceilTo 32 align.toNat) / slotSize.toNat := by
    rw [UInt64.toNat_div, husable]
  have hone : 0 < (w'.toNat - ceilTo 32 align.toNat) / slotSize.toNat := Nat.div_pos (by omega) hpos
  have hne : (w' - roundUp header align) / slotSize ≠ 0 := fun h0 => by
    rw [h0] at hdiv
    exact absurd hdiv (Nat.ne_of_lt hone)
  have hfill := Nat.div_mul_le_self (w'.toNat - ceilTo 32 align.toNat) slotSize.toNat
  have hlt := w'.toNat_lt
  rw [if_neg hne]
  refine ⟨_, _, _, rfl, hne, hhdr, ?_⟩
  rw [UInt64.toNat_add, UInt64.toNat_mul, hdiv, hhdr, Nat.mod_eq_of_lt (by omega : _ * slotSize.toNat < 2 ^ 64)]
  exact Nat.mod_eq_of_lt (by omega)

/-- The slots of a chunk lie in it. -/
structure Fits (align slotSize : UInt64) (c : Chunk) : Prop where
  region : c.base.toNat + c.bytes.toNat ≤ 2 ^ 64
  aligned : align.toNat ∣ c.base.toNat
  offset : 32 ≤ c.slotsOffset.toNat
  offsetAligned : align.toNat ∣ c.slotsOffset.toNat
  bytes : c.bytes.toNat = c.slotsOffset.toNat + c.nslots.toNat * slotSize.toNat

/-- What the layout and the mapping keep to, in every state. -/
structure Inv (objSize page j : ℕ) (s : Slab) (held : List UInt64) : Prop where
  align : s.align.toNat = 2 ^ j
  page : s.align.toNat ∣ page
  size : max objSize 8 ≤ s.slotSize.toNat
  slot : s.align.toNat ∣ s.slotSize.toNat
  room : ceilTo 32 s.align.toNat + s.slotSize.toNat < 2 ^ 64
  fits : ∀ c ∈ s.chunks, Fits s.align s.slotSize c
  apart : s.chunks.Pairwise fun c d =>
    c.base.toNat + c.bytes.toNat ≤ d.base.toNat ∨ d.base.toNat + d.bytes.toNat ≤ c.base.toNat
  inUse : s.inUse.toNat = held.length
  once : ∃ l, Path s.next s.freeHead l ∧ (l ++ held).Perm s.slots

theorem Inv.pos (h : s.Inv objSize page j held) : 0 < s.slotSize.toNat := by
  have := h.size
  omega

theorem Fits.toNat (h : Fits align slotSize c) (hpos : 0 < slotSize.toNat) {i : ℕ} (hi : i < c.nslots.toNat) :
    (c.base + c.slotsOffset + UInt64.ofNat i * slotSize).toNat =
        c.base.toNat + c.slotsOffset.toNat + i * slotSize.toNat ∧
      i * slotSize.toNat + slotSize.toNat ≤ c.nslots.toNat * slotSize.toNat := by
  have hmul : i * slotSize.toNat + slotSize.toNat ≤ c.nslots.toNat * slotSize.toNat := by
    rw [← Nat.succ_mul]
    exact Nat.mul_le_mul_right _ hi
  have hle := Nat.le_mul_of_pos_right i hpos
  have hreg := h.region
  have hbytes := h.bytes
  refine ⟨?_, hmul⟩
  rw [UInt64.toNat_add, UInt64.toNat_add, UInt64.toNat_mul, UInt64.toNat_ofNat', Nat.mod_eq_of_lt (show i < 2 ^ 64 by omega),
    Nat.mod_eq_of_lt (show i * slotSize.toNat < 2 ^ 64 by omega), Nat.mod_add_mod]
  exact Nat.mod_eq_of_lt (by omega)

theorem Fits.slot (h : Fits align slotSize c) (hpos : 0 < slotSize.toNat) (hp : p ∈ slotsOf slotSize c) :
    ∃ i, p.toNat = c.base.toNat + c.slotsOffset.toNat + i * slotSize.toNat ∧
      p.toNat + slotSize.toNat ≤ c.base.toNat + c.bytes.toNat := by
  obtain ⟨i, hi, rfl⟩ := mem_map.1 hp
  obtain ⟨htoNat, hmul⟩ := h.toNat hpos (mem_range.1 hi)
  have hbytes := h.bytes
  exact ⟨i, htoNat, by omega⟩

theorem Fits.pairwise (h : Fits align slotSize c) (hpos : 0 < slotSize.toNat) :
    (slotsOf slotSize c).Pairwise (Apart slotSize.toNat) := by
  refine pairwise_map.2 (pairwise_lt_range.imp_of_mem fun {i k} hi hk hik => .inl ?_)
  have hmul : i * slotSize.toNat + slotSize.toNat ≤ k * slotSize.toNat := by
    rw [← Nat.succ_mul]
    exact Nat.mul_le_mul_right _ hik
  rw [(h.toNat hpos (mem_range.1 hi)).1, (h.toNat hpos (mem_range.1 hk)).1]
  omega

theorem Inv.pairwise (h : s.Inv objSize page j held) : s.slots.Pairwise (Apart s.slotSize.toNat) := by
  refine pairwise_flatMap.2 ⟨fun c hc => (h.fits c hc).pairwise h.pos, ?_⟩
  refine h.apart.imp_of_mem fun {c d} hc hd hcd p hp q hq => ?_
  obtain ⟨i, hi, hp⟩ := (h.fits c hc).slot h.pos hp
  obtain ⟨k, hk, hq⟩ := (h.fits d hd).slot h.pos hq
  unfold Apart
  omega

theorem Apart.symm {n : ℕ} (h : Apart n p q) : Apart n q p := Or.symm h

theorem nodup_of_apart {n : ℕ} (hn : 0 < n) (h : l.Pairwise (Apart n)) : l.Nodup :=
  h.imp fun hpq he => by
    subst he
    unfold Apart at hpq
    omega

theorem Inv.nodup (h : s.Inv objSize page j held) : s.slots.Nodup := nodup_of_apart h.pos h.pairwise

theorem Inv.place (h : s.Inv objSize page j held) (hp : p ∈ s.slots) :
    (∃ c ∈ s.chunks, c.base.toNat + header.toNat ≤ p.toNat ∧
      p.toNat + s.slotSize.toNat ≤ c.base.toNat + c.bytes.toNat) ∧ s.align.toNat ∣ p.toNat ∧ p ≠ 0 := by
  obtain ⟨c, hc, hp⟩ := mem_flatMap.1 hp
  have hfits := h.fits c hc
  have hoff := hfits.offset
  obtain ⟨i, hi, hend⟩ := hfits.slot h.pos hp
  refine ⟨⟨c, hc, ?_, hend⟩, ?_, fun h0 => ?_⟩
  · have h32 : header.toNat = 32 := rfl
    omega
  · rw [hi]
    exact Nat.dvd_add (Nat.dvd_add hfits.aligned hfits.offsetAligned) (Nat.dvd_mul_left_of_dvd h.slot i)
  · have h0' : p.toNat = 0 := by rw [h0]; rfl
    omega

theorem Inv.sound (h : s.Inv objSize page j held) : s.Sound objSize held := by
  obtain ⟨l, hpath, hperm⟩ := h.once
  have hheld : ∀ p ∈ held, p ∈ s.slots := fun p hp => hperm.mem_iff.1 (mem_append_right l hp)
  have hsize := h.size
  refine ⟨by omega, ?_, fun p hp => (h.place (hheld p hp)).1, fun p hp => (h.place (hheld p hp)).2.1, h.inUse,
    l, hpath, h.nodup, hperm⟩
  exact (pairwise_append.1 ((hperm.pairwise_iff fun hpq => hpq.symm).2 h.pairwise)).2.1

/-- There is a next number of held slots. -/
theorem Inv.lt (h : s.Inv objSize page j held) : s.slots.length < 2 ^ 64 := by
  have hnodup : (0 :: s.slots).Nodup := nodup_cons.2 ⟨fun h0 => (h.place h0).2.2 rfl, h.nodup⟩
  have hsub : ((0 :: s.slots).map UInt64.toNat).toFinset ⊆ Finset.range (2 ^ 64) := by
    intro n hn
    obtain ⟨p, -, rfl⟩ := mem_map.1 (mem_toFinset.1 hn)
    exact Finset.mem_range.2 p.toNat_lt
  have hcard := Finset.card_le_card hsub
  rw [toFinset_card_of_nodup (hnodup.map fun _ _ hpq => UInt64.toNat_inj.1 hpq), Finset.card_range, length_map,
    length_cons] at hcard
  exact hcard

/-! ### The free list -/

theorem Path.update (hp : p ∉ l) (v : UInt64) : Path next h l → Path (Function.update next p v) h l := by
  induction l generalizing h with
  | nil => exact id
  | cons q l ih =>
    rintro ⟨rfl, h0, hl⟩
    obtain ⟨hne, hp⟩ := not_or.1 (mem_cons.not.1 hp)
    refine ⟨rfl, h0, ?_⟩
    rw [Function.update_of_ne (Ne.symm hne)]
    exact ih hp hl

theorem Path.link (hl : Path s.next s.freeHead l) (hp : p ∉ l) (h0 : p ≠ 0) :
    Path (s.link p).next (s.link p).freeHead (p :: l) := by
  refine ⟨rfl, h0, ?_⟩
  show Path (Function.update s.next p s.freeHead) (Function.update s.next p s.freeHead p) l
  rw [Function.update_self]
  exact hl.update hp _

/-- Slots go onto the free list one after the other, and nothing else changes. -/
theorem Path.foldl_link {ps : List UInt64} (hnodup : (ps ++ l).Nodup) (h0 : 0 ∉ ps) (hl : Path s.next s.freeHead l) :
    ∃ head next, ps.foldl Slab.link s = { s with freeHead := head, next } ∧ Path next head (ps.reverse ++ l) := by
  induction ps generalizing s l with
  | nil => exact ⟨_, _, rfl, hl⟩
  | cons p ps ih =>
    obtain ⟨hp, hnodup'⟩ := nodup_cons.1 hnodup
    have hp : p ∉ ps ∧ p ∉ l := not_or.1 (mem_append.not.1 hp)
    obtain ⟨hp0, h0⟩ := not_or.1 (mem_cons.not.1 h0)
    have hmid : (ps ++ p :: l).Nodup := (perm_middle.nodup_iff).2 hnodup
    obtain ⟨head, next, hs, hpath⟩ := ih hmid h0 (hl.link hp.2 (Ne.symm hp0))
    refine ⟨head, next, hs, ?_⟩
    rwa [reverse_cons, List.append_assoc]

/-! ### The calls -/

theorem Inv.frame (h : s.Inv objSize page j held) {head inUse : UInt64} {next : UInt64 → UInt64}
    (hin : inUse.toNat = held'.length) (honce : ∃ l, Path next head l ∧ (l ++ held').Perm s.slots) :
    Inv objSize page j { s with freeHead := head, next, inUse } held' :=
  ⟨h.align, h.page, h.size, h.slot, h.room, h.fits, h.apart, hin, honce⟩

/-- A new chunk, whose slots are all free. -/
theorem Inv.grow (h : s.Inv objSize page j held) (hfree : s.freeHead = 0) {answer : Option UInt64}
    (hop : Admitted page s held (.alloc answer)) :
    s.grow answer = some (false, s) ∨
      ∃ s', s.grow answer = some (true, s') ∧ s'.Inv objSize page j held ∧ s'.freeHead ≠ 0 := by
  obtain ⟨bytes, offset, nslots, hlayout, hne, hoffset, hbytes⟩ := layout_eq h.align h.pos h.slot h.room s.chunkBytes
  unfold Slab.grow
  rw [hlayout]
  cases answer with
  | none => exact .inl rfl
  | some base =>
    obtain ⟨hpage, hend, hother⟩ := hop base rfl bytes offset nslots hlayout
    have h32 := (le_ceilTo (a := s.align.toNat) (h.align ▸ Nat.two_pow_pos j) 32).1
    have hfits : Fits s.align s.slotSize ⟨base, bytes, offset, nslots⟩ :=
      ⟨hend, h.page.trans hpage, by rw [hoffset]; exact h32, hoffset ▸ dvd_ceilTo 32 _, hbytes⟩
    have hnodup := nodup_of_apart h.pos (hfits.pairwise h.pos)
    have hzero : (0 : UInt64) ∉ slotsOf s.slotSize ⟨base, bytes, offset, nslots⟩ := fun h0 => by
      obtain ⟨i, hi, -⟩ := hfits.slot h.pos h0
      have : (0 : UInt64).toNat = 0 := rfl
      have := hfits.offset
      omega
    obtain ⟨l, hpath, hperm⟩ := h.once
    obtain rfl : l = [] := by
      cases l with
      | nil => rfl
      | cons p l => exact absurd (hpath.1.symm.trans hfree) hpath.2.1
    obtain ⟨head, next, hs, hnew⟩ := Path.foldl_link (s := { s with chunks := ⟨base, bytes, offset, nslots⟩ :: s.chunks })
      (by rw [List.append_nil]; exact hnodup) hzero hpath
    refine .inr ⟨_, rfl, ?_⟩
    rw [hs]
    refine ⟨⟨h.align, h.page, h.size, h.slot, h.room, forall_mem_cons.2 ⟨hfits, h.fits⟩,
      pairwise_cons.2 ⟨fun d hd => (hother d hd).symm, h.apart⟩, h.inUse, _, hnew, ?_⟩, ?_⟩
    · rw [List.append_nil]
      exact (reverse_perm _).append hperm
    · have hlast : (slotsOf s.slotSize ⟨base, bytes, offset, nslots⟩).reverse ≠ [] := by
        have hpos : nslots.toNat ≠ 0 := fun h0 => hne (UInt64.toNat_inj.1 h0)
        simpa [slotsOf] using hpos
      obtain ⟨q, rest, hq⟩ := exists_cons_of_ne_nil hlast
      rw [List.append_nil, hq] at hnew
      show head ≠ 0
      rw [hnew.1]
      exact hnew.2.1

theorem Inv.take (h : s.Inv objSize page j held) (hne : s.freeHead ≠ 0) :
    s.take.2.Inv objSize page j (s.freeHead :: held) := by
  obtain ⟨_ | ⟨p, l⟩, hpath, hperm⟩ := h.once
  · exact absurd hpath hne
  obtain ⟨hp, -, hl⟩ := hpath
  subst hp
  have hlen : held.length + 1 ≤ s.slots.length := by
    rw [← hperm.length_eq, length_append, length_cons]
    omega
  have hlt := h.lt
  have hin := h.inUse
  refine h.frame ?_ ⟨l, hl, perm_middle.trans hperm⟩
  rw [UInt64.toNat_add, hin, length_cons]
  exact Nat.mod_eq_of_lt (by show held.length + 1 < 2 ^ 64; omega)

theorem Inv.alloc (h : s.Inv objSize page j held) {answer : Option UInt64} (hop : Admitted page s held (.alloc answer)) :
    ∃ s' held', s.step held (.alloc answer) = some (s', held') ∧ s'.Inv objSize page j held' := by
  unfold Slab.step Slab.alloc
  dsimp only
  split_ifs with hfree
  · obtain hs | ⟨s', hs, hinv, hne⟩ := h.grow hfree hop
    · rw [hs]
      exact ⟨s, held, rfl, h⟩
    · rw [hs]
      refine ⟨_, _, rfl, ?_⟩
      show Inv objSize page j s'.take.2 (if s'.freeHead = 0 then held else s'.freeHead :: held)
      rw [if_neg hne]
      exact hinv.take hne
  · refine ⟨_, _, rfl, ?_⟩
    show Inv objSize page j s.take.2 (if s.freeHead = 0 then held else s.freeHead :: held)
    rw [if_neg hfree]
    exact h.take hfree

theorem Inv.free (h : s.Inv objSize page j held) (hp : p ∈ held) : (s.free p).Inv objSize page j (held.erase p) := by
  obtain ⟨l, hpath, hperm⟩ := h.once
  have hplace := h.place (hperm.mem_iff.1 (mem_append_right l hp))
  have hnodup := hperm.nodup_iff.2 h.nodup
  have hpl : p ∉ l := fun hpl => (nodup_append.1 hnodup).2.2 p hpl p hp rfl
  have hpos := length_pos_of_mem hp
  unfold Slab.free
  rw [if_neg hplace.2.2]
  refine h.frame ?_ ⟨p :: l, hpath.link hpl hplace.2.2, ?_⟩
  · rw [length_erase_of_mem hp, UInt64.toNat_sub_of_le _ _ (UInt64.le_iff_toNat_le.2 (by rw [h.inUse]; exact hpos)), h.inUse]
    rfl
  · exact (perm_middle.symm.trans ((perm_cons_erase hp).symm.append_left l)).trans hperm

theorem Inv.reset (h : s.Inv objSize page j held) : s.reset.Inv objSize page j [] := by
  have hzero : (0 : UInt64) ∉ s.slots := fun h0 => (h.place h0).2.2 rfl
  obtain ⟨head, next, hs, hpath⟩ := Path.foldl_link (s := { s with freeHead := 0, inUse := 0 }) (l := [])
    (by rw [List.append_nil]; exact h.nodup) hzero rfl
  unfold Slab.reset
  rw [hs]
  refine h.frame rfl ⟨_, hpath, ?_⟩
  rw [List.append_nil, List.append_nil]
  exact reverse_perm _

theorem Inv.write (h : s.Inv objSize page j held) (hp : p ∈ held) (v : UInt64) :
    Inv objSize page j { s with next := Function.update s.next p v } held := by
  obtain ⟨l, hpath, hperm⟩ := h.once
  have hnodup := hperm.nodup_iff.2 h.nodup
  have hpl : p ∉ l := fun hpl => (nodup_append.1 hnodup).2.2 p hpl p hp rfl
  exact h.frame h.inUse ⟨l, hpath.update hpl v, hperm⟩

theorem Inv.step (h : s.Inv objSize page j held) (op : Op) (hop : Admitted page s held op) :
    ∃ s' held', s.step held op = some (s', held') ∧ s'.Inv objSize page j held' := by
  cases op with
  | alloc answer => exact h.alloc hop
  | free p => exact ⟨_, _, rfl, h.free hop⟩
  | reset => exact ⟨_, _, rfl, h.reset⟩
  | write p v => exact ⟨_, _, rfl, h.write hop v⟩

theorem inv_create {size align chunkBytes : UInt64} {k : ℕ} (h : create size align chunkBytes = some s)
    (hj : s.align.toNat = 2 ^ j) (hk : j ≤ k) (hroom : Roomy size.toNat s.align.toNat) :
    s.Inv size.toNat (2 ^ k) j [] := by
  unfold create at h
  dsimp only at h
  generalize (if align ≠ 0 then align else defaultAlign) = a at h
  by_cases hbad : size = 0 ∨ isPow2 a = false
  · rw [if_pos hbad] at h
    exact nomatch h
  rw [if_neg hbad] at h
  obtain rfl := Option.some.inj h
  dsimp only at hj hroom
  have hv : (if size < 8 then 8 else size).toNat = max size.toNat 8 := by
    rcases UInt64.lt_or_le size 8 with hlt | hle
    · rw [if_pos hlt]
      exact (Nat.max_eq_right (Nat.le_of_lt (UInt64.lt_iff_toNat_lt.1 hlt))).symm
    · rw [if_neg (UInt64.not_lt.2 hle)]
      exact (Nat.max_eq_left (UInt64.le_iff_toNat_le.1 hle)).symm
  have hpos : 0 < a.toNat := hj ▸ Nat.two_pow_pos j
  have hceil := le_ceilTo hpos (max size.toNat 8)
  have hmul := Nat.le_of_dvd (lt_of_lt_of_le (by decide) (le_ceilTo hpos 32).1) (dvd_ceilTo 32 a.toNat)
  unfold Roomy at hroom
  have hslot : (roundUp (if size < 8 then 8 else size) a).toNat = ceilTo (max size.toNat 8) a.toNat := by
    rw [toNat_roundUp hj (by rw [hv]; omega), hv]
  refine ⟨hj, ?_, ?_, ?_, ?_, fun _ hc => (nomatch hc), Pairwise.nil, rfl, [], rfl, Perm.refl _⟩
  · exact hj ▸ Nat.pow_dvd_pow 2 hk
  · exact hslot ▸ hceil.1
  · exact hslot ▸ dvd_ceilTo _ _
  · exact hslot ▸ hroom

theorem Reached.inv {s₀ : Slab} (hr : Reached page s₀ s held) (h₀ : s₀.Inv objSize page j []) :
    s.Inv objSize page j held := by
  induction hr with
  | start => exact h₀
  | step op _ hop hs ih =>
    obtain ⟨s', held', hs', hinv⟩ := ih.step op hop
    obtain ⟨rfl, rfl⟩ := Prod.mk.inj (Option.some.inj (hs.symm.trans hs'))
    exact hinv

/-- **The slots of a roomy pool are never shared**, and no call on it divides by zero. -/
theorem sound_of_reached {size align chunkBytes : UInt64} {k : ℕ} {s₀ : Slab} (h : create size align chunkBytes = some s₀)
    (hj : s₀.align.toNat = 2 ^ j) (hk : j ≤ k) (hroom : Roomy size.toNat s₀.align.toNat)
    (hr : Reached (2 ^ k) s₀ s held) :
    s.Sound size.toNat held ∧ ∀ op, Admitted (2 ^ k) s held op → (s.step held op).isSome = true := by
  have hinv := hr.inv (inv_create h hj hk hroom)
  refine ⟨hinv.sound, fun op hop => ?_⟩
  obtain ⟨s', held', hs, -⟩ := hinv.step op hop
  rw [hs]
  rfl

/-- A chunk with one slot, mapped at a page. -/
theorem reached_one {s : Slab} {bytes : UInt64} (hs : s.chunks = [])
    (hl : layout s.slotSize s.align s.chunkBytes = some (bytes, 32, 1)) (hb : bytes.toNat ≤ 64)
    (hst : s.step [] (.alloc (some 4096)) = some (s', [4128])) : Reached (2 ^ 12) s s' [4128] :=
  Reached.step (.alloc (some 4096)) .start (fun base hbase bytes' offset nslots hl' => by
    obtain rfl := Option.some.inj hbase
    obtain ⟨rfl, -⟩ := Prod.mk.inj (Option.some.inj (hl.symm.trans hl'))
    refine ⟨by decide, ?_, fun c hc => ?_⟩
    · have h4096 : (4096 : UInt64).toNat = 4096 := rfl
      omega
    · rw [hs] at hc
      exact nomatch hc) hst

/-- A pool with one slot in a chunk. -/
theorem sound_of_reached_one : ∃ s, Reached (2 ^ 12) { slotSize := 32, align := 16, chunkBytes := 64 } s [4128] ∧
    s.Sound 24 [4128] := by
  have hr := @reached_one _ { slotSize := 32, align := 16, chunkBytes := 64 } 64 rfl (by decide) (by decide) rfl
  have hroom : ceilTo 32 16 + ceilTo (max 24 8) 16 < 2 ^ 64 := by decide
  exact ⟨_, hr, (@sound_of_reached _ _ 4 24 16 64 12 _ rfl (by decide) (by decide) hroom hr).1⟩

/-- The size of a header and a slot wraps: a chunk of 16 bytes, whose slot begins behind it. -/
theorem not_sound_wrapped : ∃ s₀ s, create 0xFFFFFFFFFFFFFFF0 16 0 = some s₀ ∧ Reached (2 ^ 12) s₀ s [4128] ∧
    ¬s.Sound 0xFFFFFFFFFFFFFFF0 [4128] := by
  refine ⟨{ slotSize := 0xFFFFFFFFFFFFFFF0, align := 16, chunkBytes := 65536 }, _, rfl,
    @reached_one _ _ 16 rfl (by decide) (by decide) rfl, fun h => ?_⟩
  obtain ⟨c, hc, -, hend⟩ := h.inside 4128 (mem_singleton.2 rfl)
  obtain rfl := mem_singleton.1 hc
  exact absurd hend (by decide)

end Slab

end Libx.Base
