import Libx.Buf.Buffer

/-!
# Libx.Base.Array — xArray

base/array.c with its sizes as they are, modulo 2^64.  The memory behind the struct is a function of the slot, and the
allocator answers each call.
-/

namespace Libx.Base

open Libx.Agent (Errno)
open Libx.Buf.Buffer (sizeMax doubled lt_of_not_half le_doubled)
open Libx.Core (blit exec Admits Traces)
open List

variable {α : Type*}

/-- `xArray_`; `size` is what the last `malloc` or `realloc` that succeeded was asked for. -/
structure XArray (α : Type*) where
  elemSize : UInt64
  len : UInt64
  cap : UInt64
  data : ℕ → α
  size : UInt64

/-- What a call returns (`xArrayPush` a slot for `ok`, and NULL else), and the elements that it passes to `retain` and to
`release`. -/
structure ArrResult (α : Type*) where
  err : Errno
  retained : List α := []
  released : List α := []

/-- A call, with what the allocator answers in it. -/
inductive ArrOp (α : Type*)
  | push (mem : Option (ℕ → α))
  | pop
  | resize (newLen : UInt64) (mem : Option (ℕ → α))
  | insert (idx : UInt64) (elem : Option α) (mem : Option (ℕ → α))
  | removeRange (start count : UInt64)
  | reset

namespace XArray

/-- `sizeof(struct xArray_)`. -/
def header : UInt64 := 48

/-- `ARRAY_DEFAULT_CAP`. -/
def defaultCap : UInt64 := 8

def firstCap (current : UInt64) : UInt64 := if current ≠ 0 then current else defaultCap

theorem firstCap_pos (current : UInt64) : 0 < (firstCap current).toNat := by
  unfold firstCap
  split_ifs with h
  · exact Nat.pos_of_ne_zero fun h0 => h (UInt64.toNat_inj.1 h0)
  · decide

/-- `arr_next_cap`. -/
def nextCap (current needed : UInt64) : UInt64 :=
  if h : sizeMax / 2 < needed then sizeMax
  else doubled needed (lt_of_not_half h) (firstCap current) (firstCap_pos current)

/-- `arr_grow`; what fits in both sizes stays, and what is `fresh` is whatever the memory holds. -/
def grow (needed : UInt64) (mem : Option (ℕ → α)) (a : XArray α) : Errno × XArray α :=
  if needed ≤ a.cap then (.ok, a)
  else
    match mem with
    | none => (.noMemory, a)
    | some fresh =>
      let newcap := nextCap a.cap needed
      let size := header + newcap * a.elemSize
      (.ok, { a with
        data := fun i =>
          if header.toNat + (i + 1) * a.elemSize.toNat ≤ min a.size.toNat size.toNat then a.data i else fresh i
        size
        cap := newcap })

/-- `xArrayCreate`. -/
def create (elemSize initialCap : UInt64) (z : α) (mem : Option Unit) : Option (XArray α) :=
  if elemSize = 0 then none
  else mem.map fun _ =>
    { elemSize, len := 0, cap := firstCap initialCap, data := fun _ => z, size := header + firstCap initialCap * elemSize }

/-- The slots of the loop from `i` up to `j`. -/
def elems (i j : UInt64) (a : XArray α) : List α := (List.range (j.toNat - i.toNat)).map fun k => a.data (i.toNat + k)

/-- The slots that a copy of `n * elem_size` bytes covers. -/
def covered (n : UInt64) (a : XArray α) : ℕ := (n * a.elemSize).toNat / a.elemSize.toNat

/-- `xArrayPush`. -/
def push (z : α) (mem : Option (ℕ → α)) (a : XArray α) : ArrResult α × XArray α :=
  match a.grow (a.len + 1) mem with
  | (.ok, a) =>
    let data := blit a.data a.len.toNat (fun _ => z) 1
    (⟨.ok, [data a.len.toNat], []⟩, { a with data, len := a.len + 1 })
  | (err, _) => ({ err }, a)

/-- `xArrayPop`. -/
def pop (a : XArray α) : ArrResult α × XArray α :=
  if a.len = 0 then ({ err := .invalidState }, a)
  else (⟨.ok, [], [a.data (a.len - 1).toNat]⟩, { a with len := a.len - 1 })

/-- `xArrayResize`. -/
def resize (z : α) (newLen : UInt64) (mem : Option (ℕ → α)) (a : XArray α) : ArrResult α × XArray α :=
  if newLen < a.len then (⟨.ok, [], a.elems newLen a.len⟩, { a with len := newLen })
  else
    match a.grow newLen mem with
    | (.ok, a) =>
      if a.len < newLen then
        let b := { a with data := blit a.data a.len.toNat (fun _ => z) (a.covered (newLen - a.len)), len := newLen }
        (⟨.ok, b.elems a.len newLen, []⟩, b)
      else ({ err := .ok }, a)
    | (err, _) => ({ err }, a)

/-- `xArrayRemoveRange`. -/
def removeRange (start count : UInt64) (a : XArray α) : ArrResult α × XArray α :=
  if count = 0 then ({ err := .ok }, a)
  else if a.len < start + count then ({ err := .invalidArg }, a)
  else
    let behind := fun k => a.data ((start + count).toNat + k)
    let data :=
      if start + count < a.len then blit a.data start.toNat behind (a.covered (a.len - start - count)) else a.data
    (⟨.ok, [], a.elems start (start + count)⟩, { a with data, len := a.len - count })

/-- `xArrayInsert`; `none` is NULL. -/
def insert (idx : UInt64) (elem : Option α) (mem : Option (ℕ → α)) (a : XArray α) : ArrResult α × XArray α :=
  match elem with
  | none => ({ err := .invalidArg }, a)
  | some x =>
    if a.len < idx then ({ err := .invalidArg }, a)
    else
      match a.grow (a.len + 1) mem with
      | (.ok, a) =>
        let from_ := fun k => a.data (idx.toNat + k)
        let shifted := if idx < a.len then blit a.data (idx + 1).toNat from_ (a.covered (a.len - idx)) else a.data
        let data := blit shifted idx.toNat (fun _ => x) 1
        (⟨.ok, [data idx.toNat], []⟩, { a with data, len := a.len + 1 })
      | (err, _) => ({ err }, a)

/-- `xArrayReset`. -/
def reset (a : XArray α) : ArrResult α × XArray α := (⟨.ok, [], a.elems 0 a.len⟩, { a with len := 0 })

/-- `xArrayDestroy`: what it passes to `release`. -/
def destroy (a : XArray α) : List α := a.elems 0 a.len

def step (z : α) (a : XArray α) : ArrOp α → ArrResult α × XArray α
  | .push mem => a.push z mem
  | .pop => a.pop
  | .resize newLen mem => a.resize z newLen mem
  | .insert idx elem mem => a.insert idx elem mem
  | .removeRange start count => a.removeRange start count
  | .reset => a.reset

/-! ### What it is for -/

/-- A call on a list, where memory is to be had. -/
def onList (z : α) (l : List α) : ArrOp α → ArrResult α × List α
  | .push _ => (⟨.ok, [z], []⟩, l ++ [z])
  | .pop =>
    match l.getLast? with
    | none => ({ err := .invalidState }, l)
    | some x => (⟨.ok, [], [x]⟩, l.dropLast)
  | .resize newLen _ =>
    if newLen.toNat < l.length then (⟨.ok, [], l.drop newLen.toNat⟩, l.take newLen.toNat)
    else (⟨.ok, replicate (newLen.toNat - l.length) z, []⟩, l ++ replicate (newLen.toNat - l.length) z)
  | .insert _ none _ => ({ err := .invalidArg }, l)
  | .insert idx (some x) _ =>
    if idx.toNat ≤ l.length then (⟨.ok, [x], []⟩, l.insertIdx idx.toNat x)
    else ({ err := .invalidArg }, l)
  | .removeRange start count =>
    if start.toNat + count.toNat ≤ l.length then
      (⟨.ok, [], (l.drop start.toNat).take count.toNat⟩, l.take start.toNat ++ l.drop (start.toNat + count.toNat))
    else ({ err := .invalidArg }, l)
  | .reset => (⟨.ok, [], l⟩, [])

/-- The allocator has no memory in the call. -/
def Refused : ArrOp α → Prop
  | .push mem | .resize _ mem | .insert _ _ mem => mem.isNone = true
  | _ => False

/-- A call does what it does on a list, or there is no memory for it and it changes nothing. -/
def Spec (z : α) (l : List α) (op : ArrOp α) (r : ArrResult α) (l' : List α) : Prop :=
  (r, l') = onList z l op ∨ Refused op ∧ (onList z l op).1.err = .ok ∧ (r, l') = ({ err := .noMemory }, l)

/-- **The array holds the list**, and the allocation holds the capacity. -/
structure Holds (a : XArray α) (l : List α) : Prop where
  pos : 0 < a.elemSize.toNat
  len : a.len.toNat ≤ a.cap.toNat
  allocated : header.toNat + a.cap.toNat * a.elemSize.toNat ≤ a.size.toNat
  elems : a.elems 0 a.len = l

/-- The size of the allocation does not wrap, where one is made. -/
def Fits (a : XArray α) (needed : UInt64) (mem : Option (ℕ → α)) : Prop :=
  a.cap < needed → mem.isSome = true →
    header.toNat + (nextCap a.cap needed).toNat * a.elemSize.toNat < 2 ^ 64

def Admitted (a : XArray α) : ArrOp α → Prop
  | .push mem => a.Fits (a.len + 1) mem
  | .resize newLen mem => a.Fits newLen mem
  | .insert idx elem mem => elem.isSome = true → idx ≤ a.len → a.Fits (a.len + 1) mem
  | .removeRange start count =>
    (count = 0 → start ≤ a.len) ∧ (start + count ≤ a.len → start.toNat + count.toNat < 2 ^ 64)
  | .pop | .reset => True

/-! ### The calls -/

variable {a : XArray α} {l : List α} {z x : α} {n idx : UInt64} {mem : Option (ℕ → α)}

theorem elems_zero (a : XArray α) (n : UInt64) : a.elems 0 n = (List.range n.toNat).map a.data := by
  refine map_congr_left fun k _ => ?_
  show a.data (0 + k) = a.data k
  rw [Nat.zero_add]

theorem Holds.eq_map (h : a.Holds l) : l = (List.range a.len.toNat).map a.data := by
  rw [← h.elems, elems_zero]

theorem Holds.length (h : a.Holds l) : l.length = a.len.toNat := by
  rw [h.eq_map, length_map, length_range]

theorem Holds.get (h : a.Holds l) {i : ℕ} (hi : i < l.length) : l[i] = a.data i := by
  have hl := h.eq_map
  subst hl
  simp

theorem Holds.toNat_mul (h : a.Holds l) (hn : n.toNat ≤ a.cap.toNat) :
    (n * a.elemSize).toNat = n.toNat * a.elemSize.toNat := by
  have hle := Nat.mul_le_mul_right a.elemSize.toNat hn
  have hall := h.allocated
  have hsize := a.size.toNat_lt
  rw [UInt64.toNat_mul]
  exact Nat.mod_eq_of_lt (by omega)

theorem Holds.covered (h : a.Holds l) (hn : n.toNat ≤ a.cap.toNat) : a.covered n = n.toNat := by
  unfold XArray.covered
  rw [h.toNat_mul hn, Nat.mul_div_cancel _ h.pos]

theorem Holds.toNat_add (h : a.Holds l) (hn : n.toNat ≤ a.len.toNat) : (n + 1).toNat = n.toNat + 1 := by
  have hle := Nat.mul_le_mul h.len h.pos
  have hall := h.allocated
  have hsize := a.size.toNat_lt
  have hheader : header.toNat = 48 := rfl
  rw [UInt64.toNat_add]
  exact Nat.mod_eq_of_lt (by show n.toNat + 1 < 2 ^ 64; omega)

theorem Holds.elems_eq (h : a.Holds l) {i j : UInt64} (hij : i.toNat ≤ j.toNat) (hj : j ≤ a.len) :
    a.elems i j = (l.drop i.toNat).take (j.toNat - i.toNat) := by
  rw [UInt64.le_iff_toNat_le] at hj
  have hlen := h.length
  refine ext_getElem (by simp [XArray.elems]; omega) fun k hk _ => ?_
  simp only [XArray.elems, length_map, length_range] at hk
  simp only [XArray.elems, getElem_map, getElem_range, getElem_take, getElem_drop]
  exact (h.get (by omega)).symm

theorem le_nextCap (current needed : UInt64) : needed ≤ nextCap current needed := by
  unfold nextCap
  split_ifs with h
  · exact UInt64.le_iff_toNat_le.2 (Nat.le_of_lt_succ needed.toNat_lt)
  · exact le_doubled needed _ _ _

/-- A growth that fits makes the room and keeps the elements; one without memory keeps all. -/
theorem Holds.grow (h : a.Holds l) {needed : UInt64} (hf : a.Fits needed mem) :
    (∃ b, a.grow needed mem = (.ok, b) ∧ b.Holds l ∧ b.len = a.len ∧ needed.toNat ≤ b.cap.toNat) ∨
      mem.isNone = true ∧ a.grow needed mem = (.noMemory, a) := by
  unfold XArray.grow
  by_cases hroom : needed ≤ a.cap
  · rw [if_pos hroom]
    exact .inl ⟨a, rfl, h, rfl, UInt64.le_iff_toNat_le.1 hroom⟩
  rw [if_neg hroom]
  cases mem with
  | none => exact .inr ⟨rfl, rfl⟩
  | some fresh =>
    have hlt := UInt64.not_le.1 hroom
    have hfit := hf hlt rfl
    have hnext := UInt64.le_iff_toNat_le.1 (le_nextCap a.cap needed)
    rw [UInt64.lt_iff_toNat_lt] at hlt
    have hlen := h.len
    have hall := h.allocated
    have hsize : (header + nextCap a.cap needed * a.elemSize).toNat =
        header.toNat + (nextCap a.cap needed).toNat * a.elemSize.toNat := by
      rw [UInt64.toNat_add, UInt64.toNat_mul, Nat.mod_eq_of_lt (by omega : (nextCap a.cap needed).toNat * _ < 2 ^ 64),
        Nat.mod_eq_of_lt hfit]
    refine .inl ⟨_, rfl, ⟨h.pos, ?_, hsize.ge, ?_⟩, rfl, hnext⟩
    · show a.len.toNat ≤ (nextCap a.cap needed).toNat
      omega
    · rw [elems_zero, h.eq_map]
      refine map_congr_left fun k hk => if_pos ?_
      have hk : k < a.len.toNat := mem_range.1 hk
      have hcap := Nat.mul_le_mul_right a.elemSize.toNat (show k + 1 ≤ a.cap.toNat by omega)
      have hcap' := Nat.mul_le_mul_right a.elemSize.toNat (show k + 1 ≤ (nextCap a.cap needed).toNat by omega)
      rw [hsize]
      omega

/-- The elements of another length in other slots. -/
theorem Holds.change (h : a.Holds l) {data : ℕ → α} {len : UInt64} {l' : List α} (hlen : len.toNat ≤ a.cap.toNat)
    (hl : (List.range len.toNat).map data = l') : Holds { a with data, len } l' :=
  ⟨h.pos, hlen, h.allocated, (elems_zero _ _).trans hl⟩

theorem Holds.shorter (h : a.Holds l) (hn : n ≤ a.len) : Holds { a with len := n } (l.take n.toNat) := by
  have hle := UInt64.le_iff_toNat_le.1 hn
  refine h.change (le_trans hle h.len) ?_
  rw [h.eq_map, ← map_take, take_range, Nat.min_eq_left hle]

theorem map_range_eq {data : ℕ → α} {k : ℕ} {l' : List α} (hlen : l'.length = k)
    (hget : ∀ i (hi : i < l'.length), data i = l'[i]) : (List.range k).map data = l' :=
  ext_getElem (by simp [hlen]) fun i _ hi => by rw [getElem_map, getElem_range, hget i hi]

theorem Holds.fill (h : a.Holds l) (hle : a.len ≤ n) (hn : n.toNat ≤ a.cap.toNat) (z : α) :
    Holds { a with data := blit a.data a.len.toNat (fun _ => z) (n.toNat - a.len.toNat), len := n }
      (l ++ replicate (n.toNat - l.length) z) := by
  have hlen := h.length
  rw [UInt64.le_iff_toNat_le] at hle
  refine h.change hn (map_range_eq (by simp; omega) fun i hi => ?_)
  simp only [length_append, length_replicate] at hi
  unfold blit
  split_ifs with hin
  · rw [getElem_append_right (by omega), getElem_replicate]
  · rw [getElem_append_left (by omega), h.get]

theorem Holds.push (h : a.Holds l) (hf : a.Fits (a.len + 1) mem) :
    ∃ l', Spec z l (.push mem) (a.push z mem).1 l' ∧ (a.push z mem).2.Holds l' := by
  unfold XArray.push
  obtain ⟨b, hb, hholds, hlen, hroom⟩ | ⟨hmem, hb⟩ := h.grow hf
  · have hadd := h.toNat_add (Nat.le_refl a.len.toNat)
    have hfill := hholds.fill (n := b.len + 1) (UInt64.le_iff_toNat_le.2 (by rw [hlen, hadd]; omega))
      (by rw [hlen]; exact hroom) z
    have hone : a.len.toNat + 1 - l.length = 1 := by
      rw [h.length]
      omega
    rw [hlen, hadd, Nat.add_sub_cancel_left, hone, replicate_one] at hfill
    rw [hb]
    refine ⟨l ++ [z], .inl ?_, ?_⟩
    · simp [onList, blit]
    · simpa only [hlen] using hfill
  · rw [hb]
    exact ⟨l, .inr ⟨hmem, rfl, rfl⟩, h⟩

theorem Holds.pop (h : a.Holds l) : ∃ l', Spec z l .pop a.pop.1 l' ∧ a.pop.2.Holds l' := by
  have hlen := h.length
  unfold XArray.pop
  split_ifs with h0
  · have hnil : l = [] := length_eq_zero_iff.1 (hlen.trans (by rw [h0]; rfl))
    subst hnil
    exact ⟨[], .inl rfl, h⟩
  · have hpos : a.len.toNat ≠ 0 := fun hz => h0 (UInt64.toNat_inj.1 hz)
    have hle : 1 ≤ a.len := UInt64.le_iff_toNat_le.2 (by show 1 ≤ a.len.toNat; omega)
    have hsub : (a.len - 1).toNat = a.len.toNat - 1 := UInt64.toNat_sub_of_le _ _ hle
    have hlast : l.getLast? = some (a.data (a.len - 1).toNat) := by
      rw [getLast?_eq_getElem?, getElem?_eq_getElem (by omega), h.get, hlen, hsub]
    refine ⟨l.dropLast, .inl ?_, ?_⟩
    · simp only [onList, hlast]
    · rw [dropLast_eq_take, hlen, ← hsub]
      exact h.shorter (UInt64.le_iff_toNat_le.2 (by omega))

theorem Holds.resize (h : a.Holds l) (hf : a.Fits n mem) :
    ∃ l', Spec z l (.resize n mem) (a.resize z n mem).1 l' ∧ (a.resize z n mem).2.Holds l' := by
  have hlen := h.length
  unfold XArray.resize
  split_ifs with hlt
  · have hle := UInt64.le_of_lt hlt
    refine ⟨_, .inl ?_, h.shorter hle⟩
    rw [UInt64.lt_iff_toNat_lt, ← hlen] at hlt
    rw [onList, if_pos hlt, h.elems_eq (by omega) (UInt64.le_refl _), ← hlen, take_of_length_le (by simp)]
  · have hge := UInt64.not_lt.1 hlt
    rw [UInt64.lt_iff_toNat_lt, ← hlen] at hlt
    have honly : onList z l (.resize n mem) =
        (⟨.ok, replicate (n.toNat - l.length) z, []⟩, l ++ replicate (n.toNat - l.length) z) := if_neg hlt
    obtain ⟨b, hb, hholds, hblen, hroom⟩ | ⟨hmem, hb⟩ := h.grow hf
    · rw [hb]
      dsimp only
      rw [hblen]
      split_ifs with hmore
      · have hsub : (n - a.len).toNat = n.toNat - a.len.toNat := UInt64.toNat_sub_of_le _ _ hge
        have hfill := hholds.fill (hblen ▸ hge) hroom z
        rw [hholds.covered (by omega), hsub, ← hblen]
        refine ⟨_, .inl ?_, hfill⟩
        rw [honly, hfill.elems_eq (hblen ▸ UInt64.le_iff_toNat_le.1 hge) (UInt64.le_refl _), hblen, ← hlen, drop_left,
          take_of_length_le (by simp)]
      · have hz : n.toNat - l.length = 0 := by
          rw [UInt64.lt_iff_toNat_lt] at hmore
          omega
        rw [hz, replicate_zero, List.append_nil] at honly
        exact ⟨l, .inl honly.symm, hholds⟩
    · rw [hb]
      exact ⟨l, .inr ⟨hmem, by rw [honly], rfl⟩, h⟩

theorem Holds.insert (h : a.Holds l) {elem : Option α}
    (hf : elem.isSome = true → idx ≤ a.len → a.Fits (a.len + 1) mem) :
    ∃ l', Spec z l (.insert idx elem mem) (a.insert idx elem mem).1 l' ∧ (a.insert idx elem mem).2.Holds l' := by
  have hlen := h.length
  unfold XArray.insert
  cases elem with
  | none => exact ⟨l, .inl rfl, h⟩
  | some x =>
    dsimp only
    split_ifs with hlt
    · refine ⟨l, .inl ?_, h⟩
      rw [UInt64.lt_iff_toNat_lt, ← hlen] at hlt
      exact (if_neg (Nat.not_le.2 hlt)).symm
    have hle := UInt64.le_iff_toNat_le.1 (UInt64.not_lt.1 hlt)
    have honly : onList z l (.insert idx (some x) mem) =
        (⟨.ok, [x], []⟩, l.insertIdx idx.toNat x) := if_pos (hlen ▸ hle)
    obtain ⟨b, hb, hholds, hblen, hroom⟩ | ⟨hmem, hb⟩ := h.grow (hf rfl (UInt64.not_lt.1 hlt))
    · have hadd := h.toNat_add (Nat.le_refl a.len.toNat)
      rw [hb]
      dsimp only
      have hins : (l.insertIdx idx.toNat x).length = (a.len + 1).toNat := by
        rw [length_insertIdx, if_pos (hlen ▸ hle), hadd, hlen]
      rw [hblen]
      refine ⟨_, .inl ?_, hholds.change hroom (map_range_eq hins fun i hi => ?_)⟩
      · rw [honly]
        simp [blit]
      · have hmem := hholds.len
        rw [hins, hadd] at hi
        rw [getElem_insertIdx]
        unfold blit
        rcases Nat.lt_trichotomy i idx.toNat with hi' | hi' | hi'
        · rw [dif_pos hi', if_neg (by omega), hholds.get]
          split_ifs with hmore
          · rw [h.toNat_add hle]
            exact if_neg (by omega)
          · rfl
        · rw [dif_neg (by omega), dif_pos hi', if_pos (by omega)]
        · have hmore : idx < a.len := UInt64.lt_iff_toNat_lt.2 (by omega)
          have hsub := UInt64.toNat_sub_of_le _ _ (UInt64.le_of_lt hmore)
          have hcov : b.covered (a.len - idx) = a.len.toNat - idx.toNat := by
            rw [hholds.covered (by rw [hblen] at hmem; omega), hsub]
          rw [dif_neg (by omega), dif_neg (by omega), if_neg (by omega), if_pos hmore, hcov, h.toNat_add hle, hholds.get]
          refine (if_pos (by omega)).trans (congrArg b.data ?_)
          omega
    · rw [hb]
      exact ⟨l, .inr ⟨hmem, by rw [honly], rfl⟩, h⟩

theorem Holds.removeRange (h : a.Holds l) {start count : UInt64}
    (hempty : count = 0 → start ≤ a.len) (hwrap : start + count ≤ a.len → start.toNat + count.toNat < 2 ^ 64) :
    ∃ l', Spec z l (.removeRange start count) (a.removeRange start count).1 l' ∧
      (a.removeRange start count).2.Holds l' := by
  have hlen := h.length
  unfold XArray.removeRange
  by_cases h0 : count = 0
  · rw [if_pos h0]
    refine ⟨l, .inl ?_, h⟩
    have hin : start.toNat + (0 : UInt64).toNat ≤ l.length := hlen ▸ UInt64.le_iff_toNat_le.1 (hempty h0)
    rw [h0, onList, if_pos hin]
    simp
  rw [if_neg h0]
  by_cases hlt : a.len < start + count
  · rw [if_pos hlt]
    refine ⟨l, .inl ?_, h⟩
    have hmod : (start + count).toNat ≤ start.toNat + count.toNat := by
      rw [UInt64.toNat_add]
      exact Nat.mod_le _ _
    rw [UInt64.lt_iff_toNat_lt] at hlt
    exact (if_neg (by omega)).symm
  rw [if_neg hlt]
  have hle := UInt64.not_lt.1 hlt
  have hsum : (start + count).toNat = start.toNat + count.toNat := by
    rw [UInt64.toNat_add]
    exact Nat.mod_eq_of_lt (hwrap hle)
  have hend := UInt64.le_iff_toNat_le.1 hle
  rw [hsum] at hend
  have hrest : (a.len - start - count).toNat = a.len.toNat - (start.toNat + count.toNat) := by
    have hstart : (a.len - start).toNat = a.len.toNat - start.toNat :=
      UInt64.toNat_sub_of_le _ _ (UInt64.le_iff_toNat_le.2 (by omega))
    rw [UInt64.toNat_sub_of_le _ _ (UInt64.le_iff_toNat_le.2 (by omega)), hstart]
    omega
  have hcov : a.covered (a.len - start - count) = a.len.toNat - (start.toNat + count.toNat) := by
    rw [h.covered (by have := h.len; omega), hrest]
  have hless : (a.len - count).toNat = a.len.toNat - count.toNat :=
    UInt64.toNat_sub_of_le _ _ (UInt64.le_iff_toNat_le.2 (by omega))
  refine ⟨l.take start.toNat ++ l.drop (start.toNat + count.toNat), .inl ?_,
    h.change (by have := h.len; omega) (map_range_eq (by simp; omega) fun i hi => ?_)⟩
  · rw [onList, if_pos (by omega), h.elems_eq (by omega) hle, hsum, Nat.add_sub_cancel_left]
  · simp only [length_append, length_take, length_drop] at hi
    rw [getElem_append]
    simp only [length_take, Nat.min_eq_left (show start.toNat ≤ l.length by omega)]
    split_ifs with hmore hi' hi'
    · rw [getElem_take, h.get]
      exact if_neg (by omega)
    · rw [getElem_drop, h.get, hcov, hsum]
      refine (if_pos (by omega)).trans (congrArg a.data ?_)
      omega
    · rw [getElem_take, h.get]
    · rw [UInt64.lt_iff_toNat_lt] at hmore
      omega

theorem Holds.reset (h : a.Holds l) : Spec z l .reset a.reset.1 [] ∧ a.reset.2.Holds [] := by
  refine ⟨.inl ?_, h.shorter (n := 0) (UInt64.le_iff_toNat_le.2 (Nat.zero_le _))⟩
  show (ArrResult.mk .ok [] (a.elems 0 a.len), []) = _
  rw [h.elems]
  rfl

theorem Holds.step (h : a.Holds l) (op : ArrOp α) (hop : a.Admitted op) :
    ∃ l', Spec z l op (a.step z op).1 l' ∧ (a.step z op).2.Holds l' := by
  cases op with
  | push mem => exact h.push hop
  | pop => exact h.pop
  | resize newLen mem => exact h.resize hop
  | insert idx elem mem => exact h.insert hop
  | removeRange start count => exact h.removeRange hop.1 hop.2
  | reset => exact ⟨[], h.reset⟩

theorem holds_create {elemSize cap : UInt64} {m : Option Unit} (h : create elemSize cap z m = some a)
    (hfit : header.toNat + (firstCap cap).toNat * elemSize.toNat < 2 ^ 64) : a.Holds [] := by
  unfold create at h
  split_ifs at h with h0
  obtain ⟨-, -, rfl⟩ := Option.map_eq_some_iff.1 h
  have hsize : (header + firstCap cap * elemSize).toNat = header.toNat + (firstCap cap).toNat * elemSize.toNat := by
    rw [UInt64.toNat_add, UInt64.toNat_mul, Nat.mod_eq_of_lt (by omega : (firstCap cap).toNat * _ < 2 ^ 64),
      Nat.mod_eq_of_lt hfit]
  exact ⟨Nat.pos_of_ne_zero fun hz => h0 (UInt64.toNat_inj.1 hz), Nat.zero_le _, hsize.ge, rfl⟩

/-! ### Ownership -/

/-- What was in the list and what came is what went and what is in it. -/
theorem Spec.perm {op : ArrOp α} {r : ArrResult α} {l' : List α} (h : Spec z l op r l') :
    (l ++ r.retained).Perm (r.released ++ l') := by
  rcases h with h | ⟨-, -, h⟩
  · cases op with
    | push mem | reset =>
      obtain ⟨rfl, rfl⟩ := Prod.mk.inj h
      exact Perm.refl _
    | pop =>
      simp only [onList] at h
      split at h
      · obtain ⟨rfl, rfl⟩ := Prod.mk.inj h
        simp
      · rename_i x hx
        obtain ⟨rfl, rfl⟩ := Prod.mk.inj h
        rw [List.append_nil, ← dropLast_append_getLast? x hx]
        simp
    | resize n mem =>
      simp only [onList] at h
      split_ifs at h
      · obtain ⟨rfl, rfl⟩ := Prod.mk.inj h
        simpa using (perm_append_comm : (l.take n.toNat ++ l.drop n.toNat).Perm _)
      · obtain ⟨rfl, rfl⟩ := Prod.mk.inj h
        exact Perm.refl _
    | insert idx elem mem =>
      cases elem with
      | none =>
        obtain ⟨rfl, rfl⟩ := Prod.mk.inj h
        simp
      | some x =>
        simp only [onList] at h
        split_ifs at h
        · obtain ⟨rfl, rfl⟩ := Prod.mk.inj h
          exact (perm_append_singleton x l).trans (perm_insertIdx x l ‹_›).symm
        · obtain ⟨rfl, rfl⟩ := Prod.mk.inj h
          simp
    | removeRange start count =>
      simp only [onList] at h
      split_ifs at h
      · obtain ⟨rfl, rfl⟩ := Prod.mk.inj h
        have hsplit : l = l.take start.toNat ++ ((l.drop start.toNat).take count.toNat ++
            l.drop (start.toNat + count.toNat)) := by
          rw [← drop_drop, take_append_drop, take_append_drop]
        rw [List.append_nil]
        conv_lhs => rw [hsplit]
        exact perm_append_comm_assoc _ _ _
      · obtain ⟨rfl, rfl⟩ := Prod.mk.inj h
        simp
  · obtain ⟨rfl, rfl⟩ := Prod.mk.inj h
    simp

theorem perm_of_traces {ops : List (ArrOp α)} {rs : List (ArrResult α)} {l' : List α}
    (h : Traces (Spec z) l ops rs l') :
    (l ++ rs.flatMap (·.retained)).Perm (rs.flatMap (·.released) ++ l') := by
  induction h with
  | nil l => simp
  | @cons l l' l'' op ops r rs hspec _ ih =>
    simp only [flatMap_cons]
    calc l ++ (r.retained ++ rs.flatMap (·.retained))
        = (l ++ r.retained) ++ rs.flatMap (·.retained) := (append_assoc _ _ _).symm
      _ ~ (r.released ++ l') ++ rs.flatMap (·.retained) := hspec.perm.append_right _
      _ = r.released ++ (l' ++ rs.flatMap (·.retained)) := append_assoc _ _ _
      _ ~ r.released ++ (rs.flatMap (·.released) ++ l'') := ih.append_left _
      _ = (r.released ++ rs.flatMap (·.released)) ++ l'' := (append_assoc _ _ _).symm

/-- The calls do what they do on a list, the allocation holds the capacity, and with what `xArrayDestroy` passes to
`release`, every element that was retained is released once. -/
def Exact (z : α) (a : XArray α) (ops : List (ArrOp α)) : Prop :=
  ∃ l, Traces (Spec z) [] ops (exec (step z) a ops).1 l ∧ (exec (step z) a ops).2.Holds l ∧
    (exec (step z) a ops).2.destroy = l ∧
    ((exec (step z) a ops).1.flatMap (·.retained)).Perm
      ((exec (step z) a ops).1.flatMap (·.released) ++ (exec (step z) a ops).2.destroy)

/-- **An array is a list**, in every sequence of admitted calls on one whose first allocation fits. -/
theorem list_of_calls {elemSize cap : UInt64} {m : Option Unit} (h : create elemSize cap z m = some a)
    (hfit : header.toNat + (firstCap cap).toNat * elemSize.toNat < 2 ^ 64) {ops : List (ArrOp α)}
    (hops : Admits (step z) Admitted a ops) : Exact z a ops := by
  obtain ⟨l, htrace, hholds⟩ := Traces.of_exec (R := Holds) (fun _ _ op hR hop => hR.step op hop) (holds_create h hfit) hops
  refine ⟨l, htrace, hholds, hholds.elems, ?_⟩
  rw [show (exec (step z) a ops).2.destroy = l from hholds.elems]
  exact perm_of_traces htrace

/-- Two elements are pushed, the first is removed, and the array is resized to three. -/
theorem list_of_calls_three : Exact 0 (⟨8, 0, 8, fun _ => 0, 112⟩ : XArray ℕ)
    [.push none, .push none, .removeRange 0 1, .resize 3 none] :=
  @list_of_calls _ _ 0 8 0 (some ()) rfl (by decide) _
    ⟨fun _ h => (nomatch h), fun _ h => (nomatch h), ⟨fun h => absurd h (by decide), fun _ => by decide⟩,
      fun _ h => (nomatch h), trivial⟩

/-- A range whose end wraps is removed from an array of one element, which then has two. -/
theorem not_exact_wrapped : create 8 0 0 (some ()) = some (⟨8, 0, 8, fun _ => 0, 112⟩ : XArray ℕ) ∧
    ¬Exact 0 (⟨8, 0, 8, fun _ => 0, 112⟩ : XArray ℕ) [.push none, .removeRange 1 0xFFFFFFFFFFFFFFFF] := by
  refine ⟨rfl, ?_⟩
  rintro ⟨l, -, -, -, hperm⟩
  exact absurd hperm.length_eq (by decide)

end XArray

end Libx.Base
