import Libx.Fer.Honest

/-!
# Libx.Fer.Patch — what a transfer makes of what it finds
-/

namespace Libx.Fer

open Libx.Core (overwrites overwrites_cons getD_overwrite_mem getD_overwrite_of_not length_overwrites_le le_length_overwrites length_le_overwrites)
open Libx.Agent (Bytes)
open Libx.Turn (Text)

/-- The bitmap and the .part file of an earlier transfer, as far as a receiver takes them over. -/
def Source.resumed (dir : Text 511) (d : Disk) (f : Source) : Option (Bitmap × Bytes) :=
  match (d (f.bitmapPath dir)).bind bitmapLoad with
  | none => none
  | some bm => if bm.nbits = f.totalChunks then (d (f.partPath dir)).map (fun p => (bm, p)) else none

def Source.freshBitmap (f : Source) : Bitmap := ⟨f.totalChunks, List.replicate (bitsToBytes f.totalChunks) 0⟩

def Source.start (dir : Text 511) (d : Disk) (f : Source) : Bitmap × Bytes :=
  (f.resumed dir d).getD (f.freshBitmap, posixTruncate f.content.length [])

/-- The chunks from one on that a bitmap does not have. -/
def Source.owed (b : Bitmap) (k : ℕ) (f : Source) : List ℕ :=
  (List.range' k (f.totalChunks - k)).filter (fun i => ¬ b.Has i)

def Source.writes (ids : List ℕ) (f : Source) : List (ℕ × Bytes) := ids.map (fun i => (i * defaultChunkSize, f.chunk i))

/-- The byte is in a chunk that the sender is asked for. -/
def Source.Sent (b : Bitmap) (q : ℕ) (f : Source) : Prop :=
  q / defaultChunkSize < f.totalChunks ∧ ¬ b.Has (q / defaultChunkSize)

/-- What the sender is not asked for is there: .part is not longer than the file, it has its length or gets it, and
the bytes that are not sent are right (zero, beyond the end). -/
def Source.Whole (b : Bitmap) (p : Bytes) (f : Source) : Prop :=
  p.length ≤ f.content.length ∧ (p.length = f.content.length ∨ f.Sent b (f.content.length - 1)) ∧
    ∀ q < f.content.length, f.Sent b q ∨ p.getD q 0 = f.content.getD q 0

/-- The number of chunks is not zero and fits the bitmap's arithmetic, and what is not sent is there. -/
def Source.Good (dir : Text 511) (d : Disk) (f : Source) : Prop :=
  f.totalChunks ≠ 0 ∧ f.totalChunks + 7 < 4294967296 ∧ f.Whole (f.start dir d).1 (f.start dir d).2

variable {f : Source} {b : Bitmap} {p : Bytes} {i k q : ℕ} {ids : List ℕ}

theorem mem_owed : i ∈ f.owed b k ↔ k ≤ i ∧ i < f.totalChunks ∧ ¬ b.Has i := by
  unfold Source.owed
  rw [List.mem_filter, List.mem_range'_1, decide_eq_true_eq]
  constructor
  · rintro ⟨⟨h1, h2⟩, h3⟩
    exact ⟨h1, by omega, h3⟩
  · rintro ⟨h1, h2, h3⟩
    exact ⟨⟨h1, by omega⟩, h3⟩

theorem nodup_owed (b : Bitmap) (k : ℕ) (f : Source) : (f.owed b k).Nodup := List.Nodup.filter _ List.nodup_range'

theorem owed_of_has (h : b.Has k) : f.owed b k = f.owed b (k + 1) := by
  unfold Source.owed
  by_cases hk : k < f.totalChunks
  · obtain ⟨n, hn⟩ := Nat.exists_eq_add_of_lt hk
    have h1 : f.totalChunks - k = n + 1 := by omega
    have h2 : f.totalChunks - (k + 1) = n := by omega
    rw [h1, h2, List.range'_succ, List.filter_cons_of_neg (by simpa using h)]
  · rw [Nat.sub_eq_zero_of_le (Nat.le_of_not_lt hk), Nat.sub_eq_zero_of_le (by omega)]
    rfl

theorem owed_of_not_has (hk : k < f.totalChunks) (h : ¬ b.Has k) : f.owed b k = k :: f.owed b (k + 1) := by
  unfold Source.owed
  obtain ⟨n, hn⟩ := Nat.exists_eq_add_of_lt hk
  have h1 : f.totalChunks - k = n + 1 := by omega
  have h2 : f.totalChunks - (k + 1) = n := by omega
  rw [h1, h2, List.range'_succ, List.filter_cons_of_pos (by simpa using h)]

theorem owed_of_le (hk : f.totalChunks ≤ k) : f.owed b k = [] := by
  unfold Source.owed
  rw [Nat.sub_eq_zero_of_le hk]
  rfl

/-! ### The writes -/

theorem length_chunk_eq (f : Source) (i : ℕ) : (f.chunk i).length = min 65536 (f.content.length - i * 65536) := by
  unfold Source.chunk
  rw [List.length_take, List.length_drop]
  rfl

theorem getD_writes (ids : List ℕ) (p : Bytes) (q : ℕ) :
    (overwrites 0 (f.writes ids) p).getD q 0 =
      if q / defaultChunkSize ∈ ids ∧ q < f.content.length then f.content.getD q 0 else p.getD q 0 := by
  induction ids generalizing p with
  | nil => rfl
  | cons i ids ih =>
    have hlen := length_chunk_eq f i
    rw [Source.writes, List.map_cons, overwrites_cons, ← Source.writes, ih]
    unfold defaultChunkSize
    by_cases hq : q / 65536 ∈ ids ∧ q < f.content.length
    · rw [if_pos hq, if_pos ⟨List.mem_cons_of_mem _ hq.1, hq.2⟩]
    · rw [if_neg hq]
      by_cases hi : i * 65536 ≤ q ∧ q < i * 65536 + (f.chunk i).length
      · have heq : q / 65536 = i := by omega
        have hbyte := getElem?_chunk (f := f) (i := i) (show q - i * 65536 < 65536 by omega)
        unfold defaultChunkSize at hbyte
        rw [getD_overwrite_mem hi.1 hi.2, if_pos ⟨heq ▸ List.mem_cons_self, by omega⟩, List.getD_eq_getElem?_getD,
          hbyte, Nat.add_sub_cancel' hi.1, List.getD_eq_getElem?_getD]
      · rw [getD_overwrite_of_not hi, if_neg]
        rintro ⟨hmem, hlt⟩
        rcases List.mem_cons.mp hmem with heq | hmem
        · exact hi (by omega)
        · exact hq ⟨hmem, hlt⟩

theorem end_writes {w : ℕ × Bytes} (hids : ∀ i ∈ ids, i < f.totalChunks) (hw : w ∈ f.writes ids) :
    w.1 + w.2.length ≤ f.content.length := by
  obtain ⟨i, hi, rfl⟩ := List.mem_map.mp hw
  have h := lt_of_lt_totalChunks (hids i hi)
  rw [length_chunk_eq]
  unfold defaultChunkSize at h ⊢
  omega

theorem sent_iff : f.Sent b q ↔ q / defaultChunkSize ∈ f.owed b 0 := by
  rw [mem_owed]
  exact ⟨fun h => ⟨Nat.zero_le _, h⟩, fun h => h.2⟩

/-- **The patched file is the file** just where what was not sent is there. -/
theorem overwrites_owed_iff : overwrites 0 (f.writes (f.owed b 0)) p = f.content ↔ f.Whole b p := by
  have hids : ∀ i ∈ f.owed b 0, i < f.totalChunks := fun i hi => (mem_owed.mp hi).2.1
  constructor
  · intro h
    have hlen : p.length ≤ f.content.length := h ▸ length_le_overwrites _ _
    refine ⟨hlen, ?_, fun q hq => ?_⟩
    · by_contra hno
      obtain ⟨hne, hlast⟩ := not_or.mp hno
      -- no write reaches the last byte
      have hle : (overwrites 0 (f.writes (f.owed b 0)) p).length ≤ f.content.length - 1 := by
        refine length_overwrites_le (by omega) (fun w hw => ?_)
        obtain ⟨i, hi, rfl⟩ := List.mem_map.mp hw
        have hi' : i ≠ (f.content.length - 1) / defaultChunkSize := by
          rintro rfl
          exact hlast (sent_iff.mpr hi)
        have hlt := lt_of_lt_totalChunks (hids i hi)
        rw [length_chunk_eq]
        unfold defaultChunkSize at hlt hi' ⊢
        omega
      rw [h] at hle
      omega
    · by_cases hs : f.Sent b q
      · exact .inl hs
      · refine .inr ?_
        rw [← h, getD_writes, if_neg (fun hq => hs (sent_iff.mpr hq.1))]
  · rintro ⟨hle, hend, hbytes⟩
    have hlen : (overwrites 0 (f.writes (f.owed b 0)) p).length = f.content.length := by
      refine Nat.le_antisymm (length_overwrites_le hle (fun w hw => end_writes hids hw)) ?_
      rcases hend with heq | hs
      · rw [← heq]
        exact length_le_overwrites _ _
      · have hmem := sent_iff.mp hs
        have hlt := lt_of_lt_totalChunks (hids _ hmem)
        have hwrite : (((f.content.length - 1) / defaultChunkSize) * defaultChunkSize,
            f.chunk ((f.content.length - 1) / defaultChunkSize)) ∈ f.writes (f.owed b 0) :=
          List.mem_map.mpr ⟨_, hmem, rfl⟩
        have hreach := le_length_overwrites (z := 0) (l := p) hwrite (chunk_ne_nil (hids _ hmem))
        refine le_trans ?_ hreach
        rw [length_chunk_eq]
        unfold defaultChunkSize at hlt ⊢
        omega
    refine List.ext_getElem hlen (fun q h1 h2 => ?_)
    rw [← List.getD_eq_getElem _ 0 h1, ← List.getD_eq_getElem _ 0 h2, getD_writes]
    split_ifs with hq
    · rfl
    · exact (hbytes q h2).resolve_left (fun hs => hq ⟨sent_iff.mp hs, h2⟩)

end Libx.Fer
