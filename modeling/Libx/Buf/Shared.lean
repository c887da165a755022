import Libx.Buf.Owned
import Libx.Core.Refine

/-!
# Libx.Buf.Shared — what the operations do to bytes and counts
-/

namespace Libx.Buf.Blocks

open Libx.Agent (Bytes)
open Store List

/-- A ref that is not empty and does not leave its block. -/
structure Ref.Fits (r : Ref) : Prop where
  positive : 0 < r.length
  within : r.offset + r.length ≤ blockSize

variable {refs : List Ref}

theorem forall_fits_concat {r : Ref} (h : ∀ r ∈ refs, r.Fits) (hr : r.Fits) :
    ∀ r' ∈ refs ++ [r], r'.Fits := by
  intro r' hr'
  rcases mem_append.mp hr' with h' | h'
  · exact h r' h'
  · rwa [mem_singleton.mp h']

/-- The bytes are counted, and the refs fit. -/
structure Buffer.Sound (io : Buffer) : Prop where
  nbytes : io.nbytes = (io.refs.map Ref.length).sum
  fits : ∀ r ∈ io.refs, r.Fits

/-- Nothing but the allocator was used. -/
structure Idle (s t : Store) : Prop where
  count : t.count = s.count
  pool : t.pool = s.pool
  fresh : t.fresh = s.fresh
  data : t.data = s.data
  mem : t.mem ⊆ s.mem

namespace Idle

variable {s t : Store} {u : ℕ → ℕ}

theorem refl (s : Store) : Idle s s := ⟨rfl, rfl, rfl, rfl, List.Subset.refl _⟩

theorem malloc (s : Store) : Idle s s.malloc.2 := ⟨rfl, rfl, rfl, rfl, tail_subset _⟩

theorem owned (h : Idle s t) (ho : Owned s u) : Owned t u := ho.congr h.count h.pool h.fresh

end Idle

variable {s : Store}

theorem false_mem_of_malloc (h : s.malloc.1 = false) : false ∈ s.mem := by
  unfold Store.malloc at h
  cases hmem : s.mem with
  | nil => simp [hmem] at h
  | cons ok mem => simp_all

variable {io io' : Buffer} {t : Store}

theorem grow_spec {needed : ℕ} {ok : Bool} (h : grow needed io s = (ok, io', t)) :
    Idle s t ∧ io'.refs = io.refs ∧ io'.nbytes = io.nbytes ∧ (ok = false → false ∈ s.mem) := by
  unfold grow at h
  by_cases hle : needed ≤ io.cap
  · rw [if_pos hle] at h
    cases h
    exact ⟨.refl s, rfl, rfl, nofun⟩
  · rw [if_neg hle] at h
    cases hm : s.malloc.1 with
    | true =>
      rw [hm] at h
      cases h
      exact ⟨.malloc s, rfl, rfl, nofun⟩
    | false =>
      rw [hm] at h
      cases h
      exact ⟨.malloc s, rfl, rfl, fun _ => false_mem_of_malloc hm⟩

theorem pushRef_spec {r : Ref} {adj : Bool} {ok : Bool} (hr : 0 < r.length)
    (h : pushRef io r adj s = (ok, io', t)) :
    Idle s t ∧
      (ok = true ∧ io'.refs = io.refs ++ [r] ∧ io'.nbytes = (if adj then io.nbytes + r.length else io.nbytes) ∨
        ok = false ∧ io'.refs = io.refs ∧ io'.nbytes = io.nbytes ∧ false ∈ s.mem) := by
  rw [pushRef, if_neg (by omega)] at h
  generalize hg : grow (io.refs.length + 1) io s = g at h
  obtain ⟨gok, gio, gs⟩ := g
  obtain ⟨hidle, hrefs, hbytes, hmem⟩ := grow_spec hg
  cases gok with
  | true =>
    cases h
    refine ⟨hidle, .inl ⟨rfl, ?_, ?_⟩⟩
    · rw [hrefs]
    · rw [hbytes]
  | false =>
    cases h
    exact ⟨hidle, .inr ⟨rfl, hrefs, hbytes, hmem rfl⟩⟩

/-! ### Adding -/

/-- The ref is not met by `n` bytes that are written behind the last ref of `io`. -/
def Buffer.Spared (io : Buffer) (n : ℕ) (r : Ref) : Prop :=
  ∀ tail ∈ io.refs.getLast?, Apart tail.block (tail.offset + tail.length) n r

/-- Bytes are added to a buffer; whatever else is held, `u` times, keeps its bytes where it is spared. -/
structure Adds (u : ℕ → ℕ) (spared : Ref → Prop) (io : Buffer) (s : Store) (added : Bytes) (io' : Buffer) (t : Store) :
    Prop where
  owned : Owned t (u + uses io'.refs)
  sound : io'.Sound
  mem : t.mem ⊆ s.mem
  others : ∀ r, u r.block ≠ 0 → spared r → t.slice r = s.slice r
  bytes : (∀ r ∈ io.refs.dropLast, spared r) → t.bytesOf io'.refs = s.bytesOf io.refs ++ added

variable {u : ℕ → ℕ} {s' : Store}

theorem Adds.trans {spared : Ref → Prop} {io'' : Buffer} {s'' : Store} {a a' : Bytes}
    (h : Adds u spared io s a io' s') (h' : Adds u (fun _ => True) io' s' a' io'' s'') :
    Adds u spared io s (a ++ a') io'' s'' where
  owned := h'.owned
  sound := h'.sound
  mem := List.Subset.trans h'.mem h.mem
  others r hu hr := (h'.others r hu trivial).trans (h.others r hu hr)
  bytes hown := by rw [h'.bytes fun _ _ => trivial, h.bytes hown, append_assoc]

theorem Adds.refl {spared : Ref → Prop} (ho : Owned s (u + uses io.refs))
    (hs : io.Sound) : Adds u spared io s [] io s where
  owned := ho
  sound := hs
  mem := List.Subset.refl _
  others _ _ _ := rfl
  bytes _ := (List.append_nil _).symm

theorem adds_fill {bytes : Bytes} (ho : Owned s (u + uses io.refs)) (hs : io.Sound)
    (hroom : bytes.length ≤ io.room) (hpos : 0 < io.room) :
    Adds u (io.Spared bytes.length) io s bytes (fill io bytes s).1 (fill io bytes s).2 := by
  rcases eq_nil_or_concat io.refs with hnil | ⟨init, tail, hconcat⟩
  · rw [Buffer.room, hnil] at hpos
    exact absurd hpos (by decide)
  rw [concat_eq_append] at hconcat
  have hlast : io.refs.getLast? = some tail := by rw [hconcat, List.getLast?_concat]
  have hinit : io.refs.dropLast = init := by rw [hconcat, dropLast_concat]
  have htail : tail.Fits := hs.fits tail (by rw [hconcat]; simp)
  have hfit : bytes.length ≤ blockSize - (tail.offset + tail.length) := by
    rw [Buffer.room, hlast] at hroom
    exact hroom
  have hspared {r : Ref} (h : io.Spared bytes.length r) : Apart tail.block (tail.offset + tail.length) bytes.length r :=
    h tail (by rw [hlast]; rfl)
  rw [fill, hlast]
  rw [hinit]
  rw [hconcat] at ho
  constructor
  · have hwrite := ho.write tail.block (tail.offset + tail.length) bytes
    simpa using hwrite
  · refine ⟨?_, forall_fits_concat (fun r hr => hs.fits r (by rw [hconcat]; exact mem_append_left _ hr)) ?_⟩
    · rw [hs.nbytes, hconcat]
      simp [Nat.add_assoc]
    · have hpos := htail.positive
      have hwithin := htail.within
      constructor
      · exact Nat.lt_of_lt_of_le hpos (Nat.le_add_right _ _)
      · dsimp only
        omega
  · exact List.Subset.refl _
  · exact fun r _ hr => slice_write (hspared hr)
  · intro hown
    rw [hconcat, bytesOf_append, bytesOf_append, bytesOf_cons, bytesOf_nil, List.append_nil, slice_write_behind,
      bytesOf_cons, bytesOf_nil, List.append_nil, append_assoc]
    exact congrArg (· ++ _) (bytesOf_congr fun r hr => slice_write (hspared (hown r (by rwa [hinit]))))

theorem adds_push {b : ℕ} {chunk : Bytes} (ho : Owned s (u + uses io.refs))
    (hs : io.Sound) (hacq : s.acquire = (some b, s')) (hne : chunk ≠ []) (hlen : chunk.length ≤ blockSize)
    (hpush : pushRef io ⟨b, 0, chunk.length⟩ true (s'.write b 0 chunk) = (true, io', t)) :
    Adds u (fun _ => True) io s chunk io' t := by
  obtain ⟨hb, ho', hdata, hmem⟩ := ho.acquire hacq
  have hpos : 0 < chunk.length := length_pos_of_ne_nil hne
  obtain ⟨hidle, ⟨-, hrefs, hbytes⟩ | ⟨h, -⟩⟩ := pushRef_spec hpos hpush
  · have hslice (r : Ref) (hr : (u + uses io.refs) r.block ≠ 0) : t.slice r = s.slice r := by
      have hrb : r.block ≠ b := fun h => hr (h ▸ hb)
      calc t.slice r = (s'.write b 0 chunk).slice r := slice_congr fun _ _ => by rw [hidle.data]
        _ = s'.slice r := slice_write (.inr (.inl hrb))
        _ = s.slice r := slice_congr fun _ _ => by rw [hdata]
    have hnew : t.slice ⟨b, 0, chunk.length⟩ = chunk :=
      (slice_congr fun _ _ => by rw [hidle.data]).trans (slice_write_new s' b chunk)
    constructor
    · have h := hidle.owned (ho'.write b 0 chunk)
      rw [hrefs]
      simpa [add_assoc] using h
    · refine ⟨?_, hrefs ▸ forall_fits_concat hs.fits ⟨hpos, by simpa using hlen⟩⟩
      rw [hbytes, hrefs, if_pos rfl, hs.nbytes]
      simp
    · exact List.Subset.trans hidle.mem hmem
    · exact fun r hr _ => hslice r (by simp [hr])
    · intro _
      rw [hrefs, bytesOf_append, bytesOf_cons, bytesOf_nil, List.append_nil, hnew]
      exact congrArg (· ++ _) (bytesOf_congr fun r hr => hslice r (by simp [uses_ne_zero hr]))
  · cases h

theorem adds_unpushed {b : ℕ} {chunk : Bytes}
    (ho : Owned s (u + uses io.refs)) (hs : io.Sound) (hacq : s.acquire = (some b, s')) (hne : chunk ≠ [])
    (hpush : pushRef io ⟨b, 0, chunk.length⟩ true (s'.write b 0 chunk) = (false, io', t)) :
    Adds u (fun _ => True) io s [] io' (t.release b) ∧ false ∈ s.mem := by
  obtain ⟨hb, ho', hdata, hmem⟩ := ho.acquire hacq
  obtain ⟨hidle, ⟨h, -⟩ | ⟨-, hrefs, hbytes, hfail⟩⟩ := pushRef_spec (length_pos_of_ne_nil hne) hpush
  · cases h
  · have hslice (r : Ref) (hr : (u + uses io.refs) r.block ≠ 0) : (t.release b).slice r = s.slice r := by
      have hrb : r.block ≠ b := fun h => hr (h ▸ hb)
      calc (t.release b).slice r = (s'.write b 0 chunk).slice r :=
            slice_congr fun _ _ => by rw [← hidle.data]; rfl
        _ = s'.slice r := slice_write (.inr (.inl hrb))
        _ = s.slice r := slice_congr fun _ _ => by rw [hdata]
    refine ⟨⟨?_, ?_, ?_, ?_, ?_⟩, hmem hfail⟩
    · rw [hrefs]
      exact (hidle.owned (ho'.write b 0 chunk)).release
    · exact ⟨by rw [hbytes, hrefs, hs.nbytes], hrefs ▸ hs.fits⟩
    · exact List.Subset.trans hidle.mem hmem
    · exact fun r hr _ => hslice r (by simp [hr])
    · intro _
      rw [hrefs, List.append_nil]
      exact bytesOf_congr fun r hr => hslice r (by simp [uses_ne_zero hr])

theorem adds_appendBlocks {n : ℕ} {src : Bytes} {ok : Bool} {added : Bytes}
    (ho : Owned s (u + uses io.refs)) (hs : io.Sound) (hn : src.length ≤ n)
    (h : appendBlocks n src io s = (ok, added, io', t)) :
    Adds u (fun _ => True) io s added io' t ∧ added <+: src ∧
      (ok = true → added = src) ∧ (ok = false → added.length < src.length ∧ false ∈ s.mem) := by
  induction n generalizing src io s ok added with
  | zero =>
    obtain rfl : src = [] := eq_nil_of_length_eq_zero (by omega)
    cases h
    exact ⟨.refl ho hs, prefix_refl _, fun _ => rfl, nofun⟩
  | succ n ih =>
    by_cases hempty : src = []
    · rw [appendBlocks, if_pos hempty] at h
      cases h
      subst hempty
      exact ⟨.refl ho hs, prefix_refl _, fun _ => rfl, nofun⟩
    have hpos : 0 < src.length := length_pos_of_ne_nil hempty
    have hne : src.take blockSize ≠ [] := by simp [hempty, blockSize]
    have hlen : (src.take blockSize).length ≤ blockSize := length_take_le _ _
    rw [appendBlocks, if_neg hempty] at h
    generalize hacq : s.acquire = q at h
    obtain ⟨_ | b, s'⟩ := q
    · cases h
      obtain ⟨ho', hdata, hmem, hfail⟩ := ho.acquire_none hacq
      refine ⟨⟨ho', hs, hmem, fun _ _ _ => ?_, fun _ => ?_⟩, nil_prefix, nofun, fun _ => ⟨hpos, hfail⟩⟩
      · exact slice_congr fun _ _ => by rw [hdata]
      · rw [List.append_nil, bytesOf_of_data hdata]
    · dsimp only at h
      generalize hpush : pushRef io ⟨b, 0, (src.take blockSize).length⟩ true (s'.write b 0 (src.take blockSize)) = q at h
      obtain ⟨pok, io₁, s₁⟩ := q
      cases pok with
      | false =>
        cases h
        obtain ⟨hadds, hfail⟩ := adds_unpushed ho hs hacq hne hpush
        exact ⟨hadds, nil_prefix, nofun, fun _ => ⟨hpos, hfail⟩⟩
      | true =>
        have hadds := adds_push ho hs hacq hne hlen hpush
        dsimp only at h
        generalize hrest : appendBlocks n (src.drop blockSize) io₁ s₁ = q at h
        obtain ⟨rok, radded, rio, rs⟩ := q
        cases h
        have hdrop : (src.drop blockSize).length ≤ n := by
          rw [length_drop, blockSize]
          omega
        obtain ⟨hadds', hfront, hok, hfail⟩ := ih hadds.owned hadds.sound hdrop hrest
        have hsplit := take_append_drop blockSize src
        refine ⟨hadds.trans hadds', ?_, fun h => ?_, fun h => ?_⟩
        · conv_rhs => rw [← hsplit]
          exact (prefix_append_right_inj _).mpr hfront
        · rw [hok h, hsplit]
        · obtain ⟨hlt, hmem⟩ := hfail h
          refine ⟨?_, hadds.mem hmem⟩
          have hlen := congrArg List.length hsplit
          rw [length_append] at hlen ⊢
          dsimp only
          omega

/-- **Appending**: all of the bytes, or the first of them where there is no more memory. -/
theorem adds_append {data : Bytes} {ok : Bool}
    (ho : Owned s (u + uses io.refs)) (hs : io.Sound) (h : append io data s = (ok, io', t)) :
    ∃ k, Adds u (io.Spared (min io.room data.length)) io s (data.take k) io' t ∧ k ≤ data.length ∧
      (ok = true → k = data.length) ∧ (ok = false → k < data.length ∧ false ∈ s.mem) := by
  have hchunk : (data.take io.room).length = min io.room data.length := length_take
  unfold append at h
  dsimp only at h
  generalize hf : (if 0 < io.room then fill io (data.take io.room) s else (io, s)) = f at h
  have hfill : Adds u (io.Spared (min io.room data.length)) io s (data.take io.room) f.1 f.2 := by
    subst hf
    by_cases hroom : 0 < io.room
    · rw [if_pos hroom, ← hchunk]
      exact adds_fill ho hs (length_take_le _ _) hroom
    · have hzero : io.room = 0 := by omega
      rw [if_neg hroom, hzero, take_zero]
      exact .refl ho hs
  generalize hb : appendBlocks (data.drop (data.take io.room).length).length (data.drop (data.take io.room).length)
    f.1 f.2 = q at h
  obtain ⟨bok, added, bio, bs⟩ := q
  cases h
  obtain ⟨hadds, hfront, hok, hfail⟩ := adds_appendBlocks hfill.owned hfill.sound le_rfl hb
  have hdrop : data.take io.room ++ data.drop (data.take io.room).length = data := by
    rw [hchunk]
    rcases Nat.le_total io.room data.length with hle | hle
    · rw [Nat.min_eq_left hle, take_append_drop]
    · rw [Nat.min_eq_right hle, drop_length, List.append_nil, take_of_length_le hle]
  have hfront' : data.take io.room ++ added <+: data := by
    conv_rhs => rw [← hdrop]
    exact (prefix_append_right_inj _).mpr hfront
  have hlen := congrArg List.length hdrop
  rw [length_append] at hlen
  refine ⟨(data.take io.room ++ added).length, ?_, hfront'.length_le, fun h => ?_, fun h => ?_⟩
  · rw [← prefix_iff_eq_take.mp hfront']
    exact hfill.trans hadds
  · rw [hok h, hdrop]
  · obtain ⟨hlt, hmem⟩ := hfail h
    rw [length_append]
    exact ⟨by omega, hfill.mem hmem⟩

/-! ### Taking -/

theorem Owned.foldl_release (ho : Owned s (u + uses refs)) :
    Owned (refs.foldl (fun s r => s.release r.block) s) u := by
  induction refs generalizing s with
  | nil => simpa using ho
  | cons r refs ih =>
    rw [uses_cons, add_comm (Pi.single r.block 1), ← add_assoc] at ho
    exact ih ho.release

/-- Bytes are taken from the front of the refs. -/
structure Takes (u : ℕ → ℕ) (n : ℕ) (refs : List Ref) (s : Store) (refs' : List Ref) (t : Store) : Prop where
  owned : Owned t (u + uses refs')
  data : t.data = s.data
  mem : t.mem ⊆ s.mem
  fits : (∀ r ∈ refs, r.Fits) → ∀ r ∈ refs', r.Fits
  bytes : s.bytesOf refs' = (s.bytesOf refs).drop n

theorem takes_zero (ho : Owned t (u + uses refs)) (hdata : t.data = s.data)
    (hmem : t.mem ⊆ s.mem) : Takes u 0 refs s refs t := ⟨ho, hdata, hmem, id, rfl⟩

theorem takes_part {n : ℕ} {r : Ref} (ho : Owned t (u + uses (r :: refs)))
    (hdata : t.data = s.data) (hmem : t.mem ⊆ s.mem) (hn : n < r.length) :
    Takes u n (r :: refs) s ({ r with offset := r.offset + n, length := r.length - n } :: refs) t where
  owned := ho
  data := hdata
  mem := hmem
  fits h r' hr' := by
    rcases mem_cons.mp hr' with rfl | h'
    · have hwithin := (h r (.head _)).within
      constructor
      · exact Nat.sub_pos_of_lt hn
      · dsimp only
        omega
    · exact h r' (.tail _ h')
  bytes := by
    rw [bytesOf_cons, slice_drop, bytesOf_cons, drop_append_of_le_length (by rw [length_slice]; omega)]

theorem takes_cons {n : ℕ} {r : Ref} {refs' : List Ref} (hdata : s'.data = s.data)
    (hmem : s'.mem ⊆ s.mem) (h : Takes u n refs s' refs' t) : Takes u (r.length + n) (r :: refs) s refs' t where
  owned := h.owned
  data := h.data.trans hdata
  mem := List.Subset.trans h.mem hmem
  fits hall := h.fits fun r' hr' => hall r' (.tail _ hr')
  bytes := by
    have hbytes := h.bytes
    rw [bytesOf_of_data hdata, bytesOf_of_data hdata] at hbytes
    have hlen : (s.slice r).length ≤ r.length + n := by
      rw [length_slice]
      omega
    rw [hbytes, bytesOf_cons, drop_append, drop_of_length_le hlen, length_slice, Nat.add_sub_cancel_left,
      nil_append]

theorem takes_readLoop {n : ℕ} (ho : Owned s (u + uses refs)) :
    (readLoop n refs s).1 = (s.bytesOf refs).take n ∧
      Takes u n refs s (readLoop n refs s).2.1 (readLoop n refs s).2.2 := by
  induction refs generalizing n s with
  | nil => exact ⟨by simp [readLoop], ho, rfl, List.Subset.refl _, id, by simp [readLoop]⟩
  | cons r refs ih =>
    rw [readLoop]
    by_cases hzero : n = 0
    · rw [if_pos hzero]
      subst hzero
      exact ⟨rfl, takes_zero ho rfl (List.Subset.refl _)⟩
    by_cases hle : r.length ≤ n
    · rw [if_neg hzero, if_pos hle]
      rw [uses_cons, add_comm (Pi.single r.block 1), ← add_assoc] at ho
      obtain ⟨hout, htakes⟩ := ih (n := n - r.length) ho.release
      refine ⟨?_, ?_⟩
      · have hlen : (s.slice r).length ≤ n := by rwa [length_slice]
        dsimp only
        rw [hout, bytesOf_cons, take_append, take_of_length_le hlen, length_slice]
        exact congrArg (_ ++ List.take _ ·) (bytesOf_of_data rfl)
      · have hdata : (s.release r.block).data = s.data := rfl
        have hcons := takes_cons (r := r) hdata (List.Subset.refl _) htakes
        rwa [Nat.add_sub_cancel' hle] at hcons
    · rw [if_neg hzero, if_neg hle]
      refine ⟨?_, takes_part ho rfl (List.Subset.refl _) (by omega)⟩
      rw [slice_take (by omega), bytesOf_cons, take_append_of_le_length (by rw [length_slice]; omega)]

/-- What is cut, `k` bytes of `n`, comes to another buffer; it is less only where there is no more memory. -/
structure Cuts (u : ℕ → ℕ) (n : ℕ) (refs : List Ref) (dst : Buffer) (s : Store) (k : ℕ) (refs' : List Ref)
    (dst' : Buffer) (t : Store) : Prop where
  takes : Takes (u + uses dst'.refs) k refs s refs' t
  le : k ≤ n
  le_length : k ≤ (s.bytesOf refs).length
  short : k < n → k < (s.bytesOf refs).length → false ∈ s.mem
  nbytes : dst'.nbytes = dst.nbytes
  fits : (∀ r ∈ refs, r.Fits) → (∀ r ∈ dst.refs, r.Fits) → ∀ r ∈ dst'.refs, r.Fits
  bytes : s.bytesOf dst'.refs = s.bytesOf dst.refs ++ (s.bytesOf refs).take k

section CutLoop

variable {u : ℕ → ℕ} {n k : ℕ} {r : Ref} {refs refs' : List Ref} {dst dst' : Buffer} {s s' t : Store}

theorem cuts_zero (ho : Owned t (u + uses dst.refs + uses refs)) (hdata : t.data = s.data) (hmem : t.mem ⊆ s.mem)
    (hrefs : dst'.refs = dst.refs) (hbytes : dst'.nbytes = dst.nbytes)
    (hshort : n = 0 ∨ s.bytesOf refs = [] ∨ false ∈ s.mem) : Cuts u n refs dst s 0 refs dst' t where
  takes := takes_zero (by rwa [hrefs]) hdata hmem
  le := Nat.zero_le n
  le_length := Nat.zero_le _
  short h1 h2 := by
    rcases hshort with h | h | h
    · omega
    · rw [h] at h2
      exact absurd h2 (Nat.lt_irrefl 0)
    · exact h
  nbytes := hbytes
  fits _ h := hrefs ▸ h
  bytes := by rw [hrefs, take_zero, List.append_nil]

theorem cuts_cons (hidle : Idle s s') (hrefs : dst'.refs = dst.refs ++ [r]) (hbytes : dst'.nbytes = dst.nbytes)
    (hle : r.length ≤ n) {dst'' : Buffer} (h : Cuts u (n - r.length) refs dst' s' k refs' dst'' t) :
    Cuts u n (r :: refs) dst s (r.length + k) refs' dst'' t := by
  have hsame (rs : List Ref) : s'.bytesOf rs = s.bytesOf rs := bytesOf_of_data hidle.data
  obtain ⟨htakes, hkn, hkl, hshort, hnb, hfits, hdst⟩ := h
  rw [hsame] at hkl hshort
  rw [hsame, hsame, hsame] at hdst
  have hlen : (s.bytesOf (r :: refs)).length = r.length + (s.bytesOf refs).length := by simp
  constructor
  · exact takes_cons hidle.data hidle.mem htakes
  · omega
  · omega
  · exact fun h1 h2 => hidle.mem (hshort (by omega) (by omega))
  · exact hnb.trans hbytes
  · intro hall hd
    refine hfits (fun r' hr' => hall r' (.tail _ hr')) ?_
    rw [hrefs]
    exact forall_fits_concat hd (hall r (.head _))
  · have hlen : (s.slice r).length ≤ r.length + k := by
      rw [length_slice]
      omega
    rw [hdst, hrefs, bytesOf_append, bytesOf_cons, bytesOf_nil, List.append_nil, bytesOf_cons, take_append,
      take_of_length_le hlen, length_slice, Nat.add_sub_cancel_left, append_assoc]

theorem cuts_part (ho : Owned t (u + uses dst'.refs + uses (r :: refs))) (hdata : t.data = s.data) (hmem : t.mem ⊆ s.mem)
    (hrefs : dst'.refs = dst.refs ++ [{ r with length := n }]) (hbytes : dst'.nbytes = dst.nbytes) (hpos : 0 < n)
    (hn : n < r.length) :
    Cuts u n (r :: refs) dst s n ({ r with offset := r.offset + n, length := r.length - n } :: refs) dst' t := by
  have hlen : (s.bytesOf (r :: refs)).length = r.length + (s.bytesOf refs).length := by simp
  constructor
  · exact takes_part ho hdata hmem hn
  · exact le_rfl
  · omega
  · omega
  · exact hbytes
  · intro hall hd
    have hwithin := (hall r (.head _)).within
    rw [hrefs]
    exact forall_fits_concat hd ⟨hpos, by dsimp only; omega⟩
  · rw [hrefs, bytesOf_append, bytesOf_cons, bytesOf_nil, List.append_nil, slice_take (by omega), bytesOf_cons,
      take_append_of_le_length (by rw [length_slice]; omega)]

theorem cuts_cutLoop (ho : Owned s (u + uses dst.refs + uses refs)) (hfits : ∀ r ∈ refs, r.Fits)
    (h : cutLoop n refs dst s = (k, refs', dst', t)) : Cuts u n refs dst s k refs' dst' t := by
  induction refs generalizing n k dst s with
  | nil =>
    cases h
    exact cuts_zero ho rfl (List.Subset.refl _) rfl rfl (.inr (.inl rfl))
  | cons r refs ih =>
    have hr := (hfits r (.head _)).positive
    rw [cutLoop] at h
    by_cases hzero : n = 0
    · rw [if_pos hzero] at h
      cases h
      exact cuts_zero ho rfl (List.Subset.refl _) rfl rfl (.inl hzero)
    by_cases hle : r.length ≤ n
    · rw [if_neg hzero, if_pos hle] at h
      generalize hpush : pushRef dst r false s = q at h
      obtain ⟨ok, dst₁, s₁⟩ := q
      obtain ⟨hidle, ⟨rfl, hrefs, hbytes⟩ | ⟨rfl, hrefs, hbytes, hfail⟩⟩ := pushRef_spec hr hpush
      · dsimp only at h
        generalize hrest : cutLoop (n - r.length) refs dst₁ s₁ = q at h
        obtain ⟨k', refs₁, dst₂, s₂⟩ := q
        cases h
        -- the ref is counted for the other buffer now
        have ho₁ : Owned s₁ (u + uses dst₁.refs + uses refs) := by
          have h := hidle.owned ho
          rw [hrefs, uses_append, uses_cons, uses_nil, add_zero]
          rwa [uses_cons, ← add_assoc, add_assoc u] at h
        exact cuts_cons hidle hrefs hbytes hle (ih ho₁ (fun r' h => hfits r' (.tail _ h)) hrest)
      · cases h
        exact cuts_zero (hidle.owned ho) hidle.data hidle.mem hrefs hbytes (.inr (.inr hfail))
    · rw [if_neg hzero, if_neg hle] at h
      have hheld : (u + uses dst.refs + uses (r :: refs)) r.block ≠ 0 := by simp
      have hretain := ho.retain hheld
      have hn : 0 < ({ r with length := n } : Ref).length := Nat.pos_of_ne_zero hzero
      generalize hpush : pushRef dst { r with length := n } false (s.retain r.block) = q at h
      obtain ⟨ok, dst₁, s₁⟩ := q
      obtain ⟨hidle, ⟨rfl, hrefs, hbytes⟩ | ⟨rfl, hrefs, hbytes, hfail⟩⟩ := pushRef_spec hn hpush
      · cases h
        have ho₁ : Owned t (u + uses dst'.refs + uses (r :: refs)) := by
          have h := hidle.owned hretain
          rw [hrefs, uses_append, uses_cons, uses_nil, add_zero]
          rwa [add_right_comm, add_assoc u] at h
        exact cuts_part ho₁ hidle.data hidle.mem hrefs hbytes hn (by omega)
      · cases h
        exact cuts_zero (hidle.owned hretain).release hidle.data hidle.mem hrefs hbytes (.inr (.inr hfail))

end CutLoop

end Libx.Buf.Blocks
