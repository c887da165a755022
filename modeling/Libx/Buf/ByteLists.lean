import Libx.Buf.Shared

/-!
# Libx.Buf.ByteLists — buffers as byte lists
-/

namespace Libx.Buf.Blocks

open Libx.Agent (Bytes CStr)
open Libx.Core (exec Admits Traces)
open Store List Function

variable {ι : Type} [DecidableEq ι]

/-- The bytes of each buffer, and one operation on them. -/
inductive ByteStep (s : ι → Bytes) : Op ι × List Bool → Result → (ι → Bytes) → Prop
  | append {mem} (i data) : ByteStep s (.append i data, mem) (.done true) (Function.update s i (s i ++ data))
  | appendShort {mem} (i data k) : k < data.length → false ∈ mem →
      ByteStep s (.append i data, mem) (.done false) (Function.update s i (s i ++ data.take k))
  | appendStr {mem r t} (i) (str : CStr) : ByteStep s (.append i str.bytes, mem) r t → ByteStep s (.appendStr i str, mem) r t
  | appendIOBuffer {mem} (i j) :
      ByteStep s (.appendIOBuffer i j, mem) (.done true) (Function.update (Function.update s i (s i ++ s j)) j [])
  | appendIOBufferFails {mem} (i j) : false ∈ mem → ByteStep s (.appendIOBuffer i j, mem) (.done false) s
  | read {mem} (i n) : ByteStep s (.read i n, mem) (.bytes ((s i).take n)) (Function.update s i ((s i).drop n))
  | cut {mem} (i j n k) : (k = min n (s i).length ∨ k < min n (s i).length ∧ false ∈ mem) →
      ByteStep s (.cut i j n, mem) (.count k)
        (Function.update (Function.update s i ((s i).drop k)) j (s j ++ (s i).take k))
  | consume {mem} (i n) :
      ByteStep s (.consume i n, mem) (.count (min n (s i).length : ℕ)) (Function.update s i ((s i).drop n))
  | copyTo {mem} (i) : ByteStep s (.copyTo i, mem) (.bytes (s i)) s
  | readWith {mem} (i) (rd : Reader) (room) : 0 < room → rd.deliver room ≠ [] →
      ByteStep s (.readWith i rd, mem) (.count (rd.deliver room).length) (Function.update s i (s i ++ rd.deliver room))
  | readNothing {mem} (i) (rd : Reader) (room) : 0 < room → rd.deliver room = [] →
      ByteStep s (.readWith i rd, mem) (.count (-rd.code)) s
  | readFails {mem} (i rd) : false ∈ mem → ByteStep s (.readWith i rd, mem) (.count (-1)) s
  | readFd {mem r t} (i rd) : ByteStep s (.readWith i rd, mem) r t → ByteStep s (.readFd i rd, mem) r t
  | writeWith {mem} (i) (fn : List Bytes → ℤ) (iov) (n : ℤ) : iov.flatten ≠ [] → iov.flatten <+: s i →
      n = min (fn iov) iov.flatten.length →
      ByteStep s (.writeWith i fn, mem) (.count n) (Function.update s i ((s i).drop n.toNat))
  | writeNothing {mem} (i fn) : s i = [] → ByteStep s (.writeWith i fn, mem) (.count 0) s
  | writeFd {mem r t} (i fn) : ByteStep s (.writeWith i fn, mem) r t → ByteStep s (.writeFd i fn, mem) r t
  | reset {mem} (i) : ByteStep s (.reset i, mem) (.done true) (Function.update s i [])

/-- The two buffers of an operation are not the same. -/
def Op.Distinct : Op ι → Prop
  | .appendIOBuffer i j => i ≠ j
  | .cut i j _ => i ≠ j
  | _ => True

instance : (op : Op ι) → Decidable op.Distinct
  | .appendIOBuffer i j => inferInstanceAs (Decidable (i ≠ j))
  | .cut i j _ => inferInstanceAs (Decidable (i ≠ j))
  | .append .. | .appendStr .. | .read .. | .consume .. | .copyTo .. | .readWith .. | .readFd .. | .writeWith ..
  | .writeFd .. | .reset .. => .isTrue trivial

namespace World

/-- The buffer whose last ref an operation writes behind, and how many bytes. -/
def behind (w : World ι) : Op ι → Option (ι × ℕ)
  | .append i data => some (i, min (w.bufs i).room data.length)
  | .appendStr i str => some (i, min (w.bufs i).room str.bytes.length)
  | .readWith i rd => some (i, (rd.deliver (w.bufs i).room).length)
  | .readFd i rd => some (i, (rd.deliver (w.bufs i).room).length)
  | _ => none

/-- What is written behind the last ref meets no other ref, of this buffer or another. -/
def Clear (w : World ι) (op : Op ι) : Prop :=
  ∀ x ∈ w.behind op,
    (∀ r ∈ (w.bufs x.1).refs.dropLast, (w.bufs x.1).Spared x.2 r) ∧
      ∀ j, j ≠ x.1 → ∀ r ∈ (w.bufs j).refs, (w.bufs x.1).Spared x.2 r

def Admitted (w : World ι) (m : Op ι × List Bool) : Prop := m.1.Distinct ∧ w.Clear m.1

theorem content_set {w : World ι} {i : ι} {x : Buffer × Store} {bytes : Bytes} (hself : x.2.bytesOf x.1.refs = bytes)
    (hothers : ∀ j, j ≠ i → ∀ r ∈ (w.bufs j).refs, x.2.slice r = w.store.slice r) :
    (w.set i x).content = Function.update w.content i bytes := by
  funext j
  by_cases hj : j = i
  · subst hj
    simpa [content, set] using hself
  · rw [update_of_ne hj, content, content, set]
    dsimp only
    rw [update_of_ne hj]
    exact bytesOf_congr (hothers j hj)

theorem set_self (w : World ι) (i : ι) (s : Store) : w.set i (w.bufs i, s) = { w with store := s } := by
  rw [set, update_eq_self]

variable [Fintype ι]

instance (io : Buffer) (n : ℕ) (r : Ref) : Decidable (io.Spared n r) :=
  inferInstanceAs (Decidable (∀ tail ∈ io.refs.getLast?, Apart tail.block (tail.offset + tail.length) n r))

instance (w : World ι) (m : Op ι × List Bool) : Decidable (w.Admitted m) :=
  inferInstanceAs (Decidable (m.1.Distinct ∧ ∀ x ∈ w.behind m.1,
    (∀ r ∈ (w.bufs x.1).refs.dropLast, (w.bufs x.1).Spared x.2 r) ∧
      ∀ j, j ≠ x.1 → ∀ r ∈ (w.bufs j).refs, (w.bufs x.1).Spared x.2 r))

def held (w : World ι) : ℕ → ℕ := ∑ i, uses (w.bufs i).refs

/-- The blocks are counted, and so are the bytes. -/
structure Good (w : World ι) : Prop where
  owned : Owned w.store w.held
  sound : ∀ i, (w.bufs i).Sound

def besides (w : World ι) (i : ι) : ℕ → ℕ := ∑ j ∈ Finset.univ.erase i, uses (w.bufs j).refs

theorem held_eq (w : World ι) (i : ι) : w.held = w.besides i + uses (w.bufs i).refs := by
  rw [held, besides, Finset.sum_erase_add _ _ (Finset.mem_univ i)]

theorem held_set (w : World ι) (i : ι) (x : Buffer × Store) : (w.set i x).held = w.besides i + uses x.1.refs := by
  rw [held_eq _ i]
  have hself : ((w.set i x).bufs i).refs = x.1.refs := by simp [set]
  have hothers : (w.set i x).besides i = w.besides i := by
    refine Finset.sum_congr rfl fun j hj => ?_
    simp [set, Finset.ne_of_mem_erase hj]
  rw [hself, hothers]

theorem besides_ne_zero {w : World ι} {i j : ι} (hj : j ≠ i) {r : Ref} (hr : r ∈ (w.bufs j).refs) :
    w.besides i r.block ≠ 0 := by
  intro hzero
  rw [besides, Finset.sum_apply] at hzero
  have hall := Finset.sum_eq_zero_iff.mp hzero j (Finset.mem_erase.mpr ⟨hj, Finset.mem_univ j⟩)
  exact uses_ne_zero hr hall

/-! ### One buffer -/

section One

variable {w : World ι} {i : ι} {s : Store} {x : Buffer × Store}

theorem good_set (ho : Owned x.2 (w.besides i + uses x.1.refs)) (hs : x.1.Sound) (hg : w.Good) : (w.set i x).Good := by
  constructor
  · rw [held_set]
    exact ho
  · intro j
    by_cases hj : j = i
    · subst hj
      simpa [set] using hs
    · simpa [set, hj] using hg.sound j

theorem Good.owned_besides (hg : w.Good) (i : ι) (mem : List Bool) :
    Owned (w.store.allocating mem) (w.besides i + uses (w.bufs i).refs) := by
  rw [← held_eq]
  exact hg.owned.congr rfl rfl rfl

variable {spared : Ref → Prop} {added : Bytes} {n : ℕ} {mem : List Bool}

theorem good_adds (hg : w.Good) (h : Adds (w.besides i) spared (w.bufs i) (w.store.allocating mem) added x.1 x.2) :
    (w.set i x).Good := good_set h.owned h.sound hg

theorem content_adds (h : Adds (w.besides i) spared (w.bufs i) (w.store.allocating mem) added x.1 x.2)
    (hown : ∀ r ∈ (w.bufs i).refs.dropLast, spared r) (hspared : ∀ j, j ≠ i → ∀ r ∈ (w.bufs j).refs, spared r) :
    (w.set i x).content = Function.update w.content i (w.content i ++ added) :=
  content_set (h.bytes hown) fun j hj r hr => h.others r (besides_ne_zero hj hr) (hspared j hj r hr)

theorem good_takes (hg : w.Good) (h : Takes (w.besides i) n (w.bufs i).refs (w.store.allocating mem) x.1.refs x.2)
    (hbytes : x.1.nbytes = (w.bufs i).nbytes - n) : (w.set i x).Good := by
  refine good_set h.owned ⟨?_, h.fits (hg.sound i).fits⟩ hg
  have hlen := congrArg List.length h.bytes
  rw [length_bytesOf, length_drop, length_bytesOf] at hlen
  rw [hbytes, (hg.sound i).nbytes, hlen]

theorem content_takes (h : Takes (w.besides i) n (w.bufs i).refs (w.store.allocating mem) x.1.refs x.2) :
    (w.set i x).content = Function.update w.content i ((w.content i).drop n) := by
  refine content_set ?_ fun j _ r _ => slice_congr fun _ _ => by rw [h.data, allocating_data]
  rw [bytesOf_of_data h.data]
  exact h.bytes

end One

/-! ### Each operation on one buffer -/

variable {w : World ι} {mem : List Bool}

theorem step_append (hg : w.Good) (i : ι) (data : Bytes) :
    (w.step (.append i data, mem)).2.Good ∧
      (w.Clear (.append i data) →
        ByteStep w.content (.append i data, mem) (w.step (.append i data, mem)).1 (w.step (.append i data, mem)).2.content) := by
  have hstep : w.step (.append i data, mem) =
      (.done (append (w.bufs i) data (w.store.allocating mem)).1, w.set i (append (w.bufs i) data (w.store.allocating mem)).2) := rfl
  rw [hstep]
  generalize happ : append (w.bufs i) data (w.store.allocating mem) = q
  obtain ⟨ok, io, t⟩ := q
  obtain ⟨k, hadds, hk, hok, hfail⟩ := adds_append (hg.owned_besides i mem) (hg.sound i) happ
  refine ⟨good_adds hg hadds, fun hclear => ?_⟩
  obtain ⟨hown, hothers⟩ := hclear (i, min (w.bufs i).room data.length) rfl
  rw [content_adds hadds hown hothers]
  cases ok with
  | true =>
    rw [hok rfl, take_length]
    exact .append i data
  | false =>
    obtain ⟨hlt, hmem⟩ := hfail rfl
    exact .appendShort i data k hlt hmem

omit [DecidableEq ι] in
theorem Good.length_content (hg : w.Good) (i : ι) : (w.content i).length = (w.bufs i).nbytes := by
  rw [(hg.sound i).nbytes, content, length_bytesOf]

theorem taken_readLoop (hg : w.Good) (i : ι) (n : ℕ) (mem : List Bool) (x : Buffer × Store)
    (hx : x = ({ w.bufs i with
      refs := (readLoop (min n (w.bufs i).nbytes) (w.bufs i).refs (w.store.allocating mem)).2.1
      nbytes := (w.bufs i).nbytes - (readLoop (min n (w.bufs i).nbytes) (w.bufs i).refs (w.store.allocating mem)).1.length },
      (readLoop (min n (w.bufs i).nbytes) (w.bufs i).refs (w.store.allocating mem)).2.2)) :
    (readLoop (min n (w.bufs i).nbytes) (w.bufs i).refs (w.store.allocating mem)).1 = (w.content i).take n ∧
      (w.set i x).Good ∧ (w.set i x).content = Function.update w.content i ((w.content i).drop n) := by
  subst hx
  obtain ⟨hout, htakes⟩ := takes_readLoop (n := min n (w.bufs i).nbytes) (hg.owned_besides i mem)
  have hlen := hg.length_content i
  have htaken : (readLoop (min n (w.bufs i).nbytes) (w.bufs i).refs (w.store.allocating mem)).1 = (w.content i).take n := by
    rw [take_eq_take_min, hlen]
    exact hout
  refine ⟨htaken, good_takes hg htakes ?_, ?_⟩
  · rw [htaken, length_take, hlen]
  · rw [content_takes htakes, drop_eq_drop_min (l := w.content i) (i := n), hlen]

theorem step_read (hg : w.Good) (i : ι) (n : ℕ) :
    (w.step (.read i n, mem)).2.Good ∧
      ByteStep w.content (.read i n, mem) (w.step (.read i n, mem)).1 (w.step (.read i n, mem)).2.content := by
  obtain ⟨hout, hgood, hcontent⟩ := taken_readLoop hg i n mem _ rfl
  have hread : ByteStep w.content (.read i n, mem) _ _ := .read i n
  rw [← hout, ← hcontent] at hread
  exact ⟨hgood, hread⟩

theorem consume_spec (hg : w.Good) (i : ι) (n : ℕ) (mem : List Bool) :
    (consume (w.bufs i) n (w.store.allocating mem)).1 = min n (w.content i).length ∧
      (w.set i (consume (w.bufs i) n (w.store.allocating mem)).2).Good ∧
      (w.set i (consume (w.bufs i) n (w.store.allocating mem)).2).content =
        Function.update w.content i ((w.content i).drop n) := by
  obtain ⟨hout, hgood, hcontent⟩ := taken_readLoop hg i n mem _ rfl
  refine ⟨?_, hgood, hcontent⟩
  rw [← length_take, ← hout]
  rfl

theorem step_consume (hg : w.Good) (i : ι) (n : ℕ) :
    (w.step (.consume i n, mem)).2.Good ∧
      ByteStep w.content (.consume i n, mem) (w.step (.consume i n, mem)).1 (w.step (.consume i n, mem)).2.content := by
  obtain ⟨hout, hgood, hcontent⟩ := consume_spec hg i n mem
  have hconsume : ByteStep w.content (.consume i n, mem) _ _ := .consume i n
  rw [← hout, ← hcontent] at hconsume
  exact ⟨hgood, hconsume⟩

theorem step_reset (hg : w.Good) (i : ι) :
    (w.step (.reset i, mem)).2.Good ∧
      ByteStep w.content (.reset i, mem) (w.step (.reset i, mem)).1 (w.step (.reset i, mem)).2.content := by
  have ho := hg.owned_besides i mem
  have hdata {refs : List Ref} {s : Store} : (refs.foldl (fun s r => s.release r.block) s).data = s.data := by
    induction refs generalizing s with
    | nil => rfl
    | cons r refs ih => exact ih
  refine ⟨good_set (by simpa [reset] using ho.foldl_release) ⟨rfl, nofun⟩ hg, ?_⟩
  have hcontent : (w.set i (reset (w.bufs i) (w.store.allocating mem))).content = Function.update w.content i [] :=
    content_set rfl fun j _ r _ => slice_congr fun _ _ => by rw [reset, hdata, allocating_data]
  have hreset : ByteStep w.content (.reset i, mem) _ _ := .reset i
  rw [← hcontent] at hreset
  exact hreset

omit [DecidableEq ι] in
theorem good_store (hg : w.Good) {t : Store} (ho : Owned t w.held) : ({ w with store := t } : World ι).Good :=
  ⟨ho, hg.sound⟩

omit [DecidableEq ι] [Fintype ι] in
theorem content_store {t : Store} (hdata : t.data = w.store.data) : ({ w with store := t } : World ι).content = w.content := by
  funext i
  exact bytesOf_of_data hdata

theorem readWith_spec (hg : w.Good) (i : ι) (rd : Reader) {n : ℤ} {io : Buffer} {t : Store}
    (h : readWith (w.bufs i) rd (w.store.allocating mem) = (n, io, t)) :
    ∃ added, Adds (w.besides i) ((w.bufs i).Spared (rd.deliver (w.bufs i).room).length) (w.bufs i) (w.store.allocating mem)
        added io t ∧
      (n = added.length ∧ added ≠ [] ∧ (∃ room, 0 < room ∧ added = rd.deliver room) ∨
        added = [] ∧ n = -rd.code ∧ (∃ room, 0 < room ∧ rd.deliver room = []) ∨ added = [] ∧ n = -1 ∧ false ∈ mem) := by
  have ho := hg.owned_besides i mem
  have hs := hg.sound i
  unfold readWith at h
  by_cases hroom : 0 < (w.bufs i).room
  · rw [if_pos hroom] at h
    by_cases hempty : rd.deliver (w.bufs i).room = []
    · rw [if_pos hempty] at h
      cases h
      exact ⟨[], .refl ho hs, .inr (.inl ⟨rfl, rfl, _, hroom, hempty⟩)⟩
    · rw [if_neg hempty] at h
      obtain ⟨rfl, hio⟩ := Prod.mk.inj h
      have hlen : (rd.deliver (w.bufs i).room).length ≤ (w.bufs i).room := length_take_le _ _
      have hadds := adds_fill ho hs hlen hroom
      rw [hio] at hadds
      exact ⟨_, hadds, .inl ⟨rfl, hempty, _, hroom, rfl⟩⟩
  · rw [if_neg hroom] at h
    -- nothing is written behind the last ref, so that nothing has to be spared
    have hmono {added : Bytes} {io : Buffer} {t : Store}
        (h : Adds (w.besides i) (fun _ => True) (w.bufs i) (w.store.allocating mem) added io t) :
        Adds (w.besides i) ((w.bufs i).Spared (rd.deliver (w.bufs i).room).length) (w.bufs i) (w.store.allocating mem)
          added io t :=
      ⟨h.owned, h.sound, h.mem, fun r hr _ => h.others r hr trivial, fun _ => h.bytes fun _ _ => trivial⟩
    have hblock : 0 < blockSize := by decide
    generalize hacq : (w.store.allocating mem).acquire = q at h
    obtain ⟨_ | b, s⟩ := q
    · cases h
      obtain ⟨ho', hdata, hmem, hfail⟩ := ho.acquire_none hacq
      refine ⟨[], ⟨ho', hs, hmem, fun _ _ _ => slice_congr fun _ _ => by rw [hdata], fun _ => ?_⟩,
        .inr (.inr ⟨rfl, rfl, hfail⟩)⟩
      rw [List.append_nil, bytesOf_of_data hdata]
    · dsimp only at h
      by_cases hempty : rd.deliver blockSize = []
      · rw [if_pos hempty] at h
        cases h
        obtain ⟨-, ho', hdata, hmem⟩ := ho.acquire hacq
        refine ⟨[], ⟨ho'.release, hs, hmem, fun _ _ _ => slice_congr fun _ _ => ?_, fun _ => ?_⟩,
          .inr (.inl ⟨rfl, rfl, _, hblock, hempty⟩)⟩
        · rw [Store.release, hdata]
        · rw [List.append_nil]
          exact bytesOf_of_data hdata
      · rw [if_neg hempty] at h
        generalize hpush : pushRef (w.bufs i) ⟨b, 0, (rd.deliver blockSize).length⟩ true
          (s.write b 0 (rd.deliver blockSize)) = q at h
        obtain ⟨_ | _, io₁, s₁⟩ := q
        · cases h
          obtain ⟨hadds, hfail⟩ := adds_unpushed ho hs hacq hempty hpush
          exact ⟨[], hmono hadds, .inr (.inr ⟨rfl, rfl, hfail⟩)⟩
        · cases h
          exact ⟨_, hmono (adds_push ho hs hacq hempty (length_take_le _ _) hpush),
            .inl ⟨rfl, hempty, _, hblock, rfl⟩⟩

theorem step_readWith (hg : w.Good) (i : ι) (rd : Reader) :
    (w.step (.readWith i rd, mem)).2.Good ∧
      (w.Clear (.readWith i rd) →
        ByteStep w.content (.readWith i rd, mem) (w.step (.readWith i rd, mem)).1
          (w.step (.readWith i rd, mem)).2.content) := by
  have hstep : w.step (.readWith i rd, mem) = (.count (readWith (w.bufs i) rd (w.store.allocating mem)).1,
      w.set i (readWith (w.bufs i) rd (w.store.allocating mem)).2) := rfl
  rw [hstep]
  generalize hread : readWith (w.bufs i) rd (w.store.allocating mem) = q
  obtain ⟨n, io, t⟩ := q
  obtain ⟨added, hadds, hcases⟩ := readWith_spec hg i rd hread
  refine ⟨good_adds hg hadds, fun hclear => ?_⟩
  obtain ⟨hown, hothers⟩ := hclear (i, (rd.deliver (w.bufs i).room).length) rfl
  rw [content_adds hadds hown hothers]
  rcases hcases with ⟨rfl, hne, room, hroom, rfl⟩ | ⟨rfl, rfl, room, hroom, hnone⟩ | ⟨rfl, rfl, hfail⟩
  · exact .readWith i rd room hroom hne
  · rw [List.append_nil, update_eq_self]
    exact .readNothing i rd room hroom hnone
  · rw [List.append_nil, update_eq_self]
    exact .readFails i rd hfail

omit [DecidableEq ι] in
theorem readIov_front (hg : w.Good) (i : ι) (mem : List Bool) :
    (readIov (w.bufs i) (w.store.allocating mem)).flatten <+: w.content i ∧
      (readIov (w.bufs i) (w.store.allocating mem) = [] → w.content i = []) ∧
      ∀ b ∈ readIov (w.bufs i) (w.store.allocating mem), b ≠ [] := by
  have hall : (w.bufs i).refs.filter (fun r => r.length ≠ 0) = (w.bufs i).refs := by
    rw [filter_eq_self]
    intro r hr
    simpa using Nat.ne_of_gt ((hg.sound i).fits r hr).positive
  unfold readIov
  rw [hall, content]
  refine ⟨?_, fun h => ?_, fun b hb => ?_⟩
  · rw [← flatMap_def]
    conv_rhs => rw [← take_append_drop 64 (w.bufs i).refs, bytesOf_append]
    exact prefix_append _ _
  · have hnil : (w.bufs i).refs = [] := by simpa using h
    rw [hnil]
    rfl
  · obtain ⟨r, hr, rfl⟩ := mem_map.mp hb
    have hpos := ((hg.sound i).fits r (mem_of_mem_take hr)).positive
    exact ne_nil_of_length_pos (by rwa [length_slice])

theorem step_writeWith (hg : w.Good) (i : ι) (fn : List Bytes → ℤ) :
    (w.step (.writeWith i fn, mem)).2.Good ∧
      ByteStep w.content (.writeWith i fn, mem) (w.step (.writeWith i fn, mem)).1
        (w.step (.writeWith i fn, mem)).2.content := by
  obtain ⟨hfront, hnil, hne⟩ := readIov_front hg i mem
  have hstep : w.step (.writeWith i fn, mem) = (.count (writeWith (w.bufs i) fn (w.store.allocating mem)).1,
      w.set i (writeWith (w.bufs i) fn (w.store.allocating mem)).2) := rfl
  have hsame : Owned (w.store.allocating mem) w.held := hg.owned.congr rfl rfl rfl
  rw [hstep, writeWith]
  by_cases hempty : readIov (w.bufs i) (w.store.allocating mem) = []
  · rw [if_pos hempty, set_self]
    refine ⟨good_store hg hsame, ?_⟩
    rw [content_store rfl]
    exact .writeNothing i fn (hnil hempty)
  · rw [if_neg hempty]
    have hflat : (readIov (w.bufs i) (w.store.allocating mem)).flatten ≠ [] := by
      obtain ⟨b, rest, hcons⟩ := exists_cons_of_ne_nil hempty
      have hb := hne b (by rw [hcons]; exact .head _)
      rw [hcons, flatten_cons]
      exact append_ne_nil_of_left_ne_nil hb _
    have hwrite : ByteStep w.content (.writeWith i fn, mem) _ _ := .writeWith i fn _ _ hflat hfront rfl
    by_cases hpos : 0 < min (fn (readIov (w.bufs i) (w.store.allocating mem)))
        (readIov (w.bufs i) (w.store.allocating mem)).flatten.length
    · obtain ⟨-, hgood, hcontent⟩ := consume_spec hg i
        (min (fn (readIov (w.bufs i) (w.store.allocating mem)))
          (readIov (w.bufs i) (w.store.allocating mem)).flatten.length).toNat mem
      rw [if_pos hpos]
      refine ⟨hgood, ?_⟩
      rw [hcontent]
      exact hwrite
    · rw [if_neg hpos, set_self]
      refine ⟨good_store hg hsame, ?_⟩
      rw [Int.toNat_of_nonpos (by omega), drop_zero, update_eq_self] at hwrite
      rw [content_store rfl]
      exact hwrite

/-! ### Two buffers -/

/-- The blocks that neither of two buffers holds alone. -/
def besides₂ (w : World ι) (i j : ι) : ℕ → ℕ := ∑ k ∈ (Finset.univ.erase i).erase j, uses (w.bufs k).refs

theorem besides_eq (w : World ι) {i j : ι} (hij : i ≠ j) : w.besides i = w.besides₂ i j + uses (w.bufs j).refs := by
  rw [besides, besides₂, Finset.sum_erase_add _ _ (Finset.mem_erase.mpr ⟨hij.symm, Finset.mem_univ j⟩)]

section Two

variable {i j : ι} {x : Buffer × Buffer × Store}

theorem good_set₂ (hij : i ≠ j) (ho : Owned x.2.2 (w.besides₂ i j + uses x.1.refs + uses x.2.1.refs)) (hi : x.1.Sound)
    (hj : x.2.1.Sound) (hg : w.Good) : (w.set₂ i j x).Good := by
  constructor
  · have hself : ((w.set₂ i j x).bufs i).refs = x.1.refs := by simp [set₂, hij]
    have hother : ((w.set₂ i j x).bufs j).refs = x.2.1.refs := by simp [set₂]
    have hrest : (w.set₂ i j x).besides₂ i j = w.besides₂ i j := by
      refine Finset.sum_congr rfl fun k hk => ?_
      obtain ⟨hkj, hk⟩ := Finset.mem_erase.mp hk
      simp [set₂, hkj, Finset.ne_of_mem_erase hk]
    rw [held_eq _ i, besides_eq _ hij, hself, hother, hrest, add_right_comm]
    exact ho
  · intro k
    by_cases hkj : k = j
    · subst hkj
      simpa [set₂] using hj
    by_cases hki : k = i
    · subst hki
      simpa [set₂, hkj] using hi
    · simpa [set₂, hkj, hki] using hg.sound k

omit [Fintype ι] in
theorem content_set₂ (hij : i ≠ j) {bytes bytes' : Bytes} (hdata : x.2.2.data = w.store.data)
    (hi : w.store.bytesOf x.1.refs = bytes) (hj : w.store.bytesOf x.2.1.refs = bytes') :
    (w.set₂ i j x).content = Function.update (Function.update w.content i bytes) j bytes' := by
  funext k
  have hsame (refs : List Ref) : (w.set₂ i j x).store.bytesOf refs = w.store.bytesOf refs := bytesOf_of_data hdata
  rw [content, hsame]
  by_cases hkj : k = j
  · subst hkj
    simpa [set₂] using hj
  by_cases hki : k = i
  · subst hki
    simpa [set₂, hij] using hi
  · simp [set₂, hkj, hki, content]

omit [Fintype ι] in
theorem set₂_self (w : World ι) (i j : ι) (s : Store) : w.set₂ i j (w.bufs i, w.bufs j, s) = { w with store := s } := by
  rw [set₂, update_eq_self, update_eq_self]

end Two

theorem step_appendIOBuffer (hg : w.Good) {i j : ι} (hij : i ≠ j) :
    (w.step (.appendIOBuffer i j, mem)).2.Good ∧
      ByteStep w.content (.appendIOBuffer i j, mem) (w.step (.appendIOBuffer i j, mem)).1
        (w.step (.appendIOBuffer i j, mem)).2.content := by
  have hstep : w.step (.appendIOBuffer i j, mem) =
      (.done (appendIOBuffer (w.bufs i) (w.bufs j) (w.store.allocating mem)).1,
        w.set₂ i j (appendIOBuffer (w.bufs i) (w.bufs j) (w.store.allocating mem)).2) := rfl
  have hsame : Owned (w.store.allocating mem) w.held := hg.owned.congr rfl rfl rfl
  have happend : ByteStep w.content (.appendIOBuffer i j, mem) _ _ := .appendIOBuffer i j
  rw [hstep, appendIOBuffer]
  by_cases hempty : (w.bufs j).refs = []
  · rw [if_pos hempty, set₂_self]
    refine ⟨good_store hg hsame, ?_⟩
    have hnil : w.content j = [] := by rw [content, hempty, bytesOf_nil]
    rw [hnil, List.append_nil, update_eq_self] at happend
    conv at happend => arg 4; rw [← hnil, update_eq_self]
    rw [content_store rfl]
    exact happend
  · rw [if_neg hempty]
    generalize hgrow : grow ((w.bufs i).refs.length + (w.bufs j).refs.length) (w.bufs i) (w.store.allocating mem) = q
    obtain ⟨ok, io, t⟩ := q
    obtain ⟨hidle, hrefs, hbytes, hfail⟩ := grow_spec hgrow
    cases ok with
    | false =>
      refine ⟨good_set₂ hij ?_ ⟨by rw [hbytes, hrefs, (hg.sound i).nbytes], hrefs ▸ (hg.sound i).fits⟩ (hg.sound j) hg, ?_⟩
      · rw [hrefs, add_right_comm, ← besides_eq w hij, ← held_eq]
        exact hidle.owned hsame
      · have hcontent : (w.set₂ i j (io, w.bufs j, t)).content = w.content := by
          have hsame : w.store.bytesOf io.refs = w.content i := by rw [hrefs]; rfl
          rw [content_set₂ hij hidle.data hsame rfl, update_eq_self]
          exact update_eq_self j w.content
        rw [hcontent]
        exact .appendIOBufferFails i j (hfail rfl)
    | true =>
      refine ⟨good_set₂ hij ?_ ⟨?_, ?_⟩ ⟨rfl, nofun⟩ hg, ?_⟩
      · dsimp only
        rw [hrefs, uses_append, uses_nil, add_zero, ← add_assoc, add_right_comm, ← besides_eq w hij, ← held_eq]
        exact hidle.owned hsame
      · simp [hbytes, hrefs, (hg.sound i).nbytes, (hg.sound j).nbytes]
      · intro r hr
        rcases mem_append.mp (hrefs ▸ hr : r ∈ (w.bufs i).refs ++ (w.bufs j).refs) with h | h
        · exact (hg.sound i).fits r h
        · exact (hg.sound j).fits r h
      · have hcontent := content_set₂ (w := w) (x := ({ io with
            refs := io.refs ++ (w.bufs j).refs, nbytes := io.nbytes + (w.bufs j).nbytes },
            { w.bufs j with refs := [], nbytes := 0 }, t)) hij hidle.data
          (by rw [hrefs, bytesOf_append]) rfl
        rw [hcontent]
        exact happend

theorem step_cut (hg : w.Good) {i j : ι} (hij : i ≠ j) (n : ℕ) :
    (w.step (.cut i j n, mem)).2.Good ∧
      ByteStep w.content (.cut i j n, mem) (w.step (.cut i j n, mem)).1 (w.step (.cut i j n, mem)).2.content := by
  have hstep : w.step (.cut i j n, mem) = (.count (cut (w.bufs i) (w.bufs j) n (w.store.allocating mem)).1,
      w.set₂ i j (cut (w.bufs i) (w.bufs j) n (w.store.allocating mem)).2) := rfl
  have ho := hg.owned_besides i mem
  rw [besides_eq w hij] at ho
  rw [hstep, cut]
  generalize hcut : cutLoop (min n (w.bufs i).nbytes) (w.bufs i).refs (w.bufs j) (w.store.allocating mem) = q
  obtain ⟨k, refs, dst, t⟩ := q
  have hcuts := cuts_cutLoop ho (hg.sound i).fits hcut
  have hlen : (w.content i).length = (w.bufs i).nbytes := hg.length_content i
  have hle : k ≤ min n (w.content i).length := le_min (hcuts.le.trans (Nat.min_le_left _ _)) hcuts.le_length
  have hbytes : w.store.bytesOf refs = (w.content i).drop k := hcuts.takes.bytes
  have hdst : w.store.bytesOf dst.refs = w.content j ++ (w.content i).take k := hcuts.bytes
  constructor
  · refine good_set₂ hij ?_ ⟨?_, hcuts.takes.fits (hg.sound i).fits⟩
      ⟨?_, hcuts.fits (hg.sound i).fits (hg.sound j).fits⟩ hg
    · rw [add_right_comm]
      exact hcuts.takes.owned
    · rw [← length_bytesOf w.store, hbytes, length_drop, hlen]
    · rw [← length_bytesOf w.store, hdst, length_append, length_take, hcuts.nbytes, hg.length_content,
        Nat.min_eq_left (hle.trans (Nat.min_le_right _ _))]
  · have hcontent := content_set₂ (w := w) (x := ({ w.bufs i with refs := refs, nbytes := (w.bufs i).nbytes - k },
        { dst with nbytes := dst.nbytes + k }, t)) hij hcuts.takes.data hbytes hdst
    rw [hcontent]
    refine .cut i j n k ?_
    rcases Nat.lt_or_ge k (min n (w.content i).length) with hlt | hge
    · exact .inr ⟨hlt, hcuts.short (by omega) (Nat.lt_of_lt_of_le hlt (Nat.min_le_right _ _))⟩
    · exact .inl (Nat.le_antisymm hle hge)

/-! ### Any operation -/

theorem good_step (hg : w.Good) {m : Op ι × List Bool} (hd : m.1.Distinct) : (w.step m).2.Good := by
  obtain ⟨op, mem⟩ := m
  cases op with
  | append i data => exact (step_append hg i data).1
  | appendStr i str => exact (step_append hg i str.bytes).1
  | appendIOBuffer i j => exact (step_appendIOBuffer hg hd).1
  | read i len => exact (step_read hg i len).1
  | cut i j n => exact (step_cut hg hd n).1
  | consume i n => exact (step_consume hg i n).1
  | copyTo i => exact hg
  | readWith i rd | readFd i rd => exact (step_readWith hg i rd).1
  | writeWith i fn | writeFd i fn => exact (step_writeWith hg i fn).1
  | reset i => exact (step_reset hg i).1

theorem byteStep_of_clear (hg : w.Good) {m : Op ι × List Bool} (hd : m.1.Distinct) (hc : w.Clear m.1) :
    ByteStep w.content m (w.step m).1 (w.step m).2.content := by
  obtain ⟨op, mem⟩ := m
  cases op with
  | append i data => exact (step_append hg i data).2 hc
  | appendStr i str => exact .appendStr i str ((step_append hg i str.bytes).2 hc)
  | appendIOBuffer i j => exact (step_appendIOBuffer hg hd).2
  | read i len => exact (step_read hg i len).2
  | cut i j n => exact (step_cut hg hd n).2
  | consume i n => exact (step_consume hg i n).2
  | copyTo i => exact .copyTo i
  | readWith i rd => exact (step_readWith hg i rd).2 hc
  | readFd i rd => exact .readFd i rd ((step_readWith hg i rd).2 hc)
  | writeWith i fn => exact (step_writeWith hg i fn).2
  | writeFd i fn => exact .writeFd i fn (step_writeWith hg i fn).2
  | reset i => exact (step_reset hg i).2

omit [DecidableEq ι] in
theorem good_init (data : ℕ → ℕ → UInt8) (n : ℕ) : (init data n : World ι).Good := by
  have hheld : (init data n : World ι).held = 0 := Finset.sum_eq_zero fun _ _ => rfl
  refine ⟨⟨hheld.symm, nodup_range, fun b => ?_, fun b _ => ?_⟩, fun _ => ⟨rfl, nofun⟩⟩
  · rw [hheld]
    simp [init]
  · rw [hheld]
    rfl

end World

/-- **Buffers are byte lists**: the counts are right after any operations on distinct buffers, and where nothing that is
written behind a last ref meets another ref, the operations return what they return on byte lists, and leave the bytes
they leave there. -/
theorem byteLists_of_clear [Fintype ι] (data : ℕ → ℕ → UInt8) (n : ℕ) (ms : List (Op ι × List Bool))
    (hd : ∀ m ∈ ms, m.1.Distinct) :
    let w := (exec World.step (World.init data n) ms).2
    (∀ i, (w.bufs i).nbytes = ((w.bufs i).refs.map Ref.length).sum) ∧
      (∀ b, w.store.count b = ∑ i, (w.bufs i).refs.countP fun r => r.block = b) ∧
      (w.store.pool.Nodup ∧ ∀ b, b ∈ w.store.pool ↔ b < w.store.fresh ∧ ∀ i, ∀ r ∈ (w.bufs i).refs, r.block ≠ b) ∧
      (Admits World.step World.Admitted (World.init data n) ms →
        Traces ByteStep (fun _ => []) ms (exec World.step (World.init data n) ms).1 w.content) := by
  intro w
  have hgood : w.Good := by
    have hadmits : Admits World.step (fun _ m => m.1.Distinct) (World.init data n) ms := by
      generalize World.init data n = v
      induction ms generalizing v with
      | nil => trivial
      | cons m ms ih => exact ⟨hd m (.head _), ih (fun m' h => hd m' (.tail _ h)) _⟩
    exact hadmits.preserves (I := World.Good) (fun _ _ hg hd => World.good_step hg hd) (World.good_init data n)
  have hheld (b : ℕ) : w.held b = ∑ i, (w.bufs i).refs.countP fun r => r.block = b := by
    rw [World.held, Finset.sum_apply]
    exact Finset.sum_congr rfl fun i _ => uses_apply _ b
  refine ⟨fun i => (hgood.sound i).nbytes, fun b => ?_, ⟨hgood.owned.nodup, fun b => ?_⟩, fun hadmits => ?_⟩
  · rw [hgood.owned.count, hheld]
  · rw [hgood.owned.pool, hheld, Finset.sum_eq_zero_iff]
    simp [countP_eq_zero]
  · have hstep (v : World ι) (s : ι → Bytes) (m : Op ι × List Bool) (h : v.Good ∧ v.content = s) (hok : v.Admitted m) :
        ∃ t, ByteStep s m (v.step m).1 t ∧ (v.step m).2.Good ∧ (v.step m).2.content = t := by
      obtain ⟨hg, rfl⟩ := h
      exact ⟨_, World.byteStep_of_clear hg hok.1 hok.2, World.good_step hg hok.1, rfl⟩
    obtain ⟨t, htraces, -, rfl⟩ := Traces.of_exec (R := fun v s => v.Good ∧ v.content = s) hstep
      ⟨World.good_init data n, rfl⟩ hadmits
    exact htraces

/-- A cut, and an append to what is left: the shared block is written behind both refs. -/
theorem byteLists_of_clear_cut :
    Traces ByteStep (fun _ : Fin 2 => []) [(.append 0 [1, 2], []), (.cut 0 1 1, []), (.append 0 [3], [])]
      (exec World.step (World.init (fun _ _ => 0) 0) [(.append 0 [1, 2], []), (.cut 0 1 1, []), (.append 0 [3], [])]).1
      (exec World.step (World.init (fun _ _ => 0) 0)
        [(.append 0 [1, 2], []), (.cut 0 1 1, []), (.append 0 [3], [])]).2.content :=
  (byteLists_of_clear (fun _ _ => 0) 0 _ (by decide +kernel)).2.2.2 (by decide +kernel)

/-- A cut, and an append to what was cut: the byte that was left is written over. -/
theorem not_byteLists_shared :
    ¬∀ ms : List (Op (Fin 2) × List Bool), (∀ m ∈ ms, m.1.Distinct) →
      Traces ByteStep (fun _ => []) ms (exec World.step (World.init (fun _ _ => 0) 0) ms).1
        (exec World.step (World.init (fun _ _ => 0) 0) ms).2.content := by
  intro hall
  have h := hall [(.append 0 [1, 2], []), (.cut 0 1 1, []), (.append 1 [9], [])] (by decide +kernel)
  have hresults : (exec World.step (World.init (fun _ _ => 0) 0)
      [((.append 0 [1, 2] : Op (Fin 2)), []), (.cut 0 1 1, []), (.append 1 [9], [])]).1 =
        [.done true, .count 1, .done true] := by decide +kernel
  have hcontent : (exec World.step (World.init (fun _ _ => 0) 0)
      [((.append 0 [1, 2] : Op (Fin 2)), []), (.cut 0 1 1, []), (.append 1 [9], [])]).2.content 0 = [9] := by
    decide +kernel
  rw [hresults] at h
  generalize (exec World.step (World.init (fun _ _ => 0) 0)
    [((.append 0 [1, 2] : Op (Fin 2)), []), (.cut 0 1 1, []), (.append 1 [9], [])]).2.content = t at h hcontent
  obtain _ | ⟨h1, _ | ⟨h2, _ | ⟨h3, _ | _⟩⟩⟩ := h
  cases h1
  cases h2
  cases h3
  simp at hcontent

end Libx.Buf.Blocks
