import Libx.Core.Refine
import Libx.Map.FlatExact
import Libx.Map.TreeExact

/-!
# Libx.Map.Backends — all the backends are one map

map.c: a handle is to a map of one of the three kinds, and a call goes to that kind's function.
-/

namespace Libx.Map

open Libx.Core (Admits Traces exec)

variable {K V : Type} [Zero V]

/-- `xMap`. -/
inductive Backend (K V : Type)
  | hash (h : HashMap K V)
  | flat (f : FlatMap K V)
  | tree (t : TreeMap K V)

namespace Backend

variable (keys : Keys K)

/-- `xMapCreate`, with two functions. -/
def create (type : MapType) (cap : ℕ) : Option (Backend K V) :=
  let cap := if cap = 0 then 16 else cap
  match type with
  | .hash => (HashMap.create cap).map .hash
  | .flat => (FlatMap.create cap).map .flat
  | .tree => some (.tree TreeMap.create)

/-- `xMapSet`, `xMapGet`, `xMapDel`, `xMapLen` and `xMapIterate`. -/
def call : Backend K V → MapOp K V → Option (MapResult K V × Backend K V)
  | .hash h, .set key val => some (.error (h.set keys key val).1, .hash (h.set keys key val).2)
  | .hash h, .get key => some (.value (h.get keys key), .hash h)
  | .hash h, .del key => some (.value (h.del keys key).1, .hash (h.del keys key).2)
  | .hash h, .len => some (.count h.len, .hash h)
  | .hash h, .iterate fn => some (.visits (h.iterate fn), .hash h)
  | .flat f, .set key val => (f.set keys key val).map fun r => (.error r.1, .flat r.2)
  | .flat f, .get key => some (.value (f.get keys key), .flat f)
  | .flat f, .del key => some (.value (f.del keys key).1, .flat (f.del keys key).2)
  | .flat f, .len => some (.count f.len, .flat f)
  | .flat f, .iterate fn => some (.visits (f.iterate fn), .flat f)
  | .tree t, .set key val => (t.set keys key val).map fun r => (.error r.1, .tree r.2)
  | .tree t, .get key => some (.value (t.get keys key), .tree t)
  | .tree t, .del key => (t.del keys key).map fun r => (.value r.1, .tree r.2)
  | .tree t, .len => some (.count t.len, .tree t)
  | .tree t, .iterate fn => some (.visits (t.iterate fn), .tree t)

def step (s : Option (Backend K V)) (op : MapOp K V) : Option (MapResult K V) × Option (Backend K V) :=
  ((s.bind (call keys · op)).map Prod.fst, (s.bind (call keys · op)).map Prod.snd)

/-- **The calls that are answered as by a map**, of a map that is created: a key is put into a `Flat` that is roomy. -/
def Clean (s : Option (Backend K V)) (op : MapOp K V) : Prop :=
  match s, op with
  | none, _ => False
  | some (.flat f), .set key _ => f.Roomy keys key
  | some _, _ => True

instance (s : Option (Backend K V)) : (op : MapOp K V) → Decidable (Clean keys s op)
  | .set key _ =>
    match s with
    | none => .isFalse id
    | some (.flat f) => inferInstanceAs (Decidable (f.Roomy keys key))
    | some (.hash _) => .isTrue trivial
    | some (.tree _) => .isTrue trivial
  | .get _ | .del _ | .len | .iterate _ =>
    match s with
    | none => .isFalse id
    | some (.flat _) => .isTrue trivial
    | some (.hash _) => .isTrue trivial
    | some (.tree _) => .isTrue trivial

/-- The call has an answer, which is one of the abstract map's. -/
def Answers (m : K → Option V) (op : MapOp K V) (r : Option (MapResult K V)) (m' : K → Option V) : Prop :=
  ∃ a, r = some a ∧ MapSpec keys m op a m'

def Rep : Backend K V → (K → Option V) → Prop
  | .hash h, m => HashMap.Rep keys h m
  | .flat f, m => FlatMap.Rep keys f m
  | .tree t, m => TreeMap.Rep keys t m

variable {keys} {m : K → Option V}

/-- **One call**: it is answered, and the map stands for the abstract one after it. -/
theorem rep_call {b : Backend K V} (h : Rep keys b m) {op : MapOp K V} (hclean : Clean keys (some b) op) :
    ∃ r b' m', call keys b op = some (r, b') ∧ MapSpec keys m op r m' ∧ Rep keys b' m' := by
  cases b with
  | hash t =>
    cases op with
    | set key val =>
      obtain ⟨hok, hrep⟩ := HashMap.rep_set h key val
      exact ⟨_, _, _, rfl, by rw [hok]; exact .set key val, hrep⟩
    | get key => exact ⟨_, _, m, rfl, by rw [HashMap.rep_get h]; exact .get key, h⟩
    | del key =>
      obtain ⟨hval, hrep⟩ := HashMap.rep_del h key
      exact ⟨_, _, _, rfl, by rw [hval]; exact .del key, hrep⟩
    | len => exact ⟨_, _, m, rfl, by rw [HashMap.len, h.size]; exact .len h.lists, h⟩
    | iterate fn => exact ⟨_, _, m, rfl, by rw [HashMap.iterate_eq]; exact .iterate fn h.lists, h⟩
  | flat t =>
    cases op with
    | set key val =>
      obtain ⟨f', hset, hrep⟩ := FlatMap.rep_set h hclean val
      exact ⟨_, .flat f', _, by rw [call, hset]; rfl, .set key val, hrep⟩
    | get key => exact ⟨_, _, m, rfl, by rw [FlatMap.rep_get h]; exact .get key, h⟩
    | del key =>
      obtain ⟨hval, hrep⟩ := FlatMap.rep_del h key
      exact ⟨_, _, _, rfl, by rw [hval]; exact .del key, hrep⟩
    | len => exact ⟨_, _, m, rfl, by rw [FlatMap.len, h.size]; exact .len h.lists, h⟩
    | iterate fn => exact ⟨_, _, m, rfl, by rw [FlatMap.iterate_eq]; exact .iterate fn h.lists, h⟩
  | tree t =>
    cases op with
    | set key val =>
      obtain ⟨t', hset, hrep⟩ := TreeMap.rep_set h key val
      exact ⟨_, .tree t', _, by rw [call, hset]; rfl, .set key val, hrep⟩
    | get key => exact ⟨_, _, m, rfl, by rw [TreeMap.rep_get h]; exact .get key, h⟩
    | del key =>
      obtain ⟨t', hdel, hrep⟩ := TreeMap.rep_del h key
      exact ⟨_, .tree t', _, by rw [call, hdel]; rfl, .del key, hrep⟩
    | len => exact ⟨_, _, m, rfl, by rw [TreeMap.len, h.size]; exact .len h.lists, h⟩
    | iterate fn => exact ⟨_, _, m, rfl, by rw [TreeMap.iterate_eq]; exact .iterate fn h.lists, h⟩

omit [Zero V] in
theorem rep_create {type : MapType} {cap : ℕ} {b : Backend K V} (h : create type cap = some b) :
    Rep keys b fun _ => none := by
  have hcap : 0 < if cap = 0 then 16 else cap := by
    split <;> omega
  rw [create.eq_def] at h
  generalize (if cap = 0 then 16 else cap) = n at h hcap
  cases type with
  | hash =>
    obtain ⟨t, ht, rfl⟩ := Option.map_eq_some_iff.1 h
    rw [HashMap.create] at ht
    split at ht
    · cases ht
      exact HashMap.rep_create hcap
    · cases ht
  | flat =>
    obtain ⟨t, ht, rfl⟩ := Option.map_eq_some_iff.1 h
    rw [FlatMap.create] at ht
    split at ht
    · cases ht
      exact FlatMap.rep_create hcap
    · cases ht
  | tree =>
    cases h
    exact TreeMap.rep_create

/-- **All the backends are the same map**: for any kind and any capacity, any calls that are clean are answered as by the
abstract map. -/
theorem refines_of_clean (keys : Keys K) (type : MapType) (cap : ℕ) (ops : List (MapOp K V))
    (h : Admits (step keys) (Clean keys) (create type cap) ops) :
    ∃ m, Traces (Answers keys) (fun _ => none) ops (exec (step keys) (create type cap) ops).1 m := by
  let R : Option (Backend K V) → (K → Option V) → Prop := fun s m => ∀ b, s = some b → Rep keys b m
  have hstep : ∀ s m op, R s m → Clean keys s op →
      ∃ m', Answers keys m op (step keys s op).1 m' ∧ R (step keys s op).2 m' := by
    intro s m op hR hclean
    cases s with
    | none => exact hclean.elim
    | some b =>
      obtain ⟨r, b', m', hcall, hspec, hrep⟩ := rep_call (hR b rfl) hclean
      rw [step, Option.bind_some, hcall]
      exact ⟨m', ⟨r, rfl, hspec⟩, fun b₁ hb => by cases hb; exact hrep⟩
  obtain ⟨m, hm, -⟩ := Traces.of_exec hstep (fun b hb => rep_create hb) h
  exact ⟨m, hm⟩

/-- Numbers, equal where they are one number, with what they leave when they are divided by 16 for a hash. -/
def natKeys : Keys ℕ where
  hash k := k % 16
  eq a b := decide (a = b)
  equiv := ⟨fun _ => decide_eq_true rfl, fun h => decide_eq_true (of_decide_eq_true h).symm,
    fun h h' => decide_eq_true ((of_decide_eq_true h).trans (of_decide_eq_true h'))⟩
  compat a b h := by rw [of_decide_eq_true h]

/-- A table of three slots that grows, with keys of one hash. -/
theorem refines_of_clean_three :
    let ops : List (MapOp ℕ ℕ) := [.set 1 10, .set 17 170, .set 33 330, .del 1, .set 17 99, .get 17, .get 1, .len,
      .iterate fun _ => true]
    (∃ m, Traces (Answers natKeys) (fun _ => none) ops (exec (step natKeys) (create .flat 3) ops).1 m) ∧
      (exec (step natKeys) (create .flat 3) ops).1.drop 5 =
        [some (.value 99), some (.value 0), some (.count 2), some (.visits [(17, 99), (33, 330)])] :=
  ⟨refines_of_clean natKeys .flat 3 _ (by decide +kernel), by decide +kernel⟩

theorem noMemory_notMem {m m' : K → Option V} {ops : List (MapOp K V)} {rs : List (Option (MapResult K V))}
    (h : Traces (Answers keys) m ops rs m') : some (.error .noMemory) ∉ rs := by
  induction h with
  | nil => exact List.not_mem_nil
  | cons hspec _ ih =>
    refine fun hin => (List.mem_cons.1 hin).elim (fun he => ?_) ih
    obtain ⟨a, rfl, hspec⟩ := hspec
    cases he
    cases hspec

/-- Sixteen keys are put into a `Flat` of the default capacity, and taken out of it: there is no place for a key. -/
theorem not_refines_tombstones : ¬∀ (keys : Keys ℕ) (type : MapType) (cap : ℕ) (ops : List (MapOp ℕ ℕ)),
    ∃ m, Traces (Answers keys) (fun _ => none) ops (exec (step keys) (create type cap) ops).1 m := by
  intro h
  obtain ⟨m, hm⟩ := h natKeys .flat 0
    (((List.range 16).flatMap fun k => [.set k 1, .del k]) ++ [.set 16 1])
  exact noMemory_notMem hm (by decide +kernel)

end Backend

end Libx.Map
