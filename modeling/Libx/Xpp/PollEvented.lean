import Libx.Core.Run

/-!
# Libx.Xpp.PollEvented — operations that wait for readiness

io/poll_evented.h, runtime/scheduled_io.h and the operations of net/tcp.cpp and net/udp.cpp on one descriptor.  Each tries
its call, on EAGAIN waits for readiness of its direction, and tries again once; a connect only waits.
-/

namespace Libx.Xpp

open List Function

inductive Dir
  | read
  | write
  deriving DecidableEq

/-- One direction: the kernel finds it ready, has an edge to report; the bit of `m_readiness`, `on_event` between the bit
and the waker, the waker's slot; the number of edges. -/
structure Side (W : Type*) where
  ready : Bool := false
  edge : Bool := false
  bit : Bool := false
  waking : Bool := false
  slot : Option W := none
  edges : ℕ := 0

/-- Where an operation is: it waits for a direction and is not polled; its `poll_read` or `poll_write` is about to load
the bit, to take the lock; it sleeps, its waker stored; it is about to be retried; it is resolved.  With the number of
edges when it got EAGAIN, none for a connect, and the number of wakes when it stored its waker. -/
inductive OpState (W : Type*)
  | idle
  | blocked (d : Dir) (n : Option ℕ)
  | checking (d : Dir) (n : Option ℕ) (w : W)
  | locking (d : Dir) (n : Option ℕ) (w : W)
  | waiting (d : Dir) (n : Option ℕ) (w : W) (m : ℕ)
  | retrying (d : Dir) (n : Option ℕ)
  | done
  deriving DecidableEq

/-- The descriptor and its operations; then the wakers that were woken, whether a promise was resolved with EAGAIN, and
whether an operation was retried without an edge after its EAGAIN. -/
structure PollEvented (ι W : Type*) where
  sides : Dir → Side W
  ops : ι → OpState W := fun _ => .idle
  wakes : List W := []
  again : Bool := false
  early : Bool := false

def OpState.pend {W : Type*} : OpState W → Option (Dir × Option ℕ)
  | .idle | .done => none
  | .blocked d n | .checking d n _ | .locking d n _ | .waiting d n _ _ | .retrying d n => some (d, n)

def OpState.dir {W : Type*} (o : OpState W) : Option Dir := o.pend.map Prod.fst

def OpState.refused {W : Type*} (o : OpState W) : Option Dir :=
  match o.pend with
  | some (d, some _) => some d
  | _ => none

namespace PollEvented

/-- An operation is called (`left`: the direction is ready afterwards, if it was), polled, takes the next step of its
poll, is retried; the direction becomes ready, ceases to be; the loop takes an edge up, and wakes the waiter. -/
inductive Act (ι W : Type*)
  | call (i : ι) (d : Dir) (left : Bool)
  | poll (i : ι) (w : W)
  | op (i : ι)
  | retry (i : ι) (left : Bool)
  | arrive (d : Dir)
  | drain (d : Dir)
  | deliver (d : Dir)
  | wake (d : Dir)

variable {ι W : Type*} [DecidableEq ι]

namespace Act

/-- `async_read_op`, for TcpStream::read and UdpSocket::recv. -/
def asyncReadOp (i : ι) (left : Bool) : Act ι W := .call i .read left

/-- `async_write_op`, for TcpStream::write and UdpSocket::send. -/
def asyncWriteOp (i : ι) (left : Bool) : Act ι W := .call i .write left

def accept (i : ι) (left : Bool) : Act ι W := .call i .read left

def recvFrom (i : ι) (left : Bool) : Act ι W := .call i .read left

def sendTo (i : ι) (left : Bool) : Act ι W := .call i .write left

end Act

/-- The descriptor when it is registered: the kernel reports what is ready already.  `c` is the connect that waits for
it, if there is one. -/
def init (ready : Dir → Bool) (c : Option ι) : PollEvented ι W where
  sides d := { ready := ready d, edge := ready d }
  ops i := if c = some i then .blocked .write none else .idle

def setSide (s : PollEvented ι W) (d : Dir) (x : Side W) : PollEvented ι W :=
  { s with sides := Function.update s.sides d x }

def setOp (s : PollEvented ι W) (i : ι) (x : OpState W) : PollEvented ι W :=
  { s with ops := Function.update s.ops i x }

/-- The next step of `poll_read` or `poll_write`. -/
def stepOp (s : PollEvented ι W) (i : ι) : Option (PollEvented ι W) :=
  match s.ops i with
  | .checking d n w => some (s.setOp i (if (s.sides d).bit then .retrying d n else .locking d n w))
  | .locking d n w =>
    some (if (s.sides d).bit then (s.setSide d { s.sides d with slot := none }).setOp i (.retrying d n)
      else (s.setSide d { s.sides d with slot := some w }).setOp i (.waiting d n w s.wakes.length))
  | _ => none

def step (s : PollEvented ι W) : Act ι W → Option (PollEvented ι W)
  | .call i d left =>
    match s.ops i with
    | .idle =>
      some (if (s.sides d).ready then (s.setSide d { s.sides d with ready := left }).setOp i .done
        else s.setOp i (.blocked d (some (s.sides d).edges)))
    | _ => none
  | .poll i w =>
    match s.ops i with
    | .blocked d n | .waiting d n _ _ => some (s.setOp i (.checking d n w))
    | _ => none
  | .op i => s.stepOp i
  | .retry i left =>
    match s.ops i with
    | .retrying _ none => some (s.setOp i .done)
    | .retrying d (some k) =>
      some { (if (s.sides d).ready then (s.setSide d { s.sides d with ready := left }).setOp i .done
          else { s.setOp i .done with again := true }) with
        early := s.early || decide ((s.sides d).edges ≤ k) }
    | _ => none
  | .arrive d =>
    some (if (s.sides d).ready then s
      else s.setSide d { s.sides d with ready := true, edge := true, edges := (s.sides d).edges + 1 })
  | .drain d => some (s.setSide d { s.sides d with ready := false })
  | .deliver d =>
    if (s.sides d).edge ∧ ∀ e ∈ [Dir.read, Dir.write], (s.sides e).waking = false then
      some (s.setSide d { s.sides d with edge := false, bit := true, waking := true })
    else none
  | .wake d =>
    if (s.sides d).waking then
      some { s.setSide d { s.sides d with waking := false, slot := none } with
        wakes := s.wakes ++ (s.sides d).slot.toList }
    else none

/-! ### The property -/

/-- No promise is resolved with EAGAIN, none is retried without an edge after its EAGAIN, and one that sleeps while its
direction is ready has been woken, or the edge is still to be delivered. -/
structure Awake (s : PollEvented ι W) : Prop where
  again : s.again = false
  early : s.early = false
  woken : ∀ i d n w m, s.ops i = .waiting d n w m → (s.sides d).ready = true →
    w ∈ s.wakes.drop m ∨ (s.sides d).edge = true ∨ (s.sides d).waking = true

/-- An operation of a direction meets no other.  It gets EAGAIN only when the direction was never reported ready, nothing
is to be reported, and no other waits for it; while it waits, the readiness for which it waits is not taken away. -/
def Clean (s : PollEvented ι W) : Act ι W → Prop
  | .call _ d left =>
    ((s.sides d).ready = true → left = true ∨ ∀ j, (s.ops j).refused ≠ some d) ∧
      ((s.sides d).ready = false →
        (s.sides d).bit = false ∧ (s.sides d).edge = false ∧ ∀ j, (s.ops j).dir ≠ some d)
  | .drain d => (s.sides d).ready = true → ∀ j, (s.ops j).refused ≠ some d
  | _ => True

/-! ### The invariant -/

/-- An operation that got EAGAIN: there was no edge since and nothing is reported, or there was and the direction is still
ready. -/
def Since (x : Side W) (n : Option ℕ) : Prop :=
  ∀ k ∈ n, k = x.edges ∧ x.ready = false ∧ x.edge = false ∧ x.bit = false ∨ k < x.edges ∧ x.ready = true

/-- A sleeping operation has its waker in the slot until `on_event` takes it. -/
def Asleep (x : Side W) (wakes : List W) (w : W) (m : ℕ) : Prop :=
  m ≤ wakes.length ∧ (x.bit = false → x.slot = some w) ∧
    (x.bit = true → x.waking = true ∧ x.slot = some w ∨ w ∈ wakes.drop m)

/-- What holds of an operation, given its direction. -/
def Fits (x : Side W) (wakes : List W) : OpState W → Prop
  | .idle | .done => True
  | .blocked _ n | .checking _ n _ | .locking _ n _ => Since x n
  | .waiting _ n w m => Since x n ∧ Asleep x wakes w m
  | .retrying _ n => Since x n ∧ x.bit = true

variable {o : OpState W}

/-- A direction that is ready was reported, or is to be. -/
structure Reported (x : Side W) : Prop where
  ready : x.ready = true → x.edge = true ∨ x.bit = true
  waking : x.waking = true → x.bit = true

structure Inv (s : PollEvented ι W) : Prop where
  sides : ∀ d, Reported (s.sides d)
  alone : ∀ i j d n m, (s.ops i).pend = some (d, n) → (s.ops j).pend = some (d, m) → i = j
  ops : ∀ i d n, (s.ops i).pend = some (d, n) → Fits (s.sides d) s.wakes (s.ops i)
  again : s.again = false
  early : s.early = false

variable {s s' : PollEvented ι W} {i : ι} {d : Dir} {x : Side W} {n : Option ℕ} {w : W} {wakes l : List W}

omit [DecidableEq ι] in
theorem Inv.isAwake (hi : Inv s) : s.Awake where
  again := hi.again
  early := hi.early
  woken i d n w m ho hr := by
    have hfit := hi.ops i d n (by rw [ho]; rfl)
    rw [ho] at hfit
    obtain ⟨-, -, -, hbit⟩ := hfit
    rcases (hi.sides d).ready hr with he | hb
    · exact .inr (.inl he)
    · rcases hbit hb with ⟨hw, -⟩ | hm
      · exact .inr (.inr hw)
      · exact .inl hm

/-! ### One direction changes -/

theorem refused_of_pend {k : ℕ} (h : o.pend = some (d, some k)) : o.refused = some d := by
  rw [OpState.refused, h]

theorem pend_of_refused (h : o.refused = some d) : ∃ k, o.pend = some (d, some k) := by
  rw [OpState.refused] at h
  split at h
  · next k hp =>
    cases h
    exact ⟨k, hp⟩
  · cases h

theorem Fits.wake (h : Fits x wakes o) (hl : wakes <+: l) : Fits x l o := by
  cases o with
  | waiting d n w m =>
    obtain ⟨hs, hm, hf, ht⟩ := h
    refine ⟨hs, hm.trans hl.length_le, hf, fun hb => (ht hb).imp_right fun hw => ?_⟩
    exact (hl.drop m).subset hw
  | _ => exact h

theorem Fits.map {y : Side W} (h : Fits x wakes o) (hs : ∀ d n, o.pend = some (d, n) → Since x n → Since y n)
    (ha : ∀ w m, Asleep x wakes w m → Asleep y l w m) (hb : x.bit = true → y.bit = true) : Fits y l o := by
  cases o with
  | idle | done => trivial
  | blocked d n | checking d n w | locking d n w => exact hs d n rfl h
  | waiting d n w m => exact ⟨hs d n rfl h.1, ha w m h.2⟩
  | retrying d n => exact ⟨hs d n rfl h.1, hb h.2⟩

omit [DecidableEq ι] in
theorem inv_setSide (hi : Inv s) (hx : Reported x) (hl : s.wakes <+: l)
    (h : ∀ i n, (s.ops i).pend = some (d, n) → Fits (s.sides d) s.wakes (s.ops i) → Fits x l (s.ops i)) :
    Inv { s.setSide d x with wakes := l } where
  sides e := by
    change Reported (Function.update s.sides d x e)
    rw [update_apply]
    split
    · exact hx
    · exact hi.sides e
  alone := hi.alone
  ops i e n hp := by
    change Fits (Function.update s.sides d x e) l (s.ops i)
    rw [update_apply]
    split
    · next he =>
      subst he
      exact h i n hp (hi.ops i e n hp)
    · exact (hi.ops i e n hp).wake hl
  again := hi.again
  early := hi.early

theorem inv_arrive (hi : Inv s) (h : s.step (.arrive d) = some s') : Inv s' := by
  rw [step, Option.some.injEq] at h
  split at h
  · exact h ▸ hi
  · next hr =>
    subst h
    refine inv_setSide hi ⟨fun _ => .inl rfl, (hi.sides d).waking⟩ (prefix_refl _) fun i n _ hfit => ?_
    refine hfit.map (fun _ n _ hs k hk => ?_) (fun _ _ h => h) id
    rcases hs k hk with ⟨rfl, -⟩ | ⟨-, ht⟩
    · exact .inr ⟨Nat.lt_succ_self _, rfl⟩
    · exact absurd ht hr

theorem inv_drain (hi : Inv s) (hc : s.Clean (.drain d)) (h : s.step (.drain d) = some s') : Inv s' := by
  cases h
  refine inv_setSide hi ⟨nofun, (hi.sides d).waking⟩ (prefix_refl _) fun i n hp hfit => ?_
  refine hfit.map (fun _ m hm hs k hk => ?_) (fun _ _ h => h) id
  rcases hs k hk with ⟨h1, h2, h3, h4⟩ | ⟨-, ht⟩
  · exact .inl ⟨h1, rfl, h3, h4⟩
  · cases hk
    rw [hp] at hm
    cases hm
    exact absurd (refused_of_pend hp) (hc ht i)

theorem inv_deliver (hi : Inv s) (h : s.step (.deliver d) = some s') : Inv s' := by
  rw [step] at h
  split at h
  case isFalse => cases h
  case isTrue hg =>
  cases h
  have hw : (s.sides d).waking = false := hg.2 d (by cases d <;> simp)
  refine inv_setSide hi ⟨fun _ => .inr rfl, fun _ => rfl⟩ (prefix_refl _) fun i n _ hfit => ?_
  refine hfit.map (fun _ n _ hs k hk => ?_) (fun w m ha => ⟨ha.1, nofun, fun _ => ?_⟩) fun _ => rfl
  · rcases hs k hk with ⟨-, -, he, -⟩ | ht
    · exact absurd (he.symm.trans hg.1) Bool.false_ne_true
    · exact .inr ht
  · cases hb : (s.sides d).bit with
    | false => exact .inl ⟨rfl, ha.2.1 hb⟩
    | true =>
      rcases ha.2.2 hb with ⟨ht, -⟩ | hm
      · exact absurd (hw.symm.trans ht) Bool.false_ne_true
      · exact .inr hm

theorem inv_wake (hi : Inv s) (h : s.step (.wake d) = some s') : Inv s' := by
  rw [step] at h
  split at h
  case isFalse => cases h
  case isTrue hw =>
  cases h
  have hbit := (hi.sides d).waking hw
  refine inv_setSide hi ⟨(hi.sides d).ready, nofun⟩ (prefix_append _ _) fun i n _ hfit => ?_
  refine hfit.map (fun _ _ _ hs => hs) (fun w m ha => ?_) id
  refine ⟨?_, fun hb => absurd (hb.symm.trans hbit) Bool.false_ne_true, fun hb => .inr ?_⟩
  · rw [length_append]
    exact Nat.le_add_right_of_le ha.1
  · rw [drop_append_of_le_length ha.1]
    rcases ha.2.2 hb with ⟨-, hs⟩ | hm
    · rw [hs]
      exact mem_append_right _ (mem_singleton_self w)
    · exact mem_append_left _ hm

/-! ### One operation changes -/

theorem inv_setOp (hi : Inv s)
    (hal : ∀ d n, o.pend = some (d, n) → ∀ j m, j ≠ i → (s.ops j).pend ≠ some (d, m))
    (hfit : ∀ d n, o.pend = some (d, n) → Fits (s.sides d) s.wakes o) : Inv (s.setOp i o) where
  sides := hi.sides
  alone j k d n m hj hk := by
    change (Function.update s.ops i o j).pend = _ at hj
    change (Function.update s.ops i o k).pend = _ at hk
    rw [update_apply] at hj hk
    split at hj
    · next hji =>
      split at hk
      · next hki => exact hji.trans hki.symm
      · next hki => exact absurd hk (hal d n hj k m hki)
    · next hji =>
      split at hk
      · exact absurd hj (hal d m hk j n hji)
      · exact hi.alone j k d n m hj hk
  ops j d n hj := by
    change (Function.update s.ops i o j).pend = _ at hj
    change Fits (s.sides d) s.wakes (Function.update s.ops i o j)
    rw [update_apply] at hj ⊢
    split at hj
    · next hji =>
      rw [if_pos hji]
      exact hfit d n hj
    · next hji =>
      rw [if_neg hji]
      exact hi.ops j d n hj
  again := hi.again
  early := hi.early

theorem inv_goOn (hi : Inv s) (hp : (s.ops i).pend = some (d, n)) (ho : o.pend = some (d, n))
    (hfit : Fits (s.sides d) s.wakes o) : Inv (s.setOp i o) := by
  refine inv_setOp hi (fun e m he j k hj hp' => ?_) fun e m he => ?_
  · cases ho.symm.trans he
    exact hj (hi.alone j i d k n hp' hp)
  · cases ho.symm.trans he
    exact hfit

theorem inv_done (hi : Inv s) (i : ι) : Inv (s.setOp i .done) :=
  inv_setOp hi (fun _ _ h => by cases h) fun _ _ h => by cases h

theorem inv_stepOp (hi : Inv s) (h : s.stepOp i = some s') : Inv s' := by
  rw [stepOp] at h
  cases ho : s.ops i with
  | idle | done | blocked d n | waiting d n w m | retrying d n =>
    rw [ho] at h
    cases h
  | checking d n w =>
    have hp : (s.ops i).pend = some (d, n) := by rw [ho]; rfl
    have hs : Since (s.sides d) n := by
      have := hi.ops i d n hp
      rwa [ho] at this
    rw [ho] at h
    cases h
    split
    · next hb => exact inv_goOn hi hp rfl ⟨hs, hb⟩
    · exact inv_goOn hi hp rfl hs
  | locking d n w =>
    have hp : (s.ops i).pend = some (d, n) := by rw [ho]; rfl
    have hs : Since (s.sides d) n := by
      have := hi.ops i d n hp
      rwa [ho] at this
    rw [ho, Option.some.injEq] at h
    -- the slot is this operation's: no other waits for the direction
    have hslot : ∀ y, Inv (s.setSide d { s.sides d with slot := y }) := fun y =>
      inv_setSide hi ⟨(hi.sides d).ready, (hi.sides d).waking⟩ (prefix_refl _) fun j m hj hfit => by
        have hij : j = i := hi.alone j i d m n hj hp
        subst hij
        rw [ho] at hfit ⊢
        exact hfit
    have hself : ∀ y, (s.setSide d { s.sides d with slot := y }).sides d = { s.sides d with slot := y } := fun y =>
      update_self ..
    split at h
    · next hb =>
      subst h
      refine inv_goOn (hslot none) hp rfl ?_
      rw [hself]
      exact ⟨hs, hb⟩
    · next hb =>
      subst h
      refine inv_goOn (hslot (some w)) hp rfl ?_
      rw [hself]
      exact ⟨hs, Nat.le_refl _, fun _ => rfl, fun ht => absurd ht hb⟩

omit [DecidableEq ι] in
theorem inv_left {left : Bool} (hi : Inv s) (hr : (s.sides d).ready = true)
    (h : left = true ∨ ∀ j, (s.ops j).refused ≠ some d) :
    Inv (s.setSide d { s.sides d with ready := left }) := by
  refine inv_setSide hi ⟨fun _ => (hi.sides d).ready hr, (hi.sides d).waking⟩ (prefix_refl _) fun j n hj hfit => ?_
  refine hfit.map (fun e m hm hs k hk => ?_) (fun _ _ h => h) id
  rcases h with hl | hnone
  · rcases hs k hk with ⟨-, hf, -⟩ | ⟨hlt, -⟩
    · exact absurd (hf.symm.trans hr) Bool.false_ne_true
    · exact .inr ⟨hlt, hl⟩
  · cases hk
    rw [hj] at hm
    cases hm
    exact absurd (refused_of_pend hj) (hnone j)

theorem inv_call {left : Bool} (hi : Inv s) (hc : s.Clean (.call i d left)) (h : s.step (.call i d left) = some s') :
    Inv s' := by
  rw [step] at h
  split at h
  case h_2 => cases h
  case h_1 ho =>
  rw [Option.some.injEq] at h
  split at h
  · next hr =>
    subst h
    exact inv_done (inv_left hi hr (hc.1 hr)) i
  · next hr =>
    subst h
    have hr : (s.sides d).ready = false := Bool.eq_false_iff.2 hr
    obtain ⟨hb, he, hnone⟩ := hc.2 hr
    refine inv_setOp hi (fun e m hm j k _ => ?_) fun e m hm => ?_
    · cases hm
      exact fun hj => hnone j (by rw [OpState.dir, hj]; rfl)
    · cases hm
      intro k hk
      cases hk
      exact .inl ⟨rfl, hr, he, hb⟩

theorem inv_poll (hi : Inv s) (h : s.step (.poll i w) = some s') : Inv s' := by
  rw [step] at h
  split at h
  · next d n ho =>
    cases h
    have hp : (s.ops i).pend = some (d, n) := by rw [ho]; rfl
    have hfit := hi.ops i d n hp
    rw [ho] at hfit
    exact inv_goOn hi hp rfl hfit
  · next d n w' m ho =>
    cases h
    have hp : (s.ops i).pend = some (d, n) := by rw [ho]; rfl
    have hfit := hi.ops i d n hp
    rw [ho] at hfit
    exact inv_goOn hi hp rfl hfit.1
  · cases h

theorem inv_retry {left : Bool} (hi : Inv s) (h : s.step (.retry i left) = some s') : Inv s' := by
  rw [step] at h
  split at h
  · cases h
    exact inv_done hi i
  · next d k ho =>
    have hp : (s.ops i).pend = some (d, some k) := by rw [ho]; rfl
    have hfit := hi.ops i d (some k) hp
    rw [ho] at hfit
    obtain ⟨hs, hb⟩ := hfit
    obtain ⟨hlt, hr⟩ : k < (s.sides d).edges ∧ (s.sides d).ready = true := by
      rcases hs k rfl with ⟨-, -, -, hf⟩ | ht
      · exact absurd (hf.symm.trans hb) Bool.false_ne_true
      · exact ht
    rw [if_pos hr, Option.some.injEq] at h
    subst h
    have hdone : Inv (s.setOp i .done) := inv_done hi i
    have hleft : Inv ((s.setOp i .done).setSide d { s.sides d with ready := left }) := by
      refine inv_left hdone hr (.inr fun j hj => ?_)
      change (Function.update s.ops i .done j).refused = _ at hj
      rw [update_apply] at hj
      split at hj
      · cases hj
      · next hji =>
        obtain ⟨m, hm⟩ := pend_of_refused hj
        exact hji (hi.alone j i d _ _ hm hp)
    refine ⟨hleft.sides, hleft.alone, hleft.ops, hleft.again, ?_⟩
    change (s.early || decide ((s.sides d).edges ≤ k)) = false
    rw [hi.early, decide_eq_false (Nat.not_le.2 hlt)]
    rfl
  · cases h

theorem inv_step {a : Act ι W} (hi : Inv s) (hc : s.Clean a) (h : s.step a = some s') : Inv s' := by
  cases a with
  | call i d left => exact inv_call hi hc h
  | poll i w => exact inv_poll hi h
  | op i => exact inv_stepOp hi h
  | retry i left => exact inv_retry hi h
  | arrive d => exact inv_arrive hi h
  | drain d => exact inv_drain hi hc h
  | deliver d => exact inv_deliver hi h
  | wake d => exact inv_wake hi h

theorem init_pend {ready : Dir → Bool} {c : Option ι} (h : ((init ready c : PollEvented ι W).ops i).pend = some (d, n)) :
    c = some i ∧ n = none := by
  change (if c = some i then OpState.blocked Dir.write none else OpState.idle : OpState W).pend = _ at h
  split at h
  · next hc =>
    cases h
    exact ⟨hc, rfl⟩
  · cases h

theorem inv_init (ready : Dir → Bool) (c : Option ι) : Inv (init ready c : PollEvented ι W) where
  sides d := ⟨fun h => .inl h, nofun⟩
  alone i j d n m hi hj := Option.some.inj ((init_pend hi).1.symm.trans (init_pend hj).1)
  ops i d n hp := by
    obtain ⟨hc, hn⟩ := init_pend hp
    change Fits _ _ (if c = some i then _ else _)
    rw [if_pos hc]
    exact fun k hk => by cases hk
  again := rfl
  early := rfl

open Libx.Core (Run replay exists_run_of_replay)

/-- While an operation of a direction meets no other, and blocks only before its first edge, no operation ends with EAGAIN
or is retried without an edge, and none sleeps beside a ready descriptor. -/
theorem awake_of_clean {ready : Dir → Bool} {c : Option ι} (h : Run step Clean (init ready c : PollEvented ι W) s) :
    s.Awake :=
  (h.preserves (fun _ _ _ hi hc hs => inv_step hi hc hs) (inv_init ready c)).isAwake

instance [Fintype ι] (s : PollEvented ι W) : (a : Act ι W) → Decidable (s.Clean a)
  | .call _ d left => inferInstanceAs (Decidable (
      ((s.sides d).ready = true → left = true ∨ ∀ j, (s.ops j).refused ≠ some d) ∧
      ((s.sides d).ready = false →
        (s.sides d).bit = false ∧ (s.sides d).edge = false ∧ ∀ j, (s.ops j).dir ≠ some d)))
  | .drain d => inferInstanceAs (Decidable ((s.sides d).ready = true → ∀ j, (s.ops j).refused ≠ some d))
  | .poll _ _ | .op _ | .retry _ _ | .arrive _ | .deliver _ | .wake _ => isTrue trivial

/-- A read that blocks, its edge, its wake and its retry, next to a write. -/
theorem awake_of_clean_read : ∃ s : PollEvented (Fin 2) ℕ, Run step Clean (init (· = .write) none) s ∧ s.Awake ∧
    s.ops 0 = .done ∧ s.wakes = [7] := by
  have hreplay : replay step (fun s a => decide (s.Clean a))
      (fun s : PollEvented (Fin 2) ℕ => decide (s.ops 0 = .done ∧ s.wakes = [7])) (init (· = .write) none)
      [.recvFrom 0 true, .deliver .write, .poll 0 7, .op 0, .wake .write, .op 0, .sendTo 1 false, .arrive .read,
        .deliver .read, .wake .read, .poll 0 8, .op 0, .retry 0 false] = true := by
    decide +kernel
  obtain ⟨s, hr, hp⟩ := exists_run_of_replay step Clean _ _ (fun _ _ => of_decide_eq_true) hreplay
  exact ⟨s, hr, awake_of_clean hr, of_decide_eq_true hp⟩

/-- The second read of a descriptor that blocks: the bit of the first edge is still set, the read is retried at once and
ends with EAGAIN. -/
theorem not_awake_second : ¬∀ s : PollEvented (Fin 2) ℕ, Run step (fun _ _ => True) (init (fun _ => false) none) s →
    s.Awake := by
  intro hall
  have hreplay : replay step (fun _ _ => true) (fun s : PollEvented (Fin 2) ℕ => decide (s.again = true ∧ s.early = true))
      (init (fun _ => false) none)
      [.asyncReadOp 0 true, .poll 0 7, .op 0, .op 0, .arrive .read, .deliver .read, .wake .read, .poll 0 7, .op 0,
        .retry 0 false, .asyncReadOp 1 true, .poll 1 7, .op 1, .retry 1 true] = true := by
    decide +kernel
  obtain ⟨s, hr, hp⟩ := exists_run_of_replay step (fun _ _ => True) _ _ (fun _ _ _ => trivial) hreplay
  exact Bool.false_ne_true ((hall s hr).again.symm.trans (of_decide_eq_true hp).1)

end PollEvented

end Libx.Xpp
