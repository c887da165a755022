import Libx.Net.TcpConnect

/-!
# Libx.Ice.NatProbe — a NAT probe

nat_probe.c: two servers' addresses, one socket to both, and three sockets to the first of them.
-/

namespace Libx.Ice

open Libx.Core (Life Run)
open Libx.Net (DnsAnswer)
open List Function Option

/-- `xNatType`. -/
inductive NatType
  | unknown
  | openInternet
  | cone
  | symmetricRandom
  | symmetricSequential
  deriving DecidableEq, Repr

/-- `xNatProbeResult`. -/
structure NatProbeResult where
  type : NatType
  portDelta : ℤ
  mappedPorts : List ℕ
  deriving Repr

/-- `xNatProbePhase`. -/
inductive NatProbePhase
  | dns1
  | dns2
  | phase1
  | phase2
  deriving DecidableEq, Repr

/-- `xNatProbeTest`.  `sock` is the socket, which the event loop calls as long as it is held, and `armed` says
that its read timer is in the loop. -/
structure NatProbeTest where
  fd : Option ℕ := none
  sock : Life := .unmade
  armed : Bool := false
  done : Bool := false
  failed : Bool := false
  mappedPort : ℕ := 0

namespace NatProbeTest

def settled (t : NatProbeTest) : Bool := t.done || t.failed

/-- `xSocketDestroy`, but for its `close`. -/
def destroyed (t : NatProbeTest) : NatProbeTest :=
  { t with sock := t.sock.release, armed := false, fd := none }

end NatProbeTest

/-- What the system and the event loop return while an event is handled: whether a query can still be taken
back, a query, the sockets of both phases, their timers, and `sendto`. -/
structure NatEnv where
  unstarted : Bool := true
  resolveOk : Bool := true
  socketOk : Bool := true
  armOk : Bool := true
  sendOk : Fin 2 → Bool := fun _ => true
  socketsOk : Fin 3 → Bool := fun _ => true
  armsOk : Fin 3 → Bool := fun _ => true
  sendsOk : Fin 3 → Bool := fun _ => true

/-- `xNatProbe_`.  `self` is the struct; `query` is the request that the resolver has, by the server that it asks
for, and `cancelled` its flag; `descs` says where each of the `opened` descriptors is.  `calls` are the results
that its callback got, `withdrawn` says that the application has cancelled it or never got it, and `faulted`
that a freed probe or socket, or a result that is not there, was used. -/
structure NatProbe where
  phase : NatProbePhase := .dns1
  self : Life := .unmade
  timer : Life := .unmade
  asking : Bool := false
  query : Option (Fin 2) := none
  cancelled : Bool := false
  phase1Tests : Fin 2 → NatProbeTest := fun _ => {}
  phase1DoneCount : ℕ := 0
  phase2Tests : Fin 3 → NatProbeTest := fun _ => {}
  phase2DoneCount : ℕ := 0
  finished : Bool := false
  opened : ℕ := 0
  descs : ℕ → Life := fun _ => .unmade
  calls : List NatProbeResult := []
  withdrawn : Bool := false
  faulted : Bool := false

namespace NatProbe

/-- `close`. -/
def close (fd : Option ℕ) (c : NatProbe) : NatProbe :=
  match fd with
  | none => c
  | some k => { c with descs := Function.update c.descs k (c.descs k).release }

def setTest1 (i : Fin 2) (t : NatProbeTest) (c : NatProbe) : NatProbe :=
  { c with phase1Tests := Function.update c.phase1Tests i t }

def setTest2 (i : Fin 3) (t : NatProbeTest) (c : NatProbe) : NatProbe :=
  { c with phase2Tests := Function.update c.phase2Tests i t }

/-- One round of the first loop of `nat_probe_free`. -/
def freeTest1 (i : Fin 2) (c : NatProbe) : NatProbe :=
  let t := c.phase1Tests i
  if t.sock = .held then (c.close t.fd).setTest1 i t.destroyed
  else if t.fd.isSome then (c.close t.fd).setTest1 i { t with fd := none }
  else c

def freeTest2 (i : Fin 3) (c : NatProbe) : NatProbe :=
  let t := c.phase2Tests i
  if t.sock = .held then (c.close t.fd).setTest2 i t.destroyed
  else if t.fd.isSome then (c.close t.fd).setTest2 i { t with fd := none }
  else c

/-- `nat_probe_free`. -/
def free (c : NatProbe) : NatProbe :=
  let c := [0, 1].foldl (fun c i => c.freeTest1 i) c
  let c := [0, 1, 2].foldl (fun c i => c.freeTest2 i) c
  { c with self := c.self.release }

/-- `nat_classify_phase2`. -/
def classifyPhase2 (p0 p1 p2 : ℕ) : NatType × ℤ :=
  let d1 : ℤ := p1 - p0
  let d2 : ℤ := p2 - p1
  if d1 = d2 ∧ d1 ≠ 0 then (.symmetricSequential, d1) else (.symmetricRandom, 0)

/-- The result that `nat_probe_finish` reports. -/
def result (timedOut : Bool) (c : NatProbe) : NatProbeResult :=
  let a := (c.phase1Tests 0).mappedPort
  let b := (c.phase1Tests 1).mappedPort
  let p := fun i => (c.phase2Tests i).mappedPort
  if timedOut ∨ ¬ ∀ i, (c.phase1Tests i).done = true then ⟨.unknown, 0, [a, b, 0, 0, 0]⟩
  else if a = b then ⟨.cone, 0, [a, b, 0, 0, 0]⟩
  else if ¬ ∀ i, (c.phase2Tests i).done = true then ⟨.symmetricRandom, 0, [a, b, p 0, p 1, p 2]⟩
  else
    let r := classifyPhase2 (p 0) (p 1) (p 2)
    ⟨r.1, r.2, [a, b, p 0, p 1, p 2]⟩

/-- `nat_probe_finish`; a cancel from its callback does nothing, since `finished` is set. -/
def finish (timedOut : Bool) (c : NatProbe) : NatProbe :=
  if c.finished then c
  else
    let c := { c with finished := true, timer := c.timer.drop }
    free { c with calls := c.calls ++ [c.result timedOut] }

/-! ### The second phase -/

/-- `nat_probe_check_phase2_done`. -/
def checkPhase2Done (c : NatProbe) : NatProbe :=
  if c.phase2DoneCount < 3 then c else c.finish false

def answer2 (i : Fin 3) (port : ℕ) (c : NatProbe) : NatProbe :=
  let c := c.setTest2 i { c.phase2Tests i with mappedPort := port, done := true }
  { c with phase2DoneCount := c.phase2DoneCount + 1 }

def fail2 (i : Fin 3) (c : NatProbe) : NatProbe :=
  let c := c.setTest2 i { c.phase2Tests i with failed := true }
  { c with phase2DoneCount := c.phase2DoneCount + 1 }

/-- `nat_probe_phase2_on_readable` with the port that the datagram read gives, if it gives one. -/
def phase2OnReadable (i : Fin 3) (timeout : Bool) (response : Option ℕ) (c : NatProbe) : NatProbe :=
  if c.finished then c
  else if (c.phase2Tests i).settled then c
  else if timeout then checkPhase2Done (c.fail2 i)
  else
    match response with
    | none => c
    | some port => checkPhase2Done (c.answer2 i port)

/-- `xSocketCreate` and `xSocketSetTimeout` for a test of the second phase. -/
def openTest2 (armOk : Bool) (i : Fin 3) (c : NatProbe) : NatProbe :=
  let t := c.phase2Tests i
  let c := { c with
    opened := c.opened + 1
    descs := Function.update c.descs c.opened (c.descs c.opened).make }
  c.setTest2 i { t with sock := t.sock.make, fd := some (c.opened - 1), armed := armOk }

/-- The first loop of `nat_probe_start_phase2`. -/
def createLoop (env : NatEnv) : List (Fin 3) → NatProbe → NatProbe × Bool
  | [], c => (c, true)
  | i :: is, c => if env.socketsOk i then createLoop env is (c.openTest2 (env.armsOk i) i) else (c, false)

def sendLoop (env : NatEnv) (c : NatProbe) : NatProbe :=
  [0, 1, 2].foldl (fun c i => if env.sendsOk i then c else c.fail2 i) c

/-- `nat_probe_start_phase2`. -/
def startPhase2 (env : NatEnv) (c : NatProbe) : NatProbe × Bool :=
  let r := createLoop env [0, 1, 2] { c with phase := .phase2 }
  if r.2 then (checkPhase2Done (sendLoop env r.1), true) else (r.1, false)

/-! ### The first phase -/

/-- A round of the loops that close the socket of the first phase. -/
def destroySock1 (i : Fin 2) (c : NatProbe) : NatProbe :=
  let t := c.phase1Tests i
  if t.sock = .held then (c.close t.fd).setTest1 i t.destroyed else c

def destroySocks1 (c : NatProbe) : NatProbe := [0, 1].foldl (fun c i => c.destroySock1 i) c

/-- `nat_probe_check_phase1_done`. -/
def checkPhase1Done (env : NatEnv) (c : NatProbe) : NatProbe :=
  if c.phase1DoneCount < 2 then c
  else if ¬ ∀ i, (c.phase1Tests i).done = true then c.finish false
  else if (c.phase1Tests 0).mappedPort = (c.phase1Tests 1).mappedPort then finish false c.destroySocks1
  else
    let r := startPhase2 env c.destroySocks1
    if r.2 then r.1 else r.1.finish false

def answer1 (i : Fin 2) (port : ℕ) (c : NatProbe) : NatProbe :=
  let c := c.setTest1 i { c.phase1Tests i with mappedPort := port, done := true }
  { c with phase1DoneCount := c.phase1DoneCount + 1 }

def fail1 (i : Fin 2) (c : NatProbe) : NatProbe :=
  let c := c.setTest1 i { c.phase1Tests i with failed := true }
  { c with phase1DoneCount := c.phase1DoneCount + 1 }

/-- One datagram, by what `nat_probe_parse_response` finds in it for each test. -/
def receive1 (datagram : Fin 2 → Option ℕ) (c : NatProbe) : NatProbe :=
  match if (c.phase1Tests 0).settled then none else datagram 0 with
  | some port => c.answer1 0 port
  | none =>
    match if (c.phase1Tests 1).settled then none else datagram 1 with
    | some port => c.answer1 1 port
    | none => c

def receiveLoop (datagrams : List (Fin 2 → Option ℕ)) (c : NatProbe) : NatProbe :=
  datagrams.foldl (fun c d => c.receive1 d) c

def expire1 (i : Fin 2) (c : NatProbe) : NatProbe := if (c.phase1Tests i).settled then c else c.fail1 i

/-- `nat_probe_phase1_on_readable`. -/
def phase1OnReadable (env : NatEnv) (timeout : Bool) (datagrams : List (Fin 2 → Option ℕ)) (c : NatProbe) :
    NatProbe :=
  if c.finished then c
  else if timeout then checkPhase1Done env ([0, 1].foldl (fun c i => c.expire1 i) c)
  else checkPhase1Done env (c.receiveLoop datagrams)

/-- `xSocketCreate` and `xSocketSetTimeout` for the first phase: both tests get the descriptor. -/
def openTest1 (armOk : Bool) (c : NatProbe) : NatProbe :=
  let t := c.phase1Tests 0
  let c := { c with
    opened := c.opened + 1
    descs := Function.update c.descs c.opened (c.descs c.opened).make }
  let c := c.setTest1 0 { t with sock := t.sock.make, fd := some (c.opened - 1), armed := armOk }
  c.setTest1 1 { c.phase1Tests 1 with fd := some (c.opened - 1) }

/-- `nat_probe_start_phase1`. -/
def startPhase1 (env : NatEnv) (c : NatProbe) : NatProbe × Bool :=
  let c := { c with phase := .phase1 }
  if env.socketOk then
    let c := c.openTest1 env.armOk
    let c := [0, 1].foldl (fun c i => if env.sendOk i then c else c.fail1 i) c
    (c.checkPhase1Done env, true)
  else (c, false)

/-! ### DNS, the timer and the application -/

/-- `nat_probe_on_dns1`. -/
def onDns1 (env : NatEnv) (r : DnsAnswer) (c : NatProbe) : NatProbe :=
  let c := { c with asking := false }
  if c.finished then c
  else if r.error ≠ .ok ∨ r.hasAddrs = false then c.finish false
  else
    let c := { c with phase := .dns2 }
    if env.resolveOk then { c with asking := true, query := some 1 } else c.finish false

/-- `nat_probe_on_dns2`. -/
def onDns2 (env : NatEnv) (r : DnsAnswer) (c : NatProbe) : NatProbe :=
  let c := { c with asking := false }
  if c.finished then c
  else if r.error ≠ .ok ∨ r.hasAddrs = false then c.finish false
  else
    let r := c.startPhase1 env
    if r.2 then r.1 else r.1.finish false

/-- A callback is entered with the probe for its argument. -/
def enter (f : NatProbe → NatProbe) (c : NatProbe) : NatProbe :=
  if c.self = .held then f c else { c with faulted := true }

/-- `dns_done_fn` for the request that asks for the given server; no result is there when not even one for the
error could be allocated. -/
def dnsDone (server : Fin 2) (env : NatEnv) (answer : Option DnsAnswer) (c : NatProbe) : NatProbe :=
  let c := { c with query := none }
  if c.cancelled then c
  else
    match answer with
    | none => { c with faulted := true }
    | some r => c.enter (if server = 0 then onDns1 env r else onDns2 env r)

/-- `nat_probe_on_timeout`. -/
def onTimeout (c : NatProbe) : NatProbe :=
  let c := { c with timer := c.timer.release }
  if c.finished then c else c.finish true

/-- `xDnsCancel`: a query whose work has not started is taken back, another one is flagged. -/
def dnsCancel (env : NatEnv) (c : NatProbe) : NatProbe :=
  if env.unstarted then { c with query := none } else { c with cancelled := true }

/-- `xNatProbeCancel`. -/
def cancel (env : NatEnv) (c : NatProbe) : NatProbe :=
  if c.finished then c
  else
    let c := { c with finished := true, withdrawn := true }
    let c := if c.asking then { c.dnsCancel env with asking := false } else c
    free { c with timer := c.timer.drop }

/-- What `xNatProbeStart` meets: its arguments, its allocations, the timer and `xDnsResolve`. -/
structure StartEnv where
  argsOk : Bool := true
  allocOk : Bool := true
  hostOk : Bool := true
  timerOk : Bool := true
  resolveOk : Bool := true

/-- `xNatProbeStart`. -/
def start (env : StartEnv) : NatProbe :=
  if !env.argsOk || !env.allocOk then { withdrawn := true }
  else if !env.hostOk then { self := Life.held.release, withdrawn := true }
  else
    let c : NatProbe := { self := .held, timer := if env.timerOk then .held else .unmade }
    if env.resolveOk then { c with asking := true, query := some 0 }
    else { c with timer := c.timer.drop, self := c.self.release, withdrawn := true }

/-! ### Events -/

/-- The read event of the first phase's socket, behind the trampoline, which arms its timer again. -/
def event1 (env : NatEnv) (datagrams : List (Fin 2 → Option ℕ)) (c : NatProbe) : NatProbe :=
  enter (phase1OnReadable env false datagrams) (c.setTest1 0 { c.phase1Tests 0 with armed := env.armOk })

/-- The read event of a socket of the second phase. -/
def event2 (env : NatEnv) (i : Fin 3) (response : Option ℕ) (c : NatProbe) : NatProbe :=
  enter (phase2OnReadable i false response) (c.setTest2 i { c.phase2Tests i with armed := env.armOk })

/-- A timer whose callback the event loop calls: the probe's, the read timer of a socket, or one of the
application's that cancels the probe. -/
inductive TimerCall
  | overall
  | read1
  | read2 (i : Fin 3)
  | app
  deriving DecidableEq

def Armed (c : NatProbe) : TimerCall → Prop
  | .overall => c.timer = .held
  | .read1 => (c.phase1Tests 0).sock = .held ∧ (c.phase1Tests 0).armed = true
  | .read2 i => (c.phase2Tests i).sock = .held ∧ (c.phase2Tests i).armed = true
  | .app => c.self = .held

instance (c : NatProbe) : DecidablePred c.Armed
  | .overall => inferInstanceAs (Decidable (_ = _))
  | .read1 => inferInstanceAs (Decidable (_ ∧ _))
  | .read2 _ => inferInstanceAs (Decidable (_ ∧ _))
  | .app => inferInstanceAs (Decidable (_ = _))

/-- A timer's callback; a timer that was taken from the heap is called whatever the callbacks before it did.
The application leaves a probe alone that is over. -/
def fire (env : NatEnv) (c : NatProbe) : TimerCall → NatProbe
  | .overall => c.enter onTimeout
  | .read1 =>
    if (c.phase1Tests 0).sock = .held then
      enter (phase1OnReadable env true []) (c.setTest1 0 { c.phase1Tests 0 with armed := false })
    else { c with faulted := true }
  | .read2 i =>
    if (c.phase2Tests i).sock = .held then
      enter (phase2OnReadable i true none) (c.setTest2 i { c.phase2Tests i with armed := false })
    else { c with faulted := true }
  | .app => if c.self = .held then c.cancel env else c

/-- The end of a query's work; a socket that can be read; the timers that are taken from the heap together; and
`xNatProbeCancel`. -/
inductive Input
  | dns (answer : Option DnsAnswer) (env : NatEnv)
  | readable1 (datagrams : List (Fin 2 → Option ℕ)) (env : NatEnv)
  | readable2 (i : Fin 3) (response : Option ℕ) (env : NatEnv)
  | timers (batch : List TimerCall) (env : NatEnv)
  | cancel (env : NatEnv)

/-- A step: what the event loop and the application have. -/
def step (c : NatProbe) : Input → Option NatProbe
  | .dns answer env => c.query.map (fun server => c.dnsDone server env answer)
  | .readable1 datagrams env => if (c.phase1Tests 0).sock = .held then some (c.event1 env datagrams) else none
  | .readable2 i response env => if (c.phase2Tests i).sock = .held then some (c.event2 env i response) else none
  | .timers batch env =>
    if (∀ t ∈ batch, c.Armed t) ∧ batch.Nodup then some (batch.foldl (fire env) c) else none
  | .cancel env => if c.self = .held then some (c.cancel env) else none

/-- What is there for the probe to go on: a query, the timer, or read timers of all sockets that a test waits
for. -/
def Waits (c : NatProbe) : Prop :=
  c.asking = true ∧ c.query.isSome ∨ c.timer = .held ∨
    (c.phase1Tests 0).sock = .held ∧ (c.phase1Tests 0).armed = true ∨
      (∃ i, (c.phase2Tests i).settled = false) ∧ ∀ i, (c.phase2Tests i).settled = false →
        (c.phase2Tests i).sock = .held ∧ (c.phase2Tests i).armed = true

/-- **The probe reports once and releases everything.**  As long as it is there its callback was not called, and
something is there for it to go on; no descriptor was closed twice.  Then the callback was called once, or not
at all where the application has cancelled it first; no query, timer or socket refers to it; every descriptor
that it opened was closed once; and nothing went on with it. -/
structure ReportsOnce (c : NatProbe) : Prop where
  once : c.calls.length = if c.self ≠ .held ∧ c.withdrawn = false then 1 else 0
  waits : c.self = .held → c.withdrawn = false ∧ c.Waits ∧ ∀ k, (c.descs k).Kept
  gone : c.self ≠ .held → c.self.Gone ∧ (c.query = none ∨ c.cancelled = true) ∧ c.timer.Gone ∧
    (∀ i, (c.phase1Tests i).sock.Gone) ∧ (∀ i, (c.phase2Tests i).sock.Gone) ∧ ∀ k, (c.descs k).Gone
  sound : c.faulted = false

/-! ### Steps that do not end a probe with a socket -/

/-- What comes behind the reading in the first phase does not end the probe, and there is a timer to go on: a test
still waits, or both are answered from different ports, and the sockets of the second phase can be made, their
timers too, and something is sent. -/
def GoesOn1 (env : NatEnv) (c : NatProbe) : Prop :=
  if c.phase1DoneCount < 2 then c.timer = .held ∨ (c.phase1Tests 0).armed = true
  else
    (∀ i, (c.phase1Tests i).done = true) ∧
      (c.phase1Tests 0).mappedPort ≠ (c.phase1Tests 1).mappedPort ∧
      (∀ i, env.socketsOk i = true) ∧ (∃ i, env.sendsOk i = true) ∧
      (c.timer = .held ∨ ∀ i, env.sendsOk i = true → env.armsOk i = true)

/-- A timer does not end a probe that has a socket, and is not the overall one. -/
def CleanCall (c : NatProbe) : TimerCall → Prop
  | .overall => False
  | .read1 => False
  | .read2 i => (c.phase2Tests i).settled = false → c.phase2DoneCount + 1 < 3
  | .app => c.self = .held → c.asking = true

def CleanCalls (env : NatEnv) : List TimerCall → NatProbe → Prop
  | [], _ => True
  | t :: ts, c => c.CleanCall t ∧ CleanCalls env ts (c.fire env t)

/-- The condition: the probe ends only before its first socket is there, and not by its timer; a query that is
not cancelled ends with a result; and there is a timer to go on. -/
def Clean (c : NatProbe) : Input → Prop
  | .dns answer env => c.cancelled = false → answer ≠ none ∧
      ∀ r, answer = some r → c.query = some 1 → r.error = .ok → r.hasAddrs = true → env.socketOk = true →
        (∃ i, env.sendOk i = true) ∧ (c.timer = .held ∨ env.armOk = true)
  | .readable1 datagrams env =>
    GoesOn1 env ((c.setTest1 0 { c.phase1Tests 0 with armed := env.armOk }).receiveLoop datagrams)
  | .readable2 i response env => (c.phase2Tests i).settled = false →
      if response.isSome then c.phase2DoneCount + 1 < 3 else c.timer = .held ∨ env.armOk = true
  | .timers batch env => CleanCalls env batch c
  | .cancel _ => c.asking = true

/-! ### Stages -/

variable {c d : NatProbe} {e : NatEnv}

/-- The probe is there. -/
structure Alive (c : NatProbe) : Prop where
  self : c.self = .held
  faulted : c.faulted = false
  calls : c.calls = []
  withdrawn : c.withdrawn = false
  finished : c.finished = false
  timer : c.timer = .held ∨ c.timer = .unmade

/-- It has no socket. -/
structure Unopened (c : NatProbe) : Prop where
  tests1 : c.phase1Tests = fun _ => {}
  tests2 : c.phase2Tests = fun _ => {}
  count1 : c.phase1DoneCount = 0
  count2 : c.phase2DoneCount = 0
  opened : c.opened = 0
  descs : c.descs = fun _ => .unmade

/-- It has the first phase's socket. -/
structure Probing (c : NatProbe) : Prop where
  asking : c.asking = false
  query : c.query = none
  sock0 : (c.phase1Tests 0).sock = .held
  fds : ∀ i, (c.phase1Tests i).fd = some 0
  sock1 : (c.phase1Tests 1).sock = .unmade
  count1 : c.phase1DoneCount = (c.phase1Tests 0).settled.toNat + (c.phase1Tests 1).settled.toNat
  tests2 : c.phase2Tests = fun _ => {}
  count2 : c.phase2DoneCount = 0
  opened : c.opened = 1
  desc0 : c.descs 0 = .held
  descs : ∀ k, k ≠ 0 → c.descs k = .unmade

/-- It has those of the second. -/
structure Measuring (c : NatProbe) : Prop where
  asking : c.asking = false
  query : c.query = none
  socks1 : ∀ i, (c.phase1Tests i).sock.Gone
  fd0 : (c.phase1Tests 0).fd = none
  fd1 : (c.phase1Tests 1).fd = some 0
  desc0 : c.descs 0 = .released
  socks2 : ∀ i, (c.phase2Tests i).sock = .held
  count2 : c.phase2DoneCount = (c.phase2Tests 0).settled.toNat + (c.phase2Tests 1).settled.toNat +
    (c.phase2Tests 2).settled.toNat
  descs : ∀ k, (c.descs k).Kept

/-- It is over. -/
structure Ended (c : NatProbe) : Prop where
  self : c.self.Gone
  faulted : c.faulted = false
  query : c.query = none ∨ c.cancelled = true
  calls : c.calls.length = if c.withdrawn then 0 else 1
  timer : c.timer.Gone
  socks1 : ∀ i, (c.phase1Tests i).sock.Gone
  socks2 : ∀ i, (c.phase2Tests i).sock.Gone
  descs : ∀ k, (c.descs k).Gone

variable {t : NatProbeTest}

/-- Its second phase is under way. -/
structure Underway (c : NatProbe) : Prop where
  alive : c.Alive
  measuring : c.Measuring
  lt : c.phase2DoneCount < 3
  waits : c.timer = .held ∨ ∀ i, (c.phase2Tests i).settled = false → (c.phase2Tests i).armed = true

inductive Stage (c : NatProbe) : Prop
  | asking : c.Alive → c.Unopened → c.asking = true → c.query.isSome → c.cancelled = false → Stage c
  | probing : c.Alive → c.Probing → c.phase1DoneCount < 2 →
      c.timer = .held ∨ (c.phase1Tests 0).armed = true → Stage c
  | measuring : c.Underway → Stage c
  | ended : c.Ended → Stage c

theorem ne_held {l : Life} (h : l.Gone) : l ≠ .held := by
  rcases h with rfl | rfl <;> decide

theorem Measuring.unsettled (h : c.Measuring) (hlt : c.phase2DoneCount < 3) :
    ∃ i, (c.phase2Tests i).settled = false := by
  by_contra hall
  have hs : ∀ i, (c.phase2Tests i).settled = true := by
    intro i
    by_contra hi
    exact hall ⟨i, Bool.eq_false_iff.mpr hi⟩
  rw [h.count2, hs 0, hs 1, hs 2] at hlt
  exact absurd hlt (by decide)

theorem Stage.reportsOnce (h : Stage c) : c.ReportsOnce := by
  have halive : c.Alive → c.Waits → (∀ k, (c.descs k).Kept) → c.ReportsOnce := by
    intro ha hw hk
    refine ⟨?_, fun _ => ⟨ha.withdrawn, hw, hk⟩, fun hn => absurd ha.self hn, ha.faulted⟩
    rw [ha.calls, if_neg (fun h => h.1 ha.self)]
    rfl
  cases h with
  | asking ha hu hasking hquery _ =>
    refine halive ha (.inl ⟨hasking, hquery⟩) (fun k => ?_)
    rw [hu.descs]
    exact .inl (.inl rfl)
  | probing ha hp _ hw =>
    refine halive ha ?_ (fun k => ?_)
    · rcases hw with hw | hw
      · exact .inr (.inl hw)
      · exact .inr (.inr (.inl ⟨hp.sock0, hw⟩))
    · by_cases hk : k = 0
      · rw [hk, hp.desc0]
        decide
      · rw [hp.descs k hk]
        decide
  | measuring hu =>
    refine halive hu.alive ?_ hu.measuring.descs
    rcases hu.waits with hw | hw
    · exact .inr (.inl hw)
    · exact .inr (.inr (.inr ⟨hu.measuring.unsettled hu.lt, fun i hi => ⟨hu.measuring.socks2 i, hw i hi⟩⟩))
  | ended he =>
    have hn := ne_held he.self
    refine ⟨?_, fun hh => absurd hh hn, fun _ => ⟨he.self, he.query, he.timer, he.socks1, he.socks2, he.descs⟩,
      he.faulted⟩
    rw [he.calls]
    cases c.withdrawn with
    | false => exact (if_pos ⟨hn, rfl⟩).symm
    | true => exact (if_neg (fun h => nomatch h.2)).symm

/-! ### The end of a probe without a socket -/

theorem free_unopened (h1 : c.phase1Tests = fun _ => {}) (h2 : c.phase2Tests = fun _ => {}) :
    c.free = { c with self := c.self.release } := by
  have hfree1 : ∀ i, c.freeTest1 i = c := by
    intro i
    unfold freeTest1
    rw [h1]
    rfl
  have hfree2 : ∀ i, c.freeTest2 i = c := by
    intro i
    unfold freeTest2
    rw [h2]
    rfl
  unfold free
  simp only [foldl_cons, foldl_nil, hfree1, hfree2]

theorem ended_free (hu : c.Unopened) (hself : c.self = .held) (hf : c.faulted = false)
    (hq : c.query = none ∨ c.cancelled = true) (hc : c.calls.length = if c.withdrawn then 0 else 1)
    (ht : c.timer.Gone) : c.free.Ended := by
  rw [free_unopened hu.tests1 hu.tests2]
  refine ⟨.inr (by dsimp only; rw [hself]; rfl), hf, hq, hc, ht, fun i => ?_, fun i => ?_, fun k => ?_⟩
  · dsimp only
    rw [hu.tests1]
    exact .inl rfl
  · dsimp only
    rw [hu.tests2]
    exact .inl rfl
  · dsimp only
    rw [hu.descs]
    exact .inl rfl

theorem Alive.of_eq {d : NatProbe} (h : c.Alive)
    (heq : (d.self, d.faulted, d.calls, d.withdrawn, d.finished, d.timer) =
      (c.self, c.faulted, c.calls, c.withdrawn, c.finished, c.timer)) : d.Alive := by
  simp only [Prod.mk.injEq] at heq
  obtain ⟨h1, h2, h3, h4, h5, h6⟩ := heq
  exact ⟨h1.trans h.self, h2.trans h.faulted, h3.trans h.calls, h4.trans h.withdrawn, h5.trans h.finished,
    h6.symm ▸ h.timer⟩

theorem Unopened.of_eq {d : NatProbe} (h : c.Unopened)
    (heq : (d.phase1Tests, d.phase2Tests, d.phase1DoneCount, d.phase2DoneCount, d.opened, d.descs) =
      (c.phase1Tests, c.phase2Tests, c.phase1DoneCount, c.phase2DoneCount, c.opened, c.descs)) : d.Unopened := by
  simp only [Prod.mk.injEq] at heq
  obtain ⟨h1, h2, h3, h4, h5, h6⟩ := heq
  exact ⟨h1.trans h.tests1, h2.trans h.tests2, h3.trans h.count1, h4.trans h.count2, h5.trans h.opened,
    h6.trans h.descs⟩

theorem Alive.not_finished (h : c.Alive) : ¬ c.finished = true := by
  rw [h.finished]
  decide

theorem Alive.timer_drop (h : c.Alive) : c.timer.drop.Gone := by
  rcases h.timer with ht | ht <;> rw [ht]
  · exact .inr rfl
  · exact .inl rfl

variable {b : Bool}

theorem ended_finish (h : c.Alive) (hu : c.Unopened) (hq : c.query = none) : (c.finish b).Ended := by
  unfold finish
  rw [if_neg h.not_finished]
  refine ended_free (hu.of_eq rfl) h.self h.faulted (.inl hq) ?_ h.timer_drop
  dsimp only
  rw [h.calls, h.withdrawn]
  rfl

theorem ended_cancel (h : c.Alive) (hu : c.Unopened) (hasking : c.asking = true) : (c.cancel e).Ended := by
  have hcalls : c.calls.length = if true then 0 else 1 := by
    rw [h.calls]
    rfl
  unfold cancel dnsCancel
  rw [if_neg h.not_finished]
  dsimp only
  rw [if_pos hasking]
  split_ifs
  · exact ended_free (hu.of_eq rfl) h.self h.faulted (.inl rfl) hcalls h.timer_drop
  · exact ended_free (hu.of_eq rfl) h.self h.faulted (.inr rfl) hcalls h.timer_drop

/-! ### The first phase -/

theorem Alive.settle1 {i : Fin 2} {n : ℕ} (h : c.Alive) :
    Alive { c.setTest1 i t with phase1DoneCount := n } := h.of_eq rfl

theorem Probing.settle {i : Fin 2} (h : c.Probing) (hu : (c.phase1Tests i).settled = false)
    (ht : t.settled = true) (hs : t.sock = (c.phase1Tests i).sock) (hf : t.fd = (c.phase1Tests i).fd) :
    Probing { c.setTest1 i t with phase1DoneCount := c.phase1DoneCount + 1 } := by
  have hcount := h.count1
  have hfds : ∀ j, (Function.update c.phase1Tests i t j).fd = some 0 := by
    intro j
    by_cases hj : j = i
    · rw [hj, update_self]
      exact hf.trans (h.fds i)
    · rw [update_of_ne hj]
      exact h.fds j
  obtain rfl | rfl : i = 0 ∨ i = 1 := by omega
  · refine ⟨h.asking, h.query, hs.trans h.sock0, hfds, h.sock1, ?_, h.tests2, h.count2, h.opened, h.desc0,
      h.descs⟩
    show c.phase1DoneCount + 1 = t.settled.toNat + (c.phase1Tests 1).settled.toNat
    rw [hcount, hu, ht, Bool.toNat_true, Bool.toNat_false]
    omega
  · refine ⟨h.asking, h.query, h.sock0, hfds, hs.trans h.sock1, ?_, h.tests2, h.count2, h.opened, h.desc0,
      h.descs⟩
    show c.phase1DoneCount + 1 = (c.phase1Tests 0).settled.toNat + t.settled.toNat
    rw [hcount, hu, ht, Bool.toNat_true, Bool.toNat_false]

/-- **A datagram.** -/
theorem probing_receive1 (datagram : Fin 2 → Option ℕ) (ha : c.Alive) (hp : c.Probing) :
    (c.receive1 datagram).Alive ∧ (c.receive1 datagram).Probing := by
  have hanswer : ∀ i port, (if (c.phase1Tests i).settled then none else datagram i) = some port →
      (c.answer1 i port).Alive ∧ (c.answer1 i port).Probing := by
    intro i port h
    have hu : (c.phase1Tests i).settled = false := by
      by_contra hs
      rw [if_pos (Bool.eq_true_of_not_eq_false hs)] at h
      exact nomatch h
    exact ⟨ha.settle1, hp.settle hu rfl rfl rfl⟩
  unfold receive1
  split
  · next h => exact hanswer 0 _ h
  · split
    · next h => exact hanswer 1 _ h
    · exact ⟨ha, hp⟩

theorem probing_receiveLoop (datagrams : List (Fin 2 → Option ℕ)) (ha : c.Alive) (hp : c.Probing) :
    (c.receiveLoop datagrams).Alive ∧ (c.receiveLoop datagrams).Probing := by
  induction datagrams generalizing c with
  | nil => exact ⟨ha, hp⟩
  | cons d ds ih =>
    obtain ⟨ha', hp'⟩ := probing_receive1 d ha hp
    exact ih ha' hp'

/-! ### The second phase -/

/-- The descriptors to come are not there yet. -/
structure Fresh (c : NatProbe) : Prop where
  kept : ∀ k, (c.descs k).Kept
  unmade : ∀ k, c.opened ≤ k → c.descs k = .unmade

variable {i : Fin 3}

theorem Fresh.openTest2 (h : c.Fresh) : (c.openTest2 b i).Fresh := by
  refine ⟨fun k => ?_, fun k hk => ?_⟩
  · show (Function.update c.descs c.opened (c.descs c.opened).make k).Kept
    by_cases hk : k = c.opened
    · rw [hk, update_self, h.unmade _ le_rfl]
      decide
    · rw [update_of_ne hk]
      exact h.kept k
  · have hk' : c.opened + 1 ≤ k := hk
    show Function.update c.descs c.opened (c.descs c.opened).make k = .unmade
    rw [update_of_ne (by omega)]
    exact h.unmade k (by omega)

theorem createLoop_of_ok (h : ∀ i, e.socketsOk i = true) (is : List (Fin 3)) :
    createLoop e is c = (is.foldl (fun c i => c.openTest2 (e.armsOk i) i) c, true) := by
  induction is generalizing c with
  | nil => rfl
  | cons i is ih =>
    rw [createLoop, if_pos (h i), ih]
    rfl

theorem Alive.settle2 {n : ℕ} (h : c.Alive) :
    Alive { c.setTest2 i t with phase2DoneCount := n } := h.of_eq rfl

theorem Measuring.settle (h : c.Measuring) (hu : (c.phase2Tests i).settled = false)
    (ht : t.settled = true) (hs : t.sock = (c.phase2Tests i).sock) :
    Measuring { c.setTest2 i t with phase2DoneCount := c.phase2DoneCount + 1 } := by
  refine ⟨h.asking, h.query, h.socks1, h.fd0, h.fd1, h.desc0, fun j => ?_, ?_, h.descs⟩
  · show (Function.update c.phase2Tests i t j).sock = .held
    by_cases hj : j = i
    · rw [hj, update_self]
      exact hs.trans (h.socks2 i)
    · rw [update_of_ne hj]
      exact h.socks2 j
  · have hcount := h.count2
    obtain rfl | rfl | rfl : i = 0 ∨ i = 1 ∨ i = 2 := by omega
    · show c.phase2DoneCount + 1 = t.settled.toNat + (c.phase2Tests 1).settled.toNat + (c.phase2Tests 2).settled.toNat
      rw [hcount, hu, ht, Bool.toNat_true, Bool.toNat_false]
      omega
    · show c.phase2DoneCount + 1 = (c.phase2Tests 0).settled.toNat + t.settled.toNat + (c.phase2Tests 2).settled.toNat
      rw [hcount, hu, ht, Bool.toNat_true, Bool.toNat_false]
      omega
    · show c.phase2DoneCount + 1 = (c.phase2Tests 0).settled.toNat + (c.phase2Tests 1).settled.toNat + t.settled.toNat
      rw [hcount, hu, ht, Bool.toNat_true, Bool.toNat_false]

theorem failed_tests {n : ℕ} (tests : Fin n → NatProbeTest) (i : Fin n) :
    (Function.update tests i { tests i with failed := true } i).settled = true ∧
      (∀ j, (Function.update tests i { tests i with failed := true } j).armed = (tests j).armed) ∧
      ∀ j, j ≠ i → Function.update tests i { tests i with failed := true } j = tests j := by
  refine ⟨?_, fun j => ?_, fun j hj => update_of_ne hj _ _⟩
  · rw [update_self]
    exact Bool.or_true _
  · by_cases hj : j = i
    · rw [hj, update_self]
    · rw [update_of_ne hj]

theorem measuring_send (i : Fin 3) (ha : c.Alive) (h : c.Measuring) (hu : (c.phase2Tests i).settled = false) :
    let d := if e.sendsOk i then c else c.fail2 i
    d.Alive ∧ d.Measuring ∧ d.timer = c.timer ∧ (d.phase2Tests i).settled = !e.sendsOk i ∧
      (d.phase2Tests i).armed = (c.phase2Tests i).armed ∧ ∀ j, j ≠ i → d.phase2Tests j = c.phase2Tests j := by
  intro d
  have hd : d = if e.sendsOk i then c else c.fail2 i := rfl
  cases hsend : e.sendsOk i with
  | true =>
    rw [hsend, if_pos rfl] at hd
    rw [hd]
    exact ⟨ha, h, rfl, hu, rfl, fun _ _ => rfl⟩
  | false =>
    rw [hsend, if_neg Bool.false_ne_true] at hd
    rw [hd]
    obtain ⟨hsettled, harmed, hothers⟩ := failed_tests c.phase2Tests i
    exact ⟨ha.settle2, h.settle hu (Bool.or_true _) rfl, rfl, hsettled, harmed i, hothers⟩

/-- **The requests of the second phase.** -/
theorem measuring_sendLoop (ha : c.Alive) (h : c.Measuring) (hu : ∀ i, (c.phase2Tests i).settled = false) :
    (c.sendLoop e).Alive ∧ (c.sendLoop e).Measuring ∧ (c.sendLoop e).timer = c.timer ∧
      ∀ i, ((c.sendLoop e).phase2Tests i).settled = !e.sendsOk i ∧
        ((c.sendLoop e).phase2Tests i).armed = (c.phase2Tests i).armed := by
  obtain ⟨ha0, h0, ht0, hs0, hr0, ho0⟩ := measuring_send (e := e) 0 ha h (hu 0)
  obtain ⟨ha1, h1, ht1, hs1, hr1, ho1⟩ := measuring_send (e := e) 1 ha0 h0 (by rw [ho0 1 (by decide)]; exact hu 1)
  obtain ⟨ha2, h2, ht2, hs2, hr2, ho2⟩ := measuring_send (e := e) 2 ha1 h1
    (by rw [ho1 2 (by decide), ho0 2 (by decide)]; exact hu 2)
  refine ⟨ha2, h2, ht2.trans (ht1.trans ht0), fun i => ?_⟩
  obtain rfl | rfl | rfl : i = 0 ∨ i = 1 ∨ i = 2 := by omega
  · have heq := (ho2 0 (by decide)).trans (ho1 0 (by decide))
    exact ⟨(congrArg NatProbeTest.settled heq).trans hs0, (congrArg NatProbeTest.armed heq).trans hr0⟩
  · have heq := ho2 1 (by decide)
    exact ⟨(congrArg NatProbeTest.settled heq).trans hs1,
      (congrArg NatProbeTest.armed heq).trans (hr1.trans (congrArg NatProbeTest.armed (ho0 1 (by decide))))⟩
  · exact ⟨hs2, hr2.trans (congrArg NatProbeTest.armed ((ho1 2 (by decide)).trans (ho0 2 (by decide))))⟩

theorem destroySocks1_eq (h : c.Probing) : c.destroySocks1 =
    { c with
      descs := Function.update c.descs 0 .released
      phase1Tests := Function.update c.phase1Tests 0 (c.phase1Tests 0).destroyed } := by
  have hsock1 : (c.phase1Tests 1).sock ≠ .held := by
    rw [h.sock1]
    decide
  have h0 : c.destroySock1 0 = { c with
      descs := Function.update c.descs 0 .released
      phase1Tests := Function.update c.phase1Tests 0 (c.phase1Tests 0).destroyed } := by
    unfold destroySock1 close
    dsimp only
    rw [if_pos h.sock0, h.fds 0]
    dsimp only
    rw [h.desc0]
    rfl
  unfold destroySocks1
  simp only [foldl_cons, foldl_nil]
  rw [h0]
  exact if_neg hsock1

theorem openTest2_desc {k : ℕ} (h : k < c.opened) : (c.openTest2 b i).descs k = c.descs k :=
  update_of_ne (show k ≠ c.opened by omega) ..

theorem openTest2_self (h : c.phase2Tests i = {}) :
    ((c.openTest2 b i).phase2Tests i).sock = .held ∧ ((c.openTest2 b i).phase2Tests i).settled = false ∧
      ((c.openTest2 b i).phase2Tests i).armed = b := by
  have heq : (c.openTest2 b i).phase2Tests i =
      { c.phase2Tests i with sock := (c.phase2Tests i).sock.make, fd := some (c.opened + 1 - 1), armed := b } :=
    update_self ..
  rw [heq, h]
  exact ⟨rfl, rfl, rfl⟩

theorem openTest2_ne {j : Fin 3} (h : j ≠ i) : (c.openTest2 b i).phase2Tests j = c.phase2Tests j :=
  update_of_ne h ..

theorem openTests2 (h : c.phase2Tests = fun _ => {}) (i : Fin 3) :
    let d := [0, 1, 2].foldl (fun c i => c.openTest2 (e.armsOk i) i) c
    (d.phase2Tests i).sock = .held ∧ (d.phase2Tests i).settled = false ∧
      (d.phase2Tests i).armed = e.armsOk i := by
  dsimp only [foldl_cons, foldl_nil]
  have h' : ∀ i, c.phase2Tests i = {} := fun i => congrFun h i
  obtain rfl | rfl | rfl : i = 0 ∨ i = 1 ∨ i = 2 := by omega
  · rw [openTest2_ne (by decide), openTest2_ne (by decide)]
    exact openTest2_self (h' 0)
  · rw [openTest2_ne (by decide)]
    exact openTest2_self ((openTest2_ne (by decide)).trans (h' 1))
  · exact openTest2_self ((openTest2_ne (by decide)).trans ((openTest2_ne (by decide)).trans (h' 2)))

/-- **The second phase starts.** -/
theorem stage_startPhase2 (ha : c.Alive) (hp : c.Probing) (hsockets : ∀ i, e.socketsOk i = true)
    (hsends : ∃ i, e.sendsOk i = true)
    (harms : c.timer = .held ∨ ∀ i, e.sendsOk i = true → e.armsOk i = true) :
    (startPhase2 e c.destroySocks1).2 = true ∧ Stage (startPhase2 e c.destroySocks1).1 := by
  rw [destroySocks1_eq hp]
  unfold startPhase2
  dsimp only
  rw [createLoop_of_ok hsockets, if_pos rfl]
  refine ⟨rfl, ?_⟩
  set b : NatProbe := { c with
    descs := Function.update c.descs 0 .released
    phase1Tests := Function.update c.phase1Tests 0 (c.phase1Tests 0).destroyed
    phase := .phase2 } with hb
  have htests : b.phase2Tests = fun _ => {} := hp.tests2
  have hopen := openTests2 (e := e) htests
  have hfresh : b.Fresh := by
    refine ⟨fun k => ?_, fun k hk => ?_⟩
    · show (Function.update c.descs 0 .released k).Kept
      by_cases hk : k = 0
      · rw [hk, update_self]
        decide
      · rw [update_of_ne hk, hp.descs k hk]
        decide
    · have hk' : 1 ≤ k := hp.opened ▸ hk
      show Function.update c.descs 0 .released k = .unmade
      rw [update_of_ne (by omega)]
      exact hp.descs k (by omega)
  have hsocks1 : ∀ i, (b.phase1Tests i).sock.Gone := by
    intro i
    obtain rfl | rfl : i = 0 ∨ i = 1 := by omega
    · show ((c.phase1Tests 0).sock.release).Gone
      rw [hp.sock0]
      decide
    · exact .inl hp.sock1
  set d := [0, 1, 2].foldl (fun c i => c.openTest2 (e.armsOk i) i) b with hd
  have had : d.Alive := ha.of_eq rfl
  have hdesc0 : d.descs 0 = .released := by
    have hpos : 0 < b.opened := by
      show 0 < c.opened
      rw [hp.opened]
      decide
    have h0 : 0 < (b.openTest2 (e.armsOk 0) 0).opened := Nat.succ_pos _
    have h1 : 0 < ((b.openTest2 (e.armsOk 0) 0).openTest2 (e.armsOk 1) 1).opened := Nat.succ_pos _
    exact (openTest2_desc h1).trans ((openTest2_desc h0).trans ((openTest2_desc hpos).trans rfl))
  have hmd : d.Measuring := by
    refine ⟨hp.asking, hp.query, hsocks1, rfl, hp.fds 1, hdesc0, fun i => (hopen i).1, ?_, hfresh.openTest2.openTest2.openTest2.kept⟩
    rw [(hopen 0).2.1, (hopen 1).2.1, (hopen 2).2.1]
    exact hp.count2
  obtain ⟨ha', hm, ht, htests'⟩ := measuring_sendLoop (e := e) had hmd (fun i => (hopen i).2.1)
  have hlt : (d.sendLoop e).phase2DoneCount < 3 := by
    obtain ⟨i, hi⟩ := hsends
    have hle : ∀ b : Bool, b.toNat ≤ 1 := Bool.toNat_le
    have h0 := hle (!e.sendsOk 0)
    have h1 := hle (!e.sendsOk 1)
    have h2 := hle (!e.sendsOk 2)
    rw [hm.count2, (htests' 0).1, (htests' 1).1, (htests' 2).1]
    obtain rfl | rfl | rfl : i = 0 ∨ i = 1 ∨ i = 2 := by omega
    all_goals
      rw [hi, Bool.not_true, Bool.toNat_false]
      omega
  unfold checkPhase2Done
  rw [if_pos hlt]
  refine .measuring ⟨ha', hm, hlt, ?_⟩
  rcases harms with hheld | harms
  · exact .inl (ht.trans hheld)
  · refine .inr (fun i hi => ?_)
    rw [(htests' i).1, Bool.not_eq_false'] at hi
    rw [(htests' i).2, (hopen i).2.2]
    exact harms i hi

/-- **What comes behind the reading** in the first phase. -/
theorem stage_checkPhase1Done (ha : c.Alive) (hp : c.Probing) (hgo : c.GoesOn1 e) :
    Stage (c.checkPhase1Done e) := by
  unfold GoesOn1 at hgo
  unfold checkPhase1Done
  by_cases hlt : c.phase1DoneCount < 2
  · rw [if_pos hlt] at hgo ⊢
    exact .probing ha hp hlt hgo
  · rw [if_neg hlt] at hgo ⊢
    obtain ⟨hdone, hports, hsockets, hsends, harms⟩ := hgo
    rw [if_neg (not_not_intro hdone), if_neg hports]
    obtain ⟨hok, hstage⟩ := stage_startPhase2 ha hp hsockets hsends harms
    dsimp only
    rw [if_pos hok]
    exact hstage

/-! ### DNS -/

theorem probing_openTest1 (ha : c.Alive) (hu : c.Unopened) (hasking : c.asking = false)
    (hq : c.query = none) : (c.openTest1 b).Alive ∧ (c.openTest1 b).Probing ∧
      (∀ i, ((c.openTest1 b).phase1Tests i).settled = false) ∧ ((c.openTest1 b).phase1Tests 0).armed = b := by
  have h0 : (c.openTest1 b).phase1Tests 0 =
      { c.phase1Tests 0 with sock := (c.phase1Tests 0).sock.make, fd := some c.opened, armed := b } := rfl
  have h1 : (c.openTest1 b).phase1Tests 1 = { c.phase1Tests 1 with fd := some c.opened } := rfl
  rw [hu.tests1, hu.opened] at h0 h1
  have hdescs : (c.openTest1 b).descs = Function.update c.descs c.opened (c.descs c.opened).make := rfl
  rw [hu.opened, hu.descs] at hdescs
  refine ⟨ha.of_eq rfl, ⟨hasking, hq, ?_, fun i => ?_, ?_, ?_, hu.tests2, hu.count2, ?_, ?_,
    fun k hk => ?_⟩, fun i => ?_, ?_⟩
  · rw [h0]
    rfl
  · obtain rfl | rfl : i = 0 ∨ i = 1 := by omega
    · rw [h0]
    · rw [h1]
  · rw [h1]
  · rw [h0, h1]
    exact hu.count1
  · exact congrArg (· + 1) hu.opened
  · rw [hdescs]
    rfl
  · rw [hdescs, update_of_ne hk]
  · obtain rfl | rfl : i = 0 ∨ i = 1 := by omega
    · rw [h0]
      rfl
    · rw [h1]
      rfl
  · rw [h0]

theorem probing_send (i : Fin 2) (ha : c.Alive) (h : c.Probing) (hu : (c.phase1Tests i).settled = false) :
    let d := if e.sendOk i then c else c.fail1 i
    d.Alive ∧ d.Probing ∧ d.timer = c.timer ∧ (d.phase1Tests i).settled = !e.sendOk i ∧
      (d.phase1Tests 0).armed = (c.phase1Tests 0).armed ∧ ∀ j, j ≠ i → d.phase1Tests j = c.phase1Tests j := by
  intro d
  have hd : d = if e.sendOk i then c else c.fail1 i := rfl
  cases hsend : e.sendOk i with
  | true =>
    rw [hsend, if_pos rfl] at hd
    rw [hd]
    exact ⟨ha, h, rfl, hu, rfl, fun _ _ => rfl⟩
  | false =>
    rw [hsend, if_neg Bool.false_ne_true] at hd
    rw [hd]
    obtain ⟨hsettled, harmed, hothers⟩ := failed_tests c.phase1Tests i
    exact ⟨ha.settle1, h.settle hu (Bool.or_true _) rfl rfl, rfl, hsettled, harmed 0, hothers⟩

/-- **The first phase starts.** -/
theorem stage_startPhase1 (ha : c.Alive) (hu : c.Unopened) (hasking : c.asking = false) (hq : c.query = none)
    (hsocket : e.socketOk = true) (hsends : ∃ i, e.sendOk i = true) (harm : c.timer = .held ∨ e.armOk = true) :
    (c.startPhase1 e).2 = true ∧ Stage (c.startPhase1 e).1 := by
  unfold startPhase1
  dsimp only [foldl_cons, foldl_nil]
  rw [if_pos hsocket]
  refine ⟨rfl, ?_⟩
  obtain ⟨hao, hpo, hso, hro⟩ := probing_openTest1 (b := e.armOk) (c := { c with phase := .phase1 })
    (ha.of_eq rfl) (hu.of_eq rfl) hasking hq
  obtain ⟨ha0, hp0, ht0, hs0, hr0, ho0⟩ := probing_send (e := e) 0 hao hpo (hso 0)
  obtain ⟨ha1, hp1, ht1, hs1, hr1, ho1⟩ := probing_send (e := e) 1 ha0 hp0 (by rw [ho0 1 (by decide)]; exact hso 1)
  refine stage_checkPhase1Done ha1 hp1 ?_
  unfold GoesOn1
  rw [if_pos ?_]
  · rcases harm with hheld | harm
    · exact .inl (ht1.trans (ht0.trans hheld))
    · exact .inr (hr1.trans (hr0.trans (hro.trans harm)))
  · obtain ⟨i, hi⟩ := hsends
    have h0 := Bool.toNat_le (!e.sendOk 0)
    have h1 := Bool.toNat_le (!e.sendOk 1)
    rw [hp1.count1, hs1, ho1 0 (by decide), hs0]
    obtain rfl | rfl : i = 0 ∨ i = 1 := by omega
    all_goals
      rw [hi, Bool.not_true, Bool.toNat_false]
      omega

/-- **The first server's address.** -/
theorem stage_onDns1 {r : DnsAnswer} (ha : c.Alive) (hu : c.Unopened) (hq : c.query = none)
    (hc : c.cancelled = false) : Stage (c.onDns1 e r) := by
  have ha' : Alive { c with asking := false } := ha.of_eq rfl
  unfold onDns1
  dsimp only
  rw [if_neg ha.not_finished]
  split_ifs
  · exact .ended (ended_finish ha' (hu.of_eq rfl) hq)
  · exact .asking (ha.of_eq rfl) (hu.of_eq rfl) rfl rfl hc
  · exact .ended (ended_finish (ha.of_eq rfl) (hu.of_eq rfl) hq)

/-- **The second server's address.** -/
theorem stage_onDns2 {r : DnsAnswer} (ha : c.Alive) (hu : c.Unopened) (hq : c.query = none)
    (hgo : r.error = .ok → r.hasAddrs = true → e.socketOk = true →
      (∃ i, e.sendOk i = true) ∧ (c.timer = .held ∨ e.armOk = true)) : Stage (c.onDns2 e r) := by
  have ha' : Alive { c with asking := false } := ha.of_eq rfl
  have hu' : Unopened { c with asking := false } := hu.of_eq rfl
  unfold onDns2
  dsimp only
  rw [if_neg ha.not_finished]
  by_cases hbad : r.error ≠ .ok ∨ r.hasAddrs = false
  · rw [if_pos hbad]
    exact .ended (ended_finish ha' hu' hq)
  · rw [if_neg hbad]
    rw [not_or, not_not, Bool.not_eq_false] at hbad
    by_cases hsocket : e.socketOk = true
    · obtain ⟨hsends, harm⟩ := hgo hbad.1 hbad.2 hsocket
      obtain ⟨hok, hstage⟩ := stage_startPhase1 ha' hu' rfl hq hsocket hsends harm
      rw [if_pos hok]
      exact hstage
    · unfold startPhase1
      dsimp only
      rw [if_neg hsocket, if_neg Bool.false_ne_true]
      exact .ended (ended_finish (ha.of_eq rfl) (hu.of_eq rfl) hq)

theorem enter_held {f : NatProbe → NatProbe} (h : c.self = .held) : c.enter f = f c := if_pos h

/-- **The end of a query.** -/
theorem stage_dnsDone {server : Fin 2} {answer : Option DnsAnswer} (h : Stage c) (hq : c.query = some server)
    (hclean : c.Clean (.dns answer e)) : Stage (c.dnsDone server e answer) := by
  unfold dnsDone
  dsimp only
  cases h with
  | asking ha hu hasking _ hc =>
    obtain ⟨hsome, hgo⟩ := hclean hc
    rw [if_neg (by rw [hc]; decide)]
    cases answer with
    | none => exact absurd rfl hsome
    | some r =>
      dsimp only
      have ha' : Alive { c with query := none } := ha.of_eq rfl
      have hu' : Unopened { c with query := none } := hu.of_eq rfl
      rw [enter_held ha'.self]
      by_cases hs : server = 0
      · rw [if_pos hs]
        exact stage_onDns1 ha' hu' rfl hc
      · rw [if_neg hs]
        have hone : c.query = some 1 := by
          rw [hq]
          congr 1
          omega
        exact stage_onDns2 ha' hu' rfl (hgo r rfl hone)
  | probing _ hp => exact absurd (hq.symm.trans hp.query) nofun
  | measuring hu => exact absurd (hq.symm.trans hu.measuring.query) nofun
  | ended he =>
    rcases he.query with hnone | hc
    · exact absurd (hq.symm.trans hnone) nofun
    · rw [if_pos hc]
      exact .ended ⟨he.1, he.2, .inl rfl, he.4, he.5, he.6, he.7, he.8⟩

/-! ### Sockets and timers -/

theorem Probing.arm (b : Bool) (h : c.Probing) :
    Probing (c.setTest1 0 { c.phase1Tests 0 with armed := b }) :=
  ⟨h.asking, h.query, h.sock0, fun i => by obtain rfl | rfl : i = 0 ∨ i = 1 := by omega
                                           exacts [h.fds 0, h.fds 1], h.sock1, h.count1, h.tests2, h.count2, h.opened, h.desc0, h.descs⟩

/-- **The first phase's socket can be read.** -/
theorem stage_event1 {datagrams : List (Fin 2 → Option ℕ)} (h : Stage c) (hs : (c.phase1Tests 0).sock = .held)
    (hclean : c.Clean (.readable1 datagrams e)) : Stage (c.event1 e datagrams) := by
  cases h with
  | asking _ hu =>
    rw [hu.tests1] at hs
    exact nomatch hs
  | measuring hu => exact absurd hs (ne_held (hu.measuring.socks1 0))
  | ended he => exact absurd hs (ne_held (he.socks1 0))
  | probing ha hp _ _ =>
    have ha' : (c.setTest1 0 { c.phase1Tests 0 with armed := e.armOk }).Alive :=
      ha.of_eq rfl
    obtain ⟨har, hpr⟩ := probing_receiveLoop datagrams ha' (hp.arm e.armOk)
    unfold event1
    rw [enter_held ha'.self]
    unfold phase1OnReadable
    rw [if_neg ha'.not_finished, if_neg Bool.false_ne_true]
    exact stage_checkPhase1Done har hpr hclean

theorem Measuring.arm (b : Bool) (i : Fin 3) (h : c.Measuring) :
    Measuring (c.setTest2 i { c.phase2Tests i with armed := b }) := by
  have hsame : ∀ j, ((c.setTest2 i { c.phase2Tests i with armed := b }).phase2Tests j).sock = (c.phase2Tests j).sock ∧
      ((c.setTest2 i { c.phase2Tests i with armed := b }).phase2Tests j).settled = (c.phase2Tests j).settled := by
    intro j
    unfold setTest2
    dsimp only
    by_cases hj : j = i
    · rw [hj, update_self]
      exact ⟨rfl, rfl⟩
    · rw [update_of_ne hj]
      exact ⟨rfl, rfl⟩
  refine ⟨h.asking, h.query, h.socks1, h.fd0, h.fd1, h.desc0, fun j => (hsame j).1.trans (h.socks2 j), ?_, h.descs⟩
  rw [(hsame 0).2, (hsame 1).2, (hsame 2).2]
  exact h.count2

theorem underway_settle2 (ha : c.Alive) (hm : c.Measuring)
    (hw : c.timer = .held ∨ ∀ j, j ≠ i → (c.phase2Tests j).settled = false → (c.phase2Tests j).armed = true)
    (hu : (c.phase2Tests i).settled = false) (ht : t.settled = true) (hs : t.sock = (c.phase2Tests i).sock)
    (hlt : c.phase2DoneCount + 1 < 3) :
    Underway (checkPhase2Done { c.setTest2 i t with phase2DoneCount := c.phase2DoneCount + 1 }) := by
  unfold checkPhase2Done
  rw [if_pos hlt]
  refine ⟨ha.settle2, hm.settle hu ht hs, hlt, hw.imp_right fun hw j hj => ?_⟩
  change (Function.update c.phase2Tests i t j).settled = false at hj
  show (Function.update c.phase2Tests i t j).armed = true
  by_cases hji : j = i
  · rw [hji, update_self, ht] at hj
    exact nomatch hj
  · rw [update_of_ne hji] at hj ⊢
    exact hw j hji hj

/-- **A socket of the second phase can be read, or its timer runs out.** -/
theorem underway_read2 {timeout : Bool} {response : Option ℕ} (h : c.Underway)
    (hclean : (c.phase2Tests i).settled = false →
      if timeout || response.isSome then c.phase2DoneCount + 1 < 3 else c.timer = .held ∨ b = true) :
    Underway (enter (phase2OnReadable i timeout response) (c.setTest2 i { c.phase2Tests i with armed := b })) := by
  obtain ⟨ha, hm, hlt, hw⟩ := h
  set d := c.setTest2 i { c.phase2Tests i with armed := b } with hd
  have ha' : d.Alive := ha.of_eq rfl
  have hm' : d.Measuring := hm.arm b i
  have hself : d.phase2Tests i = { c.phase2Tests i with armed := b } := update_self ..
  have hother : ∀ j, j ≠ i → d.phase2Tests j = c.phase2Tests j := fun j hj => update_of_ne hj ..
  have hsettled : (d.phase2Tests i).settled = (c.phase2Tests i).settled := (congrArg NatProbeTest.settled hself).trans rfl
  have hw' : d.timer = .held ∨
      ∀ j, j ≠ i → (d.phase2Tests j).settled = false → (d.phase2Tests j).armed = true := by
    refine hw.imp_right fun hw j hj hu => ?_
    rw [hother j hj] at hu ⊢
    exact hw j hu
  -- the test that was read does not wait, or has its timer again
  have hstay : (c.phase2Tests i).settled = true ∨ c.timer = .held ∨ b = true → d.Underway := by
    intro hi
    refine ⟨ha', hm', hlt, ?_⟩
    rcases hw' with hheld | hw'
    · exact .inl hheld
    rcases hi with hi | hheld | hb
    · refine .inr fun j hu => ?_
      by_cases hj : j = i
      · rw [hj, hsettled, hi] at hu
        exact nomatch hu
      · exact hw' j hj hu
    · exact .inl hheld
    · refine .inr fun j hu => ?_
      by_cases hj : j = i
      · rw [hj, hself]
        exact hb
      · exact hw' j hj hu
  rw [enter_held ha'.self]
  unfold phase2OnReadable
  rw [if_neg ha'.not_finished]
  by_cases hi : (c.phase2Tests i).settled = true
  · rw [if_pos (hsettled.trans hi)]
    exact hstay (.inl hi)
  · have hu : (c.phase2Tests i).settled = false := Bool.eq_false_iff.mpr hi
    rw [if_neg (fun h => hi (hsettled.symm.trans h))]
    specialize hclean hu
    cases timeout with
    | true =>
      rw [Bool.true_or, if_pos rfl] at hclean
      rw [if_pos rfl]
      exact underway_settle2 ha' hm' hw' (hsettled.trans hu) (Bool.or_true _) rfl hclean
    | false =>
      rw [if_neg Bool.false_ne_true]
      cases response with
      | none => exact hstay (.inr hclean)
      | some port =>
        exact underway_settle2 ha' hm' hw' (hsettled.trans hu) (Bool.true_or _) rfl hclean

theorem stage_event2 {response : Option ℕ} (h : Stage c) (hs : (c.phase2Tests i).sock = .held)
    (hclean : c.Clean (.readable2 i response e)) : Stage (c.event2 e i response) := by
  cases h with
  | asking _ hu =>
    rw [hu.tests2] at hs
    exact nomatch hs
  | probing _ hp =>
    rw [hp.tests2] at hs
    exact nomatch hs
  | ended he => exact absurd hs (ne_held (he.socks2 i))
  | measuring hu => exact .measuring (underway_read2 hu hclean)

theorem stage_cancel (h : Stage c) (hself : c.self = .held) (hasking : c.asking = true) : Stage (c.cancel e) := by
  cases h with
  | asking ha hu => exact .ended (ended_cancel ha hu hasking)
  | probing _ hp => exact absurd (hasking.symm.trans hp.asking) nofun
  | measuring hu => exact absurd (hasking.symm.trans hu.measuring.asking) nofun
  | ended he => exact absurd hself (ne_held he.self)

/-- **A timer's callback**, where the sockets of the read timers are there, leaves them there. -/
theorem stage_fire {t : TimerCall} (h : Stage c) (hclean : c.CleanCall t)
    (hs : ∀ i, t = .read2 i → (c.phase2Tests i).sock = .held) :
    Stage (c.fire e t) ∧ ∀ i, (c.phase2Tests i).sock = .held → ((c.fire e t).phase2Tests i).sock = .held := by
  cases t with
  | overall | read1 => exact hclean.elim
  | app =>
    unfold fire
    dsimp only
    split_ifs with hself
    · refine ⟨stage_cancel h hself (hclean hself), fun i hi => ?_⟩
      cases h with
      | asking _ hu =>
        rw [hu.tests2] at hi
        exact nomatch hi
      | probing _ hp => exact absurd ((hclean hself).symm.trans hp.asking) nofun
      | measuring hu => exact absurd ((hclean hself).symm.trans hu.measuring.asking) nofun
      | ended he => exact absurd hself (ne_held he.self)
    · exact ⟨h, fun _ hi => hi⟩
  | read2 i =>
    have hheld := hs i rfl
    unfold fire
    dsimp only
    rw [if_pos hheld]
    cases h with
    | asking _ hu =>
      rw [hu.tests2] at hheld
      exact nomatch hheld
    | probing _ hp =>
      rw [hp.tests2] at hheld
      exact nomatch hheld
    | ended he => exact absurd hheld (ne_held (he.socks2 i))
    | measuring hu =>
      have hread : Underway (enter (phase2OnReadable i true none)
          (c.setTest2 i { c.phase2Tests i with armed := false })) := underway_read2 hu hclean
      exact ⟨.measuring hread, fun j _ => hread.measuring.socks2 j⟩

theorem stage_timers {batch : List TimerCall} (h : Stage c) (hclean : CleanCalls e batch c)
    (hs : ∀ i, .read2 i ∈ batch → (c.phase2Tests i).sock = .held) : Stage (batch.foldl (fire e) c) := by
  induction batch generalizing c with
  | nil => exact h
  | cons t ts ih =>
    obtain ⟨hstage, hsocks⟩ := stage_fire (e := e) h hclean.1 (fun i hi => hs i (hi ▸ mem_cons_self))
    exact ih hstage hclean.2 (fun i hi => hsocks i (hs i (mem_cons_of_mem _ hi)))

/-! ### Runs -/

theorem Stage.step {i : Input} (h : Stage c) (hclean : c.Clean i) (hs : c.step i = some d) : Stage d := by
  unfold NatProbe.step at hs
  cases i with
  | dns answer e =>
    obtain ⟨server, hq, rfl⟩ := map_eq_some_iff.mp hs
    exact stage_dnsDone h hq hclean
  | readable1 datagrams e =>
    dsimp only at hs
    split_ifs at hs with hsock
    obtain rfl := some.inj hs
    exact stage_event1 h hsock hclean
  | readable2 i response e =>
    dsimp only at hs
    split_ifs at hs with hsock
    obtain rfl := some.inj hs
    exact stage_event2 h hsock hclean
  | timers batch e =>
    dsimp only at hs
    split_ifs at hs with harmed
    obtain rfl := some.inj hs
    exact stage_timers h hclean (fun i hi => (harmed.1 _ hi).1)
  | cancel e =>
    dsimp only at hs
    split_ifs at hs with hself
    obtain rfl := some.inj hs
    exact stage_cancel h hself hclean

theorem stage_start (e : StartEnv) : Stage (start e) := by
  have hnone : ∀ self timer : Life, self.Gone → timer.Gone → Stage { self, timer, withdrawn := true } := by
    intro self timer hself htimer
    exact .ended ⟨hself, rfl, .inl rfl, rfl, htimer, fun _ => .inl rfl, fun _ => .inl rfl, fun _ => .inl rfl⟩
  unfold start
  dsimp only
  split_ifs
  · exact hnone _ _ (.inl rfl) (.inl rfl)
  · exact hnone _ _ (.inr rfl) (.inl rfl)
  · exact .asking ⟨rfl, rfl, rfl, rfl, rfl, .inl rfl⟩ ⟨rfl, rfl, rfl, rfl, rfl, rfl⟩ rfl rfl rfl
  · exact .asking ⟨rfl, rfl, rfl, rfl, rfl, .inr rfl⟩ ⟨rfl, rfl, rfl, rfl, rfl, rfl⟩ rfl rfl rfl
  · exact hnone _ _ (.inr rfl) (.inr rfl)
  · exact hnone _ _ (.inr rfl) (.inl rfl)

/-- **A probe reports once and releases everything** in every clean run, however it was started. -/
theorem reportsOnce_of_run {e : StartEnv} (h : Run step Clean (start e) c) : c.ReportsOnce :=
  Stage.reportsOnce (h.preserves (fun _ _ _ hk hclean hs => hk.step hclean hs) (stage_start e))

/-- DNS answers for the first server, and not for the second. -/
theorem reportsOnce_of_run_dns :
    ∃ c, Run step Clean (start {}) c ∧ c.calls.map NatProbeResult.type = [.unknown] ∧ c.ReportsOnce := by
  let c0 := start {}
  let c1 := c0.dnsDone 0 {} (some {})
  let c2 := c1.dnsDone 1 {} (some { error := .dnsError })
  have h1 : step c0 (.dns (some {}) {}) = some c1 := rfl
  have h2 : step c1 (.dns (some { error := .dnsError }) {}) = some c2 := rfl
  have hc1 : Clean c0 (.dns (some {}) {}) := fun _ => ⟨nofun, fun _ _ hq => absurd hq (by decide)⟩
  have hc2 : Clean c1 (.dns (some { error := .dnsError }) {}) :=
    fun _ => ⟨nofun, fun r hr _ he => by rw [← some.inj hr] at he; exact nomatch he⟩
  have hrun : Run step Clean c0 c2 := (Run.single hc1 h1).tail hc2 h2
  exact ⟨c2, hrun, rfl, reportsOnce_of_run hrun⟩

/-- **Both servers answer from one port**: the descriptor is closed with the first test's socket, and once more for
the second test. -/
theorem not_reportsOnce_cone :
    ∃ c, Run step (fun _ _ => True) (start {}) c ∧ ¬ c.ReportsOnce := by
  let c0 := start {}
  let c1 := c0.dnsDone 0 {} (some {})
  let c2 := c1.dnsDone 1 {} (some {})
  let both : List (Fin 2 → Option ℕ) := [![some 4000, none], ![none, some 4000]]
  have h1 : step c0 (.dns (some {}) {}) = some c1 := rfl
  have h2 : step c1 (.dns (some {}) {}) = some c2 := rfl
  have hsock : (c2.phase1Tests 0).sock = .held := rfl
  have h3 : step c2 (.readable1 both {}) = some (c2.event1 {} both) := by
    show (if (c2.phase1Tests 0).sock = .held then some (c2.event1 {} both) else none) = _
    rw [if_pos hsock]
  have hself : (c2.event1 {} both).self = .released := by decide +kernel
  have hdesc : (c2.event1 {} both).descs 0 = .twice := by decide +kernel
  refine ⟨_, ((Run.single trivial h1).tail trivial h2).tail trivial h3, fun h => ?_⟩
  have hgone := (h.gone (by rw [hself]; decide)).2.2.2.2.2 0
  rw [hdesc] at hgone
  exact absurd hgone (by decide)

end NatProbe

end Libx.Ice
