import Libx.Core.Run

/-!
# Libx.Base.Command — commands run beside the event loop

base/command_posix.c: any number of executors on one loop, their children, the pipes between, and SIGCHLD.  What a child
does, and what the system answers, is given with the steps.
-/

namespace Libx.Base

/-- `xCommandOutput_*`. -/
inductive OutputMode
  | capture
  | stream
  | discard
  deriving DecidableEq

/-- `xCommandExecutorState_*`. -/
inductive CommandState
  | idle
  | running
  | cancelling
  deriving DecidableEq

/-- The child of an executor: there is none; it lives; it has exited and is not waited for; it is waited for. -/
inductive Child
  | none
  | alive
  | zombie
  | reaped
  deriving DecidableEq

/-- A stream of a child: its mode and cap, the ends of the pipe that the parent holds, the event source, whether it has
ended; what was captured, what the callback was given; what the child has written, of which `pending` is not read, and
whether anyone can write still. -/
structure Output where
  mode : OutputMode := .capture
  cap : ℕ := 0
  readEnd : Bool := false
  writeEnd : Bool := false
  src : Bool := false
  eof : Bool := false
  buf : List UInt8 := []
  given : List UInt8 := []
  written : List UInt8 := []
  pending : List UInt8 := []
  isOpen : Bool := false
  deriving DecidableEq

/-- `xCommandExecutor_`, its child, and how often Submit returned Ok and on_done was called. -/
structure Executor where
  state : CommandState := .idle
  pty : Bool := false
  stdout : Output := {}
  stderr : Output := {}
  stdinRead : Bool := false
  stdinWrite : Bool := false
  master : Bool := false
  child : Child := .none
  childExited : Bool := false
  timeoutTimer : Bool := false
  cancelTimer : Bool := false
  freed : Bool := false
  runs : ℕ := 0
  dones : ℕ := 0
  deriving DecidableEq

/-- The executors; the list that SIGCHLD walks and its count, whether the loop watches for the signal and whether one is to
be delivered; the executor whose on_done was called on that walk and has not returned; the streams of every command at its
on_done; and whether freed memory was used. -/
structure Commands (ι : Type*) where
  execs : ι → Executor := fun _ => {}
  list : List ι := []
  count : ℕ := 0
  watched : Bool := false
  signalled : Bool := false
  walking : Option ι := none
  log : List (Output × Output) := []
  faulted : Bool := false

/-- `xCommandConf`, as far as it tells what happens; `timeout` is whether there is one. -/
structure CommandConf where
  stdoutMode : OutputMode := .capture
  stderrMode : OutputMode := .capture
  stdoutCap : ℕ := 0
  stderrCap : ℕ := 0
  pty : Bool := false
  timeout : Bool := false
  deriving DecidableEq

/-- What Submit is answered: whether there is memory for the buffers and for argv, each pipe, the signal watch, fork, the
mode of the master, the event sources, the timer; whether the child has exited before the probe; and then, of a PTY, what
is read at once and whether it has ended. -/
structure Answers where
  bufs : Bool := true
  stdinPipe : Bool := true
  stdoutPipe : Bool := true
  stderrPipe : Bool := true
  argv : Bool := true
  watch : Bool := true
  fork : Bool := true
  nonblock : Bool := true
  stdoutAdd : Bool := true
  stderrAdd : Bool := true
  timer : Bool := true
  exited : Bool := false
  data : List UInt8 := []
  ended : Bool := false
  deriving DecidableEq

inductive StreamName
  | stdout
  | stderr
  deriving DecidableEq

/-! ### Executors -/

namespace Output

def reset (o : Output) (mode : OutputMode) (cap : ℕ) : Output :=
  { readEnd := o.readEnd, writeEnd := o.writeEnd, src := o.src, mode, cap }

/-- Bytes that were read: to the buffer, to the callback, or nowhere. -/
def deliver (o : Output) (bytes : List UInt8) : Output :=
  match o.mode with
  | .capture => { o with buf := o.buf ++ bytes }
  | .stream => { o with given := o.given ++ bytes }
  | .discard => o

def close (o : Output) : Output := { o with readEnd := false, writeEnd := false }

def release (o : Output) : Output := { o with src := false, readEnd := false, writeEnd := false }

end Output

namespace Executor

def output (x : Executor) : StreamName → Output
  | .stdout => x.stdout
  | .stderr => x.stderr

def setOutput (x : Executor) (o : Output) : StreamName → Executor
  | .stdout => { x with stdout := o }
  | .stderr => { x with stderr := o }

def reset (x : Executor) (c : CommandConf) : Executor :=
  { x with pty := c.pty, stdout := x.stdout.reset c.stdoutMode c.stdoutCap, stderr := x.stderr.reset c.stderrMode c.stderrCap }

/-- Submit, up to the pipes; that no stream has ended is set before. -/
def resetRun (x : Executor) : Executor :=
  { x with childExited := false, master := false, stdinRead := false, stdinWrite := false }

/-- `fail_pipes`. -/
def closePipes (x : Executor) : Executor :=
  { x with stdinRead := false, stdinWrite := false, stdout := x.stdout.close, stderr := x.stderr.close }

/-- `cmd_cleanup`. -/
def cleanup (x : Executor) : Executor :=
  { x with
    stdout := x.stdout.release, stderr := x.stderr.release, stdinRead := false, stdinWrite := false, master := false }

/-- The three conditions of `cmd_check_completion`. -/
def Ended (x : Executor) : Prop := x.stdout.eof = true ∧ x.stderr.eof = true ∧ x.childExited = true

instance (x : Executor) : Decidable x.Ended := inferInstanceAs (Decidable (_ ∧ _))

/-- The child has exited, and the executor does not know. -/
def Unreaped (x : Executor) : Prop := x.childExited = false ∧ (x.child = .zombie ∨ x.child = .reaped)

instance (x : Executor) : Decidable x.Unreaped := inferInstanceAs (Decidable (_ ∧ _))

/-- No timer, event source or descriptor is left. -/
def Released (x : Executor) : Prop :=
  x.timeoutTimer = false ∧ x.cancelTimer = false ∧ x.stdinRead = false ∧ x.stdinWrite = false ∧ x.master = false ∧
    ∀ w, (x.output w).src = false ∧ (x.output w).readEnd = false ∧ (x.output w).writeEnd = false

end Executor

namespace Commands

/-- Which command is submitted and what is answered; Cancel, Destroy; a turn of the handler of a stream, that reads `n`
bytes; the timers; SIGCHLD is handled, and goes on after an on_done; and of a child or its children: they write, all writers
close, it exits. -/
inductive Act (ι : Type*)
  | submit (e : ι) (c : CommandConf) (a : Answers)
  | cancel (e : ι) (timerOk : Bool)
  | destroy (e : ι)
  | read (e : ι) (w : StreamName) (n : ℕ)
  | timeout (e : ι) (timerOk : Bool)
  | grace (e : ι)
  | sigchld
  | resume
  | write (e : ι) (w : StreamName) (bytes : List UInt8)
  | close (e : ι) (w : StreamName)
  | exit (e : ι)
  deriving DecidableEq

variable {ι : Type*} [DecidableEq ι]

def setExec (s : Commands ι) (e : ι) (x : Executor) : Commands ι := { s with execs := Function.update s.execs e x }

/-- `sigchld_register` and `sigchld_add`. -/
def register (s : Commands ι) (e : ι) : Commands ι :=
  { s with list := e :: s.list, count := s.count + 1, watched := true }

/-- `sigchld_remove` and `sigchld_unregister`. -/
def unregister (s : Commands ι) (e : ι) : Commands ι :=
  { s with list := s.list.erase e, count := s.count - 1, watched := s.watched && decide (s.count - 1 ≠ 0) }

/-- `cmd_fire_done`. -/
def fireDone (s : Commands ι) (e : ι) : Commands ι :=
  let x := s.execs e
  { (s.unregister e).setExec e
      { x.cleanup with state := .idle, timeoutTimer := false, cancelTimer := false, dones := x.dones + 1 } with
    log := s.log ++ [(x.stdout, x.stderr)] }

/-- `cmd_check_completion`. -/
def check (s : Commands ι) (e : ι) : Commands ι := if (s.execs e).Ended then s.fireDone e else s

/-- The probe: a child that has exited is waited for. -/
def probe (s : Commands ι) (e : ι) (a : Answers) : Commands ι :=
  if a.exited then
    { s.setExec e { s.execs e with child := .reaped, childExited := true } with signalled := true }
  else s

/-- `fail_sigchld`, `y` with its descriptors closed. -/
def abandon (s : Commands ι) (e : ι) (y : Executor) : Commands ι :=
  (s.unregister e).setExec e { y with state := .idle, child := .reaped }

def start (s : Commands ι) (e : ι) (c : CommandConf) (a : Answers) : Commands ι :=
  let x := s.execs e
  s.setExec e { x with
    timeoutTimer := if c.timeout then a.timer else x.timeoutTimer, state := .running, runs := x.runs + 1 }

/-- The event source of a stream, or its end if there is nothing to read. -/
def attach (o : Output) (addOk : Bool) : Option Output :=
  if o.mode ≠ .discard ∧ o.readEnd then if addOk then some { o with src := true } else none
  else some { o with eof := true }

/-- Submit in pipe mode, after the fork: `x` is the executor with the pipes. -/
def spawnPipe (s : Commands ι) (e : ι) (x : Executor) (c : CommandConf) (a : Answers) : Commands ι :=
  let u := ((s.register e).setExec e { x with
    child := .alive, stdinRead := false
    stdout.writeEnd := false, stdout.isOpen := decide (c.stdoutMode ≠ .discard)
    stderr.writeEnd := false, stderr.isOpen := decide (c.stderrMode ≠ .discard) }).probe e a
  let y := u.execs e
  match attach y.stdout a.stdoutAdd with
  | none => u.abandon e y.closePipes
  | some o =>
    let y := { y with stdout := o }
    match attach y.stderr a.stderrAdd with
    | none => u.abandon e y.closePipes
    | some o' => (u.setExec e { y with stderr := o' }).start e c a

def submitPipe (s : Commands ι) (e : ι) (c : CommandConf) (a : Answers) : Commands ι :=
  let x := s.execs e
  if a.stdinPipe = false then s
  else
    let x := { x with stdinRead := true, stdinWrite := true }
    -- this failure does not close the first pipe
    if c.stdoutMode ≠ .discard ∧ a.stdoutPipe = false then s.setExec e x
    else
      let x := if c.stdoutMode = .discard then x else { x with stdout.readEnd := true, stdout.writeEnd := true }
      if c.stderrMode ≠ .discard ∧ a.stderrPipe = false then s.setExec e x.closePipes
      else
        let x := if c.stderrMode = .discard then x else { x with stderr.readEnd := true, stderr.writeEnd := true }
        if (s.count = 0 ∧ a.watch = false) ∨ a.fork = false then s.setExec e x.closePipes
        else s.spawnPipe e x c a

/-- What is read of the master when the child has exited before the probe. -/
def readEarly (s : Commands ι) (e : ι) (a : Answers) : Commands ι :=
  let y := s.execs e
  let o := { y.stdout.deliver a.data with written := a.data }
  let o := if a.ended then { o with src := false, eof := true, isOpen := false } else o
  (s.setExec e { y with stdout := o }).check e

/-- `xCommandExecutorSubmitPty`. -/
def submitPty (s : Commands ι) (e : ι) (c : CommandConf) (a : Answers) : Commands ι :=
  let x := s.execs e
  if a.argv = false ∨ (s.count = 0 ∧ a.watch = false) ∨ a.fork = false then s
  else if a.nonblock = false then (s.register e).abandon e x
  else
    let x := { x with stderr.eof := true }
    if a.stdoutAdd = false then (s.register e).abandon e x
    else
      let u := ((s.register e).setExec e { x with
        child := .alive, master := true, stdout.src := true, stdout.isOpen := true }).probe e a
      (if a.exited then u.readEarly e a else u).start e c a

/-- `xCommandExecutorSubmit`. -/
def submit (s : Commands ι) (e : ι) (c : CommandConf) (a : Answers) : Commands ι :=
  if (s.execs e).state ≠ .idle then s
  else
    let x := (s.execs e).reset c
    if a.bufs = false then s.setExec e x
    else
      let u := s.setExec e x.resetRun
      if c.pty then u.submitPty e c a else u.submitPipe e c a

/-- `xCommandExecutorCancel`, and `on_timeout`. -/
def terminate (s : Commands ι) (e : ι) (timerOk : Bool) : Commands ι :=
  let x := s.execs e
  if x.state = .running then s.setExec e { x with state := .cancelling, cancelTimer := timerOk } else s

/-- `xCommandExecutorDestroy`. -/
def destroy (s : Commands ι) (e : ι) : Commands ι :=
  let x := s.execs e
  if x.state = .idle then s.setExec e { x with freed := true }
  else (s.unregister e).setExec e { x.cleanup with child := .reaped, freed := true }

/-- A turn of `on_stdout_readable`, `on_stderr_readable` or `on_pty_readable`. -/
def readTurn (s : Commands ι) (e : ι) (w : StreamName) (n : ℕ) : Option (Commands ι) :=
  let x := s.execs e
  let o := x.output w
  if o.pending = [] then
    if o.isOpen then none
    else some ((s.setExec e (x.setOutput { o with src := false, readEnd := false, eof := true } w)).check e)
  else if 0 < n ∧ n ≤ 4096 then
    some (s.setExec e (x.setOutput { o.deliver (o.pending.take n) with pending := o.pending.drop n } w))
  else none

/-- `sigchld_handler` on what is left of the list, up to the first on_done. -/
def walk (s : Commands ι) : List ι → Commands ι
  | [] => { s with walking := none }
  | e :: l =>
    if (s.execs e).Unreaped then
      let u := s.setExec e { s.execs e with child := .reaped, childExited := true }
      if (u.execs e).Ended then { u.fireDone e with walking := some e } else walk u l
    else walk s l

/-- What is behind `e` in the list: `exec->next`, which is NULL for one that is not in it. -/
def behind (l : List ι) (e : ι) : List ι := (l.dropWhile (· ≠ e)).tail

/-- One step.  The handlers are called by the loop, which does not run in an on_done; and an executor is not destroyed
there by its own. -/
def step (s : Commands ι) : Act ι → Option (Commands ι)
  | .submit e c a => if (s.execs e).freed then none else some (s.submit e c a)
  | .cancel e timerOk => if (s.execs e).freed then none else some (s.terminate e timerOk)
  | .destroy e => if (s.execs e).freed ∨ s.walking = some e then none else some (s.destroy e)
  | .read e w n =>
    if s.walking = none ∧ (s.execs e).freed = false ∧ ((s.execs e).output w).src then s.readTurn e w n else none
  | .timeout e timerOk =>
    if s.walking = none ∧ (s.execs e).timeoutTimer then
      let u := s.setExec e { s.execs e with timeoutTimer := false }
      if (s.execs e).freed then some { u with faulted := true } else some (u.terminate e timerOk)
    else none
  | .grace e =>
    if s.walking = none ∧ (s.execs e).cancelTimer then
      let u := s.setExec e { s.execs e with cancelTimer := false }
      if (s.execs e).freed then some { u with faulted := true } else some u
    else none
  | .sigchld => if s.walking = none ∧ s.watched then some (walk { s with signalled := false } s.list) else none
  | .resume => s.walking.map fun e => s.walk (behind s.list e)
  | .write e w bytes =>
    let x := s.execs e
    let o := x.output w
    if x.state ≠ .idle ∧ x.freed = false ∧ o.isOpen then
      some (s.setExec e (x.setOutput { o with written := o.written ++ bytes, pending := o.pending ++ bytes } w))
    else none
  | .close e w =>
    let x := s.execs e
    if x.state ≠ .idle ∧ x.freed = false then some (s.setExec e (x.setOutput { x.output w with isOpen := false } w)) else none
  | .exit e =>
    let x := s.execs e
    if x.state ≠ .idle ∧ x.freed = false ∧ x.child = .alive then
      some { s.setExec e { x with child := .zombie } with signalled := true }
    else none

/-! ### The property -/

/-- A stream at the on_done: all that was written was captured or given, and nobody can write more. -/
def Whole (o : Output) : Prop :=
  (o.mode = .capture → o.buf = o.written) ∧ (o.mode = .stream → o.given = o.written) ∧ o.isOpen = false

/-- What an executor that runs waits for: a stream that has not ended has its event source, a child that is not waited for
is alive or has exited and SIGCHLD is to be handled, and one of the three is to come. -/
structure Waits (s : Commands ι) (e : ι) : Prop where
  output : ∀ w, ((s.execs e).output w).eof = false → ((s.execs e).output w).src = true
  child : (s.execs e).childExited = false →
    e ∈ s.list ∧ s.watched = true ∧
      ((s.execs e).child = .alive ∨ (s.execs e).child = .zombie ∧ s.signalled = true)
  more : ¬(s.execs e).Ended

/-- No freed memory is used; an executor that is idle or destroyed holds nothing; every accepted command has had its on_done,
but the one that runs, and that one waits for what is to come; at an on_done all output was delivered; and no capture is
over its cap. -/
structure Settled (s : Commands ι) : Prop where
  safe : s.faulted = false
  released : ∀ e, (s.execs e).state = .idle ∨ (s.execs e).freed = true → (s.execs e).Released
  once : ∀ e, (s.execs e).freed = false → (s.execs e).runs = (s.execs e).dones + if (s.execs e).state = .idle then 0 else 1
  waits : ∀ e, (s.execs e).freed = false → (s.execs e).state ≠ .idle → s.Waits e
  whole : ∀ d ∈ s.log, Whole d.1 ∧ Whole d.2
  cap : ∀ e w, ((s.execs e).output w).mode = .capture → ((s.execs e).output w).cap ≠ 0 →
    ((s.execs e).output w).buf.length ≤ ((s.execs e).output w).cap

/-- The stream has room for `n` bytes more. -/
def Room (o : Output) (n : ℕ) : Prop := o.mode = .capture → o.cap ≠ 0 → o.buf.length + n ≤ o.cap

instance (o : Output) (n : ℕ) : Decidable (Room o n) := inferInstanceAs (Decidable (_ → _))

/-- Of a list that SIGCHLD walks: when a child's exit ends a command, no child of an executor behind it has exited. -/
def Alone (s : Commands ι) : List ι → Prop
  | [] => True
  | e :: l =>
    if (s.execs e).Unreaped ∧ (s.execs e).stdout.eof = true ∧ (s.execs e).stderr.eof = true then
      ∀ d ∈ l, ¬(s.execs d).Unreaped
    else s.Alone l

instance decidableAlone (s : Commands ι) : (l : List ι) → Decidable (s.Alone l)
  | [] => isTrue trivial
  | e :: l =>
    if h : (s.execs e).Unreaped ∧ (s.execs e).stdout.eof = true ∧ (s.execs e).stderr.eof = true then
      decidable_of_iff (∀ d ∈ l, ¬(s.execs d).Unreaped) (by rw [Alone, if_pos h])
    else
      have := decidableAlone s l
      decidable_of_iff (s.Alone l) (by rw [Alone, if_neg h])

/-- Submit of a PTY: the child has not exited and closed its end before the probe, and what is read then fits the cap. -/
def PtyOk (c : CommandConf) (a : Answers) : Prop :=
  a.exited = true → a.ended = false ∧ (c.stdoutMode = .capture → c.stdoutCap ≠ 0 → a.data.length ≤ c.stdoutCap)

instance (c : CommandConf) (a : Answers) : Decidable (PtyOk c a) := inferInstanceAs (Decidable (_ → _ ∧ (_ → _ → _)))

/-- Submit in pipe mode: after the first pipe the second is made, after the first event source the second, and the child has
not exited before the probe if both streams are discarded. -/
def PipeOk (c : CommandConf) (a : Answers) : Prop :=
  (a.stdinPipe = true → c.stdoutMode ≠ .discard → a.stdoutPipe = true) ∧
    (c.stdoutMode ≠ .discard → c.stderrMode ≠ .discard → a.stdoutAdd = true → a.stderrAdd = true) ∧
    (c.stdoutMode = .discard → c.stderrMode = .discard → a.exited = false)

instance (c : CommandConf) (a : Answers) : Decidable (PipeOk c a) :=
  inferInstanceAs (Decidable ((_ → _ → _) ∧ (_ → _ → _ → _) ∧ (_ → _ → _)))

/-- A command is submitted as above; what is read fits the cap of its capture; an executor that is destroyed has no timer;
and when SIGCHLD is handled, a child whose exit ends a command is the last that has exited. -/
def Clean (s : Commands ι) : Act ι → Prop
  | .submit e c a => (s.execs e).state = .idle → a.bufs = true → if c.pty then PtyOk c a else PipeOk c a
  | .destroy e => (s.execs e).state = .idle ∨ (s.execs e).timeoutTimer = false ∧ (s.execs e).cancelTimer = false
  | .read e w n => Room ((s.execs e).output w) (min n ((s.execs e).output w).pending.length)
  | .sigchld => s.Alone s.list
  | _ => True

instance (s : Commands ι) : (m : Act ι) → Decidable (s.Clean m)
  | .submit e c a => inferInstanceAs (Decidable ((s.execs e).state = .idle → a.bufs = true → if c.pty then PtyOk c a else PipeOk c a))
  | .destroy e => inferInstanceAs (Decidable
      ((s.execs e).state = .idle ∨ (s.execs e).timeoutTimer = false ∧ (s.execs e).cancelTimer = false))
  | .read _ _ _ => inferInstanceAs (Decidable (Room _ _))
  | .sigchld => decidableAlone s s.list
  | .cancel _ _ | .timeout _ _ | .grace _ | .resume | .write _ _ _ | .close _ _ | .exit _ => isTrue trivial

end Commands

end Libx.Base
