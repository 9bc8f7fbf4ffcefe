import Supervisor.Backend.Thread
import Supervisor.Sim.Shell.Run
import Supervisor.Sim.World

/-!
# Workers that do little

What runs on a simulated host in place of workers: processes and threads that return, panic or
wait until they are asked to stop, and programs that write a little.  They are numbered from one,
and the number is the pid of a process.  All three backends work on such jobs.
-/

namespace Supervisor.Sim

open Backend (Channel Signal)
open Wire (Bytes)

/-- What the body of a worker does. -/
inductive Body where
  | returns (code : Int32)
  | panics
  /-- Waits until it is asked to stop, then returns. -/
  | waits (code : Int32)
deriving DecidableEq, Repr

/-- A process or a thread. -/
structure Job where
  /-- When it ends and its exit code, if it does by itself. -/
  ending : Option (Duration × Option Int32)
  /-- Its exit code if it is asked to stop before. -/
  stopped : Option Int32 := none
  /-- What it is going to write. -/
  writes : List (Duration × Channel × Bytes) := []
  pipes : List (Channel × StreamId) := []
deriving Repr

/-- What a process tells of an exit code: the low byte. -/
def lowByte (code : Int32) : Int32 :=
  Int32.ofInt (code.toInt % 256)

namespace Job

/-- A thread that starts now. -/
def ofThread (now : Duration) : Body → Job
  | .returns code => { ending := some (now, some code) }
  | .panics => { ending := some (now, none) }
  | .waits code => { ending := none, stopped := some code }

/-- A forked process that starts now. -/
def ofFork (now : Duration) : Body → Job
  | .returns code => { ending := some (now, some (lowByte code)) }
  | .panics => { ending := some (now, some Backend.panicCode) }
  | .waits code => { ending := none, stopped := some (lowByte code) }

/-- Whether a job has ended, and then its exit code. -/
def ended? (j : Job) (now : Duration) : Option (Option Int32) :=
  match j.ending with
  | some (time, code) => if time ≤ now then some code else none
  | none => none

/-- Asks a job to stop, which it does at once. -/
def stop (j : Job) (now : Duration) : Job :=
  if (j.ended? now).isSome then j else { j with ending := some (now, j.stopped), writes := [] }

/-- Ends a job. -/
def kill (j : Job) (now : Duration) : Job :=
  { j with stopped := none }.stop now

/-- Sends a signal to a job. -/
def signal (j : Job) (s : Signal) (now : Duration) : Job :=
  match s with
  | .interrupt => j.stop now
  | .kill => j.kill now

end Job

/-- All jobs of a host. -/
structure Jobs where
  jobs : Table .worker Job := ∅
  /-- Number of the next job. -/
  next : Nat := 1
  /-- What the next worker does. -/
  body : Body := .panics
  /-- The program of spawned workers, with its arguments. -/
  program : String := "/bin/sh"
  args : List String := []
  /-- What was relayed so far. -/
  output : Bytes := []
  errors : Bytes := []

namespace Jobs

/-- Adds a job. -/
def add (s : Jobs) (j : Job) : Jobs :=
  { s with jobs := s.jobs.insert ⟨s.next.toUInt64⟩ j, next := s.next + 1 }

/-- Changes a job. -/
def modify (s : Jobs) (uid : WorkerId) (f : Job → Job) : Jobs :=
  { s with jobs := s.jobs.modify uid f }

/-- Whether a job has ended, and then its exit code. -/
def ended? (uid : WorkerId) (s : Jobs × World) : Option (Option Int32) :=
  (s.1.jobs.find? uid).bind (·.ended? s.2.clock)

/-! ## Time -/

/-- Writes to the pipe of a channel. -/
def writeTo (pipes : List (Channel × StreamId)) (w : World) (c : Channel) (b : Bytes) : World :=
  match pipes.lookup c with
  | some id => (w.feed id b).2
  | none => w

/-- Lets a job write what is due. -/
def deliver (j : Job) (w : World) : World :=
  (j.writes.filter (·.1 ≤ w.clock)).foldl (fun w (_, c, b) => writeTo j.pipes w c b) w

/-- Lets all jobs write what is due. -/
def deliverAll (s : Jobs × World) : Jobs × World :=
  ({ s.1 with jobs := s.1.jobs.map fun _ j =>
      { j with writes := j.writes.filter fun e => !decide (e.1 ≤ s.2.clock) } },
    s.1.jobs.values.foldl (fun w j => deliver j w) s.2)

/-- Lets time pass. -/
def pass (d : Duration) (s : Jobs × World) : Jobs × World :=
  deliverAll (s.1, { s.2 with clock := s.2.clock + d })

/-! ## Calls of the backends -/

/-- The system calls of the forking backend. -/
def forkCalls : Backend.ProcessCalls (Jobs × World) where
  fork _ s := (.ok (Int32.ofNat s.1.next), s.1.add (.ofFork s.2.clock s.1.body), s.2)
  kill pid signal s :=
    let uid := Backend.workerOf pid
    if s.1.jobs.contains uid then
      (.sent, s.1.modify uid fun j => j.signal signal s.2.clock, s.2)
    else (.nobody, s)
  reap s :=
    let left := { s.1 with jobs := s.1.jobs.filter fun uid _ => (ended? uid s).isNone }
    s.1.jobs.keys.foldr (fun uid next => match ended? uid s with
      | some code => .child (Backend.processOf uid) code next
      | none => next) (.nobody (left, s.2))
  parent _ := 1

/-- The calls of the threading backend. -/
def threadCalls : Backend.ThreadCalls (Jobs × World) where
  start _ _ s := (.ok (), s.1.add (.ofThread s.2.clock s.1.body), s.2)
  stop uid s := (s.1.modify uid (·.stop s.2.clock), s.2)
  ended? := ended?

/-- Starts a program. -/
def start (bindings : List (String × String)) (s : Jobs × World) :
    Except Failure Backend.Started × Jobs × World :=
  let (jobs, world) := s
  match Shell.run? jobs.program jobs.args bindings jobs.next with
  | none => (.error ⟨.notFound, "No such file or directory (os error 2)"⟩, s)
  | some trace =>
    let (output, world) := world.create (.pipe [] false)
    let (errors, world) := world.create (.pipe [] false)
    (.ok ⟨jobs.next.toUInt32, output, errors⟩, deliverAll (jobs.add {
      ending := some (world.clock + trace.ending, trace.code)
      writes := trace.writes.map fun (time, c, b) => (world.clock + time, c, b)
      pipes := [(.output, output), (.errors, errors)] }, world))

/-- The calls of the spawning backend. -/
def programCalls : Backend.ProgramCalls (Jobs × World) where
  host := World.host.onSecond
  start := start
  signal uid signal s := (s.1.modify uid fun j => j.signal signal s.2.clock, s.2)
  ended? := ended?
  relay c b s :=
    match c with
    | .output => ({ s.1 with output := s.1.output ++ b }, s.2)
    | .errors => ({ s.1 with errors := s.1.errors ++ b }, s.2)

/-! ## Waiting for ends -/

/-- The end that an event reports. -/
def endOf? : Lifecycle.Event → Option (WorkerId × Option Int32)
  | .workerTerminated uid code => some (uid, code)
  | _ => none

/-- Pause between two looks at the backend. -/
def pause : Duration := .ofMillis 10

/-- Turns the control loop until a number of ends was reported, at most `turns` times. -/
def awaitEnds {β : Type} (bus : Lifecycle.Bus (β × Jobs × World)) :
    Nat → Nat → β × Jobs × World → List (WorkerId × Option Int32) × β × Jobs × World
  | 0, _, s | _, 0, s => ([], s)
  | turns + 1, count, s =>
    let (result, b, s) := bus.raise .schedulerLoop s
    let ends := (result.toOption.getD []).filterMap endOf?
    let (more, s) := awaitEnds bus turns (count - ends.length) (b, pass pause s)
    (ends ++ more, s)

end Jobs

end Supervisor.Sim
