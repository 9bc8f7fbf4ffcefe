import Supervisor.Bus.Client
import Supervisor.Worker.Settings

/-!
# The worker

A worker connects to the bus, starts its service, and then takes turns: it waits for an envelope,
hands it to the service, and lets the service make a step.  While the service is idle the worker
may wait as long as a tick for an envelope.  Every change of status is reported to the scheduler.

A worker leaves when its service fails, when it is asked to, when the bus is gone, or when it has
finished as many tasks as it may.  However it leaves, it reports its exit and stops the service.
-/

namespace Supervisor.Worker

open Bus (Client)
open Poll (Host)

/-- Outcome of one step of a service. -/
inductive Step where
  /-- Nothing to do; the worker may wait for an envelope. -/
  | idle
  /-- A task is in progress. -/
  | busy
  /-- A task was completed. -/
  | finished
deriving DecidableEq, Repr

/-- What a service sees of its worker. -/
structure Context where
  record : Record
  link : Client
  /-- Whether the service, or a command, asked the worker to leave. -/
  exitRequested : Bool := false
deriving DecidableEq, Repr

/-- What surrounds a worker. -/
structure Station (σ : Type) where
  host : Host σ
  /-- Whether the worker was asked from outside to stop. -/
  asked : σ → Bool
  process : UInt32 := 0
  thread : UInt32 := 0

/-- The workload of a worker.  Its callbacks work on the state of the world, which holds their own
state as well. -/
structure Service (σ : Type) where
  start : Context → σ → Except Error Unit × Context × σ := fun c s => (.ok (), c, s)
  /-- Makes progress, without waiting for longer than a tick. -/
  step : Context → σ → Except Error Step × Context × σ
  onMessage : Envelope → Context → σ → Except Error Unit × Context × σ :=
    fun _ c s => (.ok (), c, s)
  stop : Context → σ → Context × σ := fun c s => (c, s)

namespace Context

variable {σ : Type}

def uid (c : Context) : WorkerId :=
  c.record.uid

/-- Says what the worker is doing, for its next report. -/
def describe (c : Context) (text : String) : Context :=
  { c with record := { c.record with description := text } }

/-- Asks the worker to leave. -/
def requestExit (c : Context) : Context :=
  { c with exitRequested := true }

/-- Whether the worker is about to leave. -/
def isTerminating (c : Context) (w : Station σ) (s : σ) : Bool :=
  c.exitRequested || w.asked s

/-- Sends a message. -/
def send (c : Context) (w : Station σ) (audience : Audience) (number : UInt64)
    (message : Message) (s : σ) : Except Error Unit × Context × σ :=
  let (r, link, s) := c.link.send w.host audience number message s
  (r, { c with link }, s)

/-- Reports the status to the scheduler. -/
def report (c : Context) (w : Station σ) (s : σ) : Except Error Unit × Context × σ :=
  let (userTime, systemTime) := w.host.usage s
  let c := { c with record := { c.record with userTime, systemTime } }
  c.send w .server 0 (.status c.record) s

/-- Moves to a status and reports it, unless the worker is there already or cannot get there. -/
def transition (c : Context) (w : Station σ) (next : Status) (s : σ) :
    Except Error Unit × Context × σ :=
  if c.record.status = next then (.ok (), c, s)
  else
    match c.record.setStatus? next (w.host.present s) with
    | none => (.ok (), c, s)
    | some record => { c with record }.report w s

end Context

variable {σ : Type}

/-- Hands an envelope on; the command to stop is for the worker itself. -/
def dispatch (service : Service σ) (e : Envelope) (c : Context) (s : σ) :
    Except Error Unit × Context × σ :=
  match e.message with
  | .command .stop => (.ok (), c.requestExit, s)
  | _ => service.onMessage e c s

/-- How one turn of a worker ends. -/
inductive Turn where
  /-- Another turn follows; `busy` if a task is in progress. -/
  | again (busy : Bool)
  /-- It was the last turn. -/
  | over (result : Except Error Unit)

/-- Follows up on a step of the service. -/
def settle (w : Station σ) (maxTasks : UInt64) (step : Step) (c : Context) (s : σ) :
    Turn × Context × σ :=
  match step with
  | .idle =>
    match c.transition w .waiting s with
    | (.error e, c, s) => (.over (.error e), c, s)
    | (.ok (), c, s) => (.again false, c, s)
  | .busy =>
    match c.transition w .running s with
    | (.error e, c, s) => (.over (.error e), c, s)
    | (.ok (), c, s) => (.again true, c, s)
  | .finished =>
    let now := w.host.present s
    let record := c.record.finishTask now
    let c := { c with record := (record.setStatus? .waiting now).getD record }
    match c.report w s with
    | (.error e, c, s) => (.over (.error e), c, s)
    | (.ok (), c, s) =>
      if maxTasks ≠ 0 ∧ maxTasks ≤ c.record.tasks then (.over (.ok ()), c, s)
      else (.again false, c, s)

/-- Lets the service make a step, unless the worker is to leave. -/
def advance (w : Station σ) (service : Service σ) (maxTasks : UInt64) (c : Context) (s : σ) :
    Turn × Context × σ :=
  if c.isTerminating w s then (.over (.ok ()), c, s)
  else
    match service.step c s with
    | (.error e, c, s) => (.over (.error e), c, s)
    | (.ok step, c, s) => settle w maxTasks step c s

/-- One turn: an envelope, if there is one, and a step of the service. -/
def turn (w : Station σ) (service : Service σ) (settings : Settings) (busy : Bool) (c : Context)
    (s : σ) : Turn × Context × σ :=
  if c.isTerminating w s then (.over (.ok ()), c, s)
  else
    let (received, link, s) := c.link.receive w.host (if busy then .zero else settings.tick) s
    let c := { c with link }
    match received with
    | .error .channelClosed => (.over (.ok ()), c, s)
    | .error e => (.over (.error e), c, s)
    | .ok none => advance w service settings.maxTasks c s
    | .ok (some e) =>
      match dispatch service e c s with
      | (.error e, c, s) => (.over (.error e), c, s)
      | (.ok (), c, s) => advance w service settings.maxTasks c s

/-- Takes at most so many turns; without a result the worker would go on. -/
def turns (w : Station σ) (service : Service σ) (settings : Settings) :
    Nat → Bool → Context → σ → Option (Except Error Unit) × Context × σ
  | 0, _, c, s => (none, c, s)
  | n + 1, busy, c, s =>
    match turn w service settings busy c s with
    | (.over result, c, s) => (some result, c, s)
    | (.again busy, c, s) => turns w service settings n busy c s

/-- Starts the service and takes turns. -/
def serve (w : Station σ) (service : Service σ) (settings : Settings) (n : Nat) (c : Context)
    (s : σ) : Option (Except Error Unit) × Context × σ :=
  match service.start c s with
  | (.error e, c, s) => (some (.error e), c, s)
  | (.ok (), c, s) =>
    match c.transition w .waiting s with
    | (.error e, c, s) => (some (.error e), c, s)
    | (.ok (), c, s) => turns w service settings n false c s

/-- How long a leaving worker waits for its last report to be written. -/
def exitFlush : Duration := .ofMillis 500

/-- Reports the exit, as far as the bus still takes it, and stops the service. -/
def leave (w : Station σ) (service : Service σ) (c : Context) (s : σ) : Context × σ :=
  match c.transition w .exiting s with
  | (.error _, c, s) => service.stop c s
  | (.ok (), c, s) =>
    let (_, link, s) := c.link.flushBlocking w.host exitFlush s
    service.stop { c with link } s

/-- Serves until the worker leaves, in at most `n` turns.  The exit code, or what went wrong. -/
def run (w : Station σ) (service : Service σ) (settings : Settings) (n : Nat) (c : Context)
    (s : σ) : Option (Except Error Int32) × Context × σ :=
  match serve w service settings n c s with
  | (none, c, s) => (none, c, s)
  | (some result, c, s) =>
    let (c, s) := leave w service c s
    (some (result.map fun () => 0), c, s)

/-- How long a worker waits for the bus. -/
def connectTimeout : Duration := .ofSeconds 5

/-- Connects a worker to the bus. -/
def connect (w : Station σ) (uid : WorkerId) (settings : Settings) (s : σ) :
    Except Error Context × σ :=
  match Client.connect w.host settings.address uid connectTimeout s with
  | (.error e, s) => (.error e, s)
  | (.ok link, s) =>
    let record := Record.create w.process uid settings.service (w.host.present s)
    (.ok { record := { record with thread := w.thread }, link }, s)

/-- Runs a worker from its settings to its exit code, which is 1 if anything went wrong. -/
def conduct (w : Station σ) (service : Service σ) (uid : WorkerId) (settings : Settings) (n : Nat)
    (s : σ) : Option Int32 × σ :=
  match connect w uid settings s with
  | (.error _, s) => (some 1, s)
  | (.ok c, s) =>
    match run w service settings n c s with
    | (none, _, s) => (none, s)
    | (some (.ok code), _, s) => (some code, s)
    | (some (.error _), _, s) => (some 1, s)

end Supervisor.Worker
