import Supervisor.Bus.Broker
import Supervisor.Lifecycle.Flow
import Supervisor.PidLock
import Supervisor.Poll.Reactor
import Supervisor.Pool.Policy

/-!
# The scheduler

The scheduler keeps a pool of workers alive.  It takes the pid lock, opens the message bus,
creates the first workers, and then runs its control loop, one reactor tick after another.  After
every tick it

* drops dead connections, routes envelopes and takes in the reports of workers,
* lets the backend tell which workers have ended,
* and, unless it is about to stop, carries out what the scaling policy decides.

Reports come before ends, so a worker that announced its exit is not taken for one that crashed
when both are seen in the same turn.

To stop, it ends all workers, waits for the backend to confirm that, and gives up the bus and the
pid lock.
-/

namespace Supervisor.Scheduler

open Bus (Routing Peer Broker)
open Lifecycle (Event Isolation)
open Poll (Host Selector Reactor)
open Worker (Record)

/-- What a scheduler works with. -/
structure Premises (σ : Type) where
  config : Config
  host : Host σ
  /-- The bus that the backend listens to. -/
  bus : Lifecycle.Bus σ
  /-- Decides how many workers are created and which are retired. -/
  discipline : Pool.Collection → Millis → σ → Pool.Decision × σ
  /-- The pid of the scheduler. -/
  own : Int32
  probe : σ → Int32 → Probe
  /-- What stands at the path of the pid file. -/
  lockFile : σ → Node
  setLockFile : Node → σ → σ
  /-- Whether the scheduler was asked from outside to stop. -/
  stopRequested : σ → Bool

/-- The discipline that a configuration asks for. -/
def standardDiscipline {σ : Type} (config : Config) :
    Pool.Collection → Millis → σ → Pool.Decision × σ :=
  fun c now s => (config.policy.decide c now, s)

/-- The state of the control loop. -/
structure Core where
  workers : Pool.Collection
  /-- The message bus, and the selector that holds its streams. -/
  ipc : Option (Routing × SelectorId) := none
  lock : Option PidLock := none
  /-- Messages for the scheduler that are no status reports. -/
  received : List Envelope := []
  terminating : Bool := false
deriving DecidableEq, Repr

namespace Core

variable {σ : Type}

/-! ## Workers -/

/-- Takes note of one event that the backend reported. -/
def note (c : Core) : Event → Core
  | .workerTerminated uid _ => { c with workers := c.workers.remove uid }
  | .schedulerStop => { c with terminating := true }
  | _ => c

/-- Takes note of what the backend reported. -/
def noteAll (c : Core) (events : List Event) : Core :=
  events.foldl note c

/-- Raises an event and takes note of what it causes. -/
def raise (p : Premises σ) (c : Core) (e : Event) (s : σ) : Except Error Unit × Core × σ :=
  match p.bus.raise e s with
  | (.error e, s) => (.error e, c, s)
  | (.ok events, s) => (.ok (), c.noteAll events, s)

/-- The settings of a new worker. -/
def settings (config : Config) (routing : Routing) : Worker.Settings where
  service := config.service
  address := routing.address
  maxTasks := config.maxTasks.toUInt64
  tick := config.workerTick

/-- Ends a worker.  A backend that fails to do so may still report its end later. -/
def stopWorker (p : Premises σ) (uid : WorkerId) (hard : Bool) (c : Core) (s : σ) : Core × σ :=
  match p.bus.stopWorker uid hard (p.host.present s) c.workers s with
  | (.ok events, workers, s) => ({ c with workers }.noteAll events, s)
  | (.error _, workers, s) => ({ c with workers }, s)

/-- Ends workers, one after another. -/
def stopWorkers (p : Premises σ) (hard : Bool) : List WorkerId → Core → σ → Core × σ
  | [], c, s => (c, s)
  | uid :: rest, c, s =>
    let (c, s) := c.stopWorker p uid hard s
    stopWorkers p hard rest c s

/-- Creates a worker and tracks it; one that cannot be tracked is ended again. -/
def createWorker (p : Premises σ) (c : Core) (s : σ) : Core × σ :=
  match c.ipc with
  | none => (c, s)
  | some (routing, _) =>
    match p.bus.startWorker (settings p.config routing) s with
    | (none, s) => (c, s)
    | (some uid, s) =>
      let r := Record.create p.own.toUInt32 uid p.config.service (p.host.present s)
      match c.workers.insert r with
      | .ok workers => ({ c with workers }, s)
      | .error _ => c.stopWorker p uid true s

/-- Creates so many workers. -/
def createWorkers (p : Premises σ) : Nat → Core → σ → Core × σ
  | 0, c, s => (c, s)
  | n + 1, c, s =>
    let (c, s) := c.createWorker p s
    createWorkers p n c s

/-- Carries out what the discipline decides. -/
def balance (p : Premises σ) (c : Core) (s : σ) : Core × σ :=
  let (d, s) := p.discipline c.workers (p.host.present s) s
  let (c, s) := c.createWorkers p d.create s
  c.stopWorkers p false d.terminate s

/-! ## Envelopes -/

/-- Takes an envelope in.  A worker reports its own status and no other; a report that cannot be
true is ignored. -/
def take (p : Premises σ) (c : Core) (e : Envelope) (s : σ) : Core × σ :=
  match e.message with
  | .status report =>
    if report.uid ≠ e.sender then (c, s)
    else
      match c.workers.update report with
      | .error _ => (c, s)
      | .ok workers =>
        let event : Event :=
          if report.status = .exiting then .workerExit report.uid else .workerLoop report.uid
        (Core.raise p { c with workers } event s).2
  | _ => ({ c with received := c.received ++ [e] }, s)

/-- Takes envelopes in. -/
def takeAll (p : Premises σ) : List Envelope → Core → σ → Core × σ
  | [], c, s => (c, s)
  | e :: rest, c, s =>
    let (c, s) := c.take p e s
    takeAll p rest c s

/-! ## Turns of the control loop -/

/-- Lets the message bus catch up.  The envelopes for the scheduler. -/
def pass (p : Premises σ) (c : Core) (r : Reactor Peer) (s : σ) :
    Except Error (List Envelope) × Core × Reactor Peer × σ :=
  match c.ipc with
  | none => (.ok [], c, r, s)
  | some (routing, id) =>
    match r.selector? id with
    | none => (.error (.unknownSelector id), c, r, s)
    | some selector =>
      let b : Broker σ := { routing with selector, world := s }
      let (_, b) := b.sweep p.host
      let (inbox, b) := (b.route p.host).takeInbox
      (.ok inbox, { c with ipc := some (b.toRouting, id) }, r.setSelector id b.selector, b.world)

/-- Takes note of the ends that the backend sees. -/
def reap (p : Premises σ) (c : Core) (s : σ) : Core × σ :=
  match p.bus.raise .schedulerLoop s with
  | (.ok events, s) => (c.noteAll events, s)
  | (.error _, s) => (c, s)

/-- What happens after every tick. -/
def onTick (p : Premises σ) (r : Reactor Peer) (c : Core) (s : σ) :
    Except Error Unit × Reactor Peer × Core × σ :=
  match c.pass p r s with
  | (.error e, c, r, s) => (.error e, r, c, s)
  | (.ok inbox, c, r, s) =>
    let (c, s) := takeAll p inbox c s
    let (c, s) := c.reap p s
    let c := { c with terminating := c.terminating || p.stopRequested s }
    if c.terminating then (.ok (), { r with terminating := true }, c, s)
    else
      let (c, s) := c.balance p s
      (.ok (), r, c, s)

/-- Handles streams of the message bus that are ready. -/
def onReady (p : Premises σ) (id : SelectorId) (selector : Selector Peer) (c : Core) (s : σ) :
    Except Error Unit × Selector Peer × Core × σ :=
  match c.ipc with
  | none => (.ok (), selector, c, s)
  | some (routing, ipc) =>
    if ipc = id then
      let (result, b) := Broker.onReady p.host { routing with selector, world := s }
      (result, b.selector, { c with ipc := some (b.toRouting, id) }, b.world)
    else (.ok (), selector, c, s)

/-- The scheduler as the user of its reactor. -/
def handler (p : Premises σ) : Poll.Handler Peer (Core × σ) where
  onReady id selector s := onReady p id selector s.1 s.2
  onTick r s := onTick p r s.1 s.2

end Core

end Scheduler

/-- A scheduler: its control loop and its reactor. -/
structure Scheduler where
  core : Scheduler.Core
  reactor : Poll.Reactor Bus.Peer

namespace Scheduler

open Bus (Routing Peer Broker)
open Poll (Reactor)

variable {σ : Type}

/-- A scheduler that was not started; its configuration must be valid. -/
def create (config : Config) : Except Error Scheduler :=
  config.validate.map fun () => ⟨{ workers := .empty config.maxWorkers }, .empty config.tickInterval⟩

/-- The longest duration of all, for what never happens. -/
def forever : Duration := .ofSeconds (UInt64.size - 1)

/-- Takes the pid lock. -/
def lockPid (p : Premises σ) (c : Scheduler) (s : σ) : Except Error Unit × Scheduler × σ :=
  match PidLock.renew p.own (p.probe s) c.core.lock (p.lockFile s) with
  | (.error e, n) => (.error e, c, p.setLockFile n s)
  | (.ok lock, n) =>
    (.ok (), { c with core := { c.core with lock := some lock } }, p.setLockFile n s)

/-- Opens the message bus. -/
def openBus (p : Premises σ) (c : Scheduler) (s : σ) : Except Error Unit × Scheduler × σ :=
  match Routing.bind p.host p.config.address p.config.requeue s with
  | (.error e, s) => (.error e, c, s)
  | (.ok (routing, selector), s) =>
    let (id, reactor) := c.reactor.observe selector forever (p.host.clock s)
    (.ok (), { core := { c.core with ipc := some (routing, id) }, reactor }, s)

/-- Announces the start to the backend and creates the first workers. -/
def launch (p : Premises σ) (c : Scheduler) (s : σ) : Except Error Unit × Scheduler × σ :=
  match c.core.raise p .kernelStart s with
  | (.error e, core, s) => (.error e, { c with core }, s)
  | (.ok (), core, s) =>
    match core.raise p .schedulerStart s with
    | (.error e, core, s) => (.error e, { c with core }, s)
    | (.ok (), core, s) =>
      let (core, s) := core.createWorkers p p.config.startWorkers s
      (.ok (), { c with core }, s)

/-- Starts the pool, unless the message bus is open already. -/
def start (p : Premises σ) (c : Scheduler) (s : σ) : Except Error Unit × Scheduler × σ :=
  if c.core.ipc.isSome then (.ok (), c, s)
  else
    match c.lockPid p s with
    | (.error e, c, s) => (.error e, c, s)
    | (.ok (), c, s) =>
      match c.openBus p s with
      | (.error e, c, s) => (.error e, c, s)
      | (.ok (), c, s) => c.launch p s

/-- Runs one turn of the control loop. -/
def tick (p : Premises σ) (c : Scheduler) (s : σ) : Except Error Unit × Scheduler × σ :=
  match c.reactor.tick p.host.onSecond (Core.handler p) (c.core, s) with
  | (.error e, reactor, core, s) => (.error e, ⟨core, reactor⟩, s)
  | (.ok _, reactor, core, s) =>
    let (result, reactor, core, s) := core.onTick p reactor s
    (result, ⟨core, reactor⟩, s)

/-- Runs so many turns, whatever comes of them.  The last failure counts. -/
def ticks (p : Premises σ) : Nat → Scheduler → σ → Except Error Unit × Scheduler × σ
  | 0, c, s => (.ok (), c, s)
  | n + 1, c, s =>
    match c.tick p s with
    | (.ok (), c, s) => ticks p n c s
    | (.error e, c, s) =>
      match ticks p n c s with
      | (.ok (), c, s) => (.error e, c, s)
      | r => r

/-- Sends a message to the pool. -/
def send (p : Premises σ) (c : Scheduler) (audience : Audience) (number : UInt64)
    (message : Message) (s : σ) : Except Error Unit × Scheduler × σ :=
  match c.core.ipc with
  | none => (.error .channelClosed, c, s)
  | some (routing, id) =>
    match c.reactor.selector? id with
    | none => (.error (.unknownSelector id), c, s)
    | some selector =>
      let b : Broker σ := { routing with selector, world := s }
      let b := b.send p.host audience number message
      (.ok (),
        ⟨{ c.core with ipc := some (b.toRouting, id) }, c.reactor.setSelector id b.selector⟩,
        b.world)

/-- Takes the messages for the scheduler that are no status reports. -/
def takeMessages (c : Scheduler) : List Envelope × Scheduler :=
  (c.core.received, { c with core := { c.core with received := [] } })

/-- Pause between two looks at the backend while workers end. -/
def shutdownPause : Duration := .ofMillis 50

/-- Waits until no worker is left or the deadline has passed, at most `rounds` times. -/
def awaitEnds (p : Premises σ) (deadline : Duration) : Nat → Core → σ → Core × σ
  | 0, c, s => (c, s)
  | rounds + 1, c, s =>
    if c.workers.size = 0 ∨ deadline ≤ p.host.clock s then (c, s)
    else
      let (c, s) := c.reap p (p.host.sleep shutdownPause s)
      awaitEnds p deadline rounds c s

/-- Ends all workers and waits for that, with a round for every pause in the time there is.  Those
whose end is not confirmed are forgotten. -/
def endWorkers (p : Premises σ) (c : Core) (s : σ) : Core × σ :=
  let (c, s) := c.stopWorkers p true c.workers.uids s
  let timeout := p.config.shutdownTimeout
  let rounds := timeout.nanos / shutdownPause.nanos + 1
  let (c, s) := awaitEnds p (p.host.clock s + timeout) rounds c s
  ({ c with workers := c.workers.clear }, s)

/-- Closes the message bus. -/
def closeBus (p : Premises σ) (routing : Routing) (id : SelectorId) (r : Reactor Peer) (s : σ) :
    Reactor Peer × σ :=
  match r.unregister id with
  | .error _ => (r, s)
  | .ok (selector, r) =>
    (r, (Broker.close p.host { routing with selector, world := s }).world)

/-- Gives up the pid lock. -/
def unlockPid (p : Premises σ) (c : Core) (s : σ) : Except Error Unit × Core × σ :=
  match c.lock with
  | none => (.ok (), c, s)
  | some lock =>
    let (result, _, n) := lock.release (p.lockFile s)
    (result, { c with lock := none }, p.setLockFile n s)

/-- Stops the pool, if the message bus is open. -/
def stop (p : Premises σ) (c : Scheduler) (s : σ) : Except Error Unit × Scheduler × σ :=
  match c.core.ipc with
  | none => (.ok (), c, s)
  | some (routing, id) =>
    let core := { c.core with ipc := none, terminating := true }
    let reactor := { c.reactor with terminating := true }
    let (core, s) := endWorkers p core s
    let (_, s) := p.bus.raise .schedulerStop s
    let (reactor, s) := closeBus p routing id reactor s
    let (result, core, s) := unlockPid p core s
    (result, ⟨core, reactor⟩, s)

/-- Starts the pool if needed, runs it for at most `turns` turns of the control loop, and stops
it.  Whether it was told to stop before the turns were over. -/
def run (p : Premises σ) (turns : Nat) (c : Scheduler) (s : σ) :
    Except Error Bool × Scheduler × σ :=
  match c.start p s with
  | (.error e, c, s) => (.error e, c, s)
  | (.ok (), c, s) =>
    let (ended, reactor, core, s) :=
      Poll.Reactor.mainLoop p.host.onSecond (Core.handler p) turns c.reactor (c.core, s)
    match (Scheduler.mk core reactor).stop p s with
    | (.error e, c, s) => (.error e, c, s)
    | (.ok (), c, s) => (ended, c, s)

end Scheduler

end Supervisor
