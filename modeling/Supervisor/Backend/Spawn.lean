import Supervisor.Backend.Fork
import Supervisor.Poll.Selector

/-!
# Workers in processes of a program

The backend starts a program for every worker and hands it the settings in its environment.  The
id of a worker is the pid of its process.  What a worker writes to its standard output and
standard error comes through two pipes; once in every turn of the control loop the backend relays
what has arrived there.

When a process has ended, what is left in its pipes is relayed before its end is reported.  A
worker that is killed loses what it wrote and nobody read.
-/

namespace Supervisor.Backend

open Lifecycle (Event Reaction Listener)
open Wire (Bytes ReadEvent)
open Poll (Host Selector)

/-- The two outputs of a process. -/
inductive Channel where
  | output
  | errors
deriving DecidableEq, Repr

/-- Where the content of a pipe comes from and goes to. -/
structure Relay where
  uid : WorkerId
  channel : Channel
deriving DecidableEq, Repr

/-- A started process: its pid and the pipes of its two outputs. -/
structure Started where
  pid : UInt32
  output : StreamId
  errors : StreamId
deriving DecidableEq, Repr

/-- The calls on programs.  The pipes are streams of `host`. -/
structure ProgramCalls (σ : Type) where
  host : Host σ
  /-- Starts the program with these variables in its environment. -/
  start : List (String × String) → σ → Except Failure Started × σ
  signal : WorkerId → Signal → σ → σ
  /-- Whether the process of a worker has ended, and then its exit code; without a code if a
  signal ended it. -/
  ended? : WorkerId → σ → Option (Option Int32)
  /-- Writes to an output of the supervisor. -/
  relay : Channel → Bytes → σ → σ

/-- What the backend remembers. -/
structure Spawn where
  /-- The workers whose end has not been seen, with the pipes that are open. -/
  workers : Table .worker (List StreamId)
  /-- The pipes. -/
  pipes : Selector Relay
deriving DecidableEq, Repr

namespace Spawn

def empty : Spawn := ⟨∅, .empty⟩

variable {σ : Type}

/-- Starts to watch a pipe. -/
def watch (b : Spawn) (id : StreamId) (r : Relay) : Except Error Spawn :=
  (b.pipes.register { id, kind := .pipe } .reading (some r)).map fun pipes => { b with pipes }

/-- Starts a worker. -/
def create (calls : ProgramCalls σ) (settings : Worker.Settings) (b : Spawn) (s : σ) :
    Reaction × Spawn × σ :=
  match calls.start settings.toVariables s with
  | (.error failure, s) =>
    ({ failure := some (.spawn failure "failed to spawn worker process") }, b, s)
  | (.ok child, s) =>
    let uid : WorkerId := ⟨child.pid.toUInt64⟩
    match (b.watch child.output ⟨uid, .output⟩).bind (·.watch child.errors ⟨uid, .errors⟩) with
    | .error e => ({ failure := some e }, b, s)
    | .ok b =>
      ({ emitted := [.workerCreated uid] },
        { b with workers := b.workers.insert uid [child.output, child.errors] }, s)

/-- Drops a pipe and closes it. -/
def closePipe (calls : ProgramCalls σ) (b : Spawn) (id : StreamId) (s : σ) : Spawn × σ :=
  let (pipes, s) := b.pipes.discard id calls.host s
  ({ b with pipes }, s)

/-- Drops pipes and closes them. -/
def closePipes (calls : ProgramCalls σ) : List StreamId → Spawn → σ → Spawn × σ
  | [], b, s => (b, s)
  | id :: rest, b, s =>
    let (b, s) := b.closePipe calls id s
    closePipes calls rest b s

/-- Ends a worker, at once if `hard`; one that is already gone is reported. -/
def terminate (calls : ProgramCalls σ) (uid : WorkerId) (hard : Bool) (b : Spawn) (s : σ) :
    Reaction × Spawn × σ :=
  match b.workers.find? uid with
  | none => ({ emitted := [.workerTerminated uid none] }, b, s)
  | some pipes =>
    if !hard then ({}, b, calls.signal uid .interrupt s)
    else
      let (b, s) := closePipes calls pipes { b with workers := b.workers.insert uid [] } s
      ({}, b, calls.signal uid .kill s)

/-- Relays what a pipe has for now, and drops it if it has ended or failed. -/
def drainPipe (calls : ProgramCalls σ) (b : Spawn) (id : StreamId) (s : σ) : Spawn × σ :=
  match b.pipes.keys.find? id with
  | none => (b, s)
  | some key =>
    match key.attachment with
    | none => (b, s)
    | some r =>
      let (events, s) := key.stream.read calls.host s
      let s := calls.relay r.channel (ReadEvent.delivered events) s
      match ReadEvent.failure? events with
      | none => (b, s)
      | some _ =>
        let (b, s) := b.closePipe calls id s
        ({ b with workers := b.workers.modify r.uid (·.filter (· ≠ id)) }, s)

/-- Relays what pipes have for now. -/
def drainPipes (calls : ProgramCalls σ) : List StreamId → Spawn → σ → Spawn × σ
  | [], b, s => (b, s)
  | id :: rest, b, s =>
    let (b, s) := b.drainPipe calls id s
    drainPipes calls rest b s

/-- Relays what has arrived since the last turn. -/
def relayOutput (calls : ProgramCalls σ) (b : Spawn) (s : σ) : Except Error Unit × Spawn × σ :=
  match b.pipes.select (some .zero) calls.host s with
  | (.error e, pipes, s) => (.error e, { b with pipes }, s)
  | (.ok 0, pipes, s) => (.ok (), { b with pipes }, s)
  | (.ok _, pipes, s) =>
    let (b, s) := drainPipes calls pipes.ready { b with pipes } s
    (.ok (), b, s)

/-- Relays what is left of a worker that has ended, and forgets it. -/
def bury (calls : ProgramCalls σ) (b : Spawn) (uid : WorkerId) (s : σ) : Spawn × σ :=
  match b.workers.find? uid with
  | none => (b, s)
  | some pipes =>
    pipes.foldl (fun (b, s) id =>
      let (b, s) := b.drainPipe calls id s
      b.closePipe calls id s) ({ b with workers := b.workers.erase uid }, s)

/-- Buries the workers that have ended and reports their ends. -/
def buryAll (calls : ProgramCalls σ) :
    List (WorkerId × Option Int32) → Spawn → σ → List Event × Spawn × σ
  | [], b, s => ([], b, s)
  | (uid, code) :: rest, b, s =>
    let (b, s) := b.bury calls uid s
    let (events, b, s) := buryAll calls rest b s
    (.workerTerminated uid code :: events, b, s)

/-- Relays output and looks for workers that have ended. -/
def loop (calls : ProgramCalls σ) (b : Spawn) (s : σ) : Reaction × Spawn × σ :=
  match b.relayOutput calls s with
  | (.error e, b, s) => ({ failure := some e }, b, s)
  | (.ok (), b, s) =>
    let ended := b.workers.keys.filterMap fun uid => (calls.ended? uid s).map (uid, ·)
    let (emitted, b, s) := buryAll calls ended b s
    ({ emitted }, b, s)

/-- Reacts to an event. -/
def react (calls : ProgramCalls σ) : Listener (Spawn × σ) := fun e (b, s) =>
  match e with
  | .workerCreate settings => create calls settings b s
  | .workerTerminate uid hard => terminate calls uid hard b s
  | .schedulerLoop => loop calls b s
  | _ => ({}, b, s)

/-- The backend over its calls. -/
def backend (calls : ProgramCalls σ) : Lifecycle.Backend (Spawn × σ) :=
  ⟨.process, react calls⟩

end Spawn

end Supervisor.Backend
