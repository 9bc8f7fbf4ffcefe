import Supervisor.Lifecycle.Flow

/-!
# Workers in forked processes

The id of a worker is the pid of its process.  The backend remembers the children it forked and
has not seen end; the end of a child is seen when it is reaped, or when a signal finds nobody to
receive it.  When the supervisor's own parent goes away, the backend asks for a stop.

The system calls are functions over a state of their own, so every behaviour of the system is a
choice of these functions.
-/

namespace Supervisor.Backend

open Lifecycle (Event Reaction Listener)

/-- The signals sent to workers. -/
inductive Signal where
  /-- Asks a worker to finish. -/
  | interrupt
  /-- Ends a worker at once. -/
  | kill
deriving DecidableEq, Repr

/-- The name of a signal. -/
def Signal.name : Signal → String
  | .interrupt => "SIGINT"
  | .kill => "SIGKILL"

/-- The outcome of sending a signal. -/
inductive Delivered where
  | sent
  /-- There is no such process. -/
  | nobody
  | refused
deriving DecidableEq, Repr

/-- The answers to repeated calls for a child that ended, up to the first that names none. -/
inductive Reaping (σ : Type) where
  /-- A child ended and is reaped, with its exit code; without a code if a signal ended it. -/
  | child (pid : Int32) (code : Option Int32) (next : Reaping σ)
  /-- No other child has ended. -/
  | nobody (s : σ)
  /-- The call fails. -/
  | failed (s : σ)
deriving Repr

/-- The system calls on processes. -/
structure ProcessCalls (σ : Type) where
  /-- Forks a worker with the given settings; the outcome is the child's pid. -/
  fork : Worker.Settings → σ → Except Failure Int32 × σ
  kill : Int32 → Signal → σ → Delivered × σ
  /-- Reaps the children that ended, one after the other. -/
  reap : σ → Reaping σ
  /-- The pid of the supervisor's own parent. -/
  parent : σ → Int32

/-- The worker that runs in a process: the pid, with its sign extended. -/
def workerOf (pid : Int32) : WorkerId :=
  ⟨pid.toInt64.toUInt64⟩

/-- The process that runs a worker: the low half of the id. -/
def processOf (uid : WorkerId) : Int32 :=
  uid.val.toUInt32.toInt32

/-- What the backend remembers. -/
structure Fork where
  /-- The children that have not been seen to end. -/
  children : Table .worker Unit
  /-- The supervisor's parent, once the supervisor runs. -/
  parent : Option Int32
deriving DecidableEq, Repr

namespace Fork

def empty : Fork := ⟨∅, none⟩

variable {σ : Type}

/-- Removes reaped children and reports those that were known.  A failing call ends the reaping;
the children reaped before it are reported all the same. -/
def settle (children : Table .worker Unit) : Reaping σ → List Event × Table .worker Unit × σ
  | .nobody s => ([], children, s)
  | .failed s => ([], children, s)
  | .child pid code next =>
    let uid := workerOf pid
    if children.contains uid then
      let (events, children, s) := settle (children.erase uid) next
      (.workerTerminated uid code :: events, children, s)
    else settle children next

/-- Forks a worker. -/
def create (calls : ProcessCalls σ) (settings : Worker.Settings) (f : Fork) (s : σ) :
    Reaction × Fork × σ :=
  match calls.fork settings s with
  | (.error failure, s) => ({ failure := some (.spawn failure "fork failed") }, f, s)
  | (.ok pid, s) =>
    ({ emitted := [.workerCreated (workerOf pid)] },
      { f with children := f.children.insert (workerOf pid) () }, s)

/-- Signals a worker; one that is already gone is reported. -/
def terminate (calls : ProcessCalls σ) (uid : WorkerId) (hard : Bool) (f : Fork) (s : σ) :
    Reaction × Fork × σ :=
  match calls.kill (processOf uid) (if hard then .kill else .interrupt) s with
  | (.nobody, s) =>
    ({ emitted := [.workerTerminated uid none] }, { f with children := f.children.erase uid }, s)
  | (_, s) => ({}, f, s)

/-- Whether the supervisor's parent has changed, and the parent to remember. -/
def checkParent (known : Option Int32) (current : Int32) : List Event × Option Int32 :=
  match known with
  | none => ([], none)
  | some expected => if current = expected then ([], known) else ([.schedulerStop], some current)

/-- Reaps children and looks after the parent. -/
def loop (calls : ProcessCalls σ) (f : Fork) (s : σ) : Reaction × Fork × σ :=
  let (ends, children, s) := settle f.children (calls.reap s)
  let (stops, parent) := checkParent f.parent (calls.parent s)
  ({ emitted := ends ++ stops }, ⟨children, parent⟩, s)

/-- Reacts to an event. -/
def react (calls : ProcessCalls σ) : Listener (Fork × σ) := fun e (f, s) =>
  match e with
  | .kernelStart => ({}, { f with parent := some (calls.parent s) }, s)
  | .workerCreate settings => create calls settings f s
  | .workerTerminate uid hard => terminate calls uid hard f s
  | .schedulerLoop => loop calls f s
  | _ => ({}, f, s)

/-- The backend over its system calls. -/
def backend (calls : ProcessCalls σ) : Lifecycle.Backend (Fork × σ) :=
  ⟨.process, react calls⟩

end Fork

/-- Exit code of a forked worker whose body panicked. -/
def panicCode : Int32 := 70

end Supervisor.Backend
