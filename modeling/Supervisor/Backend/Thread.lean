import Supervisor.Lifecycle.Flow

/-!
# Workers on threads

Threads can be neither killed nor signalled.  Every worker has a stop flag that it looks at, and
its end is seen in the control loop.  The ids of workers are running numbers.

What threads do is up to functions over a state of their own.
-/

namespace Supervisor.Backend

open Lifecycle (Event Reaction Listener)

/-- The calls on threads. -/
structure ThreadCalls (σ : Type) where
  /-- Starts a worker on a thread. -/
  start : WorkerId → Worker.Settings → σ → Except Failure Unit × σ
  /-- Raises the stop flag of a worker. -/
  stop : WorkerId → σ → σ
  /-- Whether the thread of a worker has ended, and then its exit code; without a code if the
  worker panicked. -/
  ended? : WorkerId → σ → Option (Option Int32)

/-- What the backend remembers. -/
structure Threads where
  /-- The id of the next worker. -/
  next : WorkerId
  /-- The workers whose end has not been seen. -/
  workers : Table .worker Unit
deriving DecidableEq, Repr

namespace Threads

/-- No worker yet; the first one gets the number one. -/
def empty : Threads := ⟨⟨1⟩, ∅⟩

variable {σ : Type}

/-- Starts a worker. -/
def create (calls : ThreadCalls σ) (settings : Worker.Settings) (t : Threads) (s : σ) :
    Reaction × Threads × σ :=
  match calls.start t.next settings s with
  | (.error failure, s) =>
    ({ failure := some (.spawn failure "failed to start worker thread") }, t, s)
  | (.ok (), s) =>
    ({ emitted := [.workerCreated t.next] },
      ⟨⟨t.next.val + 1⟩, t.workers.insert t.next ()⟩, s)

/-- Asks a worker to stop; one that is already gone is reported. -/
def terminate (calls : ThreadCalls σ) (uid : WorkerId) (t : Threads) (s : σ) :
    Reaction × Threads × σ :=
  if t.workers.contains uid then ({}, t, calls.stop uid s)
  else ({ emitted := [.workerTerminated uid none] }, t, s)

/-- Reports the workers whose threads have ended. -/
def reap (calls : ThreadCalls σ) (t : Threads) (s : σ) : Reaction × Threads × σ :=
  let ends := t.workers.keys.filterMap fun uid => (calls.ended? uid s).map (Event.workerTerminated uid)
  ({ emitted := ends },
    { t with workers := t.workers.filter fun uid _ => (calls.ended? uid s).isNone }, s)

/-- Reacts to an event.  There is no hard way to end a thread, so every way is the same. -/
def react (calls : ThreadCalls σ) : Listener (Threads × σ) := fun e (t, s) =>
  match e with
  | .workerCreate settings => create calls settings t s
  | .workerTerminate uid _ => terminate calls uid t s
  | .schedulerLoop => reap calls t s
  | .schedulerStop => ({}, t, t.workers.keys.foldl (fun s uid => calls.stop uid s) s)
  | _ => ({}, t, s)

/-- The backend over its calls. -/
def backend (calls : ThreadCalls σ) : Lifecycle.Backend (Threads × σ) :=
  ⟨.thread, react calls⟩

end Threads

end Supervisor.Backend
