import Supervisor.Lifecycle.Bus
import Supervisor.Pool.Collection

/-!
# Worker transitions over the lifecycle bus

Creating, stopping and watching workers by raising events on the bus.  A backend is a listener
that does the actual work and answers with follow-ups: `workerCreated` for a creation,
`workerTerminated` for every end it sees.
-/

namespace Supervisor.Lifecycle

/-- Whether workers share the supervisor's address space. -/
inductive Isolation where
  | process
  | thread
deriving DecidableEq, Repr

/-- The name of a degree of isolation. -/
def Isolation.name : Isolation → String
  | .process => "Process"
  | .thread => "Thread"

/-- A strategy to run workers. -/
structure Backend (σ : Type) where
  isolation : Isolation
  react : Listener σ

/-- What every backend listens to. -/
def Backend.subscriptions : List (Kind × Int32) :=
  [(.kernelStart, 0), (.workerCreate, 0), (.workerLoop, 0), (.workerTerminate, 0),
    (.schedulerStart, 0), (.schedulerLoop, 0), (.schedulerStop, 0)]

/-- A bus with a backend on it. -/
def Backend.attach {σ : Type} (b : Backend σ) : Bus σ :=
  Bus.empty.subscribe b.react subscriptions

/-- A backend is the one handler of whatever it listens to. -/
theorem Backend.chains_attach {σ : Type} (b : Backend σ) (kind : Kind) :
    b.attach.chains kind = if kind ∈ subscriptions.map Prod.fst then [⟨0, 0⟩] else [] := by
  cases kind <;> simp [attach, Bus.subscribe, Bus.enrol, Bus.empty, subscriptions]

namespace Bus

variable {σ : Type}

/-- Asks for one worker.  There is none if the creation failed or nobody reported one; a failure
of its initialization is not held against it. -/
def startWorker (b : Bus σ) (settings : Worker.Settings) (s : σ) : Option WorkerId × σ :=
  match b.raise (.workerCreate settings) s with
  | (.error _, s) => (none, s)
  | (.ok emitted, s) =>
    match emitted.findSome? Event.created? with
    | none => (none, s)
    | some uid =>
      let (_, s) := b.raise (.workerInit uid) s
      (some uid, s)

/-- Marks a worker terminated and asks for its end.  It stays in the collection until the backend
confirms that it is gone. -/
def stopWorker (b : Bus σ) (uid : WorkerId) (hard : Bool) (now : Millis) (c : Pool.Collection)
    (s : σ) : Except Error (List Event) × Pool.Collection × σ :=
  let (result, s) := b.raise (.workerTerminate uid hard) s
  (result, c.markTerminated uid now, s)

end Bus

end Supervisor.Lifecycle
