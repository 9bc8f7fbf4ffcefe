import Supervisor.Worker.Settings

/-!
# Lifecycle events

What happens to the supervisor and to its workers, as the parts of the supervisor tell one
another.
-/

namespace Supervisor.Lifecycle

/-- Something that happens, or is to happen, in the life of the supervisor or of a worker. -/
inductive Event where
  | kernelStart
  | schedulerStart
  /-- Raised once in every turn of the control loop. -/
  | schedulerLoop
  | schedulerStop
  /-- A worker with these settings is wanted. -/
  | workerCreate (settings : Worker.Settings)
  /-- The backend created a worker and gave it an id. -/
  | workerCreated (uid : WorkerId)
  | workerInit (uid : WorkerId)
  | workerLoop (uid : WorkerId)
  | workerExit (uid : WorkerId)
  /-- A worker is to end, at once if `hard`. -/
  | workerTerminate (uid : WorkerId) (hard : Bool)
  /-- The backend saw a worker end; without a code if there is none to know. -/
  | workerTerminated (uid : WorkerId) (code : Option Int32)
deriving DecidableEq, Repr

/-- The kind of an event, which is what listeners subscribe to. -/
inductive Kind where
  | kernelStart
  | schedulerStart
  | schedulerLoop
  | schedulerStop
  | workerCreate
  | workerCreated
  | workerInit
  | workerLoop
  | workerExit
  | workerTerminate
  | workerTerminated
deriving DecidableEq, Repr

/-- All kinds. -/
def Kind.all : List Kind :=
  [.kernelStart, .schedulerStart, .schedulerLoop, .schedulerStop, .workerCreate, .workerCreated,
    .workerInit, .workerLoop, .workerExit, .workerTerminate, .workerTerminated]

/-- The name of a kind. -/
def Kind.name : Kind → String
  | .kernelStart => "KernelStart"
  | .schedulerStart => "SchedulerStart"
  | .schedulerLoop => "SchedulerLoop"
  | .schedulerStop => "SchedulerStop"
  | .workerCreate => "WorkerCreate"
  | .workerCreated => "WorkerCreated"
  | .workerInit => "WorkerInit"
  | .workerLoop => "WorkerLoop"
  | .workerExit => "WorkerExit"
  | .workerTerminate => "WorkerTerminate"
  | .workerTerminated => "WorkerTerminated"

namespace Event

/-- The kind of an event. -/
def kind : Event → Kind
  | .kernelStart => .kernelStart
  | .schedulerStart => .schedulerStart
  | .schedulerLoop => .schedulerLoop
  | .schedulerStop => .schedulerStop
  | .workerCreate _ => .workerCreate
  | .workerCreated _ => .workerCreated
  | .workerInit _ => .workerInit
  | .workerLoop _ => .workerLoop
  | .workerExit _ => .workerExit
  | .workerTerminate _ _ => .workerTerminate
  | .workerTerminated _ _ => .workerTerminated

/-- The event of a kind, with what of the given things such an event carries. -/
def ofKind (settings : Worker.Settings) (uid : WorkerId) (hard : Bool) (code : Option Int32) :
    Kind → Event
  | .kernelStart => .kernelStart
  | .schedulerStart => .schedulerStart
  | .schedulerLoop => .schedulerLoop
  | .schedulerStop => .schedulerStop
  | .workerCreate => .workerCreate settings
  | .workerCreated => .workerCreated uid
  | .workerInit => .workerInit uid
  | .workerLoop => .workerLoop uid
  | .workerExit => .workerExit uid
  | .workerTerminate => .workerTerminate uid hard
  | .workerTerminated => .workerTerminated uid code

@[simp] theorem kind_ofKind (settings : Worker.Settings) (uid : WorkerId) (hard : Bool)
    (code : Option Int32) (k : Kind) : (ofKind settings uid hard code k).kind = k := by
  cases k <;> rfl

/-- The worker that an event says was created. -/
def created? : Event → Option WorkerId
  | .workerCreated uid => some uid
  | _ => none

end Event

end Supervisor.Lifecycle
