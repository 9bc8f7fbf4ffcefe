import Supervisor.Double
import Supervisor.Duration
import Supervisor.Id
import Supervisor.Status
import Supervisor.Wire.Reader

/-!
# Status records

Who a worker is and what it is doing.  The scheduler owns the authoritative record of every
worker; a worker keeps its own copy and pushes it to the scheduler in status messages.  The clock
is an argument of the operations that look at it.
-/

namespace Supervisor.Worker

/-- Identity and status of one worker. -/
structure Record where
  /-- Process of the worker; the scheduler's own for a worker that is a thread. -/
  process : UInt32 := 0
  /-- Kernel thread that runs the worker. -/
  thread : UInt32 := 0
  /-- The worker's id on the message bus. -/
  uid : WorkerId := ⟨0⟩
  /-- Name of the service the worker runs. -/
  service : String := ""
  status : Status := .new
  /-- When the status last changed. -/
  changedAt : Millis := 0
  /-- When the worker was created. -/
  createdAt : Millis := 0
  /-- Tasks finished since the worker started. -/
  tasks : UInt64 := 0
  /-- Tasks per second since the worker started. -/
  rate : Double := .zero
  /-- User and system time consumed, in microseconds. -/
  userTime : UInt64 := 0
  systemTime : UInt64 := 0
  /-- What the worker says it is doing. -/
  description : String := ""
deriving DecidableEq, Repr, Inhabited

namespace Record

/-- The record of a worker created at `now` by `process`. -/
def create (process : UInt32) (uid : WorkerId) (service : String) (now : Millis) : Record :=
  { process, uid, service, changedAt := now, createdAt := now }

/-- Moves to `next` if the status machine allows it; the time is stamped when the status really
changes. -/
def setStatus? (r : Record) (next : Status) (now : Millis) : Option Record :=
  if r.status.canBecome next then
    some { r with status := next, changedAt := if r.status = next then r.changedAt else now }
  else
    none

/-- Time since the worker was created. -/
def age (r : Record) (now : Millis) : Duration :=
  now.since r.createdAt

/-- Time since the status last changed. -/
def timeInStatus (r : Record) (now : Millis) : Duration :=
  now.since r.changedAt

/-- Counts one finished task.  The rate is refreshed unless the worker has no age yet. -/
def finishTask (r : Record) (now : Millis) : Record :=
  let tasks := r.tasks + 1
  let age := r.age now
  if 0 < age.nanos then
    { r with tasks, rate := .ofFloat (tasks.toFloat / age.seconds) }
  else
    { r with tasks }

/-- Numeric equality of two records: all fields agree, and the rates agree as numbers. -/
def equals (r s : Record) : Bool :=
  decide ({ r with rate := .zero } = { s with rate := .zero }) && r.rate.equals s.rate

/-! ## On the wire -/

/-- The fields in order, without separators. -/
def write (r : Record) : Wire.Bytes :=
  Wire.varint r.process.toNat
    ++ Wire.varint r.thread.toNat
    ++ Wire.varint r.uid.val.toNat
    ++ Wire.writeText r.service
    ++ Wire.varint (Status.all.idxOf r.status)
    ++ Wire.varint r.changedAt.toNat
    ++ Wire.varint r.createdAt.toNat
    ++ Wire.varint r.tasks.toNat
    ++ Wire.writeFixed64 r.rate.bits
    ++ Wire.varint r.userTime.toNat
    ++ Wire.varint r.systemTime.toNat
    ++ Wire.writeText r.description

/-- Reads the fields in order. -/
def read : Wire.Reader Record := do
  let process ← Wire.Reader.word32
  let thread ← Wire.Reader.word32
  let uid ← Wire.Reader.word64
  let service ← Wire.Reader.text
  let status ← Wire.Reader.oneOf Status.all
  let changedAt ← Wire.Reader.word64
  let createdAt ← Wire.Reader.word64
  let tasks ← Wire.Reader.word64
  let rate ← Wire.Reader.fixed64
  let userTime ← Wire.Reader.word64
  let systemTime ← Wire.Reader.word64
  let description ← Wire.Reader.text
  return {
    process, thread, uid := ⟨uid⟩, service, status, changedAt, createdAt, tasks,
    rate := ⟨rate⟩, userTime, systemTime, description }

end Record

end Supervisor.Worker
