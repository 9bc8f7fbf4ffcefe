import Supervisor.Error
import Supervisor.Table
import Supervisor.Worker.Record

/-!
# The scheduler's view of its workers

A bounded table of status records.  A worker stays in the table from its creation until the
backend confirms its end; one that was stopped is only marked terminated and keeps its place.
Reports move a record along the status machine and never change when it was created.
-/

namespace Supervisor.Pool

open Supervisor.Worker (Record)

/-- The records of all workers, at most `max` of them. -/
structure Collection where
  max : Nat
  workers : Table .worker Record
deriving DecidableEq, Repr

namespace Collection

/-- A collection without workers. -/
def empty (max : Nat) : Collection := ⟨max, ∅⟩

/-- Number of workers, those marked terminated included. -/
def size (c : Collection) : Nat :=
  c.workers.size

/-- The record of a worker. -/
def find? (c : Collection) (uid : WorkerId) : Option Record :=
  c.workers.find? uid

/-- The ids of all workers, ascending. -/
def uids (c : Collection) : List WorkerId :=
  c.workers.keys

/-- The records of the workers that could take a task, by ascending id. -/
def idle (c : Collection) : List Record :=
  c.workers.values.filter (·.status.isIdle)

/-- Starts to track a worker, or replaces the record of one that is tracked. -/
def insert (c : Collection) (r : Record) : Except Error Collection :=
  if c.workers.contains r.uid ∨ c.size < c.max then
    .ok { c with workers := c.workers.insert r.uid r }
  else
    .error (.poolFull c.max)

/-- Takes over a status report.  The reported status must be reachable from the recorded one;
reports of workers already marked terminated change nothing. -/
def update (c : Collection) (report : Record) : Except Error Collection :=
  match c.find? report.uid with
  | none => .error (.protocol .unknownWorker)
  | some r =>
    if r.status = .terminated then .ok c
    else if r.status.canBecome report.status then
      .ok { c with workers := c.workers.insert report.uid { report with createdAt := r.createdAt } }
    else .error (.invalidTransition report.uid r.status report.status)

/-- Marks a worker terminated, ahead of the backend's confirmation. -/
def markTerminated (c : Collection) (uid : WorkerId) (now : Millis) : Collection :=
  { c with workers := c.workers.modify uid fun r => (r.setStatus? .terminated now).getD r }

/-- Forgets a worker. -/
def remove (c : Collection) (uid : WorkerId) : Collection :=
  { c with workers := c.workers.erase uid }

/-- Forgets all workers. -/
def clear (c : Collection) : Collection :=
  empty c.max

end Collection

end Supervisor.Pool
