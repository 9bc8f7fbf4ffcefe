import Supervisor.Pool.Collection

/-!
# The scaling policy

How many idle workers the pool keeps ready.  With too few, new ones are created as far as there is
room; workers marked terminated take up room until their end is confirmed.  With enough, the idle
workers are retired in the order in which they last changed their status: first those above the
upper bound, then those that have idled for too long, never going below the lower bound.
-/

namespace Supervisor.Pool

open Supervisor.Worker (Record)

/-- What a policy wants done. -/
structure Decision where
  create : Nat
  terminate : List WorkerId
deriving DecidableEq, Repr, Inhabited

/-- Keeps the number of idle workers between two bounds. -/
structure Policy where
  /-- Fewest idle workers. -/
  minSpare : Nat
  /-- Most idle workers. -/
  maxSpare : Nat
  /-- Most workers of any state. -/
  max : Nat
  /-- How long a worker may idle. -/
  idleTimeout : Duration
deriving DecidableEq, Repr

/-- Whether `r` is retired before `s`: the one that changed its status earlier, then the one with
the smaller id. -/
def retiredBefore (r s : Record) : Bool :=
  r.changedAt < s.changedAt || r.changedAt == s.changedAt && r.uid.val ≤ s.uid.val

namespace Policy

/-- Goes through idle workers in order and picks those that idle too long, as long as more than
`minSpare` of the `remaining` ones are left. -/
def expired (p : Policy) (now : Millis) : Nat → List Record → List Record
  | _, [] => []
  | remaining, r :: rest =>
    if remaining ≤ p.minSpare then []
    else if p.idleTimeout < r.timeInStatus now then r :: p.expired now (remaining - 1) rest
    else p.expired now remaining rest

/-- What to do with a collection of workers at `now`. -/
def decide (p : Policy) (c : Collection) (now : Millis) : Decision :=
  let idle := c.idle
  if idle.length < p.minSpare then
    { create := min (p.minSpare - idle.length) (p.max - c.size), terminate := [] }
  else
    let order := idle.mergeSort retiredBefore
    let excess := idle.length - p.maxSpare
    let late := p.expired now (idle.length - excess) (order.drop excess)
    { create := 0, terminate := (order.take excess ++ late).map (·.uid) }

end Policy

/-- Tracks freshly created workers, one after the other.  Yields the outcome for each. -/
def Collection.adopt (c : Collection) : List Record → Collection × List (Except Error Unit)
  | [] => (c, [])
  | r :: rest =>
    match c.insert r with
    | .ok c' =>
      let (c', outcomes) := c'.adopt rest
      (c', .ok () :: outcomes)
    | .error e =>
      let (c', outcomes) := c.adopt rest
      (c', .error e :: outcomes)

/-- Marks workers terminated, each at its own time. -/
def Collection.retire (c : Collection) (uids : List WorkerId) (clock : WorkerId → Millis) :
    Collection :=
  uids.foldl (fun c uid => c.markTerminated uid (clock uid)) c

/-- Carries a decision out: tracks the created workers under the given ids and marks the retired
ones terminated. -/
def Collection.apply (c : Collection) (d : Decision) (fresh : List WorkerId) (now : Millis) :
    Collection × List (Except Error Unit) :=
  let created := (fresh.take d.create).map fun uid =>
    { uid, changedAt := now, createdAt := now : Record }
  let (c, outcomes) := c.adopt created
  (c.retire d.terminate fun _ => now, outcomes)

end Supervisor.Pool
