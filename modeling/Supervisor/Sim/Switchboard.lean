import Supervisor.Sim.Errands
import Supervisor.Sim.Workbench

/-!
# A reactor by hand

A switchboard holds a reactor, a workbench, and selectors that the reactor does not observe yet.
Those have names; observed selectors have ids.
-/

namespace Supervisor.Sim

open Poll (Selector Reactor Ops)

/-- A reactor with all that can be plugged into it. -/
structure Switchboard (α : Type) where
  bench : Workbench
  reactor : Reactor α
  /-- The selectors that are not observed. -/
  named : List (String × Selector α) := []

namespace Switchboard

variable {α : Type}

/-- Gives a selector a name, in place of the one that had it. -/
def name (x : Switchboard α) (name : String) (sel : Selector α) : Switchboard α :=
  { x with named := (name, sel) :: x.named.filter (·.1 ≠ name) }

/-- The selector with a name, or else the observed one with an id. -/
def find? (x : Switchboard α) (name : String) (id : SelectorId) : Option (Selector α) :=
  (x.named.lookup name).or (x.reactor.selector? id)

/-- Replaces the selector that `find?` finds. -/
def put (x : Switchboard α) (name : String) (id : SelectorId) (sel : Selector α) :
    Switchboard α :=
  if (x.named.lookup name).isSome then x.name name sel
  else { x with reactor := x.reactor.setSelector id sel }

/-- Has the reactor observe a selector; its name is free then. -/
def observe (x : Switchboard α) (name : String) (timeout : Duration) :
    Option (SelectorId × Switchboard α) :=
  (x.named.lookup name).map fun sel =>
    let (id, reactor) := x.reactor.observe sel timeout x.bench.world.clock
    (id, { x with reactor, named := x.named.filter (·.1 ≠ name) })

/-- Takes a selector from the reactor and gives it a name. -/
def unregister (x : Switchboard α) (name : String) (id : SelectorId) :
    Except Error (Selector α × Switchboard α) :=
  (x.reactor.unregister id).map fun (sel, reactor) => (sel, { x with reactor }.name name sel)

/-- How the reactor is run. -/
inductive Running where
  | tick
  /-- A tick for a user who cares for readiness only. -/
  | plainTick
  | mainLoop
deriving DecidableEq, Repr

/-- Runs the reactor under scripted polls.  The number of streams that were handled, and what the
user wrote down. -/
def run (x : Switchboard α) (how : Running) (errands : Errands) (scripts : List Scripted) :
    Except Error Nat × List Call × Switchboard α :=
  let host := World.host.onSecond
  let start : Diary × World := ({}, { x.bench.world with script := some scripts, polls := [] })
  let (total, reactor, diary, world) := match how with
    | .tick => x.reactor.tick host errands.handler start
    | .plainTick => x.reactor.tick host { onReady _ sel s := (.ok (), sel, s) } start
    | .mainLoop =>
      let (r, x) := Reactor.mainLoop host errands.handler (errands.stopAfter + 1) x.reactor start
      (r.map fun _ => 0, x)
  (total, diary.calls.reverse, { x with bench := { x.bench with world }, reactor })

end Switchboard

end Supervisor.Sim
