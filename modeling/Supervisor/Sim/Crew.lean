import Supervisor.Scheduler
import Supervisor.Sim.World

/-!
# A pool without workers

A crew is a backend that only pretends: it hands out ids and confirms ends as its plan says.  It
listens to every kind of event and writes down what it hears, the turns of the control loop apart.

`Crew.premises` gathers all a scheduler needs to run such a pool on a simulated host.
-/

namespace Supervisor.Sim

open Lifecycle (Event Kind Reaction Listener)

/-- How workers come to be. -/
inductive Creating where
  /-- Each gets the next number. -/
  | numbered
  /-- All get the same number. -/
  | same
  /-- Nobody is created. -/
  | nobody
  | fail
deriving DecidableEq, Repr

/-- How workers come to their end. -/
inductive Ending where
  | atOnce
  /-- In the next turn of the control loop. -/
  | later
  | never
  | fail
deriving DecidableEq, Repr

/-- What a crew does. -/
structure CrewPlan where
  creating : Creating := .numbered
  ending : Ending := .atOnce
  /-- Kinds of events it fails on. -/
  failsOn : List Kind := []
  /-- Whether it emits something beside the point in every turn. -/
  noise : Bool := false
deriving Repr

/-- A pretended backend. -/
structure Crew where
  plan : CrewPlan := {}
  next : WorkerId := ⟨1000⟩
  /-- Ends to be reported in the next turn. -/
  ends : List (WorkerId × Option Int32) := []
  /-- Whether the next turn asks the scheduler to stop. -/
  stops : Bool := false
  /-- Whether the next turn fails. -/
  loopFails : Bool := false
  /-- What it heard, latest first. -/
  log : List Event := []

namespace Crew

/-- The one failure of a crew. -/
def failure : Reaction :=
  { failure := some (.unsupported "scripted") }

/-- Creates a worker. -/
def create (c : Crew) : Reaction × Crew :=
  match c.plan.creating with
  | .numbered => ({ emitted := [.workerCreated c.next] }, { c with next := ⟨c.next.val + 1⟩ })
  | .same => ({ emitted := [.workerCreated ⟨1000⟩] }, c)
  | .nobody => ({}, c)
  | .fail => (failure, c)

/-- Ends a worker. -/
def terminate (c : Crew) (uid : WorkerId) : Reaction × Crew :=
  match c.plan.ending with
  | .atOnce => ({ emitted := [.workerTerminated uid none] }, c)
  | .later => ({}, { c with ends := c.ends ++ [(uid, none)] })
  | .never => ({}, c)
  | .fail => (failure, c)

/-- One turn of the control loop. -/
def loop (c : Crew) : Reaction × Crew :=
  if c.loopFails then (failure, { c with loopFails := false })
  else
    ({ emitted := c.ends.map (fun (uid, code) => .workerTerminated uid code)
        ++ (if c.stops then [.schedulerStop] else [])
        ++ (if c.plan.noise then [.workerInit ⟨4⟩] else []) },
      { c with ends := [], stops := false })

/-- Reacts to an event. -/
def react : Listener Crew := fun e c =>
  if e = .schedulerLoop then c.loop
  else
    let c := { c with log := e :: c.log }
    if e.kind ∈ c.plan.failsOn then (failure, c)
    else
      match e with
      | .workerCreate _ => c.create
      | .workerTerminate uid _ => c.terminate uid
      | _ => ({}, c)

end Crew

/-- What a scheduler finds around it, the host apart. -/
structure Scene where
  crew : Crew := {}
  /-- What stands at the path of the pid file. -/
  lockFile : Node := .nothing
  /-- Whether the scheduler is asked to stop. -/
  asked : Bool := false
  /-- Decisions to take instead of those of the policy; after them none. -/
  decisions : Option (List Pool.Decision) := none

namespace Scene

/-- The bus with the crew on it. -/
def bus : Lifecycle.Bus (Scene × World) :=
  Lifecycle.Bus.empty.subscribe (Lifecycle.Listener.onFirst fun e scene =>
    let (r, crew) := Crew.react e scene.crew
    (r, { scene with crew })) (Kind.all.map (·, 0))

/-- Decides by script or by policy. -/
def decide (policy : Pool.Policy) (c : Pool.Collection) (now : Millis) (s : Scene × World) :
    Pool.Decision × Scene × World :=
  match s.1.decisions with
  | none => (policy.decide c now, s)
  | some script =>
    (script.headD ⟨0, []⟩, { s.1 with decisions := some (script.drop 1) }, s.2)

/-- All that a scheduler with the pid `own` needs. -/
def premises (config : Config) (own : Int32) (probe : Int32 → Probe) :
    Scheduler.Premises (Scene × World) where
  config := config
  host := World.host.onSecond
  bus := bus
  discipline := decide config.policy
  own := own
  probe _ := probe
  lockFile s := s.1.lockFile
  setLockFile n s := ({ s.1 with lockFile := n }, s.2)
  stopRequested s := s.1.asked

end Scene

end Supervisor.Sim
