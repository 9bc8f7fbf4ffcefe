import Supervisor.Backend.Fork

/-!
# Listeners and processes that follow a script

A listener that follows a script keeps a list of rules, each for one kind of event, and applies
the first one that is not used up.  All scripted listeners of a bus share one stage, which logs
whom an event reached.

Scripted processes answer system calls from queues, whatever the calls ask for.
-/

namespace Supervisor.Sim

open Lifecycle (Event Kind Reaction Listener)

/-- What a listener does about events of one kind. -/
structure Rule where
  kind : Kind
  emit : List Event := []
  stop : Bool := false
  failure : Option Error := none
  /-- How often the rule can be applied; without a number there is no end to it. -/
  uses : Option Nat := none
deriving Repr

/-- Whether a rule applies to a kind of event. -/
def Rule.applies (r : Rule) (kind : Kind) : Bool :=
  r.kind = kind && r.uses ≠ some 0

/-- Rules after one of them was applied to a kind of event. -/
def useRule (kind : Kind) : List Rule → List Rule
  | [] => []
  | r :: rest =>
    if r.applies kind then { r with uses := r.uses.map (· - 1) } :: rest
    else r :: useRule kind rest

/-- A listener with its script. -/
structure Player where
  name : String
  rules : List Rule
deriving Repr

/-- All players of a bus and whom events reached, latest first. -/
structure Stage where
  players : List Player := []
  log : List (String × Event) := []

/-- The listener of the player with this number. -/
def Stage.listener (n : Nat) : Listener Stage := fun e stage =>
  match stage.players[n]? with
  | none => ({}, stage)
  | some p =>
    let log := (p.name, e) :: stage.log
    match p.rules.find? (·.applies e.kind) with
    | none => ({}, { stage with log })
    | some r =>
      ({ emitted := r.emit, stop := r.stop, failure := r.failure },
        { players := stage.players.set n { p with rules := useRule e.kind p.rules }, log })

/-- Adds a player; its listener has the number of players before it. -/
def Stage.enter (stage : Stage) (p : Player) : Listener Stage × Stage :=
  (Stage.listener stage.players.length, { stage with players := stage.players ++ [p] })

/-! ## Processes -/

/-- One answer to the question which child ended. -/
inductive Reaped where
  | child (pid : Int32) (code : Option Int32)
  /-- The call fails. -/
  | failure
deriving Repr

/-- The answers that system calls will get, and the signals sent so far, latest first. -/
structure Processes where
  forks : List (Option Int32) := []
  kills : List Backend.Delivered := []
  reaps : List Reaped := []
  parent : Int32 := 0
  signals : List (Int32 × Backend.Signal) := []

namespace Processes

/-- Reaps by the answers in the queue. -/
def reapFrom (s : Processes) : List Reaped → Backend.Reaping Processes
  | [] => .nobody { s with reaps := [] }
  | .failure :: rest => .failed { s with reaps := rest }
  | .child pid code :: rest => .child pid code (reapFrom s rest)

/-- System calls that take their answers from the queues.  Without an answer left, forking fails,
signals arrive and no child has ended. -/
def calls : Backend.ProcessCalls Processes where
  fork _ s :=
    match s.forks with
    | some pid :: rest => (.ok pid, { s with forks := rest })
    | _ => (.error ⟨.other, "no process"⟩, { s with forks := s.forks.drop 1 })
  kill pid signal s :=
    (s.kills.headD .sent,
      { s with kills := s.kills.drop 1, signals := (pid, signal) :: s.signals })
  reap s := reapFrom s s.reaps
  parent s := s.parent

end Processes

end Supervisor.Sim
