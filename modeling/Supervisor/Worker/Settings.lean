import Supervisor.Address
import Supervisor.Decimal
import Supervisor.Error

/-!
# Settings of a worker

What a worker has to know, whatever its isolation: the service it runs, where the bus listens, how
many tasks it may finish and how long it waits for messages.  Spawned workers get their settings
through four environment variables; `fromVariables` reads what `toVariables` writes.
-/

namespace Supervisor.Worker

structure Settings where
  service : String
  address : Address
  /-- Tasks after which the worker exits, zero for no limit. -/
  maxTasks : UInt64
  /-- Longest wait for a message. -/
  tick : Duration
deriving DecidableEq, Repr

namespace Settings

def addressVariable : String := "HERD_IPC_ADDR"
def serviceVariable : String := "HERD_SERVICE"
def maxTasksVariable : String := "HERD_MAX_TASKS"
def tickVariable : String := "HERD_WORKER_TICK_MS"

/-- A variable that must be there. -/
def required (lookup : String → Option String) (name : String) : Except Error String :=
  match lookup name with
  | some value => .ok value
  | none => .error (.config (name ++ " is not set"))

/-- The meaning of a variable's value. -/
def meaning {α : Type} (name : String) : Option α → Except Error α
  | some v => .ok v
  | none => .error (.config (name ++ " is malformed"))

/-- A 64-bit number that a variable may give. -/
def number (lookup : String → Option String) (name : String) (default : Nat) : Except Error Nat :=
  match lookup name with
  | none => .ok default
  | some value => meaning name (Decimal.unsigned? UInt64.size value.toList)

/-- Reads settings from variables.  Service and address must be given. -/
def fromVariables (lookup : String → Option String) : Except Error Settings := do
  let service ← required lookup serviceVariable
  let address ← meaning addressVariable (Address.ofText? (← required lookup addressVariable))
  let maxTasks ← number lookup maxTasksVariable 0
  let tick ← number lookup tickVariable 100
  return { service, address, maxTasks := maxTasks.toUInt64, tick := .ofMillis tick }

/-- The variables that hand settings on. -/
def toVariables (s : Settings) : List (String × String) :=
  [(addressVariable, s.address.text), (serviceVariable, s.service),
    (maxTasksVariable, toString s.maxTasks.toNat), (tickVariable, toString s.tick.toMillis)]

end Settings

end Supervisor.Worker
