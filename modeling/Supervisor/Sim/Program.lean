import Supervisor.CommandLine
import Supervisor.Sim.Crew
import Supervisor.Worker.Echo

/-!
# The program on a simulated host

What becomes of a command line on a host where listeners can be opened, but nobody can be reached:
there are files and variables, and workers that wait for the message bus in vain.
-/

namespace Supervisor.Sim.Program

open CommandLine (Report)

/-- What the program finds on its host. -/
structure Surroundings where
  /-- The content of the configuration file, if there is one. -/
  content : Option Wire.Bytes := none
  /-- The variables. -/
  lookup : String → Option String
  pid : Int32
  probe : Int32 → Probe
  /-- What stands at the path of the pid file. -/
  lockFile : Node := .nothing

/-- A host that cannot be reached. -/
def lonely : World :=
  { reachable := false }

/-- How the program ends: its exit code, and what it says about a failure. -/
structure Ending where
  code : UInt32
  report : Option Report := none
deriving DecidableEq, Repr

/-- How a failure ends the program. -/
def Ending.failed (context : Option String) (cause : Error) : Ending :=
  ⟨1, some ⟨context, cause⟩⟩

/-- What can be seen of a pool that served until it was asked to stop. -/
structure Session where
  ending : Ending
  /-- Whether the pid file named the supervisor while it served. -/
  held : Bool
  /-- Whether there is a pid file afterwards. -/
  left : Bool
  /-- Whether a client can still connect afterwards. -/
  reached : Bool

/-- Turns of the control loop until a pool that is asked to stop must have stopped. -/
def turns : Nat := 1000

/-- Serves, and is asked to stop as soon as it does. -/
def serve (x : Surroundings) (config : Config) (listen : Address) : Session :=
  let p := Scene.premises config x.pid x.probe
  match Scheduler.create config with
  | .error e => ⟨.failed none e, false, x.lockFile ≠ .nothing, false⟩
  | .ok scheduler =>
    let (_, scheduler, s) := scheduler.start p ({ lockFile := x.lockFile }, lonely)
    let held := s.1.lockFile.readText? = some (PidLock.claim x.pid)
    let (result, _, s) := scheduler.run p turns ({ s.1 with asked := true }, s.2)
    let ending := match result with
      | .ok _ => ⟨0, none⟩
      | .error e => .failed none e
    ⟨ending, held, s.1.lockFile.readText?.isSome, (s.2.connect listen).1.isOk⟩

/-- Runs a spawned worker, which cannot reach the bus. -/
def work (settings : Worker.Settings) : Except Error Worker.Context :=
  (Worker.connect ⟨World.host, fun _ => false, 0, 0⟩ ⟨1⟩ settings lonely).1

/-- Whether something is logged at a level while a pool serves: workers that cannot reach the bus
complain of an error. -/
def isLogged (level : Log.Level) (settings : Worker.Settings) : Bool :=
  level.admits .error && !(work settings).isOk

/-- Carries out what the arguments ask for. -/
def run (x : Surroundings) (args : List String) : Ending :=
  match CommandLine.parse args with
  | .help | .version => ⟨0, none⟩
  | .misuse => ⟨CommandLine.misuseCode, none⟩
  | .invoke ⟨level, .run path backend listen⟩ =>
    match CommandLine.configure ⟨"/tmp", "supervisor"⟩ level path x.content backend listen with
    | .error r => ⟨1, some r⟩
    | .ok config => (serve x config listen).ending
  | .invoke ⟨_, .worker _⟩ =>
    match CommandLine.workerSettings x.lookup with
    | .error r => ⟨1, some r⟩
    | .ok settings =>
      match work settings with
      | .error e => .failed (some "worker failed") e
      | .ok _ => ⟨0, none⟩

end Supervisor.Sim.Program
