import Supervisor.Address
import Supervisor.Config.Json
import Supervisor.Error
import Supervisor.Pool.Policy
import Supervisor.Wire.Bytes

/-!
# Configuration of a supervisor

A configuration is read from a JSON text; fields that are not given take their defaults.  Limits
that no policy could satisfy are refused by `validate`.  Two defaults come from the host: the
directory for temporary files and the program's own image.
-/

namespace Supervisor.Config

/-- How workers are isolated from the supervisor. -/
inductive BackendKind where
  /-- Forked copies of the supervisor's process. -/
  | fork
  /-- Processes started from a program image. -/
  | spawn
  /-- Threads of the supervisor's process. -/
  | thread
deriving DecidableEq, Repr

/-- The name of a kind of backend. -/
def BackendKind.name : BackendKind → String
  | .fork => "Fork"
  | .spawn => "Spawn"
  | .thread => "Thread"

/-- The program that a spawning backend starts. -/
structure Launch where
  program : String
  args : List String
deriving DecidableEq, Repr

/-- What happens to envelopes without a recipient. -/
structure Requeue where
  /-- Most envelopes that wait; beyond it the oldest are dropped. -/
  maxQueued : Nat
  /-- How long an envelope may wait, in milliseconds. -/
  ttlMillis : Nat
deriving DecidableEq, Repr

/-- How long an envelope may wait. -/
def Requeue.ttl (r : Requeue) : Duration :=
  .ofMillis r.ttlMillis

/-- At most 1024 envelopes, for at most half a minute. -/
def Requeue.standard : Requeue := ⟨1024, 30000⟩

/-- What the host provides as defaults. -/
structure HostPaths where
  /-- The directory for temporary files. -/
  temporary : String
  /-- The image of the running program. -/
  image : String
deriving DecidableEq, Repr

end Config

/-- Configuration of one supervisor. -/
structure Config where
  service : String
  /-- Workers created at the start. -/
  startWorkers : Nat
  maxWorkers : Nat
  minSpare : Nat
  maxSpare : Nat
  /-- Seconds that a worker may idle while there are more idle ones than `minSpare`. -/
  idleSeconds : Nat
  /-- Tasks after which a worker exits, zero for no limit. -/
  maxTasks : Nat
  /-- Where the pid file lies. -/
  directory : String
  /-- Where the message bus listens. -/
  address : Address
  backend : Config.BackendKind
  launch : Config.Launch
  tickMillis : Nat
  workerTickMillis : Nat
  shutdownMillis : Nat
  requeue : Config.Requeue
deriving DecidableEq, Repr

namespace Config

/-- The configuration without any field given. -/
def standard (host : HostPaths) : Config where
  service := "herd"
  startWorkers := 4
  maxWorkers := 8
  minSpare := 2
  maxSpare := 4
  idleSeconds := 10
  maxTasks := 0
  directory := host.temporary
  address := .loopback
  backend := .fork
  launch := ⟨host.image, ["worker"]⟩
  tickMillis := 1000
  workerTickMillis := 100
  shutdownMillis := 5000
  requeue := .standard

/-- The fields, in the order in which an array gives them. -/
def fieldNames : List String :=
  ["service_name", "start_processes", "max_processes", "min_spare_processes",
    "max_spare_processes", "process_idle_timeout", "max_process_tasks", "ipc_directory",
    "ipc_address", "backend", "spawn", "tick_interval_ms", "worker_tick_ms",
    "shutdown_timeout_ms", "requeue"]

def BackendKind.ofJson? : Json → Option BackendKind :=
  Json.choice? [("fork", .fork), ("spawn", .spawn), ("thread", .thread)]

def Launch.ofJson? (standard : Launch) (j : Json) : Option Launch := do
  let given ← j.fields? ["program", "args"]
  let program ← Json.field? given "program" standard.program Json.text?
  let args ← Json.field? given "args" standard.args Json.texts?
  return { program, args }

def Requeue.ofJson? (j : Json) : Option Requeue := do
  let given ← j.fields? ["max_queued", "ttl_ms"]
  let maxQueued ← Json.field? given "max_queued" standard.maxQueued Json.word?
  let ttlMillis ← Json.field? given "ttl_ms" standard.ttlMillis Json.word?
  return { maxQueued, ttlMillis }

/-- Reads a configuration from a JSON value. -/
def ofJson? (host : HostPaths) (j : Json) : Option Config := do
  let std := standard host
  let given ← j.fields? fieldNames
  let service ← Json.field? given "service_name" std.service Json.text?
  let startWorkers ← Json.field? given "start_processes" std.startWorkers Json.word?
  let maxWorkers ← Json.field? given "max_processes" std.maxWorkers Json.word?
  let minSpare ← Json.field? given "min_spare_processes" std.minSpare Json.word?
  let maxSpare ← Json.field? given "max_spare_processes" std.maxSpare Json.word?
  let idleSeconds ← Json.field? given "process_idle_timeout" std.idleSeconds Json.word?
  let maxTasks ← Json.field? given "max_process_tasks" std.maxTasks Json.word?
  let directory ← Json.field? given "ipc_directory" std.directory Json.text?
  let address ← Json.field? given "ipc_address" std.address fun j => j.text?.bind Address.ofText?
  let backend ← Json.field? given "backend" std.backend BackendKind.ofJson?
  let launch ← Json.field? given "spawn" std.launch (Launch.ofJson? std.launch)
  let tickMillis ← Json.field? given "tick_interval_ms" std.tickMillis Json.word?
  let workerTickMillis ← Json.field? given "worker_tick_ms" std.workerTickMillis Json.word?
  let shutdownMillis ← Json.field? given "shutdown_timeout_ms" std.shutdownMillis Json.word?
  let requeue ← Json.field? given "requeue" std.requeue Requeue.ofJson?
  return {
    service, startWorkers, maxWorkers, minSpare, maxSpare, idleSeconds, maxTasks, directory,
    address, backend, launch, tickMillis, workerTickMillis, shutdownMillis, requeue }

/-- Reads a configuration from a JSON text. -/
def ofText? (host : HostPaths) (s : String) : Option Config :=
  (Json.ofText? s).bind (ofJson? host)

/-- The wording of "one limit exceeds another". -/
def exceeds (name : String) (n : Nat) (bound : String) (m : Nat) : Error :=
  .config (name ++ " (" ++ toString n ++ ") exceeds " ++ bound ++ " (" ++ toString m ++ ")")

/-- Refuses limits that no policy could satisfy. -/
def validate (c : Config) : Except Error Unit :=
  if c.service.isEmpty then .error (.config "service_name must not be empty")
  else if c.maxWorkers = 0 then .error (.config "max_processes must be at least 1")
  else if c.maxWorkers < c.startWorkers then
    .error (exceeds "start_processes" c.startWorkers "max_processes" c.maxWorkers)
  else if c.maxSpare < c.minSpare then
    .error (exceeds "min_spare_processes" c.minSpare "max_spare_processes" c.maxSpare)
  else if c.maxWorkers < c.minSpare then
    .error (exceeds "min_spare_processes" c.minSpare "max_processes" c.maxWorkers)
  else if c.tickMillis = 0 then .error (.config "tick_interval_ms must be at least 1")
  else .ok ()

/-- A configuration file that cannot be read. -/
def unread (failure : Failure) : Except Error Config :=
  .error (.io failure "failed to read configuration")

/-- Reads the content of a configuration file, if there is one. -/
def read (host : HostPaths) (content : Option Wire.Bytes) : Except Error Config :=
  match content, content.bind Wire.text? with
  | none, _ => unread ⟨.notFound, "No such file or directory (os error 2)"⟩
  | _, none => unread ⟨.other, "stream did not contain valid UTF-8"⟩
  | _, some s =>
    match ofText? host s with
    | none => .error (.config "not a configuration")
    | some c => .ok c

/-- Reads and validates the content of a configuration file. -/
def load (host : HostPaths) (content : Option Wire.Bytes) : Except Error Config := do
  let c ← read host content
  c.validate
  return c

/-- A path inside a directory; an absolute path stands for itself. -/
def joinPath (directory path : String) : String :=
  if path.startsWith "/" then path
  else if directory.isEmpty ∨ directory.endsWith "/" then directory ++ path
  else directory ++ "/" ++ path

/-- Where the pid file lies. -/
def pidPath (c : Config) : String :=
  joinPath c.directory (c.service ++ ".pid")

def idleTimeout (c : Config) : Duration := .ofSeconds c.idleSeconds
def tickInterval (c : Config) : Duration := .ofMillis c.tickMillis
def workerTick (c : Config) : Duration := .ofMillis c.workerTickMillis
def shutdownTimeout (c : Config) : Duration := .ofMillis c.shutdownMillis

/-- The scaling policy that a configuration asks for. -/
def policy (c : Config) : Pool.Policy :=
  ⟨c.minSpare, c.maxSpare, c.maxWorkers, c.idleTimeout⟩

end Config

end Supervisor
