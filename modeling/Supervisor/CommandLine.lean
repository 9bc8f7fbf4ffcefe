import Supervisor.Config.Basic
import Supervisor.Log
import Supervisor.Worker.Settings

/-!
# The command line

```text
[--log-level LEVEL] run [--config FILE] [--backend KIND] [--listen ADDRESS]
[--log-level LEVEL] worker --listen ADDRESS
```

`run` supervises a pool of workers that serve a line echo protocol; `worker` is what the spawning
backend starts.  The level may also follow the command.  Arguments are read from left to right,
and the first one that asks for help or cannot be right decides.
-/

namespace Supervisor.CommandLine

/-- What is to be done. -/
inductive Command where
  | run (config : Option String) (backend : Option Config.BackendKind) (listen : Address)
  | worker (listen : Address)
deriving DecidableEq, Repr

/-- A command with its log level. -/
structure Invocation where
  level : Log.Level
  command : Command
deriving DecidableEq, Repr

/-- What the arguments ask for. -/
inductive Request where
  | invoke (i : Invocation)
  | help
  | version
  /-- The arguments make no sense. -/
  | misuse
deriving DecidableEq, Repr

/-- The commands, as words. -/
inductive Verb where
  | run
  | worker
deriving DecidableEq, Repr

/-- The options, all of which take a value. -/
inductive Flag where
  | level
  | config
  | backend
  | listen
deriving DecidableEq, Repr

/-- The long form of an option. -/
def Flag.long : Flag → String
  | .level => "log-level"
  | .config => "config"
  | .backend => "backend"
  | .listen => "listen"

/-- The short form of an option. -/
def Flag.short? : Flag → Option Char
  | .level => some 'l'
  | .config => some 'c'
  | .backend => some 'b'
  | .listen => none

/-- The options that a command knows. -/
def flags : Option Verb → List Flag
  | none => [.level]
  | some .run => [.level, .config, .backend, .listen]
  | some .worker => [.level, .listen]

/-- What was read so far. -/
structure Given where
  verb : Option Verb := none
  /-- The options that were given since the command. -/
  seen : List Flag := []
  level : Log.Level := .info
  config : Option String := none
  backend : Option Config.BackendKind := none
  listen : Option Address := none
deriving DecidableEq, Repr

namespace Given

/-- Takes the value of an option, if the value is one. -/
def put? (g : Given) (value : String) : Flag → Option Given
  | .level => (Log.Level.ofName? value).map fun level => { g with level }
  | .config => if value.isEmpty then none else some { g with config := some value }
  | .backend =>
    ([("fork", .fork), ("spawn", .spawn), ("thread", .thread)].lookup value).map
      fun kind => { g with backend := some kind }
  | .listen => (Address.ofText? value).map fun a => { g with listen := some a }

/-- Takes an option, which may be given once. -/
def take? (g : Given) (flag : Flag) (value : String) : Option Given :=
  if flag ∈ g.seen then none else { g with seen := flag :: g.seen }.put? value flag

/-- Where clients are expected if nobody says otherwise. -/
def standardListen : Address := .v4 ⟨127, 0, 0, 1⟩ 7070

/-- What was asked for, now that all arguments are read. -/
def request (g : Given) : Request :=
  match g.verb, g.listen with
  | none, _ | some .worker, none => .misuse
  | some .worker, some listen => .invoke ⟨g.level, .worker listen⟩
  | some .run, listen =>
    .invoke ⟨g.level, .run g.config g.backend (listen.getD standardListen)⟩

end Given

/-- How one argument reads. -/
inductive Word where
  | help
  | version
  /-- An option, maybe with its value. -/
  | option (flag : Flag) (value : Option String)
  /-- Ends the options. -/
  | escape
  | plain (text : String)
  | unknown
deriving DecidableEq, Repr

/-- The value that follows the name of a long option, if one does. -/
def attached : List Char → Option String
  | '=' :: value => some (String.ofList value)
  | _ => none

/-- The value that follows a short option in the same argument, if one does. -/
def joined : List Char → Option String
  | [] => none
  | '=' :: value => some (String.ofList value)
  | value => some (String.ofList value)

/-- Reads one argument among the options of a command. -/
def Word.ofArgument (verb : Option Verb) (arg : String) : Word :=
  match arg.toList with
  | ['-', '-'] => .escape
  | '-' :: '-' :: rest =>
    let name := String.ofList (rest.takeWhile (· ≠ '='))
    let value := attached (rest.dropWhile (· ≠ '='))
    if name = "help" then if value.isSome then .unknown else .help
    else if name = "version" ∧ verb = none then if value.isSome then .unknown else .version
    else match (flags verb).find? (·.long = name) with
      | some flag => .option flag value
      | none => .unknown
  | '-' :: c :: rest =>
    if c = 'h' then .help
    else if c = 'V' ∧ verb = none then .version
    else match (flags verb).find? (·.short? = some c) with
      | some flag => .option flag (joined rest)
      | none => .unknown
  | _ => .plain arg

/-- Whether an argument can be the value of the option before it. -/
def isValue (arg : String) : Bool :=
  arg = "-" || !arg.startsWith "-"

/-- What follows the word `help`: nothing, or the name of a command. -/
def helpOn : List String → Request
  | [] | ["run"] | ["worker"] | ["help"] => .help
  | _ => .misuse

/-- Reads arguments from left to right. -/
def read (g : Given) : List String → Request
  | [] => g.request
  | arg :: rest =>
    match Word.ofArgument g.verb arg with
    | .help => .help
    | .version => .version
    | .unknown => .misuse
    | .escape => if rest.isEmpty then g.request else .misuse
    | .option flag (some value) =>
      match g.take? flag value with
      | some g => read g rest
      | none => .misuse
    | .option flag none =>
      match rest with
      | [] => .misuse
      | value :: rest =>
        match if isValue value then g.take? flag value else none with
        | some g => read g rest
        | none => .misuse
    | .plain text =>
      if g.verb.isSome then .misuse
      else if text = "run" then read { g with verb := some .run, seen := [] } rest
      else if text = "worker" then read { g with verb := some .worker, seen := [] } rest
      else if text = "help" then helpOn rest
      else .misuse

/-- Reads the arguments of the program. -/
def parse (args : List String) : Request :=
  read {} args

/-! ## Failures -/

/-- Why a command failed, and what it was about. -/
structure Report where
  context : Option String
  cause : Error
deriving DecidableEq, Repr

/-- The text of a report. -/
def Report.text (r : Report) : String :=
  match r.context with
  | none => "Error: " ++ r.cause.message
  | some context => "Error: " ++ context ++ "\n\nCaused by:\n    " ++ r.cause.message

/-- The configuration of a pool: what the file says, if one is given, with the backend of the
command line, and with workers that serve where the command line says. -/
def configure (host : Config.HostPaths) (level : Log.Level) (path : Option String)
    (content : Option Wire.Bytes) (backend : Option Config.BackendKind) (listen : Address) :
    Except Report Config :=
  let loaded : Except Report Config := match path with
    | none => .ok (Config.standard host)
    | some path =>
      match Config.load host content with
      | .ok config => .ok config
      | .error e => .error ⟨some ("failed to load configuration " ++ path), e⟩
  loaded.map fun config =>
    { config with
      backend := backend.getD config.backend
      launch.args := ["--log-level", level.name, "worker", "--listen", listen.text] }

/-- The settings of a spawned worker. -/
def workerSettings (lookup : String → Option String) : Except Report Worker.Settings :=
  match Worker.Settings.fromVariables lookup with
  | .ok settings => .ok settings
  | .error e => .error ⟨some "worker failed", e⟩

/-- The exit code after a misuse of the command line. -/
def misuseCode : UInt32 := 2

end Supervisor.CommandLine
