import Supervisor.CommandLine
import Supervisor.Worker.Loop

/-!
# The program

Reads the command line, the configuration and the environment.  Processes and sockets are not to
be had on this platform, so that is as far as a command gets.
-/

namespace Supervisor

open CommandLine (Request Command Report)

/-- How the program is used. -/
def usage : String :=
  "Supervise a pool of workers serving a line echo protocol\n\n"
    ++ "Usage: herd [OPTIONS] <COMMAND>\n\n"
    ++ "Commands:\n"
    ++ "  run   Start the scheduler and serve until SIGTERM or SIGINT\n"
    ++ "  help  Print this message or the help of the given subcommand(s)\n\n"
    ++ "Options:\n"
    ++ "  -l, --log-level <LOG_LEVEL>  [default: info] [possible values: off, error, warn, info, "
    ++ "debug, trace]\n"
    ++ "  -h, --help                   Print help\n"
    ++ "  -V, --version                Print version\n"

/-- Prints why a command failed.  The exit code. -/
def fail (r : Report) : IO UInt32 := do
  IO.eprintln r.text
  return 1

/-- The content of a file, if it can be read. -/
def contentOf (path : String) : IO (Option Wire.Bytes) := do
  try
    let content ← IO.FS.readBinFile path
    return some content.data.toList
  catch _ => return none

/-- The values of the variables that hand settings to a worker. -/
def environment : IO (List (String × String)) := do
  let names := [Worker.Settings.addressVariable, Worker.Settings.serviceVariable,
    Worker.Settings.maxTasksVariable, Worker.Settings.tickVariable]
  let mut found := []
  for name in names do
    if let some value ← IO.getEnv name then
      found := (name, value) :: found
  return found

/-- Carries out a command. -/
def execute (i : CommandLine.Invocation) : IO UInt32 := do
  match i.command with
  | .worker _ =>
    let found ← environment
    match CommandLine.workerSettings (found.lookup ·) with
    | .error r => fail r
    | .ok _ => fail ⟨some "worker failed", .unsupported "workers need sockets"⟩
  | .run path backend listen =>
    let content ← match path with
      | some path => contentOf path
      | none => pure none
    let image ← IO.appPath
    match CommandLine.configure ⟨"/tmp", image.toString⟩ i.level path content backend listen with
    | .error r => fail r
    | .ok _ => fail ⟨none, .unsupported "the scheduler needs sockets"⟩

end Supervisor

open Supervisor in
def main (args : List String) : IO UInt32 := do
  match CommandLine.parse args with
  | .help =>
    IO.print usage
    return 0
  | .version =>
    IO.println "herd 0.1.0"
    return 0
  | .misuse =>
    IO.eprint usage
    return CommandLine.misuseCode
  | .invoke i => execute i
