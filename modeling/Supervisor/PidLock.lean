import Supervisor.Blank
import Supervisor.Error
import Supervisor.Wire.Bytes

/-!
# The pid lock

A file that names the process which runs a service.  A process takes the lock by writing its pid
into the file, unless the file names another process that is alive; files of dead processes and
files that hold no pid are replaced.  Releasing removes the file, once.

The path is seen as a `Node`: what stands at it, and so what reading, writing and removing do.
-/

namespace Supervisor

/-- What stands at a path. -/
inductive Node where
  | nothing
  /-- The directory that should hold the path does not exist. -/
  | noParent
  | directory
  | file (content : Wire.Bytes)
deriving DecidableEq, Repr

namespace Node

/-- The text of a file, if it can be read as one. -/
def readText? : Node → Option String
  | .file content => Wire.text? content
  | _ => none

/-- Writes a text, over the file that stands there. -/
def write (n : Node) (text : String) : Except Failure Node :=
  match n with
  | .nothing | .file _ => .ok (.file (Wire.utf8 text))
  | .noParent => .error ⟨.notFound, "No such file or directory"⟩
  | .directory => .error ⟨.other, "Is a directory"⟩

/-- Removes a file. -/
def remove (n : Node) : Except Failure Node :=
  match n with
  | .file _ => .ok .nothing
  | .nothing | .noParent => .error ⟨.notFound, "No such file or directory"⟩
  | .directory => .error ⟨.other, "Is a directory"⟩

end Node

/-- What probing a process with the null signal tells. -/
inductive Probe where
  | present
  /-- There is a process, but it may not be signalled. -/
  | forbidden
  | absent
deriving DecidableEq, Repr

/-- Whether a process exists.  Numbers that are not positive name no single process. -/
def isAlive (probe : Int32 → Probe) (pid : Int32) : Bool :=
  0 < pid && probe pid ≠ .absent

/-- A claim on a pid file. -/
structure PidLock where
  released : Bool
deriving DecidableEq, Repr

namespace PidLock

/-- The pid that a file's text names. -/
def owner? (text : String) : Option Int32 :=
  (Decimal.signed? (Int32.size / 2) (trimBlank text.toList)).map Int32.ofInt

/-- The text by which a process claims the file. -/
def claim (own : Int32) : String :=
  toString own.toInt ++ "\n"

/-- The other process, if any, that holds the lock. -/
def holder? (own : Int32) (probe : Int32 → Probe) (n : Node) : Option Int32 :=
  (n.readText?.bind owner?).filter fun pid => pid ≠ own ∧ isAlive probe pid

/-- Takes the lock for the process `own`. -/
def acquire (own : Int32) (probe : Int32 → Probe) (n : Node) : Except Error PidLock × Node :=
  match holder? own probe n with
  | some pid => (.error (.alreadyRunning pid), n)
  | none =>
    match n.write (claim own) with
    | .ok n => (.ok ⟨false⟩, n)
    | .error failure => (.error (.io failure "failed to write pid file"), n)

/-- Gives the lock up and removes the file.  A second release does nothing, and a file that is
already gone is fine. -/
def release (l : PidLock) (n : Node) : Except Error Unit × PidLock × Node :=
  if l.released then (.ok (), l, n)
  else
    match n.remove with
    | .ok n => (.ok (), ⟨true⟩, n)
    | .error failure =>
      if failure.kind = .notFound then (.ok (), ⟨true⟩, n)
      else (.error (.io failure "failed to remove pid file"), ⟨true⟩, n)

/-- Forgets the lock, which releases it. -/
def dispose (l : PidLock) (n : Node) : Node :=
  (l.release n).2.2

/-- Takes the lock for a process that may hold it already; the lock it held is forgotten once the
new one is taken. -/
def renew (own : Int32) (probe : Int32 → Probe) (held : Option PidLock) (n : Node) :
    Except Error PidLock × Node :=
  match acquire own probe n, held with
  | (.ok l, n), some held => (.ok l, held.dispose n)
  | r, _ => r

end PidLock

end Supervisor
