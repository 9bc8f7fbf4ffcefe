import Supervisor.Duration

/-!
# Log lines

A log line starts with the wall-clock time, the process and the thread, because workers share the
standard error of the supervisor.
-/

namespace Supervisor.Log

/-- How much is logged; every level includes those before it. -/
inductive Level where
  | off
  | error
  | warn
  | info
  | debug
  | trace
deriving DecidableEq, Repr

namespace Level

/-- All levels, from the fewest lines to the most. -/
def all : List Level :=
  [.off, .error, .warn, .info, .debug, .trace]

/-- The name of a level. -/
def name : Level → String
  | .off => "off"
  | .error => "error"
  | .warn => "warn"
  | .info => "info"
  | .debug => "debug"
  | .trace => "trace"

/-- The level with a name. -/
def ofName? (name : String) : Option Level :=
  all.find? (·.name == name)

/-- Whether lines of level `l` are logged under the level `limit`. -/
def admits (limit l : Level) : Bool :=
  all.idxOf l ≤ all.idxOf limit && l ≠ .off

@[simp] theorem ofName?_name (l : Level) : ofName? l.name = some l := by
  cases l <;> rfl

end Level

/-- Pads a text to a width, on the left or on the right. -/
def padding (width : Nat) (fill : Char) (text : String) : String :=
  String.ofList (List.replicate (width - text.length) fill)

/-- The line of a record: seconds and milliseconds since the epoch, process and thread, the level
padded to five characters, the part of the program that speaks, and what it says. -/
def line (time : Millis) (process thread : UInt32) (level : Level) (target text : String) :
    String :=
  let fraction := toString (time.toNat % 1000)
  let name := level.name.toUpper
  toString (time.toNat / 1000) ++ "." ++ padding 3 '0' fraction ++ fraction ++ " "
    ++ toString process.toNat ++ "/" ++ toString thread.toNat ++ " "
    ++ name ++ padding 5 ' ' name ++ " " ++ target ++ ": " ++ text ++ "\n"

end Supervisor.Log
