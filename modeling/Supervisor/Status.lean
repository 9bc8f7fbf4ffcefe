/-!
# Worker status

The five states of a worker and the moves between them:

```text
new → waiting ⇄ running → exiting        waiting → exiting        any → terminated
```

A worker may repeat its state (the report then only carries fresh counters).  `terminated` is
open to every state, because the scheduler marks a worker terminated when it stops it, possibly
before the worker's first report; it is never left again.
-/

namespace Supervisor

/-- State of a worker. -/
inductive Status where
  | new
  | waiting
  | running
  | terminated
  | exiting
deriving DecidableEq, Repr, Inhabited

namespace Status

/-- All states, in the order of their wire numbers. -/
def all : List Status :=
  [.new, .waiting, .running, .terminated, .exiting]

/-- The state's name in messages. -/
def name : Status → String
  | .new => "New"
  | .waiting => "Waiting"
  | .running => "Running"
  | .terminated => "Terminated"
  | .exiting => "Exiting"

/-- The numeric status code. -/
def code : Status → UInt8
  | .new => 0
  | .waiting => 1
  | .running => 2
  | .terminated => 4
  | .exiting => 8

/-- The state behind a numeric status code. -/
def ofCode? : UInt8 → Option Status
  | 0 => some .new
  | 1 => some .waiting
  | 2 => some .running
  | 4 => some .terminated
  | 8 => some .exiting
  | _ => none

/-- Whether a worker in state `s` may move to state `t`. -/
def canBecome (s t : Status) : Bool :=
  match s, t with
  | .terminated, _ => false
  | _, .terminated => true
  | .new, .new | .waiting, .waiting | .running, .running | .exiting, .exiting => true
  | .new, .waiting => true
  | .waiting, .running | .running, .waiting => true
  | .waiting, .exiting | .running, .exiting => true
  | _, _ => false

/-- Whether a worker in this state could pick up work. -/
def isIdle : Status → Bool
  | .new | .waiting => true
  | _ => false

@[simp] theorem ofCode?_code (s : Status) : ofCode? s.code = some s := by
  cases s <;> rfl

@[simp] theorem canBecome_terminated_left (t : Status) : canBecome .terminated t = false := rfl

theorem canBecome_terminated_right {s : Status} (h : s ≠ .terminated) :
    canBecome s .terminated = true := by
  cases s <;> first | rfl | exact absurd rfl h

end Status

end Supervisor
