import Supervisor.Poll.Reactor
import Supervisor.Sim.World

/-!
# A reactor's user with a list of errands

Whenever the reactor calls, the user writes down the call and does what its errands say for the
selector at hand.  Its main loop ends after a number of ticks, or in a tick that is to fail.
-/

namespace Supervisor.Sim

open Poll (Ops Selector Reactor Handler Host)

/-- One thing to do. -/
inductive Errand where
  | fail
  /-- Drop a stream from the selector. -/
  | remove (id : StreamId)
  | close (id : StreamId)
  /-- Ask for writability of a stream as well. -/
  | watch (id : StreamId)
deriving Repr

/-- A call by the reactor. -/
inductive Call where
  | ready (sel : SelectorId) (found : List (StreamId × Ops))
  | timeout (sel : SelectorId)
  | tick (n : Nat)
deriving Repr

/-- What to do when. -/
structure Errands where
  onReady : List (SelectorId × Errand) := []
  onTimeout : List (SelectorId × Errand) := []
  /-- The tick that fails. -/
  failTick : Option Nat := none
  /-- The tick after which the main loop ends. -/
  stopAfter : Nat := 0

/-- The calls so far, latest first, and the number of ticks among them. -/
structure Diary where
  ticks : Nat := 0
  calls : List Call := []

namespace Errands

variable {α : Type}

/-- Runs errands for a selector, up to the first that fails. -/
def run : List Errand → Selector α → World → Except Error Unit × Selector α × World
  | [], sel, w => (.ok (), sel, w)
  | .fail :: _, sel, w => (.error (.protocol (.custom "handler failed")), sel, w)
  | .remove id :: rest, sel, w =>
    let (sel, w) := sel.discard id World.host w
    run rest sel w
  | .close id :: rest, sel, w => run rest (sel.closeStream id) (w.close id)
  | .watch id :: rest, sel, w => run rest ((sel.reregister id .writing).toOption.getD sel) w

/-- Writes a call down and runs the errands for its selector. -/
def answer (errands : List (SelectorId × Errand)) (id : SelectorId) (call : Call)
    (sel : Selector α) (s : Diary × World) : Except Error Unit × Selector α × Diary × World :=
  let todo := errands.filterMap fun (i, e) => if i = id then some e else none
  let (result, sel, w) := run todo sel s.2
  (result, sel, { s.1 with calls := call :: s.1.calls }, w)

/-- The user as the reactor sees it. -/
def handler (e : Errands) : Handler α (Diary × World) where
  onReady id sel :=
    answer e.onReady id (.ready id (sel.selectionKeys.map fun k => (k.stream.id, k.ready))) sel
  onTimeout id := answer e.onTimeout id (.timeout id)
  onTick r s :=
    let n := s.1.ticks + 1
    let s := (⟨n, .tick n :: s.1.calls⟩, s.2)
    if e.failTick = some n then (.error (.unsupported "tick failed"), r, s)
    else (.ok (), { r with terminating := r.terminating || e.stopAfter ≤ n }, s)

end Errands

end Supervisor.Sim
