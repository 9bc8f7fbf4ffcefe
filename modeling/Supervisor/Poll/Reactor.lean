import Supervisor.Poll.Selector

/-!
# The reactor

A reactor observes selectors and polls all their streams in one call.  In every tick each selector
gets what the poll reported for its own streams; its user is told when any of them is ready, and
when none has been ready for longer than the selector's timeout.

Ticks are at most one interval apart, counted from the end of the last poll.
-/

namespace Supervisor.Poll

/-- A selector under observation. -/
structure Observed (α : Type) where
  id : SelectorId
  selector : Selector α
  /-- How long it may stay without readiness before its user is told. -/
  timeout : Duration
  /-- When it was last ready, or its user last told. -/
  lastReady : Duration

/-- Observed selectors and the state of the loop. -/
structure Reactor (α : Type) where
  observed : List (Observed α)
  nextId : Nat
  interval : Duration
  /-- When the last poll ended. -/
  lastTick : Option Duration
  /-- Whether the loop is to end. -/
  terminating : Bool

/-- What the user of a reactor does.  All callbacks work on one state, which also holds the
host. -/
structure Handler (α σ : Type) where
  onReady : SelectorId → Selector α → σ → Except Error Unit × Selector α × σ
  onTimeout : SelectorId → Selector α → σ → Except Error Unit × Selector α × σ :=
    fun _ sel s => (.ok (), sel, s)
  onTick : Reactor α → σ → Except Error Unit × Reactor α × σ := fun r s => (.ok (), r, s)

namespace Reactor

variable {α σ : Type}

/-- The interval of a reactor that is given none. -/
def standardInterval : Duration := .ofSeconds 1

/-- A reactor that observes nothing. -/
def empty (interval : Duration) : Reactor α := ⟨[], 1, interval, none, false⟩

/-- Starts to observe a selector. -/
def observe (r : Reactor α) (selector : Selector α) (timeout now : Duration) :
    SelectorId × Reactor α :=
  let id : SelectorId := ⟨r.nextId.toUInt64⟩
  (id, { r with
    observed := r.observed ++ [⟨id, selector, timeout, now⟩], nextId := r.nextId + 1 })

/-- An observed selector. -/
def selector? (r : Reactor α) (id : SelectorId) : Option (Selector α) :=
  (r.observed.find? (·.id = id)).map (·.selector)

/-- Replaces an observed selector. -/
def setSelector (r : Reactor α) (id : SelectorId) (selector : Selector α) : Reactor α :=
  { r with observed := r.observed.map fun o => if o.id = id then { o with selector } else o }

/-- Stops to observe a selector and hands it back. -/
def unregister (r : Reactor α) (id : SelectorId) : Except Error (Selector α × Reactor α) :=
  match r.selector? id with
  | none => .error (.unknownSelector id)
  | some selector => .ok (selector, { r with observed := r.observed.filter (·.id ≠ id) })

/-- The keys of all observed selectors. -/
def keys (r : Reactor α) : List (Key α) :=
  r.observed.flatMap (·.selector.keys.values)

/-- How long the next poll may take. -/
def waitBudget (r : Reactor α) (now : Duration) : Duration :=
  match r.lastTick with
  | none => .zero
  | some last => r.interval - (now - last)

/-- Hands one observed selector what the poll reported, and tells its user. -/
def serve (handler : Handler α σ) (now : Duration) (report : StreamId → Readiness)
    (o : Observed α) (s : σ) : Except Error Nat × Observed α × σ :=
  let selector := o.selector.applyReadiness (o.selector.pollEntries.map (·.id)) report
  let count := selector.ready.length
  if 0 < count then
    let (result, selector, s) := handler.onReady o.id selector s
    (result.map fun () => count, { o with selector, lastReady := now }, s)
  else if o.timeout ≤ now - o.lastReady then
    let (result, selector, s) := handler.onTimeout o.id selector s
    (result.map fun () => count, { o with selector, lastReady := now }, s)
  else (.ok count, { o with selector }, s)

/-- Serves selectors in order; a failure leaves those behind it unserved. -/
def serveAll (handler : Handler α σ) (now : Duration) (report : StreamId → Readiness) :
    List (Observed α) → σ → Except Error Nat × List (Observed α) × σ
  | [], s => (.ok 0, [], s)
  | o :: rest, s =>
    match serve handler now report o s with
    | (.error e, o, s) => (.error e, o :: rest, s)
    | (.ok count, o, s) =>
      let (result, rest, s) := serveAll handler now report rest s
      (result.map (count + ·), o :: rest, s)

/-- The outcome of polling merged entries: with nothing to poll the time is slept away, and an
interrupted poll reports nothing. -/
def pollMerged (host : Host σ) (entries : List PollEntry) (budget : Duration) (s : σ) :
    Except Error (StreamId → Readiness) × σ :=
  if entries.isEmpty then (.ok fun _ => {}, host.sleep budget s)
  else
    match host.poll entries (some budget) s with
    | (.reported report, s) => (.ok report, s)
    | (.interrupted, s) => (.ok fun _ => {}, s)
    | (.failed failure, s) => (.error (.io failure "select failed"), s)

/-- Polls once and serves all selectors.  The number of ready streams. -/
def tick (r : Reactor α) (host : Host σ) (handler : Handler α σ) (s : σ) :
    Except Error Nat × Reactor α × σ :=
  let budget := r.waitBudget (host.clock s)
  let observed := r.observed.map fun o => { o with selector := o.selector.pruneClosed }
  let r := { r with observed }
  let entries := observed.flatMap fun o => o.selector.pollEntries
  match pollMerged host entries budget s with
  | (.error e, s) => (.error e, r, s)
  | (.ok report, s) =>
    let now := host.clock s
    let (result, observed, s) := serveAll handler now report observed s
    (result, { r with observed, lastTick := some now }, s)

/-- One turn of the main loop: a tick and the end of the tick.  Whether the loop goes on. -/
def turn (r : Reactor α) (host : Host σ) (handler : Handler α σ) (s : σ) :
    Except Error Bool × Reactor α × σ :=
  match r.tick host handler s with
  | (.error e, r, s) => (.error e, r, s)
  | (.ok _, r, s) =>
    let (result, r, s) := handler.onTick r s
    (result.map fun () => !r.terminating, r, s)

/-- Turns until the loop is to end, at most `turns` times.  Whether it ended. -/
def mainLoop (host : Host σ) (handler : Handler α σ) :
    Nat → Reactor α → σ → Except Error Bool × Reactor α × σ
  | 0, r, s => (.ok false, r, s)
  | turns + 1, r, s =>
    match r.turn host handler s with
    | (.error e, r, s) => (.error e, r, s)
    | (.ok true, r, s) => mainLoop host handler turns r s
    | (.ok false, r, s) => (.ok true, r, s)

end Reactor

end Supervisor.Poll
