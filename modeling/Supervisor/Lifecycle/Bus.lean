import Supervisor.Lifecycle.Event

/-!
# The lifecycle bus

Listeners subscribe to kinds of events, each with a priority.  Raising an event runs the handlers
of its kind in descending priority, those of equal priority in the order of their subscription.
A handler may emit follow-up events, stop the propagation of the event at hand, or fail.

Follow-ups are dispatched breadth first: those of one event, in the order of handlers and
emissions, after its whole chain and before the follow-ups of any later event.  `raise` returns
them in that order.  The first failure ends the cascade, and so does the follow-up after the
`cascadeLimit`-th.

Listeners are functions over a state that the bus threads through them, so a listener may keep
whatever it needs and two listeners may share it.
-/

namespace Supervisor.Lifecycle

/-- How a listener reacts to an event. -/
structure Reaction where
  /-- Follow-up events, in order. -/
  emitted : List Event := []
  /-- Whether the remaining handlers of the event are skipped. -/
  stop : Bool := false
  /-- The failure that ends the cascade. -/
  failure : Option Error := none
deriving Repr

/-- A listener over a state. -/
abbrev Listener (σ : Type) := Event → σ → Reaction × σ

/-- A listener over one component of a pair. -/
def Listener.onFirst {σ τ : Type} (l : Listener σ) : Listener (σ × τ) := fun e s =>
  let (r, a) := l e s.1
  (r, a, s.2)

/-- A listener over the other component of a pair. -/
def Listener.onSecond {σ τ : Type} (l : Listener τ) : Listener (σ × τ) := fun e s =>
  let (r, b) := l e s.2
  (r, s.1, b)

/-- A subscription of one listener to one kind. -/
structure Handler where
  /-- The number of the listener, in the order of subscription. -/
  listener : Nat
  priority : Int32
deriving DecidableEq, Repr

/-- Whether `a` may run before `b`. -/
def Handler.before (a b : Handler) : Bool :=
  b.priority ≤ a.priority

/-- Listeners and, for every kind, the chain of its handlers. -/
structure Bus (σ : Type) where
  listeners : List (Listener σ)
  chains : Kind → List Handler

namespace Bus

variable {σ : Type}

/-- How many follow-ups one raised event may cause. -/
def cascadeLimit : Nat := 1024

/-- A bus without listeners. -/
def empty : Bus σ := ⟨[], fun _ => []⟩

/-- Adds a handler to the chain of a kind. -/
def enrol (chains : Kind → List Handler) (kind : Kind) (h : Handler) : Kind → List Handler :=
  fun k => if k = kind then (chains k ++ [h]).mergeSort Handler.before else chains k

/-- Subscribes a listener to kinds, each with a priority; the listener's number is the number of
listeners before it. -/
def subscribe (b : Bus σ) (l : Listener σ) (kinds : List (Kind × Int32)) : Bus σ :=
  { listeners := b.listeners ++ [l]
    chains := kinds.foldl
      (fun chains (kind, priority) => enrol chains kind ⟨b.listeners.length, priority⟩) b.chains }

/-- Number of handlers of a kind. -/
def handlers (b : Bus σ) (kind : Kind) : Nat :=
  (b.chains kind).length

/-- Runs handlers on an event, in order.  Yields what they emitted. -/
def runChain (b : Bus σ) (e : Event) : List Handler → σ → Except Error (List Event) × σ
  | [], s => (.ok [], s)
  | h :: rest, s =>
    match b.listeners[h.listener]? with
    | none => b.runChain e rest s
    | some l =>
      let (r, s) := l e s
      match r.failure with
      | some error => (.error error, s)
      | none =>
        if r.stop then (.ok r.emitted, s)
        else
          let (later, s) := b.runChain e rest s
          (later.map (r.emitted ++ ·), s)

/-- Dispatches one event to the chain of its kind. -/
def dispatch (b : Bus σ) (e : Event) (s : σ) : Except Error (List Event) × σ :=
  b.runChain e (b.chains e.kind) s

/-- Dispatches queued events and what they cause, as long as there is room for follow-ups. -/
def cascade (b : Bus σ) : Nat → List Event → σ → Except Error (List Event) × σ
  | _, [], s => (.ok [], s)
  | 0, e :: _, s =>
    match b.dispatch e s with
    | (.error error, s) => (.error error, s)
    | (.ok _, s) => (.error (.protocol .endlessCascade), s)
  | room + 1, e :: queue, s =>
    match b.dispatch e s with
    | (.error error, s) => (.error error, s)
    | (.ok emitted, s) =>
      let (later, s) := b.cascade room (queue ++ emitted) s
      (later.map (e :: ·), s)

/-- Dispatches an event and all follow-ups it causes, which are returned in the order in which
they were dispatched. -/
def raise (b : Bus σ) (e : Event) (s : σ) : Except Error (List Event) × σ :=
  match b.dispatch e s with
  | (.error error, s) => (.error error, s)
  | (.ok emitted, s) => b.cascade cascadeLimit emitted s

end Bus

end Supervisor.Lifecycle
