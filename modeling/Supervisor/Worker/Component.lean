import Supervisor.Poll.Reactor
import Supervisor.Worker.Loop

/-!
# Message components

A component serves clients that connect to a worker.  It never sees a stream: it gets a
connection, to which it writes and which it may ask to close.  What it writes is queued, and the
queue is written out before the connection closes, unless the stream itself fails.

`Component.service` runs a component as the service of a worker.  Every worker has a listener of
its own on the shared address of the service.  A step is one tick of a reactor; it completes a
task if a connection was closed in it, and is busy as long as connections are open.
-/

namespace Supervisor.Worker

open Wire (Bytes ReadEvent)
open Poll (Host Selector Reactor AcceptEvent)

/-- A client connection as a component sees it. -/
structure Connection where
  id : StreamId
  /-- Bytes that are still to be written. -/
  outbound : Bytes := []
  /-- Whether it closes as soon as everything is written. -/
  closing : Bool := false
deriving DecidableEq, Repr

namespace Connection

/-- Queues bytes for the client. -/
def write (c : Connection) (b : Bytes) : Connection :=
  { c with outbound := c.outbound ++ b }

/-- Closes the connection once everything is written. -/
def close (c : Connection) : Connection :=
  { c with closing := true }

end Connection

/-- A protocol, as callbacks over a state of its own. -/
structure Component (γ : Type) where
  onOpen : Connection → γ → Except Error Unit × Connection × γ
  onMessage : Connection → Bytes → γ → Except Error Unit × Connection × γ
  onClose : Connection → γ → γ
  onError : Connection → Error → γ → Connection × γ
  /-- Called for every open connection after a while without traffic. -/
  onHeartbeat : Connection → γ → Connection × γ := fun c g => (c, g)

/-- A component at work on the streams of its selector. -/
structure Desk (γ σ : Type) where
  selector : Selector Connection
  component : γ
  /-- Connections closed in this tick. -/
  closed : Nat
  world : σ

namespace Desk

variable {γ σ : Type}

/-- Replaces the connection of a stream. -/
def setConnection (d : Desk γ σ) (c : Connection) : Desk γ σ :=
  { d with selector := d.selector.modify c.id fun key => { key with attachment := some c } }

/-- Says goodbye to a connection and closes its stream. -/
def finish (p : Component γ) (host : Host σ) (d : Desk γ σ) (c : Connection) : Desk γ σ :=
  let component := p.onClose c d.component
  let (selector, world) := d.selector.discard c.id host d.world
  { selector, component, closed := d.closed + 1, world }

/-- Makes readiness for writing of interest exactly while bytes are left. -/
def adjust (d : Desk γ σ) (c : Connection) (watched : Bool) : Desk γ σ :=
  if !c.outbound.isEmpty && !watched then
    match d.selector.reregister c.id .writing with
    | .ok selector => { d with selector }
    | .error _ => d
  else if c.outbound.isEmpty && watched then
    match d.selector.unregister c.id .writing with
    | .ok (selector, _) => { d with selector }
    | .error _ => d
  else d

/-- Writes what the connection takes, then closes it or keeps it. -/
def settle (p : Component γ) (host : Host σ) (d : Desk γ σ) (id : StreamId) (stays : Bool) :
    Desk γ σ :=
  match d.selector.keys.find? id with
  | none => d
  | some key =>
    match key.attachment with
    | none => d
    | some c =>
      if !stays then d.finish p host c
      else
        let (flushed, world) := key.stream.write c.outbound host d.world
        let c := { c with outbound := flushed.rest }
        match flushed.failure with
        | some failure =>
          let (c, component) := p.onError c (.io failure "client write failed") d.component
          ({ d with component, world }.setConnection c).finish p host c
        | none =>
          let d := { d with world }.setConnection c
          if c.closing && c.outbound.isEmpty then d.finish p host c
          else d.adjust c key.interest.write

/-- Hands what read calls deliver to the component, one message a call, and stops after a message
that it fails on.  The number of calls, and whether the connection stays. -/
def hear (p : Component γ) : List ReadEvent → Connection → γ → (Nat × Bool) × Connection × γ
  | [], c, g => ((0, true), c, g)
  | .wouldBlock :: _, c, g => ((1, true), c, g)
  | .interrupted :: rest, c, g =>
    let ((calls, stays), r) := hear p rest c g
    ((calls + 1, stays), r)
  | .failed failure :: _, c, g =>
    let (c, g) := p.onError c (.io failure "client read failed") g
    ((1, false), c, g)
  | .data [] :: _, c, g => ((1, false), c, g)
  | .data (b :: bs) :: rest, c, g =>
    match p.onMessage c (b :: bs) g with
    | (.error e, c, g) =>
      let (c, g) := p.onError c e g
      ((1, true), c.close, g)
    | (.ok (), c, g) =>
      let ((calls, stays), r) := hear p rest c g
      ((calls + 1, stays), r)

/-- Reads what has arrived on a connection.  Whether it stays. -/
def read (p : Component γ) (host : Host σ) (d : Desk γ σ) (id : StreamId) : Bool × Desk γ σ :=
  match d.selector.keys.find? id with
  | none => (false, d)
  | some key =>
    match key.attachment with
    | none => (false, d)
    | some c =>
      let events := match key.stream.transferFailure? with
        | some failure => [.failed failure]
        | none => host.incoming id d.world
      let ((calls, stays), c, component) := hear p events c d.component
      (stays, { d with component, world := host.consume id calls d.world }.setConnection c)

/-- Opens accepted connections.  A failing accept ends this without harm. -/
def enroll (p : Component γ) (host : Host σ) :
    List AcceptEvent → Desk γ σ → Except Error Unit × Desk γ σ
  | .connection id :: rest, d =>
    let (result, c, component) := p.onOpen { id } d.component
    let (c, component) := match result with
      | .ok () => (c, component)
      | .error e =>
        let (c, component) := p.onError c e component
        (c.close, component)
    match d.selector.register { id, kind := .socket } .reading (some c) with
    | .error e => (.error e, d)
    | .ok selector => enroll p host rest ({ d with selector, component }.settle p host id true)
  | _, d => (.ok (), d)

/-- Accepts all connections that wait. -/
def accept (p : Component γ) (host : Host σ) (listener : StreamId) (d : Desk γ σ) :
    Except Error Unit × Desk γ σ :=
  match d.selector.keys.find? listener with
  | none => (.error (.unknownStream listener), d)
  | some key =>
    let (events, world) := key.stream.accept host d.world
    enroll p host events { d with world }

/-- Handles streams that were ready, up to a failure. -/
def serveAll (p : Component γ) (host : Host σ) (listener : StreamId) :
    List StreamId → Desk γ σ → Except Error Unit × Desk γ σ
  | [], d => (.ok (), d)
  | id :: rest, d =>
    if id = listener then
      match d.accept p host listener with
      | (.error e, d) => (.error e, d)
      | (.ok (), d) => serveAll p host listener rest d
    else
      let readable := (d.selector.keys.find? id).any (·.ready.read)
      let (stays, d) := if readable then d.read p host id else (true, d)
      serveAll p host listener rest (d.settle p host id stays)

/-- Gives one connection its heartbeat. -/
def beat (p : Component γ) (host : Host σ) (d : Desk γ σ) (id : StreamId) : Desk γ σ :=
  match (d.selector.keys.find? id).bind (·.attachment) with
  | none => d.settle p host id true
  | some c =>
    let (c, component) := p.onHeartbeat c d.component
    ({ d with component }.setConnection c).settle p host id true

/-- Says goodbye to all connections and closes all streams. -/
def shut (p : Component γ) (host : Host σ) (listener : StreamId) (d : Desk γ σ) : Desk γ σ :=
  d.selector.keys.keys.foldl (fun d id =>
    let component := match (d.selector.keys.find? id).bind (·.attachment) with
      | some c => if id = listener then d.component else p.onClose c d.component
      | none => d.component
    let (selector, world) := d.selector.discard id host d.world
    { d with selector, component, world }) d

end Desk

namespace Component

variable {γ σ : Type}

/-- The streams of a component, while it serves. -/
structure Front where
  reactor : Reactor Connection
  selector : SelectorId
  listener : StreamId

/-- A component and what it serves with. -/
structure Serving (γ : Type) where
  component : γ
  /-- Where clients find it. -/
  address : Address
  /-- Longest wait in one step. -/
  tick : Duration := .ofMillis 10
  /-- Time without traffic before a heartbeat. -/
  heartbeat : Duration := .ofSeconds 5
  front : Option Front := none

/-- The callbacks for one tick, over the component, the number of closed connections and the
world. -/
def handler (p : Component γ) (host : Host σ) (listener : StreamId) :
    Poll.Handler Connection ((γ × Nat) × σ) where
  onReady _ selector s :=
    let (r, d) := Desk.serveAll p host listener selector.ready ⟨selector, s.1.1, s.1.2, s.2⟩
    (r, d.selector, (d.component, d.closed), d.world)
  onTimeout _ selector s :=
    let ids := selector.keys.keys.filter (· ≠ listener)
    let d := ids.foldl (Desk.beat p host) ⟨selector, s.1.1, s.1.2, s.2⟩
    (.ok (), d.selector, (d.component, d.closed), d.world)

/-- Starts to listen. -/
def start (host : Host σ) (c : Context) (v : Serving γ) (s : σ) :
    Except Error Unit × Context × Serving γ × σ :=
  let failed (failure : Failure) (s : σ) : Except Error Unit × Context × Serving γ × σ :=
    (.error (.io failure "failed to bind service listener"), c, v, s)
  if !v.address.isV4 then failed ⟨.other, "only IPv4 listeners support port reuse"⟩ s
  else
    match host.bind v.address true s with
    | (.error failure, s) => failed failure s
    | (.ok (listener, address), s) =>
      match Selector.empty.register { id := listener, kind := .listener } .accepting none with
      | .error e => (.error e, c, v, s)
      | .ok selector =>
        let (id, reactor) := (Reactor.empty v.tick).observe selector v.heartbeat (host.clock s)
        (.ok (), c.describe ("serving " ++ address.text),
          { v with front := some ⟨reactor, id, listener⟩ }, s)

/-- One tick. -/
def step (p : Component γ) (host : Host σ) (v : Serving γ) (s : σ) :
    Except Error Step × Serving γ × σ :=
  match v.front with
  | none => (.ok .idle, v, s)
  | some f =>
    let (result, reactor, (component, closed), s) :=
      f.reactor.tick host.onSecond (handler p host f.listener) ((v.component, 0), s)
    let v := { v with component, front := some { f with reactor } }
    match result with
    | .error e => (.error e, v, s)
    | .ok _ =>
      let streams := ((reactor.selector? f.selector).map (·.keys.size)).getD 0
      (.ok (if 0 < closed then .finished else if 1 < streams then .busy else .idle), v, s)

/-- Closes everything. -/
def stop (p : Component γ) (host : Host σ) (v : Serving γ) (s : σ) : Serving γ × σ :=
  match v.front with
  | none => (v, s)
  | some f =>
    let v := { v with front := none }
    match f.reactor.unregister f.selector with
    | .error _ => (v, s)
    | .ok (selector, _) =>
      let d := Desk.shut p host f.listener ⟨selector, v.component, 0, s⟩
      ({ v with component := d.component }, d.world)

/-- A component as the service of a worker. -/
def service (p : Component γ) (host : Host σ) : Service (Serving γ × σ) where
  start c s := start host c s.1 s.2
  step c s :=
    let (r, v, s) := step p host s.1 s.2
    (r, c, v, s)
  stop c s := (c, stop p host s.1 s.2)

end Component

end Supervisor.Worker
