import Supervisor.Bus.Plan
import Supervisor.Config.Basic
import Supervisor.Poll.Selector
import Supervisor.Wire.FrameBuffer
import Supervisor.Wire.Handshake
import Supervisor.Wire.Payload

/-!
# The broker of the message bus

The broker accepts connections, learns from a handshake which worker is behind each of them, and
passes envelopes between workers and the scheduler.  It keeps the state of routing only
(`Routing`); the streams live in a selector, with one `Peer` attached to every connection.

Envelopes queue up until the next routing pass, which gives each of them one fate: the inbox of
the scheduler, the connections of its recipients, another wait, or none.  A worker speaks for
itself alone: whatever its frames claim, their sender is the worker of the handshake.

What a connection does not take at once is kept and written when the connection is ready for it.
A connection with too much of that is cut off, as are those that break the protocol.
-/

namespace Supervisor.Bus

open Wire (Bytes FrameBuffer)
open Poll (Stream Selector Host Ops AcceptEvent)

/-- What the broker knows of one connection. -/
structure Peer where
  /-- The worker behind it, after the handshake. -/
  uid : Option WorkerId := none
  reader : FrameBuffer := .empty FrameBuffer.defaultLimit
  /-- Bytes that are still to be written. -/
  outbound : Bytes := []
deriving DecidableEq, Repr

/-- An envelope that waits to be routed. -/
structure Queued where
  envelope : Envelope
  /-- When it was queued. -/
  since : Duration
deriving DecidableEq, Repr

/-- The state of routing. -/
structure Routing where
  /-- Where the bus listens. -/
  address : Address
  listener : StreamId
  /-- The connections of the workers. -/
  peers : Table .worker StreamId := ∅
  /-- Connections without a handshake. -/
  pending : Table .stream Unit := ∅
  queue : List Queued := []
  /-- Envelopes for the scheduler. -/
  inbox : List Envelope := []
  requeue : Config.Requeue
  /-- Most bytes that may wait to be written to one connection when another frame comes. -/
  outboundLimit : Nat
deriving DecidableEq, Repr

/-- The standard for bytes that may wait, four mebibytes. -/
def standardOutboundLimit : Nat := 4 * 1024 * 1024

/-- The state of routing together with the streams and the state of the host. -/
structure Broker (σ : Type) extends Routing where
  selector : Selector Peer
  world : σ

variable {σ : Type}

/-- Opens the bus at an address. -/
def Routing.bind (host : Host σ) (address : Address) (requeue : Config.Requeue) (s : σ) :
    Except Error (Routing × Selector Peer) × σ :=
  match host.bind address false s with
  | (.error failure, s) => (.error (.io failure "failed to bind IPC listener"), s)
  | (.ok (listener, address), s) =>
    match Selector.empty.register { id := listener, kind := .listener } .accepting none with
    | .error e => (.error e, s)
    | .ok selector =>
      (.ok ({ address, listener, requeue, outboundLimit := standardOutboundLimit }, selector), s)

namespace Broker

/-- The workers that completed the handshake. -/
def connected (b : Broker σ) : List WorkerId :=
  b.peers.keys

/-- The connection of a stream, if it is registered. -/
def peer? (b : Broker σ) (id : StreamId) : Option Peer :=
  (b.selector.keys.find? id).bind (·.attachment)

/-- Replaces what is known of a connection. -/
def setPeer (b : Broker σ) (id : StreamId) (peer : Peer) : Broker σ :=
  { b with selector := b.selector.modify id fun key => { key with attachment := some peer } }

/-- Drops the oldest envelopes beyond the bound of the queue. -/
def enforceBound (b : Broker σ) : Broker σ :=
  { b with queue := b.queue.drop (b.queue.length - b.requeue.maxQueued) }

/-- Drops a stream and closes it. -/
def closeStream (host : Host σ) (b : Broker σ) (id : StreamId) : Broker σ :=
  let (selector, world) := b.selector.discard id host b.world
  { b with selector, world }

/-- Ends a connection, with or without a handshake. -/
def dropConnection (host : Host σ) (b : Broker σ) (id : StreamId) : Broker σ :=
  closeStream host
    { b with pending := b.pending.erase id, peers := b.peers.filter fun _ st => st ≠ id } id

/-! ## Writing -/

/-- Writes what a connection takes.  While bytes are left, readiness for writing is of
interest. -/
def flushPeer (host : Host σ) (b : Broker σ) (id : StreamId) : Broker σ :=
  match b.selector.keys.find? id with
  | none => b
  | some key =>
    match key.attachment with
    | none => b
    | some peer =>
      let (flushed, world) := key.stream.write peer.outbound host b.world
      let b := { b with world }.setPeer id { peer with outbound := flushed.rest }
      match flushed.failure with
      | some _ => b.dropConnection host id
      | none =>
        if flushed.rest.isEmpty then
          if key.interest.write then
            match b.selector.unregister id .writing with
            | .ok (selector, _) => { b with selector }
            | .error _ => b
          else b
        else
          match b.selector.reregister id .writing with
          | .ok selector => { b with selector }
          | .error _ => b

/-- Hands a frame to the connection of a worker, or cuts it off if too much waits there. -/
def deliver (host : Host σ) (frame : Bytes) (b : Broker σ) (uid : WorkerId) : Broker σ :=
  match b.peers.find? uid with
  | none => b
  | some id =>
    match b.selector.keys.find? id with
    | none => { b with peers := b.peers.erase uid }
    | some key =>
      match key.attachment with
      | none => b.flushPeer host id
      | some peer =>
        if b.outboundLimit < peer.outbound.length then b.dropConnection host id
        else (b.setPeer id { peer with outbound := peer.outbound ++ frame }).flushPeer host id

/-! ## Routing -/

/-- Gives one envelope its fate, as far as `connected` workers go. -/
def routeOne (host : Host σ) (connected : List WorkerId) (now : Duration) (b : Broker σ)
    (q : Queued) : Broker σ :=
  let (rolls, world) := host.roll b.world
  let b := { b with world }
  match plan q.envelope connected rolls with
  | .atHome => { b with inbox := b.inbox ++ [q.envelope] }
  | .recipients uids => uids.foldl (deliver host (Wire.frame q.envelope)) b
  | .requeue =>
    if b.requeue.ttl ≤ now - q.since then b else { b with queue := b.queue ++ [q] }
  | .drop => b

/-- Routes every queued envelope once.  Who is connected is asked before the first one. -/
def route (host : Host σ) (b : Broker σ) : Broker σ :=
  if b.queue.isEmpty then b
  else
    enforceBound <|
      b.queue.foldl (routeOne host b.connected (host.clock b.world)) { b with queue := [] }

/-- Queues an envelope for the next routing pass. -/
def submit (host : Host σ) (b : Broker σ) (e : Envelope) : Broker σ :=
  enforceBound { b with queue := b.queue ++ [⟨e, host.clock b.world⟩] }

/-- Sends a message of the scheduler. -/
def send (host : Host σ) (b : Broker σ) (audience : Audience) (number : UInt64)
    (message : Message) : Broker σ :=
  (b.submit host ⟨.server, audience, number, message⟩).route host

/-- Takes the envelopes for the scheduler. -/
def takeInbox (b : Broker σ) : List Envelope × Broker σ :=
  (b.inbox, { b with inbox := [] })

/-! ## Connections -/

/-- Registers accepted connections.  A failing accept ends this without harm. -/
def enroll : List AcceptEvent → Broker σ → Except Error Unit × Broker σ
  | .connection id :: rest, b =>
    match b.selector.register { id, kind := .socket } .reading (some {}) with
    | .error e => (.error e, b)
    | .ok selector => enroll rest { b with selector, pending := b.pending.insert id () }
  | _, b => (.ok (), b)

/-- Accepts all connections that wait. -/
def accept (host : Host σ) (b : Broker σ) : Except Error Unit × Broker σ :=
  match b.selector.keys.find? b.listener with
  | none => (.error (.unknownStream b.listener), b)
  | some key =>
    let (events, world) := key.stream.accept host b.world
    enroll events { b with world }

/-- Makes a connection the one of a worker; an earlier one is closed. -/
def promote (host : Host σ) (b : Broker σ) (id : StreamId) (uid : WorkerId) : Broker σ :=
  let previous := b.peers.find? uid
  let b := { b with pending := b.pending.erase id, peers := b.peers.insert uid id }
  match previous with
  | none => b
  | some previous => if previous = id then b else b.closeStream host previous

/-- Looks for the handshake of a connection that has none yet.  Without a result the connection
is dropped, because its handshake is malformed or claims to be the scheduler's. -/
def greet (host : Host σ) (b : Broker σ) (id : StreamId) (peer : Peer) :
    Option Peer × Broker σ :=
  if peer.uid.isSome then (some peer, b)
  else
    match Wire.parseHandshake peer.reader.unparsed with
    | .ok none => (some peer, b)
    | .ok (some (uid, length)) =>
      if uid.isServer then (none, b.dropConnection host id)
      else
        let peer := { peer with uid := some uid, reader := peer.reader.consume length }
        (some peer, (b.setPeer id peer).promote host id uid)
    | .error _ => (none, b.dropConnection host id)

/-- The envelopes in frames of a worker, which is their sender; malformed frames are skipped. -/
def envelopes (uid : WorkerId) (frames : List Bytes) : List Envelope :=
  frames.filterMap fun frame =>
    match Wire.unpack frame with
    | .ok (e : Envelope) => some { e with sender := uid }
    | .error _ => none

/-- Queues the envelopes of all complete frames of a connection.  Whether the connection stays; it
does not after a frame that is too long. -/
def takeFrames (host : Host σ) (b : Broker σ) (id : StreamId) (peer : Peer) : Bool × Broker σ :=
  match peer.uid with
  | none => (true, b)
  | some uid =>
    let now := host.clock b.world
    let (reader, frames, failure) := peer.reader.drain
    let fresh := (envelopes uid frames).map fun e => (⟨e, now⟩ : Queued)
    let b := { b with queue := b.queue ++ fresh }.setPeer id { peer with reader }
    match failure with
    | some _ => (false, b.dropConnection host id)
    | none => (true, b.enforceBound)

/-- Reads what a connection delivers.  What came before the end of the stream still counts. -/
def readPeer (host : Host σ) (b : Broker σ) (id : StreamId) : Broker σ :=
  match b.selector.keys.find? id with
  | none => b
  | some key =>
    match key.attachment with
    | none => b
    | some peer =>
      let (events, world) := key.stream.read host b.world
      let (reader, outcome) := peer.reader.readFrom events
      let peer := { peer with reader }
      match greet host ({ b with world }.setPeer id peer) id peer with
      | (none, b) => b
      | (some peer, b) =>
        match b.takeFrames host id peer, outcome with
        | (true, b), .error _ => b.dropConnection host id
        | (_, b), _ => b

/-- Handles one stream that was ready. -/
def serve (host : Host σ) (b : Broker σ) (id : StreamId) : Except Error Unit × Broker σ :=
  if id = b.listener then b.accept host
  else
    match b.selector.keys.find? id with
    | none => (.ok (), b)
    | some key =>
      let b := if key.ready.write then b.flushPeer host id else b
      (.ok (), if key.ready.read then b.readPeer host id else b)

/-- Handles streams that were ready, up to a failure. -/
def serveAll (host : Host σ) : List StreamId → Broker σ → Except Error Unit × Broker σ
  | [], b => (.ok (), b)
  | id :: rest, b =>
    match b.serve host id with
    | (.error e, b) => (.error e, b)
    | (.ok (), b) => serveAll host rest b

/-- Handles all streams that the last poll found ready, then routes. -/
def onReady (host : Host σ) (b : Broker σ) : Except Error Unit × Broker σ :=
  match serveAll host b.selector.ready b with
  | (.error e, b) => (.error e, b)
  | (.ok (), b) => (.ok (), b.route host)

/-- Whether the stream of a connection is gone or closed. -/
def isDead (b : Broker σ) (id : StreamId) : Bool :=
  (b.selector.keys.find? id).all (·.stream.closed)

/-- Ends all connections whose stream is gone or closed.  The workers that were behind them. -/
def sweep (host : Host σ) (b : Broker σ) : List WorkerId × Broker σ :=
  let strangers := b.pending.keys.filter b.isDead
  let lost := b.peers.entries.filter fun (_, id) => b.isDead id
  let b := strangers.foldl (dropConnection host) b
  (lost.map (·.1), (lost.map (·.2)).foldl (dropConnection host) b)

/-- Closes all connections and the listener. -/
def close (host : Host σ) (b : Broker σ) : Broker σ :=
  let b := (b.pending.keys ++ b.peers.values).foldl (dropConnection host) b
  b.closeStream host b.listener

end Broker

end Supervisor.Bus
