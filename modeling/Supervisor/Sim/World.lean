import Supervisor.Poll.Selector

/-!
# A simulated host

Streams that live in memory, a clock that moves only when somebody waits, and a poll that either
looks at the streams or follows a script.  Each stream is one side of a connection; the other side
is played by whoever holds the world: it sends, reads and hangs up.

Two sockets that are connected are both streams of the world, so both sides may be driven by the
library.  A world may be unreachable, and then nobody ever gets connected.
-/

namespace Supervisor.Sim

open Wire (Bytes ReadEvent)
open Poll (PollEntry PollResult Readiness WriteEvent AcceptEvent Host)

/-- What is behind a stream. -/
inductive Endpoint where
  | listener (address : Address) (waiting : List StreamId)
  /-- The reading end of a pipe: what arrived, and whether the writer is gone. -/
  | pipe (inbound : Bytes) (ended : Bool)
  /-- A file with one position for reading and writing. -/
  | file (content : Bytes) (position : Nat)
  /-- One side of a connection: the other side, what arrived from there, and whether more can
  come. -/
  | socket (peer : StreamId) (inbound : Bytes) (ended : Bool)
  /-- One side of a connection that the other side cut off. -/
  | broken
deriving DecidableEq, Repr

/-- The outcome of one poll, as a script has it. -/
inductive Scripted where
  /-- The first entry of a stream counts. -/
  | ready (entries : List (StreamId × Readiness))
  | interrupted
  | failed
deriving Repr

/-- A host in memory. -/
structure World where
  endpoints : Table .stream Endpoint := ∅
  /-- Number of the stream that is opened next. -/
  next : Nat := 1
  /-- Outcomes of the next polls, if polls follow a script; beyond its end nothing is ready. -/
  script : Option (List Scripted) := none
  /-- All polls so far, latest first. -/
  polls : List (List PollEntry × Option Duration) := []
  clock : Duration := .ofSeconds 1
  /-- The wall clock at the zero of the clock. -/
  start : Millis := 1750000000000
  /-- Whether connections to listeners can be made. -/
  reachable : Bool := true
  /-- Bytes that a socket holds for a reader that is not reading. -/
  room : Nat := 4194304
  /-- How many connections were refused. -/
  refused : Nat := 0
  dice : Nat := 1

namespace World

def find? (w : World) (id : StreamId) : Option Endpoint :=
  w.endpoints.find? id

def set (w : World) (id : StreamId) (e : Endpoint) : World :=
  { w with endpoints := w.endpoints.insert id e }

/-- Opens a stream. -/
def create (w : World) (e : Endpoint) : StreamId × World :=
  let id : StreamId := ⟨w.next.toUInt64⟩
  (id, { w with endpoints := w.endpoints.insert id e, next := w.next + 1 })

/-! ## The other side -/

/-- The other side sends bytes; whether they can still arrive. -/
def feed (w : World) (id : StreamId) (b : Bytes) : Bool × World :=
  match w.find? id with
  | some (.pipe inbound false) => (true, w.set id (.pipe (inbound ++ b) false))
  | some (.socket peer inbound false) => (true, w.set id (.socket peer (inbound ++ b) false))
  | _ => (false, w)

/-- The other side stops sending. -/
def hangup (w : World) (id : StreamId) : World :=
  match w.find? id with
  | some (.pipe inbound _) => w.set id (.pipe inbound true)
  | some (.socket peer inbound _) => w.set id (.socket peer inbound true)
  | _ => w

/-- A connection to the listener at an address: the side of whoever connects. -/
def connect (w : World) (address : Address) : Except Failure StreamId × World :=
  let listens : StreamId × Endpoint → Bool
    | (_, .listener a _) => a = address
    | _ => false
  match w.reachable, w.endpoints.entries.find? listens with
  | true, some (listener, .listener _ waiting) =>
    let mine : StreamId := ⟨w.next.toUInt64⟩
    let (theirs, w) := { w with next := w.next + 1 }.create (.socket mine [] false)
    let w := w.set mine (.socket theirs [] false)
    (.ok mine, w.set listener (.listener address (waiting ++ [theirs])))
  | _, _ => (.error ⟨.other, "Connection refused"⟩, { w with refused := w.refused + 1 })

/-! ## Streams as the library sees them -/

/-- What an endpoint has for a reader, and whether it ends there. -/
def available : Endpoint → Bytes × Bool
  | .pipe inbound ended => (inbound, ended)
  | .socket _ inbound ended => (inbound, ended)
  | .file content position => (content.drop position, true)
  | _ => ([], false)

/-- Bytes in read calls of at most `readChunk` bytes. -/
def chunks (b : Bytes) : List Bytes :=
  (List.range ((b.length + Poll.readChunk - 1) / Poll.readChunk)).map fun i =>
    (b.drop (i * Poll.readChunk)).take Poll.readChunk

/-- What read calls return one after another. -/
def incoming (id : StreamId) (w : World) : List ReadEvent :=
  match w.find? id with
  | none => [.failed ⟨.notConnected, "not connected"⟩]
  | some .broken => [.failed ⟨.connectionReset, "connection reset"⟩]
  | some e =>
    let (b, ended) := available e
    (chunks b).map .data ++ [if ended then .data [] else .wouldBlock]

/-- Takes bytes off the front of what an endpoint has for a reader. -/
def drop (w : World) (id : StreamId) (n : Nat) : World :=
  match w.find? id with
  | some (.pipe inbound ended) => w.set id (.pipe (inbound.drop n) ended)
  | some (.socket peer inbound ended) => w.set id (.socket peer (inbound.drop n) ended)
  | some (.file content position) => w.set id (.file content (position + n))
  | _ => w

/-- Makes read calls. -/
def consume (id : StreamId) (calls : Nat) (w : World) : World :=
  let events := (incoming id w).take calls
  w.drop id (ReadEvent.delivered events).length

/-- One read call for at most `max` bytes. -/
def readOnce (id : StreamId) (max : Nat) (w : World) : ReadEvent × World :=
  match incoming id w with
  | .data b :: _ => (.data (b.take max), w.drop id (b.take max).length)
  | event :: _ => (if max = 0 ∧ event = .wouldBlock then .data [] else event, w)
  | [] => (.wouldBlock, w)

/-- Write calls for a buffer. -/
def write (id : StreamId) (b : Bytes) (w : World) : List WriteEvent × World :=
  match w.find? id with
  | some (.file content position) =>
    ([.wrote b.length], w.set id
      (.file (content.take position ++ b ++ content.drop (position + b.length))
        (position + b.length)))
  | some (.socket peer _ _) =>
    match w.find? peer with
    | some (.socket back inbound ended) =>
      let taken := b.take (w.room - inbound.length)
      let w := w.set peer (.socket back (inbound ++ taken) ended)
      (if taken.length = b.length then [.wrote b.length]
        else if taken.isEmpty then [.wouldBlock] else [.wrote taken.length, .wouldBlock], w)
    | _ => ([.failed ⟨.brokenPipe, "broken pipe"⟩], w)
  | some .broken => ([.failed ⟨.brokenPipe, "broken pipe"⟩], w)
  | _ => ([.failed ⟨.other, "bad file descriptor"⟩], w)

/-- Closes a stream; the other side reads the end of it. -/
def close (id : StreamId) (w : World) : World :=
  let w' := { w with endpoints := w.endpoints.erase id }
  match w.find? id with
  | some (.socket peer _ _) => w'.hangup peer
  | _ => w'

/-- Cuts a connection off, for both sides. -/
def reset (id : StreamId) (w : World) : World :=
  match w.find? id with
  | some (.socket peer _ _) => { w with endpoints := (w.endpoints.erase id).insert peer .broken }
  | _ => w

/-- All connections that wait at a listener. -/
def accept (id : StreamId) (w : World) : List AcceptEvent × World :=
  match w.find? id with
  | some (.listener address waiting) => (waiting.map .connection, w.set id (.listener address []))
  | _ => ([], w)

/-- Listens at an address; port zero stands for any free one. -/
def bind (address : Address) (_shared : Bool) (w : World) :
    Except Failure (StreamId × Address) × World :=
  let address := if address.port = 0 then address.withPort (40000 + w.next).toUInt16 else address
  let (id, w) := w.create (.listener address [])
  (.ok (id, address), w)

/-! ## Polling -/

/-- What a stream is ready for. -/
def readiness (w : World) (e : PollEntry) : Readiness :=
  match w.find? e.id with
  | none => {}
  | some (.listener _ waiting) => { readable := (e.read || e.accept) && !waiting.isEmpty }
  | some (.pipe inbound ended) =>
    { readable := (e.read || e.accept) && !inbound.isEmpty, hangup := ended }
  | some (.file _ _) => { readable := e.read, writable := e.write }
  | some (.socket peer inbound ended) =>
    let roomy := match w.find? peer with
      | some (.socket _ waiting _) => waiting.length < w.room
      | _ => true
    { readable := e.read && (ended || !inbound.isEmpty), writable := e.write && roomy }
  | some .broken => { readable := e.read, writable := e.write, hangup := true, error := true }

/-- Polls; time passes only if nothing is ready. -/
def poll (entries : List PollEntry) (timeout : Option Duration) (w : World) :
    PollResult × World :=
  let w := { w with polls := (entries, timeout) :: w.polls }
  match w.script with
  | none =>
    let found := entries.map fun e => (e.id, w.readiness e)
    let idle := found.all fun (_, r) => r.isEmpty
    (.reported fun id => (found.lookup id).getD {},
      if idle then { w with clock := w.clock + timeout.getD .zero } else w)
  | some script =>
    let w := { w with script := some (script.drop 1) }
    match script.head? with
    | none => (.reported fun _ => {}, w)
    | some (.ready entries) => (.reported fun id => (entries.lookup id).getD {}, w)
    | some .interrupted => (.interrupted, w)
    | some .failed => (.failed ⟨.other, "scripted"⟩, w)

/-- Rolls that depend on the number of the throw. -/
def rolls (throw n : Nat) : Nat :=
  (throw * 6364136223846793005 + n * 1442695040888963407 + 1013904223) / 65536 % 4294967296

/-- The simulated host. -/
def host : Host World where
  poll := poll
  incoming := incoming
  consume := consume
  write := write
  accept := accept
  close := close
  bind := bind
  connect address w := w.connect address
  clock w := w.clock
  present w := w.start + w.clock.toMillis.toUInt64
  usage _ := (0, 0)
  sleep d w := { w with clock := w.clock + d }
  roll w := (rolls w.dice, { w with dice := w.dice + 1 })

end World

end Supervisor.Sim
