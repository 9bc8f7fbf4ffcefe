import Supervisor.Message
import Supervisor.Poll.Stream
import Supervisor.Wire.Handshake
import Supervisor.Wire.Payload

/-!
# A worker's end of the message bus

A client connects, says who it is, and then sends and receives envelopes.  What a worker sends to
itself never touches the connection and is received before anything else.  Frames that the
connection does not take at once are kept in order and written later.

Once the connection has failed, sending fails, and receiving fails as soon as everything that had
arrived is taken.
-/

namespace Supervisor.Bus

open Wire (Bytes FrameBuffer)
open Poll (Host Stream)

/-- A worker's connection to the bus. -/
structure Client where
  uid : WorkerId
  stream : StreamId
  reader : FrameBuffer := .empty FrameBuffer.defaultLimit
  /-- Bytes that are still to be written. -/
  outbound : Bytes := []
  /-- Envelopes that the worker sent to itself. -/
  ownMail : List Envelope := []
  /-- Whether readiness for writing is of interest. -/
  wantWrite : Bool := false
  /-- Whether the connection has failed. -/
  closed : Bool := false
deriving DecidableEq, Repr

namespace Client

variable {σ : Type}

/-! ## Connecting -/

/-- Pause between two attempts to connect. -/
def retryPause : Duration := .ofMillis 50

/-- Tries to connect until it works or the deadline has passed, at most `attempts` times. -/
def dial (host : Host σ) (address : Address) (deadline : Duration) :
    Nat → σ → Option StreamId × σ
  | 0, s => (none, s)
  | attempts + 1, s =>
    match host.connect address s with
    | (.ok id, s) => (some id, s)
    | (.error _, s) =>
      if deadline ≤ host.clock s then (none, s)
      else dial host address deadline attempts (host.sleep retryPause s)

/-- Connects and sends the handshake.  Attempts to connect are repeated for `timeout`, which
leaves room for one attempt per pause and two more. -/
def connect (host : Host σ) (address : Address) (uid : WorkerId) (timeout : Duration) (s : σ) :
    Except Error Client × σ :=
  let attempts := timeout.nanos / retryPause.nanos + 2
  match dial host address (host.clock s + timeout) attempts s with
  | (none, s) => (.error (.timeout timeout "connecting to the IPC bus"), s)
  | (some id, s) =>
    let (flushed, s) := Stream.write { id, kind := .socket } (Wire.handshake uid) host s
    match flushed.failure with
    | some failure => (.error (.io failure "failed to send IPC handshake"), s)
    | none => (.ok { uid, stream := id, outbound := flushed.rest }, s)

/-! ## Sending -/

/-- The handle of the connection. -/
def handle (c : Client) : Stream :=
  { id := c.stream, kind := .socket }

/-- Number of bytes that are still to be written. -/
def pendingBytes (c : Client) : Nat :=
  c.outbound.length

/-- Writes what the connection takes. -/
def flush (host : Host σ) (c : Client) (s : σ) : Except Error Unit × Client × σ :=
  let (flushed, s) := c.handle.write c.outbound host s
  let c := { c with outbound := flushed.rest }
  match flushed.failure with
  | none => (.ok (), { c with wantWrite := !flushed.rest.isEmpty }, s)
  | some failure =>
    match failure.kind with
    | .writeZero | .brokenPipe | .connectionReset =>
      (.error .channelClosed, { c with closed := true }, s)
    | _ => (.error (.io failure "failed to write to the IPC bus"), c, s)

/-- Sends a message. -/
def send (host : Host σ) (c : Client) (audience : Audience) (number : UInt64)
    (message : Message) (s : σ) : Except Error Unit × Client × σ :=
  let e : Envelope := ⟨c.uid, audience, number, message⟩
  if audience = .sender then (.ok (), { c with ownMail := c.ownMail ++ [e] }, s)
  else if c.closed then (.error .channelClosed, c, s)
  else flush host { c with outbound := c.outbound ++ Wire.frame e } s

/-- Waits for the connection. -/
def wait (host : Host σ) (c : Client) (timeout : Duration) (s : σ) : Poll.PollResult × σ :=
  host.poll [⟨c.stream, true, c.wantWrite, false⟩] (some timeout) s

/-- Waits and writes until nothing is left or the deadline has passed, at most `rounds` times. -/
def flushUntil (host : Host σ) (timeout deadline : Duration) :
    Nat → Client → σ → Except Error Unit × Client × σ
  | 0, c, s => (.error (.timeout timeout "flushing the IPC connection"), c, s)
  | rounds + 1, c, s =>
    if c.outbound.isEmpty then (.ok (), c, s)
    else
      let now := host.clock s
      if deadline ≤ now then (.error (.timeout timeout "flushing the IPC connection"), c, s)
      else
        match c.wait host (deadline - now) s with
        | (.failed failure, s) => (.error (.io failure "IPC poll failed"), c, s)
        | (_, s) =>
          match flush host c s with
          | (.error e, c, s) => (.error e, c, s)
          | (.ok (), c, s) => flushUntil host timeout deadline rounds c s

/-- Writes everything that is left, for at most `timeout`.  Every round writes a byte or lets
time pass, so there is a round for every byte and every millisecond. -/
def flushBlocking (host : Host σ) (c : Client) (timeout : Duration) (s : σ) :
    Except Error Unit × Client × σ :=
  let deadline := host.clock s + timeout
  match flush host c s with
  | (.error e, c, s) => (.error e, c, s)
  | (.ok (), c, s) =>
    flushUntil host timeout deadline (c.outbound.length + timeout.toMillis + 2) c s

/-! ## Receiving -/

/-- The next envelope of those that have arrived.  A frame that is none costs an error. -/
def nextEnvelope (c : Client) : Except Error (Option Envelope) × Client :=
  match c.reader.nextFrame with
  | (reader, .error e) => (.error e, { c with reader })
  | (reader, .ok none) => (.ok none, { c with reader })
  | (reader, .ok (some frame)) => ((Wire.unpack frame).map some, { c with reader })

/-- The next envelope, or else the fact that there will be none. -/
def lastEnvelope (c : Client) : Except Error (Option Envelope) × Client :=
  match c.nextEnvelope with
  | (.ok none, c) => (if c.closed then .error .channelClosed else .ok none, c)
  | r => r

/-- Reads what has arrived. -/
def fill (host : Host σ) (c : Client) (s : σ) : Client × σ :=
  let (events, s) := c.handle.read host s
  match c.reader.readFrom events with
  | (reader, .ok _) => ({ c with reader }, s)
  | (reader, .error _) => ({ c with reader, closed := true }, s)

/-- Does what a poll found the connection ready for. -/
def attend (host : Host σ) (c : Client) (r : Poll.Readiness) (s : σ) :
    Except Error Unit × Client × σ :=
  match if r.writable then flush host c s else (.ok (), c, s) with
  | (.error e, c, s) => (.error e, c, s)
  | (.ok (), c, s) =>
    if r.readable || r.hangup || r.error then
      let (c, s) := c.fill host s
      (.ok (), c, s)
    else (.ok (), c, s)

/-- Waits for the next envelope, for at most `timeout`. -/
def receive (host : Host σ) (c : Client) (timeout : Duration) (s : σ) :
    Except Error (Option Envelope) × Client × σ :=
  match c.ownMail with
  | e :: rest => (.ok (some e), { c with ownMail := rest }, s)
  | [] =>
    match c.lastEnvelope with
    | (.ok none, c) =>
      match c.wait host timeout s with
      | (.interrupted, s) => (.ok none, c, s)
      | (.failed failure, s) => (.error (.io failure "IPC poll failed"), c, s)
      | (.reported report, s) =>
        match c.attend host (report c.stream) s with
        | (.error e, c, s) => (.error e, c, s)
        | (.ok (), c, s) =>
          let (r, c) := c.lastEnvelope
          (r, c, s)
    | (r, c) => (r, c, s)

end Client

end Supervisor.Bus
