import Supervisor.Address
import Supervisor.Error
import Supervisor.Wire.FrameBuffer

/-!
# Stream handles and the host behind them

One kind of handle covers all that can be polled: listening sockets, connected sockets, pipes and
files.  A handle has one owner and is closed explicitly; a closed handle keeps its id, so that
whoever still lists it can find and drop it.

What a stream delivers and takes is up to the host.  `Host` gathers the calls on the host as
functions over a state, so every behaviour of the outside world is a choice of these functions;
nothing else in the library looks outside.
-/

namespace Supervisor.Poll

open Wire (Bytes ReadEvent)

/-- What kind of descriptor a stream is. -/
inductive StreamKind where
  | listener
  | socket
  | pipe
  | file
deriving DecidableEq, Repr, Inhabited

/-- The name of a kind. -/
def StreamKind.name : StreamKind → String
  | .listener => "Listener"
  | .socket => "Socket"
  | .pipe => "Pipe"
  | .file => "File"

/-- A stream handle. -/
structure Stream where
  id : StreamId
  kind : StreamKind
  closed : Bool := false
deriving DecidableEq, Repr, Inhabited

/-- The outcome of one write call on a stream. -/
inductive WriteEvent where
  /-- So many bytes were taken, at most those offered; none at all is a failure. -/
  | wrote (n : Nat)
  /-- The call was interrupted and is repeated. -/
  | interrupted
  /-- Nothing can be written for now. -/
  | wouldBlock
  | failed (failure : Failure)
deriving DecidableEq, Repr

/-- What a poll reports for one stream. -/
structure Readiness where
  readable : Bool := false
  writable : Bool := false
  hangup : Bool := false
  error : Bool := false
deriving DecidableEq, Repr, Inhabited

/-- Whether a poll reports nothing at all. -/
def Readiness.isEmpty (r : Readiness) : Bool :=
  !(r.readable || r.writable || r.hangup || r.error)

namespace Stream

/-- Closes a handle; closing twice is an error. -/
def close (s : Stream) : Except Error Stream :=
  if s.closed then .error (.streamClosed s.id) else .ok { s with closed := true }

/-- Why a handle cannot be read from or written to, whatever the host says. -/
def transferFailure? (s : Stream) : Option Failure :=
  if s.closed then some ⟨.notConnected, "not connected"⟩
  else if s.kind = .listener then some ⟨.invalidInput, "invalid input parameter"⟩
  else none

/-- Why a handle cannot be flushed. -/
def flushFailure? (s : Stream) : Option Failure :=
  if s.closed then some ⟨.notConnected, "not connected"⟩ else none

/-- Why a handle cannot accept connections. -/
def acceptFailure? (s : Stream) : Option Failure :=
  if s.closed ∨ s.kind ≠ .listener then some ⟨.invalidInput, "invalid input parameter"⟩ else none

/-- Why a handle has no local address. -/
def addressFailure? (s : Stream) : Option Failure :=
  if s.closed ∨ s.kind = .pipe ∨ s.kind = .file then
    some ⟨.invalidInput, "invalid input parameter"⟩
  else none

end Stream

/-! ## Writing a buffer -/

/-- What is left of a buffer after writing, and whether writing failed. -/
structure Flushed where
  rest : Bytes
  failure : Option Failure
deriving DecidableEq, Repr

/-- Writes a buffer until it is empty, the stream takes no more, or a call fails.  The list holds
the outcomes of the calls; when it is exhausted the stream takes no more for now. -/
def flush : Bytes → List WriteEvent → Flushed
  | [], _ => ⟨[], none⟩
  | buffer, [] => ⟨buffer, none⟩
  | buffer, .wouldBlock :: _ => ⟨buffer, none⟩
  | buffer, .interrupted :: events => flush buffer events
  | buffer, .failed failure :: _ => ⟨buffer, some failure⟩
  | buffer, .wrote 0 :: _ => ⟨buffer, some ⟨.writeZero, "write zero"⟩⟩
  | buffer, .wrote n :: events => flush (buffer.drop n) events

/-! ## The host -/

/-- One stream in a poll, with the operations it is polled for.  The flags say for which events
the system is asked. -/
structure PollEntry where
  id : StreamId
  read : Bool
  write : Bool
  accept : Bool
deriving DecidableEq, Repr

/-- The outcome of a poll. -/
inductive PollResult where
  | reported (readiness : StreamId → Readiness)
  | interrupted
  | failed (failure : Failure)

/-- The outcome of accepting on a listener. -/
inductive AcceptEvent where
  /-- A connection; its stream gets the given id. -/
  | connection (id : StreamId)
  | failed (failure : Failure)
deriving DecidableEq, Repr

/-- Most bytes that one read call delivers. -/
def readChunk : Nat := 4096

/-- The calls on the host, as functions over its state. -/
structure Host (σ : Type) where
  /-- Waits until a stream is ready or the time is over; without a time it waits for ever. -/
  poll : List PollEntry → Option Duration → σ → PollResult × σ
  /-- What read calls on an open stream return one after another, up to the first that delivers
  nothing.  Each delivers at most `readChunk` bytes. -/
  incoming : StreamId → σ → List ReadEvent
  /-- Makes the first so many of these calls. -/
  consume : StreamId → Nat → σ → σ
  /-- How an open stream takes an offered buffer, in write calls. -/
  write : StreamId → Bytes → σ → List WriteEvent × σ
  /-- All connections that a listener has waiting. -/
  accept : StreamId → σ → List AcceptEvent × σ
  /-- Closes a stream towards its peer. -/
  close : StreamId → σ → σ
  /-- Listens at an address; the outcome is the stream and the address it got.  If the address is
  `shared`, other processes may listen there as well. -/
  bind : Address → (shared : Bool) → σ → Except Failure (StreamId × Address) × σ
  /-- Connects to an address. -/
  connect : Address → σ → Except Failure StreamId × σ
  /-- Time on a clock that never goes back. -/
  clock : σ → Duration
  /-- Milliseconds since the epoch. -/
  present : σ → Millis
  /-- User and system time consumed so far, in microseconds. -/
  usage : σ → UInt64 × UInt64
  /-- Lets time pass. -/
  sleep : Duration → σ → σ
  /-- Rolls dice, as often as needed. -/
  roll : σ → (Nat → Nat) × σ

/-- A host behind the second component of a state. -/
def Host.onSecond {σ τ : Type} (h : Host τ) : Host (σ × τ) where
  poll entries timeout s := let (r, t) := h.poll entries timeout s.2; (r, s.1, t)
  incoming id s := h.incoming id s.2
  consume id n s := (s.1, h.consume id n s.2)
  write id b s := let (r, t) := h.write id b s.2; (r, s.1, t)
  accept id s := let (r, t) := h.accept id s.2; (r, s.1, t)
  close id s := (s.1, h.close id s.2)
  bind address shared s := let (r, t) := h.bind address shared s.2; (r, s.1, t)
  connect address s := let (r, t) := h.connect address s.2; (r, s.1, t)
  clock s := h.clock s.2
  present s := h.present s.2
  usage s := h.usage s.2
  sleep d s := (s.1, h.sleep d s.2)
  roll s := let (r, t) := h.roll s.2; (r, s.1, t)

variable {σ : Type}

/-- Reads all that a stream delivers. -/
def Stream.read (st : Stream) (host : Host σ) (s : σ) : List ReadEvent × σ :=
  match st.transferFailure? with
  | some failure => ([.failed failure], s)
  | none =>
    let events := host.incoming st.id s
    (events, host.consume st.id events.length s)

/-- Offers a buffer to a stream. -/
def Stream.write (st : Stream) (b : Bytes) (host : Host σ) (s : σ) : Flushed × σ :=
  if b.isEmpty then (⟨[], none⟩, s)
  else
    match st.transferFailure? with
    | some failure => (⟨b, some failure⟩, s)
    | none =>
      let (events, s) := host.write st.id b s
      (flush b events, s)

/-- Accepts all connections that wait. -/
def Stream.accept (st : Stream) (host : Host σ) (s : σ) : List AcceptEvent × σ :=
  match st.acceptFailure? with
  | some failure => ([.failed failure], s)
  | none => host.accept st.id s

end Supervisor.Poll
