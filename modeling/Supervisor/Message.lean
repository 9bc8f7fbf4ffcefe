import Supervisor.Worker.Record

/-!
# Messages and envelopes

What travels over the message bus.  An envelope is a message with its routing information: who
sends it and which of the connected workers it is for.
-/

namespace Supervisor

/-- Whom an envelope is for. -/
inductive Audience where
  /-- Every connected worker except the sender. -/
  | all
  /-- One worker picked at random; the envelope waits while there is none. -/
  | any
  /-- As many different workers, picked at random, as the envelope's number says; the envelope
  waits while fewer are connected. -/
  | amount
  /-- The worker whose id is the envelope's number. -/
  | selected
  /-- The scheduler. -/
  | server
  /-- The sender itself. -/
  | sender
deriving DecidableEq, Repr, Inhabited

namespace Audience

/-- All audiences, in the order of their wire numbers. -/
def every : List Audience :=
  [.all, .any, .amount, .selected, .server, .sender]

/-- The name of an audience. -/
def name : Audience → String
  | .all => "All"
  | .any => "Any"
  | .amount => "Amount"
  | .selected => "Selected"
  | .server => "Server"
  | .sender => "Sender"

/-- Whether envelopes for this audience never leave the process. -/
def isLocal : Audience → Bool
  | .server | .sender => true
  | _ => false

end Audience

/-- What the scheduler may ask of a worker. -/
inductive Command where
  /-- Finish the current task and exit. -/
  | stop
deriving DecidableEq, Repr, Inhabited

/-- The content of an envelope. -/
inductive Message where
  | text (text : String)
  | bytes (bytes : Wire.Bytes)
  | status (record : Worker.Record)
  | command (command : Command)
deriving DecidableEq, Repr, Inhabited

/-- A message with its routing information. -/
structure Envelope where
  sender : WorkerId
  audience : Audience
  /-- How many recipients an `amount` wants, or the id a `selected` names. -/
  number : UInt64
  message : Message
deriving DecidableEq, Repr, Inhabited

namespace Message

/-- Numeric equality: a status whose rate is no number equals nothing. -/
def equals : Message → Message → Bool
  | .status r, .status s => r.equals s
  | m, n => decide (m = n)

/-- The number of the alternative, then its content. -/
def write : Message → Wire.Bytes
  | .text s => Wire.varint 0 ++ Wire.writeText s
  | .bytes b => Wire.varint 1 ++ Wire.writeBytes b
  | .status r => Wire.varint 2 ++ r.write
  | .command .stop => Wire.varint 3 ++ Wire.varint 0

/-- Reads the number of an alternative and its content. -/
def read : Wire.Reader Message := do
  match ← Wire.Reader.word32 with
  | 0 => return .text (← Wire.Reader.text)
  | 1 => return .bytes (← Wire.Reader.bytes)
  | 2 => return .status (← Worker.Record.read)
  | 3 => return .command (← Wire.Reader.oneOf [.stop])
  | _ => throw .unknownVariant

end Message

namespace Envelope

/-- Numeric equality of two envelopes. -/
def equals (e f : Envelope) : Bool :=
  decide (e.sender = f.sender) && decide (e.audience = f.audience)
    && decide (e.number = f.number) && e.message.equals f.message

/-- Sender, audience, number and message, in this order. -/
def write (e : Envelope) : Wire.Bytes :=
  Wire.varint e.sender.val.toNat
    ++ Wire.varint (Audience.every.idxOf e.audience)
    ++ Wire.varint e.number.toNat
    ++ e.message.write

/-- Reads sender, audience, number and message. -/
def read : Wire.Reader Envelope := do
  let sender ← Wire.Reader.word64
  let audience ← Wire.Reader.oneOf Audience.every
  let number ← Wire.Reader.word64
  let message ← Message.read
  return { sender := ⟨sender⟩, audience, number, message }

end Envelope

end Supervisor
