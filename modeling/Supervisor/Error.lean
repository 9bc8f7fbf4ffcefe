import Supervisor.Decimal
import Supervisor.Duration
import Supervisor.Id
import Supervisor.Status
import Supervisor.Wire.Reader

/-!
# Errors

What can go wrong in the supervisor, by cause, and the one function `Error.message` that words
it.  Failures of the operating system keep their own kind and text (`Failure`) beside the name of
the action that failed.
-/

namespace Supervisor

/-- Kinds of operating system failures that the program tells apart. -/
inductive FailureKind where
  | wouldBlock
  | interrupted
  | invalidInput
  | notConnected
  | connectionReset
  | brokenPipe
  | writeZero
  | notFound
  | other
deriving DecidableEq, Repr

/-- One word for a kind of failure. -/
def FailureKind.name : FailureKind → String
  | .wouldBlock => "WouldBlock"
  | .interrupted => "Interrupted"
  | .invalidInput => "InvalidInput"
  | .notConnected => "NotConnected"
  | .connectionReset => "ConnectionReset"
  | .brokenPipe => "BrokenPipe"
  | .writeZero => "WriteZero"
  | .notFound => "NotFound"
  | .other => "Uncategorized"

/-- A failure reported by the operating system. -/
structure Failure where
  kind : FailureKind
  /-- The system's own description. -/
  text : String
deriving DecidableEq, Repr

/-- Breaches of the bus protocol and of the rules between supervisor and workers. -/
inductive Breach where
  | emptyFrame
  | unknownPrefix
  | textNotUtf8
  | textForNonText
  | badEscape
  | malformedHandshake
  | handshakeRange
  | frameTooLong
  | unknownWorker
  | endlessCascade
  /-- A rule of a service or a listener, in its own words. -/
  | custom (text : String)
deriving DecidableEq, Repr

/-- The wording of a breach. -/
def Breach.text : Breach → String
  | .emptyFrame => "empty frame"
  | .unknownPrefix => "unknown frame prefix"
  | .textNotUtf8 => "raw frame is not valid UTF-8"
  | .textForNonText => "raw text frame for a non-text value"
  | .badEscape => "invalid escape sequence"
  | .malformedHandshake => "malformed handshake"
  | .handshakeRange => "handshake uid out of range"
  | .frameTooLong => "frame exceeds the maximum length"
  | .unknownWorker => "status report of an unknown worker"
  | .endlessCascade => "lifecycle event cascade does not terminate"
  | .custom text => text

/-- Everything that can go wrong. -/
inductive Error where
  /-- Another live process holds the pid lock. -/
  | alreadyRunning (pid : Int32)
  /-- The other side of the bus is gone. -/
  | channelClosed
  /-- Serialized bytes hold no value. -/
  | codec (fault : Wire.Fault)
  /-- The configuration is unusable. -/
  | config (detail : String)
  /-- Not a mask of selectable operations, or one the stream cannot be selected for. -/
  | invalidOps (bits : UInt8)
  /-- A worker reported a state it cannot have moved to. -/
  | invalidTransition (worker : WorkerId) (was is : Status)
  /-- An input or output operation failed. -/
  | io (failure : Failure) (action : String)
  /-- The pool has no room for another worker. -/
  | poolFull (max : Nat)
  /-- A rule of the protocol is broken. -/
  | protocol (breach : Breach)
  /-- A worker could not be brought to life. -/
  | spawn (failure : Failure) (action : String)
  /-- The stream was closed before. -/
  | streamClosed (stream : StreamId)
  /-- An action did not finish in time. -/
  | timeout (after : Duration) (action : String)
  /-- No observed selector has this id. -/
  | unknownSelector (selector : SelectorId)
  /-- No registered stream has this id. -/
  | unknownStream (stream : StreamId)
  /-- The platform cannot do this. -/
  | unsupported (what : String)
deriving DecidableEq, Repr

namespace Error

/-- A system failure of an action that has no better name. -/
def ofFailure (failure : Failure) : Error :=
  .io failure "failed"

/-- One word for the cause of an error. -/
def name : Error → String
  | .alreadyRunning _ => "AlreadyRunning"
  | .channelClosed => "ChannelClosed"
  | .codec _ => "Codec"
  | .config _ => "Config"
  | .invalidOps _ => "InvalidOps"
  | .invalidTransition _ _ _ => "InvalidTransition"
  | .io _ _ => "Io"
  | .poolFull _ => "PoolFull"
  | .protocol _ => "Protocol"
  | .spawn _ _ => "Spawn"
  | .streamClosed _ => "StreamClosed"
  | .timeout _ _ => "Timeout"
  | .unknownSelector _ => "UnknownSelector"
  | .unknownStream _ => "UnknownStream"
  | .unsupported _ => "Unsupported"

/-- The wording of an error. -/
def message : Error → String
  | .alreadyRunning pid => "scheduler already running with pid " ++ toString pid.toInt
  | .channelClosed => "channel closed by peer"
  | .codec fault => "codec error: " ++ fault.text
  | .config detail => "invalid configuration: " ++ detail
  | .invalidOps bits => "invalid operation bitmask 0b" ++ Decimal.binary bits.toNat 3
  | .invalidTransition worker was now =>
    "worker " ++ worker.text ++ " cannot change status from " ++ was.name ++ " to " ++ now.name
  | .io failure action => action ++ ": io error: " ++ failure.text
  | .poolFull max => "worker pool is full (" ++ toString max ++ " workers)"
  | .protocol breach => "protocol error: " ++ breach.text
  | .spawn failure action => action ++ ": spawn error: " ++ failure.text
  | .streamClosed stream => "stream " ++ stream.text ++ " is already closed"
  | .timeout after action =>
    "timeout reached (" ++ Decimal.fixed after.seconds 3 ++ "s) while " ++ action
  | .unknownSelector selector => "failed to find selector with ID " ++ selector.text
  | .unknownStream stream => "failed to find stream with ID " ++ stream.text
  | .unsupported what => "not supported on this platform: " ++ what

end Error

end Supervisor
