import Supervisor.Wire.FrameBuffer

/-!
# The plain frame reader

The same job as `FrameBuffer` without any care for the cost: a list of bytes that grows at the
back and shrinks at the front.  It states what a frame reader means; `FrameBuffer` is the one
that is used.
-/

namespace Supervisor.Wire

/-- The bytes received and not consumed yet. -/
structure FrameQueue where
  bytes : Bytes
  /-- How many bytes may pile up without a terminator. -/
  limit : Nat
deriving DecidableEq, Repr

namespace FrameQueue

/-- Appends bytes. -/
def feed (q : FrameQueue) (b : Bytes) : FrameQueue :=
  { q with bytes := q.bytes ++ b }

/-- Appends all that a stream has to offer. -/
def readFrom (q : FrameQueue) (events : List ReadEvent) : FrameQueue × Except Failure Nat :=
  (q.feed (ReadEvent.delivered events), ReadEvent.outcome events)

/-- Removes `count` bytes from the front, or all if there are fewer. -/
def consume (q : FrameQueue) (count : Nat) : FrameQueue :=
  { q with bytes := q.bytes.drop count }

/-- Removes the bytes up to the first terminator and yields those before it. -/
def nextFrame (q : FrameQueue) : FrameQueue × Except Error (Option Bytes) :=
  match q.bytes.idxOf? terminator with
  | some n => ({ q with bytes := q.bytes.drop (n + 1) }, .ok (some (q.bytes.take n)))
  | none =>
    if q.limit < q.bytes.length then (q, .error (.protocol .frameTooLong)) else (q, .ok none)

end FrameQueue

end Supervisor.Wire
