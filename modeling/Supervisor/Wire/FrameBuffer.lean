import Supervisor.Error
import Supervisor.Wire.Escape

/-!
# Splitting a byte stream into frames

`FrameBuffer` collects the bytes a stream delivers and hands out the payloads between the
terminators.  Consumed bytes stay in the buffer until they make up more than half of it; only
then are the rest moved to the front.  So a consumer pays for moving a byte at most a constant
number of times, and the buffer never holds more than twice the unparsed bytes.

What a stream delivers in one go is a list of `ReadEvent`s, one per read call; when the list is
exhausted the stream has nothing to offer for now.
-/

namespace Supervisor.Wire

/-- The outcome of one read call on a stream. -/
inductive ReadEvent where
  /-- Some bytes; none at all means the end of the stream. -/
  | data (b : Bytes)
  /-- The call was interrupted and is repeated. -/
  | interrupted
  /-- Nothing to read for now. -/
  | wouldBlock
  | failed (failure : Failure)
deriving DecidableEq, Repr

/-- The failure that stands for the end of a stream. -/
def Failure.endOfStream : Failure :=
  ⟨.connectionReset, "connection reset"⟩

/-- All bytes delivered before the first event that ends the reading. -/
def ReadEvent.delivered : List ReadEvent → Bytes
  | .data (b :: bs) :: events => b :: bs ++ delivered events
  | .interrupted :: events => delivered events
  | _ => []

/-- The failure that ends the reading, if one does. -/
def ReadEvent.failure? : List ReadEvent → Option Failure
  | .data [] :: _ => some Failure.endOfStream
  | .data (_ :: _) :: events => failure? events
  | .interrupted :: events => failure? events
  | .wouldBlock :: _ => none
  | .failed failure :: _ => some failure
  | [] => none

/-- The outcome of reading all that a stream has to offer: the number of bytes, or the failure
that ended the reading after the bytes before it were buffered. -/
def ReadEvent.outcome (events : List ReadEvent) : Except Failure Nat :=
  match failure? events with
  | some failure => .error failure
  | none => .ok (delivered events).length

/-- Collects bytes and splits them into frames. -/
structure FrameBuffer where
  /-- All bytes kept, consumed ones in front. -/
  buffer : Bytes
  /-- Number of consumed bytes. -/
  start : Nat
  /-- How many unparsed bytes may pile up without a terminator. -/
  limit : Nat
deriving DecidableEq, Repr

namespace FrameBuffer

/-- The default limit, sixteen mebibytes. -/
def defaultLimit : Nat := 16 * 1024 * 1024

/-- An empty buffer. -/
def empty (limit : Nat) : FrameBuffer := ⟨[], 0, limit⟩

/-- The bytes that are not consumed yet. -/
def unparsed (r : FrameBuffer) : Bytes :=
  r.buffer.drop r.start

/-- Appends bytes. -/
def feed (r : FrameBuffer) (b : Bytes) : FrameBuffer :=
  { r with buffer := r.buffer ++ b }

/-- Appends all that a stream has to offer. -/
def readFrom (r : FrameBuffer) (events : List ReadEvent) : FrameBuffer × Except Failure Nat :=
  (r.feed (ReadEvent.delivered events), ReadEvent.outcome events)

/-- Moves the unparsed bytes to the front once the consumed ones are more than half. -/
def compact (r : FrameBuffer) : FrameBuffer :=
  if r.start = r.buffer.length then { r with buffer := [], start := 0 }
  else if r.buffer.length / 2 < r.start then
    { r with buffer := r.buffer.drop r.start, start := 0 }
  else r

/-- Consumes `count` unparsed bytes, or all if there are fewer. -/
def consume (r : FrameBuffer) (count : Nat) : FrameBuffer :=
  { r with start := min (r.start + count) r.buffer.length }.compact

/-- Takes the next complete payload, without its terminator.  Too many bytes without a terminator
are an error. -/
def nextFrame (r : FrameBuffer) : FrameBuffer × Except Error (Option Bytes) :=
  let payload := r.unparsed.takeWhile (· ≠ terminator)
  if payload.length < r.unparsed.length then
    (r.consume (payload.length + 1), .ok (some payload))
  else if r.limit < payload.length then (r, .error (.protocol .frameTooLong))
  else (r, .ok none)

/-- Moving bytes to the front keeps what is unparsed. -/
theorem unparsed_compact (r : FrameBuffer) : r.compact.unparsed = r.unparsed := by
  unfold compact
  split
  · rename_i h
    simp [unparsed, h]
  · split
    · simp [unparsed]
    · rfl

/-- Consuming removes bytes from the front of the unparsed ones. -/
theorem unparsed_consume (r : FrameBuffer) (count : Nat) :
    (r.consume count).unparsed = r.unparsed.drop count := by
  rw [consume, unparsed_compact]
  simp only [unparsed, List.drop_drop]
  by_cases h : r.start + count ≤ r.buffer.length
  · rw [Nat.min_eq_left h]
  · rw [Nat.min_eq_right (by omega), List.drop_eq_nil_of_le (Nat.le_refl _),
      List.drop_eq_nil_of_le (by omega)]

/-- A frame is taken off the unparsed bytes together with its terminator. -/
theorem length_unparsed_of_nextFrame {r r' : FrameBuffer} {payload : Bytes}
    (h : r.nextFrame = (r', .ok (some payload))) :
    r'.unparsed.length < r.unparsed.length := by
  unfold nextFrame at h
  dsimp only at h
  split at h
  · cases h
    rw [unparsed_consume, List.length_drop]
    omega
  · split at h <;> cases h

/-- Takes complete payloads as long as there are any, and the failure that ended this, if one
did. -/
def drain (r : FrameBuffer) : FrameBuffer × List Bytes × Option Error :=
  match _h : r.nextFrame with
  | (r', .ok (some payload)) =>
    let (last, payloads, failure) := r'.drain
    (last, payload :: payloads, failure)
  | (r', .ok none) => (r', [], none)
  | (r', .error e) => (r', [], some e)
termination_by r.unparsed.length
decreasing_by exact length_unparsed_of_nextFrame _h

end FrameBuffer

end Supervisor.Wire
