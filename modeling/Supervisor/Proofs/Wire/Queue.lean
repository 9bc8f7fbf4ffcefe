import Supervisor.Proofs.Wire.Following
import Supervisor.Wire.FrameQueue

/-!
# A frame buffer is a queue of bytes

`FrameBuffer` moves bytes only now and then, and what it keeps of them depends on
when it does.  Nobody who uses it can tell: it returns what `FrameQueue` returns,
which appends at the back and removes at the front, and it shows the same bytes.

* `Represents` relates the two.  Its first field bounds the consumed part of the
  buffer; every call restores it (`Represents.call`).
* `readFrom_eq_readCalls` takes apart the one call that stands for many.
* `behaves_as_queue` follows both through any calls.
-/

namespace Supervisor.Wire

/-! ## Calls -/

/-- What a user of a frame reader does. -/
inductive ReaderCall where
  /-- Appends bytes. -/
  | feed (b : Bytes)
  /-- Appends all that a stream has to offer. -/
  | readFrom (events : List ReadEvent)
  /-- Removes bytes from the front. -/
  | consume (count : Nat)
  /-- Asks for the next payload. -/
  | nextFrame

/-- What a call returns. -/
inductive Returned where
  | nothing
  | read (outcome : Except Failure Nat)
  | frame (outcome : Except Error (Option Bytes))

def FrameBuffer.call (r : FrameBuffer) : ReaderCall → Returned × FrameBuffer
  | .feed b => (.nothing, r.feed b)
  | .readFrom events => (.read (r.readFrom events).2, (r.readFrom events).1)
  | .consume count => (.nothing, r.consume count)
  | .nextFrame => (.frame r.nextFrame.2, r.nextFrame.1)

def FrameQueue.call (q : FrameQueue) : ReaderCall → Returned × FrameQueue
  | .feed b => (.nothing, q.feed b)
  | .readFrom events => (.read (q.readFrom events).2, (q.readFrom events).1)
  | .consume count => (.nothing, q.consume count)
  | .nextFrame => (.frame q.nextFrame.2, q.nextFrame.1)

/-- What each call returns, and the state after it. -/
def history {σ : Type} (call : σ → ReaderCall → Returned × σ) :
    σ → List ReaderCall → List (Returned × σ)
  | _, [] => []
  | s, c :: calls => call s c :: history call (call s c).2 calls

namespace FrameBuffer

/-! ## One call -/

/-- The queue holds what is unparsed. -/
structure Represents (r : FrameBuffer) (q : FrameQueue) : Prop where
  tidy : r.Tidy
  unparsed : r.unparsed = q.bytes
  limit : r.limit = q.limit

variable {r : FrameBuffer} {q : FrameQueue}

theorem idxOf?_terminated {payload : Bytes} (h : terminator ∉ payload) (rest : Bytes) :
    (payload ++ terminator :: rest).idxOf? terminator = some payload.length := by
  have hfirst : ∀ j (hj : j < payload.length), payload[j] ≠ terminator := fun j hj hsame =>
    h (hsame ▸ List.getElem_mem hj)
  rw [List.idxOf?_eq_some_iff]
  refine ⟨by simp, by simp, fun j hj => ?_⟩
  rw [List.getElem_append_left hj]
  exact hfirst j hj

/-- Both look for the first terminator, and only without one at the limit. -/
theorem Represents.nextFrame (h : r.Represents q) :
    r.nextFrame.2 = q.nextFrame.2 ∧ r.nextFrame.1.Represents q.nextFrame.1 := by
  have htidy := h.tidy.nextFrame
  unfold FrameQueue.nextFrame
  rw [← h.unparsed, ← h.limit]
  rcases r.nextFrame_cases with ⟨r', payload, hnext, hlimit, hunparsed, hpayload⟩ |
    ⟨hnone, hshort, hnext⟩ | ⟨hnone, hlong, hnext⟩
  · have htake : (payload ++ terminator :: r'.unparsed).take payload.length = payload :=
      List.take_left
    have hdrop : (payload ++ terminator :: r'.unparsed).drop (payload.length + 1) =
        r'.unparsed := by
      rw [← List.drop_drop, List.drop_left, List.drop_one, List.tail_cons]
    rw [hnext] at htidy ⊢
    rw [hunparsed, idxOf?_terminated hpayload]
    dsimp only
    rw [htake, hdrop]
    exact ⟨rfl, htidy, rfl, hlimit⟩
  · rw [hnext, List.idxOf?_eq_none_iff.mpr hnone]
    dsimp only
    rw [if_neg (Nat.not_lt.mpr hshort)]
    exact ⟨rfl, h⟩
  · rw [hnext, List.idxOf?_eq_none_iff.mpr hnone]
    dsimp only
    rw [if_pos hlong]
    exact ⟨rfl, h⟩

/-- A call returns the same and leaves a buffer that holds the same. -/
theorem Represents.call (h : r.Represents q) (c : ReaderCall) :
    (r.call c).1 = (q.call c).1 ∧ (r.call c).2.Represents (q.call c).2 := by
  have hfeed (b : Bytes) : (r.feed b).Represents (q.feed b) :=
    ⟨h.tidy.feed b, by rw [h.tidy.unparsed_feed, h.unparsed]; rfl, h.limit⟩
  cases c with
  | feed b => exact ⟨rfl, hfeed b⟩
  | readFrom events => exact ⟨rfl, hfeed _⟩
  | consume count =>
    refine ⟨rfl, tidy_consume r count, ?_, (limit_consume r count).trans h.limit⟩
    show (r.consume count).unparsed = q.bytes.drop count
    rw [unparsed_consume, h.unparsed]
  | nextFrame => exact ⟨congrArg Returned.frame h.nextFrame.1, h.nextFrame.2⟩

/-! ## Reading call by call -/

/-- Reads from a stream call by call: what arrives is appended, an interrupted
call is made again, and anything else ends the reading.  So many bytes arrived
before, in `total`. -/
def readCalls (r : FrameBuffer) (total : Nat) : List ReadEvent → FrameBuffer × Except Failure Nat
  | .data (x :: b) :: events => (r.feed (x :: b)).readCalls (total + (x :: b).length) events
  | .data [] :: _ => (r, .error Failure.endOfStream)
  | .interrupted :: events => r.readCalls total events
  | .wouldBlock :: _ => (r, .ok total)
  | .failed failure :: _ => (r, .error failure)
  | [] => (r, .ok total)

theorem feed_nil (r : FrameBuffer) : r.feed [] = r := by
  simp [feed]

theorem feed_feed (r : FrameBuffer) (b b' : Bytes) : (r.feed b).feed b' = r.feed (b ++ b') := by
  simp [feed]

theorem outcome_data (x : UInt8) (b : Bytes) (events : List ReadEvent) :
    ReadEvent.outcome (.data (x :: b) :: events) =
      (ReadEvent.outcome events).map ((x :: b).length + ·) := by
  unfold ReadEvent.outcome
  rw [ReadEvent.failure?, ReadEvent.delivered, List.length_append]
  cases ReadEvent.failure? events <;> rfl

theorem readCalls_eq (r : FrameBuffer) (total : Nat) (events : List ReadEvent) :
    r.readCalls total events =
      (r.feed (ReadEvent.delivered events), (ReadEvent.outcome events).map (total + ·)) := by
  fun_induction readCalls r total events with
  | case1 r total x b events ih =>
    have hmap : (ReadEvent.outcome events).map (total + (x :: b).length + ·) =
        ((ReadEvent.outcome events).map ((x :: b).length + ·)).map (total + ·) := by
      cases ReadEvent.outcome events with
      | ok n => exact congrArg Except.ok (Nat.add_assoc _ _ _)
      | error failure => rfl
    rw [ih, outcome_data, hmap, feed_feed]
    rfl
  | case3 r total events ih => exact ih
  | case2 | case4 | case5 | case6 => exact Prod.ext (feed_nil _).symm rfl

/-- Reading all that a stream has to offer is reading call by call. -/
theorem readFrom_eq_readCalls (r : FrameBuffer) (events : List ReadEvent) :
    r.readFrom events = r.readCalls 0 events := by
  rw [readCalls_eq]
  unfold readFrom
  cases ReadEvent.outcome events with
  | ok n => rw [Except.map, Nat.zero_add]
  | error failure => rfl

/-! ## A run -/

/-- Both return and show the same after every call, and the buffer stays tidy. -/
theorem Represents.history (h : r.Represents q) (calls : List ReaderCall) :
    (history FrameBuffer.call r calls).map (fun after => (after.1, after.2.unparsed)) =
        (history FrameQueue.call q calls).map (fun after => (after.1, after.2.bytes)) ∧
      ∀ after ∈ history FrameBuffer.call r calls, after.2.Tidy := by
  induction calls generalizing r q with
  | nil => exact ⟨rfl, fun _ hmem => (nomatch hmem)⟩
  | cons c calls ih =>
    obtain ⟨hreturned, hnext⟩ := h.call c
    obtain ⟨hrest, htidy⟩ := ih hnext
    simp only [Wire.history, List.map_cons, List.forall_mem_cons]
    rw [hreturned, hnext.unparsed, hrest]
    exact ⟨rfl, hnext.tidy, htidy⟩

/-- The buffer is at most twice as long as what is unparsed. -/
theorem Tidy.length_buffer_le (h : r.Tidy) : r.buffer.length ≤ 2 * r.unparsed.length := by
  unfold Tidy at h
  rw [unparsed, List.length_drop]
  omega

/-- A frame buffer behaves as a queue of bytes: whatever is called, with any
arguments and in any order, the two return the same, and after each call the
unparsed bytes are those in the queue.  At any time at most half of the buffer is
consumed, so it is never more than twice as long as what is unparsed.  The one
call that reads from a stream makes read calls until one of them brings no bytes,
and keeps all that came before, also if that one failed. -/
theorem behaves_as_queue (limit : Nat) (calls : List ReaderCall) :
    let buffers := Wire.history FrameBuffer.call (empty limit) calls
    let queues := Wire.history FrameQueue.call ⟨[], limit⟩ calls
    buffers.map (fun after => (after.1, after.2.unparsed)) =
        queues.map (fun after => (after.1, after.2.bytes)) ∧
      (∀ r ∈ empty limit :: buffers.map Prod.snd,
        r.start ≤ r.buffer.length / 2 ∧ r.buffer.length ≤ 2 * r.unparsed.length) ∧
      ∀ (r : FrameBuffer) events, r.readFrom events = r.readCalls 0 events := by
  intro buffers queues
  have hstart : (empty limit).Represents ⟨[], limit⟩ := ⟨tidy_empty limit, rfl, rfl⟩
  obtain ⟨hsame, htidy⟩ := hstart.history calls
  have htidy' : ∀ r ∈ empty limit :: buffers.map Prod.snd, r.Tidy :=
    List.forall_mem_cons.mpr ⟨hstart.tidy, List.forall_mem_map.mpr htidy⟩
  exact ⟨hsame, fun r hr => ⟨htidy' r hr, (htidy' r hr).length_buffer_le⟩, readFrom_eq_readCalls⟩

end FrameBuffer

end Supervisor.Wire
